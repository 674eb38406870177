import MdbxGo.Libmdbx.Estimate
import MdbxGo.Mdbx.Txn

/-! `Txn.EstimateRange` and `Cursor.EstimateMove`: how their slices become pointers, and for which
arguments libmdbx is asked for another estimate than the one that was meant. -/

namespace MdbxGo

/-! ### Slices as C arguments -/

/-- The length of a slice; nil is `none`. -/
def sliceLen (s : Option Bytes) : Nat := (s.getD []).length

/-- The `char *` of a slice: that of its first byte, if it has one. -/
def charPtr (s : Option Bytes) : Option Bytes := if sliceLen s > 0 then s else none

/-- `MDBXGO_SET_VAL` of a pointer and a length -/
def setVal (data : Option Bytes) (n : Nat) : Bytes := (data.getD []).take n

/-- A `MDBX_val *` that is only set where the pointer is not NULL. -/
def valPtr (data : Option Bytes) (n : Nat) : Option Bytes := data.map fun d => d.take n

@[simp] theorem setVal_charPtr (s : Option Bytes) :
    setVal (charPtr s) (sliceLen s) = s.getD [] := by
  rcases s with _ | _ | ⟨b, bs⟩ <;> simp [setVal, charPtr, sliceLen]

/-- The empty slice is taken for nil. -/
theorem valPtr_charPtr (s : Option Bytes) :
    valPtr (charPtr s) (sliceLen s) = if s = some [] then none else s := by
  rcases s with _ | _ | ⟨b, bs⟩ <;> simp [valPtr, charPtr, sliceLen]

theorem valPtr_eq_iff {s : Option Bytes} : valPtr (charPtr s) (sliceLen s) = s ↔ s ≠ some [] := by
  rw [valPtr_charPtr]
  split <;> simp_all

theorem valPtr_getD (s : Option Bytes) : (valPtr (charPtr s) (sliceLen s)).getD [] = s.getD [] := by
  rw [valPtr_charPtr]
  split <;> simp_all

theorem valPtr_isNone (s : Option Bytes) :
    (valPtr (charPtr s) (sliceLen s)).isNone = true ↔ s.getD [] = [] := by
  rcases s with _ | _ | ⟨b, bs⟩ <;> simp [valPtr, charPtr, sliceLen]

/-- The results of a method that returns a number: the number only without an error. -/
def numberOf (op : String) (r : Code × Int) : Int × Option GoError :=
  match operrno op r.1 with
  | some err => (0, some err)
  | none => (r.2, none)

variable {Pos : Type}

/-! ### EstimateRange -/

/-- The slices that `EstimateRange` takes. -/
structure RangeArgs where
  beginKey : Option Bytes
  beginData : Option Bytes
  endKey : Option Bytes
  endData : Option Bytes

namespace RangeArgs

/-- What `mdbxgo_estimate_range` makes of the pointers and the lengths of the slices, for
`mdbx_estimate_range`. -/
def passed (a : RangeArgs) : RangeArgs where
  beginKey := valPtr (charPtr a.beginKey) (sliceLen a.beginKey)
  beginData := valPtr (charPtr a.beginData) (sliceLen a.beginData)
  endKey := valPtr (charPtr a.endKey) (sliceLen a.endKey)
  endData := valPtr (charPtr a.endData) (sliceLen a.endData)

def slices (a : RangeArgs) : List (Option Bytes) := [a.beginKey, a.beginData, a.endKey, a.endData]

end RangeArgs

/-- `EstimateRange` -/
def estimateRange (t : RangeTree Pos) (a : RangeArgs) : Int × Option GoError :=
  let c := a.passed
  numberOf "mdbx_estimate_range" (t.mdbxEstimateRange c.beginKey c.beginData c.endKey c.endData)

/-- One end of a range: that of the table, or a key, perhaps with data. -/
inductive Bound
  | table
  | item (key : Bytes) (data : Option Bytes)

namespace Bound

/-- The end that a key and data give; data without a key give none. -/
def of : Option Bytes → Option Bytes → Option Bound
  | none, none => some .table
  | none, some _ => none
  | some key, data => some (.item key data)

/-- The position of the first end of a range -/
def start (t : RangeTree Pos) : Bound → Except Failure Pos
  | table => t.landed t.first
  | item key data => t.landed (t.lowerbound key (data.getD []))

/-- The position of the second end: that of the table lies behind the last item. -/
def stop (t : RangeTree Pos) : Bound → Except Failure Pos
  | table => t.landed (t.last.1, t.eof t.last.2)
  | item key data => t.landed (t.lowerbound key (data.getD []))

end Bound

namespace RangeTree

/-- The distance between the positions of two ends -/
def distanceOf (t : RangeTree Pos) (b e : Bound) : Code × Int :=
  match b.start t with
  | .error err => (err.code, 0)
  | .ok p =>
    match e.stop t with
    | .error err => (err.code, 0)
    | .ok q => stored (t.distance p q)

/-- The estimate for the interval between two ends: all items of the table, the values of one key,
or the distance between the two positions. -/
def between (t : RangeTree Pos) (b e : Bound) : Code × Int :=
  match b, e with
  | .table, .table => (Code.success, t.items)
  | .item key none, .item key' none =>
    if t.sameKey key key' then t.singleKey key else t.distanceOf b e
  | _, _ => t.distanceOf b e

/-- The estimate for the interval that the arguments name; data without a key name none. -/
def interval (t : RangeTree Pos) (a : RangeArgs) : Code × Int :=
  match Bound.of a.beginKey a.beginData, Bound.of a.endKey a.endData with
  | some b, some e =>
    match t.refused with
    | some err => (err.code, 0)
    | none => if t.items == 0 then (Code.success, 0) else t.between b e
  | _, _ => (Code.einval, 0)

end RangeTree

variable {t : RangeTree Pos} {a : RangeArgs}

theorem estimateTo_eq (t : RangeTree Pos) (b : Bound) {start : Option Failure × Pos}
    (hstart : b.start t = t.landed start) (key data : Option Bytes) (e : Bound)
    (he : Bound.of key data = some e) : t.estimateTo start key data = t.distanceOf b e := by
  unfold RangeTree.estimateTo RangeTree.distanceOf
  rw [hstart]
  cases t.landed start with
  | error err => rfl
  | ok p =>
    cases key with
    | none =>
      cases data with
      | none => cases he; rfl
      | some d => cases he
    | some k => cases he; rfl

theorem Bound.of_eq_none {key data : Option Bytes} :
    Bound.of key data = none ↔ (data.isSome && key.isNone) = true := by
  rcases key with _ | k <;> rcases data with _ | d <;> simp [Bound.of]

theorem Bound.of_none {data : Option Bytes} {b : Bound} (h : Bound.of none data = some b) :
    data = none ∧ b = .table := by
  rcases data with _ | d <;> cases h
  exact ⟨rfl, rfl⟩

theorem estimatePresent_eq {beginKey beginData endKey endData : Option Bytes} {b e : Bound}
    (hb : Bound.of beginKey beginData = some b) (he : Bound.of endKey endData = some e) :
    t.estimatePresent beginKey beginData endKey endData = t.between b e := by
  rcases beginKey with _ | key
  · obtain ⟨rfl, rfl⟩ := Bound.of_none hb
    rcases endKey with _ | key'
    · obtain ⟨rfl, rfl⟩ := Bound.of_none he
      rfl
    · cases he
      exact estimateTo_eq t .table rfl (some key') endData _ rfl
  · cases hb
    rcases endKey with _ | key'
    · obtain ⟨rfl, rfl⟩ := Bound.of_none he
      have hdistance := estimateTo_eq t (.item key beginData) rfl none none _ rfl
      rcases beginData with _ | d <;> exact hdistance
    · cases he
      have hdistance := estimateTo_eq t (.item key beginData) rfl (some key') endData _ rfl
      unfold RangeTree.estimatePresent
      dsimp only
      rw [hdistance]
      rcases beginData with _ | d <;> rcases endData with _ | d' <;> rfl

/-- `mdbx_estimate_range` estimates the interval that the arguments name which reach it. -/
theorem mdbxEstimateRange_eq (t : RangeTree Pos) (a : RangeArgs) :
    t.mdbxEstimateRange a.beginKey a.beginData a.endKey a.endData = t.interval a := by
  obtain ⟨beginKey, beginData, endKey, endData⟩ := a
  unfold RangeTree.mdbxEstimateRange RangeTree.interval
  dsimp only
  cases hb : Bound.of beginKey beginData with
  | none => rw [if_pos (Bound.of_eq_none.mp hb)]
  | some b =>
    have hbegin : ¬(beginData.isSome && beginKey.isNone) = true := fun h => by
      rw [Bound.of_eq_none.mpr h] at hb
      cases hb
    rw [if_neg hbegin]
    cases he : Bound.of endKey endData with
    | none => rw [if_pos (Bound.of_eq_none.mp he)]
    | some e =>
      have hend : ¬(endData.isSome && endKey.isNone) = true := fun h => by
        rw [Bound.of_eq_none.mpr h] at he
        cases he
      rw [if_neg hend]
      cases t.refused with
      | some err => rfl
      | none =>
        dsimp only
        by_cases hitems : (t.items == 0) = true
        · rw [if_pos hitems, if_pos hitems]
        · rw [if_neg hitems, if_neg hitems]
          exact estimatePresent_eq hb he

/-- `EstimateRange` keeps absent and empty arguments apart: those reach `mdbx_estimate_range`, and
the estimate is for the interval that they name. -/
def KeepsApart (t : RangeTree Pos) (a : RangeArgs) : Prop :=
  a.passed = a ∧ estimateRange t a = numberOf "mdbx_estimate_range" (t.interval a)

theorem passed_eq_iff : a.passed = a ↔ ∀ s ∈ a.slices, s ≠ some [] := by
  obtain ⟨beginKey, beginData, endKey, endData⟩ := a
  simp only [RangeArgs.passed, RangeArgs.mk.injEq, valPtr_eq_iff]
  simp [RangeArgs.slices]

/-- A leaf with the keys `a` and `b`: positions are indices, and a mark for the end. -/
def twoKeys : RangeTree (Nat × Bool) where
  pointed _ := true
  distance p q := .ok (if p.1 = q.1 then q.2.toNat - p.2.toNat else q.1 - p.1)
  eof p := (p.1, true)
  distance_valid := by simp
  items := 2
  sameKey := (· == ·)
  first := (none, (0, false))
  last := (none, (1, false))
  lowerbound key _ :=
    if key ≤ [97] then (none, (0, false))
    else if key ≤ [98] then (none, (1, false))
    else (some ⟨Code.notFound, by decide, by decide⟩, (1, true))
  values key :=
    if key = [97] ∨ key = [98] then .ok 1 else .error ⟨Code.notFound, by decide, by decide⟩

/-- `mdbxgo_cursor_get_val` -/
def mdbxgoCursorGetVal (t : MoveTree Pos) (pos : Pos) (kdata : Option Bytes) (kn : Nat)
    (vdata : Option Bytes) (vn : Nat) (op : CursorOp) : Code × Pos :=
  t.mdbxCursorGet pos (setVal kdata kn) (setVal vdata vn) op

/-- `mdbxgo_cursor_get_empty` -/
def mdbxgoCursorGetEmpty (t : MoveTree Pos) (pos : Pos) (op : CursorOp) : Code × Pos :=
  t.mdbxCursorGet pos [] [] op

/-- `Get`: its error, and where it leaves the cursor. The operation is a C `enum`. -/
def cursorGet (t : MoveTree Pos) (pos : Pos) (key data : Option Bytes) (op : UInt64) :
    Option GoError × Pos :=
  let r : Code × Pos :=
    if sliceLen key ≠ 0 ∨ sliceLen data ≠ 0 then
      mdbxgoCursorGetVal t pos (charPtr key) (sliceLen key) (charPtr data) (sliceLen data)
        op.toUInt32
    else mdbxgoCursorGetEmpty t pos op.toUInt32
  (operrno "mdbx_cursor_get" r.1, r.2)

/-- `mdbxgo_estimate_move` -/
def mdbxgoEstimateMove (t : MoveTree Pos) (pos : Pos) (kdata : Option Bytes) (kn : Nat)
    (vdata : Option Bytes) (vn : Nat) (op : CursorOp) : (Code × Int) × Pos :=
  t.mdbxEstimateMove pos (valPtr kdata kn) (valPtr vdata vn) op

/-- `EstimateMove`: its results, and where it leaves the cursor. -/
def estimateMove (t : MoveTree Pos) (pos : Pos) (key data : Option Bytes) (op : UInt64) :
    (Int × Option GoError) × Pos :=
  let r := mdbxgoEstimateMove t pos (charPtr key) (sliceLen key) (charPtr data) (sliceLen data)
    op.toUInt32
  (numberOf "mdbx_estimate_move" r.1, r.2)

/-- The distance between two positions, as `EstimateMove` returns it. -/
def moveBetween (t : MoveTree Pos) (pos next : Pos) : Int × Option GoError :=
  numberOf "mdbx_estimate_move" (stored (t.distance pos next))

/-- `EstimateMove` takes its arguments as `Get` does: they are invalid only if they are to `Get`; it
returns the distance to where that `Get` moves the cursor, or else the code that `Get` fails with;
and the cursor stays. -/
structure TakesAsGet (t : MoveTree Pos) (pos : Pos) (key data : Option Bytes) (op : UInt64) :
    Prop where
  invalid : (estimateMove t pos key data op).1.2 = operrno "mdbx_estimate_move" Code.einval →
    (cursorGet t pos key data op).1 = operrno "mdbx_cursor_get" Code.einval
  moves : (cursorGet t pos key data op).1 = none →
    (estimateMove t pos key data op).1 = moveBetween t pos (cursorGet t pos key data op).2
  fails : (cursorGet t pos key data op).1 ≠ none →
    (estimateMove t pos key data op).1 = moveBetween t pos (cursorGet t pos key data op).2 ∨
    ∃ code, (cursorGet t pos key data op).1 = operrno "mdbx_cursor_get" code ∧
      (estimateMove t pos key data op).1.2 = operrno "mdbx_estimate_move" code
  stays : (estimateMove t pos key data op).2 = pos

/-- An operation that `EstimateMove` refuses for a nil or empty key or data. -/
def refusesEmpty (key data : Option Bytes) (op : CursorOp) : Bool :=
  data.getD [] == [] && MoveTree.masked MoveTree.dataMask op ||
    key.getD [] == [] && MoveTree.masked MoveTree.keyMask op

/-- Where the code does so: an operation that needs a key or data is given one that is not empty, a
lower bound that `cursor_ops` does not find exact is no distance away, and the last item is as far
away as the end behind it. -/
def MoveFits (t : MoveTree Pos) (pos : Pos) (key data : Option Bytes) (op : CursorOp) : Prop :=
  t.refused = none → op ≤ CursorOp.seekAndGetMultiple →
    refusesEmpty key data op = false ∧
    (op = CursorOp.setLowerbound → ∀ next,
      t.lowerbound pos (key.getD []) (data.getD []) = .item false next →
        t.distance pos next = .ok 0) ∧
    (op = CursorOp.last → ∀ next, t.outerLast pos = (none, next) →
      moveBetween t pos (t.eof next) = moveBetween t pos next)

variable {m : MoveTree Pos} {pos : Pos} {key data : Option Bytes} {op : UInt64}

/-- Both branches of `Get` hand over the same two values. -/
theorem cursorGet_eq : cursorGet m pos key data op =
    (operrno "mdbx_cursor_get" (m.mdbxCursorGet pos (key.getD []) (data.getD []) op.toUInt32).1,
      (m.mdbxCursorGet pos (key.getD []) (data.getD []) op.toUInt32).2) := by
  unfold cursorGet mdbxgoCursorGetVal mdbxgoCursorGetEmpty
  rw [setVal_charPtr, setVal_charPtr]
  split
  · rfl
  · next hempty =>
    have hkey : key.getD [] = [] := by simpa [sliceLen] using (not_or.mp hempty).1
    have hdata : data.getD [] = [] := by simpa [sliceLen] using (not_or.mp hempty).2
    rw [hkey, hdata]

theorem rejects_eq : MoveTree.rejects (valPtr (charPtr key) (sliceLen key))
    (valPtr (charPtr data) (sliceLen data)) op.toUInt32 = refusesEmpty key data op.toUInt32 := by
  have hisNone : ∀ s : Option Bytes,
      (valPtr (charPtr s) (sliceLen s)).isNone = (s.getD [] == []) := by
    intro s
    rw [Bool.eq_iff_iff, valPtr_isNone, beq_iff_eq]
  unfold MoveTree.rejects refusesEmpty
  rw [hisNone, hisNone]

/-- `EstimateMove` past its first checks -/
theorem estimateMove_eq (hcurrent : op.toUInt32 ≠ CursorOp.getCurrent)
    (hmultiple : op.toUInt32 ≠ CursorOp.getMultiple) (hrefused : m.refused = none)
    (hpos : m.pointed pos = true) : estimateMove m pos key data op =
      let r := m.cursorOps pos (key.getD []) (data.getD []) op.toUInt32
      if refusesEmpty key data op.toUInt32 then
        (numberOf "mdbx_estimate_move" (Code.einval, 0), pos)
      else if r.1 ≠ Code.success ∧ (r.1 ≠ Code.notFound ∨ m.pointed r.2 = false) then
        (numberOf "mdbx_estimate_move" (r.1, 0), pos)
      else (moveBetween m pos (if op.toUInt32 = CursorOp.last then m.eof r.2 else r.2), pos) := by
  unfold estimateMove mdbxgoEstimateMove MoveTree.mdbxEstimateMove
  rw [rejects_eq, valPtr_getD, valPtr_getD, hrefused]
  simp only [hcurrent, hmultiple, hpos, beq_iff_eq, Bool.or_eq_true, or_self, if_false,
    Bool.not_true, Bool.false_eq_true, bne_iff_ne, Bool.and_eq_true, Bool.not_eq_true']
  split
  · rfl
  · split <;> rfl

theorem numberOf_zero (op : String) (code : Code) :
    numberOf op (code, 0) = (0, operrno op code) := by
  unfold numberOf
  cases h : operrno op code <;> simp

theorem moveBetween_ok {next : Pos} {n : Int} (h : m.distance pos next = .ok n) :
    moveBetween m pos next = (n, none) := by
  unfold moveBetween
  rw [h]
  rfl

theorem moveBetween_error {next : Pos} {e : Failure} (h : m.distance pos next = .error e) :
    moveBetween m pos next = (0, operrno "mdbx_estimate_move" e.code) := by
  unfold moveBetween
  rw [h]
  exact numberOf_zero _ _

theorem moveBetween_zero {next : Pos} :
    moveBetween m pos next = (0, none) ↔ m.distance pos next = .ok 0 := by
  cases h : m.distance pos next with
  | ok n => simp [moveBetween_ok h]
  | error e => simp [moveBetween_error h, operrno_failure]

/-- Both fail with one code. -/
theorem takesAsGet_fails {code : Code} (hsuccess : code ≠ Code.success)
    (htrue : code ≠ Code.resultTrue)
    (hget : (cursorGet m pos key data op).1 = operrno "mdbx_cursor_get" code)
    (hest : estimateMove m pos key data op = (numberOf "mdbx_estimate_move" (code, 0), pos)) :
    TakesAsGet m pos key data op := by
  rw [numberOf_zero] at hest
  refine ⟨?_, ?_, fun _ => .inr ⟨code, hget, by rw [hest]⟩, by rw [hest]⟩
  · intro hinvalid
    rw [hest, operrno_eq_einval] at hinvalid
    rw [hget, hinvalid]
  · intro hnone
    rw [hget, operrno_eq_none] at hnone
    exact absurd hnone (by simp [hsuccess, htrue])

/-- The distance is that to where `Get` leaves the cursor. -/
theorem takesAsGet_moves
    (hest : estimateMove m pos key data op =
      (moveBetween m pos (cursorGet m pos key data op).2, pos)) : TakesAsGet m pos key data op := by
  refine ⟨?_, fun _ => by rw [hest], fun _ => .inl (by rw [hest]), by rw [hest]⟩
  intro hinvalid
  rw [hest] at hinvalid
  cases hdistance : m.distance pos (cursorGet m pos key data op).2 with
  | ok n =>
    rw [moveBetween_ok hdistance] at hinvalid
    cases hinvalid
  | error e =>
    rw [moveBetween_error hdistance, operrno_eq_einval] at hinvalid
    exact absurd hinvalid (m.distance_valid _ _ e hdistance)

/-- Where the handles or the operation are refused, both report it. -/
theorem takesAsGet_refused {e : Failure} (hcurrent : op.toUInt32 ≠ CursorOp.getCurrent)
    (hmultiple : op.toUInt32 ≠ CursorOp.getMultiple) (h : m.refused = some e) :
    TakesAsGet m pos key data op := by
  apply takesAsGet_fails e.not_success e.not_resultTrue
  · rw [cursorGet_eq]
    simp [MoveTree.mdbxCursorGet, h]
  · unfold estimateMove mdbxgoEstimateMove MoveTree.mdbxEstimateMove
    simp [hcurrent, hmultiple, h]

variable (hcurrent : op.toUInt32 ≠ CursorOp.getCurrent)
  (hmultiple : op.toUInt32 ≠ CursorOp.getMultiple) (hrefused : m.refused = none)
  (hpos : m.pointed pos = true)

include hrefused in
theorem cursorGet_ops : cursorGet m pos key data op =
    (operrno "mdbx_cursor_get" (m.cursorOps pos (key.getD []) (data.getD []) op.toUInt32).1,
      (m.cursorOps pos (key.getD []) (data.getD []) op.toUInt32).2) := by
  rw [cursorGet_eq]
  simp [MoveTree.mdbxCursorGet, hrefused]

include hcurrent hmultiple hrefused hpos in
theorem takesAsGet_unknown (hop : CursorOp.seekAndGetMultiple < op.toUInt32) :
    TakesAsGet m pos key data op := by
  have hops : m.cursorOps pos (key.getD []) (data.getD []) op.toUInt32 = (Code.einval, pos) :=
    MoveTree.cursorOps_unknown hop
  apply takesAsGet_fails (show Code.einval ≠ Code.success by decide) (by decide)
  · rw [cursorGet_ops hrefused, hops]
  · rw [estimateMove_eq hcurrent hmultiple hrefused hpos, hops]
    dsimp only
    split
    · rfl
    · rw [if_pos ⟨by decide, .inl (by decide)⟩]

include hcurrent hmultiple hrefused hpos in
/-- An operation that needs what is nil or empty: invalid to `EstimateMove`, and to `Get` not. -/
theorem not_takesAsGet_empty (hop : ¬CursorOp.seekAndGetMultiple < op.toUInt32)
    (hempty : refusesEmpty key data op.toUInt32 = true) : ¬TakesAsGet m pos key data op := by
  intro htakes
  have hest : (estimateMove m pos key data op).1.2 =
      operrno "mdbx_estimate_move" Code.einval := by
    rw [estimateMove_eq hcurrent hmultiple hrefused hpos]
    dsimp only
    rw [if_pos hempty, numberOf_zero]
  have hget := htakes.invalid hest
  rw [cursorGet_ops hrefused, operrno_eq_einval] at hget
  rcases m.cursorOps_cases pos (key.getD []) (data.getD []) hop with
    ⟨hlower, next, hgreater⟩ | ⟨f, next, hops, hvalid⟩
  · rw [hlower, MoveTree.cursorOps_greater hgreater] at hget
    exact absurd hget (show Code.resultTrue ≠ Code.einval by decide)
  · rw [hops] at hget
    cases f with
    | none => exact absurd hget (show Code.success ≠ Code.einval by decide)
    | some e => exact hvalid e rfl hget

include hcurrent hmultiple hrefused hpos in
/-- An inexact lower bound is a success of another code, and `EstimateMove` returns 0 with it. -/
theorem takesAsGet_greater {next : Pos} (hempty : refusesEmpty key data op.toUInt32 = false)
    (hlower : op.toUInt32 = CursorOp.setLowerbound)
    (hgreater : m.lowerbound pos (key.getD []) (data.getD []) = .item false next) :
    TakesAsGet m pos key data op ↔ m.distance pos next = .ok 0 := by
  have hops : m.cursorOps pos (key.getD []) (data.getD []) op.toUInt32 =
      (Code.resultTrue, next) := by
    rw [hlower]
    exact MoveTree.cursorOps_greater hgreater
  have hget : cursorGet m pos key data op = (none, next) := by
    rw [cursorGet_ops hrefused, hops]
    rfl
  have hest : estimateMove m pos key data op = ((0, none), pos) := by
    rw [estimateMove_eq hcurrent hmultiple hrefused hpos, hops]
    dsimp only
    rw [if_neg (by simp [hempty]), if_pos ⟨by decide, .inl (by decide)⟩]
    rfl
  rw [← moveBetween_zero]
  constructor
  · intro htakes
    have hmoves := htakes.moves (by rw [hget])
    rw [hest, hget] at hmoves
    exact hmoves.symm
  · intro hzero
    apply takesAsGet_moves
    rw [hest, hget, hzero]

include hcurrent hmultiple hrefused hpos in
/-- A step that `cursor_ops` makes like any call, with `Last` counted to the end. -/
theorem estimateMove_step {f : Option Failure} {next : Pos}
    (hempty : refusesEmpty key data op.toUInt32 = false)
    (hops : m.cursorOps pos (key.getD []) (data.getD []) op.toUInt32 = (Failure.codeOf f, next)) :
    estimateMove m pos key data op = match m.landed (f, next) with
      | .ok next =>
        (moveBetween m pos (if op.toUInt32 = CursorOp.last then m.eof next else next), pos)
      | .error e => (numberOf "mdbx_estimate_move" (e.code, 0), pos) := by
  rw [estimateMove_eq hcurrent hmultiple hrefused hpos, hops]
  dsimp only
  rw [if_neg (by simp [hempty])]
  cases f with
  | none => rw [if_neg (by simp)]; rfl
  | some e =>
    by_cases hlanded : e.code = Code.notFound ∧ m.pointed next = true
    · rw [if_neg (by simp [hlanded])]
      simp [Tree.landed, hlanded]
    · rw [if_pos ⟨e.not_success, by
        by_cases hcode : e.code = Code.notFound
        · exact .inr (by simpa [hcode] using hlanded)
        · exact .inl hcode⟩]
      simp [Tree.landed, hlanded]

include hcurrent hmultiple hrefused hpos in
theorem takesAsGet_step {f : Option Failure} {next : Pos}
    (hempty : refusesEmpty key data op.toUInt32 = false) (hlast : op.toUInt32 ≠ CursorOp.last)
    (hops : m.cursorOps pos (key.getD []) (data.getD []) op.toUInt32 = (Failure.codeOf f, next)) :
    TakesAsGet m pos key data op := by
  have hest := estimateMove_step hcurrent hmultiple hrefused hpos hempty hops
  have hget : cursorGet m pos key data op =
      (operrno "mdbx_cursor_get" (Failure.codeOf f), next) := by
    rw [cursorGet_ops hrefused, hops]
  simp only [if_neg hlast] at hest
  cases hlanded : m.landed (f, next) with
  | ok next' =>
    obtain rfl := m.landed_ok hlanded
    apply takesAsGet_moves
    rw [hest, hlanded, hget]
  | error e =>
    obtain rfl := m.landed_error hlanded
    apply takesAsGet_fails e.not_success e.not_resultTrue
    · rw [hget]
      rfl
    · rw [hest, hlanded]

include hcurrent hmultiple hrefused hpos in
/-- `EstimateMove` counts to the end behind the last item, and `Get` moves to the last item. -/
theorem takesAsGet_last (hempty : refusesEmpty key data op.toUInt32 = false)
    (hlast : op.toUInt32 = CursorOp.last) : TakesAsGet m pos key data op ↔
      ∀ next, m.outerLast pos = (none, next) →
        moveBetween m pos (m.eof next) = moveBetween m pos next := by
  have hops : m.cursorOps pos (key.getD []) (data.getD []) op.toUInt32 =
      (Failure.codeOf (m.outerLast pos).1, (m.outerLast pos).2) := by
    rw [hlast]
    exact MoveTree.cursorOps_last
  have hest := estimateMove_step hcurrent hmultiple hrefused hpos hempty hops
  have hget : cursorGet m pos key data op =
      (operrno "mdbx_cursor_get" (Failure.codeOf (m.outerLast pos).1), (m.outerLast pos).2) := by
    rw [cursorGet_ops hrefused, hops]
  simp only [if_pos hlast] at hest
  rcases houter : m.outerLast pos with ⟨_ | e, next⟩
  · rw [houter] at hest hget
    have hmoved : estimateMove m pos key data op = (moveBetween m pos (m.eof next), pos) := hest
    constructor
    · rintro htakes next' ⟨⟩
      have hmoves := htakes.moves (by rw [hget]; rfl)
      rwa [hmoved, hget] at hmoves
    · intro hend
      apply takesAsGet_moves
      rw [hmoved, hget, hend next rfl]
  · have hlanded : m.landed (some e, next) = .error e := by
      have hpoor := m.outerLast_notFound pos e (by rw [houter])
      rw [houter] at hpoor
      by_cases hcode : e.code = Code.notFound
      · simp [Tree.landed, hpoor hcode]
      · simp [Tree.landed, hcode]
    rw [houter, hlanded] at hest
    rw [houter] at hget
    have htakes : TakesAsGet m pos key data op := by
      apply takesAsGet_fails e.not_success e.not_resultTrue
      · rw [hget]
        rfl
      · exact hest
    simp [htakes]

/-- The same leaf for a cursor: `ops` holds what `MDBX_SET` and `MDBX_SET_KEY` do. -/
def twoKeysMoved : MoveTree (Nat × Bool) where
  toTree := twoKeys.toTree
  dupSort := false
  outerLast _ := (none, (1, false))
  seekRange _ key := if key = [97] then .item true (0, false) else .item false (1, false)
  innerPointed _ := false
  innerSeek pos _ := .item false pos
  cmpData _ _ := 0
  nextNodup pos := (none, pos)
  ops _ pos key _ :=
    if key = [97] then (none, (0, false))
    else if key = [98] then (none, (1, false))
    else (some ⟨Code.notFound, by decide, by decide⟩, pos)
  outerLast_valid := by simp
  outerLast_notFound := by simp
  seekRange_valid := by
    intro pos key e next h
    split at h <;> cases h
  innerSeek_valid := by simp
  nextNodup_valid := by simp
  ops_valid := by
    intro op pos key data e h
    split at h
    · cases h
    · split at h <;> cases h
      decide

end MdbxGo
