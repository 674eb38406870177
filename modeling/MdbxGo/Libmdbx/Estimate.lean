import MdbxGo.Libmdbx.Table

/-! `mdbx_estimate_range` and `mdbx_estimate_move`, over the positions that the calls below them
find in the tree of a table. -/

namespace MdbxGo

/-- A tree as the estimates use it: what the checks of the transaction and of the handle report,
`is_pointed`, `mdbx_estimate_distance` and the mark `z_eof_hard`. -/
structure Tree (Pos : Type) where
  refused : Option Failure := none
  pointed : Pos → Bool
  distance : Pos → Pos → Except Failure Int
  eof : Pos → Pos
  /-- Two cursors of one transaction and table are not an invalid argument. -/
  distance_valid : ∀ p q e, distance p q = .error e → e.code ≠ Code.einval

/-- The code of a call, and the number that it stores: none, where it fails. -/
def stored : Except Failure Int → Code × Int
  | .ok n => (Code.success, n)
  | .error e => (e.code, 0)

/-- A cursor after a step that may have failed; after not-found it may still point at something. -/
def Tree.landed {Pos : Type} (t : Tree Pos) : Option Failure × Pos → Except Failure Pos
  | (none, p) => .ok p
  | (some e, p) => if e.code == Code.notFound && t.pointed p then .ok p else .error e

theorem Tree.landed_ok {Pos : Type} (t : Tree Pos) {f : Option Failure} {p q : Pos}
    (h : t.landed (f, p) = .ok q) : q = p := by
  cases f with
  | none =>
    cases h
    rfl
  | some e =>
    unfold Tree.landed at h
    dsimp only at h
    split at h <;> cases h
    rfl

theorem Tree.landed_error {Pos : Type} (t : Tree Pos) {f : Option Failure} {p : Pos} {e : Failure}
    (h : t.landed (f, p) = .error e) : f = some e := by
  cases f with
  | none => cases h
  | some e' =>
    unfold Tree.landed at h
    dsimp only at h
    split at h <;> cases h
    rfl

/-! ### Ranges -/

/-- What `mdbx_estimate_range` asks of a table: `tree->items`, whether `clc->k.cmp` is 0,
`outer_first`, `outer_last`, and `cursor_seek` with `MDBX_SET_LOWERBOUND` and with `MDBX_SET`, where
the number of values of the key follows. -/
structure RangeTree (Pos : Type) extends Tree Pos where
  items : Nat
  sameKey : Bytes → Bytes → Bool
  first : Option Failure × Pos
  last : Option Failure × Pos
  lowerbound : Bytes → Bytes → Option Failure × Pos
  values : Bytes → Except Failure Nat

namespace RangeTree

variable {Pos : Type}

/-- The case of a single key -/
def singleKey (t : RangeTree Pos) (key : Bytes) : Code × Int :=
  match t.values key with
  | .ok n => (Code.success, n)
  | .error e => (if e.code == Code.notFound then Code.success else e.code, 0)

/-- From the position of `begin` on -/
def estimateTo (t : RangeTree Pos) (start : Option Failure × Pos)
    (endKey endData : Option Bytes) : Code × Int :=
  match t.landed start with
  | .error e => (e.code, 0)
  | .ok p =>
    let stop : Option Failure × Pos :=
      match endKey with
      | none => (t.last.1, t.eof t.last.2)
      | some key => t.lowerbound key (endData.getD [])
    match t.landed stop with
    | .error e => (e.code, 0)
    | .ok q => stored (t.distance p q)

/-- The branches of `mdbx_estimate_range` for the pointers that are there -/
def estimatePresent (t : RangeTree Pos) (beginKey beginData endKey endData : Option Bytes) :
    Code × Int :=
  match beginKey, endKey with
  | none, none => (Code.success, t.items)
  | none, some _ => t.estimateTo t.first endKey endData
  | some key, none => t.estimateTo (t.lowerbound key (beginData.getD [])) endKey endData
  | some key, some key' =>
    if beginData.isNone && endData.isNone && t.sameKey key key' then t.singleKey key
    else t.estimateTo (t.lowerbound key (beginData.getD [])) endKey endData

/-- `mdbx_estimate_range`; a NULL pointer is `none`, and `MDBX_EPSILON` is not passed from Go. -/
def mdbxEstimateRange (t : RangeTree Pos) (beginKey beginData endKey endData : Option Bytes) :
    Code × Int :=
  if beginData.isSome && beginKey.isNone then (Code.einval, 0)
  else if endData.isSome && endKey.isNone then (Code.einval, 0)
  else
    match t.refused with
    | some e => (e.code, 0)
    | none =>
      if t.items == 0 then (Code.success, 0)
      else t.estimatePresent beginKey beginData endKey endData

end RangeTree

/-! ### Moves -/

/-- `MDBX_cursor_op`, of 37 operations -/
abbrev CursorOp := UInt32

namespace CursorOp

def getBoth : CursorOp := 2
def getBothRange : CursorOp := 3
def getCurrent : CursorOp := 4
def getMultiple : CursorOp := 5
def last : CursorOp := 6
def nextMultiple : CursorOp := 10
def set : CursorOp := 15
def setKey : CursorOp := 16
def setRange : CursorOp := 17
def prevMultiple : CursorOp := 18
def setLowerbound : CursorOp := 19
def pairGreaterOrEqual : CursorOp := 34
def pairGreaterThan : CursorOp := 35
def seekAndGetMultiple : CursorOp := 36

end CursorOp

/-- What a search finds: an item, which is the one that was looked for or a greater one, or a
failure; and where it leaves the cursor. -/
inductive Found (Pos : Type)
  | item (exact : Bool) (next : Pos)
  | fails (e : Failure) (next : Pos)

/-- What `cursor_ops` asks of a table: whether there is a `subcur`, `outer_last`, what the search of
`MDBX_SET_LOWERBOUND` is made of, and all other operations that it knows. `seekRange` and
`innerSeek` are `cursor_seek` with `MDBX_SET_RANGE`, by the key and among the values of a key,
`innerPointed` tells whether these have a cursor, `cmpData` is `clc->v.cmp` with the single value of
a key, and `nextNodup` is `outer_next` with `MDBX_NEXT_NODUP`. Only pointers that are NULL are
invalid to these, and no caller here passes any. -/
structure MoveTree (Pos : Type) extends Tree Pos where
  dupSort : Bool
  outerLast : Pos → Option Failure × Pos
  seekRange : Pos → Bytes → Found Pos
  innerPointed : Pos → Bool
  innerSeek : Pos → Bytes → Found Pos
  cmpData : Bytes → Pos → Int
  nextNodup : Pos → Option Failure × Pos
  ops : CursorOp → Pos → Bytes → Bytes → Option Failure × Pos
  outerLast_valid : ∀ pos e, (outerLast pos).1 = some e → e.code ≠ Code.einval
  /-- There is no last item in an empty table only, where a cursor points at nothing. -/
  outerLast_notFound : ∀ pos e, (outerLast pos).1 = some e → e.code = Code.notFound →
    pointed (outerLast pos).2 = false
  seekRange_valid : ∀ pos key e next, seekRange pos key = .fails e next → e.code ≠ Code.einval
  innerSeek_valid : ∀ pos data e next, innerSeek pos data = .fails e next → e.code ≠ Code.einval
  nextNodup_valid : ∀ pos e, (nextNodup pos).1 = some e → e.code ≠ Code.einval
  ops_valid : ∀ op pos key data e, (ops op pos key data).1 = some e → e.code ≠ Code.einval

namespace MoveTree

variable {Pos : Type}

/-- The key has no value so great, and the next key is taken. -/
def nextKey (t : MoveTree Pos) (pos : Pos) : Found Pos :=
  match t.nextNodup pos with
  | (none, next) => .item false next
  | (some e, next) => .fails e next

/-- `MDBX_SET_LOWERBOUND`. Where there may be several values, a key that is found is not exact
before its values are searched, and without data, which have no `iov_base` then, these are not. -/
def lowerbound (t : MoveTree Pos) (pos : Pos) (key data : Bytes) : Found Pos :=
  match t.seekRange pos key with
  | .fails e next => .fails e next
  | .item exact next =>
    if !exact || !t.dupSort then .item exact next
    else if data == [] then .item false next
    else if t.innerPointed next then
      match t.innerSeek next data with
      | .item exact next => .item exact next
      | .fails e next => if e.code == Code.notFound then t.nextKey next else .fails e next
    else if 0 < t.cmpData data next then t.nextKey next
    else .item (t.cmpData data next == 0) next

/-- `cursor_ops`, and where it leaves the cursor -/
def cursorOps (t : MoveTree Pos) (pos : Pos) (key data : Bytes) (op : CursorOp) : Code × Pos :=
  if CursorOp.seekAndGetMultiple < op then (Code.einval, pos)
  else if op == CursorOp.setLowerbound then
    match t.lowerbound pos key data with
    | .item exact next => (if exact then Code.success else Code.resultTrue, next)
    | .fails e next => (e.code, next)
  else if op == CursorOp.last then
    ((Failure.codeOf (t.outerLast pos).1), (t.outerLast pos).2)
  else if !t.dupSort && (op == CursorOp.getBoth || op == CursorOp.getBothRange ||
      op == CursorOp.nextMultiple || op == CursorOp.prevMultiple) then (Code.incompatible, pos)
  else (Failure.codeOf (t.ops op pos key data).1, (t.ops op pos key data).2)

/-- `mdbx_cursor_get`, and where it leaves the cursor -/
def mdbxCursorGet (t : MoveTree Pos) (pos : Pos) (key data : Bytes) (op : CursorOp) : Code × Pos :=
  match t.refused with
  | some e => (e.code, pos)
  | none => t.cursorOps pos key data op

/-- The operations that need data, as bits -/
def dataMask : UInt32 :=
  1 <<< CursorOp.getBoth ||| 1 <<< CursorOp.getBothRange ||| 1 <<< CursorOp.setKey

/-- The operations that need a key, as bits -/
def keyMask : UInt32 := dataMask ||| 1 <<< CursorOp.set ||| 1 <<< CursorOp.setRange

/-- `mask & (1 << op)`. C leaves a shift by 32 and more open; the machines take the count modulo 32,
and so two of the operations behind bit 31 fall on bits of the masks. -/
def masked (mask : UInt32) (op : CursorOp) : Bool := mask &&& (1 <<< op) != 0

example : masked dataMask CursorOp.pairGreaterOrEqual = true ∧
    masked dataMask CursorOp.pairGreaterThan = true := by decide

/-- What `mdbx_estimate_move` does not accept: operations without the key or the data that their
bits call for. -/
def rejects (key data : Option Bytes) (op : CursorOp) : Bool :=
  data.isNone && masked dataMask op || key.isNone && masked keyMask op

/-- `mdbx_estimate_move`: its code, the number, and where the cursor is, of which it moves a
copy. -/
def mdbxEstimateMove (t : MoveTree Pos) (pos : Pos) (key data : Option Bytes) (op : CursorOp) :
    (Code × Int) × Pos :=
  if op == CursorOp.getCurrent || op == CursorOp.getMultiple then ((Code.einval, 0), pos)
  else
    match t.refused with
    | some e => ((e.code, 0), pos)
    | none =>
      if !t.pointed pos then ((Code.enodata, 0), pos)
      else if rejects key data op then ((Code.einval, 0), pos)
      else
        let r := t.cursorOps pos (key.getD []) (data.getD []) op
        if r.1 != Code.success && (r.1 != Code.notFound || !t.pointed r.2) then ((r.1, 0), pos)
        else (stored (t.distance pos (if op == CursorOp.last then t.eof r.2 else r.2)), pos)

variable {t : MoveTree Pos} {pos : Pos} {key data : Bytes} {op : CursorOp}

theorem cursorOps_unknown (hop : CursorOp.seekAndGetMultiple < op) :
    t.cursorOps pos key data op = (Code.einval, pos) :=
  if_pos hop

theorem nextKey_valid {e : Failure} {next : Pos} (h : t.nextKey pos = .fails e next) :
    e.code ≠ Code.einval := by
  unfold nextKey at h
  split at h
  · cases h
  · rename_i hnext
    cases h
    exact t.nextNodup_valid pos e (by rw [hnext])

theorem lowerbound_valid {e : Failure} {next : Pos}
    (h : t.lowerbound pos key data = .fails e next) : e.code ≠ Code.einval := by
  unfold lowerbound at h
  split at h
  · rename_i hseek
    cases h
    exact t.seekRange_valid pos key _ _ hseek
  · split at h
    · cases h
    · split at h
      · cases h
      · split at h
        · split at h
          · cases h
          · rename_i hinner
            split at h
            · exact nextKey_valid h
            · cases h
              exact t.innerSeek_valid _ data _ _ hinner
        · split at h
          · exact nextKey_valid h
          · cases h

/-- The search is exact when the key is found and, where there may be several values, data are given
and found at it. -/
theorem lowerbound_exact_iff {next : Pos} : t.lowerbound pos key data = .item true next ↔
    ∃ found, t.seekRange pos key = .item true found ∧
      if t.dupSort = false then next = found
      else data ≠ [] ∧ if t.innerPointed found = true then t.innerSeek found data = .item true next
        else t.cmpData data found = 0 ∧ next = found := by
  have hkey : ∀ p, t.nextKey p ≠ .item true next := by
    intro p
    unfold nextKey
    split <;> simp
  cases hseek : t.seekRange pos key with
  | fails e p => simp [lowerbound, hseek]
  | item exact p =>
    cases exact with
    | false => simp [lowerbound, hseek]
    | true =>
      cases hdup : t.dupSort with
      | false =>
        have hlower : t.lowerbound pos key data = .item true p := by simp [lowerbound, hseek, hdup]
        rw [hlower]
        simp [eq_comm]
      | true =>
        by_cases hdata : data = []
        · simp [lowerbound, hseek, hdup, hdata]
        · cases hinner : t.innerPointed p with
          | true =>
            cases hfound : t.innerSeek p data with
            | item exact q => simp [lowerbound, hseek, hdup, hdata, hinner, hfound]
            | fails e q =>
              by_cases hcode : e.code = Code.notFound <;>
                simp [lowerbound, hseek, hdup, hdata, hinner, hfound, hcode, hkey]
          | false =>
            by_cases hcmp : 0 < t.cmpData data p
            · have hne : t.cmpData data p ≠ 0 := by omega
              simp [lowerbound, hseek, hdup, hdata, hinner, hcmp, hkey, hne]
            · have hlower : t.lowerbound pos key data = .item (t.cmpData data p == 0) p := by
                simp [lowerbound, hseek, hdup, hdata, hinner, hcmp]
              have hiff : (Found.item (t.cmpData data p == 0) p = .item true next) ↔
                  t.cmpData data p = 0 ∧ p = next := by simp
              rw [hlower, hiff, @eq_comm _ p next]
              simp [hdata, hinner]

theorem cursorOps_greater {next : Pos} (h : t.lowerbound pos key data = .item false next) :
    t.cursorOps pos key data CursorOp.setLowerbound = (Code.resultTrue, next) := by
  unfold cursorOps
  rw [if_neg (by decide), if_pos (by decide), h]
  rfl

theorem cursorOps_last : t.cursorOps pos key data CursorOp.last =
    (Failure.codeOf (t.outerLast pos).1, (t.outerLast pos).2) := by
  unfold cursorOps
  rw [if_neg (by decide), if_neg (by decide), if_pos (by decide)]

/-- An operation that `cursor_ops` knows finds something greater than what was given, or it succeeds
or fails as any call does, and then its arguments are valid. -/
theorem cursorOps_cases (t : MoveTree Pos) (pos : Pos) (key data : Bytes)
    (hop : ¬CursorOp.seekAndGetMultiple < op) :
    (op = CursorOp.setLowerbound ∧ ∃ next, t.lowerbound pos key data = .item false next) ∨
    ∃ f next, t.cursorOps pos key data op = (Failure.codeOf f, next) ∧
      ∀ e, f = some e → e.code ≠ Code.einval := by
  by_cases hlower : op = CursorOp.setLowerbound
  · subst hlower
    have hops : t.cursorOps pos key data CursorOp.setLowerbound =
        match t.lowerbound pos key data with
        | .item exact next => (if exact then Code.success else Code.resultTrue, next)
        | .fails e next => (e.code, next) := by
      unfold cursorOps
      rw [if_neg (by decide), if_pos (by decide)]
    cases hbound : t.lowerbound pos key data with
    | item exact next =>
      cases exact with
      | false => exact .inl ⟨rfl, next, rfl⟩
      | true =>
        rw [hbound] at hops
        exact .inr ⟨none, next, hops, by simp⟩
    | fails e next =>
      rw [hbound] at hops
      refine .inr ⟨some e, next, hops, ?_⟩
      rintro e' ⟨⟩
      exact lowerbound_valid hbound
  · right
    unfold cursorOps
    rw [if_neg hop, if_neg (by simpa using hlower)]
    split
    · exact ⟨_, _, rfl, t.outerLast_valid pos⟩
    · split
      · refine ⟨some ⟨Code.incompatible, by decide, by decide⟩, pos, rfl, ?_⟩
        rintro e ⟨⟩
        decide
      · exact ⟨_, _, rfl, t.ops_valid op pos key data⟩

end MoveTree

end MdbxGo
