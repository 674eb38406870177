import Mathlib.Data.List.Lex
import MdbxGo.Libmdbx.Table
import MdbxGo.Mdbx.Txn

/-! `Txn.ListDBI`: the walk of a cursor over the main table, whose steps may fail at any place. -/

namespace MdbxGo

/-- `Unnamed`, the main table: the flags that it was made with, and its items. A table without flags
has one value for each key, and its keys in the order of their bytes. -/
structure MainTable where
  flags : UInt32 := 0
  items : List (Bytes × Bytes)
  sorted : flags = 0 → (items.map Prod.fst).Pairwise (· < ·)

def MainTable.keys (t : MainTable) : List Bytes := t.items.map Prod.fst

/-- What fails on the way: opening the main table or the cursor, and each step of the cursor. -/
structure Listing where
  openRoot : Option Failure := none
  openCursor : Option Failure := none
  get : Nat → Option Failure := fun _ => none

/-- `OpenRoot(0)`; `dbi_bind` refuses other flags than those of the table. -/
def openRoot (o : Option Failure) (t : MainTable) : Option GoError :=
  match o with
  | some e => operrno "mdbx_dbi_open" e.code
  | none =>
    if t.flags ≠ 0 then operrno "mdbx_dbi_open" Code.incompatible
    else operrno "mdbx_dbi_open" Code.success

/-- `Get` with `First` or `Next` of a cursor that has the items `rest` before it: the key, which is
nil after an error, and the error. -/
def getNext (o : Option Failure) (rest : List (Bytes × Bytes)) : Option Bytes × Option GoError :=
  let r : Option Bytes × Code :=
    match o, rest with
    | some e, _ => (none, e.code)
    | none, [] => (none, Code.notFound)
    | none, (k, _) :: _ => (some k, Code.success)
  match operrno "mdbx_cursor_get" r.2 with
  | some err => (none, some err)
  | none => (r.1, none)

/-- The loop of `ListDBI` from step `i` of the cursor on; its condition is that the key is not nil.
The last case does not occur: `Get` finds a key only where there is an item. -/
def listLoop (o : Nat → Option Failure) (i : Nat) (rest : List (Bytes × Bytes)) (res : List Bytes) :
    List Bytes × Option GoError :=
  match getNext (o i) rest, rest with
  | (none, _), _ => (res, none)
  | (some _, some err), _ => ([], some err)
  | (some k, none), _ :: rest => listLoop o (i + 1) rest (res ++ [k])
  | (some k, none), [] => (res ++ [k], none)

/-- `ListDBI` -/
def listDBI (o : Listing) (t : MainTable) : List Bytes × Option GoError :=
  match openRoot o.openRoot t with
  | some err => ([], some err)
  | none =>
    match o.openCursor with
    | some e => ([], operrno "mdbx_cursor_open" e.code)
    | none => listLoop o.get 0 t.items []

variable {o : Listing} {t : MainTable} {get : Nat → Option Failure} {i : Nat} {k v : Bytes}
  {rest : List (Bytes × Bytes)} {res : List Bytes}

/-! ### The exits of the loop -/

/-- A step that fails ends the loop as if the walk were over. -/
theorem listLoop_fails {e : Failure} (h : get i = some e) :
    listLoop get i rest res = (res, none) := by
  obtain ⟨err, herr⟩ := Option.ne_none_iff_exists'.mp (operrno_failure "mdbx_cursor_get" e)
  have hnext : getNext (get i) rest = (none, some err) := by simp [getNext, h, herr]
  unfold listLoop
  rw [hnext]

theorem listLoop_end (h : get i = none) : listLoop get i [] res = (res, none) := by
  have hnext : getNext (get i) [] = (none, some .notFound) := by rw [h]; rfl
  unfold listLoop
  rw [hnext]

theorem listLoop_next (h : get i = none) :
    listLoop get i ((k, v) :: rest) res = listLoop get (i + 1) rest (res ++ [k]) := by
  have hnext : getNext (get i) ((k, v) :: rest) = (some k, none) := by rw [h]; rfl
  conv_lhs => unfold listLoop
  rw [hnext]

/-- The loop never returns an error. -/
theorem listLoop_nil : (listLoop get i rest res).2 = none := by
  induction rest generalizing i res with
  | nil =>
    cases h : get i with
    | none => rw [listLoop_end h]
    | some e => rw [listLoop_fails h]
  | cons item rest ih =>
    cases h : get i with
    | none => rw [listLoop_next h]; exact ih
    | some e => rw [listLoop_fails h]

/-- The loop collects all keys exactly when no step on an item fails. -/
theorem listLoop_keys : (listLoop get i rest res).1 = res ++ rest.map Prod.fst ↔
    ∀ j < rest.length, get (i + j) = none := by
  induction rest generalizing i res with
  | nil =>
    have hres : (listLoop get i [] res).1 = res := by
      cases h : get i with
      | none => rw [listLoop_end h]
      | some e => rw [listLoop_fails h]
    simp [hres]
  | cons item rest ih =>
    obtain ⟨k, v⟩ := item
    cases h : get i with
    | none =>
      have hsplit : res ++ ((k, v) :: rest).map Prod.fst = res ++ [k] ++ rest.map Prod.fst := by
        simp
      rw [listLoop_next h, hsplit, ih]
      constructor
      · intro hrest j hj
        cases j with
        | zero => exact h
        | succ j =>
          have hstep := hrest j (by simpa using hj)
          rwa [Nat.add_assoc, Nat.add_comm 1 j] at hstep
      · intro hall j hj
        have hstep := hall (j + 1) (by simpa using hj)
        rwa [Nat.add_comm j 1, ← Nat.add_assoc] at hstep
    | some e =>
      rw [listLoop_fails h]
      constructor
      · intro heq
        simp at heq
      · intro hall
        have hnone := hall 0 (by simp)
        rw [Nat.add_zero, h] at hnone
        cases hnone

/-! ### What is listed -/

/-- The main table and a cursor on it are open. -/
def Opened (o : Listing) (t : MainTable) : Prop :=
  openRoot o.openRoot t = none ∧ o.openCursor = none

/-- `ListDBI` returns no error only with all keys, in their order and each once; and the first step
of the cursor that fails with something else than not-found is the error that it returns. -/
def Listed (o : Listing) (t : MainTable) : Prop :=
  ((listDBI o t).2 = none → (listDBI o t).1 = t.keys ∧ t.keys.Pairwise (· < ·)) ∧
  (Opened o t → ∀ i ≤ t.items.length, (∀ j < i, o.get j = none) → ∀ e, o.get i = some e →
    e.code ≠ Code.notFound → (listDBI o t).2 = operrno "mdbx_cursor_get" e.code)

theorem listDBI_opened (h : Opened o t) : listDBI o t = listLoop o.get 0 t.items [] := by
  unfold listDBI
  rw [h.1, h.2]

theorem listDBI_not_opened (h : ¬Opened o t) : (listDBI o t).2 ≠ none := by
  unfold listDBI
  cases hroot : openRoot o.openRoot t with
  | some err => simp
  | none =>
    cases hcursor : o.openCursor with
    | some e => exact operrno_failure _ e
    | none => exact absurd ⟨hroot, hcursor⟩ h

/-- The main table can be opened only without flags, and then its keys are sorted. -/
theorem Opened.sorted (h : Opened o t) : t.keys.Pairwise (· < ·) := by
  apply t.sorted
  by_contra hflags
  have hroot := h.1
  unfold openRoot at hroot
  cases ho : o.openRoot with
  | some e =>
    rw [ho] at hroot
    exact operrno_failure _ e hroot
  | none =>
    rw [ho] at hroot
    dsimp only at hroot
    rw [if_pos hflags] at hroot
    cases hroot

/-- `ListDBI` keeps its promises exactly when nothing is opened, or no step of the cursor fails but
with not-found behind the last item. -/
theorem listed_iff (o : Listing) (t : MainTable) : Listed o t ↔ ¬Opened o t ∨
    ∀ i ≤ t.items.length, ∀ e, o.get i = some e →
      i = t.items.length ∧ e.code = Code.notFound := by
  by_cases hopened : Opened o t
  · have hnil : (listDBI o t).2 = none := by
      rw [listDBI_opened hopened]
      exact listLoop_nil
    have hkeys : (listDBI o t).1 = t.keys ↔ ∀ j < t.items.length, o.get j = none := by
      have hloop := @listLoop_keys o.get 0 t.items []
      rw [listDBI_opened hopened]
      simpa [MainTable.keys] using hloop
    rw [or_iff_right (not_not_intro hopened)]
    constructor
    · rintro ⟨hcomplete, hpassed⟩ i hi e he
      have hbefore := hkeys.mp (hcomplete hnil).1
      have hlast : i = t.items.length := by
        by_contra hne
        rw [hbefore i (Nat.lt_of_le_of_ne hi hne)] at he
        cases he
      refine ⟨hlast, ?_⟩
      by_contra hcode
      have herr := hpassed hopened i hi (fun j hj => hbefore j (by omega)) e he hcode
      rw [hnil] at herr
      exact operrno_failure _ e herr.symm
    · intro hsteps
      refine ⟨fun _ => ⟨hkeys.mpr fun j hj => ?_, hopened.sorted⟩, ?_⟩
      · by_contra hfails
        obtain ⟨e, he⟩ := Option.ne_none_iff_exists'.mp hfails
        exact absurd (hsteps j (Nat.le_of_lt hj) e he).1 (Nat.ne_of_lt hj)
      · intro _ i hi _ e he hcode
        exact absurd (hsteps i hi e he).2 hcode
  · simp only [hopened, not_false_eq_true, true_or, iff_true]
    exact ⟨fun hnil => absurd hnil (listDBI_not_opened hopened), fun h => absurd h hopened⟩

def twoNames : MainTable := ⟨0, [([97], []), ([98], [])], fun _ => by decide⟩

def secondFails : Listing where
  get i := if i = 1 then some ⟨5, by decide, by decide⟩ else none

/-- The second step of the walk over two names fails with `EIO`: one name is listed, and no
error. -/
theorem not_listed : listDBI secondFails twoNames = ([[97]], none) ∧
    ¬Listed secondFails twoNames := by
  have hlist : listDBI secondFails twoNames = ([[97]], none) := by
    rw [listDBI_opened ⟨rfl, rfl⟩]
    exact (listLoop_next rfl).trans (listLoop_fails rfl)
  refine ⟨hlist, ?_⟩
  rintro ⟨hcomplete, -⟩
  rw [hlist] at hcomplete
  exact absurd (hcomplete rfl).1 (by decide)

end MdbxGo
