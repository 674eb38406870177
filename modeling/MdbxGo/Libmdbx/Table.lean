import Mathlib.Data.List.Basic
import MdbxGo.Libmdbx.Code

/-! The items of a table in their order, and the call of libmdbx that deletes by a key. -/

namespace MdbxGo

namespace Code

def badValsize : Code := -30781

end Code

abbrev Bytes := List UInt8

/-- A table as `mdbx_del` finds it: its items, and which keys have a node with `N_DUP`, which all
keys with more than one value have. -/
structure Table where
  dupSort : Bool
  /-- `clc->v.lmin`, `clc->v.lmax` and `MDBX_INTEGERDUP` -/
  lmin : Nat := 0
  lmax : Nat
  integerDup : Bool := false
  nDup : Bytes → Bool
  items : List (Bytes × Bytes)
  single : ∀ key v w, nDup key = false → (key, v) ∈ items → (key, w) ∈ items → v = w
  nDup_dupSort : ∀ key, nDup key = true → dupSort = true
  sized : ∀ key v, (key, v) ∈ items → lmin ≤ v.length ∧ v.length ≤ lmax ∧
    (integerDup = true → v.length = 4 ∨ v.length = 8)

namespace Table

/-- The table without the items that `p` picks. -/
def remove (t : Table) (p : Bytes × Bytes → Bool) : Table :=
  { t with
    items := t.items.filter fun i => !p i
    single := fun key v w hd hv hw =>
      t.single key v w hd (List.mem_of_mem_filter hv) (List.mem_of_mem_filter hw)
    sized := fun key v hv => t.sized key v (List.mem_of_mem_filter hv) }

/-- The length checks of `data`: `check_key` in a tree of values, or those for a single value. -/
def sizeOk (t : Table) (key v : Bytes) : Bool :=
  decide (t.lmin ≤ v.length) &&
    (if t.nDup key then decide (t.lmin = t.lmax → v.length ≤ t.lmax)
      else decide (v.length ≤ t.lmax)) &&
    (!t.integerDup || v.length == 4 || v.length == 8)

/-- `cursor_seek` with `MDBX_SET`, or with `MDBX_GET_BOTH` when there is data. -/
def cursorSeek (t : Table) (key : Bytes) (data : Option Bytes) : Code :=
  if t.items.any (·.1 == key) then
    match data with
    | none => Code.success
    | some v =>
      if !t.sizeOk key v then Code.badValsize
      else if (key, v) ∈ t.items then Code.success
      else Code.notFound
  else Code.notFound

/-- `cursor_del` at the item that `cursor_seek` found, with `MDBX_ALLDUPS` when there is no data. -/
def cursorDel (t : Table) (key : Bytes) : Option Bytes → Table
  | none => t.remove fun i => i.1 == key
  | some v => t.remove fun i => i == (key, v)

/-- `mdbx_del`. The checks of the handles and of the key may refuse the call, and reading the table
may fail, before anything is removed. -/
def mdbxDel (refused : Option Failure) (t : Table) (key : Bytes) (data : Option Bytes) :
    Table × Code :=
  match refused with
  | some e => (t, e.code)
  | none =>
    let rc := t.cursorSeek key data
    if rc != Code.success then (t, rc) else (t.cursorDel key data, Code.success)

theorem mem_remove {t : Table} {p : Bytes × Bytes → Bool} {i : Bytes × Bytes} :
    i ∈ (t.remove p).items ↔ i ∈ t.items ∧ p i = false := by
  simp [remove, List.mem_filter]

/-- What is in the table passes the length checks. -/
theorem sizeOk_of_mem (t : Table) {key v : Bytes} (h : (key, v) ∈ t.items) :
    t.sizeOk key v = true := by
  obtain ⟨hmin, hmax, hint⟩ := t.sized key v h
  simp only [sizeOk, Bool.and_eq_true, decide_eq_true_eq, Bool.or_eq_true, Bool.not_eq_true',
    beq_iff_eq]
  refine ⟨⟨hmin, ?_⟩, ?_⟩
  · split <;> simp [hmax]
  · cases hi : t.integerDup with
    | false => simp
    | true => simpa using hint hi

end Table

end MdbxGo
