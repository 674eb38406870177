import MdbxGo.Libmdbx.Table
import MdbxGo.Mdbx.Txn

/-! `Txn.Del`: which items it removes, and for which arguments the Go layer hands libmdbx a NULL
that means more than was asked for. -/

namespace MdbxGo

/-- `mdbxgo_del`: a NULL pointer for the value takes the place of the value. -/
def mdbxgoDel (refused : Option Failure) (t : Table) (key : Bytes) (vdata : Option Bytes) :
    Table × Code :=
  match vdata with
  | some v => t.mdbxDel refused key (some v)
  | none => t.mdbxDel refused key none

/-- `Del`; a nil slice is `none`. The pointer to the value is taken when it has a first byte. -/
def del (refused : Option Failure) (t : Table) (key : Bytes) (val : Option Bytes) :
    Table × Option GoError :=
  let v : Option Bytes := if (val.getD []).length > 0 then val else none
  let r := mdbxgoDel refused t key v
  (r.1, operrno "mdbx_del" r.2)

namespace Table

/-- What is to go: in a table with `DupSort` a value that was passed, otherwise all items of the
key. -/
def doomed (t : Table) (key : Bytes) (val : Option Bytes) (i : Bytes × Bytes) : Bool :=
  match val, t.dupSort with
  | some v, true => i == (key, v)
  | _, _ => i.1 == key

/-- What `Del` promises: exactly that goes, and when there is none of it, that is the error. -/
def exactDel (t : Table) (key : Bytes) (val : Option Bytes) : Table × Option GoError :=
  if t.items.any (t.doomed key val) then (t.remove (t.doomed key val), none)
  else (t, some .notFound)

/-- The values with which the code keeps the promise for a key that is there: nil; with `DupSort`
one of a length that the table has, or the empty one when the key has no other; without it the
empty one or that of the key. -/
def DelFits (t : Table) (key : Bytes) : Option Bytes → Prop
  | none => True
  | some v =>
    if t.dupSort then
      v ≠ [] ∧ t.sizeOk key v = true ∨ v = [] ∧ ∀ w, (key, w) ∈ t.items → w = []
    else v = [] ∨ (key, v) ∈ t.items

variable {t : Table} {key v : Bytes} {val : Option Bytes}

theorem any_key : t.items.any (·.1 == key) = true ↔ ∃ v, (key, v) ∈ t.items := by
  simp

theorem any_pair : t.items.any (· == (key, v)) = true ↔ (key, v) ∈ t.items := by
  simp

theorem remove_congr {p q : Bytes × Bytes → Bool} (h : ∀ i ∈ t.items, p i = q i) :
    t.remove p = t.remove q := by
  have heq : t.items.filter (fun i => !p i) = t.items.filter fun i => !q i := by
    apply List.filter_congr
    intro i hi
    rw [h i hi]
  simp only [remove, heq]

/-- Without a value the whole key goes. -/
theorem del_whole (hdata : val = none ∨ val = some []) (h : ∃ v, (key, v) ∈ t.items) :
    del none t key val = (t.remove fun i => i.1 == key, none) := by
  have hany := any_key.mpr h
  rcases hdata with rfl | rfl <;>
    simp [del, mdbxgoDel, mdbxDel, cursorSeek, cursorDel, hany, operrno]

/-- With one, that pair goes if it is there, and a length that the table cannot have is an error. -/
theorem del_pair (hv : v ≠ []) (h : ∃ v, (key, v) ∈ t.items) :
    del none t key (some v) =
      if t.sizeOk key v = true then
        if (key, v) ∈ t.items then (t.remove fun i => i == (key, v), none) else (t, some .notFound)
      else (t, operrno "mdbx_del" Code.badValsize) := by
  have hany := any_key.mpr h
  have hlen : 0 < v.length := List.length_pos_iff.mpr hv
  by_cases hsize : t.sizeOk key v = true
  · by_cases hmem : (key, v) ∈ t.items
    · simp [del, mdbxgoDel, mdbxDel, cursorSeek, cursorDel, hany, hlen, hsize, hmem, operrno]
    · simp [del, mdbxgoDel, mdbxDel, cursorSeek, hany, hlen, hsize, hmem, operrno, Code.notFound,
        Code.success, Code.resultTrue]
  · simp [del, mdbxgoDel, mdbxDel, cursorSeek, hany, hlen, hsize, Code.badValsize, Code.success]

theorem del_absent (h : ¬∃ v, (key, v) ∈ t.items) : del none t key val = (t, some .notFound) := by
  have hany : t.items.any (·.1 == key) = false :=
    Bool.eq_false_iff.mpr fun hany => h (any_key.mp hany)
  have hseek : ∀ data, t.cursorSeek key data = Code.notFound := by
    intro data
    simp [cursorSeek, hany]
  have hdel : ∀ data, t.mdbxDel none key data = (t, Code.notFound) := by
    intro data
    simp [mdbxDel, hseek, Code.notFound, Code.success]
  simp only [del, mdbxgoDel]
  split <;> simp [hdel, operrno, Code.notFound, Code.success, Code.resultTrue]

theorem exactDel_absent (h : ¬∃ v, (key, v) ∈ t.items) :
    t.exactDel key val = (t, some .notFound) := by
  have hany : t.items.any (t.doomed key val) = false := by
    rw [Bool.eq_false_iff]
    intro hany
    obtain ⟨i, hi, hdoomed⟩ := List.any_eq_true.mp hany
    apply h
    unfold doomed at hdoomed
    split at hdoomed
    · rename_i v _
      obtain rfl := eq_of_beq hdoomed
      exact ⟨v, hi⟩
    · obtain rfl := eq_of_beq hdoomed
      exact ⟨i.2, hi⟩
  simp [exactDel, hany]

theorem exactDel_whole (hdup : val = none ∨ t.dupSort = false) (h : ∃ v, (key, v) ∈ t.items) :
    t.exactDel key val = (t.remove fun i => i.1 == key, none) := by
  have hdoomed : t.doomed key val = fun i => i.1 == key := by
    funext i
    unfold doomed
    split
    · rename_i hd
      rcases hdup with hdup | hdup
      · cases hdup
      · rw [hd] at hdup
        cases hdup
    · rfl
  simp only [exactDel, hdoomed, any_key.mpr h, ↓reduceIte]

theorem exactDel_pair (hdup : t.dupSort = true) : t.exactDel key (some v) =
    if (key, v) ∈ t.items then (t.remove fun i => i == (key, v), none)
    else (t, some .notFound) := by
  have hdoomed : t.doomed key (some v) = fun i => i == (key, v) := by
    funext i
    simp [doomed, hdup]
  by_cases hmem : (key, v) ∈ t.items
  · simp only [exactDel, hdoomed, any_pair.mpr hmem, hmem, ↓reduceIte]
  · have hany : t.items.any (· == (key, v)) = false :=
      Bool.eq_false_iff.mpr fun hany => hmem (any_pair.mp hany)
    simp [exactDel, hdoomed, hany, hmem]

/-- Removing a key and removing one pair of it agree only when the key has no other value. -/
theorem remove_key_eq_iff (hmem : (key, v) ∈ t.items) :
    (t.remove fun i => i.1 == key) = (t.remove fun i => i == (key, v)) ↔
      ∀ w, (key, w) ∈ t.items → w = v := by
  constructor
  · intro heq w hw
    by_contra hne
    have hkept : (key, w) ∈ (t.remove fun i => i == (key, v)).items :=
      mem_remove.mpr ⟨hw, by simpa using hne⟩
    rw [← heq] at hkept
    have hgone := (mem_remove.mp hkept).2
    simp at hgone
  · intro hall
    apply remove_congr
    rintro ⟨k, w⟩ hi
    by_cases hk : k = key
    · subst hk
      simp [hall w hi]
    · simp [hk]

/-- A key of a table without `DupSort` has one value. -/
theorem single_value (hdup : t.dupSort = false) {w : Bytes} (hv : (key, v) ∈ t.items)
    (hw : (key, w) ∈ t.items) : w = v := by
  apply t.single key w v _ hw hv
  rw [Bool.eq_false_iff]
  intro hn
  rw [t.nDup_dupSort key hn] at hdup
  cases hdup

/-- An empty value is passed on as none at all: the whole key goes. -/
theorem del_empty_iff (h : ∃ w, (key, w) ∈ t.items) :
    del none t key (some []) = t.exactDel key (some []) ↔ t.DelFits key (some []) := by
  rw [del_whole (.inr rfl) h]
  by_cases hdup : t.dupSort = true
  · have hfits : t.DelFits key (some []) ↔ ∀ w, (key, w) ∈ t.items → w = [] := by
      simp [DelFits, hdup]
    rw [hfits, exactDel_pair hdup]
    by_cases hmem : (key, []) ∈ t.items
    · simp only [hmem, ↓reduceIte, Prod.mk.injEq, and_true]
      exact remove_key_eq_iff hmem
    · have hnot : ¬∀ w, (key, w) ∈ t.items → w = [] := by
        intro hall
        obtain ⟨w, hw⟩ := h
        obtain rfl := hall w hw
        exact hmem hw
      simp [hmem, hnot]
  · have hdup : t.dupSort = false := by simpa using hdup
    rw [exactDel_whole (.inr hdup) h]
    simp [DelFits, hdup]

/-- A value with a first byte is looked for, whatever the kind of the table. -/
theorem del_value_iff (hv : v ≠ []) (h : ∃ w, (key, w) ∈ t.items) :
    del none t key (some v) = t.exactDel key (some v) ↔ t.DelFits key (some v) := by
  have hcode : operrno "mdbx_del" Code.badValsize ≠ some GoError.notFound := by decide
  rw [del_pair hv h]
  by_cases hdup : t.dupSort = true
  · have hfits : t.DelFits key (some v) ↔ t.sizeOk key v = true := by simp [DelFits, hdup, hv]
    rw [hfits, exactDel_pair hdup]
    by_cases hsize : t.sizeOk key v = true
    · simp [hsize]
    · have hmem : (key, v) ∉ t.items := fun hmem => hsize (t.sizeOk_of_mem hmem)
      simp [hsize, hmem, hcode]
  · have hdup : t.dupSort = false := by simpa using hdup
    have hfits : t.DelFits key (some v) ↔ (key, v) ∈ t.items := by simp [DelFits, hdup, hv]
    rw [hfits, exactDel_whole (.inr hdup) h]
    by_cases hmem : (key, v) ∈ t.items
    · have hone := (remove_key_eq_iff hmem).mpr fun w hw => single_value hdup hmem hw
      simp [t.sizeOk_of_mem hmem, hmem, hone]
    · by_cases hsize : t.sizeOk key v = true
      · simp [hsize, hmem]
      · have hsome : operrno "mdbx_del" Code.badValsize ≠ none := by decide
        simp [hsize, hmem, hsome]

/-- `Del` is exact when the key is absent or the value fits, and only then. A call that libmdbx
refuses before it looks for the key leaves the table as it is. -/
theorem del_exact_iff (refused : Option Failure) (t : Table) (key : Bytes) (val : Option Bytes) :
    del refused t key val = (match refused with
      | some e => (t, operrno "mdbx_del" e.code)
      | none => t.exactDel key val) ↔
    refused ≠ none ∨ (¬∃ v, (key, v) ∈ t.items) ∨ t.DelFits key val := by
  cases refused with
  | some e =>
    simp only [ne_eq, reduceCtorEq, not_false_eq_true, true_or, iff_true]
    simp only [del, mdbxgoDel]
    split <;> rfl
  | none =>
    simp only [ne_eq, not_true_eq_false, false_or]
    by_cases hkey : ∃ v, (key, v) ∈ t.items
    · simp only [hkey, not_true_eq_false, false_or]
      cases val with
      | none =>
        rw [del_whole (.inl rfl) hkey, exactDel_whole (.inl rfl) hkey]
        simp [DelFits]
      | some v =>
        by_cases hv : v = []
        · rw [hv]
          exact del_empty_iff hkey
        · exact del_value_iff hv hkey
    · simp only [hkey, not_false_eq_true, true_or, iff_true]
      rw [del_absent hkey, exactDel_absent hkey]

/-- A key with two values. -/
def twoValues : Table where
  dupSort := true
  lmax := 2022
  nDup := fun _ => true
  items := [([107], [1]), ([107], [2])]
  single := by simp
  nDup_dupSort := by simp
  sized := by
    intro key v h
    simp only [List.mem_cons, Prod.mk.injEq, List.not_mem_nil, or_false] at h
    rcases h with ⟨-, rfl⟩ | ⟨-, rfl⟩ <;> simp

/-- To delete the pair with the empty value, which is not there, deletes both values. -/
theorem del_empty_removes_all :
    del none twoValues [107] (some []) ≠ twoValues.exactDel [107] (some []) ∧
    (del none twoValues [107] (some [])).1.items = [] ∧
    (twoValues.exactDel [107] (some [])).1.items.length = 2 := by
  have hitems : (del none twoValues [107] (some [])).1.items = [] := by decide +kernel
  have hexact : (twoValues.exactDel [107] (some [])).1.items.length = 2 := by decide +kernel
  refine ⟨?_, hitems, hexact⟩
  intro heq
  rw [← heq, hitems] at hexact
  cases hexact

end Table

end MdbxGo
