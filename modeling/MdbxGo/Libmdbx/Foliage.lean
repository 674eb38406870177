import MdbxGo.Bisect
import MdbxGo.Libmdbx.Compare

/-! The search of a key on one page: the functions that `SEARCH_FOLIAGE` and `SEARCH_BRANCH` make,
how one of them is chosen for a cursor, and the plain functions that `MDBX_DEBUG_SEARCH_BRANCHLESS`
checks them against. -/

namespace MdbxGo

namespace Foliage

open Compare

/-! ### Pages and cursors -/

/-- What the compiler knows of the machine: `size_t` has eight bytes, and the comparators for
aligned integers are functions of their own. -/
structure Machine where
  wide : Bool
  aligned : Bool

/-- `MDBX_cmp_func`: the functions of libmdbx, and any other. -/
inductive CmpFunc
  | lexical
  | reverse
  | lenfast
  | uintAlign2
  | uintAlign4
  | uintUnaligned
  | custom (f : Val → Val → Int)

def CmpFunc.apply (m : Machine) : CmpFunc → Val → Val → Int
  | .lexical => cmpLexical
  | .reverse => cmpReverse m.wide
  | .lenfast => cmpLenfast
  | .uintAlign2 | .uintAlign4 | .uintUnaligned => cmpUint
  | .custom f => f

/-- A `page_t`: `P_BRANCH` and `P_DUPFIX` of its flags, and its keys, of which there are so few that
an `indx_t` counts them. The first key of a branch page is not used. -/
structure Page where
  branch : Bool
  dupfix : Bool
  numkeys : Nat
  key : Nat → Val

/-- What the searches read of a cursor. `dupfixed` tells that it is an inner one of a
`MDBX_DUPFIXED` table. -/
structure Cursor where
  page : Page
  cmp : CmpFunc
  lmin : Nat
  lmax : Nat
  integerkey : Bool
  dupfixed : Bool
  dupfixSize : Nat
  validation : Bool

/-- A `node_t *`; there are no nodes on a dupfix page, and -1 stands for one. -/
inductive NodePtr
  | null
  | fake
  | node (i : Nat)
deriving DecidableEq, Repr

/-- A `sfr_t`, the index that was stored in the cursor, and how many keys were compared. -/
structure Sfr where
  ki : Nat
  node : NodePtr
  exact : Bool
  steps : Nat
deriving DecidableEq, Repr

/-! ### The plain searches -/

/-- The begin of the keys that are searched. -/
def Page.lo (mp : Page) : Nat := if mp.branch then 1 else 0

/-- `old_node_search`. The comparator for aligned integers, which it takes on branch pages, tells
the same as the one that it is given. -/
def oldNodeSearch (m : Machine) (c : Cursor) (key : Val) : Sfr :=
  let mp := c.page
  if (mp.numkeys : Int) - 1 < mp.lo then ⟨0, .null, false, 0⟩
  else
    let s := Bisect.ends (fun i => c.cmp.apply m key (mp.key i)) (mp.numkeys - mp.lo) mp.lo
      (mp.numkeys - 1) 0
    ⟨s.index, if s.index < mp.numkeys then if mp.dupfix then .fake else .node s.index else .null,
      s.exact, s.steps⟩

/-- `old_branch_search`: the index, and how many keys were compared. -/
def oldBranchSearch (m : Machine) (c : Cursor) (key : Val) : Nat × Nat :=
  let nsr := oldNodeSearch m c key
  (if nsr.node ≠ .null then nsr.ki + (if nsr.exact then 1 else 0) - 1 else c.page.numkeys - 1,
    nsr.steps)

/-! ### The searches without branches -/

/-- The loops of `SEARCH_FOLIAGE` and what follows them. -/
def searchLoop (mp : Page) (order : Nat → Int) (node : Nat → NodePtr) : Sfr :=
  let s := Bisect.branchless order (mp.numkeys - mp.lo) mp.lo (mp.numkeys - mp.lo) 0
  ⟨s.index, if s.exact ∨ s.index < mp.numkeys then node s.index else .null, s.exact, s.steps⟩

/-- `SEARCH_FOLIAGE` -/
def searchFoliage (branchComparator leafComparator : Val → Val → Int)
    (differentComparators dupfixed : Bool) (mp : Page) (key : Val) : Sfr :=
  if (mp.numkeys : Int) - 1 < mp.lo then ⟨0, .null, false, 0⟩
  else if 0 < mp.lo ∨ ¬(differentComparators ∨ dupfixed) then
    searchLoop mp (fun i => branchComparator (mp.key i) key) .node
  else if dupfixed then searchLoop mp (fun i => leafComparator (mp.key i) key) fun _ => .fake
  else searchLoop mp (fun i => leafComparator (mp.key i) key) .node

/-- It must not be called. -/
def nullComparator (_ _ : Val) : Int := 0

def searchFoliageLexicalUsual := searchFoliage cmpLexical nullComparator false false
def searchFoliageReverseUsual (m : Machine) :=
  searchFoliage (cmpReverse m.wide) nullComparator false false
def searchFoliageLenfastUsual := searchFoliage cmpLenfast nullComparator false false
def searchFoliageCustomUsual (m : Machine) (c : Cursor) :=
  searchFoliage (c.cmp.apply m) nullComparator false false
def searchFoliageOrdinalUsual (m : Machine) :=
  if m.aligned then searchFoliage cmpUint cmpUint true false
  else searchFoliage cmpUint nullComparator false false
def searchFoliageUint32Usual (m : Machine) :=
  if m.aligned then searchFoliage (cmpUintUnchecked 4) (cmpUintUnchecked 4) true false
  else searchFoliage (cmpUintUnchecked 4) nullComparator false false
def searchFoliageUint64Usual (m : Machine) :=
  if m.aligned then searchFoliage (cmpUintUnchecked 8) (cmpUintUnchecked 8) true false
  else searchFoliage (cmpUintUnchecked 8) nullComparator false false
def searchFoliageLexicalDupfix := searchFoliage cmpLexical cmpLexical false true
def searchFoliageReverseDupfix (m : Machine) :=
  searchFoliage (cmpReverse m.wide) (cmpReverse m.wide) false true
def searchFoliageLenfastDupfix := searchFoliage cmpLenfast cmpLenfast false true
def searchFoliageCustomDupfix (m : Machine) (c : Cursor) :=
  searchFoliage (c.cmp.apply m) (c.cmp.apply m) false true
def searchFoliageOrdinalDupfix := searchFoliage cmpUint cmpUint true true
def searchFoliageUint32Dupfix := searchFoliage (cmpUintUnchecked 4) (cmpUintUnchecked 4) true true
def searchFoliageUint64Dupfix := searchFoliage (cmpUintUnchecked 8) (cmpUintUnchecked 8) true true

/-- `SEARCH_BRANCH` -/
def searchBranch (comparator : Val → Val → Int) (mp : Page) (key : Val) : Nat × Nat :=
  if 1 < mp.numkeys then
    let s :=
      Bisect.branchless (fun i => comparator (mp.key i) key) (mp.numkeys - 1) 1 (mp.numkeys - 1) 0
    (if s.exact then s.index else s.lo - 1, s.steps)
  else (0, 0)

def searchBranchOrdinal := searchBranch cmpUint
def searchBranchUint32 := searchBranch (cmpUintUnchecked 4)
def searchBranchUint64 := searchBranch (cmpUintUnchecked 8)
def searchBranchLexical := searchBranch cmpLexical
def searchBranchReverse (m : Machine) := searchBranch (cmpReverse m.wide)
def searchBranchLenfast := searchBranch cmpLenfast
def searchBranchCustom (m : Machine) (c : Cursor) := searchBranch (c.cmp.apply m)

/-! ### Which one is chosen -/

/-- The choice for integers whose keys have `keylen` bytes. -/
def chooseOrdinal {α : Type} (validation : Bool) (keylen lmin lmax : Nat)
    (uint32 uint64 ordinal custom : α) : α :=
  if keylen ≠ 0 then
    if validation = false ∧ keylen = lmin ∧ keylen = lmax ∧ keylen = 4 then uint32
    else if validation = false ∧ keylen = lmin ∧ keylen = lmax ∧ keylen = 8 then uint64
    else ordinal
  else custom

/-- The lengths of keys that the cursor has after the choice. -/
def Cursor.limits (c : Cursor) : Nat × Nat :=
  if c.dupfixed ∧ c.integerkey ∧ c.lmin ≤ c.dupfixSize ∧ c.dupfixSize ≤ c.lmax ∧
      (c.dupfixSize = 4 ∨ c.dupfixSize = 8) then (c.dupfixSize, c.dupfixSize)
  else (c.lmin, c.lmax)

/-- `cursor_to_search_foliage` -/
def cursorToSearchFoliage (m : Machine) (c : Cursor) : Page → Val → Sfr :=
  if c.dupfixed then
    match c.cmp with
    | .lexical => searchFoliageLexicalDupfix
    | .reverse => searchFoliageReverseDupfix m
    | .lenfast => searchFoliageLenfastDupfix
    | .uintAlign2 | .uintAlign4 | .uintUnaligned =>
      if c.integerkey then
        chooseOrdinal c.validation c.dupfixSize c.limits.1 c.limits.2 searchFoliageUint32Dupfix
          searchFoliageUint64Dupfix searchFoliageOrdinalDupfix (searchFoliageCustomDupfix m c)
      else searchFoliageCustomDupfix m c
    | .custom _ => searchFoliageCustomDupfix m c
  else
    match c.cmp with
    | .lexical => searchFoliageLexicalUsual
    | .reverse => searchFoliageReverseUsual m
    | .lenfast => searchFoliageLenfastUsual
    | .uintAlign2 | .uintAlign4 | .uintUnaligned =>
      if c.integerkey then
        chooseOrdinal c.validation (c.page.key 0).length c.lmin c.lmax (searchFoliageUint32Usual m)
          (searchFoliageUint64Usual m) (searchFoliageOrdinalUsual m) (searchFoliageCustomUsual m c)
      else searchFoliageCustomUsual m c
    | .custom _ => searchFoliageCustomUsual m c

/-- `cursor_to_search_branch` -/
def cursorToSearchBranch (m : Machine) (c : Cursor) : Page → Val → Nat × Nat :=
  match c.cmp with
  | .lexical => searchBranchLexical
  | .reverse => searchBranchReverse m
  | .lenfast => searchBranchLenfast
  | .uintAlign2 | .uintAlign4 | .uintUnaligned =>
    if c.integerkey then
      chooseOrdinal c.validation (c.page.key c.page.lo).length c.lmin c.lmax searchBranchUint32
        searchBranchUint64 searchBranchOrdinal (searchBranchCustom m c)
    else searchBranchCustom m c
  | .custom _ => searchBranchCustom m c

/-- `tree_search_foliage_configure` with `MDBX_DEBUG_SEARCH_BRANCHLESS`; nothing is returned when it
panics. -/
def treeSearchFoliageConfigure (m : Machine) (c : Cursor) (key : Val) : Option Sfr :=
  let old := oldNodeSearch m c key
  let new := cursorToSearchFoliage m c c.page key
  if new.ki ≠ old.ki ∨ new.exact ≠ old.exact ∨ new.node ≠ old.node ∨ old.steps < new.steps then none
  else some new

/-- `tree_search_branch_configure` with `MDBX_DEBUG_SEARCH_BRANCHLESS`. -/
def treeSearchBranchConfigure (m : Machine) (c : Cursor) (key : Val) : Option Nat :=
  let old := oldBranchSearch m c key
  let new := cursorToSearchBranch m c c.page key
  if new.1 ≠ old.1 ∨ old.2 < new.2 then none else some new.1

/-! ### Both find the same -/

/-- A key of a length that the cursor takes. -/
def Cursor.Sized (c : Cursor) (v : Val) : Prop := c.limits.1 ≤ v.length ∧ v.length ≤ c.limits.2

/-- What the searches take for granted: the comparator of a table says the opposite when its
arguments change places, an inner cursor of a `MDBX_DUPFIXED` table has dupfix leaves and no other
has, and the lengths of integer keys are the ones that were checked. -/
structure Fits (c : Cursor) (key : Val) : Prop where
  custom : ∀ f, c.cmp = .custom f → ∀ a b, (f a b).sign = -(f b a).sign
  dupfix : c.page.dupfix = (c.dupfixed && !c.page.branch)
  sought : c.integerkey = true → c.Sized key
  sized : c.integerkey = true → ∀ i, c.page.lo ≤ i → i < c.page.numkeys → c.Sized (c.page.key i)

/-- `f` compares the keys of the page with the one sought as the comparator of the table does the
other way round. -/
def Answers (m : Machine) (c : Cursor) (key : Val) (f : Val → Val → Int) : Prop :=
  ∀ i, c.page.lo ≤ i → i < c.page.numkeys →
    (c.cmp.apply m key (c.page.key i) = 0 ↔ f (c.page.key i) key = 0) ∧
      (0 < c.cmp.apply m key (c.page.key i) ↔ f (c.page.key i) key < 0)

section Agree

variable {m : Machine} {c : Cursor} {key : Val} {f g : Val → Val → Int} {different dupfixed : Bool}

theorem apply_flip (h : ∀ f, c.cmp = .custom f → ∀ a b, (f a b).sign = -(f b a).sign) (m : Machine)
    (a b : Val) : (c.cmp.apply m a b).sign = -(c.cmp.apply m b a).sign := by
  cases hcmp : c.cmp with
  | lexical => exact (congrArg Int.sign (cmpLexical_flip a b)).trans (Int.sign_neg _)
  | reverse => exact cmpReverse_flip m.wide a b
  | lenfast => exact (congrArg Int.sign (cmpLenfast_flip a b)).trans (Int.sign_neg _)
  | uintAlign2 | uintAlign4 | uintUnaligned =>
    exact (congrArg Int.sign (cmpUint_flip a b)).trans (Int.sign_neg _)
  | custom f => exact h f hcmp a b

theorem Fits.answers (h : Fits c key) : Answers m c key (c.cmp.apply m) := by
  intro i _ _
  have hflip := apply_flip h.custom m key (c.page.key i)
  have hzero := @Int.sign_eq_zero_iff_zero (c.cmp.apply m key (c.page.key i))
  have hzero' := @Int.sign_eq_zero_iff_zero (c.cmp.apply m (c.page.key i) key)
  have hpos := @Int.sign_eq_one_iff_pos (c.cmp.apply m key (c.page.key i))
  have hneg := @Int.sign_eq_neg_one_iff_neg (c.cmp.apply m (c.page.key i) key)
  omega

theorem Answers.of_eq (h : Answers m c key f)
    (heq : ∀ i, c.page.lo ≤ i → i < c.page.numkeys → g (c.page.key i) key = f (c.page.key i) key) :
    Answers m c key g := by
  intro i hlo hhi
  rw [heq i hlo hhi]
  exact h i hlo hhi

/-- The loop finds what the plain search finds. -/
theorem searchLoop_eq {node : Nat → NodePtr} (hmore : c.page.lo < c.page.numkeys)
    (hf : Answers m c key f)
    (hnode : ∀ i, node i = if c.page.dupfix then .fake else .node i) :
    searchLoop c.page (fun i => f (c.page.key i) key) node = oldNodeSearch m c key := by
  have hends := @Bisect.ends_eq_branchless (fun i => f (c.page.key i) key)
    (fun i => c.cmp.apply m key (c.page.key i)) (c.page.numkeys - c.page.lo) c.page.lo
    (c.page.numkeys - c.page.lo) 0 (by omega) (Nat.le_refl _) fun i hlo hhi => hf i hlo (by omega)
  have hlast : (c.page.lo : Int) + (c.page.numkeys - c.page.lo : Nat) - 1 = c.page.numkeys - 1 := by
    omega
  rw [hlast] at hends
  have hless := @Bisect.branchless_lt (fun i => f (c.page.key i) key) (c.page.numkeys - c.page.lo)
    c.page.lo (c.page.numkeys - c.page.lo) 0 (by omega)
  rw [oldNodeSearch]
  simp only [if_neg (show ¬ (c.page.numkeys : Int) - 1 < c.page.lo by omega), hends, searchLoop]
  generalize Bisect.branchless _ _ _ _ _ = s at hless ⊢
  have hiff : s.exact = true ∨ s.index < c.page.numkeys ↔ s.index < c.page.numkeys :=
    ⟨fun h => h.elim (fun hexact => by have hlt := hless hexact; omega) id, .inr⟩
  simp only [hiff, hnode]

/-- A function that `SEARCH_FOLIAGE` makes finds what the plain search finds, if the comparator that
it uses for the page answers so. -/
theorem searchFoliage_eq (hdupfix : c.page.dupfix = (dupfixed && !c.page.branch))
    (hf : c.page.branch = true ∨ (different = false ∧ dupfixed = false) → Answers m c key f)
    (hg : different = true ∨ dupfixed = true → Answers m c key g) :
    searchFoliage f g different dupfixed c.page key = oldNodeSearch m c key := by
  rw [searchFoliage]
  by_cases hmore : (c.page.numkeys : Int) - 1 < c.page.lo
  · rw [if_pos hmore, oldNodeSearch]
    simp only [if_pos hmore]
  · rw [if_neg hmore]
    by_cases hbranch : c.page.branch = true
    · have hlo : c.page.lo = 1 := by rw [Page.lo, if_pos hbranch]
      rw [if_pos (.inl (by omega))]
      refine searchLoop_eq (by omega) (hf (.inl hbranch)) fun i => ?_
      rw [hdupfix, hbranch, Bool.not_true, Bool.and_false]
      rfl
    · rw [Bool.not_eq_true] at hbranch
      have hlo : c.page.lo = 0 := by simp [Page.lo, hbranch]
      rw [hbranch, Bool.not_false, Bool.and_true] at hdupfix
      by_cases husual : different = true ∨ dupfixed = true
      · rw [if_neg (fun h => h.elim (by omega) fun hnot => hnot husual)]
        by_cases hfixed : dupfixed = true
        · rw [if_pos hfixed]
          refine searchLoop_eq (by omega) (hg husual) fun i => ?_
          rw [hdupfix, if_pos hfixed]
        · rw [if_neg hfixed]
          refine searchLoop_eq (by omega) (hg husual) fun i => ?_
          rw [hdupfix, if_neg hfixed]
      · rw [if_pos (.inr husual)]
        simp only [not_or, Bool.not_eq_true] at husual
        refine searchLoop_eq (by omega) (hf (.inr husual)) fun i => ?_
        rw [hdupfix, husual.2]
        rfl

/-- `chooseOrdinal` takes an unchecked comparison only of keys that all have its length. -/
theorem chooseOrdinal_elim {α : Type} {validation : Bool} {keylen lmin lmax : Nat}
    {uint32 uint64 ordinal custom : α} {p : α → Prop}
    (h32 : lmin = 4 → lmax = 4 → p uint32) (h64 : lmin = 8 → lmax = 8 → p uint64)
    (hordinal : p ordinal) (hcustom : p custom) :
    p (chooseOrdinal validation keylen lmin lmax uint32 uint64 ordinal custom) := by
  rw [chooseOrdinal]
  by_cases hlen : keylen ≠ 0
  · rw [if_pos hlen]
    by_cases hfour : validation = false ∧ keylen = lmin ∧ keylen = lmax ∧ keylen = 4
    · rw [if_pos hfour]
      exact h32 (by omega) (by omega)
    · rw [if_neg hfour]
      by_cases height : validation = false ∧ keylen = lmin ∧ keylen = lmax ∧ keylen = 8
      · rw [if_pos height]
        exact h64 (by omega) (by omega)
      · rw [if_neg height]
        exact hordinal
  · rw [if_neg hlen]
    exact hcustom

/-- Where all lengths are `n`, unchecked integers compare as they do otherwise. -/
theorem Fits.unchecked (h : Fits c key) {n : Nat} (hint : c.integerkey = true)
    (hcmp : c.cmp.apply m = cmpUint) (hmin : c.limits.1 = n) (hmax : c.limits.2 = n)
    (hn : n = 4 ∨ n = 8) : Answers m c key (cmpUintUnchecked n) := by
  refine h.answers.of_eq fun i hlo hhi => ?_
  have hsought := h.sought hint
  have hsized := h.sized hint i hlo hhi
  rw [Cursor.Sized, hmin, hmax] at hsought hsized
  rw [hcmp, cmpUint_unchecked (by omega) (by omega) hn]

theorem limits_usual (h : c.dupfixed = false) : c.limits = (c.lmin, c.lmax) := by
  simp [Cursor.limits, h]

theorem Fits.answers_of (h : Fits c key) (hcmp : c.cmp.apply m = f) : Answers m c key f :=
  hcmp ▸ h.answers

/-- The choice for an inner cursor of a `MDBX_DUPFIXED` table with integers. -/
theorem ordinalDupfix_eq (h : Fits c key) (hd : c.dupfixed = true)
    (hcmp : c.cmp.apply m = cmpUint) :
    (if c.integerkey then
      chooseOrdinal c.validation c.dupfixSize c.limits.1 c.limits.2 searchFoliageUint32Dupfix
        searchFoliageUint64Dupfix searchFoliageOrdinalDupfix (searchFoliageCustomDupfix m c)
      else searchFoliageCustomDupfix m c) c.page key = oldNodeSearch m c key := by
  have hdup := h.dupfix
  rw [hd] at hdup
  have hcustom : searchFoliageCustomDupfix m c c.page key = oldNodeSearch m c key :=
    searchFoliage_eq hdup (fun _ => h.answers) fun _ => h.answers
  by_cases hint : c.integerkey = true
  · rw [if_pos hint]
    refine chooseOrdinal_elim
      (p := fun s : Page → Val → Sfr => s c.page key = oldNodeSearch m c key)
      ?_ ?_ ?_ hcustom
    · intro hmin hmax
      have hanswers := h.unchecked hint hcmp hmin hmax (.inl rfl)
      exact searchFoliage_eq hdup (fun _ => hanswers) fun _ => hanswers
    · intro hmin hmax
      have hanswers := h.unchecked hint hcmp hmin hmax (.inr rfl)
      exact searchFoliage_eq hdup (fun _ => hanswers) fun _ => hanswers
    · exact searchFoliage_eq hdup (fun _ => h.answers_of hcmp) fun _ => h.answers_of hcmp
  · rw [if_neg hint]
    exact hcustom

/-- A comparator alone, or one for branch pages and one that compares alike. -/
theorem aligned_eq (h : Answers m c key f) (hdup : c.page.dupfix = false) :
    (if m.aligned then searchFoliage f f true false
      else searchFoliage f nullComparator false false) c.page key = oldNodeSearch m c key := by
  have hdup' : c.page.dupfix = (false && !c.page.branch) := by rw [hdup, Bool.false_and]
  split
  · exact searchFoliage_eq hdup' (fun _ => h) fun _ => h
  · exact searchFoliage_eq hdup' (fun _ => h) fun hor => by cases hor <;> contradiction

/-- A function for any other cursor. -/
theorem usual_eq (h : Answers m c key f) (hdup : c.page.dupfix = false) :
    searchFoliage f nullComparator false false c.page key = oldNodeSearch m c key := by
  have hdup' : c.page.dupfix = (false && !c.page.branch) := by rw [hdup, Bool.false_and]
  exact searchFoliage_eq hdup' (fun _ => h) fun hor => by cases hor <;> contradiction

theorem ordinalUsual_eq (h : Fits c key) (hd : c.dupfixed = false)
    (hcmp : c.cmp.apply m = cmpUint) :
    (if c.integerkey then
      chooseOrdinal c.validation (c.page.key 0).length c.lmin c.lmax (searchFoliageUint32Usual m)
        (searchFoliageUint64Usual m) (searchFoliageOrdinalUsual m) (searchFoliageCustomUsual m c)
      else searchFoliageCustomUsual m c) c.page key = oldNodeSearch m c key := by
  have hdup : c.page.dupfix = false := by rw [h.dupfix, hd, Bool.false_and]
  have hcustom : searchFoliageCustomUsual m c c.page key = oldNodeSearch m c key :=
    usual_eq h.answers hdup
  by_cases hint : c.integerkey = true
  · rw [if_pos hint]
    refine chooseOrdinal_elim
      (p := fun s : Page → Val → Sfr => s c.page key = oldNodeSearch m c key)
      ?_ ?_ ?_ hcustom
    · intro hmin hmax
      refine aligned_eq (h.unchecked hint hcmp ?_ ?_ (.inl rfl)) hdup <;> rwa [limits_usual hd]
    · intro hmin hmax
      refine aligned_eq (h.unchecked hint hcmp ?_ ?_ (.inr rfl)) hdup <;> rwa [limits_usual hd]
    · exact aligned_eq (h.answers_of hcmp) hdup
  · rw [if_neg hint]
    exact hcustom

/-- Whichever function is chosen for a cursor, it is as the plain one. -/
theorem cursorToSearchFoliage_eq (h : Fits c key) :
    cursorToSearchFoliage m c c.page key = oldNodeSearch m c key := by
  rw [cursorToSearchFoliage]
  by_cases hd : c.dupfixed = true
  · rw [if_pos hd]
    have hdup := h.dupfix
    rw [hd] at hdup
    have hgeneric {f : Val → Val → Int} (hcmp : c.cmp.apply m = f) :
        searchFoliage f f false true c.page key = oldNodeSearch m c key :=
      searchFoliage_eq hdup (fun _ => h.answers_of hcmp) fun _ => h.answers_of hcmp
    cases hcmp : c.cmp with
    | lexical | reverse | lenfast => exact hgeneric (by rw [hcmp]; rfl)
    | uintAlign2 | uintAlign4 | uintUnaligned => exact ordinalDupfix_eq h hd (by rw [hcmp]; rfl)
    | custom g => exact hgeneric rfl
  · rw [if_neg hd]
    rw [Bool.not_eq_true] at hd
    have hdup : c.page.dupfix = false := by rw [h.dupfix, hd, Bool.false_and]
    cases hcmp : c.cmp with
    | lexical | reverse | lenfast => exact usual_eq (h.answers_of (by rw [hcmp]; rfl)) hdup
    | uintAlign2 | uintAlign4 | uintUnaligned => exact ordinalUsual_eq h hd (by rw [hcmp]; rfl)
    | custom g => exact usual_eq h.answers hdup

theorem limits_single {n : Nat} (hmin : c.lmin = n) (hmax : c.lmax = n) : c.limits = (n, n) := by
  rw [Cursor.limits]
  split
  · have heq : c.dupfixSize = n := by omega
    rw [heq]
  · rw [hmin, hmax]

/-- A function that `SEARCH_BRANCH` makes follows the child that the plain search follows. -/
theorem searchBranch_eq (h : Fits c key) (hbranch : c.page.branch = true)
    (hnum : 2 ≤ c.page.numkeys)
    (hf : Answers m c key f) : searchBranch f c.page key = oldBranchSearch m c key := by
  have hlo : c.page.lo = 1 := by rw [Page.lo, if_pos hbranch]
  have hdup : c.page.dupfix = false := by rw [h.dupfix, hbranch, Bool.not_true, Bool.and_false]
  have hloop := @searchLoop_eq m c key f .node (by omega) hf fun i => by rw [hdup]; rfl
  have hsize : 0 < c.page.numkeys - 1 := by omega
  have hend := @Bisect.branchless_inexact (fun i => f (c.page.key i) key) (c.page.numkeys - 1) 1
    (c.page.numkeys - 1) 0 hsize (Nat.le_refl _)
  rw [oldBranchSearch, ← hloop, searchLoop, hlo, searchBranch, if_pos (by omega)]
  generalize Bisect.branchless _ _ _ _ _ = s at hend ⊢
  cases hexact : s.exact with
  | true => simp [hexact]
  | false =>
    obtain ⟨hlast, hle⟩ := hend hexact
    by_cases hin : s.index < c.page.numkeys
    · simp [hexact, hin, hlast]
    · have hout : s.index = c.page.numkeys := by omega
      simp [hexact, hlast, hout]

theorem cursorToSearchBranch_eq (h : Fits c key) (hbranch : c.page.branch = true)
    (hnum : 2 ≤ c.page.numkeys) :
    cursorToSearchBranch m c c.page key = oldBranchSearch m c key := by
  have hgeneric {f : Val → Val → Int} (hcmp : c.cmp.apply m = f) :
      searchBranch f c.page key = oldBranchSearch m c key :=
    searchBranch_eq h hbranch hnum (h.answers_of hcmp)
  have hordinal (hcmp : c.cmp.apply m = cmpUint) :
      (if c.integerkey then
        chooseOrdinal c.validation (c.page.key c.page.lo).length c.lmin c.lmax searchBranchUint32
          searchBranchUint64 searchBranchOrdinal (searchBranchCustom m c)
        else searchBranchCustom m c) c.page key = oldBranchSearch m c key := by
    by_cases hint : c.integerkey = true
    · rw [if_pos hint]
      refine chooseOrdinal_elim (p := fun s : Page → Val → Nat × Nat =>
        s c.page key = oldBranchSearch m c key) ?_ ?_ (hgeneric hcmp) (hgeneric rfl)
      · intro hmin hmax
        have hlimits := limits_single hmin hmax
        refine searchBranch_eq h hbranch hnum (h.unchecked hint hcmp ?_ ?_ (.inl rfl)) <;>
          rw [hlimits]
      · intro hmin hmax
        have hlimits := limits_single hmin hmax
        refine searchBranch_eq h hbranch hnum (h.unchecked hint hcmp ?_ ?_ (.inr rfl)) <;>
          rw [hlimits]
    · rw [if_neg hint]
      exact hgeneric rfl
  rw [cursorToSearchBranch]
  cases hcmp : c.cmp with
  | lexical | reverse | lenfast => exact hgeneric (by rw [hcmp]; rfl)
  | uintAlign2 | uintAlign4 | uintUnaligned => exact hordinal (by rw [hcmp]; rfl)
  | custom g => exact hgeneric rfl

/-- The search that is chosen for a cursor never makes its check panic: it stores the same index and
returns the same as the plain search, after no more steps. -/
theorem treeSearchFoliageConfigure_agrees (h : Fits c key) :
    treeSearchFoliageConfigure m c key = some (oldNodeSearch m c key) := by
  rw [treeSearchFoliageConfigure, cursorToSearchFoliage_eq h]
  simp

/-- The same for the search on a branch page. -/
theorem treeSearchBranchConfigure_agrees (h : Fits c key) (hbranch : c.page.branch = true)
    (hnum : 2 ≤ c.page.numkeys) :
    treeSearchBranchConfigure m c key = some (oldBranchSearch m c key).1 := by
  rw [treeSearchBranchConfigure, cursorToSearchBranch_eq h hbranch hnum]
  simp

/-! ### What they find -/

/-- The keys of the page rise in the order of the comparator, which is one for these keys and the
one that is sought. -/
structure Rising (m : Machine) (c : Cursor) (key : Val) : Prop where
  trans : ∀ i j, c.page.lo ≤ i → i < j → j < c.page.numkeys →
    c.cmp.apply m key (c.page.key i) ≤ 0 → c.cmp.apply m (c.page.key i) (c.page.key j) < 0 →
      c.cmp.apply m key (c.page.key j) < 0
  keys : ∀ i j, c.page.lo ≤ i → i < j → j < c.page.numkeys →
    c.cmp.apply m (c.page.key i) (c.page.key j) < 0

/-- How a comparison comes out when its arguments change places. -/
theorem Fits.neg_iff (h : Fits c key) (a b : Val) :
    c.cmp.apply m a b < 0 ↔ 0 < c.cmp.apply m b a := by
  have hflip := apply_flip h.custom m a b
  have hneg := @Int.sign_eq_neg_one_iff_neg (c.cmp.apply m a b)
  have hpos := @Int.sign_eq_one_iff_pos (c.cmp.apply m b a)
  omega

theorem Rising.rises (hr : Rising m c key) (h : Fits c key) :
    Bisect.Rises (fun i => c.cmp.apply m (c.page.key i) key) c.page.lo c.page.numkeys := by
  intro i j hi hij hj hge
  dsimp only at hge ⊢
  have hle : c.cmp.apply m key (c.page.key i) ≤ 0 := by
    have hnot : ¬ 0 < c.cmp.apply m key (c.page.key i) := fun hpos => by
      have hneg := (h.neg_iff (c.page.key i) key).mpr hpos
      omega
    omega
  exact (h.neg_iff key (c.page.key j)).mp (hr.trans i j hi hij hj hle (hr.keys i j hi hij hj))

/-- The plain search, and so any, ends where the loop without branches ends. -/
theorem oldNodeSearch_found (hr : Rising m c key) (h : Fits c key)
    (hmore : c.page.lo < c.page.numkeys) :
    ∃ s, Bisect.Found (fun i => c.cmp.apply m (c.page.key i) key) c.page.lo c.page.numkeys s ∧
      (oldNodeSearch m c key).ki = s.index ∧ (oldNodeSearch m c key).exact = s.exact ∧
      ((oldNodeSearch m c key).node = .null ↔ c.page.numkeys ≤ s.index) := by
  have hloop := @searchLoop_eq m c key (c.cmp.apply m)
    (fun i => if c.page.dupfix then .fake else .node i) hmore h.answers fun _ => rfl
  have hfound := @Bisect.branchless_whole _ 0 _ _ (hr.rises h) hmore
  refine ⟨_, hfound, ?_⟩
  rw [← hloop, searchLoop]
  refine ⟨rfl, rfl, ?_⟩
  have hexact := hfound.exact
  generalize Bisect.branchless _ _ _ _ _ = s at hexact ⊢
  have hiff : s.exact = true ∨ s.index < c.page.numkeys ↔ s.index < c.page.numkeys :=
    ⟨fun hor => hor.elim (fun hx => (hexact hx).1) id, .inr⟩
  dsimp only
  rw [if_congr hiff rfl rfl]
  split
  · rename_i hin
    constructor
    · intro hnull
      split at hnull <;> cases hnull
    · intro hout
      omega
  · rename_i hout
    exact ⟨fun _ => by omega, fun _ => rfl⟩

theorem oldBranchSearch_child (hr : Rising m c key) (h : Fits c key)
    (hbranch : c.page.branch = true)
    (hnum : 2 ≤ c.page.numkeys) :
    let i := (oldBranchSearch m c key).1
    i < c.page.numkeys ∧ (0 < i → c.cmp.apply m (c.page.key i) key ≤ 0) ∧
      ∀ j, i < j → j < c.page.numkeys → 0 < c.cmp.apply m (c.page.key j) key := by
  have hlo : c.page.lo = 1 := by rw [Page.lo, if_pos hbranch]
  obtain ⟨s, hfound, hki, hexact, hnode⟩ := oldNodeSearch_found hr h (by omega)
  have hlower := hfound.bound.lower
  have hupper := hfound.bound.upper
  dsimp only
  rw [oldBranchSearch]
  dsimp only
  rw [hki, hexact]
  cases hx : s.exact with
  | true =>
    obtain ⟨hin, hzero⟩ := hfound.exact hx
    rw [if_pos (fun hnull => by have hout := hnode.mp hnull; omega), if_pos rfl, Nat.add_sub_cancel]
    refine ⟨hin, fun _ => hzero.le, fun j hij hj => ?_⟩
    exact hr.rises h s.index j hlower hij hj hzero.ge
  | false =>
    have hindex : (if (oldNodeSearch m c key).node ≠ .null then
        s.index + (if false = true then 1 else 0) - 1 else c.page.numkeys - 1) = s.index - 1 := by
      split
      · rfl
      · rename_i hnull
        have hout := hnode.mp (not_not.mp hnull)
        omega
    rw [hindex]
    refine ⟨by omega, fun hpos => ?_, fun j hij hj => hfound.above hx (by omega) hj⟩
    exact (hfound.below (by omega) (by omega)).le

/-- The search that is chosen for a cursor stops at the first key that is not less than the one
sought, says whether that one is equal, and returns no node only where all keys are less. -/
theorem cursorToSearchFoliage_least (hr : Rising m c key) (h : Fits c key)
    (hmore : c.page.lo < c.page.numkeys) :
    let r := cursorToSearchFoliage m c c.page key
    c.page.lo ≤ r.ki ∧ (∀ i, c.page.lo ≤ i → i < r.ki → c.cmp.apply m (c.page.key i) key < 0) ∧
      (∀ i, r.ki ≤ i → i < c.page.numkeys → 0 ≤ c.cmp.apply m (c.page.key i) key) ∧
      (r.exact = true ↔ r.ki < c.page.numkeys ∧ c.cmp.apply m (c.page.key r.ki) key = 0) ∧
      (r.node = .null ↔ c.page.numkeys ≤ r.ki) := by
  obtain ⟨s, hfound, hki, hexact, hnode⟩ := oldNodeSearch_found hr h hmore
  dsimp only
  rw [cursorToSearchFoliage_eq h, hki, hexact]
  have hbound := hfound.bound
  refine ⟨hbound.lower, fun i hi hlt => hfound.below hi hlt, fun i hi hlt => ?_,
    ⟨fun hx => ?_, fun hx => ?_⟩, hnode⟩
  · have hnot := of_decide_eq_false (hbound.after i hi hlt)
    omega
  · exact hfound.exact hx
  · by_contra hnot
    obtain ⟨-, hnone⟩ := hfound.inexact (by simpa using hnot)
    exact hnone s.index hbound.lower hx.1 hx.2

/-- The search on a branch page follows the last child whose first key is not greater than the one
sought, or the first child. -/
theorem cursorToSearchBranch_child (hr : Rising m c key) (h : Fits c key)
    (hbranch : c.page.branch = true) (hnum : 2 ≤ c.page.numkeys) :
    let i := (cursorToSearchBranch m c c.page key).1
    i < c.page.numkeys ∧ (0 < i → c.cmp.apply m (c.page.key i) key ≤ 0) ∧
      ∀ j, i < j → j < c.page.numkeys → 0 < c.cmp.apply m (c.page.key j) key := by
  rw [cursorToSearchBranch_eq h hbranch hnum]
  exact oldBranchSearch_child hr h hbranch hnum

end Agree

/-! ### A page -/

def machine : Machine := ⟨true, true⟩

/-- A page of three integers, and a cursor that compares them unchecked. -/
def sample (branch : Bool) : Cursor where
  page := ⟨branch, false, 3, fun i => [2 * i.toUInt8, 1, 0, 0]⟩
  cmp := .uintAlign2
  lmin := 4
  lmax := 4
  integerkey := true
  dupfixed := false
  dupfixSize := 0
  validation := false

theorem sample_fits (branch : Bool) : Fits (sample branch) [3, 1, 0, 0] where
  custom _ hcmp := by cases hcmp
  dupfix := rfl
  sought _ := ⟨Nat.le_refl 4, Nat.le_refl 4⟩
  sized _ _ _ _ := ⟨Nat.le_refl 4, Nat.le_refl 4⟩

theorem sample_rising (branch : Bool) : Rising machine (sample branch) [3, 1, 0, 0] := by
  have hkeys : ∀ j < 3, ∀ i < j, cmpUint [2 * i.toUInt8, 1, 0, 0] [2 * j.toUInt8, 1, 0, 0] < 0 := by
    decide +kernel
  have htrans : ∀ j < 3, ∀ i < j, cmpUint [3, 1, 0, 0] [2 * i.toUInt8, 1, 0, 0] ≤ 0 →
      cmpUint [3, 1, 0, 0] [2 * j.toUInt8, 1, 0, 0] < 0 := by
    decide +kernel
  exact ⟨fun i j _ hij hj hle _ => htrans j hj i hij hle, fun i j _ hij hj => hkeys j hj i hij⟩

theorem treeSearchFoliageConfigure_agrees_uint32 :
    cursorToSearchFoliage machine (sample false) (sample false).page [3, 1, 0, 0] =
        ⟨2, .node 2, false, 2⟩ ∧
      treeSearchFoliageConfigure machine (sample false) [3, 1, 0, 0] =
        some (oldNodeSearch machine (sample false) [3, 1, 0, 0]) :=
  ⟨by decide +kernel, treeSearchFoliageConfigure_agrees (sample_fits false)⟩

theorem treeSearchBranchConfigure_agrees_uint32 :
    cursorToSearchBranch machine (sample true) (sample true).page [3, 1, 0, 0] = (1, 2) ∧
      treeSearchBranchConfigure machine (sample true) [3, 1, 0, 0] =
        some (oldBranchSearch machine (sample true) [3, 1, 0, 0]).1 :=
  ⟨by decide +kernel, treeSearchBranchConfigure_agrees (sample_fits true) rfl (by decide)⟩

theorem cursorToSearchFoliage_least_uint32 :
    (cursorToSearchFoliage machine (sample false) (sample false).page [3, 1, 0, 0]).ki = 2 ∧
      ∀ i, i < (cursorToSearchFoliage machine (sample false) (sample false).page [3, 1, 0, 0]).ki →
        cmpUint [2 * i.toUInt8, 1, 0, 0] [3, 1, 0, 0] < 0 :=
  ⟨by decide +kernel, fun i hi =>
    (cursorToSearchFoliage_least (sample_rising false) (sample_fits false) (by decide)).2.1 i
      (Nat.zero_le i) hi⟩

theorem cursorToSearchBranch_child_uint32 :
    (cursorToSearchBranch machine (sample true) (sample true).page [3, 1, 0, 0]).1 = 1 ∧
      (cursorToSearchBranch machine (sample true) (sample true).page [3, 1, 0, 0]).1 < 3 :=
  ⟨by decide +kernel,
    (cursorToSearchBranch_child (sample_rising true) (sample_fits true) rfl (by decide)).1⟩

end Foliage

end MdbxGo
