import MdbxGo.Mdbx.Error
import MdbxGo.Libmdbx.Foliage

/-! The way of a cursor to a key: `tree_search` down a tree of pages, `cursor_sibling_right`, and
`cursor_seek`, which looks at the page where the cursor stands before it searches the tree. All
pages of a tree can be read, and its keys have one value each. -/

namespace MdbxGo

namespace Seek

open Compare Foliage

/-! ### Trees and cursors -/

/-- A page with the pages that its nodes lead to. -/
inductive Tree
  | leaf (page : Foliage.Page)
  | branch (page : Foliage.Page) (child : Nat → Tree)

namespace Tree

def page : Tree → Foliage.Page
  | .leaf p => p
  | .branch p _ => p

/-- The page that a node of a branch page leads to. -/
def child : Tree → Nat → Tree
  | .leaf p, _ => .leaf p
  | .branch _ c, i => c i

/-- The keys in their order. -/
def items : Tree → List Val
  | .leaf p => (List.range p.numkeys).flatMap fun i => [p.key i]
  | .branch p c => (List.range p.numkeys).flatMap fun i => (c i).items

/-- The keys at a node. -/
def part : Tree → Nat → List Val
  | .leaf p, i => [p.key i]
  | .branch _ c, i => (c i).items

theorem items_eq (t : Tree) : t.items = (List.range t.page.numkeys).flatMap t.part := by
  cases t <;> rfl

end Tree

/-- The pages and indices of a cursor, the page at the top first. It is empty when the cursor is
poor. -/
abbrev Stack := List (Tree × Nat)

/-- A cursor: `hollow` is `z_hollow`, and `eof` stands for `z_eof_soft` and `z_eof_hard`. -/
structure State where
  stack : Stack
  hollow : Bool
  eof : Bool

/-- A cursor that is fresh or poor: `z_poor_mark` has `z_hollow` and `z_eof_hard`. -/
def poor : State := ⟨[], true, true⟩

/-- A `csr_t`, and the cursor. -/
structure Csr where
  err : Code
  exact : Bool
  cur : State

/-- `CURSOR_STACK_SIZE`, with words of 64 bits. -/
def cursorStackSize : Nat := 32

/-! ### `tree_search` and `cursor_sibling_right` -/

/-- What the searches read of a cursor that looks at a page. -/
def onPage (c : Foliage.Cursor) (p : Foliage.Page) : Foliage.Cursor := { c with page := p }

/-- The loop of `tree_search`, with a page at the top. A cursor with a page too many gets poor. -/
def descend (m : Machine) (c : Foliage.Cursor) (key : Val) : Tree → Stack → Code × Stack
  | .leaf p, stack => (Code.success, (.leaf p, 0) :: stack)
  | .branch p child, stack =>
    let ki := (cursorToSearchBranch m (onPage c p) p key).1
    if cursorStackSize ≤ stack.length + 1 then (Code.cursorFull, [])
    else descend m c key (child ki) ((.branch p child, ki) :: stack)

/-- `tree_search` for a key. An empty tree has no root. -/
def treeSearch (m : Machine) (c : Foliage.Cursor) (root : Option Tree) (key : Val) (stack : Stack) :
    Code × Stack :=
  root.elim (Code.notFound, stack) fun t => descend m c key t []

/-- `cursor_push` of the page that the top leads to. -/
def pushChild : Stack → Stack
  | [] => []
  | (t, ki) :: rest => (t.child ki, 0) :: (t, ki) :: rest

/-- `sibling(mc, true)`, from the parent of the page at the top on. -/
def nextChild : Stack → Option Stack
  | [] => none
  | (t, ki) :: rest =>
    if t.page.numkeys ≤ ki + 1 then (nextChild rest).map pushChild
    else some (pushChild ((t, ki + 1) :: rest))

/-- `cursor_sibling_right`, up to what it does where there is no page to the right. -/
def siblingRight : Stack → Option Stack
  | [] => none
  | _ :: rest => nextChild rest

/-! ### `cursor_seek` -/

def setKi (ki : Nat) : Stack → Stack
  | [] => []
  | (t, _) :: rest => (t, ki) :: rest

/-- `got_node`, and `be_filled` -/
def gotNode (stack : Stack) (exact : Bool) : Csr := ⟨Code.success, exact, ⟨stack, false, false⟩⟩

/-- `target_not_found` -/
def targetNotFound (cur : State) (stack : Stack) : Csr :=
  ⟨Code.notFound, false, ⟨stack, true, cur.eof⟩⟩

/-- There is no key so great. -/
def endOfFile (stack : Stack) : Csr := ⟨Code.notFound, false, ⟨stack, false, true⟩⟩

/-- `search_node` on the page at the top. `range` tells `MDBX_SET_RANGE` from the operations for one
key. -/
def searchNode (m : Machine) (c : Foliage.Cursor) (key : Val) (range : Bool) (cur : State)
    (p : Foliage.Page) (stack : Stack) : Csr :=
  let sr := cursorToSearchFoliage m (onPage c p) p key
  if sr.exact then gotNode (setKi sr.ki stack) true
  else if !range then targetNotFound cur (setKi sr.ki stack)
  else if sr.node = .null then
    (siblingRight stack).elim (endOfFile (setKi (p.numkeys - 1) stack)) fun s => gotNode s false
  else gotNode (setKi sr.ki stack) false

/-- `continue_other_pages`. A search that fails has made the cursor poor, and an empty tree is
searched by poor cursors only. -/
def continueOtherPages (m : Machine) (c : Foliage.Cursor) (root : Option Tree) (key : Val)
    (range : Bool) (cur : State) : Csr :=
  let r := treeSearch m c root key cur.stack
  if r.1 ≠ Code.success then ⟨r.1, false, poor⟩
  else
    match r.2 with
    | [] => ⟨r.1, false, cur⟩
    | (t, ki) :: rest => searchNode m c key range cur t.page ((t, ki) :: rest)

/-- The begin of `cursor_seek`, for a cursor that stands on a page: only where the key may be on
another page the tree is searched. -/
def seekOnPage (m : Machine) (c : Foliage.Cursor) (root : Option Tree) (key : Val) (range : Bool)
    (cur : State) (p : Foliage.Page) (t : Tree) (ki : Nat) (rest : Stack) : Csr :=
  let nkeys := p.numkeys
  let cmp := fun i => c.cmp.apply m key (p.key i)
  if nkeys = 0 then ⟨Code.notFound, false, cur⟩
  else if 0 ≤ cmp 0 then
    if cmp 0 = 0 then gotNode ((t, 0) :: rest) true
    else if 1 < nkeys ∧ cmp (nkeys - 1) ≤ 0 then
      if cmp (nkeys - 1) = 0 then gotNode ((t, nkeys - 1) :: rest) true
      else if 0 < ki ∧ ki < nkeys - 1 ∧ cmp ki = 0 then gotNode ((t, ki) :: rest) true
      else searchNode m c key range cur p ((t, ki) :: rest)
    else if rest.any fun level => level.2 + 1 < level.1.page.numkeys then
      continueOtherPages m c root key range cur
    else if !range then targetNotFound cur ((t, nkeys) :: rest)
    else endOfFile ((t, nkeys) :: rest)
  else if rest.isEmpty then
    if range then gotNode ((t, 0) :: rest) false else targetNotFound cur ((t, 0) :: rest)
  else continueOtherPages m c root key range cur

/-- `cursor_seek` with a key that `check_key` takes. -/
def cursorSeek (m : Machine) (c : Foliage.Cursor) (root : Option Tree) (key : Val) (range : Bool)
    (cur : State) : Csr :=
  match cur.stack with
  | [] => continueOtherPages m c root key range cur
  | (t, ki) :: rest => seekOnPage m c root key range cur t.page t ki rest

/-! ### Trees that are well formed -/

section Formed

/-- The comparator orders the keys for which `ok` holds, and these have the lengths that were
checked. -/
structure Keys (m : Machine) (c : Foliage.Cursor) (ok : Val → Prop) : Prop where
  custom : ∀ f, c.cmp = .custom f → ∀ a b, (f a b).sign = -(f b a).sign
  trans : ∀ a b d, ok a → ok b → ok d → c.cmp.apply m a b ≤ 0 → c.cmp.apply m b d < 0 →
    c.cmp.apply m a d < 0
  sized : c.integerkey = true → ∀ v, ok v → c.Sized v

structure LeafPage (m : Machine) (c : Foliage.Cursor) (ok : Val → Prop) (p : Foliage.Page) :
    Prop where
  branch : p.branch = false
  dupfix : p.dupfix = c.dupfixed
  numkeys : 0 < p.numkeys
  ok : ∀ i, i < p.numkeys → ok (p.key i)
  rising : ∀ i j, i < j → j < p.numkeys → c.cmp.apply m (p.key i) (p.key j) < 0

/-- The key of a node lies between what is left of the node and what is at it. -/
structure BranchPage (m : Machine) (c : Foliage.Cursor) (ok : Val → Prop) (p : Foliage.Page)
    (child : Nat → Tree) : Prop where
  branch : p.branch = true
  dupfix : p.dupfix = false
  numkeys : 2 ≤ p.numkeys
  ok : ∀ i, 0 < i → i < p.numkeys → ok (p.key i)
  rising : ∀ i j, 0 < i → i < j → j < p.numkeys → c.cmp.apply m (p.key i) (p.key j) < 0
  least : ∀ i, 0 < i → i < p.numkeys → ∀ x ∈ (child i).items, c.cmp.apply m (p.key i) x ≤ 0
  before : ∀ i j, j < i → i < p.numkeys → ∀ x ∈ (child j).items, c.cmp.apply m x (p.key i) < 0

/-- A tree whose leaves are all so far down. -/
def Formed (m : Machine) (c : Foliage.Cursor) (ok : Val → Prop) : Nat → Tree → Prop
  | 0, .leaf p => LeafPage m c ok p
  | h + 1, .branch p child =>
    BranchPage m c ok p child ∧ ∀ i, i < p.numkeys → Formed m c ok h (child i)
  | 0, .branch _ _ => False
  | _ + 1, .leaf _ => False

variable {m : Machine} {c : Foliage.Cursor} {ok : Val → Prop} {key a b d : Val} {p : Foliage.Page}
  {t : Tree} {child : Nat → Tree} {h : Nat}

/-- The comparators of libmdbx for bytes order all keys. -/
theorem keys_bytes (hcmp : c.cmp = .lexical ∨ c.cmp = .reverse ∨ c.cmp = .lenfast)
    (hint : c.integerkey = false) (m : Machine) (ok : Val → Prop) : Keys m c ok := by
  refine ⟨fun f hf => ?_, ?_, fun h => absurd (hint.symm.trans h) Bool.false_ne_true⟩
  · rw [hf] at hcmp
    rcases hcmp with h | h | h <;> cases h
  · rcases hcmp with h | h | h
    · rw [h]
      exact orders_of_sign cmpLexical_lex ok
    · rw [h]
      exact orders_of_sign (cmpReverse_lex m.wide) ok
    · rw [h]
      exact orders_of_sign cmpLenfast_lex ok

theorem Keys.neg_iff (hk : Keys m c ok) (a b : Val) :
    c.cmp.apply m a b < 0 ↔ 0 < c.cmp.apply m b a := by
  have hflip := apply_flip hk.custom m a b
  have hneg := @Int.sign_eq_neg_one_iff_neg (c.cmp.apply m a b)
  have hpos := @Int.sign_eq_one_iff_pos (c.cmp.apply m b a)
  omega

theorem Keys.zero_iff (hk : Keys m c ok) (a b : Val) :
    c.cmp.apply m a b = 0 ↔ c.cmp.apply m b a = 0 := by
  have hless := hk.neg_iff a b
  have hmore := hk.neg_iff b a
  omega

/-- The other transitivity. -/
theorem Keys.trans_le (hk : Keys m c ok) (ha : ok a) (hb : ok b) (hd : ok d)
    (hab : c.cmp.apply m a b < 0) (hbd : c.cmp.apply m b d ≤ 0) : c.cmp.apply m a d < 0 := by
  by_contra hnot
  have hda : c.cmp.apply m d a ≤ 0 := by
    have hiff := hk.neg_iff a d
    omega
  have hdb := (hk.neg_iff d b).mp (hk.trans d a b hd ha hb hda hab)
  omega

theorem LeafPage.fits (hk : Keys m c ok) (hp : LeafPage m c ok p) (hkey : ok key) :
    Fits (onPage c p) key where
  custom := hk.custom
  dupfix := by
    have hdup : p.dupfix = (c.dupfixed && !p.branch) := by
      rw [hp.branch, hp.dupfix, Bool.not_false, Bool.and_true]
    exact hdup
  sought hint := hk.sized hint key hkey
  sized hint i _ hi := hk.sized hint _ (hp.ok i hi)

theorem LeafPage.lo_eq (hp : LeafPage m c ok p) : p.lo = 0 := by
  simp [Foliage.Page.lo, hp.branch]

theorem LeafPage.keys_rise (hk : Keys m c ok) (hp : LeafPage m c ok p) (hkey : ok key) :
    Rising m (onPage c p) key where
  trans i j _ hij hj := hk.trans key _ _ hkey (hp.ok i (Nat.lt_trans hij hj)) (hp.ok j hj)
  keys i j _ := hp.rising i j

theorem BranchPage.lo_eq (hp : BranchPage m c ok p child) : p.lo = 1 := by
  simp [Foliage.Page.lo, hp.branch]

theorem BranchPage.fits (hk : Keys m c ok) (hp : BranchPage m c ok p child) (hkey : ok key) :
    Fits (onPage c p) key where
  custom := hk.custom
  dupfix := by
    have hdup : p.dupfix = (c.dupfixed && !p.branch) := by
      rw [hp.branch, hp.dupfix, Bool.not_true, Bool.and_false]
    exact hdup
  sought hint := hk.sized hint key hkey
  sized hint i hlo hi := by
    have hpos : p.lo ≤ i := hlo
    rw [hp.lo_eq] at hpos
    exact hk.sized hint _ (hp.ok i hpos hi)

theorem BranchPage.keys_rise (hk : Keys m c ok) (hp : BranchPage m c ok p child) (hkey : ok key) :
    Rising m (onPage c p) key where
  trans i j hlo hij hj := by
    have hpos : p.lo ≤ i := hlo
    rw [hp.lo_eq] at hpos
    exact hk.trans key _ _ hkey (hp.ok i hpos (Nat.lt_trans hij hj)) (hp.ok j (by omega) hj)
  keys i j hlo hij hj := by
    have hpos : p.lo ≤ i := hlo
    rw [hp.lo_eq] at hpos
    exact hp.rising i j hpos hij hj

/-! ### Paths -/

theorem range_split {α : Type} (f : Nat → List α) {i n : Nat} (hi : i < n) :
    (List.range n).flatMap f = (List.range i).flatMap f ++ f i ++
      (List.range (n - i - 1)).flatMap fun j => f (i + 1 + j) := by
  have hn : n = i + 1 + (n - i - 1) := by omega
  conv_lhs => rw [hn, List.range_add, List.range_succ]
  rw [List.flatMap_append, List.flatMap_append, List.flatMap_singleton, List.flatMap_map]

/-- The keys before the pages of a stack, and those after them. -/
def outerLeft : Stack → List Val
  | [] => []
  | (t, ki) :: rest => outerLeft rest ++ (List.range ki).flatMap t.part

def outerRight : Stack → List Val
  | [] => []
  | (t, ki) :: rest =>
    ((List.range (t.page.numkeys - ki - 1)).flatMap fun j => t.part (ki + 1 + j)) ++ outerRight rest

/-- A stack leads from the root, so far up, to a page that is `h` above the leaves. -/
inductive Path (root : Tree) (height : Nat) : Nat → Stack → Prop
  | root (ki : Nat) : Path root height height [(root, ki)]
  | down {p : Foliage.Page} {child : Nat → Tree} {ki h : Nat} {rest : Stack} (ki' : Nat) :
    Path root height (h + 1) ((.branch p child, ki) :: rest) → ki < p.numkeys →
      Path root height h ((child ki, ki') :: (.branch p child, ki) :: rest)

variable {root : Tree} {height ki ki' : Nat} {rest s s' : Stack}

theorem Path.formed (hroot : Formed m c ok height root) (hs : Path root height h s) :
    ∃ t ki rest, s = (t, ki) :: rest ∧ Formed m c ok h t := by
  induction hs with
  | root ki => exact ⟨root, ki, [], rfl, hroot⟩
  | @down p child ki h rest ki' _ hki ih =>
    obtain ⟨t, k, rest', heq, hformed⟩ := ih
    cases heq
    exact ⟨child ki, ki', _, rfl, hformed.2 ki hki⟩

theorem Path.formed_top (hroot : Formed m c ok height root)
    (hs : Path root height h ((t, ki) :: rest)) :
    Formed m c ok h t := by
  obtain ⟨t', k, rest', heq, hformed⟩ := hs.formed hroot
  cases heq
  exact hformed

/-- The index at the top may be any. -/
theorem Path.setKi (hs : Path root height h ((t, ki) :: rest)) (ki' : Nat) :
    Path root height h ((t, ki') :: rest) := by
  cases hs with
  | root => exact .root ki'
  | down _ hrest hki => exact .down ki' hrest hki

theorem Path.length (hs : Path root height h s) : s.length + h = height + 1 := by
  induction hs with
  | root ki => simp; omega
  | down ki' _ _ ih =>
    simp only [List.length_cons] at ih ⊢
    omega

/-- The keys of a tree are those before a page, those at it and those after it. -/
theorem Path.items_eq (hs : Path root height h s) :
    ∀ t ki rest, s = (t, ki) :: rest →
    root.items = outerLeft rest ++ t.items ++ outerRight rest := by
  induction hs with
  | root ki =>
    rintro t ki rest heq
    cases heq
    simp [outerLeft, outerRight]
  | @down p child ki h rest ki' _ hki ih =>
    rintro t ki'' rest' heq
    cases heq
    have hsplit := range_split (Tree.branch p child).part hki
    rw [ih _ _ _ rfl, Tree.items_eq]
    simp only [Tree.page, outerLeft, outerRight] at hsplit ⊢
    rw [hsplit]
    simp [Tree.part]

theorem formed_ok (ht : Formed m c ok h t) : ∀ x ∈ t.items, ok x := by
  induction h generalizing t with
  | zero =>
    cases t with
    | leaf p =>
      intro x hx
      obtain ⟨i, hi, hx⟩ := List.mem_flatMap.mp hx
      rw [List.mem_singleton.mp hx]
      exact ht.ok i (List.mem_range.mp hi)
    | branch p child => exact ht.elim
  | succ h ih =>
    cases t with
    | leaf p => exact ht.elim
    | branch p child =>
      intro x hx
      obtain ⟨i, hi, hx⟩ := List.mem_flatMap.mp hx
      exact ih (ht.2 i (List.mem_range.mp hi)) x hx

/-- What is at different nodes of a branch page is apart. -/
theorem BranchPage.apart (hk : Keys m c ok) (hp : BranchPage m c ok p child)
    (hchild : ∀ i, i < p.numkeys → Formed m c ok h (child i)) {i j : Nat} (hij : i < j)
    (hj : j < p.numkeys) (x : Val) (hx : x ∈ (child i).items) (y : Val) (hy : y ∈ (child j).items) :
    c.cmp.apply m x y < 0 := by
  have hokx := formed_ok (hchild i (by omega)) x hx
  have hoky := formed_ok (hchild j hj) y hy
  exact hk.trans_le hokx (hp.ok j (by omega) hj) hoky (hp.before j i hij hj x hx)
    (hp.least j (by omega) hj y hy)

/-- The keys of a tree rise. -/
theorem formed_sorted (hk : Keys m c ok) (ht : Formed m c ok h t) :
    t.items.Pairwise fun x y => c.cmp.apply m x y < 0 := by
  induction h generalizing t with
  | zero =>
    cases t with
    | leaf p =>
      refine List.pairwise_flatMap.mpr ⟨fun i _ => List.pairwise_singleton _ _, ?_⟩
      refine List.Pairwise.imp_of_mem ?_ List.pairwise_lt_range
      intro i j _ hj hij x hx y hy
      rw [List.mem_singleton.mp hx, List.mem_singleton.mp hy]
      exact ht.rising i j hij (List.mem_range.mp hj)
    | branch p child => exact ht.elim
  | succ h ih =>
    cases t with
    | leaf p => exact ht.elim
    | branch p child =>
      refine List.pairwise_flatMap.mpr ⟨fun i hi => ih (ht.2 i (List.mem_range.mp hi)), ?_⟩
      refine List.Pairwise.imp_of_mem ?_ List.pairwise_lt_range
      intro i j _ hj hij x hx y hy
      exact ht.1.apart hk ht.2 hij (List.mem_range.mp hj) x hx y hy

/-! ### `tree_search` -/

/-- What is before the pages of a stack is less than a key, and what is after them is greater. -/
structure Around (m : Machine) (c : Foliage.Cursor) (key : Val) (s : Stack) : Prop where
  left : ∀ x ∈ outerLeft s, c.cmp.apply m x key < 0
  right : ∀ x ∈ outerRight s, 0 < c.cmp.apply m x key

/-- The step of the loop: the child that is followed has all keys that may be equal. -/
theorem around_child (hk : Keys m c ok) (hkey : ok key) (hp : BranchPage m c ok p child)
    (hchild : ∀ i, i < p.numkeys → Formed m c ok h (child i)) (ha : Around m c key rest) {i : Nat}
    (hi : i < p.numkeys) (hle : 0 < i → c.cmp.apply m (p.key i) key ≤ 0)
    (hgt : ∀ j, i < j → j < p.numkeys → 0 < c.cmp.apply m (p.key j) key) :
    Around m c key ((.branch p child, i) :: rest) := by
  constructor
  · intro x hx
    rcases List.mem_append.mp hx with hx | hx
    · exact ha.left x hx
    · obtain ⟨j, hj, hx⟩ := List.mem_flatMap.mp hx
      have hj : j < i := List.mem_range.mp hj
      have hokx := formed_ok (hchild j (by omega)) x hx
      exact hk.trans_le hokx (hp.ok i (by omega) hi) hkey (hp.before i j hj hi x hx)
        (hle (by omega))
  · intro x hx
    rcases List.mem_append.mp hx with hx | hx
    · obtain ⟨j, hj, hx⟩ := List.mem_flatMap.mp hx
      have hj : j < p.numkeys - i - 1 := List.mem_range.mp hj
      have hokx := formed_ok (hchild (i + 1 + j) (by omega)) x hx
      have hless := (hk.neg_iff key (p.key (i + 1 + j))).mpr (hgt (i + 1 + j) (by omega) (by omega))
      exact (hk.neg_iff key x).mp (hk.trans_le hkey (hp.ok _ (by omega) (by omega)) hokx hless
        (hp.least _ (by omega) (by omega) x hx))
    · exact ha.right x hx

theorem descend_around (hk : Keys m c ok) (hkey : ok key) (hheight : height < cursorStackSize)
    (ht : Formed m c ok h t) (hs : Path root height h ((t, ki) :: rest))
    (ha : Around m c key rest) :
    ∃ p rest', descend m c key t rest = (Code.success, (.leaf p, 0) :: rest') ∧
      Path root height 0 ((.leaf p, 0) :: rest') ∧ Around m c key rest' := by
  induction t generalizing h ki rest with
  | leaf p =>
    cases h with
    | zero => exact ⟨p, rest, rfl, hs.setKi 0, ha⟩
    | succ h => exact ht.elim
  | branch p child ih =>
    cases h with
    | zero => exact ht.elim
    | succ h =>
      obtain ⟨hp, hchild⟩ := ht
      have hfits := hp.fits hk hkey
      have hbranch : (onPage c p).page.branch = true := hp.branch
      have hnum : 2 ≤ (onPage c p).page.numkeys := hp.numkeys
      obtain ⟨hi, hle, hgt⟩ := oldBranchSearch_child (hp.keys_rise hk hkey) hfits hbranch hnum
      rw [← cursorToSearchBranch_eq hfits hbranch hnum] at hi hle hgt
      have hlength := hs.length
      simp only [List.length_cons] at hlength
      rw [descend]
      rw [if_neg (by omega)]
      exact ih _ (hchild _ hi) (.down 0 (hs.setKi _) hi)
        (around_child hk hkey hp hchild ha hi hle hgt)

/-! ### `cursor_sibling_right` -/

/-- The keys of a branch page, cut before its last child. -/
theorem items_last {k : Nat} (hk : k < p.numkeys) (hlast : p.numkeys ≤ k + 1) :
    (Tree.branch p child).items =
      (List.range k).flatMap (Tree.branch p child).part ++ (child k).items := by
  have hzero : p.numkeys - k - 1 = 0 := by omega
  have hsplit := range_split (Tree.branch p child).part hk
  simp only [hzero, List.range_zero, List.flatMap_nil, List.append_nil] at hsplit
  rw [Tree.items_eq]
  exact hsplit

/-- The keys of a page, cut behind its first node. -/
theorem items_first (t : Tree) (hpos : 0 < t.page.numkeys) (rest : Stack) :
    t.items ++ outerRight rest = t.part 0 ++ outerRight ((t, 0) :: rest) := by
  rw [Tree.items_eq, range_split t.part hpos]
  simp [outerRight]

/-- What is right of a node is the next one, and what is right of that one. -/
theorem outerRight_next (t : Tree) {k : Nat} (hmore : k + 1 < t.page.numkeys) (rest : Stack) :
    t.part (k + 1) ++ outerRight ((t, k + 1) :: rest) = outerRight ((t, k) :: rest) := by
  have hpos : 0 < t.page.numkeys - k - 1 := by omega
  have hsplit := range_split (fun j => t.part (k + 1 + j)) hpos
  have hcount : t.page.numkeys - (k + 1) - 1 = t.page.numkeys - k - 1 - 0 - 1 := by omega
  have hplace (j : Nat) : k + 1 + 1 + j = k + 1 + (0 + 1 + j) := by omega
  simp only [outerRight, hcount, hplace]
  rw [hsplit]
  simp

/-- The next child is the page that follows, and there is none only where no key follows. -/
theorem nextChild_spec (hroot : Formed m c ok height root)
    (hs : Path root height h ((t, ki) :: s)) :
    (nextChild s = none → outerRight s = []) ∧
      ∀ s', nextChild s = some s' → ∃ t' rest, s' = (t', 0) :: rest ∧ Path root height h s' ∧
        outerLeft rest = outerLeft s ++ t.items ∧ t'.items ++ outerRight rest = outerRight s := by
  induction s generalizing h t ki with
  | nil => exact ⟨fun _ => rfl, fun s' hs' => by cases hs'⟩
  | cons top rest ih =>
    cases hs with
    | @down p child k _ _ _ hrest hk =>
      rw [nextChild]
      by_cases hlast : (Tree.branch p child).page.numkeys ≤ k + 1
      · -- The parent is done with: the child is the first one of the page behind the parent.
        rw [if_pos hlast]
        have hle : p.numkeys ≤ k + 1 := hlast
        have hzero : p.numkeys - k - 1 = 0 := by omega
        have hright : outerRight ((Tree.branch p child, k) :: rest) = outerRight rest := by
          simp [outerRight, Tree.page, hzero]
        obtain ⟨hnone, hsome⟩ := ih hrest
        rw [hright]
        refine ⟨fun hmap => hnone (Option.map_eq_none_iff.mp hmap), fun s' hs' => ?_⟩
        obtain ⟨s'', hs'', rfl⟩ := Option.map_eq_some_iff.mp hs'
        obtain ⟨t', rest', rfl, hpath, hleft, hitems⟩ := hsome s'' hs''
        have hformed := hpath.formed_top hroot
        cases t' with
        | leaf p' => exact hformed.elim
        | branch p' child' =>
          have hpos : 0 < p'.numkeys := by
            have hnum := hformed.1.numkeys
            omega
          refine ⟨child' 0, _, rfl, .down 0 hpath hpos, ?_, ?_⟩
          · simp [outerLeft, hleft, items_last hk hle]
          · exact (items_first (.branch p' child') hpos rest').symm.trans hitems
      · rw [if_neg hlast]
        have hmore : k + 1 < p.numkeys := Nat.lt_of_not_le hlast
        refine ⟨fun hnone => (Option.some_ne_none _ hnone).elim, fun s' hs' => ?_⟩
        obtain rfl := Option.some.inj hs'
        refine ⟨child (k + 1), _, rfl, .down 0 (hrest.setKi _) hmore, ?_,
          outerRight_next (.branch p child) hmore rest⟩
        simp [outerLeft, Tree.part, List.range_succ]

/-- The next leaf begins with the first key that follows the page at the top. -/
theorem siblingRight_spec (hroot : Formed m c ok height root)
    (hs : Path root height 0 ((.leaf p, ki) :: rest)) :
    (siblingRight ((.leaf p, ki) :: rest) = none → outerRight rest = []) ∧
      ∀ s, siblingRight ((.leaf p, ki) :: rest) = some s → ∃ p' rest', s = (.leaf p', 0) :: rest' ∧
        Path root height 0 s ∧ 0 < p'.numkeys ∧
          outerLeft rest' = outerLeft rest ++ (Tree.leaf p).items ∧
        p'.key 0 :: outerRight s = outerRight rest := by
  obtain ⟨hnone, hsome⟩ := nextChild_spec hroot hs
  refine ⟨hnone, fun s hnext => ?_⟩
  obtain ⟨t', rest', rfl, hpath, hleft, hitems⟩ := hsome s hnext
  have hformed := hpath.formed_top hroot
  cases t' with
  | branch p' child' => exact hformed.elim
  | leaf p' =>
    exact ⟨p', rest', rfl, hpath, hformed.numkeys, hleft,
      (items_first (.leaf p') hformed.numkeys rest').symm.trans hitems⟩

/-! ### `cursor_seek` -/

/-- The cursor stands on the first key that is not less than the one sought. -/
def Stands (m : Machine) (c : Foliage.Cursor) (key : Val) (root : Tree) (stack : Stack) : Prop :=
  ∃ p ki rest before after, stack = (.leaf p, ki) :: rest ∧ ki < p.numkeys ∧
    root.items = before ++ p.key ki :: after ∧ (∀ x ∈ before, c.cmp.apply m x key < 0) ∧
      0 ≤ c.cmp.apply m (p.key ki) key

/-- What `cursor_seek` is for. -/
structure Finds (m : Machine) (c : Foliage.Cursor) (key : Val) (range : Bool) (root : Tree)
    (height : Nat) (r : Csr) : Prop where
  path : Path root height 0 r.cur.stack
  exact : r.exact = true ↔ ∃ x ∈ root.items, c.cmp.apply m x key = 0
  found : r.err = Code.success →
    Stands m c key root r.cur.stack ∧ (range = false → r.exact = true)
  filled : r.err = Code.success → r.cur.hollow = false ∧ r.cur.eof = false
  missing : r.err ≠ Code.success → r.err = Code.notFound ∧
    ∀ x ∈ root.items, if range then c.cmp.apply m x key < 0 else c.cmp.apply m x key ≠ 0

variable {range e : Bool} {cur : State} {i : Nat} {x : Val} {r : Csr}

/-- A key is before the page of a cursor, on it, or after it. -/
theorem mem_items (hs : Path root height 0 ((.leaf p, ki) :: rest)) (hx : x ∈ root.items) :
    x ∈ outerLeft rest ∨ (∃ i, i < p.numkeys ∧ x = p.key i) ∨ x ∈ outerRight rest := by
  rw [hs.items_eq _ _ _ rfl] at hx
  rcases List.mem_append.mp hx with hx | hx
  · rcases List.mem_append.mp hx with hx | hx
    · exact .inl hx
    · obtain ⟨i, hi, hx⟩ := List.mem_flatMap.mp hx
      exact .inr (.inl ⟨i, List.mem_range.mp hi, List.mem_singleton.mp hx⟩)
  · exact .inr (.inr hx)

/-- The keys around a page are apart from the ones on it. -/
theorem apart_left (hk : Keys m c ok) (hroot : Formed m c ok height root)
    (hs : Path root height 0 ((.leaf p, ki) :: rest)) (hi : i < p.numkeys) :
    (∀ x ∈ outerLeft rest, c.cmp.apply m x (p.key i) < 0) ∧
      ∀ x ∈ outerRight rest, c.cmp.apply m (p.key i) x < 0 := by
  have hsorted := formed_sorted hk hroot
  have hmem : p.key i ∈ (Tree.leaf p).items :=
    List.mem_flatMap.mpr ⟨i, List.mem_range.mpr hi, List.mem_singleton.mpr rfl⟩
  rw [hs.items_eq _ _ _ rfl] at hsorted
  obtain ⟨hfront, -, hright⟩ := List.pairwise_append.mp hsorted
  obtain ⟨-, -, hleft⟩ := List.pairwise_append.mp hfront
  exact ⟨fun x hx => hleft x hx _ hmem,
    fun x hx => hright _ (List.mem_append_right _ hmem) x hx⟩

/-- All keys around a page are known, so those of the root are. -/
theorem ok_around (hroot : Formed m c ok height root)
    (hs : Path root height 0 ((.leaf p, ki) :: rest)) :
    (∀ x ∈ outerLeft rest, ok x) ∧ ∀ x ∈ outerRight rest, ok x := by
  have hok := formed_ok hroot
  rw [hs.items_eq _ _ _ rfl] at hok
  exact ⟨fun x hx => hok x (List.mem_append_left _ (List.mem_append_left _ hx)),
    fun x hx => hok x (List.mem_append_right _ hx)⟩

/-- The keys of the root, cut at one of the keys of a page. -/
theorem items_at (hs : Path root height 0 ((.leaf p, ki) :: rest)) (hi : i < p.numkeys) :
    root.items = (outerLeft rest ++ (List.range i).flatMap (Tree.leaf p).part) ++
      p.key i ::
        (((List.range (p.numkeys - i - 1)).flatMap fun j => (Tree.leaf p).part (i + 1 + j)) ++
        outerRight rest) := by
  have hsplit := range_split (Tree.leaf p).part hi
  have hleaf : (Tree.leaf p).items = _ := (Tree.items_eq _).trans hsplit
  rw [hs.items_eq _ _ _ rfl, hleaf]
  simp [Tree.part]

/-- The seek stands on a key that is not less, with all that is before it less. -/
theorem finds_gotNode (hk : Keys m c ok) (hroot : Formed m c ok height root) (hkey : ok key)
    (hs : Path root height 0 ((.leaf p, ki) :: rest)) (hi : i < p.numkeys)
    (hleft : ∀ x ∈ outerLeft rest, c.cmp.apply m x key < 0)
    (hbefore : ∀ j, j < i → c.cmp.apply m (p.key j) key < 0)
    (hge : 0 ≤ c.cmp.apply m (p.key i) key) (he : e = true ↔ c.cmp.apply m (p.key i) key = 0)
    (honly : range = false → e = true) :
    Finds m c key range root height (gotNode ((.leaf p, i) :: rest) e) := by
  have hitems := items_at hs hi
  have hless : ∀ x ∈ outerLeft rest ++ (List.range i).flatMap (Tree.leaf p).part,
      c.cmp.apply m x key < 0 := by
    intro x hx
    rcases List.mem_append.mp hx with hx | hx
    · exact hleft x hx
    · obtain ⟨j, hj, hx⟩ := List.mem_flatMap.mp hx
      rw [List.mem_singleton.mp hx]
      exact hbefore j (List.mem_range.mp hj)
  have hok := formed_ok hroot
  have hsorted := formed_sorted hk hroot
  rw [hitems] at hsorted hok
  obtain ⟨-, hrest, -⟩ := List.pairwise_append.mp hsorted
  have hafter := (List.pairwise_cons.mp hrest).1
  refine ⟨hs.setKi i, ?_, fun _ => ⟨⟨p, i, rest, _, _, rfl, hi, hitems, hless, hge⟩, honly⟩,
    fun _ => ⟨rfl, rfl⟩, fun hnot => absurd rfl hnot⟩
  constructor
  · intro hexact
    exact ⟨p.key i, by rw [hitems]; simp, he.mp hexact⟩
  · rintro ⟨x, hx, hzero⟩
    rw [hitems] at hx
    rcases List.mem_append.mp hx with hx | hx
    · have hneg := hless x hx
      omega
    · rcases List.mem_cons.mp hx with rfl | hx
      · exact he.mpr hzero
      · -- What follows is greater than the key on which the cursor stands.
        have hokp : ok (p.key i) := hok _ (List.mem_append_right _ List.mem_cons_self)
        have hokx : ok x := hok _ (List.mem_append_right _ (List.mem_cons_of_mem _ hx))
        have hle : c.cmp.apply m key (p.key i) ≤ 0 := by
          have hiff := hk.neg_iff (p.key i) key
          omega
        have hneg := hk.trans key (p.key i) x hkey hokp hokx hle (hafter x hx)
        have hiff := hk.neg_iff key x
        omega

/-- A seek of a range stands on the first key that is greater. -/
theorem finds_greater (hk : Keys m c ok) (hroot : Formed m c ok height root) (hkey : ok key)
    (hs : Path root height 0 ((.leaf p, ki) :: rest)) (hi : i < p.numkeys)
    (hleft : ∀ x ∈ outerLeft rest, c.cmp.apply m x key < 0)
    (hbefore : ∀ j, j < i → c.cmp.apply m (p.key j) key < 0)
    (hpos : 0 < c.cmp.apply m (p.key i) key) :
    Finds m c key true root height (gotNode ((.leaf p, i) :: rest) false) :=
  finds_gotNode hk hroot hkey hs hi hleft hbefore hpos.le
    ⟨fun hf => (Bool.false_ne_true hf).elim, fun hzero => by omega⟩
    fun hf => (Bool.false_ne_true hf.symm).elim

/-- Nothing that would do is in the tree. -/
theorem finds_nothing (hs : Path root height 0 r.cur.stack) (herr : r.err = Code.notFound)
    (hexact : r.exact = false)
    (hnone : ∀ x ∈ root.items, if range then c.cmp.apply m x key < 0 else c.cmp.apply m x key ≠ 0) :
    Finds m c key range root height r := by
  have hfails : r.err ≠ Code.success := by
    rw [herr]
    decide
  refine ⟨hs, ⟨fun h => ?_, ?_⟩, fun hsuccess => absurd hsuccess hfails,
    fun hsuccess => absurd hsuccess hfails, fun _ => ⟨herr, hnone⟩⟩
  · rw [hexact] at h
    cases h
  · rintro ⟨x, hx, hzero⟩
    have hx := hnone x hx
    split at hx <;> omega

/-- All keys of the page are less, so the next page begins with a greater one. -/
theorem siblingRight_finds (hk : Keys m c ok) (hroot : Formed m c ok height root) (hkey : ok key)
    (hs : Path root height 0 ((.leaf p, ki) :: rest)) (ha : Around m c key rest)
    (hall : ∀ j, j < p.numkeys → c.cmp.apply m (p.key j) key < 0) :
    Finds m c key true root height ((siblingRight ((.leaf p, ki) :: rest)).elim
      (endOfFile (setKi (p.numkeys - 1) ((.leaf p, ki) :: rest))) fun s => gotNode s false) := by
  obtain ⟨hnone, hsome⟩ := siblingRight_spec hroot hs
  cases hnext : siblingRight ((.leaf p, ki) :: rest) with
  | none =>
    refine finds_nothing (hs.setKi _) rfl rfl fun x hmem => ?_
    rcases mem_items hs hmem with hmem | ⟨i, hi, rfl⟩ | hmem
    · exact ha.left x hmem
    · exact hall i hi
    · rw [hnone hnext] at hmem
      cases hmem
  | some s' =>
    obtain ⟨p', rest', rfl, hpath, hnum, hleft, hitems⟩ := hsome s' hnext
    have hmem : p'.key 0 ∈ outerRight rest := by
      rw [← hitems]
      exact List.mem_cons_self
    have hfront : ∀ x ∈ outerLeft rest', c.cmp.apply m x key < 0 := by
      intro x hx
      rw [hleft] at hx
      rcases List.mem_append.mp hx with hx | hx
      · exact ha.left x hx
      · obtain ⟨j, hj, hx⟩ := List.mem_flatMap.mp hx
        rw [List.mem_singleton.mp hx]
        exact hall j (List.mem_range.mp hj)
    exact finds_greater hk hroot hkey hpath hnum hfront
      (fun j hj => absurd hj (Nat.not_lt_zero j)) (ha.right _ hmem)

/-- On the page that has the place of the key, the search ends the seek. -/
theorem searchNode_finds (hk : Keys m c ok) (hroot : Formed m c ok height root) (hkey : ok key)
    (hs : Path root height 0 ((.leaf p, ki) :: rest)) (ha : Around m c key rest) :
    Finds m c key range root height (searchNode m c key range cur p ((.leaf p, ki) :: rest)) := by
  have hp : LeafPage m c ok p := hs.formed_top hroot
  have hfits := hp.fits hk hkey
  have hlo : (onPage c p).page.lo = 0 := hp.lo_eq
  have hmore : (onPage c p).page.lo < (onPage c p).page.numkeys := by
    rw [hlo]
    exact hp.numkeys
  obtain ⟨st, hfound, hki, hexact, hnode⟩ := oldNodeSearch_found (hp.keys_rise hk hkey) hfits hmore
  have hnew : cursorToSearchFoliage m (onPage c p) p key = oldNodeSearch m (onPage c p) key :=
    cursorToSearchFoliage_eq hfits
  have hbefore (j : Nat) (hj : j < st.index) : c.cmp.apply m (p.key j) key < 0 :=
    hfound.below (by omega) hj
  rw [searchNode, hnew, hki, hexact]
  cases hx : st.exact with
  | true =>
    obtain ⟨hin, hzero⟩ := hfound.exact hx
    exact finds_gotNode hk hroot hkey hs hin ha.left hbefore hzero.ge ⟨fun _ => hzero, fun _ => rfl⟩
      fun _ => rfl
  | false =>
    have hne : ∀ x ∈ root.items, c.cmp.apply m x key ≠ 0 := by
      intro x hmem
      rcases mem_items hs hmem with hmem | ⟨i, hi, rfl⟩ | hmem
      · have hneg := ha.left x hmem
        omega
      · exact (hfound.inexact hx).2 i (by omega) hi
      · have hpos := ha.right x hmem
        omega
    rw [if_neg Bool.false_ne_true]
    cases range with
    | false => exact finds_nothing (hs.setKi st.index) rfl rfl fun x hmem => hne x hmem
    | true =>
      simp only [Bool.not_true, Bool.false_eq_true, if_false]
      by_cases hnull : (oldNodeSearch m (onPage c p) key).node = .null
      · rw [if_pos hnull]
        exact siblingRight_finds hk hroot hkey hs ha fun j hj =>
          hbefore j (Nat.lt_of_lt_of_le hj (hnode.mp hnull))
      · rw [if_neg hnull]
        have hin : st.index < p.numkeys := Nat.lt_of_not_le fun hle => hnull (hnode.mpr hle)
        exact finds_greater hk hroot hkey hs hin ha.left hbefore
          (hfound.above hx (Nat.le_refl _) hin)

theorem continueOtherPages_finds (hk : Keys m c ok) (hroot : Formed m c ok height root)
    (hheight : height < cursorStackSize) (hkey : ok key) :
    Finds m c key range root height (continueOtherPages m c (some root) key range cur) := by
  have hnone : Around m c key [] := ⟨fun x hx => (by cases hx), fun x hx => (by cases hx)⟩
  obtain ⟨p, rest, hdescend, hpath, ha⟩ := descend_around hk hkey hheight hroot (.root 0) hnone
  have hsearch : treeSearch m c (some root) key cur.stack = (Code.success, (.leaf p, 0) :: rest) :=
    hdescend
  rw [continueOtherPages, hsearch]
  exact searchNode_finds hk hroot hkey hpath ha

/-- A key of the page where the cursor stands is the one sought. -/
theorem finds_equal (hk : Keys m c ok) (hroot : Formed m c ok height root) (hkey : ok key)
    (hs : Path root height 0 ((.leaf p, ki) :: rest)) (hi : i < p.numkeys)
    (hzero : c.cmp.apply m key (p.key i) = 0) :
    Finds m c key range root height (gotNode ((.leaf p, i) :: rest) true) := by
  have hp : LeafPage m c ok p := hs.formed_top hroot
  have hzero' := (hk.zero_iff key (p.key i)).mp hzero
  refine finds_gotNode hk hroot hkey hs hi (fun x hx => ?_) (fun j hj => ?_) hzero'.ge
    ⟨fun _ => hzero', fun _ => rfl⟩ fun _ => rfl
  · exact hk.trans_le ((ok_around hroot hs).1 x hx) (hp.ok i hi) hkey
      ((apart_left hk hroot hs hi).1 x hx) hzero'.le
  · exact hk.trans_le (hp.ok j (by omega)) (hp.ok i hi) hkey (hp.rising j i hj hi) hzero'.le

theorem outerRight_eq_nil (hlast : ∀ level ∈ s, ¬ level.2 + 1 < level.1.page.numkeys) :
    outerRight s = [] := by
  induction s with
  | nil => rfl
  | cons top rest ih =>
    obtain ⟨t, ki⟩ := top
    have hnot := hlast (t, ki) List.mem_cons_self
    have hzero : t.page.numkeys - ki - 1 = 0 := by
      dsimp only at hnot
      omega
    rw [outerRight, hzero, ih fun level hlevel => hlast level (List.mem_cons_of_mem _ hlevel)]
    rfl

/-- The key is between the first one of the page and the last one. -/
theorem finds_between (hk : Keys m c ok) (hroot : Formed m c ok height root) (hkey : ok key)
    (hs : Path root height 0 ((.leaf p, ki) :: rest)) (hi : i < p.numkeys)
    (hbefore : ∀ x ∈ outerLeft rest, c.cmp.apply m x key < 0)
    (hle : c.cmp.apply m key (p.key i) ≤ 0) :
    Finds m c key range root height (searchNode m c key range cur p ((.leaf p, ki) :: rest)) := by
  have hp : LeafPage m c ok p := hs.formed_top hroot
  refine searchNode_finds hk hroot hkey hs ⟨hbefore, fun x hx => ?_⟩
  exact (hk.neg_iff key x).mp (hk.trans key _ x hkey (hp.ok i hi) ((ok_around hroot hs).2 x hx) hle
    ((apart_left hk hroot hs hi).2 x hx))

/-- The key is greater than all keys of the page, and no page is to the right. -/
theorem finds_past (hk : Keys m c ok) (hroot : Formed m c ok height root) (hkey : ok key)
    (hs : Path root height 0 ((.leaf p, ki) :: rest))
    (hlast : c.cmp.apply m (p.key (p.numkeys - 1)) key < 0)
    (hbefore : ∀ x ∈ outerLeft rest, c.cmp.apply m x key < 0)
    (hany : ¬ (rest.any fun level => level.2 + 1 < level.1.page.numkeys) = true) :
    Finds m c key range root height
      (if !range then targetNotFound cur ((.leaf p, p.numkeys) :: rest)
        else endOfFile ((.leaf p, p.numkeys) :: rest)) := by
  have hp : LeafPage m c ok p := hs.formed_top hroot
  have hnum := hp.numkeys
  have hnone : outerRight rest = [] := outerRight_eq_nil fun level hlevel hmore =>
    hany (List.any_eq_true.mpr ⟨level, hlevel, decide_eq_true hmore⟩)
  have hall : ∀ x ∈ root.items, c.cmp.apply m x key < 0 := by
    intro x hx
    rcases mem_items hs hx with hx | ⟨j, hj, rfl⟩ | hx
    · exact hbefore x hx
    · by_cases hj' : j = p.numkeys - 1
      · rw [hj']
        exact hlast
      · exact hk.trans_le (hp.ok j hj) (hp.ok _ (by omega)) hkey
          (hp.rising j _ (by omega) (by omega)) hlast.le
    · rw [hnone] at hx
      cases hx
  cases range with
  | false => exact finds_nothing (hs.setKi _) rfl rfl fun x hx => (hall x hx).ne
  | true => exact finds_nothing (hs.setKi _) rfl rfl hall

/-- The key is less than all keys of the only page. -/
theorem finds_first (hk : Keys m c ok) (hroot : Formed m c ok height root) (hkey : ok key)
    (hs : Path root height 0 [(.leaf p, ki)]) (hpos : 0 < c.cmp.apply m (p.key 0) key) :
    Finds m c key range root height
      (if range then gotNode [(.leaf p, 0)] false else targetNotFound cur [(.leaf p, 0)]) := by
  have hp : LeafPage m c ok p := hs.formed_top hroot
  cases range with
  | true =>
    exact finds_greater hk hroot hkey hs hp.numkeys (fun x hx => by cases hx)
      (fun j hj => absurd hj (Nat.not_lt_zero j)) hpos
  | false =>
    refine finds_nothing (hs.setKi _) rfl rfl fun x hx => ?_
    rcases mem_items hs hx with hx | ⟨j, hj, rfl⟩ | hx
    · cases hx
    · by_cases hj' : j = 0
      · rw [hj']
        exact hpos.ne'
      · have hless := (hk.neg_iff key (p.key 0)).mpr hpos
        have hneg := hk.trans key _ _ hkey (hp.ok 0 hp.numkeys) (hp.ok j hj) hless.le
          (hp.rising 0 j (by omega) hj)
        exact ((hk.neg_iff key (p.key j)).mp hneg).ne'
    · cases hx

theorem seekOnPage_finds (hk : Keys m c ok) (hroot : Formed m c ok height root)
    (hheight : height < cursorStackSize) (hkey : ok key)
    (hs : Path root height 0 ((.leaf p, ki) :: rest)) :
    Finds m c key range root height
      (seekOnPage m c (some root) key range cur p (.leaf p) ki rest) := by
  have hother :
      Finds m c key range root height (continueOtherPages m c (some root) key range cur) :=
    continueOtherPages_finds hk hroot hheight hkey
  have hp : LeafPage m c ok p := hs.formed_top hroot
  have hnum := hp.numkeys
  have hend : p.numkeys - 1 < p.numkeys := by omega
  have hless (i : Nat) := hk.neg_iff (p.key i) key
  rw [seekOnPage]
  simp only [if_neg (show ¬ p.numkeys = 0 by omega)]
  by_cases hge : 0 ≤ c.cmp.apply m key (p.key 0)
  · rw [if_pos hge]
    by_cases hzero : c.cmp.apply m key (p.key 0) = 0
    · rw [if_pos hzero]
      exact finds_equal hk hroot hkey hs hnum hzero
    · rw [if_neg hzero]
      have hneg := (hless 0).mpr (by omega)
      have hbefore : ∀ x ∈ outerLeft rest, c.cmp.apply m x key < 0 := fun x hx =>
        hk.trans_le ((ok_around hroot hs).1 x hx) (hp.ok 0 hnum) hkey
          ((apart_left hk hroot hs hnum).1 x hx) hneg.le
      by_cases hin : 1 < p.numkeys ∧ c.cmp.apply m key (p.key (p.numkeys - 1)) ≤ 0
      · rw [if_pos hin]
        by_cases hlast : c.cmp.apply m key (p.key (p.numkeys - 1)) = 0
        · rw [if_pos hlast]
          exact finds_equal hk hroot hkey hs hend hlast
        · rw [if_neg hlast]
          by_cases hhere : 0 < ki ∧ ki < p.numkeys - 1 ∧ c.cmp.apply m key (p.key ki) = 0
          · rw [if_pos hhere]
            exact finds_equal hk hroot hkey hs (by omega) hhere.2.2
          · rw [if_neg hhere]
            exact finds_between hk hroot hkey hs hend hbefore hin.2
      · rw [if_neg hin]
        by_cases hany : (rest.any fun level => level.2 + 1 < level.1.page.numkeys) = true
        · rw [if_pos hany]
          exact hother
        · rw [if_neg hany]
          refine finds_past hk hroot hkey hs ?_ hbefore hany
          by_cases hone : p.numkeys = 1
          · rw [hone]
            exact hneg
          · exact (hless _).mpr (by omega)
  · rw [if_neg hge]
    have hpos := (hk.neg_iff key (p.key 0)).mp (by omega)
    cases rest with
    | cons top rest => exact hother
    | nil => exact finds_first hk hroot hkey hs hpos

/-- From wherever the cursor stands, the seek finds what a search of the whole tree finds. -/
theorem seek_finds (hk : Keys m c ok) (hroot : Formed m c ok height root)
    (hheight : height < cursorStackSize) (hkey : ok key)
    (hcur : cur.stack = [] ∨ Path root height 0 cur.stack) :
    Finds m c key range root height (cursorSeek m c (some root) key range cur) := by
  rw [cursorSeek]
  rcases hstack : cur.stack with _ | ⟨⟨t, ki⟩, rest⟩
  · exact continueOtherPages_finds hk hroot hheight hkey
  · rw [hstack] at hcur
    have hs := hcur.resolve_left (List.cons_ne_nil _ _)
    have hformed := hs.formed_top hroot
    cases t with
    | branch p child => exact hformed.elim
    | leaf p => exact seekOnPage_finds hk hroot hheight hkey hs

/-- The state of a cursor after some seeks. -/
def seeks (m : Machine) (c : Foliage.Cursor) (root : Option Tree) :
    List (Val × Bool) → State → State
  | [], cur => cur
  | (key, range) :: ops, cur => seeks m c root ops (cursorSeek m c root key range cur).cur

/-- The run lemma: the cursor stays on a path from the root to a leaf. -/
theorem seeks_path (hk : Keys m c ok) (hroot : Formed m c ok height root)
    (hheight : height < cursorStackSize) {ops : List (Val × Bool)} (hops : ∀ op ∈ ops, ok op.1)
    (hcur : cur.stack = [] ∨ Path root height 0 cur.stack) :
    (seeks m c (some root) ops cur).stack = [] ∨
      Path root height 0 (seeks m c (some root) ops cur).stack := by
  induction ops generalizing cur with
  | nil => exact hcur
  | cons op ops ih =>
    have hfinds : Finds m c op.1 op.2 root height (cursorSeek m c (some root) op.1 op.2 cur) :=
      seek_finds hk hroot hheight (hops op List.mem_cons_self) hcur
    exact ih (fun op' hop' => hops op' (List.mem_cons_of_mem op hop')) (.inr hfinds.path)

/-- After any seeks with one cursor, a seek finds what a search of the whole tree finds: it tells
whether the key is there, stands on the first key that is not less when it succeeds, and fails only
where no key would do. -/
theorem cursorSeek_finds (hk : Keys m c ok) (hroot : Formed m c ok height root)
    (hheight : height < cursorStackSize) {ops : List (Val × Bool)} (hops : ∀ op ∈ ops, ok op.1)
    (hkey : ok key) (range : Bool) :
    Finds m c key range root height
      (cursorSeek m c (some root) key range (seeks m c (some root) ops poor)) :=
  seek_finds hk hroot hheight hkey (seeks_path hk hroot hheight hops (.inl rfl))

end Formed

/-! ### A tree -/

/-- A cursor of a table whose keys are bytes. -/
def sampleCursor : Foliage.Cursor where
  page := ⟨false, false, 0, fun _ => []⟩
  cmp := .lexical
  lmin := 0
  lmax := 8
  integerkey := false
  dupfixed := false
  dupfixSize := 0
  validation := false

def sampleLeaf (i : Nat) : Foliage.Page :=
  ⟨false, false, 2, fun j => [98 + 4 * i.toUInt8 + 2 * j.toUInt8]⟩

/-- The keys b and d are on one leaf, f and h on the other. -/
def sampleTree : Tree :=
  .branch ⟨true, false, 2, fun i => [98 + 4 * i.toUInt8]⟩ fun i => .leaf (sampleLeaf i)

theorem sampleTree_formed : Formed machine sampleCursor (fun _ => True) 1 sampleTree := by
  have hrising : ∀ j < 2, ∀ i < j,
      cmpLexical [98 + 4 * i.toUInt8] [98 + 4 * j.toUInt8] < 0 := by decide +kernel
  have hleaf : ∀ k < 2, ∀ j < 2, ∀ i < j,
      cmpLexical ((sampleLeaf k).key i) ((sampleLeaf k).key j) < 0 := by decide +kernel
  have hleast : ∀ i < 2, ∀ x ∈ (Tree.leaf (sampleLeaf i)).items,
      cmpLexical [98 + 4 * i.toUInt8] x ≤ 0 := by decide +kernel
  have hbefore : ∀ i < 2, ∀ j < i, ∀ x ∈ (Tree.leaf (sampleLeaf j)).items,
      cmpLexical x [98 + 4 * i.toUInt8] < 0 := by decide +kernel
  refine ⟨⟨rfl, rfl, Nat.le_refl 2, fun _ _ _ => trivial, fun i j _ hij hj => hrising j hj i hij,
    fun i _ hi => hleast i hi, fun i j hij hi => hbefore i hi j hij⟩, fun k hk => ?_⟩
  exact ⟨rfl, rfl, Nat.zero_lt_two, fun _ _ => trivial, fun i j hij hj => hleaf k hk j hj i hij⟩

/-- A cursor that stands on b seeks the range from e on. -/
theorem cursorSeek_finds_sibling :
    (seeks machine sampleCursor (some sampleTree) [([98], false)] poor).stack.length = 2 ∧
      (cursorSeek machine sampleCursor (some sampleTree) [101] true
        (seeks machine sampleCursor (some sampleTree) [([98], false)] poor)).err =
          Code.success ∧
      Finds machine sampleCursor [101] true sampleTree 1
        (cursorSeek machine sampleCursor (some sampleTree) [101] true
          (seeks machine sampleCursor (some sampleTree) [([98], false)] poor)) :=
  ⟨by decide +kernel, by decide +kernel,
    cursorSeek_finds (keys_bytes (.inl rfl) rfl machine _) sampleTree_formed (by decide)
      (fun _ _ => trivial) trivial true⟩

end Seek

end MdbxGo
