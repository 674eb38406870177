import MdbxGo.Libmdbx.Seek

/-! The steps of a cursor from one key to the next: `outer_first` and `outer_next`, and a scan of a
range, which seeks its begin and then takes one step after the other. -/

namespace MdbxGo

namespace Seek

open Compare Foliage

/-! ### `outer_first` and `outer_next` -/

/-- `tree_deepen_edge` with `Z_FIRST`. -/
def deepenFirst : Tree → Stack → Code × Stack
  | .leaf p, stack => (Code.success, (.leaf p, 0) :: stack)
  | .branch p child, stack =>
    if cursorStackSize ≤ stack.length + 1 then (Code.cursorFull, [])
    else deepenFirst (child 0) ((.branch p child, 0) :: stack)

/-- `cursor_brim` to the begin. Only with more than the page of the root it searches the tree. -/
def outerFirst (root : Option Tree) : Stack → Code × State
  | [(t, _)] => (Code.success, ⟨[(t, 0)], false, false⟩)
  | _ =>
    let r := root.elim (Code.notFound, []) fun t => deepenFirst t []
    if r.1 ≠ Code.success then (r.1, poor) else (Code.success, ⟨setKi 0 r.2, false, false⟩)

/-- `cursor_step` forward with `MDBX_NEXT`, where no key has more than one value, so that no inner
cursor is pointed. `fresh` is `z_fresh`. -/
def outerNext (root : Option Tree) (fresh : Bool) (cur : State) : Code × State :=
  match cur.stack with
  | [] => if fresh then outerFirst root [] else (Code.enodata, poor)
  | (t, ki) :: rest =>
    if cur.hollow then (Code.enodata, cur)
    else if cur.eof then (Code.notFound, cur)
    else if ki + 1 < t.page.numkeys then (Code.success, ⟨(t, ki + 1) :: rest, false, false⟩)
    else
      (siblingRight ((t, ki) :: rest)).elim
        (Code.notFound, ⟨(t, t.page.numkeys - 1) :: rest, false, true⟩)
        fun s => (Code.success, ⟨s, false, false⟩)

/-- The key at which a cursor stands. -/
def keyAt (cur : State) : Option Val := cur.stack.head?.map fun top => top.1.page.key top.2

/-- The keys that so many calls of `outer_next` give, up to the first that fails. -/
def walk (root : Option Tree) : Nat → Bool → State → List Val
  | 0, _, _ => []
  | n + 1, fresh, cur =>
    let r := outerNext root fresh cur
    if r.1 = Code.success then (keyAt r.2).toList ++ walk root n false r.2 else []

/-- A seek with `MDBX_SET_RANGE`, and so many calls of `outer_next` after it. -/
def scan (m : Machine) (c : Foliage.Cursor) (root : Option Tree) (key : Val) (n : Nat)
    (cur : State) : List Val :=
  let r := cursorSeek m c root key true cur
  if r.err = Code.success then (keyAt r.cur).toList ++ walk root n false r.cur else []

/-! ### What they give -/

section Walks

variable {m : Machine} {c : Foliage.Cursor} {ok : Val → Prop} {key x : Val}
  {root t : Tree} {height h n : Nat} {cur : State} {rest : Stack} {more : List Val}

/-- A cursor that is filled stands on a key of the tree. -/
structure Filled (root : Tree) (height : Nat) (cur : State) : Prop where
  path : Path root height 0 cur.stack
  stands : ∃ p ki rest, cur.stack = (.leaf p, ki) :: rest ∧ ki < p.numkeys
  hollow : cur.hollow = false
  eof : cur.eof = false

/-- A step leads to the next key, and fails only at the last one. -/
theorem outerNext_step (hroot : Formed m c ok height root) (hs : Filled root height cur)
    (fresh : Bool) :
    (outerRight cur.stack = [] → (outerNext (some root) fresh cur).1 = Code.notFound) ∧
      ∀ x more, outerRight cur.stack = x :: more →
        (outerNext (some root) fresh cur).1 = Code.success ∧
          Filled root height (outerNext (some root) fresh cur).2 ∧
          keyAt (outerNext (some root) fresh cur).2 = some x ∧
          outerRight (outerNext (some root) fresh cur).2.stack = more := by
  obtain ⟨p, ki, rest, hstack, hki⟩ := hs.stands
  have hpath := hs.path
  rw [hstack] at hpath
  have hpage : (Tree.leaf p).page = p := rfl
  simp only [outerNext, hstack, hs.hollow, hs.eof, Bool.false_eq_true, if_false, hpage]
  by_cases hmore : ki + 1 < p.numkeys
  · rw [if_pos hmore, ← outerRight_next (.leaf p) hmore]
    refine ⟨fun hnil => (List.cons_ne_nil _ _ hnil).elim, fun x more heq => ?_⟩
    obtain ⟨hx, hrest⟩ := List.cons.inj heq
    refine ⟨rfl, ⟨hpath.setKi _, ⟨p, ki + 1, rest, rfl, hmore⟩, rfl, rfl⟩, ?_, hrest⟩
    rw [← hx]
    rfl
  · rw [if_neg hmore]
    have hzero : p.numkeys - ki - 1 = 0 := by omega
    have hright : outerRight ((Tree.leaf p, ki) :: rest) = outerRight rest := by
      simp [outerRight, Tree.page, hzero]
    obtain ⟨hnone, hsome⟩ := siblingRight_spec hroot hpath
    rw [hright]
    cases hnext : siblingRight ((.leaf p, ki) :: rest) with
    | none =>
      refine ⟨fun _ => rfl, fun x more heq => ?_⟩
      rw [hnone hnext] at heq
      cases heq
    | some s' =>
      obtain ⟨p', rest', rfl, hpath', hnum, -, hitems⟩ := hsome s' hnext
      rw [← hitems]
      refine ⟨fun hnil => (List.cons_ne_nil _ _ hnil).elim, fun x more heq => ?_⟩
      obtain ⟨hx, hrest⟩ := List.cons.inj heq
      refine ⟨rfl, ⟨hpath', ⟨p', 0, rest', rfl, hnum⟩, rfl, rfl⟩, ?_, hrest⟩
      rw [← hx]
      rfl

/-- The run lemma: steps give the keys after the one at which the cursor stands, in their order. -/
theorem walk_filled (hroot : Formed m c ok height root) (hs : Filled root height cur) (n : Nat)
    (fresh : Bool) : walk (some root) n fresh cur = (outerRight cur.stack).take n := by
  induction n generalizing cur fresh with
  | zero => rfl
  | succ n ih =>
    obtain ⟨hnone, hsome⟩ := outerNext_step hroot hs fresh
    rw [walk]
    cases hright : outerRight cur.stack with
    | nil =>
      rw [hnone hright, if_neg (by decide)]
      rfl
    | cons x more =>
      obtain ⟨hcode, hfilled, hkey, hmore⟩ := hsome x more hright
      rw [if_pos hcode, hkey, ih hfilled false, hmore]
      rfl

/-- The loop of `tree_deepen_edge`: nothing is before the pages that it follows. -/
theorem deepenFirst_path (hheight : height < cursorStackSize) (ht : Formed m c ok h t)
    (hs : Path root height h ((t, 0) :: rest)) :
    ∃ p rest', deepenFirst t rest = (Code.success, (.leaf p, 0) :: rest') ∧
      Path root height 0 ((.leaf p, 0) :: rest') ∧ 0 < p.numkeys ∧
      outerLeft rest' = outerLeft rest := by
  induction t generalizing h rest with
  | leaf p =>
    cases h with
    | zero => exact ⟨p, rest, rfl, hs, ht.numkeys, rfl⟩
    | succ h => exact ht.elim
  | branch p child ih =>
    cases h with
    | zero => exact ht.elim
    | succ h =>
      obtain ⟨hp, hchild⟩ := ht
      have hpos : 0 < p.numkeys := Nat.lt_of_lt_of_le Nat.zero_lt_two hp.numkeys
      have hlength := hs.length
      simp only [List.length_cons] at hlength
      obtain ⟨p', rest', hdeepen, hpath, hnum, hleft⟩ := ih 0 (hchild 0 hpos) (.down 0 hs hpos)
      refine ⟨p', rest', ?_, hpath, hnum, ?_⟩
      · rw [deepenFirst, if_neg (by omega)]
        exact hdeepen
      · rw [hleft]
        simp [outerLeft]

/-- The first step of a fresh cursor leads to the first key. -/
theorem outerFirst_step (hroot : Formed m c ok height root) (hheight : height < cursorStackSize) :
    ∃ cur x, outerFirst (some root) [] = (Code.success, cur) ∧ Filled root height cur ∧
      keyAt cur = some x ∧ root.items = x :: outerRight cur.stack := by
  obtain ⟨p, rest, hdeepen, hpath, hnum, hleft⟩ := deepenFirst_path hheight hroot (.root 0)
  refine ⟨⟨(.leaf p, 0) :: rest, false, false⟩, p.key 0, ?_,
    ⟨hpath, ⟨p, 0, rest, rfl, hnum⟩, rfl, rfl⟩, rfl, ?_⟩
  · simp only [outerFirst, Option.elim_some, hdeepen]
    rfl
  · rw [hpath.items_eq _ _ _ rfl, hleft, List.append_assoc, items_first (.leaf p) hnum]
    rfl

/-- A fresh cursor gives all keys of the tree, which have one value each, once and in their
order. -/
theorem walk_items (hroot : Formed m c ok height root) (hheight : height < cursorStackSize)
    (n : Nat) : walk (some root) n true poor = root.items.take n := by
  cases n with
  | zero => rfl
  | succ n =>
    obtain ⟨cur, x, hfirst, hfilled, hkey, hitems⟩ := outerFirst_step hroot hheight
    have hnext : outerNext (some root) true poor = (Code.success, cur) := hfirst
    rw [walk, hnext]
    simp only [if_true, hkey, walk_filled hroot hfilled, hitems]
    rfl

/-- Where a cursor stands on the first key that is not less, this key and those after it are all
that are not less. -/
theorem filter_stands (hk : Keys m c ok) (hroot : Formed m c ok height root) (hkey : ok key)
    (hs : Path root height 0 cur.stack) (hstands : Stands m c key root cur.stack) :
    ∃ x, keyAt cur = some x ∧
      root.items.filter (fun y => decide (0 ≤ c.cmp.apply m y key)) =
        x :: outerRight cur.stack := by
  obtain ⟨p, ki, rest, before, after, hstack, hki, hitems, hless, hge⟩ := hstands
  rw [hstack] at hs
  have hsplit := items_at hs hki
  have hok := formed_ok hroot
  have hsorted := formed_sorted hk hroot
  have hsorted' := hsorted
  rw [hitems] at hsorted'
  rw [hsplit] at hsorted
  obtain ⟨-, hrest, hfront⟩ := List.pairwise_append.mp hsorted
  obtain ⟨-, hrest', -⟩ := List.pairwise_append.mp hsorted'
  have hirreflexive (y : Val) : ¬ c.cmp.apply m y y < 0 := fun hneg => by
    have hpos := (hk.neg_iff y y).mp hneg
    omega
  have hokp : ok (p.key ki) :=
    hok _ (by rw [hsplit]; exact List.mem_append_right _ List.mem_cons_self)
  refine ⟨p.key ki, by rw [keyAt, hstack]; rfl, ?_⟩
  have hbelow : ∀ y ∈ outerLeft rest ++ (List.range ki).flatMap (Tree.leaf p).part,
      ¬ decide (0 ≤ c.cmp.apply m y key) = true := by
    intro y hy
    have hneg := hfront y hy _ List.mem_cons_self
    have hmem : y ∈ root.items := by
      rw [hsplit]
      exact List.mem_append_left _ hy
    rw [hitems] at hmem
    rw [decide_eq_true_eq]
    rcases List.mem_append.mp hmem with hy | hy
    · have hlt := hless y hy
      omega
    · rcases List.mem_cons.mp hy with rfl | hy
      · exact (hirreflexive _ hneg).elim
      · have hpos := (List.pairwise_cons.mp hrest').1 y hy
        have hflip := (hk.neg_iff y (p.key ki)).mp hneg
        omega
  have habove : ∀ y ∈ p.key ki :: outerRight ((.leaf p, ki) :: rest),
      decide (0 ≤ c.cmp.apply m y key) = true := by
    intro y hy
    rw [decide_eq_true_eq]
    rcases List.mem_cons.mp hy with rfl | hy
    · exact hge
    · have hpos := (List.pairwise_cons.mp hrest).1 y hy
      have hoky : ok y := hok y (by
        rw [hsplit]
        exact List.mem_append_right _ (List.mem_cons_of_mem _ hy))
      have hle : c.cmp.apply m key (p.key ki) ≤ 0 := by
        have hiff := hk.neg_iff (p.key ki) key
        omega
      have hneg := hk.trans key _ y hkey hokp hoky hle hpos
      have hiff := hk.neg_iff key y
      omega
  rw [hsplit, List.filter_append, List.filter_eq_nil_iff.mpr hbelow, List.nil_append, hstack]
  exact List.filter_eq_self.mpr habove

/-- After any seeks with one cursor, a scan of a range gives the keys that are not less than its
begin, which have one value each, once and in their order. -/
theorem scan_items (hk : Keys m c ok) (hroot : Formed m c ok height root)
    (hheight : height < cursorStackSize) {ops : List (Val × Bool)} (hops : ∀ op ∈ ops, ok op.1)
    (hkey : ok key) (n : Nat) :
    scan m c (some root) key n (seeks m c (some root) ops poor) =
      (root.items.filter fun x => decide (0 ≤ c.cmp.apply m x key)).take (n + 1) := by
  have hfinds : Finds m c key true root height
      (cursorSeek m c (some root) key true (seeks m c (some root) ops poor)) :=
    seek_finds hk hroot hheight hkey (seeks_path hk hroot hheight hops (.inl rfl))
  rw [scan]
  generalize cursorSeek m c (some root) key true (seeks m c (some root) ops poor) = r at hfinds ⊢
  by_cases hcode : r.err = Code.success
  · obtain ⟨hstands, -⟩ := hfinds.found hcode
    obtain ⟨hhollow, heof⟩ := hfinds.filled hcode
    obtain ⟨x, hx, hfilter⟩ := filter_stands hk hroot hkey hfinds.path hstands
    obtain ⟨p, ki, rest, before, after, hstack, hki, -⟩ := hstands
    have hfilled : Filled root height r.cur :=
      ⟨hfinds.path, ⟨p, ki, rest, hstack, hki⟩, hhollow, heof⟩
    simp only [if_pos hcode, hx, hfilter, walk_filled hroot hfilled]
    rfl
  · have hnone := (hfinds.missing hcode).2
    simp only [if_neg hcode]
    rw [List.filter_eq_nil_iff.mpr fun y hy => ?_]
    · rfl
    · have hneg := hnone y hy
      rw [if_pos rfl] at hneg
      rw [decide_eq_true_eq]
      omega

end Walks

/-! ### A walk -/

theorem walk_items_tree : walk (some sampleTree) 3 true poor = [[98], [100], [102]] ∧
    walk (some sampleTree) 3 true poor = sampleTree.items.take 3 :=
  ⟨by decide +kernel, walk_items sampleTree_formed (by decide) 3⟩

/-- A cursor that stands on b scans the range from e on. -/
theorem scan_items_sibling :
    scan machine sampleCursor (some sampleTree) [101] 5
        (seeks machine sampleCursor (some sampleTree) [([98], false)] poor) =
      [[102], [104]] ∧
      scan machine sampleCursor (some sampleTree) [101] 5
          (seeks machine sampleCursor (some sampleTree) [([98], false)] poor) =
        (sampleTree.items.filter fun x =>
          decide (0 ≤ sampleCursor.cmp.apply machine x [101])).take 6 :=
  ⟨by decide +kernel, scan_items (keys_bytes (.inl rfl) rfl machine _) sampleTree_formed
    (by decide) (fun _ _ => trivial) trivial 5⟩

end Seek

end MdbxGo
