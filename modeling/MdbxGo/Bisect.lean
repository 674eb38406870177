import MdbxGo.Search

/-! Binary searches that compare three ways and stop at an equal element: one that keeps both ends
of the range, and one that keeps its begin and its length and moves them without a branch. -/

namespace Bisect

/-- Where a search stops, whether the element there is equal, where the range that was left begins,
and how many elements were compared. -/
structure Stop where
  index : Nat
  exact : Bool
  lo : Nat
  steps : Nat
deriving DecidableEq, Repr

/-- The search with both ends: `order i` is positive where the range left of `i` is done with. -/
def ends (order : Nat → Int) : Nat → Int → Int → Nat → Stop
  | 0, lo, _, steps => ⟨lo.toNat, false, lo.toNat, steps⟩
  | fuel + 1, lo, hi, steps =>
    let i := (lo + hi) / 2
    let c := order i.toNat
    if c = 0 then ⟨i.toNat, true, lo.toNat, steps + 1⟩
    else
      let lo' := if 0 < c then i + 1 else lo
      let hi' := if 0 < c then hi else i - 1
      if lo' ≤ hi' then ends order fuel lo' hi' (steps + 1)
      else ⟨(if 0 < c then i + 1 else i).toNat, false, lo'.toNat, steps + 1⟩

/-- The search with a length: `order i` is negative where the range left of `i` is done with. -/
def branchless (order : Nat → Int) : Nat → Nat → Nat → Nat → Stop
  | 0, lo, _, steps => ⟨lo, false, lo, steps⟩
  | fuel + 1, lo, size, steps =>
    let half := (size - 1) / 2
    let adjust := (size - 1) % 2
    let it := lo + half
    let c := order it
    if c = 0 then ⟨it, true, lo, steps + 1⟩
    else
      let lo' := lo + if c < 0 then half + 1 else 0
      let size' := half + if c < 0 then adjust else 0
      if 0 < size' then branchless order fuel lo' size' (steps + 1)
      else ⟨it + if c < 0 then 1 else 0, false, lo', steps + 1⟩

variable {order order' : Nat → Int} {fuel lo hi size steps first last : Nat}

/-- Both searches compare the same elements. -/
theorem ends_eq_branchless (hsize : 0 < size) (hfuel : size ≤ fuel)
    (horder : ∀ i, lo ≤ i → i < lo + size →
      (order' i = 0 ↔ order i = 0) ∧ (0 < order' i ↔ order i < 0)) :
    ends order' fuel lo (lo + size - 1 : Int) steps = branchless order fuel lo size steps := by
  induction fuel generalizing lo size steps with
  | zero => omega
  | succ fuel ih =>
    have hmiddle : ((lo : Int) + (lo + size - 1)) / 2 = ((lo + (size - 1) / 2 : Nat) : Int) := by
      omega
    obtain ⟨heq, hlt⟩ := horder (lo + (size - 1) / 2) (by omega) (by omega)
    simp only [ends, branchless, hmiddle, Int.toNat_natCast, heq, hlt]
    by_cases hzero : order (lo + (size - 1) / 2) = 0
    · rw [if_pos hzero, if_pos hzero]
    · rw [if_neg hzero, if_neg hzero]
      by_cases hneg : order (lo + (size - 1) / 2) < 0
      · -- The middle and what is left of it are done with.
        simp only [if_pos hneg]
        by_cases hmore : 0 < (size - 1) / 2 + (size - 1) % 2
        · have hlo :
              ((lo + (size - 1) / 2 : Nat) : Int) + 1 =
                ((lo + ((size - 1) / 2 + 1) : Nat) : Int) := by
            omega
          have hhi : (lo : Int) + size - 1 = ((lo + ((size - 1) / 2 + 1) : Nat) : Int) +
              ((size - 1) / 2 + (size - 1) % 2 : Nat) - 1 := by
            omega
          rw [if_pos (by omega), if_pos hmore, hlo, hhi]
          exact ih hmore (by omega) fun i hi hlt => horder i (by omega) (by omega)
        · rw [if_neg (by omega), if_neg hmore]
          congr 1
      · simp only [if_neg hneg, Nat.add_zero]
        by_cases hmore : 0 < (size - 1) / 2
        · have hhi :
              ((lo + (size - 1) / 2 : Nat) : Int) - 1 =
                (lo : Int) + ((size - 1) / 2 : Nat) - 1 := by
            omega
          rw [if_pos (by omega), if_pos hmore, hhi]
          exact ih hmore (by omega) fun i hi hlt => horder i (by omega) (by omega)
        · rw [if_neg (by omega), if_neg hmore]
          simp only [Int.toNat_natCast]

/-- A search that finds no equal element ends where nothing is left. -/
theorem branchless_inexact (hsize : 0 < size) (hfuel : size ≤ fuel)
    (hexact : (branchless order fuel lo size steps).exact = false) :
    (branchless order fuel lo size steps).lo = (branchless order fuel lo size steps).index ∧
      (branchless order fuel lo size steps).index ≤ lo + size := by
  induction fuel generalizing lo size steps with
  | zero => omega
  | succ fuel ih =>
    rw [branchless] at hexact ⊢
    by_cases hzero : order (lo + (size - 1) / 2) = 0
    · simp only [if_pos hzero] at hexact
      cases hexact
    · simp only [if_neg hzero] at hexact ⊢
      by_cases hneg : order (lo + (size - 1) / 2) < 0
      · simp only [if_pos hneg] at hexact ⊢
        by_cases hmore : 0 < (size - 1) / 2 + (size - 1) % 2
        · rw [if_pos hmore] at hexact ⊢
          obtain ⟨hlo, hle⟩ := ih hmore (by omega) hexact
          exact ⟨hlo, by omega⟩
        · rw [if_neg hmore]
          dsimp only
          omega
      · simp only [if_neg hneg, Nat.add_zero] at hexact ⊢
        by_cases hmore : 0 < (size - 1) / 2
        · rw [if_pos hmore] at hexact ⊢
          obtain ⟨hlo, hle⟩ := ih hmore (by omega) hexact
          exact ⟨hlo, by omega⟩
        · rw [if_neg hmore]
          dsimp only
          omega

/-- An equal element is one of the range. -/
theorem branchless_lt (hsize : 0 < size)
    (hexact : (branchless order fuel lo size steps).exact = true) :
    (branchless order fuel lo size steps).index < lo + size := by
  induction fuel generalizing lo size steps with
  | zero => cases hexact
  | succ fuel ih =>
    rw [branchless] at hexact ⊢
    by_cases hzero : order (lo + (size - 1) / 2) = 0
    · simp only [if_pos hzero]
      omega
    · simp only [if_neg hzero] at hexact ⊢
      by_cases hneg : order (lo + (size - 1) / 2) < 0
      · simp only [if_pos hneg] at hexact ⊢
        by_cases hmore : 0 < (size - 1) / 2 + (size - 1) % 2
        · rw [if_pos hmore] at hexact ⊢
          have hlt := ih hmore hexact
          omega
        · rw [if_neg hmore] at hexact
          cases hexact
      · simp only [if_neg hneg, Nat.add_zero] at hexact ⊢
        by_cases hmore : 0 < (size - 1) / 2
        · rw [if_pos hmore] at hexact ⊢
          have hlt := ih hmore hexact
          omega
        · rw [if_neg hmore] at hexact
          cases hexact

/-! ### What is found -/

/-- The elements between `first` and `last` rise: one that is not too small is followed by greater
ones only. -/
def Rises (order : Nat → Int) (first last : Nat) : Prop :=
  ∀ i j, first ≤ i → i < j → j < last → 0 ≤ order i → 0 < order j

/-- What is left of `lo` is too small, and what is behind the range that is left is too great. -/
structure Left (order : Nat → Int) (first last lo size : Nat) : Prop where
  lower : first ≤ lo
  upper : lo + size ≤ last
  before : ∀ i, first ≤ i → i < lo → order i < 0
  after : ∀ i, lo + size ≤ i → i < last → 0 < order i

/-- What a search says of where it stopped. -/
structure Found (order : Nat → Int) (first last : Nat) (s : Stop) : Prop where
  bound : Search.Bound (fun i => decide (order i < 0)) first last s.index
  exact : s.exact = true → s.index < last ∧ order s.index = 0
  inexact : s.exact = false → s.lo = s.index ∧ ∀ i, first ≤ i → i < last → order i ≠ 0

theorem Found.below {s : Stop} (h : Found order first last s) {i : Nat} (hi : first ≤ i)
    (hlt : i < s.index) : order i < 0 :=
  of_decide_eq_true (h.bound.before i hi hlt)

/-- Where no element is equal, all from where the search stopped on are too great. -/
theorem Found.above {s : Stop} (h : Found order first last s) (hexact : s.exact = false) {i : Nat}
    (hi : s.index ≤ i) (hlt : i < last) : 0 < order i := by
  have hlower := h.bound.lower
  have hge := of_decide_eq_false (h.bound.after i hi hlt)
  have hne := (h.inexact hexact).2 i (by omega) hlt
  omega

/-- What is left of an element that is too small is too small, too. -/
theorem Rises.before (h : Rises order first last) {i j : Nat} (hi : first ≤ i) (hij : i ≤ j)
    (hj : j < last) (hneg : order j < 0) : order i < 0 := by
  rcases Nat.eq_or_lt_of_le hij with rfl | hlt
  · exact hneg
  · by_contra hge
    have hpos := h i j hi hlt hj (by omega)
    omega

theorem Rises.found (h : Rises order first last) {it : Nat} (hlo : first ≤ it) (hhi : it < last)
    (hzero : order it = 0) : Found order first last ⟨it, true, lo, steps⟩ := by
  refine ⟨⟨hlo, Nat.le_of_lt hhi, fun i hi hlt => ?_, fun i hi hlt => ?_⟩, fun _ => ⟨hhi, hzero⟩,
    fun hexact => by cases hexact⟩
  · rw [decide_eq_true_eq]
    by_contra hge
    have hpos := h i it hi hlt hhi (by omega)
    omega
  · rw [decide_eq_false_iff_not]
    rcases Nat.eq_or_lt_of_le hi with heq | hafter
    · dsimp only at heq
      rw [← heq]
      omega
    · have hpos := h it i hlo hafter hlt (by omega)
      omega

/-- Nothing is left. -/
theorem Left.found {it : Nat} (h : Left order first last it 0) :
    Found order first last ⟨it, false, it, steps⟩ := by
  have hupper := h.upper
  refine ⟨⟨h.lower, by omega, fun i hi hlt => decide_eq_true (h.before i hi hlt),
    fun i hi hlt => ?_⟩,
    fun hexact => (Bool.false_ne_true hexact).elim, fun _ => ⟨rfl, fun i hi hlt => ?_⟩⟩
  · rw [decide_eq_false_iff_not]
    have hpos := h.after i hi hlt
    omega
  · by_cases hside : i < it
    · have hneg := h.before i hi hside
      omega
    · have hpos := h.after i (by omega) hlt
      omega

theorem branchless_found (hrises : Rises order first last) (hleft : Left order first last lo size)
    (hsize : 0 < size) (hfuel : size ≤ fuel) :
    Found order first last (branchless order fuel lo size steps) := by
  induction fuel generalizing lo size steps with
  | zero => omega
  | succ fuel ih =>
    have hupper := hleft.upper
    have hlower := hleft.lower
    rw [branchless]
    by_cases hzero : order (lo + (size - 1) / 2) = 0
    · simp only [if_pos hzero]
      exact hrises.found (by omega) (by omega) hzero
    · simp only [if_neg hzero]
      by_cases hneg : order (lo + (size - 1) / 2) < 0
      · simp only [if_pos hneg]
        have hnext : Left order first last (lo + ((size - 1) / 2 + 1))
            ((size - 1) / 2 + (size - 1) % 2) := by
          refine ⟨by omega, by omega, fun i hi hlt => ?_,
            fun i hi hlt => hleft.after i (by omega) hlt⟩
          exact hrises.before hi (by omega) (by omega) hneg
        by_cases hmore : 0 < (size - 1) / 2 + (size - 1) % 2
        · rw [if_pos hmore]
          exact ih hnext hmore (by omega)
        · have hnone : (size - 1) / 2 + (size - 1) % 2 = 0 := by omega
          rw [hnone] at hnext
          rw [if_neg hmore]
          exact hnext.found
      · simp only [if_neg hneg, Nat.add_zero]
        have hnext : Left order first last lo ((size - 1) / 2) := by
          refine ⟨hlower, by omega, hleft.before, fun i hi hlt => ?_⟩
          rcases Nat.eq_or_lt_of_le hi with heq | hafter
          · rw [← heq]
            omega
          · exact hrises _ i (by omega) hafter hlt (by omega)
        by_cases hmore : 0 < (size - 1) / 2
        · rw [if_pos hmore]
          exact ih hnext hmore (by omega)
        · have hnone : (size - 1) / 2 = 0 := by omega
          rw [hnone] at hnext
          rw [if_neg hmore, hnone]
          exact hnext.found

/-- A search over a range that rises finds where it ends to be too small. -/
theorem branchless_whole (hrises : Rises order first last) (hlt : first < last) :
    Found order first last (branchless order (last - first) first (last - first) steps) := by
  apply branchless_found hrises _ (by omega) (Nat.le_refl _)
  exact ⟨Nat.le_refl _, by omega, fun i hi hlt => by omega, fun i hi hlt => by omega⟩

end Bisect
