import Mathlib.Logic.Function.Basic

/-! Resources of which every live one has exactly one owner, and the rules by which owners take and
give back what they own. -/

/-- `own` is what each owner has, at most one resource; `live` are the resources that somebody has
to have. -/
structure Owned {ι α : Type} (own : ι → Option α) (live : α → Prop) : Prop where
  valid : ∀ i a, own i = some a → live a
  unique : ∀ i j a, own i = some a → own j = some a → i = j
  owned : ∀ a, live a → ∃ i, own i = some a

namespace Owned

variable {ι α : Type} {own : ι → Option α} {live live' : α → Prop} {i : ι} {a : α}

theorem existsUnique (h : Owned own live) (ha : live a) : ∃! i, own i = some a := by
  obtain ⟨i, hi⟩ := h.owned a ha
  exact ⟨i, hi, fun j hj => h.unique j i a hj hi⟩

/-- Nothing has happened to the resources that could be seen from outside. -/
theorem congr (h : Owned own live) (hlive : ∀ b, live' b ↔ live b) : Owned own live' where
  valid j b hj := (hlive b).mpr (h.valid j b hj)
  unique := h.unique
  owned b hb := h.owned b ((hlive b).mp hb)

variable [DecidableEq ι]

/-- One that had nothing takes a resource that was not live. -/
theorem acquire (h : Owned own live) (hi : own i = none) (ha : ¬live a)
    (hlive : ∀ b, live' b ↔ live b ∨ b = a) : Owned (Function.update own i (some a)) live' := by
  have hself : Function.update own i (some a) i = some a := Function.update_self _ _ _
  have hother : ∀ j, j ≠ i → Function.update own i (some a) j = own j := fun j hj =>
    Function.update_of_ne hj _ _
  constructor
  · intro j b hj
    by_cases hji : j = i
    · subst hji
      exact (hlive b).mpr (.inr (Option.some.inj (hself.symm.trans hj)).symm)
    · exact (hlive b).mpr (.inl (h.valid j b ((hother j hji).symm.trans hj)))
  · -- nobody else has what was not live
    have hne : ∀ j, j ≠ i → Function.update own i (some a) j ≠ some a := by
      intro j hji hj
      exact ha (h.valid j a ((hother j hji).symm.trans hj))
    intro j k b hj hk
    by_cases hji : j = i
    · subst hji
      obtain rfl := Option.some.inj (hself.symm.trans hj)
      by_contra hjk
      exact hne k (Ne.symm hjk) hk
    · by_cases hki : k = i
      · subst hki
        obtain rfl := Option.some.inj (hself.symm.trans hk)
        exact absurd hj (hne j hji)
      · exact h.unique j k b ((hother j hji).symm.trans hj) ((hother k hki).symm.trans hk)
  · intro b hb
    rcases (hlive b).mp hb with hb | rfl
    · obtain ⟨j, hj⟩ := h.owned b hb
      refine ⟨j, (hother j ?_).trans hj⟩
      rintro rfl
      rw [hi] at hj
      cases hj
    · exact ⟨i, hself⟩

/-- An owner gives up what it has, which is no longer live. -/
theorem release (h : Owned own live) (hi : own i = some a)
    (hlive : ∀ b, live' b ↔ live b ∧ b ≠ a) : Owned (Function.update own i none) live' := by
  have hother : ∀ j, j ≠ i → Function.update own i none j = own j := fun j hj =>
    Function.update_of_ne hj _ _
  have hne : ∀ j b, Function.update own i none j = some b → j ≠ i := by
    rintro j b hj rfl
    rw [Function.update_self] at hj
    cases hj
  constructor
  · intro j b hj
    have hji := hne j b hj
    rw [hother j hji] at hj
    refine (hlive b).mpr ⟨h.valid j b hj, ?_⟩
    rintro rfl
    exact hji (h.unique j i b hj hi)
  · intro j k b hj hk
    exact h.unique j k b ((hother j (hne j b hj)).symm.trans hj)
      ((hother k (hne k b hk)).symm.trans hk)
  · intro b hb
    obtain ⟨hb, hba⟩ := (hlive b).mp hb
    obtain ⟨j, hj⟩ := h.owned b hb
    refine ⟨j, (hother j ?_).trans hj⟩
    rintro rfl
    exact hba (Option.some.inj (hj.symm.trans hi))

end Owned
