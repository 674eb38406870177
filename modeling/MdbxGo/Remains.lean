import Mathlib.Data.List.Forall2

/-! What is left of a list after its end was cut off and the elements before it were changed, each
in a way that a relation allows. -/

/-- `l'` is what remains of `l`: some of its first elements, each related to what it has become. -/
inductive Remains {α : Type} (R : α → α → Prop) : List α → List α → Prop
  | cut (l : List α) : Remains R l []
  | cons {a b : α} {l l' : List α} : R a b → Remains R l l' → Remains R (a :: l) (b :: l')

namespace Remains

variable {α : Type} {R : α → α → Prop} {l l' : List α}

theorem refl (hR : ∀ a, R a a) (l : List α) : Remains R l l := by
  induction l with
  | nil => exact .cut []
  | cons a l ih => exact .cons (hR a) ih

theorem trans {l'' : List α} (hR : ∀ a b c, R a b → R b c → R a c) (h : Remains R l l')
    (h' : Remains R l' l'') : Remains R l l'' := by
  induction h' generalizing l with
  | cut _ => exact .cut l
  | cons hbc _ ih =>
    cases h with
    | cons hab h => exact .cons (hR _ _ _ hab hbc) (ih h)

/-- Every element that remains comes from one that was there. -/
theorem mem {b : α} (h : Remains R l l') (hb : b ∈ l') : ∃ a ∈ l, R a b := by
  induction h with
  | cut _ => cases hb
  | cons hab _ ih =>
    rcases List.mem_cons.mp hb with rfl | hb
    · exact ⟨_, List.mem_cons_self, hab⟩
    · obtain ⟨a, ha, hR⟩ := ih hb
      exact ⟨a, List.mem_cons_of_mem _ ha, hR⟩

theorem of_nil (h : Remains R [] l) : l = [] := by
  cases h
  rfl

/-- The first element that remains with a property comes from the first one that had it. -/
theorem find? {p : α → Bool} {b : α} (hp : ∀ a b, R a b → p a = p b) (h : Remains R l l')
    (hb : l'.find? p = some b) : ∃ a, l.find? p = some a ∧ R a b := by
  induction h with
  | cut _ => cases hb
  | @cons a c l l' hac _ ih =>
    rw [List.find?_cons] at hb ⊢
    rw [hp a c hac]
    cases hc : p c with
    | true =>
      rw [hc] at hb
      cases hb
      exact ⟨a, rfl, hac⟩
    | false =>
      rw [hc] at hb
      exact ih hb

/-- The same the other way round, for a list that was not cut off. -/
theorem find?_forall₂ {p : α → Bool} {a : α} (hp : ∀ a b, R a b → p a = p b)
    (h : List.Forall₂ R l l') (ha : l.find? p = some a) : ∃ b, l'.find? p = some b ∧ R a b := by
  induction h with
  | nil => cases ha
  | @cons c d l l' hcd _ ih =>
    rw [List.find?_cons] at ha ⊢
    rw [← hp c d hcd]
    cases hc : p c with
    | true =>
      rw [hc] at ha
      cases ha
      exact ⟨d, rfl, hcd⟩
    | false =>
      rw [hc] at ha
      exact ih ha

theorem append {m m' : List α} (h : Remains R l l') (hlen : l.length = l'.length)
    (hm : Remains R m m') : Remains R (l ++ m) (l' ++ m') := by
  induction h with
  | cut l =>
    rw [List.length_nil, List.length_eq_zero_iff] at hlen
    subst hlen
    exact hm
  | cons hab _ ih => exact .cons hab (ih (by simpa using hlen))

end Remains
