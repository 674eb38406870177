import Mathlib.Logic.Basic

/-! Transition systems whose steps are made by events, the states that their runs reach when every
step meets a condition, and the rules that carry a fact about one step over to a whole run. -/

namespace Transition

/-- A transition system: its initial states, and what an event does to a state. An event that
cannot happen in a state has no result there. -/
structure System (σ ε : Type) where
  init : σ → Prop
  step : σ → ε → Option σ

namespace System

variable {σ ε : Type} {S : System σ ε} {ok ok' : σ → ε → Prop} {I J : σ → Prop}

/-- The states that runs reach whose every step meets `ok` in the state before it. -/
inductive Reaches (S : System σ ε) (ok : σ → ε → Prop) : σ → Prop
  | start {s : σ} : S.init s → Reaches S ok s
  | next {s s' : σ} {e : ε} : Reaches S ok s → ok s e → S.step s e = some s' → Reaches S ok s'

/-- The states that any run reaches. -/
abbrev Reachable (S : System σ ε) : σ → Prop := S.Reaches fun _ _ => True

/-- `I` holds at the start and every step that meets `ok` keeps it. -/
structure Invariant (S : System σ ε) (ok : σ → ε → Prop) (I : σ → Prop) : Prop where
  init : ∀ s, S.init s → I s
  step : ∀ s e s', I s → ok s e → S.step s e = some s' → I s'

/-- The invariant rule. -/
theorem Reaches.invariant {s : σ} (run : S.Reaches ok s) (inv : S.Invariant ok I) : I s := by
  induction run with
  | start h => exact inv.init _ h
  | next _ hok hstep ih => exact inv.step _ _ _ ih hok hstep

/-- A run that meets a condition meets every weaker one. -/
theorem Reaches.mono {s : σ} (run : S.Reaches ok s) (h : ∀ s e, ok s e → ok' s e) :
    S.Reaches ok' s := by
  induction run with
  | start hi => exact .start hi
  | next _ hok hstep ih => exact .next ih (h _ _ hok) hstep

theorem Reaches.reachable {s : σ} (run : S.Reaches ok s) : S.Reachable s :=
  run.mono fun _ _ _ => trivial

/-- A step may use an invariant that is already known. -/
theorem Invariant.strengthen (inv : S.Invariant ok J)
    (hi : ∀ s, S.init s → I s)
    (hs : ∀ s e s', J s → J s' → I s → ok s e → S.step s e = some s' → I s') :
    S.Invariant ok (fun s => J s ∧ I s) where
  init s h := ⟨inv.init s h, hi s h⟩
  step s e s' h hok hstep := by
    have hj := inv.step s e s' h.1 hok hstep
    exact ⟨hj, hs s e s' h.1 hj h.2 hok hstep⟩

/-- The same system, started in `s`: what it reaches comes later than `s`. -/
def after (S : System σ ε) (s : σ) : System σ ε := { S with init := fun t => t = s }

theorem Reaches.trans {s s' : σ} (run : S.Reaches ok s) (later : (S.after s).Reaches ok s') :
    S.Reaches ok s' := by
  induction later with
  | start h => exact h ▸ run
  | next _ hok hstep ih => exact .next ih hok hstep

/-- The invariant rule for what comes later than a state. -/
theorem Reaches.later {s s' : σ} (later : (S.after s).Reaches ok s') (hs : I s)
    (hstep : ∀ t e u, I t → ok t e → S.step t e = some u → I u) : I s' := by
  induction later with
  | start h => exact h ▸ hs
  | next _ hok hs' ih => exact hstep _ _ _ ih hok hs'

/-- The monotonicity rule: what relates each state to the next one relates it to all later ones. -/
theorem Reaches.related {R : σ → σ → Prop} {s s' : σ} (run : S.Reaches ok s)
    (later : (S.after s).Reaches ok s') (hrefl : ∀ t, R t t)
    (htrans : ∀ t u v, R t u → R u v → R t v)
    (hstep : ∀ t e u, S.Reaches ok t → ok t e → S.step t e = some u → R t u) : R s s' := by
  induction later with
  | start h =>
    subst h
    exact hrefl _
  | next prev hok hs ih => exact htrans _ _ _ ih (hstep _ _ _ (run.trans prev) hok hs)

/-- Runs of a number of steps, from one state to another. -/
inductive Takes (S : System σ ε) (ok : σ → ε → Prop) : Nat → σ → σ → Prop
  | zero {s : σ} : Takes S ok 0 s s
  | succ {n : Nat} {s t u : σ} {e : ε} : Takes S ok n s t → ok t e → S.step t e = some u →
      Takes S ok (n + 1) s u

/-- The variant rule: where every step lowers a measure, no run is longer than the measure. -/
theorem Takes.bounded {n : Nat} {s t : σ} (steps : S.Takes ok n s t) (μ : σ → Nat) (hs : I s)
    (hstep : ∀ t e u, I t → ok t e → S.step t e = some u → I u ∧ μ u < μ t) :
    I t ∧ n + μ t ≤ μ s := by
  induction steps with
  | zero => exact ⟨hs, by omega⟩
  | succ _ hok hu ih =>
    obtain ⟨ht, hle⟩ := ih hs
    obtain ⟨hinv, hlt⟩ := hstep _ _ _ ht hok hu
    exact ⟨hinv, by omega⟩

variable [∀ s e, Decidable (ok s e)]

/-- Runs the events in order, as long as each meets `ok` and can happen. -/
def replay (S : System σ ε) (ok : σ → ε → Prop) [∀ s e, Decidable (ok s e)] :
    σ → List ε → Option σ
  | s, [] => some s
  | s, e :: es => if ok s e then (S.step s e).bind fun s' => replay S ok s' es else none

theorem Reaches.replay {s s' : σ} (run : S.Reaches ok s) (es : List ε)
    (h : S.replay ok s es = some s') : S.Reaches ok s' := by
  induction es generalizing s with
  | nil => simp only [System.replay, Option.some.injEq] at h; exact h ▸ run
  | cons e es ih =>
    simp only [System.replay] at h
    split at h
    · rename_i hok
      obtain ⟨mid, hstep, hrest⟩ := Option.bind_eq_some_iff.mp h
      exact ih (run.next hok hstep) hrest
    · cases h

/-- A replay that ends in a state with the decidable property `p` reaches such a state. -/
theorem exists_of_replay (S : System σ ε) (ok : σ → ε → Prop) [∀ s e, Decidable (ok s e)]
    (es : List ε) (s : σ) (p : σ → Bool) (hi : S.init s)
    (h : (S.replay ok s es).any p = true) : ∃ s', S.Reaches ok s' ∧ p s' = true := by
  obtain ⟨s', hs', hp⟩ := (Option.any_eq_true p _).mp h
  exact ⟨s', Reaches.replay (.start hi) es hs', hp⟩

end System

end Transition
