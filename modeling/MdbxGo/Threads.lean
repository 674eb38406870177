import Mathlib.Data.List.Basic
import MdbxGo.Transition

/-! Any number of threads that run side by side over one shared state, each step of a thread being
atomic, and the rule that proves what holds of all of them: a step keeps the fact about the shared
state, the fact about the thread that makes it, and the facts about all the others. -/

/-- A program for threads: the states it starts in, the threads that may enter at any time, each
for a call, and what the thread with a number does next. A step is made with a choice, which stands
for what the thread does not decide itself. A thread that is blocked or over has no step. The step
may start new threads. -/
structure Program (σ π ι χ : Type) where
  init : σ → Prop
  start : ι → π
  step : σ → Nat → π → χ → Option (σ × π × List π)

/-- The shared state and the threads that ever entered, with how far each has come. -/
structure Threads (σ π : Type) where
  shared : σ
  threads : List π
deriving DecidableEq

namespace Threads

/-- A thread enters for a call, or the thread with a number makes its next step. -/
inductive Event (ι χ : Type)
  | enter (a : ι)
  | run (i : Nat) (c : χ)
deriving DecidableEq

end Threads

namespace Program

open Threads Transition

variable {σ π ι χ : Type} {P : Program σ π ι χ} {ok : Threads σ π → Event ι χ → Prop}
variable {s s' : Threads σ π} {p q : π}

/-- The place of a thread in the list is its number for the whole run. -/
def next (P : Program σ π ι χ) (s : Threads σ π) : Event ι χ → Option (Threads σ π)
  | .enter a => some { s with threads := s.threads ++ [P.start a] }
  | .run i c =>
    s.threads[i]?.bind fun p =>
      (P.step s.shared i p c).map fun r => ⟨r.1, s.threads.set i r.2.1 ++ r.2.2⟩

/-- All interleavings of the threads' steps. -/
def system (P : Program σ π ι χ) : System (Threads σ π) (Event ι χ) where
  init s := P.init s.shared ∧ s.threads = []
  step := P.next

theorem next_enter {a : ι} (h : P.next s (.enter a) = some s') :
    s' = { s with threads := s.threads ++ [P.start a] } := (Option.some.inj h).symm

theorem next_run {i : Nat} {c : χ} (h : P.next s (.run i c) = some s') :
    ∃ p p' new, s.threads[i]? = some p ∧ P.step s.shared i p c = some (s'.shared, p', new) ∧
      s'.threads = s.threads.set i p' ++ new := by
  simp only [next] at h
  obtain ⟨p, hp, h⟩ := Option.bind_eq_some_iff.mp h
  obtain ⟨r, hr, rfl⟩ := Option.map_eq_some_iff.mp h
  exact ⟨p, r.2.1, r.2.2, hp, hr, rfl⟩

/-- The last thread makes a step. -/
theorem next_last {g t : σ} {ts : List π} {p' : π} {c : χ}
    (h : P.step g ts.length p c = some (t, p', [])) :
    P.next ⟨g, ts ++ [p]⟩ (.run ts.length c) = some ⟨t, ts ++ [p']⟩ := by
  simp [next, h]

/-- The threads after a step: the one that made it, as it is now, the others, and those it
started. -/
theorem thread_after {i j : Nat} {p' : π} {new : List π}
    (h : (s.threads.set i p' ++ new)[j]? = some q) :
    j = i ∧ q = p' ∨ j ≠ i ∧ s.threads[j]? = some q ∨
      ∃ k, j = s.threads.length + k ∧ new[k]? = some q := by
  by_cases hlt : j < s.threads.length
  · rw [List.getElem?_append_left (by simpa using hlt), List.getElem?_set] at h
    by_cases hij : i = j
    · simp only [hij, ↓reduceIte, hlt, Option.some.injEq] at h
      exact .inl ⟨hij.symm, h.symm⟩
    · simp only [hij, ↓reduceIte] at h
      exact .inr (.inl ⟨Ne.symm hij, h⟩)
  · rw [List.getElem?_append_right (by simpa using hlt), List.length_set] at h
    exact .inr (.inr ⟨_, by omega, h⟩)

theorem thread_before {i j : Nat} {p' : π} {new : List π} (hij : i ≠ j)
    (h : s.threads[j]? = some q) : (s.threads.set i p' ++ new)[j]? = some q := by
  have hlt := (List.getElem?_eq_some_iff.mp h).1
  rw [List.getElem?_append_left (by simpa using hlt), List.getElem?_set_ne hij]
  exact h

theorem thread_self {i : Nat} {p' : π} {new : List π} (h : s.threads[i]? = some p) :
    (s.threads.set i p' ++ new)[i]? = some p' := by
  have hlt := (List.getElem?_eq_some_iff.mp h).1
  rw [List.getElem?_append_left (by simpa using hlt), List.getElem?_set_self hlt]

/-- A thread that is there after a step was there before, unless it entered or was started. -/
theorem thread_entered {i : Nat} (h : (s.threads ++ [p])[i]? = some q) :
    s.threads[i]? = some q ∨ i = s.threads.length ∧ q = p := by
  by_cases hlt : i < s.threads.length
  · rw [List.getElem?_append_left hlt] at h
    exact .inl h
  · rw [List.getElem?_append_right (by omega)] at h
    rw [List.getElem?_singleton] at h
    by_cases hi : i - s.threads.length = 0
    · simp only [hi, ↓reduceIte, Option.some.injEq] at h
      exact .inr ⟨by omega, h.symm⟩
    · simp only [hi, ↓reduceIte, reduceCtorEq] at h

/-- What has to be shown of the single steps so that `shared` holds of the shared state and the
number of threads, and `own` of every thread, in every run whose steps meet `ok`. -/
structure Outline (P : Program σ π ι χ) (ok : Threads σ π → Event ι χ → Prop)
    (shared : σ → Nat → Prop) (own : σ → Nat → π → Prop) : Prop where
  init : ∀ s, P.init s → shared s 0
  enters : ∀ s a, shared s.shared s.threads.length → ok s (.enter a) →
    shared s.shared (s.threads.length + 1) ∧ own s.shared s.threads.length (P.start a)
  step : ∀ s i p c t p' new, shared s.shared s.threads.length → own s.shared i p →
    ok s (.run i c) → s.threads[i]? = some p → P.step s.shared i p c = some (t, p', new) →
    shared t (s.threads.length + new.length) ∧ own t i p' ∧
      ∀ (k : Nat) (q : π), new[k]? = some q → own t (s.threads.length + k) q
  others : ∀ s i p c t p' new n j q, shared s n → own s i p → own s j q → i ≠ j →
    P.step s i p c = some (t, p', new) → own t j q

variable {shared : σ → Nat → Prop} {own : σ → Nat → π → Prop}

theorem Outline.invariant (out : P.Outline ok shared own) :
    P.system.Invariant ok fun s => shared s.shared s.threads.length ∧
      ∀ (i : Nat) (p : π), s.threads[i]? = some p → own s.shared i p where
  init s h := by
    rw [h.2]
    refine ⟨out.init _ h.1, ?_⟩
    intro i p hp
    cases hp
  step s e s' h hok hstep := by
    obtain ⟨hs, hown⟩ := h
    cases e with
    | enter a =>
      obtain rfl := next_enter hstep
      obtain ⟨hs', hp'⟩ := out.enters s a hs hok
      refine ⟨by simpa using hs', ?_⟩
      intro j q hq
      rcases thread_entered hq with hq | ⟨rfl, rfl⟩
      · exact hown j q hq
      · exact hp'
    | run i c =>
      obtain ⟨p, p', new, hp, hr, hthreads⟩ := next_run hstep
      obtain ⟨hs', hp', hnew⟩ := out.step s i p c _ p' new hs (hown i p hp) hok hp hr
      rw [hthreads]
      refine ⟨by simpa using hs', ?_⟩
      intro j q hq
      rcases thread_after hq with ⟨rfl, rfl⟩ | ⟨hij, hold⟩ | ⟨k, rfl, hstart⟩
      · exact hp'
      · exact out.others _ i p c _ p' new _ j q hs (hown i p hp) (hown j q hold) (Ne.symm hij) hr
      · exact hnew k q hstart

/-- The rule of proof outlines. -/
theorem Outline.holds (out : P.Outline ok shared own) (run : P.system.Reaches ok s) :
    shared s.shared s.threads.length ∧
      ∀ (i : Nat) (p : π), s.threads[i]? = some p → own s.shared i p :=
  run.invariant out.invariant

end Program
