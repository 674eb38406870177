import Mathlib.Order.Bounds.Basic
import MdbxGo.Threads

/-! The last known transaction id of a pool and the calls of `CommitID` that raise it, from any
number of goroutines: each atomic load and each compare-and-swap is a step of its own. -/

namespace MdbxGo

/-- `UpdateHandling`: what the pool does about an update, one field for each bit. -/
structure UpdateHandling where
  handleOutstanding : Bool := false
  handleIdle : Bool := false
  handleRenew : Bool := false
deriving DecidableEq

/-- `handlesUpdates`: a bit of `HandleAll` is set. -/
def UpdateHandling.handlesUpdates (h : UpdateHandling) : Bool := h.handleOutstanding || h.handleIdle

namespace CommitID

/-- Where a call stands, with its local variables `lastid` and `updated`. -/
inductive At
  | entry
  | load
  | test (lastid : UInt64)
  | compareAndSwap (lastid : UInt64)
  | after (updated : Bool)
  | returned
deriving DecidableEq

/-- A call and its argument. -/
structure Call where
  id : UInt64
  at_ : At := .entry
deriving DecidableEq

/-- The next step of a call of `CommitID(id)`: what it makes of `p.lastid`, where it stands then,
and whether it starts a goroutine for `handleIdle`. A call that has returned has none. -/
def step (h : UpdateHandling) (id lastid : UInt64) : At → Option (UInt64 × At × Bool)
  | .entry =>
    if h.handlesUpdates then some (lastid, .load, false) else some (lastid, .returned, false)
  | .load => some (lastid, .test lastid, false)
  | .test seen =>
    if seen < id then some (lastid, .compareAndSwap seen, false)
    else some (lastid, .after false, false)
  | .compareAndSwap seen =>
    if lastid = seen then some (id, .after true, false) else some (lastid, .load, false)
  | .after updated => some (lastid, .returned, updated && h.handleIdle)
  | .returned => none

/-- Goroutines that call `CommitID` with any ids on a pool whose `lastid` is `first`. What a
goroutine started for `handleIdle` does, only loads `lastid`. -/
def program (h : UpdateHandling) (first : UInt64) : Program UInt64 Call UInt64 Unit where
  init lastid := lastid = first
  start id := { id }
  step lastid _ c _ := (step h c.id lastid c.at_).map fun r => (r.1, { c with at_ := r.2.1 }, [])
/-- What a call knows of `lastid` where it stands. -/
def Known (lastid : UInt64) (c : Call) : Prop :=
  match c.at_ with
  | .test seen => seen ≤ lastid
  | .compareAndSwap seen => seen < c.id
  | .after _ | .returned => c.id ≤ lastid
  | _ => True

variable {h : UpdateHandling} {first id lastid lastid' : UInt64} {a a' : At} {go : Bool}

/-- A swap only raises `lastid`, and only to the id of its call. -/
theorem step_raises (hk : Known lastid ⟨id, a⟩) (hs : step h id lastid a = some (lastid', a', go)) :
    lastid ≤ lastid' ∧ (lastid' = lastid ∨ lastid' = id) := by
  cases a with
  | compareAndSwap seen =>
    simp only [step] at hs
    by_cases same : lastid = seen
    · simp only [same, ↓reduceIte, Option.some.injEq, Prod.mk.injEq] at hs
      have less : seen < id := hk
      obtain ⟨rfl, -, -⟩ := hs
      subst same
      exact ⟨UInt64.le_of_lt less, .inr rfl⟩
    · simp only [same, ↓reduceIte, Option.some.injEq, Prod.mk.injEq] at hs
      exact ⟨UInt64.le_of_eq hs.1, .inl hs.1.symm⟩
  | entry | test seen =>
    simp only [step] at hs
    split at hs <;> simp only [Option.some.injEq, Prod.mk.injEq] at hs
    · exact ⟨UInt64.le_of_eq hs.1, .inl hs.1.symm⟩
    · exact ⟨UInt64.le_of_eq hs.1, .inl hs.1.symm⟩
  | load | after updated =>
    simp only [step, Option.some.injEq, Prod.mk.injEq] at hs
    exact ⟨UInt64.le_of_eq hs.1, .inl hs.1.symm⟩
  | returned => cases hs

/-- A call leaves its loop only when `lastid` is its id at least. -/
theorem step_known (hh : h.handlesUpdates = true) (hk : Known lastid ⟨id, a⟩)
    (hs : step h id lastid a = some (lastid', a', go)) : Known lastid' ⟨id, a'⟩ := by
  cases a with
  | entry =>
    simp only [step, hh, ↓reduceIte, Option.some.injEq, Prod.mk.injEq] at hs
    obtain ⟨rfl, rfl, rfl⟩ := hs
    trivial
  | load =>
    simp only [step, Option.some.injEq, Prod.mk.injEq] at hs
    obtain ⟨rfl, rfl, rfl⟩ := hs
    exact UInt64.le_refl lastid
  | test seen =>
    have old : seen ≤ lastid := hk
    simp only [step] at hs
    by_cases less : seen < id
    · simp only [less, ↓reduceIte, Option.some.injEq, Prod.mk.injEq] at hs
      obtain ⟨rfl, rfl, rfl⟩ := hs
      exact less
    · simp only [less, ↓reduceIte, Option.some.injEq, Prod.mk.injEq] at hs
      obtain ⟨rfl, rfl, rfl⟩ := hs
      exact UInt64.le_trans (UInt64.not_lt.mp less) old
  | compareAndSwap seen =>
    simp only [step] at hs
    by_cases same : lastid = seen
    · simp only [same, ↓reduceIte, Option.some.injEq, Prod.mk.injEq] at hs
      obtain ⟨rfl, rfl, rfl⟩ := hs
      exact UInt64.le_refl id
    · simp only [same, ↓reduceIte, Option.some.injEq, Prod.mk.injEq] at hs
      obtain ⟨rfl, rfl, rfl⟩ := hs
      trivial
  | after updated =>
    simp only [step, Option.some.injEq, Prod.mk.injEq] at hs
    obtain ⟨rfl, rfl, rfl⟩ := hs
    exact hk
  | returned => cases hs

theorem Known.mono {c : Call} (hk : Known lastid c) (hle : lastid ≤ lastid') :
    Known lastid' c := by
  obtain ⟨id, a⟩ := c
  cases a with
  | test seen => exact UInt64.le_trans (b := lastid) hk hle
  | after _ | returned => exact UInt64.le_trans (b := lastid) hk hle
  | compareAndSwap _ => exact hk
  | entry | load => trivial

open Threads Transition

variable {s s' : Threads UInt64 Call} {ok : Threads UInt64 Call → Threads.Event UInt64 Unit → Prop}
variable {c c' : Call} {u : Unit} {new : List Call}

theorem program_step {i : Nat}
    (hs : (program h first).step lastid i c u = some (lastid', c', new)) :
    c'.id = c.id ∧ new = [] ∧ ∃ go, step h c.id lastid c.at_ = some (lastid', c'.at_, go) := by
  obtain ⟨⟨l, a, go⟩, hr, heq⟩ := Option.map_eq_some_iff.mp hs
  simp only [Prod.mk.injEq] at heq
  obtain ⟨rfl, rfl, rfl⟩ := heq
  exact ⟨rfl, rfl, go, hr⟩

/-- The outline of all calls: each knows what its place in the code tells. -/
theorem outline (hh : h.handlesUpdates = true) :
    (program h first).Outline ok (fun lastid _ => first ≤ lastid)
      (fun lastid _ => Known lastid) where
  init lastid hl := UInt64.le_of_eq (Eq.symm hl)
  enters s id hle _ := ⟨hle, trivial⟩
  step s i c u lastid' c' new hle hk _ _ hs := by
    obtain ⟨hid, hnew, go, hgo⟩ := program_step hs
    subst hnew
    obtain ⟨id, a⟩ := c'
    subst hid
    exact ⟨UInt64.le_trans hle (step_raises hk hgo).1, step_known hh hk hgo, by simp⟩
  others lastid i c u lastid' c' new n j other _ hk hother _ hs := by
    obtain ⟨-, -, go, hs⟩ := program_step hs
    exact hother.mono (step_raises hk hs).1

/-- `lastid` is `first` or the id of a call that has started. -/
def Origin (first : UInt64) (s : Threads UInt64 Call) : Prop :=
  s.shared = first ∨ ∃ c ∈ s.threads, c.id = s.shared

/-- A call that goes on keeps its argument. -/
theorem calls_kept {e : Threads.Event UInt64 Unit} (hs : (program h first).next s e = some s')
    (hid : ∃ c ∈ s.threads, c.id = id) : ∃ c ∈ s'.threads, c.id = id := by
  obtain ⟨c, hc, hid⟩ := hid
  cases e with
  | enter id =>
    obtain rfl := Program.next_enter hs
    exact ⟨c, List.mem_append_left _ hc, hid⟩
  | run i u =>
    obtain ⟨p, p', new, hp, hr, hthreads⟩ := Program.next_run hs
    obtain ⟨hp', -, -⟩ := program_step hr
    rw [hthreads]
    obtain ⟨j, hj⟩ := List.mem_iff_getElem?.mp hc
    by_cases hij : i = j
    · subst hij
      have same : p = c := Option.some.inj (hp.symm.trans hj)
      subst same
      exact ⟨p', List.mem_of_getElem? (Program.thread_self hp), hp'.trans hid⟩
    · exact ⟨c, List.mem_of_getElem? (Program.thread_before hij hj), hid⟩

theorem next_raises {e : Threads.Event UInt64 Unit}
    (hk : ∀ (i : Nat) (c : Call), s.threads[i]? = some c → Known s.shared c)
    (hs : (program h first).next s e = some s') :
    s.shared ≤ s'.shared ∧ (s'.shared = s.shared ∨ ∃ c ∈ s.threads, c.id = s'.shared) := by
  cases e with
  | enter id =>
    obtain rfl := Program.next_enter hs
    exact ⟨UInt64.le_refl _, .inl rfl⟩
  | run i u =>
    obtain ⟨p, p', new, hp, hr, -⟩ := Program.next_run hs
    obtain ⟨-, -, go, hgo⟩ := program_step hr
    obtain ⟨hle, hsame | hid⟩ := step_raises (hk i p hp) hgo
    · exact ⟨hle, .inl hsame⟩
    · exact ⟨hle, .inr ⟨p, List.mem_of_getElem? hp, hid.symm⟩⟩

theorem origin (hh : h.handlesUpdates = true) (run : (program h first).system.Reachable s) :
    Origin first s := by
  have inv : (program h first).system.Invariant (fun _ _ => True) _ := (outline hh).invariant
  refine (run.invariant (inv.strengthen (I := Origin first) ?_ ?_)).2
  · intro s hs
    exact .inl hs.1
  · intro s e s' hk _ ho _ hs
    obtain ⟨-, hsame | ⟨c, hc, hid⟩⟩ := next_raises hk.2 hs
    · rcases ho with ho | ho
      · exact .inl (hsame.trans ho)
      · right
        rw [hsame]
        exact calls_kept hs ho
    · exact .inr (calls_kept hs ⟨c, hc, hid⟩)

/-- No update is lost: `lastid` only rises, it is always the first value or the id of a call that
has started, a call that has returned left `lastid` at its id at least, and when all have returned
`lastid` is the greatest of the first value and the ids. -/
theorem keeps_updates (hh : h.handlesUpdates = true)
    (run : (program h first).system.Reachable s)
    (later : ((program h first).system.after s).Reachable s') :
    s.shared ≤ s'.shared ∧
    (s.shared = first ∨ ∃ c ∈ s.threads, c.id = s.shared) ∧
    (∀ c ∈ s.threads, c.at_ = .returned → c.id ≤ s.shared) ∧
    ((∀ c ∈ s.threads, c.at_ = .returned) →
      IsGreatest {x | x = first ∨ ∃ c ∈ s.threads, c.id = x} s.shared) := by
  have rises : s.shared ≤ s'.shared := by
    refine run.related (R := fun t u => t.shared ≤ u.shared) later (fun _ => UInt64.le_refl _)
      (fun _ _ _ => UInt64.le_trans) ?_
    intro t e u run _ hs
    exact (next_raises ((outline hh).holds run).2 hs).1
  obtain ⟨low, known⟩ := (outline hh).holds run
  have done : ∀ c ∈ s.threads, c.at_ = .returned → c.id ≤ s.shared := by
    intro c hc hreturned
    obtain ⟨i, hi⟩ := List.mem_iff_getElem?.mp hc
    have hk := known i c hi
    unfold Known at hk
    rw [hreturned] at hk
    exact hk
  refine ⟨rises, origin hh run, done, ?_⟩
  intro all
  constructor
  · exact origin hh run
  · rintro x (rfl | ⟨c, hc, rfl⟩)
    · exact low
    · exact done c hc (all c hc)

/-- Two calls whose loops cross: both load 0, the one with the smaller id swaps first, and the
other one goes round again. -/
def crossing : List (Threads.Event UInt64 Unit) :=
  [.enter 5, .enter 7, .run 0 (), .run 0 (), .run 0 (), .run 1 (), .run 1 (),
    .run 1 (), .run 0 (), .run 1 (), .run 1 (), .run 1 (), .run 1 (), .run 0 (), .run 1 ()]

theorem keeps_updates_crossing : ∃ s, (program { handleIdle := true } 0).system.Reachable s ∧
    s.shared ≤ s.shared ∧
    (s.shared = 0 ∨ ∃ c ∈ s.threads, c.id = s.shared) ∧
    (∀ c ∈ s.threads, c.at_ = .returned → c.id ≤ s.shared) ∧
    ((∀ c ∈ s.threads, c.at_ = .returned) →
      IsGreatest {x | x = 0 ∨ ∃ c ∈ s.threads, c.id = x} s.shared) ∧
    s.shared = 7 ∧ ∀ c ∈ s.threads, c.at_ = .returned := by
  obtain ⟨s, run, hs⟩ := System.exists_of_replay (program { handleIdle := true } 0).system
    (fun _ _ => True) crossing ⟨0, []⟩
    (fun s => decide (s.shared = 7 ∧ ∀ c ∈ s.threads, c.at_ = .returned)) ⟨rfl, rfl⟩ (by decide)
  have kept := keeps_updates (h := { handleIdle := true }) rfl run (.start rfl)
  obtain ⟨h1, h2, h3, h4⟩ := kept
  exact ⟨s, run, h1, h2, h3, h4, of_decide_eq_true hs⟩

end CommitID

end MdbxGo
