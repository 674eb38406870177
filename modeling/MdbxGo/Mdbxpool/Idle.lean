import MdbxGo.Mdbxpool.HandleIdle
import MdbxGo.Mdbxpool.Resting

/-! What `handleIdle` does about the readers in the bag: all of them are reset, so that the first
one that it gets ends the scan. -/

namespace MdbxGo

namespace TxnPool

open Threads Transition MdbxEnv World

variable {cfg : Config} {q q' : Threads TxnPool Goroutine} {e : Threads.Event Entry Choice}
  {i j : Nat} {h : Handle} {t : Goroutine}

/-- What is to become of a reader that was idle when the last update was made known: it is aborted,
which frees its slot, or with `HandleRenew` it is renewed past that update. -/
def Dealt (cfg : Config) (q q' : Threads TxnPool Goroutine) (h : Handle) : Prop :=
  (∃ a, (q.shared.world.txns h).ptr = some (.reader a) ∧
    (q'.shared.world.txns h).ptr = none ∧ q'.shared.world.lib.readers a = none) ∨
  cfg.updateHandling.handleRenew = true ∧
    Backed (Observes q.shared.lastid) q'.shared.world h

/-- The step is one of the goroutine with the number `j`. -/
def stepOf (j : Nat) : Threads.Event Entry Choice → Bool
  | .run i _ => i == j
  | .enter _ => false

/-- In `handleIdle` with `h` in the bag or in hand, or behind it with `h` in the bag. -/
structure Untouching (j : Nat) (h : Handle) (q : Threads TxnPool Goroutine) : Prop where
  orderly : Orderly q
  resting : Resting q
  scanning : ∃ t, q.threads[j]? = some t ∧
    (t.at_ = .enterIdle ∨ t.at_.body = true ∨ t.at_ = .returned) ∧ h ∈ q.shared.bag t.at_

theorem stepOf_respects (hj : stepOf j e = true) (ht : q.threads[j]? = some t)
    (hfree : t.at_.free = false) (hs : (program cfg).next q e = some q') : respects q e = true := by
  cases e with
  | enter a => cases hj
  | run i c =>
    obtain rfl : i = j := by simpa [stepOf] using hj
    cases c with
    | does e =>
      obtain ⟨u, u', new, hu, hstep, _⟩ := Program.next_run hs
      rw [ht] at hu
      cases hu
      have hm : Moved cfg i q.shared t q'.shared u' new (.does e) := step_moved hstep
      cases hm with
      | event hmay _ _ _ _ _ _ =>
        rw [hfree] at hmay
        cases hmay
    | _ => rfl

/-- A step of `handleIdle` leaves what was in the bag there, or it has it in hand. -/
theorem next_untouching (inv : Untouching j h q) (hj : stepOf j e = true)
    (hs : (program cfg).next q e = some q') : Untouching j h q' := by
  obtain ⟨ord, resting, t, ht, hplace, hh⟩ := inv
  have hfree : t.at_.free = false := by
    rcases hplace with hat | hbody | hat
    · rw [hat]; rfl
    · exact (body_alone hbody).1
    · rw [hat]; rfl
  have hok := stepOf_respects hj ht hfree hs
  refine ⟨(orderly_invariant fun q e => respects q e = true).step q e q' ord hok hs,
    next_resting ord resting hs hok, ?_⟩
  cases e with
  | enter a => cases hj
  | run i c =>
    obtain rfl : i = j := by simpa [stepOf] using hj
    obtain ⟨u, t', new, hu, hstep, hthreads⟩ := Program.next_run hs
    rw [ht] at hu
    cases hu
    have hm := step_moved hstep
    refine ⟨t', by rw [hthreads]; exact Program.thread_self ht, ?_⟩
    rcases hplace with hat | hbody | hat
    · obtain ⟨_, hpool, _, hat'⟩ := hm.enters hat
      have hsame : q'.shared.bag t'.at_ = q.shared.bag t.at_ := by
        unfold TxnPool.bag
        rw [hpool, hat]
        rcases hat' with hat' | hat' <;> rw [hat'] <;> rfl
      refine ⟨?_, hsame ▸ hh⟩
      rcases hat' with hat' | hat'
      · exact .inr (.inl (by rw [hat']; rfl))
      · exact .inr (.inr hat')
    · obtain ⟨hscan, _⟩ := hm.scans hbody
      refine ⟨?_, ?_⟩
      · rcases hscan.guard with ⟨_, hbody'⟩ | ⟨_, _, hback⟩
        · exact .inr (.inl hbody')
        · exact .inr (.inr hback)
      · rcases hscan.bag with hperm | ⟨_, txn, hstale⟩
        · exact hperm.mem_iff.mpr hh
        · -- nothing in the bag is found to be stale
          have hrests := resting.hands i t ht
          rcases hstale with hat | hat | hat <;> rw [hat] at hrests <;> exact hrests.elim
    · exact absurd hat hm.not_returned

/-- What was in the bag before `handleIdle` is there after it, still reset. -/
theorem idle_left (run : (program cfg).system.Reaches (fun q e => respects q e = true) q)
    (ht : q.threads[j]? = some t) (hat : t.at_ = .enterIdle) {t' : Goroutine}
    (later : ((program cfg).system.after q).Reaches (fun _ e => stepOf j e = true) q')
    (ht' : q'.threads[j]? = some t') (hat' : t'.at_ = .returned) (hh : h ∈ q.shared.pool) :
    h ∈ q'.shared.pool ∧ Backed Rests q'.shared.world h := by
  obtain ⟨ord, resting⟩ := run.invariant resting_invariant
  have hbefore : Untouching j h q :=
    ⟨ord, resting, t, ht, .inl hat, List.mem_append_left _ hh⟩
  obtain ⟨_, resting', u, hu, _, hh'⟩ := later.later hbefore
    fun q e q' hq hok hs => next_untouching hq hok hs
  rw [ht'] at hu
  cases hu
  rw [hat', show q'.shared.bag .returned = q'.shared.pool from List.append_nil _] at hh'
  exact ⟨hh', resting'.pool h hh'⟩

theorem not_dealt (hrests : Backed Rests q'.shared.world h) : ¬Dealt cfg q q' h := by
  obtain ⟨a, r, hp, ha, rests⟩ := hrests
  rintro (⟨_, _, hnone, _⟩ | ⟨_, b, r', hp', hb, hlive, _⟩)
  · rw [hp] at hnone
    cases hnone
  · rw [hp] at hp'
    cases hp'
    rw [ha] at hb
    cases hb
    rw [rests.finished] at hlive
    cases hlive

/-- Alone with the pool, `handleIdle` deals with every reader in the bag exactly when there is none:
it takes the first one that it gets for the end of those that are stale. -/
theorem idle_dealt_iff {t' : Goroutine}
    (run : (program cfg).system.Reaches (fun q e => respects q e = true) q)
    (ht : q.threads[j]? = some t) (hat : t.at_ = .enterIdle)
    (later : ((program cfg).system.after q).Reaches (fun _ e => stepOf j e = true) q')
    (ht' : q'.threads[j]? = some t') (hat' : t'.at_ = .returned) :
    (∀ h ∈ q.shared.pool, Dealt cfg q q' h) ↔ q.shared.pool = [] := by
  constructor
  · intro hall
    refine List.eq_nil_iff_forall_not_mem.mpr fun h hh => ?_
    exact not_dealt (idle_left run ht hat later ht' hat' hh).2 (hall h hh)
  · intro hnil h hh
    rw [hnil] at hh
    cases hh

/-- A reader is pooled, another process commits, and `CommitID` makes that known. -/
def informed : List (Threads.Event Entry Choice) :=
  [.enter (.beginTxn txnRdonly), .run 0 (.gets none), .run 0 (.calls 0 {}), .run 0 (.calls 0 {}),
    .run 0 (.calls 0 {}), .run 0 (.calls 0 {}), .run 0 (.calls 0 {}), .run 0 (.calls 0 {}),
    .run 0 (.calls 0 {}), .enter .app, .run 1 (.does (.foreignCommit 7 [])), .enter (.commitID 7),
    .run 2 (.calls 0 {}), .run 2 (.calls 0 {}), .run 2 (.calls 0 {}), .run 2 (.calls 0 {}),
    .run 2 (.calls 0 {})]

/-- `handleIdle` gets the reader, asks for its id and puts it back. -/
def glancing : List (Threads.Event Entry Choice) :=
  [.run 3 (.calls 0 {}), .run 3 (.gets (some 0)), .run 3 (.calls 0 {}), .run 3 (.calls 0 {}),
    .run 3 (.calls 0 {}), .run 3 (.calls 0 {})]

def idleOnly : Config := { updateHandling := { handleIdle := true } }

/-- The reader is in the bag when `handleIdle` starts and when it has returned. -/
def glances (q : Threads TxnPool Goroutine) : Bool :=
  decide (q.threads[3]? = some ⟨.enterIdle, .nil⟩) && decide (q.shared.pool = [0]) &&
    decide (q.shared.lastid = 7) &&
    (((program idleOnly).system.after q).replay (fun _ e => stepOf 3 e = true) q glancing).any
      fun q' : Threads TxnPool Goroutine => decide (q'.threads[3]? = some ⟨.returned, .nil⟩) &&
        decide ((q'.shared.world.txns 0).ptr = some (.reader 1))

theorem glances_run : ∃ q q' : Threads TxnPool Goroutine,
    (program idleOnly).system.Reaches (fun q e => respects q e = true) q ∧
    q.threads[3]? = some ⟨.enterIdle, .nil⟩ ∧ q.shared.pool = [0] ∧ q.shared.lastid = 7 ∧
    ((program idleOnly).system.after q).Reaches (fun _ e => stepOf 3 e = true) q' ∧
    q'.threads[3]? = some ⟨.returned, .nil⟩ ∧
    (q'.shared.world.txns 0).ptr = some (.reader 1) := by
  obtain ⟨q, run, h⟩ := System.exists_of_replay (program idleOnly).system
    (fun q e => respects q e = true) informed fresh glances (fresh_init _) (by decide +kernel)
  simp only [glances, Bool.and_eq_true, decide_eq_true_iff, Option.any_eq_true] at h
  obtain ⟨⟨⟨hat, hpool⟩, hlast⟩, q', hreplay, hat', hptr⟩ := h
  have hlater : ((program idleOnly).system.after q).Reaches (fun _ e => stepOf 3 e = true) q :=
    .start rfl
  exact ⟨q, q', run, hat, hpool, hlast, hlater.replay _ hreplay, hat', hptr⟩

/-- An idle reader that the update has left behind is neither aborted nor renewed. -/
theorem idle_not_dealt : ¬∀ (cfg : Config) (q q' : Threads TxnPool Goroutine) (j : Nat)
    (t t' : Goroutine), cfg.updateHandling.handleIdle = true →
    (program cfg).system.Reaches (fun q e => respects q e = true) q →
    q.threads[j]? = some t → t.at_ = .enterIdle →
    ((program cfg).system.after q).Reaches (fun _ e => stepOf j e = true) q' →
    q'.threads[j]? = some t' → t'.at_ = .returned → ∀ h ∈ q.shared.pool, Dealt cfg q q' h := by
  intro hall
  obtain ⟨q, q', run, hat, hpool, _, later, hat', hptr⟩ := glances_run
  rcases hall idleOnly q q' 3 _ _ rfl run hat rfl later hat' rfl 0 (by rw [hpool]; simp) with
    ⟨_, _, hnone, _⟩ | ⟨hrenew, _⟩
  · rw [hptr] at hnone
    cases hnone
  · cases hrenew

theorem idle_dealt_iff_glanced : ∃ q q' : Threads TxnPool Goroutine, q.shared.pool = [0] ∧
    ((∀ h ∈ q.shared.pool, Dealt idleOnly q q' h) ↔ q.shared.pool = []) := by
  obtain ⟨q, q', run, hat, hpool, _, later, hat', _⟩ := glances_run
  exact ⟨q, q', hpool, idle_dealt_iff run hat rfl later hat' rfl⟩

end TxnPool

end MdbxGo
