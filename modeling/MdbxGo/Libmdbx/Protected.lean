import MdbxGo.Libmdbx.Seize

/-! The promise of the readers' table, in every interleaving: a snapshot that a read transaction has
taken stays, until the transaction ends or is ousted while it is parked. -/

namespace MdbxGo

namespace Mvcc

open Threads Transition

variable {s s' : Threads Env Thread} {i j t : Nat}

/-- A step is one of the holder of the writer lock or one of a reader. -/
theorem program_step {e e' : Env} {p p' : Thread} {c : Choice} {new : List Thread}
    (h : program.step e i p c = some (e', p', new)) : new = [] ∧
      (p = .writer ∧ p' = .writer ∧ writerStep e i e.writer c = some e' ∨
        readerStep e i p c = some (e', p')) := by
  have hmap (h : (readerStep e i p c).map (fun r => (r.1, r.2, [])) = some (e', p', new)) :
      new = [] ∧ readerStep e i p c = some (e', p') := by
    obtain ⟨r, hr, heq⟩ := Option.map_eq_some_iff.mp h
    cases heq
    exact ⟨rfl, hr⟩
  cases p with
  | writer =>
    simp only [program] at h
    split at h
    · obtain ⟨e₁, he₁, heq⟩ := Option.map_eq_some_iff.mp h
      cases heq
      exact ⟨rfl, .inl ⟨rfl, rfl, he₁⟩⟩
    · cases h
  | _ => exact ⟨(hmap h).1, .inr (hmap h).2⟩

/-- The threads keep the shared memory sound, and each keeps what it knows of its slot. -/
theorem outline : program.Outline (fun _ _ => True) (fun e _ => Sound e) Own where
  init e h := by
    refine ⟨by rw [h.detent]; exact Nat.zero_le _, ?_⟩
    rw [h.free]
    exact h.oldest
  enters s writes he _ := by
    refine ⟨he, ?_⟩
    intro j hj
    cases writes <;> cases hj
  step s i p c e' p' new he hp _ _ h := by
    obtain ⟨rfl, ⟨rfl, rfl, hw⟩ | hr⟩ := program_step h
    · refine ⟨(writerStep_moves hw).sound rfl he, ?_, ?_⟩
      · intro j hj
        cases hj
      · intro k q hq
        cases hq
    · obtain ⟨hkeeps, hown⟩ := readerStep_keeps he hp hr
      refine ⟨hkeeps.leaves.sound he, hown, ?_⟩
      intro k q hq
      cases hq
  others e i p c e' p' new n j q he hp hq hij h := by
    intro k hk
    obtain ⟨slot, hslot, hpid, hknows⟩ := hq k hk
    obtain ⟨-, ⟨rfl, rfl, hw⟩ | hr⟩ := program_step h
    · obtain ⟨slot', hpasses⟩ := (writerStep_moves hw).passes rfl he.phase hslot (by simp [hpid])
      exact ⟨slot', hpasses.slot, hpasses.pid.trans hpid, hpasses.knows hknows⟩
    · obtain ⟨hkeeps, -⟩ := readerStep_keeps he hp hr
      have hslot' := hkeeps.slots k slot hslot (by simp [hpid]) (by simp [hpid, Ne.symm hij])
      exact ⟨slot, hslot', hpid, hkeeps.leaves.knows.mpr hknows⟩

/-- The snapshot that a thread works on, its transaction being neither parked nor on its way out. -/
def Thread.snapshot : Thread → Option (Nat × Nat)
  | .running j t | .pass j t .parkTid | .pass j t (.parkTxnid _) | .pass j t .parkStore
  | .pass j t .unparkedTxnid | .pass j t (.unparkedTid _) => some (j, t)
  | _ => none

theorem Knows.live {e : Env} {slot : Slot} {p : Thread} (h : Knows e j slot p)
    (hp : p.snapshot = some (j, t)) : Live e j slot t := by
  cases p with
  | running => cases hp; exact h.2
  | pass k u at_ =>
    cases at_ with
    | parkTid | parkStore | unparkedTxnid => cases hp; exact h.2
    | parkTxnid | unparkedTid => cases hp; exact h.2.2
    | _ => cases hp
  | _ => cases hp

/-- A step of the writer does not lower the oldest snapshot in use. -/
theorem Moves.oldest_le {e e' : Env} {me : Nat} {w : Writer} (hl : w.Phase e)
    (h : Moves e me w e') : e.cachedOldest ≤ e'.cachedOldest := by
  cases h with
  | @op o _ hop =>
    cases o with
    | commit | steady | wipe =>
      obtain ⟨todo, -, rfl⟩ := Option.map_eq_some_iff.mp hop
      exact le_refl _
    | force | info | detent | unlock => exact Option.some.inj hop ▸ le_refl _
    | kick =>
      simp only [opStep] at hop
      split at hop
      · exact Option.some.inj hop ▸ le_refl _
      · cases hop
  | unchanged => exact (finish_frame e _ _).2.1.ge
  | @publish g p o =>
    obtain ⟨-, -, hp, hpo, -⟩ := hl
    rw [(finish_frame _ o g).2.1]
    exact hp ▸ hpo
  | _ => exact le_refl _

/-- The oldest snapshot that is published never goes down. -/
theorem oldest_le_later (run : program.system.Reachable s)
    (later : (program.system.after s).Reachable s') :
    s.shared.cachedOldest ≤ s'.shared.cachedOldest := by
  refine run.related (R := fun s s' => s.shared.cachedOldest ≤ s'.shared.cachedOldest) later
    (fun _ => le_refl _) (fun _ _ _ => le_trans) ?_
  intro u ev v hu _ hstep
  cases ev with
  | enter a =>
    obtain rfl := Program.next_enter hstep
    exact le_refl _
  | run k c =>
    obtain ⟨p, p', new, hp, hr, -⟩ := Program.next_run hstep
    obtain ⟨hsound, hown⟩ := outline.holds hu
    obtain ⟨-, ⟨-, -, hw⟩ | hreader⟩ := program_step hr
    · exact (writerStep_moves hw).oldest_le hsound.phase
    · exact (readerStep_keeps hsound (hown k p hp) hreader).1.leaves.cachedOldest.ge

/-- The slot of a transaction at work tells its snapshot, which the oldest one in use is not
past. -/
theorem oldest_le_snapshot (run : program.system.Reachable s) {p : Thread}
    (hp : s.threads[i]? = some p) (hsnap : p.snapshot = some (j, t)) :
    (∃ slot, s.shared.slots[j]? = some slot ∧ slot.pid = some i ∧ slot.txnid = some t) ∧
      s.shared.cachedOldest ≤ t := by
  obtain ⟨-, hown⟩ := outline.holds run
  have hslot : p.slot = some j := by
    cases p with
    | running => cases hsnap; rfl
    | pass k u at_ => cases at_ <;> cases hsnap <;> rfl
    | _ => cases hsnap
  obtain ⟨slot, hslot, hpid, hknows⟩ := hown i p hp j hslot
  have hlive := hknows.live hsnap
  exact ⟨⟨slot, hslot, hpid, hlive.txnid⟩, hlive.oldest⟩

/-- The oldest snapshot in use is not past the page that recovery falls back on. -/
theorem oldest_le_steady (run : program.system.Reachable s)
    (hwhole : ∀ todo after, s.shared.writer ≠ .storing todo after) :
    s.shared.cachedOldest ≤ steadyOf (snaps s.shared.metas) := by
  obtain ⟨hsound, -⟩ := outline.holds run
  have hphase := hsound.phase
  cases hw : s.shared.writer <;> rw [hw] at hphase
  case free => exact hphase
  case storing todo after => exact absurd hw (hwhole todo after)
  all_goals exact hphase.1 ▸ hphase.2.1

/-- However the readers and the writer interleave, the slot of a transaction at work tells its
snapshot, and no detent that pages were ever reclaimed up to, and no oldest snapshot that
`mvcc_snapshot_oldest_rw` ever published, is past it. So also for a transaction that was parked and
has resumed. -/
theorem snapshot_protected (run : program.system.Reachable s)
    (later : (program.system.after s).Reachable s') {p : Thread}
    (hp : s'.threads[i]? = some p) (hsnap : p.snapshot = some (j, t)) :
    (∃ slot, s'.shared.slots[j]? = some slot ∧ slot.pid = some i ∧ slot.txnid = some t) ∧
      s.shared.detent ≤ s.shared.cachedOldest ∧ s.shared.cachedOldest ≤ t := by
  obtain ⟨hsound, -⟩ := outline.holds run
  obtain ⟨hslot, hold⟩ := oldest_le_snapshot (run.trans later) hp hsnap
  exact ⟨hslot, hsound.detent, (oldest_le_later run later).trans hold⟩

/-- No read transaction takes one of the ways out that the code keeps for what must not happen, as
long as its slot is not cleaned behind its back, which `txn_ro_park` does for one that is in error:
`txn_ro_park` finds its slot as it left it, `txn_ro_unpark` meets no unexpected word, before its
swap or after, and the check of `ro_slot_clean` against the oldest snapshot holds. -/
theorem never_broken (run : program.system.Reachable s) (i j : Nat) :
    s.threads[i]? ≠ some (.broken j) := by
  intro hp
  obtain ⟨-, hown⟩ := outline.holds run
  obtain ⟨_, -, -, hknows⟩ := hown i _ hp j rfl
  exact hknows

/-- The oldest snapshot that is published never goes down, and it is none that a crash could
still need: whenever the meta pages are whole, it is no newer than the page that recovery falls
back on. -/
theorem cachedOldest_bounds (run : program.system.Reachable s)
    (later : (program.system.after s).Reachable s') :
    s.shared.cachedOldest ≤ s'.shared.cachedOldest ∧
      ((∀ todo after, s'.shared.writer ≠ .storing todo after) →
        s'.shared.cachedOldest ≤ steadyOf (snaps s'.shared.metas)) := by
  exact ⟨oldest_le_later run later, oldest_le_steady (run.trans later)⟩

/-! ### A run -/

/-- An environment with one weak commit after its last steady one. -/
def sample : Env where
  metas i := [MetaWords.mk 5 metaSignCalculate 5, ⟨6, metaSignCalculate, 6⟩,
    ⟨7, datasignWeak, 7⟩].getD i.val ⟨0, 0, 0⟩
  cachedOldest := 5
  maxReaders := 2
  troika _ := ⟨0, false⟩

theorem sample_opened : program.system.init ⟨sample, []⟩ := by
  refine ⟨⟨rfl, rfl, rfl, ?_, rfl⟩, rfl⟩
  have hsteady : 5 ≤ steadyOf (snaps sample.metas) := by decide +kernel
  exact hsteady

/-- The thread `i` makes `n` steps of the call it is in. -/
def onward (i n : Nat) : List (Threads.Event Bool Choice) := List.replicate n (.run i .next)

/-- A reader takes the snapshot of the weak page, the writer signs that page and publishes the
oldest snapshot, and the reader parks and resumes. -/
def sampleRun : List (Threads.Event Bool Choice) :=
  [[.enter false, .enter true, .run 0 .bind, .run 0 .begin], onward 0 23,
    [.run 0 (.fetched .ok)], onward 0 2, [.run 1 .lock, .run 1 (.op (.steady none))], onward 1 2,
    [.run 1 (.op .force), .run 1 (.op .detent)], onward 1 10, [.run 0 .park], onward 0 4,
    [.run 0 .unpark], onward 0 5].flatten

theorem snapshot_protected_resumed : ∃ s : Threads Env Thread,
    s.threads[0]? = some (.running 0 7) ∧ s.shared.detent = 7 ∧
      (∃ slot, s.shared.slots[0]? = some slot ∧ slot.pid = some 0 ∧ slot.txnid = some 7) ∧
      s.shared.detent ≤ s.shared.cachedOldest ∧ s.shared.cachedOldest ≤ 7 := by
  obtain ⟨s, run, hs⟩ := System.exists_of_replay program.system (fun _ _ => True) sampleRun
    ⟨sample, []⟩ (fun s => decide (s.threads[0]? = some (Thread.running 0 7) ∧ s.shared.detent = 7))
    sample_opened (by decide +kernel)
  obtain ⟨hthread, hdetent⟩ := of_decide_eq_true hs
  exact ⟨s, hthread, hdetent, snapshot_protected run (.start rfl) hthread rfl⟩

theorem never_broken_resumed : ∃ s : Threads Env Thread,
    s.threads[0]? = some (Thread.running 0 7) ∧ ∀ i j : Nat, s.threads[i]? ≠ some (.broken j) := by
  obtain ⟨s, run, hs⟩ := System.exists_of_replay program.system (fun _ _ => True) sampleRun
    ⟨sample, []⟩ (fun s => decide (s.threads[0]? = some (Thread.running 0 7)))
    sample_opened (by decide +kernel)
  exact ⟨s, of_decide_eq_true hs, never_broken run⟩

theorem cachedOldest_bounds_resumed : ∃ s : Threads Env Thread, s.shared.cachedOldest = 7 ∧
    sample.cachedOldest ≤ s.shared.cachedOldest ∧
      ((∀ todo after, s.shared.writer ≠ .storing todo after) →
        s.shared.cachedOldest ≤ steadyOf (snaps s.shared.metas)) := by
  obtain ⟨s, later, hs⟩ := System.exists_of_replay (program.system.after ⟨sample, []⟩)
    (fun _ _ => True) sampleRun ⟨sample, []⟩ (fun s => decide (s.shared.cachedOldest = 7))
    rfl (by decide +kernel)
  exact ⟨s, of_decide_eq_true hs, cachedOldest_bounds (.start sample_opened) later⟩

end Mvcc

end MdbxGo
