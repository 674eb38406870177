import MdbxGo.Mdbx.Readers
import MdbxGo.Mdbxpool.Moves

/-! In whose hands a transaction of the pool is: it is never in the bag twice, and never in the bag
and in use at once. -/

namespace MdbxGo

namespace TxnPool

open Threads Transition World

variable {cfg : Config} {s s' : TxnPool} {i n : Nat} {t t' : Goroutine} {c : Choice}
  {new : List Goroutine} {w : World} {txn h : Handle} {a a' : At}

/-- The transactions that a goroutine has in hand, or its caller's function, or the caller that
`BeginTxn` has returned to. -/
def At.has : At → List Handle
  | .renew _ txn | .discard _ txn | .held txn | .runOp txn | .viewing txn | .leave txn _
  | .abortReadonly txn | .reset txn | .abort txn | .put txn | .id _ txn | .getLastID _ txn _
  | .handleReadonly _ txn | .renewStale _ txn | .abortStale _ txn | .putFresh txn | .closeAbort txn
  | .updating txn | .saveID txn | .terminate txn _ _ => [txn]
  | .getIdle txnPutBack => txnPutBack.toList
  | .putBack txnPutBack got => txnPutBack :: got.toList
  | _ => []

/-- All transactions in the bag or in hand, each as often as it is there. -/
def custody (s : Threads TxnPool Goroutine) : List Handle :=
  s.shared.pool ++ s.threads.flatMap (·.at_.has)

/-- The transaction that a call of a method begins for the goroutine. -/
def At.gains : At → List Handle → List Handle
  | .create _, l | .runTxn, l => l
  | _, _ => []

/-! ### What a step does to the transactions in hand -/

theorem unwind_has (a : At) : a.unwind.has.count h ≤ a.has.count h := by
  unfold At.unwind
  split <;> simp [At.has]

theorem delivered_has (k : Starter) : (k.delivered txn).has = [txn] := by
  cases k <;> rfl

theorem dropped_has (k : Condition) : k.dropped.has = [] := by
  cases k <;> rfl

theorem renewed_has (k : Condition) : (k.renewed txn).has = [txn] := by
  cases k <;> rfl

theorem fresh_has (k : Condition) : (k.fresh txn).has = [txn] := by
  cases k <;> rfl

theorem next_has (txnid : UInt64) (r : Returned) :
    (a.next txnid r).has.count h ≤ a.has.count h + (a.gains r.txn.toList).count h := by
  unfold At.next
  split
  · split
    · rw [delivered_has]
      exact Nat.le_add_right _ _
    · exact Nat.le_add_right _ _
  · exact Nat.zero_le _
  · cases hr : r.txn with
    | none => exact Nat.zero_le _
    | some txn =>
      rw [Option.elim_some, delivered_has]
      exact Nat.le_add_left _ _
  · exact Nat.le_add_right _ _
  · split <;> exact Nat.le_add_right _ _
  · exact Nat.le_add_right _ _
  · split
    · rw [renewed_has]
      exact Nat.le_add_right _ _
    · exact Nat.le_add_right _ _
  · rw [dropped_has]
    exact Nat.zero_le _
  · exact Nat.le_add_right _ _
  · split <;> exact Nat.zero_le _
  · exact Nat.zero_le _
  · exact Nat.zero_le _

/-- What is in hand after `Get` was in hand before, or in the bag. -/
theorem got_has {got : Option Handle} (ha : a.got got = some a') (hall : ∀ k ∈ got, k ∈ s.pool) :
    (got.elim s.pool s.pool.erase).count h + a'.has.count h = s.pool.count h + a.has.count h := by
  have hmove : ∀ k, k ∈ s.pool → (s.pool.erase k).count h + [k].count h = s.pool.count h := by
    intro k hk
    by_cases hkh : k = h
    · subst hkh
      have hpos := List.count_pos_iff.mpr hk
      rw [List.count_erase_self, List.count_singleton_self]
      omega
    · rw [List.count_erase_of_ne (Ne.symm hkh), List.count_singleton]
      simp [hkh]
  unfold At.got at ha
  split at ha
  · cases ha
    cases got with
    | none => rfl
    | some k => simpa [At.has] using hmove k (hall k rfl)
  · cases ha
    cases got with
    | none => rfl
    | some k =>
      rename_i back
      have hgot := hmove k (hall k rfl)
      simp only [Option.elim_some, At.has, Option.toList_some, List.count_cons, List.count_nil]
        at hgot ⊢
      omega
  · cases ha
    cases got with
    | none => rfl
    | some k => simpa [At.has] using hmove k (hall k rfl)
  · cases ha
    cases got with
    | none => rfl
    | some k => simpa [At.has] using hmove k (hall k rfl)
  · cases ha

/-- The pool's own steps: a transaction is put into the bag, or let go of where it is stale and
nothing is to be done about it. -/
theorem atomic_has (ha : a.atomic cfg s = some (s', a', new)) :
    s'.pool.count h + a'.has.count h = s.pool.count h + a.has.count h ∨
      ∃ k, a = .handleReadonly k h ∧ k.isSet cfg.updateHandling = false ∧
        s'.pool = s.pool ∧ a' = k.dropped := by
  unfold At.atomic at ha
  split at ha
  · cases ha
    exact .inl rfl
  · cases ha
    left
    split
    · rfl
    · split <;> rfl
  · cases ha
    left
    simp only [At.has, List.count_cons, List.count_nil]
    omega
  · cases ha
    left
    split
    · rfl
    · rw [fresh_has]
      rfl
  · rename_i k txn
    cases ha
    split
    · rename_i hset
      by_cases hk : txn = h
      · subst hk
        exact .inr ⟨k, rfl, by simpa using hset, rfl, rfl⟩
      · left
        rw [dropped_has]
        simp [At.has, hk]
    · left
      split <;> rfl
  · left
    split at ha <;> cases ha <;> rfl
  · rename_i back got
    cases ha
    left
    cases got with
    | none =>
      simp only [At.has, Option.toList_none, Option.elim_none, List.count_cons, List.count_nil]
      omega
    | some k =>
      simp only [At.has, Option.toList_some, Option.elim_some, List.count_cons, List.count_nil]
      omega
  · cases ha
    left
    simp only [At.has, List.count_cons, List.count_nil]
    omega
  · cases ha
    exact .inl rfl
  · obtain ⟨r, _, heq⟩ := Option.map_eq_some_iff.mp ha
    cases heq
    exact .inl rfl
  · cases ha

theorem step_exec {thread : Thread} {o : Sys} {call : Call} {r : World × Reply}
    (hr : w.step (.go i thread o call) = some r) : w.exec o i thread call = some r := by
  obtain ⟨g, self, o', call', he, _, _, hexec⟩ | ⟨a, x, he, _⟩ |
      ⟨txnid, changes, he, _⟩ | ⟨he, _⟩ :=
    step_cases hr
  · cases he
    exact hexec
  · cases he
  · cases he
  · cases he

/-- The `Txn` that a call begins is new. -/
theorem begun_new {parent : Option Handle} {flags : UInt32} {o : Sys} {thread : Thread}
    {b : World × Returned} (hb : w.beginTxn o thread parent flags = some b)
    (htxn : b.2.txn = some txn) : txn = w.next ∧ w.next < b.1.next := by
  obtain ⟨heq, hnext, _⟩ := beginTxn_managed hb htxn
  exact ⟨heq, hnext ▸ Nat.lt_succ_self w.next⟩

/-- What a method leaves in hand was there before, or is new. -/
theorem resume_has {thread : Thread} {o : Sys} {call : Call} {r : World × Reply} (txnid : UInt64)
    (hcall : t.at_.method = some call) (hr : w.step (.go i thread o call) = some r) :
    (t.resume txnid r.2).at_.has.count h ≤
      t.at_.has.count h + if h = w.next ∧ w.next < r.1.next then 1 else 0 := by
  have hexec := step_exec hr
  have hnew : ∀ k, k = w.next ∧ w.next < r.1.next →
      [k].count h ≤ if h = w.next ∧ w.next < r.1.next then 1 else 0 := by
    intro k hk
    by_cases hkh : k = h
    · subst hkh
      simp [hk]
    · simp [hkh]
  obtain ⟨at_, out⟩ := t
  obtain ⟨w', reply⟩ := r
  change at_.method = some call at hcall
  cases reply with
  | panicked p => exact Nat.le_add_right_of_le (unwind_has at_)
  | running k =>
    change (at_.inside k).has.count h ≤ _
    cases at_ with
    | runOp txn =>
      cases hcall
      cases hexec
      exact Nat.le_add_right _ _
    | runTxn =>
      cases hcall
      obtain ⟨b, hb, hrun⟩ := Option.map_eq_some_iff.mp hexec
      have hk : k = w.next ∧ w.next < w'.next := by
        split at hrun
        · cases hrun
        · rename_i j hj
          have hlt := begun_new hb hj
          unfold runOpTerm unmanaged at hrun
          split at hrun <;> cases hrun
          exact hlt
      exact Nat.le_add_left_of_le (hnew k hk)
    | _ => exact Nat.zero_le _
  | returned x =>
    refine Nat.le_trans (next_has txnid x) (Nat.add_le_add_left ?_ _)
    cases at_ with
    | create starter =>
      cases hcall
      obtain ⟨b, hb, hrun⟩ := Option.map_eq_some_iff.mp hexec
      cases hrun
      cases htxn : b.2.txn with
      | none => exact Nat.zero_le _
      | some k => exact hnew k (begun_new hb htxn)
    | runTxn =>
      cases hcall
      obtain ⟨b, hb, hrun⟩ := Option.map_eq_some_iff.mp hexec
      split at hrun
      · rename_i hnone
        cases hrun
        rw [hnone]
        exact Nat.zero_le _
      · rename_i j hj
        unfold runOpTerm unmanaged at hrun
        split at hrun <;> cases hrun
    | _ => exact Nat.zero_le _

/-- A step of a goroutine moves transactions between its hands and the bag; only a new one is
added. -/
theorem Moved.has (hm : Moved cfg i s t s' t' new c) (h : Handle) :
    s'.pool.count h + t'.at_.has.count h ≤ s.pool.count h + t.at_.has.count h +
      if h = s.world.next ∧ s.world.next < s'.world.next then 1 else 0 := by
  cases hm with
  | method hcall hr hs ht _ =>
    subst hs ht
    have hle := resume_has (h := h) (s.idAt t.at_) hcall hr
    dsimp only
    omega
  | atomic _ _ ha _ =>
    rcases atomic_has (h := h) ha with heq | ⟨k, _, _, hpool, hdrop⟩
    · omega
    · rw [hpool, hdrop, dropped_has]
      simp only [List.count_nil]
      omega
  | got hall ha hs _ _ =>
    subst hs
    have heq := got_has (h := h) ha hall
    dsimp only
    omega
  | event _ _ _ _ hs ht _ =>
    subst hs ht
    exact Nat.le_add_right _ _
  | @ended res _ ha hs _ _ =>
    subst hs
    have hsame : t'.at_.has = t.at_.has := by
      unfold At.ended at ha
      split at ha
      · rename_i hat
        rw [hat, ← Option.some.inj ha]
        rfl
      · rename_i hat
        rw [hat, ← Option.some.inj ha]
        split <;> rfl
      · cases ha
    rw [hsame]
    exact Nat.le_add_right _ _

theorem Moved.separate (ok : s.world.lib.Ok) (separate : s.world.Separate)
    (hm : Moved cfg i s t s' t' new c) : s'.world.Separate := by
  rcases hm.world with hsame | ⟨e, r, _, hr, hw⟩
  · rw [hsame]
    exact separate
  · rw [hw]
    exact step_separate ok separate hr

/-! ### Custody in all runs -/

/-- One place of a list changes. -/
theorem count_set {α : Type} (f : α → List Handle) {l : List α} {x y : α} (hi : l[i]? = some x) :
    ((l.set i y).flatMap f).count h + (f x).count h = (l.flatMap f).count h + (f y).count h := by
  induction l generalizing i with
  | nil => simp at hi
  | cons z l ih =>
    cases i with
    | zero =>
      have hz : z = x := by simpa using hi
      subst hz
      simp only [List.set_cons_zero, List.flatMap_cons, List.count_append]
      omega
    | succ i =>
      have hrest := ih (by simpa using hi)
      simp only [List.set_cons_succ, List.flatMap_cons, List.count_append]
      omega

theorem start_has (a : Entry) : a.start.at_.has = [] := by
  cases a with
  | beginTxn flags =>
    simp only [Entry.start]
    split <;> rfl
  | _ => rfl

/-- A step of the whole program adds no transaction to those in custody but a new one. -/
theorem next_custody {s s' : Threads TxnPool Goroutine} {e : Threads.Event Entry Choice}
    (hs : (program cfg).next s e = some s') (h : Handle) :
    (custody s').count h ≤ (custody s).count h +
      if h = s.shared.world.next ∧ s.shared.world.next < s'.shared.world.next then 1 else 0 := by
  cases e with
  | enter a =>
    rw [Program.next_enter hs]
    have hnone : ((program cfg).start a).at_.has = [] := start_has a
    simp [custody, hnone]
  | run i c =>
    obtain ⟨t, t', new, hi, hstep, hthreads⟩ := Program.next_run hs
    have hm := step_moved hstep
    have hhas := hm.has h
    have hset := count_set (h := h) (y := t') (·.at_.has) hi
    have hnew : new.flatMap (·.at_.has) = [] := by
      rw [List.flatMap_eq_nil_iff]
      intro u hu
      rw [hm.started u hu]
      rfl
    simp only [custody, hthreads, List.flatMap_append, List.count_append, hnew, List.count_nil]
    omega

/-- What holds of the world and of the custody in every run. -/
structure Kept (s : Threads TxnPool Goroutine) : Prop where
  sane : Sane s.shared.world s.threads.length
  separate : s.shared.world.Separate
  known : ∀ h ∈ custody s, h < s.shared.world.next
  once : ∀ h, (custody s).count h ≤ 1

theorem kept_invariant (ok : Threads TxnPool Goroutine → Threads.Event Entry Choice → Prop) :
    (program cfg).system.Invariant ok Kept where
  init s h := by
    obtain ⟨⟨hworld, hpool, _⟩, hthreads⟩ := h
    have hnone : custody s = [] := by simp [custody, hpool, hthreads]
    refine ⟨?_, init_separate hworld, ?_, ?_⟩
    · rw [hthreads]
      exact init_sane hworld
    · simp [hnone]
    · simp [hnone]
  step s e s' kept _ hs := by
    have hcount := next_custody hs
    have hrest : Sane s'.shared.world s'.threads.length ∧ s'.shared.world.Separate ∧
        s.shared.world.next ≤ s'.shared.world.next := by
      cases e with
      | enter a =>
        rw [Program.next_enter hs]
        exact ⟨kept.sane.more (by simp), kept.separate, Nat.le_refl _⟩
      | run i c =>
        obtain ⟨t, t', new, hi, hstep, hthreads⟩ := Program.next_run hs
        have hm := step_moved hstep
        refine ⟨?_, hm.separate kept.sane.ok kept.separate, (hm.later kept.sane.ok).next⟩
        exact (hm.sane kept.sane (List.getElem?_eq_some_iff.mp hi).1).more (by simp [hthreads])
    obtain ⟨sane, separate, hnext⟩ := hrest
    refine ⟨sane, separate, fun h hh => ?_, fun h => ?_⟩
    · have hpos := List.count_pos_iff.mpr hh
      have hle := hcount h
      by_cases hnew : h = s.shared.world.next ∧ s.shared.world.next < s'.shared.world.next
      · rw [hnew.1]
        exact hnew.2
      · rw [if_neg hnew] at hle
        exact Nat.lt_of_lt_of_le (kept.known h (List.count_pos_iff.mp (by omega))) hnext
    · have hle := hcount h
      have honce := kept.once h
      by_cases hnew : h = s.shared.world.next ∧ s.shared.world.next < s'.shared.world.next
      · have hzero : (custody s).count h = 0 := by
          rw [List.count_eq_zero]
          intro hh
          exact absurd hnew.1 (Nat.ne_of_lt (kept.known h hh))
        rw [if_pos hnew, hzero] at hle
        exact hle
      · rw [if_neg hnew] at hle
        omega

namespace Kept

variable {s : Threads TxnPool Goroutine} {t u : Goroutine} {j : Nat}

/-- A transaction in hand is in custody. -/
theorem mem_custody (hi : s.threads[i]? = some t) (hh : h ∈ t.at_.has) : h ∈ custody s :=
  List.mem_append_right _ (List.mem_flatMap.mpr ⟨t, List.mem_of_getElem? hi, hh⟩)

/-- A transaction in hand is not in the bag. -/
theorem not_pooled (kept : Kept s) (hi : s.threads[i]? = some t) (hh : h ∈ t.at_.has) :
    h ∉ s.shared.pool := by
  intro hpool
  have honce := kept.once h
  have hp := List.count_pos_iff.mpr hpool
  have ht := List.count_pos_iff.mpr
    (List.mem_flatMap.mpr ⟨t, List.mem_of_getElem? hi, hh⟩ : h ∈ s.threads.flatMap (·.at_.has))
  rw [custody, List.count_append] at honce
  omega

/-- No two goroutines have one transaction in hand. -/
theorem alone (kept : Kept s) (hi : s.threads[i]? = some t) (hj : s.threads[j]? = some u)
    (hij : i ≠ j) (hh : h ∈ t.at_.has) : h ∉ u.at_.has := by
  intro hu
  have honce := kept.once h
  have hset := count_set (h := h) (y := ({ at_ := .returned } : Goroutine)) (·.at_.has) hi
  have ht := List.count_pos_iff.mpr hh
  have hj' : (s.threads.set i { at_ := .returned })[j]? = some u := by
    rw [List.getElem?_set_ne hij, hj]
  have hrest := List.count_pos_iff.mpr
    (List.mem_flatMap.mpr ⟨u, List.mem_of_getElem? hj', hu⟩ :
      h ∈ (s.threads.set i { at_ := .returned }).flatMap (·.at_.has))
  have hnone : ({ at_ := .returned } : Goroutine).at_.has.count h = 0 := rfl
  rw [custody, List.count_append] at honce
  omega

end Kept

end TxnPool

end MdbxGo
