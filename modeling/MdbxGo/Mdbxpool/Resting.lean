import MdbxGo.Mdbxpool.Fresh

/-! The readers in the bag of a pool pin no snapshot: all of them are reset, and `ID` says so of
them, so that `handleIdle` finds none to be stale. -/

namespace MdbxGo

namespace MdbxEnv

variable {env : MdbxEnv} {o : Sys} {self : Thread}

/-- A reset that succeeds was one of a reader. -/
theorem mdbxTxnReset_rests {ptr : Option Ptr}
    (h : (env.mdbxTxnReset o self ptr).2 = Code.success ∨
      (env.mdbxTxnReset o self ptr).2 = Code.resultTrue) :
    ∃ a r, ptr = some (.reader a) ∧ (env.mdbxTxnReset o self ptr).1.readers a = some r ∧
      r.finished = true ∧ r.txnid = invalidTxnid := by
  obtain ⟨a, x, rfl, hr, hcode⟩ := onFlat_success rfl h
  refine ⟨a, _, rfl, hr, ?_⟩
  simp only [ReadTxn.mdbxTxnReset] at hcode ⊢
  split
  · rename_i hfatal
    rw [if_pos hfatal] at hcode
    exact absurd hcode
      (show ¬ (Code.panic = Code.success ∨ Code.panic = Code.resultTrue) by decide)
  · exact ⟨rfl, rfl⟩

end MdbxEnv

namespace TxnPool

open Threads Transition MdbxEnv World

variable {cfg : Config} {s s' : TxnPool} {i j n : Nat} {t t' u : Goroutine} {c : Choice}
  {new : List Goroutine} {w w' : World} {txn h : Handle} {a a' : At} {o : Sys} {thread : Thread}

/-- The reader is reset, and `ID` reports the invalid id for it. -/
structure Rests (x : Txn) (r : ReadTxn) : Prop where
  finished : r.finished = true
  txnid : r.txnid = invalidTxnid
  unparked : x.parked = false
  id : x.id = 0 ∨ x.id = invalidTxnid

theorem rests_oust (x : Txn) (r : ReadTxn) (h : Rests x r) : Rests x r.oust := by
  have halike := r.oust_alike
  exact ⟨halike.finished.trans h.finished, halike.txnid.trans h.txnid, h.unparked, h.id⟩

theorem reset_rests {x : Returned} (hr : w.exec o i thread (.reset h) = some (w', .returned x))
    (hx : x.err = none) : Backed Rests w' h := by
  have hr : w.reset o thread h = (w', .returned x) := Option.some.inj hr
  unfold World.reset unmanaged at hr
  split at hr
  · cases hr
  · unfold resetTxn at hr
    dsimp only at hr
    have herr := congrArg Returned.err (Reply.returned.inj (congrArg Prod.snd hr))
    rw [hx] at herr
    obtain ⟨a, r, hp, ha, hfin, htxnid⟩ := mdbxTxnReset_rests ((operrno_eq_none _).mp herr)
    obtain rfl := congrArg Prod.fst hr
    refine ⟨a, r, ?_, ha, hfin, htxnid, ?_, ?_⟩
    all_goals
      dsimp only
      rw [World.call, setTxn_self]
    · exact hp
    · exact .inl rfl

theorem Backed.idOf (hb : Backed Rests w h) : w.idOf h = invalidTxnid := by
  obtain ⟨a, r, hp, ha, rests⟩ := hb
  have hget : w.getID h = invalidTxnid := by
    simp [getID, hp, mdbxTxnId, ha, rests.txnid]
  unfold World.idOf
  rw [rests.unparked, hget]
  rcases rests.id with hid | hid
  · simp [hid]
  · simp [hid]

theorem Backed.read (hb : Backed Rests w h) : Backed Rests (w.id h) h := by
  have hid := hb.idOf
  obtain ⟨a, r, hp, ha, rests⟩ := hb
  unfold World.id
  split
  · have hget : w.getID h = invalidTxnid := by
      simp [getID, hp, mdbxTxnId, ha, rests.txnid]
    refine ⟨a, r, ?_, ha, rests.finished, rests.txnid, ?_, ?_⟩
    all_goals rw [setTxn_self]
    · exact hp
    · exact rests.unparked
    · exact .inr hget
  · exact ⟨a, r, hp, ha, rests⟩

/-! ### The places of `handleIdle` -/

/-- What is known of a transaction in hand at the places between the bag and a reset, and which
places are not reached, since no transaction in the bag is found to be stale. -/
def At.rests (w : World) : At → Prop
  | .put txn | .putFresh txn | .id .handleIdle txn => Backed Rests w txn
  | .getLastID .handleIdle txn txnid => Backed Rests w txn ∧ txnid = invalidTxnid
  | .handleReadonly .handleIdle _ | .renewStale .handleIdle _ | .abortStale .handleIdle _
  | .getIdle (some _) | .putBack _ _ => False
  | _ => True

theorem start_rests (a : Entry) : a.start.at_.rests w := by
  cases a with
  | beginTxn flags =>
    simp only [Entry.start]
    split <;> trivial
  | _ => trivial

theorem unwind_rests (a : At) : a.unwind.rests w := by
  unfold At.unwind
  split <;> trivial

theorem inside_rests (a : At) : (a.inside txn).rests w := by
  unfold At.inside
  split <;> trivial

theorem ended_rests {res : FnResult} (ha : a.ended res = some a') : a'.rests w := by
  unfold At.ended at ha
  split at ha
  · cases ha; trivial
  · cases ha
    split <;> trivial
  · cases ha

/-- A method that has returned leaves a reader that is reset where the pool takes it to be. -/
theorem next_rests {call : Call} {x : Returned} (hcall : a.method = some call)
    (hexec : s.world.exec o i thread call = some (w', .returned x)) (h : a.rests s.world) :
    (a.next (s.idAt a) x).rests w' := by
  cases a with
  | renew k txn =>
    unfold At.next
    dsimp only
    split
    · cases k <;> trivial
    · trivial
  | create k =>
    unfold At.next
    dsimp only
    cases x.txn with
    | none => trivial
    | some txn => cases k <;> trivial
  | reset txn =>
    cases hcall
    unfold At.next
    dsimp only
    split
    · rename_i herr
      exact reset_rests hexec (by simpa using herr)
    · trivial
  | id k txn =>
    cases k with
    | handleOutstanding => trivial
    | handleIdle =>
      cases hcall
      cases hexec
      exact ⟨Backed.read h, Backed.idOf h⟩
  | renewStale k txn =>
    cases k with
    | handleOutstanding =>
      unfold At.next
      dsimp only
      split <;> trivial
    | handleIdle => exact h.elim
  | abortStale k txn => cases k <;> trivial
  | terminate txn res saved =>
    unfold At.next
    dsimp only
    split <;> trivial
  | _ => trivial

/-- The pool's own steps: they put only readers that are reset into the bag. -/
theorem atomic_rests (ha : a.atomic cfg s = some (s', a', new)) (h : a.rests s.world) :
    a'.rests s.world ∧ ∀ k ∈ s'.pool, k ∈ s.pool ∨ Backed Rests s.world k := by
  have hsame : ∀ k ∈ s.pool, k ∈ s.pool ∨ Backed Rests s.world k := fun k hk => .inl hk
  have hput : ∀ txn, Backed Rests s.world txn → ∀ k ∈ txn :: s.pool,
      k ∈ s.pool ∨ Backed Rests s.world k := by
    intro txn hb k hk
    rcases List.mem_cons.mp hk with rfl | hk
    · exact .inr hb
    · exact .inl hk
  unfold At.atomic at ha
  split at ha
  · cases ha; exact ⟨trivial, hsame⟩
  · cases ha
    refine ⟨?_, hsame⟩
    split
    · trivial
    · split <;> trivial
  · cases ha; exact ⟨trivial, hput _ h⟩
  · rename_i k txn txnid
    cases ha
    refine ⟨?_, hsame⟩
    cases k with
    | handleOutstanding => split <;> trivial
    | handleIdle =>
      obtain ⟨hb, rfl⟩ := h
      have hfresh : ¬ invalidTxnid < s.lastid := by
        have hmax : invalidTxnid.toNat = 18446744073709551615 := by decide
        have hlt := s.lastid.toNat_lt
        rw [UInt64.lt_iff_toNat_lt, hmax]
        omega
      rw [if_neg hfresh]
      exact hb
  · rename_i k txn
    cases ha
    refine ⟨?_, hsame⟩
    cases k with
    | handleOutstanding =>
      split
      · trivial
      · split <;> trivial
    | handleIdle => exact h.elim
  · split at ha <;> cases ha <;> exact ⟨trivial, hsame⟩
  · exact h.elim
  · cases ha; exact ⟨trivial, hput _ h⟩
  · cases ha; exact ⟨trivial, hsame⟩
  · obtain ⟨r, _, heq⟩ := Option.map_eq_some_iff.mp ha
    cases heq
    exact ⟨trivial, hsame⟩
  · cases ha

theorem got_rests {got : Option Handle} (ha : a.got got = some a') (h : a.rests w)
    (hpool : ∀ k ∈ got, Backed Rests w k) : a'.rests w := by
  unfold At.got at ha
  split at ha
  · cases ha
    cases got <;> trivial
  · exact h.elim
  · cases ha
    cases got with
    | none => trivial
    | some k => exact hpool k rfl
  · cases ha
    cases got <;> trivial
  · cases ha

/-- A goroutine's own step. What is in the bag after it was there before, or is reset. -/
theorem Moved.rests (hm : Moved cfg i s t s' t' new c) (h : t.at_.rests s.world)
    (hpool : ∀ k ∈ s.pool, Backed Rests s.world k) :
    t'.at_.rests s'.world ∧
      ∀ k ∈ s'.pool, k ∈ s.pool ∨ s'.world = s.world ∧ Backed Rests s.world k := by
  cases hm with
  | @method thread o call r hcall hr hs ht _ =>
    subst hs ht
    refine ⟨?_, fun k hk => .inl hk⟩
    have hexec := step_exec hr
    obtain ⟨w', reply⟩ := r
    cases reply with
    | panicked p => exact unwind_rests t.at_
    | running k => exact inside_rests t.at_
    | returned x => exact next_rests hcall hexec h
  | atomic _ _ ha _ =>
    obtain ⟨hat, hpool'⟩ := atomic_rests ha h
    have hworld := (atomic_world ha).1
    rw [hworld]
    exact ⟨hat, fun k hk => (hpool' k hk).imp_right fun hb => ⟨rfl, hb⟩⟩
  | @got txn hall ha hs _ _ =>
    subst hs
    refine ⟨got_rests ha h fun k hk => hpool k (hall k hk), fun k hk => .inl ?_⟩
    cases txn with
    | none => exact hk
    | some g => exact List.mem_of_mem_erase hk
  | event hfree _ _ _ hs ht _ =>
    subst hs ht
    refine ⟨?_, fun k hk => .inl hk⟩
    obtain ⟨at_, out⟩ := t'
    cases at_ with
    | app | held | viewing | updating => trivial
    | _ => cases hfree
  | ended _ ha hs _ _ =>
    subst hs
    exact ⟨ended_rests ha, fun k hk => .inl hk⟩

/-! ### All runs -/

variable {q q' : Threads TxnPool Goroutine} {e : Threads.Event Entry Choice}

/-- The readers in the bag, and those about to be put there, are reset. -/
structure Resting (q : Threads TxnPool Goroutine) : Prop where
  pool : ∀ h ∈ q.shared.pool, Backed Rests q.shared.world h
  hands : ∀ (j : Nat) (t : Goroutine), q.threads[j]? = some t → t.at_.rests q.shared.world

theorem rests_carry (hat : a.rests w) (hb : ∀ k ∈ a.keeps, Backed Rests w k → Backed Rests w' k) :
    a.rests w' := by
  cases a with
  | put txn => exact hb txn List.mem_cons_self hat
  | putFresh txn => exact hb txn List.mem_cons_self hat
  | id k txn =>
    cases k with
    | handleOutstanding => trivial
    | handleIdle => exact hb txn List.mem_cons_self hat
  | getLastID k txn txnid =>
    cases k with
    | handleOutstanding => trivial
    | handleIdle => exact ⟨hb txn List.mem_cons_self hat.1, hat.2⟩
  | handleReadonly k txn | renewStale k txn | abortStale k txn =>
    cases k with
    | handleOutstanding => trivial
    | handleIdle => exact hat.elim
  | getIdle back =>
    cases back with
    | none => trivial
    | some k => exact hat.elim
  | putBack back got => exact hat.elim
  | _ => trivial

theorem next_resting (ord : Orderly q) (resting : Resting q)
    (hs : (program cfg).next q e = some q') (hok : respects q e = true) : Resting q' := by
  have hcarry : ∀ h ∈ keeps q,
      (∀ i c t, e = .run i c → q.threads[i]? = some t → h ∉ t.at_.has) →
      Backed Rests q.shared.world h → Backed Rests q'.shared.world h := by
    intro h hh hfree hb
    exact ord.backed hs hok hh hfree rests_oust hb
  cases e with
  | enter a =>
    have hs' := Program.next_enter hs
    subst hs'
    refine ⟨resting.pool, fun j t ht => ?_⟩
    rcases Program.thread_entered ht with hq | ⟨_, rfl⟩
    · exact resting.hands j t hq
    · exact start_rests a
  | run i c =>
    obtain ⟨u, u', new, hi, hstep, hthreads⟩ := Program.next_run hs
    have hm := step_moved hstep
    obtain ⟨hat, hpool⟩ := hm.rests (resting.hands i u hi) resting.pool
    refine ⟨fun h hh => ?_, fun j t ht => ?_⟩
    · rcases hpool h hh with hold | ⟨hworld, hb⟩
      · refine hcarry h (keeps_of_pool hold) ?_ (resting.pool h hold)
        rintro i' c' t he ht hhas
        cases he
        exact ord.not_pooled ht hhas hold
      · rw [hworld]
        exact hb
    · rw [hthreads] at ht
      rcases Program.thread_after ht with ⟨rfl, rfl⟩ | ⟨hij, hq⟩ | ⟨k, _, hk⟩
      · exact hat
      · refine rests_carry (resting.hands j t hq) fun k hk hb => ?_
        refine hcarry k (keeps_of_hand hq hk) ?_ hb
        rintro i' c' t' he ht'
        cases he
        exact ord.alone hq ht' hij (At.has_of_keeps hk)
      · rw [hm.started t (List.mem_of_getElem? hk)]
        trivial

theorem resting_invariant : (program cfg).system.Invariant (fun q e => respects q e = true)
    fun q => Orderly q ∧ Resting q := by
  refine (orderly_invariant _).strengthen (fun q hq => ?_) fun q e q' ord _ resting hok hs => ?_
  · obtain ⟨⟨_, hpool, _⟩, hthreads⟩ := hq
    exact ⟨by simp [hpool], by simp [hthreads]⟩
  · exact next_resting ord resting hs hok

/-- Every transaction in the bag of a pool is a reader that is reset: it holds no snapshot, and its
id is the invalid one. -/
theorem pool_reset (run : (program cfg).system.Reaches (fun q e => respects q e = true) q) :
    ∀ h ∈ q.shared.pool, ∃ a r, (q.shared.world.txns h).ptr = some (.reader a) ∧
      q.shared.world.lib.readers a = some r ∧ r.finished = true ∧ r.txnid = invalidTxnid ∧
      q.shared.world.lib.snapshot (q.shared.world.txns h).ptr = none := by
  intro h hh
  obtain ⟨a, r, hp, ha, rests⟩ := (run.invariant resting_invariant).2.pool h hh
  exact ⟨a, r, hp, ha, rests.finished, rests.txnid,
    by simp [hp, MdbxEnv.snapshot, ha, rests.finished]⟩

theorem pool_reset_pooled : ∃ q : Threads TxnPool Goroutine, 0 ∈ q.shared.pool ∧
    ∃ a r, (q.shared.world.txns 0).ptr = some (.reader a) ∧
      q.shared.world.lib.readers a = some r ∧ r.finished = true ∧ r.txnid = invalidTxnid ∧
      q.shared.world.lib.snapshot (q.shared.world.txns 0).ptr = none := by
  obtain ⟨q, run, hq⟩ := System.exists_of_replay (program {}).system
    (fun q e => respects q e = true) pooling fresh
    (fun q : Threads TxnPool Goroutine => decide (0 ∈ q.shared.pool)) (fresh_init _)
    (by decide +kernel)
  exact ⟨q, of_decide_eq_true hq, pool_reset run 0 (of_decide_eq_true hq)⟩

end TxnPool

end MdbxGo
