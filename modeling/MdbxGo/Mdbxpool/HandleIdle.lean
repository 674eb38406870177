import MdbxGo.Mdbxpool.Custody

/-! `handleIdle`: that its loop ends, whatever `Get` returns and whichever renewals fail, and that
only one goroutine at a time is in it. -/

namespace MdbxGo

namespace TxnPool

open Threads Transition MdbxEnv World

/-- The places of `handleIdle` between its swap of the guard and the reset of it. -/
def At.body : At → Bool
  | .getIdle _ | .putBack _ _ | .putFresh _ | .leaveIdle | .id .handleIdle _
  | .getLastID .handleIdle _ _ | .handleReadonly .handleIdle _ | .renewStale .handleIdle _
  | .abortStale .handleIdle _ => true
  | _ => false

/-! ### What a step of `handleIdle` does -/

/-- What a step in the body of `handleIdle` does to the pool, and where it leads. -/
inductive Scans (i : Nat) (s : TxnPool) : At → TxnPool → At → Prop
  | got {back got : Option Handle} {a' : At} : (∀ h ∈ got, h ∈ s.pool) →
      (At.getIdle back).got got = some a' →
      Scans i s (.getIdle back) { s with pool := got.elim s.pool s.pool.erase } a'
  | putBack {back : Handle} {got : Option Handle} :
      Scans i s (.putBack back got) { s with pool := back :: s.pool }
        (got.elim .leaveIdle (.id .handleIdle))
  | id {txn : Handle} : Scans i s (.id .handleIdle txn) { s with world := s.world.id txn }
      (.getLastID .handleIdle txn (s.world.idOf txn))
  | stale {txn : Handle} {txnid : UInt64} : txnid < s.lastid →
      Scans i s (.getLastID .handleIdle txn txnid) s (.handleReadonly .handleIdle txn)
  | fresh {txn : Handle} {txnid : UInt64} : ¬txnid < s.lastid →
      Scans i s (.getLastID .handleIdle txn txnid) s (.putFresh txn)
  | drops {txn : Handle} : Scans i s (.handleReadonly .handleIdle txn) s (.getIdle none)
  | renews {txn : Handle} :
      Scans i s (.handleReadonly .handleIdle txn) s (.renewStale .handleIdle txn)
  | aborts {txn : Handle} :
      Scans i s (.handleReadonly .handleIdle txn) s (.abortStale .handleIdle txn)
  | renewed {txn : Handle} {thread : Thread} {o : Sys} {w' : World} {x : Returned} :
      s.world.exec o i thread (.renew txn) = some (w', .returned x) → x.err = none →
      Scans i s (.renewStale .handleIdle txn) { s with world := w' } (.getIdle (some txn))
  | failed {txn : Handle} {a' : At} {thread : Thread} {o : Sys} {r : World × Reply} :
      s.world.exec o i thread (.renew txn) = some r →
      a' = .abortStale .handleIdle txn ∨ a' = .leaveIdle →
      Scans i s (.renewStale .handleIdle txn) { s with world := r.1 } a'
  | aborted {txn : Handle} {a' : At} {thread : Thread} {o : Sys} {r : World × Reply} :
      s.world.exec o i thread (.abort txn) = some r → a' = .getIdle none ∨ a' = .leaveIdle →
      Scans i s (.abortStale .handleIdle txn) { s with world := r.1 } a'
  | putFresh {txn : Handle} :
      Scans i s (.putFresh txn) { s with pool := txn :: s.pool } .leaveIdle
  | leave : Scans i s .leaveIdle { s with idleGuard := 0 } .returned

variable {cfg : Config} {s s' : TxnPool} {i j n : Nat} {t t' u : Goroutine} {c : Choice}
  {new : List Goroutine} {w w' : World} {txn h : Handle} {a a' : At} {o : Sys} {thread : Thread}

theorem renew_not_running {r : World × Reply} (hr : w.exec o i thread (.renew txn) = some r) :
    ∀ k, r.2 ≠ .running k := by
  have hr : w.renew o thread txn = r := Option.some.inj hr
  unfold World.renew unmanaged at hr
  split at hr <;> subst hr <;> exact fun k hk => by cases hk

theorem abort_not_running {r : World × Reply} (hr : w.exec o i thread (.abort txn) = some r) :
    ∀ k, r.2 ≠ .running k := by
  have hr : w.abort o thread txn = r := Option.some.inj hr
  unfold World.abort unmanaged abortTxn at hr
  split at hr
  · subst hr
    exact fun k hk => by cases hk
  · split at hr
    · subst hr
      exact fun k hk => by cases hk
    · split at hr <;> subst hr <;> exact fun k hk => by cases hk

theorem method_scans {call : Call} {r : World × Reply} {out : Result} (hbody : a.body = true)
    (hcall : a.method = some call) (hr : s.world.step (.go i thread o call) = some r) :
    Scans i s a { s with world := r.1, begun := s.begun ++ a.begins r }
      (Goroutine.resume (s.idAt a) ⟨a, out⟩ r.2).at_ := by
  have hexec := step_exec hr
  cases a with
  | id k txn =>
    cases k with
    | handleOutstanding => cases hbody
    | handleIdle =>
      cases hcall
      cases hexec
      rw [show At.begins _ (.id .handleIdle txn) = [] from rfl, List.append_nil]
      exact .id
  | renewStale k txn =>
    cases k with
    | handleOutstanding => cases hbody
    | handleIdle =>
      cases hcall
      rw [show At.begins _ (.renewStale .handleIdle txn) = [] from rfl, List.append_nil]
      have hrunning := renew_not_running hexec
      obtain ⟨w', reply⟩ := r
      cases reply with
      | panicked p => exact .failed hexec (.inr rfl)
      | running k => exact absurd rfl (hrunning k)
      | returned x =>
        change Scans i s _ _ (At.next 0 x (.renewStale .handleIdle txn))
        unfold At.next
        dsimp only
        split
        · rename_i herr
          exact .renewed hexec (by simpa using herr)
        · exact .failed hexec (.inl rfl)
  | abortStale k txn =>
    cases k with
    | handleOutstanding => cases hbody
    | handleIdle =>
      cases hcall
      rw [show At.begins _ (.abortStale .handleIdle txn) = [] from rfl, List.append_nil]
      have hrunning := abort_not_running hexec
      obtain ⟨w', reply⟩ := r
      cases reply with
      | panicked p => exact .aborted hexec (.inr rfl)
      | running k => exact absurd rfl (hrunning k)
      | returned x => exact .aborted hexec (.inl rfl)
  | getIdle | putBack | putFresh | leaveIdle | getLastID | handleReadonly => cases hcall
  | _ => cases hbody

theorem atomic_scans (hbody : a.body = true) (ha : a.atomic cfg s = some (s', a', new)) :
    Scans i s a s' a' ∧ new = [] := by
  cases a with
  | getLastID k txn txnid =>
    cases k with
    | handleOutstanding => cases hbody
    | handleIdle =>
      cases ha
      refine ⟨?_, rfl⟩
      split
      · rename_i hlt
        exact .stale hlt
      · rename_i hlt
        exact .fresh hlt
  | handleReadonly k txn =>
    cases k with
    | handleOutstanding => cases hbody
    | handleIdle =>
      cases ha
      refine ⟨?_, rfl⟩
      split
      · exact .drops
      · split
        · exact .renews
        · exact .aborts
  | putBack back got =>
    cases ha
    exact ⟨.putBack, rfl⟩
  | putFresh txn =>
    cases ha
    exact ⟨.putFresh, rfl⟩
  | leaveIdle =>
    cases ha
    exact ⟨.leave, rfl⟩
  | getIdle | id | renewStale | abortStale => cases ha
  | _ => cases hbody

/-- In `handleIdle` the caller has no say. -/
theorem body_alone (hbody : a.body = true) :
    a.free = false ∧ ∀ res, a.ended res = none := by
  cases a with
  | app | held | viewing | updating => cases hbody
  | _ => exact ⟨rfl, fun _ => rfl⟩

theorem Moved.scans (hm : Moved cfg i s t s' t' new c) (hbody : t.at_.body = true) :
    Scans i s t.at_ s' t'.at_ ∧ new = [] := by
  cases hm with
  | method hcall hr hs ht hnew =>
    subst hs ht hnew
    exact ⟨method_scans hbody hcall hr, rfl⟩
  | atomic _ _ ha _ => exact atomic_scans hbody ha
  | got hall ha hs _ hnew =>
    subst hs hnew
    refine ⟨?_, rfl⟩
    cases hat : t.at_ with
    | getIdle back =>
      rw [hat] at ha
      exact .got hall ha
    | get | close => rw [hat] at hbody; cases hbody
    | _ => rw [hat] at ha; cases ha
  | event hfree _ _ _ _ _ _ =>
    rw [(body_alone hbody).1] at hfree
    cases hfree
  | ended _ ha _ _ _ =>
    rw [(body_alone hbody).2 _] at ha
    cases ha

/-! ### The guard -/

theorem Scans.guard (hs : Scans i s a s' a') :
    s'.idleGuard = s.idleGuard ∧ a'.body = true ∨
      a = .leaveIdle ∧ s'.idleGuard = 0 ∧ a' = .returned := by
  cases hs with
  | @got back got _ _ ha =>
    left
    refine ⟨rfl, ?_⟩
    cases back with
    | none => cases ha; cases got <;> rfl
    | some back => cases ha; rfl
  | @putBack back got => exact .inl ⟨rfl, by cases got <;> rfl⟩
  | failed _ ha => exact .inl ⟨rfl, by rcases ha with rfl | rfl <;> rfl⟩
  | aborted _ ha => exact .inl ⟨rfl, by rcases ha with rfl | rfl <;> rfl⟩
  | leave => exact .inr ⟨rfl, rfl, rfl⟩
  | _ => exact .inl ⟨rfl, rfl⟩

/-- Outside of the body a method leads into none. -/
theorem next_body (hbody : a.body = false) (txnid : UInt64) (x : Returned) :
    (a.next txnid x).body = false := by
  cases a with
  | renew k txn =>
    unfold At.next
    dsimp only
    split
    · cases k <;> rfl
    · rfl
  | create k =>
    unfold At.next
    cases x.txn with
    | none => rfl
    | some txn => cases k <;> rfl
  | reset txn | terminate txn _ _ =>
    unfold At.next
    dsimp only
    split <;> rfl
  | id k txn =>
    cases k with
    | handleOutstanding => rfl
    | handleIdle => cases hbody
  | renewStale k txn =>
    cases k with
    | handleOutstanding =>
      unfold At.next
      dsimp only
      split <;> rfl
    | handleIdle => cases hbody
  | abortStale k txn =>
    cases k with
    | handleOutstanding => rfl
    | handleIdle => cases hbody
  | _ => rfl

theorem unwind_body (hbody : a.body = false) : a.unwind.body = false := by
  unfold At.unwind
  split <;> first | rfl | cases hbody

theorem resume_body (hbody : t.at_.body = false) (txnid : UInt64) (r : Reply) :
    (t.resume txnid r).at_.body = false := by
  cases r with
  | panicked p => exact unwind_body hbody
  | running k =>
    change (t.at_.inside k).body = false
    unfold At.inside
    split <;> rfl
  | returned x => exact next_body hbody txnid x

/-- Outside of the body only the swap of the guard leads into it. -/
theorem atomic_body (hbody : a.body = false) (ha : a.atomic cfg s = some (s', a', new)) :
    s'.idleGuard = s.idleGuard ∧ a'.body = false ∨
      a = .enterIdle ∧ s.idleGuard = 0 ∧ s'.idleGuard = 1 ∧ a'.body = true := by
  cases a with
  | held txn => cases ha; exact .inl ⟨rfl, rfl⟩
  | put txn => cases ha; exact .inl ⟨rfl, rfl⟩
  | abortReadonly txn =>
    cases ha
    left
    refine ⟨rfl, ?_⟩
    split
    · rfl
    · split <;> rfl
  | getLastID k txn txnid =>
    cases k with
    | handleOutstanding =>
      cases ha
      left
      refine ⟨rfl, ?_⟩
      split <;> rfl
    | handleIdle => cases hbody
  | handleReadonly k txn =>
    cases k with
    | handleOutstanding =>
      cases ha
      left
      refine ⟨rfl, ?_⟩
      split
      · rfl
      · split <;> rfl
    | handleIdle => cases hbody
  | enterIdle =>
    simp only [At.atomic] at ha
    split at ha
    · rename_i hguard
      cases ha
      exact .inr ⟨rfl, hguard, rfl, rfl⟩
    · cases ha
      exact .inl ⟨rfl, rfl⟩
  | commitID saved at_ =>
    obtain ⟨r, _, heq⟩ := Option.map_eq_some_iff.mp ha
    cases heq
    exact .inl ⟨rfl, rfl⟩
  | putBack | putFresh | leaveIdle => cases hbody
  | _ => cases ha

/-- What a step does to the guard, and whether it leads into the body or out of it. -/
theorem Moved.guard (hm : Moved cfg i s t s' t' new c) :
    s'.idleGuard = s.idleGuard ∧ t'.at_.body = t.at_.body ∨
      t.at_ = .enterIdle ∧ s.idleGuard = 0 ∧ s'.idleGuard = 1 ∧ t'.at_.body = true ∨
      t.at_ = .leaveIdle ∧ s'.idleGuard = 0 ∧ t'.at_.body = false := by
  cases hbody : t.at_.body with
  | true =>
    rcases (hm.scans hbody).1.guard with hsame | ⟨hleave, hguard, hreturned⟩
    · exact .inl hsame
    · exact .inr (.inr ⟨hleave, hguard, by rw [hreturned]; rfl⟩)
  | false =>
    cases hm with
    | method hcall hr hs ht _ =>
      subst hs ht
      exact .inl ⟨rfl, resume_body hbody _ _⟩
    | atomic _ _ ha _ =>
      rcases atomic_body hbody ha with hsame | hswap
      · exact .inl hsame
      · exact .inr (.inl hswap)
    | @got got _ ha hs _ _ =>
      subst hs
      left
      refine ⟨rfl, ?_⟩
      cases hat : t.at_ with
      | get k | close =>
        rw [hat] at ha
        rw [← Option.some.inj ha]
        cases got <;> rfl
      | getIdle => rw [hat] at hbody; cases hbody
      | _ => rw [hat] at ha; cases ha
    | event _ _ _ _ hs ht _ =>
      subst hs ht
      exact .inl ⟨rfl, hbody⟩
    | ended _ ha hs _ _ =>
      subst hs
      left
      refine ⟨rfl, ?_⟩
      unfold At.ended at ha
      split at ha
      · rw [← Option.some.inj ha]; rfl
      · rw [← Option.some.inj ha]
        split <;> rfl
      · cases ha

/-- How many goroutines are in the body of `handleIdle`. -/
def bodies (q : Threads TxnPool Goroutine) : Nat := q.threads.countP (·.at_.body)

theorem start_body (a : Entry) : a.start.at_.body = false := by
  cases a with
  | beginTxn flags =>
    simp only [Entry.start]
    split <;> rfl
  | _ => rfl

/-- The goroutine that makes a step comes into the body or leaves it. -/
theorem bodies_run {q q' : Threads TxnPool Goroutine} (hi : q.threads[i]? = some t)
    (hthreads : q'.threads = q.threads.set i t' ++ new)
    (hnew : ∀ u ∈ new, u = { at_ := .enterIdle }) :
    bodies q' + (if t.at_.body then 1 else 0) = bodies q + if t'.at_.body then 1 else 0 := by
  obtain ⟨hlt, hget⟩ := List.getElem?_eq_some_iff.mp hi
  have hstarted : new.countP (·.at_.body) = 0 := by
    rw [List.countP_eq_zero]
    intro u hu
    rw [hnew u hu]
    exact Bool.false_ne_true
  have hpos : (if t.at_.body then 1 else 0) ≤ q.threads.countP (·.at_.body) := by
    split
    · rename_i hbody
      exact List.countP_pos_iff.mpr ⟨t, List.mem_of_getElem? hi, hbody⟩
    · exact Nat.zero_le _
  unfold bodies
  rw [hthreads, List.countP_append, hstarted, List.countP_set hlt, hget]
  omega

/-- At most one goroutine is in the body, and it holds the guard. -/
theorem guarded_invariant (ok : Threads TxnPool Goroutine → Threads.Event Entry Choice → Prop) :
    (program cfg).system.Invariant ok fun q =>
      q.shared.idleGuard = 0 ∧ bodies q = 0 ∨ q.shared.idleGuard = 1 ∧ bodies q = 1 where
  init q h := by
    obtain ⟨⟨_, _, _, hguard, _⟩, hthreads⟩ := h
    exact .inl ⟨hguard, by rw [bodies, hthreads]; rfl⟩
  step q e q' h _ hs := by
    cases e with
    | enter a =>
      rw [Program.next_enter hs]
      have hsame :
          bodies { q with threads := q.threads ++ [(program cfg).start a] } = bodies q := by
        rw [bodies, List.countP_append, List.countP_singleton,
          show ((program cfg).start a).at_.body = false from start_body a]
        rfl
      rw [hsame]
      exact h
    | run i c =>
      obtain ⟨t, t', new, hi, hstep, hthreads⟩ := Program.next_run hs
      have hm := step_moved hstep
      have hcount := bodies_run hi hthreads hm.started
      rcases hm.guard with ⟨hguard, hbody⟩ | ⟨hat, hfree, hguard, hbody⟩ | ⟨hat, hguard, hbody⟩
      · rw [hguard]
        rw [hbody] at hcount
        have hbodies : bodies q' = bodies q := by omega
        rwa [hbodies]
      · rw [hat, hbody] at hcount
        simp only [At.body, Bool.false_eq_true, if_false, if_true] at hcount
        rcases h with ⟨_, hnone⟩ | ⟨htaken, _⟩
        · exact .inr ⟨hguard, by omega⟩
        · rw [hfree] at htaken
          exact absurd htaken (by decide)
      · rw [hat, hbody] at hcount
        simp only [At.body, Bool.false_eq_true, if_false, if_true] at hcount
        rcases h with ⟨_, hnone⟩ | ⟨_, hone⟩
        · omega
        · exact .inl ⟨hguard, by omega⟩

/-! ### The end of the loop -/

theorem idOf_congr {k : Handle} (htxn : w'.txns k = w.txns k)
    (hget : w'.lib.mdbxTxnId (w.txns k).ptr = w.lib.mdbxTxnId (w.txns k).ptr) :
    w'.idOf k = w.idOf k := by
  unfold World.idOf getID
  rw [htxn, hget]

/-- `ID` does not change what it reports of any transaction. -/
theorem id_idOf (w : World) (txn k : Handle) : (w.id txn).idOf k = w.idOf k := by
  unfold World.id
  split
  · rename_i hread
    obtain ⟨hparked, hzero⟩ : (w.txns txn).parked = false ∧ (w.txns txn).id = 0 := by
      simpa using hread
    by_cases hk : k = txn
    · subst hk
      have hget : (w.setTxn k { w.txns k with id := w.getID k }).getID k = w.getID k := by
        simp only [getID, setTxn_self]
        rfl
      unfold World.idOf
      rw [setTxn_self, hget]
      by_cases hid : w.getID k = 0
      · simp [hparked, hzero, hid]
      · simp [hparked, hzero, hid]
    · exact idOf_congr (Function.update_of_ne hk _ _) rfl
  · rfl

theorem mdbxTxnRenew_id (env : MdbxEnv) (p q : Option Ptr) :
    (env.mdbxTxnRenew o thread p).1.mdbxTxnId q = env.mdbxTxnId q ∨ q = p := by
  cases p with
  | none => exact .inl rfl
  | some p =>
    cases p with
    | basal | nested => exact .inl rfl
    | reader a =>
      by_cases hq : q = some (.reader a)
      · exact .inr hq
      · left
        simp only [mdbxTxnRenew, onReader]
        split
        · rfl
        · cases q with
          | none => rfl
          | some q =>
            cases q with
            | basal | nested => rfl
            | reader b =>
              have hne : b ≠ a := fun hab => hq (by rw [hab])
              simp only [mdbxTxnId, setReader_other hne]

/-- A renewal changes the ids of those transactions only that then have the same one. -/
theorem renew_idOf {x : Returned} (hr : w.exec o i thread (.renew txn) = some (w', .returned x))
    (k : Handle) : w'.idOf k = w.idOf k ∨ w'.idOf k = w'.idOf txn := by
  have hr : w.renew o thread txn = (w', .returned x) := Option.some.inj hr
  unfold World.renew unmanaged at hr
  split at hr
  · cases hr
  · obtain rfl : _ = w' := congrArg Prod.fst hr
    have hself : ((w.renewTxn o thread txn).1.txns txn) =
        { (w.txns txn).resetID with parked := false } := Function.update_self _ _ _
    by_cases hk : k = txn
    · exact .inr (by rw [hk])
    · have hother : (w.renewTxn o thread txn).1.txns k = w.txns k := Function.update_of_ne hk _ _
      have hlib : (w.renewTxn o thread txn).1.lib =
          (w.lib.mdbxTxnRenew o thread (w.txns txn).ptr).1 := rfl
      rcases mdbxTxnRenew_id w.lib (w.txns txn).ptr (w.txns k).ptr with hsame | halias
      · exact .inl (idOf_congr hother (by rw [hlib]; exact hsame))
      · have htxn : (w.renewTxn o thread txn).1.idOf txn =
            (w.lib.mdbxTxnRenew o thread (w.txns txn).ptr).1.mdbxTxnId (w.txns txn).ptr := by
          unfold World.idOf getID
          rw [hself, hlib]
          rfl
        rw [htxn]
        unfold World.idOf getID
        rw [hother, hlib, halias]
        split
        · exact .inr rfl
        · split
          · exact .inr rfl
          · exact .inl rfl

/-- The transactions in the bag and in hand. -/
def bag (s : TxnPool) (a : At) : List Handle := s.pool ++ a.has

/-- How many of them the pool takes to be older than the last update. -/
def staleIn (s : TxnPool) (l : List Handle) : Nat :=
  l.countP fun h => decide (s.world.idOf h < s.lastid)

/-- A transaction that could not be renewed is half gone. -/
def At.doomed : At → Nat
  | .abortStale _ _ => 1
  | _ => 0

/-- Each transaction that is left counts two. -/
def units (s : TxnPool) (a : At) : Nat := 2 * (bag s a).length - a.doomed

/-- How far it is to the end of an iteration. -/
def At.rank : At → Nat
  | .enterIdle => 8
  | .getIdle _ => 7
  | .putBack _ _ => 6
  | .id _ _ => 5
  | .getLastID _ _ _ => 4
  | .handleReadonly _ _ => 3
  | .renewStale _ _ | .putFresh _ => 2
  | .abortStale _ _ | .leaveIdle => 1
  | _ => 0

/-- The steps that are left at most: every iteration takes a transaction away or renews a stale one,
and what is left of them may at worst be stale again once one is taken away. -/
def stepsLeft (s : TxnPool) (a : At) : Nat :=
  9 * (units s a * units s a + staleIn s (bag s a)) + a.rank

theorem At.rank_le (a : At) : a.rank ≤ 8 := by
  unfold At.rank
  split <;> omega

theorem doomed_le (a : At) : a.doomed ≤ a.has.length := by
  unfold At.doomed
  split
  · exact Nat.le_refl 1
  · exact Nat.zero_le _

theorem staleIn_le (s : TxnPool) (a : At) : staleIn s (bag s a) ≤ units s a := by
  have hcount : staleIn s (bag s a) ≤ (bag s a).length := List.countP_le_length
  have hdoomed := doomed_le a
  have hlength : (bag s a).length = s.pool.length + a.has.length := List.length_append
  unfold units
  omega

/-- A transaction is moved between the bag and the hand. -/
theorem stepsLeft_move (hperm : (bag s' a').Perm (bag s a))
    (hid : ∀ k, s'.world.idOf k = s.world.idOf k) (hlast : s'.lastid = s.lastid)
    (hdoomed : a'.doomed = a.doomed) (hrank : a'.rank < a.rank) :
    stepsLeft s' a' < stepsLeft s a := by
  have hunits : units s' a' = units s a := by
    unfold units
    rw [hperm.length_eq, hdoomed]
  have hstale : staleIn s' (bag s' a') = staleIn s (bag s a) := by
    unfold staleIn
    rw [hperm.countP_eq, hlast]
    simp only [hid]
  unfold stepsLeft
  rw [hunits, hstale]
  omega

/-- A transaction is taken away, whatever becomes of the others. -/
theorem stepsLeft_drop (hunits : units s' a' < units s a) : stepsLeft s' a' < stepsLeft s a := by
  have hstale := staleIn_le s' a'
  have hrank := At.rank_le a'
  have hsquare : (units s' a' + 1) * (units s' a' + 1) ≤ units s a * units s a :=
    Nat.mul_self_le_mul_self hunits
  have hexpand : (units s' a' + 1) * (units s' a' + 1) =
      units s' a' * units s' a' + units s' a' + units s' a' + 1 := by
    rw [Nat.add_mul, Nat.mul_add, Nat.mul_one, Nat.one_mul]
    omega
  unfold stepsLeft
  omega

/-- A stale transaction is renewed. -/
theorem stepsLeft_renew (hunits : units s' a' = units s a)
    (hstale : staleIn s' (bag s' a') < staleIn s (bag s a)) (hrank : a'.rank ≤ 7) :
    stepsLeft s' a' < stepsLeft s a := by
  unfold stepsLeft
  rw [hunits]
  omega

/-- What `handleIdle` knows of the transaction in hand. -/
def Knows (s : TxnPool) : At → Prop
  | .getLastID .handleIdle txn txnid => txnid = s.world.idOf txn
  | .handleReadonly .handleIdle txn | .renewStale .handleIdle txn =>
    s.world.idOf txn < s.lastid
  | _ => True

theorem renewed_stale {x : Returned}
    (hr : s.world.exec o i thread (.renew txn) = some (w', .returned x))
    (hold : s.world.idOf txn < s.lastid) (hfresh : s.lastid ≤ w'.idOf txn) (l : List Handle) :
    staleIn { s with world := w' } (l ++ [txn]) < staleIn s (l ++ [txn]) := by
  have hmono : staleIn { s with world := w' } l ≤ staleIn s l := by
    unfold staleIn
    apply List.countP_mono_left
    intro k _ hk
    have hk : w'.idOf k < s.lastid := of_decide_eq_true hk
    rcases renew_idOf hr k with hsame | hfound
    · exact decide_eq_true (hsame ▸ hk)
    · rw [hfound] at hk
      exact absurd hk (UInt64.not_lt.mpr hfresh)
  have hnew : staleIn { s with world := w' } [txn] = 0 := by
    unfold staleIn
    rw [List.countP_singleton, if_neg (by simpa using hfresh)]
  have hone : staleIn s [txn] = 1 := by
    unfold staleIn
    rw [List.countP_singleton, if_pos (decide_eq_true hold)]
  have happ : ∀ q : TxnPool, staleIn q (l ++ [txn]) = staleIn q l + staleIn q [txn] := fun q =>
    List.countP_append
  rw [happ, happ, hnew, hone]
  omega

theorem got_perm {got : Option Handle} (hall : ∀ h ∈ got, h ∈ s.pool) (l : List Handle) :
    (got.elim s.pool s.pool.erase ++ (l ++ got.toList)).Perm (s.pool ++ l) := by
  cases got with
  | none => rw [Option.toList_none, List.append_nil]; exact .refl _
  | some k =>
    have hk := List.perm_cons_erase (hall k rfl)
    refine .trans ?_ (hk.symm.append_right l)
    rw [Option.elim_some, Option.toList_some, ← List.append_assoc]
    exact List.perm_append_singleton _ _

/-- Every step in the body comes nearer to the end. -/
theorem Scans.lower (hs : Scans i s a s' a') (hknows : Knows s a)
    (hfresh : ∀ txn, a = .renewStale .handleIdle txn → a' = .getIdle (some txn) →
      s.lastid ≤ s'.world.idOf txn) :
    stepsLeft s' a' < stepsLeft s a ∧ Knows s' a' ∧ s'.lastid = s.lastid := by
  cases hs with
  | @got back got _ hall ha =>
    have hperm := got_perm hall back.toList
    cases back with
    | none =>
      cases ha
      refine ⟨?_, by cases got <;> trivial, rfl⟩
      cases got with
      | none => exact stepsLeft_move (.refl _) (fun _ => rfl) rfl rfl (by decide)
      | some k => exact stepsLeft_move hperm (fun _ => rfl) rfl rfl (by show 5 < 7; decide)
    | some back =>
      cases ha
      refine ⟨?_, trivial, rfl⟩
      exact stepsLeft_move hperm (fun _ => rfl) rfl rfl (by show 6 < 7; decide)
  | @putBack back got =>
    refine ⟨?_, by cases got <;> trivial, rfl⟩
    have hrank : (got.elim .leaveIdle (.id .handleIdle) : At).rank < 6 := by
      cases got with
      | none => exact (by decide : 1 < 6)
      | some k => exact (by decide : 5 < 6)
    refine stepsLeft_move ?_ (fun _ => rfl) rfl (by cases got <;> rfl) hrank
    have hperm : (back :: (s.pool ++ got.toList)).Perm (s.pool ++ back :: got.toList) :=
      List.perm_middle.symm
    cases got <;> exact hperm
  | @id txn =>
    refine ⟨?_, (id_idOf s.world txn txn).symm, rfl⟩
    exact stepsLeft_move (.refl _) (id_idOf s.world txn) rfl rfl (by show 4 < 5; decide)
  | @stale txn txnid hlt =>
    have hid : txnid = s.world.idOf txn := hknows
    refine ⟨?_, (hid ▸ hlt : s.world.idOf txn < s.lastid), rfl⟩
    exact stepsLeft_move (.refl _) (fun _ => rfl) rfl rfl (by show 3 < 4; decide)
  | fresh _ =>
    refine ⟨?_, trivial, rfl⟩
    exact stepsLeft_move (.refl _) (fun _ => rfl) rfl rfl (by show 2 < 4; decide)
  | drops =>
    refine ⟨stepsLeft_drop ?_, trivial, rfl⟩
    simp [units, bag, At.has, At.doomed]
  | renews =>
    refine ⟨?_, hknows, rfl⟩
    exact stepsLeft_move (.refl _) (fun _ => rfl) rfl rfl (by show 2 < 3; decide)
  | aborts =>
    refine ⟨stepsLeft_drop ?_, trivial, rfl⟩
    simp only [units, bag, At.has, At.doomed, List.length_append, List.length_singleton]
    omega
  | renewed hr hx =>
    refine ⟨stepsLeft_renew rfl ?_ (by show 7 ≤ 7; decide), trivial, rfl⟩
    exact renewed_stale hr hknows (hfresh _ rfl rfl) s.pool
  | failed hr ha =>
    refine ⟨stepsLeft_drop ?_, by rcases ha with rfl | rfl <;> trivial, rfl⟩
    rcases ha with rfl | rfl
    · simp only [units, bag, At.has, At.doomed, List.length_append, List.length_singleton]
      omega
    · simp [units, bag, At.has, At.doomed]
  | aborted hr ha =>
    refine ⟨stepsLeft_drop ?_, by rcases ha with rfl | rfl <;> trivial, rfl⟩
    rcases ha with rfl | rfl
    all_goals
      simp only [units, bag, At.has, At.doomed, List.length_append, List.length_singleton,
        List.length_nil, Option.toList_none]
      omega
  | @putFresh txn =>
    refine ⟨?_, trivial, rfl⟩
    refine stepsLeft_move ?_ (fun _ => rfl) rfl rfl (by show 1 < 2; decide)
    exact List.perm_middle.symm
  | leave =>
    exact ⟨stepsLeft_move (.refl _) (fun _ => rfl) rfl rfl (by decide), trivial, rfl⟩

/-- What was in the bag or in hand is so after a step, or it was in hand and stale. -/
theorem Scans.bag (hs : Scans i s a s' a') : (s'.bag a').Perm (s.bag a) ∨
    s.bag a = s'.bag a' ++ a.has ∧ ∃ txn, a = .handleReadonly .handleIdle txn ∨
      a = .renewStale .handleIdle txn ∨ a = .abortStale .handleIdle txn := by
  cases hs with
  | @got back got _ hall ha =>
    have hperm := got_perm hall back.toList
    cases back with
    | none => cases ha; cases got <;> exact .inl hperm
    | some back => cases ha; exact .inl hperm
  | @putBack back got =>
    have hperm : (back :: (s.pool ++ got.toList)).Perm (s.pool ++ back :: got.toList) :=
      List.perm_middle.symm
    cases got <;> exact .inl hperm
  | putFresh => exact .inl List.perm_middle.symm
  | @drops txn => exact .inr ⟨by simp [TxnPool.bag, At.has], txn, .inl rfl⟩
  | @failed txn _ _ _ _ _ ha =>
    rcases ha with rfl | rfl
    · exact .inl (.refl _)
    · exact .inr ⟨by simp [TxnPool.bag, At.has], txn, .inr (.inl rfl)⟩
  | @aborted txn _ _ _ _ _ ha =>
    rcases ha with rfl | rfl <;>
      exact .inr ⟨by simp [TxnPool.bag, At.has], txn, .inr (.inr rfl)⟩
  | _ => exact .inl (.refl _)

theorem Scans.bag_subset (hs : Scans i s a s' a') : ∀ k ∈ s'.bag a', k ∈ s.bag a := by
  intro k hk
  rcases hs.bag with hperm | ⟨heq, _⟩
  · exact hperm.mem_iff.mp hk
  · rw [heq]
    exact List.mem_append_left _ hk

theorem renew_frames {r : World × Reply} (hr : w.exec o i thread (.renew txn) = some r) :
    r.1.frames = w.frames ∧ r.1.next = w.next := by
  have hr : w.renew o thread txn = r := Option.some.inj hr
  unfold World.renew unmanaged at hr
  split at hr <;> subst hr <;> exact ⟨rfl, rfl⟩

theorem abort_frames {r : World × Reply} (hr : w.exec o i thread (.abort txn) = some r) :
    r.1.frames = w.frames ∧ r.1.next = w.next := by
  have hr : w.abort o thread txn = r := Option.some.inj hr
  unfold World.abort unmanaged abortTxn at hr
  split at hr
  · subst hr
    exact ⟨rfl, rfl⟩
  · split at hr
    · subst hr
      exact ⟨rfl, rfl⟩
    · split at hr <;> subst hr <;> exact ⟨rfl, rfl⟩

theorem id_frames (w : World) (txn : Handle) :
    (w.id txn).frames = w.frames ∧ (w.id txn).next = w.next := by
  unfold World.id
  split <;> exact ⟨rfl, rfl⟩

theorem Scans.frames (hs : Scans i s a s' a') :
    s'.world.frames = s.world.frames ∧ s'.world.next = s.world.next := by
  cases hs with
  | @id txn => exact id_frames s.world txn
  | renewed hr _ => exact renew_frames hr
  | failed hr _ => exact renew_frames hr
  | aborted hr _ => exact abort_frames hr
  | _ => exact ⟨rfl, rfl⟩

/-- A goroutine that has the pool for itself. -/
def alone (cfg : Config) (i : Gor) : System (TxnPool × Goroutine) Choice where
  init x := x.2.at_ = .enterIdle
  step x c := (step cfg x.1 i x.2 c).map fun r => (r.1, r.2.1)

/-- A renewal of `handleIdle` that succeeds reports an id that is no older than the last update. -/
def RenewsFresh (cfg : Config) (i : Gor) (x : TxnPool × Goroutine) (c : Choice) : Prop :=
  ∀ txn s' t' new, step cfg x.1 i x.2 c = some (s', t', new) →
    x.2.at_ = .renewStale .handleIdle txn → t'.at_ = .getIdle (some txn) →
      x.1.lastid ≤ s'.world.idOf txn

/-- A goroutine in `handleIdle`, before it or behind it, with transactions that exist. -/
structure InScan (i : Gor) (x : TxnPool × Goroutine) : Prop where
  place : x.2.at_ = .enterIdle ∨ x.2.at_.body = true ∨ x.2.at_ = .returned
  knows : x.1.Knows x.2.at_
  waiting : x.1.world.waiting i = false
  known : ∀ k ∈ x.1.bag x.2.at_, x.1.world.known k = true

/-- The step of `handleIdle` before its body: it goes in or returns. -/
theorem Moved.enters (hm : Moved cfg i s t s' t' new c) (hat : t.at_ = .enterIdle) :
    s'.world = s.world ∧ s'.pool = s.pool ∧ s'.lastid = s.lastid ∧
      (t'.at_ = .getIdle none ∨ t'.at_ = .returned) := by
  obtain ⟨at', out'⟩ := t'
  cases hm with
  | method hcall _ _ _ _ => rw [hat] at hcall; cases hcall
  | atomic _ _ ha _ =>
    rw [hat] at ha
    simp only [At.atomic] at ha
    split at ha <;> cases ha
    · exact ⟨rfl, rfl, rfl, .inl rfl⟩
    · exact ⟨rfl, rfl, rfl, .inr rfl⟩
  | got _ ha _ _ _ => rw [hat] at ha; cases ha
  | event hfree _ _ _ _ _ _ => rw [hat] at hfree; cases hfree
  | ended _ ha _ _ _ => rw [hat] at ha; cases ha

theorem alone_step {x y : TxnPool × Goroutine} (inv : InScan i x) (hok : RenewsFresh cfg i x c)
    (hs : (alone cfg i).step x c = some y) :
    InScan i y ∧ y.1.stepsLeft y.2.at_ < x.1.stepsLeft x.2.at_ := by
  obtain ⟨s, t⟩ := x
  obtain ⟨⟨s', t', new⟩, hstep, rfl⟩ := Option.map_eq_some_iff.mp hs
  dsimp only at hstep
  have hm := step_moved hstep
  obtain ⟨hplace, hknows, hwaiting, hknown⟩ := inv
  dsimp only at hplace hknows hwaiting hknown ⊢
  rcases hplace with henter | hbody | hreturned
  · obtain ⟨hworld, hpool, hlast, hat'⟩ := hm.enters henter
    have hperm : (s'.bag t'.at_).Perm (s.bag t.at_) := by
      unfold TxnPool.bag
      rw [hpool, henter]
      rcases hat' with hat' | hat' <;> rw [hat'] <;> exact .refl _
    refine ⟨⟨?_, ?_, hworld ▸ hwaiting, ?_⟩, ?_⟩
    · rcases hat' with hat' | hat'
      · exact .inr (.inl (by rw [hat']; rfl))
      · exact .inr (.inr hat')
    · rcases hat' with hat' | hat' <;> rw [hat'] <;> trivial
    · intro k hk
      rw [hworld]
      exact hknown k (hperm.mem_iff.mp hk)
    · refine stepsLeft_move hperm (fun _ => by rw [hworld]) hlast ?_ ?_
      · rw [henter]
        rcases hat' with hat' | hat' <;> rw [hat'] <;> rfl
      · rw [henter]
        rcases hat' with hat' | hat' <;> rw [hat'] <;> decide
  · obtain ⟨hscan, _⟩ := hm.scans hbody
    obtain ⟨hlower, hknows', hlast⟩ :=
      hscan.lower hknows fun txn hat hat' => hok txn s' t' new hstep hat hat'
    obtain ⟨hframes, hnext⟩ := hscan.frames
    refine ⟨⟨?_, hknows', ?_, ?_⟩, hlower⟩
    · rcases hscan.guard with ⟨_, hbody'⟩ | ⟨_, _, hback⟩
      · exact .inr (.inl hbody')
      · exact .inr (.inr hback)
    · unfold World.waiting
      rw [hframes]
      exact hwaiting
    · intro k hk
      unfold World.known
      rw [hnext]
      exact hknown k (hscan.bag_subset k hk)
  · exact absurd hreturned hm.not_returned

/-- Before its end nothing holds `handleIdle` up. -/
theorem alone_goes_on {x : TxnPool × Goroutine} (inv : InScan i x) :
    x.2.at_ = .returned ∨ ∃ c, ((alone cfg i).step x c).isSome = true := by
  obtain ⟨s, at_, out⟩ := x
  obtain ⟨hplace, _, hwaiting, hknown⟩ := inv
  dsimp only at hplace hwaiting hknown ⊢
  have hatomic : at_.method = none → (at_.atomic cfg s).isSome = true →
      ∃ c, ((alone cfg i).step (s, ⟨at_, out⟩) c).isSome = true := by
    intro hnone hsome
    refine ⟨.calls 0 {}, ?_⟩
    simpa [alone, step, hnone, hwaiting] using hsome
  have hmethod : ∀ call, at_.method = some call → call ≠ .amendLocked →
      call.handles.all s.world.known = true → (s.world.exec {} i 0 call).isSome = true →
      ∃ c, ((alone cfg i).step (s, ⟨at_, out⟩) c).isSome = true := by
    intro call hcall hother hall hsome
    refine ⟨.calls 0 {}, ?_⟩
    have hstep : s.world.step (.go i 0 {} call) = s.world.exec {} i 0 call := by
      unfold World.step
      dsimp only
      rw [hwaiting, hall, decide_eq_false hother]
      rfl
    simpa [alone, step, hcall, hstep] using hsome
  rcases hplace with henter | hbody | hreturned
  · subst henter
    refine .inr (hatomic rfl ?_)
    unfold At.atomic
    dsimp only
    split <;> rfl
  · right
    cases at_ with
    | getIdle back =>
      refine ⟨.gets none, ?_⟩
      cases back <;> rfl
    | putBack | putFresh | leaveIdle => exact hatomic rfl rfl
    | id k txn =>
      cases k with
      | handleOutstanding => cases hbody
      | handleIdle =>
        refine hmethod (.id txn) rfl (by simp) ?_ rfl
        simpa [Call.handles] using hknown txn (by simp [TxnPool.bag, At.has])
    | getLastID k txn txnid =>
      cases k with
      | handleOutstanding => cases hbody
      | handleIdle => exact hatomic rfl rfl
    | handleReadonly k txn =>
      cases k with
      | handleOutstanding => cases hbody
      | handleIdle => exact hatomic rfl rfl
    | renewStale k txn =>
      cases k with
      | handleOutstanding => cases hbody
      | handleIdle =>
        refine hmethod (.renew txn) rfl (by simp) ?_ rfl
        simpa [Call.handles] using hknown txn (by simp [TxnPool.bag, At.has])
    | abortStale k txn =>
      cases k with
      | handleOutstanding => cases hbody
      | handleIdle =>
        refine hmethod (.abort txn) rfl (by simp) ?_ rfl
        simpa [Call.handles] using hknown txn (by simp [TxnPool.bag, At.has])
    | _ => cases hbody
  · exact .inl hreturned

/-- On any bag of transactions that exist, whatever `Get` returns and whichever renewals fail,
`handleIdle` returns after a number of steps that the size of the bag bounds, as long as the
renewals that succeed are fresh. And however many goroutines are started for it, one at a time is in
its body, and the guard is 0 when none is. -/
theorem handleIdle_ends (cfg : Config) :
    (∀ (i : Gor) (s : TxnPool) (out : Result) (n : Nat) (x : TxnPool × Goroutine),
      s.world.waiting i = false → (∀ k ∈ s.pool, s.world.known k = true) →
      (alone cfg i).Takes (RenewsFresh cfg i) n (s, ⟨.enterIdle, out⟩) x →
      n ≤ 9 * (2 * s.pool.length * (2 * s.pool.length) + s.pool.length) + 8 ∧
        (x.2.at_ = .returned ∨ ∃ c, ((alone cfg i).step x c).isSome = true)) ∧
    ∀ q, (program cfg).system.Reachable q →
      bodies q ≤ 1 ∧ (bodies q = 0 → q.shared.idleGuard = 0) := by
  refine ⟨fun i s out n x hwaiting hknown steps => ?_, fun q run => ?_⟩
  · have hbag : s.bag .enterIdle = s.pool := List.append_nil _
    have inv : InScan i (s, (⟨.enterIdle, out⟩ : Goroutine)) :=
      ⟨.inl rfl, trivial, hwaiting, fun k hk => hknown k (hbag ▸ hk)⟩
    obtain ⟨inv', hbound⟩ := steps.bounded (fun x => x.1.stepsLeft x.2.at_) inv
      fun t c u ht hok hs => alone_step ht hok hs
    refine ⟨?_, alone_goes_on inv'⟩
    have hleft : s.stepsLeft .enterIdle = 9 * (2 * s.pool.length * (2 * s.pool.length) +
        s.staleIn s.pool) + 8 := by
      unfold stepsLeft units
      rw [hbag]
      rfl
    have hstale : s.staleIn s.pool ≤ s.pool.length := List.countP_le_length
    dsimp only at hbound
    omega
  · rcases run.invariant (guarded_invariant _) with ⟨hguard, hnone⟩ | ⟨_, hone⟩
    · exact ⟨by omega, fun _ => hguard⟩
    · exact ⟨by omega, fun h => by omega⟩

/-- A bag with one reader, begun before the last update and never reset. -/
def staleReader : TxnPool :=
  let begun := ((({} : World).step (.go 0 0 {} (.beginTxn none txnRdonly))).map (·.1)).getD {}
  { world := ((begun.step (.foreignCommit 2 [])).map (·.1)).getD begun, pool := [0], lastid := 2 }

/-- The reader is renewed and put back, and `handleIdle` returns. -/
theorem handleIdle_ends_stale : ∃ (cfg : Config) (x : TxnPool × Goroutine),
    (alone cfg 0).Takes (RenewsFresh cfg 0) 9 (staleReader, ⟨.enterIdle, .nil⟩) x ∧
    x.2.at_ = .returned ∧ x.1.pool = [0] ∧
    9 ≤ 9 * (2 * staleReader.pool.length * (2 * staleReader.pool.length) +
      staleReader.pool.length) + 8 := by
  let cfg : Config := { updateHandling := { handleIdle := true, handleRenew := true } }
  have hother {x : TxnPool × Goroutine} {c : Choice}
      (hat : ∀ txn, x.2.at_ ≠ .renewStale .handleIdle txn) : RenewsFresh cfg 0 x c :=
    fun txn _ _ _ _ h => absurd h (hat txn)
  have hscan : (alone cfg 0).Takes (RenewsFresh cfg 0) 5 (staleReader, ⟨.enterIdle, .nil⟩) _ :=
    .succ (e := .calls 0 {})
      (.succ (e := .calls 0 {})
        (.succ (e := .calls 0 {})
          (.succ (e := .gets (some 0))
            (.succ (e := .calls 0 {}) .zero (hother nofun) rfl)
            (hother nofun) rfl) (hother nofun) rfl) (hother nofun) rfl) (hother nofun) rfl
  have hrenewed : (alone cfg 0).Takes (RenewsFresh cfg 0) 6 _ _ :=
    .succ (e := .calls 0 {}) hscan (fun txn s' t' new hstep hat _ => by
      cases hat
      cases hstep
      decide +kernel) rfl
  have hreturned : (alone cfg 0).Takes (RenewsFresh cfg 0) 9 _ _ :=
    .succ (e := .calls 0 {})
      (.succ (e := .calls 0 {})
        (.succ (e := .gets none) hrenewed (hother nofun) rfl) (hother nofun) rfl) (hother nofun) rfl
  have hbound := ((handleIdle_ends cfg).1 0 staleReader .nil 9 _ (by decide +kernel)
    (by decide +kernel) hreturned).1
  exact ⟨cfg, _, hreturned, rfl, rfl, hbound⟩

end TxnPool

end MdbxGo
