import MdbxGo.Mdbxpool.Lending

/-! Which snapshots the readers of a pool observe: one that `BeginTxn` or `View` delivers is as
recent as any commit before the call. -/

namespace MdbxGo

namespace ReadTxn

variable {o : Sys} {fatal : Bool} {recent : UInt64} {r : ReadTxn}

/-- A start without a failure is a start on the last committed snapshot. -/
theorem txnRoStart_observes (h : (r.txnRoStart o recent false).2 = Code.success ∨
    (r.txnRoStart o recent false).2 = Code.resultTrue) :
    (r.txnRoStart o recent false).1.finished = false ∧
      (r.txnRoStart o recent false).1.txnid = recent := by
  unfold txnRoStart at h ⊢
  dsimp only at h ⊢
  split
  · rename_i e he
    rw [he] at h
    exact absurd h (not_or.mpr ⟨e.not_success, e.not_resultTrue⟩)
  · rename_i hget
    rw [hget] at h
    simp only [Bool.false_eq_true, if_false] at h ⊢
    split
    · rename_i e he
      rw [he] at h
      exact absurd h (not_or.mpr ⟨e.not_success, e.not_resultTrue⟩)
    · exact ⟨rfl, rfl⟩

theorem mdbxTxnRenew_observes (h : (r.mdbxTxnRenew o fatal recent).2 = Code.success ∨
    (r.mdbxTxnRenew o fatal recent).2 = Code.resultTrue) :
    (r.mdbxTxnRenew o fatal recent).1.finished = false ∧
      (r.mdbxTxnRenew o fatal recent).1.txnid = recent := by
  unfold mdbxTxnRenew at h ⊢
  split
  · rename_i hfatal
    rw [if_pos hfatal] at h
    exact absurd h (show ¬ (Code.panic = Code.success ∨ Code.panic = Code.resultTrue) by decide)
  · rename_i hfatal
    rw [if_neg hfatal] at h
    dsimp only at h ⊢
    have hreset : (if r.finished = true then (r, Code.success) else r.txnRoReset o).2 ≠
        Code.resultTrue := by
      split
      · exact show Code.success ≠ Code.resultTrue by decide
      · exact r.txnRoReset_ne_resultTrue
    generalize (if r.finished = true then (r, Code.success) else r.txnRoReset o) =
      reset at h hreset ⊢
    by_cases hcode : reset.2 = Code.success
    · simp only [hcode, bne_self_eq_false, Bool.false_eq_true, if_false] at h ⊢
      exact txnRoStart_observes h
    · rw [if_pos (by simpa using hcode)] at h
      exact absurd h (not_or.mpr ⟨hcode, hreset⟩)

end ReadTxn

namespace MdbxEnv

variable {env : MdbxEnv} {o : Sys} {self : Thread}

/-- A call that a write transaction only answers with a failure. -/
theorem refuse_fails {check : WriteTxn → Bool → Code} {code : Code} {p : Ptr}
    (hcheck : ∀ t b, check t b ≠ Code.resultTrue)
    (hcode : code ≠ Code.success ∧ code ≠ Code.resultTrue) :
    env.refuse check code p ≠ Code.success ∧ env.refuse check code p ≠ Code.resultTrue := by
  unfold refuse
  split
  · exact ⟨by decide, by decide⟩
  · rename_i t hasChild _
    split
    · rename_i hne
      exact ⟨by simpa using hne, hcheck t hasChild⟩
    · split
      · exact ⟨by decide, by decide⟩
      · exact hcode

theorem checkOwner_ne_resultTrue (t : WriteTxn) : t.checkOwner self ≠ Code.resultTrue := by
  unfold WriteTxn.checkOwner
  split
  · split <;> decide
  · decide

/-- A call that only readers can succeed in was one on a reader. -/
theorem onFlat_success {f : ReadTxn → ReadTxn × Code} {ptr : Option Ptr} {r : MdbxEnv × Code}
    (hr : r = match ptr with
      | none => (env, Code.einval)
      | some (.reader a) => env.onReader a f
      | some p => (env, env.refuse (fun t _ => t.checkOwner self) Code.einval p))
    (h : r.2 = Code.success ∨ r.2 = Code.resultTrue) :
    ∃ a x, ptr = some (.reader a) ∧ r.1.readers a = some (f x).1 ∧
      ((f x).2 = Code.success ∨ (f x).2 = Code.resultTrue) := by
  have hwrite : ∀ p : Ptr, ¬ (env.refuse (fun t _ => t.checkOwner self) Code.einval p =
      Code.success ∨
        env.refuse (fun t _ => t.checkOwner self) Code.einval p = Code.resultTrue) := by
    intro p
    exact not_or.mpr (refuse_fails (fun t _ => checkOwner_ne_resultTrue t) ⟨by decide, by decide⟩)
  subst hr
  cases ptr with
  | none =>
    exact absurd h (show ¬ (Code.einval = Code.success ∨ Code.einval = Code.resultTrue) by decide)
  | some p =>
    cases p with
    | basal => exact absurd h (hwrite .basal)
    | nested a => exact absurd h (hwrite (.nested a))
    | reader a =>
      simp only [onReader] at h ⊢
      cases hr : env.readers a with
      | none =>
        rw [hr] at h
        exact absurd h
          (show ¬ (Code.ebadsign = Code.success ∨ Code.ebadsign = Code.resultTrue) by decide)
      | some x =>
        rw [hr] at h
        exact ⟨a, x, rfl, setReader_self _ _ _, h⟩

/-- A renewal that succeeds was one of a reader. -/
theorem mdbxTxnRenew_observes {ptr : Option Ptr}
    (h : (env.mdbxTxnRenew o self ptr).2 = Code.success ∨
      (env.mdbxTxnRenew o self ptr).2 = Code.resultTrue) :
    ∃ a r, ptr = some (.reader a) ∧ (env.mdbxTxnRenew o self ptr).1.readers a = some r ∧
      r.finished = false ∧ r.txnid = env.recent := by
  obtain ⟨a, x, rfl, hr, hcode⟩ := onFlat_success rfl h
  exact ⟨a, _, rfl, hr, ReadTxn.mdbxTxnRenew_observes hcode⟩

theorem mdbxTxnBegin_observes {client : Handle} {b : MdbxEnv × Code × Option Ptr}
    (h : env.mdbxTxnBegin o self none txnRdonly client = some b) (hcode : b.2.1 = Code.success) :
    ∃ a r, b.2.2 = some (.reader a) ∧ b.1.readers a = some r ∧ r.finished = false ∧
      r.txnid = env.recent := by
  simp only [mdbxTxnBegin] at h
  split at h
  · cases h
    exact absurd hcode (show Code.panic ≠ Code.success by decide)
  · rw [if_pos (show (txnRdonly &&& txnRdonly != 0) = true by decide)] at h
    cases h
    unfold beginRo at hcode ⊢
    rw [if_neg (show ¬ (txnRdonly &&& ~~~txnRoBeginFlags != 0) = true by decide)] at hcode ⊢
    split
    · rename_i halloc
      rw [if_pos halloc] at hcode
      exact absurd hcode (show Code.enomem ≠ Code.success by decide)
    · rename_i halloc
      rw [if_neg halloc] at hcode
      dsimp only at hcode ⊢
      rw [show (txnRdonly &&& txnRdonlyPrepare == txnRdonlyPrepare) = false by decide] at hcode ⊢
      split
      · rename_i hstart
        rw [if_pos hstart] at hcode
        exact absurd hcode (by simpa using hstart)
      · rename_i hstart
        exact ⟨env.brk, _, rfl, setReader_self _ _ _,
          ReadTxn.txnRoStart_observes (.inl (by simpa using hstart))⟩

end MdbxEnv

namespace TxnPool

open Threads Transition MdbxEnv World

variable {cfg : Config} {s s' : TxnPool} {i j n : Nat} {t t' u : Goroutine} {c : Choice}
  {new : List Goroutine} {w w' : World} {txn h : Handle} {a a' : At} {o : Sys} {thread : Thread}

/-! ### The snapshot that a call delivers -/

/-- A live reader of a snapshot that is `id` or later. -/
def Observes (id : UInt64) (_ : Txn) (r : ReadTxn) : Prop := r.finished = false ∧ id ≤ r.txnid

theorem renew_observes {x : Returned} (hr : w.exec o i thread (.renew h) = some (w', .returned x))
    (hx : x.err = none) : Backed (Observes w.lib.recent) w' h := by
  have hr : w.renew o thread h = (w', .returned x) := Option.some.inj hr
  unfold World.renew unmanaged at hr
  split at hr
  · cases hr
  · unfold renewTxn at hr
    dsimp only at hr
    have hcode := congrArg Prod.snd hr
    have herr := congrArg Returned.err (Reply.returned.inj hcode)
    rw [hx] at herr
    have hcode := (operrno_eq_none _).mp herr
    obtain ⟨a, r, hp, ha, hfin, htxnid⟩ := mdbxTxnRenew_observes hcode
    obtain rfl := congrArg Prod.fst hr
    refine ⟨a, r, ?_, ha, hfin, UInt64.le_of_eq htxnid.symm⟩
    dsimp only
    rw [World.call, setTxn_self]
    exact hp

theorem create_observes {b : World × Returned} (hb : w.beginTxn o thread none txnRdonly = some b)
    (htxn : b.2.txn = some h) : Backed (Observes w.lib.recent) b.1 h := by
  obtain ⟨c, hc, rfl⟩ := Option.map_eq_some_iff.mp hb
  split at htxn
  · cases htxn
  · rename_i hcode
    rw [if_neg hcode]
    cases htxn
    obtain ⟨a, r, hp, ha, hfin, htxnid⟩ := mdbxTxnBegin_observes hc (by simpa using hcode)
    refine ⟨a, r, ?_, ha, hfin, UInt64.le_of_eq htxnid.symm⟩
    exact (congrArg Txn.ptr (Function.update_self _ _ _)).trans hp

/-- The places at which a transaction has just been got, or a caller has it. -/
def At.given : At → Bool
  | .held _ | .runOp _ | .viewing _ | .updating _ => true
  | _ => false

theorem unwind_given (a : At) : a.unwind.given = false := by
  unfold At.unwind
  split <;> rfl

/-- A method that returns leads to such a place from `beginReadonly` only. -/
theorem next_given {txnid : UInt64} {x : Returned} (hat : (a.next txnid x).given = true) :
    ∃ k txn, a.next txnid x = k.delivered txn ∧
      (a = .renew k txn ∧ x.err = none ∨ a = .create k ∧ x.txn = some txn) := by
  unfold At.next at hat ⊢
  split at hat
  · rename_i k txn
    split at hat
    · rename_i herr
      exact ⟨k, txn, if_pos herr, .inl ⟨rfl, by simpa using herr⟩⟩
    · cases hat
  · cases hat
  · rename_i k
    cases htxn : x.txn with
    | none =>
      rw [htxn] at hat
      cases hat
    | some txn => exact ⟨k, txn, rfl, .inr ⟨rfl, rfl⟩⟩
  · cases hat
  · split at hat <;> cases hat
  · cases hat
  · rename_i k _
    split at hat
    · cases k <;> cases hat
    · cases hat
  · rename_i k _
    cases k <;> cases hat
  · cases hat
  · split at hat <;> cases hat
  · cases hat
  · cases hat

theorem atomic_given (ha : a.atomic cfg s = some (s', a', new)) : a'.given = false := by
  unfold At.atomic at ha
  split at ha
  · cases ha; rfl
  · cases ha
    split
    · rfl
    · split <;> rfl
  · cases ha; rfl
  · rename_i k _ _
    cases ha
    split
    · rfl
    · cases k <;> rfl
  · rename_i k _
    cases ha
    split
    · cases k <;> rfl
    · split <;> rfl
  · split at ha <;> cases ha <;> rfl
  · rename_i got
    cases ha
    cases got <;> rfl
  · cases ha; rfl
  · cases ha; rfl
  · obtain ⟨r, _, heq⟩ := Option.map_eq_some_iff.mp ha
    cases heq
    rfl
  · cases ha

theorem got_given {got : Option Handle} (ha : a.got got = some a') : a'.given = false := by
  unfold At.got at ha
  split at ha
  · cases ha
    cases got <;> rfl
  · cases ha; rfl
  · cases ha
    cases got <;> rfl
  · cases ha
    cases got <;> rfl
  · cases ha

theorem ended_given {res : FnResult} (ha : a.ended res = some a') : a'.given = false := by
  unfold At.ended at ha
  split at ha
  · cases ha; rfl
  · cases ha
    split <;> rfl
  · cases ha

/-- How a goroutine comes to such a place: through `beginReadonly`, which returns a transaction that
observes the last committed snapshot, or at the begin of a caller's function. -/
theorem Moved.given (hm : Moved cfg i s t s' t' new c) (hat : t'.at_.given = true)
    (hnew : t.at_.free = true → t'.at_ ≠ t.at_) :
    (∃ (k : Starter) (txn : Handle), t'.at_ = k.delivered txn ∧
        Backed (Observes s.world.lib.recent) s'.world txn) ∨
      ∃ txn, t'.at_ = t.at_.inside txn := by
  cases hm with
  | @method thread o call r hcall hr hs ht _ =>
    subst hs ht
    have hexec := step_exec hr
    obtain ⟨at_, out⟩ := t
    obtain ⟨w', reply⟩ := r
    cases reply with
    | panicked p => exact absurd hat (Bool.eq_false_iff.mp (unwind_given at_))
    | running k => exact .inr ⟨k, rfl⟩
    | returned x =>
      obtain ⟨k, txn, hnext, ⟨hk, herr⟩ | ⟨hk, htxn⟩⟩ := next_given hat
      · dsimp only at hk
        subst hk
        cases hcall
        exact .inl ⟨k, txn, hnext, renew_observes hexec herr⟩
      · dsimp only at hk
        subst hk
        cases hcall
        obtain ⟨b, hb, heq⟩ := Option.map_eq_some_iff.mp hexec
        cases heq
        exact .inl ⟨k, txn, hnext, create_observes hb htxn⟩
  | atomic _ _ ha _ => exact absurd hat (Bool.eq_false_iff.mp (atomic_given ha))
  | got _ ha _ _ _ => exact absurd hat (Bool.eq_false_iff.mp (got_given ha))
  | event hfree _ _ _ _ ht _ => exact absurd (congrArg Goroutine.at_ ht) (hnew hfree)
  | ended _ ha _ _ _ => exact absurd hat (Bool.eq_false_iff.mp (ended_given ha))

/-- A transaction that `beginReadonly` returns observes the last committed snapshot. -/
theorem Moved.delivers (hm : Moved cfg i s t s' t' new c)
    (hat : t'.at_ = .held h ∨ t'.at_ = .runOp h) (hnew : t.at_.free = true → t'.at_ ≠ t.at_) :
    Backed (Observes s.world.lib.recent) s'.world h := by
  have hgiven : t'.at_.given = true := by rcases hat with hat | hat <;> rw [hat] <;> rfl
  rcases hm.given hgiven hnew with ⟨k, txn, hk, hb⟩ | ⟨txn, hin⟩
  · rw [hk] at hat
    have hsame : txn = h := by cases k <;> simpa [Starter.delivered] using hat
    exact hsame ▸ hb
  · rw [hin] at hat
    unfold At.inside at hat
    split at hat <;> simp at hat

/-! ### Calls after a commit -/

variable {q q' : Threads TxnPool Goroutine} {e : Threads.Event Entry Choice} {id : UInt64}

theorem Backed.earlier {id' : UInt64} (hb : Backed (Observes id') w h) (hle : id ≤ id') :
    Backed (Observes id) w h := by
  obtain ⟨a, r, hp, ha, hfin, htxnid⟩ := hb
  exact ⟨a, r, hp, ha, hfin, UInt64.le_trans hle htxnid⟩

theorem observes_oust (x : Txn) (r : ReadTxn) (h : Observes id x r) : Observes id x r.oust := by
  have halike := r.oust_alike
  exact ⟨halike.finished.trans h.1, halike.txnid ▸ h.2⟩

theorem recent_le (ord : Orderly q) (hs : (program cfg).next q e = some q') :
    q.shared.world.lib.recent ≤ q'.shared.world.lib.recent := by
  cases e with
  | enter a =>
    rw [Program.next_enter hs]
    exact UInt64.le_refl _
  | run i c =>
    obtain ⟨t, t', new, _, hstep, _⟩ := Program.next_run hs
    exact ((step_moved hstep).later ord.sane.ok).recent

/-- The snapshot `id` has been committed, and what a `View` has got that was not called before the
goroutine number `first` entered observes it or a later one. -/
structure Ahead (first : Nat) (id : UInt64) (s : Threads TxnPool Goroutine) : Prop where
  recent : id ≤ s.shared.world.lib.recent
  ready : ∀ (j : Nat) (t : Goroutine) (h : Handle), first ≤ j → s.threads[j]? = some t →
    t.at_ = .runOp h → Backed (Observes id) s.shared.world h

theorem next_ahead {first : Nat} (ord : Orderly q) (ahead : Ahead first id q)
    (hs : (program cfg).next q e = some q') (hok : respects q e = true) : Ahead first id q' := by
  refine ⟨UInt64.le_trans ahead.recent (recent_le ord hs), fun j t h hj ht hat => ?_⟩
  have hold : q.threads[j]? = some t →
      (∀ i c u, e = .run i c → q.threads[i]? = some u → i ≠ j) →
      Backed (Observes id) q'.shared.world h := by
    intro hq hne
    have hkeeps : h ∈ t.at_.keeps := by simp [hat, At.keeps, At.has]
    refine ord.backed hs hok (keeps_of_hand hq hkeeps) ?_ observes_oust
      (ahead.ready j t h hj hq hat)
    intro i c u he hu
    exact ord.alone hq hu (Ne.symm (hne i c u he hu)) (At.has_of_keeps hkeeps)
  cases e with
  | enter a =>
    have hs' := Program.next_enter hs
    subst hs'
    rcases Program.thread_entered ht with hq | ⟨_, rfl⟩
    · exact hold hq fun _ _ _ he => by cases he
    · have hstart : a.start.at_ = .runOp h := hat
      have hhas := start_has a
      rw [hstart] at hhas
      cases hhas
  | run i c =>
    obtain ⟨u, u', new, hi, hstep, hthreads⟩ := Program.next_run hs
    have hm := step_moved hstep
    rw [hthreads] at ht
    rcases Program.thread_after ht with ⟨rfl, rfl⟩ | ⟨hij, hq⟩ | ⟨k, _, hk⟩
    · refine (hm.delivers (.inr hat) fun hfree hsame => ?_).earlier ahead.recent
      rw [← hsame, hat] at hfree
      cases hfree
    · refine hold hq fun i' c' u he _ => ?_
      cases he
      exact Ne.symm hij
    · rw [hm.started t (List.mem_of_getElem? hk)] at hat
      cases hat

/-- `View` calls its function with what it has got. -/
theorem Moved.views (hm : Moved cfg i s t s' t' new c) (hat : t'.at_ = .viewing h)
    (hnew : t'.at_ ≠ t.at_) : t.at_ = .runOp h ∧ s'.world.lib = s.world.lib ∧
      (s'.world.txns h).ptr = (s.world.txns h).ptr := by
  have hin : ∃ k, t.at_ = .runOp k := by
    rcases hm.given (by rw [hat]; rfl) fun _ => hnew with ⟨k, txn, hk, _⟩ | ⟨txn, hin⟩
    · rw [hk] at hat
      cases k <;> cases hat
    · rw [hin] at hat
      unfold At.inside at hat
      split at hat
      · rename_i k hrun
        exact ⟨k, hrun⟩
      · cases hat
      · cases hat
  obtain ⟨k, hin⟩ := hin
  obtain ⟨at_, out⟩ := t
  dsimp only at hin
  subst hin
  cases hm with
  | method hcall hr hs ht _ =>
    subst hs ht
    have hexec := step_exec hr
    cases hcall
    have hexec := Option.some.inj hexec
    subst hexec
    have hk : k = h := At.viewing.inj hat
    subst hk
    have hself : (runOpEither i false k s.world).1.txns k =
        { s.world.txns k with managed := true } := setTxn_self s.world k _
    have hptr := congrArg Txn.ptr hself
    exact ⟨rfl, rfl, hptr⟩
  | atomic hnone _ _ _ => cases hnone
  | got _ ha _ _ _ => cases ha
  | event hfree _ _ _ _ _ _ => cases hfree
  | ended _ ha _ _ _ => cases ha

/-- The step commits an update, which makes the snapshot `id`. -/
def Commits (cfg : Config) (q : Threads TxnPool Goroutine) (e : Threads.Event Entry Choice)
    (q' : Threads TxnPool Goroutine) (id : UInt64) : Prop :=
  (∃ i thread o txn saved out, e = .run i (.calls thread o) ∧
    q.threads[i]? = some { at_ := .terminate txn .nil saved, out }) ∧
  (program cfg).system.step q e = some q' ∧
  q.shared.world.lib.recent < id ∧ id = q'.shared.world.lib.recent

/-- The step is the one in which `BeginTxn` returns `h` to the caller with the number `i`, or in
which its `View` calls the function with `h`. -/
def Delivers (cfg : Config) (q : Threads TxnPool Goroutine) (e : Threads.Event Entry Choice)
    (q' : Threads TxnPool Goroutine) (i : Nat) (h : Handle) : Prop :=
  (program cfg).system.step q e = some q' ∧
  ∃ t t', q.threads[i]? = some t ∧ q'.threads[i]? = some t' ∧ t'.at_ ≠ t.at_ ∧
    (t'.at_ = .held h ∨ t'.at_ = .viewing h)

/-- What a call of `BeginTxn` or `View` delivers observes a snapshot that is at least as recent as
every one that an update had committed before the call started. -/
theorem delivered_fresh {q₁ q₂ q₃ q₄ q₅ : Threads TxnPool Goroutine}
    {e₁ e₄ : Threads.Event Entry Choice}
    (run : (program cfg).system.Reaches (fun q e => respects q e = true) q₁)
    (commits : Commits cfg q₁ e₁ q₂ id)
    (later : ((program cfg).system.after q₂).Reaches (fun q e => respects q e = true) q₃)
    (starts : q₃.threads.length ≤ i)
    (call : ((program cfg).system.after q₃).Reaches (fun q e => respects q e = true) q₄)
    (delivers : Delivers cfg q₄ e₄ q₅ i h) :
    ∃ snapshot, q₅.shared.world.lib.snapshot (q₅.shared.world.txns h).ptr = some snapshot ∧
      id ≤ snapshot := by
  have ord₂ : Orderly q₂ := by
    have hrun : (program cfg).system.Reaches (fun _ _ => True) q₁ := run.mono fun _ _ _ => trivial
    exact (hrun.next trivial commits.2.1).invariant (orderly_invariant _)
  have hid₂ : id ≤ q₂.shared.world.lib.recent := UInt64.le_of_eq commits.2.2.2
  obtain ⟨ord₃, hid₃⟩ : Orderly q₃ ∧ id ≤ q₃.shared.world.lib.recent := by
    refine later.later (I := fun q => Orderly q ∧ id ≤ q.shared.world.lib.recent) ⟨ord₂, hid₂⟩ ?_
    rintro q e q' ⟨ord, hid⟩ hok hs
    have ord' := (orderly_invariant fun q e => respects q e = true).step q e q' ord hok hs
    exact ⟨ord', UInt64.le_trans hid (recent_le ord hs)⟩
  have hnone : ∀ (j : Nat) (t : Goroutine) (h : Handle), q₃.threads.length ≤ j →
      q₃.threads[j]? = some t → t.at_ = .runOp h → Backed (Observes id) q₃.shared.world h := by
    intro j t h hj ht _
    exact absurd (List.getElem?_eq_some_iff.mp ht).1 (Nat.not_lt.mpr hj)
  obtain ⟨ord₄, ahead₄⟩ : Orderly q₄ ∧ Ahead q₃.threads.length id q₄ := by
    refine call.later (I := fun q => Orderly q ∧ Ahead q₃.threads.length id q)
      ⟨ord₃, hid₃, hnone⟩ ?_
    rintro q e q' ⟨ord, ahead⟩ hok hs
    have ord' := (orderly_invariant fun q e => respects q e = true).step q e q' ord hok hs
    exact ⟨ord', next_ahead ord ahead hs hok⟩
  suffices hb : Backed (Observes id) q₅.shared.world h by
    obtain ⟨a, r, hp, ha, hfin, htxnid⟩ := hb
    exact ⟨r.txnid, by simp [hp, MdbxEnv.snapshot, ha, hfin], htxnid⟩
  obtain ⟨hstep, t, t', ht, ht', hnew, hat⟩ := delivers
  cases e₄ with
  | enter a =>
    have hs := Program.next_enter hstep
    rw [hs] at ht'
    rcases Program.thread_entered ht' with hsame | ⟨hi, _⟩
    · rw [ht] at hsame
      cases hsame
      exact absurd rfl hnew
    · have hlt := (List.getElem?_eq_some_iff.mp ht).1
      omega
  | run j c =>
    obtain ⟨u, u', new, hu, hmove, hthreads⟩ := Program.next_run hstep
    have hm := step_moved hmove
    rw [hthreads] at ht'
    rcases Program.thread_after ht' with ⟨rfl, rfl⟩ | ⟨_, hsame⟩ | ⟨k, hk, _⟩
    · rw [ht] at hu
      cases hu
      rcases hat with hat | hat
      · exact (hm.delivers (.inl hat) fun _ => hnew).earlier ahead₄.recent
      · obtain ⟨hrun, hlib, hptr⟩ := hm.views hat hnew
        obtain ⟨a, r, hp, ha, hr⟩ := ahead₄.ready _ t h starts ht hrun
        exact ⟨a, r, hptr.trans hp, by rw [hlib, ha], hr⟩
    · rw [ht] at hsame
      cases hsame
      exact absurd rfl hnew
    · have hlt := (List.getElem?_eq_some_iff.mp ht).1
      omega

/-- A reader is begun and put into the bag, and then an update comes to its commit. -/
def pooling : List (Threads.Event Entry Choice) :=
  [.enter (.beginTxn txnRdonly), .run 0 (.gets none), .run 0 (.calls 0 {}), .run 0 (.calls 0 {}),
    .run 0 (.calls 0 {}), .run 0 (.calls 0 {}), .run 0 (.calls 0 {}), .enter .update,
    .run 1 (.calls 0 {}), .run 1 (.does (.go 1 0 {} (.put 1 7))), .run 1 (.ends .nil),
    .run 1 (.calls 0 {})]

/-- A `View` gets the reader from the bag and renews it. -/
def reusing : List (Threads.Event Entry Choice) :=
  [.enter .view, .run 2 (.gets (some 0)), .run 2 (.calls 0 {})]

/-- The commit of the update, and the function of `View` called with the reader. -/
def reuses (q₁ : Threads TxnPool Goroutine) : Bool :=
  decide (q₁.threads[1]? = some ⟨.terminate 1 .nil 2, .nil⟩) &&
    decide (q₁.shared.world.lib.recent < 2) &&
    ((program {}).system.step q₁ (.run 1 (.calls 0 {}))).any fun q₂ : Threads TxnPool Goroutine =>
      decide (2 = q₂.shared.world.lib.recent) && decide (q₂.threads.length = 2) &&
      (((program {}).system.after q₂).replay (fun q e => respects q e = true) q₂ reusing).any
        fun q₄ : Threads TxnPool Goroutine => decide (q₄.threads[2]? = some ⟨.runOp 0, .nil⟩) &&
          ((program {}).system.step q₄ (.run 2 (.calls 0 {}))).any
            fun q₅ : Threads TxnPool Goroutine => decide (q₅.threads[2]? = some ⟨.viewing 0, .nil⟩)

theorem delivered_fresh_reused : ∃ q : Threads TxnPool Goroutine, ∃ snapshot,
    q.shared.world.lib.snapshot (q.shared.world.txns 0).ptr = some snapshot ∧ 2 ≤ snapshot := by
  obtain ⟨q₁, run, h⟩ := System.exists_of_replay (program {}).system
    (fun q e => respects q e = true) pooling fresh reuses (fresh_init _) (by decide +kernel)
  simp only [reuses, Bool.and_eq_true, decide_eq_true_iff, Option.any_eq_true] at h
  obtain ⟨⟨hat, hbefore⟩, q₂, hs₂, ⟨hafter, hlength⟩, q₄, hreplay, hat₄, q₅, hs₅, hat₅⟩ := h
  have hlater : ((program {}).system.after q₂).Reaches (fun q e => respects q e = true) q₂ :=
    .start rfl
  have hcall : ((program {}).system.after q₂).Reaches (fun q e => respects q e = true) q₄ :=
    hlater.replay _ hreplay
  exact ⟨q₅, delivered_fresh run ⟨⟨_, _, _, _, _, _, rfl, hat⟩, hs₂, hbefore, hafter⟩ hlater
    (Nat.le_of_eq hlength) hcall ⟨hs₅, _, _, hat₄, hat₅, by decide, .inr rfl⟩⟩

end TxnPool

end MdbxGo
