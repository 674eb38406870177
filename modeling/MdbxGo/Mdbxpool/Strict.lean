import MdbxGo.Mdbx.Lock
import MdbxGo.Mdbxpool.Lending

/-! A pool over an environment in strict-thread mode: a `Txn` stays bound to the thread that made
it, while the pool renews it on others. When no method panics because of that. -/

namespace MdbxGo

/-- The method has panicked in `strictThreadCheck`. -/
def Reply.mismatches : Reply → Bool
  | .panicked (.threadMismatch _ _) => true
  | _ => false

namespace World

open MdbxEnv

variable {w w' : World} {o : Sys} {g : Gor} {self : Thread} {call : Call} {h : Handle}
  {msg op : String} {r : World × Reply}

/-! ### The methods that check the thread -/

/-- The `Txn` whose thread a call checks. -/
def checks (w : World) (g : Gor) : Call → Option Handle
  | .commit h | .checkpoint h _ | .commitEmbarkRead h | .rollback h | .amend h _ => some h
  | .abort h | .park h _ | .unpark h _ => if (w.txns h).ptr.isNone then none else some h
  | .finish res =>
    (w.ends g (.finish res)).filter fun h => decide (res = .nil) || (w.txns h).ptr.isSome
  | _ => none

theorem unmanaged_mismatch {method : World × Reply}
    (hm : (w.unmanaged msg h method).2.mismatches = true) : method.2.mismatches = true := by
  unfold unmanaged at hm
  split at hm
  · cases hm
  · exact hm

theorem writerOnly_mismatch {method : Option (World × Reply)}
    (hr : w.writerOnly msg op self h method = some r) (hm : r.2.mismatches = true)
    (hmethod : ∀ x, method = some x → x.2.mismatches = false) : w.mismatched self h = true := by
  unfold writerOnly at hr
  split at hr
  · cases hr
    cases hm
  · split at hr
    · cases hr
      cases hm
    · split at hr
      · rename_i hmis
        exact hmis
      · rw [hmethod r hr] at hm
        cases hm

theorem commitTxn_mismatch (hm : (w.commitTxn o self h).2.mismatches = true) :
    w.mismatched self h = true := by
  unfold commitTxn at hm
  split at hm
  · rename_i hmis
    exact hmis
  · cases hm

theorem abortTxn_mismatch (hm : (w.abortTxn o self h).2.mismatches = true) :
    (w.txns h).ptr.isNone = false ∧ w.mismatched self h = true := by
  unfold abortTxn at hm
  split at hm
  · cases hm
  · rename_i hptr
    split at hm
    · rename_i hmis
      exact ⟨by simpa only [Bool.not_eq_true] using hptr, hmis⟩
    · cases hm

theorem terminate_mismatch {res : FnResult}
    (hm : (w.terminate o self h res).2.mismatches = true) :
    (res = .nil ∨ (w.txns h).ptr.isNone = false) ∧ w.mismatched self h = true := by
  have habort : (w.abortTxn o self h).2.mismatches = true →
      (res = .nil ∨ (w.txns h).ptr.isNone = false) ∧ w.mismatched self h = true := by
    intro ha
    obtain ⟨hptr, hmis⟩ := abortTxn_mismatch ha
    exact ⟨.inr hptr, hmis⟩
  cases res with
  | nil => exact ⟨.inl rfl, commitTxn_mismatch hm⟩
  | error =>
    refine habort ?_
    simp only [terminate] at hm
    split at hm
    · rename_i p hp
      rw [hp]
      exact hm
    · cases hm
  | panic =>
    refine habort ?_
    simp only [terminate] at hm
    split at hm
    · rename_i p hp
      rw [hp]
      exact hm
    · cases hm

theorem park_mismatch {autounpark : Bool}
    (hm : (w.park o self autounpark h).2.mismatches = true) :
    w.checks g (.park h autounpark) = some h ∧ w.mismatched self h = true := by
  unfold park at hm
  split at hm
  · cases hm
  · rename_i hptr
    split at hm
    · rename_i hmis
      exact ⟨if_neg hptr, hmis⟩
    · dsimp only at hm
      split at hm <;> cases hm

theorem unpark_mismatch {restart : Bool} (hm : (w.unpark o self restart h).2.mismatches = true) :
    w.checks g (.unpark h restart) = some h ∧ w.mismatched self h = true := by
  unfold unpark at hm
  split at hm
  · cases hm
  · rename_i hptr
    split at hm
    · rename_i hmis
      exact ⟨if_neg hptr, hmis⟩
    · dsimp only at hm
      split at hm
      · cases hm
      · split at hm <;> cases hm

theorem amendLocked_mismatch (hr : w.amendLocked o g self = some r) :
    r.2.mismatches = false := by
  unfold World.amendLocked at hr
  split at hr
  · obtain ⟨c, _, rfl⟩ := Option.map_eq_some_iff.mp hr
    dsimp only
    split
    · dsimp only [amended]
      split <;> rfl
    · rfl
  · cases hr

theorem finish_mismatch {res : FnResult} (hr : w.finish o g self res = some r)
    (hm : r.2.mismatches = true) :
    ∃ h, w.checks g (.finish res) = some h ∧ w.mismatched self h = true := by
  unfold finish at hr
  split at hr
  · cases hr
  · rename_i f fs hframes
    have hends : ∀ v : World, v.txns = w.txns → v.strictThreadCheck = w.strictThreadCheck →
        w.ends g (.finish res) = some f.txn →
        (v.terminate o self f.txn res).2.mismatches = true →
        ∃ h, w.checks g (.finish res) = some h ∧ w.mismatched self h = true := by
      intro v htxns hstrict hend hterm
      obtain ⟨hcase, hmis⟩ := terminate_mismatch hterm
      refine ⟨f.txn, ?_, ?_⟩
      · simp only [checks, hend, Option.filter_some]
        rw [htxns] at hcase
        rcases hcase with rfl | hptr
        · rfl
        · simp [Option.isSome_iff_ne_none, ← Option.isNone_iff_eq_none, hptr]
      · unfold mismatched at hmis ⊢
        rwa [htxns, hstrict] at hmis
    obtain ⟨kind, txn, ptr, snapshot⟩ := f
    cases kind with
    | term =>
      cases hr
      exact hends (w.pop g) rfl rfl (by simp [ends, hframes]) hm
    | sub =>
      cases hr
      exact hends (w.pop g) rfl rfl (by simp [ends, hframes]) hm
    | keep restore =>
      cases hr
      cases res <;> cases hm
    | amending flags => cases hr

theorem cloneInto_mismatch {target : Handle} (hr : w.cloneInto o target h = some r) :
    r.2.mismatches = false := by
  unfold cloneInto at hr
  split at hr
  · cases hr
    rfl
  · split at hr
    · cases hr
      rfl
    · obtain ⟨t, _, rfl⟩ := Option.map_eq_some_iff.mp hr
      dsimp only
      split <;> rfl
    · cases hr

/-- A method panics in `strictThreadCheck` only on the `Txn` whose thread it checks. -/
theorem exec_mismatch (hr : w.exec o g self call = some r) (hm : r.2.mismatches = true) :
    ∃ h, w.checks g call = some h ∧ w.mismatched self h = true := by
  cases call with
  | commit h =>
    cases hr
    exact ⟨h, rfl, commitTxn_mismatch (unmanaged_mismatch hm)⟩
  | abort h =>
    cases hr
    obtain ⟨hptr, hmis⟩ := abortTxn_mismatch (unmanaged_mismatch hm)
    exact ⟨h, by simp [checks, hptr], hmis⟩
  | park h autounpark => cases hr; exact ⟨h, park_mismatch hm⟩
  | unpark h restart => cases hr; exact ⟨h, unpark_mismatch hm⟩
  | checkpoint h flags =>
    refine ⟨h, rfl, writerOnly_mismatch hr hm fun x hx => ?_⟩
    obtain ⟨c, _, rfl⟩ := Option.map_eq_some_iff.mp hx
    dsimp only
    split <;> rfl
  | commitEmbarkRead h =>
    refine ⟨h, rfl, writerOnly_mismatch hr hm fun x hx => ?_⟩
    obtain ⟨c, _, rfl⟩ := Option.map_eq_some_iff.mp hx
    dsimp only
    split <;> rfl
  | rollback h =>
    refine ⟨h, rfl, writerOnly_mismatch hr hm fun x hx => ?_⟩
    obtain ⟨c, _, rfl⟩ := Option.map_eq_some_iff.mp hx
    rfl
  | amend h flags =>
    cases hr
    have hm := unmanaged_mismatch hm
    split at hm
    · cases hm
    · split at hm
      · rename_i hmis
        exact ⟨h, rfl, hmis⟩
      · dsimp only at hm
        split at hm
        · unfold amended at hm
          split at hm <;> cases hm
        · cases hm
  | amendLocked => exact absurd hm (by simp [amendLocked_mismatch hr])
  | finish res => exact finish_mismatch hr hm
  | clone h =>
    cases hr
    unfold clone at hm
    dsimp only at hm
    split at hm <;> cases hm
  | cloneInto h target => exact absurd hm (by simp [cloneInto_mismatch hr])
  | runTxn flags =>
    obtain ⟨c, _, rfl⟩ := Option.map_eq_some_iff.mp hr
    split at hm
    · cases hm
    · cases unmanaged_mismatch hm
  | runOp h terminate =>
    cases hr
    unfold runOpEither at hm
    split at hm
    · cases unmanaged_mismatch hm
    · cases hm
  | sub h =>
    obtain ⟨c, _, rfl⟩ := Option.map_eq_some_iff.mp hr
    split at hm <;> cases hm
  | reset h | renew h | refresh h =>
    cases hr
    cases unmanaged_mismatch hm
  | beginTxn parent flags =>
    obtain ⟨c, _, rfl⟩ := Option.map_eq_some_iff.mp hr
    cases hm
  | id h | get h | put h change =>
    cases hr
    cases hm

theorem checks_uses (hchecks : w.checks g call = some h) : h ∈ w.uses g call := by
  have hnamed : ∀ k, call.handles = [k] → some k = some h → h ∈ w.uses g call := by
    intro k hhandles hk
    exact List.mem_append_left _ (by rw [hhandles, Option.some.inj hk]; exact List.mem_cons_self)
  have hptr : ∀ k, call.handles = [k] →
      (if (w.txns k).ptr.isNone then none else some k) = some h → h ∈ w.uses g call := by
    intro k hhandles hk
    split at hk
    · cases hk
    · exact hnamed k hhandles hk
  cases call with
  | commit k | checkpoint k flags | commitEmbarkRead k | rollback k | amend k flags =>
    exact hnamed k rfl hchecks
  | abort k | park k autounpark | unpark k restart => exact hptr k rfl hchecks
  | finish res =>
    obtain ⟨hends, _⟩ := Option.filter_eq_some_iff.mp hchecks
    simp only [ends] at hends
    split at hends
    · rename_i hframes
      cases hends
      simp [uses, hframes]
    · rename_i hframes
      cases hends
      simp [uses, hframes]
    · cases hends
  | _ => cases hchecks

/-! ### The thread that made a `Txn` -/

/-- `h` has ended, or `thread` made it. -/
def AtHome (w : World) (thread : Thread) (h : Handle) : Prop :=
  (w.txns h).ptr = none ∨ (w.txns h).begun = thread

instance (w : World) (thread : Thread) (h : Handle) : Decidable (w.AtHome thread h) :=
  inferInstanceAs (Decidable (_ ∨ _))

/-- A `Txn` that has ended stays so, and one that a thread made was always made by it. -/
theorem step_atHome (ok : w.lib.Ok) {e : Event} (hr : w.step e = some r) (hknown : h < w.next)
    (home : w.AtHome self h) : r.1.AtHome self h := by
  rcases step_cases hr with ⟨g, thread, o, call, rfl, _, _, hexec⟩ | ⟨a, x, _, _, rfl⟩ |
    ⟨txnid, changes, _, _, _, _, rfl⟩ | ⟨_, rfl⟩
  · have act := exec_act ok hexec
    rcases home with hnull | hbegun
    · -- a pointer that could be to any reader is null
      have honly : ∀ a, OnlyReader a (r.1.txns h).ptr := fun a =>
        act.onlyReader hknown (hnull ▸ OnlyReader.none a)
      left
      cases hp : (r.1.txns h).ptr with
      | none => rfl
      | some p =>
        have h₀ := honly 0 p hp
        have h₁ := honly 1 p hp
        rw [h₀] at h₁
        cases h₁
    · exact .inr ((act.bound hknown).2.trans hbegun)
  · exact home
  · exact home
  · exact home

/-- The thread that made a `Txn` is not refused. -/
theorem checks_home (known : w.Known) (hknown : h < w.next) (home : w.AtHome self h)
    (hcall : call = .abort h) (hchecks : w.checks g call = some h) :
    w.mismatched self h = false := by
  rcases home with hnull | rfl
  · subst hcall
    simp [checks, hnull] at hchecks
  · exact mismatched_begun known hknown

end World

namespace TxnPool

open Threads Transition MdbxEnv World

variable {cfg : Config} {s s' : TxnPool} {i j n : Nat} {t t' u : Goroutine} {c : Choice}
  {new : List Goroutine} {w w' : World} {txn h : Handle} {a a' : At} {o : Sys} {thread : Thread}
  {th : Gor → Thread} {q q' : Threads TxnPool Goroutine} {e : Threads.Event Entry Choice}

/-! ### What is asked of a program -/

/-- The calls of the pool are `View`, and `BeginTxn` with the `Abort` after it; each is made on one
thread from its start to its end. -/
def onThreads (th : Gor → Thread) (q : Threads TxnPool Goroutine) :
    Threads.Event Entry Choice → Bool
  | .enter .update | .enter (.commitID _) | .enter .close => false
  | .enter _ => true
  | .run i (.calls thread _) => decide (thread = th i)
  | .run i (.does (.go _ thread _ _)) =>
    q.threads[i]?.all fun t => decide (t.at_ = .app ∨ thread = th i)
  | _ => true

/-- The `Txn` whose `Renew` or `Reset` returns an error of libmdbx. -/
def refusal (w : World) (o : Sys) (self : Thread) : Call → Option Handle
  | .renew h =>
    if (w.txns h).managed || (operrno "mdbx_txn_renew"
      (w.lib.mdbxTxnRenew o self (w.txns h).ptr).2).isNone then none else some h
  | .reset h =>
    if (w.txns h).managed || (operrno "mdbx_txn_reset"
      (w.lib.mdbxTxnReset o self (w.txns h).ptr).2).isNone then none else some h
  | _ => none

/-- Where libmdbx refuses to renew or to reset a transaction of the pool, it is on the thread that
made it; and the callers' functions call methods that check the thread only there. -/
def unmoved (q : Threads TxnPool Goroutine) : Threads.Event Entry Choice → Bool
  | .run i (.calls thread o) =>
    q.threads[i]?.all fun t => t.at_.method.all fun call =>
      (refusal q.shared.world o thread call).all fun h =>
        decide (q.shared.world.AtHome thread h)
  | .run i (.does (.go g thread _ call)) =>
    q.threads[i]?.all fun t => decide (t.at_ = .app) ||
      (q.shared.world.checks g call).all fun h =>
        decide ((q.shared.world.txns h).begun = thread)
  | _ => true

/-- The call of a method of a `Txn` that a goroutine makes, or the function that it is in. -/
def calling (t : Goroutine) (i : Gor) : Choice → Option MdbxGo.Event
  | .calls thread o => t.at_.method.map fun call => .go i thread o call
  | .does (.go g thread o call) => if t.at_ = .app then none else some (.go g thread o call)
  | _ => none

/-- A step of `View`, of `BeginTxn` or `Abort`, or of the caller in between, panics with a thread
mismatch. -/
def Mismatches (q : Threads TxnPool Goroutine) (e : Threads.Event Entry Choice) : Prop :=
  ∃ i c t x r, e = .run i c ∧ q.threads[i]? = some t ∧ calling t i c = some x ∧
    q.shared.world.step x = some r ∧ r.2.mismatches = true

/-! ### The places of `View` and `BeginTxn` -/

/-- The places that are reached without updates. Nothing is put into a pool that is disabled. -/
def At.plain (cfg : Config) : At → Bool
  | .app | .get _ | .renew _ _ | .discard _ _ | .create _ | .held _ | .runOp _ | .viewing _
  | .leave _ _ | .abortReadonly _ | .abort _ | .returned => true
  | .reset _ | .put _ | .id .handleOutstanding _ | .getLastID .handleOutstanding _ _ =>
    cfg.returnTxnToPool
  | _ => false

/-- The transactions in hand that the thread has made, or that have ended: one that is to be
aborted, and every one where the pool is disabled. -/
def At.homes (cfg : Config) : At → List Handle
  | .discard _ txn | .abort txn => [txn]
  | a => if cfg.returnTxnToPool then [] else a.has

/-- What is known of a goroutine of the number `i`. -/
structure Minds (cfg : Config) (thread : Thread) (w : World) (t : Goroutine) : Prop where
  plain : t.at_.plain cfg = true
  homes : ∀ h ∈ t.at_.homes cfg, w.AtHome thread h
  out : ∀ current open', t.out ≠ .panicked (.threadMismatch current open')

theorem homes_has (hh : h ∈ a.homes cfg) : h ∈ a.has := by
  unfold At.homes at hh
  split at hh
  · exact hh
  · exact hh
  · split at hh
    · cases hh
    · exact hh

theorem homes_of_has (hoff : cfg.returnTxnToPool = false) (hh : h ∈ a.has) : h ∈ a.homes cfg := by
  unfold At.homes
  split
  · exact hh
  · exact hh
  · rw [if_neg (by simp [hoff])]
    exact hh

/-- Where nothing is aborted next, only a disabled pool has what it has in hand from its thread. -/
theorem homes_off {l : List Handle} (ha : a.homes cfg = if cfg.returnTxnToPool then [] else l) :
    ∀ h ∈ a.homes cfg, cfg.returnTxnToPool = false ∧ h ∈ l := by
  intro h hh
  rw [ha] at hh
  split at hh
  · cases hh
  · rename_i hoff
    exact ⟨by simpa using hoff, hh⟩

/-- A method that the pool calls does not panic with a thread mismatch. -/
theorem method_matches {call : Call} {r : World × Reply} (known : w.Known)
    (hhas : ∀ h ∈ t.at_.has, h < w.next) (minds : Minds cfg thread w t)
    (hstands : t.at_.stands (w.frames i)) (hcall : t.at_.method = some call)
    (hexec : w.exec o i thread call = some r) : r.2.mismatches = false := by
  rw [Bool.eq_false_iff]
  intro hm
  obtain ⟨h, hchecks, hmis⟩ := exec_mismatch hexec hm
  obtain ⟨at_, out⟩ := t
  obtain ⟨hplain, hhomes, _⟩ := minds
  have habort : ∀ txn, at_.homes cfg = [txn] → call = .abort txn → False := by
    intro txn hhome hcall'
    have hmem : txn ∈ at_.homes cfg := hhome ▸ List.mem_singleton_self txn
    have hsame : txn = h := by
      subst hcall'
      simp only [checks] at hchecks
      split at hchecks
      · cases hchecks
      · exact Option.some.inj hchecks
    subst hsame
    rw [checks_home known (hhas txn (homes_has hmem)) (hhomes txn hmem) hcall' hchecks] at hmis
    cases hmis
  cases at_ with
  | discard k txn =>
    cases hcall
    exact habort txn rfl rfl
  | abort txn =>
    cases hcall
    exact habort txn rfl rfl
  | leave txn res =>
    cases hcall
    obtain ⟨⟨restore, hruns⟩, hlength⟩ := hstands
    obtain ⟨f, hframes, hkind, _⟩ := hruns.single hlength
    obtain ⟨kind, k, ptr, snapshot⟩ := f
    obtain rfl : kind = .keep restore := hkind
    simp [checks, ends, hframes] at hchecks
  | renew k txn | create k | runOp txn | reset txn =>
    cases hcall
    cases hchecks
  | id k txn =>
    cases hcall
    cases hchecks
  | renewStale | abortStale | closeAbort | runTxn | saveID | terminate => cases hplain
  | _ => cases hcall

/-! ### Steps -/

/-- A method that has returned an error was not refused as managed. -/
theorem err_of_unmanaged {v : World} {msg op : String} {code : Code} {x : Returned}
    (hr : w.unmanaged msg txn (v, err op code) = (w', .returned x)) (herr : x.err.isNone = false) :
    ((w.txns txn).managed || (operrno op code).isNone) = false := by
  unfold unmanaged at hr
  split at hr
  · cases hr
  · rename_i hmanaged
    have hx := congrArg Returned.err (Reply.returned.inj (congrArg Prod.snd hr))
    rw [← hx] at herr
    exact Bool.or_eq_false_iff.mpr ⟨by simpa using hmanaged, herr⟩

theorem renew_refused {x : Returned} (hr : w.exec o i thread (.renew txn) = some (w', .returned x))
    (herr : x.err.isNone = false) : refusal w o thread (.renew txn) = some txn :=
  if_neg (Bool.eq_false_iff.mp (err_of_unmanaged (Option.some.inj hr) herr))

theorem reset_refused {x : Returned} (hr : w.exec o i thread (.reset txn) = some (w', .returned x))
    (herr : x.err.isNone = false) : refusal w o thread (.reset txn) = some txn :=
  if_neg (Bool.eq_false_iff.mp (err_of_unmanaged (Option.some.inj hr) herr))

/-- A transaction that a thread begins is at home there. -/
theorem begun_home {parent : Option Handle} {flags : UInt32} {x : Returned}
    (hr : w.exec o i thread (.beginTxn parent flags) = some (w', .returned x))
    (htxn : x.txn = some txn) : w'.AtHome thread txn := by
  obtain ⟨b, hb, hrun⟩ := Option.map_eq_some_iff.mp hr
  cases hrun
  obtain ⟨c, _, rfl⟩ := Option.map_eq_some_iff.mp hb
  split at htxn
  · cases htxn
  · rename_i hcode
    obtain rfl : w.next = txn := Option.some.inj htxn
    rw [if_neg hcode]
    right
    simp [World.create, setTxn]

/-- The place and the transactions in hand after a method that has returned. -/
theorem next_minds {call : Call} {x : Returned} (txnid : UInt64) (hplain : a.plain cfg = true)
    (hcall : a.method = some call) (hexec : w.exec o i thread call = some (w', .returned x))
    (hsafe : ∀ h, refusal w o thread call = some h → w.AtHome thread h)
    (hhomes : ∀ h ∈ a.homes cfg, w.AtHome thread h)
    (hkeep : ∀ h ∈ a.has, w.AtHome thread h → w'.AtHome thread h) :
    (a.next txnid x).plain cfg = true ∧
      ∀ h ∈ (a.next txnid x).homes cfg, w'.AtHome thread h := by
  have hnone : ∀ b : At, b.has = [] → ∀ h ∈ b.homes cfg, w'.AtHome thread h := by
    intro b hb h hh
    have hmem := homes_has hh
    rw [hb] at hmem
    cases hmem
  have hone : ∀ k, w'.AtHome thread k → ∀ h ∈ [k], w'.AtHome thread h := by
    intro k hk h hh
    rwa [List.mem_singleton.mp hh]
  -- the transaction goes on in hand
  have hon : ∀ b : At, b.homes cfg = (if cfg.returnTxnToPool then [] else a.has) →
      ∀ h ∈ b.homes cfg, w'.AtHome thread h := by
    intro b hb h hh
    obtain ⟨hoff, hhas⟩ := homes_off hb h hh
    exact hkeep h hhas (hhomes h (homes_of_has hoff hhas))
  cases a with
  | renew k txn =>
    cases hcall
    unfold At.next
    dsimp only
    split
    · cases k <;> exact ⟨rfl, hon _ rfl⟩
    · rename_i herr
      have hhome := hsafe txn (renew_refused hexec (by simpa only [Bool.not_eq_true] using herr))
      exact ⟨rfl, hone txn (hkeep txn List.mem_cons_self hhome)⟩
  | discard k txn => exact ⟨rfl, hnone _ rfl⟩
  | create k =>
    cases hcall
    unfold At.next
    dsimp only
    cases htxn : x.txn with
    | none => exact ⟨rfl, hnone _ rfl⟩
    | some txn =>
      have hhome := begun_home hexec htxn
      have hall : ∀ h ∈ (k.delivered txn).homes cfg, w'.AtHome thread h := by
        intro h hh
        have hmem := homes_has hh
        rw [delivered_has] at hmem
        exact hone txn hhome h hmem
      refine ⟨?_, hall⟩
      cases k <;> rfl
  | leave txn res => exact ⟨rfl, hon _ rfl⟩
  | reset txn =>
    cases hcall
    unfold At.next
    dsimp only
    split
    · exact ⟨hplain, hon _ rfl⟩
    · rename_i herr
      have hhome := hsafe txn (reset_refused hexec (by simpa only [Bool.not_eq_true] using herr))
      exact ⟨rfl, hone txn (hkeep txn List.mem_cons_self hhome)⟩
  | id k txn =>
    cases k with
    | handleOutstanding => exact ⟨hplain, hon _ rfl⟩
    | handleIdle => cases hplain
  | runOp txn | abort txn => exact ⟨rfl, hnone _ rfl⟩
  | renewStale | abortStale | closeAbort | runTxn | saveID | terminate => cases hplain
  | _ => cases hcall

theorem Moved.atHome (hm : Moved cfg i s t s' t' new c) (ok : s.world.lib.Ok)
    (hknown : h < s.world.next) (home : s.world.AtHome thread h) : s'.world.AtHome thread h := by
  rcases hm.world with hsame | ⟨e, r, _, hr, hw⟩
  · rw [hsame]
    exact home
  · rw [hw]
    exact step_atHome ok hr hknown home

theorem unwind_homes (hh : h ∈ a.unwind.homes cfg) (hplain : a.plain cfg = true) :
    cfg.returnTxnToPool = false ∧ h ∈ a.has := by
  cases a with
  | runOp txn | leave txn res => exact homes_off rfl h hh
  | id k txn =>
    cases k with
    | handleOutstanding => exact absurd (homes_has hh) List.not_mem_nil
    | handleIdle => cases hplain
  | renewStale k txn | abortStale k txn => cases hplain
  | _ => exact absurd (homes_has hh) List.not_mem_nil

theorem unwind_plain (hplain : a.plain cfg = true) : a.unwind.plain cfg = true := by
  cases a with
  | id k txn =>
    cases k with
    | handleOutstanding => rfl
    | handleIdle => cases hplain
  | renewStale k txn | abortStale k txn => cases hplain
  | _ => rfl

/-- The pool's own steps at the places of `View` and `BeginTxn`, when no update is known. -/
theorem atomic_plain (ha : a.atomic cfg s = some (s', a', new)) (hplain : a.plain cfg = true)
    (hlast : s.lastid = 0) (hempty : cfg.returnTxnToPool = false → s.pool = []) :
    a'.plain cfg = true ∧ (∀ h ∈ a'.homes cfg, cfg.returnTxnToPool = false ∧ h ∈ a.has) ∧
      new = [] ∧ s'.lastid = 0 ∧ (cfg.returnTxnToPool = false → s'.pool = []) := by
  cases a with
  | held txn =>
    cases ha
    exact ⟨rfl, homes_off rfl, rfl, hlast, hempty⟩
  | abortReadonly txn =>
    cases ha
    by_cases hreturn : cfg.returnTxnToPool = true
    · have hplaces : (if !cfg.returnTxnToPool then At.abort txn
          else if cfg.updateHandling.handlesUpdates then .id .handleOutstanding txn
          else .reset txn) = .id .handleOutstanding txn ∨
          (if !cfg.returnTxnToPool then At.abort txn
          else if cfg.updateHandling.handlesUpdates then .id .handleOutstanding txn
          else .reset txn) = .reset txn := by
        rw [if_neg (by simp [hreturn])]
        split
        · exact .inl rfl
        · exact .inr rfl
      rcases hplaces with hplace | hplace
      · rw [hplace]
        exact ⟨hreturn, homes_off rfl, rfl, hlast, hempty⟩
      · rw [hplace]
        exact ⟨hreturn, homes_off rfl, rfl, hlast, hempty⟩
    · rw [if_pos (by simpa using hreturn)]
      exact ⟨rfl, fun h hh => ⟨by simpa using hreturn, hh⟩, rfl, hlast, hempty⟩
  | put txn =>
    cases ha
    refine ⟨rfl, fun h hh => absurd (homes_has hh) List.not_mem_nil, rfl, hlast, fun hoff => ?_⟩
    rw [show At.plain cfg (.put txn) = cfg.returnTxnToPool from rfl, hoff] at hplain
    cases hplain
  | getLastID k txn txnid =>
    cases k with
    | handleOutstanding =>
      cases ha
      have hfresh : ¬ txnid < s.lastid := by
        rw [hlast]
        exact UInt64.not_lt.mpr (UInt64.zero_le)
      rw [if_neg hfresh]
      exact ⟨hplain, homes_off rfl, rfl, hlast, hempty⟩
    | handleIdle => cases hplain
  | handleReadonly | enterIdle | putBack | putFresh | leaveIdle | commitID => cases hplain
  | _ => cases ha

theorem got_plain {got : Option Handle} (ha : a.got got = some a') (hplain : a.plain cfg = true)
    (hall : ∀ h ∈ got, h ∈ s.pool) (hempty : cfg.returnTxnToPool = false → s.pool = []) :
    a'.plain cfg = true ∧ a'.homes cfg = [] ∧
      (cfg.returnTxnToPool = false → got.elim s.pool s.pool.erase = []) := by
  cases a with
  | get k =>
    cases ha
    cases got with
    | none => exact ⟨rfl, ite_self [], hempty⟩
    | some txn =>
      have hpool := hall txn rfl
      have hreturn : cfg.returnTxnToPool = true := by
        by_contra hoff
        rw [hempty (by simpa using hoff)] at hpool
        cases hpool
      refine ⟨rfl, if_pos hreturn, fun hoff => ?_⟩
      rw [hreturn] at hoff
      cases hoff
  | getIdle back => cases hplain
  | close => cases hplain
  | _ => cases ha

/-- A step at the places of `View` and `BeginTxn`. -/
theorem Moved.minds (hm : Moved cfg i s t s' t' new c) (sane : Sane s.world n)
    (hhas : ∀ h ∈ t.at_.has, h < s.world.next) (hstands : t.at_.stands (s.world.frames i))
    (minds : Minds cfg thread s.world t) (hlast : s.lastid = 0)
    (hempty : cfg.returnTxnToPool = false → s.pool = [])
    (hsafe : ∀ self o call, c = .calls self o → t.at_.method = some call → self = thread ∧
      ∀ h, refusal s.world o self call = some h → s.world.AtHome self h) :
    Minds cfg thread s'.world t' ∧ new = [] ∧ s'.lastid = 0 ∧
      (cfg.returnTxnToPool = false → s'.pool = []) := by
  have hkeep : ∀ h ∈ t.at_.has, s.world.AtHome thread h → s'.world.AtHome thread h :=
    fun h hh home => hm.atHome sane.ok (hhas h hh) home
  have hcarry : ∀ b : At, (∀ h ∈ b.homes cfg, cfg.returnTxnToPool = false ∧ h ∈ t.at_.has) →
      ∀ h ∈ b.homes cfg, s'.world.AtHome thread h := by
    intro b hb h hh
    obtain ⟨hoff, hmem⟩ := hb h hh
    exact hkeep h hmem (minds.homes h (homes_of_has hoff hmem))
  cases hm with
  | @method self o call r hcall hr hs ht hnew =>
    obtain ⟨rfl, hrefusal⟩ := hsafe self o call rfl hcall
    have hexec := step_exec hr
    have hmatch := method_matches sane.known hhas minds hstands hcall hexec
    subst hs ht
    obtain ⟨w', reply⟩ := r
    refine ⟨?_, hnew, hlast, hempty⟩
    cases reply with
    | panicked p =>
      refine ⟨unwind_plain minds.plain, hcarry _ fun h hh => unwind_homes hh minds.plain, ?_⟩
      rintro current open' hout
      obtain rfl : p = .threadMismatch current open' := Result.panicked.inj hout
      cases hmatch
    | running k =>
      obtain ⟨at_, out⟩ := t
      cases at_ with
      | runOp txn =>
        cases hcall
        cases hexec
        exact ⟨rfl, hcarry _ (homes_off rfl), minds.out⟩
      | runTxn => cases minds.plain
      | _ => exact ⟨rfl, fun h hh => absurd (homes_has hh) List.not_mem_nil, minds.out⟩
    | returned x =>
      obtain ⟨hplain, hhomes⟩ :=
        next_minds (s.idAt t.at_) minds.plain hcall hexec hrefusal minds.homes hkeep
      refine ⟨hplain, hhomes, fun current open' hout => ?_⟩
      change (if t.at_.passes then Result.ofReply (.returned x) else t.out) = _ at hout
      split at hout
      · cases herr : x.err with
        | none => rw [Result.ofReply, herr] at hout; cases hout
        | some e => rw [Result.ofReply, herr] at hout; cases hout
      · exact minds.out current open' hout
  | atomic _ _ ha hout =>
    obtain ⟨hplain, hhomes, hnew, hlast', hempty'⟩ := atomic_plain ha minds.plain hlast hempty
    refine ⟨⟨hplain, hcarry _ hhomes, ?_⟩, hnew, hlast', hempty'⟩
    rw [hout]
    exact minds.out
  | @got txn hall ha hs hout hnew =>
    subst hs
    obtain ⟨hplain, hhomes, hempty'⟩ := got_plain ha minds.plain hall hempty
    refine ⟨⟨hplain, fun h hh => ?_, ?_⟩, hnew, hlast, hempty'⟩
    · rw [hhomes] at hh
      cases hh
    · rw [hout]
      exact minds.out
  | event _ _ _ _ hs ht hnew =>
    subst hs ht
    exact ⟨⟨minds.plain, fun h hh => hkeep h (homes_has hh) (minds.homes h hh), minds.out⟩, hnew,
      hlast, hempty⟩
  | @ended res _ ha hs hout hnew =>
    subst hs
    obtain ⟨at_, out⟩ := t
    obtain ⟨at', out'⟩ := t'
    obtain rfl : out' = out := hout
    cases at_ with
    | viewing txn =>
      obtain rfl : At.leave txn res = at' := Option.some.inj ha
      exact ⟨⟨rfl, hcarry _ (homes_off rfl), minds.out⟩, hnew, hlast, hempty⟩
    | updating txn => cases minds.plain
    | _ => cases ha

/-! ### All runs -/

/-- What holds of a pool over an environment in strict-thread mode. -/
structure Homely (cfg : Config) (th : Gor → Thread) (q : Threads TxnPool Goroutine) : Prop where
  lastid : q.shared.lastid = 0
  empty : cfg.returnTxnToPool = false → q.shared.pool = []
  minds : ∀ (i : Nat) (t : Goroutine), q.threads[i]? = some t → Minds cfg (th i) q.shared.world t

theorem start_minds {b : Entry} (hb : onThreads th q (.enter b) = true) :
    Minds cfg thread w b.start := by
  have hnone : ∀ x : Goroutine, x.at_.plain cfg = true → x.at_.has = [] →
      (∀ current open', x.out ≠ .panicked (.threadMismatch current open')) →
      Minds cfg thread w x := by
    intro x hplain hhas hout
    refine ⟨hplain, fun h hh => ?_, hout⟩
    have hmem := homes_has hh
    rw [hhas] at hmem
    cases hmem
  cases b with
  | app => exact hnone _ rfl rfl fun _ _ h => by cases h
  | view => exact hnone _ rfl rfl fun _ _ h => by cases h
  | beginTxn flags =>
    simp only [Entry.start]
    split
    · exact hnone _ rfl rfl fun _ _ h => by cases h
    · exact hnone _ rfl rfl fun _ _ h => by cases h
  | update | commitID | close => cases hb

theorem next_homely (ord : Orderly q) (homely : Homely cfg th q) (hth : onThreads th q e = true)
    (hunmoved : unmoved q e = true) (hs : (program cfg).next q e = some q') : Homely cfg th q' := by
  cases e with
  | enter b =>
    have hs' := Program.next_enter hs
    subst hs'
    refine ⟨homely.lastid, homely.empty, fun i t ht => ?_⟩
    rcases Program.thread_entered ht with hq | ⟨_, rfl⟩
    · exact homely.minds i t hq
    · exact start_minds hth
  | run i c =>
    obtain ⟨u, u', new, hi, hstep, hthreads⟩ := Program.next_run hs
    have hm := step_moved hstep
    have hknown : ∀ (j : Nat) (t : Goroutine), q.threads[j]? = some t →
        ∀ h ∈ t.at_.has, h < q.shared.world.next :=
      fun j t ht h hh => ord.known h (Kept.mem_custody ht hh)
    obtain ⟨hminds, hnew, hlast, hempty⟩ := hm.minds ord.sane (hknown i u hi) (ord.stands i u hi)
      (homely.minds i u hi) homely.lastid homely.empty fun self o call hc hcall => by
        subst hc
        refine ⟨of_decide_eq_true hth, fun h hh => ?_⟩
        simp only [unmoved, hi, hcall, hh, Option.all_some, decide_eq_true_iff] at hunmoved
        exact hunmoved
    refine ⟨hlast, hempty, fun j t ht => ?_⟩
    rw [hthreads] at ht
    rcases Program.thread_after ht with ⟨rfl, rfl⟩ | ⟨hij, hq⟩ | ⟨k, _, hk⟩
    · exact hminds
    · have old := homely.minds j t hq
      refine ⟨old.plain, fun h hh => ?_, old.out⟩
      exact hm.atHome ord.sane.ok (hknown j t hq h (homes_has hh)) (old.homes h hh)
    · rw [hnew] at hk
      cases hk

theorem homely_invariant : (program cfg).system.Invariant
    (fun q e => onThreads th q e = true ∧ unmoved q e = true)
    fun q => Orderly q ∧ Homely cfg th q := by
  refine (orderly_invariant _).strengthen (fun q hq => ?_) fun q e q' ord _ homely hok hs => ?_
  · obtain ⟨⟨_, hpool, hlast, _⟩, hthreads⟩ := hq
    exact ⟨hlast, fun _ => hpool, by simp [hthreads]⟩
  · exact next_homely ord homely hok.1 hok.2 hs

/-- The methods that a caller's function calls do not panic on a thread that made the `Txn`. -/
theorem unmoved_matches (ord : Orderly q) (homely : Homely cfg th q)
    (hth : onThreads th q e = true) (hunmoved : unmoved q e = true) : ¬Mismatches q e := by
  rintro ⟨i, c, t, x, r, rfl, hi, hcalling, hr, hm⟩
  cases c with
  | calls self o =>
    obtain ⟨call, hcall, rfl⟩ := Option.map_eq_some_iff.mp hcalling
    obtain rfl : self = th i := of_decide_eq_true hth
    have hhas : ∀ h ∈ t.at_.has, h < q.shared.world.next := fun h hh =>
      ord.known h (Kept.mem_custody hi hh)
    rw [method_matches ord.sane.known hhas (homely.minds i t hi) (ord.stands i t hi) hcall
      (step_exec hr)] at hm
    cases hm
  | does x' =>
    cases x' with
    | go g self o call =>
      simp only [calling] at hcalling
      split at hcalling
      · cases hcalling
      · rename_i happ
        cases hcalling
        obtain ⟨h, hchecks, hmis⟩ := exec_mismatch (step_exec hr) hm
        simp only [unmoved, hi, hchecks, happ, Option.all_some, decide_false, Bool.false_or,
          decide_eq_true_iff] at hunmoved
        have hknown : h < q.shared.world.next := by
          rcases step_cases hr with ⟨_, _, _, _, he, hhandles, _, _⟩ | ⟨_, _, he, _⟩ |
            ⟨_, _, he, _⟩ | ⟨he, _⟩
          · cases he
            exact ord.sane.known.uses hhandles h (checks_uses hchecks)
          all_goals cases he
        rw [← hunmoved, mismatched_begun ord.sane.known hknown] at hmis
        cases hmis
    | _ => cases hcalling
  | _ => cases hcalling

/-- In every run of `View` and `BeginTxn` in which transactions of the pool are refused a renewal or
a reset only on the thread that made them, nothing panics with a thread mismatch: no method of the
pool has, and the next step does not. -/
theorem no_mismatch
    (run : (program cfg).system.Reaches
      (fun q e => onThreads th q e = true ∧ unmoved q e = true) q) :
    (∀ t ∈ q.threads, ∀ current open', t.out ≠ .panicked (.threadMismatch current open')) ∧
      ∀ e, onThreads th q e = true → unmoved q e = true → ¬Mismatches q e := by
  obtain ⟨ord, homely⟩ := run.invariant homely_invariant
  refine ⟨fun t ht => ?_, fun e hth hunmoved => unmoved_matches ord homely hth hunmoved⟩
  obtain ⟨i, hi⟩ := List.getElem?_of_mem ht
  exact (homely.minds i t hi).out

/-- A `View` on the thread 1 has left its transaction in the bag. -/
def lent : List (Threads.Event Entry Choice) :=
  [.enter .view, .run 0 (.gets none), .run 0 (.calls 1 {}), .run 0 (.calls 1 {}),
    .run 0 (.ends .nil),
    .run 0 (.calls 1 {}), .run 0 (.calls 1 {}), .run 0 (.calls 1 {}), .run 0 (.calls 1 {}),
    .enter .view, .run 1 (.gets (some 0))]

def strictly : Threads TxnPool Goroutine := ⟨{ world := { strictThreadCheck := true } }, []⟩

theorem strictly_init (cfg : Config) : (program cfg).system.init strictly :=
  ⟨⟨⟨rfl, rfl, rfl, rfl, rfl, rfl, by decide⟩, rfl, rfl, rfl, rfl⟩, rfl⟩

/-- A `View` on the thread 2 gets the transaction, and its renewal finds no memory. -/
theorem mismatch_renewed : ¬∀ (cfg : Config) (th : Gor → Thread) (q : Threads TxnPool Goroutine),
    (program cfg).system.Reaches
      (fun q e => onThreads th q e = true ∧ respects q e = true) q →
    ∀ t ∈ q.threads, ∀ current open', t.out ≠ .panicked (.threadMismatch current open') := by
  intro hall
  obtain ⟨q, run, hq⟩ := System.exists_of_replay (program {}).system
    (fun q e => onThreads (fun i => i + 1) q e = true ∧ respects q e = true)
    (lent ++ [.run 1 (.calls 2 { roStart := some Failure.noMemory }), .run 1 (.calls 2 {})])
    strictly
    (fun q : Threads TxnPool Goroutine =>
      decide (q.threads[1]? = some (⟨.returned, .panicked (.threadMismatch 2 1)⟩ : Goroutine)))
    (strictly_init _) (by decide +kernel)
  have ht := List.mem_of_getElem? (of_decide_eq_true hq)
  exact hall {} _ q run _ ht 2 1 rfl

/-- The renewal on the thread 2 succeeds, and so does its own reset. -/
theorem no_mismatch_reused : ∃ q : Threads TxnPool Goroutine,
    q.shared.world.strictThreadCheck = true ∧
    (q.shared.world.txns 0).begun = 1 ∧ q.threads[1]? = some ⟨.returned, .nil⟩ ∧
    (∀ t ∈ q.threads, ∀ current open', t.out ≠ .panicked (.threadMismatch current open')) ∧
      ∀ e, onThreads (fun i => i + 1) q e = true → unmoved q e = true → ¬Mismatches q e := by
  obtain ⟨q, run, hq⟩ := System.exists_of_replay (program {}).system
    (fun q e => onThreads (fun i => i + 1) q e = true ∧ unmoved q e = true)
    (lent ++ [.run 1 (.calls 2 {}), .run 1 (.calls 2 {}), .run 1 (.ends .nil), .run 1 (.calls 2 {}),
      .run 1 (.calls 2 {}), .run 1 (.calls 2 {}), .run 1 (.calls 2 {})]) strictly
    (fun q : Threads TxnPool Goroutine => q.shared.world.strictThreadCheck &&
      decide ((q.shared.world.txns 0).begun = 1) &&
      decide (q.threads[1]? = some (⟨.returned, .nil⟩ : Goroutine)))
    (strictly_init _) (by decide +kernel)
  simp only [Bool.and_eq_true, decide_eq_true_iff] at hq
  obtain ⟨⟨hstrict, hbegun⟩, hreturned⟩ := hq
  exact ⟨q, hstrict, hbegun, hreturned, no_mismatch run⟩

end TxnPool

end MdbxGo
