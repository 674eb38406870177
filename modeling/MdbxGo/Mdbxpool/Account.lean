import MdbxGo.Mdbxpool.Fresh
import MdbxGo.Mdbxpool.LastID

/-! Every reader that a pool has begun is in one hand, in the bag, or aborted: when that is so, and
the returns after which a reader is nowhere and still live. -/

namespace MdbxGo

namespace World

open MdbxEnv

variable {w w' : World} {o : Sys} {g : Gor} {self : Thread} {call : Call} {h : Handle} {a : Addr}

/-- A method that the pool calls panics, or aborts nothing since the environment has failed. -/
def fails (w : World) (self : Thread) : Call → Bool
  | .renew h | .reset h => (w.txns h).managed
  | .abort h =>
    (w.txns h).managed || ((w.txns h).ptr.isSome && (w.mismatched self h || w.lib.fatal))
  | _ => false

theorem unmanaged_returns {msg : String} {method r : World × Reply}
    (hr : w.unmanaged msg h method = r) (hm : (w.txns h).managed = false)
    (hmethod : ∃ x, method.2 = .returned x) : ∃ x, r.2 = .returned x := by
  unfold unmanaged at hr
  rw [if_neg (by simp [hm])] at hr
  exact hr ▸ hmethod

theorem renew_returns {r : World × Reply} (hr : w.exec o g self (.renew h) = some r)
    (hok : w.fails self (.renew h) = false) : ∃ x, r.2 = .returned x :=
  unmanaged_returns (Option.some.inj hr) hok ⟨_, rfl⟩

theorem reset_returns {r : World × Reply} (hr : w.exec o g self (.reset h) = some r)
    (hok : w.fails self (.reset h) = false) : ∃ x, r.2 = .returned x :=
  unmanaged_returns (Option.some.inj hr) hok ⟨_, rfl⟩

theorem abort_returns {r : World × Reply} (hr : w.exec o g self (.abort h) = some r)
    (hok : w.fails self (.abort h) = false) : ∃ x, r.2 = .returned x := by
  simp only [fails, Bool.or_eq_false_iff, Bool.and_eq_false_iff] at hok
  refine unmanaged_returns (Option.some.inj hr) hok.1 ?_
  unfold abortTxn
  split
  · exact ⟨_, rfl⟩
  · rename_i hptr
    have hmis : w.mismatched self h = false := by
      rcases hok.2 with hnone | hrest
      · exact absurd (by simpa using hnone) hptr
      · exact hrest.1
    rw [if_neg (by simp [hmis])]
    exact ⟨_, rfl⟩

/-- An abort that is not refused frees a live reader. -/
theorem abort_frees {r : World × Reply} (hr : w.exec o g self (.abort h) = some r)
    (hok : w.fails self (.abort h) = false) (live : w.Live h a) : r.1.lib.readers a = none := by
  obtain ⟨hp, hreader, _⟩ := live
  have hr : w.abort o self h = r := Option.some.inj hr
  simp only [fails, hp, Option.isSome_some, Bool.true_and, Bool.or_eq_false_iff] at hok
  obtain ⟨hmanaged, hmis, hfatal⟩ := hok
  unfold World.abort unmanaged abortTxn at hr
  rw [if_neg (by simp [hmanaged]), if_neg (by simp [hp]), if_neg (by simp [hmis])] at hr
  subst hr
  have hnone : ¬ (w.lib.readers a).isNone = true := by
    rw [Option.isNone_iff_eq_none]
    exact Option.isSome_iff_ne_none.mp hreader
  have hlib : (w.lib.mdbxTxnAbort o self (w.txns h).ptr).1 = w.lib.setReader a none := by
    rw [hp]
    simp only [mdbxTxnAbort]
    rw [if_neg hnone, if_neg (by simp [hfatal])]
  change (w.lib.mdbxTxnAbort o self (w.txns h).ptr).1.readers a = none
  rw [hlib, setReader_self]

theorem finish_stops {res : FnResult} {r : World × Reply}
    (hr : w.exec o g self (.finish res) = some r) : ∀ k, r.2 ≠ .running k := by
  have hterminate : ∀ (v : World) (k : Handle), ∀ j, (v.terminate o self k res).2 ≠ .running j := by
    intro v k j
    cases res with
    | nil =>
      simp only [terminate, commitTxn]
      split <;> simp [mismatch, err]
    | error =>
      simp only [terminate]
      split <;> simp
    | panic =>
      simp only [terminate]
      split <;> simp
  intro k
  simp only [exec, finish] at hr
  split at hr
  · cases hr
  · split at hr
    · cases hr
      exact hterminate _ _ k
    · cases hr
      exact hterminate _ _ k
    · cases hr
      cases res <;> simp [leave]
    · cases hr

end World

namespace TxnPool

open Threads Transition MdbxEnv World

variable {cfg : Config} {s s' : TxnPool} {i j n : Nat} {t t' u : Goroutine} {c : Choice}
  {new : List Goroutine} {w w' : World} {txn h : Handle} {a a' : At} {o : Sys} {thread : Thread}
  {q q' : Threads TxnPool Goroutine} {e : Threads.Event Entry Choice}

/-- The readers in hand: all transactions in hand but that of an update. -/
def At.reader : At → List Handle
  | .updating _ | .saveID _ | .terminate _ _ _ => []
  | a => a.has

theorem reader_of_quiet (hquiet : a.quiet = true) : a.reader = a.has := by
  cases a with
  | updating | saveID | terminate => cases hquiet
  | _ => rfl

/-- Where the readers of the pool are: in the bag or in hand. -/
def tally (q : Threads TxnPool Goroutine) : List Handle :=
  q.shared.pool ++ q.threads.flatMap (·.at_.reader)

/-- A method that returns or runs a function leaves the reader in hand where it is, unless it
aborts it. -/
theorem resume_reader {call : Call} {r : World × Reply} (txnid : UInt64)
    (hcall : t.at_.method = some call) (hr : w.step (.go i thread o call) = some r)
    (hok : w.fails thread call = false) :
    (call ≠ .abort h ∧ (t.resume txnid r.2).at_.reader.count h =
      t.at_.reader.count h + ((t.at_.begins r).map (·.1)).count h) ∨
    (call = .abort h ∧ t.at_.reader = [h] ∧ (t.resume txnid r.2).at_.reader = [] ∧
      t.at_.begins r = []) := by
  have hexec := step_exec hr
  obtain ⟨at_, out⟩ := t
  obtain ⟨w', reply⟩ := r
  have haborts : ∀ k, call = .abort k → at_.reader = [k] → at_.begins (w', reply) = [] →
      (Goroutine.resume txnid ⟨at_, out⟩ reply).at_.reader = [] →
      (call ≠ .abort h ∧ (Goroutine.resume txnid ⟨at_, out⟩ reply).at_.reader.count h =
        at_.reader.count h + ((at_.begins (w', reply)).map (·.1)).count h) ∨
      (call = .abort h ∧ at_.reader = [h] ∧
        (Goroutine.resume txnid ⟨at_, out⟩ reply).at_.reader = [] ∧
          at_.begins (w', reply) = []) := by
    intro k hk hreader hbegins hafter
    by_cases hkh : k = h
    · subst hkh
      exact .inr ⟨hk, hreader, hafter, hbegins⟩
    · refine .inl ⟨fun heq => hkh ?_, ?_⟩
      · rw [hk] at heq
        exact Call.abort.inj heq
      · simp [hreader, hbegins, hafter, hkh]
  change at_.method = some call at hcall
  cases at_ with
  | renew k txn =>
    cases hcall
    obtain ⟨x, rfl⟩ := renew_returns hexec hok
    refine .inl ⟨by simp, ?_⟩
    change (At.next txnid x (.renew k txn)).reader.count h = _
    unfold At.next
    dsimp only
    split
    · cases k <;> rfl
    · rfl
  | discard k txn =>
    cases hcall
    obtain ⟨x, rfl⟩ := abort_returns hexec hok
    exact haborts txn rfl rfl rfl rfl
  | create k =>
    cases hcall
    obtain ⟨b, hb, heq⟩ := Option.map_eq_some_iff.mp hexec
    cases heq
    refine .inl ⟨by simp, ?_⟩
    change (At.next txnid b.2 (.create k)).reader.count h = _
    unfold At.next At.begins
    dsimp only
    cases b.2.txn with
    | none => rfl
    | some j => cases k <;> simp [Starter.delivered, At.reader, At.has]
  | runOp txn =>
    cases hcall
    cases hexec
    exact .inl ⟨by simp, rfl⟩
  | leave txn res =>
    cases hcall
    refine .inl ⟨by simp, ?_⟩
    cases reply with
    | panicked p => rfl
    | returned x => rfl
    | running k => exact absurd rfl (finish_stops hexec k)
  | reset txn =>
    cases hcall
    obtain ⟨x, rfl⟩ := reset_returns hexec hok
    refine .inl ⟨by simp, ?_⟩
    change (At.next txnid x (.reset txn)).reader.count h = _
    unfold At.next
    dsimp only
    split <;> rfl
  | abort txn =>
    cases hcall
    obtain ⟨x, rfl⟩ := abort_returns hexec hok
    exact haborts txn rfl rfl rfl rfl
  | id k txn =>
    cases hcall
    cases hexec
    exact .inl ⟨by simp, rfl⟩
  | renewStale k txn =>
    cases hcall
    obtain ⟨x, rfl⟩ := renew_returns hexec hok
    refine .inl ⟨by simp, ?_⟩
    change (At.next txnid x (.renewStale k txn)).reader.count h = _
    unfold At.next
    dsimp only
    split
    · cases k <;> rfl
    · rfl
  | abortStale k txn =>
    cases hcall
    obtain ⟨x, rfl⟩ := abort_returns hexec hok
    exact haborts txn rfl rfl rfl (by cases k <;> rfl)
  | closeAbort txn =>
    cases hcall
    obtain ⟨x, rfl⟩ := abort_returns hexec hok
    exact haborts txn rfl rfl rfl rfl
  | runTxn =>
    cases hcall
    refine .inl ⟨by simp, ?_⟩
    cases reply <;> rfl
  | saveID txn =>
    cases hcall
    cases hexec
    exact .inl ⟨by simp, rfl⟩
  | terminate txn res saved =>
    cases hcall
    refine .inl ⟨by simp, ?_⟩
    cases reply with
    | panicked p => rfl
    | returned x =>
      change (At.next txnid x (.terminate txn res saved)).reader.count h = _
      unfold At.next
      dsimp only
      split <;> rfl
    | running k => rfl
  | _ => cases hcall

theorem atomic_begun (ha : a.atomic cfg s = some (s', a', new)) : s'.begun = s.begun := by
  unfold At.atomic at ha
  split at ha
  · cases ha; rfl
  · cases ha; rfl
  · cases ha; rfl
  · cases ha; rfl
  · cases ha; rfl
  · split at ha <;> cases ha <;> rfl
  · cases ha; rfl
  · cases ha; rfl
  · cases ha; rfl
  · obtain ⟨r, _, heq⟩ := Option.map_eq_some_iff.mp ha
    cases heq
    rfl
  · cases ha

/-- How a step moves the readers between the hands and the bag: none is lost but by an abort, or
where it is stale and nothing is to be done about it. -/
theorem Moved.reader (hm : Moved cfg i s t s' t' new c) (h : Handle)
    (hok : ∀ thread o call, c = .calls thread o → t.at_.method = some call →
      s.world.fails thread call = false)
    (hset : ∀ thread o k txn, c = .calls thread o → t.at_ = .handleReadonly k txn →
      k.isSet cfg.updateHandling = true) :
    (t.at_.method ≠ some (.abort h) ∧ s'.pool.count h + t'.at_.reader.count h +
        (s.begun.map (·.1)).count h =
      s.pool.count h + t.at_.reader.count h + (s'.begun.map (·.1)).count h) ∨
    (t.at_.method = some (.abort h) ∧ t.at_.reader = [h] ∧ t'.at_.reader = [] ∧ s'.pool = s.pool ∧
      s'.begun = s.begun) := by
  cases hm with
  | method hcall hr hs ht _ =>
    subst hs ht
    have hreader := resume_reader (h := h) (s.idAt t.at_) hcall hr (hok _ _ _ rfl hcall)
    rcases hreader with ⟨hne, hcount⟩ | ⟨rfl, hold, hnew, hb⟩
    · refine .inl ⟨by rw [hcall]; simpa using hne, ?_⟩
      dsimp only
      rw [hcount, List.map_append, List.count_append]
      omega
    · exact .inr ⟨hcall, hold, hnew, rfl, by simp [hb]⟩
  | atomic hnone _ ha _ =>
    refine .inl ⟨by simp [hnone], ?_⟩
    have hbegun : s'.begun = s.begun := atomic_begun ha
    have hreader : t.at_.reader = t.at_.has ∧ t'.at_.reader = t'.at_.has := by
      by_cases hquiet : t.at_.quiet = true
      · exact ⟨reader_of_quiet hquiet, reader_of_quiet (atomic_quiet hquiet ha).1⟩
      · generalize t.at_ = at_ at ha hquiet
        generalize t'.at_ = at' at ha
        cases at_ with
        | commitID saved at_ =>
          obtain ⟨r, _, heq⟩ := Option.map_eq_some_iff.mp ha
          cases heq
          exact ⟨rfl, rfl⟩
        | runTxn | updating | saveID | terminate => cases ha
        | _ => exact absurd rfl hquiet
    rw [hreader.1, hreader.2, hbegun]
    rcases atomic_has (h := h) ha with heq | ⟨k, hat, hunset, _, _⟩
    · omega
    · rw [hset _ _ k h rfl hat] at hunset
      cases hunset
  | got hall ha hs _ _ =>
    subst hs
    have hreader : t.at_.reader = t.at_.has := by
      generalize t.at_ = at_ at ha
      cases at_ with
      | get | getIdle | close => rfl
      | _ => cases ha
    have hnone : t.at_.method = none := by
      generalize t.at_ = at_ at ha
      cases at_ with
      | get | getIdle | close => rfl
      | _ => cases ha
    refine .inl ⟨by simp [hnone], ?_⟩
    rw [hreader, reader_of_quiet (got_quiet ha)]
    have heq := got_has (h := h) ha hall
    dsimp only
    omega
  | event hfree _ _ _ hs ht _ =>
    subst hs ht
    refine .inl ⟨?_, rfl⟩
    obtain ⟨at_, out⟩ := t'
    cases at_ with
    | app | held | viewing | updating => simp [At.method]
    | _ => cases hfree
  | @ended res _ ha hs _ _ =>
    subst hs
    obtain ⟨at_, out⟩ := t
    obtain ⟨at', out'⟩ := t'
    cases at_ with
    | viewing txn =>
      obtain rfl : At.leave txn res = at' := Option.some.inj ha
      exact .inl ⟨by simp [At.method], rfl⟩
    | updating txn =>
      obtain rfl : (if res = .nil then At.saveID txn else .terminate txn res 0) = at' :=
        Option.some.inj ha
      refine .inl ⟨by simp [At.method], ?_⟩
      split <;> rfl
    | _ => cases ha

/-! ### The claims of the callers -/

/-- The reader `p` that the pool has begun for `h` is in one hand or in the bag, once and live, or
it is nowhere and aborted. -/
def Accounted (q : Threads TxnPool Goroutine) (h : Handle) (p : Option Ptr) : Prop :=
  ∃ a, p = some (.reader a) ∧
    ((tally q).count h = 1 ∧ (q.shared.world.lib.readers a).isSome = true ∨
      (tally q).count h = 0 ∧ q.shared.world.lib.readers a = none)

/-- The callers of the pool leave the end of its readers to it. -/
def spares (q : Threads TxnPool Goroutine) : Threads.Event Entry Choice → Bool
  | .run _ (.does e) => (q.shared.world.concludes e).all fun h => !(tally q).contains h
  | _ => true

/-- `handleReadonly` is called only for what is set, and no method that the pool calls fails. -/
def minds (cfg : Config) (q : Threads TxnPool Goroutine) : Threads.Event Entry Choice → Bool
  | .run i (.calls thread _) =>
    q.threads[i]?.all fun t =>
      (match t.at_ with
        | .handleReadonly k _ => k.isSet cfg.updateHandling
        | _ => true) && t.at_.method.all fun call => !q.shared.world.fails thread call
  | _ => true

theorem minds_method {t : Goroutine} {call : Call}
    (hok : minds cfg q (.run i (.calls thread o)) = true)
    (hi : q.threads[i]? = some t) (hcall : t.at_.method = some call) :
    q.shared.world.fails thread call = false := by
  simp only [minds, hi, hcall, Option.all_some, Bool.and_eq_true, Bool.not_eq_true'] at hok
  exact hok.2

theorem minds_isSet {t : Goroutine} {k : Condition}
    (hok : minds cfg q (.run i (.calls thread o)) = true) (hi : q.threads[i]? = some t)
    (hat : t.at_ = .handleReadonly k txn) : k.isSet cfg.updateHandling = true := by
  simp only [minds, hi, hat, Option.all_some, Bool.and_eq_true] at hok
  exact hok.1

theorem mem_has_of_reader (hh : h ∈ a.reader) : h ∈ a.has := by
  unfold At.reader at hh
  split at hh
  · cases hh
  · cases hh
  · cases hh
  · exact hh

theorem custody_of_tally (hh : h ∈ tally q) : h ∈ custody q := by
  rcases List.mem_append.mp hh with hpool | hhand
  · exact List.mem_append_left _ hpool
  · obtain ⟨t, ht, hh⟩ := List.mem_flatMap.mp hhand
    exact List.mem_append_right _ (List.mem_flatMap.mpr ⟨t, ht, mem_has_of_reader hh⟩)

/-- What `Update` has in hand is no reader of the pool. -/
theorem Kept.not_tallied (kept : Kept q) (hi : q.threads[i]? = some t) (hh : h ∈ t.at_.has)
    (hnone : t.at_.reader = []) : h ∉ tally q := by
  intro htally
  rcases List.mem_append.mp htally with hpool | hhand
  · exact kept.not_pooled hi hh hpool
  · obtain ⟨u, hu, hreader⟩ := List.mem_flatMap.mp hhand
    obtain ⟨j, hj⟩ := List.mem_iff_getElem?.mp hu
    have hij : i ≠ j := by
      rintro rfl
      rw [hi] at hj
      cases hj
      rw [hnone] at hreader
      cases hreader
    exact kept.alone hi hj hij hh (mem_has_of_reader hreader)

/-- The methods that the pool calls end what they abort, and the transaction of an update. -/
theorem concludes_method {call : Call} (hcall : a.method = some call)
    (hstands : a.stands (w.frames i)) (hh : h ∈ w.concludes (.go i thread o call)) :
    call = .abort h ∨ h ∈ a.has ∧ a.reader = [] := by
  cases a with
  | discard | abort | abortStale | closeAbort =>
    cases hcall
    left
    rcases List.mem_append.mp hh with hend | hamend
    · have hend := Option.mem_toList.mp hend
      rw [(Option.some.inj (Option.filter_eq_some_iff.mp hend).1)]
    · cases hamend
  | leave txn res =>
    cases hcall
    obtain ⟨⟨restore, hruns⟩, hlength⟩ := hstands
    obtain ⟨f, hframes, hkind, _⟩ := hruns.single hlength
    obtain ⟨kind, k, ptr, snapshot⟩ := f
    cases hkind
    simp [concludes, ends, hframes] at hh
  | terminate txn res saved =>
    cases hcall
    obtain ⟨hruns, hlength⟩ := hstands
    obtain ⟨f, hframes, hkind, rfl⟩ := hruns.single hlength
    obtain ⟨kind, k, ptr, snapshot⟩ := f
    cases hkind
    simp only [concludes, ends, hframes, List.append_nil, Option.mem_toList] at hh
    have hk := Option.some.inj (Option.filter_eq_some_iff.mp hh).1
    exact .inr ⟨hk ▸ List.mem_cons_self, rfl⟩
  | renew | create | runOp | reset | id | renewStale | saveID | runTxn =>
    cases hcall
    simp [concludes, ends] at hh
  | _ => cases hcall

theorem Moved.live {addr : Addr} (hm : Moved cfg i s t s' t' new c) (ok : s.world.lib.Ok)
    (separate : s.world.Separate) (hknown : h < s.world.next) (live : s.world.Live h addr)
    (hnot : ∀ e, c = .does e → h ∉ s.world.concludes e)
    (hmethod : ∀ thread o call, t.at_.method = some call →
      h ∉ s.world.concludes (.go i thread o call)) : s'.world.Live h addr := by
  cases hm with
  | method hcall hr hs _ _ =>
    subst hs
    exact step_live ok separate hr hknown live (hmethod _ _ _ hcall)
  | atomic _ _ ha _ => exact (atomic_world ha).1 ▸ live
  | got _ _ hs _ _ => exact hs ▸ live
  | event _ _ _ hr hs _ _ =>
    subst hs
    exact step_live ok separate hr hknown live (hnot _ rfl)
  | ended _ _ hs _ _ => exact hs ▸ live

theorem Moved.freed {addr : Addr} (hm : Moved cfg i s t s' t' new c) (ok : s.world.lib.Ok)
    (ha : addr < s.world.lib.brk) : addr < s'.world.lib.brk ∧
      (s.world.lib.readers addr = none → s'.world.lib.readers addr = none) := by
  rcases hm.world with hsame | ⟨e, r, _, hr, hw⟩
  · rw [hsame]
    exact ⟨ha, fun hfree => hfree⟩
  · rw [hw]
    exact step_freed ok hr ha

/-- What the pool begins is a live reader with a new handle. -/
theorem begun_live {b : World × Returned} (ok : w.lib.Ok)
    (hb : w.beginTxn o thread none txnRdonly = some b) (htxn : b.2.txn = some h) :
    ∃ addr, addr < b.1.lib.brk ∧ b.1.Live h addr := by
  obtain ⟨addr, r, hp, hr, _⟩ := create_observes hb htxn
  have ok' : b.1.lib.Ok := (beginTxn_act (g := 0) ok hb).ok ok
  refine ⟨addr, lt_brk_of_reader ok' hr, hp, by rw [hr]; rfl, ?_⟩
  obtain ⟨c, _, rfl⟩ := Option.map_eq_some_iff.mp hb
  split at htxn
  · cases htxn
  · rename_i hcode
    rw [if_neg hcode]
    cases htxn
    exact (congrArg Txn.readonly (Function.update_self _ _ _)).trans
      (show (txnRdonly &&& txnRdonly != 0) = true by decide)

/-! ### The readers in all runs -/

/-- What is booked of a reader that the pool has begun. -/
def Booked (q : Threads TxnPool Goroutine) (b : Handle × Option Ptr) : Prop :=
  ∃ a, b.2 = some (.reader a) ∧ b.1 < q.shared.world.next ∧ a < q.shared.world.lib.brk ∧
    ((tally q).count b.1 = 1 ∧ q.shared.world.Live b.1 a ∨
      (tally q).count b.1 = 0 ∧ q.shared.world.lib.readers a = none)

theorem start_reader (a : Entry) : a.start.at_.reader = [] := by
  cases a with
  | beginTxn flags =>
    simp only [Entry.start]
    split <;> rfl
  | _ => rfl

/-- The number of times that a reader is in the bag or in hand, before and after a step. -/
theorem tally_run {q q' : Threads TxnPool Goroutine} (hi : q.threads[i]? = some t)
    (hstep : step cfg q.shared i t c = some (q'.shared, t', new))
    (hthreads : q'.threads = q.threads.set i t' ++ new) (h : Handle) :
    (tally q').count h + (q.shared.pool.count h + t.at_.reader.count h) =
      (tally q).count h + (q'.shared.pool.count h + t'.at_.reader.count h) := by
  have hset := count_set (h := h) (y := t') (·.at_.reader) hi
  have hnew : new.flatMap (·.at_.reader) = [] := by
    rw [List.flatMap_eq_nil_iff]
    intro u hu
    rw [(step_moved hstep).started u hu]
    rfl
  simp only [tally, hthreads, List.flatMap_append, List.count_append, hnew, List.count_nil]
  omega

/-- What a step adds to the books: at most the reader that `beginReadonly` begins. -/
theorem Moved.begun (hm : Moved cfg i s t s' t' new c) (ok : s.world.lib.Ok) :
    s'.begun = s.begun ∨ ∃ addr, s'.begun = s.begun ++ [(s.world.next, some (.reader addr))] ∧
      s.world.next < s'.world.next ∧ addr < s'.world.lib.brk ∧ s'.world.Live s.world.next addr := by
  cases hm with
  | @method thread o call r hcall hr hs _ _ =>
    subst hs
    have hexec := step_exec hr
    generalize t.at_ = at_ at hcall
    cases at_ with
    | create k =>
      cases hcall
      obtain ⟨b, hb, rfl⟩ := Option.map_eq_some_iff.mp hexec
      cases htxn : b.2.txn with
      | none => exact .inl (by simp [At.begins, htxn])
      | some h =>
        obtain ⟨rfl, hnext, _⟩ := beginTxn_managed hb htxn
        obtain ⟨addr, hbrk, live⟩ := begun_live ok hb htxn
        exact .inr
          ⟨addr, by simp [At.begins, htxn, live.ptr], hnext ▸ Nat.lt_succ_self _, hbrk, live⟩
    | _ => exact .inl (List.append_nil _)
  | atomic _ _ ha _ => exact .inl (atomic_begun ha)
  | got _ _ hs _ _ => exact .inl (by rw [hs])
  | event _ _ _ _ hs _ _ => exact .inl (by rw [hs])
  | ended _ _ hs _ _ => exact .inl (by rw [hs])

theorem Moved.frees {addr : Addr} (hm : Moved cfg i s t s' t' new c)
    (hcall : t.at_.method = some (.abort h))
    (hok : ∀ thread o call, c = .calls thread o → t.at_.method = some call →
      s.world.fails thread call = false)
    (live : s.world.Live h addr) : s'.world.lib.readers addr = none := by
  cases hm with
  | method hcall' hr hs _ _ =>
    subst hs
    have hfails := hok _ _ _ rfl hcall'
    rw [hcall] at hcall'
    cases hcall'
    exact abort_frees (step_exec hr) hfails live
  | atomic hnone _ _ _ =>
    rw [hcall] at hnone
    cases hnone
  | got _ ha _ _ _ =>
    generalize t.at_ = at_ at hcall ha
    cases at_ with
    | get | getIdle | close => cases hcall
    | _ => cases ha
  | event hfree _ _ _ _ _ _ =>
    generalize t.at_ = at_ at hcall hfree
    cases at_ with
    | app | held | viewing | updating => cases hcall
    | _ => cases hfree
  | ended _ ha _ _ _ =>
    generalize t.at_ = at_ at hcall ha
    cases at_ with
    | viewing | updating => cases hcall
    | _ => cases ha

/-- What is booked of a reader from before a step. -/
theorem run_booked (ord : Orderly q) {b : Handle × Option Ptr} (booked : Booked q b)
    (hs : (program cfg).next q (.run i c) = some q')
    (hspares : spares q (.run i c) = true) (hminds : minds cfg q (.run i c) = true)
    (hsame : (q'.shared.begun.map (·.1)).count b.1 = (q.shared.begun.map (·.1)).count b.1) :
    Booked q' b := by
  obtain ⟨t, t', new, hi, hstep, hthreads⟩ := Program.next_run hs
  have hm := step_moved hstep
  have hok : ∀ thread o call, c = .calls thread o → t.at_.method = some call →
      q.shared.world.fails thread call = false := by
    rintro thread o call rfl hcall
    exact minds_method hminds hi hcall
  have hcount := tally_run hi hstep hthreads b.1
  have hmoves := hm.reader b.1 hok fun thread o k txn hc hat => by
    subst hc
    exact minds_isSet hminds hi hat
  obtain ⟨addr, hp, hknown, hbrk, hbooked⟩ := booked
  obtain ⟨hbrk', hfree⟩ := hm.freed ord.sane.ok hbrk
  refine ⟨addr, hp, Nat.lt_of_lt_of_le hknown (hm.later ord.sane.ok).next, hbrk', ?_⟩
  rcases hmoves with ⟨hne, heq⟩ | ⟨hcall, hold, hnew, hpool, _⟩
  · have htally : (tally q').count b.1 = (tally q).count b.1 := by omega
    rw [htally]
    rcases hbooked with ⟨hone, live⟩ | ⟨hzero, hfreed⟩
    · have hin : b.1 ∈ tally q := List.count_pos_iff.mp (by omega)
      refine .inl ⟨hone, hm.live ord.sane.ok ord.separate hknown live ?_ ?_⟩
      · rintro e rfl hend
        have hno := List.all_eq_true.mp hspares b.1 hend
        simp [hin] at hno
      · intro thread o call hcall hend
        rcases concludes_method hcall (ord.stands i t hi) hend with rfl | ⟨hhas, hnone⟩
        · exact hne hcall
        · exact ord.not_tallied hi hhas hnone hin
    · exact .inr ⟨hzero, hfree hfreed⟩
  · rw [hold, hnew, hpool, List.count_singleton_self, List.count_nil] at hcount
    rcases hbooked with ⟨hone, live⟩ | ⟨hzero, _⟩
    · exact .inr ⟨by omega, hm.frees hcall hok live⟩
    · omega

theorem next_booked (ord : Orderly q) (booked : ∀ b ∈ q.shared.begun, Booked q b)
    (hs : (program cfg).next q e = some q') (hspares : spares q e = true)
    (hminds : minds cfg q e = true) : ∀ b ∈ q'.shared.begun, Booked q' b := by
  cases e with
  | enter a =>
    rw [Program.next_enter hs]
    intro b hb
    have htally : tally { q with threads := q.threads ++ [a.start] } = tally q := by
      simp [tally, start_reader]
    obtain ⟨addr, hp, hknown, hbrk, hbooked⟩ := booked b hb
    exact ⟨addr, hp, hknown, hbrk, htally ▸ hbooked⟩
  | run i c =>
    obtain ⟨t, t', new, hi, hstep, hthreads⟩ := Program.next_run hs
    have hm := step_moved hstep
    rcases hm.begun ord.sane.ok with hsame | ⟨addr, hbegun, hnext, hbrk, live⟩
    · intro b hb
      exact run_booked ord (booked b (hsame ▸ hb)) hs hspares hminds (by rw [hsame])
    · intro b hb
      rw [hbegun] at hb
      rcases List.mem_append.mp hb with hold | hnew
      · refine run_booked ord (booked b hold) hs hspares hminds ?_
        obtain ⟨_, _, hknown, _⟩ := booked b hold
        rw [hbegun, List.map_append, List.count_append]
        have hne : q.shared.world.next ≠ b.1 := Nat.ne_of_gt hknown
        simp [hne]
      · obtain rfl := List.mem_singleton.mp hnew
        refine ⟨addr, rfl, hnext, hbrk, .inl ⟨?_, live⟩⟩
        have hzero : (tally q).count q.shared.world.next = 0 := by
          rw [List.count_eq_zero]
          intro htally
          exact absurd (ord.known _ (custody_of_tally htally)) (Nat.lt_irrefl _)
        have hcount := tally_run hi hstep hthreads q.shared.world.next
        have hmoves := hm.reader q.shared.world.next
          (fun thread o call hc hcall => by
            subst hc
            exact minds_method hminds hi hcall)
          fun thread o k txn hc hat => by
            subst hc
            exact minds_isSet hminds hi hat
        rcases hmoves with ⟨_, heq⟩ | ⟨_, hold, _⟩
        · rw [hbegun, List.map_append, List.count_append] at heq
          have hone : (([(q.shared.world.next, some (Ptr.reader addr))] :
              List (Handle × Option Ptr)).map (·.1)).count q.shared.world.next = 1 := by simp
          dsimp only
          omega
        · have hin : q.shared.world.next ∈ t.at_.has :=
            mem_has_of_reader (hold ▸ List.mem_cons_self)
          exact absurd (ord.known _ (Kept.mem_custody hi hin)) (Nat.lt_irrefl _)

/-- Every reader that the pool has begun is accounted for in every run in which `handleReadonly` is
called only for what is set, and no method that the pool calls fails. -/
theorem accounted (run : (program cfg).system.Reaches
    (fun q e => spares q e = true ∧ minds cfg q e = true) q) :
    ∀ b ∈ q.shared.begun, Accounted q b.1 b.2 := by
  have inv : (program cfg).system.Invariant (fun q e => spares q e = true ∧ minds cfg q e = true)
      fun q => Orderly q ∧ ∀ b ∈ q.shared.begun, Booked q b := by
    refine (orderly_invariant _).strengthen (fun q hq => ?_) fun q e q' ord _ booked hok hs => ?_
    · obtain ⟨⟨_, _, _, _, hbegun⟩, _⟩ := hq
      simp [hbegun]
    · exact next_booked ord booked hs hok.1 hok.2
  intro b hb
  obtain ⟨a, hp, _, _, ⟨hone, live⟩ | hfreed⟩ := (run.invariant inv).2 b hb
  · exact ⟨a, hp, .inl ⟨hone, live.reader⟩⟩
  · exact ⟨a, hp, .inr hfreed⟩

/-- A reader is got, an update commits, and then the reader is returned up to `handleReadonly`. -/
def outdated : List (Threads.Event Entry Choice) :=
  [.enter (.beginTxn txnRdonly), .run 0 (.gets none), .run 0 (.calls 0 {}), .enter .update,
    .run 1 (.calls 0 {}), .run 1 (.does (.go 1 0 {} (.put 1 7))), .run 1 (.ends .nil),
    .run 1 (.calls 0 {}), .run 1 (.calls 0 {}), .run 1 (.calls 0 {}), .run 1 (.calls 0 {}),
    .run 1 (.calls 0 {}), .run 1 (.calls 0 {}), .run 0 (.calls 0 {}), .run 0 (.calls 0 {}),
    .run 0 (.calls 0 {}), .run 0 (.calls 0 {}), .run 0 (.calls 0 {})]

/-- A reader is live, and is neither in the bag nor in hand. -/
def leaked (q : Threads TxnPool Goroutine) : Bool :=
  q.shared.begun.any fun b => (tally q).count b.1 == 0 &&
    match b.2 with
    | some (.reader a) => (q.shared.world.lib.readers a).isSome
    | _ => false

theorem not_accounted_of_leaked (hq : leaked q = true) :
    ¬ ∀ b ∈ q.shared.begun, Accounted q b.1 b.2 := by
  intro haccounted
  obtain ⟨b, hb, hleaked⟩ := List.any_eq_true.mp hq
  obtain ⟨a, hp, hstate⟩ := haccounted b hb
  simp only [hp, Bool.and_eq_true, beq_iff_eq] at hleaked
  rcases hstate with ⟨hone, _⟩ | ⟨_, hnone⟩
  · omega
  · rw [hnone] at hleaked
    cases hleaked.2

/-- Where only idle readers are handled, a reader that is stale on its return is neither aborted nor
put into the bag. -/
theorem stale_leaked : ¬ ∀ (cfg : Config) (q : Threads TxnPool Goroutine),
    (program cfg).system.Reaches (fun q e => respects q e = true ∧ spares q e = true) q →
    ∀ b ∈ q.shared.begun, Accounted q b.1 b.2 := by
  intro hall
  obtain ⟨q, run, hq⟩ := System.exists_of_replay
    (program { updateHandling := { handleIdle := true } }).system
    (fun q e => respects q e = true ∧ spares q e = true) outdated fresh leaked (fresh_init _)
    (by decide +kernel)
  exact not_accounted_of_leaked hq (hall _ q run)

/-- With the bit for it set, the reader is aborted. -/
theorem accounted_aborted : ∃ q : Threads TxnPool Goroutine, q.shared.begun ≠ [] ∧
    ∀ b ∈ q.shared.begun, Accounted q b.1 b.2 := by
  obtain ⟨q, run, hq⟩ := System.exists_of_replay
    (program { updateHandling := { handleOutstanding := true } }).system
    (fun q e => spares q e = true ∧
      minds { updateHandling := { handleOutstanding := true } } q e = true)
    (outdated ++ [.run 0 (.calls 0 {})]) fresh
    (fun q : Threads TxnPool Goroutine => decide (q.shared.begun ≠ [])) (fresh_init _)
    (by decide +kernel)
  exact ⟨q, of_decide_eq_true hq, accounted run⟩

end TxnPool

end MdbxGo
