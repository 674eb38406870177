import MdbxGo.Libmdbx.Local

/-! Every call of libmdbx through a pointer has only the effects that `Effect` allows. -/

namespace MdbxGo

namespace MdbxEnv

open WriteTxn

variable {env env' : MdbxEnv} {o : Sys} {self : Thread}

/-! ### Readers -/

theorem lt_brk_of_reader (ok : env.Ok) {a : Addr} {r : ReadTxn} (h : env.readers a = some r) :
    a < env.brk := by
  by_contra hge
  rw [ok.freshReader a (Nat.le_of_not_lt hge)] at h
  cases h

theorem setReader_self (env : MdbxEnv) (a : Addr) (r : Option ReadTxn) :
    (env.setReader a r).readers a = r :=
  if_pos rfl

theorem setReader_other {a b : Addr} (hb : b ≠ a) (r : Option ReadTxn) :
    (env.setReader a r).readers b = env.readers b :=
  if_neg hb

theorem ok_setReader (ok : env.Ok) {a : Addr} {r : ReadTxn} (h : env.readers a = some r)
    (r' : Option ReadTxn) : (env.setReader a r').Ok := by
  refine { ok with freshReader := fun b hb => ?_ }
  have hlt := Nat.lt_of_lt_of_le (lt_brk_of_reader ok h) hb
  rw [setReader_other (Nat.ne_of_gt hlt)]
  exact ok.freshReader b hb

theorem effect_setReader (ok : env.Ok) {a : Addr} {r : ReadTxn} (h : env.readers a = some r)
    {r' : Option ReadTxn} (hclient : ∀ x, r' = some x → x.client = r.client) :
    Effect (.reader a) env (env.setReader a r') := by
  refine ⟨Nat.le_refl _, ?_, ?_, ?_, fun hf => ⟨hf, rfl, rfl⟩, Keeps.remains _,
    fun hf => hf, ok_setReader ok h r'⟩
  · intro b hb _
    refine setReader_other ?_ r'
    rintro rfl
    exact hb rfl
  · intro b x _ hx
    by_cases hb : b = a
    · subst hb
      rw [setReader_self] at hx
      exact ⟨r, h, hclient x hx⟩
    · rw [setReader_other hb] at hx
      exact ⟨x, hx, rfl⟩
  · intro q t _ ht
    exact ⟨none, by rw [txnAt_setReader, ht]; rfl⟩

/-! ### The top-level transaction -/

/-- Nothing write-side is outside the top-level transaction. -/
theorem effect_basal (hbrk : env.brk ≤ env'.brk)
    (hreaders : ∀ a, a < env.brk → env'.readers a = env.readers a)
    (hbasal : env'.basal.finished = false → env.basal.finished = false ∧
      env'.basal.client = env.basal.client ∧ env'.basal.owner = env.basal.owner)
    (hnested : Remains Keeps env.nested env'.nested)
    (hfatal : env.fatal = true → env'.fatal = true) (ok : env'.Ok) : Effect .basal env env' where
  brk := hbrk
  readers a _ := hreaders a
  clients a r ha hr := ⟨r, hreaders a ha ▸ hr, rfl⟩
  outside q t hq ht := by
    cases q with
    | basal => exact absurd trivial hq
    | nested b => exact absurd trivial hq
    | reader b => cases ht
  basal := hbasal
  nested := hnested
  fatal := hfatal
  ok := ok

theorem Effect.trans_basal {env'' : MdbxEnv} (h : Effect .basal env env')
    (h' : Effect .basal env' env'') : Effect .basal env env'' := by
  refine effect_basal (h.brk.trans h'.brk) ?_ ?_
    (h.nested.trans (fun _ _ _ => Keeps.trans) h'.nested) (fun hf => h'.fatal (h.fatal hf)) h'.ok
  · intro a ha
    rw [h'.readers a (by simp) (Nat.lt_of_lt_of_le ha h.brk), h.readers a (by simp) ha]
  · intro hf
    obtain ⟨hf', hc', ho'⟩ := h'.basal hf
    obtain ⟨hf'', hc'', ho''⟩ := h.basal hf'
    exact ⟨hf'', hc'.trans hc'', ho'.trans ho''⟩

/-- A call that changes the transactions in place. -/
theorem effect_touch (ok : env.Ok)
    (h : Remains Keeps (env.basal :: env.nested) (env'.basal :: env'.nested))
    (hfin : env'.basal.finished = env.basal.finished) (hbrk : env'.brk = env.brk)
    (hreaders : env'.readers = env.readers) (hrecent : env'.recent = env.recent)
    (hfatal : env'.fatal = env.fatal) : Effect .basal env env' := by
  have hok := ok.of_remains h hfin hbrk hreaders hrecent
  cases h with
  | cons hb hn =>
    exact effect_basal (Nat.le_of_eq hbrk.symm) (fun a _ => by rw [hreaders])
      (fun hf => ⟨hfin ▸ hf, hb.client, hb.owner⟩) hn (fun hf => hfatal.trans hf) hok

theorem effect_breakBasal (ok : env.Ok) (self : Thread) :
    Effect .basal env (env.breakBasal self) := by
  have h := breakAll_remains self (env.basal :: env.nested)
  have hfin : ∀ b n, breakAll self (env.basal :: env.nested) = b :: n →
      b.finished = env.basal.finished := by
    intro b n hb
    unfold breakAll at hb
    split at hb <;> cases hb <;> rfl
  unfold breakBasal
  split
  · exact .refl ok
  · rename_i b n hb
    exact effect_touch ok (hb ▸ h) (hfin b n hb) rfl rfl rfl rfl

/-- `txn_basal_end` with the release of the lock leaves an environment without a writer. -/
theorem ok_txnBasalEnd (base : env.Base) (hn : env.nested = []) :
    (env.txnBasalEnd o true).1.Ok where
  freshReader := base.freshReader
  bounded := base.bounded
  ended _ := hn
  owner := rfl
  owners t ht := by
    simp only [txnBasalEnd] at ht
    rw [hn] at ht
    cases ht
  clean _ := rfl
  cleanNested t ht := by
    simp only [txnBasalEnd] at ht
    rw [hn] at ht
    cases ht
  fresh t ht := by
    simp only [txnBasalEnd] at ht
    rw [hn] at ht
    cases ht
  next hf := by cases hf

/-- A new reader is none of those that a call is about. -/
theorem effect_allocReader {p : Ptr} (h : Effect p env env') (r : ReadTxn) :
    Effect p env (env'.allocReader r) := by
  have hother : ∀ a, a < env.brk → (env'.allocReader r).readers a = env'.readers a := fun a ha =>
    setReader_other (Nat.ne_of_lt (Nat.lt_of_lt_of_le ha h.brk)) _
  refine ⟨h.brk.trans (Nat.le_succ _), ?_, ?_, ?_, h.basal, h.nested, h.fatal, ?_⟩
  · intro a hp ha
    rw [hother a ha]
    exact h.readers a hp ha
  · intro a x ha hx
    rw [hother a ha] at hx
    exact h.clients a x ha hx
  · intro q t hq ht
    rw [txnAt_allocReader]
    exact h.outside q t hq ht
  · refine { h.ok with freshReader := ?_, fresh := ?_ }
    · intro b hb
      have hb : env'.brk < b := hb
      simp only [allocReader, setReader]
      rw [if_neg (Nat.ne_of_gt hb)]
      exact h.ok.freshReader b (Nat.le_of_lt hb)
    · intro t ht
      exact Nat.lt_succ_of_lt (h.ok.fresh t ht)

/-- A call that ends the top-level transaction. -/
theorem effect_ended (hbrk : env'.brk = env.brk) (hreaders : env'.readers = env.readers)
    (hfin : env'.basal.finished = true) (hfatal : env.fatal = true → env'.fatal = true)
    (ok : env'.Ok) : Effect .basal env env' := by
  refine effect_basal (Nat.le_of_eq hbrk.symm) (fun a _ => by rw [hreaders]) ?_ ?_ hfatal ok
  · intro hf
    rw [hfin] at hf
    cases hf
  · rw [ok.ended hfin]
    exact .cut _

/-- The fields that a start of the top-level transaction leaves alone. -/
structure SameRest (env env' : MdbxEnv) : Prop where
  brk : env'.brk = env.brk
  readers : env'.readers = env.readers
  recent : env'.recent = env.recent
  data : env'.data = env.data
  fatal : env'.fatal = env.fatal

theorem SameRest.refl (env : MdbxEnv) : SameRest env env := ⟨rfl, rfl, rfl, rfl, rfl⟩

theorem SameRest.trans {env'' : MdbxEnv} (h : SameRest env env') (h' : SameRest env' env'') :
    SameRest env env'' :=
  ⟨h'.brk.trans h.brk, h'.readers.trans h.readers, h'.recent.trans h.recent,
    h'.data.trans h.data, h'.fatal.trans h.fatal⟩

theorem SameRest.base (h : SameRest env env') (base : env.Base) : env'.Base where
  freshReader := by
    rw [h.brk, h.readers]
    exact base.freshReader
  bounded := by
    rw [h.recent]
    exact base.bounded

theorem txnBasalEnd_sameRest (unlock : Bool) : SameRest env (env.txnBasalEnd o unlock).1 :=
  ⟨rfl, rfl, rfl, rfl, rfl⟩

/-- `basal_start_locked` starts the transaction, or fails and changes it alone. -/
theorem basalStartLocked_cases (o : Sys) (c : Handle) (env : MdbxEnv) :
    SameRest env (env.basalStartLocked o c).1 ∧
      (env.nested = [] → (env.basalStartLocked o c).1.nested = []) ∧
      ((env.basalStartLocked o c).2 = Code.success →
        env.recent + 1 ≤ maxTxnid ∧
        (env.basalStartLocked o c).1.basal = { env.basal with
          client := c, txnid := env.recent + 1, finished := false, error := false, dirty := false
          changes := [] }) := by
  unfold basalStartLocked
  split
  · exact ⟨.refl env, id, fun h => absurd (show Code.panic = Code.success from h) (by decide)⟩
  · dsimp only
    split
    · rename_i e _
      exact ⟨⟨rfl, rfl, rfl, rfl, rfl⟩, fun _ => rfl, fun h => absurd h e.not_success⟩
    · refine ⟨⟨rfl, rfl, rfl, rfl, rfl⟩, fun _ => rfl, fun h => ⟨?_, rfl⟩⟩
      by_contra hle
      dsimp only at h
      rw [if_pos (UInt64.not_le.mp hle)] at h
      exact absurd h (by decide)

/-- The top-level transaction starts, for the client, or it has ended and the lock is free. -/
structure Restarted (c : Handle) (env env' : MdbxEnv) (code : Code) : Prop where
  rest : SameRest env env'
  nested : env'.nested = []
  ok : env'.Ok
  live : code = Code.success → env'.basal.finished = false ∧ env'.basal.client = c ∧
    env'.basal.owner = env.basal.owner ∧ env'.basal.error = false ∧
    env'.basal.txnid = env.recent + 1 ∧ env'.basal.roNested = env.basal.roNested
  ended : code ≠ Code.success → env'.basal.finished = true

theorem txnBasalRestart_restarted (base : env.Base) (hn : env.nested = [])
    (howner : env.basal.owner.isSome) (c : Handle) :
    Restarted c env (env.txnBasalRestart o c).1 (env.txnBasalRestart o c).2 := by
  obtain ⟨hrest, hnested, hlive⟩ := basalStartLocked_cases o c env
  unfold txnBasalRestart
  dsimp only
  split
  · rename_i hcode
    have hcode' : (env.basalStartLocked o c).2 ≠ Code.success := by simpa using hcode
    have hok : ((env.basalStartLocked o c).1.txnBasalEnd o true).1.Ok :=
      ok_txnBasalEnd (hrest.base base) (hnested hn)
    exact ⟨hrest.trans (txnBasalEnd_sameRest true), hnested hn, hok, fun h => absurd h hcode',
      fun _ => rfl⟩
  · rename_i hcode
    obtain ⟨hle, hbasal⟩ := hlive (by simpa using hcode)
    have hno : ∀ t ∈ (env.basalStartLocked o c).1.nested, False := by
      rw [hnested hn]
      simp
    refine ⟨hrest, hnested hn, ?_, fun _ => ?_, fun h => absurd (by simpa using hcode) h⟩
    · refine ⟨hrest.base base, fun _ => hnested hn, ?_, fun t ht => (hno t ht).elim, ?_,
        fun t ht => (hno t ht).elim, fun t ht => (hno t ht).elim, fun _ => ?_⟩
      · rw [hbasal]
        simpa using howner
      · rw [hbasal]
        exact clean_of_nil rfl
      · rw [hbasal, hrest.recent]
        exact ⟨rfl, hle⟩
    · rw [hbasal]
      exact ⟨rfl, rfl, rfl, rfl, rfl, rfl⟩

/-! ### Commit and abort of the top-level transaction -/

theorem txnAbortBasal_effect (ok : env.Ok) : Effect .basal env (env.txnAbortBasal o).1 := by
  unfold txnAbortBasal
  split
  · exact .refl ok
  · exact effect_ended rfl rfl rfl (fun h => h) (ok_txnBasalEnd ⟨ok.freshReader, ok.bounded⟩ rfl)

theorem txnBasalCommit_base (ok : env.Ok) (hlive : env.basal.finished = false) :
    (env.txnBasalCommit o).1.Base := by
  have hbig : commitTxnid o env.basal.txnid ≤ maxTxnid := by
    unfold commitTxnid
    split
    · rename_i h
      simp only [Bool.and_eq_true, decide_eq_true_eq] at h
      exact h.2
    · exact (ok.next hlive).2
  unfold txnBasalCommit
  split
  · exact ok.toBase
  · split
    · exact ⟨ok.freshReader, ok.bounded⟩
    · exact ⟨ok.freshReader, hbig⟩

/-- The fields that `txn_basal_commit` leaves alone. -/
theorem txnBasalCommit_same (env : MdbxEnv) :
    (env.txnBasalCommit o).1.brk = env.brk ∧ (env.txnBasalCommit o).1.readers = env.readers ∧
      (env.txnBasalCommit o).1.basal = env.basal ∧
        (env.txnBasalCommit o).1.nested = env.nested := by
  unfold txnBasalCommit
  split
  · exact ⟨rfl, rfl, rfl, rfl⟩
  · split <;> exact ⟨rfl, rfl, rfl, rfl⟩

theorem txnBasalCommit_fatal (h : env.fatal = true) : (env.txnBasalCommit o).1.fatal = true := by
  unfold txnBasalCommit
  split
  · exact h
  · split
    · simp [h]
    · exact h

theorem txnCommitBasal_effect (ok : env.Ok) (hlive : env.basal.finished = false)
    (hn : env.nested = []) : Effect .basal env (env.txnCommitBasal o).1 := by
  unfold txnCommitBasal
  split
  · exact txnAbortBasal_effect ok
  · obtain ⟨hbrk, hreaders, _, hnested⟩ := txnBasalCommit_same (o := o) env
    exact effect_ended hbrk hreaders rfl txnBasalCommit_fatal
      (ok_txnBasalEnd (txnBasalCommit_base ok hlive) (hnested.trans hn))

/-! ### Calls through any pointer -/

theorem mdbxTxnAbort_effect (ok : env.Ok) (p : Ptr) :
    Effect p env (env.mdbxTxnAbort o self (some p)).1 := by
  cases p with
  | reader a =>
    simp only [mdbxTxnAbort]
    split
    · exact .refl ok
    · rename_i hr
      obtain ⟨r, hr⟩ := Option.ne_none_iff_exists'.mp (by simpa using hr)
      split
      · exact .refl ok
      · exact effect_setReader ok hr (by simp)
  | basal =>
    simp only [mdbxTxnAbort]
    split
    · exact .refl ok
    · split
      · exact .refl ok
      · split
        · exact effect_breakBasal ok self
        · exact txnAbortBasal_effect ok
  | nested a =>
    simp only [mdbxTxnAbort]
    split
    · exact .refl ok
    · rename_i t kids hin
      split
      · exact .refl ok
      · split
        · exact .refl ok
        · rw [replaceNested_eq_joinNested]
          exact effect_joinNested ok (by simp) (hin ▸ abortNested_remains self _)

theorem commitBasal_effect (ok : env.Ok) : Effect .basal env (env.commitBasal o self).1 := by
  unfold commitBasal
  split
  · exact .refl ok
  · rename_i hfin
    split
    · exact .refl ok
    · split
      · exact effect_breakBasal ok self
      · have hfin : env.basal.finished = false := by simpa using hfin
        have hrest := commitNested_remains o self env.nested
        have heff :
            Effect .basal env { env with nested := (commitNested o self env.nested).rest } :=
          effect_touch ok (.cons (Keeps.refl _) hrest) rfl rfl rfl rfl rfl
        dsimp only
        split
        · exact heff.trans_basal (mdbxTxnAbort_effect heff.ok .basal)
        · rename_i hcode
          have hclean : ∀ m, (commitNested o self env.nested).merged = some m → m.Clean :=
            fun m => commitNested_clean ok.cleanNested
          have habs : Effect .basal env { env with
              basal := env.basal.absorb (commitNested o self env.nested).merged
              nested := (commitNested o self env.nested).rest } :=
            effect_touch ok (.cons (keeps_absorb hclean) hrest)
              (absorb_finished _ _) rfl rfl rfl rfl
          refine habs.trans_basal (txnCommitBasal_effect habs.ok ?_ ?_)
          · exact (absorb_finished _ _).trans hfin
          · exact commitNested_rest_of_success (by simpa using hcode)

theorem inner_clean (ok : env.Ok) {a : Addr} {t : WriteTxn} (ht : t ∈ env.inner a) : t.Clean :=
  ok.cleanNested t ((List.dropWhile_suffix _).subset ht)

theorem mdbxTxnCommitEx_effect (ok : env.Ok) (p : Ptr) :
    Effect p env (env.mdbxTxnCommitEx o self (some p)).1 := by
  cases p with
  | reader a =>
    simp only [mdbxTxnCommitEx]
    split
    · exact .refl ok
    · rename_i r hr
      split
      · exact mdbxTxnAbort_effect ok (.reader a)
      · split
        · exact .refl ok
        · exact effect_setReader ok hr (by simp)
  | basal => exact commitBasal_effect ok
  | nested a =>
    simp only [mdbxTxnCommitEx]
    split
    · exact .refl ok
    · rename_i t kids hin
      split
      · exact .refl ok
      · split
        · exact .refl ok
        · refine effect_joinNested ok (fun m hm => ?_) (hin ▸ commitNested_remains o self _)
          exact commitNested_clean (fun u hu => inner_clean ok (hin ▸ hu)) hm

theorem effect_setWrite (ok : env.Ok) {p : Ptr} {t u : WriteTxn} {hasChild : Bool}
    (h : env.write? p = some (t, hasChild)) (hk : t.Keeps u) (hfin : u.finished = t.finished) :
    Effect p env (env.setWrite u p) := by
  cases p with
  | reader a => cases h
  | basal =>
    cases h
    exact effect_touch ok (.cons hk (Keeps.remains _)) hfin rfl rfl rfl rfl
  | nested a =>
    simp only [write?] at h
    split at h
    · cases h
    · rename_i _ _ kids hin
      cases h
      simp only [setWrite]
      rw [replaceNested_eq_joinNested]
      refine effect_joinNested ok (by simp) ?_
      rw [hin, List.tail_cons]
      exact .cons hk (Keeps.remains kids)

/-- A local call has the effects that any call may have. -/
theorem Local.effect {p : Ptr} (ok : env.Ok) (h : Local p env env') : Effect p env env' := by
  cases h with
  | refl => exact .refl ok
  | reader r' hp hr hclient =>
    rw [hp]
    refine effect_setReader ok hr fun x hx => ?_
    rw [← Option.some.inj hx, hclient]
  | write hw hk hfin => exact effect_setWrite ok hw hk hfin

/-! ### Calls that go on -/

theorem keeps_restartNested (t : WriteTxn) : t.Keeps t.restartNested :=
  ⟨rfl, rfl, rfl, rfl, fun _ => rfl, fun _ _ => rfl⟩

theorem effect_restarted {mid : MdbxEnv} {code : Code}
    (h : Restarted env.basal.client mid env' code) (hlive : env.basal.finished = false)
    (hbrk : mid.brk = env.brk) (hreaders : mid.readers = env.readers)
    (howner : mid.basal.owner = env.basal.owner)
    (hfatal : env.fatal = true → mid.fatal = true) : Effect .basal env env' := by
  refine effect_basal (Nat.le_of_eq (h.rest.brk.trans hbrk).symm) ?_ ?_ ?_
    (fun hf => h.rest.fatal.trans (hfatal hf)) h.ok
  · intro a _
    rw [h.rest.readers, hreaders]
  · intro hf
    have hcode : code = Code.success := by
      by_contra hne
      rw [h.ended hne] at hf
      cases hf
    obtain ⟨_, hclient, hown, _⟩ := h.live hcode
    exact ⟨hlive, hclient, hown.trans howner⟩
  · rw [h.nested]
    exact .cut _

theorem txnBasalEnd_code (unlock : Bool) (env : MdbxEnv) :
    (env.txnBasalEnd o unlock).2 =
      if env.basal.dirty then Failure.codeOf o.dbiUpdate else Code.success := rfl

theorem txnBasalEnd_ne_resultTrue (unlock : Bool) (env : MdbxEnv) :
    (env.txnBasalEnd o unlock).2 ≠ Code.resultTrue := by
  rw [txnBasalEnd_code]
  split
  · exact Failure.codeOf_ne_resultTrue _
  · decide

theorem txnBasalCommit_ne_resultTrue (env : MdbxEnv) :
    (env.txnBasalCommit o).2 ≠ Code.resultTrue := by
  unfold txnBasalCommit
  split
  · exact show Code.success ≠ Code.resultTrue by decide
  · split
    · rename_i e _
      exact e.not_resultTrue
    · exact show Code.success ≠ Code.resultTrue by decide

theorem txnBasalEnd_owner {env : MdbxEnv} (h : (env.txnBasalEnd o false).2 = Code.success) :
    (env.txnBasalEnd o false).1.basal.owner = env.basal.owner := by
  rw [txnBasalEnd_code] at h
  simp [txnBasalEnd, h]

theorem owner_of_live (ok : env.Ok) (hlive : env.basal.finished = false) :
    env.basal.owner.isSome := by
  have h := ok.owner
  rw [hlive] at h
  simpa using h

/-- The lock is kept across `txn_basal_end`, and the transaction starts again. -/
theorem restart_effect (hlive : env.basal.finished = false) (ok : env.Ok) {mid : MdbxEnv}
    (base : mid.Base) (hn : mid.nested = []) (hbrk : mid.brk = env.brk)
    (hreaders : mid.readers = env.readers) (hbasal : mid.basal.owner = env.basal.owner)
    (hfatal : env.fatal = true → mid.fatal = true)
    (hcode : (mid.txnBasalEnd o false).2 = Code.success) :
    Effect .basal env ((mid.txnBasalEnd o false).1.txnBasalRestart o env.basal.client).1 := by
  have howner := (txnBasalEnd_owner hcode).trans hbasal
  have hsome : (mid.txnBasalEnd o false).1.basal.owner.isSome := by
    rw [howner]
    exact owner_of_live ok hlive
  exact effect_restarted
    (txnBasalRestart_restarted ((txnBasalEnd_sameRest false).base base) hn hsome _) hlive hbrk
    hreaders howner hfatal

theorem txnBasalCheckpoint_effect (ok : env.Ok) (hlive : env.basal.finished = false)
    (hn : env.nested = []) {r : MdbxEnv × Code} (h : env.txnBasalCheckpoint o = some r) :
    Effect .basal env r.1 := by
  have base := txnBasalCommit_base (o := o) ok hlive
  obtain ⟨hbrk, hreaders, hbasal, hnested⟩ := txnBasalCommit_same (o := o) env
  unfold txnBasalCheckpoint at h
  dsimp only at h
  split at h
  · cases h
    exact effect_ended hbrk hreaders rfl txnBasalCommit_fatal
      (ok_txnBasalEnd base (hnested.trans hn))
  · split at h
    · cases h
    · rename_i hcode
      cases h
      exact restart_effect hlive ok base (hnested.trans hn) hbrk hreaders (by rw [hbasal])
        txnBasalCommit_fatal (by simpa using hcode)

theorem joinNested_remainsOne (ok : env.Ok) {a : Addr} {t u : WriteTxn} {kids : List WriteTxn}
    (hin : env.inner a = t :: kids) (hk : t.Keeps u) (merged : Option WriteTxn)
    (hm : ∀ m, merged = some m → m = t) :
    Effect (.nested a) env (env.joinNested a merged [u]) := by
  refine effect_joinNested ok ?_ ?_
  · intro m h
    rw [hm m h]
    exact inner_clean ok (hin ▸ List.mem_cons_self)
  · rw [hin]
    exact .cons hk (.cut kids)

theorem txnNestedCheckpoint_effect (ok : env.Ok) {a : Addr} {t : WriteTxn} {hasChild : Bool}
    (h : env.write? (.nested a) = some (t, hasChild)) (hfin : t.finished = false)
    {after : WriteTxn → WriteTxn} (hafter : ∀ u : WriteTxn, u.Keeps (after u)) :
    Effect (.nested a) env (env.txnNestedCheckpoint o after a t).1 := by
  obtain ⟨kids, hin, _⟩ := inner_of_write? h
  have hm : ∀ m, some t = some m → m.Clean := by
    rintro m ⟨⟩
    exact inner_clean ok (hin ▸ List.mem_cons_self)
  unfold txnNestedCheckpoint
  split
  · rw [replaceNested_eq_joinNested]
    exact effect_joinNested ok (by simp) (.cut _)
  · split
    · exact effect_joinNested ok hm (.cut _)
    · have hk : t.Keeps t.restarted :=
        ⟨rfl, rfl, rfl, rfl, fun hf => absurd hf (by simp [hfin]), fun _ _ => rfl⟩
      exact joinNested_remainsOne ok hin (hk.trans (hafter _)) (some t)
        (fun m h => (Option.some.inj h).symm)

theorem checkWriter_effect (ok : env.Ok) {p : Ptr} {t : WriteTxn} :
    Effect p env (env.checkWriter self t p).1 := by
  unfold checkWriter
  split
  · exact .refl ok
  · split
    · rename_i hp
      simp only [Bool.and_eq_true, beq_iff_eq] at hp
      rw [hp.1]
      exact effect_breakBasal ok self
    · exact .refl ok

theorem mdbxTxnCheckpoint_effect (ok : env.Ok) {flags : UInt32} {p : Ptr} {r : MdbxEnv × Code}
    (h : env.mdbxTxnCheckpoint o self flags (some p) = some r) : Effect p env r.1 := by
  simp only [mdbxTxnCheckpoint] at h
  split at h
  · cases h
    exact .refl ok
  · rename_i t hasChild hw
    split at h
    · cases h
      exact .refl ok
    · rename_i hcheck
      obtain ⟨hfin, hchild⟩ := live_of_check ⟨rfl, rfl⟩ hcheck
      split at h
      · cases h
        exact .refl ok
      · split at h
        · cases h
          exact checkWriter_effect ok
        · split at h
          · cases h
            exact .refl ok
          · cases p with
            | reader a => cases hw
            | basal =>
              cases hw
              exact txnBasalCheckpoint_effect ok hfin (by simpa using hchild) h
            | nested a =>
              dsimp only at h
              split at h
              · cases h
                exact .refl ok
              · cases h
                exact txnNestedCheckpoint_effect ok hw hfin Keeps.refl

theorem basalEmbarkRead_effect (ok : env.Ok) (hlive : env.basal.finished = false)
    (hn : env.nested = []) {r : MdbxEnv × Code × Option Ptr}
    (h : env.basalEmbarkRead o = some r) : Effect .basal env r.1 := by
  have base := txnBasalCommit_base (o := o) ok hlive
  obtain ⟨hbrk, hreaders, _, hnested⟩ := txnBasalCommit_same (o := o) env
  have hended : Effect .basal env
      (((env.txnBasalCommit o).1.txnBasalEnd o false).1.txnBasalEnd o true).1 :=
    effect_ended hbrk hreaders rfl txnBasalCommit_fatal
      (ok_txnBasalEnd ((txnBasalEnd_sameRest false).base base) (hnested.trans hn))
  unfold basalEmbarkRead at h
  dsimp only at h
  split at h
  · cases h
    exact effect_ended hbrk hreaders rfl txnBasalCommit_fatal
      (ok_txnBasalEnd base (hnested.trans hn))
  · split at h
    · cases h
    · split at h
      · cases h
        exact hended
      · split at h
        · cases h
          exact hended
        · cases h
          exact effect_allocReader hended _

theorem mdbxTxnCommitEmbarkRead_effect (ok : env.Ok) {p : Ptr} {r : MdbxEnv × Code × Option Ptr}
    (h : env.mdbxTxnCommitEmbarkRead o self (some p) = some r) : Effect p env r.1 := by
  simp only [mdbxTxnCommitEmbarkRead] at h
  split at h
  · cases h
    exact .refl ok
  · rename_i t hasChild hw
    split at h
    · cases h
      exact .refl ok
    · rename_i hcheck
      obtain ⟨hfin, hchild⟩ := live_of_check ⟨rfl, rfl⟩ hcheck
      split at h
      · cases h
        exact checkWriter_effect ok
      · split at h
        · cases h
          exact .refl ok
        · cases p with
          | reader a => cases hw
          | basal =>
            cases hw
            exact basalEmbarkRead_effect ok hfin (by simpa using hchild) h
          | nested a =>
            cases h
            exact txnNestedCheckpoint_effect ok hw hfin fun u => ⟨rfl, rfl, rfl, rfl, id, id⟩

theorem txnBasalRollback_effect (ok : env.Ok) (hlive : env.basal.finished = false)
    (hn : env.nested = []) {r : MdbxEnv × Code} (h : env.txnBasalRollback o self = some r) :
    Effect .basal env r.1 := by
  unfold txnBasalRollback at h
  dsimp only at h
  rw [Option.ite_none_left_eq_some] at h
  rw [← Option.some.inj h.2]
  split
  · rename_i hcode
    -- the failing `txn_basal_end` has released the lock
    have hend : (env.txnBasalEnd o false).1 = (env.txnBasalEnd o true).1 := by
      rw [txnBasalEnd_code] at hcode
      simp only [txnBasalEnd, hcode, Bool.false_or, Bool.true_or]
    rw [hend]
    exact effect_ended rfl rfl rfl (fun h => h) (ok_txnBasalEnd ok.toBase hn)
  · rename_i hcode
    exact restart_effect hlive ok ok.toBase hn rfl rfl rfl (fun h => h) (by simpa using hcode)

theorem mdbxTxnRollback_effect (ok : env.Ok) {p : Ptr} {r : MdbxEnv × Code}
    (h : env.mdbxTxnRollback o self (some p) = some r) : Effect p env r.1 := by
  cases p with
  | reader a =>
    cases h
    exact (onReader_local a fun r => r.mdbxTxnRollback_client _).effect ok
  | basal =>
    simp only [mdbxTxnRollback, write?] at h
    split at h
    · cases h
      exact .refl ok
    · rename_i hcheck
      obtain ⟨hfin, hchild⟩ := live_of_check ⟨rfl, rfl⟩ hcheck
      have herr : Effect .basal env { env with basal := { env.basal with error := true } } :=
        effect_touch ok (.cons (keeps_error true) (Keeps.remains _)) rfl rfl rfl rfl rfl
      exact herr.trans_basal (txnBasalRollback_effect herr.ok hfin (by simpa using hchild) h)
  | nested a =>
    simp only [mdbxTxnRollback] at h
    split at h
    · cases h
      exact .refl ok
    · rename_i t hasChild hw
      split at h
      · cases h
        exact .refl ok
      · rename_i hcheck
        obtain ⟨kids, hin, _⟩ := inner_of_write? hw
        cases h
        unfold txnNestedRollback
        split
        · rw [replaceNested_eq_joinNested]
          exact joinNested_remainsOne ok hin (keeps_error true) none (by simp)
        · split
          · rw [replaceNested_eq_joinNested]
            exact effect_joinNested ok (by simp) (.cut _)
          · rw [replaceNested_eq_joinNested]
            exact joinNested_remainsOne ok hin
              (keeps_restartNested t) none (by simp)

end MdbxEnv

end MdbxGo
