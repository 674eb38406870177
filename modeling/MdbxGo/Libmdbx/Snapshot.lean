import MdbxGo.Libmdbx.Locality

/-! The id of the last committed snapshot: no call takes it back, and the id of the top-level
transaction is never more than one ahead of it. -/

namespace MdbxGo

namespace MdbxEnv

open WriteTxn

variable {env env' env'' : MdbxEnv} {o : Sys} {self : Thread} {p : Ptr}

theorem succ_le_succ {a b : UInt64} (h : a ≤ b) (hb : b ≤ maxTxnid) : a + 1 ≤ b + 1 := by
  rw [UInt64.le_iff_toNat_le] at h hb ⊢
  rw [UInt64.toNat_add, UInt64.toNat_add]
  have hmax : maxTxnid.toNat = 18446744069414584319 := by decide
  have hone : (1 : UInt64).toNat = 1 := by decide
  rw [hmax] at hb
  rw [hone]
  omega

theorem le_succ {a : UInt64} (ha : a ≤ maxTxnid) : a ≤ a + 1 := by
  rw [UInt64.le_iff_toNat_le] at ha ⊢
  rw [UInt64.toNat_add]
  have hmax : maxTxnid.toNat = 18446744069414584319 := by decide
  have hone : (1 : UInt64).toNat = 1 := by decide
  rw [hmax] at ha
  rw [hone]
  omega

/-- What a call does to the two ids. -/
structure Advances (env env' : MdbxEnv) : Prop where
  recent : env.recent ≤ env'.recent
  txnid : env'.basal.txnid = env.basal.txnid ∨ env'.basal.txnid ≤ env'.recent + 1

theorem Advances.of_same (hrecent : env'.recent = env.recent)
    (htxnid : env'.basal.txnid = env.basal.txnid) : Advances env env' :=
  ⟨UInt64.le_of_eq hrecent.symm, .inl htxnid⟩

theorem Advances.refl (env : MdbxEnv) : Advances env env := .of_same rfl rfl

theorem Advances.trans (h : Advances env env') (h' : Advances env' env'')
    (hbound : env''.recent ≤ maxTxnid) : Advances env env'' := by
  refine ⟨UInt64.le_trans h.recent h'.recent, ?_⟩
  rcases h'.txnid with hsame | hle
  · rw [hsame]
    exact h.txnid.imp_right fun hle => UInt64.le_trans hle (succ_le_succ h'.recent hbound)
  · exact .inr hle

/-- The call has not touched the top-level transaction, nor committed anything. -/
theorem SameRest.advances (h : SameRest env env')
    (htxnid : env'.basal.txnid = env.basal.txnid ∨ env'.basal.txnid ≤ env'.recent + 1) :
    Advances env env' :=
  ⟨UInt64.le_of_eq h.recent.symm, htxnid⟩

/-- The id of the top-level transaction is at most one ahead of the last snapshot. -/
def Near (env : MdbxEnv) : Prop := env.basal.txnid ≤ env.recent + 1

theorem Near.advances (near : env.Near) (h : Advances env env') (hbound : env'.recent ≤ maxTxnid) :
    env'.Near := by
  rcases h.txnid with hsame | hle
  · unfold Near
    rw [hsame]
    exact UInt64.le_trans near (succ_le_succ h.recent hbound)
  · exact hle

theorem Local.advances (h : Local p env env') : Advances env env' := by
  cases h with
  | refl => exact .refl env
  | reader _ _ _ _ => exact .of_same rfl rfl
  | write hw hk _ =>
    cases p with
    | reader a => cases hw
    | nested a => exact .of_same rfl rfl
    | basal =>
      simp only [write?, Option.some.injEq, Prod.mk.injEq] at hw
      rw [← hw.1] at hk
      exact .of_same rfl hk.txnid

theorem breakBasal_advances (self : Thread) (env : MdbxEnv) :
    Advances env (env.breakBasal self) := by
  unfold breakBasal breakAll
  split
  · exact .refl env
  · rename_i hbreak
    apply Advances.of_same
    · rfl
    · split at hbreak <;> cases hbreak <;> rfl

theorem txnAbortBasal_advances (env : MdbxEnv) : Advances env (env.txnAbortBasal o).1 := by
  unfold txnAbortBasal
  split
  · exact .refl env
  · exact .of_same rfl rfl

theorem mergeInto_txnid (merged : Option WriteTxn) (t : WriteTxn) (l : List WriteTxn) :
    (mergeInto merged t l).1.txnid = t.txnid := by
  cases l with
  | nil => cases merged <;> rfl
  | cons u l => rfl

theorem joinNested_advances (a : Addr) (merged : Option WriteTxn) (rest : List WriteTxn) :
    Advances env (env.joinNested a merged rest) :=
  .of_same rfl (mergeInto_txnid _ _ _)

theorem mdbxTxnAbort_advances (env : MdbxEnv) (ptr : Option Ptr) :
    Advances env (env.mdbxTxnAbort o self ptr).1 := by
  unfold mdbxTxnAbort
  split
  · exact .refl env
  · split
    · exact .refl env
    · split
      · exact .refl env
      · exact .of_same rfl rfl
  · dsimp only
    split
    · exact .refl env
    · split
      · exact .refl env
      · split
        · exact breakBasal_advances self env
        · exact txnAbortBasal_advances env
  · split
    · exact .refl env
    · split
      · exact .refl env
      · split
        · exact .refl env
        · exact .of_same rfl rfl

/-! ### Commits -/

theorem le_commitTxnid (o : Sys) (txnid : UInt64) : txnid ≤ commitTxnid o txnid := by
  unfold commitTxnid
  split
  · rename_i h
    simp only [Bool.and_eq_true, decide_eq_true_eq] at h
    exact h.1
  · exact UInt64.le_refl txnid

/-- A commit of the live top-level transaction makes no snapshot, or one with its id at least. -/
theorem txnBasalCommit_recent (o : Sys) (env : MdbxEnv) :
    (env.txnBasalCommit o).1.recent = env.recent ∨
      env.basal.txnid ≤ (env.txnBasalCommit o).1.recent := by
  unfold txnBasalCommit
  split
  · exact .inl rfl
  · split
    · exact .inl rfl
    · exact .inr (le_commitTxnid o _)

theorem txnBasalCommit_advances (ok : env.Ok) (hlive : env.basal.finished = false) :
    Advances env (env.txnBasalCommit o).1 := by
  obtain ⟨_, _, hbasal, _⟩ := txnBasalCommit_same (o := o) env
  refine ⟨?_, .inl (by rw [hbasal])⟩
  rcases txnBasalCommit_recent o env with hsame | hle
  · exact UInt64.le_of_eq hsame.symm
  · rw [(ok.next hlive).1] at hle
    exact UInt64.le_trans (le_succ ok.bounded) hle

theorem txnCommitBasal_advances (ok : env.Ok) (hlive : env.basal.finished = false) :
    Advances env (env.txnCommitBasal o).1 := by
  unfold txnCommitBasal
  split
  · exact txnAbortBasal_advances env
  · obtain ⟨hrecent, htxnid⟩ := txnBasalCommit_advances (o := o) ok hlive
    exact ⟨hrecent, htxnid⟩

theorem commitBasal_advances (ok : env.Ok) : Advances env (env.commitBasal o self).1 := by
  unfold commitBasal
  split
  · exact .refl env
  · rename_i hfin
    split
    · exact .refl env
    · split
      · exact breakBasal_advances self env
      · dsimp only
        split
        · obtain ⟨hrecent, htxnid⟩ : Advances _
              (mdbxTxnAbort o self { env with nested := (commitNested o self env.nested).rest }
                (some .basal)).1 := mdbxTxnAbort_advances _ _
          exact ⟨hrecent, htxnid⟩
        · rename_i hcode
          have hlive :
              (env.basal.absorb (commitNested o self env.nested).merged).finished = false := by
            rw [absorb_finished]
            simpa using hfin
          have htxnid := mergeInto_txnid (commitNested o self env.nested).merged env.basal []
          have hok : MdbxEnv.Ok { env with
              basal := env.basal.absorb (commitNested o self env.nested).merged
              nested := (commitNested o self env.nested).rest } := by
            refine ok.of_remains (.cons (keeps_absorb fun m => commitNested_clean ok.cleanNested)
              (commitNested_remains o self env.nested)) (absorb_finished _ _) rfl rfl rfl
          obtain ⟨hrecent, hnext⟩ := txnCommitBasal_advances (o := o) hok hlive
          exact ⟨hrecent, hnext.imp_left fun h => h.trans htxnid⟩

theorem mdbxTxnCommitEx_advances (ok : env.Ok) (ptr : Option Ptr) :
    Advances env (env.mdbxTxnCommitEx o self ptr).1 := by
  unfold mdbxTxnCommitEx
  split
  · exact .refl env
  · split
    · exact .refl env
    · split
      · exact mdbxTxnAbort_advances env _
      · split
        · exact .refl env
        · exact .of_same rfl rfl
  · exact commitBasal_advances ok
  · split
    · exact .refl env
    · split
      · exact .refl env
      · split
        · exact .refl env
        · exact joinNested_advances _ _ _

/-! ### Calls that go on -/

theorem basalStartLocked_txnid (o : Sys) (client : Handle) (hbound : env.recent ≤ maxTxnid) :
    (env.basalStartLocked o client).1.basal.txnid = env.basal.txnid ∨
      (env.basalStartLocked o client).1.basal.txnid ≤ env.recent + 1 := by
  unfold basalStartLocked
  split
  · exact .inl rfl
  · dsimp only
    split
    · exact .inr (le_succ hbound)
    · exact .inr (UInt64.le_refl _)

theorem txnBasalRestart_advances (env : MdbxEnv) (client : Handle)
    (hbound : env.recent ≤ maxTxnid) :
    Advances env (env.txnBasalRestart o client).1 := by
  obtain ⟨hrest, _, _⟩ := basalStartLocked_cases o client env
  have htxnid := basalStartLocked_txnid o client hbound
  unfold txnBasalRestart
  dsimp only
  split
  · refine ⟨UInt64.le_of_eq hrest.recent.symm, ?_⟩
    change (env.basalStartLocked o client).1.basal.txnid = _ ∨
      (env.basalStartLocked o client).1.basal.txnid ≤ (env.basalStartLocked o client).1.recent + 1
    rw [hrest.recent]
    exact htxnid
  · refine ⟨UInt64.le_of_eq hrest.recent.symm, ?_⟩
    rw [hrest.recent]
    exact htxnid

/-- The top-level transaction is ended with the lock held, and started again. -/
theorem restart_advances {mid : MdbxEnv} (client : Handle) (h : Advances env mid)
    (hbound : mid.recent ≤ maxTxnid) :
    Advances env ((mid.txnBasalEnd o false).1.txnBasalRestart o client).1 := by
  have hend : Advances mid (mid.txnBasalEnd o false).1 := .of_same rfl rfl
  have hstart : Advances (mid.txnBasalEnd o false).1
      ((mid.txnBasalEnd o false).1.txnBasalRestart o client).1 :=
    txnBasalRestart_advances _ client hbound
  have hsame := (basalStartLocked_cases o client (mid.txnBasalEnd o false).1).1.recent
  have hlast : ((mid.txnBasalEnd o false).1.txnBasalRestart o client).1.recent = mid.recent := by
    unfold txnBasalRestart
    dsimp only
    split <;> exact hsame
  exact (h.trans hend hbound).trans hstart (hlast ▸ hbound)

theorem txnNestedCheckpoint_advances (after : WriteTxn → WriteTxn) (a : Addr) (t : WriteTxn)
    (env : MdbxEnv) : Advances env (env.txnNestedCheckpoint o after a t).1 := by
  unfold txnNestedCheckpoint
  split
  · exact .of_same rfl rfl
  · split <;> exact joinNested_advances _ _ _

theorem checkWriter_advances {t : WriteTxn} : Advances env (env.checkWriter self t p).1 := by
  unfold checkWriter
  split
  · exact .refl env
  · split
    · exact breakBasal_advances self env
    · exact .refl env

theorem mdbxTxnCheckpoint_advances (ok : env.Ok) {flags : UInt32} {ptr : Option Ptr}
    {r : MdbxEnv × Code} (h : env.mdbxTxnCheckpoint o self flags ptr = some r) :
    Advances env r.1 := by
  cases ptr with
  | none =>
    cases h
    exact .refl env
  | some p =>
    simp only [mdbxTxnCheckpoint] at h
    split at h
    · cases h
      exact .refl env
    · rename_i t hasChild hw
      split at h
      · cases h
        exact .refl env
      · rename_i hcheck
        obtain ⟨hlive, _⟩ := live_of_check ⟨rfl, rfl⟩ hcheck
        split at h
        · cases h
          exact .refl env
        · split at h
          · cases h
            exact checkWriter_advances
          · split at h
            · cases h
              exact .refl env
            · cases p with
              | reader a => cases hw
              | basal =>
                cases hw
                have hcommit := txnBasalCommit_advances (o := o) ok hlive
                dsimp only at h
                unfold txnBasalCheckpoint at h
                dsimp only at h
                split at h
                · cases h
                  exact ⟨hcommit.recent, hcommit.txnid⟩
                · split at h
                  · cases h
                  · cases h
                    exact restart_advances _ hcommit (txnBasalCommit_base ok hlive).bounded
              | nested a =>
                dsimp only at h
                split at h
                · cases h
                  exact .refl env
                · cases h
                  exact txnNestedCheckpoint_advances _ _ _ _

theorem basalEmbarkRead_advances (ok : env.Ok) (hlive : env.basal.finished = false)
    {r : MdbxEnv × Code × Option Ptr} (h : env.basalEmbarkRead o = some r) : Advances env r.1 := by
  have hcommit := txnBasalCommit_advances (o := o) ok hlive
  unfold basalEmbarkRead at h
  dsimp only at h
  split at h
  · cases h
    exact ⟨hcommit.recent, hcommit.txnid⟩
  · split at h
    · cases h
    · split at h
      · cases h
        exact ⟨hcommit.recent, hcommit.txnid⟩
      · split at h
        · cases h
          exact ⟨hcommit.recent, hcommit.txnid⟩
        · cases h
          exact ⟨hcommit.recent, hcommit.txnid⟩

theorem mdbxTxnCommitEmbarkRead_advances (ok : env.Ok) {ptr : Option Ptr}
    {r : MdbxEnv × Code × Option Ptr} (h : env.mdbxTxnCommitEmbarkRead o self ptr = some r) :
    Advances env r.1 := by
  cases ptr with
  | none =>
    cases h
    exact .refl env
  | some p =>
    simp only [mdbxTxnCommitEmbarkRead] at h
    split at h
    · cases h
      exact .refl env
    · rename_i t hasChild hw
      split at h
      · cases h
        exact .refl env
      · rename_i hcheck
        obtain ⟨hlive, _⟩ := live_of_check ⟨rfl, rfl⟩ hcheck
        split at h
        · cases h
          exact checkWriter_advances
        · split at h
          · cases h
            exact .refl env
          · cases p with
            | reader a => cases hw
            | basal =>
              cases hw
              exact basalEmbarkRead_advances ok hlive h
            | nested a =>
              cases h
              exact txnNestedCheckpoint_advances _ _ _ _

theorem mdbxTxnRollback_advances (ok : env.Ok) {ptr : Option Ptr} {r : MdbxEnv × Code}
    (h : env.mdbxTxnRollback o self ptr = some r) : Advances env r.1 := by
  cases ptr with
  | none =>
    cases h
    exact .refl env
  | some p =>
    cases p with
    | reader a =>
      cases h
      exact (onReader_local a fun r => r.mdbxTxnRollback_client _).advances
    | basal =>
      simp only [mdbxTxnRollback, write?] at h
      split at h
      · cases h
        exact .refl env
      · unfold txnBasalRollback at h
        dsimp only at h
        rw [Option.ite_none_left_eq_some] at h
        rw [← Option.some.inj h.2]
        split
        · exact .of_same rfl rfl
        · have herror : Advances env { env with basal := { env.basal with error := true } } :=
            .of_same rfl rfl
          exact restart_advances _ herror ok.bounded
    | nested a =>
      simp only [mdbxTxnRollback] at h
      split at h
      · cases h
        exact .refl env
      · split at h
        · cases h
          exact .refl env
        · cases h
          unfold txnNestedRollback
          split
          · exact .of_same rfl rfl
          · split <;> exact .of_same rfl rfl

/-! ### Calls that make a transaction -/

theorem mdbxTxnBegin_advances (ok : env.Ok) {parent : Option Ptr} {flags : UInt32}
    {client : Handle} {r : MdbxEnv × Code × Option Ptr}
    (h : env.mdbxTxnBegin o self parent flags client = some r) : Advances env r.1 := by
  unfold mdbxTxnBegin at h
  split at h
  · cases h
    exact .refl env
  · split at h
    · cases h
      unfold beginNested
      split
      · exact .refl env
      · split
        · split <;> exact .refl env
        · dsimp only
          split
          · exact .refl env
          · split
            · exact .refl env
            · split
              · exact .refl env
              · exact .of_same rfl rfl
    · split at h
      · cases h
        unfold beginRo
        split
        · exact .refl env
        · split
          · exact .refl env
          · dsimp only
            split
            · exact .refl env
            · exact .of_same rfl rfl
      · unfold beginRw at h
        split at h
        · cases h
          exact .refl env
        · obtain ⟨started, hstart, rfl⟩ := Option.map_eq_some_iff.mp h
          unfold txnBasalStart at hstart
          split at hstart
          · cases hstart
            exact .refl env
          · split at hstart
            · split at hstart
              · cases hstart
                exact .refl env
              · cases hstart
            · split at hstart
              · cases hstart
                exact .refl env
              · cases hstart
                obtain ⟨hrecent, htxnid⟩ := @txnBasalRestart_advances o
                  { env with basal := { env.basal with owner := some self } } client ok.bounded
                exact ⟨hrecent, htxnid⟩

theorem amendLocked_advances (ok : env.Ok) {flags : UInt32} {client : Handle} {a : Addr}
    {r : MdbxEnv × Code × Option Ptr} (h : env.amendLocked o self flags client a = some r) :
    Advances env r.1 := by
  obtain ⟨hrecent, htxnid⟩ := @txnBasalRestart_advances o
    { env with basal := { env.basal with owner := some self } } client ok.bounded
  unfold amendLocked at h
  split at h
  · cases h
  · split at h
    · split at h
      · cases h
        exact .refl env
      · cases h
    · split at h
      · cases h
        exact .refl env
      · split at h
        · cases h
          exact .refl env
        · dsimp only at h
          split at h
          · cases h
            exact ⟨hrecent, htxnid⟩
          · split at h
            · cases h
              exact ⟨hrecent, htxnid⟩
            · split at h
              · cases h
                exact ⟨hrecent, htxnid⟩
              · cases h
                exact ⟨hrecent, htxnid⟩

end MdbxEnv

end MdbxGo
