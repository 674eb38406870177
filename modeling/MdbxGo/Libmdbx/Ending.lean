import MdbxGo.Libmdbx.Create

/-! When a call of libmdbx ends the transaction at its pointer. -/

namespace MdbxGo

namespace WriteTxn

variable {o : Sys} {self : Thread} {t : WriteTxn}

theorem checkOwner_live (hlive : t.finished = false) : t.checkOwner self = Code.success := by
  simp [checkOwner, hlive]

/-- A live nested transaction is aborted by its owner together with those nested in it. -/
theorem abortNested_owner (hlive : t.finished = false) (howner : t.owner = some self)
    (kids : List WriteTxn) : (abortNested self (t :: kids)).1 = [] := by
  simp [abortNested, checkOwner_live hlive, hlive, howner]

theorem commitNested_owner (hlive : t.finished = false) (howner : t.owner = some self)
    (kids : List WriteTxn) : (commitNested o self (t :: kids)).rest = [] := by
  unfold commitNested
  rw [if_neg (by simp [hlive])]
  dsimp only
  split
  · exact abortNested_owner hlive howner _
  · exact txnCommitNested_rest o _

end WriteTxn

namespace MdbxEnv

open WriteTxn

variable {env env' : MdbxEnv} {o : Sys} {self : Thread} {p : Ptr} {t : WriteTxn}

/-- The transaction at a pointer has ended; a nested one and a reader are freed then. -/
def Ended (env : MdbxEnv) : Ptr → Prop
  | .basal => env.basal.finished = true
  | .nested a => env.txnAt (.nested a) = none
  | .reader a => env.readers a = none

theorem inner_of_txnAt {a : Addr} (h : env.txnAt (.nested a) = some t) :
    ∃ kids, env.inner a = t :: kids := by
  simp only [txnAt] at h
  rw [find?_eq_head?_inner] at h
  cases hin : env.inner a with
  | nil =>
    rw [hin] at h
    cases h
  | cons u kids =>
    rw [hin] at h
    exact ⟨kids, congrArg (· :: kids) (Option.some.inj h)⟩

theorem write?_of_txnAt {a : Addr} (h : env.txnAt (.nested a) = some t) :
    ∃ hasChild, env.write? (.nested a) = some (t, hasChild) := by
  obtain ⟨kids, hin⟩ := inner_of_txnAt h
  exact ⟨!kids.isEmpty, by simp [write?, hin]⟩

/-- Nothing is left at `a` when a call leaves nothing of the transaction there and of those nested
in it. -/
theorem ended_joinNested (env : MdbxEnv) (a : Addr) (merged : Option WriteTxn) :
    (env.joinNested a merged []).Ended (.nested a) := by
  have hout : (env.outer a).find? (·.addr == a) = none := by
    refine find?_none_of_addr fun x hx => ?_
    simpa [outer] using List.mem_takeWhile_imp hx
  have hcore := find?_core (mergeInto_core merged env.basal (env.outer a)).2 a
  rw [hout] at hcore
  simp only [Ended, txnAt, joinNested, List.append_nil]
  exact Option.map_eq_none_iff.mp hcore

theorem ended_replaceNested (a : Addr) : (env.replaceNested a []).Ended (.nested a) := by
  rw [replaceNested_eq_joinNested]
  exact ended_joinNested env a none

theorem txnAbortBasal_ended (howner : env.basal.owner.isSome) :
    (env.txnAbortBasal o).1.Ended .basal := by
  unfold txnAbortBasal
  rw [if_neg (by simpa [Option.isNone_iff_eq_none, Option.isSome_iff_ne_none] using howner)]
  rfl

/-- An abort by the owner ends a live transaction, unless the environment has failed. -/
theorem mdbxTxnAbort_ended (h : env.txnAt p = some t) (hlive : t.finished = false)
    (howner : t.owner = some self) (hfatal : env.fatal = false) :
    (env.mdbxTxnAbort o self (some p)).1.Ended p := by
  cases p with
  | reader a => cases h
  | basal =>
    cases h
    simp only [mdbxTxnAbort, checkOwner_live hlive, hfatal, hlive, howner, bne_self_eq_false,
      Bool.false_eq_true, if_false, Bool.and_false]
    exact txnAbortBasal_ended (by rw [howner]; rfl)
  | nested a =>
    obtain ⟨kids, hin⟩ := inner_of_txnAt h
    simp only [mdbxTxnAbort, hin, checkOwner_live hlive, hfatal]
    simp only [bne_self_eq_false, Bool.false_eq_true, if_false]
    rw [abortNested_owner hlive howner kids]
    exact ended_replaceNested a

theorem txnCommitBasal_ended (howner : env.basal.owner.isSome) :
    (env.txnCommitBasal o).1.Ended .basal := by
  unfold txnCommitBasal
  split
  · exact txnAbortBasal_ended howner
  · rfl

theorem absorb_owner (t : WriteTxn) (merged : Option WriteTxn) :
    (t.absorb merged).owner = t.owner := by
  cases merged <;> rfl

theorem commitBasal_ended (hlive : env.basal.finished = false)
    (howner : env.basal.owner = some self) (hfatal : env.fatal = false) :
    (env.commitBasal o self).1.Ended .basal := by
  unfold commitBasal
  simp only [hlive, hfatal, howner, Bool.false_eq_true, bne_self_eq_false, if_false]
  split
  · exact mdbxTxnAbort_ended (t := env.basal) rfl hlive howner rfl
  · refine txnCommitBasal_ended ?_
    rw [absorb_owner, howner]
    rfl

/-- A commit by the owner ends a live transaction, whatever its code, unless the environment has
failed. -/
theorem mdbxTxnCommitEx_ended (h : env.txnAt p = some t) (hlive : t.finished = false)
    (howner : t.owner = some self) (hfatal : env.fatal = false) :
    (env.mdbxTxnCommitEx o self (some p)).1.Ended p := by
  cases p with
  | reader a => cases h
  | basal =>
    cases h
    exact commitBasal_ended hlive howner hfatal
  | nested a =>
    obtain ⟨kids, hin⟩ := inner_of_txnAt h
    simp only [mdbxTxnCommitEx, hin, hlive, hfatal, Bool.false_eq_true, if_false]
    rw [commitNested_owner hlive howner kids]
    exact ended_joinNested env a _

/-! ### Checkpoint and the change to a reader -/

theorem checkTxn_pass {hasChild : Bool} (hlive : t.finished = false) (herror : t.error = false)
    (hchild : hasChild = false) : t.checkTxn hasChild Bits.blockedPure = Code.success := by
  simp [checkTxn, Bits.blockedPure, Bits.blocked, hlive, herror, hchild]

theorem checkWriter_pass (howner : t.owner = some self) (hfatal : env.fatal = false) :
    env.checkWriter self t p = (env, Code.success) := by
  simp [checkWriter, howner, hfatal]

/-- What a checkpoint asks for before it begins: a durability that may be weakened so, and a
transaction that nothing blocks. -/
structure CheckpointReady (weakeningDurability : UInt32) (p : Ptr) (env : MdbxEnv) : Prop where
  flags : weakeningDurability &&& ~~~(txnNometasync ||| txnNosync) = 0
  fatal : env.fatal = false
  txn : ∀ x ∈ env.write? p, x.1.error = false ∧ x.2 = false ∧
    (p = .basal ∨ x.1.dirty = false ∨ weakeningDurability = 0)

instance (flags : UInt32) (p : Ptr) (env : MdbxEnv) : Decidable (CheckpointReady flags p env) :=
  decidable_of_iff (flags &&& ~~~(txnNometasync ||| txnNosync) = 0 ∧ env.fatal = false ∧
      ∀ x ∈ env.write? p, x.1.error = false ∧ x.2 = false ∧
        (p = .basal ∨ x.1.dirty = false ∨ flags = 0))
    ⟨fun h => ⟨h.1, h.2.1, h.2.2⟩, fun h => ⟨h.flags, h.fatal, h.txn⟩⟩

theorem txnBasalCheckpoint_ended (ok : env.Ok) (hlive : env.basal.finished = false)
    (hn : env.nested = []) {r : MdbxEnv × Code} (h : env.txnBasalCheckpoint o = some r) :
    r.2 = Code.success ∨ r.1.Ended .basal := by
  have base := txnBasalCommit_base (o := o) ok hlive
  obtain ⟨_, _, hbasal, hnested⟩ := txnBasalCommit_same (o := o) env
  unfold txnBasalCheckpoint at h
  dsimp only at h
  split at h
  · cases h
    exact .inr rfl
  · split at h
    · cases h
    · rename_i hcode
      cases h
      have howner := txnBasalEnd_owner (by simpa using hcode)
      rw [hbasal] at howner
      have hre := txnBasalRestart_restarted (o := o) ((txnBasalEnd_sameRest false).base base)
        (hnested.trans hn) (by rw [howner]; exact owner_of_live ok hlive) env.basal.client
      by_cases hsuccess : (((env.txnBasalCommit o).1.txnBasalEnd o false).1.txnBasalRestart o
          env.basal.client).2 = Code.success
      · exact .inl hsuccess
      · exact .inr (hre.ended hsuccess)

theorem txnNestedCheckpoint_ended (o : Sys) (after : WriteTxn → WriteTxn) (a : Addr)
    (t : WriteTxn) (env : MdbxEnv) :
    (env.txnNestedCheckpoint o after a t).2 = Code.success ∨
      (env.txnNestedCheckpoint o after a t).1.Ended (.nested a) := by
  unfold txnNestedCheckpoint
  split
  · exact .inr (ended_replaceNested a)
  · split
    · exact .inr (ended_joinNested env a _)
    · exact .inl rfl

/-- A checkpoint that begins goes on with the transaction or ends it, as its code tells. -/
theorem mdbxTxnCheckpoint_ended (ok : env.Ok) {flags : UInt32} {r : MdbxEnv × Code}
    (ready : CheckpointReady flags p env) (h : env.txnAt p = some t) (hlive : t.finished = false)
    (howner : t.owner = some self) (hr : env.mdbxTxnCheckpoint o self flags (some p) = some r) :
    r.2 = Code.success ∨ r.2 = Code.resultTrue ∨ r.1.Ended p := by
  obtain ⟨hasChild, hw⟩ : ∃ hasChild, env.write? p = some (t, hasChild) := by
    cases p with
    | reader a => cases h
    | basal =>
      cases h
      exact ⟨_, rfl⟩
    | nested a => exact write?_of_txnAt h
  obtain ⟨herror, hchild, hflags⟩ := ready.txn (t, hasChild) hw
  simp only [mdbxTxnCheckpoint, hw, checkTxn_pass hlive herror hchild, ready.flags,
    checkWriter_pass howner ready.fatal, bne_self_eq_false, Bool.false_eq_true, if_false] at hr
  split at hr
  · cases hr
    exact .inr (.inl rfl)
  · rename_i hdirty
    cases p with
    | reader a => cases h
    | basal =>
      cases hw
      rcases txnBasalCheckpoint_ended ok hlive (by simpa using hchild) hr with hcode | hend
      · exact .inl hcode
      · exact .inr (.inr hend)
    | nested a =>
      dsimp only at hr
      split at hr
      · rename_i hne
        rcases hflags with hp | hd | hf
        · cases hp
        · exact absurd hd (by simpa using hdirty)
        · exact absurd hf (by simpa using hne)
      · cases hr
        rcases txnNestedCheckpoint_ended o id a t env with hcode | hend
        · exact .inl hcode
        · exact .inr (.inr hend)

theorem checkTxn_ne_resultTrue {hasChild : Bool} {bits : Bits} :
    t.checkTxn hasChild bits ≠ Code.resultTrue := by
  unfold checkTxn
  split
  · split <;> decide
  · decide

theorem checkWriter_ne_resultTrue : (env.checkWriter self t p).2 ≠ Code.resultTrue := by
  unfold checkWriter
  split
  · exact show Code.panic ≠ Code.resultTrue by decide
  · split
    · exact show Code.threadMismatch ≠ Code.resultTrue by decide
    · exact show Code.success ≠ Code.resultTrue by decide

theorem basalEmbarkRead_ended {r : MdbxEnv × Code × Option Ptr}
    (hr : env.basalEmbarkRead o = some r) : r.1.Ended .basal := by
  unfold basalEmbarkRead at hr
  dsimp only at hr
  split at hr
  · cases hr
    rfl
  · split at hr
    · cases hr
    · split at hr
      · cases hr
        rfl
      · split at hr <;> cases hr <;> rfl

/-- The change to a reader leaves the pointer alone, or ends the transaction. -/
theorem mdbxTxnCommitEmbarkRead_ended {r : MdbxEnv × Code × Option Ptr}
    (hr : env.mdbxTxnCommitEmbarkRead o self (some p) = some r) :
    (r.2.2 = some p ∧ r.2.1 ≠ Code.resultTrue) ∨ r.1.Ended p := by
  simp only [mdbxTxnCommitEmbarkRead] at hr
  split at hr
  · cases hr
    exact .inl ⟨rfl, show Code.ebadsign ≠ Code.resultTrue by decide⟩
  · rename_i u hasChild hw
    split at hr
    · cases hr
      exact .inl ⟨rfl, checkTxn_ne_resultTrue⟩
    · split at hr
      · cases hr
        exact .inl ⟨rfl, checkWriter_ne_resultTrue⟩
      · split at hr
        · cases hr
          exact .inl ⟨rfl, show Code.success ≠ Code.resultTrue by decide⟩
        · cases p with
          | reader a => cases hw
          | basal => exact .inr (basalEmbarkRead_ended hr)
          | nested a =>
            cases hr
            rcases txnNestedCheckpoint_ended o ({ · with roNested := true }) a u env with
              hcode | hend
            · refine .inl ⟨?_, ?_⟩ <;> simp only [hcode]
              · rfl
              · decide
            · exact .inr hend

end MdbxEnv

end MdbxGo
