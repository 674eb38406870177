import MdbxGo.Libmdbx.Ending

/-! Which calls leave the transaction at a pointer to the `Txn` that it was made for. -/

namespace MdbxGo

namespace MdbxEnv

open WriteTxn

variable {env env' : MdbxEnv} {o : Sys} {self : Thread} {p q : Ptr} {h k : Handle} {t : WriteTxn}

theorem session_basal : env.session .basal = some h ↔
    env.basal.finished = false ∧ env.basal.client = h := by
  cases hfin : env.basal.finished <;> simp [session, hfin]

theorem session_nested {a : Addr} : env.session (.nested a) = some h ↔
    ∃ t, env.txnAt (.nested a) = some t ∧ t.client = h := by
  simp [session]

theorem session_reader {a : Addr} : env.session (.reader a) = some h ↔
    ∃ r, env.readers a = some r ∧ r.client = h := by
  simp [session]

@[simp] theorem absorb_client (t : WriteTxn) (merged : Option WriteTxn) :
    (t.absorb merged).client = t.client := by
  cases merged <;> rfl

/-- A call through `p` leaves a transaction outside `p` to its `Txn`. -/
theorem Effect.session (ok : env.Ok) (heff : Effect p env env') (hne : q ≠ p)
    (hout : ¬ env.Inside p q) (hq : env.session q = some k) : env'.session q = some k := by
  cases q with
  | basal =>
    obtain ⟨hfin, hclient⟩ := session_basal.mp hq
    obtain ⟨m, hm⟩ := heff.outside .basal env.basal hout rfl
    have hbasal : env'.basal = env.basal.absorb m := Option.some.inj hm
    exact session_basal.mpr (by simp [hbasal, hfin, hclient])
  | nested a =>
    obtain ⟨t, ht, hclient⟩ := session_nested.mp hq
    obtain ⟨m, hm⟩ := heff.outside (.nested a) t hout ht
    exact session_nested.mpr ⟨_, hm, by simp [hclient]⟩
  | reader a =>
    obtain ⟨r, hr, hclient⟩ := session_reader.mp hq
    exact session_reader.mpr
      ⟨r, by rw [heff.readers a (Ne.symm hne) (lt_brk_of_reader ok hr), hr], hclient⟩

/-- A transaction with another one inside it has a nested one. -/
theorem hasChild_of_inside (hne : q ≠ p) (hin : env.Inside p q) (hq : env.session q = some k) :
    ∃ t, env.write? p = some (t, true) := by
  cases p with
  | reader a => cases q <;> exact hin.elim
  | basal =>
    cases q with
    | basal => exact absurd rfl hne
    | reader b => exact hin.elim
    | nested b =>
      obtain ⟨t, ht, _⟩ := session_nested.mp hq
      refine ⟨env.basal, ?_⟩
      have hnested : env.nested ≠ [] := List.ne_nil_of_mem (List.mem_of_find?_eq_some ht)
      simp [write?, hnested]
  | nested a =>
    cases q with
    | basal => exact hin.elim
    | reader b => exact hin.elim
    | nested b =>
      obtain ⟨t, ht, haddr⟩ := hin
      cases hkids : env.inner a with
      | nil =>
        rw [hkids] at ht
        cases ht
      | cons u kids =>
        have hu := inner_addr hkids
        refine ⟨u, ?_⟩
        cases kids with
        | cons _ _ => simp [write?, hkids]
        | nil =>
          rw [hkids, List.mem_singleton] at ht
          subst ht
          exact absurd (by rw [← haddr, hu]) hne

/-! ### The calls that a nested transaction blocks -/

theorem checkTxn_hasChild (t : WriteTxn) {bits : Bits} (hbits : bits.hasChild = true) :
    (t.checkTxn true bits != Code.success) = true := by
  unfold checkTxn
  simp only [hbits, Bool.and_self, Bool.or_true, Bool.true_or, if_true]
  split <;> decide

theorem mdbxTxnRollback_blocked (hw : env.write? p = some (t, true)) {r : MdbxEnv × Code}
    (hr : env.mdbxTxnRollback o self (some p) = some r) : r.1 = env := by
  cases p with
  | reader a => cases hw
  | basal =>
    simp only [mdbxTxnRollback, hw,
      checkTxn_hasChild t (show Bits.blockedNested.hasChild = true from rfl), if_true] at hr
    rw [← Option.some.inj hr]
  | nested a =>
    simp only [mdbxTxnRollback, hw,
      checkTxn_hasChild t (show Bits.blockedNested.hasChild = true from rfl), if_true] at hr
    rw [← Option.some.inj hr]

theorem mdbxTxnCheckpoint_blocked {flags : UInt32} (hw : env.write? p = some (t, true))
    {r : MdbxEnv × Code} (hr : env.mdbxTxnCheckpoint o self flags (some p) = some r) :
    r.1 = env := by
  simp only [mdbxTxnCheckpoint, hw,
    checkTxn_hasChild t (show Bits.blockedPure.hasChild = true from rfl), if_true] at hr
  rw [← Option.some.inj hr]

theorem mdbxTxnCommitEmbarkRead_blocked (hw : env.write? p = some (t, true))
    {r : MdbxEnv × Code × Option Ptr} (hr : env.mdbxTxnCommitEmbarkRead o self (some p) = some r) :
    r.1 = env := by
  simp only [mdbxTxnCommitEmbarkRead, hw,
    checkTxn_hasChild t (show Bits.blockedPure.hasChild = true from rfl), if_true] at hr
  rw [← Option.some.inj hr]

/-! ### The calls that go on with the same `Txn` -/

theorem txnAt_joinNested {a : Addr} {u : WriteTxn} (merged : Option WriteTxn) (hu : u.addr = a) :
    (env.joinNested a merged [u]).txnAt (.nested a) = some u := by
  have hend := ended_joinNested env a merged
  simp only [Ended, txnAt, joinNested, List.append_nil] at hend
  simp only [txnAt, joinNested]
  rw [List.find?_append, hend, Option.none_or, List.find?_singleton, if_pos (by simpa using hu)]

theorem session_joinNested {a : Addr} {u : WriteTxn} (merged : Option WriteTxn) (hu : u.addr = a) :
    (env.joinNested a merged [u]).session (.nested a) = some u.client :=
  session_nested.mpr ⟨u, txnAt_joinNested merged hu, rfl⟩

theorem session_of_write? {a : Addr} {hasChild : Bool}
    (hw : env.write? (.nested a) = some (t, hasChild)) : env.session (.nested a) = some t.client :=
  session_nested.mpr ⟨t, txnAt_of_write? hw, rfl⟩

theorem txnBasalRestart_session {client : Handle} (base : env.Base) (hn : env.nested = [])
    (howner : env.basal.owner.isSome) (hcode : (env.txnBasalRestart o client).2 = Code.success) :
    (env.txnBasalRestart o client).1.session .basal = some client := by
  have hlive := (txnBasalRestart_restarted (o := o) base hn howner client).live hcode
  exact session_basal.mpr ⟨hlive.1, hlive.2.1⟩

theorem txnNestedCheckpoint_session {a : Addr} {hasChild : Bool} {after : WriteTxn → WriteTxn}
    (hw : env.write? (.nested a) = some (t, hasChild)) (haddr : ∀ u, (after u).addr = u.addr)
    (hclient : ∀ u, (after u).client = u.client)
    (hcode : (env.txnNestedCheckpoint o after a t).2 = Code.success) :
    (env.txnNestedCheckpoint o after a t).1.session (.nested a) = env.session (.nested a) := by
  obtain ⟨kids, hin, _⟩ := inner_of_write? hw
  unfold txnNestedCheckpoint at hcode ⊢
  split
  · rename_i e he
    rw [he] at hcode
    exact absurd hcode e.not_success
  · rename_i hjoin
    rw [hjoin] at hcode
    split
    · rename_i e he
      rw [he] at hcode
      exact absurd hcode e.not_success
    · have ht : t.addr = a := inner_addr hin
      dsimp only
      rw [session_joinNested _ ((haddr t.restarted).trans ht), hclient, session_of_write? hw]
      rfl

theorem basalStartLocked_ne_resultTrue (client : Handle) (env : MdbxEnv) :
    (env.basalStartLocked o client).2 ≠ Code.resultTrue := by
  unfold basalStartLocked
  split
  · exact show Code.panic ≠ Code.resultTrue by decide
  · dsimp only
    split
    · rename_i e _
      exact e.not_resultTrue
    · dsimp only
      split
      · decide
      · exact Failure.codeOf_ne_resultTrue _

theorem txnBasalRestart_ne_resultTrue (client : Handle) (env : MdbxEnv) :
    (env.txnBasalRestart o client).2 ≠ Code.resultTrue := by
  unfold txnBasalRestart
  dsimp only
  split <;> exact basalStartLocked_ne_resultTrue client env

theorem txnBasalCheckpoint_session (ok : env.Ok) (hlive : env.basal.finished = false)
    (hn : env.nested = []) {r : MdbxEnv × Code} (h : env.txnBasalCheckpoint o = some r)
    (hcode : r.2 = Code.success ∨ r.2 = Code.resultTrue) :
    r.1.session .basal = env.session .basal := by
  have base := txnBasalCommit_base (o := o) ok hlive
  obtain ⟨_, _, hbasal, hnested⟩ := txnBasalCommit_same (o := o) env
  have hends := txnBasalEnd_ne_resultTrue (o := o) true (env.txnBasalCommit o).1
  have hcommit := txnBasalCommit_ne_resultTrue (o := o) env
  unfold txnBasalCheckpoint at h
  dsimp only at h
  split at h
  · rename_i hfail
    cases h
    dsimp only at hcode
    split at hcode
    · exact absurd hcode (by simpa using ⟨by simpa using hfail, hcommit⟩)
    · rename_i hend
      exact absurd hcode (by simpa using ⟨by simpa using hend, hends⟩)
  · split at h
    · cases h
    · rename_i hend
      cases h
      have howner := txnBasalEnd_owner (by simpa using hend)
      rw [hbasal] at howner
      have hcode := hcode.resolve_right (txnBasalRestart_ne_resultTrue _ _)
      rw [txnBasalRestart_session ((txnBasalEnd_sameRest false).base base) (hnested.trans hn)
        (by rw [howner]; exact owner_of_live ok hlive) hcode]
      exact (session_basal.mpr ⟨hlive, rfl⟩).symm

/-- A checkpoint that reports no failure goes on with the transaction. -/
theorem mdbxTxnCheckpoint_session (ok : env.Ok) {flags : UInt32} {r : MdbxEnv × Code}
    (hr : env.mdbxTxnCheckpoint o self flags (some p) = some r)
    (hcode : r.2 = Code.success ∨ r.2 = Code.resultTrue) : r.1.session p = env.session p := by
  simp only [mdbxTxnCheckpoint] at hr
  split at hr
  · cases hr
    rfl
  · rename_i t hasChild hw
    split at hr
    · cases hr
      rfl
    · rename_i hcheck
      obtain ⟨hlive, hchild⟩ := live_of_check ⟨rfl, rfl⟩ hcheck
      split at hr
      · cases hr
        rfl
      · split at hr
        · rename_i hfail
          cases hr
          exact absurd hcode (by simpa using ⟨by simpa using hfail, checkWriter_ne_resultTrue⟩)
        · split at hr
          · cases hr
            rfl
          · cases p with
            | reader a => cases hw
            | basal =>
              cases hw
              exact txnBasalCheckpoint_session ok hlive (by simpa using hchild) hr hcode
            | nested a =>
              dsimp only at hr
              split at hr
              · cases hr
                rfl
              · cases hr
                refine txnNestedCheckpoint_session hw (fun _ => rfl) (fun _ => rfl) ?_
                refine hcode.resolve_right fun htrue => ?_
                unfold txnNestedCheckpoint at htrue
                split at htrue
                · rename_i e _
                  exact e.not_resultTrue htrue
                · split at htrue
                  · rename_i e _
                    exact e.not_resultTrue htrue
                  · exact absurd htrue (show Code.success ≠ Code.resultTrue by decide)

/-- A break leaves the transaction to its `Txn`. -/
theorem breakBasal_session (env : MdbxEnv) :
    (env.breakBasal self).session .basal = env.session .basal := by
  unfold breakBasal breakAll
  split
  · rfl
  · rename_i hbreak
    split at hbreak
    · cases hbreak
      rfl
    · cases hbreak
      rfl

theorem basalEmbarkRead_session {r : MdbxEnv × Code × Option Ptr} {p' : Ptr}
    (hlive : env.basal.finished = false) (h : env.basalEmbarkRead o = some r)
    (hp : r.2.2 = some p') : r.1.session p' = env.session .basal := by
  unfold basalEmbarkRead at h
  dsimp only at h
  split at h
  · cases h
    cases hp
  · split at h
    · cases h
    · split at h
      · cases h
        cases hp
      · split at h
        · cases h
          cases hp
        · cases h
          cases hp
          rw [session_basal.mpr ⟨hlive, rfl⟩]
          refine session_reader.mpr ⟨_, if_pos rfl, ?_⟩
          exact ReadTxn.txnRoStart_client _ _ _

/-- The pointer that the change to a reader leaves belongs to the same `Txn`. -/
theorem mdbxTxnCommitEmbarkRead_session {r : MdbxEnv × Code × Option Ptr} {p' : Ptr}
    (hr : env.mdbxTxnCommitEmbarkRead o self (some p) = some r) (hp : r.2.2 = some p') :
    r.1.session p' = env.session p := by
  simp only [mdbxTxnCommitEmbarkRead] at hr
  split at hr
  · cases hr
    cases hp
    rfl
  · rename_i t hasChild hw
    split at hr
    · cases hr
      cases hp
      rfl
    · rename_i hcheck
      obtain ⟨hlive, _⟩ := live_of_check ⟨rfl, rfl⟩ hcheck
      split at hr
      · cases hr
        cases hp
        unfold checkWriter
        split
        · rfl
        · split
          · rename_i hbasal
            simp only [Bool.and_eq_true, beq_iff_eq] at hbasal
            rw [hbasal.1]
            exact breakBasal_session env
          · rfl
      · split at hr
        · cases hr
          cases hp
          rfl
        · cases p with
          | reader a => cases hw
          | basal =>
            cases hw
            exact basalEmbarkRead_session hlive hr hp
          | nested a =>
            cases hr
            dsimp only at hp ⊢
            split at hp
            · rename_i hcode
              cases hp
              exact txnNestedCheckpoint_session hw (fun _ => rfl) (fun _ => rfl)
                (by simpa using hcode)
            · cases hp

/-! ### Rollback -/

/-- What a rollback needs to go on: that a nested transaction or the end of this one blocks it, or
that nothing fails on the way from the end to the new start. -/
def RollbackReady (o : Sys) (env : MdbxEnv) : Ptr → Prop
  | .basal => env.nested ≠ [] ∨
    env.fatal = false ∧ (env.basal.dirty = false ∨ o.dbiUpdate.isNone) ∧ o.fetchHead.isNone ∧
      o.startLocked.isNone
  | .nested a => ∀ x ∈ env.write? (.nested a), x.1.finished = true ∨ x.2 = true ∨
    (x.1.roNested = true ∧ x.1.dirty = true) ∨ o.nestedStart.isNone
  | .reader _ => True

instance (o : Sys) (env : MdbxEnv) : (p : Ptr) → Decidable (RollbackReady o env p)
  | .basal => inferInstanceAs (Decidable (env.nested ≠ [] ∨ env.fatal = false ∧
      (env.basal.dirty = false ∨ o.dbiUpdate.isNone) ∧ o.fetchHead.isNone ∧ o.startLocked.isNone))
  | .nested a => inferInstanceAs (Decidable (∀ x ∈ env.write? (.nested a), x.1.finished = true ∨
      x.2 = true ∨ (x.1.roNested = true ∧ x.1.dirty = true) ∨ o.nestedStart.isNone))
  | .reader _ => .isTrue trivial

theorem basalStartLocked_success {client : Handle} (hfatal : env.fatal = false)
    (hfetch : o.fetchHead = none) (hstart : o.startLocked = none)
    (hbound : env.recent + 1 ≤ maxTxnid) :
    (env.basalStartLocked o client).2 = Code.success := by
  unfold basalStartLocked
  rw [if_neg (by simp [hfatal]), hfetch]
  dsimp only
  rw [if_neg (UInt64.not_lt.mpr hbound), hstart]
  rfl

theorem txnBasalRestart_code (client : Handle) (env : MdbxEnv) :
    (env.txnBasalRestart o client).2 = (env.basalStartLocked o client).2 := by
  unfold txnBasalRestart
  dsimp only
  split <;> rfl

theorem txnBasalRollback_session (ok : env.Ok) (hlive : env.basal.finished = false)
    (hn : env.nested = []) (hfatal : env.fatal = false)
    (hdbi : env.basal.dirty = false ∨ o.dbiUpdate.isNone) (hfetch : o.fetchHead.isNone)
    (hstart : o.startLocked.isNone) {r : MdbxEnv × Code}
    (h : env.txnBasalRollback o self = some r) : r.1.session .basal = env.session .basal := by
  have hend : (env.txnBasalEnd o false).2 = Code.success := by
    rw [txnBasalEnd_code]
    rcases hdbi with hdirty | hdbi
    · simp [hdirty]
    · simp [Option.isNone_iff_eq_none.mp hdbi]
  have howner := txnBasalEnd_owner hend
  have hcode : ((env.txnBasalEnd o false).1.txnBasalRestart o env.basal.client).2 =
      Code.success := by
    rw [txnBasalRestart_code]
    refine basalStartLocked_success hfatal (Option.isNone_iff_eq_none.mp hfetch)
      (Option.isNone_iff_eq_none.mp hstart) ?_
    change env.recent + 1 ≤ maxTxnid
    obtain ⟨hnext, hle⟩ := ok.next hlive
    rwa [← hnext]
  unfold txnBasalRollback at h
  simp only [hend, bne_self_eq_false, Bool.false_eq_true, if_false, hcode, Bool.false_and,
    Option.some.injEq] at h
  rw [← h, txnBasalRestart_session ((txnBasalEnd_sameRest false).base ok.toBase) hn
    (by rw [howner]; exact owner_of_live ok hlive) hcode]
  exact (session_basal.mpr ⟨hlive, rfl⟩).symm

theorem session_replaceNested {a : Addr} {u : WriteTxn} (hu : u.addr = a) :
    (env.replaceNested a [u]).session (.nested a) = some u.client := by
  rw [replaceNested_eq_joinNested]
  exact session_joinNested none hu

/-- A rollback on whose way nothing fails goes on with the transaction. -/
theorem mdbxTxnRollback_session (ok : env.Ok) (ready : RollbackReady o env p)
    {r : MdbxEnv × Code} (hr : env.mdbxTxnRollback o self (some p) = some r) :
    r.1.session p = env.session p := by
  cases p with
  | reader a =>
    cases hr
    exact (onReader_local a fun r => r.mdbxTxnRollback_client _).session _
  | basal =>
    simp only [mdbxTxnRollback, write?] at hr
    split at hr
    · cases hr
      rfl
    · rename_i hcheck
      obtain ⟨hlive, hchild⟩ := live_of_check ⟨rfl, rfl⟩ hcheck
      have hn : env.nested = [] := by simpa using hchild
      obtain ⟨hfatal, hdbi, hfetch, hstart⟩ := ready.resolve_left (not_not.mpr hn)
      have herr : Effect .basal env { env with basal := { env.basal with error := true } } :=
        effect_touch ok (.cons (keeps_error true) (Keeps.remains _)) rfl rfl rfl rfl rfl
      exact txnBasalRollback_session herr.ok hlive hn hfatal hdbi hfetch hstart hr
  | nested a =>
    simp only [mdbxTxnRollback] at hr
    split at hr
    · cases hr
      rfl
    · rename_i t hasChild hw
      split at hr
      · cases hr
        rfl
      · rename_i hcheck
        obtain ⟨hlive, hchild⟩ := live_of_check ⟨rfl, rfl⟩ hcheck
        obtain ⟨kids, hin, _⟩ := inner_of_write? hw
        have haddr : t.addr = a := inner_addr hin
        cases hr
        rw [session_of_write? hw]
        unfold txnNestedRollback
        split
        · exact session_replaceNested haddr
        · rename_i hro
          rcases ready (t, hasChild) hw with h | h | ⟨hr, hd⟩ | hstart
          · simp [hlive] at h
          · simp [hchild] at h
          · exact absurd (by simp [show t.roNested = true from hr, show t.dirty = true from hd]) hro
          · rw [Option.isNone_iff_eq_none.mp hstart]
            exact session_replaceNested haddr

/-! ### What lies outside a transaction -/

/-- What a call leaves of a nested transaction changes none outside it. -/
theorem txnAt_replaceNested {a : Addr} {l : List WriteTxn} (hl : Remains Keeps (env.inner a) l)
    (hq : ¬ env.Inside (.nested a) q) : (env.replaceNested a l).txnAt q = env.txnAt q := by
  cases q with
  | basal => rfl
  | reader b => rfl
  | nested b =>
    have hin : ∀ u ∈ env.inner a, u.addr ≠ b := fun u hu hb => hq ⟨u, hu, hb⟩
    have hout : ∀ u ∈ l, u.addr ≠ b := by
      intro u hu hb
      obtain ⟨t, ht, hk⟩ := hl.mem hu
      exact hin t ht (hk.addr ▸ hb)
    have hold : env.txnAt (.nested b) = (env.outer a).find? (·.addr == b) := by
      simp only [txnAt]
      rw [← env.outer_append_inner a, List.find?_append, find?_none_of_addr hin, Option.or_none]
    rw [hold]
    simp only [txnAt, replaceNested]
    rw [List.find?_append, find?_none_of_addr hout, Option.or_none]

theorem mdbxTxnAbort_outside (hq : ¬ env.Inside p q) :
    (env.mdbxTxnAbort o self (some p)).1.txnAt q = env.txnAt q := by
  cases p with
  | reader a =>
    simp only [mdbxTxnAbort]
    split
    · rfl
    · split
      · rfl
      · exact txnAt_setReader _ _ _ _
  | basal =>
    cases q with
    | basal => exact absurd trivial hq
    | nested b => exact absurd trivial hq
    | reader b => rfl
  | nested a =>
    simp only [mdbxTxnAbort]
    split
    · rfl
    · rename_i t kids hin
      split
      · rfl
      · split
        · rfl
        · exact txnAt_replaceNested (hin ▸ abortNested_remains self _) hq

theorem mdbxTxnRollback_outside {r : MdbxEnv × Code}
    (hr : env.mdbxTxnRollback o self (some p) = some r) (hq : ¬ env.Inside p q) :
    r.1.txnAt q = env.txnAt q := by
  cases p with
  | reader a =>
    cases hr
    have hlocal : Local (.reader a) env (env.onReader a (·.mdbxTxnRollback o env.recent)).1 :=
      onReader_local a fun r => r.mdbxTxnRollback_client env.recent
    rcases hlocal.txnAt q with h | ⟨rfl, t, _, ht, _⟩
    · exact h
    · cases ht
  | basal =>
    cases q with
    | basal => exact absurd trivial hq
    | nested b => exact absurd trivial hq
    | reader b => rfl
  | nested a =>
    simp only [mdbxTxnRollback] at hr
    split at hr
    · cases hr
      rfl
    · rename_i t hasChild hw
      split at hr
      · cases hr
        rfl
      · obtain ⟨kids, hin, _⟩ := inner_of_write? hw
        cases hr
        unfold txnNestedRollback
        split
        · exact txnAt_replaceNested (hin ▸ .cons (keeps_error true) (.cut kids)) hq
        · split
          · exact txnAt_replaceNested (.cut _) hq
          · exact txnAt_replaceNested (hin ▸ .cons (keeps_restartNested t) (.cut kids)) hq

/-- Of two transactions that are nested in each other one is inside the other. -/
theorem inside_of_outside {t u : WriteTxn} (hp : env.txnAt p = some t) (hq : env.txnAt q = some u)
    (hout : ¬ env.Inside p q) : env.Inside q p := by
  cases p with
  | reader a => cases hp
  | basal =>
    cases q with
    | reader b => cases hq
    | _ => exact absurd trivial hout
  | nested a =>
    cases q with
    | reader b => cases hq
    | basal => trivial
    | nested b =>
      obtain ⟨kids, hin⟩ := inner_of_txnAt hp
      have hu : u ∈ env.outer a := by
        have hmem := List.mem_of_find?_eq_some hq
        rw [← env.outer_append_inner a, List.mem_append] at hmem
        refine hmem.resolve_right fun h => hout ⟨u, h, ?_⟩
        simpa using List.find?_some hq
      have haddr : u.addr = b := by simpa using List.find?_some hq
      have hne : (env.outer a).dropWhile (·.addr != b) ≠ [] := by
        intro hnil
        have := List.dropWhile_eq_nil_iff.mp hnil u hu
        simp [haddr] at this
      have hinner : env.inner b = (env.outer a).dropWhile (·.addr != b) ++ env.inner a := by
        change env.nested.dropWhile (·.addr != b) = _
        rw [← env.outer_append_inner a, List.dropWhile_append]
        simp [hne]
      exact ⟨t, by rw [hinner, hin]; simp, inner_addr hin⟩

end MdbxEnv

end MdbxGo
