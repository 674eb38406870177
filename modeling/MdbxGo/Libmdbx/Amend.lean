import MdbxGo.Libmdbx.Session

/-! What `mdbx_txn_amend` does to its reader on each of its exits. -/

namespace MdbxGo

namespace ReadTxn

variable {o : Sys} {r : ReadTxn}

theorem txnRoPark_failed (autounpark : Bool) (herror : r.error = false)
    (h : (r.txnRoPark o autounpark).2 ≠ Code.success) : (r.txnRoPark o autounpark).1 = r := by
  unfold txnRoPark at h ⊢
  split
  · rfl
  · rename_i hblocked
    rw [if_neg hblocked] at h
    split
    · rfl
    · rename_i hmismatch
      rw [if_neg hmismatch] at h
      split
      · rfl
      · rename_i hslot
        rw [if_neg hslot] at h
        simp [herror] at h

theorem txnRoPark_success (autounpark : Bool) (herror : r.error = false)
    (h : (r.txnRoPark o autounpark).2 = Code.success) :
    (r.txnRoPark o autounpark).1 = { r with slotTid := .parked, parked := true, autounpark } := by
  unfold txnRoPark at h ⊢
  split
  · rename_i hblocked
    rw [if_pos hblocked] at h
    exact absurd (show Code.badTxn = Code.success from h) (by decide)
  · rename_i hblocked
    rw [if_neg hblocked] at h
    split
    · rename_i hmismatch
      rw [if_pos hmismatch] at h
      exact absurd (show Code.problem = Code.success from h) (by decide)
    · rename_i hmismatch
      rw [if_neg hmismatch] at h
      split
      · rename_i hslot
        rw [if_pos hslot] at h
        exact absurd (show Code.badRslot = Code.success from h) (by decide)
      · simp [herror]

theorem txnRoReset_code : (r.txnRoReset o).2 = Code.success ↔ o.slotMismatch = false := by
  have hbad : Code.badRslot ≠ Code.success := by decide
  unfold txnRoReset roSlotClean
  cases o.slotMismatch with
  | true => simp [hbad]
  | false =>
    simp only [Bool.false_eq_true, ↓reduceIte, iff_true]
    split
    · rfl
    · split <;> rfl

/-- The reader as `mdbx_txn_amend` leaves it when it goes for the lock: it parks one that is not
parked yet, to let writers oust it meanwhile. -/
def awaiting (flags : UInt32) (r : ReadTxn) : ReadTxn :=
  if flags &&& txnTry == 0 && !r.parked then
    { r with slotTid := .parked, parked := true, autounpark := true }
  else r

theorem awaiting_parked {flags : UInt32} :
    (r.awaiting flags).parked = r.parked ↔ flags &&& txnTry ≠ 0 ∨ r.parked = true := by
  unfold awaiting
  by_cases htry : flags &&& txnTry = 0 <;> cases hparked : r.parked <;> simp [htry, hparked]

theorem awaiting_same {flags : UInt32} (h : flags &&& txnTry ≠ 0 ∨ r.parked = true) :
    r.awaiting flags = r := by
  unfold awaiting
  rcases h with h | h <;> simp [h]

end ReadTxn

namespace MdbxEnv

variable {env : MdbxEnv} {o : Sys} {self : Thread} {flags : UInt32} {a : Addr} {r : ReadTxn}

theorem setReader_eq (h : env.readers a = some r) : env.setReader a (some r) = env := by
  have hreaders : (fun b => if b = a then some r else env.readers b) = env.readers := by
    funext b
    split
    · rename_i hb
      rw [hb, h]
    · rfl
  unfold setReader
  rw [hreaders]

/-- `mdbx_txn_amend` answers before the lock and has changed nothing, or it goes for the lock. -/
theorem amendStart_cases (o : Sys) (self : Thread) (flags : UInt32) (hr : env.readers a = some r) :
    (∃ ret, env.amendStart o self flags (some (.reader a)) = (env, some ret) ∧
      ret ≠ Code.success) ∨
    (env.amendStart o self flags (some (.reader a)) =
      (env.setReader a (some (r.awaiting flags)), none) ∧ r.finished = false) := by
  unfold amendStart
  simp only [hr]
  split
  · exact .inl ⟨_, rfl, by decide⟩
  · split
    · exact .inl ⟨_, rfl, by decide⟩
    · rename_i hhits
      obtain ⟨hlive, herror⟩ : r.finished = false ∧ r.error = false := by
        simpa [ReadTxn.hits, Bits.blockedPure, Bits.blocked] using hhits
      split
      · exact .inl ⟨_, rfl, by decide⟩
      · split
        · exact .inl ⟨_, rfl, by decide⟩
        · split
          · exact .inl ⟨_, rfl, by decide⟩
          · split
            · rename_i hpark
              by_cases hcode : (r.txnRoPark o true).2 = Code.success
              · have hawaiting : (r.txnRoPark o true).1 = r.awaiting flags := by
                  rw [ReadTxn.txnRoPark_success true herror hcode, ReadTxn.awaiting, if_pos hpark]
                refine .inr ⟨?_, hlive⟩
                simp only [hcode, hawaiting, beq_self_eq_true, ↓reduceIte]
              · refine .inl ⟨(r.txnRoPark o true).2, ?_, hcode⟩
                simp only [ReadTxn.txnRoPark_failed true herror hcode, setReader_eq hr, beq_iff_eq,
                  hcode, ↓reduceIte]
            · rename_i hpark
              refine .inr ⟨?_, hlive⟩
              rw [ReadTxn.awaiting, if_neg hpark, setReader_eq hr]

/-- The answers with which `mdbx_txn_amend` starts a writer over the snapshot of `r`. -/
structure StartReady (o : Sys) (env : MdbxEnv) (r : ReadTxn) : Prop where
  idle : env.basal.owner = none
  lock : o.lock = none
  recent : env.recent = r.txnid
  fatal : env.fatal = false
  fetchHead : o.fetchHead = none
  bounded : env.recent + 1 ≤ maxTxnid
  startLocked : o.startLocked = none

instance (o : Sys) (env : MdbxEnv) (r : ReadTxn) : Decidable (StartReady o env r) :=
  decidable_of_iff (env.basal.owner = none ∧ o.lock = none ∧ env.recent = r.txnid ∧
    env.fatal = false ∧ o.fetchHead = none ∧ env.recent + 1 ≤ maxTxnid ∧ o.startLocked = none)
    ⟨fun ⟨hidle, hlock, hrecent, hfatal, hfetch, hbound, hstart⟩ =>
      ⟨hidle, hlock, hrecent, hfatal, hfetch, hbound, hstart⟩,
    fun ⟨hidle, hlock, hrecent, hfatal, hfetch, hbound, hstart⟩ =>
      ⟨hidle, hlock, hrecent, hfatal, hfetch, hbound, hstart⟩⟩

/-- No writer has come to be, and no lock is held, that was not before. -/
structure SameWriter (env env' : MdbxEnv) : Prop where
  owner : env'.basal.owner = env.basal.owner
  finished : env'.basal.finished = env.basal.finished
  nested : env'.nested = env.nested

theorem SameWriter.refl (env : MdbxEnv) : SameWriter env env := ⟨rfl, rfl, rfl⟩

theorem basalStartLocked_ready {client : Handle}
    (h : (env.basalStartLocked o client).2 = Code.success) :
    env.fatal = false ∧ o.fetchHead = none ∧ env.recent + 1 ≤ maxTxnid ∧ o.startLocked = none := by
  unfold basalStartLocked at h
  split at h
  · exact absurd (show Code.panic = Code.success from h) (by decide)
  · rename_i hfatal
    dsimp only at h
    split at h
    · rename_i e _
      exact absurd h e.not_success
    · rename_i hfetch
      dsimp only at h
      split at h
      · exact absurd h (by decide)
      · rename_i hbound
        exact ⟨by simpa using hfatal, hfetch, UInt64.not_lt.mp hbound,
          Failure.codeOf_eq_success.mp h⟩

/-- How `mdbx_txn_amend` ends for the reader `r`. -/
inductive AmendEnd (o : Sys) (flags : UInt32) (a : Addr) (r : ReadTxn) (env env' : MdbxEnv)
    (code : Code) : Option Ptr → Prop
  | failed : ¬StartReady o env r → code ≠ Code.success → env'.readers a = some r →
      env'.recent = env.recent → SameWriter env env' → AmendEnd o flags a r env env' code none
  | broken : StartReady o env r → o.slotMismatch = true → code ≠ Code.success →
      env'.readers a = some (r.txnRoReset o).1 → AmendEnd o flags a r env env' code none
  | started : StartReady o env r → o.slotMismatch = false → code = Code.success →
      env'.basal.finished = false → env'.basal.txnid = r.txnid + 1 →
      env'.readers a = (if flags &&& txnRdonlyPrepare = txnRdonlyPrepare then
        some (r.txnRoReset o).1 else none) → AmendEnd o flags a r env env' code (some .basal)

theorem amendLocked_reader {client : Handle} {res : MdbxEnv × Code × Option Ptr}
    (h : env.amendLocked o self flags client a = some res) : ∃ r, env.readers a = some r := by
  unfold amendLocked at h
  split at h
  · cases h
  · exact ⟨_, by assumption⟩

theorem amendLocked_end (ok : env.Ok) {client : Handle} (hr : env.readers a = some r)
    {res : MdbxEnv × Code × Option Ptr}
    (h : env.amendLocked o self flags client a = some res) :
    AmendEnd o flags a r env res.1 res.2.1 res.2.2 := by
  unfold amendLocked at h
  simp only [hr] at h
  split at h
  · rename_i hbusy
    split at h
    · cases h
      refine .failed (fun ready => ?_) (show Code.busy ≠ Code.success by decide) hr rfl (.refl env)
      simp [ready.idle] at hbusy
    · cases h
  · rename_i hidle
    have hidle : env.basal.owner = none := by simpa using hidle
    split at h
    · rename_i e hlock
      cases h
      refine .failed (fun ready => ?_) e.not_success hr rfl (.refl env)
      rw [ready.lock] at hlock
      cases hlock
    · rename_i hlock
      split at h
      · rename_i hrecent
        cases h
        refine .failed (fun ready => ?_) (show Code.resultTrue ≠ Code.success by decide) hr rfl
          (.refl env)
        simp [ready.recent] at hrecent
      · rename_i hrecent
        have hrecent : env.recent = r.txnid := by simpa using hrecent
        have hfin : env.basal.finished = true := by
          rw [← ok.owner, hidle]
          rfl
        have hre := locked_restarted o self ok hidle client
        dsimp only at hre h
        generalize hlocked :
            ({ env with basal := { env.basal with owner := some self } } : MdbxEnv) =
          locked at hre h
        have hsame : locked.fatal = env.fatal ∧ locked.recent = env.recent ∧
            locked.readers = env.readers := by
          rw [← hlocked]
          exact ⟨rfl, rfl, rfl⟩
        obtain ⟨hfatal, hlast, hreaders⟩ := hsame
        split at h
        · rename_i hcode
          cases h
          have hcode := by simpa using hcode
          refine .failed (fun ready => ?_) hcode ?_ (hre.rest.recent.trans hlast) ⟨?_, ?_, ?_⟩
          · apply hcode
            rw [txnBasalRestart_code]
            exact basalStartLocked_success (hfatal.trans ready.fatal) ready.fetchHead
              ready.startLocked (hlast ▸ ready.bounded)
          · rw [hre.rest.readers, hreaders]
            exact hr
          · rw [hidle, ← Option.isNone_iff_eq_none, hre.ok.owner, hre.ended hcode]
          · rw [hre.ended hcode, hfin]
          · rw [hre.nested, ok.ended hfin]
        · rename_i hcode
          have hcode : (locked.txnBasalRestart o client).2 = Code.success := by simpa using hcode
          obtain ⟨hlive, _, _, _, htxnid, _⟩ := hre.live hcode
          have ready : StartReady o env r := by
            rw [txnBasalRestart_code] at hcode
            obtain ⟨hf, hfetch, hbound, hstart⟩ := basalStartLocked_ready hcode
            exact ⟨hidle, hlock, hrecent, hfatal ▸ hf, hfetch, hlast ▸ hbound, hstart⟩
          split at h
          · rename_i hbasis
            simp [htxnid, hlast, hrecent] at hbasis
          · split at h
            · rename_i hreset
              cases h
              have hmismatch : o.slotMismatch = true := by
                have : ¬o.slotMismatch = false := fun hno =>
                  by simp [ReadTxn.txnRoReset_code.mpr hno] at hreset
                simpa using this
              refine .broken ready hmismatch (by simpa using hreset) ?_
              exact setReader_self _ _ _
            · rename_i hreset
              cases h
              have hmatch : o.slotMismatch = false :=
                ReadTxn.txnRoReset_code.mp (by simpa using hreset)
              refine .started ready hmatch rfl hlive ?_ ?_
              · rw [← hrecent, ← hlast]
                exact htxnid
              · rw [setReader_self]
                simp only [beq_iff_eq]

end MdbxEnv

end MdbxGo
