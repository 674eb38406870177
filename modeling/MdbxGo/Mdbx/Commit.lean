import MdbxGo.Mdbx.Act

/-! When a commit that returns no error has committed: libmdbx ends a transaction that an earlier
operation marked with `MDBX_TXN_ERROR` with an abort, and reports `MDBX_RESULT_TRUE` for it. -/

namespace MdbxGo

namespace WriteTxn

variable {o : Sys} {self : Thread}

/-- The changes of the first of the transactions nested in each other, once the others are merged
into it. -/
def pending (l : List WriteTxn) : List Change := l.flatMap (·.changes)

/-- Each of the transactions can be merged into the one around it. -/
def clear (o : Sys) : List WriteTxn → Bool
  | [] => true
  | t :: kids => !t.finished && clear o kids && !t.error && (o.nestedJoin t.addr).isNone

/-- The first obstacle to merging the transactions, from the innermost one on, is a
`MDBX_TXN_ERROR`. -/
def poisoned (o : Sys) : List WriteTxn → Bool
  | [] => false
  | t :: kids => !t.finished && (poisoned o kids || (clear o kids && t.error))

theorem absorb_changes (t : WriteTxn) (merged : Option WriteTxn) :
    (t.absorb merged).changes = t.changes ++ (merged.map (·.changes)).getD [] := by
  cases merged <;> simp [WriteTxn.absorb]

theorem absorb_dirty (t : WriteTxn) (merged : Option WriteTxn) :
    (t.absorb merged).dirty = (t.dirty || (merged.map (·.dirty)).getD false) := by
  cases merged <;> simp [WriteTxn.absorb]

@[simp] theorem absorb_error (t : WriteTxn) (merged : Option WriteTxn) :
    (t.absorb merged).error = t.error := by
  cases merged <;> rfl

theorem txnCommitNested_code (o : Sys) (t : WriteTxn) :
    ((txnCommitNested o t).code = Code.success ↔
      t.error = false ∧ (o.nestedJoin t.addr).isNone = true) ∧
    ((txnCommitNested o t).code = Code.resultTrue ↔ t.error = true) := by
  unfold txnCommitNested
  cases herr : t.error with
  | true => simp [Code.success, Code.resultTrue]
  | false =>
    cases hjoin : o.nestedJoin t.addr with
    | none => simp [Code.success, Code.resultTrue]
    | some e => simp [e.not_success, e.not_resultTrue]

theorem txnCommitNested_merged_of_success {t : WriteTxn}
    (h : (txnCommitNested o t).code = Code.success) : (txnCommitNested o t).merged = some t := by
  obtain ⟨herr, hjoin⟩ := (txnCommitNested_code o t).1.mp h
  unfold txnCommitNested
  rw [Option.isNone_iff_eq_none.mp hjoin, herr]
  rfl

/-- The code of a nested commit. -/
theorem commitNested_code (o : Sys) (self : Thread) (l : List WriteTxn) :
    ((commitNested o self l).code = Code.success ↔ clear o l = true) ∧
    ((commitNested o self l).code = Code.resultTrue ↔ poisoned o l = true) := by
  induction l with
  | nil => simp [commitNested, clear, poisoned, Code.success, Code.resultTrue]
  | cons t kids ih =>
    unfold commitNested clear poisoned
    cases hfin : t.finished with
    | true => simp [Code.badTxn, Code.success, Code.resultTrue]
    | false =>
      by_cases hcode : (commitNested o self kids).code = Code.success
      · have hclear := ih.1.mp hcode
        have hpoison : poisoned o kids = false := by
          rw [← Bool.not_eq_true, ← ih.2, hcode]
          decide
        simp only [hcode, bne_self_eq_false, Bool.false_eq_true, if_false, Bool.not_false,
          hclear, hpoison, Bool.true_and, Bool.false_or]
        simpa using txnCommitNested_code o (t.absorb (commitNested o self kids).merged)
      · have hclear : clear o kids = false := by
          rw [← Bool.not_eq_true, ← ih.1]
          exact hcode
        simp [hcode, hclear, ih.2]

/-- A nested commit that succeeds merges all the pending changes. -/
theorem commitNested_merged {l : List WriteTxn}
    (h : (commitNested o self l).code = Code.success) :
    ((commitNested o self l).merged.map (·.changes)).getD [] = pending l ∧
    ((commitNested o self l).merged.map (·.dirty)).getD false = l.any (·.dirty) := by
  induction l with
  | nil => exact ⟨rfl, rfl⟩
  | cons t kids ih =>
    unfold commitNested at h ⊢
    split at h
    · exact absurd (show Code.badTxn = Code.success from h) (by decide)
    · rename_i hfin
      dsimp only at h
      split at h
      · rename_i hcode
        exact absurd h (by simpa using hcode)
      · rename_i hcode
        rw [if_neg hfin]
        dsimp only
        rw [if_neg hcode, txnCommitNested_merged_of_success h]
        obtain ⟨hchanges, hdirty⟩ := ih (by simpa using hcode)
        simp only [Option.map_some, Option.getD_some]
        rw [absorb_changes, absorb_dirty, hchanges, hdirty]
        exact ⟨by simp [pending], by simp⟩

theorem commitNested_merged_none {l : List WriteTxn}
    (h : (commitNested o self l).code ≠ Code.success) : (commitNested o self l).merged = none := by
  cases l with
  | nil => rfl
  | cons t kids =>
    unfold commitNested at h ⊢
    split
    · rfl
    · rename_i hfin
      rw [if_neg hfin] at h
      dsimp only at h ⊢
      split
      · rfl
      · rename_i hcode
        rw [if_neg hcode] at h
        unfold txnCommitNested at h ⊢
        split
        · rfl
        · rename_i herr
          rw [if_neg herr] at h
          split
          · rfl
          · rename_i hjoin
            rw [hjoin] at h
            exact absurd rfl h

end WriteTxn

namespace MdbxEnv

open WriteTxn

variable {env : MdbxEnv} {o : Sys} {self : Thread}

/-- The write transaction at a pointer and those nested in it. -/
def chain (env : MdbxEnv) : Ptr → List WriteTxn
  | .basal => env.basal :: env.nested
  | .nested a => env.inner a
  | .reader _ => []

/-- The changes of the transaction around the one at `a`. -/
def aroundChanges (env : MdbxEnv) (depth : Nat) : Option (List Change) :=
  (env.basal :: env.nested)[depth]?.map (·.changes)

/-- The changes of the write transaction at `p` have reached the data, or those of the transaction
around it. -/
def Committed (env env' : MdbxEnv) : Ptr → Prop
  | .basal => env'.data = env.data ++ pending (env.chain .basal)
  | .nested a =>
    env'.aroundChanges (env.outer a).length =
      (env.aroundChanges (env.outer a).length).map (· ++ pending (env.chain (.nested a)))
  | .reader _ => True

instance (env env' : MdbxEnv) (p : Ptr) : Decidable (Committed env env' p) :=
  match p with
  | .basal => inferInstanceAs (Decidable (_ = _))
  | .nested _ => inferInstanceAs (Decidable (_ = _))
  | .reader _ => inferInstanceAs (Decidable True)

/-- `mdbx_txn_commit_ex` at `p` gets as far as a transaction with `MDBX_TXN_ERROR`. -/
def swallows (o : Sys) (self : Thread) (env : MdbxEnv) : Ptr → Bool
  | .basal =>
    !env.basal.finished && !env.fatal && env.basal.owner == some self &&
      (poisoned o env.nested || (clear o env.nested && env.basal.error &&
        !((env.basal :: env.nested).any (·.dirty) && o.dbiUpdate.isSome)))
  | .nested a => !env.fatal && poisoned o (env.inner a)
  | .reader _ => false

/-- What `mergeInto` leaves in the transaction around. -/
theorem mergeInto_around (merged : Option WriteTxn) (t : WriteTxn) (l rest : List WriteTxn) :
    ((mergeInto merged t l).1 :: ((mergeInto merged t l).2 ++ rest))[l.length]? =
      ((t :: (l ++ rest))[l.length]?).map (·.absorb merged) := by
  induction l generalizing t with
  | nil => simp [mergeInto]
  | cons u l ih => simpa [mergeInto] using ih u

theorem joinNested_around (a : Addr) (merged : Option WriteTxn) (rest : List WriteTxn) :
    (env.joinNested a merged rest).aroundChanges (env.outer a).length =
      (env.aroundChanges (env.outer a).length).map (· ++ (merged.map (·.changes)).getD []) := by
  have hsame : (env.basal :: (env.outer a ++ rest))[(env.outer a).length]? =
      (env.basal :: env.nested)[(env.outer a).length]? := by
    rw [← env.outer_append_inner a, ← List.cons_append, ← List.cons_append,
      List.getElem?_append_left (by simp), List.getElem?_append_left (by simp)]
  unfold aroundChanges
  simp only [joinNested]
  rw [mergeInto_around, hsame, Option.map_map, Option.map_map]
  congr 1
  funext t
  exact absorb_changes t merged

/-- `txn_basal_commit` writes the changes, unless there are none. -/
theorem txnBasalCommit_data (clean : env.basal.Clean)
    (h : (env.txnBasalCommit o).2 = Code.success) :
    (env.txnBasalCommit o).1.data = env.data ++ env.basal.changes := by
  unfold txnBasalCommit at h ⊢
  split
  · rename_i hpure
    have hdirty : env.basal.dirty = false := by
      simpa using (Bool.and_eq_true_iff.mp hpure).1
    rw [clean hdirty, List.append_nil]
  · rename_i hpure
    rw [if_neg hpure] at h
    split
    · rename_i e he
      rw [he] at h
      exact absurd h e.not_success
    · rfl

/-- The end of the top-level transaction: when no code is an error, everything was written, or
there was nothing to write. -/
theorem txnCommitBasal_spec (o : Sys) (env : MdbxEnv) (clean : env.basal.Clean)
    (howner : env.basal.owner.isSome) :
    ((env.txnCommitBasal o).2 = Code.success →
      (env.txnCommitBasal o).1.data = env.data ++ env.basal.changes) ∧
    ((env.txnCommitBasal o).2 = Code.resultTrue ↔
      env.basal.error = true ∧ ¬ (env.basal.dirty = true ∧ o.dbiUpdate.isSome = true)) ∧
    ((env.txnCommitBasal o).2 = Code.resultTrue → (env.txnCommitBasal o).1.data = env.data) := by
  cases herr : env.basal.error with
  | true =>
    have habort : (env.txnAbortBasal o).1.data = env.data ∧ (env.txnAbortBasal o).2 =
        if env.basal.dirty then Failure.codeOf o.dbiUpdate else Code.success := by
      unfold txnAbortBasal
      rw [if_neg (by simpa using Option.isSome_iff_ne_none.mp howner)]
      exact ⟨rfl, rfl⟩
    unfold txnCommitBasal
    rw [if_pos herr]
    dsimp only
    rw [habort.2]
    cases hdirty : env.basal.dirty with
    | false => simp [habort.1, Code.success, Code.resultTrue]
    | true =>
      cases hdbi : o.dbiUpdate with
      | none => simp [habort.1, Code.success, Code.resultTrue]
      | some e => simp [e.not_success, e.not_resultTrue]
  | false =>
    unfold txnCommitBasal
    rw [if_neg (by simp [herr])]
    obtain ⟨_, _, hbasal, _⟩ := txnBasalCommit_same (o := o) env
    have hend := txnBasalEnd_ne_resultTrue (o := o) true (env.txnBasalCommit o).1
    have hcommit := txnBasalCommit_ne_resultTrue (o := o) env
    dsimp only
    have hne : (if ((env.txnBasalCommit o).1.txnBasalEnd o true).2 == Code.success
        then (env.txnBasalCommit o).2
        else ((env.txnBasalCommit o).1.txnBasalEnd o true).2) ≠ Code.resultTrue := by
      split
      · exact hcommit
      · exact hend
    refine ⟨fun h => ?_, ⟨fun h => absurd h hne, fun h => by cases h.1⟩, fun h => absurd h hne⟩
    split at h
    · exact txnBasalCommit_data clean h
    · rename_i hcode
      exact absurd h (by simpa using hcode)

theorem breakBasal_data (self : Thread) (env : MdbxEnv) :
    (env.breakBasal self).data = env.data := by
  unfold breakBasal
  split <;> rfl

theorem mdbxTxnAbort_data (env : MdbxEnv) (ptr : Option Ptr) :
    (env.mdbxTxnAbort o self ptr).1.data = env.data := by
  unfold mdbxTxnAbort
  split
  · rfl
  · split
    · rfl
    · split <;> rfl
  · dsimp only
    split
    · rfl
    · split
      · rfl
      · split
        · exact breakBasal_data self env
        · unfold txnAbortBasal
          split <;> rfl
  · split
    · rfl
    · split
      · rfl
      · split <;> rfl

/-- The changes of the write transaction at `p` are nowhere. -/
def Discarded (env env' : MdbxEnv) : Ptr → Prop
  | .basal => env'.data = env.data
  | .nested a =>
    env'.aroundChanges (env.outer a).length = env.aroundChanges (env.outer a).length
  | .reader _ => True

/-- What the codes of `mdbx_txn_commit_ex` say about the changes of a write transaction. -/
structure CommitSpec (o : Sys) (thread : Thread) (p : Ptr) (env env' : MdbxEnv) (code : Code) :
    Prop where
  committed : code = Code.success → Committed env env' p
  swallowed : code = Code.resultTrue ↔ env.swallows o thread p = true
  discarded : code = Code.resultTrue → Discarded env env' p

theorem commitSpec_refused {p : Ptr} {code : Code} {env' : MdbxEnv} (h : code ≠ Code.success)
    (h' : code ≠ Code.resultTrue) (hs : env.swallows o self p = false) :
    CommitSpec o self p env env' code :=
  ⟨fun hc => absurd hc h, by simp [h', hs], fun hc => absurd hc h'⟩

theorem commitBasal_spec (ok : env.Ok) :
    CommitSpec o self .basal env (env.commitBasal o self).1 (env.commitBasal o self).2 := by
  unfold commitBasal
  split
  · rename_i hfin
    exact commitSpec_refused (show Code.badTxn ≠ Code.success by decide)
      (show Code.badTxn ≠ Code.resultTrue by decide) (by simp [swallows, hfin])
  · rename_i hfin
    split
    · rename_i hfatal
      exact commitSpec_refused (show Code.panic ≠ Code.success by decide)
        (show Code.panic ≠ Code.resultTrue by decide) (by simp [swallows, hfatal])
    · rename_i hfatal
      split
      · rename_i howner
        exact commitSpec_refused (show Code.threadMismatch ≠ Code.success by decide)
          (show Code.threadMismatch ≠ Code.resultTrue by decide)
          (by simp [swallows, show env.basal.owner ≠ some self by simpa using howner])
      · rename_i howner
        have howner : env.basal.owner = some self := by simpa using howner
        have hswallows : env.swallows o self .basal = (poisoned o env.nested ||
            (clear o env.nested && env.basal.error &&
              !((env.basal :: env.nested).any (·.dirty) && o.dbiUpdate.isSome))) := by
          simp [swallows, hfin, hfatal, howner]
        obtain ⟨hclear, hpoison⟩ := commitNested_code o self env.nested
        dsimp only
        split
        · rename_i hcode
          have hcode : (commitNested o self env.nested).code ≠ Code.success := by simpa using hcode
          have hnot : clear o env.nested = false := by
            rw [← Bool.not_eq_true, ← hclear]
            exact hcode
          refine ⟨fun h => absurd h hcode, ?_, fun _ => mdbxTxnAbort_data _ _⟩
          rw [hswallows, hnot, hpoison]
          simp
        · rename_i hcode
          have hcode : (commitNested o self env.nested).code = Code.success := by simpa using hcode
          have hnot : poisoned o env.nested = false := by
            rw [← Bool.not_eq_true, ← hpoison, hcode]
            decide
          obtain ⟨hchanges, hdirty⟩ := commitNested_merged hcode
          have hclean : (env.basal.absorb (commitNested o self env.nested).merged).Clean :=
            ok.clean.absorb fun m => commitNested_clean ok.cleanNested
          obtain ⟨hdone, hswallow, hdiscard⟩ := txnCommitBasal_spec o { env with
              nested := (commitNested o self env.nested).rest
              basal := env.basal.absorb (commitNested o self env.nested).merged } hclean
            (by cases (commitNested o self env.nested).merged <;> simp [WriteTxn.absorb, howner])
          refine ⟨fun h => ?_, ?_, hdiscard⟩
          · rw [Committed, hdone h]
            dsimp only
            rw [absorb_changes, hchanges]
            rfl
          · rw [hswallow, hswallows, hnot, hclear.mp hcode]
            dsimp only
            rw [absorb_error, absorb_dirty, hdirty]
            simp only [List.any_cons, Bool.false_or, Bool.true_and, Bool.and_eq_true,
              Bool.not_eq_true', Bool.and_eq_false_iff]
            grind

theorem commitNested_spec (a : Addr) :
    CommitSpec o self (.nested a) env (env.mdbxTxnCommitEx o self (some (.nested a))).1
      (env.mdbxTxnCommitEx o self (some (.nested a))).2 := by
  simp only [mdbxTxnCommitEx]
  split
  · rename_i hin
    exact commitSpec_refused (show Code.ebadsign ≠ Code.success by decide)
      (show Code.ebadsign ≠ Code.resultTrue by decide) (by simp [swallows, hin, poisoned])
  · rename_i t kids hin
    split
    · rename_i hfin
      exact commitSpec_refused (show Code.badTxn ≠ Code.success by decide)
        (show Code.badTxn ≠ Code.resultTrue by decide) (by simp [swallows, hin, poisoned, hfin])
    · split
      · rename_i hfatal
        exact commitSpec_refused (show Code.panic ≠ Code.success by decide)
          (show Code.panic ≠ Code.resultTrue by decide) (by simp [swallows, hfatal])
      · rename_i hfatal
        obtain ⟨_, hpoison⟩ := commitNested_code o self (t :: kids)
        dsimp only
        refine ⟨fun h => ?_, ?_, fun h => ?_⟩
        · rw [Committed, joinNested_around, (commitNested_merged h).1]
          simp only [chain, hin]
        · rw [hpoison, swallows, hin]
          simp [hfatal]
        · rw [Discarded, joinNested_around]
          have hnone : (commitNested o self (t :: kids)).merged = none := by
            exact commitNested_merged_none (by rw [h]; decide)
          simp [hnone]

end MdbxEnv

namespace Reply

/-- The method has returned without an error. -/
def isNil : Reply → Bool
  | .returned r => r.err.isNone
  | _ => false

end Reply

namespace World

open MdbxEnv WriteTxn

variable {w : World} {o : Sys} {self : Thread}

/-- The `Txn` that an event commits: `Commit` by itself, or the end without an error of a function
that `RunTxn` (with it `Update` and `View`), `RunOp` with `terminate`, or `Sub` has run. -/
def committing (w : World) : Event → Option Handle
  | .go _ _ _ (.commit h) => some h
  | .go g _ _ (.finish .nil) =>
    match w.frames g with
    | { kind := .term, txn := h, .. } :: _ => some h
    | { kind := .sub, txn := h, .. } :: _ => some h
    | _ => none
  | _ => none

/-- The method panics before it calls libmdbx. -/
def panics (w : World) (self : Thread) (h : Handle) (call : Call) : Bool :=
  (decide (call = .commit h) && (w.txns h).managed) || w.mismatched self h

/-- The commit of `h` ends at a `MDBX_TXN_ERROR`, with changes to lose. -/
def Swallowed (w : World) (h : Handle) (p : Ptr) : Event → Prop
  | .go _ self o call =>
    w.panics self h call = false ∧ w.lib.swallows o self p = true ∧ pending (w.lib.chain p) ≠ []
  | _ => False

theorem committing_step {e : Event} {h : Handle} {r : World × Reply}
    (hc : w.committing e = some h) (hr : w.step e = some r) :
    ∃ g self o call, e = .go g self o call ∧
      ((w.panics self h call = true ∧ r.2.isNil = false) ∨
        (w.panics self h call = false ∧
          r.1.lib = (w.lib.mdbxTxnCommitEx o self (w.txns h).ptr).1 ∧
          r.2 = err "mdbx_txn_commit_ex" (w.lib.mdbxTxnCommitEx o self (w.txns h).ptr).2)) := by
  have hcommit : ∀ (w₀ : World) o self, w₀.lib = w.lib → w₀.txns = w.txns →
      w₀.strictThreadCheck = w.strictThreadCheck →
      (w.mismatched self h = true ∧ (w₀.commitTxn o self h).2.isNil = false) ∨
      (w.mismatched self h = false ∧
        (w₀.commitTxn o self h).1.lib = (w.lib.mdbxTxnCommitEx o self (w.txns h).ptr).1 ∧
        (w₀.commitTxn o self h).2 =
          err "mdbx_txn_commit_ex" (w.lib.mdbxTxnCommitEx o self (w.txns h).ptr).2) := by
    intro w₀ o self hlib htxns hstrict
    have hmis : w₀.mismatched self h = w.mismatched self h := by
      unfold mismatched
      rw [htxns, hstrict]
    unfold commitTxn
    rw [hmis, ← hlib, ← htxns]
    cases w.mismatched self h with
    | true => exact .inl ⟨rfl, rfl⟩
    | false => exact .inr ⟨rfl, rfl, rfl⟩
  rcases step_cases hr with ⟨g, self, o, call, rfl, _, _, hexec⟩ | ⟨a, x, rfl, _, _⟩ |
    ⟨txnid, changes, rfl, _, _, _, _⟩ | ⟨rfl, _⟩
  · refine ⟨g, self, o, call, rfl, ?_⟩
    unfold committing at hc
    split at hc
    · rename_i heq
      cases heq
      cases hc
      cases hexec
      unfold panics World.commit unmanaged
      cases hmanaged : (w.txns h).managed with
      | true => exact .inl ⟨by simp, rfl⟩
      | false => simpa using hcommit w o self rfl rfl rfl
    · rename_i heq
      cases heq
      have hexec : w.finish o g self .nil = some r := hexec
      unfold finish at hexec
      split at hc
      · rename_i hframes
        cases hc
        rw [hframes] at hexec
        cases hexec
        simpa [panics, terminate] using hcommit (w.pop g) o self rfl rfl rfl
      · rename_i hframes
        cases hc
        rw [hframes] at hexec
        cases hexec
        simpa [panics, terminate] using hcommit (w.pop g) o self rfl rfl rfl
      · cases hc
    · cases hc
  · cases hc
  · cases hc
  · cases hc

theorem committed_of_discarded {env env' : MdbxEnv} {p : Ptr} (hwriter : env.chain p ≠ [])
    (hd : Discarded env env' p) (hpending : pending (env.chain p) = []) :
    Committed env env' p := by
  cases p with
  | reader a => exact absurd rfl hwriter
  | basal =>
    rw [Committed, hpending, List.append_nil]
    exact hd
  | nested a =>
    rw [Committed, hpending]
    simpa using show env'.aroundChanges _ = env.aroundChanges _ from hd

theorem not_committed_of_discarded {env env' : MdbxEnv} {p : Ptr}
    (hwriter : (env.chain p) ≠ []) (hd : Discarded env env' p)
    (hpending : pending (env.chain p) ≠ []) : ¬ Committed env env' p := by
  cases p with
  | reader a => exact absurd rfl hwriter
  | basal =>
    intro h
    rw [Committed, show env'.data = env.data from hd] at h
    exact hpending (List.self_eq_append_right.mp h)
  | nested a =>
    intro h
    rw [Committed, show env'.aroundChanges _ = env.aroundChanges _ from hd] at h
    have hsome : (env.outer a).length < (env.basal :: env.nested).length := by
      rw [← env.outer_append_inner a]
      simp only [List.length_cons, List.length_append]
      omega
    unfold aroundChanges at h
    rw [List.getElem?_eq_getElem hsome] at h
    exact hpending (List.self_eq_append_right.mp (Option.some.inj h))

theorem sound_iff_of_spec {g : Gor} {call : Call} {h : Handle} {p : Ptr} {r : World × Reply}
    {code : Code} (hchain : w.lib.chain p ≠ []) (hpanics : w.panics self h call = false)
    (spec : CommitSpec o self p w.lib r.1.lib code)
    (hreply : r.2 = err "mdbx_txn_commit_ex" code) :
    (r.2.isNil = true → Committed w.lib r.1.lib p) ↔
      ¬ w.Swallowed h p (.go g self o call) := by
  have hnil : r.2.isNil = true ↔ code = Code.success ∨ code = Code.resultTrue := by
    rw [hreply, ← operrno_eq_none "mdbx_txn_commit_ex"]
    simp [err, Reply.isNil]
  simp only [Swallowed, hpanics, true_and, not_and, not_not]
  rw [hnil, ← spec.swallowed]
  constructor
  · intro hsound hswallow
    by_contra hpending
    exact not_committed_of_discarded hchain (spec.discarded hswallow) hpending
      (hsound (.inr hswallow))
  · rintro hlost (hcode | hcode)
    · exact spec.committed hcode
    · exact committed_of_discarded hchain (spec.discarded hcode) (hlost hcode)

/-- A commit of a write transaction returns no error only if its changes were committed, exactly
when it does not come to a transaction that an earlier operation has marked with
`MDBX_TXN_ERROR`. -/
theorem commit_sound_iff {e : Event} {h : Handle} {p : Ptr} {r : World × Reply}
    (run : system.Reachable w) (hc : w.committing e = some h) (hp : (w.txns h).ptr = some p)
    (hr : w.step e = some r) :
    (r.2.isNil = true → Committed w.lib r.1.lib p) ↔ ¬ w.Swallowed h p e := by
  have ok := lib_ok run
  obtain ⟨g, self, o, call, rfl, ⟨hpanics, hnil⟩ | ⟨hpanics, hlib, hreply⟩⟩ :=
    committing_step hc hr
  · simp [hnil, Swallowed, hpanics]
  · rw [hp] at hlib hreply
    cases p with
    | reader a => simp [Committed, Swallowed, swallows]
    | basal =>
      have spec : CommitSpec o self .basal w.lib r.1.lib _ := hlib ▸ commitBasal_spec ok
      exact sound_iff_of_spec (by simp [chain]) hpanics spec hreply
    | nested a =>
      have spec : CommitSpec o self (.nested a) w.lib r.1.lib _ := hlib ▸ commitNested_spec a
      by_cases hchain : w.lib.chain (.nested a) = []
      · have hin : w.lib.inner a = [] := hchain
        have hnil : r.2.isNil = false := by
          rw [hreply]
          simp only [mdbxTxnCommitEx, hin]
          rfl
        exact iff_of_true (by simp [hnil]) (by simp [Swallowed, swallows, hin, poisoned])
      · exact sound_iff_of_spec hchain hpanics spec hreply

/-- A writer puts one change, and then one that finds no room. -/
def erroredWrite : List Event :=
  [.go 0 0 {} (.beginTxn none 0), .go 0 0 {} (.put 0 7),
    .go 0 0 { data := some .mapFull, dataError := true } (.put 0 8)]

/-- The commit after a failed put returns no error, and the change put before is lost. -/
theorem commit_unsound : ¬ ∀ (w : World) (e : Event) (h : Handle) (p : Ptr) (r : World × Reply),
    system.Reachable w → w.committing e = some h → (w.txns h).ptr = some p →
    w.step e = some r → r.2.isNil = true → Committed w.lib r.1.lib p := by
  intro hsound
  let commit : Event := .go 0 0 {} (.commit 0)
  let lost (w : World) : Bool := (w.txns 0).ptr == some .basal &&
    (w.step commit).any fun r => r.2.isNil && !decide (Committed w.lib r.1.lib .basal)
  obtain ⟨w, hreach, hlost⟩ := Transition.System.exists_of_replay system
    (fun _ _ => True) erroredWrite {} lost
    ⟨rfl, rfl, rfl, rfl, rfl, rfl, by decide⟩ (by decide)
  obtain ⟨hptr, hany⟩ := Bool.and_eq_true_iff.mp hlost
  obtain ⟨r, hr, hr'⟩ := (Option.any_eq_true _ _).mp hany
  obtain ⟨hnil, hnot⟩ := Bool.and_eq_true_iff.mp hr'
  exact (of_decide_eq_false (by simpa using hnot))
    (hsound w commit 0 .basal r hreach rfl (by simpa using hptr) hr hnil)

theorem commit_sound_iff_errored : ∃ (w : World) (r : World × Reply),
    w.step (.go 0 0 {} (.commit 0)) = some r ∧
      ((r.2.isNil = true → Committed w.lib r.1.lib .basal) ↔
        ¬ w.Swallowed 0 .basal (.go 0 0 {} (.commit 0))) := by
  obtain ⟨w, hreach, hw⟩ := Transition.System.exists_of_replay system
    (fun _ _ => True) erroredWrite {}
    (fun w => (w.txns 0).ptr == some .basal && (w.step (.go 0 0 {} (.commit 0))).isSome)
    ⟨rfl, rfl, rfl, rfl, rfl, rfl, by decide⟩ (by decide)
  obtain ⟨hptr, hstep⟩ := Bool.and_eq_true_iff.mp hw
  obtain ⟨r, hr⟩ := Option.isSome_iff_exists.mp hstep
  exact ⟨w, r, hr, commit_sound_iff hreach rfl (by simpa using hptr) hr⟩

end World

end MdbxGo
