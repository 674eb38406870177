import MdbxGo.Mdbx.Commit
import MdbxGo.Mdbxpool.Moves

/-! When the last known transaction id of a pool is that of a committed snapshot: `Update` saves the
id of its transaction before the commit, and takes every commit that returns no error for one that
has made a snapshot with this id. -/

namespace MdbxGo

namespace MdbxEnv

open WriteTxn

variable {env : MdbxEnv} {o : Sys} {self : Thread}

/-- `mdbx_txn_commit_ex` at a pointer reports no failure and makes no snapshot: it has come to a
`MDBX_TXN_ERROR`, or there is nothing to write. Only the top-level transaction ever makes one. -/
def hollow (o : Sys) (self : Thread) (env : MdbxEnv) : Option Ptr → Bool
  | none => false
  | some .basal =>
    env.swallows o self .basal ||
      (!env.basal.finished && !env.fatal && env.basal.owner == some self &&
        clear o env.nested && !env.basal.error &&
          !(env.basal :: env.nested).any (·.dirty) && o.pure)
  | some (.nested _) | some (.reader _) => true

theorem txnCommitBasal_snapshot (h : (env.txnCommitBasal o).2 = Code.success) :
    env.basal.error = false ∧ (env.basal.dirty = false ∧ o.pure = true ∨
      env.basal.txnid ≤ (env.txnCommitBasal o).1.recent) := by
  unfold txnCommitBasal at h ⊢
  split at h
  · dsimp only at h
    split at h
    · exact absurd h (by decide)
    · rename_i hcode
      exact absurd h (by simpa using hcode)
  · rename_i herror
    rw [if_neg herror]
    refine ⟨by simpa using herror, ?_⟩
    dsimp only at h ⊢
    have hcode : (env.txnBasalCommit o).2 = Code.success := by
      split at h
      · exact h
      · rename_i hend
        exact absurd h (by simpa using hend)
    change _ ∨ env.basal.txnid ≤ (env.txnBasalCommit o).1.recent
    unfold txnBasalCommit at hcode ⊢
    split
    · rename_i hpure
      left
      simpa using hpure
    · rename_i hpure
      rw [if_neg hpure] at hcode
      split at hcode
      · rename_i e he
        exact absurd hcode e.not_success
      · exact .inr (le_commitTxnid o _)

/-- A commit of the top-level transaction that reports no failure and is not hollow makes a
snapshot. -/
theorem commitBasal_snapshot (ok : env.Ok)
    (hcode : (env.commitBasal o self).2 = Code.success ∨
      (env.commitBasal o self).2 = Code.resultTrue)
    (hhollow : env.hollow o self (some .basal) = false) :
    env.recent + 1 ≤ (env.commitBasal o self).1.recent := by
  simp only [hollow, Bool.or_eq_false_iff] at hhollow
  have spec : CommitSpec o self .basal env _ (env.commitBasal o self).2 := commitBasal_spec ok
  have hswallow := spec.swallowed
  have hsuccess : (env.commitBasal o self).2 = Code.success := by
    refine hcode.resolve_right fun htrue => ?_
    rw [hswallow.mp htrue] at hhollow
    cases hhollow.1
  unfold commitBasal at hsuccess ⊢
  split at hsuccess
  · exact absurd hsuccess (show Code.badTxn ≠ Code.success by decide)
  · rename_i hfin
    split at hsuccess
    · exact absurd hsuccess (show Code.panic ≠ Code.success by decide)
    · rename_i hfatal
      split at hsuccess
      · exact absurd hsuccess (show Code.threadMismatch ≠ Code.success by decide)
      · rename_i howner
        rw [if_neg hfin, if_neg hfatal, if_neg howner]
        dsimp only at hsuccess ⊢
        split at hsuccess
        · rename_i hinner
          exact absurd hsuccess (by simpa using hinner)
        · rename_i hinner
          rw [if_neg hinner]
          have hinner : (commitNested o self env.nested).code = Code.success := by
            simpa using hinner
          have hclear := (commitNested_code o self env.nested).1.mp hinner
          obtain ⟨herror, hnothing | hsnapshot⟩ := txnCommitBasal_snapshot hsuccess
          · exfalso
            have hdirty : (env.basal :: env.nested).any (·.dirty) = false := by
              have h := hnothing.1
              rw [absorb_dirty, (commitNested_merged hinner).2] at h
              simpa using h
            have herror : env.basal.error = false := by simpa using herror
            have hhollow := hhollow.2
            rw [hclear, herror, hdirty, hnothing.2] at hhollow
            simp [hfin, hfatal] at hhollow howner
            exact hhollow howner
          · have hlive : env.basal.finished = false := by simpa using hfin
            rw [← (ok.next hlive).1]
            have htxnid := mergeInto_txnid (commitNested o self env.nested).merged env.basal []
            rw [← htxnid]
            exact hsnapshot

end MdbxEnv

namespace TxnPool

open Threads Transition MdbxEnv World

variable {cfg : Config} {s s' : TxnPool} {i j n : Nat} {t t' u : Goroutine} {c : Choice}
  {new : List Goroutine} {w w' : World} {txn : Handle}

/-- The end of an `Update` whose function has returned nil. -/
theorem terminate_snapshot {thread : Thread} {o : Sys} {r : World × Reply} {f : Frame}
    (ok : w.lib.Ok) (hframes : w.frames i = [f]) (hkind : f.kind = .term) (htxn : f.txn = txn)
    (hr : w.step (.go i thread o (.finish .nil)) = some r) (hnil : r.2.isNil = true)
    (hhollow : w.mismatched thread txn = false →
      w.lib.hollow o thread (w.txns txn).ptr = false) :
    (w.txns txn).ptr = some .basal ∧ w.lib.recent + 1 ≤ r.1.lib.recent := by
  have hcommit : w.committing (.go i thread o (.finish .nil)) = some txn := by
    obtain ⟨kind, k, ptr, snapshot⟩ := f
    cases hkind
    cases htxn
    simp [committing, hframes]
  obtain ⟨g, self, o', call, he, ⟨_, hno⟩ | ⟨hpanics, hlib, hreply⟩⟩ := committing_step hcommit hr
  · rw [hnil] at hno
    cases hno
  · cases he
    have hmis : w.mismatched thread txn = false := by
      simp only [panics, Bool.or_eq_false_iff] at hpanics
      exact hpanics.2
    have hhollow := hhollow hmis
    rw [hreply] at hnil
    have hcode := (operrno_eq_none "mdbx_txn_commit_ex").mp
      (show operrno _ _ = none by simpa [err, Reply.isNil] using hnil)
    cases hp : (w.txns txn).ptr with
    | none =>
      rw [hp] at hcode
      exact absurd hcode (show ¬ (Code.einval = Code.success ∨ Code.einval = Code.resultTrue) by
        decide)
    | some p =>
      rw [hp] at hcode hlib hhollow
      cases p with
      | nested a => cases hhollow
      | reader a => cases hhollow
      | basal =>
        refine ⟨rfl, ?_⟩
        rw [hlib]
        exact commitBasal_snapshot ok hcode hhollow

/-! ### The places that tell of an update -/

/-- Outside of `Update` and `CommitID`. -/
def At.quiet : At → Bool
  | .runTxn | .updating _ | .saveID _ | .terminate _ _ _ | .commitID _ _ => false
  | _ => true

/-- What a goroutine knows where it stands in `Update` or `CommitID`. -/
def Saved (cfg : Config) (w : World) (i : Nat) (t : Goroutine) : Prop :=
  match t.at_ with
  | .runTxn => w.frames i = []
  | .updating txn => txn < w.next ∧ Runs .term txn (w.frames i)
  | .saveID txn => txn < w.next ∧ Runs .term txn (w.frames i) ∧ (w.frames i).length = 1
  | .terminate txn res saved => txn < w.next ∧ (Runs .term txn (w.frames i) ∧
      (w.frames i).length = 1) ∧ (res = .nil ∨ saved = 0) ∧
      ((w.txns txn).ptr = some .basal → saved ≤ w.lib.recent + 1)
  | .commitID saved at_ => saved ≤ w.lib.recent ∨
      cfg.updateHandling.handlesUpdates = false ∧ (at_ = .entry ∨ at_ = .returned)
  | _ => True

theorem saved_of_quiet (h : t.at_.quiet = true) : Saved cfg w i t := by
  unfold Saved
  cases hat : t.at_ with
  | runTxn | updating | saveID | terminate | commitID =>
    rw [hat] at h
    cases h
  | _ => trivial

/-- What the other goroutines do keeps it. -/
theorem Saved.later (h : Saved cfg w j t) (later : Later i w w') (hbound : w'.lib.recent ≤ maxTxnid)
    (hj : j ≠ i) : Saved cfg w' j t := by
  have hframes := later.frames j hj
  unfold Saved at h ⊢
  cases hat : t.at_ with
  | runTxn =>
    rw [hat] at h
    exact hframes.trans h
  | updating txn =>
    rw [hat] at h
    dsimp only at h ⊢
    rw [hframes]
    exact ⟨Nat.lt_of_lt_of_le h.1 later.next, h.2⟩
  | saveID txn =>
    rw [hat] at h
    dsimp only at h ⊢
    rw [hframes]
    exact ⟨Nat.lt_of_lt_of_le h.1 later.next, h.2⟩
  | terminate txn res saved =>
    rw [hat] at h
    dsimp only at h ⊢
    rw [hframes]
    refine ⟨Nat.lt_of_lt_of_le h.1 later.next, h.2.1, h.2.2.1, fun hp => ?_⟩
    exact UInt64.le_trans (h.2.2.2 (later.basal txn h.1 hp)) (succ_le_succ later.recent hbound)
  | commitID saved at_ =>
    rw [hat] at h
    exact h.imp_left fun h => UInt64.le_trans h later.recent
  | _ => trivial

theorem Starter.delivered_quiet (k : Starter) : (k.delivered txn).quiet = true := by
  cases k <;> rfl

theorem unwind_quiet (a : At) : a.unwind.quiet = true := by
  unfold At.unwind
  split <;> rfl

theorem next_quiet {a : At} (h : a.quiet = true) (txnid : UInt64) (r : Returned) :
    (a.next txnid r).quiet = true := by
  unfold At.next
  split
  · split
    · exact Starter.delivered_quiet _
    · rfl
  · rfl
  · cases r.txn with
    | none => rfl
    | some txn => exact Starter.delivered_quiet _
  · rfl
  · split <;> rfl
  · rfl
  · split
    · rename_i k _ _
      cases k <;> rfl
    · rfl
  · rename_i k _
    cases k <;> rfl
  · cases h
  · cases h
  · rfl
  · rfl

theorem resume_quiet (h : t.at_.quiet = true) (txnid : UInt64) (r : Reply) :
    (t.resume txnid r).at_.quiet = true := by
  cases r with
  | panicked p => exact unwind_quiet t.at_
  | running txn =>
    change (t.at_.inside txn).quiet = true
    unfold At.inside
    split
    · rfl
    · rename_i hat
      rw [hat] at h
      cases h
    · rfl
  | returned r => exact next_quiet h txnid r

theorem ended_quiet {a a' : At} {res : FnResult} (hquiet : a.quiet = true)
    (h : a.ended res = some a') : a'.quiet = true := by
  unfold At.ended at h
  split at h
  · cases h
    rfl
  · cases hquiet
  · cases h

theorem got_quiet {a a' : At} {got : Option Handle} (h : a.got got = some a') :
    a'.quiet = true := by
  unfold At.got at h
  split at h <;> cases h
  · cases got <;> rfl
  · rfl
  · cases got <;> rfl
  · cases got <;> rfl

/-- The steps of the pool itself outside of `CommitID` do not touch `lastid`. -/
theorem atomic_quiet {a a' : At} (hquiet : a.quiet = true)
    (h : a.atomic cfg s = some (s', a', new)) : a'.quiet = true ∧ s'.lastid = s.lastid := by
  unfold At.atomic at h
  split at h
  · cases h; exact ⟨rfl, rfl⟩
  · cases h
    refine ⟨?_, rfl⟩
    split
    · rfl
    · split <;> rfl
  · cases h; exact ⟨rfl, rfl⟩
  · rename_i k _ _
    cases h
    refine ⟨?_, rfl⟩
    split
    · rfl
    · cases k <;> rfl
  · rename_i k _
    cases h
    refine ⟨?_, rfl⟩
    split
    · cases k <;> rfl
    · split <;> rfl
  · split at h <;> cases h <;> exact ⟨rfl, rfl⟩
  · rename_i got
    cases h
    refine ⟨?_, rfl⟩
    cases got <;> rfl
  · cases h; exact ⟨rfl, rfl⟩
  · cases h; exact ⟨rfl, rfl⟩
  · cases hquiet
  · cases h

/-! ### The commits that the pool is wrong about -/

/-- The step commits an update, reports no error and makes no snapshot, and the pool will take the
id of the transaction for that of one. -/
def overtakes (cfg : Config) (s : Threads TxnPool Goroutine) : Threads.Event Entry Choice → Bool
  | .run i (.calls thread o) =>
    match s.threads[i]? with
    | some { at_ := .terminate txn .nil saved, .. } =>
      cfg.updateHandling.handlesUpdates && !s.shared.world.mismatched thread txn &&
        s.shared.world.lib.hollow o thread (s.shared.world.txns txn).ptr &&
        decide (s.shared.world.lib.recent < saved)
    | _ => false
  | _ => false

/-- `CommitID` is called by `Update` only. -/
def owned : Threads.Event Entry Choice → Bool
  | .enter (.commitID _) => false
  | _ => true

/-- A call of `CommitID` sets `lastid` to its id or not at all. -/
theorem commitID_lastid {h : UpdateHandling} {saved lastid lastid' : UInt64} {a a' : CommitID.At}
    {go : Bool} (hs : CommitID.step h saved lastid a = some (lastid', a', go)) :
    (lastid' = lastid ∨ lastid' = saved) ∧
      (h.handlesUpdates = false → a = .entry → lastid' = lastid ∧ a' = .returned) := by
  unfold CommitID.step at hs
  split at hs
  · split at hs
    · rename_i hh
      cases hs
      exact ⟨.inl rfl, fun hno => by simp [hh] at hno⟩
    · cases hs
      exact ⟨.inl rfl, fun _ _ => ⟨rfl, rfl⟩⟩
  · cases hs
    exact ⟨.inl rfl, fun _ h => by cases h⟩
  · split at hs <;> cases hs <;> exact ⟨.inl rfl, fun _ h => by cases h⟩
  · split at hs
    · cases hs
      exact ⟨.inr rfl, fun _ h => by cases h⟩
    · cases hs
      exact ⟨.inl rfl, fun _ h => by cases h⟩
  · cases hs
    exact ⟨.inl rfl, fun _ h => by cases h⟩
  · cases hs

/-! ### The invariant -/

theorem runTxn_saved {thread : Thread} {o : Sys} {r : World × Reply} {out : Result}
    (hframes : w.frames i = []) (hr : w.step (.go i thread o (.runTxn 0)) = some r) :
    Saved cfg r.1 i (Goroutine.resume 0 ⟨.runTxn, out⟩ r.2) := by
  obtain ⟨g, self, o', call, he, _, _, hexec⟩ | ⟨a, x, he, _⟩ | ⟨txnid, changes, he, _⟩ | ⟨he, _⟩ :=
    step_cases hr
  · cases he
    obtain ⟨b, hb, rfl⟩ := Option.map_eq_some_iff.mp hexec
    have hsame := beginTxn_frames hb
    split
    · exact saved_of_quiet rfl
    · rename_i k hk
      obtain ⟨rfl, hnext, _⟩ := beginTxn_managed hb hk
      unfold runOpTerm unmanaged
      split
      · exact saved_of_quiet rfl
      · refine ⟨hnext ▸ Nat.lt_succ_self w.next, ?_⟩
        simp only [push, Function.update_self]
        rw [show (b.1.setManaged true w.next).frames = w.frames from hsame, hframes]
        exact ⟨[], _, rfl, rfl, rfl⟩
  · cases he
  · cases he
  · cases he

theorem saveID_saved {thread : Thread} {o : Sys} {r : World × Reply} {out : Result}
    (recent : w.Recent) (hknown : txn < w.next) (hruns : Runs .term txn (w.frames i))
    (hlength : (w.frames i).length = 1) (hr : w.step (.go i thread o (.id txn)) = some r) :
    Saved cfg r.1 i (Goroutine.resume (w.idOf txn) ⟨.saveID txn, out⟩ r.2) := by
  obtain ⟨g, self, o', call, he, _, _, hexec⟩ | ⟨a, x, he, _⟩ | ⟨txnid, changes, he, _⟩ | ⟨he, _⟩ :=
    step_cases hr
  · cases he
    cases hexec
    have hsame : (w.id txn).next = w.next ∧ (w.id txn).frames = w.frames ∧
        (w.id txn).lib = w.lib ∧ ((w.id txn).txns txn).ptr = (w.txns txn).ptr := by
      unfold World.id
      split
      · exact ⟨rfl, rfl, rfl, by rw [setTxn_self]⟩
      · exact ⟨rfl, rfl, rfl, rfl⟩
    obtain ⟨hnext, hframes, hlib, hptr⟩ := hsame
    refine ⟨?_, ⟨?_, ?_⟩, .inl rfl, fun hp => ?_⟩
    · exact hnext ▸ hknown
    · exact hframes ▸ hruns
    · exact hframes ▸ hlength
    · rw [hptr] at hp
      rw [hlib]
      exact recent.idOf hknown hp
  · cases he
  · cases he
  · cases he

theorem terminate_saved {thread : Thread} {o : Sys} {r : World × Reply} {out : Result}
    {res : FnResult} {saved : UInt64} (ok : w.lib.Ok) (hrises : w.lib.recent ≤ r.1.lib.recent)
    (hruns : Runs .term txn (w.frames i)) (hlength : (w.frames i).length = 1)
    (hres : res = .nil ∨ saved = 0)
    (hsaved : (w.txns txn).ptr = some .basal → saved ≤ w.lib.recent + 1)
    (hr : w.step (.go i thread o (.finish res)) = some r)
    (hsound : res = .nil → cfg.updateHandling.handlesUpdates = true →
      w.mismatched thread txn = false → w.lib.hollow o thread (w.txns txn).ptr = true →
      saved ≤ w.lib.recent) :
    Saved cfg r.1 i (Goroutine.resume 0 ⟨.terminate txn res saved, out⟩ r.2) := by
  obtain ⟨w', reply⟩ := r
  cases reply with
  | panicked p => exact saved_of_quiet rfl
  | running k => exact saved_of_quiet rfl
  | returned ret =>
    by_cases hnil : ret.err.isNone = true
    · have hat : (Goroutine.resume 0 ⟨.terminate txn res saved, out⟩ (.returned ret)).at_ =
          .commitID saved .entry := if_pos hnil
      unfold Saved
      rw [hat]
      by_cases hh : cfg.updateHandling.handlesUpdates = true
      · left
        rcases hres with rfl | rfl
        · obtain ⟨f, hframes, hkind, htxn⟩ := hruns.single hlength
          by_cases hhollow : w.mismatched thread txn = false ∧
              w.lib.hollow o thread (w.txns txn).ptr = true
          · exact UInt64.le_trans (hsound rfl hh hhollow.1 hhollow.2) hrises
          · obtain ⟨hp, hsnapshot⟩ := terminate_snapshot ok hframes hkind htxn hr hnil
              fun hmis => by simpa [hmis] using hhollow
            exact UInt64.le_trans (hsaved hp) hsnapshot
        · exact UInt64.zero_le
      · exact .inr ⟨by simpa using hh, .inl rfl⟩
    · apply saved_of_quiet
      have hat : (Goroutine.resume 0 ⟨.terminate txn res saved, out⟩ (.returned ret)).at_ =
          .returned := if_neg hnil
      rw [hat]
      rfl

theorem commitID_saved {saved : UInt64} {at_ : CommitID.At} {a' : At} {out : Result}
    (hle : s.lastid ≤ s.world.lib.recent)
    (hsaved : Saved cfg s.world i ⟨.commitID saved at_, out⟩)
    (h : (At.commitID saved at_).atomic cfg s = some (s', a', new)) :
    s'.lastid ≤ s.world.lib.recent ∧ Saved cfg s.world i ⟨a', out⟩ := by
  obtain ⟨⟨lastid', next, go⟩, hstep, heq⟩ := Option.map_eq_some_iff.mp h
  cases heq
  obtain ⟨hlast, hoff⟩ := commitID_lastid hstep
  rcases hsaved with hsaved | ⟨hno, rfl | rfl⟩
  · refine ⟨?_, .inl hsaved⟩
    dsimp only
    rcases hlast with rfl | rfl
    · exact hle
    · exact hsaved
  · obtain ⟨hsame, hreturned⟩ := hoff hno rfl
    refine ⟨?_, .inr ⟨hno, .inr hreturned⟩⟩
    dsimp only
    rw [hsame]
    exact hle
  · cases hstep

/-- A goroutine's own step keeps what it knows, when the pool is not wrong about its commit. -/
theorem Moved.saved (sane : Sane s.world n) (hle : s.lastid ≤ s.world.lib.recent)
    (h : Moved cfg i s t s' t' new c) (hsaved : Saved cfg s.world i t)
    (hsound : ∀ thread o txn saved, c = .calls thread o → t.at_ = .terminate txn .nil saved →
      cfg.updateHandling.handlesUpdates = true → s.world.mismatched thread txn = false →
      s.world.lib.hollow o thread (s.world.txns txn).ptr = true → saved ≤ s.world.lib.recent) :
    s'.lastid ≤ s'.world.lib.recent ∧ Saved cfg s'.world i t' := by
  have later := h.later sane.ok
  have hrises : s.lastid ≤ s'.world.lib.recent := UInt64.le_trans hle later.recent
  by_cases hquiet : t.at_.quiet = true
  · cases h with
    | method _ _ hs ht _ =>
      subst hs ht
      exact ⟨hrises, saved_of_quiet (resume_quiet hquiet _ _)⟩
    | atomic _ _ ha _ =>
      obtain ⟨hnext, hsame⟩ := atomic_quiet hquiet ha
      exact ⟨hsame ▸ hrises, saved_of_quiet hnext⟩
    | got _ ha hs _ _ =>
      subst hs
      exact ⟨hrises, saved_of_quiet (got_quiet ha)⟩
    | event _ _ _ _ hs ht _ =>
      subst hs ht
      exact ⟨hrises, saved_of_quiet hquiet⟩
    | ended _ ha hs _ _ =>
      subst hs
      exact ⟨hrises, saved_of_quiet (ended_quiet hquiet ha)⟩
  · obtain ⟨at_, out⟩ := t
    obtain ⟨at', out'⟩ := t'
    cases at_ with
    | runTxn =>
      cases h with
      | method hcall hr hs ht _ =>
        cases hcall
        subst hs
        refine ⟨hrises, ?_⟩
        rw [ht]
        exact runTxn_saved hsaved hr
      | atomic hnone _ _ _ => cases hnone
      | got _ ha _ _ _ => cases ha
      | event hfree _ _ _ _ _ _ => cases hfree
      | ended _ ha _ _ _ => cases ha
    | updating txn =>
      obtain ⟨hknown, hruns⟩ := hsaved
      cases h with
      | method hcall _ _ _ _ => cases hcall
      | atomic _ _ ha _ => cases ha
      | got _ ha _ _ _ => cases ha
      | event _ hmine hinner hr hs ht _ =>
        subst hs
        refine ⟨hrises, ?_⟩
        rw [ht]
        exact ⟨Nat.lt_of_lt_of_le hknown later.next,
          step_runs (fun _ h => by cases h) hruns hmine (hinner rfl) hr⟩
      | @ended res hlength ha hs _ _ =>
        subst hs
        refine ⟨hrises, ?_⟩
        by_cases hnil : res = .nil
        · obtain rfl : At.saveID txn = at' := by simpa [At.ended, hnil] using ha
          exact ⟨hknown, hruns, hlength⟩
        · obtain rfl : At.terminate txn res 0 = at' := by simpa [At.ended, hnil] using ha
          exact ⟨hknown, ⟨hruns, hlength⟩, .inr rfl, fun _ => UInt64.zero_le⟩
    | saveID txn =>
      obtain ⟨hknown, hruns, hlength⟩ := hsaved
      cases h with
      | method hcall hr hs ht _ =>
        cases hcall
        subst hs
        refine ⟨hrises, ?_⟩
        rw [ht]
        exact saveID_saved sane.recent hknown hruns hlength hr
      | atomic hnone _ _ _ => cases hnone
      | got _ ha _ _ _ => cases ha
      | event hfree _ _ _ _ _ _ => cases hfree
      | ended _ ha _ _ _ => cases ha
    | terminate txn res saved =>
      obtain ⟨_, ⟨hruns, hlength⟩, hres, hid⟩ := hsaved
      cases h with
      | method hcall hr hs ht _ =>
        cases hcall
        subst hs
        refine ⟨hrises, ?_⟩
        rw [ht]
        refine terminate_saved sane.ok later.recent hruns hlength hres hid hr ?_
        rintro rfl
        exact hsound _ _ _ _ rfl rfl
      | atomic hnone _ _ _ => cases hnone
      | got _ ha _ _ _ => cases ha
      | event hfree _ _ _ _ _ _ => cases hfree
      | ended _ ha _ _ _ => cases ha
    | commitID saved at_ =>
      cases h with
      | method hcall _ _ _ _ => cases hcall
      | atomic _ _ ha _ =>
        rw [(atomic_world ha).1]
        exact commitID_saved hle hsaved ha
      | got _ ha _ _ _ => cases ha
      | event hfree _ _ _ _ _ _ => cases hfree
      | ended _ ha _ _ _ => cases ha
    | _ => exact absurd rfl hquiet

/-- The outline of all goroutines. -/
theorem lastid_outline (cfg : Config) : (program cfg).Outline
    (fun s e => owned e = true ∧ overtakes cfg s e = false)
    (fun s n => Sane s.world n ∧ s.lastid ≤ s.world.lib.recent)
    (fun s i t => Saved cfg s.world i t) where
  init s h := by
    obtain ⟨hworld, _, hlast, _⟩ := h
    refine ⟨init_sane hworld, ?_⟩
    rw [hlast]
    exact UInt64.zero_le
  enters s entry h hok := by
    obtain ⟨sane, hle⟩ := h
    refine ⟨⟨sane.more (Nat.le_succ _), hle⟩, ?_⟩
    change Saved cfg s.shared.world s.threads.length entry.start
    cases entry with
    | update => exact sane.idle s.threads.length (Nat.le_refl _)
    | commitID saved => cases hok.1
    | beginTxn flags =>
      apply saved_of_quiet
      simp only [Entry.start]
      split <;> rfl
    | app | view | close => exact saved_of_quiet rfl
  step s i t c s' t' new h hsaved hok hi hs := by
    obtain ⟨sane, hle⟩ := h
    have hlt := (List.getElem?_eq_some_iff.mp hi).1
    have hmoved := step_moved hs
    have hsound : ∀ thread o txn saved, c = .calls thread o →
        t.at_ = .terminate txn .nil saved → cfg.updateHandling.handlesUpdates = true →
        s.shared.world.mismatched thread txn = false →
        s.shared.world.lib.hollow o thread (s.shared.world.txns txn).ptr = true →
        saved ≤ s.shared.world.lib.recent := by
      rintro thread o txn saved rfl hat hh hmis hhollow
      have hno := hok.2
      obtain ⟨at_, out⟩ := t
      cases hat
      simp only [overtakes, hi, hh, hmis, hhollow, Bool.not_false, Bool.true_and,
        decide_eq_false_iff_not] at hno
      exact UInt64.not_lt.mp hno
    obtain ⟨hle', hsaved'⟩ := hmoved.saved sane hle hsaved hsound
    refine ⟨⟨(hmoved.sane sane hlt).more (Nat.le_add_right _ _), hle'⟩, hsaved', ?_⟩
    intro k q hq
    cases hmoved with
    | atomic _ _ ha _ =>
      rw [(atomic_world ha).2 q (List.mem_of_getElem? hq)]
      exact saved_of_quiet rfl
    | method _ _ _ _ hnew => subst hnew; cases hq
    | got _ _ _ _ hnew => subst hnew; cases hq
    | event _ _ _ _ _ _ hnew => subst hnew; cases hq
    | ended _ _ _ _ hnew => subst hnew; cases hq
  others s i t c s' t' new n j u h _ hother hij hs := by
    obtain ⟨sane, _⟩ := h
    have later := (step_moved hs).later sane.ok
    have hbound : s'.world.lib.recent ≤ maxTxnid := by
      rcases (step_moved hs).world with hsame | ⟨e, r, _, hr, hw⟩
      · rw [hsame]
        exact sane.ok.bounded
      · rw [hw]
        exact (step_ok sane.ok hr).bounded
    exact hother.later later hbound (Ne.symm hij)

/-- `lastid` is at most the id of the last committed snapshot in every run in which no commit of an
update makes no snapshot, reports no error and has an id above the last snapshot. -/
theorem lastid_le_recent {s : Threads TxnPool Goroutine}
    (run : (program cfg).system.Reaches
      (fun s e => owned e = true ∧ overtakes cfg s e = false) s) :
    s.shared.lastid ≤ s.shared.world.lib.recent :=
  ((lastid_outline cfg).holds run).1.2

/-- An update: its function makes the events happen and returns nil, the commit gets the answers
`o`, and then `CommitID` runs up to its swap. -/
def updated (o : Sys) (inside : List MdbxGo.Event) : List (Threads.Event Entry Choice) :=
  .enter .update :: .run 0 (.calls 0 {}) :: inside.map (fun e => .run 0 (.does e)) ++
    [.run 0 (.ends .nil), .run 0 (.calls 0 {}), .run 0 (.calls 0 o), .run 0 (.calls 0 {}),
      .run 0 (.calls 0 {}), .run 0 (.calls 0 {}), .run 0 (.calls 0 {})]

/-- The function writes, and swallows the error of a second write. -/
def swallowing : List (Threads.Event Entry Choice) :=
  updated {} [.go 0 0 {} (.put 0 7),
    .go 0 0 { data := some .mapFull, dataError := true } (.put 0 8)]

/-- An update that writes nothing runs ahead as well. -/
example : ((program { updateHandling := { handleIdle := true } }).system.replay
    (fun _ _ => True) fresh (updated { pure := true } [])).any
    (fun s => decide (s.shared.world.lib.recent < s.shared.lastid)) = true := by
  decide +kernel

/-- After an update that has swallowed an error, `lastid` is ahead of the last snapshot. -/
theorem lastid_ahead : ¬ ∀ (cfg : Config) (s : Threads TxnPool Goroutine),
    (program cfg).system.Reaches (fun _ e => owned e = true) s →
    s.shared.lastid ≤ s.shared.world.lib.recent := by
  intro hbehind
  obtain ⟨s, run, hahead⟩ := System.exists_of_replay
    (program { updateHandling := { handleIdle := true } }).system (fun _ e => owned e = true)
    swallowing fresh (fun s => decide (s.shared.world.lib.recent < s.shared.lastid))
    (fresh_init _) (by decide +kernel)
  exact absurd (hbehind _ s run) (UInt64.not_le.mpr (of_decide_eq_true hahead))

theorem lastid_le_recent_committed : ∃ s : Threads TxnPool Goroutine,
    s.shared.lastid = 2 ∧ s.shared.lastid ≤ s.shared.world.lib.recent := by
  obtain ⟨s, run, hs⟩ := System.exists_of_replay
    (program { updateHandling := { handleIdle := true } }).system
    (fun s e => owned e = true ∧ overtakes { updateHandling := { handleIdle := true } } s e = false)
    (updated {} [.go 0 0 {} (.put 0 7)]) fresh (fun s => decide (s.shared.lastid = 2))
    (fresh_init _) (by decide +kernel)
  exact ⟨s, of_decide_eq_true hs, lastid_le_recent run⟩

end TxnPool

end MdbxGo
