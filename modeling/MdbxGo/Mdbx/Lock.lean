import MdbxGo.Libmdbx.Ending
import MdbxGo.Mdbx.Stack

/-! The lock of the writers stays within reach of the program: every write transaction that libmdbx
holds is the one that some `Txn` points to. -/

namespace MdbxGo

namespace World

open MdbxEnv

variable {w w' : World} {o : Sys} {g : Gor} {self : Thread} {call : Call} {h : Handle} {p : Ptr}

/-! ### What is asked of a program -/

/-- The pointer of `h` when it is to a write transaction. -/
def writePtr (w : World) (h : Handle) : Option Ptr := (w.txns h).ptr.filter Ptr.writes

/-- The live write transaction that was begun for `h` and that `h` points to. -/
def holds (w : World) (h : Handle) : Option Ptr :=
  (w.writePtr h).filter fun p => w.lib.session p == some h

/-- Every write transaction is used only from the thread that began it. -/
def OwnThread (w : World) : Event → Prop
  | .go g self _ call =>
    ∀ h ∈ w.uses g call, (w.writePtr h).isSome = true → (w.txns h).begun = self
  | _ => True

/-- `Commit`, `Abort`, the end of a function that `RunTxn` or `Sub` has run, and `Checkpoint` come
to a transaction of their own only when libmdbx will not refuse them, and a nested transaction is
begun only in one of the same thread. -/
def Unrefused (w : World) : Event → Prop
  | .go g self _ call =>
    (∀ h ∈ w.ends g call, w.refuses self h call = false → (w.holds h).isSome = true →
      w.lib.fatal = false) ∧
    (∀ x ∈ call.checkpoints, w.refuses self x.1 call = false →
      ∀ p ∈ w.holds x.1, CheckpointReady x.2 p w.lib) ∧
    ∀ parent ∈ call.opens, ∀ h ∈ parent, ∀ p ∈ w.writePtr h, ∀ t ∈ w.lib.txnAt p,
      t.finished = false → t.owner = some self
  | _ => True

instance (w : World) : (e : Event) → Decidable (w.OwnThread e)
  | .go g self _ call => inferInstanceAs (Decidable
      (∀ h ∈ w.uses g call, (w.writePtr h).isSome = true → (w.txns h).begun = self))
  | .oust _ | .foreignCommit _ _ | .fatal => .isTrue trivial

instance (w : World) : (e : Event) → Decidable (w.Unrefused e)
  | .go g self _ call => inferInstanceAs (Decidable
      ((∀ h ∈ w.ends g call, w.refuses self h call = false → (w.holds h).isSome = true →
        w.lib.fatal = false) ∧
      (∀ x ∈ call.checkpoints, w.refuses self x.1 call = false →
        ∀ p ∈ w.holds x.1, CheckpointReady x.2 p w.lib) ∧
      ∀ parent ∈ call.opens, ∀ h ∈ parent, ∀ p ∈ w.writePtr h, ∀ t ∈ w.lib.txnAt p,
        t.finished = false → t.owner = some self))
  | .oust _ | .foreignCommit _ _ | .fatal => .isTrue trivial

/-! ### The transactions that libmdbx holds -/

/-- `h` points to the transaction at `p`, and is bound to its owner. -/
structure Points (w : World) (h : Handle) (p : Ptr) (owner : Option Thread) : Prop where
  known : h < w.next
  ptr : (w.txns h).ptr = some p
  owner : owner = some (w.txns h).begun

/-- Every write transaction that is live has the `Txn` that it was begun for. -/
def Held (w : World) : Prop :=
  ∀ p t, w.lib.txnAt p = some t → t.finished = false → Points w t.client p t.owner

theorem session_of_live {env : MdbxEnv} {t : WriteTxn} (h : env.txnAt p = some t)
    (hlive : t.finished = false) : env.session p = some t.client := by
  cases p with
  | reader a => cases h
  | basal =>
    cases h
    simp [session, hlive]
  | nested a => simp [session, h]

theorem writePtr_of_ptr (hp : (w.txns h).ptr = some p) (hwrites : p.writes = true) :
    w.writePtr h = some p := by
  simp [writePtr, hp, hwrites]

theorem Points.holds {t : WriteTxn} (hpoints : Points w t.client p t.owner)
    (h : w.lib.txnAt p = some t) (hlive : t.finished = false) : w.holds t.client = some p := by
  simp [World.holds, writePtr_of_ptr hpoints.ptr (writes_of_txnAt h), session_of_live h hlive]

/-- A transaction that is live after a call through its own `Txn` still has it. -/
theorem Own.points {t u : WriteTxn} (ok : w.lib.Ok) (own : Own o g self call t.client w w')
    (hunrefused : w.Unrefused (.go g self o call)) (hself : (w.txns t.client).begun = self)
    (hpoints : Points w t.client p t.owner) (ht : w.lib.txnAt p = some t)
    (hlive : t.finished = false) (hu : w'.lib.txnAt p = some u) (hulive : u.finished = false) :
    (w'.txns t.client).ptr = some p ∧ (w'.txns t.client).begun = (w.txns t.client).begun := by
  have hptr := hpoints.ptr
  have howner : t.owner = some self := hpoints.owner.trans (congrArg some hself)
  have hholds := hpoints.holds ht hlive
  have hnot : ¬ w'.lib.Ended p := by
    intro hend
    cases p with
    | reader a => cases ht
    | basal =>
      cases hu
      rw [show w'.lib.basal.finished = true from hend] at hulive
      cases hulive
    | nested a =>
      rw [show w'.lib.txnAt (.nested a) = none from hend] at hu
      cases hu
  refine ⟨?_, own.bound.2⟩
  cases own with
  | kept _ hsame => exact hsame.ptr.trans hptr
  | rolledBack _ _ _ htxn => rwa [htxn]
  | committed _ hends href hlib _ =>
    have hfatal := hunrefused.1 _ hends href (by rw [hholds]; rfl)
    rw [hlib, hptr] at hnot
    exact absurd (mdbxTxnCommitEx_ended ht hlive howner hfatal) hnot
  | aborted hends href hlib _ =>
    have hfatal := hunrefused.1 _ hends href (by rw [hholds]; rfl)
    rw [hlib, hptr] at hnot
    exact absurd (mdbxTxnAbort_ended ht hlive howner hfatal) hnot
  | checkpointed hcall href hlib htxn =>
    subst hcall
    rw [hptr] at hlib
    have hready := hunrefused.2.1 (t.client, _) rfl href p hholds
    rw [htxn]
    rcases mdbxTxnCheckpoint_ended ok hready ht hlive howner hlib with hcode | hcode | hend
    · rwa [if_pos (.inl hcode)]
    · rwa [if_pos (.inr hcode)]
    · exact absurd hend hnot
  | embarked _ _ hlib hptr' _ _ _ =>
    rw [hptr] at hlib
    rcases mdbxTxnCommitEmbarkRead_ended hlib with ⟨hsame, hcode⟩ | hend
    · rwa [hptr', if_neg hcode]
    · exact absurd hend hnot

theorem Points.of_same {k : Handle} {owner : Option Thread} (hpoints : Points w k p owner)
    (hnext : w.next ≤ w'.next) (hk : w'.txns k = w.txns k) : Points w' k p owner :=
  ⟨Nat.lt_of_lt_of_le hpoints.known hnext, hk ▸ hpoints.ptr, hk ▸ hpoints.owner⟩

/-- A nested transaction gets the owner of its parent, which is the thread that begins it. -/
theorem owner_of_parent {parent : Option Handle} {t : WriteTxn}
    (hunrefused : w.Unrefused (.go g self o call)) (hopens : call.opens = some parent)
    (hp : (parent.bind fun h => (w.txns h).ptr) = some p) (ht : w.lib.txnAt p = some t)
    (hlive : t.finished = false) : t.owner = some self := by
  obtain ⟨h, hparent, hptr⟩ := Option.bind_eq_some_iff.mp hp
  have hwrite := writePtr_of_ptr hptr (writes_of_txnAt ht)
  exact hunrefused.2.2 parent hopens h hparent p hwrite t ht hlive

theorem exec_held (ok : w.lib.Ok) (held : w.Held) (hown : w.OwnThread (.go g self o call))
    (hunrefused : w.Unrefused (.go g self o call)) (act : Act o g self call w w') : w'.Held := by
  intro p u hu hulive
  have hle := act.next_le
  have hsame : ∀ t, w.lib.txnAt p = some t → t.finished = false →
      (∀ k, k ≠ w.next → w'.txns k = w.txns k) → Points w' t.client p t.owner := by
    intro t ht hlive hother
    have hpoints := held p t ht hlive
    exact hpoints.of_same hle (hother _ (Nat.ne_of_lt hpoints.known))
  have hnew : ∀ q, Made self q w w' → Points w' w.next q (some self) := fun q hm =>
    ⟨hm.next ▸ Nat.lt_succ_self _, hm.ptr, by rw [hm.begun]⟩
  cases act with
  | through h hh ht =>
    obtain ⟨t, hbefore, hlive, hclient, howner⟩ := (ht.own.effect ok).live hu hulive
    have hpoints := held p t hbefore hlive
    rw [hclient, howner]
    by_cases hth : t.client = h
    · subst hth
      have hwrite := writePtr_of_ptr hpoints.ptr (writes_of_txnAt hbefore)
      have hself := hown _ hh (by rw [hwrite]; rfl)
      obtain ⟨hptr, hbegun⟩ :=
        ht.own.points ok hunrefused hself hpoints hbefore hlive hu hulive
      exact ⟨Nat.lt_of_lt_of_le hpoints.known hle, hptr, by rw [hbegun, hpoints.owner]⟩
    · exact hpoints.of_same hle (ht.others _ hth)
  | refused _ hbegan htxns _ _ =>
    cases hbegan with
    | refused _ href => exact hsame u (href.live hu hulive) hulive fun k _ => by rw [htxns]
  | began hopens hbegan hm hother =>
    cases hbegan with
    | reader _ _ _ _ hlib =>
      rw [hlib, txnAt_allocReader] at hu
      exact hsame u hu hulive hother
    | basal _ _ hstarted =>
      obtain ⟨rfl, hclient, howner⟩ := hstarted.only hu
      rw [hclient, howner]
      exact hnew _ hm
    | nested _ hp hw hfin _ hclient howner _ _ _ hlib =>
      rw [hlib] at hu
      rcases txnAt_allocNested hu with hu | ⟨rfl, rfl⟩
      · exact hsame u hu hulive hother
      · have hparent := owner_of_parent hunrefused hopens hp (txnAt_of_write? hw) hfin
        dsimp only
        rw [hclient, howner, hparent]
        exact hnew _ hm
  | cloned _ hlib _ hother =>
    rw [hlib, txnAt_allocReader] at hu
    exact hsame u hu hulive hother
  | tooOld _ _ ham htxns _ _ =>
    cases ham with
    | refused _ href hlocal =>
      obtain ⟨t, ht, hlive, hclient, howner⟩ := (hlocal.effect href.ok).live hu hulive
      rw [hclient, howner]
      exact hsame t (href.live ht hlive) hlive fun k _ => by rw [htxns]
  | amended _ _ ham hm _ _ =>
    cases ham with
    | started _ hstarted hlib _ _ _ =>
      rw [hlib, txnAt_setReader] at hu
      obtain ⟨rfl, hclient, howner⟩ := hstarted.only hu
      rw [hclient, howner]
      exact hnew _ hm

/-! ### Runs -/

/-- The lock is never lost in a run that meets both conditions. -/
theorem held_invariant : system.Invariant (fun w e => w.OwnThread e ∧ w.Unrefused e)
    fun w => (w.lib.Ok ∧ w.Known) ∧ w.Held := by
  refine (sane_invariant _).strengthen ?_ ?_
  · rintro w ⟨_, _, _, _, hnested, hbasal, _⟩ p t ht hlive
    cases p with
    | reader a => cases ht
    | basal =>
      cases ht
      rw [hbasal] at hlive
      cases hlive
    | nested a => simp [txnAt, hnested] at ht
  · rintro w e w' ⟨ok, _⟩ _ held ⟨hown, hunrefused⟩ hstep
    obtain ⟨r, hr, rfl⟩ := Option.map_eq_some_iff.mp hstep
    rcases step_cases hr with ⟨g, self, o, call, rfl, _, _, hexec⟩ | ⟨a, x, _, _, rfl⟩ |
      ⟨txnid, changes, _, _, _, _, rfl⟩ | ⟨_, rfl⟩
    · exact exec_held ok held hown hunrefused (exec_act ok hexec)
    all_goals
      intro p t ht hlive
      exact (held p t (by cases p <;> exact ht) hlive).of_same (Nat.le_refl _) rfl

/-- The transaction at `p` has ended, and with the top-level one the lock is free. -/
def Released (env : MdbxEnv) (p : Ptr) : Prop := env.Ended p ∧ (p = .basal → env.basal.owner = none)

theorem released_of_ended {env : MdbxEnv} (ok : env.Ok) (h : env.Ended p) : Released env p := by
  refine ⟨h, ?_⟩
  rintro rfl
  have howner := ok.owner
  rw [show env.basal.finished = true from h] at howner
  simpa using howner

theorem abortTxn_lib (hp : (w.txns h).ptr = some p) (hmis : w.mismatched self h = false) :
    (w.abortTxn o self h).1.lib = (w.lib.mdbxTxnAbort o self (some p)).1 := by
  simp [abortTxn, hp, hmis, World.call, setTxn]

theorem commitTxn_lib (hp : (w.txns h).ptr = some p) (hmis : w.mismatched self h = false) :
    (w.commitTxn o self h).1.lib = (w.lib.mdbxTxnCommitEx o self (some p)).1 := by
  simp [commitTxn, hp, hmis, World.call, setTxn]

theorem mismatched_begun (known : w.Known) (hh : h < w.next) :
    w.mismatched (w.txns h).begun h = false := by
  unfold mismatched
  cases hstrict : w.strictThreadCheck with
  | false => rfl
  | true => simp [known.bound hstrict h hh]

/-- In every run in which libmdbx refuses none of the calls that are to end a transaction or to
checkpoint it, a live write transaction has a `Txn` that points to it, and an abort or a commit
through that `Txn` from its thread releases it. -/
theorem lock_reachable {t : WriteTxn}
    (run : system.Reaches (fun w e => w.OwnThread e ∧ w.Unrefused e) w)
    (ht : w.lib.txnAt p = some t) (hlive : t.finished = false) :
    ∃ k, (w.txns k).ptr = some p ∧ ∀ o, w.lib.fatal = false →
      Released (w.abortTxn o (w.txns k).begun k).1.lib p ∧
      Released (w.commitTxn o (w.txns k).begun k).1.lib p := by
  obtain ⟨⟨ok, known⟩, held⟩ := run.invariant held_invariant
  obtain ⟨hknown, hptr, howner⟩ := held p t ht hlive
  have hmis := mismatched_begun known hknown
  refine ⟨t.client, hptr, fun o hfatal => ?_⟩
  rw [abortTxn_lib hptr hmis, commitTxn_lib hptr hmis]
  constructor
  · exact released_of_ended (mdbxTxnAbort_effect ok p).ok
      (mdbxTxnAbort_ended ht hlive howner hfatal)
  · exact released_of_ended (mdbxTxnCommitEx_effect ok p).ok
      (mdbxTxnCommitEx_ended ht hlive howner hfatal)

/-- The writer whose put has found no room makes a checkpoint, which libmdbx refuses. -/
theorem lock_unreachable : ¬ ∀ (w : World) (p : Ptr) (t : WriteTxn),
    system.Reaches (fun w e => w.OwnThread e) w → w.lib.txnAt p = some t → t.finished = false →
    ∃ k, (w.txns k).ptr = some p := by
  intro hreachable
  obtain ⟨w, run, hw⟩ := Transition.System.exists_of_replay system (fun w e => w.OwnThread e)
    [.go 0 0 {} (.beginTxn none 0),
      .go 0 0 { data := some .mapFull, dataError := true } (.put 0 7),
      .go 0 0 {} (.checkpoint 0 0)] {}
    (fun w => !w.lib.basal.finished && (w.txns 0).ptr.isNone && w.next == 1)
    ⟨rfl, rfl, rfl, rfl, rfl, rfl, by decide⟩ (by decide)
  simp only [Bool.and_eq_true, Bool.not_eq_true', Option.isNone_iff_eq_none, beq_iff_eq] at hw
  obtain ⟨⟨hlive, hnull⟩, hnext⟩ := hw
  obtain ⟨k, hk⟩ := hreachable w .basal w.lib.basal run rfl hlive
  have known := (run.invariant (sane_invariant _)).2
  rcases Nat.eq_zero_or_pos k with rfl | hpos
  · rw [hnull] at hk
    cases hk
  · rw [known.fresh k (hnext ▸ hpos)] at hk
    cases hk

theorem lock_reachable_checkpointed : ∃ (w : World), w.lib.basal.finished = false ∧
    ∃ k, (w.txns k).ptr = some .basal ∧ ∀ o, w.lib.fatal = false →
      Released (w.abortTxn o (w.txns k).begun k).1.lib .basal ∧
      Released (w.commitTxn o (w.txns k).begun k).1.lib .basal := by
  obtain ⟨w, run, hw⟩ := Transition.System.exists_of_replay system
    (fun w e => w.OwnThread e ∧ w.Unrefused e)
    [.go 0 0 {} (.beginTxn none 0), .go 0 0 {} (.put 0 7), .go 0 0 {} (.checkpoint 0 0)] {}
    (fun w => !w.lib.basal.finished)
    ⟨rfl, rfl, rfl, rfl, rfl, rfl, by decide⟩ (by decide)
  have hlive : w.lib.basal.finished = false := by simpa using hw
  exact ⟨w, hlive, lock_reachable run rfl hlive⟩

end World

end MdbxGo
