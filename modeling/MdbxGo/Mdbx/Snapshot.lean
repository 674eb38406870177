import MdbxGo.Libmdbx.Snapshot
import MdbxGo.Mdbx.Ids

/-! How the last committed snapshot advances in the runs of a program, and which ids its `Txn`
values remember meanwhile. -/

namespace MdbxGo

namespace World

open MdbxEnv

variable {w w' : World} {o : Sys} {g : Gor} {self : Thread} {call : Call} {h k : Handle}

/-! ### What a call leaves in a `Txn` -/

/-- What a call makes of the id that a `Txn` remembers and of its marks as managed and as
read-only. -/
structure Marked (g : Gor) (call : Call) (k : Handle) (w w' : World) : Prop where
  id : (w'.txns k).id = 0 ∨ (w'.txns k).id = (w.txns k).id ∨ (w'.txns k).id = w.getID k
  managed : (w'.txns k).managed = (w.txns k).managed ∨
    (∃ terminate, call = .runOp k terminate) ∧ (w'.txns k).managed = true ∨
    ∃ res f fs, call = .finish res ∧ w.frames g = f :: fs ∧ f.kind = .keep true ∧ f.txn = k ∧
      (w'.txns k).managed = false
  readonly : (w.txns k).readonly = true → (w'.txns k).readonly = true

theorem marked_same (h : w'.txns k = w.txns k) : Marked g call k w w' :=
  ⟨.inr (.inl (by rw [h])), .inl (by rw [h]), fun hr => by rwa [h]⟩

theorem Marked.refl : Marked g call k w w := marked_same rfl

theorem marked_update {x : Txn} (htxns : w'.txns = Function.update w.txns h x)
    (hid : x.id = 0 ∨ x.id = (w.txns h).id ∨ x.id = w.getID h)
    (hmanaged : x.managed = (w.txns h).managed)
    (hreadonly : (w.txns h).readonly = true → x.readonly = true) : Marked g call k w w' := by
  by_cases hk : k = h
  · subst hk
    have hself : w'.txns k = x := by rw [htxns, Function.update_self]
    exact ⟨by rwa [hself], .inl (by rw [hself, hmanaged]), fun hr => by
      rw [hself]
      exact hreadonly hr⟩
  · exact marked_same (by rw [htxns, Function.update_of_ne hk])

/-- A method that makes one call of libmdbx. -/
theorem call_marked {f : MdbxEnv → Option Ptr → MdbxEnv × Code} {after : Code → Txn → Txn}
    (hid : ∀ code x, (after code x).id = 0 ∨ (after code x).id = x.id)
    (hmanaged : ∀ code x, (after code x).managed = x.managed)
    (hreadonly : ∀ code x, (after code x).readonly = x.readonly) :
    Marked g call k w (w.call h f after).1 := by
  refine marked_update rfl ?_ (hmanaged _ _) fun hr => (hreadonly _ _).trans hr
  exact (hid _ _).imp_right .inl

theorem marked_unmanaged {msg : String} {method : World × Reply}
    (hm : Marked g call k w method.1) : Marked g call k w (w.unmanaged msg h method).1 := by
  unfold unmanaged
  split
  · exact .refl
  · exact hm

theorem marked_writerOnly {msg op : String} {method : Option (World × Reply)}
    (hm : ∀ r, method = some r → Marked g call k w r.1) {r : World × Reply}
    (hr : w.writerOnly msg op self h method = some r) : Marked g call k w r.1 := by
  unfold writerOnly at hr
  split at hr
  · cases hr
    exact .refl
  · split at hr
    · cases hr
      exact .refl
    · split at hr
      · cases hr
        exact .refl
      · exact hm r hr

theorem commitTxn_marked {v : World} (hv : v.txns = w.txns) :
    Marked g call k w (v.commitTxn o self h).1 := by
  unfold commitTxn
  split
  · exact marked_same (by rw [hv])
  · refine marked_update (h := h) (x := (w.txns h).clearTxn) ?_ (.inl rfl) rfl fun hr => hr
    simp [World.call, setTxn, hv]

theorem abortTxn_marked {v : World} (hv : v.txns = w.txns) :
    Marked g call k w (v.abortTxn o self h).1 := by
  unfold abortTxn
  split
  · exact marked_same (by rw [hv])
  · split
    · exact marked_same (by rw [hv])
    · refine marked_update (h := h) (x := (w.txns h).clearTxn) ?_ (.inl rfl) rfl fun hr => hr
      simp [World.call, setTxn, hv]

theorem terminate_marked {v : World} (hv : v.txns = w.txns) (res : FnResult) :
    Marked g call k w (v.terminate o self h res).1 := by
  cases res with
  | nil => exact commitTxn_marked hv
  | error => exact abortTxn_marked hv
  | panic => exact abortTxn_marked hv

theorem beginTxn_other {parent : Option Handle} {flags : UInt32} {r : World × Returned}
    (hr : w.beginTxn o self parent flags = some r) (hk : k ≠ w.next) :
    r.1.txns k = w.txns k := by
  obtain ⟨c, _, rfl⟩ := Option.map_eq_some_iff.mp hr
  split
  · rfl
  · exact Function.update_of_ne hk _ _

theorem park_marked {autounpark : Bool} :
    Marked g call k w (w.park o self autounpark h).1 := by
  unfold park
  split
  · exact .refl
  · split
    · exact .refl
    · dsimp only
      refine call_marked (fun code x => .inr ?_) (fun code x => ?_) fun code x => ?_
      · split <;> rfl
      · split <;> rfl
      · split <;> rfl

theorem unpark_marked {restart : Bool} :
    Marked g call k w (w.unpark o self restart h).1 := by
  unfold unpark
  split
  · exact .refl
  · split
    · exact .refl
    · dsimp only
      refine call_marked (fun code x => ?_) (fun code x => ?_) fun code x => ?_
      · split
        · exact .inl rfl
        · exact .inr rfl
      · split <;> rfl
      · split <;> rfl

theorem checkpoint_marked {flags : UInt32} {r : World × Reply}
    (hr : w.checkpoint o self flags h = some r) : Marked g call k w r.1 := by
  refine marked_writerOnly (fun r hr => ?_) hr
  obtain ⟨c, _, rfl⟩ := Option.map_eq_some_iff.mp hr
  refine marked_update rfl ?_ ?_ fun hr => ?_
  · split <;> exact .inl rfl
  · split <;> rfl
  · split <;> exact hr

theorem commitEmbarkRead_marked {r : World × Reply} (hr : w.commitEmbarkRead o self h = some r) :
    Marked g call k w r.1 := by
  refine marked_writerOnly (fun r hr => ?_) hr
  obtain ⟨c, _, rfl⟩ := Option.map_eq_some_iff.mp hr
  refine marked_update rfl (.inl ?_) ?_ fun hr => ?_
  · split
    · rfl
    · split
      · split <;> rfl
      · rfl
  · split
    · rfl
    · split
      · split <;> rfl
      · rfl
  · split
    · exact hr
    · split
      · split <;> exact hr
      · rfl

theorem amendLocked_marked {r : World × Reply} (hr : w.amendLocked o g self = some r)
    (hnew : k ≠ w.next) : Marked g call k w r.1 := by
  unfold World.amendLocked at hr
  split at hr
  · rename_i flags h a snapshot rest hframes
    obtain ⟨c, _, rfl⟩ := Option.map_eq_some_iff.mp hr
    dsimp only
    split
    · exact marked_same rfl
    · by_cases hkh : k = h
      · subst hkh
        have hafter : ((({ w with lib := c.1 }.pop g).setTxn k
            (if flags &&& txnRdonlyPrepare == 0 then (w.txns k).clearTxn
              else (w.txns k).resetID)).txns k).id = 0 := by
          rw [setTxn_self]
          split <;> rfl
        have hmanaged : ((({ w with lib := c.1 }.pop g).setTxn k
            (if flags &&& txnRdonlyPrepare == 0 then (w.txns k).clearTxn
              else (w.txns k).resetID)).txns k).managed = (w.txns k).managed := by
          rw [setTxn_self]
          split <;> rfl
        have hreadonly : ((({ w with lib := c.1 }.pop g).setTxn k
            (if flags &&& txnRdonlyPrepare == 0 then (w.txns k).clearTxn
              else (w.txns k).resetID)).txns k).readonly = (w.txns k).readonly := by
          rw [setTxn_self]
          split <;> rfl
        refine ⟨.inl ?_, .inl ?_, fun hr => ?_⟩
        all_goals rw [create]
        · exact (congrArg Txn.id (Function.update_of_ne hnew _ _)).trans hafter
        · exact (congrArg Txn.managed (Function.update_of_ne hnew _ _)).trans hmanaged
        · exact ((congrArg Txn.readonly (Function.update_of_ne hnew _ _)).trans hreadonly).trans hr
      · refine marked_same ((Function.update_of_ne hnew _ _).trans ?_)
        exact Function.update_of_ne hkh _ _
  · cases hr

theorem cloneInto_marked {target : Handle} {r : World × Reply}
    (hr : w.cloneInto o target h = some r) : Marked g call k w r.1 := by
  unfold cloneInto at hr
  split at hr
  · cases hr
    exact .refl
  · split at hr
    · cases hr
      exact .refl
    · obtain ⟨t, _, rfl⟩ := Option.map_eq_some_iff.mp hr
      dsimp only
      split
      · exact marked_same rfl
      · exact marked_update rfl (.inl rfl) rfl fun hr => hr
    · cases hr

theorem runOpEither_marked {terminate : Bool} :
    Marked g (.runOp h terminate) k w (w.runOpEither g terminate h).1 := by
  by_cases hkh : k = h
  · subst hkh
    unfold runOpEither
    split
    · unfold runOpTerm unmanaged
      split
      · exact .refl
      · refine ⟨.inr (.inl ?_), .inr (.inl ⟨⟨_, rfl⟩, ?_⟩), ?_⟩
        · simp [push, setManaged, setTxn]
        · simp [push, setManaged, setTxn]
        · simp [push, setManaged, setTxn]
    · unfold runOp
      refine ⟨.inr (.inl ?_), .inr (.inl ⟨⟨_, rfl⟩, ?_⟩), ?_⟩
      · simp [push, setManaged, setTxn]
      · simp [push, setManaged, setTxn]
      · simp [push, setManaged, setTxn]
  · have hother : (w.setManaged true h).txns k = w.txns k := Function.update_of_ne hkh _ _
    unfold runOpEither
    split
    · unfold runOpTerm unmanaged
      split
      · exact .refl
      · exact marked_same hother
    · exact marked_same hother

theorem finish_marked {res : FnResult} {r : World × Reply} (hr : w.finish o g self res = some r) :
    Marked g (.finish res) k w r.1 := by
  unfold finish at hr
  split at hr
  · cases hr
  · rename_i f fs hframes
    split at hr
    · cases hr
      exact terminate_marked (w := w) (v := w.pop g) rfl res
    · cases hr
      exact terminate_marked (w := w) (v := w.pop g) rfl res
    · rename_i restore hkind
      cases hr
      unfold leave
      dsimp only
      split
      · rename_i hrestore
        by_cases hkf : k = f.txn
        · subst hkf
          have hmarks : (((w.pop g).setManaged false f.txn).txns f.txn) =
              { w.txns f.txn with managed := false } := by simp [setManaged, setTxn, pop]
          refine ⟨.inr (.inl (by rw [hmarks])), .inr (.inr ?_), fun hr => by rw [hmarks]; exact hr⟩
          exact ⟨res, f, fs, rfl, hframes, by rw [hkind, hrestore], rfl, by rw [hmarks]⟩
        · exact marked_same (Function.update_of_ne hkf _ _)
      · exact marked_same rfl
    · cases hr

theorem exec_marked {r : World × Reply} (hr : w.exec o g self call = some r) (hk : k < w.next) :
    Marked g call k w r.1 := by
  have hnew : k ≠ w.next := Nat.ne_of_lt hk
  cases call with
  | beginTxn parent flags =>
    obtain ⟨c, hc, rfl⟩ := Option.map_eq_some_iff.mp hr
    exact marked_same (beginTxn_other hc hnew)
  | id h =>
    cases hr
    dsimp only
    unfold World.id
    split
    · exact marked_update rfl (.inr (.inr rfl)) rfl fun hr => hr
    · exact .refl
  | get h => cases hr; exact call_marked (fun _ _ => .inr rfl) (fun _ _ => rfl) fun _ _ => rfl
  | put h change =>
    cases hr; exact call_marked (fun _ _ => .inr rfl) (fun _ _ => rfl) fun _ _ => rfl
  | commit h => cases hr; exact marked_unmanaged (commitTxn_marked rfl)
  | abort h => cases hr; exact marked_unmanaged (abortTxn_marked rfl)
  | reset h =>
    cases hr
    apply marked_unmanaged
    unfold resetTxn
    dsimp only
    exact call_marked (fun _ _ => .inl rfl) (fun _ _ => rfl) fun _ _ => rfl
  | renew h =>
    cases hr
    apply marked_unmanaged
    unfold renewTxn
    dsimp only
    exact call_marked (fun _ _ => .inl rfl) (fun _ _ => rfl) fun _ _ => rfl
  | refresh h =>
    cases hr
    apply marked_unmanaged
    dsimp only
    exact call_marked (fun _ _ => .inl rfl) (fun _ _ => rfl) fun _ _ => rfl
  | park h autounpark => cases hr; exact park_marked
  | unpark h restart => cases hr; exact unpark_marked
  | checkpoint h flags => exact checkpoint_marked hr
  | commitEmbarkRead h => exact commitEmbarkRead_marked hr
  | rollback h =>
    refine marked_writerOnly (fun r hr => ?_) hr
    obtain ⟨c, _, rfl⟩ := Option.map_eq_some_iff.mp hr
    exact marked_update rfl (.inl rfl) rfl fun hr => hr
  | amend h flags =>
    cases hr
    refine marked_unmanaged ?_
    split
    · exact .refl
    · split
      · exact .refl
      · dsimp only
        split <;> exact marked_same rfl
  | amendLocked => exact amendLocked_marked hr hnew
  | clone h =>
    cases hr
    unfold clone
    dsimp only
    split
    · exact marked_same rfl
    · exact marked_same (Function.update_of_ne hnew _ _)
  | cloneInto h target => exact cloneInto_marked hr
  | runTxn flags =>
    obtain ⟨c, hc, rfl⟩ := Option.map_eq_some_iff.mp hr
    have hold := beginTxn_other hc hnew
    split
    · exact marked_same hold
    · rename_i j hj
      obtain ⟨rfl, _, _⟩ := beginTxn_managed hc hj
      unfold runOpTerm unmanaged
      split
      · exact marked_same hold
      · exact marked_same ((Function.update_of_ne hnew _ _).trans hold)
  | runOp h terminate => cases hr; exact runOpEither_marked
  | sub h =>
    obtain ⟨c, hc, rfl⟩ := Option.map_eq_some_iff.mp hr
    have hold := beginTxn_other hc hnew
    split
    · exact marked_same hold
    · rename_i j hj
      obtain ⟨rfl, _, _⟩ := beginTxn_managed hc hj
      exact marked_same ((Function.update_of_ne hnew _ _).trans hold)
  | finish res => exact finish_marked hr

/-! ### The last committed snapshot -/

theorem advances_of_localAt {env env' : MdbxEnv} {ptr : Option Ptr} (h : LocalAt env env' ptr) :
    Advances env env' := by
  cases ptr with
  | none => exact h ▸ .refl _
  | some p => exact Local.advances h

theorem Own.advances (ok : w.lib.Ok) (own : Own o g self call h w w') :
    Advances w.lib w'.lib := by
  cases own with
  | kept hlib _ => exact advances_of_localAt hlib
  | rolledBack _ _ hlib _ => exact mdbxTxnRollback_advances ok hlib
  | committed _ _ _ hlib _ => exact hlib ▸ mdbxTxnCommitEx_advances ok _
  | aborted _ _ hlib _ => exact hlib ▸ mdbxTxnAbort_advances _ _
  | checkpointed _ _ hlib _ => exact mdbxTxnCheckpoint_advances ok hlib
  | embarked _ _ hlib _ _ _ _ => exact mdbxTxnCommitEmbarkRead_advances ok hlib

theorem beginTxn_advances (ok : w.lib.Ok) {parent : Option Handle} {flags : UInt32}
    {r : World × Returned} (hr : w.beginTxn o self parent flags = some r) :
    Advances w.lib r.1.lib := by
  obtain ⟨c, hc, rfl⟩ := Option.map_eq_some_iff.mp hr
  have hlib := mdbxTxnBegin_advances ok hc
  split <;> exact hlib

/-- A call that begins a transaction. -/
theorem opens_advances (ok : w.lib.Ok) {parent : Option Handle} (ho : call.opens = some parent)
    {r : World × Reply} (hr : w.exec o g self call = some r) : Advances w.lib r.1.lib := by
  cases call with
  | beginTxn parent flags =>
    obtain ⟨c, hc, rfl⟩ := Option.map_eq_some_iff.mp hr
    exact beginTxn_advances ok hc
  | runTxn flags =>
    obtain ⟨c, hc, rfl⟩ := Option.map_eq_some_iff.mp hr
    have hlib := beginTxn_advances ok hc
    split
    · exact hlib
    · unfold runOpTerm unmanaged
      split <;> exact hlib
  | sub h =>
    obtain ⟨c, hc, rfl⟩ := Option.map_eq_some_iff.mp hr
    have hlib := beginTxn_advances ok hc
    split <;> exact hlib
  | _ => cases ho

theorem amendLocked_advances (ok : w.lib.Ok) {r : World × Reply}
    (hr : w.exec o g self .amendLocked = some r) : Advances w.lib r.1.lib := by
  simp only [exec, World.amendLocked] at hr
  split at hr
  · obtain ⟨c, hc, rfl⟩ := Option.map_eq_some_iff.mp hr
    have hlib := MdbxEnv.amendLocked_advances ok hc
    split <;> exact hlib
  · cases hr

theorem exec_advances (ok : w.lib.Ok) {r : World × Reply}
    (hr : w.exec o g self call = some r) : Advances w.lib r.1.lib := by
  cases exec_act ok hr with
  | through h _ ht => exact ht.own.advances ok
  | refused ho _ _ _ _ => exact opens_advances ok ho hr
  | began ho _ _ _ => exact opens_advances ok ho hr
  | cloned _ hlib _ _ => exact hlib ▸ .of_same rfl rfl
  | tooOld hcall _ _ _ _ _ =>
    subst hcall
    exact amendLocked_advances ok hr
  | amended hcall _ _ _ _ _ =>
    subst hcall
    exact amendLocked_advances ok hr

/-- No step takes the last committed snapshot back. -/
theorem step_advances (ok : w.lib.Ok) {e : Event} {r : World × Reply} (hr : w.step e = some r) :
    Advances w.lib r.1.lib := by
  rcases step_cases hr with ⟨g, self, o, call, _, _, _, hexec⟩ | ⟨a, x, _, _, rfl⟩ |
    ⟨txnid, changes, _, _, hlt, _, rfl⟩ | ⟨_, rfl⟩
  · exact exec_advances ok hexec
  · exact .of_same rfl rfl
  · exact ⟨UInt64.le_of_lt hlt, .inl rfl⟩
  · exact .of_same rfl rfl

/-! ### The ids that are remembered of the top-level transaction -/

/-- A call leaves no pointer to the top-level transaction where there was none. -/
theorem Own.basal (own : Own o g self call h w w') (hp : (w'.txns h).ptr = some .basal) :
    (w.txns h).ptr = some .basal := by
  cases own with
  | kept _ hsame => rwa [hsame.ptr] at hp
  | rolledBack _ _ _ htxn => rwa [htxn] at hp
  | committed _ _ _ _ htxn =>
    rw [htxn] at hp
    cases hp
  | aborted _ _ _ htxn =>
    rw [htxn] at hp
    cases hp
  | checkpointed _ _ _ htxn =>
    rw [htxn] at hp
    split at hp
    · exact hp
    · cases hp
  | embarked _ _ hlib hptr _ _ _ =>
    rw [hptr] at hp
    split at hp
    · cases hp
    · cases hq : (w.txns h).ptr with
      | none =>
        rw [hq] at hlib
        have hnull : none = some Ptr.basal := (congrArg (·.2.2) (Option.some.inj hlib)).trans hp
        cases hnull
      | some q =>
        rw [hq] at hlib
        rcases mdbxTxnCommitEmbarkRead_ptr hlib hp with ⟨hsame, _⟩ | ⟨hnew, _, _⟩
        · rw [hsame]
        · cases hnew

theorem Act.basal (act : Act o g self call w w') (hk : k < w.next)
    (hp : (w'.txns k).ptr = some .basal) : (w.txns k).ptr = some .basal := by
  have hne : k ≠ w.next := Nat.ne_of_lt hk
  cases act with
  | through h _ ht =>
    by_cases hkh : k = h
    · subst hkh
      exact ht.own.basal hp
    · rwa [ht.others k hkh] at hp
  | refused _ _ htxns _ _ => rwa [htxns] at hp
  | began _ _ _ hother => rwa [hother k hne] at hp
  | cloned _ _ _ hother => rwa [hother k hne] at hp
  | tooOld _ _ _ htxns _ _ => rwa [htxns] at hp
  | amended _ _ _ _ hother hself =>
    rename_i h a flags code _ _ _ _
    by_cases hkh : k = h
    · subst hkh
      rw [hself hne] at hp
      split at hp
      · cases hp
      · exact hp
    · rwa [hother k hne hkh] at hp

/-- What is remembered of the top-level transaction is at most one ahead of the last snapshot. -/
structure Recent (w : World) : Prop where
  near : w.lib.Near
  ids : ∀ h, h < w.next → (w.txns h).ptr = some .basal → (w.txns h).id ≤ w.lib.recent + 1

theorem Recent.idOf (recent : w.Recent) (hh : h < w.next) (hp : (w.txns h).ptr = some .basal) :
    w.idOf h ≤ w.lib.recent + 1 := by
  have hget : w.getID h = w.lib.basal.txnid := by
    rw [getID, hp]
    rfl
  unfold World.idOf
  split
  · rw [hget]
    exact recent.near
  · split
    · rw [hget]
      exact recent.near
    · exact recent.ids h hh hp

theorem step_recent (ok : w.lib.Ok) (recent : w.Recent) {e : Event} {r : World × Reply}
    (hr : w.step e = some r) : r.1.Recent := by
  have hbound := (step_ok ok hr).bounded
  have hadv := step_advances ok hr
  have hlast : w.lib.recent + 1 ≤ r.1.lib.recent + 1 := succ_le_succ hadv.recent hbound
  refine ⟨recent.near.advances hadv hbound, fun k hk hp => ?_⟩
  rcases step_cases hr with ⟨g, self, o, call, _, _, _, hexec⟩ | ⟨a, x, _, _, rfl⟩ |
    ⟨txnid, changes, _, _, _, _, rfl⟩ | ⟨_, rfl⟩
  · have act := exec_act ok hexec
    by_cases hold : k < w.next
    · have hpold := act.basal hold hp
      rcases (exec_marked hexec hold).id with hzero | hsame | hread
      · rw [hzero]
        exact UInt64.zero_le
      · rw [hsame]
        exact UInt64.le_trans (recent.ids k hold hpold) hlast
      · rw [hread, getID, hpold]
        exact UInt64.le_trans recent.near hlast
    · obtain ⟨rfl, p, hm⟩ := act.made hk hold
      rw [hm.id]
      exact UInt64.zero_le
  · exact recent.ids k hk hp
  · exact UInt64.le_trans (recent.ids k hk hp) hlast
  · exact recent.ids k hk hp

theorem init_recent (h : system.init w) : w.Recent := by
  obtain ⟨hnext, _, _, _, _, hbasal, _⟩ := h
  refine ⟨?_, fun k hk _ => ?_⟩
  · rw [Near, hbasal]
    exact UInt64.zero_le
  · rw [hnext] at hk
    exact absurd hk (Nat.not_lt_zero k)

end World

end MdbxGo
