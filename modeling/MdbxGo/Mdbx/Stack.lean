import MdbxGo.Mdbx.Act

/-! What a call does to the stack of its goroutine, and which `Txn` values a program can name. -/

namespace MdbxGo

namespace World

open MdbxEnv

variable {w w' : World} {o : Sys} {g : Gor} {self : Thread} {call : Call} {h : Handle}

/-- The calls that leave an entry about `h` on the stack of their goroutine. -/
inductive Pushes (w w' : World) : Call → FrameKind → Handle → Prop
  | amend {h : Handle} {flags : UInt32} {a : Addr} : (w.txns h).managed = false →
      w'.txns = w.txns → (w.txns h).ptr = some (.reader a) →
      Pushes w w' (.amend h flags) (.amending flags) h
  | keep {h : Handle} : w' = (w.setManaged true h).push g (.keep !(w.txns h).managed) h →
      Pushes w w' (.runOp h false) (.keep !(w.txns h).managed) h
  | term {h : Handle} : (w.txns h).managed = false →
      w' = (w.setManaged true h).push g .term h → Pushes w w' (.runOp h true) .term h
  | run {flags : UInt32} : w.next < w'.next → (w'.txns w.next).managed = true →
      Pushes w w' (.runTxn flags) .term w.next
  | sub {h : Handle} : w.next < w'.next → (w'.txns w.next).managed = true →
      Pushes w w' (.sub h) .sub w.next

/-- What a call does to the stack of its goroutine; the others stay as they are. -/
inductive Stacked (g : Gor) (call : Call) (w w' : World) : Prop
  | same : w'.frames = w.frames → Stacked g call w w'
  | pushed {kind : FrameKind} {h : Handle} : Pushes (g := g) w w' call kind h →
      w'.frames = Function.update w.frames g
        ({ kind, txn := h, ptr := (w'.txns h).ptr, snapshot := w'.lib.snapshot (w'.txns h).ptr } ::
          w.frames g) → Stacked g call w w'
  | popped {f : Frame} {fs : List Frame} : w.frames g = f :: fs →
      (call = .amendLocked ∧ (∃ flags, f.kind = .amending flags) ∨ ∃ res, call = .finish res) →
      w'.frames = Function.update w.frames g fs → Stacked g call w w'

theorem frames_unmanaged {msg : String} {method : World × Reply}
    (hm : method.1.frames = w.frames) : (w.unmanaged msg h method).1.frames = w.frames := by
  unfold unmanaged
  split
  · rfl
  · exact hm

theorem frames_writerOnly {msg op : String} {method : Option (World × Reply)}
    (hm : ∀ r, method = some r → r.1.frames = w.frames) {r : World × Reply}
    (hr : w.writerOnly msg op self h method = some r) : r.1.frames = w.frames := by
  unfold writerOnly at hr
  split at hr
  · cases hr
    rfl
  · split at hr
    · cases hr
      rfl
    · split at hr
      · cases hr
        rfl
      · exact hm r hr

theorem commitTxn_frames (v : World) : (v.commitTxn o self h).1.frames = v.frames := by
  unfold commitTxn
  split <;> rfl

theorem abortTxn_frames (v : World) : (v.abortTxn o self h).1.frames = v.frames := by
  unfold abortTxn
  split
  · rfl
  · split <;> rfl

theorem terminate_frames (v : World) (res : FnResult) :
    (v.terminate o self h res).1.frames = v.frames := by
  cases res with
  | nil => exact commitTxn_frames v
  | error => exact abortTxn_frames v
  | panic => exact abortTxn_frames v

theorem leave_frames (v : World) (restore : Bool) (res : FnResult) :
    (v.leave restore h res).1.frames = v.frames := by
  unfold leave
  dsimp only
  split <;> rfl

theorem amend_stacked {flags : UInt32} :
    Stacked g (.amend h flags) w (w.amend o g self flags h).1 := by
  unfold amend unmanaged
  split
  · exact .same rfl
  · rename_i hmanaged
    split
    · exact .same rfl
    · split
      · exact .same rfl
      · dsimp only
        split
        · exact .same rfl
        · rename_i hnone
          cases hp : (w.txns h).ptr with
          | none =>
            rw [hp] at hnone
            cases hnone
          | some p =>
            cases p with
            | reader a =>
              refine .pushed (.amend (by simpa using hmanaged) rfl hp) rfl
            | basal =>
              simp only [hp, amendStart] at hnone
              split at hnone <;> cases hnone
            | nested a =>
              simp only [hp, amendStart] at hnone
              split at hnone <;> cases hnone

theorem beginTxn_managed {parent : Option Handle} {flags : UInt32} {r : World × Returned}
    {k : Handle}
    (hr : w.beginTxn o self parent flags = some r) (hk : r.2.txn = some k) :
    k = w.next ∧ r.1.next = w.next + 1 ∧ r.1.frames = w.frames := by
  obtain ⟨c, _, rfl⟩ := Option.map_eq_some_iff.mp hr
  split at hk
  · cases hk
  · rename_i hcode
    rw [if_neg hcode]
    exact ⟨(Option.some.inj hk).symm, rfl, rfl⟩

theorem beginTxn_frames {parent : Option Handle} {flags : UInt32} {r : World × Returned}
    (hr : w.beginTxn o self parent flags = some r) : r.1.frames = w.frames := by
  obtain ⟨c, _, rfl⟩ := Option.map_eq_some_iff.mp hr
  split <;> rfl

theorem amendLocked_stacked {r : World × Reply} (hr : w.amendLocked o g self = some r) :
    Stacked g .amendLocked w r.1 := by
  unfold World.amendLocked at hr
  split at hr
  · rename_i flags h a snapshot rest hframes
    obtain ⟨c, _, rfl⟩ := Option.map_eq_some_iff.mp hr
    refine .popped hframes (.inl ⟨rfl, flags, rfl⟩) ?_
    split <;> simp [create, setTxn, pop, hframes]
  · cases hr

theorem cloneInto_frames {target : Handle} {r : World × Reply}
    (hr : w.cloneInto o target h = some r) : r.1.frames = w.frames := by
  unfold cloneInto at hr
  split at hr
  · cases hr
    rfl
  · split at hr
    · cases hr
      rfl
    · obtain ⟨t, _, rfl⟩ := Option.map_eq_some_iff.mp hr
      dsimp only
      split <;> rfl
    · cases hr

theorem runTxn_stacked {flags : UInt32} {r : World × Reply}
    (hr : w.runTxn o g self flags = some r) :
    Stacked g (.runTxn flags) w r.1 := by
  obtain ⟨c, hc, rfl⟩ := Option.map_eq_some_iff.mp hr
  have hframes := beginTxn_frames hc
  split
  · exact .same hframes
  · rename_i k hk
    obtain ⟨rfl, hnext, _⟩ := beginTxn_managed hc hk
    unfold runOpTerm unmanaged
    split
    · exact .same hframes
    · refine .pushed (.run ?_ ?_) ?_
      · change w.next < c.1.next
        rw [hnext]
        exact Nat.lt_succ_self _
      · simp [push, setManaged, setTxn]
      · simp [push, setManaged, setTxn, hframes]

theorem runOpEither_stacked {terminate : Bool} :
    Stacked g (.runOp h terminate) w (w.runOpEither g terminate h).1 := by
  unfold runOpEither
  split
  · rename_i hterm
    rw [hterm]
    unfold runOpTerm unmanaged
    split
    · exact .same rfl
    · rename_i hmanaged
      exact .pushed (.term (by simpa using hmanaged) rfl) rfl
  · rename_i hterm
    rw [show terminate = false by simpa using hterm]
    exact .pushed (.keep rfl) rfl

theorem sub_stacked {r : World × Reply} (hr : w.sub o g self h = some r) :
    Stacked g (.sub h) w r.1 := by
  obtain ⟨c, hc, rfl⟩ := Option.map_eq_some_iff.mp hr
  have hframes := beginTxn_frames hc
  split
  · exact .same hframes
  · rename_i k hk
    obtain ⟨rfl, hnext, _⟩ := beginTxn_managed hc hk
    refine .pushed (.sub ?_ ?_) ?_
    · exact hnext ▸ Nat.lt_succ_self w.next
    · simp [push, setManaged, setTxn]
    · simp [push, setManaged, setTxn, hframes]

theorem finish_stacked {res : FnResult} {r : World × Reply} (hr : w.finish o g self res = some r) :
    Stacked g (.finish res) w r.1 := by
  unfold finish at hr
  split at hr
  · cases hr
  · rename_i f fs hframes
    have hpop : (w.pop g).frames = Function.update w.frames g fs := by simp [pop, hframes]
    refine .popped hframes (.inr ⟨res, rfl⟩) ?_
    split at hr
    · cases hr
      rw [terminate_frames, hpop]
    · cases hr
      rw [terminate_frames, hpop]
    · cases hr
      rw [leave_frames, hpop]
    · cases hr

theorem exec_stacked {r : World × Reply} (hr : w.exec o g self call = some r) :
    Stacked g call w r.1 := by
  cases call with
  | beginTxn parent flags =>
    obtain ⟨c, hc, rfl⟩ := Option.map_eq_some_iff.mp hr
    exact .same (beginTxn_frames hc)
  | id h =>
    cases hr
    refine .same ?_
    unfold World.id
    split <;> rfl
  | get h => cases hr; exact .same rfl
  | put h change => cases hr; exact .same rfl
  | commit h => cases hr; exact .same (frames_unmanaged (commitTxn_frames w))
  | abort h => cases hr; exact .same (frames_unmanaged (abortTxn_frames w))
  | reset h => cases hr; exact .same (frames_unmanaged rfl)
  | renew h => cases hr; exact .same (frames_unmanaged rfl)
  | refresh h => cases hr; exact .same (frames_unmanaged rfl)
  | park h autounpark =>
    cases hr
    refine .same ?_
    unfold park
    split
    · rfl
    · split <;> rfl
  | unpark h restart =>
    cases hr
    refine .same ?_
    unfold unpark
    split
    · rfl
    · split <;> rfl
  | checkpoint h flags =>
    refine .same (frames_writerOnly (fun r hr => ?_) hr)
    obtain ⟨c, _, rfl⟩ := Option.map_eq_some_iff.mp hr
    rfl
  | commitEmbarkRead h =>
    refine .same (frames_writerOnly (fun r hr => ?_) hr)
    obtain ⟨c, _, rfl⟩ := Option.map_eq_some_iff.mp hr
    rfl
  | rollback h =>
    refine .same (frames_writerOnly (fun r hr => ?_) hr)
    obtain ⟨c, _, rfl⟩ := Option.map_eq_some_iff.mp hr
    rfl
  | amend h flags => cases hr; exact amend_stacked
  | amendLocked => exact amendLocked_stacked hr
  | clone h =>
    cases hr
    refine .same ?_
    unfold clone
    dsimp only
    split <;> rfl
  | cloneInto h target => exact .same (cloneInto_frames hr)
  | runTxn flags => exact runTxn_stacked hr
  | runOp h terminate => cases hr; exact runOpEither_stacked
  | sub h => exact sub_stacked hr
  | finish res => exact finish_stacked hr

/-- The calls that may change the stack of their goroutine. -/
def restacks : Call → Bool
  | .amend _ _ | .amendLocked | .runTxn _ | .runOp _ _ | .sub _ | .finish _ => true
  | _ => false

theorem exec_frames {r : World × Reply} (hr : w.exec o g self call = some r)
    (hrestacks : restacks call = false) : r.1.frames = w.frames := by
  cases exec_stacked hr with
  | same hsame => exact hsame
  | pushed hpush _ => cases hpush <;> cases hrestacks
  | popped _ hcall _ =>
    rcases hcall with ⟨rfl, _⟩ | ⟨res, rfl⟩ <;> cases hrestacks

/-! ### The `Txn` values that a program can name -/

/-- The pointer is null, or to the reader at `a`. -/
def OnlyReader (a : Addr) (ptr : Option Ptr) : Prop := ∀ p, ptr = some p → p = .reader a

/-- Only the `Txn` values below `next` hold pointers, and the stacks are about these; one that a
goroutine amends has kept the pointer that it had, or has lost it. A `Txn` that was made under
`strictThreadCheck` is bound to the thread that made it. -/
structure Known (w : World) : Prop where
  fresh : ∀ h, w.next ≤ h → (w.txns h).ptr = none
  frames : ∀ g, ∀ f ∈ w.frames g, f.txn < w.next
  amending : ∀ g, ∀ f ∈ w.frames g, ∀ flags, f.kind = .amending flags →
    ∃ a, f.ptr = some (.reader a) ∧ OnlyReader a (w.txns f.txn).ptr
  bound : w.strictThreadCheck = true → ∀ h, h < w.next → (w.txns h).tid = (w.txns h).begun

theorem Known.uses (known : w.Known) (hcall : ∀ h ∈ call.handles, h < w.next) :
    ∀ h ∈ w.uses g call, h < w.next := by
  intro h hh
  rcases List.mem_append.mp hh with hh | hh
  · exact hcall h hh
  · cases call with
    | finish res =>
      obtain ⟨f, hf, rfl⟩ := Option.map_eq_some_iff.mp (Option.mem_toList.mp hh)
      exact known.frames g f (List.mem_of_mem_head? hf)
    | _ => cases hh

theorem OnlyReader.none (a : Addr) : OnlyReader a none := by
  rintro p ⟨⟩

/-- A call changes a pointer to a reader only to null. -/
theorem Own.onlyReader {a : Addr} (own : Own o g self call h w w')
    (hp : OnlyReader a (w.txns h).ptr) : OnlyReader a (w'.txns h).ptr := by
  cases own with
  | kept _ hsame => rwa [hsame.ptr]
  | rolledBack _ _ _ htxn => rwa [htxn]
  | committed _ _ _ _ htxn => simpa [htxn] using OnlyReader.none a
  | aborted _ _ _ htxn => simpa [htxn] using OnlyReader.none a
  | checkpointed _ _ _ htxn =>
    rw [htxn]
    split
    · exact hp
    · exact OnlyReader.none a
  | @embarked code ptr _ _ hlib hptr _ _ _ =>
    rw [hptr]
    split
    · exact OnlyReader.none a
    · cases hq : (w.txns h).ptr with
      | none =>
        rw [hq] at hlib
        have hnull : none = ptr := congrArg (·.2.2) (Option.some.inj hlib)
        exact hnull ▸ OnlyReader.none a
      | some q =>
        obtain rfl := hp q hq
        rw [hq] at hlib
        have hsame : some (Ptr.reader a) = ptr := congrArg (·.2.2) (Option.some.inj hlib)
        rw [← hsame]
        rintro p ⟨⟩
        rfl

theorem Act.onlyReader {a : Addr} {k : Handle} (act : Act o g self call w w') (hk : k < w.next)
    (hp : OnlyReader a (w.txns k).ptr) : OnlyReader a (w'.txns k).ptr := by
  have hne : k ≠ w.next := Nat.ne_of_lt hk
  cases act with
  | through h _ ht =>
    by_cases hkh : k = h
    · subst hkh
      exact ht.own.onlyReader hp
    · rwa [ht.others k hkh]
  | refused _ _ htxns _ _ => rwa [htxns]
  | began _ _ _ hother => rwa [hother k hne]
  | cloned _ _ _ hother => rwa [hother k hne]
  | tooOld _ _ _ htxns _ _ => rwa [htxns]
  | @amended h _ flags _ _ _ _ _ hother hself =>
    by_cases hkh : k = h
    · subst hkh
      rw [hself hne]
      split
      · exact OnlyReader.none a
      · exact hp
    · rwa [hother k hne hkh]

/-- A `Txn` stays bound to its threads. -/
theorem Own.bound (own : Own o g self call h w w') :
    (w'.txns h).tid = (w.txns h).tid ∧ (w'.txns h).begun = (w.txns h).begun := by
  cases own with
  | kept _ hsame => exact ⟨hsame.tid, hsame.begun⟩
  | rolledBack _ _ _ htxn => exact htxn ▸ ⟨rfl, rfl⟩
  | committed _ _ _ _ htxn => exact htxn ▸ ⟨rfl, rfl⟩
  | aborted _ _ _ htxn => exact htxn ▸ ⟨rfl, rfl⟩
  | checkpointed _ _ _ htxn =>
    rw [htxn]
    split <;> exact ⟨rfl, rfl⟩
  | embarked _ _ _ _ _ hbegun htid => exact ⟨htid, hbegun⟩

theorem Act.bound {k : Handle} (act : Act o g self call w w') (hk : k < w.next) :
    (w'.txns k).tid = (w.txns k).tid ∧ (w'.txns k).begun = (w.txns k).begun := by
  have hne : k ≠ w.next := Nat.ne_of_lt hk
  cases act with
  | through h _ ht =>
    by_cases hkh : k = h
    · subst hkh
      exact ht.own.bound
    · rw [ht.others k hkh]
      exact ⟨rfl, rfl⟩
  | refused _ _ htxns _ _ => exact htxns ▸ ⟨rfl, rfl⟩
  | began _ _ _ hother => exact hother k hne ▸ ⟨rfl, rfl⟩
  | cloned _ _ _ hother => exact hother k hne ▸ ⟨rfl, rfl⟩
  | tooOld _ _ _ htxns _ _ => exact htxns ▸ ⟨rfl, rfl⟩
  | @amended h _ _ _ _ _ _ _ hother hself =>
    by_cases hkh : k = h
    · subst hkh
      rw [hself hne]
      split <;> exact ⟨rfl, rfl⟩
    · exact hother k hne hkh ▸ ⟨rfl, rfl⟩

theorem Act.strict (act : Act o g self call w w') :
    w'.strictThreadCheck = w.strictThreadCheck := by
  cases act with
  | through h _ ht => exact ht.strict
  | refused _ _ _ _ hstrict => exact hstrict
  | began _ _ hm _ => exact hm.strict
  | cloned _ _ hm _ => exact hm.strict
  | tooOld _ _ _ _ _ hstrict => exact hstrict
  | amended _ _ _ hm _ _ => exact hm.strict

/-- Only the `Txn` that a call makes is new. -/
theorem Act.made {k : Handle} (act : Act o g self call w w') (hk : k < w'.next)
    (hnew : ¬ k < w.next) : k = w.next ∧ ∃ p, Made self p w w' := by
  have hmade : ∀ p, Made self p w w' → k = w.next ∧ ∃ p, Made self p w w' := by
    intro p hm
    rw [hm.next] at hk
    exact ⟨Nat.le_antisymm (Nat.le_of_lt_succ hk) (Nat.le_of_not_lt hnew), p, hm⟩
  cases act with
  | through h _ ht => exact absurd (ht.next ▸ hk) hnew
  | refused _ _ _ hnext _ => exact absurd (hnext ▸ hk) hnew
  | began _ _ hm _ => exact hmade _ hm
  | cloned _ _ hm _ => exact hmade _ hm
  | tooOld _ _ _ _ hnext _ => exact absurd (hnext ▸ hk) hnew
  | amended _ _ _ hm _ _ => exact hmade _ hm

theorem Act.next_le (act : Act o g self call w w') : w.next ≤ w'.next := by
  cases act with
  | through h _ ht => exact Nat.le_of_eq ht.next.symm
  | refused _ _ _ hnext _ => exact Nat.le_of_eq hnext.symm
  | began _ _ hm _ => exact hm.next ▸ Nat.le_succ _
  | cloned _ _ hm _ => exact hm.next ▸ Nat.le_succ _
  | tooOld _ _ _ _ hnext _ => exact Nat.le_of_eq hnext.symm
  | amended _ _ _ hm _ _ => exact hm.next ▸ Nat.le_succ _

theorem Act.fresh (known : w.Known) (act : Act o g self call w w')
    (huses : ∀ h ∈ w.uses g call, h < w.next) {k : Handle} (hk : w'.next ≤ k) :
    (w'.txns k).ptr = none := by
  have hle := act.next_le.trans hk
  have hold := known.fresh k hle
  have hmade : ∀ p, Made self p w w' → k ≠ w.next := fun p hm =>
    Nat.ne_of_gt (Nat.lt_of_lt_of_le (hm.next ▸ Nat.lt_succ_self w.next) hk)
  cases act with
  | through h hh ht =>
    have hne : k ≠ h := Nat.ne_of_gt (Nat.lt_of_lt_of_le (huses h hh) (ht.next ▸ hk))
    rwa [ht.others k hne]
  | refused _ _ htxns _ _ => rwa [htxns]
  | began _ _ hm hother => rwa [hother k (hmade _ hm)]
  | cloned _ _ hm hother => rwa [hother k (hmade _ hm)]
  | tooOld _ _ _ htxns _ _ => rwa [htxns]
  | amended _ hwait _ hm hother _ =>
    obtain ⟨f, fs, hframes, _, rfl, _⟩ := hwait
    have hlt := known.frames g f (hframes ▸ List.mem_cons_self)
    have hne : k ≠ f.txn := Nat.ne_of_gt (Nat.lt_of_lt_of_le hlt hle)
    rwa [hother k (hmade _ hm) hne]

theorem Stacked.other {g' : Gor} (hs : Stacked g call w w') (hg : g' ≠ g) :
    w'.frames g' = w.frames g' := by
  cases hs with
  | same hsame => rw [hsame]
  | pushed _ hpush => rw [hpush, Function.update_of_ne hg]
  | popped _ _ hpop => rw [hpop, Function.update_of_ne hg]

/-- An entry on a stack after a call was there before, or the call has made it. -/
theorem Stacked.mem {g' : Gor} {f : Frame} (hs : Stacked g call w w') (hf : f ∈ w'.frames g') :
    f ∈ w.frames g' ∨ ∃ kind h, Pushes (g := g) w w' call kind h ∧ f.kind = kind ∧ f.txn = h ∧
      f.ptr = (w'.txns h).ptr ∧ f.snapshot = w'.lib.snapshot (w'.txns h).ptr := by
  by_cases hg : g' = g
  · subst hg
    cases hs with
    | same hsame => exact .inl (hsame ▸ hf)
    | @pushed kind h hp hpush =>
      rw [hpush, Function.update_self] at hf
      rcases List.mem_cons.mp hf with rfl | hf
      · exact .inr ⟨kind, h, hp, rfl, rfl, rfl, rfl⟩
      · exact .inl hf
    | popped hframes _ hpop =>
      rw [hpop, Function.update_self] at hf
      exact .inl (hframes ▸ List.mem_cons_of_mem _ hf)
  · exact .inl (hs.other hg ▸ hf)

theorem Pushes.known {kind : FrameKind} (act : Act o g self call w w')
    (hcall : ∀ h ∈ call.handles, h < w.next) (hp : Pushes (g := g) w w' call kind h) :
    h < w'.next := by
  cases hp with
  | amend _ _ _ => exact Nat.lt_of_lt_of_le (hcall h (by simp [Call.handles])) act.next_le
  | keep _ => exact Nat.lt_of_lt_of_le (hcall h (by simp [Call.handles])) act.next_le
  | term _ _ => exact Nat.lt_of_lt_of_le (hcall h (by simp [Call.handles])) act.next_le
  | run hnext _ => exact hnext
  | sub hnext _ => exact hnext

theorem exec_known (ok : w.lib.Ok) (known : w.Known) (hcall : ∀ h ∈ call.handles, h < w.next)
    {r : World × Reply} (hr : w.exec o g self call = some r) : r.1.Known := by
  have act := exec_act ok hr
  have hs := exec_stacked hr
  refine ⟨fun k hk => act.fresh known (known.uses hcall) hk, ?_, ?_, ?_⟩
  · intro g' f hf
    rcases hs.mem hf with hf | ⟨kind, h, hp, _, rfl, _⟩
    · exact Nat.lt_of_lt_of_le (known.frames g' f hf) act.next_le
    · exact hp.known act hcall
  · intro g' f hf flags hkind
    rcases hs.mem hf with hf | ⟨kind, h, hp, rfl, rfl, hptr, _⟩
    · obtain ⟨a, ha, honly⟩ := known.amending g' f hf flags hkind
      exact ⟨a, ha, act.onlyReader (known.frames g' f hf) honly⟩
    · rw [hkind] at hp
      cases hp with
      | @amend _ _ a _ htxns hreader =>
        rw [← htxns] at hreader
        refine ⟨a, hptr.trans hreader, fun p hp => ?_⟩
        rw [hreader] at hp
        exact (Option.some.inj hp).symm
  · intro hstrict k hk
    rw [act.strict] at hstrict
    by_cases hold : k < w.next
    · rw [(act.bound hold).1, (act.bound hold).2]
      exact known.bound hstrict k hold
    · obtain ⟨rfl, p, hm⟩ := act.made hk hold
      rw [hm.tid hstrict, hm.begun]

theorem step_known {e : Event} {r : World × Reply} (ok : w.lib.Ok) (known : w.Known)
    (hr : w.step e = some r) : r.1.Known := by
  rcases step_cases hr with ⟨g, self, o, call, _, hcall, _, hexec⟩ | ⟨a, x, _, _, rfl⟩ |
    ⟨txnid, changes, _, _, _, _, rfl⟩ | ⟨_, rfl⟩
  · exact exec_known ok known hcall hexec
  · exact ⟨known.fresh, known.frames, known.amending, known.bound⟩
  · exact ⟨known.fresh, known.frames, known.amending, known.bound⟩
  · exact ⟨known.fresh, known.frames, known.amending, known.bound⟩

theorem init_known (h : system.init w) : w.Known := by
  obtain ⟨_, htxns, hframes, _⟩ := h
  constructor
  · simp [htxns]
  · simp [hframes]
  · simp [hframes]
  · simp [htxns]

/-- libmdbx stays well formed, and a program names only the `Txn` values that it made. -/
theorem sane_invariant (ok : World → Event → Prop) :
    system.Invariant ok fun w => w.lib.Ok ∧ w.Known :=
  (ok_invariant ok).strengthen (fun _ h => init_known h) fun _ _ _ hok _ known _ hstep => by
    obtain ⟨r, hr, rfl⟩ := Option.map_eq_some_iff.mp hstep
    exact step_known hok known hr

end World

end MdbxGo
