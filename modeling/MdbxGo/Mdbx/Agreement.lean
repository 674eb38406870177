import MdbxGo.Mdbx.Coherence

/-! Every `Txn` agrees with libmdbx about its transaction in the runs of a program: what `ID`
returns is what `mdbx_txn_id` reports, and a parked reader is marked as parked. -/

namespace MdbxGo

namespace World

open MdbxEnv

variable {w w' : World} {o : Sys} {g : Gor} {self : Thread} {call : Call} {h k : Handle}
  {p : Ptr} {marked : Bool}

/-! ### Calls that go over from one transaction to another -/

/-- `CloneInto`, for its target. -/
theorem cloneInto_coherent {target : Handle}
    (sound : w.CrossSound (.go g self o (.cloneInto h target)))
    (hc : (w.txns target).Coherent marked w.lib) {r : World × Reply}
    (hr : w.cloneInto o target h = some r) : (r.1.txns target).Coherent marked r.1.lib := by
  unfold cloneInto at hr
  dsimp only at hr
  split at hr
  · cases hr
    exact hc
  · rename_i hreadonly
    split at hr
    · cases hr
      exact hc
    · rename_i a hp
      obtain ⟨t, ht, rfl⟩ := Option.map_eq_some_iff.mp hr
      obtain ⟨hfails, hclones⟩ :=
        sound.2.1 (h, target) rfl (by simpa using hreadonly) _ hp a rfl t ht
      have hfatal : (w.lib.mdbxTxnCloneInto o (w.txns h).ptr a t).1.fatal = w.lib.fatal := by
        obtain ⟨x, hx, _⟩ := mdbxTxnCloneInto_reader o w.lib a t (w.txns h).ptr
        rw [hx]
        rfl
      have hreader : ∀ x : Txn, x.ptr = (w.txns target).ptr →
          (∀ s, (w.lib.mdbxTxnCloneInto o (w.txns h).ptr a t).1.readers a = some s →
            x.Agrees marked w.lib.fatal s) →
          x.Coherent marked (w.lib.mdbxTxnCloneInto o (w.txns h).ptr a t).1 := by
        intro x hptr hagree
        refine ⟨fun s hs => ?_, fun hs => ?_⟩
        · rw [hptr, hp] at hs
          rw [hfatal]
          exact hagree s hs
        · obtain ⟨y, hy, _⟩ := mdbxTxnCloneInto_reader o w.lib a t (w.txns h).ptr
          rw [hptr, hp, hy] at hs
          have hs : some y = none := (setReader_self _ _ _).symm.trans hs
          cases hs
      split
      · rename_i hcode
        refine hreader _ rfl fun s hs => ?_
        rcases mdbxTxnCloneInto_spec hs with ⟨_, hnot, hfin, _⟩ | ⟨hsuccess, _⟩
        · refine ⟨?_, fun hparked => ?_⟩
          · rcases hfails hnot with hzero | hnoted
            · exact .inl hzero
            · exact .inr (.inr ⟨hnoted, hfin⟩)
          · rw [ReadTxn.isParked_of_finished hfin] at hparked
            cases hparked
        · simp [hsuccess] at hcode
      · rename_i hcode
        rw [setTxn_self]
        refine hreader _ rfl fun s hs => .of_zero rfl fun hparked => .inl ?_
        rcases mdbxTxnCloneInto_spec hs with ⟨hne, _⟩ | ⟨_, hparks⟩
        · exact absurd (by simpa using hcode) hne
        · obtain ⟨hparks, hready⟩ := hparks hparked
          exact hclones hready hparks
    · cases hr

/-- `Amend` up to the lock. -/
theorem amend_coherent {flags : UInt32} (sound : w.CrossSound (.go g self o (.amend h flags)))
    (hc : (w.txns h).Coherent marked w.lib) :
    ((w.amend o g self flags h).1.txns h).Coherent marked (w.amend o g self flags h).1.lib := by
  refine unmanaged_coherent hc fun hmanaged => ?_
  split
  · exact hc
  · rename_i hreadonly
    split
    · exact hc
    · rename_i hmis
      have hpermit :
          ((w.txns h).managed || !(w.txns h).readonly || w.mismatched self h) = false := by
        simpa [hmanaged, hmis] using hreadonly
      have hstart :
          (w.txns h).Coherent marked (w.lib.amendStart o self flags (w.txns h).ptr).1 := by
        cases hp : (w.txns h).ptr with
        | none => exact hc
        | some p =>
          have hlocal : Local p w.lib (w.lib.amendStart o self flags (some p)).1 :=
            amendStart_local flags p
          refine ⟨fun s hs => ?_, fun hs => ?_⟩
          · rw [hlocal.fatal]
            rw [hp] at hs
            cases p with
            | basal => cases hs
            | nested a => cases hs
            | reader a =>
              cases hr : w.lib.readers a with
              | none =>
                rw [hlocal.reader_none hr] at hs
                have hs : w.lib.readers a = some s := hs
                rw [hr] at hs
                cases hs
              | some r =>
                have hagree := hc.reader r (by rw [hp]; exact hr)
                rcases amendStart_reader hr hs with rfl | ⟨hparks, hfin, _, htxnid⟩
                · exact hagree
                · have hnoted := sound.2.2.1 (h, flags) rfl hpermit r (by rw [hp]; exact hr) hparks
                  refine ⟨?_, fun _ => .inl hnoted⟩
                  rw [htxnid]
                  rcases hagree.id with hzero | hsame | ⟨_, hended⟩
                  · exact .inl hzero
                  · exact .inr (.inl hsame)
                  · rw [hfin] at hended
                    cases hended
          · rw [hp] at hs
            obtain ⟨hnone, hsame⟩ := hlocal.readerAt_none hs
            rw [hp, hsame]
            rw [← hp]
            exact hc.other (hp ▸ hnone)
      dsimp only
      split <;> exact hstart

/-- `Amend` from the lock on, for the `Txn` that it is about. -/
theorem amendLocked_coherent (ok : w.lib.Ok) (known : w.Known)
    (sound : w.CrossSound (.go g self o .amendLocked)) {f : Frame} {fs : List Frame}
    (hframes : w.frames g = f :: fs) (hc : (w.txns f.txn).Coherent marked w.lib)
    {r : World × Reply} (hr : w.amendLocked o g self = some r) :
    (r.1.txns f.txn).Coherent marked r.1.lib := by
  have hsound := sound.2.2.2 rfl f (by simp [hframes])
  have hlt := known.frames g f (hframes ▸ List.mem_cons_self)
  unfold World.amendLocked at hr
  rw [hframes] at hr
  split at hr
  · rename_i flags h a snapshot rest heq
    obtain ⟨rfl, rfl⟩ := List.cons.inj heq
    obtain ⟨c, hx, rfl⟩ := Option.map_eq_some_iff.mp hr
    obtain ⟨b, hb, honly⟩ := known.amending g _ (hframes ▸ List.mem_cons_self) flags rfl
    cases hb
    obtain ⟨old, hold⟩ := amendLocked_reader hx
    have ham := amendLocked_amended ok hx
    have hend := amendLocked_end ok hold hx
    have hptr : (w.txns h).ptr = none ∨ (w.txns h).ptr = some (.reader a) := by
      cases hp : (w.txns h).ptr with
      | none => exact .inl rfl
      | some p => exact .inr (by rw [honly p hp])
    dsimp only at hsound hlt ⊢
    have hfatal : w.lib.fatal = true → c.1.fatal = true := by
      generalize c.2.2 = ptr at ham
      cases ham with
      | refused _ href hlocal => exact fun hf => hlocal.fatal.trans (href.rest.fatal.trans hf)
      | started _ hst hlib _ _ _ => exact fun hf => by rw [hlib]; exact hst.rest.fatal.trans hf
    split
    · rename_i hcode
      change (w.txns h).Coherent marked c.1
      rcases hptr with hnull | hp
      · refine Txn.coherent_of_zero (hc.id_of_null hnull) fun s hs => ?_
        rw [hnull] at hs
        cases hs
      · have hagree := hc.reader old (by rw [hp]; exact hold)
        have hread : ∀ s, c.1.readers a = some s → (w.txns h).Agrees marked c.1.fatal s := by
          intro s hs
          generalize c.2.2 = ptr at hend
          cases hend with
          | failed _ _ hsame _ _ =>
            rw [hsame] at hs
            cases hs
            exact ⟨hagree.id, fun hparked => (hagree.parked hparked).imp_right
              fun ⟨hm, hf⟩ => ⟨hm, hfatal hf⟩⟩
          | broken ready hmismatch _ hreset =>
            rw [hreset] at hs
            cases hs
            refine ⟨?_, fun hparked => ?_⟩
            · rcases hsound old (by rw [hp]; exact hold) ready hmismatch with hzero | hnoted
              · exact .inl hzero
              · exact .inr (.inr ⟨hnoted, rfl⟩)
            · rw [ReadTxn.isParked_of_finished rfl] at hparked
              cases hparked
          | started _ _ hsuccess _ _ _ => simp [hsuccess] at hcode
        refine ⟨fun s hs => hread s (by rwa [hp] at hs), fun hs => ?_⟩
        -- a reader that is gone has been given up with its `Txn`
        generalize c.2.2 = ptr at hend
        rw [hp] at hs
        have hs : c.1.readers a = none := hs
        cases hend with
        | failed _ _ hsame _ _ =>
          rw [hsame] at hs
          cases hs
        | broken _ _ _ hreset =>
          rw [hreset] at hs
          cases hs
        | started _ _ hsuccess _ _ _ => simp [hsuccess] at hcode
    · rename_i hcode
      have hself : ∀ x y : Txn,
        ((({ w with lib := c.1 }.pop g).setTxn h x).create c.1 y).txns h = x :=
        fun x y => (Function.update_of_ne (Nat.ne_of_lt hlt) _ _).trans (setTxn_self _ _ _)
      rw [hself]
      change Txn.Coherent marked c.1 _
      split
      · exact Txn.coherent_clearTxn _
      · refine Txn.coherent_of_zero rfl fun s hs hparked => ?_
        rw [Txn.resetID_ptr] at hs
        rcases hptr with hnull | hp
        · rw [hnull] at hs
          cases hs
        · rw [hp] at hs
          have hs : c.1.readers a = some s := hs
          generalize c.2.2 = ptr at hend
          cases hend with
          | failed _ hne _ _ _ => exact absurd (by simpa using hcode) hne
          | broken _ _ hne _ => exact absurd (by simpa using hcode) hne
          | started _ _ _ _ _ hreset =>
            rw [hreset] at hs
            split at hs
            · cases hs
              rw [ReadTxn.isParked_of_finished rfl] at hparked
              cases hparked
            · cases hs
  · cases hr

/-! ### Steps -/

/-- A new `Txn` remembers nothing. -/
theorem Made.coherent (hm : Made self p w w')
    (hparked : ∀ a r, p = .reader a → w'.lib.readers a = some r → r.isParked = false) :
    (w'.txns w.next).Coherent marked w'.lib := by
  refine Txn.coherent_of_zero hm.id fun r hr hp => ?_
  rw [hm.ptr] at hr
  cases p with
  | basal => cases hr
  | nested a => cases hr
  | reader a =>
    rw [hparked a r rfl hr] at hp
    cases hp

theorem Opens.coherent {parent : Option Handle} (sane : w.Sane)
    (undisturbed : w.Undisturbed (.go g self o call))
    (ho : Opens self parent (w.beginsBasal call) w w')
    (all : ∀ k < w.next, (w.txns k).Coherent marked w.lib) :
    ∀ k < w'.next, (w'.txns k).Coherent marked w'.lib := by
  obtain ⟨⟨code, ptr, hbegan, hend⟩, hother, hbasal⟩ := ho
  have hold : ∀ k < w.next, (w'.txns k).Coherent marked w'.lib := by
    intro k hk
    refine (Began.apart hbegan sane ?_ (hother k (Nat.ne_of_lt hk))).coherent (all k hk)
    cases hb : w.beginsBasal call with
    | false => exact .inl (hbasal hb)
    | true => exact .inr fun hfin => undisturbed.2.2 hb hfin k hk
  intro k hk
  rcases hend with hnext | ⟨p, rfl, hm⟩
  · exact hold k (hnext ▸ hk)
  · rw [hm.next] at hk
    rcases Nat.lt_succ_iff_lt_or_eq.mp hk with hk | rfl
    · exact hold k hk
    · refine hm.coherent fun a r hp hr => ?_
      subst hp
      cases hbegan with
      | reader _ _ _ hparked hlib =>
        rw [hlib] at hr
        have hr : some _ = some r := (setReader_self _ _ _).symm.trans hr
        rw [← Option.some.inj hr]
        exact ReadTxn.isParked_of_unparked hparked

theorem clone_coherent (separate : w.Separate) (sound : w.CrossSound (.go g self o (.clone h)))
    (all : ∀ k < w.next, (w.txns k).Coherent marked w.lib) :
    ∀ k < (w.clone o self h).1.next,
      ((w.clone o self h).1.txns k).Coherent marked (w.clone o self h).1.lib := by
  intro k hk
  have hparks := @mdbxTxnClone_parks w.lib o (w.txns h).ptr w.next
  unfold clone at hk ⊢
  dsimp only at hk ⊢
  rcases mdbxTxnClone_cases (o := o) w.next (w.txns h).ptr w.lib with ⟨hcode, hlib⟩ |
    ⟨r, hcode, _, hlib, hptr⟩
  · rw [if_pos (by simpa using hcode)] at hk ⊢
    rw [hlib]
    exact all k hk
  · rw [if_neg (by simpa using hcode)] at hk ⊢
    rcases Nat.lt_succ_iff_lt_or_eq.mp hk with hk | rfl
    · refine Apart.coherent (apart_allocReader separate hlib ?_) (all k hk)
      exact Function.update_of_ne (Nat.ne_of_lt hk) _ _
    · refine @Made.coherent w _ self (.reader w.lib.brk) _ ?_ fun a s ha hs => ?_
      · constructor <;> simp +contextual [create, setTxn, hptr]
      · cases ha
        by_contra hparked
        obtain ⟨hclone, halloc⟩ := hparks hcode hs (by simpa using hparked)
        rw [sound.1 h rfl halloc] at hclone
        cases hclone

/-- The `Txn` that an `Amend` makes is the top-level writer. -/
theorem amendLocked_ptr (ok : w.lib.Ok) {r : World × Reply} (hr : w.amendLocked o g self = some r)
    (hnew : w.next < r.1.next) : (r.1.txns w.next).ptr = some .basal := by
  unfold World.amendLocked at hr
  split at hr
  · obtain ⟨c, hc, rfl⟩ := Option.map_eq_some_iff.mp hr
    have ham := amendLocked_amended ok hc
    dsimp only at hnew ⊢
    split
    · rename_i hcode
      rw [if_pos hcode] at hnew
      exact absurd hnew (Nat.lt_irrefl _)
    · rename_i hcode
      have hptr : c.2.2 = some .basal := by
        generalize c.2.2 = ptr at ham
        cases ham with
        | refused hne _ _ => simp [hne] at hcode
        | started _ _ _ _ _ _ => rfl
      simp [create, setTxn, pop, hptr]
  · cases hr

/-- The rest of an `Amend` leaves every `Txn` alone but the one that it is about. -/
theorem amendLocked_apart {watched : Txn → Bool} (sane : w.Sane)
    (spared : w.Spared watched (.go g self o .amendLocked)) (hk : k < w.next) {r : World × Reply}
    (hr : w.amendLocked o g self = some r) :
    (∃ f fs, w.frames g = f :: fs ∧ k = f.txn) ∨ Apart watched k w r.1 := by
  have hbasal := fun hfin => spared.2.2 rfl hfin k hk
  have hother : ∀ {f : Frame} {fs : List Frame} {a : Addr} {flags : UInt32},
      w.frames g = f :: fs → f.kind = .amending flags → f.ptr = some (.reader a) → k ≠ f.txn →
      (w.txns k).ptr ≠ some (.reader a) := by
    intro f fs a flags hframes hkind hptr hk hka
    exact hk
      ((sane.separate.amending g f (hframes ▸ List.mem_cons_self) flags a hkind hptr).2 k hka)
  cases amendLocked_act sane.ok hr with
  | through h hh _ => cases hh
  | refused ho _ _ _ _ => cases ho
  | began ho _ _ _ => cases ho
  | cloned _ _ hm _ =>
    have hptr := amendLocked_ptr sane.ok hr (hm.next ▸ Nat.lt_succ_self w.next)
    rw [hm.ptr] at hptr
    cases hptr
  | tooOld _ hwait ham htxns _ _ =>
    obtain ⟨f, fs, hframes, hkind, rfl, hptr⟩ := hwait
    by_cases hkf : k = f.txn
    · exact .inl ⟨f, fs, hframes, hkf⟩
    · exact .inr (Amended.apart ham hbasal (hother hframes hkind hptr hkf) (by rw [htxns]))
  | amended _ hwait ham _ hsame _ =>
    obtain ⟨f, fs, hframes, hkind, rfl, hptr⟩ := hwait
    by_cases hkf : k = f.txn
    · exact .inl ⟨f, fs, hframes, hkf⟩
    · exact .inr (Amended.apart ham hbasal (hother hframes hkind hptr hkf)
        (hsame k (Nat.ne_of_lt hk) hkf))

/-- The rest of an `Amend`, for every `Txn`. -/
theorem exec_amendLocked_coherent (sane : w.Sane)
    (undisturbed : w.Undisturbed (.go g self o .amendLocked))
    (hcross : w.CrossSound (.go g self o .amendLocked))
    (all : ∀ k < w.next, (w.txns k).Coherent marked w.lib) {r : World × Reply}
    (hr : w.amendLocked o g self = some r) :
    ∀ k < r.1.next, (r.1.txns k).Coherent marked r.1.lib := by
  intro k hk
  by_cases hold : k < w.next
  · rcases amendLocked_apart sane undisturbed hold hr with ⟨f, fs, hframes, rfl⟩ | apart
    · exact amendLocked_coherent sane.ok sane.known hcross hframes (all _ hold) hr
    · exact apart.coherent (all k hold)
  · obtain ⟨rfl, p, hm⟩ := (amendLocked_act sane.ok hr).made hk hold
    refine hm.coherent fun a r' hp _ => ?_
    have hptr := amendLocked_ptr sane.ok hr hk
    rw [hm.ptr, hp] at hptr
    cases hptr

/-- A call of a goroutine keeps every `Txn` coherent. -/
theorem exec_coherent (sane : w.Sane)
    (hunpark : w.UnparkSound (.go g self o call)) (undisturbed : w.Undisturbed (.go g self o call))
    (hseen : marked = true → w.ParkSeen (.go g self o call))
    (hcross : w.CrossSound (.go g self o call))
    (all : ∀ k < w.next, (w.txns k).Coherent marked w.lib) {r : World × Reply}
    (hr : w.exec o g self call = some r) :
    ∀ k < r.1.next, (r.1.txns k).Coherent marked r.1.lib := by
  have through : ∀ {h : Handle} {w' : World}, Through o g self call h w w' →
      ((w.txns h).Coherent marked w.lib → (w'.txns h).Coherent marked w'.lib) →
      ∀ k < w'.next, (w'.txns k).Coherent marked w'.lib := by
    intro h w' ht hself k hk
    have hk : k < w.next := ht.next ▸ hk
    by_cases heq : k = h
    · subst heq
      exact hself (all k hk)
    · exact (ht.apart sane undisturbed hk heq).coherent (all k hk)
  cases call with
  | beginTxn parent flags => exact (exec_opens sane.ok rfl hr).coherent sane undisturbed all
  | runTxn flags => exact (exec_opens sane.ok rfl hr).coherent sane undisturbed all
  | sub h => exact (exec_opens sane.ok rfl hr).coherent sane undisturbed all
  | id h =>
    cases hr
    exact through (id_through h) id_coherent
  | get h =>
    cases hr
    exact through (get_through h) get_coherent
  | put h change =>
    cases hr
    exact through (put_through change h) (put_coherent change)
  | commit h =>
    cases hr
    refine through (through_unmanaged fun hm => commitTxn_through (.inl rfl) rfl rfl fun hw => by
      simp [refuses, hm, hw]) fun hc => ?_
    exact unmanaged_coherent hc fun _ => commitTxn_coherent hc
  | abort h =>
    cases hr
    refine through (through_unmanaged fun hm => abortTxn_through (.inl rfl) rfl fun hw => by
      simp [refuses, hm, hw]) fun hc => ?_
    exact unmanaged_coherent hc fun _ => abortTxn_coherent hc
  | reset h =>
    cases hr
    refine through (through_unmanaged fun _ => resetTxn_through h) fun hc => ?_
    exact unmanaged_coherent hc fun hm => resetTxn_coherent hc fun hmarked =>
      (hseen hmarked).1 h rfl hm
  | renew h =>
    cases hr
    refine through (through_unmanaged fun _ => renewTxn_through h) fun hc => ?_
    exact unmanaged_coherent hc fun hm => renewTxn_coherent hc fun hmarked =>
      (hseen hmarked).1 h rfl hm
  | refresh h =>
    cases hr
    exact through (refresh_through h) refresh_coherent
  | park h autounpark =>
    cases hr
    exact through (park_through autounpark h) (park_coherent autounpark)
  | unpark h restart =>
    cases hr
    refine through (unpark_through restart h) fun hc => ?_
    exact unpark_coherent restart hc (hunpark (h, restart) rfl) fun hm hmarked =>
      (hseen hmarked).2 (h, restart) rfl hm
  | checkpoint h flags => exact through (checkpoint_through hr) fun hc => checkpoint_coherent hc hr
  | commitEmbarkRead h =>
    exact through (commitEmbarkRead_through hr) fun hc => commitEmbarkRead_coherent hc hr
  | rollback h => exact through (rollback_through hr) fun hc => rollback_coherent hc hr
  | amend h flags =>
    cases hr
    exact through (amend_through flags h) (amend_coherent hcross)
  | cloneInto h target =>
    exact through (cloneInto_through hr) fun hc => cloneInto_coherent hcross hc hr
  | runOp h terminate =>
    cases hr
    exact through (runOpEither_through terminate h) (runOpEither_coherent terminate)
  | finish res =>
    obtain ⟨f, fs, hframes, hthrough⟩ := finish_through hr
    exact through hthrough fun hc => finish_coherent hframes hc hr
  | clone h =>
    cases hr
    exact clone_coherent sane.separate hcross all
  | amendLocked => exact exec_amendLocked_coherent sane undisturbed hcross all hr

/-- A writer that ousts readers leaves every `Txn` coherent. -/
theorem oust_coherent {a : Addr} {x : ReadTxn} (hx : w.lib.readers a = some x)
    (hc : (w.txns k).Coherent marked w.lib) :
    (w.txns k).Coherent marked (w.lib.setReader a (some x.oust)) := by
  cases hp : (w.txns k).ptr with
  | none =>
    refine Txn.coherent_of_zero (hc.id_of_null hp) fun r hr => ?_
    rw [hp] at hr
    cases hr
  | some q =>
    by_cases hqa : q = .reader a
    · subst hqa
      refine ⟨fun r hr => ?_, fun hr => ?_⟩
      · rw [hp] at hr
        have hr : some _ = some r := (setReader_self _ _ _).symm.trans hr
        rw [← Option.some.inj hr]
        exact (hc.reader x (by rw [hp]; exact hx)).alike x.oust_alike
      · rw [hp] at hr
        have hr : some _ = none := (setReader_self _ _ _).symm.trans hr
        cases hr
    · have apart : Apart remembers k w { w with lib := w.lib.setReader a (some x.oust) } := by
        refine ⟨rfl, fun b hb => setReader_other ?_ _,
          fun _ _ _ => stampAt_of_txnAt (txnAt_setReader _ _ _ _), fun hf => hf⟩
        rintro rfl
        rw [hp] at hb
        exact hqa (Option.some.inj hb)
      exact apart.coherent hc

/-- A step keeps every `Txn` coherent. -/
theorem step_coherent (sane : w.Sane) {e : Event}
    (hunpark : w.UnparkSound e) (undisturbed : w.Undisturbed e)
    (hseen : marked = true → w.ParkSeen e) (hcross : w.CrossSound e)
    (all : ∀ k < w.next, (w.txns k).Coherent marked w.lib) {r : World × Reply}
    (hr : w.step e = some r) : ∀ k < r.1.next, (r.1.txns k).Coherent marked r.1.lib := by
  rcases step_cases hr with ⟨g, self, o, call, rfl, _, _, hexec⟩ | ⟨a, x, _, hx, rfl⟩ |
    ⟨txnid, changes, _, _, _, _, rfl⟩ | ⟨_, rfl⟩
  · exact exec_coherent sane hunpark undisturbed hseen hcross all hexec
  · exact fun k hk => oust_coherent hx (all k hk)
  · exact fun k hk => Apart.coherent (w := w)
      ⟨rfl, fun _ _ => rfl, fun _ q _ => by cases q <;> rfl, fun hf => hf⟩ (all k hk)
  · exact fun k hk => Apart.coherent (w := w)
      ⟨rfl, fun _ _ => rfl, fun _ q _ => by cases q <;> rfl, fun _ => rfl⟩ (all k hk)

/-- Every `Txn` is coherent in the runs whose steps are sound. -/
theorem coherent_invariant {sound : World → Event → Prop}
    (hunpark : ∀ w e, sound w e → w.UnparkSound e)
    (undisturbed : ∀ w e, sound w e → w.Undisturbed e)
    (hseen : marked = true → ∀ w e, sound w e → w.ParkSeen e)
    (hcross : ∀ w e, sound w e → w.CrossSound e) :
    system.Invariant sound fun w => w.Sane ∧ ∀ k < w.next, (w.txns k).Coherent marked w.lib := by
  refine (sane_of_runs sound).strengthen ?_ ?_
  · intro w h k hk
    rw [h.1] at hk
    exact absurd hk (Nat.not_lt_zero k)
  · intro w e w' sane _ all hsound hstep
    obtain ⟨r, hr, rfl⟩ := Option.map_eq_some_iff.mp hstep
    exact step_coherent sane (hunpark w e hsound) (undisturbed w e hsound)
      (fun hm => hseen hm w e hsound) (hcross w e hsound) all hr

/-! ### The id that a `Txn` remembers -/

/-- The event stays with one transaction: it is no `Clone`, `CloneInto` or `Amend`. -/
def Plain : Event → Prop
  | .go _ _ _ call => call.crosses = false
  | _ => True

instance : (e : Event) → Decidable (Plain e)
  | .go _ _ _ call => inferInstanceAs (Decidable (call.crosses = false))
  | .oust _ | .foreignCommit _ _ | .fatal => .isTrue trivial

theorem crossSound_of_plain {e : Event} (h : Plain e) : w.CrossSound e := by
  cases e with
  | go g self o call =>
    cases call with
    | amend h flags => cases h
    | amendLocked => cases h
    | clone h => cases h
    | cloneInto h target => cases h
    | _ =>
      refine ⟨?_, ?_, ?_, ?_⟩
      · rintro x ⟨⟩
      · rintro x ⟨⟩
      · rintro x ⟨⟩
      · rintro ⟨⟩
  | _ => trivial

/-- What keeps the id that a `Txn` remembers up to date. -/
def IdSound (w : World) (e : Event) : Prop := Plain e ∧ w.UnparkSound e ∧ w.Undisturbed e

instance (w : World) (e : Event) : Decidable (w.IdSound e) :=
  inferInstanceAs (Decidable (Plain e ∧ w.UnparkSound e ∧ w.Undisturbed e))

/-- In a run whose unparks are sound, `ID` returns what `mdbx_txn_id` reports of the transaction
that its `Txn` points to, whatever was ousted and however the calls of libmdbx ended. -/
theorem ids_coherent (run : system.Reaches (fun w e => w.IdSound e) w) (hk : k < w.next) :
    w.idOf k = w.getID k := by
  have inv : system.Invariant (fun w e => w.IdSound e) _ :=
    @coherent_invariant false _ (fun _ _ h => h.2.1) (fun _ _ h => h.2.2)
      (fun hm => by cases hm) fun _ _ h => crossSound_of_plain h.1
  exact idOf_eq_getID ((run.invariant inv).2 k hk)

/-- A read resets a parked reader that was ousted, the unpark that follows fails, and the `Txn` is
no longer marked as parked but still remembers its id. -/
theorem id_outlives_snapshot : ¬ ∀ w : World, system.Reaches (fun _ e => Plain e) w →
    ∀ k < w.next, w.idOf k = w.getID k := by
  intro hcoherent
  obtain ⟨w, run, hw⟩ := Transition.System.exists_of_replay system (fun _ e => Plain e)
    [.go 0 0 {} (.beginTxn none txnRdonly), .go 0 0 {} (.id 0),
      .go 0 0 {} (.park 0 true), .oust 1, .go 0 0 {} (.get 0), .go 0 0 {} (.unpark 0 false)] {}
    (fun w => w.next == 1 && w.idOf 0 != w.getID 0)
    ⟨rfl, rfl, rfl, rfl, rfl, rfl, by decide⟩ (by decide +kernel)
  simp only [Bool.and_eq_true, beq_iff_eq, bne_iff_ne] at hw
  exact hw.2 (hcoherent w run 0 (hw.1 ▸ Nat.one_pos))

theorem ids_coherent_ousted : ∃ w : World, (w.txns 0).parked = false ∧ w.lib.recent = 2 ∧
    w.getID 0 = 2 ∧ w.idOf 0 = w.getID 0 := by
  obtain ⟨w, run, hw⟩ := Transition.System.exists_of_replay system (fun w e => w.IdSound e)
    [.go 0 0 {} (.beginTxn none txnRdonly), .go 0 0 {} (.id 0),
      .go 0 0 {} (.park 0 true), .foreignCommit 2 [], .oust 1, .go 0 0 {} (.unpark 0 true),
      .go 0 0 {} (.id 0)] {}
    (fun w => w.next == 1 && (w.txns 0).parked == false && w.lib.recent == 2 && w.getID 0 == 2)
    ⟨rfl, rfl, rfl, rfl, rfl, rfl, by decide⟩ (by decide +kernel)
  simp only [Bool.and_eq_true, beq_iff_eq] at hw
  obtain ⟨⟨⟨hnext, hparked⟩, hrecent⟩, hid⟩ := hw
  exact ⟨w, hparked, hrecent, hid, ids_coherent run (hnext ▸ Nat.one_pos)⟩

/-! ### Clones -/

/-- Every `Txn` agrees with libmdbx: `ID` returns what `mdbx_txn_id` reports, and it is marked as
parked when its transaction is. -/
def Agreed (w : World) : Prop :=
  ∀ k < w.next, w.idOf k = w.getID k ∧
    ∀ r ∈ w.lib.readerAt (w.txns k).ptr, r.isParked = true → (w.txns k).parked = true

instance (w : World) : Decidable w.Agreed :=
  inferInstanceAs (Decidable (∀ k < w.next, w.idOf k = w.getID k ∧
    ∀ r ∈ w.lib.readerAt (w.txns k).ptr, r.isParked = true → (w.txns k).parked = true))

/-- What keeps the `Txn` values in agreement with libmdbx, clones and amendments included. -/
def Sound (w : World) (e : Event) : Prop :=
  w.UnparkSound e ∧ w.Undisturbed e ∧ w.ParkSeen e ∧ w.CrossSound e

instance (w : World) (e : Event) : Decidable (w.Sound e) :=
  inferInstanceAs (Decidable (w.UnparkSound e ∧ w.Undisturbed e ∧ w.ParkSeen e ∧ w.CrossSound e))

/-- In a run whose steps are sound every `Txn` agrees with libmdbx, the origin and the target of a
`Clone` or `CloneInto` among them, and so it stays. -/
theorem clones_agreed (run : system.Reaches (fun w e => w.Sound e) w) : w.Agreed := by
  have inv : system.Invariant (fun w e => w.Sound e) _ :=
    @coherent_invariant true _ (fun _ _ h => h.1) (fun _ _ h => h.2.1)
      (fun _ _ _ h => h.2.2.1) fun _ _ h => h.2.2.2
  intro k hk
  have hc := (run.invariant inv).2 k hk
  refine ⟨idOf_eq_getID hc, fun r hr hparked => ?_⟩
  rcases (hc.reader r hr).parked hparked with hnoted | ⟨hno, _⟩
  · exact hnoted
  · cases hno

/-- The clone of a parked reader is parked, and the new `Txn` is not marked. -/
theorem clone_unmarked : ¬ ∀ (w : World) (g : Gor) (self : Thread) (o : Sys) (h : Handle)
    (r : World × Reply), system.Reachable w → w.Agreed →
    w.step (.go g self o (.clone h)) = some r → r.1.Agreed := by
  intro hagreed
  obtain ⟨w, run, hw⟩ := Transition.System.exists_of_replay system (fun _ _ => True)
    [.go 0 0 {} (.beginTxn none txnRdonly), .go 0 0 {} (.park 0 true)] {}
    (fun w : World => decide w.Agreed &&
      (w.step (.go 0 0 {} (.clone 0))).any fun r : World × Reply => !decide r.1.Agreed)
    ⟨rfl, rfl, rfl, rfl, rfl, rfl, by decide⟩ (by decide +kernel)
  obtain ⟨hself, hclone⟩ := Bool.and_eq_true_iff.mp hw
  obtain ⟨r, hr, hnot⟩ := (Option.any_eq_true _ _).mp hclone
  have hnot : ¬ r.1.Agreed := by simpa using hnot
  exact hnot (hagreed w 0 0 {} 0 r run (by simpa using hself) hr)

/-- A reader that was cloned into while it was parked, from a parked one. -/
theorem clones_agreed_parked : ∃ w : World, w.next = 2 ∧ (w.txns 1).parked = true ∧
    (w.lib.readerAt (w.txns 1).ptr).any (·.isParked) = true ∧ w.Agreed := by
  obtain ⟨w, run, hw⟩ := Transition.System.exists_of_replay system (fun w e => w.Sound e)
    [.go 0 0 {} (.beginTxn none txnRdonly), .go 0 0 {} (.clone 0), .go 0 0 {} (.id 1),
      .go 0 0 {} (.park 0 true), .go 0 0 {} (.park 1 true), .go 0 0 {} (.cloneInto 0 1)] {}
    (fun w => w.next == 2 && (w.txns 1).parked == true &&
      (w.lib.readerAt (w.txns 1).ptr).any (·.isParked))
    ⟨rfl, rfl, rfl, rfl, rfl, rfl, by decide⟩ (by decide +kernel)
  simp only [Bool.and_eq_true, beq_iff_eq] at hw
  obtain ⟨⟨hnext, hnoted⟩, hparked⟩ := hw
  exact ⟨w, hnext, hnoted, hparked, clones_agreed run⟩

end World

end MdbxGo
