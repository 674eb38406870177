import MdbxGo.Libmdbx.Kind
import MdbxGo.Mdbx.CloneInto

/-! The field `readonly` of every `Txn`, over any number of environments: it tells of which kind the
transaction at its pointer is. Six methods choose by it what they ask libmdbx for. -/

namespace MdbxGo

namespace World

open MdbxEnv

variable {w w' v : World} {o : Sys} {g : Gor} {self : Thread} {call : Call} {h k : Handle}
  {lib : MdbxEnv}

/-- The field `readonly` of every `Txn` is the kind of the transaction at its pointer. Of a nested
transaction there is one `Txn` only, so that no other one is left behind when it turns. -/
structure Kinds (w : World) : Prop where
  fresh : ∀ t ∈ w.lib.nested, t.addr < w.lib.brk
  basal : w.lib.basal.roNested = false
  kind : ∀ k p, (w.txns k).ptr = some p → w.lib.Kind p (w.txns k).readonly
  known : ∀ k a, (w.txns k).ptr = some (.nested a) → a < w.lib.brk
  single : ∀ j k a, (w.txns j).ptr = some (.nested a) → (w.txns k).ptr = some (.nested a) → j = k

/-- What a call makes of a `Txn` whose transaction it does not turn into another. -/
def Stays (x y : Txn) : Prop := y.ptr = none ∨ y.ptr = x.ptr ∧ y.readonly = x.readonly

theorem Stays.refl (x : Txn) : Stays x x := .inr ⟨rfl, rfl⟩

theorem kinds_of_stays (hw : w.Kinds) (hlib : Alike w.lib w'.lib)
    (htxns : ∀ k, Stays (w.txns k) (w'.txns k)) : w'.Kinds := by
  have hptr : ∀ k p, (w'.txns k).ptr = some p →
      (w.txns k).ptr = some p ∧ (w'.txns k).readonly = (w.txns k).readonly := by
    intro k p hp
    rcases htxns k with hnull | ⟨hsame, hro⟩
    · rw [hnull] at hp
      cases hp
    · exact ⟨hsame.symm.trans hp, hro⟩
  constructor
  · intro u hu
    obtain ⟨t, ht, htu⟩ := hlib.nested u hu
    rw [htu.addr]
    exact Nat.lt_of_lt_of_le (hw.fresh t ht) hlib.brk
  · exact hlib.basal hw.basal
  · intro k p hp
    obtain ⟨hold, hro⟩ := hptr k p hp
    rw [hro]
    exact hlib.kind (hw.kind k p hold)
  · intro k a hp
    exact Nat.lt_of_lt_of_le (hw.known k a (hptr k _ hp).1) hlib.brk
  · intro j k a hj hk
    exact hw.single j k a (hptr j _ hj).1 (hptr k _ hk).1

theorem kinds_lib (hw : w.Kinds) (hlib : Alike w.lib lib) : ({ w with lib } : World).Kinds :=
  kinds_of_stays hw hlib fun _ => .refl _

theorem kinds_setTxn (hw : w.Kinds) (hlib : Alike w.lib lib) {x : Txn}
    (hx : Stays (w.txns h) x) : ({ w with lib }.setTxn h x).Kinds := by
  refine kinds_of_stays hw hlib fun k => ?_
  by_cases hk : k = h
  · subst hk
    rwa [setTxn_self]
  · exact .inr ⟨congrArg Txn.ptr (Function.update_of_ne hk _ _),
      congrArg Txn.readonly (Function.update_of_ne hk _ _)⟩

/-- The stacks of the goroutines play no part. -/
theorem Kinds.same (hw : w.Kinds) (hlib : w'.lib = w.lib) (htxns : w'.txns = w.txns) : w'.Kinds :=
  kinds_of_stays hw (hlib ▸ .refl _) fun _ => htxns ▸ .refl _

theorem kinds_call (hw : w.Kinds) {f : MdbxEnv → Option Ptr → MdbxEnv × Code}
    {after : Code → Txn → Txn} (hlib : Alike w.lib (f w.lib (w.txns h).ptr).1)
    (hafter : ∀ code x, Stays x (after code x)) : (w.call h f after).1.Kinds :=
  kinds_setTxn hw hlib (hafter _ _)

theorem kinds_unmanaged (hw : w.Kinds) {msg : String} {method : World × Reply}
    (hm : method.1.Kinds) : (w.unmanaged msg h method).1.Kinds := by
  unfold unmanaged
  split
  · exact hw
  · exact hm

theorem kinds_writerOnly (hw : w.Kinds) {msg op : String} {method : Option (World × Reply)}
    (hm : (w.txns h).readonly = false → ∀ r, method = some r → r.1.Kinds) {r : World × Reply}
    (hr : w.writerOnly msg op self h method = some r) : r.1.Kinds := by
  unfold writerOnly at hr
  split at hr
  · cases hr
    exact hw
  · split at hr
    · cases hr
      exact hw
    · rename_i hreadonly
      split at hr
      · cases hr
        exact hw
      · exact hm (by simpa using hreadonly) r hr

/-! ### Methods that make no transaction -/

theorem commitTxn_kinds (hw : w.Kinds) (h : Handle) : (w.commitTxn o self h).1.Kinds := by
  unfold commitTxn
  split
  · exact hw
  · dsimp only
    exact kinds_call hw (mdbxTxnCommitEx_alike _) fun _ _ => .inl rfl

theorem abortTxn_kinds (hw : w.Kinds) (h : Handle) : (w.abortTxn o self h).1.Kinds := by
  unfold abortTxn
  split
  · exact hw
  · split
    · exact hw
    · dsimp only
      exact kinds_call hw (mdbxTxnAbort_alike _) fun _ _ => .inl rfl

theorem resetTxn_kinds (hw : w.Kinds) (h : Handle) : (w.resetTxn o self h).1.Kinds := by
  unfold resetTxn
  dsimp only
  exact kinds_call hw (mdbxTxnReset_alike _) fun _ _ => .inr ⟨rfl, rfl⟩

theorem renewTxn_kinds (hw : w.Kinds) (h : Handle) : (w.renewTxn o self h).1.Kinds := by
  unfold renewTxn
  dsimp only
  exact kinds_call hw (mdbxTxnRenew_alike _) fun _ _ => .inr ⟨rfl, rfl⟩

theorem refresh_kinds (hw : w.Kinds) (h : Handle) : (w.refresh o self h).1.Kinds := by
  refine kinds_unmanaged hw ?_
  dsimp only
  exact kinds_call hw (mdbxTxnRefresh_alike _) fun _ _ => .inr ⟨rfl, rfl⟩

theorem terminate_kinds (hw : w.Kinds) (h : Handle) (res : FnResult) :
    (w.terminate o self h res).1.Kinds := by
  cases res with
  | nil => exact commitTxn_kinds hw h
  | error => exact abortTxn_kinds hw h
  | panic => exact abortTxn_kinds hw h

theorem setManaged_kinds (hw : w.Kinds) (managed : Bool) (h : Handle) :
    (w.setManaged managed h).Kinds :=
  kinds_setTxn hw (.refl _) (.inr ⟨rfl, rfl⟩)

theorem runOpTerm_kinds (hw : w.Kinds) (h : Handle) : (w.runOpTerm g h).1.Kinds :=
  kinds_unmanaged hw ((setManaged_kinds hw true h).same rfl rfl)

theorem park_kinds (hw : w.Kinds) (autounpark : Bool) (h : Handle) :
    (w.park o self autounpark h).1.Kinds := by
  unfold park
  split
  · exact hw
  · split
    · exact hw
    · dsimp only
      refine kinds_call hw (mdbxTxnPark_alike _ _) fun code x => .inr ?_
      split <;> exact ⟨rfl, rfl⟩

theorem unpark_kinds (hw : w.Kinds) (restart : Bool) (h : Handle) :
    (w.unpark o self restart h).1.Kinds := by
  unfold unpark
  split
  · exact hw
  · split
    · exact hw
    · dsimp only
      refine kinds_call hw (mdbxTxnUnpark_alike _ _) fun code x => .inr ?_
      split <;> exact ⟨rfl, rfl⟩

theorem checkpoint_kinds (hw : w.Kinds) {flags : UInt32} {r : World × Reply}
    (hr : w.checkpoint o self flags h = some r) : r.1.Kinds := by
  refine kinds_writerOnly hw (fun hwriter r hr => ?_) hr
  obtain ⟨c, hc, rfl⟩ := Option.map_eq_some_iff.mp hr
  have hlib : Alike w.lib c.1 := by
    apply mdbxTxnCheckpoint_alike _ hc
    intro p hp
    exact hwriter ▸ hw.kind h p hp
  refine kinds_setTxn hw hlib ?_
  split
  · exact .inr ⟨rfl, rfl⟩
  · exact .inl rfl

theorem rollback_kinds (hw : w.Kinds) {r : World × Reply} (hr : w.rollback o self h = some r) :
    r.1.Kinds := by
  refine kinds_writerOnly hw (fun _ r hr => ?_) hr
  obtain ⟨c, hc, rfl⟩ := Option.map_eq_some_iff.mp hr
  exact kinds_setTxn hw (mdbxTxnRollback_alike hc) (.inr ⟨rfl, rfl⟩)

theorem amend_kinds (hw : w.Kinds) (flags : UInt32) (h : Handle) :
    (w.amend o g self flags h).1.Kinds := by
  refine kinds_unmanaged hw ?_
  split
  · exact hw
  · split
    · exact hw
    · have hstart : Alike w.lib (w.lib.amendStart o self flags (w.txns h).ptr).1 :=
        amendStart_alike flags (w.txns h).ptr
      have hlib := kinds_lib hw hstart
      dsimp only
      split
      · exact hlib
      · exact hlib.same rfl rfl

theorem cloneInto_kinds (hw : w.Kinds) {target : Handle} {r : World × Reply}
    (hr : w.cloneInto o target h = some r) : r.1.Kinds := by
  unfold cloneInto at hr
  dsimp only at hr
  split at hr
  · cases hr
    exact hw
  · split at hr
    · cases hr
      exact hw
    · rename_i a _
      obtain ⟨t, _, rfl⟩ := Option.map_eq_some_iff.mp hr
      obtain ⟨x, hx, _⟩ := mdbxTxnCloneInto_reader o w.lib a t (w.txns h).ptr
      have hlib : Alike w.lib (w.lib.mdbxTxnCloneInto o (w.txns h).ptr a t).1 := by
        rw [hx]
        exact alike_setReader a _
      split
      · exact kinds_lib hw hlib
      · exact kinds_setTxn hw hlib (.inr ⟨rfl, rfl⟩)
    · cases hr

/-! ### The change to a reader -/

/-- The nested transaction of `h` has become a read-only one, and so has the mark of `h`. -/
theorem kinds_turned (hw : w.Kinds) {a : Addr} (hlib : TurnedRo a w.lib lib) {x : Txn}
    (hp : (w.txns h).ptr = some (.nested a)) (hx : x.ptr = some (.nested a))
    (hro : x.readonly = true) : ({ w with lib }.setTxn h x).Kinds := by
  have hself : ({ w with lib }.setTxn h x).txns h = x := setTxn_self _ _ _
  have hother : ∀ k, k ≠ h → ({ w with lib }.setTxn h x).txns k = w.txns k := fun k hk =>
    Function.update_of_ne hk _ _
  have hptr : ∀ k q, (({ w with lib }.setTxn h x).txns k).ptr = some q →
      (w.txns k).ptr = some q := by
    intro k q hq
    by_cases hk : k = h
    · subst hk
      rw [hself, hx] at hq
      rw [hp, hq]
    · rwa [hother k hk] at hq
  constructor
  · intro u hu
    by_cases hua : u.addr = a
    · rw [hua]
      exact Nat.lt_of_lt_of_le (hw.known h a hp) hlib.brk
    · obtain ⟨t, ht, htu⟩ := hlib.others u hu hua
      rw [htu.addr]
      exact Nat.lt_of_lt_of_le (hw.fresh t ht) hlib.brk
  · exact hlib.basal hw.basal
  · intro k q hq
    have hold := hptr k q hq
    by_cases hk : k = h
    · subst hk
      obtain rfl := Option.some.inj (hp.symm.trans hold)
      rw [hself, hro]
      exact hlib.turned
    · rw [hother k hk]
      have hkind := hw.kind k q hold
      cases q with
      | nested b =>
        intro u hu hub
        have hba : b ≠ a := by
          rintro rfl
          exact hk (hw.single k h b hold hp)
        obtain ⟨t, ht, htu⟩ := hlib.others u hu (by rwa [hub])
        exact htu.roNested.trans (hkind t ht (htu.addr.symm.trans hub))
      | _ => exact hkind
  · intro k b hq
    exact Nat.lt_of_lt_of_le (hw.known k b (hptr k _ hq)) hlib.brk
  · intro j k b hj hk
    exact hw.single j k b (hptr j _ hj) (hptr k _ hk)

/-- The `Txn` gets a transaction that is not a nested one. -/
theorem kinds_flat (hw : w.Kinds) (hlib : Alike w.lib lib) {x : Txn} {p : Ptr}
    (hx : x.ptr = some p) (hflat : ∀ b, p ≠ .nested b) (hkind : lib.Kind p x.readonly) :
    ({ w with lib }.setTxn h x).Kinds := by
  -- as if the `Txn` had lost its pointer first
  have hlost := kinds_setTxn (h := h) hw hlib (x := { x with ptr := none }) (.inl rfl)
  have hother : ∀ k, k ≠ h → ({ w with lib }.setTxn h x).txns k =
      ({ w with lib }.setTxn h { x with ptr := none }).txns k := by
    intro k hk
    exact (Function.update_of_ne hk _ _).trans (Function.update_of_ne hk _ _).symm
  have hne : ∀ k b, (({ w with lib }.setTxn h x).txns k).ptr = some (.nested b) → k ≠ h := by
    rintro k b hq rfl
    rw [setTxn_self, hx] at hq
    exact hflat b (Option.some.inj hq)
  refine ⟨hlost.fresh, hlost.basal, ?_, ?_, ?_⟩
  · intro k q hq
    by_cases hk : k = h
    · subst hk
      rw [setTxn_self, hx] at hq
      cases hq
      rw [setTxn_self]
      exact hkind
    · rw [hother k hk] at hq ⊢
      exact hlost.kind k q hq
  · intro k b hq
    rw [hother k (hne k b hq)] at hq
    exact hlost.known k b hq
  · intro j k b hj hk
    rw [hother j (hne j b hj)] at hj
    rw [hother k (hne k b hk)] at hk
    exact hlost.single j k b hj hk

theorem commitEmbarkRead_kinds (hw : w.Kinds) {r : World × Reply}
    (hr : w.commitEmbarkRead o self h = some r) : r.1.Kinds := by
  refine kinds_writerOnly hw (fun hwriter r hr => ?_) hr
  obtain ⟨⟨env', code, ptr⟩, hc, rfl⟩ := Option.map_eq_some_iff.mp hr
  dsimp only
  cases hp : (w.txns h).ptr with
  | none =>
    rw [hp] at hc
    cases hc
    exact kinds_setTxn hw (.refl _) (.inl rfl)
  | some p =>
    rw [hp] at hc
    have hkind : w.lib.Kind p false := hwriter ▸ hw.kind h p hp
    cases mdbxTxnCommitEmbarkRead_embarked hkind hw.basal hc with
    | ended hlib =>
      refine kinds_setTxn hw hlib (.inl ?_)
      split
      · rfl
      · split <;> rfl
    | failed hlib hcode =>
      refine kinds_setTxn hw hlib ?_
      split
      · exact .inl rfl
      · rw [if_pos (by simpa using hcode)]
        exact .inr ⟨hp.symm, rfl⟩
    | reader a hlib hcode =>
      obtain rfl : code = Code.success := hcode
      exact kinds_flat hw hlib rfl (fun _ => Ptr.noConfusion) rfl
    | nested a hpa hlib hcode =>
      obtain rfl : code = Code.success := hcode
      subst hpa
      exact kinds_turned hw hlib hp rfl rfl

/-! ### Methods that make a transaction -/

/-- A new `Txn` gets the nested transaction that was made for it. -/
theorem kinds_allocNested (hw : w.Kinds) {x : Txn} {t : WriteTxn}
    (hx : x.ptr = some (.nested w.lib.brk)) (hro : t.roNested = x.readonly) :
    (w.create (w.lib.allocNested t) x).Kinds := by
  have hself : (w.create (w.lib.allocNested t) x).txns w.next = x := setTxn_self _ _ _
  have hother : ∀ k, k ≠ w.next → (w.create (w.lib.allocNested t) x).txns k = w.txns k :=
    fun k hk => Function.update_of_ne hk _ _
  have hnew : ∀ k b, k ≠ w.next → ((w.create (w.lib.allocNested t) x).txns k).ptr =
      some (.nested b) → b < w.lib.brk := by
    intro k b hk hq
    rw [hother k hk] at hq
    exact hw.known k b hq
  refine ⟨?_, hw.basal, ?_, ?_, ?_⟩
  · intro u hu
    rcases List.mem_append.mp hu with hu | hu
    · exact Nat.lt_succ_of_lt (hw.fresh u hu)
    · rw [List.mem_singleton.mp hu]
      exact Nat.lt_succ_self _
  · intro k q hq
    by_cases hk : k = w.next
    · subst hk
      rw [hself, hx] at hq
      cases hq
      rw [hself]
      intro u hu hub
      rcases List.mem_append.mp hu with hu | hu
      · exact absurd hub (Nat.ne_of_lt (hw.fresh u hu))
      · rw [List.mem_singleton.mp hu]
        exact hro
    · rw [hother k hk] at hq ⊢
      have hkind := hw.kind k q hq
      cases q with
      | nested b =>
        intro u hu hub
        rcases List.mem_append.mp hu with hu | hu
        · exact hkind u hu hub
        · have hlt := hw.known k b hq
          rw [List.mem_singleton.mp hu] at hub
          exact absurd hub (Nat.ne_of_gt hlt)
      | _ => exact hkind
  · intro k b hq
    by_cases hk : k = w.next
    · subst hk
      rw [hself, hx] at hq
      cases hq
      exact Nat.lt_succ_self _
    · exact Nat.lt_succ_of_lt (hnew k b hk hq)
  · intro j k b hj hk
    by_cases hjn : j = w.next <;> by_cases hkn : k = w.next
    · rw [hjn, hkn]
    · subst hjn
      have hlt := hnew k b hkn hk
      rw [hself, hx] at hj
      cases hj
      exact absurd hlt (Nat.lt_irrefl _)
    · subst hkn
      have hlt := hnew j b hjn hj
      rw [hself, hx] at hk
      cases hk
      exact absurd hlt (Nat.lt_irrefl _)
    · rw [hother j hjn] at hj
      rw [hother k hkn] at hk
      exact hw.single j k b hj hk

theorem kinds_create (hw : w.Kinds) {x : Txn} {p : Ptr} (hx : x.ptr = some p)
    (hmakes : Makes x.readonly w.lib lib p) : (w.create lib x).Kinds := by
  have hflat : (∀ b, p ≠ .nested b) → Alike w.lib lib → lib.Kind p x.readonly →
      (w.create lib x).Kinds := fun hp hlib hkind =>
    (kinds_flat (h := w.next) hw hlib hx hp hkind).same rfl rfl
  cases hmakes with
  | reader a hro hlib => exact hflat (fun _ => Ptr.noConfusion) hlib hro
  | basal hro hlib => exact hflat (fun _ => Ptr.noConfusion) hlib hro
  | nested t hro hlib =>
    subst hlib
    exact kinds_allocNested hw hx hro

theorem beginTxn_kinds (hw : w.Kinds) {parent : Option Handle} {flags : UInt32}
    {r : World × Returned} (hr : w.beginTxn o self parent flags = some r) : r.1.Kinds := by
  obtain ⟨c, hc, rfl⟩ := Option.map_eq_some_iff.mp hr
  rcases (mdbxTxnBegin_begun hc).cases with ⟨hcode, hlib⟩ | ⟨hcode, p, hp, hmakes⟩
  · rw [if_pos (by simpa using hcode)]
    exact kinds_lib hw hlib
  · rw [if_neg (by simpa using hcode)]
    exact kinds_create hw hp hmakes

theorem clone_kinds (hw : w.Kinds) (h : Handle) : (w.clone o self h).1.Kinds := by
  have hbegun : Begun true w.lib (w.lib.mdbxTxnClone o w.next (w.txns h).ptr) :=
    mdbxTxnClone_begun w.next (w.txns h).ptr
  unfold clone
  dsimp only
  rcases hbegun.cases with ⟨hcode, hlib⟩ | ⟨hcode, p, hp, hmakes⟩
  · rw [if_pos (by simpa using hcode)]
    exact kinds_lib hw hlib
  · rw [if_neg (by simpa using hcode)]
    exact kinds_create hw hp hmakes

theorem amendLocked_kinds (hw : w.Kinds) {r : World × Reply}
    (hr : w.amendLocked o g self = some r) : r.1.Kinds := by
  unfold World.amendLocked at hr
  split at hr
  · rename_i flags h a snapshot rest hframes
    obtain ⟨c, hc, rfl⟩ := Option.map_eq_some_iff.mp hr
    dsimp only
    rcases (amendLocked_begun hc).cases with ⟨hcode, hlib⟩ | ⟨hcode, p, hp, hmakes⟩
    · rw [if_pos (by simpa using hcode)]
      exact (kinds_lib hw hlib).same rfl rfl
    · rw [if_neg (by simpa using hcode)]
      have hafter : (w.setTxn h (if flags &&& txnRdonlyPrepare == 0 then (w.txns h).clearTxn
          else (w.txns h).resetID)).Kinds := by
        refine kinds_setTxn hw (.refl _) ?_
        split
        · exact .inl rfl
        · exact .inr ⟨rfl, rfl⟩
      exact (kinds_create hafter hp hmakes).same rfl rfl
  · cases hr

theorem exec_kinds (hw : w.Kinds) {r : World × Reply} (hr : w.exec o g self call = some r) :
    r.1.Kinds := by
  cases call with
  | beginTxn parent flags =>
    obtain ⟨c, hc, rfl⟩ := Option.map_eq_some_iff.mp hr
    exact beginTxn_kinds hw hc
  | id h =>
    cases hr
    dsimp only
    unfold World.id
    split
    · exact kinds_setTxn hw (.refl _) (.inr ⟨rfl, rfl⟩)
    · exact hw
  | get h => cases hr; exact kinds_call hw (mdbxGet_alike _) fun _ _ => .refl _
  | put h change => cases hr; exact kinds_call hw (mdbxPut_alike change _) fun _ _ => .refl _
  | commit h => cases hr; exact kinds_unmanaged hw (commitTxn_kinds hw h)
  | abort h => cases hr; exact kinds_unmanaged hw (abortTxn_kinds hw h)
  | reset h => cases hr; exact kinds_unmanaged hw (resetTxn_kinds hw h)
  | renew h => cases hr; exact kinds_unmanaged hw (renewTxn_kinds hw h)
  | refresh h => cases hr; exact refresh_kinds hw h
  | park h autounpark => cases hr; exact park_kinds hw autounpark h
  | unpark h restart => cases hr; exact unpark_kinds hw restart h
  | checkpoint h flags => exact checkpoint_kinds hw hr
  | commitEmbarkRead h => exact commitEmbarkRead_kinds hw hr
  | rollback h => exact rollback_kinds hw hr
  | amend h flags => cases hr; exact amend_kinds hw flags h
  | amendLocked => exact amendLocked_kinds hw hr
  | clone h => cases hr; exact clone_kinds hw h
  | cloneInto h target => exact cloneInto_kinds hw hr
  | runTxn flags =>
    obtain ⟨c, hc, rfl⟩ := Option.map_eq_some_iff.mp hr
    have hbegun := beginTxn_kinds hw hc
    split
    · exact hbegun
    · exact runOpTerm_kinds hbegun _
  | runOp h terminate =>
    cases hr
    unfold runOpEither
    split
    · exact runOpTerm_kinds hw h
    · exact (setManaged_kinds hw true h).same rfl rfl
  | sub h =>
    obtain ⟨c, hc, rfl⟩ := Option.map_eq_some_iff.mp hr
    have hbegun := beginTxn_kinds hw hc
    split
    · exact hbegun
    · exact (setManaged_kinds hbegun true _).same rfl rfl
  | finish res =>
    simp only [exec, finish] at hr
    split at hr
    · cases hr
    · have hpop : (w.pop g).Kinds := hw.same rfl rfl
      split at hr
      · cases hr
        exact terminate_kinds hpop _ res
      · cases hr
        exact terminate_kinds hpop _ res
      · cases hr
        unfold leave
        dsimp only
        split
        · exact setManaged_kinds hpop false _
        · exact hpop
      · cases hr

theorem step_kinds (hw : w.Kinds) {e : Event} {r : World × Reply} (hr : w.step e = some r) :
    r.1.Kinds := by
  rcases step_cases hr with ⟨g, self, o, call, _, _, _, hexec⟩ | ⟨a, x, _, _, rfl⟩ |
    ⟨txnid, changes, _, _, _, _, rfl⟩ | ⟨_, rfl⟩
  · exact exec_kinds hw hexec
  · exact kinds_lib hw (alike_setReader a _)
  · exact kinds_lib hw (alike_basal rfl (fun hro => hro) (.inl rfl))
  · exact kinds_lib hw (alike_basal rfl (fun hro => hro) (.inl rfl))

theorem init_kinds (hw : system.init w) : w.Kinds := by
  obtain ⟨_, htxns, _, _, hnested, hbasal, _⟩ := hw
  constructor
  · simp [hnested]
  · rw [hbasal]
  · simp [htxns]
  · simp [htxns]
  · simp [htxns]

/-! ### Any number of environments, and memory that is used again -/

/-- The allocator has put what was made between `before` and `after` into the block of `old`, which
was freed: who had a pointer to the one, and keeps it, has it to the other. -/
def place (reused : Option Ptr) (before after : World) : Option World :=
  match reused, before.lib.made after.lib with
  | none, _ => some after
  | some old, some new =>
    if (after.lib.readonly? old).isSome then none
    else
      let moved := fun p : Option Ptr => if p = some old then some new else p
      some { after with
        txns := fun k =>
          if (before.txns k).ptr = some old then
            { after.txns k with ptr := moved (after.txns k).ptr }
          else after.txns k
        frames := fun g => (after.frames g).map fun f => { f with ptr := moved f.ptr } }
  | some _, none => none

/-- What may happen next in one of the environments, with the freed block, if any, that the
allocator uses again; or between two of them: `CloneInto` takes its target from any environment. -/
inductive Shared
  | one (i : Nat) (e : Event) (reused : Option Ptr)
  | cloneInto (o : Sys) (i : Nat) (h : Handle) (j : Nat) (target : Handle)

/-- One step of the environments `ws`. A process that has crashed makes no more steps. -/
def sharedStep (ws : Nat → World) : Shared → Option (Nat → World)
  | .one i e reused =>
    ((ws i).step e).bind fun r => ((ws i).place reused r.1).map (Function.update ws i)
  | .cloneInto o i h j target =>
    if (ws i).known h && (ws j).known target then
      match cloneIntoAny o (ws i) (ws j) h (if i = j then .here target else .there target) with
      | some (.returned w v _) =>
        some (if i = j then Function.update ws i w
          else Function.update (Function.update ws i w) j v)
      | _ => none
    else none

/-- The runs of a program over its environments. -/
def shared : Transition.System (Nat → World) Shared where
  init ws := ∀ i, system.init (ws i)
  step := sharedStep

/-- No `Txn` points to the block that is used again. -/
def Unshared (ws : Nat → World) : Shared → Prop
  | .one i _ (some old) => ∀ k, ((ws i).txns k).ptr ≠ some old
  | _ => True

theorem mdbxTxnCloneAcross_reader (o : Sys) (source : Option Ptr) (a : Addr) (t : ReadTxn)
    (env origin : MdbxEnv) :
    ∃ r, (env.mdbxTxnCloneAcross o source a t origin).1 = env.setReader a (some r) := by
  unfold mdbxTxnCloneAcross
  dsimp only
  generalize (if t.finished then (t, Code.success) else t.txnRoReset o) = reset
  split
  · exact ⟨_, rfl⟩
  · split
    · exact ⟨_, rfl⟩
    · split
      · exact ⟨_, rfl⟩
      · exact ⟨_, rfl⟩

theorem cloneIntoAny_kinds (hw : w.Kinds) (hv : v.Kinds) {target : Target} {w' v' : World}
    {reply : Reply} (hr : cloneIntoAny o w v h target = some (.returned w' v' reply)) :
    w'.Kinds ∧ v'.Kinds := by
  unfold cloneIntoAny at hr
  dsimp only at hr
  split at hr
  · cases hr
    exact ⟨hw, hv⟩
  · cases hp : (target.txn w v).ptr with
    | none =>
      rw [hp] at hr
      cases hr
      exact ⟨hw, hv⟩
    | some p =>
      rw [hp] at hr
      cases target with
      | here k =>
        cases p with
        | reader a =>
          obtain ⟨t, _, hr⟩ := Option.map_eq_some_iff.mp hr
          obtain ⟨x, hx, _⟩ := mdbxTxnCloneInto_reader o w.lib a t (w.txns h).ptr
          have hlib : Alike w.lib (w.lib.mdbxTxnCloneInto o (w.txns h).ptr a t).1 := by
            rw [hx]
            exact alike_setReader a _
          split at hr
          · cases hr
            exact ⟨kinds_lib hw hlib, hv⟩
          · cases hr
            exact ⟨kinds_setTxn hw hlib (.inr ⟨rfl, rfl⟩), hv⟩
        | basal | nested a =>
          obtain ⟨t, _, hr⟩ := Option.map_eq_some_iff.mp hr
          cases hr
      | there k =>
        cases p with
        | reader a =>
          obtain ⟨t, _, hr⟩ := Option.map_eq_some_iff.mp hr
          obtain ⟨x, hx⟩ := mdbxTxnCloneAcross_reader o (w.txns h).ptr a t v.lib w.lib
          have hlib : Alike v.lib (v.lib.mdbxTxnCloneAcross o (w.txns h).ptr a t w.lib).1 := by
            rw [hx]
            exact alike_setReader a _
          split at hr
          · cases hr
            exact ⟨hw, kinds_lib hv hlib⟩
          · cases hr
            exact ⟨hw, kinds_setTxn hv hlib (.inr ⟨rfl, rfl⟩)⟩
        | basal | nested a =>
          obtain ⟨t, _, hr⟩ := Option.map_eq_some_iff.mp hr
          cases hr

/-- A block to which no `Txn` points may be used again. -/
theorem place_kinds (hv : v.Kinds) {reused : Option Ptr} {w' : World}
    (hfree : ∀ old, reused = some old → ∀ k, (w.txns k).ptr ≠ some old)
    (hplace : w.place reused v = some w') : w'.Kinds := by
  unfold place at hplace
  split at hplace
  · cases hplace
    exact hv
  · rename_i old _ _
    split at hplace
    · cases hplace
    · cases hplace
      refine hv.same rfl (funext fun k => ?_)
      exact if_neg (hfree old rfl k)
  · cases hplace

theorem kinds_update {ws : Nat → World} (hws : ∀ i, (ws i).Kinds) (hw : w.Kinds) (i j : Nat) :
    (Function.update ws i w j).Kinds := by
  by_cases hj : j = i
  · subst hj
    rwa [Function.update_self]
  · rw [Function.update_of_ne hj]
    exact hws j

theorem shared_kinds : shared.Invariant Unshared fun ws => ∀ i, (ws i).Kinds where
  init ws hinit i := init_kinds (hinit i)
  step ws e ws' hws hok hstep := by
    cases e with
    | one i e reused =>
      obtain ⟨r, hr, hplaced⟩ := Option.bind_eq_some_iff.mp hstep
      obtain ⟨w, hw, rfl⟩ := Option.map_eq_some_iff.mp hplaced
      have hfree : ∀ old, reused = some old → ∀ k, ((ws i).txns k).ptr ≠ some old := by
        rintro old rfl
        exact hok
      exact kinds_update hws (place_kinds (step_kinds (hws i) hr) hfree hw) i
    | cloneInto o i h j target =>
      simp only [shared, sharedStep] at hstep
      split at hstep
      · split at hstep
        · rename_i hcall
          cases hstep
          obtain ⟨hw, hv⟩ := cloneIntoAny_kinds (hws i) (hws j) hcall
          split
          · exact kinds_update hws hw i
          · exact kinds_update (kinds_update hws hw i) hv j
        · cases hstep
      · cases hstep

/-- Whatever is called in the environments, and whatever libmdbx answers, as long as no memory is
used again to which a `Txn` points: a `Txn` whose transaction is still there has `readonly` set if
and only if that transaction is a read-only one. -/
theorem readonly_coherent {ws : Nat → World} (run : shared.Reaches Unshared ws) (i : Nat)
    (h : Handle)
    {p : Ptr} {ro : Bool} (hp : ((ws i).txns h).ptr = some p)
    (hro : (ws i).lib.readonly? p = some ro) : ((ws i).txns h).readonly = true ↔ ro = true := by
  have hws := run.invariant shared_kinds i
  rw [(hws.kind h p hp).readonly? hws.basal hro]

/-- A transaction nested in a writer, made in the block of a reader that was aborted, has become a
read-only one. -/
theorem readonly_coherent_nested : ∃ ws, shared.Reaches Unshared ws ∧
    (ws 0).lib.readonly? (.nested 2) = some true ∧ ((ws 0).txns 2).readonly = true := by
  have hinit : shared.init fun _ => {} := fun _ =>
    ⟨rfl, rfl, rfl, rfl, rfl, rfl, show (1 : UInt64) ≤ maxTxnid by decide⟩
  have hbegun : shared.Reaches Unshared _ :=
    .next (e := .one 0 (.go 0 0 {} (.beginTxn none 0)) none)
      (.next (e := .one 0 (.go 0 0 {} (.abort 0)) none)
        (.next (e := .one 0 (.go 0 0 {} (.beginTxn none txnRdonly)) none)
          (.start hinit) trivial rfl) trivial rfl) trivial rfl
  have hnested : shared.Reaches Unshared _ :=
    .next (e := .one 0 (.go 0 0 {} (.beginTxn (some 1) 0)) (some (.reader 1))) hbegun
      (fun k => match k with
        | 0 | 1 => by decide
        | k + 2 => Option.some_ne_none _ |>.symm) rfl
  have hembarked : shared.Reaches Unshared _ :=
    .next (e := .one 0 (.go 0 0 {} (.commitEmbarkRead 2)) none) hnested trivial rfl
  have hro := (@readonly_coherent _ hembarked 0 2 (.nested 2) true rfl rfl).mpr rfl
  exact ⟨_, hembarked, rfl, hro⟩

/-- `Amend` with one of the two bits of `TxPrepareRO` leaves the `Txn` of the reader with a pointer
to freed memory, in which then a write transaction is nested. -/
theorem readonly_dangles : ¬ ∀ (ws : Nat → World) (i : Nat) (h : Handle) (p : Ptr) (ro : Bool),
    shared.Reachable ws → ((ws i).txns h).ptr = some p → (ws i).lib.readonly? p = some ro →
    (((ws i).txns h).readonly = true ↔ ro = true) := by
  intro hcoherent
  obtain ⟨ws, run, hws⟩ := shared.exists_of_replay (fun _ _ => True)
    [.one 0 (.go 0 0 {} (.beginTxn none txnRdonly)) none,
      .one 0 (.go 0 0 {} (.amend 0 txnRdonly)) none, .one 0 (.go 0 0 {} .amendLocked) none,
      .one 0 (.go 0 0 {} (.beginTxn (some 1) 0)) (some (.reader 1))] (fun _ => {})
    (fun ws => decide (((ws 0).txns 0).ptr = some (.nested 2)) && ((ws 0).txns 0).readonly &&
      decide ((ws 0).lib.readonly? (.nested 2) = some false))
    (fun _ => ⟨rfl, rfl, rfl, rfl, rfl, rfl, show (1 : UInt64) ≤ maxTxnid by decide⟩)
    (by decide +kernel)
  simp only [Bool.and_eq_true, decide_eq_true_eq] at hws
  obtain ⟨⟨hptr, hreadonly⟩, hwriter⟩ := hws
  exact Bool.false_ne_true ((hcoherent ws 0 0 _ _ run hptr hwriter).mp hreadonly)

end World

end MdbxGo
