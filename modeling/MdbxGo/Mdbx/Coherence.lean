import MdbxGo.Libmdbx.Amend
import MdbxGo.Mdbx.Readers

/-! What is asked of a program so that its `Txn` values remember their transactions rightly, and
that a call through one `Txn` leaves what the others remember right. -/

namespace MdbxGo

namespace Call

/-- The `Txn` whose transaction a call starts anew, or changes into a reader. -/
def restarts : Call → Option Handle
  | .rollback h | .checkpoint h _ | .commitEmbarkRead h => some h
  | _ => none

/-- The `Txn` that a call resets or renews. -/
def resets : Call → Option Handle
  | .reset h | .renew h => some h
  | _ => none

/-- The `Txn` that a call unparks, and whether it is to restart an ousted one. -/
def unparks : Call → Option (Handle × Bool)
  | .unpark h restartIfOusted => some (h, restartIfOusted)
  | _ => none

/-- The `Txn` that a call clones into a new one. -/
def clones : Call → Option Handle
  | .clone h => some h
  | _ => none

/-- The `Txn` that a call clones into another one, and that other one. -/
def clonesInto : Call → Option (Handle × Handle)
  | .cloneInto h target => some (h, target)
  | _ => none

/-- The `Txn` that a call amends, and the flags. -/
def amends : Call → Option (Handle × UInt32)
  | .amend h flags => some (h, flags)
  | _ => none

/-- The calls that go over from one transaction to another. -/
def crosses : Call → Bool
  | .amend _ _ | .amendLocked | .clone _ | .cloneInto _ _ => true
  | _ => false

end Call

namespace World

open MdbxEnv

variable {w w' : World} {o : Sys} {g : Gor} {self : Thread} {call : Call} {h k : Handle}
  {p q : Ptr} {marked : Bool}

/-- The calls that may begin the top-level transaction: a parent that has ended is none. -/
def beginsBasal (w : World) : Call → Bool
  | .beginTxn parent flags =>
    (parent.bind fun h => (w.txns h).ptr).isNone && flags &&& txnRdonly == 0
  | .runTxn flags => flags &&& txnRdonly == 0
  | .sub h => (w.txns h).ptr.isNone
  | .amendLocked => true
  | _ => false

/-! ### What is asked of a program -/

/-- An unpark does what its `Txn` takes it to have done. -/
def UnparkSound (w : World) : Event → Prop
  | .go _ self o call =>
    ∀ x ∈ call.unparks, w.mismatched self x.1 = false → ∀ r ∈ w.lib.readerAt (w.txns x.1).ptr,
      r.UnparkReady o w.lib.fatal x.2 (w.txns x.1).id (w.txns x.1).parked
  | _ => True

/-- A `Txn` that is watched keeps its transaction: no other one ends it, starts it anew or begins in
its place. -/
def Spared (watched : Txn → Bool) (w : World) : Event → Prop
  | .go g self _ call =>
    (∀ h ∈ w.ends g call, w.refuses self h call = false → w.lib.fatal = false →
      ∀ p ∈ (w.txns h).ptr, ∀ k < w.next, k ≠ h → watched (w.txns k) = true →
        ∀ q ∈ (w.txns k).ptr, ¬ w.lib.Inside p q) ∧
    (∀ h ∈ call.restarts, w.refuses self h call = false →
      ∀ p ∈ (w.txns h).ptr, ∀ k < w.next, k ≠ h → watched (w.txns k) = true →
        ∀ q ∈ (w.txns k).ptr, q ≠ p) ∧
    (w.beginsBasal call = true → w.lib.basal.finished = true →
      ∀ k < w.next, watched (w.txns k) = true → (w.txns k).ptr ≠ some .basal)
  | _ => True

/-- The `Txn` remembers an id. -/
def remembers (x : Txn) : Bool := x.id != 0

/-- A `Txn` that remembers an id keeps its transaction. -/
abbrev Undisturbed (w : World) : Event → Prop := w.Spared remembers

/-- After a fatal error no parked reader is reset, renewed or unparked. -/
def ParkSeen (w : World) : Event → Prop
  | .go _ self _ call =>
    (∀ h ∈ call.resets, (w.txns h).managed = false → w.lib.fatal = true →
      ∀ r ∈ w.lib.readerAt (w.txns h).ptr, r.isParked = false) ∧
    (∀ x ∈ call.unparks, w.mismatched self x.1 = false → w.lib.fatal = true →
      ∀ r ∈ w.lib.readerAt (w.txns x.1).ptr, r.isParked = false)
  | _ => True

/-- A reader is cloned while it is parked, or parked by `Amend`, only for a `Txn` that is marked as
parked; and a reader that a failed `CloneInto` or `Amend` resets has no id that its `Txn`
remembers. -/
def CrossSound (w : World) : Event → Prop
  | .go g self o call =>
    (∀ h ∈ call.clones, o.alloc.isNone = true → w.lib.cloneParks o (w.txns h).ptr = false) ∧
    (∀ x ∈ call.clonesInto, (w.txns x.2).readonly = true →
      ∀ p ∈ (w.txns x.2).ptr, ∀ a ∈ p.reader?, ∀ t ∈ w.lib.readers a,
        (w.lib.cloneIntoReady o (w.txns x.1).ptr a t = false →
          (w.txns x.2).id = 0 ∨ (w.txns x.2).parked = true) ∧
        (w.lib.cloneIntoReady o (w.txns x.1).ptr a t = true →
          w.lib.cloneParks o (w.txns x.1).ptr = true → (w.txns x.2).parked = true)) ∧
    (∀ x ∈ call.amends,
      ((w.txns x.1).managed || !(w.txns x.1).readonly || w.mismatched self x.1) = false →
      ∀ r ∈ w.lib.readerAt (w.txns x.1).ptr, w.lib.amendParks o self x.2 r = true →
        (w.txns x.1).parked = true) ∧
    (call = .amendLocked → ∀ f ∈ (w.frames g).head?, ∀ r ∈ w.lib.readerAt (w.txns f.txn).ptr,
      StartReady o w.lib r → o.slotMismatch = true →
        (w.txns f.txn).id = 0 ∨ (w.txns f.txn).parked = true)
  | _ => True

instance (w : World) : (e : Event) → Decidable (w.UnparkSound e)
  | .go _ self o call => inferInstanceAs (Decidable
      (∀ x ∈ call.unparks, w.mismatched self x.1 = false → ∀ r ∈ w.lib.readerAt (w.txns x.1).ptr,
        r.UnparkReady o w.lib.fatal x.2 (w.txns x.1).id (w.txns x.1).parked))
  | .oust _ | .foreignCommit _ _ | .fatal => .isTrue trivial

set_option synthInstance.maxSize 512 in
instance (watched : Txn → Bool) (w : World) : (e : Event) → Decidable (w.Spared watched e)
  | .go g self _ call => inferInstanceAs (Decidable
      ((∀ h ∈ w.ends g call, w.refuses self h call = false → w.lib.fatal = false →
        ∀ p ∈ (w.txns h).ptr, ∀ k < w.next, k ≠ h → watched (w.txns k) = true →
          ∀ q ∈ (w.txns k).ptr, ¬ w.lib.Inside p q) ∧
      (∀ h ∈ call.restarts, w.refuses self h call = false →
        ∀ p ∈ (w.txns h).ptr, ∀ k < w.next, k ≠ h → watched (w.txns k) = true →
          ∀ q ∈ (w.txns k).ptr, q ≠ p) ∧
      (w.beginsBasal call = true → w.lib.basal.finished = true →
        ∀ k < w.next, watched (w.txns k) = true → (w.txns k).ptr ≠ some .basal)))
  | .oust _ | .foreignCommit _ _ | .fatal => .isTrue trivial

instance (w : World) : (e : Event) → Decidable (w.ParkSeen e)
  | .go _ self _ call => inferInstanceAs (Decidable
      ((∀ h ∈ call.resets, (w.txns h).managed = false → w.lib.fatal = true →
        ∀ r ∈ w.lib.readerAt (w.txns h).ptr, r.isParked = false) ∧
      (∀ x ∈ call.unparks, w.mismatched self x.1 = false → w.lib.fatal = true →
        ∀ r ∈ w.lib.readerAt (w.txns x.1).ptr, r.isParked = false)))
  | .oust _ | .foreignCommit _ _ | .fatal => .isTrue trivial

set_option synthInstance.maxSize 512 in
instance (w : World) : (e : Event) → Decidable (w.CrossSound e)
  | .go g self o call => inferInstanceAs (Decidable
      ((∀ h ∈ call.clones, o.alloc.isNone = true → w.lib.cloneParks o (w.txns h).ptr = false) ∧
      (∀ x ∈ call.clonesInto, (w.txns x.2).readonly = true →
        ∀ p ∈ (w.txns x.2).ptr, ∀ a ∈ p.reader?, ∀ t ∈ w.lib.readers a,
          (w.lib.cloneIntoReady o (w.txns x.1).ptr a t = false →
            (w.txns x.2).id = 0 ∨ (w.txns x.2).parked = true) ∧
          (w.lib.cloneIntoReady o (w.txns x.1).ptr a t = true →
            w.lib.cloneParks o (w.txns x.1).ptr = true → (w.txns x.2).parked = true)) ∧
      (∀ x ∈ call.amends,
        ((w.txns x.1).managed || !(w.txns x.1).readonly || w.mismatched self x.1) = false →
        ∀ r ∈ w.lib.readerAt (w.txns x.1).ptr, w.lib.amendParks o self x.2 r = true →
          (w.txns x.1).parked = true) ∧
      (call = .amendLocked → ∀ f ∈ (w.frames g).head?, ∀ r ∈ w.lib.readerAt (w.txns f.txn).ptr,
        StartReady o w.lib r → o.slotMismatch = true →
          (w.txns f.txn).id = 0 ∨ (w.txns f.txn).parked = true)))
  | .oust _ | .foreignCommit _ _ | .fatal => .isTrue trivial

/-! ### Pointers to nested transactions -/

/-- The pointers to nested transactions are to memory that was allocated. -/
def Below (w : World) : Prop := ∀ h b, (w.txns h).ptr = some (.nested b) → b < w.lib.brk

theorem Own.nestedPtr {b : Addr} (own : Own o g self call h w w')
    (hp : (w'.txns h).ptr = some (.nested b)) : (w.txns h).ptr = some (.nested b) := by
  cases own with
  | kept _ hsame => rwa [hsame.ptr] at hp
  | rolledBack _ _ _ htxn => rwa [htxn] at hp
  | committed _ _ _ _ htxn =>
    rw [htxn] at hp
    cases hp
  | aborted _ _ _ htxn =>
    rw [htxn] at hp
    cases hp
  | checkpointed _ _ _ htxn =>
    rw [htxn] at hp
    split at hp
    · exact hp
    · cases hp
  | embarked _ _ hlib hptr _ _ _ =>
    rw [hptr] at hp
    split at hp
    · cases hp
    · cases hq : (w.txns h).ptr with
      | none =>
        rw [hq] at hlib
        have hnull : none = some (Ptr.nested b) :=
          (congrArg (·.2.2) (Option.some.inj hlib)).trans hp
        cases hnull
      | some q =>
        rw [hq] at hlib
        rcases mdbxTxnCommitEmbarkRead_ptr hlib hp with ⟨rfl, _⟩ | ⟨hnew, _⟩
        · rfl
        · cases hnew

theorem exec_below (ok : w.lib.Ok) (below : w.Below) (act : Act o g self call w w') : w'.Below := by
  have hbrk := act.brk ok
  intro k b hp
  have hold : (w.txns k).ptr = some (.nested b) → b < w'.lib.brk :=
    fun hp => Nat.lt_of_lt_of_le (below k b hp) hbrk
  cases act with
  | through h _ ht =>
    by_cases hk : k = h
    · subst hk
      exact hold (ht.own.nestedPtr hp)
    · rw [ht.others k hk] at hp
      exact hold hp
  | refused _ _ htxns _ _ =>
    rw [htxns] at hp
    exact hold hp
  | began _ hbegan hm hother =>
    by_cases hk : k = w.next
    · subst hk
      rw [hm.ptr] at hp
      cases hbegan with
      | reader _ _ _ _ _ => cases hp
      | basal _ _ _ => cases hp
      | nested _ _ _ _ _ _ _ _ _ _ hlib =>
        cases hp
        rw [hlib]
        exact Nat.lt_succ_self w.lib.brk
    · rw [hother k hk] at hp
      exact hold hp
  | cloned _ _ hm hother =>
    by_cases hk : k = w.next
    · subst hk
      rw [hm.ptr] at hp
      cases hp
    · rw [hother k hk] at hp
      exact hold hp
  | tooOld _ _ _ htxns _ _ =>
    rw [htxns] at hp
    exact hold hp
  | @amended h _ flags _ _ _ _ hm hother hself =>
    by_cases hk : k = w.next
    · subst hk
      rw [hm.ptr] at hp
      cases hp
    · by_cases hkh : k = h
      · subst hkh
        rw [hself hk] at hp
        split at hp
        · cases hp
        · exact hold hp
      · rw [hother k hk hkh] at hp
        exact hold hp

theorem step_below (ok : w.lib.Ok) (below : w.Below) {e : Event} {r : World × Reply}
    (hr : w.step e = some r) : r.1.Below := by
  rcases step_cases hr with ⟨g, self, o, call, _, _, _, hexec⟩ | ⟨a, x, _, _, rfl⟩ |
    ⟨txnid, changes, _, _, _, _, rfl⟩ | ⟨_, rfl⟩
  · exact exec_below ok below (exec_act ok hexec)
  · exact below
  · exact below
  · exact below

/-- What a run keeps whatever is called: libmdbx is well formed, a program names only the `Txn`
values that it made, and no two of them have one reader. -/
structure Sane (w : World) : Prop where
  ok : w.lib.Ok
  known : w.Known
  separate : w.Separate
  below : w.Below

theorem step_sane (sane : w.Sane) {e : Event} {r : World × Reply} (hr : w.step e = some r) :
    r.1.Sane :=
  ⟨step_ok sane.ok hr, step_known sane.ok sane.known hr, step_separate sane.ok sane.separate hr,
    step_below sane.ok sane.below hr⟩

theorem init_sane (h : system.init w) : w.Sane := by
  refine ⟨init_ok h, init_known h, init_separate h, fun k b hp => ?_⟩
  rw [h.2.1] at hp
  cases hp

theorem sane_of_runs (ok : World → Event → Prop) : system.Invariant ok Sane where
  init _ h := init_sane h
  step w e w' sane _ hstep := by
    obtain ⟨r, hr, rfl⟩ := Option.map_eq_some_iff.mp hstep
    exact step_sane sane hr

/-! ### What happens elsewhere -/

/-- A step leaves the `Txn` `k` and its transaction alone; the id and the end of a writer only when
it is watched. -/
structure Apart (watched : Txn → Bool) (k : Handle) (w w' : World) : Prop where
  txn : w'.txns k = w.txns k
  readers : ∀ a, (w.txns k).ptr = some (.reader a) → w'.lib.readers a = w.lib.readers a
  stamp : watched (w.txns k) = true → ∀ q, (w.txns k).ptr = some q →
    w'.lib.stampAt q = w.lib.stampAt q
  fatal : w.lib.fatal = true → w'.lib.fatal = true

variable {watched : Txn → Bool}

theorem Apart.coherent (apart : Apart remembers k w w') (hc : (w.txns k).Coherent marked w.lib) :
    (w'.txns k).Coherent marked w'.lib := by
  rw [apart.txn]
  cases hp : (w.txns k).ptr with
  | none =>
    refine Txn.coherent_of_zero (hc.id_of_null hp) fun r hr => ?_
    rw [hp] at hr
    cases hr
  | some q =>
    have hsame : w'.lib.readerAt (w.txns k).ptr = w.lib.readerAt (w.txns k).ptr := by
      rw [hp]
      cases q with
      | reader a => exact apart.readers a hp
      | basal => rfl
      | nested a => rfl
    refine hc.carry hsame (fun hne hnone => ?_) apart.fatal
    rw [hp]
    cases q with
    | reader a =>
      simp only [mdbxTxnId, apart.readers a hp]
    | basal => exact mdbxTxnId_of_stampAt (apart.stamp (bne_iff_ne.mpr hne) _ hp) rfl
    | nested a => exact mdbxTxnId_of_stampAt (apart.stamp (bne_iff_ne.mpr hne) _ hp) rfl

/-- A new reader leaves a `Txn` alone. -/
theorem apart_allocReader {r : ReadTxn} (separate : w.Separate)
    (hlib : w'.lib = w.lib.allocReader r)
    (htxn : w'.txns k = w.txns k) : Apart watched k w w' := by
  refine ⟨htxn, fun a ha => ?_, fun _ q _ => ?_, fun hf => hlib ▸ hf⟩
  · rw [hlib]
    exact setReader_other (Nat.ne_of_lt (separate.below k a ha)) _
  · rw [hlib]
    exact stampAt_of_txnAt (txnAt_allocReader _ _ _)

/-- A call through one `Txn` leaves the ids of the writers of the others alone. -/
theorem Through.stampAt (ok : w.lib.Ok) (spared : w.Spared watched (.go g self o call))
    (ht : Through o g self call h w w') (hknown : k < w.next) (hne : k ≠ h)
    (hwatched : watched (w.txns k) = true) (hq : (w.txns k).ptr = some q) :
    w'.lib.stampAt q = w.lib.stampAt q := by
  obtain ⟨hends, hrestarts, _⟩ := spared
  have heff := ht.own.effect ok
  cases hp : (w.txns h).ptr with
  | none =>
    rw [hp] at heff
    rw [show w'.lib = w.lib from heff]
  | some p =>
    rw [hp] at heff
    have heff : Effect p w.lib w'.lib := heff
    have hended : w.ends g call = some h → w.refuses self h call = false →
        (w.lib.fatal = true → w'.lib = w.lib) → w'.lib.stampAt q = w.lib.stampAt q := by
      intro hend href hrefused
      cases hfatal : w.lib.fatal with
      | true => rw [hrefused hfatal]
      | false => exact heff.stampAt (hends h hend href hfatal p hp k hknown hne hwatched q hq)
    have hrestarted : call.restarts = some h → w.refuses self h call = false →
        (∀ t, w.lib.write? p = some (t, true) → w'.lib = w.lib) →
        w'.lib.stampAt q = w.lib.stampAt q := by
      intro hrestart href hblocked
      exact stampAt_restarted heff (hrestarts h hrestart href p hp k hknown hne hwatched q hq)
        hblocked
    cases ht.own with
    | kept hlib _ =>
      rw [hp] at hlib
      exact Local.stampAt hlib
    | rolledBack hcall href hlib _ =>
      rw [hp] at hlib
      exact hrestarted (by rw [hcall]; rfl) href fun t ht => mdbxTxnRollback_blocked ht hlib
    | committed _ hend href hlib _ =>
      exact hended hend href fun hf => hlib.trans (mdbxTxnCommitEx_fatal hf _)
    | aborted hend href hlib _ =>
      exact hended hend href fun hf => hlib.trans (mdbxTxnAbort_fatal hf _)
    | checkpointed hcall href hlib _ =>
      rw [hp] at hlib
      exact hrestarted (by rw [hcall]; rfl) href fun t ht => mdbxTxnCheckpoint_blocked ht hlib
    | embarked hcall href hlib _ _ _ _ =>
      rw [hp] at hlib
      exact hrestarted (by rw [hcall]; rfl) href fun t ht => mdbxTxnCommitEmbarkRead_blocked ht hlib

/-- A call through one `Txn` leaves the others alone. -/
theorem Through.apart (sane : w.Sane) (spared : w.Spared watched (.go g self o call))
    (ht : Through o g self call h w w') (hknown : k < w.next) (hne : k ≠ h) :
    Apart watched k w w' := by
  have heff := ht.own.effect sane.ok
  refine ⟨ht.others k hne, fun a ha => ?_,
    fun hwatched q hq => ht.stampAt sane.ok spared hknown hne hwatched hq, ?_⟩
  · cases hp : (w.txns h).ptr with
    | none =>
      rw [hp] at heff
      rw [show w'.lib = w.lib from heff]
    | some p =>
      rw [hp] at heff
      have heff : Effect p w.lib w'.lib := heff
      refine heff.readers a ?_ (sane.separate.below k a ha)
      rintro rfl
      exact hne (sane.separate.unique k h a ha hp)
  · cases hp : (w.txns h).ptr with
    | none =>
      rw [hp] at heff
      rw [show w'.lib = w.lib from heff]
      exact fun hf => hf
    | some p =>
      rw [hp] at heff
      exact Effect.fatal heff

theorem txnAt_allocNested_of_ne {env : MdbxEnv} {u : WriteTxn} (hne : q ≠ .nested env.brk) :
    (env.allocNested u).txnAt q = env.txnAt q := by
  cases q with
  | reader a => rfl
  | basal => rfl
  | nested a =>
    have ha : (env.brk == a) = false := by
      rw [beq_eq_false_iff_ne]
      rintro rfl
      exact hne rfl
    simp [txnAt, allocNested, List.find?_append, ha]

/-- A call that may begin a transaction leaves those that were there alone. -/
theorem Began.apart {parent ptr : Option Ptr} {code : Code}
    (hbegan : Began self parent w.next w.lib w'.lib code ptr) (sane : w.Sane)
    (hbasal : w'.lib.basal = w.lib.basal ∨ (w.lib.basal.finished = true →
      watched (w.txns k) = true → (w.txns k).ptr ≠ some .basal))
    (htxn : w'.txns k = w.txns k) : Apart watched k w w' := by
  have hlive : ∀ {q}, (w.txns k).ptr = some q → watched (w.txns k) = true → q = .basal →
      w'.lib.basal = w.lib.basal ∨ w.lib.basal.finished = false := by
    rintro q hq hwatched rfl
    refine hbasal.imp_right fun hnot => ?_
    by_contra hfin
    exact hnot (by simpa using hfin) hwatched hq
  cases hbegan with
  | refused _ href =>
    refine ⟨htxn, fun a _ => congrFun href.rest.readers a, fun hwatched q hq => ?_,
      fun hf => href.rest.fatal.trans hf⟩
    by_cases hqb : q = .basal
    · rcases hlive hq hwatched hqb with hsame | hlive
      · subst hqb
        exact stampAt_of_txnAt (by simp [txnAt, hsame])
      · exact href.stampAt fun _ => hlive
    · exact href.stampAt fun h => absurd h hqb
  | reader _ _ _ _ hlib => exact apart_allocReader sane.separate hlib htxn
  | basal _ _ hst =>
    refine ⟨htxn, fun a _ => congrFun hst.rest.readers a, fun hwatched q hq => ?_,
      fun hf => hst.rest.fatal.trans hf⟩
    cases q with
    | reader a => rfl
    | nested a => simp [stampAt, txnAt, hst.nested.1, hst.nested.2]
    | basal =>
      -- there is no other writer when one starts
      rcases hlive hq hwatched rfl with hsame | hlive
      · have hidle := hst.idle
        rw [← hsame, hst.live] at hidle
        cases hidle
      · rw [hst.idle] at hlive
        cases hlive
  | nested _ _ _ _ _ _ _ _ _ _ hlib =>
    refine ⟨htxn, fun a _ => by rw [hlib]; rfl, fun _ q hq => ?_, fun hf => hlib ▸ hf⟩
    rw [hlib]
    refine stampAt_of_txnAt (txnAt_allocNested_of_ne ?_)
    rintro rfl
    exact absurd (sane.below k _ hq) (Nat.lt_irrefl _)

/-- The rest of an `Amend` leaves the `Txn` values other than the one that it is about alone. -/
theorem Amended.apart {a : Addr} {flags : UInt32} {code : Code} {ptr : Option Ptr}
    (ham : Amended self a w.next flags w.lib w'.lib code ptr)
    (hbasal : w.lib.basal.finished = true → watched (w.txns k) = true →
      (w.txns k).ptr ≠ some .basal)
    (hother : (w.txns k).ptr ≠ some (.reader a)) (htxn : w'.txns k = w.txns k) :
    Apart watched k w w' := by
  have hreader : ∀ b, (w.txns k).ptr = some (.reader b) →
      w'.lib.readers b = w.lib.readers b := by
    intro b hb
    refine Amended.readers ham ?_
    rintro rfl
    exact hother hb
  cases ham with
  | refused _ href hlocal =>
    refine ⟨htxn, hreader, fun hwatched q hq => ?_,
      fun hf => hlocal.fatal.trans (href.rest.fatal.trans hf)⟩
    rw [hlocal.stampAt]
    refine href.stampAt fun hqb => ?_
    subst hqb
    by_contra hfin
    exact hbasal (by simpa using hfin) hwatched hq
  | started _ hst hlib _ _ _ =>
    refine ⟨htxn, hreader, fun hwatched q hq => ?_,
      fun hf => by rw [hlib]; exact hst.rest.fatal.trans hf⟩
    cases q with
    | reader b => rfl
    | nested b =>
      rw [hlib]
      simp [stampAt, txnAt, setReader, hst.nested.1, hst.nested.2]
    | basal => exact absurd hq (hbasal hst.idle hwatched)

/-! ### Calls that make a `Txn` -/

/-- What `mdbx_txn_begin` leaves alone when it does not begin the top-level transaction. -/
theorem mdbxTxnBegin_basal {env : MdbxEnv} {parent : Option Ptr} {flags : UInt32} {client : Handle}
    (hnot : parent = none → flags &&& txnRdonly ≠ 0) {r : MdbxEnv × Code × Option Ptr}
    (hr : env.mdbxTxnBegin o self parent flags client = some r) : r.1.basal = env.basal := by
  unfold mdbxTxnBegin at hr
  split at hr
  · cases hr
    rfl
  · split at hr
    · cases hr
      unfold beginNested
      split
      · rfl
      · split
        · split <;> rfl
        · dsimp only
          split
          · rfl
          · split
            · rfl
            · split <;> rfl
    · rw [if_pos (by simpa using hnot rfl)] at hr
      cases hr
      unfold beginRo
      split
      · rfl
      · split
        · rfl
        · dsimp only
          split <;> rfl

theorem beginTxn_basal {parent : Option Handle} {flags : UInt32} {r : World × Returned}
    (hnot : ((parent.bind fun h => (w.txns h).ptr).isNone && flags &&& txnRdonly == 0) = false)
    (hr : w.beginTxn o self parent flags = some r) : r.1.lib.basal = w.lib.basal := by
  obtain ⟨c, hc, rfl⟩ := Option.map_eq_some_iff.mp hr
  have hsame := mdbxTxnBegin_basal (fun hp => by simpa [hp] using hnot) hc
  split <;> exact hsame

/-- What a call that begins a transaction does. -/
structure Opens (self : Thread) (parent : Option Handle) (basal : Bool) (w w' : World) : Prop where
  began : ∃ code ptr,
    Began self (parent.bind fun h => (w.txns h).ptr) w.next w.lib w'.lib code ptr ∧
    (w'.next = w.next ∨ ∃ p, ptr = some p ∧ Made self p w w')
  others : ∀ k, k ≠ w.next → w'.txns k = w.txns k
  basal : basal = false → w'.lib.basal = w.lib.basal

theorem beginTxn_opens (ok : w.lib.Ok) {parent : Option Handle} {flags : UInt32}
    {r : World × Returned} (hr : w.beginTxn o self parent flags = some r) :
    Opens self parent ((parent.bind fun h => (w.txns h).ptr).isNone && flags &&& txnRdonly == 0)
      w r.1 ∧ ∀ k, r.2.txn = some k → k = w.next ∧ (r.1.txns k).managed = false := by
  obtain ⟨code, ptr, hbegan, _, hother, hend⟩ := beginTxn_cases ok hr
  rcases hend with ⟨hptr, htxn, _, hnext, _⟩ | ⟨p, hptr, htxn, hmade, hmanaged⟩
  · refine ⟨⟨⟨code, ptr, hbegan, .inl hnext⟩, hother, fun hnot => beginTxn_basal hnot hr⟩, ?_⟩
    intro k hk
    rw [htxn] at hk
    cases hk
  · refine ⟨⟨⟨code, ptr, hbegan, .inr ⟨p, hptr, hmade⟩⟩, hother,
      fun hnot => beginTxn_basal hnot hr⟩, ?_⟩
    intro k hk
    rw [htxn] at hk
    cases hk
    exact ⟨rfl, hmanaged⟩

/-- The new `Txn` is marked as managed and its function entered. -/
theorem Opens.runs {parent : Option Handle} {basal : Bool} {kind : FrameKind}
    (ho : Opens self parent basal w w') :
    Opens self parent basal w ((w'.setManaged true w.next).push g kind w.next) := by
  obtain ⟨⟨code, ptr, hbegan, hend⟩, hother, hbasal⟩ := ho
  refine ⟨⟨code, ptr, hbegan, ?_⟩, fun k hk => (setManaged_other hk).trans (hother k hk), hbasal⟩
  exact hend.imp_right fun ⟨p, hp, hmade⟩ => ⟨p, hp, hmade.setManaged.push⟩

theorem exec_opens (ok : w.lib.Ok) {parent : Option Handle} (ho : call.opens = some parent)
    {r : World × Reply} (hr : w.exec o g self call = some r) :
    Opens self parent (w.beginsBasal call) w r.1 := by
  cases call with
  | beginTxn parent flags =>
    cases ho
    obtain ⟨c, hc, rfl⟩ := Option.map_eq_some_iff.mp hr
    exact (beginTxn_opens ok hc).1
  | runTxn flags =>
    cases ho
    obtain ⟨c, hc, rfl⟩ := Option.map_eq_some_iff.mp hr
    obtain ⟨hopens, hnew⟩ := beginTxn_opens ok hc
    split
    · exact hopens
    · rename_i k hk
      obtain ⟨rfl, hmanaged⟩ := hnew k hk
      unfold runOpTerm unmanaged
      rw [hmanaged]
      exact hopens.runs
  | sub h =>
    cases ho
    obtain ⟨c, hc, rfl⟩ := Option.map_eq_some_iff.mp hr
    obtain ⟨hopens, hnew⟩ := beginTxn_opens ok hc
    have hopens : Opens self (some h) (w.txns h).ptr.isNone w c.1 := by simpa using hopens
    split
    · exact hopens
    · rename_i k hk
      obtain ⟨rfl, _⟩ := hnew k hk
      exact hopens.runs
  | _ => cases ho

end World

end MdbxGo
