import MdbxGo.Libmdbx.Parking
import MdbxGo.Libmdbx.Session
import MdbxGo.Mdbx.Stack

/-! What a `Txn` remembers of its transaction, its id and whether it is parked, and when that is
what libmdbx holds. -/

namespace MdbxGo

/-- The address of a reader. -/
def Ptr.reader? : Ptr → Option Addr
  | .reader a => some a
  | _ => none

namespace MdbxEnv

open WriteTxn

variable {env env' : MdbxEnv} {o : Sys} {self : Thread} {p q : Ptr}

/-! ### The id of the transaction at a pointer -/

/-- The reader at a pointer. -/
def readerAt (env : MdbxEnv) : Option Ptr → Option ReadTxn
  | some (.reader a) => env.readers a
  | _ => none

theorem mdbxTxnId_reader {ptr : Option Ptr} {r : ReadTxn} (h : env.readerAt ptr = some r) :
    env.mdbxTxnId ptr = r.txnid := by
  cases ptr with
  | none => cases h
  | some p =>
    cases p with
    | reader a =>
      have h : env.readers a = some r := h
      simp [mdbxTxnId, h]
    | basal => cases h
    | nested a => cases h

theorem mdbxTxnId_write (hw : q.writes = true) :
    env.mdbxTxnId (some q) = ((env.txnAt q).map (·.txnid)).getD 0 := by
  cases q with
  | reader a => cases hw
  | basal => rfl
  | nested a =>
    simp only [mdbxTxnId, write?, txnAt, find?_eq_head?_inner]
    cases env.inner a <;> rfl

/-- The id of the write transaction at a pointer, and whether it has ended. -/
def stampAt (env : MdbxEnv) (q : Ptr) : Option (UInt64 × Bool) :=
  (env.txnAt q).map fun t => (t.txnid, t.finished)

theorem stampAt_of_txnAt (h : env'.txnAt q = env.txnAt q) : env'.stampAt q = env.stampAt q := by
  rw [stampAt, stampAt, h]

theorem mdbxTxnId_of_stampAt (h : env'.stampAt q = env.stampAt q) (hw : q.writes = true) :
    env'.mdbxTxnId (some q) = env.mdbxTxnId (some q) := by
  have hid : ∀ env : MdbxEnv, (env.txnAt q).map (·.txnid) = (env.stampAt q).map (·.1) := by
    intro env
    rw [stampAt, Option.map_map]
    rfl
  rw [mdbxTxnId_write hw, mdbxTxnId_write hw, hid, hid, h]

@[simp] theorem absorb_txnid (t : WriteTxn) (merged : Option WriteTxn) :
    (t.absorb merged).txnid = t.txnid := by
  cases merged <;> rfl

/-- Memory that was freed is not used again. -/
theorem Effect.txnAt_none (heff : Effect p env env') (hq : env.txnAt q = none) :
    env'.txnAt q = none := by
  cases q with
  | reader a => rfl
  | basal => cases hq
  | nested a =>
    simp only [txnAt, List.find?_eq_none] at hq ⊢
    intro u hu
    obtain ⟨t, ht, hk⟩ := heff.nested.mem hu
    rw [hk.addr]
    exact hq t ht

/-- A call through `p` leaves the transactions outside `p` live, under their ids. -/
theorem Effect.stampAt (heff : Effect p env env') (hout : ¬ env.Inside p q) :
    env'.stampAt q = env.stampAt q := by
  unfold MdbxEnv.stampAt
  cases hq : env.txnAt q with
  | none => rw [heff.txnAt_none hq]
  | some t =>
    obtain ⟨m, hm⟩ := heff.outside q t hout hq
    simp [hm]

theorem Local.fatal (h : Local p env env') : env'.fatal = env.fatal := by
  cases h with
  | refl => rfl
  | reader _ _ _ _ => rfl
  | write _ _ _ => cases p <;> rfl

theorem Local.stampAt (h : Local p env env') : env'.stampAt q = env.stampAt q := by
  rcases h.txnAt q with hsame | ⟨rfl, t, u, ht, hu, hk, hfin⟩
  · exact stampAt_of_txnAt hsame
  · simp [MdbxEnv.stampAt, ht, hu, hk.txnid, hfin]

theorem Local.reader_none {a : Addr} (h : Local (.reader a) env env') (hr : env.readers a = none) :
    env' = env := by
  cases h with
  | refl => rfl
  | reader _ hb hr' _ =>
    cases hb
    rw [hr] at hr'
    cases hr'
  | write hw _ _ => cases hw

theorem Local.readerAt_none (h : Local p env env') (hs : env'.readerAt (some p) = none) :
    env.readerAt (some p) = none ∧ env'.mdbxTxnId (some p) = env.mdbxTxnId (some p) := by
  cases p with
  | basal => exact ⟨rfl, mdbxTxnId_of_stampAt h.stampAt rfl⟩
  | nested a => exact ⟨rfl, mdbxTxnId_of_stampAt h.stampAt rfl⟩
  | reader a =>
    have hs : env'.readers a = none := hs
    have hr : env.readers a = none := by
      cases hr : env.readers a with
      | none => rfl
      | some r =>
        cases h with
        | refl => rw [hr] at hs; cases hs
        | reader r' hb _ _ =>
          cases hb
          rw [setReader_self] at hs
          cases hs
        | write hw _ _ => cases hw
    exact ⟨hr, by rw [h.reader_none hr]⟩

/-- The calls that restart a transaction leave all but that one alone: with another one inside it
they are refused. -/
theorem stampAt_restarted (heff : Effect p env env') (hne : q ≠ p)
    (hblocked : ∀ t, env.write? p = some (t, true) → env' = env) :
    env'.stampAt q = env.stampAt q := by
  by_cases hin : env.Inside p q
  · cases hq : env.txnAt q with
    | none => exact stampAt_of_txnAt ((heff.txnAt_none hq).trans hq.symm)
    | some t =>
      cases q with
      | reader a => cases hq
      | basal =>
        cases p with
        | basal => exact absurd rfl hne
        | nested a => exact hin.elim
        | reader a => exact hin.elim
      | nested a =>
        obtain ⟨u, hu⟩ := hasChild_of_inside hne hin (session_nested.mpr ⟨t, hq, rfl⟩)
        rw [hblocked u hu]
  · exact heff.stampAt hin

/-- A refused call changes the id of the top-level transaction only when there is none. -/
theorem Refused.stampAt (href : Refused env env')
    (hbasal : q = .basal → env.basal.finished = false) :
    env'.stampAt q = env.stampAt q := by
  refine stampAt_of_txnAt ?_
  cases q with
  | reader a => rfl
  | nested a => simp [MdbxEnv.txnAt, href.nested]
  | basal =>
    rcases href.basal with hsame | ⟨hfin, _⟩
    · simp [MdbxEnv.txnAt, hsame]
    · rw [hbasal rfl] at hfin
      cases hfin

theorem mdbxTxnAbort_fatal (h : env.fatal = true) (ptr : Option Ptr) :
    (env.mdbxTxnAbort o self ptr).1 = env := by
  unfold mdbxTxnAbort
  simp only [h, if_true]
  split
  · rfl
  · split <;> rfl
  · split <;> rfl
  · split
    · rfl
    · split <;> rfl

/-- After a fatal error no commit gets to the transaction. -/
theorem mdbxTxnCommitEx_fatal (h : env.fatal = true) (ptr : Option Ptr) :
    (env.mdbxTxnCommitEx o self ptr).1 = env := by
  unfold mdbxTxnCommitEx commitBasal
  simp only [h, if_true]
  split
  · rfl
  · split
    · rfl
    · split
      · exact mdbxTxnAbort_fatal h _
      · rfl
  · split <;> rfl
  · split
    · rfl
    · split <;> rfl

/-- The pointer that the change to a reader leaves: the old one, or that of the new reader. -/
theorem mdbxTxnCommitEmbarkRead_ptr {r : MdbxEnv × Code × Option Ptr}
    (h : env.mdbxTxnCommitEmbarkRead o self (some p) = some r) (hq : r.2.2 = some q) :
    q = p ∧ (p.writes = false → r.1 = env) ∨
      q = .reader env.brk ∧ env.brk < r.1.brk ∧
        ∀ x, r.1.readers env.brk = some x → x.isParked = false := by
  simp only [mdbxTxnCommitEmbarkRead] at h
  split at h
  · cases h
    cases hq
    exact .inl ⟨rfl, fun _ => rfl⟩
  · rename_i t hasChild hw
    have hwrites : p.writes = true := writes_of_txnAt (txnAt_of_write? hw)
    have hold : q = p → q = p ∧ (p.writes = false → r.1 = env) := by
      intro hsame
      refine ⟨hsame, fun hno => ?_⟩
      rw [hwrites] at hno
      cases hno
    split at h
    · cases h
      cases hq
      exact .inl (hold rfl)
    · split at h
      · cases h
        cases hq
        exact .inl (hold rfl)
      · split at h
        · cases h
          cases hq
          exact .inl (hold rfl)
        · cases p with
          | reader a => cases hw
          | nested a =>
            cases h
            dsimp only at hq
            split at hq
            · cases hq
              exact .inl (hold rfl)
            · cases hq
          | basal =>
            obtain ⟨hbrk, hreaders, _, _⟩ := txnBasalCommit_same (o := o) env
            dsimp only at h
            unfold basalEmbarkRead at h
            dsimp only at h
            split at h
            · cases h
              cases hq
            · split at h
              · cases h
              · split at h
                · cases h
                  cases hq
                · split at h
                  · cases h
                    cases hq
                  · cases h
                    cases hq
                    refine .inr ⟨congrArg Ptr.reader hbrk, ?_, fun x hx => ?_⟩
                    · exact hbrk ▸ Nat.lt_succ_self _
                    · rw [← hbrk] at hx
                      have hx : some _ = some x := (setReader_self _ _ _).symm.trans hx
                      rw [← Option.some.inj hx]
                      exact ReadTxn.txnRoStart_isParked _ false

end MdbxEnv

namespace Txn

variable {marked fatal : Bool} {env env' : MdbxEnv} {x y : Txn} {r s : ReadTxn}

/-! ### What a `Txn` remembers -/

/-- What a `Txn` remembers of its reader: its id, unless a read has reset the reader while it was
parked, and whether it is parked. Without `marked` it may have forgotten that after a fatal error,
when nothing can unpark the reader any more. -/
structure Agrees (marked fatal : Bool) (x : Txn) (r : ReadTxn) : Prop where
  id : x.id = 0 ∨ x.id = r.txnid ∨ x.parked = true ∧ r.finished = true
  parked : r.isParked = true → x.parked = true ∨ marked = false ∧ fatal = true

/-- What a `Txn` remembers of its transaction. -/
structure Coherent (marked : Bool) (env : MdbxEnv) (x : Txn) : Prop where
  reader : ∀ r, env.readerAt x.ptr = some r → x.Agrees marked env.fatal r
  other : env.readerAt x.ptr = none → x.id = 0 ∨ x.id = env.mdbxTxnId x.ptr

theorem Agrees.of_zero (h : x.id = 0)
    (hparked : r.isParked = true → x.parked = true ∨ marked = false ∧ fatal = true) :
    x.Agrees marked fatal r := ⟨.inl h, hparked⟩

/-- Nothing is remembered wrongly by a `Txn` without an id. -/
theorem coherent_of_zero (h : x.id = 0)
    (hparked : ∀ r, env.readerAt x.ptr = some r → r.isParked = true →
      x.parked = true ∨ marked = false ∧ env.fatal = true) : x.Coherent marked env :=
  ⟨fun r hr => .of_zero h (hparked r hr), fun _ => .inl h⟩

theorem coherent_clearTxn (x : Txn) : x.clearTxn.Coherent marked env :=
  coherent_of_zero rfl fun _ hr => by cases hr

theorem Agrees.alike (h : x.Agrees marked fatal r) (hs : r.Alike s) : x.Agrees marked fatal s := by
  refine ⟨?_, fun hp => h.parked ?_⟩
  · rw [hs.txnid, hs.finished]
    exact h.id
  · rwa [ReadTxn.isParked, hs.parked, hs.finished] at hp

theorem Agrees.congr (h : x.Agrees marked fatal r) (hid : y.id = x.id)
    (hparked : y.parked = x.parked) : y.Agrees marked fatal r := by
  refine ⟨?_, fun hp => ?_⟩
  · rw [hid, hparked]
    exact h.id
  · rw [hparked]
    exact h.parked hp

/-- A reader that a read may have unparked. -/
theorem Agrees.unparked {t : ReadTxn} (h : x.Agrees marked fatal r)
    (hu : ReadTxn.Unparked fatal r s) (ht : s.Alike t) : x.Agrees marked fatal t := by
  rcases hu.alike ht with hsame | ⟨hfatal, hparked, hnot, hid⟩
  · exact h.alike hsame
  · have hx : x.parked = true := by simpa [hfatal] using h.parked hparked
    refine ⟨?_, fun hp => .inl hx⟩
    rcases hid with hid | hfin
    · rw [hid]
      rcases h.id with hzero | hsame | ⟨_, hfin⟩
      · exact .inl hzero
      · exact .inr (.inl hsame)
      · rw [ReadTxn.isParked_of_finished hfin] at hparked
        cases hparked
    · exact .inr (.inr ⟨hx, hfin⟩)

/-- What happens elsewhere leaves a `Txn` coherent. -/
theorem Coherent.carry (h : x.Coherent marked env)
    (hreader : env'.readerAt x.ptr = env.readerAt x.ptr)
    (hid : x.id ≠ 0 → env'.readerAt x.ptr = none → env'.mdbxTxnId x.ptr = env.mdbxTxnId x.ptr)
    (hfatal : env.fatal = true → env'.fatal = true) : x.Coherent marked env' := by
  refine ⟨fun r hr => ?_, fun hr => ?_⟩
  · have hagree := h.reader r (hreader ▸ hr)
    exact ⟨hagree.id, fun hp => (hagree.parked hp).imp_right fun ⟨hm, hf⟩ => ⟨hm, hfatal hf⟩⟩
  · by_cases hzero : x.id = 0
    · exact .inl hzero
    · rw [hid hzero hr]
      exact h.other (hreader ▸ hr)

theorem Coherent.congr (h : x.Coherent marked env) (hptr : y.ptr = x.ptr) (hid : y.id = x.id)
    (hparked : y.parked = x.parked) : y.Coherent marked env := by
  refine ⟨fun r hr => ?_, fun hr => ?_⟩
  · rw [hptr] at hr
    exact (h.reader r hr).congr hid hparked
  · rw [hptr] at hr
    rw [hid, hptr]
    exact h.other hr

/-- A `Txn` without a transaction has no id. -/
theorem Coherent.id_of_null (h : x.Coherent marked env) (hptr : x.ptr = none) : x.id = 0 := by
  have hother := h.other (by rw [hptr]; rfl)
  rw [hptr] at hother
  exact hother.elim (fun h => h) fun h => h

end Txn

namespace World

open MdbxEnv

variable {w w' : World} {o : Sys} {g : Gor} {self : Thread} {call : Call} {h k : Handle}
  {p q : Ptr} {marked : Bool}

/-- What `ID` returns for a coherent `Txn` is the id of its transaction. -/
theorem idOf_eq_getID (hc : (w.txns h).Coherent marked w.lib) : w.idOf h = w.getID h := by
  unfold idOf
  split
  · rfl
  · rename_i hparked
    split
    · rfl
    · rename_i hid
      have hid : (w.txns h).id ≠ 0 := by simpa using hid
      cases hr : w.lib.readerAt (w.txns h).ptr with
      | none => exact (hc.other hr).resolve_left hid
      | some r =>
        rcases (hc.reader r hr).id with hzero | hsame | ⟨hpark, _⟩
        · exact absurd hzero hid
        · rw [getID, mdbxTxnId_reader hr, hsame]
        · exact absurd hpark hparked

/-! ### A call through the `Txn` itself -/

/-- A method that makes one local call of libmdbx. -/
theorem call_coherent {f : MdbxEnv → Option Ptr → MdbxEnv × Code} {after : Code → Txn → Txn}
    (hc : (w.txns h).Coherent marked w.lib)
    (hf : ∀ p, Local p w.lib (f w.lib (some p)).1)
    (hptr : ∀ code, (after code (w.txns h)).ptr = (w.txns h).ptr)
    (hid : ∀ code, (after code (w.txns h)).id = 0 ∨ (after code (w.txns h)).id = (w.txns h).id)
    (hread : ∀ a r, (w.txns h).ptr = some (.reader a) → w.lib.readers a = some r →
      (w.txns h).Agrees marked w.lib.fatal r →
      ∀ s, (f w.lib (some (.reader a))).1.readers a = some s →
        (after (f w.lib (some (.reader a))).2 (w.txns h)).Agrees marked w.lib.fatal s) :
    ((w.call h f after).1.txns h).Coherent marked (w.call h f after).1.lib := by
  have hself : (w.call h f after).1.txns h = after (f w.lib (w.txns h).ptr).2 (w.txns h) :=
    setTxn_self _ _ _
  have hlib : (w.call h f after).1.lib = (f w.lib (w.txns h).ptr).1 := rfl
  rw [hself, hlib]
  cases hp : (w.txns h).ptr with
  | none =>
    refine Txn.coherent_of_zero ?_ fun r hr => ?_
    · rcases hid (f w.lib none).2 with hzero | hsame
      · exact hzero
      · rw [hsame, hc.id_of_null hp]
    · rw [hptr, hp] at hr
      cases hr
  | some p =>
    have hlocal := hf p
    refine ⟨fun s hs => ?_, fun hs => ?_⟩
    · rw [hptr, hp] at hs
      cases p with
      | basal => cases hs
      | nested a => cases hs
      | reader a =>
        rw [hlocal.fatal]
        cases hr : w.lib.readers a with
        | some r => exact hread a r hp hr (hc.reader r (by rw [hp]; exact hr)) s hs
        | none =>
          rw [hlocal.reader_none hr] at hs
          have hs : w.lib.readers a = some s := hs
          rw [hr] at hs
          cases hs
    · rw [hptr, hp] at hs ⊢
      obtain ⟨hnone, hsame⟩ := hlocal.readerAt_none hs
      rw [hsame]
      rcases hid (f w.lib (some p)).2 with hzero | hold
      · exact .inl hzero
      · rw [hold, ← hp]
        exact hc.other (hp ▸ hnone)

/-- The same for a call that is made on a reader only. -/
theorem onReader_coherent {f : MdbxEnv → Option Ptr → MdbxEnv × Code} {after : Code → Txn → Txn}
    {onto : ReadTxn → ReadTxn × Code} (hc : (w.txns h).Coherent marked w.lib)
    (hf : ∀ p, Local p w.lib (f w.lib (some p)).1)
    (honto : ∀ a, f w.lib (some (.reader a)) = w.lib.onReader a onto)
    (hptr : ∀ code, (after code (w.txns h)).ptr = (w.txns h).ptr)
    (hid : ∀ code, (after code (w.txns h)).id = 0 ∨ (after code (w.txns h)).id = (w.txns h).id)
    (hread : ∀ r, w.lib.readerAt (w.txns h).ptr = some r → (w.txns h).Agrees marked w.lib.fatal r →
      (after (onto r).2 (w.txns h)).Agrees marked w.lib.fatal (onto r).1) :
    ((w.call h f after).1.txns h).Coherent marked (w.call h f after).1.lib := by
  refine call_coherent hc hf hptr hid fun a r hp hr hagree s hs => ?_
  have hsame : w.lib.onReader a onto = (w.lib.setReader a (some (onto r).1), (onto r).2) := by
    simp [onReader, hr]
  rw [honto, hsame] at hs ⊢
  rw [setReader_self] at hs
  cases hs
  exact hread r (by rw [hp]; exact hr) hagree

theorem id_coherent (hc : (w.txns h).Coherent marked w.lib) :
    ((w.id h).txns h).Coherent marked (w.id h).lib := by
  unfold World.id
  split
  · rw [setTxn_self]
    change Txn.Coherent marked w.lib _
    refine ⟨fun r hr => ⟨?_, (hc.reader r hr).parked⟩, fun _ => .inr rfl⟩
    exact .inr (.inl (mdbxTxnId_reader hr))
  · exact hc

theorem get_coherent (hc : (w.txns h).Coherent marked w.lib) :
    ((w.get o h).1.txns h).Coherent marked (w.get o h).1.lib := by
  unfold get
  dsimp only
  refine onReader_coherent hc mdbxGet_local (fun _ => rfl) (fun _ => rfl) (fun _ => .inr rfl) ?_
  intro r _ hagree
  obtain ⟨s, hunparked, halike⟩ := r.mdbxGet_unparked
  exact hagree.unparked hunparked halike

theorem put_coherent (change : Change) (hc : (w.txns h).Coherent marked w.lib) :
    ((w.put o change h).1.txns h).Coherent marked (w.put o change h).1.lib := by
  unfold put
  dsimp only
  refine call_coherent hc (mdbxPut_local change) (fun _ => rfl) (fun _ => .inr rfl) ?_
  intro a r _ hr hagree s hs
  have hs : w.lib.readers a = some s := hs
  rw [hr] at hs
  cases hs
  exact hagree

/-- After a fatal error a reset or a renewal leaves a parked reader as it is, and its `Txn` not
marked. -/
theorem Agrees.cleared {x : Txn} {r s : ReadTxn} {fatal : Bool}
    (hs : s.isParked = true → fatal = true ∧ r.isParked = true)
    (hseen : marked = true → fatal = true → r.isParked = false) :
    Txn.Agrees marked fatal { x.resetID with parked := false } s := by
  refine .of_zero rfl fun hp => .inr ?_
  obtain ⟨hfatal, hparked⟩ := hs hp
  refine ⟨?_, hfatal⟩
  cases marked with
  | false => rfl
  | true =>
    rw [hseen rfl hfatal] at hparked
    cases hparked

theorem resetTxn_coherent (hc : (w.txns h).Coherent marked w.lib)
    (hseen : marked = true → w.lib.fatal = true →
      ∀ r ∈ w.lib.readerAt (w.txns h).ptr, r.isParked = false) :
    ((w.resetTxn o self h).1.txns h).Coherent marked (w.resetTxn o self h).1.lib := by
  unfold resetTxn
  dsimp only
  refine onReader_coherent hc mdbxTxnReset_local (fun _ => rfl) (fun _ => rfl)
    (fun _ => .inl rfl) ?_
  intro r hr _
  exact Agrees.cleared ReadTxn.mdbxTxnReset_isParked fun hm hf => hseen hm hf r hr

theorem renewTxn_coherent (hc : (w.txns h).Coherent marked w.lib)
    (hseen : marked = true → w.lib.fatal = true →
      ∀ r ∈ w.lib.readerAt (w.txns h).ptr, r.isParked = false) :
    ((w.renewTxn o self h).1.txns h).Coherent marked (w.renewTxn o self h).1.lib := by
  unfold renewTxn
  dsimp only
  refine onReader_coherent hc mdbxTxnRenew_local (fun _ => rfl) (fun _ => rfl)
    (fun _ => .inl rfl) ?_
  intro r hr _
  exact Agrees.cleared ReadTxn.mdbxTxnRenew_isParked fun hm hf => hseen hm hf r hr

theorem unmanaged_coherent {msg : String} {method : World × Reply}
    (hc : (w.txns h).Coherent marked w.lib)
    (hm : (w.txns h).managed = false → (method.1.txns h).Coherent marked method.1.lib) :
    ((w.unmanaged msg h method).1.txns h).Coherent marked (w.unmanaged msg h method).1.lib := by
  unfold unmanaged
  split
  · exact hc
  · rename_i hmanaged
    exact hm (by simpa using hmanaged)

theorem refresh_coherent (hc : (w.txns h).Coherent marked w.lib) :
    ((w.refresh o self h).1.txns h).Coherent marked (w.refresh o self h).1.lib := by
  refine unmanaged_coherent hc fun _ => ?_
  dsimp only
  refine onReader_coherent hc mdbxTxnRefresh_local (fun _ => rfl) (fun _ => rfl)
    (fun _ => .inl rfl) ?_
  intro r _ hagree
  exact .of_zero rfl fun hp => hagree.parked (ReadTxn.mdbxTxnRefresh_isParked hp)

theorem park_coherent (autounpark : Bool) (hc : (w.txns h).Coherent marked w.lib) :
    ((w.park o self autounpark h).1.txns h).Coherent marked (w.park o self autounpark h).1.lib := by
  unfold park
  split
  · exact hc
  · split
    · exact hc
    · dsimp only
      refine onReader_coherent hc (mdbxTxnPark_local autounpark) (fun _ => rfl) ?_ ?_ ?_
      · intro code
        split <;> rfl
      · intro code
        refine .inr ?_
        split <;> rfl
      · intro r _ hagree
        rcases ReadTxn.mdbxTxnPark_cases autounpark r with ⟨hunparked, hcode⟩ |
          ⟨hlive, hcode, htxnid⟩
        · rw [if_pos (by simpa using hcode)]
          exact hagree.unparked hunparked (.refl _)
        · rw [if_neg (by simpa using hcode)]
          refine ⟨?_, fun _ => .inl rfl⟩
          rw [htxnid]
          rcases hagree.id with hzero | hsame | ⟨_, hfin⟩
          · exact .inl hzero
          · exact .inr (.inl hsame)
          · rw [hlive] at hfin
            cases hfin

theorem unpark_coherent (restart : Bool) (hc : (w.txns h).Coherent marked w.lib)
    (hready : w.mismatched self h = false → ∀ r ∈ w.lib.readerAt (w.txns h).ptr,
      r.UnparkReady o w.lib.fatal restart (w.txns h).id (w.txns h).parked)
    (hseen : w.mismatched self h = false → marked = true → w.lib.fatal = true →
      ∀ r ∈ w.lib.readerAt (w.txns h).ptr, r.isParked = false) :
    ((w.unpark o self restart h).1.txns h).Coherent marked (w.unpark o self restart h).1.lib := by
  unfold unpark
  split
  · exact hc
  · split
    · exact hc
    · rename_i hmis
      have hmis : w.mismatched self h = false := by simpa using hmis
      dsimp only
      refine onReader_coherent hc (mdbxTxnUnpark_local restart) (fun _ => rfl) ?_ ?_ ?_
      · intro code
        split <;> rfl
      · intro code
        split
        · exact .inl rfl
        · exact .inr rfl
      · intro r hr hagree
        have ready := hready hmis r hr
        by_cases hgoes : r.isParked = true ∧ w.lib.fatal = false
        · obtain ⟨hparked, hfatal⟩ := hgoes
          have hunparked :=
            @ReadTxn.mdbxTxnUnpark_ready _ _ w.lib.recent _ _ _ _ ready hparked hfatal
          obtain ⟨hnot, hcode⟩ := hunparked
          refine ⟨?_, fun hp => by rw [hnot] at hp; cases hp⟩
          split
          · exact .inl rfl
          · rename_i hlost
            simp only [Bool.or_eq_true, beq_iff_eq, not_or] at hlost
            by_cases hid : (w.txns h).id = 0
            · exact .inl hid
            · have htxnid := ((hcode hid).resolve_left hlost.1).resolve_left hlost.2
              rcases hagree.id with hzero | hsame | ⟨_, hfin⟩
              · exact .inl hzero
              · exact .inr (.inl (hsame.trans htxnid.symm))
              · rw [ReadTxn.isParked_of_finished hfin] at hparked
                cases hparked
        · have hidle : r.isParked = true → w.lib.fatal = true := fun hp => by simpa [hp] using hgoes
          rw [ReadTxn.mdbxTxnUnpark_idle restart hidle]
          have hparked : r.isParked = true → marked = false ∧ w.lib.fatal = true := by
            intro hp
            refine ⟨?_, hidle hp⟩
            by_contra hm
            rw [hseen hmis (by simpa using hm) (hidle hp) r hr] at hp
            cases hp
          split
          · exact .of_zero rfl fun hp => .inr (hparked hp)
          · refine ⟨?_, fun hp => .inr (hparked hp)⟩
            rcases hagree.id with hzero | hsame | ⟨hnoted, hfin⟩
            · exact .inl hzero
            · exact .inr (.inl hsame)
            · refine .inl ?_
              by_contra hid
              rw [ready.unread hid hnoted] at hfin
              cases hfin

theorem commitTxn_coherent {v : World} (hc : (v.txns h).Coherent marked v.lib) :
    ((v.commitTxn o self h).1.txns h).Coherent marked (v.commitTxn o self h).1.lib := by
  unfold commitTxn
  split
  · exact hc
  · dsimp only
    rw [World.call, setTxn_self]
    exact Txn.coherent_clearTxn _

theorem abortTxn_coherent {v : World} (hc : (v.txns h).Coherent marked v.lib) :
    ((v.abortTxn o self h).1.txns h).Coherent marked (v.abortTxn o self h).1.lib := by
  unfold abortTxn
  split
  · exact hc
  · split
    · exact hc
    · dsimp only
      rw [World.call, setTxn_self]
      exact Txn.coherent_clearTxn _

theorem setManaged_coherent (b : Bool) (hc : (w.txns h).Coherent marked w.lib) :
    ((w.setManaged b h).txns h).Coherent marked (w.setManaged b h).lib := by
  rw [setManaged, setTxn_self]
  exact hc.congr rfl rfl rfl

theorem writerOnly_coherent {msg op : String} {method : Option (World × Reply)}
    (hc : (w.txns h).Coherent marked w.lib)
    (hm : ∀ r, method = some r → (r.1.txns h).Coherent marked r.1.lib) {r : World × Reply}
    (hr : w.writerOnly msg op self h method = some r) :
    (r.1.txns h).Coherent marked r.1.lib := by
  unfold writerOnly at hr
  split at hr
  · cases hr
    exact hc
  · split at hr
    · cases hr
      exact hc
    · split at hr
      · cases hr
        exact hc
      · exact hm r hr

/-- A call on a write transaction leaves a reader as it is. -/
theorem checkpoint_coherent {flags : UInt32} (hc : (w.txns h).Coherent marked w.lib)
    {r : World × Reply} (hr : w.checkpoint o self flags h = some r) :
    (r.1.txns h).Coherent marked r.1.lib := by
  refine writerOnly_coherent hc (fun r hr => ?_) hr
  obtain ⟨⟨lib, code⟩, hlib, rfl⟩ := Option.map_eq_some_iff.mp hr
  dsimp only
  rw [setTxn_self]
  split
  · refine Txn.coherent_of_zero rfl fun x hx hp => ?_
    change (w.txns h).parked = true ∨ _
    cases hptr : (w.txns h).ptr with
    | none =>
      rw [Txn.resetID_ptr, hptr] at hx
      cases hx
    | some p =>
      rw [Txn.resetID_ptr, hptr] at hx
      cases p with
      | basal => cases hx
      | nested a => cases hx
      | reader a =>
        rw [hptr] at hlib
        cases hlib
        exact (hc.reader x (by rw [hptr]; exact hx)).parked hp
  · exact Txn.coherent_clearTxn _

theorem rollback_coherent (hc : (w.txns h).Coherent marked w.lib) {r : World × Reply}
    (hr : w.rollback o self h = some r) : (r.1.txns h).Coherent marked r.1.lib := by
  refine writerOnly_coherent hc (fun r hr => ?_) hr
  obtain ⟨⟨lib, code⟩, hlib, rfl⟩ := Option.map_eq_some_iff.mp hr
  dsimp only
  rw [setTxn_self]
  refine Txn.coherent_of_zero rfl fun x hx hp => ?_
  cases hptr : (w.txns h).ptr with
  | none =>
    rw [Txn.resetID_ptr, hptr] at hx
    cases hx
  | some p =>
    rw [Txn.resetID_ptr, hptr] at hx
    cases p with
    | basal => cases hx
    | nested a => cases hx
    | reader a =>
      rw [hptr] at hlib
      have hlib : w.lib.onReader a (·.mdbxTxnRollback o w.lib.recent) = (lib, code) :=
        Option.some.inj hlib
      have hx : lib.readers a = some x := hx
      cases hold : w.lib.readers a with
      | none =>
        simp only [onReader, hold] at hlib
        cases hlib
        rw [hold] at hx
        cases hx
      | some old =>
        simp only [onReader, hold] at hlib
        cases hlib
        have hx : some _ = some x := (setReader_self _ _ _).symm.trans hx
        rw [← Option.some.inj hx] at hp
        exact (hc.reader old (by rw [hptr]; exact hold)).parked
          (ReadTxn.mdbxTxnRollback_isParked hp)

/-- The reader that a writer is changed into is not parked. -/
theorem commitEmbarkRead_coherent (hc : (w.txns h).Coherent marked w.lib) {r : World × Reply}
    (hr : w.commitEmbarkRead o self h = some r) : (r.1.txns h).Coherent marked r.1.lib := by
  refine writerOnly_coherent hc (fun r hr => ?_) hr
  obtain ⟨⟨lib, code, ptr⟩, hlib, rfl⟩ := Option.map_eq_some_iff.mp hr
  dsimp only
  rw [setTxn_self]
  have hzero : ∀ x : Txn, x.id = 0 → x.ptr = ptr → x.parked = (w.txns h).parked →
      x.Coherent marked lib := by
    intro x hid hptr hparked
    refine Txn.coherent_of_zero hid fun s hs hp => ?_
    rw [hptr] at hs
    cases ptr with
    | none => cases hs
    | some q =>
      cases hold : (w.txns h).ptr with
      | none =>
        rw [hold] at hlib
        cases hlib
      | some p =>
        rw [hold] at hlib
        rcases mdbxTxnCommitEmbarkRead_ptr hlib rfl with ⟨rfl, hsame⟩ | ⟨rfl, _, hnew⟩
        · cases q with
          | basal => cases hs
          | nested a => cases hs
          | reader a =>
            have hsame : lib = w.lib := hsame rfl
            rw [hparked, hsame]
            rw [hsame] at hs
            exact (hc.reader s (by rw [hold]; exact hs)).parked hp
        · rw [hnew s hs] at hp
          cases hp
  split
  · exact Txn.coherent_clearTxn _
  · split
    · split
      · exact Txn.coherent_clearTxn _
      · exact hzero _ rfl rfl rfl
    · exact hzero _ rfl rfl rfl

theorem runOpEither_coherent (terminate : Bool) (hc : (w.txns h).Coherent marked w.lib) :
    ((w.runOpEither g terminate h).1.txns h).Coherent marked
      (w.runOpEither g terminate h).1.lib := by
  unfold runOpEither
  split
  · exact unmanaged_coherent hc fun _ => setManaged_coherent true hc
  · exact setManaged_coherent true hc

theorem terminate_coherent {v : World} (res : FnResult) (hc : (v.txns h).Coherent marked v.lib) :
    ((v.terminate o self h res).1.txns h).Coherent marked (v.terminate o self h res).1.lib := by
  cases res with
  | nil => exact commitTxn_coherent hc
  | error => exact abortTxn_coherent hc
  | panic => exact abortTxn_coherent hc

/-- The end of a function, for the `Txn` that it was run with. -/
theorem finish_coherent {res : FnResult} {f : Frame} {fs : List Frame}
    (hframes : w.frames g = f :: fs)
    (hc : (w.txns f.txn).Coherent marked w.lib) {r : World × Reply}
    (hr : w.finish o g self res = some r) : (r.1.txns f.txn).Coherent marked r.1.lib := by
  unfold finish at hr
  rw [hframes] at hr
  dsimp only at hr
  split at hr
  · cases hr
    exact terminate_coherent res hc
  · cases hr
    exact terminate_coherent res hc
  · cases hr
    unfold leave
    dsimp only
    split
    · exact setManaged_coherent (w := w.pop g) false hc
    · exact hc
  · cases hr

end World

end MdbxGo
