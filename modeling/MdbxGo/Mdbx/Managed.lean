import MdbxGo.Mdbx.Agreement
import MdbxGo.Mdbx.Lock

/-! Managed transactions: while the function of `View`, `Update`, `RunTxn`, `Sub` or `RunOp` runs,
its transaction is neither ended nor moved to another snapshot; and how it is left when the function
ends. -/

namespace MdbxGo

/-- The entry is about a function that runs. -/
def FrameKind.runs : FrameKind → Bool
  | .amending _ => false
  | _ => true

namespace Call

/-- The `Txn` on which a call runs a function that does not end it. -/
def reenters : Call → Option Handle
  | .runOp h false => some h
  | _ => none

/-- The `Txn` of a method that panics when it is managed. -/
def guards : Call → Option Handle
  | .commit h | .abort h | .reset h | .renew h | .refresh h | .checkpoint h _
  | .commitEmbarkRead h | .rollback h | .amend h _ | .runOp h true => some h
  | _ => none

/-- The function of a goroutine ends. -/
def leaves : Call → Bool
  | .finish _ => true
  | _ => false

end Call

/-- The event begins a function that does not end its transaction. -/
def Event.reenters : Event → Bool
  | .go _ _ _ call => call.reenters.isSome
  | _ => false

namespace ReadTxn

/-- The call finds that the parked reader has lost its snapshot, and resets it. -/
def drops (o : Sys) (fatal : Bool) (r : ReadTxn) : Call → Bool
  | .get _ => r.autounpark && !r.error && r.loses fatal && !o.slotMismatch
  | .park _ _ => r.autounpark && r.loses fatal && !o.slotMismatch
  | .unpark _ _ => r.loses fatal && !o.slotMismatch
  | _ => false

end ReadTxn

namespace World

open MdbxEnv

variable {w w' : World} {o : Sys} {g : Gor} {self : Thread} {call : Call} {h k : Handle} {f : Frame}
  {fs : List Frame} {p : Ptr}

/-- The transaction of a function that runs is the one that it was when the function was entered, at
the same snapshot, and it is managed. -/
structure Unmoved (w : World) (f : Frame) : Prop where
  managed : (w.txns f.txn).managed = true
  ptr : (w.txns f.txn).ptr = f.ptr
  snapshot : w.lib.snapshot f.ptr = f.snapshot

/-! ### What is asked of a program -/

/-- A managed transaction is left alone: no other `Txn` is ended in which it is nested; it is no
target of `CloneInto`; a parked reader is not asked for its snapshot after it has lost it; and no
`Amend` is under way on it. When its function ends libmdbx has not failed, and the thread is the one
that began it. -/
def Spares (w : World) : Event → Prop
  | .go g self o call =>
    w.Spared Txn.managed (.go g self o call) ∧
    (∀ x ∈ call.clonesInto, (w.txns x.2).managed = true → (w.txns x.2).readonly = true →
      (w.txns x.2).ptr = none) ∧
    (∀ h ∈ call.handles, (w.txns h).managed = true → ∀ r ∈ w.lib.readerAt (w.txns h).ptr,
      r.drops o w.lib.fatal call = false) ∧
    (call = .amendLocked → ∀ f ∈ (w.frames g).head?, (w.txns f.txn).managed = true →
      ∀ r ∈ w.lib.readerAt (w.txns f.txn).ptr, ¬StartReady o w.lib r) ∧
    (call.leaves = true → ∀ h ∈ w.ends g call, ∀ p ∈ (w.txns h).ptr,
      w.mismatched self h = false ∧ ((w.lib.snapshot (some p)).isSome = true →
        w.lib.fatal = false ∧ ∀ t ∈ w.lib.txnAt p, t.owner = some self))
  | _ => True

/-- No other goroutine runs a function on the `Txn` on which one begins to run another. -/
def Alone (w : World) : Event → Prop
  | .go g _ _ call =>
    ∀ h ∈ call.reenters, ∀ g', g' ≠ g → ∀ f ∈ w.frames g', f.kind.runs = true → f.txn ≠ h
  | _ => True

theorem alone_of_direct {e : Event} (h : e.reenters = false) : w.Alone e := by
  cases e with
  | go g self o call =>
    intro k hk
    rw [Event.reenters, show call.reenters = some k from hk] at h
    cases h
  | oust a => trivial
  | foreignCommit txnid changes => trivial
  | fatal => trivial

/-- What keeps a managed transaction to its functions. -/
def Manages (w : World) (e : Event) : Prop := w.Spares e ∧ w.Alone e

set_option synthInstance.maxSize 512 in
instance (w : World) : (e : Event) → Decidable (w.Spares e)
  | .go g self o call => inferInstanceAs (Decidable
      (w.Spared Txn.managed (.go g self o call) ∧
      (∀ x ∈ call.clonesInto, (w.txns x.2).managed = true → (w.txns x.2).readonly = true →
        (w.txns x.2).ptr = none) ∧
      (∀ h ∈ call.handles, (w.txns h).managed = true → ∀ r ∈ w.lib.readerAt (w.txns h).ptr,
        r.drops o w.lib.fatal call = false) ∧
      (call = .amendLocked → ∀ f ∈ (w.frames g).head?, (w.txns f.txn).managed = true →
        ∀ r ∈ w.lib.readerAt (w.txns f.txn).ptr, ¬StartReady o w.lib r) ∧
      (call.leaves = true → ∀ h ∈ w.ends g call, ∀ p ∈ (w.txns h).ptr,
        w.mismatched self h = false ∧ ((w.lib.snapshot (some p)).isSome = true →
          w.lib.fatal = false ∧ ∀ t ∈ w.lib.txnAt p, t.owner = some self))))
  | .oust _ | .foreignCommit _ _ | .fatal => .isTrue trivial

/-! ### The snapshot of one transaction -/

/-- The `Txn` keeps its transaction and its snapshot. -/
structure Steady (k : Handle) (w w' : World) : Prop where
  ptr : (w'.txns k).ptr = (w.txns k).ptr
  snapshot : w'.lib.snapshot (w.txns k).ptr = w.lib.snapshot (w.txns k).ptr

theorem steady_same (hptr : (w'.txns k).ptr = (w.txns k).ptr) (hlib : w'.lib = w.lib) :
    Steady k w w' :=
  ⟨hptr, by rw [hlib]⟩

theorem Steady.refl : Steady k w w := steady_same rfl rfl

end World

namespace MdbxEnv

variable {env env' : MdbxEnv} {p : Ptr} {a : Addr}

theorem snapshot_reader (env : MdbxEnv) (a : Addr) :
    env.snapshot (some (.reader a)) = (env.readers a).bind ReadTxn.snapshot := rfl

theorem snapshot_of_readers (h : env'.readers a = env.readers a) :
    env'.snapshot (some (.reader a)) = env.snapshot (some (.reader a)) := by
  rw [snapshot_reader, snapshot_reader, h]

/-- The snapshot of a writer is its id, as long as it has not ended. -/
theorem snapshot_of_stampAt (hw : p.writes = true) (h : env'.stampAt p = env.stampAt p) :
    env'.snapshot (some p) = env.snapshot (some p) := by
  have hstamp : ∀ env : MdbxEnv, env.snapshot (some p) =
      (env.stampAt p).bind fun x => if x.2 then none else some x.1 := by
    intro env
    cases p with
    | reader a => cases hw
    | basal => rfl
    | nested a =>
      simp only [snapshot, stampAt, write?, txnAt, find?_eq_head?_inner]
      cases env.inner a <;> rfl
  rw [hstamp, hstamp, h]

/-- A call on a reader that keeps its snapshot. -/
theorem onReader_snapshot {f : ReadTxn → ReadTxn × Code}
    (hf : ∀ r, env.readers a = some r → (f r).1.snapshot = r.snapshot) :
    (env.onReader a f).1.snapshot (some (.reader a)) = env.snapshot (some (.reader a)) := by
  unfold onReader
  split
  · rfl
  · rename_i r hr
    rw [snapshot_reader, snapshot_reader, setReader_self, hr]
    exact hf r hr

end MdbxEnv

namespace World

open MdbxEnv

variable {w w' : World} {o : Sys} {g : Gor} {self : Thread} {call : Call} {h k : Handle} {f : Frame}
  {fs : List Frame} {p : Ptr} {r : World × Reply}

theorem Apart.steady {watched : Txn → Bool} (apart : Apart watched k w w')
    (hwatched : watched (w.txns k) = true) : Steady k w w' := by
  refine ⟨by rw [apart.txn], ?_⟩
  cases hp : (w.txns k).ptr with
  | none => rfl
  | some p =>
    cases p with
    | reader a => exact snapshot_of_readers (apart.readers a hp)
    | basal => exact snapshot_of_stampAt rfl (apart.stamp hwatched _ hp)
    | nested a => exact snapshot_of_stampAt rfl (apart.stamp hwatched _ hp)

/-- A local call leaves the snapshot of a writer; what it does to a reader is to be shown. -/
theorem call_steady {f : MdbxEnv → Option Ptr → MdbxEnv × Code} {after : Code → Txn → Txn}
    (hf : ∀ p, Local p w.lib (f w.lib (some p)).1)
    (hptr : ∀ code x, (after code x).ptr = x.ptr)
    (hreader : ∀ a, (w.txns h).ptr = some (.reader a) →
      (f w.lib (some (.reader a))).1.snapshot (some (.reader a)) =
        w.lib.snapshot (some (.reader a))) :
    Steady h w (w.call h f after).1 := by
  refine ⟨?_, ?_⟩
  · rw [World.call, setTxn_self]
    exact hptr _ _
  · change (f w.lib (w.txns h).ptr).1.snapshot _ = _
    cases hp : (w.txns h).ptr with
    | none => rfl
    | some p =>
      cases p with
      | reader a => exact hreader a hp
      | basal => exact snapshot_of_stampAt rfl (Local.stampAt (hf .basal))
      | nested a => exact snapshot_of_stampAt rfl (Local.stampAt (hf (.nested a)))

/-! ### Calls on a managed `Txn` -/

theorem unmanaged_refused {msg : String} (hm : (w.txns h).managed = true)
    (method : World × Reply) : w.unmanaged msg h method = (w, .panicked (.managed msg)) :=
  if_pos hm

theorem writerOnly_refused {msg op : String} (hm : (w.txns h).managed = true)
    (method : Option (World × Reply)) :
    w.writerOnly msg op self h method = some (w, .panicked (.managed msg)) :=
  if_pos hm

theorem get_steady (hkept : ∀ r ∈ w.lib.readerAt (w.txns h).ptr,
    r.drops o w.lib.fatal (.get h) = false) : Steady h w (w.get o h).1 := by
  refine call_steady mdbxGet_local (fun _ _ => rfl) fun a ha => ?_
  refine onReader_snapshot fun r hr => ReadTxn.mdbxGet_snapshot fun hauto herror hloses => ?_
  have hno := hkept r (by rw [ha]; exact hr)
  simpa [ReadTxn.drops, hauto, herror, hloses] using hno

theorem put_steady (change : Change) : Steady h w (w.put o change h).1 :=
  call_steady (mdbxPut_local change) (fun _ _ => rfl) fun _ _ => rfl

theorem park_steady (autounpark : Bool) (hkept : ∀ r ∈ w.lib.readerAt (w.txns h).ptr,
    r.drops o w.lib.fatal (.park h autounpark) = false) :
    Steady h w (w.park o self autounpark h).1 := by
  unfold park
  split
  · exact .refl
  · split
    · exact .refl
    · dsimp only
      refine call_steady (mdbxTxnPark_local autounpark) (fun _ _ => ?_) fun a ha => ?_
      · split <;> rfl
      · refine onReader_snapshot fun r hr => ReadTxn.mdbxTxnPark_snapshot autounpark ?_
        intro hauto hloses
        have hno := hkept r (by rw [ha]; exact hr)
        simpa [ReadTxn.drops, hauto, hloses] using hno

theorem unpark_steady (restart : Bool) (hkept : ∀ r ∈ w.lib.readerAt (w.txns h).ptr,
    r.drops o w.lib.fatal (.unpark h restart) = false) :
    Steady h w (w.unpark o self restart h).1 := by
  unfold unpark
  split
  · exact .refl
  · split
    · exact .refl
    · dsimp only
      refine call_steady (mdbxTxnUnpark_local restart) (fun _ _ => ?_) fun a ha => ?_
      · split <;> rfl
      · refine onReader_snapshot fun r hr => ReadTxn.mdbxTxnUnpark_snapshot restart ?_
        intro hloses
        have hno := hkept r (by rw [ha]; exact hr)
        simpa [ReadTxn.drops, hloses] using hno

theorem id_steady : Steady h w (w.id h) := by
  unfold World.id
  split
  · exact steady_same (by rw [setTxn_self]) rfl
  · exact .refl

theorem runOpEither_steady (terminate : Bool) (h : Handle) :
    Steady h w (w.runOpEither g terminate h).1 := by
  unfold runOpEither
  split
  · unfold runOpTerm unmanaged
    split
    · exact .refl
    · exact steady_same (by simp [push, setManaged, setTxn]) rfl
  · exact steady_same (by simp [runOp, push, setManaged, setTxn]) rfl

/-- A method that panics when its `Txn` is managed does so before it does anything else. -/
theorem exec_refused (hguards : call.guards = some h) (hm : (w.txns h).managed = true) :
    ∃ msg, w.exec o g self call = some (w, .panicked (.managed msg)) := by
  cases call with
  | commit h' =>
    cases hguards
    exact ⟨_, congrArg some (unmanaged_refused hm _)⟩
  | abort h' =>
    cases hguards
    exact ⟨_, congrArg some (unmanaged_refused hm _)⟩
  | reset h' =>
    cases hguards
    exact ⟨_, congrArg some (unmanaged_refused hm _)⟩
  | renew h' =>
    cases hguards
    exact ⟨_, congrArg some (unmanaged_refused hm _)⟩
  | refresh h' =>
    cases hguards
    exact ⟨_, congrArg some (unmanaged_refused hm _)⟩
  | checkpoint h' flags =>
    cases hguards
    exact ⟨_, writerOnly_refused hm _⟩
  | commitEmbarkRead h' =>
    cases hguards
    exact ⟨_, writerOnly_refused hm _⟩
  | rollback h' =>
    cases hguards
    exact ⟨_, writerOnly_refused hm _⟩
  | amend h' flags =>
    cases hguards
    exact ⟨_, congrArg some (unmanaged_refused hm _)⟩
  | runOp h' terminate =>
    cases terminate with
    | false => cases hguards
    | true =>
      cases hguards
      exact ⟨_, congrArg some (unmanaged_refused hm _)⟩
  | _ => cases hguards

/-- `CloneInto` is refused when its target has ended. -/
theorem cloneInto_steady {target : Handle} (hm : (w.txns target).managed = true)
    (hinto : (w.txns target).managed = true → (w.txns target).readonly = true →
      (w.txns target).ptr = none) (hr : w.cloneInto o target h = some r) :
    r = (w, .returned { err := some (.op "mdbx_txn_clone" (.mdbx Code.badTxn)) }) := by
  unfold cloneInto at hr
  dsimp only at hr
  split at hr
  · exact (Option.some.inj hr).symm
  · rename_i hreadonly
    rw [hinto hm (by simpa using hreadonly)] at hr
    exact (Option.some.inj hr).symm

/-- The end of a function that does not end its transaction. -/
theorem finish_keep {restore : Bool} {res : FnResult} (hframes : w.frames g = f :: fs)
    (hkind : f.kind = .keep restore) (hr : w.finish o g self res = some r) :
    r.1.lib = w.lib ∧ (r.1.txns f.txn).ptr = (w.txns f.txn).ptr ∧
      (r.1.txns f.txn).managed = ((w.txns f.txn).managed && !restore) := by
  obtain ⟨kind, txn, ptr, snapshot⟩ := f
  cases hkind
  unfold finish at hr
  rw [hframes] at hr
  cases hr
  unfold leave
  cases restore with
  | true =>
    refine ⟨rfl, ?_, ?_⟩
    · simp [setManaged, setTxn, pop]
    · simp [setManaged, setTxn]
  | false => exact ⟨rfl, rfl, by simp [pop]⟩

/-- A pointer that is null stays null: it could only become one to each of two readers. -/
theorem Act.null (act : Act o g self call w w') (hk : k < w.next) (hp : (w.txns k).ptr = none) :
    (w'.txns k).ptr = none := by
  cases hq : (w'.txns k).ptr with
  | none => rfl
  | some q =>
    have honly : ∀ a, q = .reader a := fun a =>
      act.onlyReader hk (by rw [hp]; exact OnlyReader.none a) q hq
    have hsame := (honly 0).symm.trans (honly 1)
    cases hsame

/-- The rest of an `Amend` that finds its reader unfit for it leaves the `Txn` as it was. -/
theorem amendLocked_unready (sane : w.Sane) (hframes : w.frames g = f :: fs)
    (hunready : ∀ r ∈ w.lib.readerAt (w.txns f.txn).ptr, ¬StartReady o w.lib r)
    (hr : w.amendLocked o g self = some r) : Steady f.txn w r.1 := by
  have hmem : f ∈ w.frames g := hframes ▸ List.mem_cons_self
  have hlt := sane.known.frames g f hmem
  have act := amendLocked_act sane.ok hr
  cases hp : (w.txns f.txn).ptr with
  | none =>
    refine ⟨?_, by rw [hp]; rfl⟩
    rw [hp]
    exact act.null hlt hp
  | some p =>
    unfold World.amendLocked at hr
    rw [hframes] at hr
    split at hr
    · rename_i flags h a snapshot rest heq
      obtain ⟨rfl, rfl⟩ := List.cons.inj heq
      obtain ⟨c, hx, rfl⟩ := Option.map_eq_some_iff.mp hr
      obtain ⟨b, hb, honly⟩ := sane.known.amending g _ hmem flags rfl
      cases hb
      obtain rfl := honly p hp
      obtain ⟨old, hold⟩ := amendLocked_reader hx
      have hnot := hunready old (by rw [hp]; exact hold)
      have hend := amendLocked_end sane.ok hold hx
      generalize hptr : c.2.2 = ptr at hend
      cases hend with
      | failed _ hne hsame _ _ =>
        dsimp only
        rw [if_pos (by simpa using hne)]
        refine ⟨rfl, ?_⟩
        rw [hp]
        exact snapshot_of_readers (hsame.trans hold.symm)
      | broken ready _ _ _ => exact absurd ready hnot
      | started ready _ _ _ _ _ => exact absurd ready hnot
    · cases hr

/-- A managed `Txn` is left alone by the rest of an `Amend`. -/
theorem amendLocked_steady (sane : w.Sane)
    (spared : w.Spared Txn.managed (.go g self o .amendLocked))
    (hunready : ∀ f ∈ (w.frames g).head?, (w.txns f.txn).managed = true →
      ∀ r ∈ w.lib.readerAt (w.txns f.txn).ptr, ¬StartReady o w.lib r)
    (hk : k < w.next) (hm : (w.txns k).managed = true) (hr : w.amendLocked o g self = some r) :
    Steady k w r.1 := by
  rcases amendLocked_apart sane spared hk hr with ⟨f, fs, hframes, rfl⟩ | apart
  · exact amendLocked_unready sane hframes (hunready f (by rw [hframes]; rfl) hm) hr
  · exact apart.steady hm

/-- A call that begins a transaction leaves the managed ones alone. -/
theorem opens_steady (sane : w.Sane) (spared : w.Spared Txn.managed (.go g self o call))
    {parent : Option Handle} (ho : call.opens = some parent) (hk : k < w.next)
    (hm : (w.txns k).managed = true) (hr : w.exec o g self call = some r) : Steady k w r.1 := by
  obtain ⟨⟨code, ptr, hbegan, _⟩, hother, hbasal⟩ := exec_opens sane.ok ho hr
  refine (Began.apart hbegan sane ?_ (hother k (Nat.ne_of_lt hk))).steady hm
  cases hb : w.beginsBasal call with
  | false => exact .inl (hbasal hb)
  | true => exact .inr fun hfin => spared.2.2 hb hfin k hk

theorem clone_steady (separate : w.Separate) (hk : k < w.next) (hm : (w.txns k).managed = true) :
    Steady k w (w.clone o self h).1 := by
  unfold clone
  dsimp only
  rcases mdbxTxnClone_cases (o := o) w.next (w.txns h).ptr w.lib with ⟨hcode, hlib⟩ |
    ⟨_, hcode, _, hlib, _⟩
  · rw [if_pos (by simpa using hcode)]
    exact steady_same rfl hlib
  · rw [if_neg (by simpa using hcode)]
    refine @Apart.steady w _ k Txn.managed (apart_allocReader separate hlib ?_) hm
    exact Function.update_of_ne (Nat.ne_of_lt hk) _ _

/-- A call leaves every managed transaction that it does not end where it is. -/
theorem exec_steady (sane : w.Sane) (spares : w.Spares (.go g self o call)) (hk : k < w.next)
    (hm : (w.txns k).managed = true) (hstays : call.leaves = true → w.ends g call ≠ some k)
    (hr : w.exec o g self call = some r) : Steady k w r.1 := by
  obtain ⟨spared, hinto, hdrops, hunready, _⟩ := spares
  by_cases hguards : call.guards = some k
  · obtain ⟨msg, hrefused⟩ := @exec_refused w o g self call k hguards hm
    rw [hrefused] at hr
    exact Option.some.inj hr ▸ .refl
  have through : ∀ {h : Handle} {w' : World}, Through o g self call h w w' →
      (k = h → Steady k w w') → Steady k w w' := by
    intro h w' ht hself
    by_cases heq : k = h
    · exact hself heq
    · exact (ht.apart sane spared hk heq).steady hm
  have unguarded : ∀ {h : Handle} {w' : World}, call.guards = some h → k = h → Steady k w w' := by
    rintro h w' hcall rfl
    exact absurd hcall hguards
  cases call with
  | beginTxn parent flags => exact opens_steady sane spared rfl hk hm hr
  | runTxn flags => exact opens_steady sane spared rfl hk hm hr
  | sub h => exact opens_steady sane spared rfl hk hm hr
  | id h =>
    cases hr
    exact through (id_through h) fun heq => heq ▸ id_steady
  | get h =>
    cases hr
    refine through (get_through h) ?_
    rintro rfl
    exact get_steady (hdrops k (by simp [Call.handles]) hm)
  | put h change =>
    cases hr
    exact through (put_through change h) fun heq => heq ▸ put_steady change
  | commit h =>
    cases hr
    refine through (through_unmanaged fun hm => commitTxn_through (.inl rfl) rfl rfl fun hw => by
      simp [refuses, hm, hw]) (unguarded rfl)
  | abort h =>
    cases hr
    refine through (through_unmanaged fun hm => abortTxn_through (.inl rfl) rfl fun hw => by
      simp [refuses, hm, hw]) (unguarded rfl)
  | reset h =>
    cases hr
    exact through (through_unmanaged fun _ => resetTxn_through h) (unguarded rfl)
  | renew h =>
    cases hr
    exact through (through_unmanaged fun _ => renewTxn_through h) (unguarded rfl)
  | refresh h =>
    cases hr
    exact through (refresh_through h) (unguarded rfl)
  | park h autounpark =>
    cases hr
    refine through (park_through autounpark h) ?_
    rintro rfl
    exact park_steady autounpark (hdrops k (by simp [Call.handles]) hm)
  | unpark h restart =>
    cases hr
    refine through (unpark_through restart h) ?_
    rintro rfl
    exact unpark_steady restart (hdrops k (by simp [Call.handles]) hm)
  | checkpoint h flags => exact through (checkpoint_through hr) (unguarded rfl)
  | commitEmbarkRead h => exact through (commitEmbarkRead_through hr) (unguarded rfl)
  | rollback h => exact through (rollback_through hr) (unguarded rfl)
  | amend h flags =>
    cases hr
    exact through (amend_through flags h) (unguarded rfl)
  | amendLocked => exact amendLocked_steady sane spared (hunready rfl) hk hm hr
  | clone h =>
    cases hr
    exact clone_steady sane.separate hk hm
  | cloneInto h target =>
    refine through (cloneInto_through hr) ?_
    rintro rfl
    rw [cloneInto_steady hm (hinto (h, k) rfl) hr]
    exact .refl
  | runOp h terminate =>
    cases hr
    refine through (runOpEither_through terminate h) ?_
    rintro rfl
    exact runOpEither_steady terminate k
  | finish res =>
    obtain ⟨f, fs, hframes, hthrough⟩ := finish_through hr
    refine through hthrough ?_
    rintro rfl
    cases hkind : f.kind with
    | term => exact absurd (ends_of_kind hframes (.inl hkind) res) (hstays rfl)
    | sub => exact absurd (ends_of_kind hframes (.inr hkind) res) (hstays rfl)
    | keep restore =>
      obtain ⟨hlib, hptr, _⟩ := finish_keep hframes hkind hr
      exact steady_same hptr hlib
    | amending flags =>
      simp only [exec, finish, hframes, hkind] at hr
      cases hr

/-! ### The functions that run -/

/-- Every function that runs has its transaction to itself: the functions that run on one `Txn` are
all of one goroutine, and only the first of them may end the transaction or its management. -/
structure Disciplined (w : World) : Prop where
  unmoved : ∀ g, ∀ f ∈ w.frames g, f.kind.runs = true → w.Unmoved f
  own : ∀ g g', ∀ f ∈ w.frames g, ∀ f' ∈ w.frames g', f.kind.runs = true → f'.kind.runs = true →
    f.txn = f'.txn → g = g'
  nested : ∀ g, (w.frames g).Pairwise fun f f' => f.kind.runs = true → f'.kind.runs = true →
    f.txn = f'.txn → f.kind = .keep false

theorem finish_frames {res : FnResult} (hframes : w.frames g = f :: fs)
    (hr : w.finish o g self res = some r) : r.1.frames = Function.update w.frames g fs := by
  have hpop : (w.pop g).frames = Function.update w.frames g fs := by simp [pop, hframes]
  unfold finish at hr
  rw [hframes] at hr
  dsimp only at hr
  split at hr
  · cases hr
    rw [terminate_frames, hpop]
  · cases hr
    rw [terminate_frames, hpop]
  · cases hr
    rw [leave_frames, hpop]
  · cases hr

/-- The function that ends first of those on one `Txn` neither ends the transaction nor its
management. -/
theorem Disciplined.inner {g' : Gor} {f' : Frame} {res : FnResult} (disciplined : w.Disciplined)
    (hframes : w.frames g = f :: fs) (hruns : f.kind.runs = true)
    (hr : w.finish o g self res = some r) (hf' : f' ∈ r.1.frames g') (hruns' : f'.kind.runs = true)
    (htxn : f.txn = f'.txn) : f.kind = .keep false := by
  have hf : f ∈ w.frames g := hframes ▸ List.mem_cons_self
  rw [finish_frames hframes hr] at hf'
  by_cases hg : g' = g
  · subst hg
    rw [Function.update_self] at hf'
    have hpairs := disciplined.nested g'
    rw [hframes] at hpairs
    exact List.rel_of_pairwise_cons hpairs hf' hruns hruns' htxn
  · rw [Function.update_of_ne hg] at hf'
    exact absurd (disciplined.own g g' f hf f' hf' hruns hruns' htxn) (Ne.symm hg)

/-- A call keeps what holds of the functions that go on. -/
theorem exec_unmoved {g' : Gor} {f' : Frame} (sane : w.Sane)
    (manages : w.Manages (.go g self o call)) (disciplined : w.Disciplined)
    (hr : w.exec o g self call = some r) (hf : f' ∈ w.frames g') (hf' : f' ∈ r.1.frames g')
    (hruns' : f'.kind.runs = true) : r.1.Unmoved f' := by
  have hk := sane.known.frames g' f' hf
  have hold := disciplined.unmoved g' f' hf hruns'
  have hinner : ∀ {f : Frame} {fs : List Frame} {res : FnResult}, call = .finish res →
      w.frames g = f :: fs → f.kind.runs = true → f.txn = f'.txn → f.kind = .keep false := by
    rintro f fs res rfl hframes hruns htxn
    exact disciplined.inner hframes hruns hr hf' hruns' htxn
  have hstays : call.leaves = true → w.ends g call ≠ some f'.txn := by
    intro hleaves hends
    cases call with
    | finish res =>
      simp only [ends] at hends
      split at hends
      · rename_i hframes
        cases hinner rfl hframes rfl (Option.some.inj hends)
      · rename_i hframes
        cases hinner rfl hframes rfl (Option.some.inj hends)
      · cases hends
    | _ => cases hleaves
  have steady := exec_steady sane manages.1 hk hold.managed hstays hr
  refine ⟨?_, steady.ptr.trans hold.ptr, ?_⟩
  · rcases (exec_marked hr hk).managed with hsame | ⟨_, hset⟩ |
      ⟨res, f, fs, hcall, hframes, hkind, htxn, _⟩
    · exact hsame.trans hold.managed
    · exact hset
    · have hruns : f.kind.runs = true := by
        rw [hkind]
        rfl
      have hkeep := hinner hcall hframes hruns htxn
      rw [hkind] at hkeep
      cases hkeep
  · rw [← hold.snapshot, ← hold.ptr]
    exact steady.snapshot

/-- The entry for a function that starts to run. -/
theorem Pushes.managed {kind : FrameKind} (hp : Pushes (g := g) w w' call kind h)
    (hruns : kind.runs = true) : (w'.txns h).managed = true := by
  cases hp with
  | amend _ _ _ => cases hruns
  | keep hw =>
    rw [hw]
    simp [push, setManaged, setTxn]
  | term _ hw =>
    rw [hw]
    simp [push, setManaged, setTxn]
  | run _ hm => exact hm
  | sub _ hm => exact hm

/-- A function starts to run on a `Txn` of which another function has the transaction only by
`RunOp` in the same goroutine, and then it ends neither. -/
theorem Pushes.inner {kind : FrameKind} {g' : Gor} (sane : w.Sane)
    (manages : w.Manages (.go g self o call)) (disciplined : w.Disciplined)
    (hp : Pushes (g := g) w w' call kind h) (hruns : kind.runs = true) (hf : f ∈ w.frames g')
    (hruns' : f.kind.runs = true) (htxn : h = f.txn) : kind = .keep false ∧ g = g' := by
  have hold := disciplined.unmoved g' f hf hruns'
  have hlt := sane.known.frames g' f hf
  cases hp with
  | amend _ _ _ => cases hruns
  | @keep h _ =>
    subst htxn
    rw [hold.managed]
    refine ⟨rfl, ?_⟩
    by_contra hg
    exact manages.2 f.txn rfl g' (Ne.symm hg) f hf hruns' rfl
  | term hm _ =>
    rw [htxn, hold.managed] at hm
    cases hm
  | run _ _ => exact absurd (htxn ▸ hlt) (Nat.lt_irrefl _)
  | sub _ _ => exact absurd (htxn ▸ hlt) (Nat.lt_irrefl _)

theorem exec_nested {g' : Gor} (sane : w.Sane) (manages : w.Manages (.go g self o call))
    (disciplined : w.Disciplined) (hs : Stacked g call w w') :
    (w'.frames g').Pairwise fun f f' => f.kind.runs = true → f'.kind.runs = true →
      f.txn = f'.txn → f.kind = .keep false := by
  have hold := disciplined.nested g'
  by_cases hg : g' = g
  · subst hg
    cases hs with
    | same hsame => rwa [hsame]
    | pushed hp hpush =>
      rw [hpush, Function.update_self]
      refine .cons (fun f hf hnew hruns htxn => ?_) hold
      exact (hp.inner sane manages disciplined hnew hf hruns htxn).1
    | popped hframes _ hpop =>
      rw [hpop, Function.update_self]
      rw [hframes] at hold
      exact hold.of_cons
  · rwa [hs.other hg]

theorem exec_disciplined (sane : w.Sane) (manages : w.Manages (.go g self o call))
    (disciplined : w.Disciplined) (hr : w.exec o g self call = some r) : r.1.Disciplined := by
  have hs := exec_stacked hr
  refine ⟨?_, ?_, fun g' => exec_nested sane manages disciplined hs⟩
  · intro g' f hf hruns
    rcases hs.mem hf with hold | ⟨kind, h, hp, rfl, rfl, hptr, hsnapshot⟩
    · exact exec_unmoved sane manages disciplined hr hold hf hruns
    · exact ⟨hp.managed hruns, hptr.symm, hptr ▸ hsnapshot.symm⟩
  · -- of two entries about one `Txn` at most one is new, and it is of the goroutine that called
    have hnew : ∀ {g₁ g₂ : Gor} {f₁ f₂ : Frame}, f₁ ∈ r.1.frames g₁ → f₂ ∈ w.frames g₂ →
        f₁.kind.runs = true → f₂.kind.runs = true → f₁.txn = f₂.txn → g₁ = g₂ := by
      intro g₁ g₂ f₁ f₂ hf₁ hf₂ hr₁ hr₂ htxn
      rcases hs.mem hf₁ with hold | ⟨kind, h, hp, rfl, rfl, _, _⟩
      · exact disciplined.own g₁ g₂ f₁ hold f₂ hf₂ hr₁ hr₂ htxn
      · by_cases hg : g₁ = g
        · subst hg
          exact (hp.inner sane manages disciplined hr₁ hf₂ hr₂ htxn).2
        · rw [hs.other hg] at hf₁
          exact disciplined.own g₁ g₂ f₁ hf₁ f₂ hf₂ hr₁ hr₂ htxn
    intro g₁ g₂ f₁ hf₁ f₂ hf₂ hr₁ hr₂ htxn
    by_cases hg₂ : g₂ = g
    · by_cases hg₁ : g₁ = g
      · exact hg₁.trans hg₂.symm
      · rw [hs.other hg₁] at hf₁
        exact (hnew hf₂ hf₁ hr₂ hr₁ htxn.symm).symm
    · rw [hs.other hg₂] at hf₂
      exact hnew hf₁ hf₂ hr₁ hr₂ htxn

/-- The functions that run are not concerned by what leaves the snapshots alone. -/
theorem Disciplined.of_lib {lib : MdbxEnv} (disciplined : w.Disciplined)
    (hlib : ∀ p, lib.snapshot p = w.lib.snapshot p) : ({ w with lib } : World).Disciplined := by
  obtain ⟨unmoved, own, nested⟩ := disciplined
  refine ⟨fun g f hf hruns => ?_, own, nested⟩
  obtain ⟨managed, ptr, snapshot⟩ := unmoved g f hf hruns
  exact ⟨managed, ptr, (hlib f.ptr).trans snapshot⟩

theorem oust_steady {a : Addr} {x : ReadTxn} (hx : w.lib.readers a = some x) (p : Option Ptr) :
    (w.lib.setReader a (some x.oust)).snapshot p = w.lib.snapshot p := by
  cases p with
  | none => rfl
  | some p =>
    cases p with
    | reader b =>
      by_cases hb : b = a
      · subst hb
        rw [snapshot_reader, snapshot_reader, setReader_self, hx]
        exact x.oust_snapshot
      · exact snapshot_of_readers (setReader_other hb _)
    | basal => rfl
    | nested b => rfl

theorem step_disciplined {e : Event} (sane : w.Sane) (manages : w.Manages e)
    (disciplined : w.Disciplined) (hr : w.step e = some r) : r.1.Disciplined := by
  rcases step_cases hr with ⟨g, self, o, call, rfl, _, _, hexec⟩ | ⟨a, x, _, hx, rfl⟩ |
    ⟨txnid, changes, _, _, _, _, rfl⟩ | ⟨_, rfl⟩
  · exact exec_disciplined sane manages disciplined hexec
  · exact disciplined.of_lib (oust_steady hx)
  · refine disciplined.of_lib fun p => ?_
    rcases p with _ | _ | _ | _ <;> rfl
  · refine disciplined.of_lib fun p => ?_
    rcases p with _ | _ | _ | _ <;> rfl

theorem init_disciplined (h : system.init w) : w.Disciplined := by
  have hframes := h.2.2.1
  constructor <;> simp [hframes]

theorem disciplined_invariant :
    system.Invariant (fun w e => w.Manages e) fun w => w.Sane ∧ w.Disciplined :=
  (sane_of_runs _).strengthen (fun _ h => init_disciplined h)
    fun w e w' sane _ disciplined manages hstep => by
      obtain ⟨r, hr, rfl⟩ := Option.map_eq_some_iff.mp hstep
      exact step_disciplined sane manages disciplined hr

end World

namespace MdbxEnv

variable {env : MdbxEnv} {o : Sys} {self : Thread} {p : Ptr}

/-- A write transaction that holds a snapshot is live. -/
theorem live_of_snapshot (hw : p.writes = true) (h : (env.snapshot (some p)).isSome = true) :
    ∃ t, env.txnAt p = some t ∧ t.finished = false := by
  obtain ⟨txnid, htxnid⟩ := Option.isSome_iff_exists.mp h
  have hbind : ((env.write? p).bind fun t => if t.1.finished then none else some t.1.txnid) =
      some txnid := by
    cases p with
    | reader a => cases hw
    | basal => exact htxnid
    | nested a => exact htxnid
  obtain ⟨⟨t, hasChild⟩, ht, hlive⟩ := Option.bind_eq_some_iff.mp hbind
  refine ⟨t, txnAt_of_write? ht, ?_⟩
  split at hlive
  · cases hlive
  · rename_i hfin
    simpa using hfin

/-- A commit and an abort end a transaction that holds a snapshot, when its owner calls them and the
environment has not failed. -/
theorem ended_of_snapshot (h : (env.snapshot (some p)).isSome = true) (hfatal : env.fatal = false)
    (howner : ∀ t ∈ env.txnAt p, t.owner = some self) :
    (env.mdbxTxnCommitEx o self (some p)).1.Ended p ∧
      (env.mdbxTxnAbort o self (some p)).1.Ended p := by
  cases hw : p.writes with
  | true =>
    obtain ⟨t, ht, hlive⟩ := live_of_snapshot hw h
    exact ⟨mdbxTxnCommitEx_ended ht hlive (howner t ht) hfatal,
      mdbxTxnAbort_ended ht hlive (howner t ht) hfatal⟩
  | false =>
    cases p with
    | basal => cases hw
    | nested a => cases hw
    | reader a =>
      rw [snapshot_reader] at h
      obtain ⟨txnid, htxnid⟩ := Option.isSome_iff_exists.mp h
      obtain ⟨r, hr, hlive⟩ := Option.bind_eq_some_iff.mp htxnid
      have hfin : r.finished = false := by
        unfold ReadTxn.snapshot at hlive
        split at hlive
        · cases hlive
        · simpa using ‹¬r.finished = true›
      refine ⟨?_, ?_⟩
      · simp only [mdbxTxnCommitEx, hr, hfin, hfatal]
        exact setReader_self _ _ _
      · simp only [mdbxTxnAbort, hr, hfatal]
        exact setReader_self _ _ _

end MdbxEnv

namespace World

open MdbxEnv

variable {w w' : World} {o : Sys} {g : Gor} {self : Thread} {call : Call} {h : Handle} {f : Frame}
  {fs : List Frame} {res : FnResult} {r : World × Reply}

/-! ### How a function leaves its transaction -/

/-- What libmdbx makes of a transaction whose function has ended: it is committed if the function
returned no error, and aborted otherwise. -/
def ending (o : Sys) (self : Thread) (lib : MdbxEnv) (p : Option Ptr) : FnResult → MdbxEnv
  | .nil => (lib.mdbxTxnCommitEx o self p).1
  | .error | .panic => (lib.mdbxTxnAbort o self p).1

theorem ending_ended {lib : MdbxEnv} {p : Ptr} (hlive : (lib.snapshot (some p)).isSome = true)
    (hfatal : lib.fatal = false) (howner : ∀ t ∈ lib.txnAt p, t.owner = some self)
    (res : FnResult) : (ending o self lib (some p) res).Ended p := by
  obtain ⟨hcommit, habort⟩ := ended_of_snapshot (o := o) hlive hfatal howner
  cases res with
  | nil => exact hcommit
  | error => exact habort
  | panic => exact habort

/-- The transaction is ended once, and its `Txn` has none left for the deferred abort. -/
theorem terminate_ending (hmatch : ∀ p ∈ (w.txns h).ptr, w.mismatched self h = false)
    (res : FnResult) : (w.terminate o self h res).1.lib = ending o self w.lib (w.txns h).ptr res ∧
      ((w.terminate o self h res).1.txns h).ptr = none := by
  have hcommit : (w.commitTxn o self h).1.lib = ending o self w.lib (w.txns h).ptr .nil ∧
      ((w.commitTxn o self h).1.txns h).ptr = none := by
    unfold commitTxn
    split
    · rename_i hmis
      cases hp : (w.txns h).ptr with
      | none => exact ⟨rfl, rfl⟩
      | some p =>
        rw [hmatch p hp] at hmis
        cases hmis
    · exact ⟨rfl, by simp [World.call, setTxn]⟩
  have habort : (w.abortTxn o self h).1.lib = (w.lib.mdbxTxnAbort o self (w.txns h).ptr).1 ∧
      ((w.abortTxn o self h).1.txns h).ptr = none := by
    unfold abortTxn
    cases hp : (w.txns h).ptr with
    | none => exact ⟨rfl, hp⟩
    | some p =>
      rw [if_neg (by simp), hmatch p hp, ← hp]
      exact ⟨rfl, by simp [World.call, setTxn]⟩
  cases res with
  | nil => exact hcommit
  | error => exact habort
  | panic => exact habort

/-- How `runOpTerm` and `Sub` leave the transaction of their function. -/
structure Terminated (o : Sys) (self : Thread) (res : FnResult) (f : Frame) (w w' : World) :
    Prop where
  lib : w'.lib = ending o self w.lib f.ptr res
  ptr : (w'.txns f.txn).ptr = none
  ended : f.snapshot.isSome = true → ∀ p ∈ f.ptr, w'.lib.Ended p

theorem finish_terminated (disciplined : w.Disciplined)
    (spares : w.Spares (.go g self o (.finish res))) (hframes : w.frames g = f :: fs)
    (hkind : f.kind = .term ∨ f.kind = .sub) (hr : w.finish o g self res = some r) :
    Terminated o self res f w r.1 := by
  have hruns : f.kind.runs = true := by rcases hkind with hk | hk <;> rw [hk] <;> rfl
  obtain ⟨_, hptr, hsnapshot⟩ := disciplined.unmoved g f (hframes ▸ List.mem_cons_self) hruns
  have hleaves := spares.2.2.2.2 rfl f.txn (ends_of_kind hframes hkind res)
  have hfinish : r = (w.pop g).terminate o self f.txn res := by
    unfold finish at hr
    rw [hframes] at hr
    dsimp only at hr
    rcases hkind with hk | hk <;> rw [hk] at hr <;> exact (Option.some.inj hr).symm
  obtain ⟨hlib, hnull⟩ := terminate_ending (w := w.pop g) (o := o)
    (fun p hp => (hleaves p hp).1) res
  rw [hfinish]
  refine ⟨hptr ▸ hlib, hnull, fun hlive p hp => ?_⟩
  have hp : f.ptr = some p := hp
  rw [← hsnapshot, hp] at hlive
  obtain ⟨hfatal, howner⟩ := (hleaves p (hptr.trans hp)).2 hlive
  rw [hlib]
  change (ending o self w.lib (w.txns f.txn).ptr res).Ended p
  rw [hptr, hp]
  exact ending_ended hlive hfatal howner res

theorem exec_of_step (hr : w.step (.go g self o call) = some r) :
    w.exec o g self call = some r := by
  simp only [step] at hr
  split at hr
  · exact hr
  · cases hr

/-- What a program can rely on about the transactions of the functions that run: each stays what it
was; the methods that would end it or move it panic; `CloneInto` refuses it as a target; a function
that ends its transaction ends it once, with a commit only if it returned no error; and one that
does not leaves the transaction and its management as they were when it began. -/
structure Discipline (w : World) : Prop where
  unmoved : ∀ g, ∀ f ∈ w.frames g, f.kind.runs = true → w.Unmoved f
  refused : ∀ g self o call h r, call.guards = some h → (w.txns h).managed = true →
    w.step (.go g self o call) = some r → ∃ msg, r = (w, .panicked (.managed msg))
  cloneInto : ∀ g self o h k r, (w.txns k).managed = true →
    w.Manages (.go g self o (.cloneInto h k)) →
    w.step (.go g self o (.cloneInto h k)) = some r →
    r = (w, .returned { err := some (.op "mdbx_txn_clone" (.mdbx Code.badTxn)) })
  terminated : ∀ g self o res f fs r, w.frames g = f :: fs → f.kind = .term ∨ f.kind = .sub →
    w.Manages (.go g self o (.finish res)) → w.step (.go g self o (.finish res)) = some r →
    Terminated o self res f w r.1
  kept : ∀ g self o h r, w.Manages (.go g self o (.runOp h false)) →
    w.step (.go g self o (.runOp h false)) = some r →
    ∀ w', (system.after r.1).Reaches (fun w e => w.Manages e) w' → w'.frames g = r.1.frames g →
    ∀ self' o' res r', w'.step (.go g self' o' (.finish res)) = some r' →
    Steady h w r'.1 ∧ (r'.1.txns h).managed = (w.txns h).managed

/-- `RunOp` without the end of the transaction, from the entry of its function to its end. -/
theorem runOp_kept {self' : Thread} {o' : Sys} {r' : World × Reply} (disciplined : w'.Disciplined)
    (hr : w.exec o g self (.runOp h false) = some r) (hsame : w'.frames g = r.1.frames g)
    (hr' : w'.exec o' g self' (.finish res) = some r') :
    Steady h w r'.1 ∧ (r'.1.txns h).managed = (w.txns h).managed := by
  cases hr
  have hframes : w'.frames g = {
      kind := .keep (!(w.txns h).managed), txn := h, ptr := (w.txns h).ptr
      snapshot := w.lib.snapshot (w.txns h).ptr } :: w.frames g := by
    rw [hsame]
    simp [runOpEither, runOp, push, setManaged, setTxn]
  obtain ⟨hmanaged, hptr, hsnapshot⟩ :=
    disciplined.unmoved g _ (hframes ▸ List.mem_cons_self) rfl
  obtain ⟨hlib, hptr', hmanaged'⟩ := finish_keep hframes rfl hr'
  dsimp only at hmanaged hptr hsnapshot hptr' hmanaged'
  refine ⟨⟨hptr'.trans hptr, by rw [hlib, hsnapshot]⟩, ?_⟩
  rw [hmanaged', hmanaged]
  simp

/-- In a run that leaves the managed transactions alone the functions of `View`, `Update`, `RunTxn`,
`Sub` and `RunOp` have them to themselves. -/
theorem managed_discipline (run : system.Reaches (fun w e => w.Manages e) w) : w.Discipline := by
  have disciplined := (run.invariant disciplined_invariant).2
  refine ⟨disciplined.unmoved, ?_, ?_, ?_, ?_⟩
  · intro g self o call h r hguards hm hr
    obtain ⟨msg, hrefused⟩ := @exec_refused w o g self call h hguards hm
    have hexec := exec_of_step hr
    rw [hrefused] at hexec
    exact ⟨msg, (Option.some.inj hexec).symm⟩
  · intro g self o h k r hm manages hr
    exact cloneInto_steady hm (manages.1.2.1 (h, k) rfl) (exec_of_step hr)
  · intro g self o res f fs r hframes hkind manages hr
    exact finish_terminated disciplined manages.1 hframes hkind (exec_of_step hr)
  · intro g self o h r manages hr w' later hsame self' o' res r' hr'
    have hstep : system.step w (.go g self o (.runOp h false)) = some r.1 := by
      change (w.step _).map (·.1) = _
      rw [hr]
      rfl
    have later := ((run.next manages hstep).trans later).invariant disciplined_invariant
    exact runOp_kept later.2 (exec_of_step hr) hsame (exec_of_step hr')

/-- `CloneInto` takes a managed `Txn` as its target: the function of `View` goes on at a later
snapshot. -/
theorem managed_moved : ¬ ∀ w : World, system.Reachable w →
    ∀ g, ∀ f ∈ w.frames g, f.kind.runs = true → w.Unmoved f := by
  intro hunmoved
  obtain ⟨w, run, hw⟩ := Transition.System.exists_of_replay system (fun _ _ => True)
    [.go 0 0 {} (.runTxn txnRdonly), .foreignCommit 2 [], .go 0 0 {} (.beginTxn none txnRdonly),
      .go 0 0 {} (.cloneInto 1 0)] {}
    (fun w => (w.frames 0).any fun f => f.kind.runs && w.lib.snapshot f.ptr != f.snapshot)
    ⟨rfl, rfl, rfl, rfl, rfl, rfl, by decide⟩ (by decide +kernel)
  obtain ⟨f, hf, hmoved⟩ := List.any_eq_true.mp hw
  obtain ⟨hruns, hne⟩ := Bool.and_eq_true_iff.mp hmoved
  exact bne_iff_ne.mp hne (hunmoved w run 0 f hf hruns).snapshot

/-- A function of `Sub` inside that of `Update`, which has tried to commit. -/
theorem managed_discipline_nested : ∃ w : World,
    (w.frames 0).map (·.kind) = [.sub, .term] ∧ w.Discipline := by
  obtain ⟨w, run, hw⟩ := Transition.System.exists_of_replay system
    (fun w e => w.Spares e ∧ e.reenters = false)
    [.go 0 0 {} (.runTxn 0), .go 0 0 {} (.commit 0), .go 0 0 {} (.sub 0)] {}
    (fun w => (w.frames 0).map (·.kind) == [.sub, .term])
    ⟨rfl, rfl, rfl, rfl, rfl, rfl, by decide⟩ (by decide +kernel)
  exact ⟨w, by simpa using hw,
    managed_discipline (run.mono fun w e hok => ⟨hok.1, alone_of_direct hok.2⟩)⟩

end World

end MdbxGo
