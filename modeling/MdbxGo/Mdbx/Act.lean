import MdbxGo.Libmdbx.Create
import MdbxGo.Mdbx.World

/-! What one step of a program can do: it acts through one `Txn`, makes a new one, or is no call of
this program at all. Every invariant of the runs is derived from this. -/

namespace MdbxGo

namespace World

open MdbxEnv

variable {w w' : World} {o : Sys} {g : Gor} {self : Thread}

/-- The pointer of a `Txn` and the threads that it is bound to stay. -/
structure SameTxn (x y : Txn) : Prop where
  ptr : y.ptr = x.ptr
  tid : y.tid = x.tid
  begun : y.begun = x.begun

theorem SameTxn.refl (x : Txn) : SameTxn x x := ⟨rfl, rfl, rfl⟩

/-- What the call on the `Txn` `h` has done through its pointer, and to the pointer. -/
inductive Own (o : Sys) (g : Gor) (thread : Thread) (call : Call) (h : Handle) (w w' : World) :
    Prop
  | kept : LocalAt w.lib w'.lib (w.txns h).ptr → SameTxn (w.txns h) (w'.txns h) →
      Own o g thread call h w w'
  | rolledBack {code : Code} : call = .rollback h → w.refuses thread h call = false →
      w.lib.mdbxTxnRollback o thread (w.txns h).ptr = some (w'.lib, code) →
      w'.txns h = (w.txns h).resetID → Own o g thread call h w w'
  | committed : call.commits = true → w.ends g call = some h → w.refuses thread h call = false →
      w'.lib = (w.lib.mdbxTxnCommitEx o thread (w.txns h).ptr).1 →
      w'.txns h = (w.txns h).clearTxn → Own o g thread call h w w'
  | aborted : w.ends g call = some h → w.refuses thread h call = false →
      w'.lib = (w.lib.mdbxTxnAbort o thread (w.txns h).ptr).1 →
      w'.txns h = (w.txns h).clearTxn → Own o g thread call h w w'
  | checkpointed {flags : UInt32} {code : Code} : call = .checkpoint h flags →
      w.refuses thread h call = false →
      w.lib.mdbxTxnCheckpoint o thread flags (w.txns h).ptr = some (w'.lib, code) →
      w'.txns h = (if code = Code.success ∨ code = Code.resultTrue then (w.txns h).resetID
        else (w.txns h).clearTxn) → Own o g thread call h w w'
  | embarked {code : Code} {ptr : Option Ptr} : call = .commitEmbarkRead h →
      w.refuses thread h call = false →
      w.lib.mdbxTxnCommitEmbarkRead o thread (w.txns h).ptr = some (w'.lib, code, ptr) →
      (w'.txns h).ptr = (if code = Code.resultTrue then none else ptr) → (w'.txns h).id = 0 →
      (w'.txns h).begun = (w.txns h).begun → (w'.txns h).tid = (w.txns h).tid →
      Own o g thread call h w w'

/-- A step through the `Txn` `h`: it changes no other `Txn`. -/
structure Through (o : Sys) (g : Gor) (thread : Thread) (call : Call) (h : Handle)
    (w w' : World) : Prop where
  own : Own o g thread call h w w'
  others : ∀ k, k ≠ h → w'.txns k = w.txns k
  next : w'.next = w.next
  strict : w'.strictThreadCheck = w.strictThreadCheck

/-- The `Txn` values other than the new one stay, and the new one holds `p`. -/
structure Made (thread : Thread) (p : Ptr) (w w' : World) : Prop where
  ptr : (w'.txns w.next).ptr = some p
  id : (w'.txns w.next).id = 0
  parked : (w'.txns w.next).parked = false
  begun : (w'.txns w.next).begun = thread
  tid : w.strictThreadCheck = true → (w'.txns w.next).tid = thread
  next : w'.next = w.next + 1
  strict : w'.strictThreadCheck = w.strictThreadCheck

/-- A goroutine waits inside `Amend` for the reader at `a`. -/
def Amending (w : World) (g : Gor) (flags : UInt32) (h : Handle) (a : Addr) : Prop :=
  ∃ f fs, w.frames g = f :: fs ∧ f.kind = .amending flags ∧ f.txn = h ∧ f.ptr = some (.reader a)

/-- What a step can do. -/
inductive Act (o : Sys) (g : Gor) (self : Thread) (call : Call) (w w' : World) : Prop
  | through (h : Handle) : h ∈ w.uses g call → Through o g self call h w w' →
      Act o g self call w w'
  | refused {parent : Option Handle} {code : Code} : call.opens = some parent →
      Began self (parent.bind fun h => (w.txns h).ptr) w.next w.lib w'.lib code none →
      w'.txns = w.txns → w'.next = w.next → w'.strictThreadCheck = w.strictThreadCheck →
      Act o g self call w w'
  | began {parent : Option Handle} {code : Code} {p : Ptr} : call.opens = some parent →
      Began self (parent.bind fun h => (w.txns h).ptr) w.next w.lib w'.lib code (some p) →
      Made self p w w' → (∀ k, k ≠ w.next → w'.txns k = w.txns k) → Act o g self call w w'
  | cloned {r : ReadTxn} : r.client = w.next → w'.lib = w.lib.allocReader r →
      Made self (.reader w.lib.brk) w w' → (∀ k, k ≠ w.next → w'.txns k = w.txns k) →
      Act o g self call w w'
  | tooOld {h : Handle} {a : Addr} {flags : UInt32} {code : Code} : call = .amendLocked →
      w.Amending g flags h a →
      Amended self a w.next flags w.lib w'.lib code none → w'.txns = w.txns →
      w'.next = w.next → w'.strictThreadCheck = w.strictThreadCheck → Act o g self call w w'
  | amended {h : Handle} {a : Addr} {flags : UInt32} {code : Code} : call = .amendLocked →
      w.Amending g flags h a →
      Amended self a w.next flags w.lib w'.lib code (some .basal) → Made self .basal w w' →
      (∀ k, k ≠ w.next → k ≠ h → w'.txns k = w.txns k) →
      (h ≠ w.next → w'.txns h = if flags &&& txnRdonlyPrepare = 0 then (w.txns h).clearTxn
        else (w.txns h).resetID) → Act o g self call w w'

/-! ### Calls through one `Txn` -/

variable {call : Call} {h : Handle}

theorem Through.refl (h : Handle) : Through o g self call h w w :=
  ⟨.kept (.refl _) (.refl _), fun _ _ => rfl, rfl, rfl⟩

theorem through_setTxn {lib : MdbxEnv} {x : Txn}
    (own : Own o g self call h w ({ w with lib }.setTxn h x)) :
    Through o g self call h w ({ w with lib }.setTxn h x) :=
  ⟨own, fun _ hk => Function.update_of_ne hk _ _, rfl, rfl⟩

theorem setTxn_self (w : World) (h : Handle) (x : Txn) : (w.setTxn h x).txns h = x := by
  simp [setTxn]

/-- A method whose C call is local, and which keeps its pointer. -/
theorem call_through {f : MdbxEnv → Option Ptr → MdbxEnv × Code} {after : Code → Txn → Txn}
    (hf : ∀ p, Local p w.lib (f w.lib (some p)).1) (hnull : (f w.lib none).1 = w.lib)
    (hsame : ∀ code x, SameTxn x (after code x)) :
    Through o g self call h w (w.call h f after).1 := by
  refine through_setTxn (.kept ?_ ?_)
  · change LocalAt w.lib (f w.lib (w.txns h).ptr).1 (w.txns h).ptr
    cases (w.txns h).ptr with
    | none => exact hnull
    | some p => exact hf p
  · rw [setTxn_self]
    exact hsame _ _

theorem Through.push {k : Handle} {kind : FrameKind} (hw : Through o g self call h w w') :
    Through o g self call h w (w'.push g kind k) := by
  obtain ⟨own, others, next, strict⟩ := hw
  refine ⟨?_, others, next, strict⟩
  cases own with
  | kept hlib hsame => exact .kept hlib hsame
  | rolledBack hcall href hlib htxn => exact .rolledBack hcall href hlib htxn
  | committed hcommits hends href hlib htxn => exact .committed hcommits hends href hlib htxn
  | aborted hends href hlib htxn => exact .aborted hends href hlib htxn
  | checkpointed hcall href hlib htxn => exact .checkpointed hcall href hlib htxn
  | embarked hcall href hlib hptr hid hbegun htid =>
    exact .embarked hcall href hlib hptr hid hbegun htid

theorem through_unmanaged {msg : String} {method : World × Reply}
    (hm : (w.txns h).managed = false → Through o g self call h w method.1) :
    Through o g self call h w (w.unmanaged msg h method).1 := by
  unfold unmanaged
  split
  · exact .refl h
  · rename_i hmanaged
    exact hm (by simpa using hmanaged)

theorem id_through (h : Handle) : Through o g self call h w (w.id h) := by
  unfold World.id
  split
  · refine through_setTxn (.kept (.refl _) ?_)
    rw [setTxn_self]
    exact ⟨rfl, rfl, rfl⟩
  · exact .refl h

theorem get_through (h : Handle) : Through o g self call h w (w.get o h).1 :=
  call_through mdbxGet_local rfl fun _ _ => ⟨rfl, rfl, rfl⟩

theorem put_through (change : Change) (h : Handle) :
    Through o g self call h w (w.put o change h).1 :=
  call_through (mdbxPut_local change) rfl fun _ _ => ⟨rfl, rfl, rfl⟩

theorem resetTxn_through (h : Handle) : Through o g self call h w (w.resetTxn o self h).1 := by
  unfold resetTxn
  dsimp only
  exact call_through mdbxTxnReset_local rfl fun _ _ => ⟨rfl, rfl, rfl⟩

theorem renewTxn_through (h : Handle) : Through o g self call h w (w.renewTxn o self h).1 := by
  unfold renewTxn
  dsimp only
  exact call_through mdbxTxnRenew_local rfl fun _ _ => ⟨rfl, rfl, rfl⟩

theorem refresh_through (h : Handle) : Through o g self call h w (w.refresh o self h).1 := by
  refine through_unmanaged fun _ => ?_
  dsimp only
  exact call_through mdbxTxnRefresh_local rfl fun _ _ => ⟨rfl, rfl, rfl⟩

theorem park_through (autounpark : Bool) (h : Handle) :
    Through o g self call h w (w.park o self autounpark h).1 := by
  unfold park
  split
  · exact .refl h
  · split
    · exact .refl h
    · dsimp only
      refine call_through (mdbxTxnPark_local autounpark) rfl fun code x => ?_
      split <;> exact ⟨rfl, rfl, rfl⟩

theorem unpark_through (restart : Bool) (h : Handle) :
    Through o g self call h w (w.unpark o self restart h).1 := by
  unfold unpark
  split
  · exact .refl h
  · split
    · exact .refl h
    · dsimp only
      refine call_through (mdbxTxnUnpark_local restart) rfl fun code x => ?_
      split <;> exact ⟨rfl, rfl, rfl⟩

/-- The entry of the function that has ended is taken off the stack, or not. -/
theorem through_popped {v : World} (hv : v = w ∨ v = w.pop g) :
    Through o g self call h w v ∧ v.mismatched self h = w.mismatched self h := by
  rcases hv with rfl | rfl
  · exact ⟨.refl h, rfl⟩
  · exact ⟨⟨.kept (.refl _) (.refl _), fun _ _ => rfl, rfl, rfl⟩, rfl⟩

/-- `commit`, also with the entry of the function that has ended taken off the stack. -/
theorem commitTxn_through {v : World} (hv : v = w ∨ v = w.pop g) (hcommits : call.commits = true)
    (hends : w.ends g call = some h)
    (href : w.mismatched self h = false → w.refuses self h call = false) :
    Through o g self call h w (v.commitTxn o self h).1 := by
  obtain ⟨hsame, hmis⟩ := @through_popped w o g self call h v hv
  have hown : w.mismatched self h = false → ∀ x, Own o g self call h w
      ({ w with lib := (w.lib.mdbxTxnCommitEx o self (w.txns h).ptr).1, frames := x }.setTxn h
        (w.txns h).clearTxn) :=
          fun hw x => .committed hcommits hends (href hw) rfl (setTxn_self _ _ _)
  unfold commitTxn
  split
  · exact hsame
  · rename_i hm
    rw [hmis] at hm
    have hw : w.mismatched self h = false := by simpa using hm
    rcases hv with rfl | rfl
    · exact ⟨hown hw _, fun _ hk => Function.update_of_ne hk _ _, rfl, rfl⟩
    · exact ⟨hown hw _, fun _ hk => Function.update_of_ne hk _ _, rfl, rfl⟩

theorem abortTxn_through {v : World} (hv : v = w ∨ v = w.pop g) (hends : w.ends g call = some h)
    (href : w.mismatched self h = false → w.refuses self h call = false) :
    Through o g self call h w (v.abortTxn o self h).1 := by
  obtain ⟨hsame, hmis⟩ := @through_popped w o g self call h v hv
  have hown : w.mismatched self h = false → ∀ x, Own o g self call h w
      ({ w with lib := (w.lib.mdbxTxnAbort o self (w.txns h).ptr).1, frames := x }.setTxn h
        (w.txns h).clearTxn) := fun hw x => .aborted hends (href hw) rfl (setTxn_self _ _ _)
  unfold abortTxn
  split
  · exact hsame
  · split
    · exact hsame
    · rename_i hm
      rw [hmis] at hm
      have hw : w.mismatched self h = false := by simpa using hm
      rcases hv with rfl | rfl
      · exact ⟨hown hw _, fun _ hk => Function.update_of_ne hk _ _, rfl, rfl⟩
      · exact ⟨hown hw _, fun _ hk => Function.update_of_ne hk _ _, rfl, rfl⟩

theorem through_writerOnly {msg op : String} {method : Option (World × Reply)}
    (hm : ((w.txns h).managed || (w.txns h).readonly || w.mismatched self h) = false →
      ∀ r, method = some r → Through o g self call h w r.1) {r : World × Reply}
    (hr : w.writerOnly msg op self h method = some r) : Through o g self call h w r.1 := by
  unfold writerOnly at hr
  split at hr
  · cases hr
    exact .refl h
  · rename_i hmanaged
    split at hr
    · cases hr
      exact .refl h
    · rename_i hreadonly
      split at hr
      · cases hr
        exact .refl h
      · rename_i hmis
        exact hm (by simp [hmanaged, hreadonly, hmis]) r hr

theorem checkpoint_through {flags : UInt32} {r : World × Reply}
    (hr : w.checkpoint o self flags h = some r) :
    Through o g self (.checkpoint h flags) h w r.1 := by
  refine through_writerOnly (fun href r hr => ?_) hr
  obtain ⟨⟨lib, code⟩, hc, rfl⟩ := Option.map_eq_some_iff.mp hr
  refine through_setTxn (.checkpointed rfl href hc ?_)
  rw [setTxn_self]
  simp only [Bool.or_eq_true, beq_iff_eq, or_comm]

theorem commitEmbarkRead_through {r : World × Reply}
    (hr : w.commitEmbarkRead o self h = some r) :
    Through o g self (.commitEmbarkRead h) h w r.1 := by
  refine through_writerOnly (fun href r hr => ?_) hr
  obtain ⟨⟨lib, code, ptr⟩, hc, rfl⟩ := Option.map_eq_some_iff.mp hr
  dsimp only
  refine through_setTxn (.embarked rfl href hc ?_ ?_ ?_ ?_)
  all_goals
    rw [setTxn_self]
    by_cases htrue : code = Code.resultTrue
    · simp [htrue, Txn.clearTxn, Txn.resetID]
    · by_cases hsuccess : code = Code.success
      · simp [hsuccess, Code.success, Code.resultTrue, Txn.resetID]
      · cases ptr <;> simp [htrue, hsuccess, Txn.clearTxn, Txn.resetID]

theorem rollback_through {r : World × Reply} (hr : w.rollback o self h = some r) :
    Through o g self (.rollback h) h w r.1 := by
  refine through_writerOnly (fun href r hr => ?_) hr
  obtain ⟨⟨lib, code⟩, hc, rfl⟩ := Option.map_eq_some_iff.mp hr
  exact through_setTxn (.rolledBack rfl href hc (setTxn_self _ _ _))

theorem amend_through (flags : UInt32) (h : Handle) :
    Through o g self call h w (w.amend o g self flags h).1 := by
  refine through_unmanaged fun _ => ?_
  split
  · exact .refl h
  · split
    · exact .refl h
    · have hlib : LocalAt w.lib (w.lib.amendStart o self flags (w.txns h).ptr).1
          (w.txns h).ptr := by
        cases (w.txns h).ptr with
        | none => rfl
        | some p => exact amendStart_local flags p
      dsimp only
      split <;> exact ⟨.kept hlib (.refl _), fun _ _ => rfl, rfl, rfl⟩

theorem cloneInto_through {target : Handle} {r : World × Reply}
    (hr : w.cloneInto o target h = some r) : Through o g self call target w r.1 := by
  unfold cloneInto at hr
  dsimp only at hr
  split at hr
  · cases hr
    exact .refl target
  · split at hr
    · cases hr
      exact .refl target
    · rename_i a hp
      obtain ⟨t, ht, rfl⟩ := Option.map_eq_some_iff.mp hr
      obtain ⟨x, hx, hclient⟩ := mdbxTxnCloneInto_reader o w.lib a t (w.txns h).ptr
      have hlib : LocalAt w.lib (w.lib.mdbxTxnCloneInto o (w.txns h).ptr a t).1
          (w.txns target).ptr := by
        rw [hp, hx]
        exact Local.reader x rfl ht hclient
      split
      · exact ⟨.kept hlib (.refl _), fun _ _ => rfl, rfl, rfl⟩
      · refine through_setTxn (.kept hlib ?_)
        rw [setTxn_self]
        exact ⟨rfl, rfl, rfl⟩
    · cases hr

theorem setManaged_through (b : Bool) (h : Handle) :
    Through o g self call h w (w.setManaged b h) := by
  refine through_setTxn (.kept (.refl _) ?_)
  rw [setTxn_self]
  exact ⟨rfl, rfl, rfl⟩

theorem runOpEither_through (terminate : Bool) (h : Handle) :
    Through o g self call h w (w.runOpEither g terminate h).1 := by
  unfold runOpEither
  split
  · exact through_unmanaged fun _ => (setManaged_through true h).push
  · exact (setManaged_through true h).push

theorem terminate_through (res : FnResult) (hends : w.ends g (.finish res) = some h) :
    Through o g self (.finish res) h w ((w.pop g).terminate o self h res).1 := by
  cases res with
  | nil => exact commitTxn_through (.inr rfl) rfl hends fun hm => hm
  | error => exact abortTxn_through (.inr rfl) hends fun hm => hm
  | panic => exact abortTxn_through (.inr rfl) hends fun hm => hm

/-- The functions that end their transaction. -/
theorem ends_of_kind {f : Frame} {fs : List Frame} (hframes : w.frames g = f :: fs)
    (hkind : f.kind = .term ∨ f.kind = .sub) (res : FnResult) :
    w.ends g (.finish res) = some f.txn := by
  obtain ⟨kind, txn, ptr, snapshot⟩ := f
  rcases hkind with hk | hk
  · cases hk
    simp [ends, hframes]
  · cases hk
    simp [ends, hframes]

theorem finish_through {res : FnResult} {r : World × Reply}
    (hr : w.finish o g self res = some r) :
    ∃ f fs, w.frames g = f :: fs ∧ Through o g self (.finish res) f.txn w r.1 := by
  unfold finish at hr
  split at hr
  · cases hr
  · rename_i f fs hfs
    refine ⟨f, fs, hfs, ?_⟩
    split at hr
    · rename_i hkind
      cases hr
      exact terminate_through res (ends_of_kind hfs (.inl hkind) res)
    · rename_i hkind
      cases hr
      exact terminate_through res (ends_of_kind hfs (.inr hkind) res)
    · cases hr
      unfold leave
      dsimp only
      split
      · refine ⟨.kept (.refl _) ?_, fun _ hk => Function.update_of_ne hk _ _, rfl, rfl⟩
        rw [setManaged, setTxn_self]
        exact ⟨rfl, rfl, rfl⟩
      · exact ⟨.kept (.refl _) (.refl _), fun _ _ => rfl, rfl, rfl⟩
    · cases hr

/-! ### Calls that make a `Txn` -/

/-- `beginTxn` is refused, or makes a `Txn`. -/
theorem beginTxn_cases (ok : w.lib.Ok) {parent : Option Handle} {flags : UInt32}
    {r : World × Returned} (hr : w.beginTxn o self parent flags = some r) :
    ∃ code ptr, Began self (parent.bind fun h => (w.txns h).ptr) w.next w.lib r.1.lib code ptr ∧
      r.1.frames = w.frames ∧
      (∀ k, k ≠ w.next → r.1.txns k = w.txns k) ∧
      ((ptr = none ∧ r.2.txn = none ∧ r.1.txns = w.txns ∧ r.1.next = w.next ∧
          r.1.strictThreadCheck = w.strictThreadCheck) ∨
        ∃ p, ptr = some p ∧ r.2.txn = some w.next ∧ Made self p w r.1 ∧
          (r.1.txns w.next).managed = false) := by
  obtain ⟨⟨env', code, ptr⟩, hc, rfl⟩ := Option.map_eq_some_iff.mp hr
  have hbegan := mdbxTxnBegin_began ok hc
  have hptr : ptr.isSome ↔ code = Code.success := by
    cases hbegan with
    | refused hne _ => simp [show code ≠ Code.success from hne]
    | reader hs _ _ _ _ => simpa using hs
    | basal hs _ _ => simpa using hs
    | nested hs _ _ _ _ _ _ _ _ _ _ => simpa using hs
  refine ⟨code, ptr, ?_⟩
  dsimp only
  cases ptr with
  | none =>
    rw [if_pos (by simpa using hptr)]
    exact ⟨hbegan, rfl, fun _ _ => rfl, .inl ⟨rfl, rfl, rfl, rfl, rfl⟩⟩
  | some p =>
    rw [if_neg (by simpa using hptr)]
    refine ⟨hbegan, rfl, fun k hk => Function.update_of_ne hk _ _, .inr ⟨p, rfl, rfl, ?_, ?_⟩⟩
    · constructor <;> simp +contextual [create, setTxn]
    · simp [create, setTxn]

theorem Made.push {p : Ptr} {kind : FrameKind} {h : Handle} (hm : Made self p w w') :
    Made self p w (w'.push g kind h) :=
  ⟨hm.ptr, hm.id, hm.parked, hm.begun, hm.tid, hm.next, hm.strict⟩

theorem Made.setManaged {p : Ptr} {b : Bool} (hm : Made self p w w') :
    Made self p w (w'.setManaged b w.next) := by
  obtain ⟨hptr, hid, hparked, hbegun, htid, hnext, hstrict⟩ := hm
  constructor <;> simp_all [World.setManaged, setTxn]

theorem setManaged_other {b : Bool} {h k : Handle} (hk : k ≠ h) :
    (w.setManaged b h).txns k = w.txns k :=
  Function.update_of_ne hk _ _

theorem beginTxn_act (ok : w.lib.Ok) {parent : Option Handle} {flags : UInt32}
    {r : World × Returned} (hr : w.beginTxn o self parent flags = some r) :
    Act o g self (.beginTxn parent flags) w r.1 := by
  obtain ⟨code, ptr, hbegan, _, hother, ⟨rfl, _, htxns, hnext, hstrict⟩ | ⟨p, rfl, _, hmade, _⟩⟩ :=
    beginTxn_cases ok hr
  · exact .refused rfl hbegan htxns hnext hstrict
  · exact .began rfl hbegan hmade hother

theorem runTxn_act (ok : w.lib.Ok) {flags : UInt32} {r : World × Reply}
    (hr : w.runTxn o g self flags = some r) : Act o g self (.runTxn flags) w r.1 := by
  obtain ⟨c, hc, rfl⟩ := Option.map_eq_some_iff.mp hr
  obtain ⟨code, ptr, hbegan, _, hother, ⟨rfl, htxn, htxns, hnext, hstrict⟩ |
    ⟨p, rfl, htxn, hmade, hmanaged⟩⟩ := beginTxn_cases ok hc
  · rw [htxn]
    exact .refused rfl hbegan htxns hnext hstrict
  · rw [htxn]
    dsimp only
    unfold runOpTerm unmanaged
    rw [hmanaged]
    exact .began rfl hbegan hmade.setManaged.push
      fun k hk => (setManaged_other hk).trans (hother k hk)

theorem sub_act (ok : w.lib.Ok) {h : Handle} {r : World × Reply}
    (hr : w.sub o g self h = some r) : Act o g self (.sub h) w r.1 := by
  obtain ⟨c, hc, rfl⟩ := Option.map_eq_some_iff.mp hr
  obtain ⟨code, ptr, hbegan, _, hother, ⟨rfl, htxn, htxns, hnext, hstrict⟩ |
    ⟨p, rfl, htxn, hmade, hmanaged⟩⟩ := beginTxn_cases ok hc
  · rw [htxn]
    exact .refused rfl hbegan htxns hnext hstrict
  · rw [htxn]
    exact .began rfl hbegan hmade.setManaged.push
      fun k hk => (setManaged_other hk).trans (hother k hk)

theorem clone_act (h : Handle) : Act o g self (.clone h) w (w.clone o self h).1 := by
  unfold clone
  dsimp only
  rcases mdbxTxnClone_cases (o := o) w.next (w.txns h).ptr w.lib with ⟨hcode, hlib⟩ |
    ⟨r, hcode, hclient, hlib, hptr⟩
  · rw [if_pos (by simpa using hcode)]
    refine .through h (by simp [uses, Call.handles]) ⟨.kept ?_ (.refl _), fun _ _ => rfl, rfl, rfl⟩
    dsimp only
    rw [hlib]
    exact .refl _
  · rw [if_neg (by simpa using hcode)]
    refine .cloned hclient hlib ?_ fun k hk => Function.update_of_ne hk _ _
    constructor <;> simp +contextual [create, setTxn, hptr]

theorem amendLocked_act (ok : w.lib.Ok) {r : World × Reply}
    (hr : w.amendLocked o g self = some r) : Act o g self .amendLocked w r.1 := by
  unfold World.amendLocked at hr
  split at hr
  · rename_i flags h a snapshot rest hframes
    obtain ⟨c, hc, rfl⟩ := Option.map_eq_some_iff.mp hr
    have hwait : w.Amending g flags h a := ⟨_, _, hframes, rfl, rfl, rfl⟩
    have ham := amendLocked_amended ok hc
    dsimp only
    split
    · rename_i hcode
      have hnone : c.2.2 = none := by
        generalize c.2.2 = ptr at ham
        cases ham with
        | refused _ _ _ => rfl
        | started hs _ _ _ _ _ => simp [hs] at hcode
      rw [hnone] at ham
      exact .tooOld rfl hwait ham rfl rfl rfl
    · rename_i hcode
      have hsome : c.2.2 = some .basal := by
        generalize c.2.2 = ptr at ham
        cases ham with
        | refused hne _ _ => simp [hne] at hcode
        | started _ _ _ _ _ _ => rfl
      rw [hsome] at ham
      refine .amended rfl hwait ham ?_ ?_ ?_
      · constructor <;> simp +contextual [create, setTxn, pop, hsome]
      · intro k hk hkh
        simp [create, setTxn, pop, Function.update_of_ne hk, Function.update_of_ne hkh]
      · intro hne
        simp only [create, setTxn, pop, Function.update_of_ne hne, Function.update_self, beq_iff_eq]
  · cases hr

/-- What the call of a goroutine does. -/
theorem exec_act (ok : w.lib.Ok) {call : Call} {r : World × Reply}
    (hr : w.exec o g self call = some r) : Act o g self call w r.1 := by
  have huses : ∀ h ∈ call.handles, h ∈ w.uses g call := fun h hh =>
    List.mem_append_left _ hh
  cases call with
  | beginTxn parent flags =>
    obtain ⟨c, hc, rfl⟩ := Option.map_eq_some_iff.mp hr
    exact beginTxn_act ok hc
  | id h => cases hr; exact .through h (huses h (by simp [Call.handles])) (id_through h)
  | get h => cases hr; exact .through h (huses h (by simp [Call.handles])) (get_through h)
  | put h change =>
    cases hr
    exact .through h (huses h (by simp [Call.handles])) (put_through change h)
  | commit h =>
    cases hr
    exact .through h (huses h (by simp [Call.handles]))
      (through_unmanaged fun hm => commitTxn_through (.inl rfl) rfl rfl fun hw => by
        simp [refuses, hm, hw])
  | abort h =>
    cases hr
    exact .through h (huses h (by simp [Call.handles]))
      (through_unmanaged fun hm => abortTxn_through (.inl rfl) rfl fun hw => by
        simp [refuses, hm, hw])
  | reset h =>
    cases hr
    exact .through h (huses h (by simp [Call.handles]))
      (through_unmanaged fun _ => resetTxn_through h)
  | renew h =>
    cases hr
    exact .through h (huses h (by simp [Call.handles]))
      (through_unmanaged fun _ => renewTxn_through h)
  | refresh h =>
    cases hr
    exact .through h (huses h (by simp [Call.handles])) (refresh_through h)
  | park h autounpark =>
    cases hr
    exact .through h (huses h (by simp [Call.handles])) (park_through autounpark h)
  | unpark h restart =>
    cases hr
    exact .through h (huses h (by simp [Call.handles])) (unpark_through restart h)
  | checkpoint h flags =>
    exact .through h (huses h (by simp [Call.handles])) (checkpoint_through hr)
  | commitEmbarkRead h =>
    exact .through h (huses h (by simp [Call.handles])) (commitEmbarkRead_through hr)
  | rollback h => exact .through h (huses h (by simp [Call.handles])) (rollback_through hr)
  | amend h flags =>
    cases hr
    exact .through h (huses h (by simp [Call.handles])) (amend_through flags h)
  | amendLocked => exact amendLocked_act ok hr
  | clone h => cases hr; exact clone_act h
  | cloneInto h target =>
    exact .through target (huses target (by simp [Call.handles])) (cloneInto_through hr)
  | runTxn flags => exact runTxn_act ok hr
  | runOp h terminate =>
    cases hr
    exact .through h (huses h (by simp [Call.handles])) (runOpEither_through terminate h)
  | sub h => exact sub_act ok hr
  | finish res =>
    obtain ⟨f, fs, hfs, hthrough⟩ := finish_through hr
    exact .through f.txn (by simp [uses, hfs]) hthrough

/-- The effects in libmdbx of a call through a `Txn`. -/
theorem Own.effect (ok : w.lib.Ok) (own : Own o g self call h w w') :
    EffectAt w.lib w'.lib (w.txns h).ptr := by
  cases own with
  | kept hlib _ => exact hlib.effectAt ok
  | rolledBack _ _ hlib _ =>
    cases hp : (w.txns h).ptr with
    | none =>
      rw [hp] at hlib
      exact (congrArg Prod.fst (Option.some.inj hlib)).symm
    | some p => exact mdbxTxnRollback_effect ok (hp ▸ hlib)
  | committed _ _ _ hlib _ =>
    rw [hlib]
    cases (w.txns h).ptr with
    | none => rfl
    | some p => exact mdbxTxnCommitEx_effect ok p
  | aborted _ _ hlib _ =>
    rw [hlib]
    cases (w.txns h).ptr with
    | none => rfl
    | some p => exact mdbxTxnAbort_effect ok p
  | checkpointed _ _ hlib _ =>
    cases hp : (w.txns h).ptr with
    | none =>
      rw [hp] at hlib
      exact (congrArg Prod.fst (Option.some.inj hlib)).symm
    | some p => exact mdbxTxnCheckpoint_effect ok (hp ▸ hlib)
  | embarked _ _ hlib _ _ _ _ =>
    cases hp : (w.txns h).ptr with
    | none =>
      rw [hp] at hlib
      exact (congrArg Prod.fst (Option.some.inj hlib)).symm
    | some p => exact mdbxTxnCommitEmbarkRead_effect ok (hp ▸ hlib)

theorem Act.ok (ok : w.lib.Ok) (h : Act o g self call w w') : w'.lib.Ok := by
  cases h with
  | through k _ hk => exact (hk.own.effect ok).ok ok
  | refused _ hb _ _ _ => exact hb.ok ok
  | began _ hb _ _ => exact hb.ok ok
  | cloned _ hlib _ _ => exact hlib ▸ ok_allocReader ok _
  | tooOld _ _ ha _ _ _ =>
    cases ha with
    | refused _ href hlocal => exact (hlocal.effect href.ok).ok
  | amended _ _ ha _ _ _ =>
    cases ha with
    | started _ _ _ hok _ _ => exact hok

/-! ### Steps -/

/-- A step is the call of a goroutine that may make one, or happens outside the program. -/
theorem step_cases {e : Event} {r : World × Reply} (hr : w.step e = some r) :
    (∃ g self o call, e = .go g self o call ∧ (∀ h ∈ call.handles, h < w.next) ∧
      (w.waiting g = true ↔ call = .amendLocked) ∧ w.exec o g self call = some r) ∨
    (∃ a x, e = .oust a ∧ w.lib.readers a = some x ∧
      r = ({ w with lib := w.lib.setReader a (some x.oust) }, .returned {})) ∨
    (∃ txnid changes, e = .foreignCommit txnid changes ∧ w.lib.basal.owner = none ∧
      w.lib.recent < txnid ∧ txnid ≤ maxTxnid ∧
      r = ({ w with
        lib := { w.lib with recent := txnid, data := w.lib.data ++ changes } }, .returned {})) ∨
    (e = .fatal ∧ r = ({ w with lib := { w.lib with fatal := true } }, .returned {})) := by
  cases e with
  | go g self o call =>
    simp only [step] at hr
    split at hr
    · rename_i hguard
      refine .inl ⟨g, self, o, call, rfl, ?_, ?_, hr⟩
      · intro h hh
        have hall := (Bool.and_eq_true_iff.mp hguard).2
        simpa [known] using List.all_eq_true.mp hall h hh
      · have hw := (Bool.and_eq_true_iff.mp hguard).1
        rw [beq_iff_eq.mp hw, decide_eq_true_iff]
    · cases hr
  | oust a =>
    obtain ⟨x, hx, rfl⟩ := Option.map_eq_some_iff.mp hr
    exact .inr (.inl ⟨a, x, rfl, hx, rfl⟩)
  | foreignCommit txnid changes =>
    simp only [step] at hr
    split at hr
    · rename_i hguard
      simp only [Bool.and_eq_true, decide_eq_true_eq, Option.isNone_iff_eq_none] at hguard
      cases hr
      exact .inr (.inr (.inl ⟨txnid, changes, rfl, hguard.1.1, hguard.1.2, hguard.2, rfl⟩))
    · cases hr
  | fatal =>
    cases hr
    exact .inr (.inr (.inr ⟨rfl, rfl⟩))

theorem step_ok {e : Event} {r : World × Reply} (ok : w.lib.Ok) (hr : w.step e = some r) :
    r.1.lib.Ok := by
  rcases step_cases hr with ⟨g, self, o, call, _, _, _, hexec⟩ | ⟨a, x, _, hx, rfl⟩ |
    ⟨txnid, changes, _, howner, _, hle, rfl⟩ | ⟨_, rfl⟩
  · exact (exec_act ok hexec).ok ok
  · exact ok_setReader ok hx _
  · refine { ok with bounded := hle, next := fun hf => ?_ }
    have hidle := ok.owner
    rw [howner] at hidle
    exact absurd hf (by simp [← hidle])
  · exact { ok with }

theorem init_ok (h : system.init w) : w.lib.Ok := by
  obtain ⟨_, _, _, hreaders, hnested, hbasal, hbound⟩ := h
  constructor
  · constructor
    · intro a _
      rw [hreaders]
    · exact hbound
  · exact fun _ => hnested
  · rw [hbasal]
    rfl
  · simp [hnested]
  · rw [hbasal]
    exact WriteTxn.clean_of_nil rfl
  · simp [hnested]
  · simp [hnested]
  · simp [hbasal]

/-- libmdbx stays well formed, whatever is called. -/
theorem ok_invariant (ok : World → Event → Prop) : system.Invariant ok fun w => w.lib.Ok where
  init _ h := init_ok h
  step w e w' h _ hstep := by
    obtain ⟨r, hr, rfl⟩ := Option.map_eq_some_iff.mp hstep
    exact step_ok h hr

theorem lib_ok {ok : World → Event → Prop} (run : system.Reaches ok w) : w.lib.Ok :=
  run.invariant (ok_invariant ok)

end World

end MdbxGo
