import Mathlib.Logic.Function.Basic
import MdbxGo.Libmdbx.Restart

/-! The transactions of the Go package: the fields of a `Txn`, the errors that its methods return,
and the methods themselves over all the `Txn` values of one environment. -/

namespace MdbxGo

/-! ### Errors -/

/-- The `Errno` of an `OpError`: one of libmdbx, or one of the system. -/
inductive Errno
  | mdbx (c : Code)
  | sys (c : Code)
deriving DecidableEq, Repr

/-- A Go error; `fn` is one that a caller's function returns. -/
inductive GoError
  | notFound
  | noData
  | op (name : String) (errno : Errno)
  | fn
deriving DecidableEq, Repr

def minErrno : Code := Code.keyExist
def maxErrno : Code := Code.lastAddedErrcode

def operrno (op : String) (ret : Code) : Option GoError :=
  if ret == Code.success || ret == Code.resultTrue then none
  else if ret == Code.notFound then some .notFound
  else if ret == Code.enodata then some .noData
  else if minErrno ≤ ret && ret ≤ maxErrno then some (.op op (.mdbx ret))
  else some (.op op (.sys ret))

theorem operrno_eq_none (op : String) {ret : Code} :
    operrno op ret = none ↔ ret = Code.success ∨ ret = Code.resultTrue := by
  unfold operrno
  by_cases hret : ret = Code.success ∨ ret = Code.resultTrue
  · simp [hret]
  · rw [if_neg (by simpa using hret)]
    simp only [hret, iff_false]
    intro h
    split at h
    · cases h
    · split at h
      · cases h
      · split at h <;> cases h

theorem operrno_failure (op : String) (e : Failure) : operrno op e.code ≠ none := by
  rw [Ne, operrno_eq_none]
  simp [e.not_success, e.not_resultTrue]

theorem operrno_eq_einval (op : String) {ret : Code} :
    operrno op ret = operrno op Code.einval ↔ ret = Code.einval := by
  constructor
  · intro h
    have heinval : operrno op Code.einval = some (.op op (.sys Code.einval)) := rfl
    rw [heinval] at h
    unfold operrno at h
    split at h
    · cases h
    · split at h
      · cases h
      · split at h
        · cases h
        · split at h <;> cases h
          rfl
  · rintro rfl
    rfl

/-- What a method panics with. -/
inductive Panic
  | managed (msg : String)
  | threadMismatch (current open' : Thread)
  | fn
deriving DecidableEq, Repr

/-- What a method returns: its error, its boolean (`restarted`, `atTip`, `noChanges` or
`snapshotTooOld`), and its new `Txn`. -/
structure Returned where
  err : Option GoError := none
  flag : Bool := false
  txn : Option Handle := none
deriving DecidableEq, Repr

/-- How a step of a goroutine ends: the method has returned or panicked, or it goes on, in a
caller's function or in a wait, with the `Txn` that it is about. -/
inductive Reply
  | returned (r : Returned)
  | panicked (p : Panic)
  | running (h : Handle)
deriving DecidableEq, Repr

/-- The fields of a Go `Txn`; `ptr` is `_txn`. `begun` is the thread that made it, which the code
does not look at. -/
structure Txn where
  ptr : Option Ptr := none
  managed : Bool := false
  readonly : Bool := false
  id : UInt64 := 0
  parked : Bool := false
  tid : Thread := 0
  begun : Thread := 0
deriving DecidableEq, Repr

namespace Txn

def resetID (x : Txn) : Txn := { x with id := 0 }

def clearTxn (x : Txn) : Txn := { x with ptr := none, parked := false, id := 0 }

@[simp] theorem resetID_ptr (x : Txn) : x.resetID.ptr = x.ptr := rfl

@[simp] theorem resetID_id (x : Txn) : x.resetID.id = 0 := rfl

@[simp] theorem clearTxn_ptr (x : Txn) : x.clearTxn.ptr = none := rfl

@[simp] theorem clearTxn_id (x : Txn) : x.clearTxn.id = 0 := rfl

@[simp] theorem clearTxn_parked (x : Txn) : x.clearTxn.parked = false := rfl

end Txn

abbrev Gor := Nat

/-- What a goroutine is in the middle of: the function of `runOpTerm`, of `runOp` (which will
restore `managed` or not) or of `Sub`, or the wait of `Amend` for the lock. -/
inductive FrameKind
  | term
  | keep (restore : Bool)
  | sub
  | amending (flags : UInt32)
deriving DecidableEq, Repr

/-- One entry on the stack of a goroutine. `ptr` and `snapshot` are what the `Txn` held when it was
pushed, which the code does not look at. -/
structure Frame where
  kind : FrameKind
  txn : Handle
  ptr : Option Ptr
  snapshot : Option UInt64
deriving DecidableEq, Repr

/-- The Go side of one environment: its libmdbx environment, the `Txn` values made so far (those
below `next`), and the stacks of the goroutines. -/
structure World where
  strictThreadCheck : Bool := false
  lib : MdbxEnv := {}
  txns : Handle → Txn := fun _ => {}
  next : Handle := 0
  frames : Gor → List Frame := fun _ => []

namespace MdbxEnv

/-- The snapshot that the transaction at a pointer holds. -/
def snapshot (env : MdbxEnv) : Option Ptr → Option UInt64
  | none => none
  | some (.reader a) => (env.readers a).bind fun r => if r.finished then none else some r.txnid
  | some p => (env.write? p).bind fun t => if t.1.finished then none else some t.1.txnid

end MdbxEnv

namespace World

def setTxn (w : World) (h : Handle) (x : Txn) : World :=
  { w with txns := Function.update w.txns h x }

def push (w : World) (g : Gor) (kind : FrameKind) (h : Handle) : World :=
  { w with
    frames := Function.update w.frames g
      ({ kind, txn := h, ptr := (w.txns h).ptr, snapshot := w.lib.snapshot (w.txns h).ptr } ::
        w.frames g) }

def pop (w : World) (g : Gor) : World :=
  { w with frames := Function.update w.frames g (w.frames g).tail }

/-- A C call on the transaction of `h`, and what the method does to its `Txn` for the code. -/
def call (w : World) (h : Handle) (f : MdbxEnv → Option Ptr → MdbxEnv × Code)
    (after : Code → Txn → Txn) : World × Code :=
  let r := f w.lib (w.txns h).ptr
  ({ w with lib := r.1 }.setTxn h (after r.2 (w.txns h)), r.2)

/-- The `Txn` that a C call has made. -/
def create (w : World) (lib : MdbxEnv) (x : Txn) : World :=
  { { w with lib }.setTxn w.next x with next := w.next + 1 }

/-- `strictThreadCheck` panics. -/
def mismatched (w : World) (self : Thread) (h : Handle) : Bool :=
  w.strictThreadCheck && self != (w.txns h).tid

def mismatch (w : World) (self : Thread) (h : Handle) : Reply :=
  .panicked (.threadMismatch self (w.txns h).tid)

def err (op : String) (ret : Code) : Reply := .returned { err := operrno op ret }

/-- `getID` -/
def getID (w : World) (h : Handle) : UInt64 := w.lib.mdbxTxnId (w.txns h).ptr

/-- What `ID` returns. -/
def idOf (w : World) (h : Handle) : UInt64 :=
  if (w.txns h).parked then w.getID h
  else if (w.txns h).id == 0 then w.getID h
  else (w.txns h).id

/-- `ID` -/
def id (h : Handle) (w : World) : World :=
  if !(w.txns h).parked && (w.txns h).id == 0 then
    w.setTxn h { w.txns h with id := w.getID h }
  else w

/-! ### The unexported methods -/

def beginTxn (o : Sys) (self : Thread) (parent : Option Handle) (flags : UInt32) (w : World) :
    Option (World × Returned) :=
  (w.lib.mdbxTxnBegin o self (parent.bind fun h => (w.txns h).ptr) flags w.next).map fun r =>
    if r.2.1 != Code.success then
      ({ w with lib := r.1 }, { err := operrno "mdbx_txn_begin" r.2.1 })
    else
      (w.create r.1 {
        ptr := r.2.2, readonly := flags &&& txnRdonly != 0
        tid := if w.strictThreadCheck then self else 0, begun := self }, { txn := some w.next })

/-- `commit` -/
def commitTxn (o : Sys) (self : Thread) (h : Handle) (w : World) : World × Reply :=
  if w.mismatched self h then (w, w.mismatch self h)
  else
    let r := w.call h (MdbxEnv.mdbxTxnCommitEx o self) fun _ => Txn.clearTxn
    (r.1, err "mdbx_txn_commit_ex" r.2)

/-- `abort` -/
def abortTxn (o : Sys) (self : Thread) (h : Handle) (w : World) : World × Reply :=
  if (w.txns h).ptr.isNone then (w, .returned {})
  else if w.mismatched self h then (w, w.mismatch self h)
  else
    ((w.call h (MdbxEnv.mdbxTxnAbort o self) fun _ => Txn.clearTxn).1, .returned {})

/-- `reset` -/
def resetTxn (o : Sys) (self : Thread) (h : Handle) (w : World) : World × Reply :=
  let r := w.call h (MdbxEnv.mdbxTxnReset o self) fun _ x => { x.resetID with parked := false }
  (r.1, err "mdbx_txn_reset" r.2)

/-- `renew` -/
def renewTxn (o : Sys) (self : Thread) (h : Handle) (w : World) : World × Reply :=
  let r := w.call h (MdbxEnv.mdbxTxnRenew o self) fun _ x => { x.resetID with parked := false }
  (r.1, err "mdbx_txn_renew" r.2)

/-! ### The exported methods -/

/-- A method that panics when the `Txn` is managed. -/
def unmanaged (msg : String) (h : Handle) (w : World) (method : World × Reply) : World × Reply :=
  if (w.txns h).managed then (w, .panicked (.managed msg)) else method

def commit (o : Sys) (self : Thread) (h : Handle) (w : World) : World × Reply :=
  w.unmanaged "managed transaction cannot be committed directly" h (w.commitTxn o self h)

def abort (o : Sys) (self : Thread) (h : Handle) (w : World) : World × Reply :=
  w.unmanaged "managed transaction cannot be aborted directly" h (w.abortTxn o self h)

def reset (o : Sys) (self : Thread) (h : Handle) (w : World) : World × Reply :=
  w.unmanaged "managed transaction cannot be reset directly" h (w.resetTxn o self h)

def renew (o : Sys) (self : Thread) (h : Handle) (w : World) : World × Reply :=
  w.unmanaged "managed transaction cannot be renewed directly" h (w.renewTxn o self h)

def refresh (o : Sys) (self : Thread) (h : Handle) (w : World) : World × Reply :=
  w.unmanaged "managed transaction cannot be refreshed directly" h <|
    let r := w.call h (MdbxEnv.mdbxTxnRefresh o self) fun _ => Txn.resetID
    (r.1, .returned { err := operrno "mdbx_txn_refresh" r.2, flag := r.2 == Code.resultTrue })

def park (o : Sys) (self : Thread) (autounpark : Bool) (h : Handle) (w : World) : World × Reply :=
  if (w.txns h).ptr.isNone then (w, .returned {})
  else if w.mismatched self h then (w, w.mismatch self h)
  else
    let r := w.call h (MdbxEnv.mdbxTxnPark o autounpark) fun ret x =>
      if ret != Code.success then x else { x with parked := true }
    (r.1, if r.2 != Code.success then err "mdbx_txn_park" r.2 else .returned {})

def unpark (o : Sys) (self : Thread) (restartIfOusted : Bool) (h : Handle) (w : World) :
    World × Reply :=
  if (w.txns h).ptr.isNone then (w, .returned {})
  else if w.mismatched self h then (w, w.mismatch self h)
  else
    let r := w.call h (MdbxEnv.mdbxTxnUnpark o restartIfOusted) fun ret x =>
      let x := { x with parked := false }
      if ret == Code.resultTrue || ret == Code.ousted then x.resetID else x
    (r.1,
      if r.2 == Code.resultTrue then .returned { flag := true }
      else if r.2 != Code.success then err "mdbx_txn_unpark" r.2
      else .returned {})

/-- `Get` and the reads of a cursor. -/
def get (o : Sys) (h : Handle) (w : World) : World × Reply :=
  let r := w.call h (MdbxEnv.mdbxGet o) fun _ x => x
  (r.1, err "mdbx_get" r.2)

/-- `Put`, `Del` and the writes of a cursor. -/
def put (o : Sys) (change : Change) (h : Handle) (w : World) : World × Reply :=
  let r := w.call h (MdbxEnv.mdbxPut o change) fun _ x => x
  (r.1, err "mdbx_put" r.2)

/-- The refusals that the methods of write transactions begin with; `method` is what follows. -/
def writerOnly (msg op : String) (self : Thread) (h : Handle) (w : World)
    (method : Option (World × Reply)) : Option (World × Reply) :=
  if (w.txns h).managed then some (w, .panicked (.managed msg))
  else if (w.txns h).readonly then
    some (w, .returned { err := some (.op op (.mdbx Code.badTxn)) })
  else if w.mismatched self h then some (w, w.mismatch self h)
  else method

def checkpoint (o : Sys) (self : Thread) (weakeningDurability : UInt32) (h : Handle) (w : World) :
    Option (World × Reply) :=
  w.writerOnly "managed transaction cannot be checkpointed directly" "mdbx_txn_checkpoint" self h <|
    (w.lib.mdbxTxnCheckpoint o self weakeningDurability (w.txns h).ptr).map fun r =>
      let after :=
        if r.2 == Code.resultTrue || r.2 == Code.success then (w.txns h).resetID
        else (w.txns h).clearTxn
      ({ w with lib := r.1 }.setTxn h after,
        if r.2 == Code.resultTrue then .returned { flag := true }
        else err "mdbx_txn_checkpoint" r.2)

def commitEmbarkRead (o : Sys) (self : Thread) (h : Handle) (w : World) :
    Option (World × Reply) :=
  w.writerOnly "managed transaction cannot be committed directly" "mdbx_txn_commit_embark_read"
      self h <|
    (w.lib.mdbxTxnCommitEmbarkRead o self (w.txns h).ptr).map fun r =>
      let x := { (w.txns h).resetID with ptr := r.2.2 }
      let after :=
        if r.2.1 == Code.resultTrue then x.clearTxn
        else if r.2.1 != Code.success then if x.ptr.isNone then x.clearTxn else x
        else { x with readonly := true }
      ({ w with lib := r.1 }.setTxn h after,
        if r.2.1 == Code.resultTrue then .returned { flag := true }
        else err "mdbx_txn_commit_embark_read" r.2.1)

def rollback (o : Sys) (self : Thread) (h : Handle) (w : World) : Option (World × Reply) :=
  w.writerOnly "managed transaction cannot be rolled back directly" "mdbx_txn_rollback" self h <|
    (w.lib.mdbxTxnRollback o self (w.txns h).ptr).map fun r =>
      ({ w with lib := r.1 }.setTxn h (w.txns h).resetID, err "mdbx_txn_rollback" r.2)

/-- How `Amend` ends for a return code. -/
def amended (ret : Code) : Reply :=
  if ret == Code.resultTrue then .returned { flag := true } else err "mdbx_txn_amend" ret

/-- `Amend` up to the lock. -/
def amend (o : Sys) (g : Gor) (self : Thread) (flags : UInt32) (h : Handle) (w : World) :
    World × Reply :=
  w.unmanaged "managed transaction cannot be amended directly" h <|
    if !(w.txns h).readonly then
      (w, .returned { err := some (.op "mdbx_txn_amend" (.mdbx Code.badTxn)) })
    else if w.mismatched self h then (w, w.mismatch self h)
    else
      let r := w.lib.amendStart o self flags (w.txns h).ptr
      let next := { w with lib := r.1 }
      match r.2 with
      | some ret => (next, amended ret)
      | none => (next.push g (.amending flags) h, .running h)

/-- `Amend` from the lock on. -/
def amendLocked (o : Sys) (g : Gor) (self : Thread) (w : World) : Option (World × Reply) :=
  match w.frames g with
  | { kind := .amending flags, txn := h, ptr := some (.reader a), .. } :: _ =>
    (w.lib.amendLocked o self flags w.next a).map fun r =>
      let next := ({ w with lib := r.1 }).pop g
      if r.2.1 != Code.success then (next, amended r.2.1)
      else
        let x := w.txns h
        let after := if flags &&& txnRdonlyPrepare == 0 then x.clearTxn else x.resetID
        ((next.setTxn h after).create r.1 {
          ptr := r.2.2, tid := if w.strictThreadCheck then self else x.tid, begun := self },
          .returned { txn := some w.next })
  | _ => none

def clone (o : Sys) (self : Thread) (h : Handle) (w : World) : World × Reply :=
  let r := w.lib.mdbxTxnClone o w.next (w.txns h).ptr
  if r.2.1 != Code.success then ({ w with lib := r.1 }, err "mdbx_txn_clone" r.2.1)
  else
    (w.create r.1 {
      ptr := r.2.2, readonly := true, tid := if w.strictThreadCheck then self else 0
      begun := self }, .returned { txn := some w.next })

/-- `CloneInto`. A target that is nested in the writer would be written to as if it were a reader,
and one that was freed is written to after it was freed: neither has a result. -/
def cloneInto (o : Sys) (target : Handle) (h : Handle) (w : World) : Option (World × Reply) :=
  let refused : Reply := .returned { err := some (.op "mdbx_txn_clone" (.mdbx Code.badTxn)) }
  if !(w.txns target).readonly then some (w, refused)
  else
    match (w.txns target).ptr with
    | none => some (w, refused)
    | some (.reader a) =>
      (w.lib.readers a).map fun t =>
        let r := w.lib.mdbxTxnCloneInto o (w.txns h).ptr a t
        if r.2 != Code.success then ({ w with lib := r.1 }, err "mdbx_txn_clone" r.2)
        else
          ({ w with lib := r.1 }.setTxn target (w.txns target).resetID, .returned {})
    | some _ => none

/-! ### Managed transactions -/

def setManaged (managed : Bool) (h : Handle) (w : World) : World :=
  w.setTxn h { w.txns h with managed }

def runOpTerm (g : Gor) (h : Handle) (w : World) : World × Reply :=
  w.unmanaged "managed transaction cannot be terminated directly" h
    ((w.setManaged true h).push g .term h, .running h)

/-- `runOp` -/
def runOp (g : Gor) (h : Handle) (w : World) : World × Reply :=
  ((w.setManaged true h).push g (.keep !(w.txns h).managed) h, .running h)

/-- `RunOp` -/
def runOpEither (g : Gor) (terminate : Bool) (h : Handle) (w : World) : World × Reply :=
  if terminate then w.runOpTerm g h else w.runOp g h

/-- `RunTxn`; `View` and `Update` are `RunTxn` with the flags `Readonly` and `0`. -/
def runTxn (o : Sys) (g : Gor) (self : Thread) (flags : UInt32) (w : World) :
    Option (World × Reply) :=
  (w.beginTxn o self none flags).map fun r =>
    match r.2.txn with
    | none => (r.1, .returned r.2)
    | some h => r.1.runOpTerm g h

def sub (o : Sys) (g : Gor) (self : Thread) (h : Handle) (w : World) : Option (World × Reply) :=
  (w.beginTxn o self (some h) 0).map fun r =>
    match r.2.txn with
    | none => (r.1, .returned r.2)
    | some k => ((r.1.setManaged true k).push g .sub k, .running k)

/-- How a caller's function ends. -/
inductive FnResult
  | nil
  | error
  | panic
deriving DecidableEq, Repr

/-- What follows the function in `runOpTerm` and `Sub`: a commit or an abort, and last the deferred
abort, which finds no transaction unless the commit has panicked, and then panics as well. -/
def terminate (o : Sys) (self : Thread) (h : Handle) (res : FnResult) (w : World) :
    World × Reply :=
  match res with
  | .nil => w.commitTxn o self h
  | .error =>
    let r := w.abortTxn o self h
    (r.1, match r.2 with
      | .panicked p => .panicked p
      | _ => .returned { err := some .fn })
  | .panic =>
    let r := w.abortTxn o self h
    (r.1, match r.2 with
      | .panicked p => .panicked p
      | _ => .panicked .fn)

/-- What follows the function in `runOp`. -/
def leave (restore : Bool) (h : Handle) (res : FnResult) (w : World) : World × Reply :=
  (if restore then w.setManaged false h else w,
    match res with
    | .nil => .returned {}
    | .error => .returned { err := some .fn }
    | .panic => .panicked .fn)

/-- The function that a goroutine runs ends. -/
def finish (o : Sys) (g : Gor) (self : Thread) (res : FnResult) (w : World) :
    Option (World × Reply) :=
  match w.frames g with
  | [] => none
  | f :: _ =>
    match f.kind with
    | .term => some ((w.pop g).terminate o self f.txn res)
    | .sub => some ((w.pop g).terminate o self f.txn res)
    | .keep restore => some ((w.pop g).leave restore f.txn res)
    | .amending _ => none

end World

end MdbxGo
