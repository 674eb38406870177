import MdbxGo.Mdbx.Txn
import MdbxGo.Transition

/-! The runs of a program over one environment: any number of goroutines call the methods of any
`Txn` in any order, while other processes commit, readers are ousted, and the environment may take
a fatal error. -/

namespace MdbxGo

/-- A call of a goroutine. -/
inductive Call
  | beginTxn (parent : Option Handle) (flags : UInt32)
  | id (h : Handle)
  | get (h : Handle)
  | put (h : Handle) (change : Change)
  | commit (h : Handle)
  | abort (h : Handle)
  | reset (h : Handle)
  | renew (h : Handle)
  | refresh (h : Handle)
  | park (h : Handle) (autounpark : Bool)
  | unpark (h : Handle) (restartIfOusted : Bool)
  | checkpoint (h : Handle) (weakeningDurability : UInt32)
  | commitEmbarkRead (h : Handle)
  | rollback (h : Handle)
  | amend (h : Handle) (flags : UInt32)
  | amendLocked
  | clone (h : Handle)
  | cloneInto (h target : Handle)
  | runTxn (flags : UInt32)
  | runOp (h : Handle) (terminate : Bool)
  | sub (h : Handle)
  | finish (res : World.FnResult)
deriving DecidableEq, Repr

/-- What may happen next. A goroutine makes a call from some thread, with the answers that libmdbx
gets during it; a writer ousts the parked reader at `a`; another process commits; or something
fails that makes the environment unusable. -/
inductive Event
  | go (g : Gor) (self : Thread) (o : Sys) (call : Call)
  | oust (a : Addr)
  | foreignCommit (txnid : UInt64) (changes : List Change)
  | fatal

/-- The flags of an `Amend` that waits for the lock. -/
def FrameKind.flags : FrameKind → Option UInt32
  | .amending flags => some flags
  | _ => none

namespace World

/-- The goroutine waits for the lock inside `Amend`. -/
def waiting (w : World) (g : Gor) : Bool :=
  match w.frames g with
  | { kind := .amending _, .. } :: _ => true
  | _ => false

/-- The `Txn` that a call ends, when nothing refuses it. -/
def ends (w : World) (g : Gor) : Call → Option Handle
  | .commit h | .abort h => some h
  | .finish _ =>
    match w.frames g with
    | { kind := .term, txn := h, .. } :: _ | { kind := .sub, txn := h, .. } :: _ => some h
    | _ => none
  | _ => none

/-- A call through `h` panics or fails before it gets to libmdbx. -/
def refuses (w : World) (self : Thread) (h : Handle) : Call → Bool
  | .finish _ => w.mismatched self h
  | .checkpoint _ _ | .commitEmbarkRead _ | .rollback _ =>
    (w.txns h).managed || (w.txns h).readonly || w.mismatched self h
  | _ => (w.txns h).managed || w.mismatched self h

/-- A `Txn` that some `Txn` variable holds. -/
def known (w : World) (h : Handle) : Bool := decide (h < w.next)

def exec (o : Sys) (g : Gor) (self : Thread) (w : World) : Call → Option (World × Reply)
  | .beginTxn parent flags =>
    (w.beginTxn o self parent flags).map fun r => (r.1, .returned r.2)
  | .id h => some (w.id h, .returned {})
  | .get h => some (w.get o h)
  | .put h change => some (w.put o change h)
  | .commit h => some (w.commit o self h)
  | .abort h => some (w.abort o self h)
  | .reset h => some (w.reset o self h)
  | .renew h => some (w.renew o self h)
  | .refresh h => some (w.refresh o self h)
  | .park h autounpark => some (w.park o self autounpark h)
  | .unpark h restartIfOusted => some (w.unpark o self restartIfOusted h)
  | .checkpoint h weakeningDurability => w.checkpoint o self weakeningDurability h
  | .commitEmbarkRead h => w.commitEmbarkRead o self h
  | .rollback h => w.rollback o self h
  | .amend h flags => some (w.amend o g self flags h)
  | .amendLocked => w.amendLocked o g self
  | .clone h => some (w.clone o self h)
  | .cloneInto h target => w.cloneInto o target h
  | .runTxn flags => w.runTxn o g self flags
  | .runOp h terminate => some (w.runOpEither g terminate h)
  | .sub h => w.sub o g self h
  | .finish res => w.finish o g self res

end World

namespace Call

/-- The `Txn` values that a call names. -/
def handles : Call → List Handle
  | .beginTxn parent _ => parent.toList
  | .id h | .get h | .put h _ | .commit h | .abort h | .reset h | .renew h | .refresh h
  | .park h _ | .unpark h _ | .checkpoint h _ | .commitEmbarkRead h | .rollback h | .amend h _
  | .clone h | .runOp h _ | .sub h => [h]
  | .cloneInto h target => [h, target]
  | .amendLocked | .runTxn _ | .finish _ => []

/-- The parent of the transaction that a call begins. -/
def opens : Call → Option (Option Handle)
  | .beginTxn parent _ => some parent
  | .runTxn _ => some none
  | .sub h => some (some h)
  | _ => none

/-- The `Txn` and the durability of a checkpoint. -/
def checkpoints : Call → Option (Handle × UInt32)
  | .checkpoint h weakeningDurability => some (h, weakeningDurability)
  | _ => none

/-- The calls that commit a transaction to its end. -/
def commits : Call → Bool
  | .commit _ | .finish .nil => true
  | _ => false

/-- The calls that commit the changes made so far, and go on or not. -/
def merges : Call → Bool
  | .checkpoint _ _ | .commitEmbarkRead _ => true
  | call => call.commits

/-- The `Txn` that a call rolls back. -/
def rollsBack : Call → Option Handle
  | .rollback h => some h
  | _ => none

end Call

namespace World

/-- The `Txn` values that a call acts on: those that it names, and the one of the function that
ends. -/
def uses (w : World) (g : Gor) (call : Call) : List Handle :=
  call.handles ++
    match call with
    | .finish _ => ((w.frames g).head?.map (·.txn)).toList
    | _ => []

/-- One step, with the reply to the goroutine that made it. -/
def step (w : World) : Event → Option (World × Reply)
  | .go g self o call =>
    if (w.waiting g == decide (call = .amendLocked)) && call.handles.all w.known then
      w.exec o g self call
    else none
  | .oust a =>
    (w.lib.readers a).map fun r =>
      ({ w with lib := w.lib.setReader a (some r.oust) }, .returned {})
  | .foreignCommit txnid changes =>
    if w.lib.basal.owner.isNone && w.lib.recent < txnid && txnid ≤ maxTxnid then
      some ({ w with
        lib := { w.lib with recent := txnid, data := w.lib.data ++ changes } }, .returned {})
    else none
  | .fatal => some ({ w with lib := { w.lib with fatal := true } }, .returned {})

/-- The runs of a program: at first no `Txn` has been made and no write transaction is live. -/
def system : Transition.System World Event where
  init w := w.next = 0 ∧ w.txns = (fun _ => {}) ∧ w.frames = (fun _ => []) ∧
    w.lib.readers = (fun _ => none) ∧ w.lib.nested = [] ∧ w.lib.basal = { finished := true } ∧
    w.lib.recent ≤ maxTxnid
  step w e := (w.step e).map (·.1)

end World

end MdbxGo
