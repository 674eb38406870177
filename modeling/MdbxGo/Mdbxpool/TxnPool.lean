import MdbxGo.Mdbx.World
import MdbxGo.Mdbxpool.CommitID

/-! The transaction pool: any number of goroutines are inside its methods, over one environment.
Each access to `sync.Pool`, each atomic operation and each call of a method of a `Txn` is a step of
its own. -/

namespace MdbxGo

/-- A pool and what the program has made of its environment. `pool` is the `sync.Pool`, as a bag
that discards nothing. `begun` are the transactions that the pool has begun, with the pointers that
they got; the code does not keep them. -/
structure TxnPool where
  world : World := {}
  pool : List Handle := []
  lastid : UInt64 := 0
  idleGuard : UInt64 := 0
  begun : List (Handle × Option Ptr) := []

namespace TxnPool

/-- What is set for the whole life of a pool; `returnTxnToPool` is a constant of the build. -/
structure Config where
  updateHandling : UpdateHandling := {}
  returnTxnToPool : Bool := true
deriving DecidableEq

/-- The callers of `beginReadonly`. -/
inductive Starter
  | beginTxn
  | view
deriving DecidableEq

/-- The conditions that `handleReadonly` is called with: by `abortReadonly` the one, by
`handleIdle` the other. -/
inductive Condition
  | handleOutstanding
  | handleIdle
deriving DecidableEq

/-- `p.UpdateHandling & condition` -/
def Condition.isSet (h : UpdateHandling) : Condition → Bool
  | .handleOutstanding => h.handleOutstanding
  | .handleIdle => h.handleIdle

/-- What a method of the pool returns or panics with. -/
inductive Result
  | nil
  | err (e : GoError)
  | refused (msg : String)
  | panicked (p : Panic)
deriving DecidableEq

/-- The result of a method of `Txn` that the pool passes on. -/
def Result.ofReply : Reply → Result
  | .returned r => r.err.elim .nil .err
  | .panicked p => .panicked p
  | .running _ => .nil

/-- Where a goroutine stands. The argument that most places have is the variable `txn`. -/
inductive At
  /-- outside of the pool -/
  | app
  /-- `beginReadonly` -/
  | get (s : Starter)
  | renew (s : Starter) (txn : Handle)
  | discard (s : Starter) (txn : Handle)
  | create (s : Starter)
  /-- `BeginTxn` has returned the transaction to its caller -/
  | held (txn : Handle)
  /-- `View`, before and in the function, and with its result -/
  | runOp (txn : Handle)
  | viewing (txn : Handle)
  | leave (txn : Handle) (res : World.FnResult)
  /-- `abortReadonly` -/
  | abortReadonly (txn : Handle)
  | reset (txn : Handle)
  | abort (txn : Handle)
  | put (txn : Handle)
  /-- the comparison of `ID` with `getLastID`, and `handleReadonly` -/
  | id (c : Condition) (txn : Handle)
  | getLastID (c : Condition) (txn : Handle) (id : UInt64)
  | handleReadonly (c : Condition) (txn : Handle)
  | renewStale (c : Condition) (txn : Handle)
  | abortStale (c : Condition) (txn : Handle)
  /-- `handleIdle` -/
  | enterIdle
  | getIdle (txnPutBack : Option Handle)
  | putBack (txnPutBack : Handle) (got : Option Handle)
  | putFresh (txn : Handle)
  | leaveIdle
  /-- `Update`: before, in and after the function -/
  | runTxn
  | updating (txn : Handle)
  | saveID (txn : Handle)
  | terminate (txn : Handle) (res : World.FnResult) (id : UInt64)
  | commitID (id : UInt64) (at_ : CommitID.At)
  /-- `Close` -/
  | close
  | closeAbort (txn : Handle)
  | returned
deriving DecidableEq

/-- A goroutine in a method of the pool, and the method's result as far as it is known. -/
structure Goroutine where
  at_ : At
  out : Result := .nil
deriving DecidableEq

/-- The methods of the pool, and a goroutine of the program. `Abort` has no entry: it is what the
caller of `BeginTxn` does at last. -/
inductive Entry
  | app
  | beginTxn (flags : UInt32)
  | view
  | update
  | commitID (id : UInt64)
  | close
deriving DecidableEq

/-- What a step is made with: the thread and the answers of the system for a call of libmdbx, what
`Get` returns, an event that the program makes happen, or the end of a caller's function. -/
inductive Choice
  | calls (thread : Thread) (o : Sys)
  | gets (txn : Option Handle)
  | does (e : MdbxGo.Event)
  | ends (res : World.FnResult)

/-- `BeginTxn` refuses other flags. -/
def Entry.start : Entry → Goroutine
  | .app => { at_ := .app }
  | .beginTxn flags =>
    if flags != txnRdonly then
      { at_ := .returned, out := .refused "flag mdbx.Readonly not provided" }
    else { at_ := .get .beginTxn }
  | .view => { at_ := .get .view }
  | .update => { at_ := .runTxn }
  | .commitID id => { at_ := .commitID id .entry }
  | .close => { at_ := .close }

/-- `beginReadonly` returns a transaction. -/
def Starter.delivered (txn : Handle) : Starter → At
  | .beginTxn => .held txn
  | .view => .runOp txn

/-- `handleReadonly` returns `true, nil`. -/
def Condition.renewed (txn : Handle) : Condition → At
  | .handleOutstanding => .reset txn
  | .handleIdle => .getIdle (some txn)

/-- `handleReadonly` returns `false, nil` or an error. -/
def Condition.dropped : Condition → At
  | .handleOutstanding => .returned
  | .handleIdle => .getIdle none

/-- The transaction is not older than the last update. -/
def Condition.fresh (txn : Handle) : Condition → At
  | .handleOutstanding => .reset txn
  | .handleIdle => .putFresh txn

namespace At

/-- The method of a `Txn` that is called next. -/
def method : At → Option Call
  | .renew _ txn | .renewStale _ txn => some (.renew txn)
  | .discard _ txn | .abort txn | .abortStale _ txn | .closeAbort txn => some (.abort txn)
  | .create _ => some (.beginTxn none txnRdonly)
  | .runOp txn => some (.runOp txn false)
  | .leave _ res | .terminate _ res _ => some (.finish res)
  | .reset txn => some (.reset txn)
  | .id _ txn | .saveID txn => some (.id txn)
  | .runTxn => some (.runTxn 0)
  | _ => none

/-- Where a panic leads to: the deferred calls of `View` and `handleIdle`. -/
def unwind : At → At
  | .runOp txn | .leave txn _ => .abortReadonly txn
  | .id .handleIdle _ | .renewStale .handleIdle _ | .abortStale .handleIdle _ => .leaveIdle
  | _ => .returned

/-- Where a goroutine stands after the method has returned `r`. `txnid` is what `ID` returns. -/
def next (txnid : UInt64) (r : Returned) : At → At
  | .renew s txn => if r.err.isNone then s.delivered txn else .discard s txn
  | .discard s _ => .create s
  | .create s => r.txn.elim .returned s.delivered
  | .leave txn _ => .abortReadonly txn
  | .reset txn => if r.err.isNone then .put txn else .abort txn
  | .id c txn => .getLastID c txn txnid
  | .renewStale c txn => if r.err.isNone then c.renewed txn else .abortStale c txn
  | .abortStale c _ => c.dropped
  | .saveID txn => .terminate txn .nil txnid
  | .terminate _ _ saved => if r.err.isNone then .commitID saved .entry else .returned
  | .closeAbort _ => .close
  | _ => .returned

/-- The method of the pool returns what the method of `Txn` has returned. -/
def passes : At → Bool
  | .create _ | .leave _ _ | .runTxn | .terminate _ _ _ => true
  | _ => false

/-- Where a goroutine stands when a caller's function has begun. -/
def inside (txn : Handle) : At → At
  | .runOp _ => .viewing txn
  | .runTxn => .updating txn
  | _ => .returned

/-- The transaction that the pool has begun, in the world after the call. -/
def begins (r : World × Reply) : At → List (Handle × Option Ptr)
  | .create _ =>
    match r.2 with
    | .returned x => x.txn.toList.map fun txn => (txn, (r.1.txns txn).ptr)
    | _ => []
  | _ => []

/-- Where a goroutine stands after `Get`. -/
def got (txn : Option Handle) : At → Option At
  | .get s => some (txn.elim (.create s) (.renew s))
  | .getIdle (some txnPutBack) => some (.putBack txnPutBack txn)
  | .getIdle none => some (txn.elim .leaveIdle (.id .handleIdle))
  | .close => some (txn.elim .returned .closeAbort)
  | _ => none

/-- The goroutine is outside of the pool, or in a caller's function. -/
def free : At → Bool
  | .app | .held _ | .viewing _ | .updating _ => true
  | _ => false

/-- The goroutine is in a caller's function that the pool runs. -/
def runs : At → Bool
  | .viewing _ | .updating _ => true
  | _ => false

/-- Where a goroutine stands when the caller's function has ended. -/
def ended (res : World.FnResult) : At → Option At
  | .viewing txn => some (.leave txn res)
  | .updating txn => some (if res = .nil then .saveID txn else .terminate txn res 0)
  | _ => none

/-- The other steps: what is done to the pool itself, and the goroutines that are started. -/
def atomic (cfg : Config) (s : TxnPool) : At → Option (TxnPool × At × List Goroutine)
  | .held txn => some (s, .abortReadonly txn, [])
  | .abortReadonly txn =>
    some (s,
      if !cfg.returnTxnToPool then .abort txn
      else if cfg.updateHandling.handlesUpdates then .id .handleOutstanding txn
      else .reset txn, [])
  | .put txn => some ({ s with pool := txn :: s.pool }, .returned, [])
  | .getLastID c txn txnid =>
    some (s, if txnid < s.lastid then .handleReadonly c txn else c.fresh txn, [])
  | .handleReadonly c txn =>
    some (s,
      if !c.isSet cfg.updateHandling then c.dropped
      else if cfg.updateHandling.handleRenew then .renewStale c txn
      else .abortStale c txn, [])
  | .enterIdle =>
    if s.idleGuard = 0 then some ({ s with idleGuard := 1 }, .getIdle none, [])
    else some (s, .returned, [])
  | .putBack txnPutBack got =>
    some ({ s with pool := txnPutBack :: s.pool }, got.elim .leaveIdle (.id .handleIdle), [])
  | .putFresh txn => some ({ s with pool := txn :: s.pool }, .leaveIdle, [])
  | .leaveIdle => some ({ s with idleGuard := 0 }, .returned, [])
  | .commitID txnid at_ =>
    (CommitID.step cfg.updateHandling txnid s.lastid at_).map fun r =>
      ({ s with lastid := r.1 }, .commitID txnid r.2.1,
        if r.2.2 then [{ at_ := .enterIdle }] else [])
  | _ => none

end At

/-- A goroutine after a method of a `Txn`; `txnid` is what `ID` returns. -/
def Goroutine.resume (txnid : UInt64) (t : Goroutine) : Reply → Goroutine
  | .panicked p => { at_ := t.at_.unwind, out := .panicked p }
  | .running txn => { t with at_ := t.at_.inside txn }
  | .returned r =>
    { at_ := t.at_.next txnid r, out := if t.at_.passes then .ofReply (.returned r) else t.out }

/-- What `ID` returns for the transaction that a goroutine asks about. -/
def idAt (s : TxnPool) : At → UInt64
  | .id _ txn | .saveID txn => s.world.idOf txn
  | _ => 0

/-- The goroutine with number `i` makes the event happen, or none does. -/
def mine (i : Gor) : MdbxGo.Event → Bool
  | .go g _ _ _ => g == i
  | _ => true

/-- The event is the end of the function that the pool runs itself. -/
def outermost (s : TxnPool) : MdbxGo.Event → Bool
  | .go g _ _ (.finish _) => decide ((s.world.frames g).length ≤ 1)
  | _ => false

/-- The next step of the goroutine with number `i`. -/
def step (cfg : Config) (s : TxnPool) (i : Gor) (t : Goroutine) :
    Choice → Option (TxnPool × Goroutine × List Goroutine)
  | .calls thread o =>
    match t.at_.method with
    | some call =>
      (s.world.step (.go i thread o call)).map fun r =>
        ({ s with world := r.1, begun := s.begun ++ t.at_.begins r }, t.resume (s.idAt t.at_) r.2,
          [])
    | none =>
      if s.world.waiting i then none
      else (t.at_.atomic cfg s).map fun r => (r.1, { t with at_ := r.2.1 }, r.2.2)
  | .gets txn =>
    if txn.all s.pool.contains then
      (t.at_.got txn).map fun at_ =>
        ({ s with pool := txn.elim s.pool s.pool.erase }, { t with at_ }, [])
    else none
  | .does e =>
    if t.at_.free && mine i e && !(t.at_.runs && s.outermost e) then
      (s.world.step e).map fun r => ({ s with world := r.1 }, t, [])
    else none
  | .ends res =>
    if (s.world.frames i).length = 1 then
      (t.at_.ended res).map fun at_ => (s, { t with at_ }, [])
    else none

/-- The runs of a program that uses a pool: at first the pool is new. -/
def program (cfg : Config) : Program TxnPool Goroutine Entry Choice where
  init s := World.system.init s.world ∧ s.pool = [] ∧ s.lastid = 0 ∧ s.idleGuard = 0 ∧ s.begun = []
  start := Entry.start
  step := step cfg

end TxnPool

end MdbxGo
