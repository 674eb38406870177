import MdbxGo.Libmdbx.Close
import MdbxGo.Mdbx.Txn
import MdbxGo.RWMutex
import MdbxGo.Threads

/-! `Env.closeLock`: the methods that take it, as programs whose atomic steps any number of
goroutines make in any order. Only what these methods do about the lock, the handle of the
environment and the calls into libmdbx is here; what they do to a `Txn` otherwise is in
`MdbxGo.Mdbx.Txn`. -/

namespace MdbxGo

namespace CloseGuard

/-- The calls on a transaction that are made under `closeLock`. -/
inductive TxnCall
  | abort (h : Handle)
  | park (h : Handle) (autounpark : Bool)
  | unpark (h : Handle) (restartIfOusted : Bool)
deriving DecidableEq

/-- A call into libmdbx; a close comes with its code and whether it destroyed the environment. -/
inductive Issued
  | txn (c : TxnCall)
  | envClose (ret : Code) (destroyed : Bool)
deriving DecidableEq

/-- What the goroutines share. `env` tells whether `_env` is not nil. Whether the environment of
libmdbx is `alive`, and which calls were `issued` to it, is not part of the Go code. -/
structure Guard where
  env : Bool := true
  closeLock : RWMutex := {}
  strictThreadCheck : Bool := false
  txns : Handle → Txn := fun _ => {}
  alive : Bool := true
  issued : List Issued := []

/-- How a method exits. -/
inductive Exit
  | returned (r : Returned)
  | errNotOpen
  | panicked (p : Panic)
deriving DecidableEq

/-- How the function that a method was given ends. -/
inductive FnExit
  | ok
  | err
  | panics
deriving DecidableEq

/-- The rest of a method: its next step, and what follows. -/
inductive Prog
  | exit (e : Exit)
  | lock (next : Prog)
  | unlock (next : Prog)
  | rLock (next : Prog)
  | rUnlock (next : Prog)
  /-- reads `env._env != nil` -/
  | env (next : Bool → Prog)
  | setEnvNil (next : Prog)
  | strict (next : Bool → Prog)
  | setStrict (mode : Bool) (next : Prog)
  | txn (h : Handle) (next : Txn → Prog)
  | setTxn (h : Handle) (f : Txn → Txn) (next : Prog)
  /-- `threads.CurrentThreadID()` beside `txn.tid` -/
  | currentThreadID (h : Handle) (next : Thread → Thread → Prog)
  | fn (next : FnExit → Prog)
  | guarded (c : TxnCall) (next : Code → Prog)
  | envClose (next : Code → Prog)
  /-- a call that is not made under `closeLock` -/
  | call (next : Code → Prog)

/-! ### The methods -/

def strictThreadCheck (h : Handle) (ok : Prog) (panics : Panic → Prog) : Prog :=
  .strict fun strict =>
    if !strict then ok
    else
      .currentThreadID h fun currentThread tid =>
        if currentThread != tid then panics (.threadMismatch currentThread tid) else ok

/-- `abort`; a panic of it goes to the end of the method that runs it. -/
def abort (h : Handle) (done : Prog) : Prog :=
  .txn h fun x =>
    if x.ptr == none then done
    else
      let issue : Prog := .env fun env =>
        let finish : Prog := .rUnlock (.setTxn h Txn.clearTxn done)
        if env then .guarded (.abort h) fun _ => finish else finish
      .rLock <| .strict fun strict =>
        if strict then strictThreadCheck h issue fun p => .exit (.panicked p) else issue

/-- `Abort` -/
def abortDirectly (h : Handle) : Prog :=
  .txn h fun x =>
    if x.managed then
      .exit (.panicked (.managed "managed transaction cannot be aborted directly"))
    else abort h (.exit (.returned {}))

def park (h : Handle) (autounpark : Bool) : Prog :=
  .txn h fun x =>
    if x.ptr == none then .exit (.returned {})
    else
      .rLock <| .env fun env =>
        if !env then .rUnlock (.exit .errNotOpen)
        else strictThreadCheck h
          (.guarded (.park h autounpark) fun ret =>
            if ret != Code.success then
              .rUnlock (.exit (.returned { err := operrno "mdbx_txn_park" ret }))
            else .setTxn h (fun x => { x with parked := true }) (.rUnlock (.exit (.returned {}))))
          fun p => .rUnlock (.exit (.panicked p))

def unpark (h : Handle) (restartIfOusted : Bool) : Prog :=
  .txn h fun x =>
    if x.ptr == none then .exit (.returned {})
    else
      .rLock <| .env fun env =>
        if !env then .rUnlock (.exit .errNotOpen)
        else strictThreadCheck h
          (.guarded (.unpark h restartIfOusted) fun ret =>
            .setTxn h (fun x =>
              let x := { x with parked := false }
              if ret == Code.resultTrue || ret == Code.ousted then x.resetID else x)
            (.rUnlock (.exit (.returned
              { err := operrno "mdbx_txn_unpark" ret, flag := ret == Code.resultTrue }))))
          fun p => .rUnlock (.exit (.panicked p))

def commit (h : Handle) (done : Exit → Prog) : Prog :=
  strictThreadCheck h
    (.call fun ret =>
      .setTxn h Txn.clearTxn (done (.returned { err := operrno "mdbx_txn_commit_ex" ret })))
    fun p => done (.panicked p)

/-- The function of a caller and what comes after it in `runOpTerm` and `subFlag`: the commit when
it returned nil, and the deferred `abort` in any case. -/
def runFn (h : Handle) : Prog :=
  .fn fun
    | .ok => commit h fun e => abort h (.exit e)
    | .err => abort h (.exit (.returned { err := some .fn }))
    | .panics => abort h (.exit (.panicked .fn))

/-- `runOpTerm`, which is `RunOp` with `terminate`. -/
def runOpTerm (h : Handle) : Prog :=
  .txn h fun x =>
    if x.managed then
      .exit (.panicked (.managed "managed transaction cannot be terminated directly"))
    else .setTxn h (fun x => { x with managed := true }) (runFn h)

/-- `beginTxn` makes the `Txn` with the number `h`. -/
def beginTxn (h : Handle) (readonly : Bool) (done : Prog) : Prog :=
  let issue (tid : Thread) : Prog :=
    .call fun ret =>
      if ret != Code.success then .exit (.returned { err := operrno "mdbx_txn_begin" ret })
      else .setTxn h (fun _ => { ptr := some .basal, readonly, tid }) done
  .strict fun strict =>
    if strict then .currentThreadID h fun currentThread _ => issue currentThread else issue 0

/-- `Env.run`: `Update`, `UpdateLocked`, `View` and `RunTxn`. -/
def run (h : Handle) (readonly : Bool) : Prog := beginTxn h readonly (runOpTerm h)

/-- `subFlag`: `Sub`. -/
def sub (h : Handle) : Prog :=
  beginTxn h false (.setTxn h (fun x => { x with managed := true }) (runFn h))

/-- `Env.Close` -/
def close : Prog :=
  .lock <| .env fun env =>
    if !env then .unlock (.exit (.returned {}))
    else .envClose fun ret =>
      let finish : Prog := .unlock (.exit (.returned { err := operrno "mdbx_env_close" ret }))
      if ret != Code.busy then .setEnvNil finish else finish

/-- The calls that goroutines make. `other` stands for what all other methods do to a `Txn`. -/
inductive Method
  | close
  | abort (h : Handle)
  | park (h : Handle) (autounpark : Bool)
  | unpark (h : Handle) (restartIfOusted : Bool)
  | runOpTerm (h : Handle)
  | run (h : Handle) (readonly : Bool)
  | sub (h : Handle)
  | setStrictThreadMode (mode : Bool)
  | other (h : Handle) (f : Txn → Txn)

def Method.prog : Method → Prog
  | .close => CloseGuard.close
  | .abort h => abortDirectly h
  | .park h autounpark => CloseGuard.park h autounpark
  | .unpark h restartIfOusted => CloseGuard.unpark h restartIfOusted
  | .runOpTerm h => CloseGuard.runOpTerm h
  | .run h readonly => CloseGuard.run h readonly
  | .sub h => CloseGuard.sub h
  | .setStrictThreadMode mode => .setStrict mode (.exit (.returned {}))
  | .other h f => .setTxn h f (.exit (.returned {}))

/-! ### Their steps -/

/-- A call, and the rest of it. -/
structure Call where
  method : Method
  rest : Prog

/-- What a step does not decide itself: the thread that the goroutine is on, the code of a call
into libmdbx, what a close finds, and how a caller's function ends. -/
structure Choice where
  thread : Thread := 0
  ret : Code := Code.success
  closing : Closing := {}
  fn : FnExit := .ok

/-- The step of call `i`. -/
def step (g : Guard) (i : Nat) (x : Choice) : Prog → Option (Guard × Prog)
  | .exit _ => none
  | .lock next => (g.closeLock.lock i).map fun m => ({ g with closeLock := m }, next)
  | .unlock next => some ({ g with closeLock := g.closeLock.unlock }, next)
  | .rLock next => (g.closeLock.rLock i).map fun m => ({ g with closeLock := m }, next)
  | .rUnlock next => some ({ g with closeLock := g.closeLock.rUnlock i }, next)
  | .env next => some (g, next g.env)
  | .setEnvNil next => some ({ g with env := false }, next)
  | .strict next => some (g, next g.strictThreadCheck)
  | .setStrict mode next => some ({ g with strictThreadCheck := mode }, next)
  | .txn h next => some (g, next (g.txns h))
  | .setTxn h f next => some ({ g with txns := Function.update g.txns h (f (g.txns h)) }, next)
  | .currentThreadID h next => some (g, next x.thread (g.txns h).tid)
  | .fn next => some (g, next x.fn)
  | .guarded c next => some ({ g with issued := g.issued ++ [.txn c] }, next x.ret)
  | .envClose next =>
    let r := mdbxEnvClose g.alive x.closing
    some ({ g with alive := g.alive && !r.2, issued := g.issued ++ [.envClose r.1 r.2] },
      next r.1)
  | .call next => some (g, next x.ret)

/-- An open environment, and all interleavings of calls. -/
def program : Program Guard Call Method Choice where
  init g := g.env = true ∧ g.closeLock = {} ∧ g.alive = true ∧ g.issued = []
  start m := { method := m, rest := m.prog }
  step g i c x := (step g i x c.rest).map fun r => (r.1, { c with rest := r.2 }, [])

end CloseGuard

end MdbxGo
