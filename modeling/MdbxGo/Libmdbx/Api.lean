import MdbxGo.Libmdbx.Writer

/-! The calls of libmdbx on transactions, as the Go package makes them. A pointer is the identity of
an allocation, not its address, so a pointer to memory that was freed stays one; what follows when
an allocation gets such memory again is in `MdbxGo.Mdbx.Kind`. Where the source goes on to memory
that was freed, or panics the process, a call has no result. -/

namespace MdbxGo

/-- A non-null `MDBX_txn *`. -/
inductive Ptr
  | basal
  | nested (a : Addr)
  | reader (a : Addr)
deriving DecidableEq, Repr

/-- The pointer is to a write transaction. -/
def Ptr.writes : Ptr → Bool
  | .reader _ => false
  | _ => true

namespace ReadTxn

/-- `mdbx_txn_rollback` of a read-only transaction. -/
def mdbxTxnRollback (o : Sys) (recent : UInt64) (r : ReadTxn) : ReadTxn × Code :=
  if r.hits Bits.blockedNested then (r, Code.badTxn)
  else
    let reset := { r with error := true }.txnRoReset o
    if reset.2 != Code.success then reset else reset.1.txnRoStart o recent false

end ReadTxn

namespace MdbxEnv

/-- The write transaction at a pointer, and whether another one is nested in it. -/
def write? (env : MdbxEnv) : Ptr → Option (WriteTxn × Bool)
  | .basal => some (env.basal, !env.nested.isEmpty)
  | .nested a =>
    match env.inner a with
    | [] => none
    | t :: kids => some (t, !kids.isEmpty)
  | .reader _ => none

/-- Writes to the write transaction at a pointer. -/
def setWrite (env : MdbxEnv) (t : WriteTxn) : Ptr → MdbxEnv
  | .basal => { env with basal := t }
  | .nested a => env.replaceNested a (t :: (env.inner a).tail)
  | .reader _ => env

/-- Runs a call on the reader at `a`. -/
def onReader (env : MdbxEnv) (a : Addr) (f : ReadTxn → ReadTxn × Code) : MdbxEnv × Code :=
  match env.readers a with
  | none => (env, Code.ebadsign)
  | some r => (env.setReader a (some (f r).1), (f r).2)

/-- What a call that is valid for read-only transactions only answers for the others: the checks
of `check_txn` and `check_env`, and then `code`. -/
def refuse (env : MdbxEnv) (check : WriteTxn → Bool → Code) (code : Code) (p : Ptr) : Code :=
  match env.write? p with
  | none => Code.ebadsign
  | some (t, hasChild) =>
    if check t hasChild != Code.success then check t hasChild
    else if env.fatal then Code.panic
    else code

/-- `mdbx_txn_id` -/
def mdbxTxnId (env : MdbxEnv) : Option Ptr → UInt64
  | none => 0
  | some (.reader a) => ((env.readers a).map (·.txnid)).getD 0
  | some p => ((env.write? p).map (·.1.txnid)).getD 0

/-! ### Read-only transactions -/

/-- `mdbx_txn_reset` -/
def mdbxTxnReset (o : Sys) (self : Thread) (env : MdbxEnv) : Option Ptr → MdbxEnv × Code
  | none => (env, Code.einval)
  | some (.reader a) => env.onReader a (·.mdbxTxnReset o env.fatal)
  | some p => (env, env.refuse (fun t _ => t.checkOwner self) Code.einval p)

/-- `mdbx_txn_renew` -/
def mdbxTxnRenew (o : Sys) (self : Thread) (env : MdbxEnv) : Option Ptr → MdbxEnv × Code
  | none => (env, Code.einval)
  | some (.reader a) => env.onReader a (·.mdbxTxnRenew o env.fatal env.recent)
  | some p => (env, env.refuse (fun t _ => t.checkOwner self) Code.einval p)

/-- `mdbx_txn_refresh` -/
def mdbxTxnRefresh (o : Sys) (self : Thread) (env : MdbxEnv) : Option Ptr → MdbxEnv × Code
  | none => (env, Code.einval)
  | some (.reader a) => env.onReader a (·.mdbxTxnRefresh o env.fatal env.recent)
  | some p => (env, env.refuse (fun t _ => t.checkOwner self) Code.einval p)

/-- `mdbx_txn_park` -/
def mdbxTxnPark (o : Sys) (autounpark : Bool) (env : MdbxEnv) : Option Ptr → MdbxEnv × Code
  | none => (env, Code.einval)
  | some (.reader a) => env.onReader a (·.mdbxTxnPark o env.fatal env.recent autounpark)
  | some p => (env, env.refuse (·.checkTxn · Bits.blockedNoError) Code.txnInvalid p)

/-- `mdbx_txn_unpark` -/
def mdbxTxnUnpark (o : Sys) (restartIfOusted : Bool) (env : MdbxEnv) :
    Option Ptr → MdbxEnv × Code
  | none => (env, Code.einval)
  | some (.reader a) => env.onReader a (·.mdbxTxnUnpark o env.fatal env.recent restartIfOusted)
  | some p => (env, env.refuse (·.checkTxn · Bits.blockedNested) Code.success p)

/-! ### Data -/

/-- `mdbx_get`, and the reads of a cursor. -/
def mdbxGet (o : Sys) (env : MdbxEnv) : Option Ptr → MdbxEnv × Code
  | none => (env, Code.einval)
  | some (.reader a) => env.onReader a (·.mdbxGet o env.fatal env.recent)
  | some p =>
    match env.write? p with
    | none => (env, Code.ebadsign)
    | some (t, hasChild) =>
      let check := t.checkTxn hasChild Bits.blocked
      if check != Code.success then (env, check)
      else
        (env.setWrite { t with error := t.error || (o.data.isSome && o.dataError) } p,
          Failure.codeOf o.data)

/-- `mdbx_put`, `mdbx_del` and the writes of a cursor. -/
def mdbxPut (o : Sys) (change : Change) (env : MdbxEnv) : Option Ptr → MdbxEnv × Code
  | none => (env, Code.einval)
  | some (.reader a) =>
    (env, if (env.readers a).isSome then Code.eaccess else Code.ebadsign)
  | some p =>
    match env.write? p with
    | none => (env, Code.ebadsign)
    | some (t, hasChild) =>
      let check := t.checkTxn hasChild Bits.blockedRw
      if check != Code.success then (env, check)
      else
        match o.data with
        | some e =>
          (env.setWrite { t with
            error := t.error || o.dataError, dirty := t.dirty || o.dataDirty } p, e.code)
        | none =>
          (env.setWrite { t with dirty := true, changes := t.changes ++ [change] } p,
            Code.success)

/-! ### Begin and end -/

/-- `mdbx_txn_begin_ex` without a parent, for a read-only transaction. -/
def beginRo (o : Sys) (flags : UInt32) (client : Handle) (env : MdbxEnv) :
    MdbxEnv × Code × Option Ptr :=
  if flags &&& ~~~txnRoBeginFlags != 0 then (env, Code.einval, none)
  else if o.alloc.isSome then (env, Code.enomem, none)
  else
    let prepareOnly := flags &&& txnRdonlyPrepare == txnRdonlyPrepare
    let started := { client : ReadTxn }.txnRoStart o env.recent prepareOnly
    if started.2 != Code.success then (env, started.2, none)
    else
      (env.allocReader started.1, Code.success, some (.reader env.brk))

/-- `mdbx_txn_begin_ex` without a parent, for a write transaction. -/
def beginRw (o : Sys) (self : Thread) (flags : UInt32) (client : Handle) (env : MdbxEnv) :
    Option (MdbxEnv × Code × Option Ptr) :=
  if flags &&& ~~~txnRwBeginFlags != 0 then some (env, Code.einval, none)
  else
    (env.txnBasalStart o self (flags &&& txnTry != 0) client).map fun started =>
      (started.1, started.2, if started.2 == Code.success then some .basal else none)

/-- `mdbx_txn_begin_ex` with a parent. -/
def beginNested (o : Sys) (parent : Ptr) (flags : UInt32) (client : Handle) (env : MdbxEnv) :
    MdbxEnv × Code × Option Ptr :=
  if flags &&& ~~~txnRdonly != 0 then (env, Code.einval, none)
  else
    match env.write? parent with
    | none =>
      match parent with
      | .reader a =>
        (env, if (env.readers a).isSome then Code.badTxn else Code.ebadsign, none)
      | _ => (env, Code.ebadsign, none)
    | some (t, hasChild) =>
      let check := t.checkTxn hasChild Bits.blockedPure
      if check != Code.success then (env, check, none)
      else if t.roNested then (env, Code.badTxn, none)
      else
        match o.nestedCreate with
        | some e => (env, e.code, none)
        | none =>
          (env.allocNested {
            client, txnid := t.txnid, owner := t.owner, roNested := flags &&& txnRdonly != 0 },
            Code.success, some (.nested env.brk))

/-- `mdbx_txn_begin`. There is no result while the caller waits for the lock. -/
def mdbxTxnBegin (o : Sys) (self : Thread) (parent : Option Ptr) (flags : UInt32)
    (client : Handle) (env : MdbxEnv) : Option (MdbxEnv × Code × Option Ptr) :=
  if env.fatal then some (env, Code.panic, none)
  else
    match parent with
    | some p => some (env.beginNested o p flags client)
    | none =>
      if flags &&& txnRdonly != 0 then some (env.beginRo o flags client)
      else env.beginRw o self flags client

/-- `mdbx_txn_abort` -/
def mdbxTxnAbort (o : Sys) (self : Thread) (env : MdbxEnv) : Option Ptr → MdbxEnv × Code
  | none => (env, Code.einval)
  | some (.reader a) =>
    if (env.readers a).isNone then (env, Code.ebadsign)
    else if env.fatal then (env, Code.panic)
    else (env.setReader a none, Code.success)
  | some .basal =>
    let check := env.basal.checkOwner self
    if check != Code.success then (env, check)
    else if env.fatal then (env, Code.panic)
    else if !env.basal.finished && env.basal.owner != some self then
      (env.breakBasal self, Code.threadMismatch)
    else env.txnAbortBasal o
  | some (.nested a) =>
    match env.inner a with
    | [] => (env, Code.ebadsign)
    | t :: kids =>
      if t.checkOwner self != Code.success then (env, t.checkOwner self)
      else if env.fatal then (env, Code.panic)
      else
        let aborted := WriteTxn.abortNested self (t :: kids)
        (env.replaceNested a aborted.1, aborted.2)

/-- `mdbx_txn_commit_ex` of the top-level transaction. -/
def commitBasal (o : Sys) (self : Thread) (env : MdbxEnv) : MdbxEnv × Code :=
  if env.basal.finished then (env, Code.badTxn)
  else if env.fatal then (env, Code.panic)
  else if env.basal.owner != some self then (env.breakBasal self, Code.threadMismatch)
  else
    let inner := WriteTxn.commitNested o self env.nested
    let env := { env with nested := inner.rest }
    if inner.code != Code.success then ((env.mdbxTxnAbort o self (some .basal)).1, inner.code)
    else { env with basal := env.basal.absorb inner.merged }.txnCommitBasal o

/-- `mdbx_txn_commit_ex` -/
def mdbxTxnCommitEx (o : Sys) (self : Thread) (env : MdbxEnv) : Option Ptr → MdbxEnv × Code
  | none => (env, Code.einval)
  | some (.reader a) =>
    match env.readers a with
    | none => (env, Code.ebadsign)
    | some r =>
      if r.finished then ((env.mdbxTxnAbort o self (some (.reader a))).1, Code.resultTrue)
      else if env.fatal then (env, Code.panic)
      else (env.setReader a none, if r.error then Code.resultTrue else Code.success)
  | some .basal => env.commitBasal o self
  | some (.nested a) =>
    match env.inner a with
    | [] => (env, Code.ebadsign)
    | t :: kids =>
      if t.finished then (env, Code.badTxn)
      else if env.fatal then (env, Code.panic)
      else
        let end' := WriteTxn.commitNested o self (t :: kids)
        (env.joinNested a end'.merged end'.rest, end'.code)

end MdbxEnv

end MdbxGo
