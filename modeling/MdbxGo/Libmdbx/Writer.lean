import MdbxGo.Libmdbx.Reader

/-! The write transactions of libmdbx: the one top-level transaction `env->basal_txn`, which every
writer of the environment uses in turn, and the transactions nested in it, and how they start, merge
and end. -/

namespace MdbxGo

abbrev Addr := Nat

/-- One change of the data, opaque here. -/
abbrev Change := Nat

/-- A `MDBX_txn` without `txn_ro_flat`, its flags one by one. `MDBX_TXN_HAS_CHILD` is not a field:
it is set exactly when another transaction follows in `MdbxEnv.nested`. `client` is the Go handle
that the transaction was begun for; libmdbx does not look at it. -/
structure WriteTxn where
  addr : Addr := 0
  client : Handle := 0
  finished : Bool := false
  error : Bool := false
  dirty : Bool := false
  roNested : Bool := false
  txnid : UInt64 := 0
  owner : Option Thread := none
  changes : List Change := []
deriving DecidableEq, Repr

namespace WriteTxn

/-- `check_txn` with the bits of a call other than zero: a write transaction is never parked.
`hasChild` tells whether another transaction is nested in this one. -/
def checkTxn (t : WriteTxn) (hasChild : Bool) (bits : Bits) : Code :=
  if (bits.finished && t.finished) || (bits.error && t.error) || (bits.hasChild && hasChild) ||
      (bits.dirty && t.dirty) || (bits.ro && t.roNested) then
    if bits.ro && t.roNested then Code.eaccess else Code.badTxn
  else Code.success

/-- `check_txn` without bits, which looks at the owner of a finished transaction only: the others
have `MDBX_NOSTICKYTHREADS`. -/
def checkOwner (self : Thread) (t : WriteTxn) : Code :=
  if t.finished && t.owner != some self then
    if t.owner.isSome then Code.threadMismatch else Code.badTxn
  else Code.success

/-- What `nested_join` leaves in the parent. -/
def absorb (parent : WriteTxn) : Option WriteTxn → WriteTxn
  | none => parent
  | some nested =>
    { parent with
      dirty := parent.dirty || nested.dirty
      changes := parent.changes ++ nested.changes }

/-- `mdbx_txn_break`, down the transactions nested in each other. -/
def breakAll (self : Thread) : List WriteTxn → List WriteTxn
  | [] => []
  | t :: kids =>
    if t.checkOwner self != Code.success then t :: kids
    else { t with error := true } :: breakAll self kids

/-- `mdbx_txn_abort` of the first of the transactions nested in each other; `[]` means that all of
them are freed. The one called on is freed only after its own nested one, which has the same owner
and so ends in the same way. -/
def abortNested (self : Thread) : List WriteTxn → List WriteTxn × Code
  | [] => ([], Code.success)
  | t :: kids =>
    if t.checkOwner self != Code.success then (t :: kids, t.checkOwner self)
    else if !t.finished && t.owner != some self then
      (breakAll self (t :: kids), Code.threadMismatch)
    else ([], Code.success)

/-- The end of `mdbx_txn_commit_ex` on a nested transaction: its code, the transaction that was
merged into the parent, and the transactions that stay nested in the parent. -/
structure NestedCommit where
  code : Code
  merged : Option WriteTxn
  rest : List WriteTxn

/-- `txn_commit` of a nested transaction without a nested one of its own. -/
def txnCommitNested (o : Sys) (t : WriteTxn) : NestedCommit :=
  if t.error then ⟨Code.resultTrue, none, []⟩
  else
    match o.nestedJoin t.addr with
    | some e => ⟨e.code, none, []⟩
    | none => ⟨Code.success, some t, []⟩

/-- `mdbx_txn_commit_ex` of the first of the transactions nested in each other, which commits the
inner ones first. -/
def commitNested (o : Sys) (self : Thread) : List WriteTxn → NestedCommit
  | [] => ⟨Code.success, none, []⟩
  | t :: kids =>
    if t.finished then ⟨Code.badTxn, none, t :: kids⟩
    else
      let inner := commitNested o self kids
      if inner.code != Code.success then
        ⟨inner.code, none, (abortNested self (t :: inner.rest)).1⟩
      else txnCommitNested o (t.absorb inner.merged)

/-- `nested_undo` followed by a successful `nested_start`, as `txn_nested_rollback` runs them:
nothing clears the `MDBX_TXN_FINISHED` that `nested_undo` sets. -/
def restartNested (t : WriteTxn) : WriteTxn :=
  { t with finished := true, error := false, dirty := false, changes := [] }

end WriteTxn

/-- An environment of libmdbx: what the calls on transactions read and write. `data` is the content
of the last committed snapshot, by the changes that led to it. `nested` are the transactions nested
in `basal`, each in the one before it. -/
structure MdbxEnv where
  fatal : Bool := false
  recent : UInt64 := 1
  data : List Change := []
  basal : WriteTxn := { finished := true }
  nested : List WriteTxn := []
  readers : Addr → Option ReadTxn := fun _ => none
  brk : Addr := 1

namespace MdbxEnv

/-- `txn_basal_end` -/
def txnBasalEnd (o : Sys) (unlock : Bool) (env : MdbxEnv) : MdbxEnv × Code :=
  let code := if env.basal.dirty then Failure.codeOf o.dbiUpdate else Code.success
  ({ env with
      basal := { env.basal with
        finished := true, error := false, dirty := false, roNested := false, changes := []
        owner := if unlock || code != Code.success then none else env.basal.owner } }, code)

/-- `basal_start_locked` -/
def basalStartLocked (o : Sys) (client : Handle) (env : MdbxEnv) : MdbxEnv × Code :=
  if env.fatal then (env, Code.panic)
  else
    let head := { env with
      basal := { env.basal with
        client, txnid := env.recent, finished := false, error := false, dirty := false
        changes := [] }
      nested := [] }
    match o.fetchHead with
    | some e => (head, e.code)
    | none =>
      let next := { head with basal := { head.basal with txnid := env.recent + 1 } }
      (next, if maxTxnid < env.recent + 1 then Code.txnFull else Failure.codeOf o.startLocked)

/-- The part of `txn_basal_start` that runs with the lock held. -/
def txnBasalRestart (o : Sys) (client : Handle) (env : MdbxEnv) : MdbxEnv × Code :=
  let started := env.basalStartLocked o client
  if started.2 != Code.success then ((started.1.txnBasalEnd o true).1, started.2) else started

/-- `txn_basal_start` without `txn_rw_already_locked`. There is no result while another thread
holds the lock and the caller waits for it. -/
def txnBasalStart (o : Sys) (self : Thread) (tryLock : Bool) (client : Handle) (env : MdbxEnv) :
    Option (MdbxEnv × Code) :=
  if env.basal.owner = some self then some (env, Code.busy)
  else if env.basal.owner.isSome then if tryLock then some (env, Code.busy) else none
  else
    match o.lock with
    | some e => some (env, e.code)
    | none => some ({ env with basal := { env.basal with owner := some self } }.txnBasalRestart o
        client)

/-- The id under which a transaction is committed: its own, or a later one. -/
def commitTxnid (o : Sys) (txnid : UInt64) : UInt64 :=
  if txnid ≤ o.bigfoot && o.bigfoot ≤ maxTxnid then o.bigfoot else txnid

/-- `txn_basal_commit` -/
def txnBasalCommit (o : Sys) (env : MdbxEnv) : MdbxEnv × Code :=
  if !env.basal.dirty && o.pure then (env, Code.success)
  else
    match o.commit with
    | some e => ({ env with fatal := env.fatal || o.commitFatal }, e.code)
    | none =>
      ({ env with
          recent := commitTxnid o env.basal.txnid
          data := env.data ++ env.basal.changes }, Code.success)

/-- `txn_abort` of the top-level transaction: `txn_basal_end` when the lock is held. -/
def txnAbortBasal (o : Sys) (env : MdbxEnv) : MdbxEnv × Code :=
  if env.basal.owner.isNone then (env, Code.badTxn)
  else { env with basal := { env.basal with error := true }, nested := [] }.txnBasalEnd o true

/-- `txn_commit` of the top-level transaction. -/
def txnCommitBasal (o : Sys) (env : MdbxEnv) : MdbxEnv × Code :=
  if env.basal.error then
    let ended := env.txnAbortBasal o
    (ended.1, if ended.2 == Code.success then Code.resultTrue else ended.2)
  else
    let committed := env.txnBasalCommit o
    let ended := committed.1.txnBasalEnd o true
    (ended.1, if ended.2 == Code.success then committed.2 else ended.2)

/-- Merges into the transaction around the one at the end of `outer`. -/
def mergeInto (merged : Option WriteTxn) : WriteTxn → List WriteTxn → WriteTxn × List WriteTxn
  | t, [] => (t.absorb merged, [])
  | t, inner :: rest =>
    let below := mergeInto merged inner rest
    (t, below.1 :: below.2)

/-- The transactions around the nested transaction at `a`. -/
def outer (env : MdbxEnv) (a : Addr) : List WriteTxn := env.nested.takeWhile (·.addr != a)

/-- The nested transaction at `a` and those nested in it; `[]` when the memory was freed. -/
def inner (env : MdbxEnv) (a : Addr) : List WriteTxn := env.nested.dropWhile (·.addr != a)

/-- Puts `nested` in the place of the transaction at `a` and those nested in it. -/
def replaceNested (env : MdbxEnv) (a : Addr) (nested : List WriteTxn) : MdbxEnv :=
  { env with nested := env.outer a ++ nested }

/-- The same, and merges into the transaction around. -/
def joinNested (env : MdbxEnv) (a : Addr) (merged : Option WriteTxn) (nested : List WriteTxn) :
    MdbxEnv :=
  let around := mergeInto merged env.basal (env.outer a)
  { env with basal := around.1, nested := around.2 ++ nested }

/-- `mdbx_txn_break` of the top-level transaction. -/
def breakBasal (self : Thread) (env : MdbxEnv) : MdbxEnv :=
  match WriteTxn.breakAll self (env.basal :: env.nested) with
  | [] => env
  | basal :: nested => { env with basal, nested }

/-- Writes to the reader at `a`. -/
def setReader (env : MdbxEnv) (a : Addr) (r : Option ReadTxn) : MdbxEnv :=
  { env with readers := fun b => if b = a then r else env.readers b }

/-- Allocates a reader. -/
def allocReader (env : MdbxEnv) (r : ReadTxn) : MdbxEnv :=
  { env.setReader env.brk (some r) with brk := env.brk + 1 }

/-- Allocates a transaction nested in the innermost one. -/
def allocNested (env : MdbxEnv) (t : WriteTxn) : MdbxEnv :=
  { env with nested := env.nested ++ [{ t with addr := env.brk }], brk := env.brk + 1 }

end MdbxEnv

end MdbxGo
