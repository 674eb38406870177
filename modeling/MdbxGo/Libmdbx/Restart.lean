import MdbxGo.Libmdbx.Api

/-! The calls of libmdbx that go on from one transaction to another: checkpoint, rollback, the
change to a reader, the change to a writer, and the copy of a reader. -/

namespace MdbxGo

namespace WriteTxn

/-- What `txn_nested_checkpoint` makes of a transaction that `nested_join` has merged and
`nested_start` has started anew. -/
def restarted (t : WriteTxn) : WriteTxn :=
  { t with error := false, dirty := false, roNested := false, changes := [] }

end WriteTxn

namespace MdbxEnv

/-- `txn_nested_checkpoint`; `after` is what the caller does to the transaction that goes on. -/
def txnNestedCheckpoint (o : Sys) (after : WriteTxn → WriteTxn) (a : Addr) (t : WriteTxn)
    (env : MdbxEnv) : MdbxEnv × Code :=
  match o.nestedJoin t.addr with
  | some e => (env.replaceNested a [], e.code)
  | none =>
    match o.nestedStart with
    | some e => (env.joinNested a (some t) [], e.code)
    | none => (env.joinNested a (some t) [after t.restarted], Code.success)

/-- `txn_basal_checkpoint`. When `txn_basal_end` fails before the restart it has released the lock,
and the second release panics. -/
def txnBasalCheckpoint (o : Sys) (env : MdbxEnv) : Option (MdbxEnv × Code) :=
  let committed := env.txnBasalCommit o
  if committed.2 != Code.success then
    let ended := committed.1.txnBasalEnd o true
    some (ended.1, if ended.2 == Code.success then committed.2 else ended.2)
  else
    let ended := committed.1.txnBasalEnd o false
    if ended.2 != Code.success then none
    else some (ended.1.txnBasalRestart o env.basal.client)

/-- The checks that checkpoint and the change to a reader share: `check_txn`, and for the top-level
transaction the owner, which breaks the transaction when it is another one. -/
def checkWriter (self : Thread) (t : WriteTxn) (p : Ptr) (env : MdbxEnv) : MdbxEnv × Code :=
  if env.fatal then (env, Code.panic)
  else if p == .basal && t.owner != some self then (env.breakBasal self, Code.threadMismatch)
  else (env, Code.success)

/-- `mdbx_txn_checkpoint` -/
def mdbxTxnCheckpoint (o : Sys) (self : Thread) (weakeningDurability : UInt32) (env : MdbxEnv) :
    Option Ptr → Option (MdbxEnv × Code)
  | none => some (env, Code.einval)
  | some p =>
    match env.write? p with
    | none => some (env, Code.ebadsign)
    | some (t, hasChild) =>
      let check := t.checkTxn hasChild Bits.blockedPure
      if check != Code.success then some (env, check)
      else if weakeningDurability &&& ~~~(txnNometasync ||| txnNosync) != 0 then
        some (env, Code.einval)
      else
        let checked := env.checkWriter self t p
        if checked.2 != Code.success then some checked
        else if !t.dirty then some (env, Code.resultTrue)
        else
          match p with
          | .basal => env.txnBasalCheckpoint o
          | .nested a =>
            if weakeningDurability != 0 then some (env, Code.einval)
            else some (env.txnNestedCheckpoint o id a t)
          | .reader _ => some (env, Code.ebadsign)

/-- The end of `mdbx_txn_commit_embark_read` for the top-level transaction. The lock is released
twice, which panics, when `txn_basal_end` fails before the reader starts. -/
def basalEmbarkRead (o : Sys) (env : MdbxEnv) : Option (MdbxEnv × Code × Option Ptr) :=
  let committed := env.txnBasalCommit o
  if committed.2 != Code.success then
    some ((committed.1.txnBasalEnd o true).1, committed.2, none)
  else
    let ended := committed.1.txnBasalEnd o false
    if ended.2 != Code.success then none
    else
      let unlocked := (ended.1.txnBasalEnd o true).1
      if o.alloc.isSome then some (unlocked, Code.enomem, none)
      else
        let started := { client := env.basal.client : ReadTxn }.txnRoStart o ended.1.recent false
        if started.2 != Code.success then some (unlocked, started.2, none)
        else
          some (unlocked.allocReader started.1, Code.success, some (.reader unlocked.brk))

/-- `mdbx_txn_commit_embark_read`, with what it leaves in `*ptxn`. -/
def mdbxTxnCommitEmbarkRead (o : Sys) (self : Thread) (env : MdbxEnv) :
    Option Ptr → Option (MdbxEnv × Code × Option Ptr)
  | none => some (env, Code.einval, none)
  | some p =>
    match env.write? p with
    | none => some (env, Code.ebadsign, some p)
    | some (t, hasChild) =>
      let check := t.checkTxn hasChild Bits.blockedPure
      if check != Code.success then some (env, check, some p)
      else
        let checked := env.checkWriter self t p
        if checked.2 != Code.success then some (checked.1, checked.2, some p)
        else if t.roNested then some (env, Code.success, some p)
        else
          match p with
          | .basal => env.basalEmbarkRead o
          | .nested a =>
            let next := env.txnNestedCheckpoint o ({ · with roNested := true }) a t
            some (next.1, next.2, if next.2 == Code.success then some p else none)
          | .reader _ => some (env, Code.ebadsign, some p)

/-- `txn_basal_rollback`. A thread that does not own the lock panics when it has to release it. -/
def txnBasalRollback (o : Sys) (self : Thread) (env : MdbxEnv) : Option (MdbxEnv × Code) :=
  let ended := env.txnBasalEnd o false
  let restarted :=
    if ended.2 != Code.success then ended else ended.1.txnBasalRestart o env.basal.client
  if restarted.2 != Code.success && env.basal.owner != some self then none else some restarted

/-- `txn_nested_rollback` -/
def txnNestedRollback (o : Sys) (a : Addr) (t : WriteTxn) (env : MdbxEnv) : MdbxEnv × Code :=
  if t.roNested && t.dirty then (env.replaceNested a [{ t with error := true }], Code.badTxn)
  else
    match o.nestedStart with
    | some e => (env.replaceNested a [], e.code)
    | none => (env.replaceNested a [t.restartNested], Code.success)

/-- `mdbx_txn_rollback` -/
def mdbxTxnRollback (o : Sys) (self : Thread) (env : MdbxEnv) :
    Option Ptr → Option (MdbxEnv × Code)
  | none => some (env, Code.einval)
  | some (.reader a) => some (env.onReader a (·.mdbxTxnRollback o env.recent))
  | some p =>
    match env.write? p with
    | none => some (env, Code.ebadsign)
    | some (t, hasChild) =>
      let check := t.checkTxn hasChild Bits.blockedNested
      if check != Code.success then some (env, check)
      else
        match p with
        | .nested a => some (env.txnNestedRollback o a t)
        | _ =>
          { env with basal := { env.basal with error := true } }.txnBasalRollback o self

/-! ### Amend -/

/-- `mdbx_txn_amend` up to the lock. A result without a code means that the caller goes for the
lock. -/
def amendStart (o : Sys) (self : Thread) (flags : UInt32) (env : MdbxEnv) :
    Option Ptr → MdbxEnv × Option Code
  | none =>
    (env, some Code.einval)
  | some p =>
    if flags &&& ~~~(txnRwBeginFlags ||| txnRdonlyPrepare) != 0 then (env, some Code.einval)
    else
      match p with
      | .reader a =>
        match env.readers a with
        | none => (env, some Code.ebadsign)
        | some r =>
          if r.hits Bits.blockedPure then (env, some Code.badTxn)
          else if env.fatal then (env, some Code.panic)
          else if !env.basal.finished && env.basal.owner == some self then
            (env, some Code.txnOverlapping)
          else if env.recent != r.txnid then (env, some Code.resultTrue)
          else if flags &&& txnTry == 0 && !r.parked then
            let parked := r.txnRoPark o true
            (env.setReader a (some parked.1),
              if parked.2 == Code.success then none else some parked.2)
          else (env, none)
      | p => (env, some (env.refuse (·.checkTxn · Bits.blockedPure) Code.badTxn p))

/-- `mdbx_txn_amend` from the lock on. There is no result while another thread holds the lock, and
none when the transaction was freed in the meantime. -/
def amendLocked (o : Sys) (self : Thread) (flags : UInt32) (client : Handle) (a : Addr)
    (env : MdbxEnv) : Option (MdbxEnv × Code × Option Ptr) :=
  match env.readers a with
  | none => none
  | some r =>
    if env.basal.owner.isSome then
      if flags &&& txnTry != 0 then some (env, Code.busy, none) else none
    else
      match o.lock with
      | some e => some (env, e.code, none)
      | none =>
        if env.recent != r.txnid then some (env, Code.resultTrue, none)
        else
          let locked := { env with basal := { env.basal with owner := some self } }
          let started := locked.txnBasalRestart o client
          if started.2 != Code.success then some (started.1, started.2, none)
          else if r.txnid != started.1.basal.txnid - 1 then
            some ((started.1.txnBasalEnd o true).1, Code.resultTrue, none)
          else
            let reset := r.txnRoReset o
            if reset.2 != Code.success then
              some (((started.1.setReader a (some reset.1)).txnBasalEnd o true).1, reset.2, none)
            else
              let keep := flags &&& txnRdonlyPrepare == txnRdonlyPrepare
              some (started.1.setReader a (if keep then some reset.1 else none), Code.success,
                some .basal)

/-! ### Clone -/

/-- The flat read-only transaction or the writer, by its id, whose snapshot a clone takes. -/
inductive CloneSource
  | reader (r : ReadTxn)
  | writer (txnid : UInt64)

/-- The checks of `mdbx_txn_clone` on the origin: neither it nor a transaction around it may be
finished or have changes. -/
def cloneSource (env : MdbxEnv) : Option Ptr → Code × CloneSource
  | none => (Code.einval, .writer 0)
  | some (.reader a) =>
    match env.readers a with
    | none => (Code.ebadsign, .writer 0)
    | some r => (if r.finished then Code.badTxn else Code.success, .reader r)
  | some p =>
    let around := match p with
      | .nested a => env.basal :: env.outer a ++ (env.inner a).take 1
      | _ => [env.basal]
    (if (env.write? p).isNone then Code.ebadsign
      else if around.any (fun t => t.finished || t.dirty) then Code.badTxn else Code.success,
      .writer env.basal.txnid)

/-- The origin as `mdbx_txn_clone` checks it, then the environment. -/
def checkClone (env : MdbxEnv) (source : Option Ptr) : Code :=
  if (env.cloneSource source).1 != Code.success then (env.cloneSource source).1
  else if env.fatal then Code.panic
  else Code.success

/-- `txn_ro_clone` into `r`, and the checks after it. -/
def cloneInto (o : Sys) (source : CloneSource) (recent : UInt64) (r : ReadTxn) : ReadTxn × Code :=
  match source with
  | .reader origin =>
    let cloned := r.txnRoClone o origin
    if cloned.2 != Code.success then cloned
    else ({ cloned.1 with finished := false }, Code.success)
  | .writer txnid =>
    let cloned := r.txnRoCloneWriter o recent txnid
    if cloned.2 != Code.success then cloned
    else (cloned.1, if txnid - 1 != cloned.1.txnid then Code.problem else Code.success)

/-- `mdbx_txn_clone` with `*in_out_clone` null. -/
def mdbxTxnClone (o : Sys) (client : Handle) (source : Option Ptr) (env : MdbxEnv) :
    MdbxEnv × Code × Option Ptr :=
  if env.checkClone source != Code.success then (env, env.checkClone source, none)
  else if o.alloc.isSome then (env, Code.enomem, none)
  else
    let cloned := cloneInto o (env.cloneSource source).2 env.recent { client, finished := true }
    if cloned.2 != Code.success then (env, cloned.2, none)
    else
      (env.allocReader cloned.1, Code.success, some (.reader env.brk))

/-- The `bailout` of `mdbx_txn_clone` with a target. -/
def cloneBailout (o : Sys) (a : Addr) (r : ReadTxn) (code : Code) (env : MdbxEnv) :
    MdbxEnv × Code :=
  (env.setReader a (some (r.txnRoReset o).1), code)

/-- `mdbx_txn_clone` into the flat read-only transaction at `a`. A target that is live is reset,
and the checks start anew. -/
def mdbxTxnCloneInto (o : Sys) (source : Option Ptr) (a : Addr) (r : ReadTxn) (env : MdbxEnv) :
    MdbxEnv × Code :=
  if env.checkClone source != Code.success then
    env.cloneBailout o a r (env.checkClone source)
  else
    let reset := if r.finished then (r, Code.success) else r.txnRoReset o
    let env := env.setReader a (some reset.1)
    if reset.2 != Code.success then env.cloneBailout o a reset.1 reset.2
    else if env.checkClone source != Code.success then
      env.cloneBailout o a reset.1 (env.checkClone source)
    else
      let cloned := cloneInto o (env.cloneSource source).2 env.recent reset.1
      if cloned.2 != Code.success then env.cloneBailout o a cloned.1 cloned.2
      else (env.setReader a (some cloned.1), Code.success)

end MdbxEnv

end MdbxGo
