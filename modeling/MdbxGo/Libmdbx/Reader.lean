import MdbxGo.Libmdbx.Code

/-! The flat read-only transactions of libmdbx: how they start on a snapshot, are reset, parked,
unparked and ousted. The environment is opened with `MDBX_NOSTICKYTHREADS`, under which no owner
thread is checked for them. -/

namespace MdbxGo

abbrev Thread := Nat

/-- An index of a Go handle. -/
abbrev Handle := Nat

/-- What the `tid` of a reader slot holds: the owner of the transaction, `MDBX_TID_TXN_PARKED` or
`MDBX_TID_TXN_OUSTED`. -/
inductive SlotTid
  | owner
  | parked
  | ousted
deriving DecidableEq, Repr

/-- A `MDBX_txn` with `txn_ro_flat`, its flags one by one, and its reader slot. `client` is the Go
handle that the transaction was made for; libmdbx does not look at it. -/
structure ReadTxn where
  client : Handle
  finished : Bool := false
  error : Bool := false
  parked : Bool := false
  autounpark : Bool := false
  ousted : Bool := false
  txnid : UInt64 := 0
  slotTid : SlotTid := .owner
  slotTxnid : UInt64 := invalidTxnid
deriving DecidableEq, Repr

/-- The bits that a call refuses to find in the flags of its transaction; `bad_bits` in
`check_txn`. `ro` stands for `txn_ro_both`. -/
structure Bits where
  finished : Bool := false
  error : Bool := false
  hasChild : Bool := false
  parked : Bool := false
  dirty : Bool := false
  ro : Bool := false

namespace Bits

/-- `MDBX_TXN_BLOCKED` -/
def blocked : Bits := { finished := true, error := true, hasChild := true, parked := true }
/-- `MDBX_TXN_BLOCKED - MDBX_TXN_PARKED` -/
def blockedPure : Bits := { blocked with parked := false }
/-- `MDBX_TXN_BLOCKED - MDBX_TXN_ERROR` -/
def blockedNoError : Bits := { blocked with error := false }
/-- `MDBX_TXN_BLOCKED - MDBX_TXN_PARKED - MDBX_TXN_ERROR` -/
def blockedNested : Bits := { finished := true, hasChild := true }
/-- The bits of `check_txn_rw` with `MDBX_TXN_BLOCKED`. -/
def blockedRw : Bits := { blockedPure with ro := true }

end Bits

namespace ReadTxn

/-- The transaction is parked: its flag is set, and it still has a snapshot. -/
def isParked (r : ReadTxn) : Bool := r.parked && !r.finished

/-- `txn->flags & bad_bits` -/
def hits (r : ReadTxn) (bits : Bits) : Bool :=
  (bits.finished && r.finished) || (bits.error && r.error) || (bits.parked && r.parked) || bits.ro

/-- `ro_slot_clean`, for a transaction with a slot. -/
def roSlotClean (o : Sys) (r : ReadTxn) : ReadTxn × Code :=
  if o.slotMismatch then (r, Code.badRslot)
  else if r.finished then (r, Code.success)
  else if r.parked then
    ({ r with
        parked := false
        ousted := r.ousted || r.slotTid == .ousted
        slotTid := .owner
        slotTxnid := invalidTxnid }, Code.success)
  else ({ r with slotTxnid := invalidTxnid }, Code.success)

/-- `txn_ro_reset` -/
def txnRoReset (o : Sys) (r : ReadTxn) : ReadTxn × Code :=
  let clean := r.roSlotClean o
  ({ clean.1 with finished := true, txnid := invalidTxnid }, clean.2)

@[simp] theorem txnRoReset_finished (o : Sys) (r : ReadTxn) :
    (r.txnRoReset o).1.finished = true := rfl

@[simp] theorem txnRoReset_txnid (o : Sys) (r : ReadTxn) :
    (r.txnRoReset o).1.txnid = invalidTxnid := rfl

theorem txnRoReset_ne_resultTrue {o : Sys} (r : ReadTxn) :
    (r.txnRoReset o).2 ≠ Code.resultTrue := by
  unfold txnRoReset roSlotClean
  dsimp only
  split
  · exact show Code.badRslot ≠ Code.resultTrue by decide
  · split
    · exact show Code.success ≠ Code.resultTrue by decide
    · split <;> exact show Code.success ≠ Code.resultTrue by decide

/-- `txn_ro_start`, with the id of the last committed snapshot. -/
def txnRoStart (o : Sys) (recent : UInt64) (prepareOnly : Bool) (r : ReadTxn) :
    ReadTxn × Code :=
  let r := { r with
    finished := true, error := false, parked := false, autounpark := false, ousted := false }
  match o.roSlotGet with
  | some e => (r, e.code)
  | none =>
    if prepareOnly then (r, Code.success)
    else
      match o.roStart with
      -- the flag that is set here keeps `ro_slot_clean` from comparing the snapshots
      | some e => (({ r with finished := false, parked := true }.txnRoReset o).1, e.code)
      | none =>
        ({ r with finished := false, txnid := recent, slotTid := .owner, slotTxnid := recent },
          Code.success)

/-- `txn_ro_park` -/
def txnRoPark (o : Sys) (autounpark : Bool) (r : ReadTxn) : ReadTxn × Code :=
  if r.finished || r.parked then (r, Code.badTxn)
  else if o.slotMismatch then (r, Code.problem)
  else if r.slotTid != .owner || r.slotTxnid != r.txnid then (r, Code.badRslot)
  else if r.error then r.roSlotClean o
  else ({ r with slotTid := .parked, parked := true, autounpark }, Code.success)

/-- The exits of the loop in `txn_ro_unpark` that end in a reset: the slot was taken away, or the
transaction had failed before. -/
def lost (r : ReadTxn) : Bool :=
  r.slotTid != .parked || r.slotTxnid != r.txnid || safe64InvalidThreshold ≤ r.slotTxnid || r.error

/-- `txn_ro_unpark`. Its first exit compares flags that hold `txn_ro_flat` with `MDBX_TXN_OUSTED`
alone, so that it always is `MDBX_BAD_TXN`. -/
def txnRoUnpark (o : Sys) (r : ReadTxn) : ReadTxn × Code :=
  if r.finished || !r.parked then (r, Code.badTxn)
  else if o.slotMismatch then (r, Code.problem)
  else if r.lost then
    let reset := r.txnRoReset o
    (reset.1, if reset.2 == Code.success && reset.1.ousted then Code.ousted else reset.2)
  else ({ r with parked := false, autounpark := false, slotTid := .owner }, Code.success)

/-- `mdbx_txn_unpark`. `fatal` is the `ENV_FATAL_ERROR` of the environment. -/
def mdbxTxnUnpark (o : Sys) (fatal : Bool) (recent : UInt64) (restartIfOusted : Bool)
    (r : ReadTxn) : ReadTxn × Code :=
  if r.hits Bits.blockedNested then (r, Code.badTxn)
  else if fatal then (r, Code.panic)
  else if !r.parked then (r, Code.success)
  else
    let unparked := r.txnRoUnpark o
    if unparked.2 != Code.ousted || !restartIfOusted then unparked
    else
      let started := unparked.1.txnRoStart o recent false
      (started.1, if started.2 == Code.success then Code.resultTrue else started.2)

/-- `check_txn_anythread`. A transaction parked with `autounpark` is unparked here when nothing else
is wrong with it (`txn_check_badbits_parked`). -/
def checkTxnAnythread (o : Sys) (fatal : Bool) (recent : UInt64) (bits : Bits) (r : ReadTxn) :
    ReadTxn × Code :=
  if r.hits bits then
    if bits.ro then (r, Code.eaccess)
    else if !bits.parked then (r, Code.badTxn)
    else if !(r.parked && r.autounpark) || (bits.finished && r.finished) ||
        (bits.error && r.error) then (r, Code.badTxn)
    else r.mdbxTxnUnpark o fatal recent false
  else (r, Code.success)

/-- `check_txn`. With `MDBX_NOSTICKYTHREADS` it asks for the owner of a finished transaction only,
which has none: the unparking may have reset it without an error. -/
def checkTxn (o : Sys) (fatal : Bool) (recent : UInt64) (bits : Bits) (r : ReadTxn) :
    ReadTxn × Code :=
  let checked := r.checkTxnAnythread o fatal recent bits
  (checked.1,
    if checked.2 == Code.success && checked.1.finished then Code.badTxn else checked.2)

/-- `mdbx_txn_park` -/
def mdbxTxnPark (o : Sys) (fatal : Bool) (recent : UInt64) (autounpark : Bool) (r : ReadTxn) :
    ReadTxn × Code :=
  let checked := r.checkTxn o fatal recent Bits.blockedNoError
  if checked.2 != Code.success then checked
  else if fatal then (checked.1, Code.panic)
  else checked.1.txnRoPark o autounpark

/-- `mdbx_txn_reset` -/
def mdbxTxnReset (o : Sys) (fatal : Bool) (r : ReadTxn) : ReadTxn × Code :=
  if fatal then (r, Code.panic) else r.txnRoReset o

/-- `mdbx_txn_renew` -/
def mdbxTxnRenew (o : Sys) (fatal : Bool) (recent : UInt64) (r : ReadTxn) : ReadTxn × Code :=
  if fatal then (r, Code.panic)
  else
    let reset := if r.finished then (r, Code.success) else r.txnRoReset o
    if reset.2 != Code.success then reset else reset.1.txnRoStart o recent false

/-- `mdbx_txn_refresh` -/
def mdbxTxnRefresh (o : Sys) (fatal : Bool) (recent : UInt64) (r : ReadTxn) : ReadTxn × Code :=
  if fatal then (r, Code.panic)
  else if !r.finished && recent == r.txnid then (r, Code.resultTrue)
  else
    let reset := if r.finished then (r, Code.success) else r.txnRoReset o
    if reset.2 != Code.success then reset else reset.1.txnRoStart o recent false

/-- A read of data, `mdbx_get` and the reads of a cursor. -/
def mdbxGet (o : Sys) (fatal : Bool) (recent : UInt64) (r : ReadTxn) : ReadTxn × Code :=
  let checked := r.checkTxn o fatal recent Bits.blocked
  if checked.2 != Code.success then checked
  else
    ({ checked.1 with error := checked.1.error || (o.data.isSome && o.dataError) },
      Failure.codeOf o.data)

/-- A writer that needs the pages of the snapshot takes it away from a parked reader
(`mvcc_kick_laggards`). -/
def oust (r : ReadTxn) : ReadTxn :=
  if r.slotTid == .parked then { r with slotTid := .ousted, slotTxnid := invalidTxnid } else r

/-- `txn_ro_clone` into `r` from a flat read-only origin. A clone gets the parked flags of its
origin, and what its slot then holds is no snapshot. -/
def txnRoClone (o : Sys) (r : ReadTxn) (origin : ReadTxn) : ReadTxn × Code :=
  match o.roSlotGet with
  | some e => (r, e.code)
  | none =>
    if origin.finished || origin.txnid < 1 || maxTxnid < origin.txnid then (r, Code.badTxn)
    else
      let r := { r with
        finished := true, error := false, ousted := false
        parked := origin.parked, autounpark := origin.autounpark
        txnid := origin.txnid
        slotTxnid := if origin.parked then invalidTxnid else origin.txnid }
      match (if r.parked then none else o.roStart) with
      | some e => (r, e.code)
      | none => (r, Code.success)

/-- `txn_ro_clone` into `r` from the writer with the id `txnid`, which ends in `ro_seize`. -/
def txnRoCloneWriter (o : Sys) (recent : UInt64) (txnid : UInt64) (r : ReadTxn) :
    ReadTxn × Code :=
  match o.roSlotGet with
  | some e => (r, e.code)
  | none =>
    if txnid < 1 || maxTxnid < txnid then (r, Code.badTxn)
    else
      let r := { r with
        finished := false, error := false, ousted := false, parked := false, autounpark := false }
      match o.roStart with
      | some e => ({ r with txnid := txnid - 1, slotTxnid := recent }, e.code)
      | none => ({ r with txnid := recent, slotTxnid := recent }, Code.success)

end ReadTxn

end MdbxGo
