import Mathlib.Logic.Basic

/-! The return codes of libmdbx, the flags that its callers pass, and the answers that it gets from
the system below it during one call. -/

namespace MdbxGo

/-- A return code of libmdbx: a C `int`. -/
abbrev Code := Int

namespace Code

def success : Code := 0
def resultTrue : Code := -1
def keyExist : Code := -30799
def notFound : Code := -30798
def txnInvalid : Code := -2147483648
def panic : Code := -30795
def mapFull : Code := -30792
def txnFull : Code := -30788
def incompatible : Code := -30784
def badRslot : Code := -30783
def badTxn : Code := -30782
def badDbi : Code := -30780
def problem : Code := -30779
def busy : Code := -30778
def ebadsign : Code := -30420
def threadMismatch : Code := -30416
def txnOverlapping : Code := -30415
def ousted : Code := -30411
def lastAddedErrcode : Code := -30409
def eperm : Code := 1
def enomem : Code := 12
def eaccess : Code := 13
def einval : Code := 22
def enodata : Code := 61

end Code

/-- A code that reports a failure: neither of the two codes of success. -/
structure Failure where
  code : Code
  not_success : code ≠ Code.success
  not_resultTrue : code ≠ Code.resultTrue

namespace Failure

/-- The code of a call into the system: `MDBX_SUCCESS` when nothing failed. -/
def codeOf : Option Failure → Code
  | none => Code.success
  | some e => e.code

@[simp] theorem codeOf_none : codeOf none = Code.success := rfl

@[simp] theorem codeOf_some (e : Failure) : codeOf (some e) = e.code := rfl

theorem codeOf_eq_success {f : Option Failure} : codeOf f = Code.success ↔ f = none := by
  cases f with
  | none => simp
  | some e => simp [e.not_success]

theorem codeOf_ne_resultTrue (f : Option Failure) : codeOf f ≠ Code.resultTrue := by
  cases f with
  | none => decide
  | some e => exact e.not_resultTrue

def mapFull : Failure := ⟨Code.mapFull, by decide, by decide⟩
def noMemory : Failure := ⟨Code.enomem, by decide, by decide⟩

end Failure

/-! ### Flags -/

/-- `MDBX_TXN_RDONLY`, `mdbx.Readonly` in Go. -/
def txnRdonly : UInt32 := 0x20000
/-- `MDBX_TXN_RDONLY_PREPARE`, `TxPrepareRO` in Go: `MDBX_RDONLY | MDBX_NOMEMINIT`. -/
def txnRdonlyPrepare : UInt32 := 0x1020000
def txnTry : UInt32 := 0x10000000
def txnNometasync : UInt32 := 0x40000
def txnNosync : UInt32 := 0x10000
def txnRoBeginFlags : UInt32 := txnRdonly ||| txnRdonlyPrepare
def txnRwBeginFlags : UInt32 := txnNometasync ||| txnNosync ||| txnTry

/-! ### Transaction ids -/

def safe64InvalidThreshold : UInt64 := 0xffffFFFF00000000
def maxTxnid : UInt64 := safe64InvalidThreshold - 1
def invalidTxnid : UInt64 := 0xffffFFFFffffFFFF

/-- What the system below libmdbx answers during one call. Each field belongs to the place of the
source that it is named after; `none` and `false` are the answers of a call that goes well. -/
structure Sys where
  /-- `lck_txn_lock` -/
  lock : Option Failure := none
  /-- `coherency_fetch_head` and the failing exits of `basal_start_locked` behind it -/
  fetchHead : Option Failure := none
  startLocked : Option Failure := none
  /-- the failing exits of `txn_basal_commit`; with `commitFatal` the one in `dxb_sync_locked` -/
  commit : Option Failure := none
  commitFatal : Bool := false
  /-- `txn_basal_commit` finds no need to write a transaction without changes -/
  pure : Bool := false
  /-- the id under which `gc_update` lets the transaction be committed, when above its own -/
  bigfoot : UInt64 := 0
  /-- `dbi_update` inside `txn_basal_end` -/
  dbiUpdate : Option Failure := none
  /-- `txn_nested_create` -/
  nestedCreate : Option Failure := none
  /-- `nested_join`, for the nested transaction at an address -/
  nestedJoin : Nat → Option Failure := fun _ => none
  /-- `nested_start` after a nested checkpoint or rollback -/
  nestedStart : Option Failure := none
  /-- `txn_alloc` -/
  alloc : Option Failure := none
  /-- `ro_slot_get` -/
  roSlotGet : Option Failure := none
  /-- `ro_start_continue`, and the failing exits of `txn_ro_clone` past the slot -/
  roStart : Option Failure := none
  /-- `ro_slot_checkpid` and the comparisons of `txn_ro_park` and `txn_ro_unpark` find the pid of
  another process in the slot -/
  slotMismatch : Bool := false
  /-- the result of a read or a write of data, and whether it leaves `MDBX_TXN_ERROR` or
  `MDBX_TXN_DIRTY` behind -/
  data : Option Failure := none
  dataError : Bool := false
  dataDirty : Bool := false

end MdbxGo
