import Mathlib.Data.List.Pairwise
import MdbxGo.Transition
import MdbxGo.Libmdbx.Troika

/-! Commits that write a meta page and flush it, what a crash leaves of the three pages, and the
rollback to the last steady one at the next open. One process at a time has the environment, its
system calls succeed, and it is killed between two commits only; no steady page is wiped, as
`meta_wipe_steady` does with `MDBX_UTTERLY_NOSYNC`. A page written through the file descriptor is
written whole. -/

namespace MdbxGo

namespace Durable

/-- `MIN_PAGENO` -/
def minPageno : Nat := 3

/-! ### The meta pages -/

/-- `meta_t`: the words, `bootid` (zero where the system has none), `geometry.first_unallocated`,
and for the trees the number of the commit that made them. -/
structure Meta where
  words : MetaWords
  bootid : Nat
  firstUnallocated : Nat
  root : Nat
deriving DecidableEq, Repr

namespace Meta

def txnid (m : Meta) : Nat := constmetaTxnid m.words

def setSign (m : Meta) (sign : Nat) : Meta := { m with words := { m.words with sign := sign } }

/-- `meta_sign_as_steady` -/
def signAsSteady (m : Meta) : Meta := m.setSign metaSignCalculate

/-- `meta_is_steady` -/
def metaIsSteady (m : Meta) : Bool := signIsSteady m.words.sign

/-- `meta_set_txnid` -/
def setTxnid (m : Meta) (bootid txnid : Nat) : Meta :=
  { m with bootid := bootid, words := { m.words with txnidA := txnid, txnidB := txnid } }

/-- `meta_bootid_match` -/
def bootidMatch (m : Meta) (bootid : Nat) : Bool := m.bootid == bootid && bootid != 0

end Meta

/-- `meta_validate`, of what a commit or a crash may change. -/
def metaValidate (m : Meta) : Bool :=
  m.words.txnidA == m.words.txnidB &&
  !(m.metaIsSteady && m.words.sign != metaSignCalculate) &&
  decide (minTxnid ≤ m.txnid) && decide (m.txnid ≤ lastTxnid) &&
  decide (minPageno ≤ m.firstUnallocated)

/-- The image that `meta_override` puts on a page, with id zero. -/
def purged (bootid : Nat) (shape : Meta) : Meta := (shape.setTxnid bootid 0).signAsSteady

/-- The images that a page goes through before it holds `pending`: with `MDBX_WRITEMAP`, and where
it is not the head that is signed, the stores from `meta_update_begin` to the sign. -/
def metaUpdate (writemap : Bool) (target pending : Meta) : List Meta :=
  if writemap then
    let m := { target with words := { target.words with txnidB := 0 } }
    let begun := { m with words := { m.words with txnidA := pending.words.txnidA } }
    let weak := begun.setSign datasignWeak
    let body := { weak with firstUnallocated := pending.firstUnallocated, root := pending.root }
    let booted := { body with bootid := pending.bootid }
    let ended := { booted with words := { booted.words with txnidB := pending.words.txnidB } }
    [m, begun, weak, body, booted, ended]
  else []

/-! ### The database -/

/-- Where the process that has the environment stands. -/
inductive Phase
  | opened
  -- dxb_sync_locked: the images still to be stored before `pending`
  | writing (target : MetaNo) (todo : List Meta) (pending : Meta) (nometasync writemap : Bool)
  | flushing (target : MetaNo) (pending : Meta) (nometasync writemap : Bool)
  -- dxb_setup
  | recovering
  | overriding (target : MetaNo)
  | failed
deriving DecidableEq

/-- The meta pages, what is left of them if the system crashes now, and the counter of unsynced
pages. No code reads the fields after `phase`: they say what the commits so far have come to. -/
structure Db where
  cache : MetaNo → Meta
  /-- Per page, the images of which a crash of the system leaves one. -/
  disk : MetaNo → List Meta
  bootid : Nat
  unsynced : Nat := 0
  phase : Phase := .opened
  /-- The greatest boot id so far. -/
  boots : Nat
  /-- Pages written that no fsync followed and no commit refers to. -/
  fresh : Bool := false
  nextRoot : Nat
  /-- The commits that the head comes from, the last one first. -/
  lineage : List Nat
  /-- The commits whose pages are all durable. -/
  sealed : List Nat
  /-- The commits whose pages are all on the disk or in the page cache. -/
  intact : List Nat
  /-- The commits that were reported to be durable. -/
  acked : List Nat := []
  /-- The greatest detent up to which retired pages may have been written over. -/
  reused : Nat := 0

namespace Db

def snap (s : Db) : MetaNo → MetaSnap := fun i => metaSnap (s.cache i).words

def head (s : Db) : MetaPtr := (metaTap s.snap).metaRecent

def steady (s : Db) : MetaPtr := (metaTap s.snap).metaPreferSteady

def headMeta (s : Db) : Meta := s.cache s.head.no

/-- A sync of the whole file. -/
def fsync (s : Db) : Db := { s with disk := fun i => [s.cache i] }

/-- A store to a page of the cache. -/
def put (s : Db) (i : MetaNo) (m : Meta) : Db :=
  { s with
    cache := Function.update s.cache i m
    disk := Function.update s.disk i (m :: s.disk i) }

/-- A page that is written through makes only itself durable. -/
def flushed (s : Db) (whole : Bool) (i : MetaNo) : Db :=
  if whole then s.fsync else { s with disk := Function.update s.disk i [s.cache i] }

def ack (s : Db) (root : Nat) : Db := { s with acked := root :: s.acked }

end Db

/-! ### What a process does -/

/-- `flags` of `dxb_sync_locked`, after its check of the conditions to sync. -/
structure Flags where
  unsync : Bool
  nometasync : Bool
  writemap : Bool
deriving DecidableEq, Repr

/-- What is passed to `dxb_sync_locked`: a new commit, a copy of the head, or a copy that is
forwarded to the next id as its geometry changed. -/
inductive Pending
  | commit (txnid firstUnallocated : Nat)
  | copy
  | forward
deriving DecidableEq, Repr

def Pending.isCommit : Pending → Bool
  | .commit _ _ => true
  | .copy => false
  | .forward => false

namespace Db

/-- The image for `p` before it is signed. -/
def pending (s : Db) : Pending → Option Meta
  | .commit txnid first =>
    if s.head.txnid < txnid ∧ txnid ≤ lastTxnid ∧ minPageno ≤ first then
      some ⟨⟨txnid, datasignNone, txnid⟩, s.bootid, first, s.nextRoot⟩
    else none
  | .copy => some s.headMeta
  | .forward =>
    if s.head.txnid + 1 ≤ lastTxnid then some (s.headMeta.setTxnid s.bootid (s.head.txnid + 1))
    else none

/-- Whether step 1 of `dxb_sync_locked` leaves the image as it is, the last meta page being the only
one that is unsynced. -/
def skipsSign (s : Db) (f : Flags) : Bool := s.unsynced == 1 && f.nometasync

/-- Whether step 1 of `dxb_sync_locked` syncs the data. -/
def syncsData (s : Db) (f : Flags) : Bool := s.unsynced != 0 && !s.skipsSign f && !f.unsync

/-- The image as step 1 of `dxb_sync_locked` signs it. -/
def signed (s : Db) (f : Flags) (m : Meta) : Meta :=
  if s.unsynced = 0 then m.signAsSteady
  else if s.skipsSign f then m
  else if f.unsync then m.setSign datasignWeak
  else m.signAsSteady

/-- What a commit or a sync comes to: whose pages are durable now and whose can be read. -/
def recorded (s : Db) (f : Flags) (p : Pending) (m : Meta) : Db :=
  let isCommit := p.isCommit
  let root := s.headMeta.root
  let durable := (s.syncsData f && decide (root ∈ s.intact)) ||
    (decide (root ∈ s.sealed) && !(isCommit && s.fresh))
  { s with
    sealed := if durable then m.root :: s.sealed else s.sealed
    intact := if root ∈ s.intact then m.root :: s.intact else s.intact
    fresh := s.fresh && !isCommit && !s.syncsData f
    lineage := if isCommit then m.root :: s.lineage else s.lineage
    nextRoot := if isCommit then s.nextRoot + 1 else s.nextRoot }

/-- Step 1 of `dxb_sync_locked`. -/
def synced (s : Db) (f : Flags) : Db :=
  if s.syncsData f then { s.fsync with unsynced := 0 } else s

/-- `dxb_sync_locked`, up to its first store. -/
def dxbSyncLocked (s : Db) (f : Flags) (p : Pending) (m : Meta) : Db :=
  let pending := s.signed f m
  let t := (s.recorded f p m).synced f
  if s.head.txnid = pending.txnid then
    if !s.head.isSteady && pending.metaIsSteady then
      { t with phase := .writing s.head.no [] pending f.nometasync f.writemap }
    else if s.head.isSteady then t.ack s.headMeta.root else t
  else
    let tail := (metaTap s.snap).metaTail.no
    { t with
      phase := .writing tail (metaUpdate f.writemap (s.cache tail) pending) pending f.nometasync
        f.writemap }

/-- The flush of the meta page that was written. Without it the page counts as unsynced, unless it
is mapped for writing. -/
def metaFlush (s : Db) (target : MetaNo) (pending : Meta) (nometasync writemap whole : Bool) : Db :=
  if nometasync then
    { s with phase := .opened, unsynced := if writemap then s.unsynced else s.unsynced + 1 }
  else
    let t := { s.flushed whole target with phase := .opened }
    if pending.metaIsSteady then t.ack pending.root else t

/-- The environment is opened on its head, and later commits are gone. -/
def opens (s : Db) (unsynced : Nat) : Db :=
  { s with
    phase := .opened
    unsynced := unsynced
    lineage := s.lineage.dropWhile fun r => s.headMeta.root < r }

/-- `meta_override` of the head, up to its flush. -/
def purge (s : Db) (shape : Meta) : Db :=
  { s.put s.head.no (purged s.bootid shape) with phase := .overriding s.head.no }

/-- A round of the loop of `dxb_setup` that validates the pages and rolls the head back, by the
first process that opens the database. -/
def rollback (s : Db) : Db :=
  let recent := s.headMeta
  let preferSteady := s.cache s.steady.no
  let lastValid := metaValidate recent
  if (metaTap s.snap).metaEqMask ≠ 0 then { s with phase := .failed }
  else if s.steady.isSteady && !metaValidate preferSteady then { s with phase := .failed }
  else if s.steady.isSteady && decide (s.steady.no = s.head.no) then s.opens s.unsynced
  else if !lastValid then
    if !s.steady.isSteady then { s with phase := .failed } else s.purge preferSteady
  else if recent.bootidMatch s.bootid then s.opens recent.firstUnallocated
  else if !s.steady.isSteady then { s with phase := .failed }
  else s.purge recent

/-- A crash of the system leaves one image of each page, and the pages of the commits that were not
durable are lost. -/
def crashed (s : Db) (left : MetaNo → Meta) (bootid : Nat) : Db :=
  { s with
    cache := left
    disk := fun i => [left i]
    bootid := bootid
    boots := max s.boots bootid
    unsynced := 0
    phase := .recovering
    fresh := false
    intact := s.intact.filter (· ∈ s.sealed) }

end Db

/-- What happens to a database. -/
inductive Event
  /-- `txn_write`, `txn_spill` or a store with `MDBX_WRITEMAP`, of so many pages. -/
  | write (npages : Nat)
  /-- `gc_alloc_ex` takes pages retired up to a detent. -/
  | reclaim (detent : Nat)
  | sync (f : Flags) (p : Pending)
  | store
  | flush (whole : Bool)
  | metaSync
  | rollback
  | overridden (whole : Bool)
  /-- The process ends without closing the environment, and another one opens it. -/
  | kill
  /-- The system crashes, and a process opens the environment after the restart. -/
  | crash (left : MetaNo → Meta) (bootid : Nat)

/-- A step of the process that has the environment, or its end. -/
def step (s : Db) : Event → Option Db
  | .write npages =>
    if s.phase = .opened ∧ 0 < npages then
      some { s with unsynced := s.unsynced + npages, fresh := true }
    else none
  | .reclaim detent =>
    if s.phase = .opened ∧ detent ≤ s.steady.txnid then
      some { s with reused := max s.reused detent }
    else none
  | .sync f p =>
    if s.phase = .opened then (s.pending p).map (s.dxbSyncLocked f p) else none
  | .store =>
    match s.phase with
    | .writing target [] pending n w =>
      some { s.put target pending with phase := .flushing target pending n w }
    | .writing target (m :: todo) pending n w =>
      some { s.put target m with phase := .writing target todo pending n w }
    | _ => none
  | .flush whole =>
    match s.phase with
    | .flushing target pending n w => some (s.metaFlush target pending n w whole)
    | _ => none
  | .metaSync =>
    if s.phase = .opened then
      some (if s.head.isSteady then s.fsync.ack s.headMeta.root else s.fsync)
    else none
  | .rollback => if s.phase = .recovering then some s.rollback else none
  | .overridden whole =>
    match s.phase with
    | .overriding target => some { s.flushed whole target with phase := .recovering }
    | _ => none
  | .kill =>
    if s.phase = .opened ∨ s.phase = .recovering then
      some { s with phase := .recovering, unsynced := 0, fresh := false }
    else none
  | .crash left bootid =>
    if (∀ i, left i ∈ s.disk i) ∧ (bootid = 0 ∨ s.boots < bootid) then some (s.crashed left bootid)
    else none

/-- A database as `meta_init_triplet` makes it. -/
def Created (s : Db) : Prop :=
  (∀ i : MetaNo, s.cache i =
    ⟨⟨minTxnid + i.val, metaSignCalculate, minTxnid + i.val⟩, s.bootid, minPageno, 0⟩) ∧
  (∀ i, s.disk i = [s.cache i]) ∧ s.unsynced = 0 ∧ s.phase = .opened ∧ s.boots = s.bootid ∧
  s.fresh = false ∧ s.nextRoot = 1 ∧ s.lineage = [0] ∧ s.sealed = [0] ∧ s.intact = [0] ∧
  s.acked = [] ∧ s.reused = 0

/-- The runs of a database. -/
def system : Transition.System Db Event where
  init := Created
  step := step

end Durable

end MdbxGo
