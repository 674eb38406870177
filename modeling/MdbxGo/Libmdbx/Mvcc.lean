import Mathlib.Data.List.Perm.Basic
import Mathlib.Data.List.FinRange
import MdbxGo.Threads
import MdbxGo.Libmdbx.Reader
import MdbxGo.Libmdbx.Troika

/-! The readers' table and the oldest snapshot in use: any number of read transactions that start,
park, resume and end beside the writer, which updates the meta pages, scans the table and ousts
parked readers. Each load, store and compare-and-swap of a shared word is a step of its own, in
sequentially consistent order. The readers' processes live, and no `hsr_callback` is set. -/

namespace MdbxGo

namespace Mvcc

/-! ### The shared memory -/

/-- `rdt_refresh_flag`: `NOTHING_CHANGED_SIGNATURE`, `true`, or the `false` of a commit. -/
inductive Refresh
  | nothing
  | yes
  | no
deriving DecidableEq, Repr

/-- `reader_slot_t`. `pid` holds the number of the thread whose transaction has the slot, and
`txnid` nothing for a value from `SAFE64_INVALID_THRESHOLD` on. -/
structure Slot where
  pid : Option Nat := none
  tid : SlotTid := .owner
  txnid : Option Nat := none
deriving DecidableEq, Repr

/-- A store to one word of a meta page. -/
inductive Store
  | txnidA (i : MetaNo) (v : Nat)
  | sign (i : MetaNo) (v : Nat)
  | txnidB (i : MetaNo) (v : Nat)
deriving DecidableEq, Repr

/-- What `mvcc_snapshot_oldest_rw` was called for. -/
inductive Goal
  | info
  | detent
  | laggards (straggler : Nat)
deriving DecidableEq, Repr

/-- Where the holder of the writer lock stands, with the locals of the function that it runs. -/
inductive Writer
  | free
  | txn
  -- dxb_sync_locked, meta_wipe_steady
  | storing (todo : List Store) (after : Refresh)
  -- mvcc_snapshot_oldest_rw
  | prev (g : Goal)
  | test (g : Goal) (prev oldest : Nat)
  | mark (g : Goal) (prev : Nat)
  | length (g : Goal) (prev : Nat)
  | scan (g : Goal) (prev oldest n i : Nat)
  | look (g : Goal) (prev oldest n i : Nat)
  | again (g : Goal) (prev oldest n i : Nat) (seen : Option Nat)
  | stuck (g : Goal) (prev oldest n i seen : Nat)
  | drop (g : Goal) (prev oldest n i seen : Nat)
  | publish (g : Goal) (prev oldest : Nat)
  -- mvcc_kick_laggards
  | lag (straggler oldest i : Nat)
  | lagPid (straggler oldest i : Nat)
  | lagTid (straggler oldest i : Nat)
  | lagSwap (straggler oldest i : Nat)
  | oust (straggler oldest i : Nat)
deriving DecidableEq, Repr

/-- The lock file, the meta pages and what the holder of the writer lock keeps in `basal_txn`. -/
structure Env where
  metas : MetaNo → MetaWords
  cachedOldest : Nat
  refresh : Refresh := .nothing
  slots : List Slot := []
  maxReaders : Nat
  holder : Option Nat := none
  writer : Writer := .free
  troika : MetaNo → MetaSnap
  detent : Nat := 0

def Store.apply (metas : MetaNo → MetaWords) : Store → MetaNo → MetaWords
  | .txnidA i v => Function.update metas i { metas i with txnidA := v }
  | .sign i v => Function.update metas i { metas i with sign := v }
  | .txnidB i v => Function.update metas i { metas i with txnidB := v }

def applyAll (metas : MetaNo → MetaWords) (todo : List Store) : MetaNo → MetaWords :=
  todo.foldl Store.apply metas

namespace Env

def setSlot (e : Env) (j : Nat) (f : Slot → Slot) : Env := { e with slots := e.slots.modify j f }

def withRefresh (e : Env) (r : Refresh) : Env := { e with refresh := r }

def withWriter (e : Env) (w : Writer) : Env := { e with writer := w }

/-- `safe64_reset_compare` -/
def resetCompare (e : Env) (j seen : Nat) : Env :=
  e.setSlot j fun s => if s.txnid = some seen then { s with txnid := none } else s

end Env

/-! ### The loads of a tap -/

/-- The word that load `k` of `meta_tap` reads: `txnid_a`, the sign and `txnid_b` of each page. -/
def word (metas : MetaNo → MetaWords) (k : Nat) : Nat :=
  let m := metas (Fin.ofNat 3 (k / 3))
  if k % 3 = 0 then m.txnidA else if k % 3 = 1 then m.sign else m.txnidB

/-- The snapshots that `meta_tap` makes of its nine loads. -/
def tapOf (loads : List Nat) : MetaNo → MetaSnap := fun i =>
  metaSnap ⟨loads.getD (3 * i.val) 0, loads.getD (3 * i.val + 1) 0, loads.getD (3 * i.val + 2) 0⟩

/-- The id of the page that a tap takes for the head. -/
def headOf (loads : List Nat) : Nat := recentOf (tapOf loads)

/-! ### Readers -/

/-- Where a read transaction stands in `ro_seize`, after its first tap. -/
inductive Seize
  | reset
  | write
  | refresh
  | tap (again : List Nat)
  | fetch
  | oldest
  | verify
deriving DecidableEq, Repr

/-- Where a read transaction stands in `txn_ro_park`, `txn_ro_unpark` and `ro_slot_clean`, with the
values it has loaded. -/
inductive Pass
  | parkTid
  | parkTxnid (tid : SlotTid)
  | parkStore
  | parkFlag
  | unparkTid
  | unparkTxnid (tid : SlotTid)
  | unparkSwap
  | unparkedTxnid
  | unparkedTid (txnid : Option Nat)
  | ensure
deriving DecidableEq, Repr

/-- The same for what `ro_slot_clean` does after it has looked at the transaction. -/
inductive Clean
  | tid
  | reset
  | owner
  | waitTxnid
  | waitTid
  | last
  | flag
deriving DecidableEq, Repr

/-- Where a read transaction with `MDBX_TXN_ERROR` stands after `txn_ro_park` has called
`ro_slot_clean` for it: its slot is cleaned, and its flags stay as they were. -/
inductive Failed
  | ensure
  | last
  | flag
  | stale
  | parkTid
  | parkTxnid (tid : SlotTid)
  | again
deriving DecidableEq, Repr

/-- A thread of the system: the holder-to-be of the writer lock, or a read transaction with the
number of its slot. `t` is the `txnid` of the transaction. -/
inductive Thread
  | writer
  | out
  | bound (j : Nat)
  | tap (j : Nat) (loads : List Nat)
  | seize (j loop : Nat) (loads : List Nat) (at_ : Seize)
  | running (j t : Nat)
  | parked (j t : Nat)
  | pass (j t : Nat) (at_ : Pass)
  | clean (j : Nat) (at_ : Clean)
  | failed (j t : Nat) (at_ : Failed)
  -- MDBX_BAD_RSLOT, the ERROR of txn_ro_unpark, or a failed ENSURE, for a transaction whose slot
  -- has not been cleaned
  | broken (j : Nat)
  -- a failed ENSURE for one whose slot has
  | panicked (j : Nat)
deriving DecidableEq, Repr

/-- What `coherency_fetch_head` may find. -/
inductive Fetched
  | ok
  | retry
  | fail
deriving DecidableEq, Repr

/-- What the holder of the writer lock may do next. `order` is the order in which the words of a
meta image arrive by `pwrite`; none stands for the stores of `MDBX_WRITEMAP`. -/
inductive Op
  | commit (txnid sign : Nat) (order : Option (List Store))
  | steady (order : Option (List Store))
  | wipe
  | force
  | info
  | detent
  | kick
  | unlock
deriving DecidableEq, Repr

/-- What the code leaves to its callers, to the system below it or to chance. `error` is that
`MDBX_TXN_ERROR` is found. -/
inductive Choice
  | next
  | retry
  | error
  | bind
  | release
  | begin
  | reset
  | park
  | unpark
  | fetched (f : Fetched)
  | lock
  | op (o : Op)
deriving DecidableEq, Repr

/-- `mvcc_bind_slot`, under the lock of the table: the first free slot, or one more. -/
def bindSlot (e : Env) (me : Nat) : Option (Env × Nat) :=
  let j := e.slots.findIdx fun s => s.pid.isNone
  if j < e.slots.length then
    some ({ e with slots := e.slots.set j { pid := some me } }, j)
  else if j < e.maxReaders then
    some ({ e with slots := e.slots ++ [{ pid := some me }] }, j)
  else none

/-- The next round of the loop of `ro_seize`, with the pages that were tapped last. -/
def nextRound (j loop : Nat) (loads : List Nat) : Thread :=
  if loop + 1 < 42 then .seize j (loop + 1) loads .reset else .clean j .tid

/-- `ro_seize` on the slot `j`, after its first tap. -/
def seizeStep (e : Env) (j loop : Nat) (loads : List Nat) :
    Seize → Choice → Option (Env × Thread)
  | .reset, .next =>
    some (e.setSlot j fun s => { s with txnid := none }, .seize j loop loads .write)
  | .write, .next =>
    some (e.setSlot j fun s => { s with txnid := some (headOf loads) },
      .seize j loop loads .refresh)
  | .refresh, .next => some (e.withRefresh .yes, .seize j loop loads (.tap []))
  | .tap again, .next =>
    if again.length < 9 then
      some (e, .seize j loop loads (.tap (again ++ [word e.metas again.length])))
    else if (metaTap (tapOf loads)).shouldRetry (metaTap (tapOf again)) then
      some (e, nextRound j loop again)
    else some (e, .seize j loop again .fetch)
  | .fetch, .fetched .ok => some (e, .seize j loop loads .oldest)
  | .fetch, .fetched .retry => some (e, nextRound j loop loads)
  | .fetch, .fetched .fail => some (e, .clean j .tid)
  | .oldest, .next =>
    if headOf loads < e.cachedOldest then some (e, nextRound j loop loads)
    else some (e, .seize j loop loads .verify)
  | .verify, .next => do
    let s ← e.slots[j]?
    if s.txnid = some (headOf loads) then some (e, .running j (headOf loads))
    else some (e, nextRound j loop loads)
  | _, _ => none

/-- `txn_ro_park`, `txn_ro_unpark` and the first part of `ro_slot_clean`. -/
def passStep (e : Env) (j t : Nat) : Pass → Choice → Option (Env × Thread)
  | .parkTid, .next => do
    let s ← e.slots[j]?
    some (e, .pass j t (.parkTxnid s.tid))
  | .parkTxnid tid, .next => do
    let s ← e.slots[j]?
    if tid ≠ .owner ∨ s.txnid ≠ some t then some (e, .broken j)
    else some (e, .pass j t .parkStore)
  | .parkTxnid tid, .error => do
    let s ← e.slots[j]?
    if tid ≠ .owner ∨ s.txnid ≠ some t then some (e, .broken j)
    else some (e, .failed j t .ensure)
  | .parkStore, .next =>
    some (e.setSlot j fun s => { s with tid := .parked }, .pass j t .parkFlag)
  | .parkFlag, .next => some (e.withRefresh .yes, .parked j t)
  | .unparkTid, .next => do
    let s ← e.slots[j]?
    some (e, .pass j t (.unparkTxnid s.tid))
  | .unparkTxnid tid, .next => do
    let s ← e.slots[j]?
    if tid = .ousted ∨ s.txnid = none then some (e, .clean j .tid)
    else if tid ≠ .parked ∨ s.txnid ≠ some t then some (e, .broken j)
    else some (e, .pass j t .unparkSwap)
  | .unparkTxnid tid, .error => do
    let s ← e.slots[j]?
    if tid = .ousted ∨ s.txnid = none then some (e, .clean j .tid)
    else if tid ≠ .parked ∨ s.txnid ≠ some t then some (e, .broken j)
    else some (e, .clean j .tid)
  | .unparkSwap, .next => do
    let s ← e.slots[j]?
    if s.tid = .parked then
      some (e.setSlot j fun s => { s with tid := .owner }, .pass j t .unparkedTxnid)
    else some (e, .pass j t .unparkTid)
  | .unparkedTxnid, .next => do
    let s ← e.slots[j]?
    some (e, .pass j t (.unparkedTid s.txnid))
  | .unparkedTid txnid, .next => do
    let s ← e.slots[j]?
    if txnid ≠ some t ∨ s.tid ≠ .owner then some (e, .broken j) else some (e, .running j t)
  | .ensure, .next =>
    if t < e.cachedOldest then some (e, .broken j) else some (e, .clean j .last)
  | _, _ => none

/-- `ro_slot_clean`; from `tid` on for a transaction that is flagged as parked. -/
def cleanStep (e : Env) (j : Nat) : Clean → Choice → Option (Env × Thread)
  | .tid, .next => some (e, .clean j .reset)
  | .reset, .next => some (e.setSlot j fun s => { s with txnid := none }, .clean j .owner)
  | .owner, .next => some (e.setSlot j fun s => { s with tid := .owner }, .clean j .waitTxnid)
  | .waitTxnid, .next => do
    let s ← e.slots[j]?
    some (e, .clean j (if s.txnid.isSome then .reset else .waitTid))
  | .waitTid, .next => do
    let s ← e.slots[j]?
    some (e, .clean j (if s.tid ≠ .owner then .reset else .last))
  | .last, .next => some (e.setSlot j fun s => { s with txnid := none }, .clean j .flag)
  | .flag, .next => some (e.withRefresh .yes, .bound j)
  | _, _ => none

/-- `ro_slot_clean` for a transaction that `txn_ro_park` has found to be in error, and what becomes
of it: it may be parked again, which the words of its slot prevent, or be reset, where its id is
compared with an oldest snapshot that nothing holds back for it any more. -/
def failedStep (e : Env) (j t : Nat) : Failed → Choice → Option (Env × Thread)
  | .ensure, .next =>
    if t < e.cachedOldest then some (e, .broken j) else some (e, .failed j t .last)
  | .last, .next =>
    some (e.setSlot j fun s => { s with txnid := none }, .failed j t .flag)
  | .flag, .next => some (e.withRefresh .yes, .failed j t .stale)
  | .stale, .park => some (e, .failed j t .parkTid)
  | .stale, .reset => some (e, .failed j t .again)
  | .parkTid, .next => do
    let s ← e.slots[j]?
    some (e, .failed j t (.parkTxnid s.tid))
  | .parkTxnid tid, .next => do
    let s ← e.slots[j]?
    if tid ≠ .owner ∨ s.txnid ≠ some t then some (e, .failed j t .stale)
    else some (e, .failed j t .ensure)
  | .again, .next =>
    if t < e.cachedOldest then some (e, .panicked j) else some (e, .clean j .last)
  | _, _ => none

/-- A read transaction of the thread `me`. -/
def readerStep (e : Env) (me : Nat) : Thread → Choice → Option (Env × Thread)
  | .out, .bind => (bindSlot e me).map fun r => (r.1, .bound r.2)
  | .bound j, .release =>
    some (e.setSlot j fun s => { s with pid := none, txnid := none }, .out)
  | .bound j, .begin => some (e, .tap j [])
  | .tap j loads, .next =>
    if loads.length < 9 then some (e, .tap j (loads ++ [word e.metas loads.length]))
    else some (e, .seize j 0 loads .reset)
  | .seize j loop loads at_, c => seizeStep e j loop loads at_ c
  | .running j t, .reset => some (e, .pass j t .ensure)
  | .running j t, .park => some (e, .pass j t .parkTid)
  | .parked j t, .unpark => some (e, .pass j t .unparkTid)
  | .parked j _, .reset => some (e, .clean j .tid)
  | .pass j t at_, c => passStep e j t at_ c
  | .clean j at_, c => cleanStep e j at_ c
  | .failed j t at_, c => failedStep e j t at_ c
  | _, _ => none

/-! ### The writer -/

/-- The stores that put an image with an id and a sign on a page. -/
def imageStores (i : MetaNo) (txnid sign : Nat) (order : Option (List Store)) :
    Option (List Store) :=
  match order with
  | none => some [.txnidB i 0, .txnidA i txnid, .sign i datasignWeak, .txnidB i txnid, .sign i sign]
  | some order =>
    if order.Perm [.txnidA i txnid, .sign i sign, .txnidB i txnid] then some order else none

/-- The stores of `dxb_sync_locked` for a transaction newer than the head: they go to the tail. -/
def commitStores (e : Env) (txnid sign : Nat) (order : Option (List Store)) : Option (List Store) :=
  if recentOf e.troika < txnid ∧ txnid ≤ lastTxnid ∧
      (sign = datasignWeak ∨ sign = metaSignCalculate) then
    imageStores (metaTap e.troika).metaTail.no txnid sign order
  else none

/-- The stores of `dxb_sync_locked` for the head itself: a weak head is signed in its place. -/
def steadyStores (e : Env) (order : Option (List Store)) : Option (List Store) :=
  let head := (metaTap e.troika).metaRecent
  if head.isSteady then none
  else match order with
    | none => some [.sign head.no metaSignCalculate]
    | some _ => imageStores head.no head.txnid metaSignCalculate order

/-- The stores of `meta_wipe_steady(detent)`, which `gc_alloc_ex` calls in `MDBX_UTTERLY_NOSYNC`
mode when the last steady page holds it up. -/
def wipeStores (e : Env) : Option (List Store) :=
  let troika := metaTap e.troika
  if troika.metaRecent.no ≠ troika.metaPreferSteady.no ∧ troika.metaPreferSteady.isSteady ∧
      e.detent = troika.metaPreferSteady.txnid then
    some (((List.finRange 3).filter fun i =>
      signIsSteady (e.metas i).sign && decide (constmetaTxnid (e.metas i) ≤ e.detent)).map
        (Store.sign · datasignNone))
  else none

/-- What follows `mvcc_snapshot_oldest_rw`. -/
def finish (e : Env) (oldest : Nat) : Goal → Env
  | .info => e.withWriter .txn
  | .detent => { e with detent := oldest, writer := .txn }
  | .laggards straggler =>
    if oldest = steadyOf e.troika ∨ straggler < oldest then e.withWriter .txn
    else e.withWriter (.lag straggler oldest 0)

/-- What the holder of the writer lock does between two calls. -/
def opStep (e : Env) : Op → Option Env
  | .commit txnid sign order =>
    (commitStores e txnid sign order).map fun todo => e.withWriter (.storing todo .no)
  | .steady order => (steadyStores e order).map fun todo => e.withWriter (.storing todo .no)
  | .wipe => (wipeStores e).map fun todo => e.withWriter (.storing todo .yes)
  | .force => some (e.withRefresh .yes)
  | .info => some (e.withWriter (.prev .info))
  | .detent => some (e.withWriter (.prev .detent))
  | .kick =>
    if e.detent < recentOf e.troika then
      some ((e.withRefresh .yes).withWriter (.prev (.laggards e.detent)))
    else none
  | .unlock => some { e with writer := .free, holder := none }

/-- `mvcc_snapshot_oldest_rw` and `mvcc_kick_laggards`, and the stores to the meta pages. -/
def writerStep (e : Env) (me : Nat) : Writer → Choice → Option Env
  | .free, .lock =>
    if recentOf (snaps e.metas) + 1 ≤ lastTxnid then
      some { e with holder := some me, writer := .txn, troika := snaps e.metas, detent := 0 }
    else none
  | .txn, .op o => opStep e o
  | .storing (st :: todo) after, .next =>
    some { e with metas := st.apply e.metas, writer := .storing todo after }
  | .storing [] after, .next =>
    some { e with refresh := after, troika := snaps e.metas, writer := .txn }
  | .prev g, .next => some (e.withWriter (.test g e.cachedOldest e.cachedOldest))
  | .test g prev oldest, .next =>
    if e.refresh ≠ .nothing then some (e.withWriter (.mark g prev))
    else if oldest ≠ prev then some (e.withWriter (.publish g prev oldest))
    else some (finish e oldest g)
  | .mark g prev, .next => some ((e.withRefresh .nothing).withWriter (.length g prev))
  | .length g prev, .next =>
    some (e.withWriter (.scan g prev (steadyOf e.troika) e.slots.length 0))
  | .scan g prev oldest n i, .next =>
    if i < n then do
      let s ← e.slots[i]?
      if s.pid.isNone then some (e.withWriter (.scan g prev oldest n (i + 1)))
      else some (e.withWriter (.look g prev oldest n i))
    else some (e.withWriter (.test g prev oldest))
  | .look g prev oldest n i, .next => do
    let s ← e.slots[i]?
    some (e.withWriter (.again g prev oldest n i s.txnid))
  -- snapshot_pages_retired has changed
  | .again g prev oldest n i _, .retry => some (e.withWriter (.scan g prev oldest n i))
  | .again g prev oldest n i seen, .next => do
    let s ← e.slots[i]?
    if s.txnid ≠ seen then some (e.withWriter (.scan g prev oldest n i))
    else match seen with
      | none => some (e.withWriter (.scan g prev oldest n (i + 1)))
      | some v =>
        if v < prev then some (e.withWriter (.stuck g prev oldest n i v))
        else if v < oldest then
          if v = prev then some (e.withWriter (.test g prev v))
          else some (e.withWriter (.scan g prev v n (i + 1)))
        else some (e.withWriter (.scan g prev oldest n (i + 1)))
  | .stuck g prev oldest n i seen, .next =>
    if e.refresh = .nothing then some (e.withWriter (.drop g prev oldest n i seen))
    else some (e.withWriter (.scan g prev oldest n (i + 1)))
  | .drop g prev oldest n i seen, .next =>
    some ((e.resetCompare i seen).withWriter (.scan g prev oldest n (i + 1)))
  | .publish g _ oldest, .next => some (finish { e with cachedOldest := oldest } oldest g)
  | .lag straggler oldest i, .next =>
    if i < e.slots.length then do
      let s ← e.slots[i]?
      if s.txnid = some oldest then some (e.withWriter (.lagPid straggler oldest i))
      else some (e.withWriter (.lag straggler oldest (i + 1)))
    else some (e.withWriter .txn)
  -- the reader that was found stuck has moved
  | .lag straggler _ i, .retry =>
    if i < e.slots.length then none
    else some ((e.withRefresh .yes).withWriter (.prev (.laggards straggler)))
  | .lagPid straggler oldest i, .next => do
    let s ← e.slots[i]?
    if s.pid.isNone then some (e.withWriter (.lag straggler oldest (i + 1)))
    else some (e.withWriter (.lagTid straggler oldest i))
  | .lagTid straggler oldest i, .next => do
    let s ← e.slots[i]?
    if s.tid = .parked then some (e.withWriter (.lagSwap straggler oldest i))
    else some (e.withWriter (.lag straggler oldest (i + 1)))
  | .lagSwap straggler oldest i, .next => do
    let s ← e.slots[i]?
    if s.tid = .parked then
      some ((e.setSlot i fun s => { s with tid := .ousted }).withWriter (.oust straggler oldest i))
    else some (e.withWriter (.lag straggler oldest i))
  | .oust straggler oldest i, .next =>
    some ((e.resetCompare i oldest).withWriter (.lag straggler oldest (i + 1)))
  | _, _ => none

/-! ### The system -/

/-- An environment that has just been opened, before any transaction. -/
structure Opened (e : Env) : Prop where
  slots : e.slots = []
  free : e.writer = .free
  holder : e.holder = none
  oldest : e.cachedOldest ≤ steadyOf (snaps e.metas)
  detent : e.detent = 0

/-- The threads of all processes that have the environment open: those that write and those that
read. Who holds the writer lock is one of the former. -/
def program : Program Env Thread Bool Choice where
  init e := Opened e
  start writes := if writes then .writer else .out
  step e me p c :=
    match p with
    | .writer =>
      if e.holder = none ∨ e.holder = some me then
        (writerStep e me e.writer c).map fun e' => (e', .writer, [])
      else none
    | p => (readerStep e me p c).map fun r => (r.1, r.2, [])

end Mvcc

end MdbxGo
