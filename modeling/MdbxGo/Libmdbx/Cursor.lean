import Mathlib.Logic.Function.Basic
import MdbxGo.Libmdbx.Writer

/-! The cursors of libmdbx: how they are made, bound to transactions, shadowed by the transactions
nested in these, released when a transaction ends, and closed. Of a transaction only what the
cursors meet is kept. Where the source goes on to memory that was freed, or panics the process, a
call has no result. -/

namespace MdbxGo

/-- `MDBX_dbi` -/
abbrev Dbi := Nat

def freeDbi : Dbi := 0
def mainDbi : Dbi := 1

/-- The signature of a `MDBX_cursor`; memory that was freed has none. -/
inductive Signature
  | ready4dispose
  | live
  | wait4eot
deriving DecidableEq, Repr

/-- A `MDBX_cursor`. `dbi` is what its `clc` stands for; `linked` tells that `next` is not the
cursor itself; and `backup` are the shadows, each with its transaction, the latest first. -/
structure CCursor where
  signature : Signature := .ready4dispose
  txn : Option Addr := none
  dbi : Option Dbi := none
  linked : Bool := false
  backup : List (Option Addr) := []
deriving DecidableEq, Repr

/-- A `MDBX_txn`, as its cursors see it. `parents` are its parent, the parent of that, and so on;
`nested` is set with `MDBX_TXN_HAS_CHILD`; `known` are the handles whose `dbi_state` is not zero;
and `cursors` are the lists of all handles in one, the latest cursor first. -/
structure CursorTxn where
  finished : Bool := false
  readonly : Bool := false
  parents : List Addr := []
  nested : Option Addr := none
  known : List Dbi := []
  cursors : List Addr := []
deriving DecidableEq, Repr

/-- What the system below and the rest of libmdbx answer during one call. Each field belongs to the
place of the source that it is named after; `none` and `false` are the answers of a call that goes
well. -/
structure CursorSys where
  /-- `osal_calloc` in `mdbx_cursor_create` -/
  calloc : Bool := false
  /-- the exits of `check_txn` that do not look at the flags, for the transaction at an address -/
  checkTxn : Addr → Option Failure := fun _ => none
  /-- the first exit of `dbi_import`: the environment has no such handle -/
  absent : Bool := false
  /-- `dbi_check` of a handle that the transaction at an address knows -/
  dbiCheck : Addr → Option Failure := fun _ => none
  /-- the `dbi_check` of `cursor_init` -/
  dbiInit : Option Failure := none
  /-- `tbl_refresh_absent2baddbi` and `tbl_setup_ifneed` in `couple_init` -/
  refresh : Option Failure := none
  /-- `osal_malloc` in `cursor_shadow`, for the cursor at an address -/
  shadow : Addr → Bool := fun _ => false
  /-- the exits of `nested_start` before the cursors are shadowed -/
  nestedStart : Option Failure := none
  /-- what `mdbx_cursor_renew` computes from a `clc` that was never set -/
  clc : Dbi := 0

/-- The cursors and transactions by address. `closes` counts the calls of `mdbx_cursor_close` for
each cursor, which the code does not. -/
structure CursorHeap where
  cursors : Addr → Option CCursor := fun _ => none
  txns : Addr → Option CursorTxn := fun _ => none
  closes : Addr → Nat := fun _ => 0
  brk : Addr := 1

/-- `check_txn` with `MDBX_TXN_FINISHED`, and with `MDBX_TXN_HAS_CHILD` or not. -/
def CursorTxn.checkTxn (o : CursorSys) (t : Addr) (hasChild : Bool) (x : CursorTxn) : Code :=
  match o.checkTxn t with
  | some e => e.code
  | none => if x.finished || (hasChild && x.nested.isSome) then Code.badTxn else Code.success

namespace CursorHeap

def setCursor (heap : CursorHeap) (a : Addr) (c : Option CCursor) : CursorHeap :=
  { heap with cursors := Function.update heap.cursors a c }

def setTxn (heap : CursorHeap) (t : Addr) (x : Option CursorTxn) : CursorHeap :=
  { heap with txns := Function.update heap.txns t x }

/-! ### The cursors of a transaction -/

/-- `cursor_eot`. Whether a nested transaction is merged or not makes a difference for the position
of the cursor only. -/
def cursorEot (a : Addr) (heap : CursorHeap) : Option CursorHeap :=
  match heap.cursors a with
  | none => none
  | some c =>
    if c.signature = .ready4dispose then none
    else
      match c.backup with
      | shadow :: backup =>
        some (heap.setCursor a (some { c with txn := shadow, linked := true, backup }))
      | [] =>
        some (heap.setCursor a (if c.signature = .wait4eot then none
          else some { c with signature := .ready4dispose, txn := none, linked := false }))

/-- The loop of `txn_done_cursors`. -/
def eotLoop : List Addr → CursorHeap → Option CursorHeap
  | [], heap => some heap
  | a :: rest, heap => (heap.cursorEot a).bind (eotLoop rest)

/-- `txn_done_cursors` -/
def txnDoneCursors (t : Addr) (heap : CursorHeap) : Option CursorHeap :=
  (heap.txns t).bind fun x =>
    (eotLoop x.cursors heap).map (·.setTxn t (some { x with cursors := [] }))

/-- Adds a cursor to the list of a transaction. -/
def link (t a : Addr) (heap : CursorHeap) : Option CursorHeap :=
  (heap.txns t).map fun x => heap.setTxn t (some { x with cursors := a :: x.cursors })

/-- The loop of `txn_shadow_cursors` over the cursors of the parent, for the transaction `t` nested
in it. -/
def shadowLoop (o : CursorSys) (t : Addr) (dbi : Dbi) :
    List Addr → CursorHeap → Option (CursorHeap × Code)
  | [], heap => some (heap, Code.success)
  | a :: rest, heap =>
    match heap.cursors a with
    | none => none
    | some c =>
      if c.dbi ≠ some dbi then shadowLoop o t dbi rest heap
      else
        match c.signature with
        | .ready4dispose => none
        | .wait4eot => shadowLoop o t dbi rest heap
        | .live =>
          if o.shadow a then some (heap, Code.enomem)
          else
            ((heap.setCursor a (some { c with txn := some t, backup := c.txn :: c.backup })).link
              t a).bind (shadowLoop o t dbi rest)

/-- `txn_shadow_cursors` -/
def txnShadowCursors (o : CursorSys) (parent t : Addr) (dbi : Dbi) (heap : CursorHeap) :
    Option (CursorHeap × Code) :=
  (heap.txns parent).bind fun x => shadowLoop o t dbi x.cursors heap

/-- The handle is initialised in the transaction. -/
def know (t : Addr) (dbi : Dbi) (heap : CursorHeap) : Option CursorHeap :=
  (heap.txns t).map fun x => heap.setTxn t (some { x with known := dbi :: x.known })

/-- `dbi_check` of a transaction, given with its parents: a nested transaction imports a handle that
it has not used yet from its parent, and shadows the cursors there. -/
def dbiCheck (o : CursorSys) (dbi : Dbi) : List Addr → CursorHeap → Option (CursorHeap × Code)
  | [], _ => none
  | t :: parents, heap =>
    match heap.txns t with
    | none => none
    | some x =>
      if dbi ∈ x.known then some (heap, Failure.codeOf (o.dbiCheck t))
      else if o.absent then some (heap, Code.badDbi)
      else
        match parents with
        | [] => (heap.know t dbi).map fun heap => (heap, Failure.codeOf (o.dbiCheck t))
        | parent :: _ =>
          (dbiCheck o dbi parents heap).bind fun r =>
            (r.1.know t dbi).bind fun heap =>
              if r.2 != Code.success then some (heap, r.2)
              else heap.txnShadowCursors o parent t dbi

/-! ### Transactions begin and end -/

/-- `txn_alloc` of a transaction without a parent, which may be started at once. -/
def txnAlloc (readonly finished : Bool) (heap : CursorHeap) : CursorHeap :=
  { heap.setTxn heap.brk (some { readonly, finished }) with brk := heap.brk + 1 }

/-- `txn_basal_start`, and `txn_ro_start` of a transaction that was reset. -/
def txnStart (t : Addr) (heap : CursorHeap) : Option CursorHeap :=
  (heap.txns t).bind fun x =>
    if x.finished && x.parents.isEmpty then
      some (heap.setTxn t (some { x with finished := false, known := [] }))
    else none

/-- `txn_basal_end` and `txn_ro_reset`, with `txn_done_cursors` before them. -/
def txnFinish (t : Addr) (heap : CursorHeap) : Option CursorHeap :=
  (heap.txnDoneCursors t).bind fun heap =>
    (heap.txns t).bind fun x =>
      if x.nested.isNone && x.parents.isEmpty then
        some (heap.setTxn t (some { x with finished := true }))
      else none

/-- `txn_ro_free` -/
def txnRoFree (t : Addr) (heap : CursorHeap) : Option CursorHeap :=
  (heap.txnFinish t).map (·.setTxn t none)

/-- `nested_start` -/
def nestedStart (o : CursorSys) (parent t : Addr) (x : CursorTxn) (heap : CursorHeap) :
    Option (CursorHeap × Code) :=
  (heap.txns parent).bind fun p =>
    let heap := (heap.setTxn parent (some { p with nested := some t })).setTxn t
      (some { x with known := [freeDbi, mainDbi], cursors := [] })
    match o.nestedStart with
    | some e => some (heap, e.code)
    | none => heap.txnShadowCursors o parent t mainDbi

/-- The end of a nested transaction by `txn_nested_commit` or `txn_nested_abort`, which has no
other one nested in it. -/
def txnNestedEnd (t : Addr) (heap : CursorHeap) : Option CursorHeap :=
  (heap.txnDoneCursors t).bind fun heap =>
    (heap.txns t).bind fun x =>
      match x.nested, x.parents with
      | none, parent :: _ =>
        (heap.txns parent).map fun p =>
          (heap.setTxn parent (some { p with nested := none })).setTxn t none
      | _, _ => none

/-- `txn_nested_create` in a transaction that is not blocked. -/
def txnNestedCreate (o : CursorSys) (parent : Addr) (readonly : Bool) (heap : CursorHeap) :
    Option CursorHeap :=
  (heap.txns parent).bind fun p =>
    if p.finished || p.nested.isSome || p.readonly then none
    else
      (nestedStart o parent heap.brk { readonly, parents := parent :: p.parents }
          { heap with brk := heap.brk + 1 }).bind fun r =>
        if r.2 != Code.success then r.1.txnNestedEnd heap.brk else some r.1

/-- `txn_nested_checkpoint` and `txn_nested_rollback`; the latter leaves `MDBX_TXN_FINISHED`
behind. -/
def txnNestedRestart (o : CursorSys) (t : Addr) (finished : Bool) (heap : CursorHeap) :
    Option CursorHeap :=
  (heap.txnDoneCursors t).bind fun heap =>
    (heap.txns t).bind fun x =>
      match x.nested, x.parents with
      | none, parent :: _ =>
        (heap.nestedStart o parent t { x with finished }).bind fun r =>
          if r.2 != Code.success then r.1.txnNestedEnd t else some r.1
      | _, _ => none

/-- What may happen to the transactions, as far as it reaches the cursors. A transaction ends after
those that are nested in it; to use a handle is what any read or write does first. -/
inductive TxnStep
  | alloc (readonly finished : Bool)
  | start (t : Addr)
  | finish (t : Addr)
  | free (t : Addr)
  | nest (o : CursorSys) (parent : Addr) (readonly : Bool)
  | restart (o : CursorSys) (t : Addr) (finished : Bool)
  | unnest (t : Addr)
  | use (o : CursorSys) (t : Addr) (dbi : Dbi)

def txnStep (heap : CursorHeap) : TxnStep → Option CursorHeap
  | .alloc readonly finished => some (heap.txnAlloc readonly finished)
  | .start t => heap.txnStart t
  | .finish t => heap.txnFinish t
  | .free t => heap.txnRoFree t
  | .nest o parent readonly => heap.txnNestedCreate o parent readonly
  | .restart o t finished => heap.txnNestedRestart o t finished
  | .unnest t => heap.txnNestedEnd t
  | .use o t dbi =>
    (heap.txns t).bind fun x => (heap.dbiCheck o dbi (t :: x.parents)).map (·.1)

/-! ### The calls on cursors -/

/-- `mdbx_cursor_create` -/
def mdbxCursorCreate (o : CursorSys) (heap : CursorHeap) : CursorHeap × Option Addr :=
  if o.calloc then (heap, none)
  else ({ heap.setCursor heap.brk (some {}) with brk := heap.brk + 1 }, some heap.brk)

/-- The walk over the list of `t` to a cursor of the handle `dbi` gets past the cursor at `b`: it is
in the list of another handle, or has not been moved to the list of a nested transaction. -/
def passes (heap : CursorHeap) (t : Addr) (dbi : Option Dbi) (b : Addr) : Bool :=
  match heap.cursors b with
  | none => false
  | some c => c.dbi != dbi || (c.signature != .ready4dispose && c.txn == some t)

/-- Takes the cursor at `a` out of the list of its transaction. -/
def unlink (t a : Addr) (c : CCursor) (heap : CursorHeap) : Option CursorHeap :=
  if !c.linked then some heap
  else
    (heap.txns t).bind fun x =>
      if x.cursors.contains a && (x.cursors.takeWhile (· != a)).all (heap.passes t c.dbi) then
        some (heap.setTxn t (some { x with cursors := x.cursors.erase a }))
      else none

/-- One of the transactions from `t` on inwards has not used the handle yet; the number bounds how
many there are. -/
def unimported (o : CursorSys) (heap : CursorHeap) (dbi : Option Dbi) : Nat → Option Addr → Bool
  | 0, _ => false
  | _, none => false
  | n + 1, some t =>
    match heap.txns t with
    | none => false
    | some x => x.checkTxn o t false == Code.success &&
        (!dbi.all (x.known.contains ·) || heap.unimported o dbi n x.nested)

/-- `mdbx_cursor_unbind` -/
def mdbxCursorUnbind (o : CursorSys) (heap : CursorHeap) : Option Addr → Option (CursorHeap × Code)
  | none => some (heap, Code.einval)
  | some a =>
    match heap.cursors a with
    | none => none
    | some c =>
      match c.signature with
      | .ready4dispose => some (heap, Code.success)
      | .wait4eot => some (heap, Code.ebadsign)
      | .live =>
        if !c.backup.isEmpty then some (heap, Code.einval)
        else
          match c.txn with
          | none => some (heap, Code.einval)
          | some t =>
            match heap.txns t with
            | none => none
            | some x =>
              let rc := x.checkTxn o t true
              if rc != Code.success then
                some (heap, if rc == Code.badTxn && heap.unimported o c.dbi heap.brk (some t) then
                  Code.einval else rc)
              else
                (heap.unlink t a c).map fun heap =>
                  (heap.setCursor a (some { c with
                    signature := .ready4dispose, txn := none, linked := false }), Code.success)

/-- `cursor_init`, and the end of `mdbx_cursor_bind`. `couple_init` makes the cursor a live one of
the transaction before it asks for the table. -/
def cursorInit (o : CursorSys) (t a : Addr) (dbi : Dbi) (heap : CursorHeap) :
    Option (CursorHeap × Code) :=
  match o.dbiInit with
  | some e => some (heap, e.code)
  | none =>
    let c : CCursor := { signature := .live, txn := some t, dbi := some dbi }
    match o.refresh with
    | some e => some (heap.setCursor a (some c), e.code)
    | none =>
      ((heap.setCursor a (some { c with linked := true })).link t a).map fun heap =>
        (heap, Code.success)

/-- `mdbx_cursor_bind` after its checks. -/
def bindChecked (o : CursorSys) (t a : Addr) (dbi : Dbi) (heap : CursorHeap) :
    Option (CursorHeap × Code) :=
  match heap.cursors a with
  | none => none
  | some c =>
    if c.signature = .live then
      if c.txn = some t ∧ c.dbi = some dbi then some (heap, Code.success)
      else if !c.backup.isEmpty then some (heap, Code.einval)
      else
        (heap.mdbxCursorUnbind o (some a)).bind fun r =>
          if r.2 != Code.success then
            some (r.1, if r.2 == Code.badTxn then Code.einval else r.2)
          else r.1.cursorInit o t a dbi
    else heap.cursorInit o t a dbi

/-- `mdbx_cursor_bind` -/
def mdbxCursorBind (o : CursorSys) (txn : Option Addr) (dbi : Dbi) (heap : CursorHeap) :
    Option Addr → Option (CursorHeap × Code)
  | none => some (heap, Code.einval)
  | some a =>
    match heap.cursors a with
    | none => none
    | some c =>
      if c.signature = .wait4eot then some (heap, Code.einval)
      else
        match txn with
        | none => some (heap, Code.einval)
        | some t =>
          match heap.txns t with
          | none => none
          | some x =>
            let rc := x.checkTxn o t true
            if rc != Code.success then some (heap, rc)
            else if dbi == freeDbi && (!x.readonly || !x.parents.isEmpty) then
              some (heap, Code.eaccess)
            else
              (heap.dbiCheck o dbi (t :: x.parents)).bind fun r =>
                if r.2 != Code.success then some r else r.1.bindChecked o t a dbi

/-- `mdbx_cursor_renew`, which asks the transaction for its environment before it looks at it. -/
def mdbxCursorRenew (o : CursorSys) (txn : Option Addr) (heap : CursorHeap) :
    Option Addr → Option (CursorHeap × Code)
  | none => some (heap, Code.einval)
  | some a =>
    match heap.cursors a, txn.bind heap.txns with
    | some c, some _ => heap.mdbxCursorBind o txn (c.dbi.getD o.clc) (some a)
    | _, _ => none

/-- `mdbx_cursor_close2` -/
def mdbxCursorClose2 (o : CursorSys) (a : Addr) (heap : CursorHeap) : Option (CursorHeap × Code) :=
  match heap.cursors a with
  | none => none
  | some c =>
    match c.signature with
    | .ready4dispose =>
      if c.txn.isSome || !c.backup.isEmpty then some (heap, Code.panic)
      else some (heap.setCursor a none, Code.success)
    | .wait4eot => some (heap, Code.ebadsign)
    | .live =>
      match c.txn with
      | none => some (heap, Code.einval)
      | some t =>
        match heap.txns t with
        | none => none
        | some x =>
          let rc := x.checkTxn o t false
          if rc != Code.success then some (heap, rc)
          else if !c.backup.isEmpty then
            some (heap.setCursor a (some { c with signature := .wait4eot }), Code.success)
          else (heap.unlink t a c).map fun heap => (heap.setCursor a none, Code.success)

/-- `mdbx_cursor_close`, which panics the process for any error. -/
def mdbxCursorClose (o : CursorSys) (heap : CursorHeap) : Option Addr → Option CursorHeap
  | none => some heap
  | some a =>
    (heap.mdbxCursorClose2 o a).bind fun r =>
      if r.2 != Code.success then none
      else some { r.1 with closes := Function.update r.1.closes a (r.1.closes a + 1) }

/-- `mdbx_cursor_open`, with what it leaves in `*ret`. -/
def mdbxCursorOpen (o : CursorSys) (txn : Option Addr) (dbi : Dbi) (heap : CursorHeap) :
    Option (CursorHeap × Code × Option Addr) :=
  match heap.mdbxCursorCreate o with
  | (heap, none) => some (heap, Code.enomem, none)
  | (heap, some a) =>
    (heap.mdbxCursorBind o txn dbi (some a)).bind fun r =>
      if r.2 != Code.success then (r.1.mdbxCursorClose o (some a)).map fun heap => (heap, r.2, none)
      else some (r.1, Code.success, some a)

end CursorHeap

end MdbxGo
