import Mathlib.Data.List.Nodup
import MdbxGo.Owned
import MdbxGo.Transition
import MdbxGo.Libmdbx.Settling
import MdbxGo.Mdbx.Txn

/-! The cursors of the Go package: the calls that open, bind, unbind and close them, the pool that
they are kept in for the next use, and who owns the cursors of libmdbx. -/

namespace MdbxGo

/-- A Go `Cursor`; `ptr` is `_c`. -/
structure GoCursor where
  ptr : Option Addr := none
  txn : Option Handle := none
deriving DecidableEq, Repr

/-- An error of these calls: one of `errors.New`, or one of `operrno`. -/
inductive CursorError
  | new (msg : String)
  | of (e : GoError)
deriving DecidableEq, Repr

/-- How a call ends: with its error and its `Cursor`, or in a panic. -/
inductive CursorReply
  | returned (err : Option CursorError) (cursor : Option Handle)
  | panicked (msg : String)
deriving DecidableEq, Repr

/-- All Go cursors, with the pool of the process. Of a Go `Txn` its `_txn` is kept. -/
structure Cursors where
  heap : CursorHeap := {}
  cursors : Handle → GoCursor := fun _ => {}
  next : Handle := 0
  txns : Handle → Option Addr := fun _ => none
  pool : List Handle := []

namespace Cursors

def setCursor (w : Cursors) (c : Handle) (x : GoCursor) : Cursors :=
  { w with cursors := Function.update w.cursors c x }

/-- A new Go `Cursor`, at `w.next`. -/
def alloc (w : Cursors) : Cursors := { w.setCursor w.next {} with next := w.next + 1 }

def nilDereference : String := "runtime error: invalid memory address or nil pointer dereference"

/-- `Cursor.Open` -/
def cursorOpen (o : CursorSys) (c txn : Option Handle) (db : Dbi) (w : Cursors) :
    Option (Cursors × Option CursorError) :=
  match c with
  | none =>
    some (w, some (.new
      "mdbx.Cursor.Open: nil cursor: Open initializes in place, so it needs an addressable Cursor"))
  | some c =>
    if (txn.bind w.txns).isNone then some (w, some (.new "mdbx.Cursor.Open: nil transaction"))
    else if (w.cursors c).ptr.isSome then
      some (w, some (.new "mdbx.Cursor.Open: cursor is already open"))
    else
      (w.heap.mdbxCursorOpen o (txn.bind w.txns) db).map fun (heap, ret, ptr) =>
        if ret != Code.success then
          ({ w with heap }.setCursor c { w.cursors c with ptr },
            (operrno "mdbx_cursor_open" ret).map .of)
        else ({ w with heap }.setCursor c { ptr, txn }, none)

/-- `openCursor` and `Txn.OpenCursor` -/
def openCursor (o : CursorSys) (txn : Option Handle) (db : Dbi) (w : Cursors) :
    Option (Cursors × CursorReply) :=
  (w.alloc.cursorOpen o (some w.next) txn db).map fun r =>
    (r.1, if r.2.isSome then .returned r.2 none else .returned none (some w.next))

/-- `Cursor.Renew` and `Cursor.Bind`, by the call of libmdbx with the transaction and the cursor. -/
def associate (op : String)
    (call : CursorHeap → Option Addr → Option Addr → Option (CursorHeap × Code))
    (c txn : Option Handle) (w : Cursors) : Option (Cursors × CursorReply) :=
  match c, txn with
  | some c, some t =>
    (call w.heap (w.txns t) (w.cursors c).ptr).map fun (heap, ret) =>
      if ret != Code.success then ({ w with heap }, .returned ((operrno op ret).map .of) none)
      else ({ w with heap }.setCursor c { w.cursors c with txn := some t }, .returned none none)
  | _, _ => some (w, .panicked nilDereference)

/-- `Cursor.Renew` -/
def renew (o : CursorSys) (c txn : Option Handle) (w : Cursors) : Option (Cursors × CursorReply) :=
  w.associate "mdbx_cursor_renew" (fun heap txn mc => heap.mdbxCursorRenew o txn mc) c txn

/-- `Cursor.Bind` -/
def bind (o : CursorSys) (c txn : Option Handle) (db : Dbi) (w : Cursors) :
    Option (Cursors × CursorReply) :=
  w.associate "mdbx_cursor_bind" (fun heap txn mc => heap.mdbxCursorBind o txn db mc) c txn

/-- `Cursor.Unbind` of a cursor that is not nil. -/
def unbind (o : CursorSys) (c : Handle) (w : Cursors) : Option (Cursors × Option CursorError) :=
  (w.heap.mdbxCursorUnbind o (w.cursors c).ptr).map fun (heap, ret) =>
    if ret != Code.success then ({ w with heap }, (operrno "mdbx_cursor_unbind" ret).map .of)
    else ({ w with heap }.setCursor c { w.cursors c with txn := none }, none)

/-- `Cursor.Close` of a cursor that is not nil. -/
def close (o : CursorSys) (c : Handle) (w : Cursors) : Option Cursors :=
  if (w.cursors c).ptr.isNone then some w
  else
    (w.heap.mdbxCursorClose o (w.cursors c).ptr).map fun heap =>
      { w with heap }.setCursor c { ptr := none, txn := none }

/-- `CreateCursor` -/
def createCursor (o : CursorSys) (w : Cursors) : Cursors × CursorReply :=
  let r := w.heap.mdbxCursorCreate o
  let made := { w.alloc with heap := r.1 }.setCursor w.next { ptr := r.2 }
  if r.2.isNone then (made, .panicked "mdbx.CreateCursor: OOM")
  else (made, .returned none (some w.next))

/-- `CursorFromPool`: `Get` takes any cursor that is in the pool, or calls `New`, which it may do
while the pool is not empty. -/
def cursorFromPool (o : CursorSys) (choice : Option Handle) (w : Cursors) :
    Option (Cursors × CursorReply) :=
  match choice with
  | none => some (w.createCursor o)
  | some c =>
    if c ∈ w.pool then some ({ w with pool := w.pool.erase c }, .returned none (some c)) else none

/-- `CursorToPool` of a cursor that is not nil. -/
def cursorToPool (o : CursorSys) (c : Handle) (w : Cursors) : Option Cursors :=
  if (w.cursors c).ptr.isNone then some w
  else
    (w.unbind o c).bind fun r =>
      if r.2.isSome then r.1.close o c else some { r.1 with pool := c :: r.1.pool }

/-- The calls that the property is about. A caller may declare a `Cursor` of its own to open;
meanwhile the transactions go on, and the methods of a Go `Txn` change its `_txn`. -/
inductive Event
  | declare
  | cursorOpen (o : CursorSys) (c txn : Option Handle) (db : Dbi)
  | openCursor (o : CursorSys) (txn : Option Handle) (db : Dbi)
  | createCursor (o : CursorSys)
  | renew (o : CursorSys) (c txn : Option Handle)
  | bind (o : CursorSys) (c txn : Option Handle) (db : Dbi)
  | unbind (o : CursorSys) (c : Option Handle)
  | close (o : CursorSys) (c : Option Handle)
  | cursorFromPool (o : CursorSys) (choice : Option Handle)
  | cursorToPool (o : CursorSys) (c : Option Handle)
  | txn (s : CursorHeap.TxnStep)
  | setTxn (t : Handle) (p : Option Addr)

/-- The `Cursor` that the caller passes. -/
def Event.cursor : Event → Option Handle
  | .cursorOpen _ c _ _ | .renew _ c _ | .bind _ c _ _ | .unbind _ c | .close _ c
  | .cursorToPool _ c => c
  | _ => none

/-- What an event does; it cannot happen where its call goes on to memory that was freed, or
panics the process. -/
def act (w : Cursors) : Event → Option (Cursors × CursorReply)
  | .declare => some (w.alloc, .returned none (some w.next))
  | .cursorOpen o c txn db => (w.cursorOpen o c txn db).map fun r => (r.1, .returned r.2 none)
  | .openCursor o txn db => w.openCursor o txn db
  | .createCursor o => some (w.createCursor o)
  | .renew o c txn => w.renew o c txn
  | .bind o c txn db => w.bind o c txn db
  | .unbind _ none => some (w, .panicked nilDereference)
  | .unbind o (some c) => (w.unbind o c).map fun r => (r.1, .returned r.2 none)
  | .close _ none => some (w, .returned none none)
  | .close o (some c) => (w.close o c).map fun w => (w, .returned none none)
  | .cursorFromPool o choice => w.cursorFromPool o choice
  | .cursorToPool _ none => some (w, .returned none none)
  | .cursorToPool o (some c) => (w.cursorToPool o c).map fun w => (w, .returned none none)
  | .txn s => (w.heap.txnStep s).map fun heap => ({ w with heap }, .returned none none)
  | .setTxn t p => some ({ w with txns := Function.update w.txns t p }, .returned none none)

/-- A caller passes only cursors that were made. -/
def step (w : Cursors) (e : Event) : Option (Cursors × CursorReply) :=
  if e.cursor.all (· < w.next) then w.act e else none

/-- Runs of any calls, from a process that has no cursor yet. -/
def system : Transition.System Cursors Event where
  init w := w = {}
  step w e := (w.step e).map (·.1)

/-- The caller does not use a cursor that it has given to `CursorToPool`. -/
def Kept (w : Cursors) (e : Event) : Prop := ∀ c, e.cursor = some c → c ∉ w.pool

instance (w : Cursors) (e : Event) : Decidable (Kept w e) :=
  match h : e.cursor with
  | none => .isTrue fun c hc => by rw [h] at hc; cases hc
  | some c => decidable_of_iff (c ∉ w.pool) (by simp [Kept, h])

/-! ### What holds between two calls -/

/-- A Go `Cursor` that may be handed out: open, unbound in libmdbx, and with no `Txn`. -/
structure Ready (heap : CursorHeap) (x : GoCursor) : Prop where
  txn : x.txn = none
  unbound : ∃ a d, x.ptr = some a ∧ heap.cursors a = some d ∧ d.Unbound

/-- What each Go `Cursor` has of libmdbx. -/
def own (w : Cursors) (c : Handle) : Option Addr := (w.cursors c).ptr

structure Holds (w : Cursors) : Prop where
  ok : w.heap.Ok
  owned : Owned w.own w.heap.Unclosed
  idle : ∀ c, w.next ≤ c → w.cursors c = {}
  pooled : ∀ c ∈ w.pool, Ready w.heap (w.cursors c)
  nodup : w.pool.Nodup

variable {w w' : Cursors} {o : CursorSys} {heap : CursorHeap} {c k : Handle} {a : Addr}
  {p txn : Option Addr} {x : GoCursor}

theorem own_setCursor : ({ w with heap }.setCursor c x).own = Function.update w.own c x.ptr := by
  funext k
  by_cases hk : k = c
  · subst hk
    simp only [own, setCursor, Function.update_self]
  · simp only [own, setCursor, Function.update_of_ne hk]

theorem setCursor_self : (w.setCursor c x).cursors c = x := Function.update_self _ _ _

theorem setCursor_other (hk : k ≠ c) : (w.setCursor c x).cursors k = w.cursors k :=
  Function.update_of_ne hk _ _

theorem Ready.rests (h : Ready w.heap x) (hrests : CursorHeap.Rests p w.heap heap)
    (hp : ∀ a, p = some a → x.ptr ≠ some a) : Ready heap x := by
  obtain ⟨a, d, hptr, hd, hunbound⟩ := h.unbound
  refine ⟨h.txn, a, d, hptr, hrests a d ?_ hd hunbound.signature, hunbound⟩
  intro hpa
  exact hp a hpa hptr

/-- What is in the pool stays ready in a call on a cursor that is not there. -/
theorem Holds.ready (hw : w.Holds) (hrests : CursorHeap.Rests p w.heap heap)
    (hp : ∀ a, p = some a → ∃ c, c ∉ w.pool ∧ w.own c = some a) :
    ∀ k ∈ w.pool, Ready heap (w.cursors k) := by
  intro k hk
  apply (hw.pooled k hk).rests hrests
  intro a hpa hptr
  obtain ⟨c, hc, hown⟩ := hp a hpa
  have hkc : k = c := hw.owned.unique k c a hptr hown
  subst hkc
  exact hc hk

theorem Holds.notPooled (hw : w.Holds) (hc : w.next ≤ c) : c ∉ w.pool := by
  intro hpool
  obtain ⟨a, d, hptr, _⟩ := (hw.pooled c hpool).unbound
  rw [hw.idle c hc] at hptr
  cases hptr

theorem Holds.alloc (hw : w.Holds) : w.alloc.Holds := by
  have hsame : Function.update w.cursors w.next {} = w.cursors := by
    rw [← hw.idle w.next (Nat.le_refl _), Function.update_eq_self]
  have hcursors : w.alloc.cursors = w.cursors := hsame
  have hown : w.alloc.own = w.own := by
    funext k
    simp only [own, hcursors]
  refine ⟨hw.ok, ?_, ?_, ?_, hw.nodup⟩
  · rw [hown]
    exact hw.owned
  · intro k hk
    rw [hcursors]
    exact hw.idle k (Nat.le_of_succ_le hk)
  · rw [hcursors]
    exact hw.pooled

/-- A call that no Go `Cursor` sees. -/
theorem Holds.unseen (hw : w.Holds) (hsettles : CursorHeap.Settles p w.heap heap)
    (hp : ∀ a, p = some a → ∃ c, c ∉ w.pool ∧ w.own c = some a) :
    ({ w with heap } : Cursors).Holds :=
  ⟨hsettles.ok hw.ok, hw.owned.congr (hsettles.unclosed hw.ok), hw.idle,
    hw.ready hsettles.rests hp, hw.nodup⟩

/-- A call that changes one Go `Cursor`, which is not in the pool. -/
theorem Holds.put (hw : w.Holds) (hc : c ∉ w.pool) (hnext : c < w.next) (ok : heap.Ok)
    (howned : Owned (Function.update w.own c x.ptr) heap.Unclosed)
    (hready : ∀ k ∈ w.pool, Ready heap (w.cursors k)) :
    ({ w with heap }.setCursor c x).Holds := by
  refine ⟨ok, ?_, ?_, ?_, hw.nodup⟩
  · rw [own_setCursor]
    exact howned
  · intro k hk
    have hkc : k ≠ c := Nat.ne_of_gt (Nat.lt_of_lt_of_le hnext hk)
    rw [setCursor_other hkc]
    exact hw.idle k hk
  · intro k hk
    have hkc : k ≠ c := by
      rintro rfl
      exact hc hk
    rw [setCursor_other hkc]
    exact hready k hk

/-- A call that leaves the Go `Cursor` what it has, and gives it a `Txn` or takes it away. -/
theorem Holds.settled (hw : w.Holds) (hc : c ∉ w.pool) (hnext : c < w.next)
    (hsettles : CursorHeap.Settles (w.own c) w.heap heap) (txn : Option Handle) :
    ({ w with heap }.setCursor c { w.cursors c with txn }).Holds := by
  have hsame : Function.update w.own c (w.own c) = w.own := Function.update_eq_self _ _
  refine hw.put hc hnext (hsettles.ok hw.ok) ?_ (hw.ready hsettles.rests fun a ha => ⟨c, hc, ha⟩)
  show Owned (Function.update w.own c (w.own c)) heap.Unclosed
  rw [hsame]
  exact hw.owned.congr (hsettles.unclosed hw.ok)

theorem rests_none (w : Cursors) : ∀ a, none = some a → ∃ c, c ∉ w.pool ∧ w.own c = some a := by
  intro a hnone
  cases hnone

/-! ### The calls -/

/-- How `Open` ends: it refuses, fails in libmdbx, or has opened the cursor. -/
theorem cursorOpen_cases (ok : w.heap.Ok) {txn : Option Handle} {db : Dbi}
    {r : Cursors × Option CursorError} (h : w.cursorOpen o (some c) txn db = some r) :
    (r.1 = w ∧ r.2.isSome) ∨
    (w.own c = none ∧ ∃ heap, heap.Ok ∧ CursorHeap.Rests none w.heap heap ∧
      ((r.1 = { w with heap }.setCursor c { w.cursors c with ptr := none } ∧
          ∀ b, heap.Unclosed b ↔ w.heap.Unclosed b) ∨
        ∃ a, r = ({ w with heap }.setCursor c { ptr := some a, txn }, none) ∧
          ¬w.heap.Unclosed a ∧ ∀ b, heap.Unclosed b ↔ w.heap.Unclosed b ∨ b = a)) := by
  simp only [cursorOpen] at h
  split at h
  · cases h
    exact .inl ⟨rfl, rfl⟩
  · split at h
    · cases h
      exact .inl ⟨rfl, rfl⟩
    · rename_i hclosed
      obtain ⟨⟨heap, ret, ptr⟩, hopen, rfl⟩ := Option.map_eq_some_iff.mp h
      obtain ⟨ok', hrests, ⟨hcode, hptr, hlive⟩ | ⟨a, hcode, hptr, hnew, hlive⟩⟩ :=
        CursorHeap.mdbxCursorOpen_cases ok hopen
      · dsimp only at hcode hptr
        subst hptr
        refine .inr ⟨by simpa [own] using hclosed, heap, ok', hrests, .inl ⟨?_, hlive⟩⟩
        dsimp only
        rw [if_pos (by simpa using hcode)]
      · dsimp only at hcode hptr
        subst hptr hcode
        exact .inr ⟨by simpa [own] using hclosed, heap, ok', hrests, .inr ⟨a, rfl, hnew, hlive⟩⟩

theorem cursorOpen_holds (hw : w.Holds) (hc : c ∉ w.pool) (hnext : c < w.next)
    {txn : Option Handle} {db : Dbi} {r : Cursors × Option CursorError}
    (h : w.cursorOpen o (some c) txn db = some r) : r.1.Holds := by
  rcases cursorOpen_cases hw.ok h with ⟨hsame, _⟩ | ⟨hown, heap, ok, hrests, hr⟩
  · rw [hsame]
    exact hw
  · have hready := hw.ready hrests (rests_none w)
    rcases hr with ⟨hr, hlive⟩ | ⟨a, rfl, hnew, hlive⟩
    · rw [hr]
      refine hw.put hc hnext ok ?_ hready
      show Owned (Function.update w.own c none) heap.Unclosed
      rw [← hown, Function.update_eq_self]
      exact hw.owned.congr hlive
    · exact hw.put hc hnext ok (hw.owned.acquire hown hnew hlive) hready

theorem openCursor_holds (hw : w.Holds) {txn : Option Handle} {db : Dbi}
    {r : Cursors × CursorReply} (h : w.openCursor o txn db = some r) : r.1.Holds := by
  obtain ⟨r, hopen, rfl⟩ := Option.map_eq_some_iff.mp h
  exact cursorOpen_holds hw.alloc (hw.notPooled (Nat.le_refl _)) (Nat.lt_succ_self _) hopen

theorem associate_holds (hw : w.Holds) {op : String}
    {call : CursorHeap → Option Addr → Option Addr → Option (CursorHeap × Code)}
    (hcall : ∀ txn mc r, call w.heap txn mc = some r → CursorHeap.Settles mc w.heap r.1)
    {c txn : Option Handle} (hc : ∀ k, c = some k → k ∉ w.pool ∧ k < w.next)
    {r : Cursors × CursorReply} (h : w.associate op call c txn = some r) : r.1.Holds := by
  unfold associate at h
  split at h
  · rename_i k t
    obtain ⟨hpool, hnext⟩ := hc k rfl
    obtain ⟨⟨heap, ret⟩, hret, rfl⟩ := Option.map_eq_some_iff.mp h
    have hsettles : CursorHeap.Settles (w.own k) w.heap heap := hcall _ _ _ hret
    dsimp only
    split
    · exact hw.unseen hsettles fun a ha => ⟨k, hpool, ha⟩
    · exact hw.settled hpool hnext hsettles (some t)
  · cases h
    exact hw

theorem unbind_holds (hw : w.Holds) (hc : c ∉ w.pool) (hnext : c < w.next)
    {r : Cursors × Option CursorError} (h : w.unbind o c = some r) : r.1.Holds := by
  obtain ⟨⟨heap, ret⟩, hret, rfl⟩ := Option.map_eq_some_iff.mp h
  have hsettles := CursorHeap.mdbxCursorUnbind_settles hret
  dsimp only
  split
  · exact hw.unseen hsettles (rests_none w)
  · exact hw.settled hc hnext hsettles.any none

theorem close_holds (hw : w.Holds) (hc : c ∉ w.pool) (hnext : c < w.next)
    (h : w.close o c = some w') : w'.Holds := by
  unfold close at h
  split at h
  · cases h
    exact hw
  · rename_i hopen
    obtain ⟨a, ha⟩ := Option.ne_none_iff_exists'.mp (by simpa using hopen)
    obtain ⟨heap, hclosed, rfl⟩ := Option.map_eq_some_iff.mp h
    rw [ha] at hclosed
    obtain ⟨ok, _, _, hlive, hrests⟩ := CursorHeap.mdbxCursorClose_closed hw.ok hclosed
    refine hw.put hc hnext ok (hw.owned.release ha hlive) (hw.ready hrests ?_)
    rintro b ⟨⟩
    exact ⟨c, hc, ha⟩

theorem createCursor_holds (hw : w.Holds) : (w.createCursor o).1.Holds := by
  have hpool : w.next ∉ w.alloc.pool := hw.notPooled (Nat.le_refl _)
  have hnone : w.alloc.own w.next = none := by
    have hself : w.alloc.cursors w.next = {} := setCursor_self
    rw [own, hself]
  have hput : ({ w.alloc with heap := (w.heap.mdbxCursorCreate o).1 }.setCursor w.next
      { ptr := (w.heap.mdbxCursorCreate o).2 }).Holds := by
    rcases hmade : w.heap.mdbxCursorCreate o with ⟨heap, _ | a⟩
    · obtain rfl := CursorHeap.mdbxCursorCreate_failed hmade
      refine hw.alloc.put hpool (Nat.lt_succ_self _) hw.ok ?_ hw.alloc.pooled
      show Owned (Function.update w.alloc.own w.next none) w.heap.Unclosed
      rw [← hnone, Function.update_eq_self]
      exact hw.alloc.owned
    · obtain ⟨ok, rfl, _, hlive, hrests⟩ := CursorHeap.mdbxCursorCreate_made hw.ok hmade
      exact hw.alloc.put hpool (Nat.lt_succ_self _) ok
        (hw.alloc.owned.acquire hnone (CursorHeap.brk_not_unclosed hw.ok) hlive)
        (hw.alloc.ready hrests (rests_none _))
  unfold createCursor
  dsimp only
  split <;> exact hput

theorem createCursor_ready (ok : w.heap.Ok) (h : (w.createCursor o).2 = .returned none (some c)) :
    Ready (w.createCursor o).1.heap ((w.createCursor o).1.cursors c) := by
  unfold createCursor at h ⊢
  dsimp only at h ⊢
  split
  · rename_i hnone
    rw [if_pos hnone] at h
    cases h
  · rename_i hsome
    rw [if_neg hsome] at h
    cases h
    rcases hmade : w.heap.mdbxCursorCreate o with ⟨heap, _ | a⟩
    · rw [hmade] at hsome
      exact absurd rfl hsome
    · obtain ⟨_, _, ⟨d, hd, hunbound⟩, _⟩ := CursorHeap.mdbxCursorCreate_made ok hmade
      dsimp only
      rw [setCursor_self]
      exact ⟨rfl, a, d, rfl, hd, hunbound⟩

theorem unbind_frame {r : Cursors × Option CursorError} (h : w.unbind o c = some r) :
    r.1.pool = w.pool ∧ r.1.next = w.next := by
  obtain ⟨_, _, rfl⟩ := Option.map_eq_some_iff.mp h
  dsimp only
  split <;> exact ⟨rfl, rfl⟩

/-- A cursor that `Unbind` returns no error for may go into the pool. -/
theorem unbind_ready (ok : w.heap.Ok) (hopen : ¬(w.cursors c).ptr.isNone)
    {r : Cursors × Option CursorError} (h : w.unbind o c = some r) (herr : ¬r.2.isSome) :
    Ready r.1.heap (r.1.cursors c) := by
  obtain ⟨a, ha⟩ := Option.ne_none_iff_exists'.mp (by simpa using hopen)
  obtain ⟨⟨heap, ret⟩, hret, rfl⟩ := Option.map_eq_some_iff.mp h
  rw [ha] at hret
  dsimp only at herr ⊢
  obtain ⟨d, hd, ⟨hsame, hready, hcode⟩ | ⟨_, hsuccess, _, d', hd', hunbound⟩⟩ :=
    CursorHeap.mdbxCursorUnbind_cases hret
  · dsimp only at hsame hready hcode
    subst hsame
    split
    · -- every other code makes an error
      rename_i hfailed
      rw [if_pos hfailed] at herr
      have hnone : operrno "mdbx_cursor_unbind" ret = none := by simpa using herr
      rcases (operrno_eq_none _).mp hnone with hsuccess | hresult
      · exact absurd hsuccess (by simpa using hfailed)
      · exact absurd hresult hcode
    · rename_i hsuccess
      rw [setCursor_self]
      exact ⟨rfl, a, d, ha, hd, ok.unbound a d hd (hready (by simpa using hsuccess))⟩
  · dsimp only at hsuccess
    rw [if_neg (by simpa using hsuccess), setCursor_self]
    exact ⟨rfl, a, d', ha, hd', hunbound⟩

theorem cursorToPool_holds (hw : w.Holds) (hc : c ∉ w.pool) (hnext : c < w.next)
    (h : w.cursorToPool o c = some w') : w'.Holds := by
  unfold cursorToPool at h
  split at h
  · cases h
    exact hw
  · rename_i hopen
    obtain ⟨r, hr, h⟩ := Option.bind_eq_some_iff.mp h
    have hholds := unbind_holds hw hc hnext hr
    obtain ⟨hpool, hnext'⟩ := unbind_frame hr
    rw [← hpool] at hc
    split at h
    · rw [← hnext'] at hnext
      exact close_holds hholds hc hnext h
    · rename_i herr
      cases h
      refine ⟨hholds.ok, hholds.owned, hholds.idle, ?_, List.nodup_cons.mpr ⟨hc, hholds.nodup⟩⟩
      intro k hk
      rcases List.mem_cons.mp hk with rfl | hk
      · exact unbind_ready hw.ok hopen hr herr
      · exact hholds.pooled k hk

/-- What is taken out of the pool is no longer there. -/
theorem cursorFromPool_holds (hw : w.Holds) {choice : Option Handle} {r : Cursors × CursorReply}
    (h : w.cursorFromPool o choice = some r) : r.1.Holds := by
  cases choice with
  | none =>
    cases h
    exact createCursor_holds hw
  | some k =>
    simp only [cursorFromPool] at h
    split at h
    · cases h
      exact ⟨hw.ok, hw.owned, hw.idle, fun c hc => hw.pooled c (List.mem_of_mem_erase hc),
        hw.nodup.erase k⟩
    · cases h

theorem cursorFromPool_ready (hw : w.Holds) {choice : Option Handle} {r : Cursors × CursorReply}
    (h : w.cursorFromPool o choice = some r) (hr : r.2 = .returned none (some c)) :
    Ready r.1.heap (r.1.cursors c) ∧ c ∉ r.1.pool := by
  cases choice with
  | none =>
    cases h
    refine ⟨createCursor_ready hw.ok hr, ?_⟩
    unfold createCursor at hr ⊢
    dsimp only at hr ⊢
    split at hr
    · cases hr
    · rename_i hsome
      cases hr
      rw [if_neg hsome]
      exact hw.notPooled (Nat.le_refl _)
  | some k =>
    simp only [cursorFromPool] at h
    split at h
    · rename_i hk
      cases h
      cases hr
      exact ⟨hw.pooled c hk, fun hc => (hw.nodup.mem_erase_iff.mp hc).1 rfl⟩
    · cases h

/-! ### Runs -/

theorem act_holds (hw : w.Holds) {e : Event}
    (hcursor : ∀ k, e.cursor = some k → k ∉ w.pool ∧ k < w.next)
    {r : Cursors × CursorReply} (h : w.act e = some r) : r.1.Holds := by
  cases e with
  | declare =>
    cases h
    exact hw.alloc
  | cursorOpen o c txn db =>
    obtain ⟨r, hr, rfl⟩ := Option.map_eq_some_iff.mp h
    cases c with
    | none =>
      cases hr
      exact hw
    | some c =>
      obtain ⟨hc, hnext⟩ := hcursor c rfl
      exact cursorOpen_holds hw hc hnext hr
  | openCursor o txn db => exact openCursor_holds hw h
  | createCursor o =>
    cases h
    exact createCursor_holds hw
  | renew o c txn =>
    have hr : w.renew o c txn = some r := h
    unfold renew at hr
    exact associate_holds hw (fun _ _ _ => CursorHeap.mdbxCursorRenew_settles) hcursor hr
  | bind o c txn db =>
    have hr : w.bind o c txn db = some r := h
    unfold Cursors.bind at hr
    exact associate_holds hw (fun _ _ _ => CursorHeap.mdbxCursorBind_settles) hcursor hr
  | unbind o c =>
    cases c with
    | none =>
      cases h
      exact hw
    | some c =>
      obtain ⟨hc, hnext⟩ := hcursor c rfl
      obtain ⟨r, hr, rfl⟩ := Option.map_eq_some_iff.mp h
      exact unbind_holds hw hc hnext hr
  | close o c =>
    cases c with
    | none =>
      cases h
      exact hw
    | some c =>
      obtain ⟨hc, hnext⟩ := hcursor c rfl
      obtain ⟨w', hw', rfl⟩ := Option.map_eq_some_iff.mp h
      exact close_holds hw hc hnext hw'
  | cursorFromPool o choice => exact cursorFromPool_holds hw h
  | cursorToPool o c =>
    cases c with
    | none =>
      cases h
      exact hw
    | some c =>
      obtain ⟨hc, hnext⟩ := hcursor c rfl
      obtain ⟨w', hw', rfl⟩ := Option.map_eq_some_iff.mp h
      exact cursorToPool_holds hw hc hnext hw'
  | txn s =>
    obtain ⟨heap, hheap, rfl⟩ := Option.map_eq_some_iff.mp h
    exact hw.unseen (CursorHeap.txnStep_settles hheap) (rests_none w)
  | setTxn t p =>
    cases h
    exact ⟨hw.ok, hw.owned, hw.idle, hw.pooled, hw.nodup⟩

theorem step_holds (hw : w.Holds) {e : Event} (kept : Kept w e) {r : Cursors × CursorReply}
    (h : w.step e = some r) : r.1.Holds := by
  unfold step at h
  split at h
  · rename_i hmade
    refine act_holds hw (fun k hk => ⟨kept k hk, ?_⟩) h
    rw [hk] at hmade
    simpa using hmade
  · cases h

theorem invariant_holds : system.Invariant Kept Holds where
  init w hw := by
    subst hw
    have hnone : ∀ c a, ({} : Cursors).own c ≠ some a := by
      intro c a hown
      cases hown
    refine ⟨⟨fun _ _ => ⟨rfl, rfl⟩, ?_, fun _ => Nat.zero_le _, ?_⟩, ⟨?_, ?_, ?_⟩,
      fun _ _ => rfl, ?_, List.nodup_nil⟩
    · intro a c hc
      cases hc
    · intro a c hc
      cases hc
    · exact fun c a hown => absurd hown (hnone c a)
    · exact fun c k a hown => absurd hown (hnone c a)
    · rintro a ⟨hsome, _⟩
      cases hsome
    · intro c hc
      cases hc
  step w e w' hw kept hstep := by
    obtain ⟨r, hr, rfl⟩ := Option.map_eq_some_iff.mp hstep
    exact step_holds hw kept hr

/-! ### Who owns the cursors -/

/-- The cursors of libmdbx are owned, closed once, and handed out as `CursorFromPool` says, in a
state and in any call that comes next. -/
structure Ownership (w : Cursors) : Prop where
  owner : ∀ a, w.heap.Unclosed a → ∃! c, (w.cursors c).ptr = some a
  once : ∀ a, w.heap.closes a ≤ 1
  /-- The next `Close` is the first one. -/
  held : ∀ c a, (w.cursors c).ptr = some a → w.heap.Unclosed a
  /-- An `Open` that fails leaves its `Cursor` as closed, or as open, as it was. -/
  failedOpen : ∀ o c txn db w' err, Kept w (.cursorOpen o c txn db) →
    w.step (.cursorOpen o c txn db) = some (w', .returned (some err) none) →
    (∀ k, c = some k → (w'.cursors k).ptr = (w.cursors k).ptr) ∧
      (∀ a, w'.heap.Unclosed a ↔ w.heap.Unclosed a) ∧
      ∀ a, w'.heap.Unclosed a → ∃! k, (w'.cursors k).ptr = some a
  failedOpenCursor : ∀ o txn db w' err,
    w.step (.openCursor o txn db) = some (w', .returned (some err) none) →
    (∀ a, w'.heap.Unclosed a ↔ w.heap.Unclosed a) ∧
      ∀ a, w'.heap.Unclosed a → ∃! k, (w'.cursors k).ptr = some a
  fromPool : ∀ o choice w' c,
    w.step (.cursorFromPool o choice) = some (w', .returned none (some c)) →
    Ready w'.heap (w'.cursors c) ∧ c ∉ w'.pool

theorem step_act {e : Event} {r : Cursors × CursorReply} (h : w.step e = some r) :
    w.act e = some r := by
  unfold step at h
  split at h
  · exact h
  · cases h

theorem cursorOpen_failed (ok : w.heap.Ok) {txn : Option Handle} {db : Dbi}
    {r : Cursors × Option CursorError} (h : w.cursorOpen o (some c) txn db = some r)
    (herr : r.2.isSome) :
    (r.1.cursors c).ptr = (w.cursors c).ptr ∧ ∀ a, r.1.heap.Unclosed a ↔ w.heap.Unclosed a := by
  rcases cursorOpen_cases ok h with ⟨hsame, _⟩ | ⟨hown, heap, _, _, ⟨hr, hlive⟩ | ⟨a, rfl, _⟩⟩
  · rw [hsame]
    exact ⟨rfl, fun _ => Iff.rfl⟩
  · rw [hr, setCursor_self]
    exact ⟨hown.symm, hlive⟩
  · cases herr

/-- Whatever is called, and however it ends, each cursor of libmdbx has one owner until it is
closed. -/
theorem ownership (run : system.Reaches Kept w) : Ownership w := by
  have hw := run.invariant invariant_holds
  constructor
  · exact fun a ha => hw.owned.existsUnique ha
  · exact hw.ok.once
  · exact hw.owned.valid
  · intro o c txn db w' err kept h
    have hw' := step_holds hw kept h
    obtain ⟨r, hr, hreply⟩ := Option.map_eq_some_iff.mp (step_act h)
    obtain ⟨rfl, hret⟩ := Prod.mk.inj hreply
    have herr : r.2 = some err := (CursorReply.returned.inj hret).1
    cases c with
    | none =>
      cases hr
      refine ⟨?_, fun _ => Iff.rfl, fun a ha => hw'.owned.existsUnique ha⟩
      intro k hk
      cases hk
    | some c =>
      obtain ⟨hptr, hlive⟩ := cursorOpen_failed hw.ok hr (Option.isSome_of_eq_some herr)
      refine ⟨?_, hlive, fun a ha => hw'.owned.existsUnique ha⟩
      rintro k ⟨⟩
      exact hptr
  · intro o txn db w' err h
    have hw' := step_holds hw (fun c hc => by cases hc) h
    obtain ⟨r, hr, hreply⟩ := Option.map_eq_some_iff.mp (step_act h)
    obtain ⟨rfl, hret⟩ := Prod.mk.inj hreply
    split at hret
    · rename_i herr
      exact ⟨(cursorOpen_failed hw.alloc.ok hr herr).2, fun a ha => hw'.owned.existsUnique ha⟩
    · cases hret
  · intro o choice w' c h
    exact cursorFromPool_ready hw (step_act h) rfl

/-- A cursor that was bound to a transaction and given to the pool. -/
theorem ownership_pooled : ∃ w : Cursors, w.pool = [0] ∧ Ownership w := by
  obtain ⟨w, run, hw⟩ := system.exists_of_replay Kept
    [.txn (.alloc false false), .setTxn 0 (some 1), .createCursor {},
      .bind {} (some 0) (some 0) mainDbi, .cursorToPool {} (some 0)]
    {} (fun w => w.pool == [0]) rfl (by decide +kernel)
  exact ⟨w, by simpa using hw, ownership run⟩

theorem cursorOpen_already {t : Handle} {db : Dbi} (ht : (w.txns t).isSome)
    (hopen : (w.cursors c).ptr.isSome) : w.cursorOpen o (some c) (some t) db =
      some (w, some (.new "mdbx.Cursor.Open: cursor is already open")) := by
  have hnone : ¬((some t).bind w.txns).isNone := by simpa using Option.isSome_iff_ne_none.mp ht
  simp only [cursorOpen]
  rw [if_neg hnone, if_pos hopen]

/-- An open `Cursor` is opened again, which fails and leaves it open. -/
theorem cursorOpen_leaves_open : ¬ ∀ (w : Cursors) (o : CursorSys) (c : Handle)
    (txn : Option Handle) (db : Dbi) (w' : Cursors) (err : CursorError), system.Reaches Kept w →
    Kept w (.cursorOpen o (some c) txn db) →
    w.step (.cursorOpen o (some c) txn db) = some (w', .returned (some err) none) →
    (w'.cursors c).ptr = none := by
  intro hclosed
  obtain ⟨w, run, hw⟩ := system.exists_of_replay Kept
    [.txn (.alloc false false), .setTxn 0 (some 1), .declare,
      .cursorOpen {} (some 0) (some 0) mainDbi]
    {} (fun w => w.pool.isEmpty && decide (0 < w.next) && (w.txns 0).isSome &&
      (w.cursors 0).ptr.isSome) rfl (by decide +kernel)
  simp only [Bool.and_eq_true, List.isEmpty_iff, decide_eq_true_eq] at hw
  obtain ⟨⟨⟨hpool, hnext⟩, htxn⟩, hopen⟩ := hw
  have kept : Kept w (.cursorOpen {} (some 0) (some 0) mainDbi) := by
    intro c _
    rw [hpool]
    exact List.not_mem_nil
  have hstep : w.step (.cursorOpen {} (some 0) (some 0) mainDbi) = some (w,
      .returned (some (.new "mdbx.Cursor.Open: cursor is already open")) none) := by
    have hmade : (Event.cursorOpen {} (some 0) (some 0) mainDbi).cursor.all (· < w.next) := by
      simpa [Event.cursor] using hnext
    unfold step
    rw [if_pos hmade]
    simp only [act, cursorOpen_already htxn hopen, Option.map_some]
  have hnone := hclosed w {} 0 (some 0) mainDbi w _ run kept hstep
  rw [hnone] at hopen
  cases hopen

end Cursors

end MdbxGo
