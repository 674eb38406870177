import MdbxGo.Threads
import MdbxGo.Mdbx.Txn

/-! `Env.ReaderList` and the registry that takes the rows of `mdbx_reader_list` back to the
function of the call, for any number of calls side by side. A call that a callback makes is one of
them too: it steps only while the call of the callback waits. -/

namespace MdbxGo

namespace ReaderList

/-- The arguments of `MDBX_reader_list_func`. -/
structure Row where
  num : Int
  slot : Int
  pid : Int
  thread : UInt64
  txnid : UInt64
  lag : UInt64
  bytesUsed : UInt64
  bytesRetained : UInt64
deriving DecidableEq

structure ReaderInfo where
  num : Int
  slot : Int
  pid : Int
  tid : UInt64
  txID : UInt64
  lag : UInt64
  bytesUsed : UInt64
  bytesRetained : UInt64
  parked : Bool
  ousted : Bool
deriving DecidableEq

def readerTIDTxnParked : UInt64 := 0xffffFFFFffffFFFF
def readerTIDTxnOusted : UInt64 := readerTIDTxnParked - 1

/-- The conversion in `mdbxgoMDBReaderListBridge`. -/
def readerInfo (r : Row) : ReaderInfo where
  num := r.num
  slot := r.slot
  pid := r.pid
  tid := r.thread
  txID := r.txnid
  lag := r.lag
  bytesUsed := r.bytesUsed
  bytesRetained := r.bytesRetained
  parked := r.thread == readerTIDTxnParked
  ousted := r.thread == readerTIDTxnOusted

variable {F E V : Type}

/-- How a callback ends: it returns nil or an error, or it panics with a value. -/
inductive Answer (E V : Type)
  | ok
  | error (e : E)
  | panics (v : V)
deriving DecidableEq

/-- `ctx.err`: the error that the callback returned, or its panic wrapped with
"mdbx: panic in ReaderList callback". -/
inductive CtxErr (E V : Type)
  | error (e : E)
  | panicInCallback (v : V)
deriving DecidableEq

def Answer.err : Answer E V → Option (CtxErr E V)
  | .ok => none
  | .error e => some (.error e)
  | .panics v => some (.panicInCallback v)

/-- A `_readerctx`. The number of the call that made it is not part of the code. -/
structure Context (F E V : Type) where
  fn : F
  err : Option (CtxErr E V) := none
  owner : Nat
deriving DecidableEq

/-- `readerctxn`, `readerctxm`, whose pointers are places in `contexts`, and how often a handle was
drawn, which is not part of the code. -/
structure Registry (F E V : Type) where
  readerctxn : UInt32 := 0
  readerctxm : UInt32 → Option Nat := fun _ => none
  contexts : List (Context F E V) := []
  drawn : Nat := 0

/-- `errNilReaderListFunc`, `ctxerr`, or what `operrno` makes of the code. -/
inductive Result (E V : Type)
  | nilFunc
  | ctxerr (e : CtxErr E V)
  | operrno (err : Option GoError)
deriving DecidableEq

/-- Where a call stands. `list` and the states behind it are inside `mdbx_reader_list`, up to
`took`; `bridge` and `callback` are in `mdbxgoMDBReaderListBridge`. -/
inductive At (E V : Type)
  | entry
  | register (ctx : UInt32)
  | check (ctx : UInt32)
  | list (ctx : UInt32) (rc : Code)
  | bridge (ctx : UInt32) (row : Row)
  | callback (ctx : UInt32) (obj : Nat) (row : Row)
  | took (ctx : UInt32) (ret : Code)
  | deregister (ctx : UInt32) (result : Result E V)
  | returned (result : Result E V)
  | conflict
  | nilDeref
deriving DecidableEq

/-- A row that was delivered: the function that got it, and how that function ended. -/
structure Delivery (F E V : Type) where
  fn : F
  info : ReaderInfo
  answer : Answer E V
deriving DecidableEq

/-- A call of `Env.ReaderList(fn)`. The code does not keep which draw its handle came from, which
rows libmdbx issued and where they went. -/
structure Call (F E V : Type) where
  fn : Option F
  at_ : At E V := .entry
  draw : Nat := 0
  issued : List Row := []
  delivered : List (Delivery F E V) := []
deriving DecidableEq

def Call.deliver (c : Call F E V) (fn : F) (row : Row) (answer : Answer E V) : Call F E V :=
  { c with delivered := c.delivered ++ [{ fn, info := readerInfo row, answer }] }

/-- What a step of a call does not decide itself: the code of `check_env`, the next row or that
there is none, and how the callback ends. -/
inductive Choice (E V : Type)
  | go
  | checked (f : Option Failure)
  | row (r : Row)
  | ends
  | answers (a : Answer E V)

namespace Registry

/-- `get` -/
def get (g : Registry F E V) (ctx : UInt32) : Option Nat := g.readerctxm ctx

/-- `register`, where the handle is not in use. -/
def register (g : Registry F E V) (ctx : UInt32) (fn : F) (i : Nat) : Registry F E V :=
  { g with
    readerctxm := Function.update g.readerctxm ctx (some g.contexts.length)
    contexts := g.contexts ++ [{ fn, owner := i }] }

def deregister (g : Registry F E V) (ctx : UInt32) : Registry F E V :=
  { g with readerctxm := Function.update g.readerctxm ctx none }

/-- `ctx.err = err` -/
def setErr (g : Registry F E V) (obj : Nat) (err : CtxErr E V) : Registry F E V :=
  { g with contexts := g.contexts.modify obj fun c => { c with err := some err } }

end Registry

/-- The next step of the call with number `i`. -/
def step (g : Registry F E V) (i : Nat) (c : Call F E V) :
    Choice E V → Option (Registry F E V × Call F E V)
  | .go =>
    match c.at_ with
    | .entry =>
      match c.fn with
      | none => some (g, { c with at_ := .returned .nilFunc })
      | some _ =>
        let ctx := g.readerctxn + 1
        some ({ g with readerctxn := ctx, drawn := g.drawn + 1 },
          { c with at_ := .register ctx, draw := g.drawn + 1 })
    | .register ctx =>
      match g.get ctx, c.fn with
      | none, some fn => some (g.register ctx fn i, { c with at_ := .check ctx })
      | _, _ => some (g, { c with at_ := .conflict })
    | .bridge ctx row =>
      match g.get ctx with
      | none => some (g, { c with at_ := .nilDeref })
      | some obj => some (g, { c with at_ := .callback ctx obj row })
    | .took ctx ret =>
      match (g.get ctx).bind (g.contexts[·]?) with
      | none => some (g, { c with at_ := .nilDeref })
      | some o =>
        match o.err with
        | some e => some (g, { c with at_ := .deregister ctx (.ctxerr e) })
        | none =>
          some (g, { c with at_ := .deregister ctx (.operrno (operrno "mdbx_reader_list" ret)) })
    | .deregister ctx result => some (g.deregister ctx, { c with at_ := .returned result })
    | _ => none
  | .checked f =>
    match c.at_, f with
    | .check ctx, none => some (g, { c with at_ := .list ctx Code.resultTrue })
    | .check ctx, some e => some (g, { c with at_ := .took ctx e.code })
    | _, _ => none
  | .row r =>
    match c.at_ with
    | .list ctx _ => some (g, { c with at_ := .bridge ctx r, issued := c.issued ++ [r] })
    | _ => none
  | .ends =>
    match c.at_ with
    | .list ctx rc => some (g, { c with at_ := .took ctx rc })
    | _ => none
  | .answers a =>
    match c.at_ with
    | .callback ctx obj row =>
      match g.contexts[obj]? with
      | none => some (g, { c with at_ := .nilDeref })
      | some o =>
        match a.err with
        | none => some (g, { c.deliver o.fn row a with at_ := .list ctx Code.success })
        -- the first non-zero result of the callback ends the list
        | some e =>
          some (g.setErr obj e, { c.deliver o.fn row a with at_ := .took ctx Code.resultTrue })
    | _ => none

/-- The calls of a process, each with a function or nil. -/
def program (F E V : Type) : Program (Registry F E V) (Call F E V) (Option F) (Choice E V) where
  init g := g = {}
  start fn := { fn }
  step g i c x := (step g i c x).map fun r => (r.1, r.2, [])

/-! ### The steps of a call -/

/-- What the registry does not have for a call that is about to use it. -/
def Registry.Misses (g : Registry F E V) (c : Call F E V) : Prop :=
  match c.at_ with
  | .bridge ctx _ => g.get ctx = none
  | .took ctx _ => (g.get ctx).bind (g.contexts[·]?) = none
  | .callback _ obj _ => g.contexts[obj]? = none
  | _ => False

/-- What a call returns when it finds `err` in its context. -/
def resultOf (ret : Code) : Option (CtxErr E V) → Result E V
  | some e => .ctxerr e
  | none => .operrno (operrno "mdbx_reader_list" ret)

/-- Every step that a call can make. -/
inductive Moves (i : Nat) (g : Registry F E V) (c : Call F E V) :
    Registry F E V → Call F E V → Prop
  | nilFunc : c.at_ = .entry → c.fn = none → Moves i g c g { c with at_ := .returned .nilFunc }
  | draw {fn : F} : c.at_ = .entry → c.fn = some fn →
    Moves i g c { g with readerctxn := g.readerctxn + 1, drawn := g.drawn + 1 }
      { c with at_ := .register (g.readerctxn + 1), draw := g.drawn + 1 }
  | register {ctx : UInt32} {fn : F} : c.at_ = .register ctx → g.get ctx = none → c.fn = some fn →
    Moves i g c (g.register ctx fn i) { c with at_ := .check ctx }
  | conflict {ctx : UInt32} : c.at_ = .register ctx → (g.get ctx ≠ none ∨ c.fn = none) →
    Moves i g c g { c with at_ := .conflict }
  | checked {ctx : UInt32} : c.at_ = .check ctx →
    Moves i g c g { c with at_ := .list ctx Code.resultTrue }
  | refused {ctx : UInt32} (ret : Code) : c.at_ = .check ctx →
    Moves i g c g { c with at_ := .took ctx ret }
  | row {ctx : UInt32} {rc : Code} (r : Row) : c.at_ = .list ctx rc →
    Moves i g c g { c with at_ := .bridge ctx r, issued := c.issued ++ [r] }
  | ends {ctx : UInt32} {rc : Code} : c.at_ = .list ctx rc →
    Moves i g c g { c with at_ := .took ctx rc }
  | bridge {ctx : UInt32} {row : Row} {obj : Nat} : c.at_ = .bridge ctx row →
    g.get ctx = some obj → Moves i g c g { c with at_ := .callback ctx obj row }
  | ok {ctx : UInt32} {row : Row} {obj : Nat} {o : Context F E V} {a : Answer E V} :
    c.at_ = .callback ctx obj row → g.contexts[obj]? = some o → a.err = none →
    Moves i g c g { c.deliver o.fn row a with at_ := .list ctx Code.success }
  | failed {ctx : UInt32} {row : Row} {obj : Nat} {o : Context F E V} {a : Answer E V}
    {e : CtxErr E V} : c.at_ = .callback ctx obj row → g.contexts[obj]? = some o →
    a.err = some e →
    Moves i g c (g.setErr obj e) { c.deliver o.fn row a with at_ := .took ctx Code.resultTrue }
  | took {ctx : UInt32} {ret : Code} {obj : Nat} {o : Context F E V} : c.at_ = .took ctx ret →
    g.get ctx = some obj → g.contexts[obj]? = some o →
    Moves i g c g { c with at_ := .deregister ctx (resultOf ret o.err) }
  | deregister {ctx : UInt32} {result : Result E V} : c.at_ = .deregister ctx result →
    Moves i g c (g.deregister ctx) { c with at_ := .returned result }
  | lost : g.Misses c → Moves i g c g { c with at_ := .nilDeref }

theorem step_moves {g g' : Registry F E V} {i : Nat} {c c' : Call F E V} {x : Choice E V}
    (h : step g i c x = some (g', c')) : Moves i g c g' c' := by
  cases x with
  | go =>
    simp only [step] at h
    split at h
    · rename_i hat
      split at h
      · rename_i hfn
        cases h
        exact .nilFunc hat hfn
      · rename_i fn hfn
        cases h
        exact .draw hat hfn
    · rename_i ctx hat
      split at h
      · rename_i fn hget hfn
        cases h
        exact .register hat hget hfn
      · rename_i hno
        cases h
        refine .conflict hat ?_
        by_cases hfn : c.fn = none
        · exact .inr hfn
        · left
          intro hget
          obtain ⟨fn, hfn⟩ := Option.ne_none_iff_exists'.mp hfn
          exact hno fn hget hfn
    · rename_i ctx row hat
      split at h
      · rename_i hget
        cases h
        exact .lost (by simpa only [Registry.Misses, hat] using hget)
      · rename_i obj hget
        cases h
        exact .bridge hat hget
    · rename_i ctx ret hat
      split at h
      · rename_i hget
        cases h
        exact .lost (by simpa only [Registry.Misses, hat] using hget)
      · rename_i o hget
        obtain ⟨obj, hobj, ho⟩ := Option.bind_eq_some_iff.mp hget
        have took := Moves.took (i := i) hat hobj ho
        split at h <;> rename_i herr <;> cases h <;> rw [herr] at took <;> exact took
    · rename_i ctx result hat
      cases h
      exact .deregister hat
    · cases h
  | checked f =>
    simp only [step] at h
    split at h
    · rename_i ctx hat
      cases h
      exact .checked hat
    · rename_i ctx e hat
      cases h
      exact .refused e.code hat
    · cases h
  | row r =>
    simp only [step] at h
    split at h
    · rename_i ctx rc hat
      cases h
      exact .row r hat
    · cases h
  | ends =>
    simp only [step] at h
    split at h
    · rename_i ctx rc hat
      cases h
      exact .ends hat
    · cases h
  | answers a =>
    simp only [step] at h
    split at h
    · rename_i ctx obj row hat
      split at h
      · rename_i ho
        cases h
        exact .lost (by simpa only [Registry.Misses, hat] using ho)
      · rename_i o ho
        split at h
        · rename_i ha
          cases h
          exact .ok hat ho ha
        · rename_i e ha
          cases h
          exact .failed hat ho ha
    · cases h

end ReaderList

end MdbxGo
