import Mathlib.Data.List.Basic
import MdbxGo.Libmdbx.Table

/-! `mdbx_cursor_delete_range`: where the two cursors stand in the tree of a table, how far
`tree_cutoff_range` gets from there, and what is left of the items. -/

namespace MdbxGo

/-! ### Cursors and trees -/

/-- The flags of a cursor that say whether there is an item for it. -/
structure CursorState where
  hollow : Bool := false
  eofHard : Bool := false
  afterDelete : Bool := false

/-- The stack of a cursor: `ki` from the root to `top`, or, when it is poor, what is left in it. -/
inductive CursorStack
  | poor (ki : List Nat)
  | pointed (ki : List Nat) (state : CursorState)

namespace CursorStack

def ki : CursorStack → List Nat
  | poor ki => ki
  | pointed ki _ => ki

/-- `ki` up to `top`. -/
def path : CursorStack → List Nat
  | poor _ => []
  | pointed ki _ => ki

/-- `is_filled` -/
def isFilled : CursorStack → Bool
  | poor _ => false
  | pointed _ state => !state.hollow && !state.eofHard

/-- `z_eof_hard`, which is part of `z_poor_mark`. -/
def eofHard : CursorStack → Bool
  | poor _ => true
  | pointed _ state => state.eofHard

def afterDelete : CursorStack → Bool
  | poor _ => false
  | pointed _ state => state.afterDelete

/-- `cursor_on_first` -/
def onFirst (s : CursorStack) : Bool :=
  s.path.all (· == 0)

/-- The condition of the loops in `cutoff_storey`: `e` is on another leaf than `b`, or behind it. -/
def ahead (b e : CursorStack) : Bool :=
  e.path.dropLast != b.path.dropLast || decide (b.path.getLastD 0 < e.path.getLastD 0)

end CursorStack

/-- What `tree_diff_level` finds: the right stack is behind the left one from some level on, or not
before it. -/
inductive Diff
  | before (level : Nat)
  | same
  | behind

/-- `tree_diff_level`. The levels are those of the left stack. -/
def treeDiffLevel (left right : CursorStack) : Diff :=
  match (List.range left.path.length).find? fun i => left.ki.getD i 0 != right.ki.getD i 0 with
  | none => .same
  | some i => if left.ki.getD i 0 < right.ki.getD i 0 then .before i else .behind

/-- A tree of pages as a cursor sees it: the number of keys of the page at the end of a path. -/
structure TreeShape where
  height : Nat
  numkeys : List Nat → Nat

namespace TreeShape

variable (t : TreeShape)

/-- The paths that go on for so many levels. -/
def below : Nat → List Nat → List (List Nat)
  | 0, path => [path]
  | n + 1, path => (List.range (t.numkeys path)).flatMap fun i => below n (path ++ [i])

/-- The keys of the tree in their order, by their paths. -/
def keys : List (List Nat) :=
  if t.height = 0 then [] else t.below t.height []

/-- `cursor_on_last`, from a level on. -/
def onLast (s : CursorStack) (level : Nat := 0) : Bool :=
  (List.range' level (s.path.length - level)).all fun i =>
    decide (t.numkeys (s.path.take i) ≤ s.path.getD i 0 + 1)

/-- `cursor_step` backward, as far as the place goes: from the hard end to the last key of the page,
otherwise to the key before. -/
def stepBack : CursorStack → Except Code (List Nat)
  | .poor _ => .error Code.enodata
  | .pointed ki state =>
    if state.hollow then .error Code.enodata
    else if state.eofHard then .ok (ki.dropLast ++ [t.numkeys ki.dropLast - 1])
    else
      match (t.keys.takeWhile (· != ki)).getLast? with
      | none => .error Code.notFound
      | some ki => .ok ki

/-! `cutoff_zikkurat` cuts whole subtrees from the branch pages between two stacks. It leaves the
first node of a page, and two nodes of every page. -/

/-- Whether nodes of a page go. -/
def cutsPage (level : Nat) (b e : List Nat) (including : Bool) (page : List Nat) : Bool :=
  let kiBegin := 1 + if page == b.take level then b.getD level 0 else 0
  let kiEnd :=
    if page == e.take level then e.getD level 0 + including.toNat else t.numkeys page
  decide (3 ≤ t.numkeys page ∧ kiBegin < kiEnd)

/-- Whether `cursor_sibling_left` has gone to a page that counts as before the begin. -/
def passed (b page : List Nat) : Bool :=
  ((page ++ [t.numkeys page - 1]).zip b).any fun ki => decide (ki.1 < ki.2)

/-- The pages of a level from the right to the left: whether something goes before the begin is
passed; `none` when the level has no more pages. -/
def scanLevel (level : Nat) (b e : List Nat) (including : Bool) : List (List Nat) → Option Bool
  | [] => none
  | page :: rest =>
    if t.cutsPage level b e including page then some true
    else
      match rest with
      | [] => none
      | left :: _ =>
        if t.passed b left then some false else scanLevel level b e including rest

/-- The levels one after the other. -/
def scanLevels (b e : List Nat) (including : Bool) : List Nat → Bool
  | [] => false
  | level :: rest =>
    let pages := (t.below level []).takeWhile (· != e.take level)
    match t.scanLevel level b e including (e.take level :: pages.reverse) with
    | some cuts => cuts
    | none => scanLevels b e including rest

/-- Whether `cutoff_zikkurat` cuts anything. -/
def cutoffZikkurat (items : Nat) (b e : CursorStack) (level : Nat) (including : Bool) : Bool :=
  decide (4 ≤ items) && t.scanLevels b.path e.path (including && t.onLast e level)
    (List.range' level (e.path.length - 1 - level))

end TreeShape

/-- The places of the items of a tree in their order: the path of a key, and that of a value where
the node of the key has `N_DUP` and thus a tree of values, or a sub-page. -/
def places (outer : TreeShape) (dups : List Nat → Option TreeShape) :
    List (List Nat × List Nat) :=
  outer.keys.flatMap fun ki =>
    match dups ki with
    | none => [(ki, [])]
    | some v => v.keys.map fun path => (ki, path)

/-- A table: its items and its tree. -/
structure Content where
  items : List (Bytes × Bytes)
  outer : TreeShape
  dups : List Nat → Option TreeShape
  dups_nonempty : ∀ ki v, dups ki = some v → v.keys ≠ []
  sized : items.length = (places outer dups).length

/-- Where a cursor points: the stack of the table and the one of values, which is poor in a table
without `MDBX_DUPSORT` too. -/
structure Position where
  outer : CursorStack
  inner : CursorStack

/-- There is an item for the cursor. -/
def Position.filled (p : Position) : Bool :=
  p.outer.isFilled &&
    match p.inner with
    | .poor _ => true
    | .pointed _ _ => p.inner.isFilled

/-- How a call goes on that has removed nothing yet. -/
inductive Ending
  | stops (rc : Code)
  | removes
  /-- the stack of a poor cursor is read below its first element -/
  | undefined

namespace Content

variable (t : Content)

/-- The number of items before that of a cursor. -/
def index (p : Position) : Nat :=
  ((places t.outer t.dups).takeWhile (· != (p.outer.ki, p.inner.path))).length

/-! ### Moves -/

/-- `cursor_bring` at a key, to its first or last value. -/
def bring (p : Position) (tend2first : Bool) (ki : List Nat) : Position where
  outer := .pointed ki {}
  inner :=
    match t.dups ki with
    | none => .poor p.inner.ki
    | some v => .pointed ((if tend2first then v.keys.head? else v.keys.getLast?).getD []) {}

/-- `outer_first` -/
def outerFirst (p : Position) : Option Position :=
  t.outer.keys.head?.map (t.bring p true)

/-- `outer_last` -/
def outerLast (p : Position) : Option Position :=
  t.outer.keys.getLast?.map (t.bring p false)

/-- `outer_prev` with `MDBX_PREV_NODUP` -/
def outerPrev (p : Position) : Except Code Position :=
  (t.outer.stepBack p.outer).map (t.bring p false)

/-- `outer_next` with `MDBX_NEXT`, where the inner cursor is at its end. -/
def outerNext (p : Position) : Option Position :=
  match p.outer with
  | .poor _ => none
  | .pointed ki state =>
    if state.hollow then none
    else if state.afterDelete then
      if ki ∈ t.outer.keys then some (t.bring p true ki) else none
    else if state.eofHard then none
    else (t.outer.keys.dropWhile (· != ki)).tail.head?.map (t.bring p true)

theorem bring_filled (p : Position) (tend2first : Bool) (ki : List Nat) :
    (t.bring p tend2first ki).filled = true := by
  unfold bring Position.filled
  cases t.dups ki <;> rfl

theorem takeWhile_ne_append {α : Type} [BEq α] [LawfulBEq α] {l : List α} {x : α} (h : x ∈ l) :
    ∃ rest, l = l.takeWhile (· != x) ++ x :: rest := by
  induction l with
  | nil => cases h
  | cons a l ih =>
    by_cases ha : a = x
    · subst ha
      exact ⟨l, by simp⟩
    · obtain ⟨rest, hrest⟩ := ih ((List.mem_cons.mp h).resolve_left (Ne.symm ha))
      refine ⟨rest, ?_⟩
      rw [List.takeWhile_cons_of_pos (by simpa using ha), List.cons_append, ← hrest]

/-- A cursor at the place of an item has its item behind it. -/
theorem index_lt {p : Position} (h : (p.outer.ki, p.inner.path) ∈ places t.outer t.dups) :
    t.index p < t.items.length := by
  obtain ⟨rest, hrest⟩ := takeWhile_ne_append h
  have hlen := congrArg List.length hrest
  rw [List.length_append, List.length_cons] at hlen
  rw [t.sized]
  unfold index
  omega

/-- The last item of a table is one of it. -/
theorem index_outerLast {p e : Position} (h : t.outerLast p = some e) :
    t.index e < t.items.length := by
  obtain ⟨ki, hlast, rfl⟩ := Option.map_eq_some_iff.mp h
  apply index_lt
  unfold places
  refine List.mem_flatMap.mpr ⟨ki, List.mem_of_getLast? hlast, ?_⟩
  unfold bring
  cases hdups : t.dups ki with
  | none => simp [CursorStack.ki, CursorStack.path]
  | some v =>
    have hne := t.dups_nonempty ki v hdups
    simp only [CursorStack.ki, CursorStack.path, Bool.false_eq_true, ↓reduceIte]
    rw [List.getLast?_eq_getLast_of_ne_nil hne]
    exact List.mem_map_of_mem (List.getLast_mem hne)

/-! ### The way to the first removal -/

/-- `cursor_del` of the inner cursor. -/
def delInner (p : Position) : Ending :=
  if p.inner.isFilled then .removes
  else if p.inner.eofHard then
    match t.outerNext p with
    | none => .stops Code.enodata
    | some q => if q.inner.isFilled then .removes else .undefined
  else .stops Code.enodata

/-- `cutoff_leaf`: `cursor_del`, of one value or of all. -/
def cutoffLeaf (p : Position) (alldups : Bool) : Ending :=
  if !p.outer.isFilled then .stops Code.enodata
  else if alldups || (t.dups p.outer.ki).isNone then .removes
  else t.delInner p

/-- `cutoff_storey` for two stacks of the values of one key, of which `b` is before `e`. -/
def cutoffStoreyInner (b e : Position) (level : Nat) (including : Bool) : Ending :=
  match e.inner, t.dups e.outer.ki with
  | .pointed path state, some v =>
    let zikkurat := decide (level < path.length - 1)
    if v.keys.length ≤ 2 then t.cutoffLeaf b false
    else if zikkurat && v.cutoffZikkurat v.keys.length b.inner e.inner level including then .removes
    else if zikkurat && state.afterDelete && b.inner.afterDelete then .stops Code.success
    else if including && !(zikkurat && state.afterDelete) then t.delInner e
    else
      match v.stepBack e.inner with
      | .error rc => .stops rc
      | .ok ki => if ki == b.inner.path then t.cutoffLeaf b false else .removes
  | _, _ => .undefined

/-- The loop of `cutoff_storey`, and what follows it. -/
def storeyLoop (b e : Position) (including : Bool) : Ending :=
  if !b.outer.ahead e.outer then t.cutoffLeaf b true
  else if including then t.cutoffLeaf e true
  else
    match t.outerPrev e with
    | .error rc => .stops rc
    | .ok e => if e.outer.path == b.outer.path then t.cutoffLeaf b true else .removes

/-- `cutoff_storey` for two stacks of the table. -/
def cutoffStorey (b e : Position) (level : Nat) (including : Bool) : Ending :=
  let zikkurat := decide (level < e.outer.path.length - 1)
  let last := match t.dups e.outer.ki with
    | none => true
    | some v => v.onLast e.inner
  if zikkurat &&
      t.outer.cutoffZikkurat t.items.length b.outer e.outer level (including && last) then .removes
  else if zikkurat && e.outer.afterDelete && b.outer.afterDelete then .stops Code.success
  else t.storeyLoop b e (including && !(zikkurat && e.outer.afterDelete))

/-- The values of the key of `e` that are to go, or the end before that key if there are none. -/
def trimEnd (b e : Position) (including : Bool) : Except Ending (Position × Bool) :=
  match e.inner, t.dups e.outer.ki with
  | .poor _, _ => .ok (e, including)
  | .pointed _ _, none => .error .undefined
  | .pointed _ _, some v =>
    if including && v.onLast e.inner then .ok (e, including)
    else
      let head : Position := { e with inner := .pointed (v.keys.headD []) {} }
      match treeDiffLevel head.inner e.inner with
      | .before level => .error (t.cutoffStoreyInner head e level including)
      | _ =>
        if including then .error (t.cutoffLeaf e false)
        else
          match t.outerPrev e with
          | .error rc => .error (.stops rc)
          | .ok e =>
            match treeDiffLevel b.outer e.outer with
            | .before _ => .ok (e, true)
            | _ => .ok (e, false)

/-- The values of the key of `b` that are to go. -/
def trimBegin (b : Position) : Ending :=
  match t.dups b.outer.ki with
  | none => .undefined
  | some v =>
    let tail : Position := { b with inner := .pointed (v.keys.getLastD []) {} }
    match treeDiffLevel b.inner tail.inner with
    | .before level => t.cutoffStoreyInner b tail level true
    | _ => t.cutoffLeaf b false

/-- `tree_cutoff_range`, up to the first removal. -/
def firstRemoval (b e : Position) (including : Bool) : Ending :=
  let last := match t.dups e.outer.ki with
    | none => true
    | some v => v.onLast e.inner
  match treeDiffLevel b.outer e.outer with
  | .behind => .stops Code.enodata
  | .same =>
    match treeDiffLevel b.inner e.inner with
    | .behind => .stops Code.enodata
    | .same => if including then t.cutoffLeaf b false else .stops Code.success
    | .before level =>
      if including && b.inner.onFirst && last then t.cutoffLeaf b true
      else t.cutoffStoreyInner b e level including
  | .before level =>
    if including && b.outer.onFirst && t.outer.onLast e.outer && b.inner.onFirst && last then
      .removes
    else
      match t.trimEnd b e including with
      | .error ending => ending
      | .ok (e, including) =>
        if !b.inner.onFirst then t.trimBegin b else t.cutoffStorey b e level including

end Content

/-! ### The range -/

/-- A cursor of libmdbx: one that `cursor_check_rw` refuses with a code (unbound, or its transaction
is over, cannot write or has a problem), or one that is bound to a table of a transaction,
`front_txnid` and dbi, and may point into it. -/
inductive MdbxCursor
  | refused (e : Failure)
  | bound (table : UInt64 × Nat) (pointed : Option Position)

/-- The tables that cursors can be bound to. -/
abbrev Tables := UInt64 × Nat → Content

/-- The items of the tables. -/
abbrev Items := UInt64 × Nat → List (Bytes × Bytes)

def Tables.items (db : Tables) : Items := fun d => (db d).items

/-- What happens while a range is cut off. Between two items: a failure, and which of the items that
were to go are still there. From a cursor that is not on an item: a failure before anything has
gone, or what is there when something has; or, where the behaviour is undefined, anything. -/
structure Cutting where
  fails : Option Failure := none
  left : List Bool := []
  early : Option Failure := none
  rest : List (Bytes × Bytes) → List (Bytes × Bytes) × Code
  rest_shorter : ∀ l, l ≠ [] → (rest l).1.length < l.length
  wild : List (Bytes × Bytes) → List (Bytes × Bytes) × Code

/-- The items that a mask leaves. -/
def keep {α : Type} (l : List α) (mask : List Bool) : List α :=
  (l.zip mask).filterMap fun x => if x.2 then some x.1 else none

theorem keep_sublist {α : Type} (l : List α) (mask : List Bool) : (keep l mask).Sublist l := by
  induction l generalizing mask with
  | nil => simp [keep]
  | cons a l ih =>
    cases mask with
    | nil => simp [keep]
    | cons b mask =>
      cases b
      · exact (ih mask).cons a
      · exact (ih mask).cons_cons a

/-- `tree_cutoff_range`. For cursors on items the places are compared by the items before them. -/
def treeCutoffRange (o : Cutting) (t : Content) (begin_ end_ : Position) (including : Bool) :
    List (Bytes × Bytes) × Code :=
  if begin_.filled && end_.filled then
    let start := t.index begin_
    let stop := if including then t.index end_ + 1 else t.index end_
    if t.index end_ < start then (t.items, Code.enodata)
    else
      (t.items.take start ++ keep ((t.items.take stop).drop start) o.left ++ t.items.drop stop,
        Failure.codeOf o.fails)
  else
    match o.early, t.firstRemoval begin_ end_ including with
    | some e, _ => (t.items, e.code)
    | none, .stops rc => (t.items, rc)
    | none, .removes => o.rest t.items
    | none, .undefined => o.wild t.items

/-- The checks of a cursor that was passed. -/
def MdbxCursor.check : MdbxCursor → Except Code ((UInt64 × Nat) × Position)
  | .refused e => .error e.code
  | .bound _ none => .error Code.enodata
  | .bound d (some p) => .ok (d, p)

/-- `mdbx_cursor_delete_range`: the items of the tables, the code and the number of items that
went. -/
def mdbxCursorDeleteRange (o : Cutting) (db : Tables) (begin_ end_ : Option MdbxCursor)
    (including : Bool) : Items × Code × Nat :=
  let cut (d : UInt64 × Nat) (b e : Position) : Items × Code × Nat :=
    let r := treeCutoffRange o (db d) b e including
    (Function.update db.items d r.1, r.2, (db d).items.length - r.1.length)
  match begin_, end_ with
  | none, none => (db.items, Code.einval, 0)
  | some b, none =>
    match b.check with
    | .error rc => (db.items, rc, 0)
    | .ok (d, b) =>
      match (db d).outerLast b with
      | none => (db.items, Code.notFound, 0)
      | some e => cut d b e
  | none, some e =>
    match e.check with
    | .error rc => (db.items, rc, 0)
    | .ok (d, e) =>
      match (db d).outerFirst e with
      | none => (db.items, Code.notFound, 0)
      | some b => cut d b e
  | some b, some e =>
    match b.check, e.check with
    | .error rc, _ => (db.items, rc, 0)
    | .ok _, .error rc => (db.items, rc, 0)
    | .ok (d, b), .ok (d', e) => if d != d' then (db.items, Code.einval, 0) else cut d b e

end MdbxGo
