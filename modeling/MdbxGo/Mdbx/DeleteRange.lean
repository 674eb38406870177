import MdbxGo.Libmdbx.Cutoff
import MdbxGo.Mdbx.Txn

/-! `Cursor.DeleteRange`: which items it removes, and for which cursors the NULL that a closed one
becomes, or a cursor that is on no item, makes it break its bounds. -/

namespace MdbxGo

/-- A Go cursor; one that was never opened, or is closed, has no cursor of libmdbx. -/
structure Cursor where
  c : Option MdbxCursor

/-- `cptr` -/
def cptr : Option Cursor → Option MdbxCursor
  | none => none
  | some c => c.c

namespace Cursor

/-- `DeleteRange` -/
def deleteRange (o : Cutting) (db : Tables) (c : Cursor) (end_ : Option Cursor)
    (endIncluding : Bool) : Items × Nat × Option GoError :=
  let r := mdbxCursorDeleteRange o db c.c (cptr end_) endIncluding
  match operrno "mdbx_cursor_delete_range" r.2.1 with
  | some err => (r.1, 0, some err)
  | none => (r.1, r.2.2, none)

/-- The table that a cursor is bound to and the number of items before the one it is on. A cursor
that points into a table but is on no item, as a search that fails leaves it, has no position. -/
def onItem (db : Tables) (c : Cursor) : Option ((UInt64 × Nat) × Nat) :=
  match c.c with
  | some (.bound d (some p)) => if p.filled then some (d, (db d).index p) else none
  | _ => none

/-- All that went are items of one table between two positions. -/
def Within (db db' : Items) (d : UInt64 × Nat) (start stop : Nat) : Prop :=
  ∃ left : List (Bytes × Bytes), left.Sublist (((db d).take stop).drop start) ∧
    db' = Function.update db d ((db d).take start ++ left ++ (db d).drop (max start stop))

/-- A call that failed and left the tables alone. -/
def Rejected (db : Items) (r : Items × Nat × Option GoError) : Prop :=
  r.1 = db ∧ r.2.2 ≠ none

/-- The bounds that `DeleteRange` promises to respect, for what it was called with and did. -/
def Respected (db : Tables) (c : Cursor) (end_ : Option Cursor) (endIncluding : Bool)
    (r : Items × Nat × Option GoError) : Prop :=
  match c.onItem db, end_ with
  | none, _ => Rejected db.items r
  | some (d, start), none => Within db.items r.1 d start (db.items d).length
  | some (d, start), some e =>
    match e.onItem db with
    | none => Rejected db.items r
    | some (d', stop) =>
      if d = d' then Within db.items r.1 d start (if endIncluding then stop + 1 else stop)
      else Rejected db.items r

/-- A call ends with an error before anything has gone. -/
def Errs (ending : Ending) : Prop :=
  ∃ rc, ending = .stops rc ∧ operrno "mdbx_cursor_delete_range" rc ≠ none

/-- The places of two cursors of which libmdbx itself makes an error, before anything has gone. Of
two on items the end has to be before the begin. -/
def Stops (t : Content) (b e : Position) (endIncluding : Bool) : Prop :=
  if b.filled && e.filled then t.index e < t.index b
  else Errs (t.firstRemoval b e endIncluding)

/-- Where `DeleteRange` keeps its bounds: the checks stop the call, or the places that it goes by
do, or the receiver is on an item and the end is nil or on an item. -/
def RangeGiven (db : Tables) (c : Cursor) (end_ : Option Cursor) (endIncluding : Bool) : Prop :=
  match c.c.map MdbxCursor.check, (cptr end_).map MdbxCursor.check with
  | none, none => True
  | some (.error _), _ => True
  | _, some (.error _) => True
  | none, some (.ok (d, e)) => ∀ b ∈ (db d).outerFirst e, Stops (db d) b e endIncluding
  | some (.ok (d, b)), none =>
    b.filled = true ∧ end_ = none ∨ ∀ e ∈ (db d).outerLast b, Stops (db d) b e endIncluding
  | some (.ok (d, b)), some (.ok (d', e)) =>
    d ≠ d' ∨ b.filled = true ∧ e.filled = true ∨ Stops (db d) b e endIncluding

variable {o : Cutting} {db : Tables} {c : Cursor} {end_ : Option Cursor} {endIncluding : Bool}

theorem check_error {m : MdbxCursor} {rc : Code} (h : m.check = .error rc) :
    operrno "mdbx_cursor_delete_range" rc ≠ none := by
  rw [Ne, operrno_eq_none]
  unfold MdbxCursor.check at h
  split at h
  · rename_i e
    obtain rfl := Except.error.inj h
    simp [e.not_success, e.not_resultTrue]
  · obtain rfl := Except.error.inj h
    decide
  · cases h

theorem check_ok {m : MdbxCursor} {d : UInt64 × Nat} {p : Position} (h : m.check = .ok (d, p)) :
    m = .bound d (some p) := by
  unfold MdbxCursor.check at h
  split at h <;> cases h
  rfl

theorem onItem_bound (d : UInt64 × Nat) (p : Position) :
    onItem db ⟨some (.bound d (some p))⟩ =
      if p.filled then some (d, (db d).index p) else none := rfl

theorem cptr_some {m : MdbxCursor} (h : cptr end_ = some m) : end_ = some ⟨some m⟩ := by
  rcases end_ with _ | e
  · cases h
  · obtain ⟨ec⟩ := e
    obtain rfl : ec = some m := h
    rfl

/-- What Go makes of the call: a call is rejected by an error of libmdbx that left the items
alone. -/
theorem rejected_iff : Rejected db.items (deleteRange o db c end_ endIncluding) ↔
    (mdbxCursorDeleteRange o db c.c (cptr end_) endIncluding).1 = db.items ∧
      operrno "mdbx_cursor_delete_range"
        (mdbxCursorDeleteRange o db c.c (cptr end_) endIncluding).2.1 ≠ none := by
  unfold Rejected deleteRange
  dsimp only
  split
  · rename_i err herr
    simp [herr]
  · rename_i herr
    simp [herr]

theorem deleteRange_items :
    (deleteRange o db c end_ endIncluding).1 =
      (mdbxCursorDeleteRange o db c.c (cptr end_) endIncluding).1 := by
  unfold deleteRange
  dsimp only
  split <;> rfl

/-! ### What a cut leaves -/

theorem drop_take_append_drop {α : Type} (l : List α) {start stop : Nat} (h : start ≤ stop) :
    (l.take stop).drop start ++ l.drop stop = l.drop start := by
  have hdrop : l.drop stop = (l.drop start).drop (stop - start) := by
    rw [List.drop_drop, Nat.add_sub_cancel' h]
  rw [List.drop_take, hdrop, List.take_append_drop]

theorem Within.same (db : Items) (d : UInt64 × Nat) (start stop : Nat) :
    Within db db d start stop := by
  refine ⟨((db d).take stop).drop start, List.Sublist.refl _, ?_⟩
  have hitems :
      (db d).take start ++ ((db d).take stop).drop start ++ (db d).drop (max start stop) =
        db d := by
    by_cases h : start ≤ stop
    · rw [Nat.max_eq_right h, List.append_assoc, drop_take_append_drop _ h, List.take_append_drop]
    · have hnil : ((db d).take stop).drop start = [] := by
        apply List.drop_eq_nil_of_le
        rw [List.length_take]
        omega
      rw [Nat.max_eq_left (by omega), hnil, List.append_nil, List.take_append_drop]
  rw [hitems, Function.update_eq_self]

/-- A cut between two items keeps to them, also when it fails half-way. -/
theorem within_cutoff {d : UInt64 × Nat} {b e : Position} {stop : Nat} (hb : b.filled = true)
    (he : e.filled = true)
    (hstop : (if endIncluding then (db d).index e + 1 else (db d).index e) ≤ stop) :
    Within db.items
      (Function.update db.items d (treeCutoffRange o (db d) b e endIncluding).1) d
      ((db d).index b) stop := by
  unfold treeCutoffRange
  simp only [hb, he, Bool.and_self, ↓reduceIte]
  generalize (db d).index b = start
  by_cases hbefore : (db d).index e < start
  · simp only [hbefore, ↓reduceIte]
    have hsame : Function.update db.items d (db d).items = db.items :=
      Function.update_eq_self d db.items
    rw [hsame]
    exact Within.same db.items d start stop
  · simp only [hbefore, ↓reduceIte]
    generalize hs : (if endIncluding then (db d).index e + 1 else (db d).index e) = s at hstop
    have hle : start ≤ s := by
      split at hs <;> omega
    have hrange := drop_take_append_drop ((db d).items.take stop) hle
    rw [List.take_take, Nat.min_eq_left hstop] at hrange
    refine ⟨keep (((db d).items.take s).drop start) o.left ++ ((db d).items.take stop).drop s,
      ?_, ?_⟩
    · change List.Sublist _ (((db d).items.take stop).drop start)
      rw [← hrange]
      exact (keep_sublist _ _).append (List.Sublist.refl _)
    · change _ = Function.update db.items d ((db d).items.take start ++ _ ++
        (db d).items.drop (max start stop))
      rw [Nat.max_eq_right (Nat.le_trans hle hstop)]
      simp only [List.append_assoc, drop_take_append_drop (db d).items hstop]

/-- A call that was rejected respects all bounds. -/
theorem Rejected.respected {r : Items × Nat × Option GoError} (h : Rejected db.items r) :
    Respected db c end_ endIncluding r := by
  obtain ⟨hitems, herr⟩ := h
  have hwithin : ∀ d start stop, Within db.items r.1 d start stop := by
    intro d start stop
    rw [hitems]
    exact Within.same db.items d start stop
  unfold Respected
  split
  · exact ⟨hitems, herr⟩
  · exact hwithin _ _ _
  · split
    · exact ⟨hitems, herr⟩
    · split
      · exact hwithin _ _ _
      · exact ⟨hitems, herr⟩

/-! ### Where a cut stops -/

/-- What becomes of a cut between two places: it leaves the items and fails. -/
def Fails (o : Cutting) (t : Content) (b e : Position) (endIncluding : Bool) : Prop :=
  (treeCutoffRange o t b e endIncluding).1 = t.items ∧
    operrno "mdbx_cursor_delete_range" (treeCutoffRange o t b e endIncluding).2 ≠ none

variable {t : Content} {b e : Position}

theorem errs_stops {rc : Code} :
    Errs (.stops rc) ↔ operrno "mdbx_cursor_delete_range" rc ≠ none := by
  simp [Errs]

theorem not_errs_removes : ¬Errs .removes := by
  simp [Errs]

theorem Stops.fails (h : Stops t b e endIncluding) : Fails o t b e endIncluding := by
  unfold Stops at h
  unfold Fails treeCutoffRange
  by_cases hfilled : (b.filled && e.filled) = true
  · simp only [hfilled, ↓reduceIte] at h ⊢
    simp only [h, ↓reduceIte, true_and]
    decide
  · simp only [hfilled, Bool.false_eq_true, ↓reduceIte] at h ⊢
    obtain ⟨rc, hstops, hrc⟩ := h
    cases hearly : o.early with
    | none => simpa [hstops] using hrc
    | some f => simp [operrno_eq_none, f.not_success, f.not_resultTrue]

/-- The first item goes, and the cut ends at the cursor that is on no item. Whatever else a cut
removes would do as well. -/
def ended : Cutting where
  rest l := (l.tail, if l = [] then Code.success else Code.enodata)
  rest_shorter l hl := by
    have hlen := List.length_pos_iff.mpr hl
    rw [List.length_tail]
    omega
  wild l := (l, Code.success)

theorem stops_of_fails (h : Fails ended t b e endIncluding) : Stops t b e endIncluding := by
  have hsuccess : operrno "mdbx_cursor_delete_range" Code.success = none := by decide
  obtain ⟨hitems, herr⟩ := h
  unfold treeCutoffRange at hitems herr
  unfold Stops
  by_cases hfilled : (b.filled && e.filled) = true
  · simp only [hfilled, ↓reduceIte] at hitems herr ⊢
    by_contra hbefore
    simp only [hbefore, ↓reduceIte] at herr
    exact herr hsuccess
  · simp only [hfilled, Bool.false_eq_true, ↓reduceIte] at hitems herr ⊢
    cases hending : t.firstRemoval b e endIncluding with
    | stops rc =>
      simp only [ended, hending] at herr
      exact errs_stops.mpr herr
    | removes =>
      simp only [ended, hending] at hitems herr
      by_cases hnil : t.items = []
      · simp only [hnil, ↓reduceIte] at herr
        exact absurd hsuccess herr
      · have hshorter := ended.rest_shorter t.items hnil
        simp only [ended, hitems] at hshorter
        omega
    | undefined =>
      simp only [ended, hending] at herr
      exact absurd hsuccess herr

/-! ### Where every key has one value -/

/-- Of two places one before the other: no subtree between them goes, and what would go first is at
a cursor on no item, or the end cannot step back to it. -/
def Vacant (t : Content) (b e : Position) (level : Nat) (endIncluding : Bool) : Prop :=
  let across := level < e.outer.path.length - 1
  (across → t.outer.cutoffZikkurat t.items.length b.outer e.outer level endIncluding = false ∧
    ¬(e.outer.afterDelete = true ∧ b.outer.afterDelete = true)) ∧
  if b.outer.ahead e.outer = false then b.outer.isFilled = false
  else if endIncluding = true ∧ ¬(across ∧ e.outer.afterDelete = true) then
    e.outer.isFilled = false
  else ∀ e', t.outerPrev e = .ok e' → e'.outer.path = b.outer.path ∧ b.outer.isFilled = false

theorem stepBack_error {s : CursorStack} {v : TreeShape} {rc : Code}
    (h : v.stepBack s = .error rc) :
    operrno "mdbx_cursor_delete_range" rc ≠ none := by
  unfold TreeShape.stepBack at h
  repeat' split at h
  all_goals cases h
  all_goals decide

theorem errs_cutoffLeaf (hdups : ∀ ki, t.dups ki = none) (p : Position) (alldups : Bool) :
    Errs (t.cutoffLeaf p alldups) ↔ p.outer.isFilled = false := by
  unfold Content.cutoffLeaf
  cases p.outer.isFilled with
  | false =>
    simp only [Bool.not_false, ↓reduceIte, iff_true, errs_stops]
    decide
  | true => simp [hdups, not_errs_removes]

/-- The loop of `cutoff_storey`, up to the first item. -/
theorem errs_storeyLoop (hdups : ∀ ki, t.dups ki = none) (including : Bool) :
    Errs (t.storeyLoop b e including) ↔
      if b.outer.ahead e.outer = false then b.outer.isFilled = false
      else if including = true then e.outer.isFilled = false
      else ∀ e', t.outerPrev e = .ok e' →
        e'.outer.path = b.outer.path ∧ b.outer.isFilled = false := by
  unfold Content.storeyLoop
  cases b.outer.ahead e.outer with
  | false => simp [errs_cutoffLeaf hdups]
  | true =>
    cases including with
    | true => simp [errs_cutoffLeaf hdups]
    | false =>
      cases hprev : t.outerPrev e with
      | error rc =>
        have herr : operrno "mdbx_cursor_delete_range" rc ≠ none := by
          unfold Content.outerPrev at hprev
          cases hback : t.outer.stepBack e.outer with
          | error rc' =>
            obtain rfl : rc' = rc := by simpa [hback, Except.map] using hprev
            exact stepBack_error hback
          | ok ki => simp [hback, Except.map] at hprev
        simpa [errs_stops] using herr
      | ok e' =>
        by_cases hplace : e'.outer.path = b.outer.path
        · simp [hplace, errs_cutoffLeaf hdups]
        · simp [hplace, not_errs_removes]

theorem errs_cutoffStorey (hdups : ∀ ki, t.dups ki = none) (level : Nat) :
    Errs (t.cutoffStorey b e level endIncluding) ↔ Vacant t b e level endIncluding := by
  have hsuccess : ¬Errs (.stops Code.success) := by
    rw [errs_stops]
    decide
  unfold Content.cutoffStorey Vacant
  simp only [hdups, Bool.and_true]
  by_cases hacross : level < e.outer.path.length - 1
  · cases t.outer.cutoffZikkurat t.items.length b.outer e.outer level endIncluding with
    | true => simp [hacross, not_errs_removes]
    | false =>
      by_cases hdeleted : e.outer.afterDelete = true ∧ b.outer.afterDelete = true
      · simp [hacross, hdeleted, hsuccess]
      · have hloop := @errs_storeyLoop t b e hdups (endIncluding && !e.outer.afterDelete)
        simpa [hacross, hdeleted] using hloop
  · have hloop := @errs_storeyLoop t b e hdups endIncluding
    simpa [hacross] using hloop

/-- Where a key has one value, a call with a cursor that is on no item stops if the end lies before
the begin, if both are at one place and the end is included, or if the range is not the whole table
and what would go first is at a cursor on no item. -/
theorem stops_single_iff {kb ke : List Nat} (hdups : ∀ ki, t.dups ki = none)
    (hb : b.inner = .poor kb) (he : e.inner = .poor ke) (hitems : (b.filled && e.filled) = false) :
    Stops t b e endIncluding ↔
      match treeDiffLevel b.outer e.outer with
      | .behind => True
      | .same => endIncluding = true ∧ b.filled = false
      | .before level =>
        ¬(endIncluding = true ∧ b.outer.onFirst = true ∧ t.outer.onLast e.outer = true) ∧
          Vacant t b e level endIncluding := by
  have hfilled : b.filled = b.outer.isFilled := by simp [Position.filled, hb]
  have hstops : Stops t b e endIncluding ↔ Errs (t.firstRemoval b e endIncluding) := by
    simp [Stops, Errs, hitems]
  have hinner : treeDiffLevel b.inner e.inner = .same := by
    simp [hb, treeDiffLevel, CursorStack.path]
  have hfirst : b.inner.onFirst = true := by simp [hb, CursorStack.onFirst, CursorStack.path]
  have htrim : t.trimEnd b e endIncluding = .ok (e, endIncluding) := by
    simp [Content.trimEnd, he]
  rw [hstops, hfilled]
  unfold Content.firstRemoval
  simp only [hdups, hinner, hfirst, htrim, Bool.and_true, Bool.not_true, Bool.false_eq_true,
    ↓reduceIte]
  cases treeDiffLevel b.outer e.outer with
  | behind =>
    simp only [iff_true, errs_stops]
    decide
  | same =>
    cases endIncluding with
    | true => simp [errs_cutoffLeaf hdups]
    | false =>
      simp only [Bool.false_eq_true, ↓reduceIte, false_and, iff_false, errs_stops]
      decide
  | before level =>
    by_cases hwhole : endIncluding = true ∧ b.outer.onFirst = true ∧ t.outer.onLast e.outer = true
    · simp [hwhole, not_errs_removes]
    · have hstorey := @errs_cutoffStorey endIncluding t b e hdups level
      simpa [hwhole, and_assoc] using hstorey

/-! ### The bounds -/

variable {m : MdbxCursor} {d : UInt64 × Nat}

/-- The call comes to a cut between two places. -/
def Cuts (db : Tables) (c : Cursor) (end_ : Option Cursor) (endIncluding : Bool)
    (d : UInt64 × Nat) (b e : Position) : Prop :=
  ∀ o, ∃ n, mdbxCursorDeleteRange o db c.c (cptr end_) endIncluding =
    (Function.update db.items d (treeCutoffRange o (db d) b e endIncluding).1,
      (treeCutoffRange o (db d) b e endIncluding).2, n)

/-- The call is over before, with an error. -/
def Refused (db : Tables) (c : Cursor) (end_ : Option Cursor) (endIncluding : Bool) : Prop :=
  ∀ o, ∃ rc, mdbxCursorDeleteRange o db c.c (cptr end_) endIncluding = (db.items, rc, 0) ∧
    operrno "mdbx_cursor_delete_range" rc ≠ none

theorem Refused.respected (h : Refused db c end_ endIncluding) (o : Cutting) :
    Respected db c end_ endIncluding (deleteRange o db c end_ endIncluding) := by
  obtain ⟨rc, hcall, hrc⟩ := h o
  apply Rejected.respected
  rw [rejected_iff, hcall]
  exact ⟨rfl, hrc⟩

/-- It is rejected, whatever happens, exactly where libmdbx makes an error of the two places. -/
theorem Cuts.rejected_iff (h : Cuts db c end_ endIncluding d b e) :
    (∀ o, Rejected db.items (deleteRange o db c end_ endIncluding)) ↔
      Stops (db d) b e endIncluding := by
  have hfails : ∀ o, Rejected db.items (deleteRange o db c end_ endIncluding) ↔
      Fails o (db d) b e endIncluding := by
    intro o
    obtain ⟨n, hcall⟩ := h o
    rw [Cursor.rejected_iff, hcall, Function.update_eq_self_iff]
    rfl
  constructor
  · intro hrejected
    exact stops_of_fails ((hfails ended).mp (hrejected ended))
  · intro hstops o
    exact (hfails o).mpr hstops.fails

theorem refused_begin {rc : Code} (hm : m.check = .error rc) :
    Refused db ⟨some m⟩ end_ endIncluding := by
  intro o
  refine ⟨rc, ?_, check_error hm⟩
  rcases he : cptr end_ with _ | m' <;> simp only [mdbxCursorDeleteRange, hm]

theorem refused_end {rc : Code} (he : cptr end_ = some m) (hm : m.check = .error rc)
    (hbegin : ∀ rc' m', c.c = some m' → m'.check ≠ .error rc') :
    Refused db c end_ endIncluding := by
  intro o
  refine ⟨rc, ?_, check_error hm⟩
  rcases hc : c.c with _ | m'
  · simp only [mdbxCursorDeleteRange, he, hm]
  · rcases hm' : m'.check with rc' | ⟨d, p⟩
    · exact absurd hm' (hbegin rc' m' hc)
    · simp only [mdbxCursorDeleteRange, he, hm, hm']

theorem cuts_from_first (he : cptr end_ = some (.bound d (some e)))
    (hfirst : (db d).outerFirst e = some b) : Cuts db ⟨none⟩ end_ endIncluding d b e := by
  intro o
  simp only [mdbxCursorDeleteRange, MdbxCursor.check, he, hfirst]
  exact ⟨_, rfl⟩

theorem cuts_to_last (he : cptr end_ = none) (hlast : (db d).outerLast b = some e) :
    Cuts db ⟨some (.bound d (some b))⟩ end_ endIncluding d b e := by
  intro o
  simp only [mdbxCursorDeleteRange, MdbxCursor.check, he, hlast]
  exact ⟨_, rfl⟩

theorem cuts_between (he : cptr end_ = some (.bound d (some e))) :
    Cuts db ⟨some (.bound d (some b))⟩ end_ endIncluding d b e := by
  intro o
  simp only [mdbxCursorDeleteRange, MdbxCursor.check, he, bne_self_eq_false, Bool.false_eq_true,
    ↓reduceIte]
  exact ⟨_, rfl⟩

theorem outerLast_filled {t : Content} {p e : Position} (h : t.outerLast p = some e) :
    e.filled = true := by
  obtain ⟨ki, -, rfl⟩ := Option.map_eq_some_iff.mp h
  exact t.bring_filled p false ki

/-- From an item to the end of the table, or to another item, the cut keeps to its bounds. -/
theorem Cuts.within {stop : Nat} (h : Cuts db c end_ endIncluding d b e) (hb : b.filled = true)
    (he : e.filled = true)
    (hstop : (if endIncluding then (db d).index e + 1 else (db d).index e) ≤ stop) :
    Within db.items (deleteRange o db c end_ endIncluding).1 d ((db d).index b) stop := by
  obtain ⟨n, hcall⟩ := h o
  rw [deleteRange_items, hcall]
  exact within_cutoff hb he hstop

/-- With the receiver closed. -/
theorem respected_closed_iff :
    (∀ o, Respected db ⟨none⟩ end_ endIncluding (deleteRange o db ⟨none⟩ end_ endIncluding)) ↔
      RangeGiven db ⟨none⟩ end_ endIncluding := by
  rcases he : cptr end_ with _ | m
  · have hrefused : Refused db ⟨none⟩ end_ endIncluding := by
      intro o
      exact ⟨Code.einval, by simp only [mdbxCursorDeleteRange, he], by decide⟩
    simp [RangeGiven, he, hrefused.respected]
  · rcases hm : m.check with rc | ⟨d, e⟩
    · have hrefused : Refused db ⟨none⟩ end_ endIncluding :=
        refused_end he hm (by rintro rc' m' ⟨⟩)
      simp [RangeGiven, he, hm, hrefused.respected]
    · obtain rfl := check_ok hm
      cases hfirst : (db d).outerFirst e with
      | none =>
        have hrefused : Refused db ⟨none⟩ end_ endIncluding := by
          intro o
          exact ⟨Code.notFound, by simp only [mdbxCursorDeleteRange, he, hm, hfirst], by decide⟩
        simp [RangeGiven, he, hm, hfirst, hrefused.respected]
      | some b =>
        have hcuts : Cuts db ⟨none⟩ end_ endIncluding d b e := cuts_from_first he hfirst
        have hgiven : RangeGiven db ⟨none⟩ end_ endIncluding ↔ Stops (db d) b e endIncluding := by
          simp [RangeGiven, he, hm, hfirst]
        rw [hgiven]
        exact hcuts.rejected_iff

/-- With the end nil or closed. -/
theorem respected_to_last_iff (he : cptr end_ = none) :
    (∀ o, Respected db ⟨some (.bound d (some b))⟩ end_ endIncluding
      (deleteRange o db ⟨some (.bound d (some b))⟩ end_ endIncluding)) ↔
      RangeGiven db ⟨some (.bound d (some b))⟩ end_ endIncluding := by
  cases hlast : (db d).outerLast b with
  | none =>
    have hrefused : Refused db ⟨some (.bound d (some b))⟩ end_ endIncluding := by
      intro o
      exact ⟨Code.notFound, by simp only [mdbxCursorDeleteRange, MdbxCursor.check, he, hlast],
        by decide⟩
    simp [RangeGiven, MdbxCursor.check, he, hlast, hrefused.respected]
  | some e =>
    have hcuts : Cuts db ⟨some (.bound d (some b))⟩ end_ endIncluding d b e :=
      cuts_to_last he hlast
    have hgiven : RangeGiven db ⟨some (.bound d (some b))⟩ end_ endIncluding ↔
        b.filled = true ∧ end_ = none ∨ Stops (db d) b e endIncluding := by
      simp [RangeGiven, MdbxCursor.check, he, hlast]
    rw [hgiven]
    by_cases hto : b.filled = true ∧ end_ = none
    · obtain ⟨hb, rfl⟩ := hto
      simp only [hb, true_and, true_or, iff_true, Respected, onItem_bound, ↓reduceIte]
      intro o
      apply hcuts.within hb (outerLast_filled hlast)
      have hlt := (db d).index_outerLast hlast
      change _ ≤ (db d).items.length
      split <;> omega
    · have hrejected : ∀ r, Respected db ⟨some (.bound d (some b))⟩ end_ endIncluding r ↔
          Rejected db.items r := by
        intro r
        by_cases hb : b.filled = true
        · obtain ⟨ec, rfl⟩ := Option.ne_none_iff_exists'.mp fun hnone => hto ⟨hb, hnone⟩
          obtain ⟨ec⟩ := ec
          obtain rfl : ec = none := he
          simp [Respected, hb, onItem]
        · simp [Respected, onItem_bound, hb]
      simp only [hto, false_or, hrejected]
      exact hcuts.rejected_iff

/-- With both cursors pointed into tables. -/
theorem respected_between_iff {d' : UInt64 × Nat} (he : end_ = some ⟨some (.bound d' (some e))⟩) :
    (∀ o, Respected db ⟨some (.bound d (some b))⟩ end_ endIncluding
      (deleteRange o db ⟨some (.bound d (some b))⟩ end_ endIncluding)) ↔
      RangeGiven db ⟨some (.bound d (some b))⟩ end_ endIncluding := by
  subst he
  by_cases hd : d = d'
  · subst hd
    have hcuts : Cuts db ⟨some (.bound d (some b))⟩ (some ⟨some (.bound d (some e))⟩)
        endIncluding d b e := cuts_between rfl
    have hgiven : RangeGiven db ⟨some (.bound d (some b))⟩ (some ⟨some (.bound d (some e))⟩)
        endIncluding ↔ b.filled = true ∧ e.filled = true ∨ Stops (db d) b e endIncluding := by
      simp [RangeGiven, MdbxCursor.check, cptr]
    rw [hgiven]
    by_cases hitems : b.filled = true ∧ e.filled = true
    · obtain ⟨hb, hfilled⟩ := hitems
      simp only [hb, hfilled, true_and, true_or, iff_true, Respected, onItem_bound, ↓reduceIte]
      intro o
      exact hcuts.within hb hfilled (Nat.le_refl _)
    · have hrejected : ∀ r, Respected db ⟨some (.bound d (some b))⟩
          (some ⟨some (.bound d (some e))⟩) endIncluding r ↔ Rejected db.items r := by
        intro r
        by_cases hb : b.filled = true
        · have hfilled : ¬e.filled = true := fun hfilled => hitems ⟨hb, hfilled⟩
          simp [Respected, onItem_bound, hb, hfilled]
        · simp [Respected, onItem_bound, hb]
      simp only [hitems, false_or, hrejected]
      exact hcuts.rejected_iff
  · have hrefused : Refused db ⟨some (.bound d (some b))⟩ (some ⟨some (.bound d' (some e))⟩)
        endIncluding := by
      intro o
      refine ⟨Code.einval, ?_, by decide⟩
      simp [mdbxCursorDeleteRange, MdbxCursor.check, cptr, hd]
    simp [RangeGiven, MdbxCursor.check, cptr, hd, hrefused.respected]

/-- A table of three items on one page. -/
def threeItems : Tables := fun _ => {
  items := [([1], [1]), ([2], [2]), ([3], [3])]
  outer := { height := 1, numkeys := fun _ => 3 }
  dups := fun _ => none
  dups_nonempty := by simp
  sized := by decide }

/-- A cursor on one of them. -/
def onThreeItems (n : Nat) : Cursor :=
  ⟨some (.bound (7, 2) (some ⟨.pointed [n] {}, .poor []⟩))⟩

end Cursor

end MdbxGo
