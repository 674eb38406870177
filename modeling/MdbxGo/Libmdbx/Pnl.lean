import Mathlib.Algebra.Group.Nat.Defs
import Mathlib.Data.List.Nodup
import Mathlib.Data.List.Range
import MdbxGo.Search
import MdbxGo.Falling

/-! Page number lists (`pnl_t`): a cell with the length, then the page numbers from the greatest to
the least. -/

namespace MdbxGo

open Falling

/-- The cells of a list, of which cell 0 is the length. What lies beyond the length is left over
from before. -/
abbrev Pnl := Nat → Nat

/-- `pnl_size`. -/
abbrev Pnl.size (pnl : Pnl) : Nat := pnl 0

/-- `pnl[i] = x`. -/
def Pnl.set (pnl : Pnl) (i x : Nat) : Pnl := fun j => if j = i then x else pnl j

/-- `pnl_setsize`. -/
def Pnl.setsize (pnl : Pnl) (len : Nat) : Pnl := pnl.set 0 len

/-- `MDBX_PNL_ORDERED`. -/
abbrev pnlOrdered (first last : Nat) : Bool := decide (last < first)

/-- `MDBX_PNL_CONTIGUOUS`, with the difference of two page numbers as 32 bits hold it. -/
def pnlContiguous (prev next span : Nat) : Bool := (prev + 2 ^ 32 - next) % 2 ^ 32 == span

def maxPageno : Nat := 0x7FFFFFFF

/-- `MIN_PAGENO`: the pages below it are the meta pages. -/
def numMetas : Nat := 3

/-- `P_INVALID`. -/
def pInvalid : Nat := 2 ^ 32 - 1

/-- The page is in the list. -/
def Pnl.Has (pnl : Pnl) (pgno : Nat) : Prop := Holds pnl 0 pnl.size pgno

/-- What `pnl_check` wants of a list: falling page numbers between the meta pages and `limit`. -/
structure Pnl.Sorted (pnl : Pnl) (limit : Nat) : Prop where
  falls : Falls pnl 0 pnl.size
  above : ∀ pgno, pnl.Has pgno → numMetas ≤ pgno
  below : ∀ pgno, pnl.Has pgno → pgno < limit

/-- The pages in the order of their cells. -/
def Pnl.pages (pnl : Pnl) : List Nat := (List.range pnl.size).map fun i => pnl (i + 1)

/-- A list with these pages. -/
def Pnl.ofList (l : List Nat) : Pnl := fun i => if i = 0 then l.length else l.getD (i - 1) 0

/-! ### Cells -/

section Cells

variable {pnl : Pnl} {i j x len limit limit' pgno prev next span : Nat}

@[simp] theorem Pnl.set_same : pnl.set i x i = x := by
  simp [Pnl.set]

theorem Pnl.set_other (h : j ≠ i) : pnl.set i x j = pnl j := by
  simp [Pnl.set, h]

@[simp] theorem Pnl.setsize_size : (pnl.setsize len).size = len := Pnl.set_same

theorem Pnl.setsize_cell (h : 0 < i) : pnl.setsize len i = pnl i := Pnl.set_other (by omega)

theorem Pnl.Sorted.mono (h : pnl.Sorted limit) (hle : limit ≤ limit') : pnl.Sorted limit' :=
  ⟨h.falls, h.above, fun pgno hin => Nat.lt_of_lt_of_le (h.below pgno hin) hle⟩

theorem Pnl.has_cell (hlo : 0 < i) (hhi : i ≤ pnl.size) : pnl.Has (pnl i) := Holds.cell hlo hhi

/-- Truncating a list leaves its first cells. -/
theorem Pnl.has_setsize : (pnl.setsize len).Has pgno ↔ Holds pnl 0 len pgno := by
  rw [Pnl.Has, Pnl.setsize_size]
  apply holds_congr
  intro i hlo hhi
  exact Pnl.setsize_cell hlo

theorem pnlContiguous_iff (hle : next ≤ prev) (hprev : prev < 2 ^ 32) :
    pnlContiguous prev next span = true ↔ prev = next + span := by
  rw [pnlContiguous, beq_iff_eq]
  have hwrap : (prev + 2 ^ 32 - next) % 2 ^ 32 = prev - next := by
    have hsplit : prev + 2 ^ 32 - next = (prev - next) + 2 ^ 32 := by omega
    rw [hsplit, Nat.add_mod_right]
    exact Nat.mod_eq_of_lt (by omega)
  rw [hwrap]
  omega

/-- In a falling list two cells that differ by their distance have everything between them. -/
theorem Pnl.Sorted.solid (h : pnl.Sorted limit) (hlo : 0 < i) (hij : i ≤ j) (hhi : j ≤ pnl.size)
    (hdiff : pnl i ≤ pnl j + (j - i)) (k : Nat) (hk : i ≤ k) (hkj : k ≤ j) :
    pnl k = pnl j + (j - k) := by
  -- Each cell is at least one above the next, so none can be more than one above it.
  have hfall (a b : Nat) (ha : 0 < a) (hab : a ≤ b) (hb : b ≤ pnl.size) :
      pnl b + (b - a) ≤ pnl a := by
    induction b, hab using Nat.le_induction with
    | base => omega
    | succ b hab ih =>
      have hlt := h.falls b (b + 1) (by omega) (by omega) hb
      have hle := ih (by omega)
      omega
  have hhead := hfall i k hlo hk (by omega)
  have htail := hfall k j (by omega) hkj hhi
  omega

theorem Pnl.mem_pages : pgno ∈ pnl.pages ↔ pnl.Has pgno := by
  simp only [Pnl.pages, List.mem_map, List.mem_range]
  constructor
  · rintro ⟨i, hi, rfl⟩
    exact Pnl.has_cell (by omega) (by omega)
  · rintro ⟨i, hlo, hhi, rfl⟩
    refine ⟨i - 1, by omega, ?_⟩
    have hback : i - 1 + 1 = i := by omega
    rw [hback]

theorem Pnl.Sorted.nodup (h : pnl.Sorted limit) : pnl.pages.Nodup := by
  apply (List.nodup_map_iff_inj_on List.nodup_range).mpr
  intro i hi j hj heq
  rw [List.mem_range] at hi hj
  have hsame := h.falls.inj (by omega) (by omega) (by omega) (by omega) heq
  omega

theorem Pnl.pages_ofList (l : List Nat) : (Pnl.ofList l).pages = l := by
  apply List.ext_getElem
  · simp [Pnl.pages, Pnl.ofList]
  · intro i hi hi'
    simp [Pnl.pages, Pnl.ofList, List.getD_eq_getElem?_getD, List.getElem?_eq_getElem hi']

end Cells

/-! ### The check of a list -/

/-- The scan of `pnl_check`: `left` cells after cell `i` are each below the one before. -/
def pnlCheckScan (pnl : Pnl) : Nat → Nat → Bool
  | 0, _ => true
  | left + 1, i =>
    if !pnlOrdered (pnl i) (pnl (i + 1)) then false else pnlCheckScan pnl left (i + 1)

/-- `pnl_check`, with the validation that is on unless a build disables it. -/
def pnlCheck (pnl : Pnl) (limit : Nat) : Bool :=
  if pnl.size ≠ 0 then
    if pnl.size > maxPageno then false
    else if pnl pnl.size < numMetas then false
    else if pnl 1 ≥ limit then false
    else if pnl.size > 1 then pnlCheckScan pnl (pnl.size - 1) 1
    else true
  else true

section Check

variable {pnl : Pnl} {limit left i : Nat}

theorem pnlCheckScan_iff :
    pnlCheckScan pnl left i = true ↔ ∀ j, i ≤ j → j < i + left → pnl (j + 1) < pnl j := by
  induction left generalizing i with
  | zero =>
    rw [pnlCheckScan]
    exact ⟨fun _ j hlo hhi => by omega, fun _ => rfl⟩
  | succ left ih =>
    rw [pnlCheckScan]
    by_cases hfirst : pnl (i + 1) < pnl i
    · have hord : pnlOrdered (pnl i) (pnl (i + 1)) = true := decide_eq_true hfirst
      rw [hord, Bool.not_true, if_neg Bool.false_ne_true, ih]
      constructor
      · intro hrest j hlo hhi
        by_cases heq : j = i
        · rw [heq]
          exact hfirst
        · exact hrest j (by omega) (by omega)
      · intro hall j hlo hhi
        exact hall j (by omega) (by omega)
    · have hord : pnlOrdered (pnl i) (pnl (i + 1)) = false := decide_eq_false hfirst
      rw [hord, Bool.not_false, if_pos rfl]
      constructor
      · intro hfalse
        exact absurd hfalse Bool.false_ne_true
      · intro hall
        exact absurd (hall i (Nat.le_refl i) (by omega)) hfirst

/-- The check says whether a list is sorted, as long as its length is one that a list can have. -/
theorem pnlCheck_iff (hsize : pnl.size ≤ maxPageno) :
    pnlCheck pnl limit = true ↔ pnl.Sorted limit := by
  rw [pnlCheck]
  by_cases hzero : pnl.size = 0
  · have hnone (x : Nat) : ¬ pnl.Has x := by
      rw [Pnl.Has, hzero]
      exact holds_empty (Nat.le_refl 0)
    rw [if_neg (not_not.mpr hzero)]
    refine ⟨fun _ => ⟨?_, fun x hx => absurd hx (hnone x), fun x hx => absurd hx (hnone x)⟩,
      fun _ => rfl⟩
    intro i j hlo hij hhi
    omega
  · have hpos : 0 < pnl.size := by omega
    rw [if_pos hzero, if_neg (Nat.not_lt.mpr hsize)]
    constructor
    · intro hcheck
      by_cases hmin : pnl pnl.size < numMetas
      · rw [if_pos hmin] at hcheck
        exact absurd hcheck Bool.false_ne_true
      · rw [if_neg hmin] at hcheck
        by_cases hmax : pnl 1 ≥ limit
        · rw [if_pos hmax] at hcheck
          exact absurd hcheck Bool.false_ne_true
        · rw [if_neg hmax] at hcheck
          have hfalls : Falls pnl 0 pnl.size := by
            apply falls_of_step
            intro j hlo hhi
            rw [if_pos (by omega), pnlCheckScan_iff] at hcheck
            exact hcheck j (by omega) (by omega)
          refine ⟨hfalls, ?_, ?_⟩
          · rintro x ⟨j, hlo, hhi, rfl⟩
            have hle := hfalls.le hlo hhi (Nat.le_refl _)
            omega
          · rintro x ⟨j, hlo, hhi, rfl⟩
            have hle := hfalls.le Nat.one_pos hlo hhi
            omega
    · intro h
      rw [if_neg (Nat.not_lt.mpr (h.above _ (Pnl.has_cell hpos (Nat.le_refl _)))),
        if_neg (Nat.not_le.mpr (h.below _ (Pnl.has_cell Nat.one_pos hpos)))]
      by_cases hmore : pnl.size > 1
      · rw [if_pos hmore, pnlCheckScan_iff]
        intro j hlo hhi
        exact h.falls j (j + 1) (by omega) (by omega) (by omega)
      · rw [if_neg hmore]

end Check

/-! ### Loops over cells -/

/-- `for (i; count; ++i, --count) pnl[i] = pnl[i + span]`. -/
def Pnl.pullDown (span : Nat) : Nat → Nat → Pnl → Pnl
  | 0, _, pnl => pnl
  | count + 1, i, pnl => Pnl.pullDown span count (i + 1) (pnl.set i (pnl (i + span)))

/-- `do { pnl[w--] = pgno; pgno += step; } while (--n)`. -/
def Pnl.fillDown (step : Nat) : Nat → Nat → Nat → Pnl → Pnl
  | 0, _, _, pnl => pnl
  | n + 1, w, pgno, pnl => Pnl.fillDown step n (w - 1) (pgno + step) (pnl.set w pgno)

/-- `memcpy` and `memmove` of `count` cells that begin at cell `start` of `src` to cell `at'`. -/
def Pnl.copy (pnl src : Pnl) (at' start count : Nat) : Pnl := fun i =>
  if at' ≤ i ∧ i < at' + count then src (i - at' + start) else pnl i

section Loops

variable {pnl src : Pnl} {span count i j n w pgno step at' start : Nat}

theorem Pnl.pullDown_cell (hspan : 0 < span) (j : Nat) :
    Pnl.pullDown span count i pnl j =
      if i ≤ j ∧ j < i + count then pnl (j + span) else pnl j := by
  induction count generalizing i pnl with
  | zero =>
    have hout : ¬ (i ≤ j ∧ j < i + 0) := by omega
    rw [Pnl.pullDown, if_neg hout]
  | succ count ih =>
    rw [Pnl.pullDown, ih]
    by_cases hin : i + 1 ≤ j ∧ j < i + 1 + count
    · have hin' : i ≤ j ∧ j < i + (count + 1) := by omega
      rw [if_pos hin, if_pos hin', Pnl.set_other (by omega)]
    · rw [if_neg hin]
      by_cases hfirst : j = i
      · subst hfirst
        rw [Pnl.set_same, if_pos (by omega)]
      · have hout : ¬ (i ≤ j ∧ j < i + (count + 1)) := by omega
        rw [Pnl.set_other hfirst, if_neg hout]

theorem Pnl.fillDown_cell (hw : n ≤ w) (j : Nat) :
    Pnl.fillDown step n w pgno pnl j =
      if w - n < j ∧ j ≤ w then pgno + (w - j) * step else pnl j := by
  induction n generalizing w pgno pnl with
  | zero =>
    have hout : ¬ (w - 0 < j ∧ j ≤ w) := by omega
    rw [Pnl.fillDown, if_neg hout]
  | succ n ih =>
    rw [Pnl.fillDown, ih (by omega)]
    by_cases hlast : j = w
    · subst hlast
      have hout : ¬ (j - 1 - n < j ∧ j ≤ j - 1) := by omega
      rw [if_neg hout, Pnl.set_same, if_pos (by omega), Nat.sub_self, Nat.zero_mul, Nat.add_zero]
    · by_cases hin : w - 1 - n < j ∧ j ≤ w - 1
      · have hin' : w - (n + 1) < j ∧ j ≤ w := by omega
        have hone : w - j = w - 1 - j + 1 := by omega
        rw [if_pos hin, if_pos hin', hone, Nat.succ_mul]
        omega
      · have hout : ¬ (w - (n + 1) < j ∧ j ≤ w) := by omega
        rw [if_neg hin, if_neg hout, Pnl.set_other hlast]

end Loops

/-! ### Search -/

/-- `pnl_search`, with the binary search of the build. -/
def pnlSearch (cmov : Bool) (pnl : Pnl) (pgno : Nat) : Nat :=
  let cmp := fun i => pnlOrdered (pnl i) pgno
  if cmov then Search.bsearchCmov cmp 1 pnl.size else Search.bsearchBranch cmp 1 pnl.size

section Search

variable {cmov : Bool} {pnl : Pnl} {limit pgno i : Nat}

/-- Both searches return the place of the first page that is not above the one looked for. -/
theorem pnlSearch_bound (h : pnl.Sorted limit) :
    Search.Bound (fun i => pnlOrdered (pnl i) pgno) 1 (1 + pnl.size) (pnlSearch cmov pnl pgno) := by
  have hstays (i j : Nat) (hi : 1 ≤ i) (hij : i ≤ j) (hj : j < 1 + pnl.size)
      (hp : pnlOrdered (pnl j) pgno = true) : pnlOrdered (pnl i) pgno = true := by
    rw [decide_eq_true_eq] at hp ⊢
    exact Nat.lt_of_lt_of_le hp (h.falls.le (by omega) hij (by omega))
  obtain ⟨r, hr⟩ := Search.Bound.exists (by omega) hstays
  have heq : pnlSearch cmov pnl pgno = r := by
    cases cmov with
    | true => exact Search.bsearchCmov_eq hr
    | false => exact Search.bsearchBranch_eq hr
  rw [heq]
  exact hr

theorem lt_pnlSearch_iff (h : pnl.Sorted limit) (hlo : 0 < i) (hhi : i ≤ pnl.size) :
    i < pnlSearch cmov pnl pgno ↔ pgno < pnl i := by
  have hbound := @pnlSearch_bound cmov pnl limit pgno h
  constructor
  · intro hlt
    exact of_decide_eq_true (hbound.before i hlo hlt)
  · intro hlt
    exact hbound.lt_of_true (by omega) (decide_eq_true hlt)

end Search

/-! ### Appending and inserting -/

/-- `pnl_append_prereserved`. -/
def pnlAppend (pnl : Pnl) (pgno : Nat) : Pnl := (pnl.setsize (pnl.size + 1)).set (pnl.size + 1) pgno

/-- `pnl_append_stepped`, once the cells are reserved. -/
def pnlAppendStepped (step : Nat) (pnl : Pnl) (pgno n : Nat) : Pnl :=
  if n = 1 then pnlAppend pnl pgno
  else
    let w := pnl.size + n
    Pnl.fillDown step n w pgno (pnl.setsize w)

def pnlAppendSpan (pnl : Pnl) (pgno n : Nat) : Pnl := pnlAppendStepped 1 pnl pgno n

/-- `while (r && MDBX_PNL_DISORDERED(pnl[r], pgno)) pnl[w--] = pnl[r--]`: the list, `r` and `w`. -/
def Pnl.makeRoom (pgno : Nat) : Nat → Nat → Pnl → Pnl × Nat × Nat
  | 0, w, pnl => (pnl, 0, w)
  | r + 1, w, pnl =>
    if pnl (r + 1) ≤ pgno then Pnl.makeRoom pgno r (w - 1) (pnl.set w (pnl (r + 1)))
    else (pnl, r + 1, w)

/-- `pnl_insert_span`, once the cells are reserved. -/
def pnlInsertSpan (pnl : Pnl) (pgno n : Nat) : Pnl :=
  let r := pnl.size
  let w := r + n
  let s := Pnl.makeRoom pgno r w (pnl.setsize w)
  Pnl.fillDown 1 (s.2.2 - s.2.1) s.2.2 pgno s.1

section Insert

variable {pnl : Pnl} {limit pgno n r w j step x : Nat}

/-- A span of pages is appended with its last page first. -/
theorem pnlAppendStepped_pages (hn : 0 < n) :
    (pnlAppendStepped step pnl pgno n).pages =
      pnl.pages ++ (List.range n).map fun i => pgno + (n - 1 - i) * step := by
  have hcells : (pnlAppendStepped step pnl pgno n).size = pnl.size + n ∧
      (∀ i, i < pnl.size → pnlAppendStepped step pnl pgno n (i + 1) = pnl (i + 1)) ∧
      ∀ i, i < n →
        pnlAppendStepped step pnl pgno n (pnl.size + i + 1) = pgno + (n - 1 - i) * step := by
    rw [pnlAppendStepped]
    by_cases hone : n = 1
    · subst hone
      rw [if_pos rfl, pnlAppend]
      refine ⟨?_, fun i hi => ?_, fun i hi => ?_⟩
      · rw [Pnl.size, Pnl.set_other (by omega)]
        exact Pnl.setsize_size
      · rw [Pnl.set_other (by omega), Pnl.setsize_cell (by omega)]
      · have hzero : i = 0 := by omega
        subst hzero
        rw [Nat.add_zero, Pnl.set_same, Nat.zero_mul, Nat.add_zero]
    · simp only [if_neg hone]
      have hcell (j : Nat) := @Pnl.fillDown_cell (pnl.setsize (pnl.size + n)) n (pnl.size + n) pgno
        step (by omega) j
      refine ⟨?_, fun i hi => ?_, fun i hi => ?_⟩
      · rw [Pnl.size, hcell, if_neg (by omega)]
        exact Pnl.setsize_size
      · rw [hcell, if_neg (by omega), Pnl.setsize_cell (by omega)]
      · have hdist : pnl.size + n - (pnl.size + i + 1) = n - 1 - i := by omega
        rw [hcell, if_pos (by omega), hdist]
  obtain ⟨hsize, hold, hnew⟩ := hcells
  rw [Pnl.pages, hsize, List.range_add, List.map_append, List.map_map]
  congr 1
  · exact List.map_congr_left fun i hi => hold i (List.mem_range.mp hi)
  · exact List.map_congr_left fun i hi => hnew i (List.mem_range.mp hi)

theorem pnlAppendSpan_has (hn : 0 < n) :
    (pnlAppendSpan pnl pgno n).Has x ↔ pnl.Has x ∨ (pgno ≤ x ∧ x < pgno + n) := by
  rw [← Pnl.mem_pages, pnlAppendSpan, pnlAppendStepped_pages hn, List.mem_append, Pnl.mem_pages,
    List.mem_map]
  constructor
  · rintro (hold | ⟨i, hi, rfl⟩)
    · exact .inl hold
    · rw [List.mem_range] at hi
      exact .inr (by omega)
  · rintro (hold | hin)
    · exact .inl hold
    · refine .inr ⟨n - 1 - (x - pgno), List.mem_range.mpr (by omega), by omega⟩

/-- Pages that are not there yet are appended once. -/
theorem pnlAppendSpan_nodup (hn : 0 < n) (h : pnl.pages.Nodup)
    (hnew : ∀ x, pgno ≤ x → x < pgno + n → ¬ pnl.Has x) :
    (pnlAppendSpan pnl pgno n).pages.Nodup := by
  rw [pnlAppendSpan, pnlAppendStepped_pages hn, List.nodup_append]
  refine ⟨h, ?_, ?_⟩
  · apply (List.nodup_map_iff_inj_on List.nodup_range).mpr
    intro i hi j hj heq
    rw [List.mem_range] at hi hj
    omega
  · intro x hx y hy heq
    subst heq
    obtain ⟨i, hi, rfl⟩ := List.mem_map.mp hy
    rw [List.mem_range] at hi
    exact hnew _ (by omega) (by omega) (Pnl.mem_pages.mp hx)

/-- What making room leaves: the pages that are not above `pgno` have moved up by `n`. -/
structure Pnl.Room (pnl : Pnl) (pgno n r w : Nat) (s : Pnl × Nat × Nat) : Prop where
  le : s.2.1 ≤ r
  gap : s.2.2 = s.2.1 + n
  moved : ∀ j, s.2.1 + n < j → j ≤ w → s.1 j = pnl (j - n)
  kept : ∀ j, j ≤ s.2.1 + n ∨ w < j → s.1 j = pnl j
  below : ∀ j, s.2.1 < j → j ≤ r → pnl j ≤ pgno
  above : 0 < s.2.1 → pgno < pnl s.2.1

theorem Pnl.makeRoom_room (hn : 0 < n) (hw : w = r + n) :
    Pnl.Room pnl pgno n r w (Pnl.makeRoom pgno r w pnl) := by
  induction r generalizing w pnl with
  | zero =>
    rw [Pnl.makeRoom]
    exact ⟨Nat.le_refl 0, hw, fun j hlo hhi => by simp only at hlo; omega, fun j _ => rfl,
      fun j hlo hhi => by omega, fun hpos => absurd hpos (Nat.lt_irrefl 0)⟩
  | succ r ih =>
    rw [Pnl.makeRoom]
    by_cases hle : pnl (r + 1) ≤ pgno
    · rw [if_pos hle]
      have hroom := @ih (pnl.set w (pnl (r + 1))) (w - 1) (by omega)
      have hr := hroom.le
      constructor
      · omega
      · exact hroom.gap
      · intro j hlo hhi
        by_cases hlast : j = w
        · have hback : w - n = r + 1 := by omega
          rw [hlast, hroom.kept w (by omega), Pnl.set_same, hback]
        · rw [hroom.moved j hlo (by omega), Pnl.set_other (by omega)]
      · intro j hj
        rw [hroom.kept j (by omega), Pnl.set_other (by omega)]
      · intro j hlo hhi
        by_cases hlast : j = r + 1
        · rw [hlast]
          exact hle
        · have hold := hroom.below j hlo (by omega)
          rwa [Pnl.set_other (by omega)] at hold
      · intro hpos
        have hold := hroom.above hpos
        rwa [Pnl.set_other (by omega)] at hold
    · rw [if_neg hle]
      exact ⟨Nat.le_refl _, hw, fun j hlo hhi => by simp only at hlo; omega, fun j _ => rfl,
        fun j hlo hhi => by simp only at hlo; omega, fun _ => Nat.lt_of_not_le hle⟩

/-- Cells of a list between which a span of pages has been put after cell `r`. -/
structure Pnl.Widened (pnl q : Pnl) (r pgno n : Nat) : Prop where
  size : q.size = pnl.size + n
  head : ∀ j, 0 < j → j ≤ r → q j = pnl j
  span : ∀ j, r < j → j ≤ r + n → q j = pgno + (r + n - j)
  tail : ∀ j, r + n < j → j ≤ pnl.size + n → q j = pnl (j - n)

theorem pnlInsertSpan_widened (hn : 0 < n) :
    ∃ r, r ≤ pnl.size ∧ Pnl.Widened pnl (pnlInsertSpan pnl pgno n) r pgno n ∧
      (∀ j, r < j → j ≤ pnl.size → pnl j ≤ pgno) ∧ (0 < r → pgno < pnl r) := by
  have hroom :=
    @Pnl.makeRoom_room (pnl.setsize (pnl.size + n)) pgno n pnl.size (pnl.size + n) hn rfl
  rw [pnlInsertSpan]
  generalize Pnl.makeRoom pgno pnl.size (pnl.size + n) (pnl.setsize (pnl.size + n)) = s at hroom ⊢
  have hr := hroom.le
  have hgap : s.2.2 - s.2.1 = n := by
    rw [hroom.gap]
    omega
  refine ⟨s.2.1, hroom.le, ?_, ?_, ?_⟩
  · have hcell (j : Nat) : Pnl.fillDown 1 n s.2.2 pgno s.1 j =
        if s.2.1 < j ∧ j ≤ s.2.1 + n then pgno + (s.2.1 + n - j) else s.1 j := by
      rw [Pnl.fillDown_cell (by rw [hroom.gap]; omega), hroom.gap, Nat.add_sub_cancel, Nat.mul_one]
    simp only [hgap]
    constructor
    · rw [Pnl.size, hcell, if_neg (by omega), hroom.kept 0 (by omega)]
      exact Pnl.set_same
    · intro j hlo hhi
      rw [hcell, if_neg (by omega), hroom.kept j (by omega), Pnl.setsize_cell hlo]
    · intro j hlo hhi
      rw [hcell, if_pos ⟨hlo, hhi⟩]
    · intro j hlo hhi
      rw [hcell, if_neg (by omega), hroom.moved j hlo hhi, Pnl.setsize_cell (by omega)]
  · intro j hlo hhi
    have hold := hroom.below j hlo hhi
    rwa [Pnl.setsize_cell (by omega)] at hold
  · intro hpos
    have hold := hroom.above hpos
    rwa [Pnl.setsize_cell hpos] at hold

/-- What is in the list is what was there and the span. -/
theorem Pnl.Widened.has {q : Pnl} (h : Pnl.Widened pnl q r pgno n) (hr : r ≤ pnl.size) :
    q.Has x ↔ pnl.Has x ∨ (pgno ≤ x ∧ x < pgno + n) := by
  have hhead : Holds q 0 r x ↔ Holds pnl 0 r x := holds_congr h.head
  have hspan : Holds q r (r + n) x ↔ pgno ≤ x ∧ x < pgno + n := by
    constructor
    · rintro ⟨j, hlo, hhi, rfl⟩
      rw [h.span j hlo hhi]
      omega
    · intro hx
      refine ⟨r + n - (x - pgno), by omega, by omega, ?_⟩
      rw [h.span _ (by omega) (by omega)]
      omega
  have htail : Holds q (r + n) (pnl.size + n) x ↔ Holds pnl r pnl.size x := by
    rw [← holds_shift]
    apply holds_congr
    intro j hlo hhi
    have hback : j + n - n = j := by omega
    have hcell := h.tail (j + n) (by omega) (by omega)
    rw [hback] at hcell
    exact hcell
  rw [Pnl.Has, Pnl.Has, h.size, holds_append (Nat.zero_le r) (by omega : r ≤ pnl.size + n),
    holds_append (Nat.le_add_right r n) (by omega : r + n ≤ pnl.size + n), hhead, hspan, htail,
    holds_append (Nat.zero_le r) hr]
  constructor
  · rintro (h | h | h)
    · exact .inl (.inl h)
    · exact .inr h
    · exact .inl (.inr h)
  · rintro ((h | h) | h)
    · exact .inl h
    · exact .inr (.inr h)
    · exact .inr (.inl h)

/-- A span of pages that are not in the list goes in at its place. -/
theorem pnlInsertSpan_sorted (h : pnl.Sorted limit) (hn : 0 < n) (hmin : numMetas ≤ pgno)
    (hlimit : pgno + n ≤ limit)
    (hnew : ∀ x, pgno ≤ x → x < pgno + n → ¬ pnl.Has x) :
    (pnlInsertSpan pnl pgno n).Sorted limit ∧
      ∀ x, (pnlInsertSpan pnl pgno n).Has x ↔ pnl.Has x ∨ (pgno ≤ x ∧ x < pgno + n) := by
  obtain ⟨r, hr, hwide, hbelow, habove⟩ := @pnlInsertSpan_widened pnl pgno n hn
  have hhas (x : Nat) := @Pnl.Widened.has pnl pgno n r x _ hwide hr
  refine ⟨⟨?_, ?_, ?_⟩, hhas⟩
  · -- The pages before the span are above all of it, since they are not in it.
    have hhigh (j : Nat) (hlo : 0 < j) (hj : j ≤ r) : pgno + n ≤ pnl j := by
      have hlt : pgno < pnl j := Nat.lt_of_lt_of_le (habove (by omega)) (h.falls.le hlo hj hr)
      by_contra hin
      exact hnew (pnl j) (by omega) (by omega) (Pnl.has_cell hlo (by omega))
    have hlow (j : Nat) (hlo : r < j) (hj : j ≤ pnl.size) : pnl j < pgno := by
      rcases Nat.eq_or_lt_of_le (hbelow j hlo hj) with heq | hlt
      · exact absurd (Pnl.has_cell (by omega) hj) (hnew (pnl j) (by omega) (by omega))
      · exact hlt
    rw [hwide.size]
    apply falls_of_step
    intro i hlo hhi
    by_cases hhead : i + 1 ≤ r
    · rw [hwide.head i hlo (by omega), hwide.head (i + 1) (by omega) hhead]
      exact h.falls i (i + 1) hlo (by omega) (by omega)
    · by_cases hfirst : i ≤ r
      · rw [hwide.head i hlo hfirst, hwide.span (i + 1) (by omega) (by omega)]
        have hge := hhigh i hlo hfirst
        omega
      · by_cases hspan : i + 1 ≤ r + n
        · rw [hwide.span i (by omega) (by omega), hwide.span (i + 1) (by omega) hspan]
          omega
        · by_cases hlast : i ≤ r + n
          · rw [hwide.span i (by omega) hlast, hwide.tail (i + 1) (by omega) (by omega)]
            have hlt := hlow (i + 1 - n) (by omega) (by omega)
            omega
          · rw [hwide.tail i (by omega) (by omega), hwide.tail (i + 1) (by omega) (by omega)]
            exact h.falls (i - n) (i + 1 - n) (by omega) (by omega) (by omega)
  · intro x hx
    rcases (hhas x).mp hx with hold | hin
    · exact h.above x hold
    · omega
  · intro x hx
    rcases (hhas x).mp hx with hold | hin
    · exact h.below x hold
    · omega

end Insert

end MdbxGo
