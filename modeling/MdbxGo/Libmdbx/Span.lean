import MdbxGo.Libmdbx.Pnl

/-! Spans of consecutive pages in a page list: the longest one, the one that fits best, and what
cutting one out leaves. -/

namespace MdbxGo

open Falling

/-- All `n` pages from `pgno` on are in the list. -/
def Pnl.HasSpan (pnl : Pnl) (pgno n : Nat) : Prop := ∀ x, pgno ≤ x → x < pgno + n → pnl.Has x

/-- A span that does not go on at either end. -/
structure Pnl.Whole (pnl : Pnl) (pgno n : Nat) : Prop where
  pos : 0 < n
  span : pnl.HasSpan pgno n
  last : ¬ pnl.Has (pgno + n)
  first : ∀ x, x + 1 = pgno → ¬ pnl.Has x

/-! ### Spans and cells -/

section Cells

variable {pnl : Pnl} {limit i j k n m pgno : Nat}

/-- The span of `k + 1` pages from the page in cell `j` on is in the cells up to `j`. -/
theorem Pnl.Sorted.hasSpan_iff (h : pnl.Sorted limit) (hlo : 0 < j) (hhi : j ≤ pnl.size) :
    pnl.HasSpan (pnl j) (k + 1) ↔ k < j ∧ pnl (j - k) = pnl j + k := by
  constructor
  · intro hspan
    induction k with
    | zero => exact ⟨hlo, rfl⟩
    | succ k ih =>
      obtain ⟨hk, hcell⟩ := ih fun x hx hx' => hspan x hx (by omega)
      obtain ⟨t, htlo, hthi, ht⟩ := hspan (pnl j + (k + 1)) (by omega) (by omega)
      -- The next page is before the last one of the span, and nothing is between them.
      have hbefore : t < j - k := by
        rw [← h.falls.lt_iff htlo hthi (by omega) (by omega), ht, hcell]
        omega
      have hle : pnl (j - (k + 1)) ≤ pnl t := h.falls.le htlo (by omega) (by omega)
      have hlt : pnl (j - k) < pnl (j - (k + 1)) :=
        h.falls (j - (k + 1)) (j - k) (by omega) (by omega) (by omega)
      exact ⟨by omega, by omega⟩
  · rintro ⟨hk, hcell⟩ x hx hx'
    have hsolid := @Pnl.Sorted.solid pnl (j - k) j limit h (by omega) (by omega) hhi (by omega)
      (j - (x - pnl j)) (by omega) (by omega)
    have heq : pnl (j - (x - pnl j)) = x := by omega
    rw [← heq]
    exact Pnl.has_cell (by omega) (by omega)

theorem Pnl.HasSpan.mono (h : pnl.HasSpan pgno n) (hle : m ≤ n) : pnl.HasSpan pgno m :=
  fun x hx hx' => h x hx (by omega)

/-- The comparison of two cells by their distance tells whether there is a span between them. -/
theorem Pnl.Sorted.contiguous_iff (h : pnl.Sorted limit) (hlimit : limit ≤ maxPageno + 1)
    (hk : k < j) (hhi : j ≤ pnl.size) :
    pnlContiguous (pnl (j - k)) (pnl j) k = true ↔ pnl.HasSpan (pnl j) (k + 1) := by
  have hbelow := h.below _ (Pnl.has_cell (by omega : 0 < j - k) (by omega))
  simp only [maxPageno] at hlimit
  rw [pnlContiguous_iff (h.falls.le (by omega) (by omega) hhi) (by omega),
    h.hasSpan_iff (by omega) hhi]
  exact ⟨fun heq => ⟨hk, heq⟩, fun hand => hand.2⟩

end Cells

/-! ### The longest span -/

/-- The loop of `pnl_maxspan`. -/
def pnlMaxspanLoop (pnl : Pnl) : Nat → Nat → Nat → Nat
  | 0, _, span => span
  | left + 1, scan, span =>
    if pnlContiguous (pnl scan) (pnl (scan + span)) span then
      pnlMaxspanLoop pnl left scan (span + 1)
    else pnlMaxspanLoop pnl left (scan + 1) span

def pnlMaxspan (pnl : Pnl) : Nat :=
  let len := pnl.size
  if len > 1 then pnlMaxspanLoop pnl (len - 1) 1 1 else len

section Maxspan

variable {pnl : Pnl} {limit left scan span len pgno n : Nat}

/-- Of the cells before `edge` no span is longer than `span`, and one is as long. -/
structure Longest (pnl : Pnl) (edge span : Nat) : Prop where
  pos : 0 < span
  reached : ∃ pgno, pnl.HasSpan pgno span
  most : ∀ j n, 0 < j → j < edge → pnl.HasSpan (pnl j) n → n ≤ span

theorem pnlMaxspanLoop_longest (h : pnl.Sorted limit) (hlimit : limit ≤ maxPageno + 1)
    (hscan : 0 < scan) (hleft : scan + span + left = pnl.size + 1)
    (hlongest : Longest pnl (scan + span) span) :
    Longest pnl (pnl.size + 1) (pnlMaxspanLoop pnl left scan span) := by
  induction left generalizing scan span with
  | zero =>
    rw [Nat.add_zero] at hleft
    rw [pnlMaxspanLoop, ← hleft]
    exact hlongest
  | succ left ih =>
    have hpos := hlongest.pos
    have hback : scan + span - span = scan := by omega
    have hiff :=
      @Pnl.Sorted.contiguous_iff pnl limit (scan + span) span h hlimit (by omega) (by omega)
    rw [hback] at hiff
    rw [pnlMaxspanLoop]
    by_cases hcontiguous : pnlContiguous (pnl scan) (pnl (scan + span)) span = true
    · rw [if_pos hcontiguous]
      apply ih hscan (by omega)
      refine ⟨by omega, ⟨_, hiff.mp hcontiguous⟩, fun j n hlo hhi hspan => ?_⟩
      by_contra hlong
      by_cases hold : j < scan + span
      · exact hlong (Nat.le_succ_of_le (hlongest.most j n hlo hold hspan))
      · -- Without its first page the span would be in the cells before.
        have hedge : j = scan + span := by omega
        subst hedge
        obtain ⟨hk, hcell⟩ := (@Pnl.Sorted.hasSpan_iff pnl limit (scan + span) (n - 1) h (by omega)
          (by omega)).mp (hspan.mono (by omega))
        have hone := @Pnl.Sorted.solid pnl (scan + span - (n - 1)) (scan + span) limit h (by omega)
          (by omega) (by omega) (by omega) (scan + span - 1) (by omega) (by omega)
        have hshort := hlongest.most (scan + span - 1) (n - 1) (by omega) (by omega) fun x hx hx' =>
          hspan x (by omega) (by omega)
        omega
    · rw [if_neg hcontiguous]
      have hnext : scan + 1 + span = scan + span + 1 := by omega
      apply ih (by omega) (by omega)
      refine ⟨hpos, hlongest.reached, fun j n hlo hhi hspan => ?_⟩
      by_contra hlong
      by_cases hold : j < scan + span
      · exact hlong (hlongest.most j n hlo hold hspan)
      · have hedge : j = scan + span := by omega
        subst hedge
        exact hcontiguous (hiff.mpr (hspan.mono (by omega)))

/-- The longest span of a list has as many pages as the one scan over its cells says. -/
theorem pnlMaxspan_longest (pnl : Pnl) (limit : Nat) (h : pnl.Sorted limit)
    (hlimit : limit ≤ maxPageno + 1) :
    (∃ pgno, pnl.HasSpan pgno (pnlMaxspan pnl)) ∧
      ∀ pgno n, pnl.HasSpan pgno n → n ≤ pnlMaxspan pnl := by
  -- A span that has a page begins in a cell.
  have hbegins (pgno n : Nat) (hspan : pnl.HasSpan pgno n) (hn : 0 < n) :
      ∃ j, 0 < j ∧ j ≤ pnl.size ∧ pnl j = pgno :=
    hspan pgno (Nat.le_refl _) (by omega)
  rw [pnlMaxspan]
  by_cases hmore : pnl.size > 1
  · simp only [if_pos hmore]
    have hfirst : Longest pnl (1 + 1) 1 := by
      refine ⟨Nat.one_pos, ⟨pnl 1, fun x hx hx' => ?_⟩, fun j n hlo hhi hspan => ?_⟩
      · have heq : x = pnl 1 := by omega
        rw [heq]
        exact Pnl.has_cell Nat.one_pos (by omega)
      · have hone : j = 1 := by omega
        subst hone
        by_contra hlong
        have hcells := (@Pnl.Sorted.hasSpan_iff pnl limit 1 (n - 1) h Nat.one_pos (by omega)).mp
          (hspan.mono (by omega))
        omega
    have hlongest := @pnlMaxspanLoop_longest pnl limit (pnl.size - 1) 1 1 h hlimit Nat.one_pos
      (by omega) hfirst
    refine ⟨hlongest.reached, fun pgno n hspan => ?_⟩
    by_cases hn : 0 < n
    · obtain ⟨j, hlo, hhi, rfl⟩ := hbegins pgno n hspan hn
      exact hlongest.most j n hlo (by omega) hspan
    · omega
  · simp only [if_neg hmore]
    refine ⟨⟨pnl 1, fun x hx hx' => ?_⟩, fun pgno n hspan => ?_⟩
    · have heq : x = pnl 1 := by omega
      rw [heq]
      exact Pnl.has_cell Nat.one_pos (by omega)
    · by_contra hlong
      obtain ⟨j, hlo, hhi, rfl⟩ := hbegins pgno n hspan (by omega)
      have hcells := (@Pnl.Sorted.hasSpan_iff pnl limit j (n - 1) h hlo hhi).mp
        (hspan.mono (by omega))
      omega

/-- The longest span of 15, 12, 11, 8, 7, 6 and 3 has three pages. -/
theorem pnlMaxspan_longest_three :
    pnlMaxspan ([7, 15, 12, 11, 8, 7, 6, 3].getD · 0) = 3 ∧
      ∀ pgno n, Pnl.HasSpan ([7, 15, 12, 11, 8, 7, 6, 3].getD · 0) pgno n → n ≤ 3 :=
  ⟨by decide +kernel, (pnlMaxspan_longest ([7, 15, 12, 11, 8, 7, 6, 3].getD · 0) 16
    ((pnlCheck_iff (by decide)).mp (by decide)) (by decide)).2⟩

end Maxspan

/-! ### Cutting out -/

/-- `pnl_cut`. -/
def pnlCut (pnl : Pnl) (pos span : Nat) : Pnl :=
  if span > 0 then
    let len := pnl.size - span
    Pnl.pullDown span (len + 1 - pos) pos (pnl.setsize len)
  else pnl

/-- The list without the `n` cells after cell `r`. -/
structure Pnl.Narrowed (pnl q : Pnl) (r n : Nat) : Prop where
  fits : r + n ≤ pnl.size
  size : q.size = pnl.size - n
  head : ∀ j, 0 < j → j ≤ r → q j = pnl j
  tail : ∀ j, r < j → j ≤ pnl.size - n → q j = pnl (j + n)

section Cut

variable {pnl q : Pnl} {limit pos span r n j x : Nat}

theorem pnlCut_narrowed (hpos : 0 < pos) (hfits : pos + span ≤ pnl.size + 1) :
    Pnl.Narrowed pnl (pnlCut pnl pos span) (pos - 1) span := by
  rw [pnlCut]
  by_cases hspan : span > 0
  · have hcell (j : Nat) := @Pnl.pullDown_cell (pnl.setsize (pnl.size - span)) span
      (pnl.size - span + 1 - pos) pos hspan j
    simp only [if_pos hspan]
    refine ⟨by omega, ?_, fun j hlo hhi => ?_, fun j hlo hhi => ?_⟩
    · rw [Pnl.size, hcell, if_neg (by omega)]
      exact Pnl.set_same
    · rw [hcell, if_neg (by omega), Pnl.setsize_cell hlo]
    · rw [hcell, if_pos (by omega), Pnl.setsize_cell (by omega)]
  · have hzero : span = 0 := by omega
    subst hzero
    rw [if_neg hspan]
    exact ⟨by omega, rfl, fun _ _ _ => rfl, fun _ _ _ => rfl⟩

/-- A truncated list is without its last cells. -/
theorem setsize_narrowed (hle : n ≤ pnl.size) :
    Pnl.Narrowed pnl (pnl.setsize (pnl.size - n)) (pnl.size - n) n :=
  ⟨by omega, Pnl.setsize_size, fun _ hlo _ => Pnl.setsize_cell hlo, fun j hlo hhi => by omega⟩

theorem Pnl.Narrowed.sorted (hcut : Pnl.Narrowed pnl q r n) (h : pnl.Sorted limit) :
    q.Sorted limit ∧ ∀ x, q.Has x ↔ pnl.Has x ∧ ¬ Holds pnl r (r + n) x := by
  have hfits := hcut.fits
  have hhead (x : Nat) : Holds q 0 r x ↔ Holds pnl 0 r x := holds_congr hcut.head
  have htail (x : Nat) : Holds q r (pnl.size - n) x ↔ Holds pnl (r + n) pnl.size x := by
    have hshift := @holds_shift _ pnl r (pnl.size - n) n x
    have hback : pnl.size - n + n = pnl.size := by omega
    rw [hback] at hshift
    rw [← hshift]
    exact holds_congr hcut.tail
  have hhas (x : Nat) : q.Has x ↔ pnl.Has x ∧ ¬ Holds pnl r (r + n) x := by
    have hfirst := @Falls.disjoint _ _ pnl 0 r (r + n) x (h.falls.mono (Nat.le_refl 0) hfits)
    have hsecond := @Falls.disjoint _ _ pnl r (r + n) pnl.size x
      (h.falls.mono (Nat.zero_le r) (Nat.le_refl _))
    rw [Pnl.Has, Pnl.Has, hcut.size, holds_append (Nat.zero_le r) (by omega : r ≤ pnl.size - n),
      hhead, htail, holds_append (Nat.zero_le r) (by omega : r ≤ pnl.size),
      holds_append (Nat.le_add_right r n) hfits]
    constructor
    · rintro (hin | hin)
      · exact ⟨.inl hin, hfirst hin⟩
      · exact ⟨.inr (.inr hin), fun hmid => hsecond hmid hin⟩
    · rintro ⟨hin | hin | hin, hout⟩
      · exact .inl hin
      · exact absurd hin hout
      · exact .inr hin
  refine ⟨⟨?_, fun x hx => h.above x ((hhas x).mp hx).1, fun x hx => h.below x ((hhas x).mp hx).1⟩,
    hhas⟩
  rw [hcut.size]
  apply falls_of_step
  intro i hlo hhi
  by_cases hin : i + 1 ≤ r
  · rw [hcut.head i hlo (by omega), hcut.head (i + 1) (by omega) hin]
    exact h.falls i (i + 1) hlo (by omega) (by omega)
  · by_cases hedge : i ≤ r
    · rw [hcut.head i hlo hedge, hcut.tail (i + 1) (by omega) (by omega)]
      exact h.falls i (i + 1 + n) hlo (by omega) (by omega)
    · rw [hcut.tail i (by omega) (by omega), hcut.tail (i + 1) (by omega) (by omega)]
      exact h.falls (i + n) (i + 1 + n) (by omega) (by omega) (by omega)

/-- Without the cells of a span of pages a list is without these pages. -/
theorem Pnl.Narrowed.without_span (hcut : Pnl.Narrowed pnl q r n) (h : pnl.Sorted limit)
    (hn : 0 < n) (hspan : pnl.HasSpan (pnl (r + n)) n) :
    q.Sorted limit ∧ ∀ x, q.Has x ↔ pnl.Has x ∧ ¬ (pnl (r + n) ≤ x ∧ x < pnl (r + n) + n) := by
  obtain ⟨hsorted, hhas⟩ := hcut.sorted h
  have hfits := hcut.fits
  refine ⟨hsorted, fun x => ?_⟩
  have hcells (m : Nat) (hm : m < n) : pnl (r + n - m) = pnl (r + n) + m :=
    ((h.hasSpan_iff (by omega) hfits).mp (hspan.mono (by omega : m + 1 ≤ n))).2
  have hiff : Holds pnl r (r + n) x ↔ pnl (r + n) ≤ x ∧ x < pnl (r + n) + n := by
    constructor
    · rintro ⟨j, hlo, hhi, rfl⟩
      have hcell := hcells (r + n - j) (by omega)
      have hback : r + n - (r + n - j) = j := by omega
      rw [hback] at hcell
      omega
    · intro hx
      refine ⟨r + n - (x - pnl (r + n)), by omega, by omega, ?_⟩
      rw [hcells (x - pnl (r + n)) (by omega)]
      omega
  rw [hhas, hiff]

end Cut

/-! ### The span that fits best -/

/-- `while (MDBX_PNL_CONTIGUOUS(pnl[i - span], pnl[i], span) && i - span > 0) ++span`. -/
def pnlSpanAt (pnl : Pnl) (i : Nat) : Nat → Nat → Nat
  | 0, span => span
  | fuel + 1, span =>
    if pnlContiguous (pnl (i - span)) (pnl i) span && decide (i - span > 0) then
      pnlSpanAt pnl i fuel (span + 1)
    else span

/-- The loop of `pnl_get_best_sequence`, which ends with `best_pos`. -/
def pnlBestLoop (pnl : Pnl) (seq detent : Nat) : Nat → Nat → Nat → Nat → Nat
  | 0, _, bestPos, _ => bestPos
  | fuel + 1, i, bestPos, bestExtra =>
    -- The difference is one of sizes, which wraps when the sequence is longer than `detent`.
    if i ≥ seq && pnl i ≤ (detent + 2 ^ 64 - seq) % 2 ^ 64 then
      let span := pnlSpanAt pnl i i 1
      if span ≥ seq then
        let extra := span - seq
        if extra < bestExtra then
          if extra = 0 then i else pnlBestLoop pnl seq detent fuel (i - span) i extra
        else pnlBestLoop pnl seq detent fuel (i - span) bestPos bestExtra
      else pnlBestLoop pnl seq detent fuel (i - span) bestPos bestExtra
    else bestPos

/-- `pnl_get_best_sequence`: the list that is left and the first page, or 0. -/
def pnlGetBestSequence (pnl : Pnl) (seq detent : Nat) : Pnl × Nat :=
  let bestPos := pnlBestLoop pnl seq detent pnl.size pnl.size 0 maxPageno
  if bestPos ≠ 0 then (pnlCut pnl (bestPos - seq + 1) seq, pnl bestPos) else (pnl, 0)

/-- A whole span from which a sequence can be taken below `detent`. -/
structure Pnl.Fits (pnl : Pnl) (seq detent pgno n : Nat) : Prop where
  whole : pnl.Whole pgno n
  enough : seq ≤ n
  below : pgno + seq ≤ detent

section Best

variable {pnl : Pnl} {limit seq detent i j n m span fuel pgno pgno' bestPos bestExtra r : Nat}

theorem Pnl.Whole.length_eq (h : pnl.Whole pgno n) (h' : pnl.Whole pgno m) : n = m := by
  rcases Nat.lt_trichotomy n m with hlt | heq | hlt
  · exact absurd (h'.span (pgno + n) (by omega) (by omega)) h.last
  · exact heq
  · exact absurd (h.span (pgno + m) (by omega) (by omega)) h'.last

/-- A span is part of a whole one. -/
theorem Pnl.Sorted.exists_whole (h : pnl.Sorted limit) (hn : 0 < n) (hspan : pnl.HasSpan pgno n) :
    ∃ pgno' n', pgno' ≤ pgno ∧ pgno + n ≤ pgno' + n' ∧ pnl.Whole pgno' n' := by
  have hforward (m : Nat) : ∀ n, 0 < n → pnl.HasSpan pgno n → limit ≤ pgno + n + m →
      ∃ n', n ≤ n' ∧ pnl.HasSpan pgno n' ∧ ¬ pnl.Has (pgno + n') := by
    induction m with
    | zero =>
      intro n _ hspan hlimit
      exact ⟨n, Nat.le_refl n, hspan, fun hin => by have := h.below _ hin; omega⟩
    | succ m ih =>
      intro n hn hspan hlimit
      by_cases hnext : pnl.Has (pgno + n)
      · have hmore : pnl.HasSpan pgno (n + 1) := by
          intro x hx hx'
          by_cases hold : x < pgno + n
          · exact hspan x hx hold
          · have heq : x = pgno + n := by omega
            rw [heq]
            exact hnext
        obtain ⟨n', hle, hspan', hlast⟩ := ih (n + 1) (by omega) hmore (by omega)
        exact ⟨n', by omega, hspan', hlast⟩
      · exact ⟨n, Nat.le_refl n, hspan, hnext⟩
  obtain ⟨n', hle, hspan', hlast⟩ := hforward limit n hn hspan (by omega)
  have hpos : 0 < n' := by omega
  have hfits : pgno + n ≤ pgno + n' := by omega
  clear hforward hspan hle hn
  -- The last page stays; the first one goes down as long as the page below is in the list.
  induction pgno generalizing n' with
  | zero => exact ⟨0, n', Nat.le_refl 0, hfits, hpos, hspan', hlast, fun x hx => by omega⟩
  | succ pgno ih =>
    by_cases hprev : pnl.Has pgno
    · have hmore : pnl.HasSpan pgno (n' + 1) := by
        intro x hx hx'
        by_cases hold : x = pgno
        · rw [hold]
          exact hprev
        · exact hspan' x (by omega) (by omega)
      have hsame : pgno + (n' + 1) = pgno + 1 + n' := by omega
      obtain ⟨pgno', m, hlow, hhigh, hwhole⟩ :=
        ih (n' + 1) hmore (by rw [hsame]; exact hlast) (by omega) (by omega)
      by_cases hreach : pgno + 1 + n ≤ pgno' + m
      · exact ⟨pgno', m, by omega, hreach, hwhole⟩
      · -- The whole span ends where the longer one does.
        have hend : pgno' + m = pgno + 1 + n' := by
          rcases Nat.lt_trichotomy (pgno' + m) (pgno + 1 + n') with hlt | heq | hlt
          · exact absurd (hmore (pgno' + m) (by omega) (by omega)) hwhole.last
          · exact heq
          · exact absurd (hwhole.span (pgno + 1 + n') (by omega) hlt) hlast
        omega
    · exact ⟨pgno + 1, n', Nat.le_refl _, hfits, hpos, hspan', hlast, fun x hx => by
        have heq : x = pgno := by omega
        rw [heq]
        exact hprev⟩

/-- The span from a cell on that is counted goes on as far as it can. -/
theorem pnlSpanAt_spec (h : pnl.Sorted limit) (hlimit : limit ≤ maxPageno + 1) (hlo : 0 < i)
    (hhi : i ≤ pnl.size) (hpos : 0 < span) (hspan : pnl.HasSpan (pnl i) span)
    (hfuel : i ≤ span + fuel) :
    span ≤ pnlSpanAt pnl i fuel span ∧ pnl.HasSpan (pnl i) (pnlSpanAt pnl i fuel span) ∧
      ¬ pnl.Has (pnl i + pnlSpanAt pnl i fuel span) := by
  have hgoes (s : Nat) (hs : pnl.HasSpan (pnl i) s) (hnext : pnl.Has (pnl i + s)) :
      pnl.HasSpan (pnl i) (s + 1) := by
    intro x hx hx'
    by_cases hold : x < pnl i + s
    · exact hs x hx hold
    · have heq : x = pnl i + s := by omega
      rw [heq]
      exact hnext
  have hends (s : Nat) (hs : pnl.HasSpan (pnl i) s) (hi : i ≤ s) : ¬ pnl.Has (pnl i + s) := by
    intro hnext
    have hcell := (h.hasSpan_iff hlo hhi).mp (hgoes s hs hnext)
    omega
  induction fuel generalizing span with
  | zero => exact ⟨Nat.le_refl _, hspan, hends span hspan (by omega)⟩
  | succ fuel ih =>
    rw [pnlSpanAt]
    by_cases hmore : i - span > 0
    · by_cases hcontiguous : pnlContiguous (pnl (i - span)) (pnl i) span = true
      · rw [hcontiguous, decide_eq_true hmore, Bool.and_true, if_pos rfl]
        have hlonger := (h.contiguous_iff hlimit (by omega) hhi).mp hcontiguous
        obtain ⟨hle, hspan', hlast⟩ := @ih (span + 1) (by omega) hlonger (by omega)
        exact ⟨by omega, hspan', hlast⟩
      · rw [Bool.eq_false_iff.mpr hcontiguous, Bool.false_and, if_neg Bool.false_ne_true]
        refine ⟨Nat.le_refl _, hspan, fun hnext => hcontiguous ?_⟩
        exact (h.contiguous_iff hlimit (by omega) hhi).mpr (hgoes span hspan hnext)
    · rw [decide_eq_false hmore, Bool.and_false, if_neg Bool.false_ne_true]
      exact ⟨Nat.le_refl _, hspan, hends span hspan (by omega)⟩

/-- `pos` is the cell of the best span, with `extra` pages more than asked for, among those that
begin after cell `i`; there is none when it is 0. -/
def Chosen (pnl : Pnl) (seq detent i pos extra : Nat) : Prop :=
  (pos = 0 ∧ extra = maxPageno ∧
      ∀ j n, i < j → j ≤ pnl.size → ¬ pnl.Fits seq detent (pnl j) n) ∨
    (i < pos ∧ pos ≤ pnl.size ∧ pnl.Fits seq detent (pnl pos) (seq + extra) ∧
      ∀ j n, i < j → j ≤ pnl.size → pnl.Fits seq detent (pnl j) n →
        seq + extra < n ∨ (n = seq + extra ∧ pnl pos ≤ pnl j))

/-- What the loop ends with when no span that fits begins in a cell up to `i`. -/
theorem Chosen.finish (h : Chosen pnl seq detent i bestPos bestExtra)
    (hrest : ∀ j n, 0 < j → j ≤ i → ¬ pnl.Fits seq detent (pnl j) n) :
    ∃ extra, Chosen pnl seq detent 0 bestPos extra := by
  rcases h with ⟨hzero, hextra, hnone⟩ | ⟨hpos, hsize, hfits, hbest⟩
  · refine ⟨bestExtra, .inl ⟨hzero, hextra, fun j n hlo hhi => ?_⟩⟩
    by_cases hle : j ≤ i
    · exact hrest j n hlo hle
    · exact hnone j n (by omega) hhi
  · refine ⟨bestExtra, .inr ⟨by omega, hsize, hfits, fun j n hlo hhi hfit => ?_⟩⟩
    by_cases hle : j ≤ i
    · exact absurd hfit (hrest j n hlo hle)
    · exact hbest j n (by omega) hhi hfit

/-- One round of the loop: the cells of the whole span that ends with cell `i` are done. -/
theorem Chosen.step (h : pnl.Sorted limit) (hlimit : limit ≤ maxPageno + 1) (hlo : 0 < i)
    (hhi : i ≤ pnl.size) (hwhole : pnl.Whole (pnl i) span) (hbelow : pnl i + seq ≤ detent)
    (hchosen : Chosen pnl seq detent i bestPos bestExtra) :
    (seq ≤ span → span - seq < bestExtra → Chosen pnl seq detent (i - span) i (span - seq)) ∧
      (seq ≤ span → ¬ span - seq < bestExtra →
        Chosen pnl seq detent (i - span) bestPos bestExtra) ∧
      (span < seq → Chosen pnl seq detent (i - span) bestPos bestExtra) := by
  obtain ⟨hcount, hcell⟩ := (@Pnl.Sorted.hasSpan_iff pnl limit i (span - 1) h hlo hhi).mp
    (hwhole.span.mono (by have := hwhole.pos; omega))
  have hpos := hwhole.pos
  -- No other span begins within this one.
  have hwithin (j n : Nat) (hj : i - span < j) (hji : j < i) : ¬ pnl.Fits seq detent (pnl j) n := by
    intro hfit
    have hinside := @Pnl.Sorted.solid pnl (i - (span - 1)) i limit h (by omega) (by omega) hhi
      (by omega) j (by omega) (by omega)
    exact hfit.whole.first (pnl j - 1) (by omega) (hwhole.span (pnl j - 1) (by omega) (by omega))
  have hown (n : Nat) (hfit : pnl.Fits seq detent (pnl i) n) : n = span :=
    hfit.whole.length_eq hwhole
  have hsmall : span < maxPageno := by
    have htop := h.below (pnl i + (span - 1)) (hwhole.span _ (by omega) (by omega))
    have hmeta := h.above (pnl i) (Pnl.has_cell hlo hhi)
    simp only [numMetas] at hmeta
    omega
  refine ⟨fun henough hbetter => ?_, fun henough hworse => ?_, fun hshort => ?_⟩
  · have hsum : seq + (span - seq) = span := by omega
    refine .inr
      ⟨by omega, hhi, ⟨by rw [hsum]; exact hwhole, by omega, hbelow⟩, fun j n hj hsize hfit => ?_⟩
    rw [hsum]
    by_cases hsame : j = i
    · subst hsame
      exact .inr ⟨hown n hfit, Nat.le_refl _⟩
    · by_cases hin : j < i
      · exact absurd hfit (hwithin j n hj hin)
      · rcases hchosen with ⟨_, _, hnone⟩ | ⟨_, _, _, hbest⟩
        · exact absurd hfit (hnone j n (by omega) hsize)
        · rcases hbest j n (by omega) hsize hfit with hlt | ⟨heq, _⟩
          · exact .inl (by omega)
          · exact .inl (by omega)
  · rcases hchosen with ⟨_, hextra, _⟩ | ⟨hbefore, hsize, hfits, hbest⟩
    · omega
    · refine .inr ⟨by omega, hsize, hfits, fun j n hj hjsize hfit => ?_⟩
      by_cases hsame : j = i
      · subst hsame
        have hlen := hown n hfit
        have hfall := h.falls j bestPos hlo hbefore hsize
        by_cases heq : n = seq + bestExtra
        · exact .inr ⟨heq, Nat.le_of_lt hfall⟩
        · exact .inl (by omega)
      · by_cases hin : j < i
        · exact absurd hfit (hwithin j n hj hin)
        · exact hbest j n (by omega) hjsize hfit
  · have hunfit (j n : Nat) (hj : i - span < j) (hji : j ≤ i) :
        ¬ pnl.Fits seq detent (pnl j) n := by
      by_cases hsame : j = i
      · subst hsame
        intro hfit
        have hlen := hown n hfit
        have henough := hfit.enough
        omega
      · exact hwithin j n hj (by omega)
    rcases hchosen with ⟨hzero, hextra, hnone⟩ | ⟨hbefore, hsize, hfits, hbest⟩
    · refine .inl ⟨hzero, hextra, fun j n hj hjsize => ?_⟩
      by_cases hle : j ≤ i
      · exact hunfit j n hj hle
      · exact hnone j n (by omega) hjsize
    · refine .inr ⟨by omega, hsize, hfits, fun j n hj hjsize hfit => ?_⟩
      by_cases hle : j ≤ i
      · exact absurd hfit (hunfit j n hj hle)
      · exact hbest j n (by omega) hjsize hfit

theorem pnlBestLoop_chosen (h : pnl.Sorted limit) (hlimit : limit ≤ maxPageno + 1) (hseq : 0 < seq)
    (hle : seq ≤ detent) (hdetent : detent ≤ maxPageno + 1) (hi : i ≤ pnl.size) (hfuel : i ≤ fuel)
    (hstart : 0 < i → ∀ x, x + 1 = pnl i → ¬ pnl.Has x)
    (hchosen : Chosen pnl seq detent i bestPos bestExtra) :
    ∃ extra, Chosen pnl seq detent 0
      (pnlBestLoop pnl seq detent fuel i bestPos bestExtra) extra := by
  have hwrap : (detent + 2 ^ 64 - seq) % 2 ^ 64 = detent - seq := by
    simp only [maxPageno] at hdetent
    omega
  induction fuel generalizing i bestPos bestExtra with
  | zero =>
    have hzero : i = 0 := by omega
    subst hzero
    exact ⟨bestExtra, hchosen⟩
  | succ fuel ih =>
    rw [pnlBestLoop, hwrap]
    by_cases hcond : i ≥ seq ∧ pnl i ≤ detent - seq
    · obtain ⟨hlong, hbelow⟩ := hcond
      have hlo : 0 < i := by omega
      have hone : pnl.HasSpan (pnl i) 1 := by
        intro x hx hx'
        have heq : x = pnl i := by omega
        rw [heq]
        exact Pnl.has_cell hlo hi
      obtain ⟨hpos, hspan, hlast⟩ :=
        @pnlSpanAt_spec pnl limit i 1 i h hlimit hlo hi Nat.one_pos hone
        (by omega)
      rw [decide_eq_true hlong, decide_eq_true hbelow, Bool.true_and, if_pos rfl]
      generalize pnlSpanAt pnl i i 1 = span at hpos hspan hlast ⊢
      have hwhole : pnl.Whole (pnl i) span := ⟨hpos, hspan, hlast, hstart hlo⟩
      obtain ⟨hcount, hcell⟩ := (@Pnl.Sorted.hasSpan_iff pnl limit i (span - 1) h hlo hi).mp
        (hspan.mono (by omega))
      -- The page below the next cell's is not in the list, or the span would go on.
      have hnext (hmore : 0 < i - span) (x : Nat) (hx : x + 1 = pnl (i - span)) : ¬ pnl.Has x := by
        rintro ⟨t, htlo, hthi, rfl⟩
        have hafter : i - span < t := by
          rw [← h.falls.lt_iff (by omega) (by omega) htlo hthi]
          omega
        have hge : pnl t ≤ pnl (i - (span - 1)) := h.falls.le (by omega) (by omega) hthi
        have hgap : pnl (i - (span - 1)) < pnl (i - span) :=
          h.falls (i - span) (i - (span - 1)) (by omega) (by omega) (by omega)
        have htop : pnl (i - span) = pnl i + span := by omega
        rw [← htop] at hlast
        exact hlast (Pnl.has_cell hmore (by omega))
      obtain ⟨hbetter, hworse, hshort⟩ := Chosen.step h hlimit hlo hi hwhole (by omega) hchosen
      by_cases henough : span ≥ seq
      · simp only [if_pos henough]
        by_cases hless : span - seq < bestExtra
        · rw [if_pos hless]
          have hnew := hbetter henough hless
          by_cases hexact : span - seq = 0
          · rw [if_pos hexact]
            -- Nothing can fit better than exactly.
            rcases hnew with ⟨hzero, _⟩ | ⟨_, hsize, hfits, hbest⟩
            · omega
            · refine ⟨span - seq, .inr ⟨hlo, hsize, hfits, fun j n hj hjsize hfit => ?_⟩⟩
              by_cases hseen : i - span < j
              · exact hbest j n hseen hjsize hfit
              · have hge := hfit.enough
                by_cases hsame : n = seq + (span - seq)
                · exact .inr ⟨hsame, Nat.le_of_lt (h.falls j i hj (by omega) hi)⟩
                · exact .inl (by omega)
          · rw [if_neg hexact]
            exact ih (by omega) (by omega) hnext hnew
        · rw [if_neg hless]
          exact ih (by omega) (by omega) hnext (hworse henough hless)
      · simp only [if_neg henough]
        exact ih (by omega) (by omega) hnext (hshort (by omega))
    · have hstop : (decide (i ≥ seq) && decide (pnl i ≤ detent - seq)) = false := by
        rw [Bool.and_eq_false_iff, decide_eq_false_iff_not, decide_eq_false_iff_not]
        omega
      rw [hstop, if_neg Bool.false_ne_true]
      apply hchosen.finish
      intro j n hj hji hfit
      have hcells := (@Pnl.Sorted.hasSpan_iff pnl limit j (n - 1) h hj (by omega)).mp
        (hfit.whole.span.mono (by have := hfit.whole.pos; omega))
      have henough := hfit.enough
      have hbelow := hfit.below
      have hge := h.falls.le hj hji hi
      omega

/-- What is taken begins in a cell with a span that no other cell has a better one than. -/
theorem pnlGetBestSequence_found (h : pnl.Sorted limit) (hlimit : limit ≤ maxPageno + 1)
    (hseq : 0 < seq) (hle : seq ≤ detent) (hdetent : detent ≤ maxPageno + 1) :
    ((pnlGetBestSequence pnl seq detent).2 = 0 ∧ (pnlGetBestSequence pnl seq detent).1 = pnl ∧
        ∀ j n, 0 < j → j ≤ pnl.size → ¬ pnl.Fits seq detent (pnl j) n) ∨
      ∃ n, pnl.Fits seq detent (pnlGetBestSequence pnl seq detent).2 n ∧
        (∀ j m, 0 < j → j ≤ pnl.size → pnl.Fits seq detent (pnl j) m →
          n < m ∨ (m = n ∧ (pnlGetBestSequence pnl seq detent).2 ≤ pnl j)) ∧
        (pnlGetBestSequence pnl seq detent).1.Sorted limit ∧
        ∀ x, (pnlGetBestSequence pnl seq detent).1.Has x ↔
          pnl.Has x ∧ ¬ ((pnlGetBestSequence pnl seq detent).2 ≤ x ∧
            x < (pnlGetBestSequence pnl seq detent).2 + seq) := by
  have hnone : Chosen pnl seq detent pnl.size 0 maxPageno :=
    .inl ⟨rfl, rfl, fun j n hlo hhi => by omega⟩
  have hstart (hpos : 0 < pnl.size) (x : Nat) (hx : x + 1 = pnl pnl.size) : ¬ pnl.Has x := by
    rintro ⟨t, htlo, hthi, rfl⟩
    have hge := h.falls.le htlo hthi (Nat.le_refl _)
    omega
  obtain ⟨extra, hchosen⟩ := pnlBestLoop_chosen h hlimit hseq hle hdetent (Nat.le_refl _)
    (Nat.le_refl _) hstart hnone
  rw [pnlGetBestSequence]
  generalize pnlBestLoop pnl seq detent pnl.size pnl.size 0 maxPageno = pos at hchosen ⊢
  rcases hchosen with ⟨hzero, _, hunfit⟩ | ⟨hpos, hsize, hfits, hbest⟩
  · subst hzero
    exact .inl ⟨rfl, rfl, hunfit⟩
  · have hne : pos ≠ 0 := by omega
    simp only [if_pos hne]
    refine .inr ⟨seq + extra, hfits, hbest, ?_⟩
    obtain ⟨hcount, _⟩ := (@Pnl.Sorted.hasSpan_iff pnl limit pos (seq - 1) h hpos hsize).mp
      (hfits.whole.span.mono (by omega))
    have hcut := @pnlCut_narrowed pnl (pos - seq + 1) seq (by omega) (by omega)
    have hr : pos - seq + 1 - 1 + seq = pos := by omega
    have hwithout := hcut.without_span h hseq
    rw [hr] at hwithout
    exact hwithout (hfits.whole.span.mono (by omega))

/-- The sequence that is taken is the beginning of the shortest whole span that has enough pages
below `detent`, the first of these, and the list loses just its pages. Nothing is taken only when
there is no such span. -/
theorem pnlGetBestSequence_best (pnl : Pnl) (limit seq detent : Nat) (h : pnl.Sorted limit)
    (hlimit : limit ≤ maxPageno + 1) (hseq : 0 < seq) (hle : seq ≤ detent)
    (hdetent : detent ≤ maxPageno + 1) :
    ((pnlGetBestSequence pnl seq detent).2 = 0 ∧ (pnlGetBestSequence pnl seq detent).1 = pnl ∧
        ∀ pgno, pgno + seq ≤ detent → ¬ pnl.HasSpan pgno seq) ∨
      ∃ n, pnl.Fits seq detent (pnlGetBestSequence pnl seq detent).2 n ∧
        (∀ pgno m, pnl.Fits seq detent pgno m →
          n < m ∨ (m = n ∧ (pnlGetBestSequence pnl seq detent).2 ≤ pgno)) ∧
        (pnlGetBestSequence pnl seq detent).1.Sorted limit ∧
        ∀ x, (pnlGetBestSequence pnl seq detent).1.Has x ↔
          pnl.Has x ∧ ¬ ((pnlGetBestSequence pnl seq detent).2 ≤ x ∧
            x < (pnlGetBestSequence pnl seq detent).2 + seq) := by
  -- A span that fits begins in a cell.
  have hcell (pgno m : Nat) (hfit : pnl.Fits seq detent pgno m) :
      ∃ j, 0 < j ∧ j ≤ pnl.size ∧ pnl j = pgno :=
    hfit.whole.span pgno (Nat.le_refl _) (by have := hfit.whole.pos; omega)
  rcases pnlGetBestSequence_found h hlimit hseq hle hdetent with
    ⟨hzero, hsame, hunfit⟩ | ⟨n, hfits, hbest, hleft⟩
  · refine .inl ⟨hzero, hsame, fun pgno hbelow hspan => ?_⟩
    obtain ⟨pgno', n, hlow, hhigh, hwhole⟩ := h.exists_whole hseq hspan
    have hfit : pnl.Fits seq detent pgno' n := ⟨hwhole, by omega, by omega⟩
    obtain ⟨j, hjlo, hjhi, rfl⟩ := hcell pgno' n hfit
    exact hunfit j n hjlo hjhi hfit
  · refine .inr ⟨n, hfits, fun pgno m hfit => ?_, hleft⟩
    obtain ⟨j, hjlo, hjhi, rfl⟩ := hcell pgno m hfit
    exact hbest j m hjlo hjhi hfit

/-- Of 15, 12, 11, 8, 7, 6 and 3 two pages are taken from 11 and 12 rather than from 6, 7 and 8. -/
theorem pnlGetBestSequence_best_exact :
    (pnlGetBestSequence ([7, 15, 12, 11, 8, 7, 6, 3].getD · 0) 2 16).2 = 11 ∧
      (pnlGetBestSequence ([7, 15, 12, 11, 8, 7, 6, 3].getD · 0) 2 16).1.Sorted 16 := by
  have hsorted : Pnl.Sorted ([7, 15, 12, 11, 8, 7, 6, 3].getD · 0) 16 :=
    (pnlCheck_iff (by decide)).mp (by decide)
  have heleven : (pnlGetBestSequence ([7, 15, 12, 11, 8, 7, 6, 3].getD · 0) 2 16).2 = 11 := by
    decide +kernel
  refine ⟨heleven, ?_⟩
  rcases pnlGetBestSequence_best ([7, 15, 12, 11, 8, 7, 6, 3].getD · 0) 16 2 16 hsorted (by decide)
    (by decide) (by decide) (by decide) with ⟨hzero, _⟩ | ⟨_, _, _, hleft, _⟩
  · rw [heleven] at hzero
    cases hzero
  · exact hleft

end Best

end MdbxGo
