import MdbxGo.Libmdbx.Scan
import MdbxGo.Libmdbx.Span

/-! Taking pages from the list of reclaimed pages (`repnl`): one page, and a sequence. -/

namespace MdbxGo

open Falling

/-- The variant of `scan4seq` that a build or `scan4seq_resolver` picks. -/
inductive ScanImpl where
  | fallback
  | sse2 (safe : OnPageSafe)
  | avx2 (safe : OnPageSafe)
  | avx512bw (safe : OnPageSafe)
  | neon64 (safe : OnPageSafe)
  | neon32 (safe : OnPageSafe)

def ScanImpl.scan4seq : ScanImpl → Words → Int → Nat → Nat → Option Int
  | fallback => scan4seqFallback
  | sse2 safe => scan4seqSse2 safe
  | avx2 safe => scan4seqAvx2 safe
  | avx512bw safe => scan4seqAvx512bw safe
  | neon64 safe => scan4seqNeon 8 safe
  | neon32 safe => scan4seqNeon 4 safe

/-- The list as it lies in memory, between whatever is `around` it. -/
def Pnl.words (pnl : Pnl) (around : Words) : Words := fun i =>
  if 0 ≤ i ∧ i ≤ pnl.size then BitVec.ofNat 32 (pnl i.toNat) else around i

/-- `repnl_get_single`. -/
def repnlGetSingle (repnl : Pnl) : Pnl × Nat :=
  let len := repnl.size
  (repnl.setsize (len - 1), repnl len)

/-- `gc_repnl_get_single`. -/
def gcRepnlGetSingle (repnl : Pnl) : Pnl × Nat :=
  if repnl.size ≠ 0 then repnlGetSingle repnl else (repnl, 0)

/-- Where the sequence of `seq + 1` pages is that the scan finds. -/
def repnlScan (impl : ScanImpl) (around : Words) (repnl : Pnl) (seq : Nat) : Option Nat :=
  (impl.scan4seq (repnl.words around) repnl.size repnl.size seq).map Int.toNat

/-- `gc_repnl_scan_sequence_reserve`, for any length. -/
def gcRepnlScanSequenceReserve (impl : ScanImpl) (around : Words) (repnl : Pnl) (num : Nat) : Nat :=
  let len := repnl.size
  let seq := num - 1
  if pnlContiguous (repnl (len - seq)) (repnl len) seq then repnl len
  else (repnlScan impl around repnl seq).elim 0 fun target => repnl target

/-- `gc_repnl_get_sequence`, for any length. -/
def gcRepnlGetSequence (impl : ScanImpl) (around : Words) (repnl : Pnl) (num : Nat) : Pnl × Nat :=
  let len := repnl.size
  let seq := num - 1
  if pnlContiguous (repnl (len - seq)) (repnl len) seq then
    -- Nothing has to be moved, the list is truncated.
    (repnl.setsize (len - num), repnl len)
  else
    (repnlScan impl around repnl seq).elim (repnl, 0) fun target =>
      (Pnl.pullDown num (len - target) (target + 1 - num) (repnl.setsize (len - num)), repnl target)

/-- `gc_repnl_has_span`. -/
def gcRepnlHasSpan (impl : ScanImpl) (around : Words) (repnl : Pnl) (num : Nat) : Bool :=
  if num > 1 then gcRepnlScanSequenceReserve impl around repnl num != 0 else repnl.size != 0

variable {impl : ScanImpl} {around : Words} {repnl : Pnl} {limit num seq i j pgno : Nat}

/-! ### One page -/

/-- The page that is taken is the least one. -/
theorem gcRepnlGetSingle_least (h : repnl.Sorted limit) (hsize : 0 < repnl.size) :
    repnl.Has (gcRepnlGetSingle repnl).2 ∧ (∀ x, repnl.Has x → (gcRepnlGetSingle repnl).2 ≤ x) ∧
      (gcRepnlGetSingle repnl).1.Sorted limit ∧
      ∀ x, (gcRepnlGetSingle repnl).1.Has x ↔ repnl.Has x ∧ x ≠ (gcRepnlGetSingle repnl).2 := by
  have hne : repnl.size ≠ 0 := by omega
  rw [gcRepnlGetSingle, if_pos hne]
  have hcut := @setsize_narrowed repnl 1 hsize
  have hedge : repnl.size - 1 + 1 = repnl.size := by omega
  have hspan : repnl.HasSpan (repnl (repnl.size - 1 + 1)) 1 := by
    intro x hx hx'
    rw [hedge] at hx hx'
    have heq : x = repnl repnl.size := by omega
    rw [heq]
    exact Pnl.has_cell hsize (Nat.le_refl _)
  obtain ⟨hsorted, hhas⟩ := hcut.without_span h Nat.one_pos hspan
  rw [hedge] at hhas
  refine ⟨Pnl.has_cell hsize (Nat.le_refl _), ?_, hsorted, fun x => ?_⟩
  · rintro x ⟨j, hlo, hhi, rfl⟩
    exact h.falls.le hlo hhi (Nat.le_refl _)
  · simp only [repnlGetSingle]
    rw [hhas]
    constructor
    · rintro ⟨hin, hout⟩
      exact ⟨hin, fun heq => hout (by omega)⟩
    · rintro ⟨hin, hne⟩
      exact ⟨hin, fun hx => hne (by omega)⟩

/-! ### A sequence -/

theorem scan4seq_down (impl : ScanImpl) (pnl : Words) {len : Nat} (hlen : seq < len) :
    impl.scan4seq pnl len len seq = Lanes.down (diffIs pnl seq) len (len - seq) := by
  cases impl with
  | fallback => exact scan4seqFallback_eq hlen
  | sse2 safe => exact scan4seqSse2_eq hlen
  | avx2 safe => exact scan4seqAvx2_eq hlen
  | avx512bw safe => exact scan4seqAvx512bw_eq hlen
  | neon64 safe => exact scan4seqNeon_eq (.inl rfl) hlen
  | neon32 safe => exact scan4seqNeon_eq (.inr rfl) hlen

theorem diffIs_words_iff (h : repnl.Sorted limit) (hlimit : limit ≤ maxPageno + 1) (hlo : seq < i)
    (hhi : i ≤ repnl.size) (hseq : seq < 2 ^ 32) :
    diffIs (repnl.words around) seq i = true ↔ repnl.HasSpan (repnl i) (seq + 1) := by
  have hword (j : Nat) (hj : j ≤ repnl.size) :
      repnl.words around j = BitVec.ofNat 32 (repnl j) := by
    rw [Pnl.words, if_pos (by omega), Int.toNat_natCast]
  have hcast : (i : Int) - (seq : Int) = ((i - seq : Nat) : Int) := by omega
  have htop := h.below _ (Pnl.has_cell (by omega : 0 < i - seq) (by omega))
  have hfall := h.falls.le (by omega : 0 < i - seq) (by omega) hhi
  simp only [maxPageno] at hlimit
  have hlow : repnl i % 2 ^ 32 = repnl i := Nat.mod_eq_of_lt (by omega)
  have hhigh : repnl (i - seq) % 2 ^ 32 = repnl (i - seq) := Nat.mod_eq_of_lt (by omega)
  rw [diffIs, beq_iff_eq, ← sub_toNat_eq_iff hseq, hcast, hword i hhi, hword (i - seq) (by omega),
    h.hasSpan_iff (by omega) hhi, BitVec.toNat_sub, BitVec.toNat_ofNat, BitVec.toNat_ofNat, hlow,
    hhigh]
  constructor
  · intro heq
    exact ⟨hlo, by omega⟩
  · rintro ⟨_, heq⟩
    omega

/-- What the scan finds is the last cell with a sequence that ends there. -/
theorem repnlScan_spec (h : repnl.Sorted limit) (hlimit : limit ≤ maxPageno + 1)
    (hseq : seq < repnl.size) :
    (repnlScan impl around repnl seq = none ∧ ∀ pgno, ¬ repnl.HasSpan pgno (seq + 1)) ∨
      ∃ i, repnlScan impl around repnl seq = some i ∧ seq < i ∧ i ≤ repnl.size ∧
        repnl.HasSpan (repnl i) (seq + 1) ∧
        ∀ pgno, repnl.HasSpan pgno (seq + 1) → repnl i ≤ pgno := by
  -- Falling page numbers below `limit` leave no room for a longer list.
  have hshort : repnl.size ≤ limit := by
    have hdown (k : Nat) (hk : k < repnl.size) : repnl (repnl.size - k) ≥ k := by
      induction k with
      | zero => exact Nat.zero_le _
      | succ k ih =>
        have hlt := h.falls (repnl.size - (k + 1)) (repnl.size - k) (by omega) (by omega) (by omega)
        have hle := ih (by omega)
        omega
    by_contra hlong
    have htop := hdown (repnl.size - 1) (by omega)
    have hone : repnl.size - (repnl.size - 1) = 1 := by omega
    rw [hone] at htop
    have hbelow := h.below _ (Pnl.has_cell Nat.one_pos (by omega))
    omega
  have hsmall : seq < 2 ^ 32 := by
    simp only [maxPageno] at hlimit
    omega
  have hscan := scan4seq_down impl (repnl.words around) hseq
  have hbegins (pgno : Nat) (hspan : repnl.HasSpan pgno (seq + 1)) :
      ∃ j, seq < j ∧ j ≤ repnl.size ∧ repnl j = pgno := by
    obtain ⟨j, hlo, hhi, rfl⟩ := hspan pgno (Nat.le_refl _) (by omega)
    exact ⟨j, ((h.hasSpan_iff hlo hhi).mp hspan).1, hhi, rfl⟩
  have hhit (j : Nat) (hlo : seq < j) (hhi : j ≤ repnl.size) :=
    @diffIs_words_iff around repnl limit seq j h hlimit hlo hhi hsmall
  rw [repnlScan, hscan]
  rcases hdown : Lanes.down (diffIs (repnl.words around) seq) repnl.size (repnl.size - seq) with
    _ | at'
  · refine .inl ⟨rfl, fun pgno hspan => ?_⟩
    obtain ⟨j, hlo, hhi, rfl⟩ := hbegins pgno hspan
    have hmiss := Lanes.down_complete hdown (k := repnl.size - j) (by omega)
    have hplace : (repnl.size : Int) - ((repnl.size - j : Nat) : Int) = j := by omega
    rw [hplace, Bool.eq_false_iff] at hmiss
    exact hmiss ((hhit j hlo hhi).mpr hspan)
  · obtain ⟨hat, hlow, hhigh⟩ := Lanes.down_sound hdown
    obtain ⟨i, rfl⟩ : ∃ i : Nat, at' = i := ⟨at'.toNat, by omega⟩
    have hlo : seq < i := by omega
    have hhi : i ≤ repnl.size := by omega
    refine .inr ⟨i, rfl, hlo, hhi, (hhit i hlo hhi).mp hat, fun pgno hspan => ?_⟩
    obtain ⟨j, hjlo, hjhi, rfl⟩ := hbegins pgno hspan
    by_contra hless
    have hafter : i < j := by
      rw [← h.falls.lt_iff (by omega) hhi (by omega) hjhi]
      omega
    -- The topmost hit would be at `j`.
    have hhigher := Lanes.down_topmost hdown (k := repnl.size - j) (by omega)
    have hplace : (repnl.size : Int) - ((repnl.size - j : Nat) : Int) = j := by omega
    rw [hplace, Bool.eq_false_iff] at hhigher
    exact hhigher ((hhit j hjlo hjhi).mpr hspan)

/-- What is taken ends in a cell, and the list is cut there. -/
theorem gcRepnlGetSequence_found (h : repnl.Sorted limit) (hlimit : limit ≤ maxPageno + 1)
    (hnum : 1 < num) (hlen : num ≤ repnl.size) :
    ((gcRepnlGetSequence impl around repnl num).2 = 0 ∧
        (gcRepnlGetSequence impl around repnl num).1 = repnl ∧
        ∀ pgno, ¬ repnl.HasSpan pgno num) ∨
      ∃ r, repnl.HasSpan (repnl (r + num)) num ∧
        (∀ pgno, repnl.HasSpan pgno num → repnl (r + num) ≤ pgno) ∧
        (gcRepnlGetSequence impl around repnl num).2 = repnl (r + num) ∧
        Pnl.Narrowed repnl (gcRepnlGetSequence impl around repnl num).1 r num := by
  have hsucc : num - 1 + 1 = num := by omega
  have hedge := h.contiguous_iff hlimit (by omega : num - 1 < repnl.size) (Nat.le_refl _)
  rw [hsucc] at hedge
  rw [gcRepnlGetSequence]
  by_cases hlast :
      pnlContiguous (repnl (repnl.size - (num - 1))) (repnl repnl.size) (num - 1) = true
  · have hr : repnl.size - num + num = repnl.size := by omega
    simp only [if_pos hlast]
    refine .inr ⟨repnl.size - num, ?_⟩
    rw [hr]
    refine ⟨hedge.mp hlast, fun pgno hother => ?_, rfl, setsize_narrowed hlen⟩
    obtain ⟨j, hlo, hhi, rfl⟩ := hother pgno (Nat.le_refl _) (by omega)
    exact h.falls.le hlo hhi (Nat.le_refl _)
  · simp only [if_neg hlast]
    rcases @repnlScan_spec impl around repnl limit (num - 1) h hlimit (by omega) with
      ⟨hnone, hno⟩ | ⟨i, hsome, hlo, hhi, hspan, hleast⟩
    · rw [hsucc] at hno
      rw [hnone, Option.elim_none]
      exact .inl ⟨rfl, rfl, hno⟩
    · rw [hsucc] at hspan hleast
      rw [hsome, Option.elim_some]
      have hcell (j : Nat) := @Pnl.pullDown_cell (repnl.setsize (repnl.size - num)) num
        (repnl.size - i) (i + 1 - num) (by omega) j
      have hcut : Pnl.Narrowed repnl (Pnl.pullDown num (repnl.size - i) (i + 1 - num)
          (repnl.setsize (repnl.size - num))) (i - num) num := by
        refine ⟨by omega, ?_, fun j hjlo hjhi => ?_, fun j hjlo hjhi => ?_⟩
        · rw [Pnl.size, hcell, if_neg (by omega)]
          exact Pnl.set_same
        · rw [hcell, if_neg (by omega), Pnl.setsize_cell hjlo]
        · rw [hcell, if_pos (by omega), Pnl.setsize_cell (by omega)]
      have hr : i - num + num = i := by omega
      refine .inr ⟨i - num, ?_⟩
      rw [hr]
      exact ⟨hspan, hleast, rfl, hcut⟩

/-- The sequence that is taken is the one of the least page numbers, and the list loses just its
pages; nothing is taken only when the list has no such sequence. So it is whichever variant of the
scan is used, and whatever lies in memory around the list. -/
theorem gcRepnlGetSequence_least (impl : ScanImpl) (around : Words) (repnl : Pnl) (limit num : Nat)
    (h : repnl.Sorted limit) (hlimit : limit ≤ maxPageno + 1) (hnum : 1 < num)
    (hlen : num ≤ repnl.size) :
    ((gcRepnlGetSequence impl around repnl num).2 = 0 ∧
        (gcRepnlGetSequence impl around repnl num).1 = repnl ∧
        ∀ pgno, ¬ repnl.HasSpan pgno num) ∨
      (repnl.HasSpan (gcRepnlGetSequence impl around repnl num).2 num ∧
        (∀ pgno, repnl.HasSpan pgno num → (gcRepnlGetSequence impl around repnl num).2 ≤ pgno) ∧
        (gcRepnlGetSequence impl around repnl num).1.Sorted limit ∧
        ∀ x, (gcRepnlGetSequence impl around repnl num).1.Has x ↔
          repnl.Has x ∧ ¬ ((gcRepnlGetSequence impl around repnl num).2 ≤ x ∧
            x < (gcRepnlGetSequence impl around repnl num).2 + num)) := by
  rcases @gcRepnlGetSequence_found impl around repnl limit num h hlimit hnum hlen with
    hnone | ⟨r, hspan, hleast, hpgno, hcut⟩
  · exact .inl hnone
  · rw [hpgno]
    exact .inr ⟨hspan, hleast, hcut.without_span h (by omega) hspan⟩

/-- Of 15, 12, 11, 8, 7, 6 and 3 the first three pages in a row are 6, 7 and 8. -/
theorem gcRepnlGetSequence_least_three :
    (gcRepnlGetSequence (.sse2 fun _ => true) (fun _ => 0) ([7, 15, 12, 11, 8, 7, 6, 3].getD · 0)
        3).2 = 6 ∧
      (gcRepnlGetSequence (.sse2 fun _ => true) (fun _ => 0) ([7, 15, 12, 11, 8, 7, 6, 3].getD · 0)
        3).1.Sorted 16 := by
  have hsorted : Pnl.Sorted ([7, 15, 12, 11, 8, 7, 6, 3].getD · 0) 16 :=
    (pnlCheck_iff (by decide)).mp (by decide)
  have hsix : (gcRepnlGetSequence (.sse2 fun _ => true) (fun _ => 0)
      ([7, 15, 12, 11, 8, 7, 6, 3].getD · 0) 3).2 = 6 := by decide +kernel
  refine ⟨hsix, ?_⟩
  rcases gcRepnlGetSequence_least (.sse2 fun _ => true) (fun _ => 0)
    ([7, 15, 12, 11, 8, 7, 6, 3].getD · 0) 16 3 hsorted (by decide) (by decide) (by decide) with
    ⟨hzero, _⟩ | ⟨_, _, hleft, _⟩
  · rw [hsix] at hzero
    cases hzero
  · exact hleft

/-- The question whether there is a span is answered as if the span were taken. -/
theorem gcRepnlHasSpan_iff (h : repnl.Sorted limit) (hlimit : limit ≤ maxPageno + 1)
    (hnum : 0 < num) (hlen : num ≤ repnl.size ∨ num = 1) :
    gcRepnlHasSpan impl around repnl num = true ↔ ∃ pgno, repnl.HasSpan pgno num := by
  rw [gcRepnlHasSpan]
  by_cases hmore : num > 1
  · have hsame : gcRepnlScanSequenceReserve impl around repnl num =
        (gcRepnlGetSequence impl around repnl num).2 := by
      rw [gcRepnlScanSequenceReserve, gcRepnlGetSequence]
      by_cases hlast :
          pnlContiguous (repnl (repnl.size - (num - 1))) (repnl repnl.size) (num - 1) = true
      · simp only [if_pos hlast]
      · simp only [if_neg hlast]
        cases repnlScan impl around repnl (num - 1) with
        | none => rfl
        | some target => rfl
    rw [if_pos hmore, bne_iff_ne, hsame]
    rcases @gcRepnlGetSequence_found impl around repnl limit num h hlimit hmore (by omega) with
      ⟨hzero, _, hno⟩ | ⟨r, hspan, _, hpgno, _⟩
    · exact ⟨fun hne => absurd hzero hne, fun ⟨pgno, hspan⟩ => absurd hspan (hno pgno)⟩
    · rw [hpgno]
      refine ⟨fun _ => ⟨_, hspan⟩, fun _ hzero => ?_⟩
      have hmeta := h.above _ (hspan _ (Nat.le_refl _) (by omega))
      simp only [numMetas] at hmeta
      omega
  · have hone : num = 1 := by omega
    subst hone
    rw [if_neg hmore, bne_iff_ne]
    constructor
    · intro hne
      refine ⟨repnl 1, fun x hx hx' => ?_⟩
      have heq : x = repnl 1 := by omega
      rw [heq]
      exact Pnl.has_cell Nat.one_pos (by omega)
    · rintro ⟨pgno, hspan⟩ hzero
      obtain ⟨j, hlo, hhi, _⟩ := hspan pgno (Nat.le_refl _) (by omega)
      omega

end MdbxGo
