import MdbxGo.Lanes

/-! The search of a page list for a run of pages (`scan4seq`), in its plain form and in the forms
that compare several places of the list at once. -/

namespace MdbxGo

/-- The words around a page list by their distance from its first one, which holds its length. A
load of several words may begin before the list. -/
abbrev Words := Int → BitVec 32

/-- `*range - range[offset] == target`, where `target` and `offset` are `-seq`. -/
def diffIs (pnl : Words) (seq : Nat) (range : Int) : Bool :=
  pnl range - pnl (range - seq) == -(BitVec.ofNat 32 seq)

/-- The plain search, which goes down from the last page of the list. -/
def scan4rangeChecker (pnl : Words) (seq : Nat) : Nat → Option Int
  | 0 => none
  | start + 1 =>
    if start + 1 > seq then
      if (pnl ((start + 1 : Nat) - seq) - pnl (start + 1 : Nat)).toNat == seq then
        some (start + 1 : Nat)
      else scan4rangeChecker pnl seq start
    else none

/-! ### Loops -/

/-- `do if (hit) return range; while (go(--range))`. -/
def doWhile (hit go : Int → Bool) : Nat → Int → Option Int
  | 0, _ => none
  | fuel + 1, range =>
    if hit range then some range
    else if go (range - 1) then doWhile hit go fuel (range - 1) else none

/-- `while (range > detent) { if (hit) return range; --range; }`. -/
def whileAbove (hit : Int → Bool) (detent : Int) : Nat → Int → Option Int
  | 0, _ => none
  | fuel + 1, range =>
    if range > detent then
      if hit range then some range else whileAbove hit detent fuel (range - 1)
    else none

/-- `do { if (found) return; range -= lanes; } while (range > detent + lanes - 1)`: what is found
and the range that is left. -/
def blocks (find : Int → Option Int) (lanes : Nat) (detent : Int) : Nat → Int → Option Int × Int
  | 0, range => (none, range)
  | fuel + 1, range =>
    if (find range).isSome then (find range, range)
    else if range - lanes > detent + (lanes - 1) then blocks find lanes detent fuel (range - lanes)
    else (none, range - lanes)

/-- What the variants share: whole blocks while they fit, then `tail` for the rest. -/
def scan4seq (lanes : Nat) (find : Int → Option Int) (tail : Int → Int → Option Int) (range : Int)
    (len seq : Nat) : Option Int :=
  let detent := range - len + seq
  if len > seq + (lanes - 1) then
    let s := blocks find lanes detent len range
    if s.1.isSome then s.1
    else if s.2 = detent then none
    else tail detent s.2
  else tail detent range

/-- How often a loop down to `detent` can run. -/
def toDetent (detent range : Int) : Nat := (range - detent).toNat

/-! ### Without vector instructions -/

/-- The four differences of a block, which are looked at from the topmost on. -/
def fourDiffs (hit : Int → Bool) (range : Int) : Option Int :=
  if hit range then some range
  else if hit (range - 1) then some (range - 1)
  else if hit (range - 2) then some (range - 2)
  else if hit (range - 3) then some (range - 3)
  else none

def scan4seqFallback (pnl : Words) (range : Int) (len seq : Nat) : Option Int :=
  let hit := diffIs pnl seq
  scan4seq 4 (fourDiffs hit)
    (fun detent range =>
      doWhile hit (fun at' => decide (at' > detent)) (toDetent detent range) range)
    range len seq

/-! ### With masks -/

/-- `__builtin_clz` and `__builtin_clzl`, for words of `width` bits. -/
def builtinClz (width mask : Nat) : Nat := width - 1 - mask.log2

/-- `diffcmp2mask_sse2` and the others: a bit for each lane from `ptr` on. -/
def diffcmp2mask (lanes : Nat) (pnl : Words) (seq : Nat) (ptr : Int) : Nat :=
  Lanes.mask (diffIs pnl seq) 1 ptr lanes

/-- `if (mask) return range + bias - __builtin_clz(mask)`. -/
def foundAt (bias : Nat) (range : Int) (mask : Nat) : Option Int :=
  if mask ≠ 0 then some (range + bias - builtinClz 32 mask) else none

/-- A whole block of lanes. -/
def findBlock (lanes bias : Nat) (pnl : Words) (seq : Nat) (range : Int) : Option Int :=
  foundAt bias range (diffcmp2mask lanes pnl seq (range - (lanes - 1)))

/-- A block that reaches below `detent`: `ones` is the mask of all lanes, from which those below are
shifted out, and the mask is held in `width` bits. -/
def findCut (lanes bias ones width : Nat) (pnl : Words) (seq : Nat) (detent range : Int) :
    Option Int :=
  let extra := (detent + lanes - range).toNat
  foundAt bias range
    ((ones <<< extra) % 2 ^ width &&& diffcmp2mask lanes pnl seq (range - (lanes - 1)))

/-- Whether a load of lanes that begins before the last ones stays on its page of memory (and no
checker of memory accesses is at work). -/
abbrev OnPageSafe := Int → Bool

def scan4seqSse2 (safe : OnPageSafe) (pnl : Words) (range : Int) (len seq : Nat) : Option Int :=
  scan4seq 4 (findBlock 4 28 pnl seq)
    (fun detent range =>
      if safe range then findCut 4 28 0xF 8 pnl seq detent range
      else doWhile (diffIs pnl seq) (fun at' => decide (at' ≠ detent))
        (toDetent detent range) range)
    range len seq

/-- `if (range - 3 > detent)`: four lanes at once, then one by one. -/
def fourThenOne (pnl : Words) (seq : Nat) (detent range : Int) : Option Int :=
  if range - 3 > detent then
    (findBlock 4 28 pnl seq range).or
      (whileAbove (diffIs pnl seq) detent (toDetent detent range) (range - 4))
  else whileAbove (diffIs pnl seq) detent (toDetent detent range) range

def scan4seqAvx2 (safe : OnPageSafe) (pnl : Words) (range : Int) (len seq : Nat) : Option Int :=
  scan4seq 8 (findBlock 8 24 pnl seq)
    (fun detent range =>
      if safe range then findCut 8 24 0xFF 8 pnl seq detent range
      else fourThenOne pnl seq detent range)
    range len seq

/-- `if (range - 7 > detent)`: eight lanes at once before the four. -/
def eightThenFour (pnl : Words) (seq : Nat) (detent range : Int) : Option Int :=
  if range - 7 > detent then
    (findBlock 8 24 pnl seq range).or (fourThenOne pnl seq detent (range - 8))
  else fourThenOne pnl seq detent range

def scan4seqAvx512bw (safe : OnPageSafe) (pnl : Words) (range : Int) (len seq : Nat) : Option Int :=
  scan4seq 16 (findBlock 16 16 pnl seq)
    (fun detent range =>
      if safe range then findCut 16 16 0xFFFF 32 pnl seq detent range
      else eightThenFour pnl seq detent range)
    range len seq

/-! ### NEON

The mask has as many bits for a lane as it takes to fill a `size_t` of `size` bytes. -/

/-- `ptr_disp(range, -bytes)`, in words of four bytes. -/
def ptrBack (range : Int) (bytes : Nat) : Int := range - (bytes / 4 : Nat)

def diffcmp2maskNeon (size : Nat) (pnl : Words) (seq : Nat) (ptr : Int) : Nat :=
  Lanes.mask (diffIs pnl seq) (2 * size) ptr 4

def foundNeon (size : Nat) (range : Int) (mask : Nat) : Option Int :=
  if mask ≠ 0 then some (ptrBack range (builtinClz (8 * size) mask >>> (size / 4))) else none

def findNeon (size : Nat) (pnl : Words) (seq : Nat) (range : Int) : Option Int :=
  foundNeon size range (diffcmp2maskNeon size pnl seq (range - 3))

def findCutNeon (size : Nat) (pnl : Words) (seq : Nat) (detent range : Int) : Option Int :=
  let extra := (detent + 4 - range).toNat
  foundNeon size range
    (((2 ^ (8 * size) - 1) <<< (extra * size * 2)) % 2 ^ (8 * size) &&&
      diffcmp2maskNeon size pnl seq (range - 3))

def scan4seqNeon (size : Nat) (safe : OnPageSafe) (pnl : Words) (range : Int) (len seq : Nat) :
    Option Int :=
  scan4seq 4 (findNeon size pnl seq)
    (fun detent range =>
      if safe range then findCutNeon size pnl seq detent range
      else doWhile (diffIs pnl seq) (fun at' => decide (at' ≠ detent))
        (toDetent detent range) range)
    range len seq

/-! ### The parts agree with the plain search -/

section Parts

variable {pnl : Words} {hit : Int → Bool} {seq len lanes bias ones width size fuel : Nat}
  {range detent : Int}

theorem doWhile_eq {go : Int → Bool}
    (hgo : ∀ at', detent ≤ at' → at' < range → (go at' = true ↔ detent < at'))
    (habove : detent < range) :
    doWhile hit go (toDetent detent range) range =
      Lanes.down hit range (toDetent detent range) := by
  obtain ⟨n, hn⟩ : ∃ n, toDetent detent range = n + 1 := ⟨toDetent detent range - 1, by
    simp only [toDetent]
    omega⟩
  rw [hn]
  have hrange : range = detent + (n + 1 : Nat) := by
    simp only [toDetent] at hn
    omega
  clear hn habove
  induction n generalizing range with
  | zero =>
    have hstop : go (range - 1) = false := by
      rw [Bool.eq_false_iff]
      intro hon
      have hlt := (hgo (range - 1) (by omega) (by omega)).mp hon
      omega
    rw [doWhile, Lanes.down, hstop, if_neg Bool.false_ne_true]
    rfl
  | succ n ih =>
    have hon : go (range - 1) = true := (hgo (range - 1) (by omega) (by omega)).mpr (by omega)
    rw [doWhile, Lanes.down, hon, if_pos rfl, ih (fun at' hlow hhigh => hgo at' hlow (by omega))]
    omega

theorem whileAbove_eq (hfuel : toDetent detent range ≤ fuel) :
    whileAbove hit detent fuel range = Lanes.down hit range (toDetent detent range) := by
  induction fuel generalizing range with
  | zero =>
    have hzero : toDetent detent range = 0 := by omega
    rw [hzero, whileAbove, Lanes.down]
  | succ fuel ih =>
    rw [whileAbove]
    by_cases habove : range > detent
    · have hsucc : toDetent detent range = toDetent detent (range - 1) + 1 := by
        simp only [toDetent]
        omega
      rw [if_pos habove, hsucc, Lanes.down, ih (by omega)]
    · have hzero : toDetent detent range = 0 := by
        simp only [toDetent]
        omega
      rw [if_neg habove, hzero, Lanes.down]

theorem fourDiffs_eq : fourDiffs hit range = Lanes.down hit range 4 := by
  have htwo : range - 1 - 1 = range - 2 := by omega
  have hthree : range - 2 - 1 = range - 3 := by omega
  simp only [Lanes.down, fourDiffs, htwo, hthree]

/-- Blocks that agree with the plain search leave what it has not looked at. -/
theorem scan4seq_eq {find : Int → Option Int} {tail : Int → Int → Option Int}
    (hfind : ∀ range, find range = Lanes.down hit range lanes)
    (htail : ∀ detent range : Int, detent < range → range < detent + lanes →
      tail detent range = Lanes.down hit range (toDetent detent range))
    (hlanes : 0 < lanes) (hseq : seq < len) :
    scan4seq lanes find tail range len seq = Lanes.down hit range (len - seq) := by
  -- The blocks look at a multiple of the lanes, and go on while more than the lanes are left.
  have hblocks (fuel : Nat) (detent range : Int) (hfit : detent + (lanes - 1) < range)
      (hfuel : toDetent detent range ≤ fuel) :
      ((blocks find lanes detent fuel range).1 = Lanes.down hit range (toDetent detent range) ∧
          (blocks find lanes detent fuel range).1.isSome) ∨
        ((blocks find lanes detent fuel range).1 = none ∧
          detent ≤ (blocks find lanes detent fuel range).2 ∧
          (blocks find lanes detent fuel range).2 < detent + lanes ∧
          Lanes.down hit range (toDetent detent range) =
            Lanes.down hit (blocks find lanes detent fuel range).2
              (toDetent detent (blocks find lanes detent fuel range).2)) := by
    induction fuel generalizing range with
    | zero =>
      simp only [toDetent] at hfuel
      omega
    | succ fuel ih =>
      have hsplit : toDetent detent range = lanes + toDetent detent (range - lanes) := by
        simp only [toDetent]
        omega
      rw [blocks]
      rcases hfound : find range with _ | place
      · rw [Option.isSome_none, if_neg Bool.false_ne_true]
        have hdown : Lanes.down hit range (toDetent detent range) =
            Lanes.down hit (range - lanes) (toDetent detent (range - lanes)) := by
          rw [hsplit, Lanes.down_add, ← hfind, hfound, Option.none_or]
        by_cases hmore : range - lanes > detent + (lanes - 1)
        · rw [if_pos hmore, hdown]
          exact ih (range - lanes) (by omega) (by omega)
        · rw [if_neg hmore]
          exact .inr ⟨rfl, by simp only; omega, by simp only; omega, hdown⟩
      · rw [Option.isSome_some, if_pos rfl]
        refine .inl ⟨?_, rfl⟩
        rw [hsplit, Lanes.down_add, ← hfind, hfound, Option.some_or]
  have hall : toDetent (range - len + seq) range = len - seq := by
    simp only [toDetent]
    omega
  rw [scan4seq]
  by_cases hlong : len > seq + (lanes - 1)
  · rw [if_pos hlong]
    have hfuel : toDetent (range - len + seq) range ≤ len := by omega
    rcases hblocks len (range - len + seq) range (by omega) hfuel with
      ⟨heq, hsome⟩ | ⟨hnone, hlow, hhigh, heq⟩
    · simp only [hsome, if_true]
      rw [heq, hall]
    · simp only [hnone, Option.isSome_none, Bool.false_eq_true, if_false]
      rw [← hall, heq]
      by_cases hend : (blocks find lanes (range - len + seq) len range).2 = range - len + seq
      · rw [if_pos hend, hend]
        have hzero : toDetent (range - len + seq) (range - len + seq) = 0 := by
          simp only [toDetent]
          omega
        rw [hzero, Lanes.down]
      · rw [if_neg hend]
        exact htail _ _ (by omega) hhigh
  · rw [if_neg hlong, ← hall]
    exact htail _ _ (by omega) (by omega)

theorem foundAt_eq {extra m : Nat} (hlanes : lanes ≤ 32) (hbias : bias = 32 - lanes)
    (hshows : Lanes.Shows hit 1 (range - (lanes - 1)) extra lanes m) :
    foundAt bias range m = Lanes.down hit range (lanes - extra) := by
  have htop : range - ((lanes : Int) - 1) + lanes - 1 = range := by omega
  rw [foundAt]
  by_cases hm : m = 0
  · rw [if_neg (not_not.mpr hm)]
    rw [hm] at hshows
    have hnone := hshows.down_eq_none Nat.one_pos
    rw [htop] at hnone
    exact hnone.symm
  · rw [if_pos hm]
    obtain ⟨i, _, hn, hlog, _⟩ := hshows.last Nat.one_pos hm
    have hsome := hshows.down_eq Nat.one_pos hm
    rw [htop] at hsome
    rw [hsome, builtinClz, hlog, hbias, Nat.div_one]
    congr 1
    omega

theorem findBlock_eq (hlanes : lanes ≤ 32) (hbias : bias = 32 - lanes) :
    findBlock lanes bias pnl seq range = Lanes.down (diffIs pnl seq) range lanes :=
  foundAt_eq hlanes hbias (Lanes.shows_mask Nat.one_pos)

theorem findCut_eq (hlanes : lanes ≤ 32) (hbias : bias = 32 - lanes) (hones : ones = 2 ^ lanes - 1)
    (hwidth : lanes ≤ width) (hlow : detent < range) (hhigh : range < detent + lanes) :
    findCut lanes bias ones width pnl seq detent range =
      Lanes.down (diffIs pnl seq) range (toDetent detent range) := by
  have hleft : toDetent detent range = lanes - (detent + lanes - range).toNat := by
    simp only [toDetent]
    omega
  have hshows := @Lanes.shows_and (diffIs pnl seq) (range - (lanes - 1)) 1 lanes
    (detent + lanes - range).toNat Nat.one_pos ones width (by rw [Nat.one_mul, hones])
    (by rw [Nat.one_mul]; exact hwidth)
  rw [Nat.one_mul] at hshows
  rw [hleft]
  exact foundAt_eq hlanes hbias hshows

theorem fourThenOne_eq :
    fourThenOne pnl seq detent range =
      Lanes.down (diffIs pnl seq) range (toDetent detent range) := by
  rw [fourThenOne]
  by_cases hfour : range - 3 > detent
  · have hsplit : toDetent detent range = 4 + toDetent detent (range - 4) := by
      simp only [toDetent]
      omega
    have hfuel : toDetent detent (range - 4) ≤ toDetent detent range := by omega
    rw [if_pos hfour, findBlock_eq (by decide) (by decide), whileAbove_eq hfuel, hsplit,
      Lanes.down_add]
    rfl
  · rw [if_neg hfour, whileAbove_eq (Nat.le_refl _)]

theorem eightThenFour_eq :
    eightThenFour pnl seq detent range =
      Lanes.down (diffIs pnl seq) range (toDetent detent range) := by
  rw [eightThenFour]
  by_cases height : range - 7 > detent
  · have hsplit : toDetent detent range = 8 + toDetent detent (range - 8) := by
      simp only [toDetent]
      omega
    rw [if_pos height, findBlock_eq (by decide) (by decide), fourThenOne_eq, hsplit,
      Lanes.down_add]
    rfl
  · rw [if_neg height, fourThenOne_eq]

theorem foundNeon_eq {extra m : Nat} (hsize : size = 8 ∨ size = 4)
    (hshows : Lanes.Shows hit (2 * size) (range - 3) extra 4 m) :
    foundNeon size range m = Lanes.down hit range (4 - extra) := by
  have hpos : 0 < 2 * size := by omega
  have htop : range - 3 + ((4 : Nat) : Int) - 1 = range := by omega
  rw [foundNeon]
  by_cases hm : m = 0
  · rw [if_neg (not_not.mpr hm)]
    rw [hm] at hshows
    have hnone := hshows.down_eq_none hpos
    rw [htop] at hnone
    exact hnone.symm
  · rw [if_pos hm]
    obtain ⟨i, _, hn, hlog, _⟩ := hshows.last hpos hm
    have hsome := hshows.down_eq hpos hm
    have hquot : m.log2 / (2 * size) = i := by
      rw [hlog, Nat.mul_add_div hpos, Nat.div_eq_of_lt (by omega), Nat.add_zero]
    rw [htop, hquot] at hsome
    rw [hsome, builtinClz, hlog, ptrBack]
    congr 1
    -- The leading zeros are those of whole lanes.
    rcases hsize with hsize | hsize
    · subst hsize
      rw [Nat.shiftRight_eq_div_pow]
      omega
    · subst hsize
      rw [Nat.shiftRight_eq_div_pow]
      omega

theorem findNeon_eq (hsize : size = 8 ∨ size = 4) :
    findNeon size pnl seq range = Lanes.down (diffIs pnl seq) range 4 :=
  foundNeon_eq hsize (Lanes.shows_mask (by omega))

theorem findCutNeon_eq (hsize : size = 8 ∨ size = 4) (hlow : detent < range)
    (hhigh : range < detent + 4) :
    findCutNeon size pnl seq detent range =
      Lanes.down (diffIs pnl seq) range (toDetent detent range) := by
  have hleft : toDetent detent range = 4 - (detent + 4 - range).toNat := by
    simp only [toDetent]
    omega
  have hwidth : 2 * size * 4 = 8 * size := by omega
  have hshift (extra : Nat) : extra * size * 2 = 2 * size * extra := by
    rw [Nat.mul_comm extra size, Nat.mul_comm (size * extra) 2, Nat.mul_assoc]
  have hshows := @Lanes.shows_and (diffIs pnl seq) (range - 3) (2 * size) 4
    (detent + 4 - range).toNat (by omega) (2 ^ (8 * size) - 1) (8 * size) (by rw [hwidth])
      (by omega)
  rw [← hshift] at hshows
  rw [hleft]
  exact foundNeon_eq hsize hshows

theorem doWhileGt_eq (habove : detent < range) :
    doWhile hit (fun at' => decide (at' > detent)) (toDetent detent range) range =
      Lanes.down hit range (toDetent detent range) := by
  apply doWhile_eq
  · intro at' hlow hhigh
    rw [decide_eq_true_eq, gt_iff_lt]
  · exact habove

theorem doWhileNe_eq (habove : detent < range) :
    doWhile hit (fun at' => decide (at' ≠ detent)) (toDetent detent range) range =
      Lanes.down hit range (toDetent detent range) := by
  apply doWhile_eq
  · intro at' hlow hhigh
    rw [decide_eq_true_eq]
    exact ⟨fun hne => by omega, fun hlt => by omega⟩
  · exact habove

/-- The two ways to compare a difference of page numbers with the length of a run. -/
theorem sub_toNat_eq_iff {x y : BitVec 32} (hseq : seq < 2 ^ 32) :
    (x - y).toNat = seq ↔ y - x = -(BitVec.ofNat 32 seq) := by
  bv_omega

theorem scan4rangeChecker_eq (hseq : seq < 2 ^ 32) (start : Nat) :
    scan4rangeChecker pnl seq start = Lanes.down (diffIs pnl seq) start (start - seq) := by
  induction start with
  | zero => rw [scan4rangeChecker, Nat.zero_sub, Lanes.down]
  | succ start ih =>
    rw [scan4rangeChecker]
    by_cases hmore : start + 1 > seq
    · have hsucc : start + 1 - seq = start - seq + 1 := by omega
      have hplace : ((start + 1 : Nat) : Int) - 1 = start := by omega
      rw [if_pos hmore, hsucc, Lanes.down, hplace, ih]
      have hsame : ((pnl ((start + 1 : Nat) - seq) - pnl (start + 1 : Nat)).toNat == seq) =
          diffIs pnl seq (start + 1 : Nat) := by
        rw [diffIs, Bool.eq_iff_iff, beq_iff_eq, beq_iff_eq]
        exact sub_toNat_eq_iff hseq
      rw [hsame]
    · have hzero : start + 1 - seq = 0 := by omega
      rw [if_neg hmore, hzero, Lanes.down]

end Parts

section Variants

variable {pnl : Words} {safe : OnPageSafe} {size len seq : Nat}

theorem scan4seqFallback_eq (hlen : seq < len) :
    scan4seqFallback pnl len len seq = Lanes.down (diffIs pnl seq) len (len - seq) := by
  simp only [scan4seqFallback]
  apply scan4seq_eq (fun range => fourDiffs_eq) _ (by decide) hlen
  intro detent range hlow hhigh
  exact doWhileGt_eq hlow

theorem scan4seqSse2_eq (hlen : seq < len) :
    scan4seqSse2 safe pnl len len seq = Lanes.down (diffIs pnl seq) len (len - seq) := by
  apply scan4seq_eq (fun range => findBlock_eq (by decide) (by decide)) _ (by decide) hlen
  intro detent range hlow hhigh
  by_cases hsafe : safe range = true
  · rw [if_pos hsafe]
    exact findCut_eq (by decide) (by decide) (by decide) (by decide) hlow hhigh
  · rw [if_neg hsafe]
    exact doWhileNe_eq hlow

theorem scan4seqAvx2_eq (hlen : seq < len) :
    scan4seqAvx2 safe pnl len len seq = Lanes.down (diffIs pnl seq) len (len - seq) := by
  apply scan4seq_eq (fun range => findBlock_eq (by decide) (by decide)) _ (by decide) hlen
  intro detent range hlow hhigh
  by_cases hsafe : safe range = true
  · rw [if_pos hsafe]
    exact findCut_eq (by decide) (by decide) (by decide) (by decide) hlow hhigh
  · rw [if_neg hsafe]
    exact fourThenOne_eq

theorem scan4seqAvx512bw_eq (hlen : seq < len) :
    scan4seqAvx512bw safe pnl len len seq = Lanes.down (diffIs pnl seq) len (len - seq) := by
  apply scan4seq_eq (fun range => findBlock_eq (by decide) (by decide)) _ (by decide) hlen
  intro detent range hlow hhigh
  by_cases hsafe : safe range = true
  · rw [if_pos hsafe]
    exact findCut_eq (by decide) (by decide) (by decide) (by decide) hlow hhigh
  · rw [if_neg hsafe]
    exact eightThenFour_eq

theorem scan4seqNeon_eq (hsize : size = 8 ∨ size = 4) (hlen : seq < len) :
    scan4seqNeon size safe pnl len len seq = Lanes.down (diffIs pnl seq) len (len - seq) := by
  apply scan4seq_eq (fun range => findNeon_eq hsize) _ (by decide) hlen
  intro detent range hlow hhigh
  by_cases hsafe : safe range = true
  · rw [if_pos hsafe]
    exact findCutNeon_eq hsize hlow hhigh
  · rw [if_neg hsafe]
    exact doWhileNe_eq hlow

end Variants

/-- Every variant finds what the plain search finds, whatever lies around the list. -/
theorem scan4seq_plain (pnl : Words) (safe : OnPageSafe) (len seq : Nat) (hlen : seq < len)
    (hseq : seq < 2 ^ 32) :
    scan4seqFallback pnl len len seq = scan4rangeChecker pnl seq len ∧
      scan4seqSse2 safe pnl len len seq = scan4rangeChecker pnl seq len ∧
      scan4seqAvx2 safe pnl len len seq = scan4rangeChecker pnl seq len ∧
      scan4seqAvx512bw safe pnl len len seq = scan4rangeChecker pnl seq len ∧
      scan4seqNeon 8 safe pnl len len seq = scan4rangeChecker pnl seq len ∧
      scan4seqNeon 4 safe pnl len len seq = scan4rangeChecker pnl seq len := by
  rw [scan4rangeChecker_eq hseq]
  exact ⟨scan4seqFallback_eq hlen, scan4seqSse2_eq hlen, scan4seqAvx2_eq hlen,
    scan4seqAvx512bw_eq hlen, scan4seqNeon_eq (.inl rfl) hlen, scan4seqNeon_eq (.inr rfl) hlen⟩

/-- In the list 9, 8, 7, 3, 2 the run of three pages begins at its third page. -/
theorem scan4seq_plain_run :
    scan4seqAvx2 (fun _ => true) (fun i => [5, 9, 8, 7, 3, 2].getD i.toNat 0) 5 5 2 = some 3 ∧
      scan4seqFallback (fun i => [5, 9, 8, 7, 3, 2].getD i.toNat 0) 5 5 2 =
        scan4rangeChecker (fun i => [5, 9, 8, 7, 3, 2].getD i.toNat 0) 2 5 :=
  ⟨by decide +kernel,
    (scan4seq_plain (fun i => [5, 9, 8, 7, 3, 2].getD i.toNat 0) (fun _ => true) 5 2 (by decide)
      (by decide)).1⟩

end MdbxGo
