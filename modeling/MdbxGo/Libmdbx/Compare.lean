import Mathlib.Data.List.Basic
import MdbxGo.Digits

/-! The comparison of keys and values: the functions that libmdbx has for it, and the faster ones
that it uses where the lengths are known. The machine has the least byte of a word first, `wide`
tells that `size_t` has eight bytes, and no length is past `INT_MAX / 2`. -/

namespace MdbxGo

namespace Compare

/-- A value in memory. -/
abbrev Val := List UInt8

/-- Bytes as digits. -/
def digits (v : Val) : List Nat := v.map UInt8.toNat

/-- What `memcmp` says of the first `n` bytes; the documentation promises its sign only. -/
def memcmp (a b : Val) (n : Nat) : Int := Digits.firstDiff (digits (a.take n)) (digits (b.take n))

/-- `unaligned_peek_u32` and `unaligned_peek_u64`: a word of `n` bytes at a place. -/
def peek (n : Nat) (v : Val) (at_ : Nat) : Nat := Nat.ofDigits 256 (digits ((v.drop at_).take n))

/-- `CMP2INT` -/
def cmp2int (a b : Nat) : Int := if a ≠ b then if a < b then -1 else 1 else 0

/-- `cmp_len` -/
def cmpLen (a b : Nat) : Int := a - b

/-- `cmp_lexical` -/
def cmpLexical (a b : Val) : Int :=
  let diffLen := cmpLen a.length b.length
  let shortest := if a.length < b.length then a.length else b.length
  let diffData := if shortest ≠ 0 then memcmp a b shortest else 0
  if diffData ≠ 0 then diffData else diffLen

/-- `cmp_lenfast` -/
def cmpLenfast (a b : Val) : Int :=
  let diff := cmpLen a.length b.length
  if diff ≠ 0 ∨ a.length = 0 then diff else memcmp a b a.length

/-- The byte at a place. -/
def byte (v : Val) (i : Nat) : Nat := (v.getD i 0).toNat

/-- `tail3le` of the `l` bytes at a place. -/
def tail3le (v : Val) (p l : Nat) : Nat :=
  byte v p ||| byte v (p + l / 2) <<< 8 ||| byte v (p + l - 1) <<< 16

/-- The end of `cmp_reverse`, with fewer than four bytes left. -/
def cmpReverseTail (a b : Val) (pa pb left : Nat) : Int :=
  if left ≠ 0 ∧ tail3le a (pa - left) left ≠ tail3le b (pb - left) left then
    if tail3le a (pa - left) left < tail3le b (pb - left) left then -1 else 1
  else cmpLen a.length b.length

/-- `cmp_reverse` after its loop. -/
def cmpReverseHalf (wide : Bool) (a b : Val) (pa pb left : Nat) : Int :=
  if wide ∧ 4 ≤ left then
    if peek 4 a (pa - 4) ≠ peek 4 b (pb - 4) then
      if peek 4 a (pa - 4) < peek 4 b (pb - 4) then -1 else 1
    else cmpReverseTail a b (pa - 4) (pb - 4) (left - 4)
  else cmpReverseTail a b pa pb left

/-- The loop of `cmp_reverse`. -/
def cmpReverseLoop (wide : Bool) (a b : Val) : Nat → Nat → Nat → Nat → Int
  | 0, pa, pb, left => cmpReverseHalf wide a b pa pb left
  | fuel + 1, pa, pb, left =>
    let word := if wide then 8 else 4
    if word ≤ left then
      if peek word a (pa - word) ≠ peek word b (pb - word) then
        if peek word a (pa - word) < peek word b (pb - word) then -1 else 1
      else cmpReverseLoop wide a b fuel (pa - word) (pb - word) (left - word)
    else cmpReverseHalf wide a b pa pb left

/-- `cmp_reverse` -/
def cmpReverse (wide : Bool) (a b : Val) : Int :=
  let left := if a.length < b.length then a.length else b.length
  if left ≠ 0 then cmpReverseLoop wide a b left a.length b.length left
  else cmpLen a.length b.length

/-- `cmp_uint32_unchecked` and `cmp_uint64_unchecked` -/
def cmpUintUnchecked (n : Nat) (a b : Val) : Int := cmp2int (peek n a 0) (peek n b 0)

/-- `cmp_uint`; lengths that no integer has are reported, and compare as equal. -/
def cmpUint (a b : Val) : Int :=
  if a.length = b.length ∧ (a.length = 8 ∨ a.length = 4) then cmpUintUnchecked a.length a b else 0

/-- `eq_fast_slowpath`. The differences are those of unsigned words. -/
def eqFastSlowpath (unalignedOk : Nat) (wide : Bool) (a b : Val) (l : Nat) : Bool :=
  if 3 < l then
    if 4 ≤ unalignedOk ∧ l < 9 then
      ((2 ^ 32 + peek 4 a 0 - peek 4 b 0) % 2 ^ 32 |||
        (2 ^ 32 + peek 4 a (l - 4) - peek 4 b (l - 4)) % 2 ^ 32) == 0
    else if 8 ≤ unalignedOk ∧ wide ∧ l < 17 then
      ((2 ^ 64 + peek 8 a 0 - peek 8 b 0) % 2 ^ 64 |||
        (2 ^ 64 + peek 8 a (l - 8) - peek 8 b (l - 8)) % 2 ^ 64) == 0
    else memcmp a b l == 0
  else if l ≠ 0 then tail3le a 0 l == tail3le b 0 l
  else true

/-- `eq_fast` -/
def eqFast (unalignedOk : Nat) (wide : Bool) (a b : Val) : Bool :=
  a.length == b.length && eqFastSlowpath unalignedOk wide a b a.length

variable {wide : Bool} {a b u v : Val} {n pa pb left fuel d : Nat}

/-! ### Bytes as digits -/

theorem digits_lt {x : Nat} (h : x ∈ digits v) : x < 256 := by
  obtain ⟨c, -, rfl⟩ := List.mem_map.mp h
  exact c.toNat_lt

@[simp] theorem length_digits (v : Val) : (digits v).length = v.length := List.length_map _

@[simp] theorem digits_append (u v : Val) : digits (u ++ v) = digits u ++ digits v :=
  List.map_append

theorem digits_reverse (v : Val) : digits v.reverse = (digits v).reverse := List.map_reverse

theorem digits_inj : digits u = digits v ↔ u = v :=
  List.map_inj_right fun _ _ h => UInt8.toNat_inj.mp h

/-- Values of one length are the same when no byte differs. -/
theorem firstDiff_digits (h : u.length = v.length) :
    Digits.firstDiff (digits u) (digits v) = 0 ↔ u = v := by
  rw [Digits.firstDiff_eq_zero_iff (by simpa using h), digits_inj]

/-- Two numbers compare as the sign of `c` says. -/
structure Compares (x y : Nat) (c : Int) : Prop where
  lt : x < y ↔ c < 0
  gt : y < x ↔ 0 < c

theorem Compares.eq_iff {x y : Nat} {c : Int} (h : Compares x y c) : x = y ↔ c = 0 := by
  have hlt := h.lt
  have hgt := h.gt
  omega

theorem Compares.sign {x y : Nat} {c : Int} (h : Compares x y c) (hne : x ≠ y) :
    (if x < y then -1 else 1 : Int) = c.sign := by
  by_cases hlt : x < y
  · rw [if_pos hlt, Int.sign_eq_neg_one_of_neg (h.lt.mp hlt)]
  · rw [if_neg hlt, Int.sign_eq_one_of_pos (h.gt.mp (by omega))]

/-- Words compare as their bytes do, the last one first. -/
theorem word_compares (h : u.length = v.length) :
    Compares (Nat.ofDigits 256 (digits u)) (Nat.ofDigits 256 (digits v))
      (Digits.firstDiff (digits u.reverse) (digits v.reverse)) := by
  have hlen : (digits u).length = (digits v).length := by simpa using h
  rw [digits_reverse, digits_reverse]
  constructor
  · exact Digits.ofDigits_lt_iff (by decide) hlen (fun x => digits_lt) (fun y => digits_lt)
  · rw [Digits.ofDigits_lt_iff (by decide) hlen.symm (fun x => digits_lt) (fun y => digits_lt),
      Digits.firstDiff_flip]
    omega

/-! ### The end of a value -/

/-- How the values differ in `n` bytes, counted from their ends after the last `d` ones. -/
def behind (a b : Val) (d n : Nat) : Int :=
  Digits.firstDiff (digits ((a.reverse.drop d).take n)) (digits ((b.reverse.drop d).take n))

/-- What is returned for values that differ so. -/
def verdict (a b : Val) (diff : Int) : Int := if diff ≠ 0 then diff else cmpLen a.length b.length

theorem reverse_segment (h : d + n ≤ v.length) :
    ((v.drop (v.length - d - n)).take n).reverse = (v.reverse.drop d).take n := by
  rw [List.drop_reverse, List.take_reverse, List.drop_take, List.length_take]
  have hmin : min (v.length - d) v.length = v.length - d := by omega
  have hrest : v.length - d - (v.length - d - n) = n := by omega
  rw [hmin, hrest]

theorem length_segment (h : d + n ≤ v.length) :
    ((v.drop (v.length - d - n)).take n).length = n := by
  rw [List.length_take, List.length_drop]
  omega

/-- The first of the bytes decide. -/
theorem behind_step (h : n ≤ left) (ha : d + left ≤ a.length) (hb : d + left ≤ b.length) :
    behind a b d left =
      if behind a b d n = 0 then behind a b (d + n) (left - n) else behind a b d n := by
  have hsplit (v : Val) : (v.reverse.drop d).take left =
      (v.reverse.drop d).take n ++ (v.reverse.drop (d + n)).take (left - n) := by
    have hleft : left = n + (left - n) := by omega
    rw [← List.drop_drop, ← List.take_add, ← hleft]
  have hlen : (digits ((a.reverse.drop d).take n)).length =
      (digits ((b.reverse.drop d).take n)).length := by
    simp only [length_digits, List.length_take, List.length_drop, List.length_reverse]
    omega
  rw [behind, hsplit, hsplit, digits_append, digits_append, Digits.firstDiff_append hlen]
  rfl

theorem peek_compares (ha : d + n ≤ a.length) (hb : d + n ≤ b.length) :
    Compares (peek n a (a.length - d - n)) (peek n b (b.length - d - n)) (behind a b d n) := by
  have hlen := (length_segment ha).trans (length_segment hb).symm
  have hword := word_compares hlen
  rw [reverse_segment ha, reverse_segment hb] at hword
  exact hword

/-- A comparison of the next `n` bytes is the verdict, or it goes on behind them. -/
theorem verdict_step {x y : Nat} {r : Int} (h : n ≤ left) (ha : d + left ≤ a.length)
    (hb : d + left ≤ b.length) (hxy : Compares x y (behind a b d n))
    (hr : r.sign = (verdict a b (behind a b (d + n) (left - n))).sign) :
    (if x ≠ y then if x < y then -1 else 1 else r : Int).sign =
      (verdict a b (behind a b d left)).sign := by
  rw [behind_step h ha hb]
  by_cases heq : x = y
  · rw [if_neg (by omega), if_pos (hxy.eq_iff.mp heq), hr]
  · have hne : behind a b d n ≠ 0 := fun hzero => heq (hxy.eq_iff.mpr hzero)
    rw [if_pos heq, if_neg hne, verdict, if_pos hne, hxy.sign heq, Int.sign_sign]

/-! ### The last three bytes -/

theorem byte_lt (v : Val) (i : Nat) : byte v i < 256 := (v.getD i 0).toNat_lt

theorem tail3le_eq (v : Val) (p l : Nat) : tail3le v p l =
    byte v p + 256 * byte v (p + l / 2) + 65536 * byte v (p + l - 1) := by
  have hp := byte_lt v p
  have hm := byte_lt v (p + l / 2)
  have hlow : byte v p ||| byte v (p + l / 2) <<< 8 = byte v (p + l / 2) <<< 8 + byte v p := by
    rw [Nat.or_comm, Nat.shiftLeft_add_eq_or_of_lt hp]
  have hless : byte v (p + l / 2) <<< 8 + byte v p < 2 ^ 16 := by
    rw [Nat.shiftLeft_eq]
    omega
  rw [tail3le, hlow, Nat.or_comm, ← Nat.shiftLeft_add_eq_or_of_lt hless, Nat.shiftLeft_eq,
    Nat.shiftLeft_eq]
  omega

theorem byte_segment {p l i : Nat} (h : i < l) : byte ((v.drop p).take l) i = byte v (p + i) := by
  simp only [byte, List.getD_eq_getElem?_getD, List.getElem?_take_of_lt h, List.getElem?_drop]

theorem tail3le_segment {p l : Nat} (h : 0 < l) :
    tail3le ((v.drop p).take l) 0 l = tail3le v p l := by
  rw [tail3le, tail3le, byte_segment h, byte_segment (by omega), byte_segment (by omega)]
  have hlast : p + (0 + l - 1) = p + l - 1 := by omega
  rw [hlast, Nat.zero_add, Nat.add_zero]

/-- The tails of up to three bytes compare as their bytes do, the last one first. -/
theorem tail_lt (hlen : u.length = n) (hlen' : v.length = n) (hpos : 0 < n) (hn : n ≤ 3) :
    tail3le u 0 n < tail3le v 0 n ↔ Digits.firstDiff (digits u.reverse) (digits v.reverse) < 0 := by
  have hcases : n = 1 ∨ n = 2 ∨ n = 3 := by omega
  rw [tail3le_eq, tail3le_eq]
  rcases hcases with rfl | rfl | rfl
  · obtain ⟨x, rfl⟩ := List.length_eq_one_iff.mp hlen
    obtain ⟨y, rfl⟩ := List.length_eq_one_iff.mp hlen'
    simp only [byte, digits, Digits.firstDiff, List.reverse_singleton, List.map_cons, List.map_nil,
      List.getD_cons_zero, Nat.reduceAdd, Nat.reduceDiv, Nat.reduceSub]
    split <;> omega
  · obtain ⟨x, x', rfl⟩ := List.length_eq_two.mp hlen
    obtain ⟨y, y', rfl⟩ := List.length_eq_two.mp hlen'
    have hx := x.toNat_lt
    have hy := y.toNat_lt
    simp only [byte, digits, Digits.firstDiff, List.reverse_cons, List.reverse_nil, List.nil_append,
      List.cons_append, List.map_cons, List.map_nil, List.getD_cons_zero, List.getD_cons_succ,
      Nat.reduceAdd, Nat.reduceDiv, Nat.reduceSub]
    split
    · split <;> omega
    · omega
  · obtain ⟨x, x', x'', rfl⟩ := List.length_eq_three.mp hlen
    obtain ⟨y, y', y'', rfl⟩ := List.length_eq_three.mp hlen'
    have hx := x.toNat_lt
    have hy := y.toNat_lt
    have hx' := x'.toNat_lt
    have hy' := y'.toNat_lt
    simp only [byte, digits, Digits.firstDiff, List.reverse_cons, List.reverse_nil, List.nil_append,
      List.cons_append, List.map_cons, List.map_nil, List.getD_cons_zero, List.getD_cons_succ,
      Nat.reduceAdd, Nat.reduceDiv, Nat.reduceSub]
    split
    · split
      · split <;> omega
      · omega
    · omega

theorem tail_compares (hpos : 0 < n) (hn : n ≤ 3) (ha : d + n ≤ a.length) (hb : d + n ≤ b.length) :
    Compares (tail3le a (a.length - d - n) n) (tail3le b (b.length - d - n) n)
      (behind a b d n) := by
  rw [← tail3le_segment hpos, ← @tail3le_segment b _ _ hpos, behind, ← reverse_segment ha,
    ← reverse_segment hb]
  constructor
  · exact tail_lt (length_segment ha) (length_segment hb) hpos hn
  · rw [tail_lt (length_segment hb) (length_segment ha) hpos hn, Digits.firstDiff_flip]
    omega

/-! ### From the end on -/

theorem behind_zero : behind a b d 0 = 0 := rfl

theorem cmpReverseTail_sign (hleft : left ≤ 3) (ha : d + left ≤ a.length)
    (hb : d + left ≤ b.length) :
    (cmpReverseTail a b (a.length - d) (b.length - d) left).sign =
      (verdict a b (behind a b d left)).sign := by
  rw [cmpReverseTail]
  by_cases hpos : left ≠ 0
  · simp only [ne_eq, hpos, not_false_eq_true, true_and]
    refine verdict_step (Nat.le_refl left) ha hb (tail_compares (by omega) hleft ha hb) ?_
    rw [Nat.sub_self, behind_zero]
    rfl
  · have hzero : left = 0 := by omega
    subst hzero
    rfl

theorem cmpReverseHalf_sign (hleft : left < if wide then 8 else 4) (ha : d + left ≤ a.length)
    (hb : d + left ≤ b.length) :
    (cmpReverseHalf wide a b (a.length - d) (b.length - d) left).sign =
      (verdict a b (behind a b d left)).sign := by
  rw [cmpReverseHalf]
  by_cases hhalf : wide = true ∧ 4 ≤ left
  · rw [if_pos hhalf]
    rw [if_pos hhalf.1] at hleft
    refine verdict_step hhalf.2 ha hb (peek_compares (by omega) (by omega)) ?_
    rw [Nat.sub_sub, Nat.sub_sub]
    exact cmpReverseTail_sign (by omega) (by omega) (by omega)
  · rw [if_neg hhalf]
    refine cmpReverseTail_sign ?_ ha hb
    by_cases hwide : wide = true
    · have hnot : ¬ 4 ≤ left := fun h => hhalf ⟨hwide, h⟩
      omega
    · rw [if_neg hwide] at hleft
      omega

/-- The loop compares word by word. -/
theorem cmpReverseLoop_sign (hfuel : left ≤ fuel) (ha : d + left ≤ a.length)
    (hb : d + left ≤ b.length) :
    (cmpReverseLoop wide a b fuel (a.length - d) (b.length - d) left).sign =
      (verdict a b (behind a b d left)).sign := by
  have hword : 0 < if wide then 8 else 4 := by split <;> decide
  induction fuel generalizing d left with
  | zero =>
    have hzero : left = 0 := by omega
    subst hzero
    exact cmpReverseHalf_sign hword ha hb
  | succ fuel ih =>
    rw [cmpReverseLoop]
    generalize hsize : (if wide = true then 8 else 4) = word at hword ⊢
    by_cases hmore : word ≤ left
    · rw [if_pos hmore]
      refine verdict_step hmore ha hb (peek_compares (by omega) (by omega)) ?_
      rw [Nat.sub_sub, Nat.sub_sub]
      exact ih (by omega) (by omega) (by omega)
    · rw [if_neg hmore]
      exact cmpReverseHalf_sign (by omega) ha hb

theorem cmpReverse_sign (wide : Bool) (a b : Val) :
    (cmpReverse wide a b).sign = (verdict a b (behind a b 0 (min a.length b.length))).sign := by
  have hmin : (if a.length < b.length then a.length else b.length) = min a.length b.length := by
    split <;> omega
  rw [cmpReverse]
  rw [hmin]
  by_cases hpos : min a.length b.length ≠ 0
  · rw [if_pos hpos]
    have ha : 0 + min a.length b.length ≤ a.length := by omega
    have hb : 0 + min a.length b.length ≤ b.length := by omega
    exact cmpReverseLoop_sign (Nat.le_refl _) ha hb
  · have hzero : min a.length b.length = 0 := by omega
    rw [if_neg hpos, hzero]
    rfl

/-- Whatever the lengths, the comparison by words from the end tells what the one by bytes tells of
the same values turned round. -/
theorem cmpReverse_reversed (wide : Bool) (a b : Val) :
    (cmpReverse wide a b).sign = (cmpLexical a.reverse b.reverse).sign := by
  have hmin : (if a.length < b.length then a.length else b.length) = min a.length b.length := by
    split <;> omega
  rw [cmpReverse_sign, cmpLexical, List.length_reverse, List.length_reverse]
  rw [hmin]
  by_cases hpos : min a.length b.length ≠ 0
  · rw [if_pos hpos]
    rfl
  · have hzero : min a.length b.length = 0 := by omega
    rw [if_neg hpos, hzero]
    rfl

/-! ### The other way round -/

theorem cmpLen_flip (x y : Nat) : cmpLen x y = -cmpLen y x := by
  rw [cmpLen, cmpLen]
  omega

theorem memcmp_flip (a b : Val) (n : Nat) : memcmp a b n = -memcmp b a n :=
  Digits.firstDiff_flip _ _

theorem cmp2int_flip (x y : Nat) : cmp2int x y = -cmp2int y x := by
  rw [cmp2int, cmp2int]
  rcases Nat.lt_trichotomy x y with h | rfl | h
  · rw [if_pos (by omega), if_pos h, if_pos (by omega), if_neg (by omega)]
  · rw [if_neg (by omega)]
    rfl
  · rw [if_pos (by omega), if_neg (by omega), if_pos (by omega), if_pos h]
    rfl

theorem cmpLexical_flip (a b : Val) : cmpLexical a b = -cmpLexical b a := by
  have hshortest : (if a.length < b.length then a.length else b.length) =
      if b.length < a.length then b.length else a.length := by
    split <;> split <;> omega
  rw [cmpLexical, cmpLexical, hshortest]
  generalize (if b.length < a.length then b.length else a.length) = shortest
  have hdata := memcmp_flip a b shortest
  have hlen := cmpLen_flip a.length b.length
  by_cases hpos : shortest ≠ 0
  · simp only [if_pos hpos]
    split <;> split <;> omega
  · simp only [if_neg hpos]
    split <;> omega

theorem cmpLenfast_flip (a b : Val) : cmpLenfast a b = -cmpLenfast b a := by
  have hlen := cmpLen_flip a.length b.length
  rw [cmpLenfast, cmpLenfast]
  by_cases heq : a.length = b.length
  · have hdata := memcmp_flip a b b.length
    rw [heq] at hlen ⊢
    split <;> omega
  · have hne : cmpLen a.length b.length ≠ 0 := by
      rw [cmpLen]
      omega
    rw [if_pos (.inl hne), if_pos (.inl (by omega)), hlen]

theorem cmpReverse_flip (wide : Bool) (a b : Val) :
    (cmpReverse wide a b).sign = -(cmpReverse wide b a).sign := by
  rw [cmpReverse_sign, cmpReverse_sign, Nat.min_comm b.length, ← Int.sign_neg]
  generalize min a.length b.length = n
  have hbehind : behind a b 0 n = -behind b a 0 n := Digits.firstDiff_flip _ _
  have hlen := cmpLen_flip a.length b.length
  rw [verdict, verdict]
  congr 1
  split <;> split <;> omega

theorem cmpUint_flip (a b : Val) : cmpUint a b = -cmpUint b a := by
  rw [cmpUint, cmpUint]
  by_cases heq : a.length = b.length
  · rw [heq]
    split
    · exact cmp2int_flip _ _
    · rfl
  · have hne : b.length ≠ a.length := fun h => heq h.symm
    rw [if_neg fun h => heq h.1, if_neg fun h => hne h.1]
    rfl

/-- Of integers of one length. -/
theorem cmpUint_unchecked (ha : a.length = n) (hb : b.length = n) (hn : n = 4 ∨ n = 8) :
    cmpUint a b = cmpUintUnchecked n a b := by
  rw [cmpUint, if_pos ⟨ha.trans hb.symm, by omega⟩, ha]

/-! ### Orders -/

/-- A comparison that is transitive. -/
def Orders (ok : Val → Prop) (f : Val → Val → Int) : Prop :=
  ∀ a b d, ok a → ok b → ok d → f a b ≤ 0 → f b d < 0 → f a d < 0

/-- A comparison that puts values in one line. -/
structure Ranks (ok : Val → Prop) (f : Val → Val → Int) : Prop where
  flip : ∀ a b, (f a b).sign = -(f b a).sign
  trans : Orders ok f
  eq : ∀ a b, ok a → ok b → (f a b = 0 ↔ a = b)

section Signs

variable {f : Val → Val → Int} {g : Val → List Nat}

/-- A comparison is transitive if it tells what digits tell. -/
theorem orders_of_sign (h : ∀ a b, (f a b).sign = (Digits.lex (g a) (g b)).sign) (ok : Val → Prop) :
    Orders ok f := by
  have hneg (a b : Val) : f a b < 0 ↔ Digits.lex (g a) (g b) < 0 := by
    rw [← Int.sign_eq_neg_one_iff_neg, h, Int.sign_eq_neg_one_iff_neg]
  have hpos (a b : Val) : 0 < f a b ↔ 0 < Digits.lex (g a) (g b) := by
    rw [← Int.sign_eq_one_iff_pos, h, Int.sign_eq_one_iff_pos]
  intro a b d _ _ _ hab hbd
  have hle : Digits.lex (g a) (g b) ≤ 0 := by
    have hiff := hpos a b
    omega
  exact (hneg a d).mpr (Digits.lex_trans hle ((hneg b d).mp hbd))

theorem eq_of_sign (h : ∀ a b, (f a b).sign = (Digits.lex (g a) (g b)).sign)
    (hinj : ∀ a b, g a = g b → a = b) (a b : Val) : f a b = 0 ↔ a = b := by
  rw [← Int.sign_eq_zero_iff_zero, h, Int.sign_eq_zero_iff_zero, Digits.lex_eq_zero_iff]
  exact ⟨hinj a b, fun heq => heq ▸ rfl⟩

end Signs

theorem verdict_lex (a b : Val) :
    (verdict a b (Digits.firstDiff (digits (a.take (min a.length b.length)))
      (digits (b.take (min a.length b.length))))).sign =
      (Digits.lex (digits a) (digits b)).sign := by
  have htake (v : Val) (n : Nat) : digits (v.take n) = (digits v).take n := List.map_take
  rw [Digits.lex_sign, length_digits, length_digits, htake, htake]
  rfl

theorem cmpLexical_lex (a b : Val) :
    (cmpLexical a b).sign = (Digits.lex (digits a) (digits b)).sign := by
  have hmin : (if a.length < b.length then a.length else b.length) = min a.length b.length := by
    split <;> omega
  rw [← verdict_lex, cmpLexical, hmin]
  by_cases hpos : min a.length b.length ≠ 0
  · rw [if_pos hpos]
    rfl
  · have hzero : min a.length b.length = 0 := by omega
    rw [if_neg hpos, hzero]
    rfl

theorem cmpReverse_lex (wide : Bool) (a b : Val) :
    (cmpReverse wide a b).sign = (Digits.lex (digits a.reverse) (digits b.reverse)).sign := by
  rw [← verdict_lex, cmpReverse_sign, List.length_reverse, List.length_reverse, verdict, verdict,
    List.length_reverse, List.length_reverse]
  rfl

theorem cmpLenfast_lex (a b : Val) :
    (cmpLenfast a b).sign = (Digits.lex (a.length :: digits a) (b.length :: digits b)).sign := by
  rw [cmpLenfast, Digits.lex, cmpLen]
  by_cases hlen : a.length = b.length
  · rw [if_pos hlen, ← verdict_lex, verdict, cmpLen, memcmp, hlen, Nat.min_self]
    by_cases hzero : b.length = 0
    · rw [if_pos (.inr hzero), hzero]
      rfl
    · rw [if_neg (by omega)]
      congr 1
      split <;> omega
  · rw [if_neg hlen, if_pos (.inl (by omega))]

theorem cmp2int_compares (x y : Nat) : Compares x y (cmp2int x y) := by
  rw [cmp2int]
  rcases Nat.lt_trichotomy x y with h | rfl | h
  · rw [if_pos (by omega), if_pos h]
    exact ⟨by omega, by omega⟩
  · rw [if_neg (by omega)]
    exact ⟨by omega, by omega⟩
  · rw [if_pos (by omega), if_neg (by omega)]
    exact ⟨by omega, by omega⟩

theorem cmpUint_orders (hn : n = 4 ∨ n = 8) : Orders (fun v => v.length = n) cmpUint := by
  intro a b d ha hb hd hab hbd
  rw [cmpUint_unchecked ha hb hn, cmpUintUnchecked] at hab
  rw [cmpUint_unchecked hb hd hn, cmpUintUnchecked] at hbd
  rw [cmpUint_unchecked ha hd hn, cmpUintUnchecked, ← (cmp2int_compares _ _).lt]
  have hle := (cmp2int_compares (peek n a 0) (peek n b 0)).gt
  have hlt := (cmp2int_compares (peek n b 0) (peek n d 0)).lt.mpr hbd
  omega

/-! ### Equality -/

/-- A difference of unsigned words is 0 for the same words only. -/
theorem word_sub_eq_zero {x y size : Nat} (hx : x < size) (hy : y < size) :
    (size + x - y) % size = 0 ↔ x = y := by
  by_cases hle : y ≤ x
  · have heq : size + x - y = x - y + size := by omega
    rw [heq, Nat.add_mod_right, Nat.mod_eq_of_lt (by omega)]
    omega
  · rw [Nat.mod_eq_of_lt (by omega)]
    omega

theorem peek_lt (n : Nat) (v : Val) (p : Nat) : peek n v p < 256 ^ n := by
  have hlt := @Nat.ofDigits_lt_base_pow_length 256 (digits ((v.drop p).take n)) (by decide)
    fun x => digits_lt
  refine Nat.lt_of_lt_of_le hlt (Nat.pow_le_pow_right (by decide) ?_)
  rw [length_digits, List.length_take]
  omega

/-- Words are the same when their bytes are. -/
theorem peek_eq_iff {p : Nat} (ha : p + n ≤ a.length) (hb : p + n ≤ b.length) :
    peek n a p = peek n b p ↔ (a.drop p).take n = (b.drop p).take n := by
  have hlen : ((a.drop p).take n).length = ((b.drop p).take n).length := by
    simp only [List.length_take, List.length_drop]
    omega
  rw [peek, peek, (word_compares hlen).eq_iff, firstDiff_digits (by simpa using hlen),
    List.reverse_inj]

theorem tail3le_eq_iff (hpos : 0 < n) (hn : n ≤ 3) (ha : a.length = n) (hb : b.length = n) :
    tail3le a 0 n = tail3le b 0 n ↔ a = b := by
  have hlen : a.reverse.length = b.reverse.length := by simp [ha, hb]
  have hless := tail_lt ha hb hpos hn
  have hmore := tail_lt hb ha hpos hn
  rw [Digits.firstDiff_flip] at hmore
  rw [← List.reverse_inj, ← firstDiff_digits hlen]
  omega

/-- Two words that overlap or touch cover a value. -/
theorem covered (hlen : a.length = b.length) (hn : n ≤ a.length) (hcover : a.length ≤ n + n) :
    a = b ↔ (a.drop 0).take n = (b.drop 0).take n ∧
      (a.drop (a.length - n)).take n = (b.drop (a.length - n)).take n := by
  constructor
  · rintro rfl
    exact ⟨rfl, rfl⟩
  · rintro ⟨hfirst, hlast⟩
    refine List.ext_getElem? fun i => ?_
    by_cases hi : i < n
    · have hget := congrArg (fun l : Val => l[i]?) hfirst
      simpa [List.getElem?_take_of_lt hi] using hget
    · by_cases hend : i < a.length
      · have hget := congrArg (fun l : Val => l[i - (a.length - n)]?) hlast
        have hin : i - (a.length - n) < n := by omega
        have hplace : a.length - n + (i - (a.length - n)) = i := by omega
        simpa only [List.getElem?_take_of_lt hin, List.getElem?_drop, hplace] using hget
      · rw [List.getElem?_eq_none (by omega), List.getElem?_eq_none (by omega)]

/-- Two differences of words that cover both values are 0 for the same values only. -/
theorem words_eq_iff {size : Nat} (hlen : a.length = b.length) (hn : n ≤ a.length)
    (hcover : a.length ≤ n + n) (hsize : size = 256 ^ n) :
    (((size + peek n a 0 - peek n b 0) % size |||
      (size + peek n a (a.length - n) - peek n b (a.length - n)) % size) == 0) = true ↔ a = b := by
  subst hsize
  rw [beq_iff_eq, Nat.or_eq_zero_iff, word_sub_eq_zero (peek_lt _ _ _) (peek_lt _ _ _),
    word_sub_eq_zero (peek_lt _ _ _) (peek_lt _ _ _), peek_eq_iff (by omega) (by omega),
    peek_eq_iff (by omega) (by omega), ← covered hlen hn hcover]

/-- Whichever words the machine lets it take, the comparison for equality tells whether the values
are the same. -/
theorem eqFast_iff (unalignedOk : Nat) (wide : Bool) (a b : Val) :
    eqFast unalignedOk wide a b = true ↔ a = b := by
  rw [eqFast, Bool.and_eq_true, beq_iff_eq]
  by_cases hlen : a.length = b.length
  · simp only [hlen, true_and]
    rw [← hlen, eqFastSlowpath]
    by_cases hlong : 3 < a.length
    · rw [if_pos hlong]
      by_cases hhalf : 4 ≤ unalignedOk ∧ a.length < 9
      · rw [if_pos hhalf]
        exact words_eq_iff hlen (by omega) (by omega) (by decide)
      · rw [if_neg hhalf]
        by_cases hword : 8 ≤ unalignedOk ∧ wide = true ∧ a.length < 17
        · rw [if_pos hword]
          exact words_eq_iff hlen (by omega) (by omega) (by decide)
        · rw [if_neg hword, beq_iff_eq, memcmp, List.take_length, hlen, List.take_length,
            firstDiff_digits hlen]
    · rw [if_neg hlong]
      by_cases hpos : a.length ≠ 0
      · rw [if_pos hpos, beq_iff_eq]
        exact tail3le_eq_iff (by omega) (by omega) rfl hlen.symm
      · rw [if_neg hpos]
        have ha : a = [] := List.length_eq_zero_iff.mp (by omega)
        have hb : b = [] := List.length_eq_zero_iff.mp (by omega)
        simp [ha, hb]
  · constructor
    · rintro ⟨heq, -⟩
      exact absurd heq hlen
    · intro heq
      exact absurd (congrArg List.length heq) hlen

/-- Integers of one length are ranked. -/
theorem cmpUint_ranks (hn : n = 4 ∨ n = 8) : Ranks (fun v => v.length = n) cmpUint := by
  refine ⟨fun a b => (congrArg Int.sign (cmpUint_flip a b)).trans (Int.sign_neg _),
    cmpUint_orders hn, fun a b ha hb => ?_⟩
  have htake (v : Val) (hv : v.length = n) : (v.drop 0).take n = v := by
    rw [List.drop_zero, ← hv, List.take_length]
  rw [cmpUint_unchecked ha hb hn, cmpUintUnchecked, ← (cmp2int_compares _ _).eq_iff,
    peek_eq_iff (Nat.le_of_eq ((Nat.zero_add n).trans ha.symm))
      (Nat.le_of_eq ((Nat.zero_add n).trans hb.symm)), htake a ha, htake b hb]

/-- Each comparator of libmdbx is a total order, in which only the same values are equal: of all
values, or of the integers of one length. -/
theorem comparators_rank (wide : Bool) :
    Ranks (fun _ => True) cmpLexical ∧ Ranks (fun _ => True) (cmpReverse wide) ∧
      Ranks (fun _ => True) cmpLenfast ∧ Ranks (fun v => v.length = 4) cmpUint ∧
        Ranks (fun v => v.length = 8) cmpUint := by
  refine ⟨⟨fun a b => ?_, orders_of_sign cmpLexical_lex _, fun a b _ _ => ?_⟩,
    ⟨cmpReverse_flip wide, orders_of_sign (cmpReverse_lex wide) _, fun a b _ _ => ?_⟩,
    ⟨fun a b => ?_, orders_of_sign cmpLenfast_lex _, fun a b _ _ => ?_⟩,
    cmpUint_ranks (.inl rfl), cmpUint_ranks (.inr rfl)⟩
  · rw [cmpLexical_flip, Int.sign_neg]
  · exact eq_of_sign cmpLexical_lex (fun a b => digits_inj.mp) a b
  · exact eq_of_sign (cmpReverse_lex wide)
      (fun a b heq => List.reverse_inj.mp (digits_inj.mp heq)) a b
  · rw [cmpLenfast_flip, Int.sign_neg]
  · exact eq_of_sign cmpLenfast_lex
      (fun a b heq => digits_inj.mp (List.cons.inj heq).2) a b

end Compare

end MdbxGo
