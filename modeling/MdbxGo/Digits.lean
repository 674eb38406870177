import Mathlib.Data.Nat.Digits.Defs

/-! Numbers with equally many digits, compared digit by digit from the most significant one on. -/

namespace Digits

/-- The difference of the first digits that differ. -/
def firstDiff : List Nat → List Nat → Int
  | x :: xs, y :: ys => if x = y then firstDiff xs ys else x - y
  | _, _ => 0

variable {xs ys us vs : List Nat} {base : Nat}

theorem firstDiff_flip (xs ys : List Nat) : firstDiff xs ys = -firstDiff ys xs := by
  induction xs generalizing ys with
  | nil => cases ys <;> rfl
  | cons x xs ih =>
    cases ys with
    | nil => rfl
    | cons y ys =>
      rw [firstDiff, firstDiff]
      by_cases h : x = y
      · rw [if_pos h, if_pos h.symm, ih]
      · have h' : y ≠ x := fun heq => h heq.symm
        rw [if_neg h, if_neg h']
        omega

theorem firstDiff_eq_zero_iff (hlen : xs.length = ys.length) : firstDiff xs ys = 0 ↔ xs = ys := by
  induction xs generalizing ys with
  | nil =>
    have hys : ys = [] := List.length_eq_zero_iff.mp hlen.symm
    subst hys
    simp [firstDiff]
  | cons x xs ih =>
    cases ys with
    | nil => cases hlen
    | cons y ys =>
      have hrest : xs.length = ys.length := Nat.succ.inj hlen
      rw [firstDiff, List.cons.injEq]
      by_cases h : x = y
      · rw [if_pos h, ih hrest]
        simp [h]
      · rw [if_neg h]
        constructor
        · intro hzero
          omega
        · intro heq
          exact absurd heq.1 h

theorem firstDiff_append (hlen : xs.length = ys.length) : firstDiff (xs ++ us) (ys ++ vs) =
    if firstDiff xs ys = 0 then firstDiff us vs else firstDiff xs ys := by
  induction xs generalizing ys with
  | nil =>
    have hys : ys = [] := List.length_eq_zero_iff.mp hlen.symm
    subst hys
    rfl
  | cons x xs ih =>
    cases ys with
    | nil => cases hlen
    | cons y ys =>
      have hrest : xs.length = ys.length := Nat.succ.inj hlen
      rw [List.cons_append, List.cons_append, firstDiff, firstDiff]
      by_cases h : x = y
      · rw [if_pos h, if_pos h, ih hrest]
      · have hne : (x : Int) - y ≠ 0 := by omega
        rw [if_neg h, if_neg h, if_neg hne]

/-- A number with a digit `x` before the others. -/
theorem ofDigits_reverse_cons (x : Nat) (xs : List Nat) : Nat.ofDigits base (x :: xs).reverse =
    Nat.ofDigits base xs.reverse + base ^ xs.length * x := by
  rw [List.reverse_cons, Nat.ofDigits_append, Nat.ofDigits_singleton, List.length_reverse]

theorem ofDigits_reverse_lt (hbase : 1 < base) (h : ∀ x ∈ xs, x < base) :
    Nat.ofDigits base xs.reverse < base ^ xs.length := by
  have hlt := @Nat.ofDigits_lt_base_pow_length base xs.reverse hbase fun x hx =>
    h x (List.mem_reverse.mp hx)
  rwa [List.length_reverse] at hlt

/-- The first digit that is less makes the number less. -/
theorem ofDigits_lt_of_digit {x y : Nat} (hbase : 1 < base) (hlen : xs.length = ys.length)
    (h : ∀ d ∈ xs, d < base) (hless : x < y) :
    Nat.ofDigits base (x :: xs).reverse < Nat.ofDigits base (y :: ys).reverse := by
  rw [ofDigits_reverse_cons, ofDigits_reverse_cons, ← hlen]
  have hrest := ofDigits_reverse_lt hbase h
  calc Nat.ofDigits base xs.reverse + base ^ xs.length * x
      < base ^ xs.length + base ^ xs.length * x := by omega
    _ = base ^ xs.length * (x + 1) := by rw [Nat.mul_succ, Nat.add_comm]
    _ ≤ base ^ xs.length * y := Nat.mul_le_mul_left _ hless
    _ ≤ Nat.ofDigits base ys.reverse + base ^ xs.length * y := Nat.le_add_left _ _

/-- The digits compare as the numbers do. -/
theorem firstDiff_neg_iff (hbase : 1 < base) (hlen : xs.length = ys.length)
    (hxs : ∀ x ∈ xs, x < base) (hys : ∀ y ∈ ys, y < base) :
    firstDiff xs ys < 0 ↔ Nat.ofDigits base xs.reverse < Nat.ofDigits base ys.reverse := by
  induction xs generalizing ys with
  | nil =>
    have hnil : ys = [] := List.length_eq_zero_iff.mp hlen.symm
    subst hnil
    simp [firstDiff]
  | cons x xs ih =>
    cases ys with
    | nil => cases hlen
    | cons y ys =>
      have hrest : xs.length = ys.length := Nat.succ.inj hlen
      have hxs' : ∀ d ∈ xs, d < base := fun d hd => hxs d (List.mem_cons_of_mem x hd)
      have hys' : ∀ d ∈ ys, d < base := fun d hd => hys d (List.mem_cons_of_mem y hd)
      rw [firstDiff]
      rcases Nat.lt_trichotomy x y with hlt | rfl | hgt
      · have hless := ofDigits_lt_of_digit hbase hrest hxs' hlt
        rw [if_neg (by omega)]
        exact ⟨fun _ => hless, fun _ => by omega⟩
      · rw [if_pos rfl, ih hrest hxs' hys', ofDigits_reverse_cons, ofDigits_reverse_cons, hrest]
        omega
      · have hless := ofDigits_lt_of_digit hbase hrest.symm hys' hgt
        rw [if_neg (by omega)]
        exact ⟨fun hneg => by omega, fun hlt => by omega⟩

/-- So for numbers whose least digit comes first. -/
theorem ofDigits_lt_iff (hbase : 1 < base) (hlen : xs.length = ys.length)
    (hxs : ∀ x ∈ xs, x < base) (hys : ∀ y ∈ ys, y < base) :
    Nat.ofDigits base xs < Nat.ofDigits base ys ↔ firstDiff xs.reverse ys.reverse < 0 := by
  have hlen' : xs.reverse.length = ys.reverse.length := by
    rw [List.length_reverse, List.length_reverse, hlen]
  rw [firstDiff_neg_iff hbase hlen' (fun x hx => hxs x (List.mem_reverse.mp hx))
    (fun y hy => hys y (List.mem_reverse.mp hy)), List.reverse_reverse, List.reverse_reverse]

/-! ### Of any lengths -/

/-- The comparison digit by digit, where the end comes before every digit. -/
def lex : List Nat → List Nat → Int
  | [], [] => 0
  | [], _ :: _ => -1
  | _ :: _, [] => 1
  | x :: xs, y :: ys => if x = y then lex xs ys else x - y

theorem lex_trans {xs ys zs : List Nat} (hxy : lex xs ys ≤ 0) (hyz : lex ys zs < 0) :
    lex xs zs < 0 := by
  induction xs generalizing ys zs with
  | nil =>
    cases zs with
    | nil => cases ys <;> simp [lex] at hyz
    | cons z zs => simp [lex]
  | cons x xs ih =>
    cases ys with
    | nil => simp [lex] at hxy
    | cons y ys =>
      cases zs with
      | nil => simp [lex] at hyz
      | cons z zs =>
        rw [lex] at hxy hyz ⊢
        by_cases hx : x = y
        · by_cases hz : y = z
          · rw [if_pos hx] at hxy
            rw [if_pos hz] at hyz
            rw [if_pos (hx.trans hz)]
            exact ih hxy hyz
          · rw [if_neg hz] at hyz
            rw [if_neg (by omega)]
            omega
        · rw [if_neg hx] at hxy
          by_cases hz : y = z
          · rw [if_neg (by omega)]
            omega
          · rw [if_neg hz] at hyz
            rw [if_neg (by omega)]
            omega

theorem lex_eq_zero_iff {xs ys : List Nat} : lex xs ys = 0 ↔ xs = ys := by
  induction xs generalizing ys with
  | nil => cases ys <;> simp [lex]
  | cons x xs ih =>
    cases ys with
    | nil => simp [lex]
    | cons y ys =>
      rw [lex, List.cons.injEq]
      by_cases h : x = y
      · rw [if_pos h, ih]
        simp [h]
      · rw [if_neg h]
        constructor
        · intro hzero
          omega
        · intro heq
          exact absurd heq.1 h

/-- The digits that both have decide, or else the lengths do. -/
theorem lex_sign (xs ys : List Nat) : (lex xs ys).sign =
    (if firstDiff (xs.take (min xs.length ys.length)) (ys.take (min xs.length ys.length)) ≠ 0 then
      firstDiff (xs.take (min xs.length ys.length)) (ys.take (min xs.length ys.length))
    else (xs.length : Int) - ys.length).sign := by
  induction xs generalizing ys with
  | nil =>
    cases ys with
    | nil => rfl
    | cons y ys =>
      simp only [lex, List.length_nil, Nat.zero_min, List.take_zero, firstDiff, ne_eq,
        not_true_eq_false, if_false, List.length_cons]
      rw [Int.sign_eq_neg_one_of_neg (by omega), Int.sign_eq_neg_one_of_neg (by omega)]
  | cons x xs ih =>
    cases ys with
    | nil =>
      simp only [lex, List.length_nil, Nat.min_zero, List.take_zero, firstDiff, ne_eq,
        not_true_eq_false, if_false, List.length_cons]
      rw [Int.sign_eq_one_of_pos (by omega), Int.sign_eq_one_of_pos (by omega)]
    | cons y ys =>
      have hmin : min (x :: xs).length (y :: ys).length = min xs.length ys.length + 1 := by
        simp only [List.length_cons]
        omega
      rw [hmin, List.take_succ_cons, List.take_succ_cons, lex, firstDiff]
      by_cases h : x = y
      · have hlen : ((x :: xs).length : Int) - (y :: ys).length = xs.length - ys.length := by
          simp only [List.length_cons]
          omega
        rw [if_pos h, if_pos h, hlen]
        exact ih ys
      · have hne : (x : Int) - y ≠ 0 := by omega
        rw [if_neg h, if_neg h, if_pos hne]

end Digits
