import Mathlib.Algebra.Group.Nat.Defs
import Mathlib.Data.List.Basic

/-! Slices of Go: a window on an array whose capacity may go beyond its length, and slice
expressions, which are checked against the capacity. -/

/-- A slice from its first element on: the array up to the capacity, and the length. -/
structure Slice (α : Type) where
  array : List α
  len : Nat
  len_le : len ≤ array.length
  bounded : array.length < 2 ^ 63

namespace Slice

variable {α : Type} {s t : Slice α}

/-- `cap(s)` -/
def cap (s : Slice α) : Nat := s.array.length

def elems (s : Slice α) : List α := s.array.take s.len

@[simp] theorem length_elems (s : Slice α) : s.elems.length = s.len := by
  simp [elems, s.len_le]

theorem len_le_cap (s : Slice α) : s.len ≤ s.cap := s.len_le

/-- `s[low:high]`; `none` is the panic of bounds out of range. -/
def slice (s : Slice α) (low high : Int) : Option (Slice α) :=
  if h : 0 ≤ low ∧ low ≤ high ∧ high ≤ s.cap then
    some {
      array := s.array.drop low.toNat
      len := (high - low).toNat
      len_le := by
        unfold cap at h
        rw [List.length_drop]
        omega
      bounded := by
        have := s.bounded
        rw [List.length_drop]
        omega }
  else none

theorem slice_isSome {low high : Int} :
    (s.slice low high).isSome = true ↔ 0 ≤ low ∧ low ≤ high ∧ high ≤ s.cap := by
  unfold slice
  split <;> simp_all

/-- Within the length a slice expression gives those elements. -/
theorem elems_slice {low high : Nat} (hle : low ≤ high) (hlen : high ≤ s.len) :
    (s.slice low high).map elems = some ((s.elems.drop low).take (high - low)) := by
  have hcap := s.len_le_cap
  have hbounds : 0 ≤ (low : Int) ∧ (low : Int) ≤ high ∧ (high : Int) ≤ s.cap := by omega
  have hlength : ((high : Int) - low).toNat = high - low := by omega
  unfold slice
  rw [dif_pos hbounds]
  simp only [Option.map_some, elems, Int.toNat_natCast, hlength]
  rw [List.drop_take, List.take_take, Nat.min_eq_left (by omega)]

end Slice

/-! ### Segments of one size -/

/-- Segment number `i` of the segments of size `k`. -/
def List.segment {α : Type} (l : List α) (k i : Nat) : List α := (l.drop (i * k)).take k

/-- The first `n` segments make up the first `n * k` elements. -/
theorem List.flatten_segments {α : Type} (l : List α) (k n : Nat) :
    ((List.range n).map (l.segment k)).flatten = l.take (n * k) := by
  induction n with
  | zero => simp
  | succ n ih =>
    rw [List.range_succ, List.map_append, List.flatten_append, ih, Nat.add_mul, Nat.one_mul,
      List.take_add]
    simp [List.segment]

/-- What a function that fails on no element makes of a list. -/
theorem List.exists_mapM {α β γ : Type} {l : List α} {f : α → Option β} {g : β → γ} {h : α → γ}
    (hf : ∀ a ∈ l, ∃ b, f a = some b ∧ g b = h a) :
    ∃ bs, l.mapM f = some bs ∧ bs.map g = l.map h := by
  induction l with
  | nil => exact ⟨[], rfl, rfl⟩
  | cons a l ih =>
    obtain ⟨b, hb, hg⟩ := hf a List.mem_cons_self
    obtain ⟨bs, hbs, hmap⟩ := ih fun a ha => hf a (List.mem_cons_of_mem _ ha)
    refine ⟨b :: bs, ?_, ?_⟩
    · simp [hb, hbs]
    · rw [List.map_cons, List.map_cons, hg, hmap]
