import Mathlib.Data.List.Sort
import MdbxGo.Libmdbx.Pnl

/-! Merging one page list into another (`pnl_merge`), within the cells of the second. -/

namespace MdbxGo

open Falling

/-- `pnl_merge_inner`: the lists are read and the cells are written from their ends. -/
def pnlMergeInner (src : Pnl) : Nat → Nat → Nat → Pnl → Pnl
  | 0, _, _, dst => dst
  | w + 1, srcA, srcB, dst =>
    let flag := pnlOrdered (src srcB) (dst srcA)
    let dst' := dst.set (w + 1) (if flag then dst srcA else src srcB)
    let srcB' := if flag then srcB else srcB - 1
    let srcA' := if flag then srcA - 1 else srcA
    if srcB' > 0 then pnlMergeInner src w srcA' srcB' dst' else dst'

/-- `pnl_merge`. Lists of less than `short` pages in all are merged page by page in any case. -/
def pnlMerge (short : Nat) (dst src : Pnl) : Pnl :=
  let srcLen := src.size
  let dstLen := dst.size
  if srcLen > 0 then
    let total := dstLen + srcLen
    let merged := pnlMergeInner src total dstLen srcLen (dst.set 0 pInvalid)
    let dst :=
      if total < short then merged
      else if dstLen = 0 || pnlOrdered (dst dstLen) (src 1) then dst.copy src (dstLen + 1) 1 srcLen
      else if pnlOrdered (src srcLen) (dst 1) then
        (dst.copy dst (1 + srcLen) 1 dstLen).copy src 1 1 srcLen
      else merged
    dst.setsize total
  else dst

variable {src dst q : Pnl} {limit short srcA srcB w x : Nat}

/-- Cells up to `w` hold what was in two falling runs. -/
structure Merged (dst src q : Pnl) (srcA srcB w : Nat) : Prop where
  falls : Falls q 0 w
  has : ∀ x, Holds q 0 w x ↔ Holds dst 0 srcA x ∨ Holds src 0 srcB x

/-- The cells above those that are left to read are never read again, so that the list can be
merged in place; cell 0 stops the reading of `dst`. -/
theorem pnlMergeInner_merged (hw : w = srcA + srcB) (hpos : 0 < srcB) (hdst : Falls dst 0 srcA)
    (hsrc : Falls src 0 srcB) (hdetent : ∀ x, Holds src 0 srcB x → x ≤ dst 0)
    (hdisjoint : ∀ x, Holds dst 0 srcA x → ¬ Holds src 0 srcB x) :
    Merged dst src (pnlMergeInner src w srcA srcB dst) srcA srcB w ∧
      ∀ j, w < j → pnlMergeInner src w srcA srcB dst j = dst j := by
  induction w generalizing srcA srcB dst with
  | zero => omega
  | succ w ih =>
    rw [pnlMergeInner]
    have hlast : Holds src 0 srcB (src srcB) := Holds.cell hpos (Nat.le_refl _)
    by_cases hflag : pnlOrdered (src srcB) (dst srcA) = true
    · -- The least page of all is the last one of `dst`.
      simp only [hflag, if_true]
      have hlt : dst srcA < src srcB := of_decide_eq_true hflag
      have hposA : 0 < srcA := by
        by_contra hzero
        have hle := hdetent _ hlast
        have hsame : srcA = 0 := by omega
        rw [hsame] at hlt
        omega
      have hkeep (i : Nat) (hi : i ≤ srcA) : dst.set (w + 1) (dst srcA) i = dst i :=
        Pnl.set_other (by omega)
      have hrun (x : Nat) :
          Holds (dst.set (w + 1) (dst srcA)) 0 (srcA - 1) x ↔ Holds dst 0 (srcA - 1) x :=
        holds_congr fun i _ hi => hkeep i (by omega)
      have hwhole (x : Nat) : Holds dst 0 srcA x ↔ Holds dst 0 (srcA - 1) x ∨ dst srcA = x := by
        have hsucc := @holds_succ _ dst 0 (srcA - 1) x (Nat.zero_le _)
        have hback : srcA - 1 + 1 = srcA := by omega
        rwa [hback] at hsucc
      rw [if_pos hpos]
      obtain ⟨⟨hfalls, hhas⟩, habove⟩ := @ih (dst.set (w + 1) (dst srcA)) (srcA - 1) srcB
        (by omega) hpos
        ((hdst.mono (Nat.le_refl 0) (Nat.sub_le _ _)).congr fun i _ hi => hkeep i (by omega)) hsrc
        (fun x hx => by rw [hkeep 0 (Nat.zero_le _)]; exact hdetent x hx)
        (fun x hx => hdisjoint x ((hwhole x).mpr (.inl ((hrun x).mp hx))))
      have htop := habove (w + 1) (Nat.lt_succ_self w)
      rw [Pnl.set_same] at htop
      refine ⟨⟨?_, fun x => ?_⟩, fun j hj => ?_⟩
      · apply hfalls.succ
        intro x hx
        rw [htop]
        rcases (hhas x).mp hx with hin | hin
        · obtain ⟨i, hlo, hhi, rfl⟩ := (hrun x).mp hin
          exact hdst i srcA hlo (by omega) (Nat.le_refl _)
        · obtain ⟨i, hlo, hhi, rfl⟩ := hin
          exact Nat.lt_of_lt_of_le hlt (hsrc.le hlo hhi (Nat.le_refl _))
      · rw [holds_succ (Nat.zero_le w), hhas, hrun, htop, hwhole]
        constructor
        · rintro ((h | h) | h)
          · exact .inl (.inl h)
          · exact .inr h
          · exact .inl (.inr h)
        · rintro ((h | h) | h)
          · exact .inl (.inl h)
          · exact .inr h
          · exact .inl (.inr h)
      · rw [habove j (by omega)]
        exact Pnl.set_other (by omega)
    · -- It is the last one of `src`.
      rw [Bool.not_eq_true] at hflag
      simp only [hflag, Bool.false_eq_true, if_false]
      have hle : src srcB ≤ dst srcA := Nat.le_of_not_lt (of_decide_eq_false hflag)
      have hkeep (i : Nat) (hi : i ≤ srcA) : dst.set (w + 1) (src srcB) i = dst i :=
        Pnl.set_other (by omega)
      have hrun (x : Nat) :
          Holds (dst.set (w + 1) (src srcB)) 0 srcA x ↔ Holds dst 0 srcA x :=
        holds_congr fun i _ hi => hkeep i hi
      have hwhole (x : Nat) : Holds src 0 srcB x ↔ Holds src 0 (srcB - 1) x ∨ src srcB = x := by
        have hsucc := @holds_succ _ src 0 (srcB - 1) x (Nat.zero_le _)
        have hback : srcB - 1 + 1 = srcB := by omega
        rwa [hback] at hsucc
      -- All other pages are above it.
      have hleast (x : Nat) (hx : Holds dst 0 srcA x ∨ Holds src 0 (srcB - 1) x) :
          src srcB < x := by
        rcases hx with hin | ⟨i, hlo, hhi, rfl⟩
        · have hne : x ≠ src srcB := by
            intro heq
            rw [heq] at hin
            exact hdisjoint _ hin hlast
          obtain ⟨i, hlo, hhi, rfl⟩ := hin
          have hge := hdst.le hlo hhi (Nat.le_refl _)
          omega
        · exact hsrc i srcB hlo (by omega) (Nat.le_refl _)
      by_cases hmore : srcB - 1 > 0
      · rw [if_pos hmore]
        obtain ⟨⟨hfalls, hhas⟩, habove⟩ := @ih (dst.set (w + 1) (src srcB)) srcA (srcB - 1)
          (by omega) hmore
          (hdst.congr fun i _ hi => hkeep i hi) (hsrc.mono (Nat.le_refl 0) (Nat.sub_le _ _))
          (fun x hx => by
            rw [hkeep 0 (Nat.zero_le _)]
            exact hdetent x ((hwhole x).mpr (.inl hx)))
          (fun x hx hx' => hdisjoint x ((hrun x).mp hx) ((hwhole x).mpr (.inl hx')))
        have htop := habove (w + 1) (Nat.lt_succ_self w)
        rw [Pnl.set_same] at htop
        refine ⟨⟨?_, fun x => ?_⟩, fun j hj => ?_⟩
        · apply hfalls.succ
          intro x hx
          rw [htop]
          apply hleast
          rwa [hhas, hrun] at hx
        · rw [holds_succ (Nat.zero_le w), hhas, hrun, htop, hwhole, or_assoc]
        · rw [habove j (by omega)]
          exact Pnl.set_other (by omega)
      · rw [if_neg hmore]
        have hone : srcB = 1 := by omega
        have hsame : srcA = w := by omega
        subst hone hsame
        refine ⟨⟨?_, fun x => ?_⟩, fun j hj => Pnl.set_other (by omega)⟩
        · apply (hdst.congr fun i _ hi => hkeep i hi).succ
          intro x hx
          rw [Pnl.set_same]
          exact hleast x (.inl ((hrun x).mp hx))
        · rw [holds_succ (Nat.zero_le _), hrun, Pnl.set_same, hwhole]
          constructor
          · rintro (h | h)
            · exact .inl h
            · exact .inr (.inr h)
          · rintro (h | h | h)
            · exact .inl h
            · exact absurd h (holds_empty (Nat.le_refl 0))
            · exact .inr h

/-- Cells that come after those of a list. -/
theorem copy_after (hcross : ∀ x y, dst.Has x → src.Has y → y < x) (hdst : Falls dst 0 dst.size)
    (hsrc : Falls src 0 src.size) :
    Merged dst src (dst.copy src (dst.size + 1) 1 src.size) dst.size src.size
      (dst.size + src.size) := by
  have hhead (i : Nat) (hlo : 0 < i) (hhi : i ≤ dst.size) :
      dst.copy src (dst.size + 1) 1 src.size i = dst i := if_neg (by omega)
  have htail (i : Nat) (hlo : 0 < i) (hhi : i ≤ src.size) :
      dst.copy src (dst.size + 1) 1 src.size (i + dst.size) = src i := by
    have hback : i + dst.size - (dst.size + 1) + 1 = i := by omega
    rw [Pnl.copy, if_pos (by omega), hback]
  have hrun (x : Nat) : Holds (dst.copy src (dst.size + 1) 1 src.size) 0 dst.size x ↔ dst.Has x :=
    holds_congr hhead
  have hrun' (x : Nat) : Holds (dst.copy src (dst.size + 1) 1 src.size) dst.size
      (dst.size + src.size) x ↔ src.Has x := by
    have hshift := @holds_shift _ (dst.copy src (dst.size + 1) 1 src.size) 0 src.size dst.size x
    rw [Nat.zero_add, Nat.add_comm src.size] at hshift
    rw [← hshift]
    exact holds_congr htail
  constructor
  · apply (hdst.congr hhead).append
    · have hshift := (@falls_shift _ _ (dst.copy src (dst.size + 1) 1 src.size) 0 src.size
        dst.size).mp (hsrc.congr htail)
      rwa [Nat.zero_add, Nat.add_comm src.size] at hshift
    · intro x y hx hy
      exact hcross x y ((hrun x).mp hx) ((hrun' y).mp hy)
  · intro x
    rw [holds_append (Nat.zero_le dst.size) (Nat.le_add_right _ _), hrun, hrun']
    exact Iff.rfl

/-- Cells that come before those of a list, which are moved up first. -/
theorem copy_before (hcross : ∀ x y, dst.Has x → src.Has y → x < y) (hdst : Falls dst 0 dst.size)
    (hsrc : Falls src 0 src.size) :
    Merged dst src ((dst.copy dst (1 + src.size) 1 dst.size).copy src 1 1 src.size) dst.size
      src.size (dst.size + src.size) := by
  have hhead (i : Nat) (hlo : 0 < i) (hhi : i ≤ src.size) :
      (dst.copy dst (1 + src.size) 1 dst.size).copy src 1 1 src.size i = src i := by
    have hback : i - 1 + 1 = i := by omega
    rw [Pnl.copy, if_pos (by omega), hback]
  have htail (i : Nat) (hlo : 0 < i) (hhi : i ≤ dst.size) :
      (dst.copy dst (1 + src.size) 1 dst.size).copy src 1 1 src.size (i + src.size) = dst i := by
    have hback : i + src.size - (1 + src.size) + 1 = i := by omega
    rw [Pnl.copy, if_neg (by omega), Pnl.copy, if_pos (by omega), hback]
  have hrun (x : Nat) : Holds ((dst.copy dst (1 + src.size) 1 dst.size).copy src 1 1 src.size) 0
      src.size x ↔ src.Has x := holds_congr hhead
  have hrun' (x : Nat) : Holds ((dst.copy dst (1 + src.size) 1 dst.size).copy src 1 1 src.size)
      src.size (dst.size + src.size) x ↔ dst.Has x := by
    have hshift := @holds_shift _ ((dst.copy dst (1 + src.size) 1 dst.size).copy src 1 1 src.size) 0
      dst.size src.size x
    rw [Nat.zero_add] at hshift
    rw [← hshift]
    exact holds_congr htail
  constructor
  · apply (hsrc.congr hhead).append
    · have hshift := (@falls_shift _ _ ((dst.copy dst (1 + src.size) 1 dst.size).copy src 1 1
        src.size) 0 dst.size src.size).mp (hdst.congr htail)
      rwa [Nat.zero_add] at hshift
    · intro x y hx hy
      exact hcross y x ((hrun' y).mp hy) ((hrun x).mp hx)
  · intro x
    rw [holds_append (Nat.zero_le src.size) (Nat.le_add_left _ _), hrun, hrun', or_comm]
    exact Iff.rfl

theorem Merged.sorted (h : Merged dst src q dst.size src.size (dst.size + src.size))
    (hdst : dst.Sorted limit) (hsrc : src.Sorted limit) :
    (q.setsize (dst.size + src.size)).Sorted limit ∧
      ∀ x, (q.setsize (dst.size + src.size)).Has x ↔ dst.Has x ∨ src.Has x := by
  have hhas (x : Nat) : (q.setsize (dst.size + src.size)).Has x ↔ dst.Has x ∨ src.Has x := by
    rw [Pnl.has_setsize]
    exact h.has x
  refine ⟨⟨?_, ?_, ?_⟩, hhas⟩
  · rw [Pnl.setsize_size]
    exact h.falls.congr fun i hlo _ => Pnl.setsize_cell hlo
  · intro x hx
    rcases (hhas x).mp hx with hin | hin
    · exact hdst.above x hin
    · exact hsrc.above x hin
  · intro x hx
    rcases (hhas x).mp hx with hin | hin
    · exact hdst.below x hin
    · exact hsrc.below x hin

theorem pnlMerge_has (short : Nat) (dst src : Pnl) (limit : Nat) (hlimit : limit ≤ maxPageno + 1)
    (hdst : dst.Sorted limit) (hsrc : src.Sorted limit)
    (hdisjoint : ∀ x, dst.Has x → ¬ src.Has x) :
    (pnlMerge short dst src).Sorted limit ∧
      ∀ x, (pnlMerge short dst src).Has x ↔ dst.Has x ∨ src.Has x := by
  rw [pnlMerge]
  by_cases hpos : src.size > 0
  · have hkeep (i : Nat) (hlo : 0 < i) : dst.set 0 pInvalid i = dst i := Pnl.set_other (by omega)
    have hrun (x : Nat) : Holds (dst.set 0 pInvalid) 0 dst.size x ↔ dst.Has x :=
      holds_congr fun i hlo _ => hkeep i hlo
    -- The loop, which all pages of `src` are below the mark in cell 0 for.
    have hloop : Merged dst src
        (pnlMergeInner src (dst.size + src.size) dst.size src.size (dst.set 0 pInvalid)) dst.size
        src.size (dst.size + src.size) := by
      have hmark (x : Nat) (hx : Holds src 0 src.size x) : x ≤ dst.set 0 pInvalid 0 := by
        have hlt := hsrc.below x hx
        rw [Pnl.set_same]
        simp only [maxPageno] at hlimit
        simp only [pInvalid]
        omega
      obtain ⟨⟨hfalls, hhas⟩, _⟩ := pnlMergeInner_merged rfl hpos
        (hdst.falls.congr fun i hlo _ => hkeep i hlo) hsrc.falls hmark
        fun x hx => hdisjoint x ((hrun x).mp hx)
      exact ⟨hfalls, fun x => (hhas x).trans (or_congr_left (hrun x))⟩
    simp only [if_pos hpos]
    apply Merged.sorted _ hdst hsrc
    by_cases hshort : dst.size + src.size < short
    · rw [if_pos hshort]
      exact hloop
    · rw [if_neg hshort]
      by_cases hafter : (dst.size = 0 || pnlOrdered (dst dst.size) (src 1)) = true
      · rw [if_pos hafter]
        apply copy_after _ hdst.falls hsrc.falls
        rintro x y ⟨i, hlo, hhi, rfl⟩ ⟨j, hlo', hhi', rfl⟩
        rw [Bool.or_eq_true, decide_eq_true_eq, decide_eq_true_eq] at hafter
        have hlt : src 1 < dst dst.size := by
          rcases hafter with hzero | hlt
          · omega
          · exact hlt
        calc
          src j ≤ src 1 := hsrc.falls.le Nat.one_pos hlo' hhi'
          _ < dst dst.size := hlt
          _ ≤ dst i := hdst.falls.le hlo hhi (Nat.le_refl _)
      · rw [if_neg hafter]
        by_cases hbefore : pnlOrdered (src src.size) (dst 1) = true
        · rw [if_pos hbefore]
          apply copy_before _ hdst.falls hsrc.falls
          rintro x y ⟨i, hlo, hhi, rfl⟩ ⟨j, hlo', hhi', rfl⟩
          calc
            dst i ≤ dst 1 := hdst.falls.le Nat.one_pos hlo hhi
            _ < src src.size := of_decide_eq_true hbefore
            _ ≤ src j := hsrc.falls.le hlo' hhi' (Nat.le_refl _)
        · rw [if_neg hbefore]
          exact hloop
  · have hzero : src.size = 0 := by omega
    rw [if_neg hpos]
    refine ⟨hdst, fun x => ?_⟩
    have hnone : ¬ src.Has x := by
      rw [Pnl.Has, hzero]
      exact holds_empty (Nat.le_refl 0)
    exact ⟨fun h => .inl h, fun h => h.resolve_right hnone⟩

/-! ### Sorting -/

/-- `pnl_sort`. -/
def pnlSort (l : List Nat) : Pnl := Pnl.ofList (l.mergeSort fun a b => decide (b ≤ a))

theorem pnlSort_pages {l : List Nat} : (pnlSort l).pages = l.mergeSort fun a b => decide (b ≤ a) :=
  Pnl.pages_ofList _

theorem pnlSort_has {l : List Nat} {x : Nat} : (pnlSort l).Has x ↔ x ∈ l := by
  rw [← Pnl.mem_pages, pnlSort_pages, List.mem_mergeSort]

/-- Without repetition, what is sorted falls. -/
theorem pnlSort_falls {l : List Nat} (hnodup : l.Nodup) : (pnlSort l).pages.Pairwise (· > ·) := by
  rw [pnlSort_pages]
  have hle := @List.pairwise_mergeSort _ (fun a b => decide (b ≤ a))
    (fun a b c hab hbc => by rw [decide_eq_true_eq] at hab hbc ⊢; omega)
    (fun a b => by rw [Bool.or_eq_true, decide_eq_true_eq, decide_eq_true_eq]; omega) l
  have hdistinct : (l.mergeSort fun a b => decide (b ≤ a)).Nodup :=
    (List.mergeSort_perm l _).nodup_iff.mpr hnodup
  refine (hle.and hdistinct).imp fun {a b} hand => ?_
  have hba := of_decide_eq_true hand.1
  have hne := hand.2
  omega

/-- A list falls by its cells when its pages do. -/
theorem Pnl.falls_iff {pnl : Pnl} : Falls pnl 0 pnl.size ↔ pnl.pages.Pairwise (· > ·) := by
  have hlen : pnl.pages.length = pnl.size := by
    rw [Pnl.pages, List.length_map, List.length_range]
  have hget (i : Nat) (hi : i < pnl.pages.length) : pnl.pages[i] = pnl (i + 1) := by
    simp only [Pnl.pages, List.getElem_map, List.getElem_range]
  rw [List.pairwise_iff_getElem]
  constructor
  · intro hfalls i j hi hj hij
    rw [hget, hget]
    exact hfalls (i + 1) (j + 1) (by omega) (by omega) (by omega)
  · intro hpages i j hlo hij hhi
    have hlt := hpages (i - 1) (j - 1) (by omega) (by omega) (by omega)
    have hi : i - 1 + 1 = i := by omega
    have hj : j - 1 + 1 = j := by omega
    rwa [hget, hget, hi, hj] at hlt

theorem pnlSort_sorted {l : List Nat} (hnodup : l.Nodup)
    (hrange : ∀ x ∈ l, numMetas ≤ x ∧ x < limit) : (pnlSort l).Sorted limit :=
  ⟨Pnl.falls_iff.mpr (pnlSort_falls hnodup), fun x hx => (hrange x (pnlSort_has.mp hx)).1,
    fun x hx => (hrange x (pnlSort_has.mp hx)).2⟩

/-- A merge of two sorted lists without a page in common makes the list that sorting all their pages
would make, whichever way it goes. -/
theorem pnlMerge_sorted (short : Nat) (dst src : Pnl) (limit : Nat) (hlimit : limit ≤ maxPageno + 1)
    (hdst : dst.Sorted limit) (hsrc : src.Sorted limit)
    (hdisjoint : ∀ x, dst.Has x → ¬ src.Has x) :
    (pnlMerge short dst src).Sorted limit ∧
      (pnlMerge short dst src).pages = (pnlSort (dst.pages ++ src.pages)).pages := by
  obtain ⟨hsorted, hhas⟩ := pnlMerge_has short dst src limit hlimit hdst hsrc hdisjoint
  have hnodup : (dst.pages ++ src.pages).Nodup := by
    rw [List.nodup_append]
    refine ⟨hdst.nodup, hsrc.nodup, fun x hx y hy heq => ?_⟩
    subst heq
    exact hdisjoint x (Pnl.mem_pages.mp hx) (Pnl.mem_pages.mp hy)
  refine ⟨hsorted, ?_⟩
  have hfalls := pnlSort_falls hnodup
  have hperm : (pnlMerge short dst src).pages.Perm (pnlSort (dst.pages ++ src.pages)).pages := by
    refine (List.perm_ext_iff_of_nodup hsorted.nodup (hfalls.imp fun hgt => hgt.ne')).mpr
      fun x => ?_
    rw [Pnl.mem_pages, Pnl.mem_pages, hhas, pnlSort_has, List.mem_append, Pnl.mem_pages,
      Pnl.mem_pages]
  -- Two falling lists with the same pages are the same.
  exact hperm.eq_of_pairwise (fun _ _ _ _ hab hba => absurd hab (Nat.lt_asymm hba))
    (Pnl.falls_iff.mp hsorted.falls) hfalls

/-- Pages 9 and 4 go between 12, 7 and 3. -/
theorem pnlMerge_sorted_between :
    (List.range 6).map (pnlMerge 0 ([3, 12, 7, 3].getD · 0) ([2, 9, 4].getD · 0)) =
        [5, 12, 9, 7, 4, 3] ∧
      (pnlMerge 0 ([3, 12, 7, 3].getD · 0) ([2, 9, 4].getD · 0)).Sorted 20 := by
  have hdst : Pnl.Sorted ([3, 12, 7, 3].getD · 0) 20 := (pnlCheck_iff (by decide)).mp (by decide)
  have hsrc : Pnl.Sorted ([2, 9, 4].getD · 0) 20 := (pnlCheck_iff (by decide)).mp (by decide)
  refine ⟨by decide, (pnlMerge_sorted 0 _ _ 20 (by decide) hdst hsrc ?_).1⟩
  rintro x ⟨i, hlo, hhi, rfl⟩ ⟨j, hlo', hhi', heq⟩
  have hcases : i = 1 ∨ i = 2 ∨ i = 3 := by
    have hsize : i ≤ 3 := hhi
    omega
  have hcases' : j = 1 ∨ j = 2 := by
    have hsize : j ≤ 2 := hhi'
    omega
  rcases hcases with rfl | rfl | rfl <;> rcases hcases' with rfl | rfl <;> cases heq

end MdbxGo
