import Mathlib.Data.Prod.Lex
import Mathlib.Data.Nat.Bitwise
import MdbxGo.Ordered

/-! The three meta pages of a database, and how `meta_tap` tells from their words which of them is
the most recent, which is the last steady one and which is to be overwritten next. -/

namespace MdbxGo

open Ordered

/-- `NUM_METAS`. A meta page is named by its number. -/
abbrev MetaNo := Fin 3

/-- `MIN_TXNID` -/
def minTxnid : Nat := 1

/-- `SAFE64_INVALID_THRESHOLD - 1`, the `MAX_TXNID` of a commit. -/
def lastTxnid : Nat := 0xffffFFFF00000000 - 1

/-! ### The words of a meta page -/

def datasignNone : Nat := 0
def datasignWeak : Nat := 1

/-- `meta_sign_calculate`: `~DATASIGN_NONE` -/
def metaSignCalculate : Nat := 2 ^ 64 - 1

/-- `SIGN_IS_STEADY` -/
def signIsSteady (sign : Nat) : Bool := decide (datasignWeak < sign)

/-- The words of a meta page that readers look at while a writer may be updating it. -/
structure MetaWords where
  txnidA : Nat
  sign : Nat
  txnidB : Nat
deriving DecidableEq, Repr

/-- `meta_snap_t` -/
@[ext] structure MetaSnap where
  txnid : Nat
  isSteady : Bool
deriving DecidableEq, Repr

/-- `meta_snap`, from the words that its three loads returned. -/
def metaSnap (m : MetaWords) : MetaSnap :=
  let isSteady := signIsSteady m.sign && decide (minTxnid ≤ m.txnidA)
  if m.txnidA ≠ m.txnidB then ⟨0, false⟩ else ⟨m.txnidA, isSteady⟩

/-- `constmeta_txnid` -/
def constmetaTxnid (m : MetaWords) : Nat := if m.txnidA = m.txnidB then m.txnidA else 0

theorem metaSnap_txnid (m : MetaWords) : (metaSnap m).txnid = constmetaTxnid m := by
  by_cases h : m.txnidA = m.txnidB <;> simp [metaSnap, constmetaTxnid, h]

/-- A steady snapshot has an id. -/
theorem minTxnid_le_of_isSteady {m : MetaWords} (h : (metaSnap m).isSteady = true) :
    minTxnid ≤ (metaSnap m).txnid := by
  simp only [metaSnap] at h ⊢
  split_ifs at h ⊢
  simp_all

/-! ### The comparisons -/

/-- `meta_cmp2int` -/
def metaCmp2int (a b s : Nat) : Nat := if a = b then 1 * s else if b < a then 2 * s else 0 * s

/-- `meta_cmp2recent`, where `a > b` of two booleans is `a && !b`. -/
def metaCmp2recent (c : Nat) (a b : Bool) : Bool := decide (1 < c) || (c == 1 && (a && !b))

/-- `meta_cmp2steady` -/
def metaCmp2steady (c : Nat) (a b : Bool) : Bool := (a && !b) || (a == b && decide (1 < c))

/-- The order in which a meta page is the more recent one. -/
def MetaSnap.recentKey (s : MetaSnap) : ℕ ×ₗ Bool := toLex (s.txnid, s.isSteady)

/-- The order in which a meta page is the one to fall back on. -/
def MetaSnap.steadyKey (s : MetaSnap) : Bool ×ₗ ℕ := toLex (s.isSteady, s.txnid)

theorem metaCmp2int_lt_three (a b : Nat) : metaCmp2int a b 1 < 3 := by
  simp only [metaCmp2int]
  split_ifs <;> omega

theorem metaCmp2int_scale (a b s : Nat) : metaCmp2int a b s = metaCmp2int a b 1 * s := by
  simp only [metaCmp2int]
  split_ifs <;> omega

/-- `meta_choice_recent` -/
def metaChoiceRecent (a b : MetaSnap) : Bool :=
  metaCmp2recent (metaCmp2int a.txnid b.txnid 1) a.isSteady b.isSteady

/-- `meta_choice_steady` -/
def metaChoiceSteady (a b : MetaSnap) : Bool :=
  metaCmp2steady (metaCmp2int a.txnid b.txnid 1) a.isSteady b.isSteady

theorem metaChoiceRecent_iff (a b : MetaSnap) :
    metaChoiceRecent a b = decide (b.recentKey < a.recentKey) := by
  obtain ⟨ta, sa⟩ := a
  obtain ⟨tb, sb⟩ := b
  simp only [metaChoiceRecent, metaCmp2recent, metaCmp2int, MetaSnap.recentKey,
    Prod.Lex.toLex_lt_toLex]
  rcases Nat.lt_trichotomy ta tb with h | h | h
  · simp [h.ne, h.ne', h.not_gt]
  · subst h
    cases sa <;> cases sb <;> simp
  · simp [h.ne', h]

theorem metaChoiceSteady_iff (a b : MetaSnap) :
    metaChoiceSteady a b = decide (b.steadyKey < a.steadyKey) := by
  obtain ⟨ta, sa⟩ := a
  obtain ⟨tb, sb⟩ := b
  simp only [metaChoiceSteady, metaCmp2steady, metaCmp2int, MetaSnap.steadyKey,
    Prod.Lex.toLex_lt_toLex]
  rcases Nat.lt_trichotomy ta tb with h | h | h
  · cases sa <;> cases sb <;> simp [h.ne, h.not_gt]
  · subst h
    cases sa <;> cases sb <;> simp
  · cases sa <;> cases sb <;> simp [h.ne', h]

/-! ### The table -/

/-- `meta_cmp2pack` -/
def metaCmp2pack (c01 c02 c12 : Nat) (s0 s1 s2 : Bool) : Nat :=
  let recent :=
    if metaCmp2recent c01 s0 s1 then if metaCmp2recent c02 s0 s2 then 0 else 2
    else if metaCmp2recent c12 s1 s2 then 1 else 2
  let preferSteady :=
    if metaCmp2steady c01 s0 s1 then if metaCmp2steady c02 s0 s2 then 0 else 2
    else if metaCmp2steady c12 s1 s2 then 1 else 2
  let tail :=
    if recent = 0 then if metaCmp2steady c12 s1 s2 then 2 else 1
    else if recent = 1 then if metaCmp2steady c02 s0 s2 then 2 else 0
    else if metaCmp2steady c01 s0 s1 then 1 else 0
  let valid := c01 != 1 || s0 != s1 || c02 != 1 || s0 != s2 || c12 != 1 || s1 != s2
  let strict := (c01 != 1 || s0 != s1) && (c02 != 1 || s0 != s2) && (c12 != 1 || s1 != s2)
  tail ||| recent <<< 2 ||| preferSteady <<< 4 ||| strict.toNat <<< 6 ||| valid.toNat <<< 7

/-- `troika_fsm_map` -/
def troikaFsmMap : List Nat := [
  232, 201, 216, 216, 232, 233, 232, 232, 168, 201, 216, 152, 168, 233, 232, 168, 233, 201, 216,
  201, 233, 233, 232, 233, 168, 201, 152, 216, 232, 169, 232, 168, 168, 193, 152, 152, 168, 169,
  232, 168, 169, 193, 152, 194, 233, 169, 232, 169, 232, 201, 216, 216, 232, 201, 232, 232, 168,
  193, 216, 152, 168, 193, 232, 168, 193, 193, 210, 194, 225, 193, 225, 193, 168, 137, 212, 214,
  232, 233, 168, 168, 168, 137, 212, 150, 168, 233, 168, 168, 169, 137, 216, 201, 233, 233, 168,
  169, 168, 137, 148, 214, 232, 169, 168, 168, 40, 129, 148, 150, 168, 169, 168, 40, 169, 129, 152,
  194, 233, 169, 168, 169, 168, 137, 214, 214, 232, 201, 168, 168, 168, 129, 214, 150, 168, 193,
  168, 168, 129, 129, 210, 194, 225, 193, 161, 129, 212, 198, 212, 214, 228, 228, 212, 212, 148,
  201, 212, 150, 164, 233, 212, 148, 233, 201, 216, 201, 233, 233, 216, 233, 148, 198, 148, 214,
  228, 164, 212, 148, 148, 194, 148, 150, 164, 169, 212, 148, 169, 194, 152, 194, 233, 169, 216,
  169, 214, 198, 214, 214, 228, 198, 212, 214, 150, 194, 214, 150, 164, 193, 212, 150, 194, 194,
  210, 194, 225, 193, 210, 194]

/-- `troika_t` -/
structure Troika where
  fsm : Nat
  recent : Nat
  preferSteady : Nat
  tailAndFlags : Nat
  txnid : MetaNo → Nat

/-- `meta_troika_unpack`, with the rest of the structure as the caller has filled it. -/
def metaTroikaUnpack (txnid : MetaNo → Nat) (fsm packed : Nat) : Troika where
  fsm := fsm
  recent := (packed >>> 2) &&& 3
  preferSteady := (packed >>> 4) &&& 3
  tailAndFlags := packed &&& 0xC3
  txnid := txnid

/-- `meta_tap`, from the snapshots of the three pages. -/
def metaTap (snap : MetaNo → MetaSnap) : Troika :=
  let fsm := (snap 0).isSteady.toNat <<< 0
  let fsm := fsm + (snap 1).isSteady.toNat <<< 1
  let fsm := fsm + metaCmp2int (snap 0).txnid (snap 1).txnid 8
  let fsm := fsm + (snap 2).isSteady.toNat <<< 2
  let fsm := fsm + metaCmp2int (snap 0).txnid (snap 2).txnid (8 * 3)
  let fsm := fsm + metaCmp2int (snap 1).txnid (snap 2).txnid (8 * 3 * 3)
  metaTroikaUnpack (fun i => (snap i).txnid) fsm (troikaFsmMap.getD fsm 0)

namespace Troika

/-- `TROIKA_TAIL` -/
def tail (t : Troika) : Nat := t.tailAndFlags &&& 3

end Troika

/-- `troika_verify_fsm`: the table holds what `meta_cmp2pack` computes. -/
theorem troikaFsmMap_verified : ∀ (c01 c02 c12 : Fin 3) (s0 s1 s2 : Bool),
    troikaFsmMap.getD (s0.toNat <<< 0 + s1.toNat <<< 1 + c01 * 8 + s2.toNat <<< 2 + c02 * 24 +
      c12 * 72) 0 = metaCmp2pack c01 c02 c12 s0 s1 s2 := by
  decide +kernel

/-- The pages that a packed state names, and what it says of their order. -/
theorem metaCmp2pack_fields : ∀ (c01 c02 c12 : Fin 3) (s0 s1 s2 : Bool),
    let packed := metaCmp2pack c01 c02 c12 s0 s1 s2
    let recent := greatest3 (metaCmp2recent c01 s0 s1) (metaCmp2recent c02 s0 s2)
      (metaCmp2recent c12 s1 s2)
    (packed >>> 2) &&& 3 = recent ∧
    (packed >>> 4) &&& 3 = greatest3 (metaCmp2steady c01 s0 s1) (metaCmp2steady c02 s0 s2)
      (metaCmp2steady c12 s1 s2) ∧
    (packed &&& 0xC3) &&& 3 = lesser3 recent (metaCmp2steady c01 s0 s1)
      (metaCmp2steady c02 s0 s2) (metaCmp2steady c12 s1 s2) ∧
    ((packed &&& 0xC3) &&& 64 != 0) =
      ((c01 != 1 || s0 != s1) && (c02 != 1 || s0 != s2) && (c12 != 1 || s1 != s2)) ∧
    ((packed &&& 0xC3) &&& 128 != 0) =
      (c01 != 1 || s0 != s1 || c02 != 1 || s0 != s2 || c12 != 1 || s1 != s2) := by
  decide +kernel

variable (snap : MetaNo → MetaSnap)

/-- The orders of the three pages. -/
def recentKeys (i : MetaNo) : ℕ ×ₗ Bool := (snap i).recentKey

def steadyKeys (i : MetaNo) : Bool ×ₗ ℕ := (snap i).steadyKey

/-- What `meta_tap` finds: the greatest page of either order, and the lesser of the pages that are
not the most recent one. -/
theorem metaTap_fields :
    (metaTap snap).recent = top (recentKeys snap) ∧
    (metaTap snap).preferSteady = top (steadyKeys snap) ∧
    (metaTap snap).tail = low (steadyKeys snap) (top (recentKeys snap)) := by
  have hc (i j : MetaNo) : ∃ c : Fin 3, (c : Nat) = metaCmp2int (snap i).txnid (snap j).txnid 1 :=
    ⟨⟨_, metaCmp2int_lt_three _ _⟩, rfl⟩
  obtain ⟨c01, h01⟩ := hc 0 1
  obtain ⟨c02, h02⟩ := hc 0 2
  obtain ⟨c12, h12⟩ := hc 1 2
  have hr (i j : MetaNo) : above (recentKeys snap) i j =
      metaCmp2recent (metaCmp2int (snap i).txnid (snap j).txnid 1) (snap i).isSteady
        (snap j).isSteady := (metaChoiceRecent_iff _ _).symm
  have hs (i j : MetaNo) : above (steadyKeys snap) i j =
      metaCmp2steady (metaCmp2int (snap i).txnid (snap j).txnid 1) (snap i).isSteady
        (snap j).isSteady := (metaChoiceSteady_iff _ _).symm
  have hpack : metaTap snap = metaTroikaUnpack (fun i => (snap i).txnid) (metaTap snap).fsm
      (metaCmp2pack c01 c02 c12 (snap 0).isSteady (snap 1).isSteady (snap 2).isSteady) := by
    rw [← troikaFsmMap_verified]
    simp only [metaTap, metaTroikaUnpack, metaCmp2int_scale _ _ 8, metaCmp2int_scale _ _ (8 * 3),
      metaCmp2int_scale _ _ (8 * 3 * 3), ← h01, ← h02, ← h12]
  rw [hpack]
  simp only [metaTroikaUnpack, Troika.tail, top, low, hr, hs, ← h01, ← h02, ← h12]
  obtain ⟨h1, h2, h3, -⟩ := metaCmp2pack_fields c01 c02 c12 (snap 0).isSteady (snap 1).isSteady
    (snap 2).isSteady
  exact ⟨h1, h2, h3⟩

/-- The page to overwrite is neither the most recent one nor the one to fall back on. -/
theorem low_ne_top : low (steadyKeys snap) (top (recentKeys snap)) ≠ top (steadyKeys snap) := by
  intro h
  have hr := low_ne (steadyKeys snap) (top (recentKeys snap))
  generalize top (recentKeys snap) = r at h hr
  -- The two pages other than `r` have equal keys then, and the two choices break ties differently.
  have hle (i : MetaNo) (hi : i ≠ r) : i = low (steadyKeys snap) r := by
    have heq : steadyKeys snap i = steadyKeys snap (low (steadyKeys snap) r) :=
      le_antisymm (h ▸ le_top _ i) (low_le _ r i hi)
    exact le_antisymm (h ▸ le_top_of_eq _ i (h ▸ heq)) (low_le_of_eq _ r i hi heq)
  have hthird : ∀ r l : MetaNo, ∃ i, i ≠ r ∧ i ≠ l := by decide
  obtain ⟨i, hi, hne⟩ := hthird r (low (steadyKeys snap) r)
  exact hne (hle i hi)

/-- `meta_tap` on any three pages: `recent` has the greatest id and, of pages with that id, a steady
one; `prefer_steady` is the newest steady page, or the newest page where none is steady; `tail` is
neither of them, and of the pages other than `recent` the first to give up. -/
theorem metaTap_chooses : ∃ r p t : MetaNo,
    (metaTap snap).recent = r ∧ (metaTap snap).preferSteady = p ∧ (metaTap snap).tail = t ∧
    t ≠ r ∧ t ≠ p ∧
    (∀ i, (snap i).recentKey ≤ (snap r).recentKey) ∧
    (∀ i, (snap i).steadyKey ≤ (snap p).steadyKey) ∧
    (∀ i, i ≠ r → (snap t).steadyKey ≤ (snap i).steadyKey) := by
  obtain ⟨hr, hp, ht⟩ := metaTap_fields snap
  refine ⟨_, _, _, hr, hp, ht, low_ne _ _, low_ne_top snap, ?_, ?_, ?_⟩
  · exact le_top (recentKeys snap)
  · exact le_top (steadyKeys snap)
  · exact low_le (steadyKeys snap) _

/-! ### What else is read off the pages -/

/-- `meta_ptr_t` -/
structure MetaPtr where
  no : MetaNo
  txnid : Nat
  isSteady : Bool
deriving DecidableEq, Repr

namespace Troika

/-- The page of a number, as `meta_recent`, `meta_prefer_steady` and `meta_tail` return it. -/
def ptr (t : Troika) (n : Nat) : MetaPtr where
  no := Fin.ofNat 3 n
  txnid := t.txnid (Fin.ofNat 3 n)
  isSteady := (t.fsm >>> n) &&& 1 != 0

/-- `meta_recent` -/
def metaRecent (t : Troika) : MetaPtr := t.ptr t.recent

/-- `meta_prefer_steady` -/
def metaPreferSteady (t : Troika) : MetaPtr := t.ptr t.preferSteady

/-- `meta_tail` -/
def metaTail (t : Troika) : MetaPtr := t.ptr t.tail

/-- `meta_eq` -/
def metaEq (t : Troika) (a b : MetaNo) : Bool :=
  t.txnid a == t.txnid b && ((t.fsm >>> a.val) ^^^ (t.fsm >>> b.val)) &&& 1 == 0 && t.txnid a != 0

/-- `meta_eq_mask` -/
def metaEqMask (t : Troika) : Nat :=
  (t.metaEq 0 1).toNat ||| (t.metaEq 1 2).toNat <<< 1 ||| (t.metaEq 2 0).toNat <<< 2

/-- What `meta_should_retry` returns when its own tap found `t`. -/
def shouldRetry (prev t : Troika) : Bool :=
  prev.fsm != t.fsm || prev.txnid 0 != t.txnid 0 || prev.txnid 1 != t.txnid 1 ||
    prev.txnid 2 != t.txnid 2

end Troika

/-- `recent_committed_txnid`, from the three snapshots it takes. -/
def recentCommittedTxnid : Nat :=
  let m0 := (snap 0).txnid
  let m1 := (snap 1).txnid
  let m2 := (snap 2).txnid
  if m1 < m0 then if m2 < m0 then m0 else m2 else if m2 < m1 then m1 else m2

theorem metaTap_txnid (i : MetaNo) : (metaTap snap).txnid i = (snap i).txnid := rfl

/-- The signs are the low bits of the state of the table. -/
theorem metaTap_fsm (i : MetaNo) :
    ((metaTap snap).fsm >>> i.val) &&& 1 = (snap i).isSteady.toNat := by
  have hfsm : (metaTap snap).fsm = (snap 0).isSteady.toNat + 2 * (snap 1).isSteady.toNat +
      4 * (snap 2).isSteady.toNat + 8 * (metaCmp2int (snap 0).txnid (snap 1).txnid 1 +
        3 * metaCmp2int (snap 0).txnid (snap 2).txnid 1 +
        9 * metaCmp2int (snap 1).txnid (snap 2).txnid 1) := by
    simp only [metaTap, metaTroikaUnpack, metaCmp2int_scale _ _ 8, metaCmp2int_scale _ _ (8 * 3),
      metaCmp2int_scale _ _ (8 * 3 * 3), Nat.shiftLeft_eq]
    omega
  have h0 := Bool.toNat_le (snap 0).isSteady
  have h1 := Bool.toNat_le (snap 1).isSteady
  have h2 := Bool.toNat_le (snap 2).isSteady
  rw [hfsm, Nat.and_one_is_mod, Nat.shiftRight_eq_div_pow]
  revert i
  rw [forall_fin3]
  refine ⟨?_, ?_, ?_⟩ <;> simp only [Fin.val_zero, Fin.val_one, Fin.val_two] <;> omega

theorem metaTap_ptr (i : MetaNo) :
    (metaTap snap).ptr i.val = ⟨i, (snap i).txnid, (snap i).isSteady⟩ := by
  have hno : Fin.ofNat 3 i.val = i := Fin.ext (Nat.mod_eq_of_lt i.isLt)
  have hsteady : ((metaTap snap).fsm >>> i.val &&& 1 != 0) = (snap i).isSteady := by
    rw [metaTap_fsm]
    cases (snap i).isSteady <;> rfl
  simp only [Troika.ptr, hno, metaTap_txnid, hsteady]

theorem metaRecent_metaTap : (metaTap snap).metaRecent =
    ⟨top (recentKeys snap), (snap (top (recentKeys snap))).txnid,
      (snap (top (recentKeys snap))).isSteady⟩ := by
  rw [Troika.metaRecent, (metaTap_fields snap).1, metaTap_ptr]

theorem metaPreferSteady_metaTap : (metaTap snap).metaPreferSteady =
    ⟨top (steadyKeys snap), (snap (top (steadyKeys snap))).txnid,
      (snap (top (steadyKeys snap))).isSteady⟩ := by
  rw [Troika.metaPreferSteady, (metaTap_fields snap).2.1, metaTap_ptr]

theorem metaTail_metaTap : (metaTap snap).metaTail =
    ⟨low (steadyKeys snap) (top (recentKeys snap)),
      (snap (low (steadyKeys snap) (top (recentKeys snap)))).txnid,
      (snap (low (steadyKeys snap) (top (recentKeys snap)))).isSteady⟩ := by
  rw [Troika.metaTail, (metaTap_fields snap).2.2, metaTap_ptr]

/-- No page has a greater id than the recent one. -/
theorem txnid_le_recent (i : MetaNo) : (snap i).txnid ≤ (metaTap snap).metaRecent.txnid := by
  rw [metaRecent_metaTap]
  exact Prod.Lex.monotone_fst _ _ (le_top (recentKeys snap) i)

/-- The id that `recent_committed_txnid` takes the shorter way. -/
theorem recentCommittedTxnid_eq :
    recentCommittedTxnid snap = (metaTap snap).metaRecent.txnid := by
  have h0 := txnid_le_recent snap 0
  have h1 := txnid_le_recent snap 1
  have h2 := txnid_le_recent snap 2
  have hone :
      (metaTap snap).metaRecent.txnid ∈ [(snap 0).txnid, (snap 1).txnid, (snap 2).txnid] := by
    rw [metaRecent_metaTap]
    generalize top (recentKeys snap) = r
    revert r
    rw [forall_fin3]
    simp
  simp only [recentCommittedTxnid]
  simp only [List.mem_cons, List.not_mem_nil, or_false] at hone
  split_ifs <;> omega

/-- Where a page is steady, so is the one that `prefer_steady` names. -/
theorem preferSteady_isSteady {i : MetaNo} (h : (snap i).isSteady = true) :
    (metaTap snap).metaPreferSteady.isSteady = true := by
  rw [metaPreferSteady_metaTap]
  have hle : (snap i).isSteady ≤ (snap (top (steadyKeys snap))).isSteady :=
    Prod.Lex.monotone_fst _ _ (le_top (steadyKeys snap) i)
  exact Bool.eq_true_of_true_le (h ▸ hle)

/-- No steady page is newer than the one that `prefer_steady` names. -/
theorem txnid_le_preferSteady {i : MetaNo} (h : (snap i).isSteady = true) :
    (snap i).txnid ≤ (metaTap snap).metaPreferSteady.txnid := by
  have hs := preferSteady_isSteady snap h
  rw [metaPreferSteady_metaTap] at hs ⊢
  have hle := le_top (steadyKeys snap) i
  simp only [steadyKeys, MetaSnap.steadyKey, Prod.Lex.toLex_le_toLex] at hle
  rcases hle with hlt | ⟨-, hle⟩
  · simp_all
  · exact hle

/-- `meta_eq_mask` is zero just when no two pages with an id hold the same snapshot. -/
theorem metaEqMask_eq_zero_iff : (metaTap snap).metaEqMask = 0 ↔
    ∀ i j, i ≠ j → snap i = snap j → (snap i).txnid = 0 := by
  have heq (a b : MetaNo) : (metaTap snap).metaEq a b = true ↔
      snap a = snap b ∧ (snap a).txnid ≠ 0 := by
    have hx : (((metaTap snap).fsm >>> a.val) ^^^ ((metaTap snap).fsm >>> b.val)) &&& 1 =
        ((snap a).isSteady ^^ (snap b).isSteady).toNat := by
      rw [Nat.and_xor_distrib_right, metaTap_fsm, metaTap_fsm]
      cases (snap a).isSteady <;> cases (snap b).isSteady <;> rfl
    rw [Troika.metaEq, hx, metaTap_txnid, metaTap_txnid]
    obtain ⟨ta, sa⟩ := snap a
    obtain ⟨tb, sb⟩ := snap b
    cases sa <;> cases sb <;> simp
  have hmask (x y z : Bool) :
      x.toNat ||| y.toNat <<< 1 ||| z.toNat <<< 2 = 0 ↔ ¬x = true ∧ ¬y = true ∧ ¬z = true := by
    revert x y z
    decide
  rw [Troika.metaEqMask, hmask, heq, heq, heq]
  simp only [forall_fin3, ne_eq, not_and, not_not]
  grind

/-- `meta_should_retry` is false just when the second tap found the snapshots of the first. -/
theorem shouldRetry_eq_false_iff (snap' : MetaNo → MetaSnap) :
    (metaTap snap).shouldRetry (metaTap snap') = false ↔ snap = snap' := by
  constructor
  · intro h
    simp only [Troika.shouldRetry, Bool.or_eq_false_iff, bne_eq_false_iff_eq, metaTap_txnid] at h
    obtain ⟨⟨⟨hfsm, h0⟩, h1⟩, h2⟩ := h
    have hs (i : MetaNo) : (snap i).isSteady = (snap' i).isSteady := by
      have hi := metaTap_fsm snap i
      rw [hfsm, metaTap_fsm] at hi
      revert hi
      cases (snap i).isSteady <;> cases (snap' i).isSteady <;> decide
    have ht : ∀ i, (snap i).txnid = (snap' i).txnid := forall_fin3.mpr ⟨h0, h1, h2⟩
    funext i
    exact MetaSnap.ext (ht i) (hs i)
  · rintro rfl
    simp [Troika.shouldRetry]

/-! ### The ids of the pages -/

/-- The snapshots of the three pages. -/
def snaps (metas : MetaNo → MetaWords) : MetaNo → MetaSnap := fun i => metaSnap (metas i)

/-- The ids that a tap of the pages names. -/
def recentOf (snap : MetaNo → MetaSnap) : Nat := (metaTap snap).metaRecent.txnid

def steadyOf (snap : MetaNo → MetaSnap) : Nat := (metaTap snap).metaPreferSteady.txnid

section Ids

variable {metas : MetaNo → MetaWords} {snap : MetaNo → MetaSnap} {i : MetaNo}

theorem steadyOf_le_recentOf : steadyOf snap ≤ recentOf snap := by
  rw [steadyOf, metaPreferSteady_metaTap]
  exact txnid_le_recent snap _

/-- Where no page is steady, the page to fall back on is the most recent one. -/
theorem recentOf_le_steadyOf (h : ∀ i, (snap i).isSteady = false) :
    recentOf snap ≤ steadyOf snap := by
  have hle := le_top (steadyKeys snap) (top (recentKeys snap))
  simp only [steadyKeys, MetaSnap.steadyKey, Prod.Lex.toLex_le_toLex, h, lt_self_iff_false,
    true_and, false_or] at hle
  rw [recentOf, steadyOf, metaRecent_metaTap, metaPreferSteady_metaTap]
  exact hle

theorem le_steadyOf_of_isSteady (h : (snap i).isSteady = true) : (snap i).txnid ≤ steadyOf snap :=
  txnid_le_preferSteady snap h

/-- A steady page of a greater id keeps or raises the id to fall back on, whatever the others are;
so does a weak one where none is steady. -/
theorem steadyOf_le_of_le {t : Nat} (h : t ≤ (snap i).txnid)
    (hs : (snap i).isSteady = true ∨ ∀ i, (snap i).isSteady = false) : t ≤ steadyOf snap := by
  rcases hs with hs | hs
  · exact h.trans (le_steadyOf_of_isSteady hs)
  · calc t ≤ (snap i).txnid := h
      _ ≤ recentOf snap := txnid_le_recent snap i
      _ ≤ steadyOf snap := recentOf_le_steadyOf hs

/-- The three pages after one of them got a new image. -/
def withImage (metas : MetaNo → MetaWords) (i : MetaNo) (txnid sign : Nat) : MetaNo → MetaWords :=
  Function.update metas i ⟨txnid, sign, txnid⟩

theorem snaps_withImage {txnid sign : Nat} (ht : minTxnid ≤ txnid) :
    snaps (withImage metas i txnid sign) =
      Function.update (snaps metas) i ⟨txnid, signIsSteady sign⟩ := by
  funext k
  by_cases hk : k = i
  · subst hk
    simp [snaps, withImage, metaSnap, ht]
  · simp [snaps, withImage, hk]

/-- A commit puts its image on the tail, so the id to fall back on does not go down. -/
theorem steadyOf_le_commit {txnid sign : Nat} (ht : recentOf (snaps metas) < txnid) :
    steadyOf (snaps metas) ≤
      steadyOf (snaps (withImage metas (metaTap (snaps metas)).metaTail.no txnid sign)) := by
  have hmin : minTxnid ≤ txnid := by simp only [minTxnid]; omega
  rw [snaps_withImage hmin]
  set snap := snaps metas
  have htail : (metaTap snap).metaTail.no ≠ top (steadyKeys snap) := by
    rw [metaTail_metaTap]
    exact low_ne_top snap
  set tail := (metaTap snap).metaTail.no
  by_cases hs : (snap (top (steadyKeys snap))).isSteady = true
  · -- The steady page stays where it is.
    have hkeep : Function.update snap tail ⟨txnid, signIsSteady sign⟩ (top (steadyKeys snap)) =
        snap (top (steadyKeys snap)) := Function.update_of_ne htail.symm _ _
    rw [steadyOf, metaPreferSteady_metaTap]
    exact steadyOf_le_of_le (i := top (steadyKeys snap)) (by rw [hkeep]) (.inl (by rw [hkeep, hs]))
  · -- No page is steady, so the new one is the greatest of the weak pages or the only steady one.
    have hweak (i : MetaNo) : (snap i).isSteady = false := by
      by_contra h
      have h' := preferSteady_isSteady snap (Bool.eq_true_of_not_eq_false h)
      rw [metaPreferSteady_metaTap] at h'
      exact hs h'
    have hle : steadyOf snap ≤ txnid := (steadyOf_le_recentOf.trans_lt ht).le
    refine steadyOf_le_of_le (i := tail) (by simpa using hle) ?_
    by_cases hsign : signIsSteady sign = true
    · exact .inl (by simpa using hsign)
    · refine .inr fun k => ?_
      by_cases hk : k = tail
      · simpa [hk] using hsign
      · simpa [hk] using hweak k

/-- A page with an id and a steady sign is a steady page. -/
theorem isSteady_snaps (hs : signIsSteady (metas i).sign = true)
    (ht : minTxnid ≤ (snaps metas i).txnid) : (snaps metas i).isSteady = true := by
  simp only [snaps, metaSnap] at ht ⊢
  split at ht
  · simp [minTxnid] at ht
  · simp_all

end Ids

end MdbxGo
