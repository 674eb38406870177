import Mathlib.Data.Int.GCD
import Mathlib.Data.Nat.Prime.Basic
import MdbxGo.Slice
import MdbxGo.Word
import MdbxGo.Libmdbx.Table
import MdbxGo.Mdbx.Txn

/-! Pages of values of one size: `Multi`, its segments, and `PutMulti`, which hands a page over to
libmdbx as a number of elements and their size. -/

namespace MdbxGo

abbrev Page := Slice UInt8

/-- `len` and its type: an `int`. -/
def Page.length (page : Page) : Int64 := .ofNat page.len

/-- A page with a stride that `WrapMulti` accepts; its fields are not exported. -/
structure Multi where
  page : Page
  stride : Int64
  stride_ne : stride ≠ 0
  congruent : page.length % stride = 0

/-- `WrapMulti`; `none` is a panic, its own or that of a division by zero. -/
def wrapMulti (page : Page) (stride : Int64) : Option Multi :=
  if hzero : stride = 0 then none
  else if h : page.length % stride = 0 then some ⟨page, stride, hzero, h⟩
  else none

namespace Multi

/-- `Len` -/
def len (m : Multi) : Int64 := m.page.length / m.stride

/-- `Val`; `none` is a panic. -/
def val (m : Multi) (i : Int64) : Option Page :=
  let off := i * m.stride
  m.page.slice off.toInt (off + m.stride).toInt

/-- `Vals`; `make` panics for a negative length. -/
def vals (m : Multi) : Option (List Page) :=
  if m.len < 0 then none else (List.range m.len.toInt.toNat).mapM fun i => m.val (.ofNat i)

end Multi

/-- What `mdbxgo_cursor_putmulti` passes on: the key, the first byte of the data with the size of an
element, the number of elements, and the flags. -/
structure MultiPut where
  key : Bytes
  vdata : Option UInt8
  vstride : UInt64
  vn : UInt64
  flags : UInt32

/-- `MDBX_MULTIPLE` -/
def putMultiple : UInt32 := 0x80000

/-- `PutMulti`, with the code that the C call returns. -/
def putMulti (ret : Code) (key : Bytes) (page : Page) (stride : Int64) (flags : UInt32) :
    Option (MultiPut × Option GoError) :=
  (wrapMulti page stride).map fun m =>
    ({ key
       vdata := page.elems.head?
       vstride := stride.toUInt64
       vn := m.len.toUInt64
       flags := flags ||| putMultiple },
     operrno "mdbxgo_cursor_putmulti" ret)

variable {page : Page} {stride : Int64} {m : Multi} {i : Int64}

/-! ### The arithmetic of a page -/

theorem Page.length_toInt (page : Page) : page.length.toInt = page.len := by
  have hlen := page.len_le
  have hbounded := page.bounded
  exact Int64.toInt_ofNat_of_lt (by omega)

theorem mod_eq_zero_iff :
    page.length % stride = 0 ↔ stride.toInt ∣ (page.len : Int) := by
  rw [← Int64.toInt_inj, Int64.toInt_mod, page.length_toInt]
  exact Int.dvd_iff_tmod_eq_zero.symm

theorem wrapMulti_isSome :
    (wrapMulti page stride).isSome = true ↔ stride ≠ 0 ∧ stride.toInt ∣ (page.len : Int) := by
  rw [← mod_eq_zero_iff]
  unfold wrapMulti
  split
  · simp_all
  · split <;> simp_all

theorem wrapMulti_eq_some (h : wrapMulti page stride = some m) :
    m.page = page ∧ m.stride = stride := by
  unfold wrapMulti at h
  split at h
  · cases h
  · split at h
    · obtain rfl := Option.some.inj h
      exact ⟨rfl, rfl⟩
    · cases h

namespace Multi

theorem stride_dvd (m : Multi) : m.stride.toInt ∣ (m.page.len : Int) :=
  mod_eq_zero_iff.mp m.congruent

/-- The product of the number of values and their size is the length of the page. -/
theorem len_mul_stride (m : Multi) : m.len.toInt * m.stride.toInt = m.page.len := by
  have hmin : m.page.length ≠ Int64.minValue := by
    intro heq
    have hint := m.page.length_toInt
    rw [heq] at hint
    have : Int64.minValue.toInt = -2 ^ 63 := by decide
    omega
  unfold len
  rw [Int64.toInt_div_of_ne_left _ _ hmin, m.page.length_toInt]
  exact Int.tdiv_mul_cancel m.stride_dvd

/-- The offset of a segment, where `i * m.stride` may wrap around. -/
def offset (m : Multi) (i : Int64) : Int := (i.toInt * m.stride.toInt).bmod (2 ^ 64)

/-- `Val` returns what lies within the capacity. -/
theorem val_isSome (hpos : 0 < m.stride.toInt) :
    (m.val i).isSome = true ↔ 0 ≤ m.offset i ∧ m.offset i + m.stride.toInt ≤ m.page.cap := by
  have hbounded := m.page.bounded
  have hstride := m.stride.toInt_lt
  have hoff : (i * m.stride).toInt = m.offset i := Int64.toInt_mul _ _
  have hoffset := (i * m.stride).toInt_lt
  have hmin := (i * m.stride + m.stride).le_toInt
  have hhigh : (i * m.stride + m.stride).toInt =
      (m.offset i + m.stride.toInt).bmod (2 ^ 64) := by rw [Int64.toInt_add, hoff]
  -- a sum that wraps around is negative, and less than the offset
  have hsum := Int.bmod_add_bdiv (m.offset i + m.stride.toInt) (2 ^ 64)
  unfold val
  rw [Slice.slice_isSome, hoff]
  rw [hoff] at hoffset
  rw [hhigh] at hmin ⊢
  unfold Slice.cap
  by_cases hwrap : 0 ≤ m.offset i ∧ m.offset i + m.stride.toInt < 2 ^ 63
  · rw [Int.bmod_eq_of_le (by omega) (by omega)]
    omega
  · omega

/-- The offset of a segment of the page does not wrap around. -/
theorem offset_inside (hpos : 0 < m.stride.toInt) (h0 : 0 ≤ i.toInt)
    (hlen : i.toInt < m.len.toInt) : m.offset i = i.toInt * m.stride.toInt ∧
      i.toInt * m.stride.toInt + m.stride.toInt ≤ m.page.len := by
  have hlenle := m.page.len_le
  have hbounded := m.page.bounded
  have hbound : (i.toInt + 1) * m.stride.toInt ≤ m.page.len := by
    rw [← m.len_mul_stride]
    exact Int.mul_le_mul_of_nonneg_right hlen (Int.le_of_lt hpos)
  rw [Int.add_mul, Int.one_mul] at hbound
  have hnonneg := Int.mul_nonneg h0 (Int.le_of_lt hpos)
  exact ⟨Int.bmod_eq_of_le (by omega) (by omega), hbound⟩

/-- `Val` returns the segments of the page. -/
theorem val_inside (hpos : 0 < m.stride.toInt) (h0 : 0 ≤ i.toInt) (hlen : i.toInt < m.len.toInt) :
    (m.val i).map Slice.elems =
      some (m.page.elems.segment m.stride.toInt.toNat i.toInt.toNat) := by
  obtain ⟨hoffset, hbound⟩ := offset_inside hpos h0 hlen
  have hlenle := m.page.len_le
  have hbounded := m.page.bounded
  have hnonneg := Int.mul_nonneg h0 (Int.le_of_lt hpos)
  have hlow : (i * m.stride).toInt = (i.toInt.toNat * m.stride.toInt.toNat : Nat) := by
    have hoff : (i * m.stride).toInt = m.offset i := Int64.toInt_mul _ _
    rw [hoff, hoffset, Int.natCast_mul, Int.toNat_of_nonneg h0, Int.toNat_of_nonneg (by omega)]
  have hprod : ((i.toInt.toNat * m.stride.toInt.toNat : Nat) : Int) = i.toInt * m.stride.toInt := by
    rw [Int.natCast_mul, Int.toNat_of_nonneg h0, Int.toNat_of_nonneg (by omega)]
  have hhigh : (i * m.stride + m.stride).toInt =
      (i.toInt.toNat * m.stride.toInt.toNat + m.stride.toInt.toNat : Nat) := by
    rw [Int64.toInt_add, hlow, Int.bmod_eq_of_le (by omega) (by omega)]
    omega
  unfold val
  dsimp only
  rw [hlow, hhigh, Slice.elems_slice (by omega) (by omega), List.segment]
  congr 2
  omega

theorem len_nonneg (hpos : 0 < m.stride.toInt) : 0 ≤ m.len.toInt := by
  have hprod := m.len_mul_stride
  by_contra hneg
  have := Int.mul_neg_of_neg_of_pos (Int.not_le.mp hneg) hpos
  omega

/-- The segments of the page make up the page. -/
theorem vals_elems (hpos : 0 < m.stride.toInt) :
    ∃ vs, m.vals = some vs ∧ (vs.map Slice.elems).flatten = m.page.elems := by
  have hlen := len_nonneg hpos
  have hmax := m.len.toInt_lt
  have hval : ∀ i ∈ List.range m.len.toInt.toNat, ∃ v, m.val (.ofNat i) = some v ∧
      v.elems = m.page.elems.segment m.stride.toInt.toNat i := by
    intro i hi
    rw [List.mem_range] at hi
    have hint : (Int64.ofNat i).toInt = i := Int64.toInt_ofNat_of_lt (by omega)
    have hinside := @val_inside m (.ofNat i) hpos (by omega) (by omega)
    obtain ⟨v, hv, helems⟩ := Option.map_eq_some_iff.mp hinside
    rw [hint, Int.toNat_natCast] at helems
    exact ⟨v, hv, helems⟩
  obtain ⟨vs, hvs, helems⟩ := List.exists_mapM hval
  have hcount : m.len.toInt.toNat * m.stride.toInt.toNat = m.page.len := by
    have hprod := m.len_mul_stride
    rw [← Int.toNat_of_nonneg hlen, ← Int.toNat_of_nonneg (Int.le_of_lt hpos)] at hprod
    exact_mod_cast hprod
  refine ⟨vs, ?_, ?_⟩
  · have hneg : ¬m.len < 0 := by
      rw [Int64.lt_iff_toInt_lt]
      exact Int.not_lt.mpr hlen
    unfold vals
    rw [if_neg hneg]
    exact hvs
  · rw [helems, List.flatten_segments, hcount, ← m.page.length_elems]
    exact List.take_length

/-! ### The indices that hit nothing -/

/-- 2 ^ 63 times an even stride wraps around to the first byte. -/
theorem offset_even (heven : m.stride.toInt % 2 = 0) : m.offset Int64.minValue = 0 := by
  have hmin : Int64.minValue.toInt = -2 ^ 63 := by decide
  unfold offset
  rw [hmin]
  apply Int.bmod_eq_zero_of_dvd
  omega

theorem coprime_stride (hpos : 0 < m.stride.toInt) (hodd : m.stride.toInt % 2 = 1) :
    Nat.Coprime m.stride.toInt.toNat (2 ^ 64) := by
  apply Nat.Coprime.pow_right
  rw [Nat.coprime_two_right, Nat.odd_iff]
  omega

/-- Some multiple of an odd stride wraps around to the second byte. -/
theorem offset_odd (hpos : 0 < m.stride.toInt) (hodd : m.stride.toInt % 2 = 1) :
    ∃ i, m.offset i = 1 := by
  obtain ⟨j, -, hj⟩ :=
    Nat.exists_mul_mod_eq_one_of_coprime (coprime_stride hpos hodd) (show 1 < 2 ^ 64 by decide)
  refine ⟨.ofInt j, ?_⟩
  have hmod : (j : Int) * m.stride.toInt % 2 ^ 64 = 1 := by
    rw [Int.mul_comm, ← Int.toNat_of_nonneg (Int.le_of_lt hpos)]
    exact_mod_cast hj
  have hint : (Int64.ofInt j).toInt = (j : Int).bmod (2 ^ 64) := Int64.toInt_ofInt
  unfold offset
  rw [hint, Int.bmod_mul_bmod, Int.bmod_eq_emod_of_lt]
  · exact hmod
  · have hsmall : (1 : Int) < ((2 ^ 64 : Nat) + 1) / 2 := by decide
    exact hmod ▸ hsmall

/-- A multiple of an odd stride wraps around to the first byte only from the index 0. -/
theorem offset_eq_zero (hpos : 0 < m.stride.toInt) (hodd : m.stride.toInt % 2 = 1)
    (hzero : m.offset i = 0) : i.toInt = 0 := by
  have hmin := i.le_toInt
  have hmax := i.toInt_lt
  have hdvd : ((2 ^ 64 : Nat) : Int) ∣ i.toInt * m.stride.toInt := Int.dvd_of_bmod_eq_zero hzero
  rw [← Int.toNat_of_nonneg (Int.le_of_lt hpos), ← Int.natAbs_dvd_natAbs, Int.natAbs_mul] at hdvd
  have hindex := (coprime_stride hpos hodd).symm.dvd_of_dvd_mul_right hdvd
  have hle : i.toInt.natAbs = 0 := Nat.eq_zero_of_dvd_of_lt hindex (by omega)
  omega

/-- The offset of an index that is no larger than the page, for a stride of 1. -/
theorem offset_one (hone : m.stride.toInt = 1) (i : Int64) : m.offset i = i.toInt := by
  have hmin := i.le_toInt
  have hmax := i.toInt_lt
  unfold offset
  rw [hone, Int.mul_one]
  exact Int.bmod_eq_of_le (by omega) (by omega)

/-- An index that hits something is one of a segment. -/
def Missing (m : Multi) : Prop :=
  ∀ i : Int64, ¬(0 ≤ i.toInt ∧ i.toInt < m.len.toInt) → m.val i = none

theorem Missing.inside (hmissing : m.Missing) (hpos : 0 < m.stride.toInt) (h0 : 0 ≤ m.offset i)
    (hcap : m.offset i + m.stride.toInt ≤ m.page.cap) : 0 ≤ i.toInt ∧ i.toInt < m.len.toInt := by
  by_contra hout
  have hhit := (val_isSome hpos).mpr ⟨h0, hcap⟩
  rw [hmissing i hout] at hhit
  cases hhit

/-- With room for a segment, no spare capacity and an odd stride remain. -/
theorem Missing.odd (hmissing : m.Missing) (hpos : 0 < m.stride.toInt)
    (hroom : m.stride.toInt ≤ m.page.cap) : m.stride.toInt % 2 = 1 := by
  by_contra heven
  have hmin : Int64.minValue.toInt = -2 ^ 63 := by decide
  have hzero := @offset_even m (by omega)
  have := hmissing.inside hpos (i := Int64.minValue) (by omega) (by omega)
  omega

theorem Missing.full (hmissing : m.Missing) (hpos : 0 < m.stride.toInt)
    (hroom : m.stride.toInt ≤ m.page.cap) :
    m.page.cap = m.page.len ∧ (m.stride.toInt = 1 ∨ m.stride.toInt = m.page.len) := by
  have hodd := hmissing.odd hpos hroom
  have hlenle := m.page.len_le_cap
  have hprod := m.len_mul_stride
  by_cases hone : m.stride.toInt = 1
  · rw [hone, Int.mul_one] at hprod
    have hint : m.page.length.toInt = m.page.len := m.page.length_toInt
    have hoff := offset_one hone m.page.length
    refine ⟨?_, .inl hone⟩
    by_contra hspare
    -- the byte behind the length
    have := hmissing.inside hpos (i := m.page.length) (by omega) (by omega)
    omega
  · obtain ⟨i, hi⟩ := offset_odd hpos hodd
    have hsingle : m.page.cap = m.stride.toInt := by
      by_contra hspare
      obtain ⟨h0, hlen⟩ := hmissing.inside hpos (i := i) (by omega) (by omega)
      obtain ⟨hoff, -⟩ := offset_inside hpos h0 hlen
      have hdvd : m.stride.toInt ∣ 1 := ⟨i.toInt, by rw [Int.mul_comm, ← hoff, hi]⟩
      have := Int.le_of_dvd (by decide) hdvd
      omega
    have hzero : m.offset 0 = 0 := by
      unfold offset
      rw [Int64.toInt_zero, Int.zero_mul]
      rfl
    obtain ⟨-, hsome⟩ := hmissing.inside hpos (i := 0) (by omega) (by omega)
    rw [Int64.toInt_zero] at hsome
    have hle := Int.mul_le_mul_of_nonneg_right hsome (Int.le_of_lt hpos)
    rw [hprod] at hle
    omega

/-- Only the indices of segments hit exactly when the page has no room for a segment, or it has no
spare capacity and its stride is 1 or the odd size of its only segment. -/
theorem missing_iff (hpos : 0 < m.stride.toInt) :
    m.Missing ↔ m.page.cap < m.stride.toInt ∨
      m.page.cap = m.page.len ∧
        (m.stride.toInt = 1 ∨ m.stride.toInt = m.page.len ∧ m.stride.toInt % 2 = 1) := by
  have hprod := m.len_mul_stride
  constructor
  · intro hmissing
    by_cases hroom : m.stride.toInt ≤ m.page.cap
    · have hodd := hmissing.odd hpos hroom
      have hfull := hmissing.full hpos hroom
      omega
    · omega
  · rintro hfits i hout
    rw [← Option.not_isSome_iff_eq_none, val_isSome hpos]
    rintro ⟨h0, hcap⟩
    rcases hfits with hsmall | ⟨hfull, hone | ⟨hsingle, hodd⟩⟩
    · omega
    · have hoff := offset_one hone i
      rw [hone, Int.mul_one] at hprod
      omega
    · have hindex := offset_eq_zero (i := i) hpos hodd (by omega)
      have hlen : m.len.toInt = 1 := by
        rw [← hsingle] at hprod
        exact Int.eq_one_of_mul_eq_self_left (Int.ne_of_gt hpos) hprod
      omega

end Multi

/-! ### What a page keeps -/

/-- `WrapMulti` and the methods of what it returns keep their promises for a page and a stride. -/
def PageRespected (page : Page) (stride : Int64) : Prop :=
  ((wrapMulti page stride).isSome = true ↔
    0 < stride.toInt ∧ stride.toInt ∣ (page.len : Int)) ∧
  ∀ m, wrapMulti page stride = some m →
    m.len.toInt * m.stride.toInt = page.len ∧
    (∀ i : Int64, 0 ≤ i.toInt → i.toInt < m.len.toInt → (m.val i).map Slice.elems =
      some (page.elems.segment stride.toInt.toNat i.toInt.toNat)) ∧
    m.Missing ∧
    (∃ vs, m.vals = some vs ∧ (vs.map Slice.elems).flatten = page.elems) ∧
    ∀ ret key flags r, putMulti ret key page stride flags = some r →
      r.1.vstride.toNat * r.1.vn.toNat = page.len

/-- The pages and strides for which they do. -/
def PageFits (page : Page) (stride : Int64) : Prop :=
  ¬(stride ≠ 0 ∧ stride.toInt ∣ (page.len : Int)) ∨
    0 < stride.toInt ∧ (page.cap < stride.toInt ∨
      page.cap = page.len ∧
        (stride.toInt = 1 ∨ stride.toInt = page.len ∧ stride.toInt % 2 = 1))

/-- Size and number of the elements that `PutMulti` passes on make up the page. -/
theorem putMulti_size {ret : Code} {key : Bytes} {flags : UInt32} {r : MultiPut × Option GoError}
    (hpos : 0 < stride.toInt) (h : putMulti ret key page stride flags = some r) :
    r.1.vstride.toNat * r.1.vn.toNat = page.len := by
  obtain ⟨m, hm, rfl⟩ := Option.map_eq_some_iff.mp h
  obtain ⟨rfl, rfl⟩ := wrapMulti_eq_some hm
  have hprod := m.len_mul_stride
  rw [← Int64.toNat_toUInt64_of_nonneg (Multi.len_nonneg hpos),
    ← Int64.toNat_toUInt64_of_nonneg (Int.le_of_lt hpos), Int.mul_comm] at hprod
  exact_mod_cast hprod

/-- `WrapMulti`, the segments and `PutMulti` keep their promises exactly for these pages. -/
theorem pageRespected_iff (page : Page) (stride : Int64) :
    PageRespected page stride ↔ PageFits page stride := by
  by_cases hwrap : stride ≠ 0 ∧ stride.toInt ∣ (page.len : Int)
  · have hsome := wrapMulti_isSome.mpr hwrap
    obtain ⟨m, hm⟩ := Option.isSome_iff_exists.mp hsome
    obtain ⟨rfl, rfl⟩ := wrapMulti_eq_some hm
    rw [PageFits, or_iff_right (not_not_intro hwrap)]
    constructor
    · rintro ⟨hreturns, hrespected⟩
      obtain ⟨hpos, -⟩ := hreturns.mp hsome
      obtain ⟨-, -, hmissing, -⟩ := hrespected m hm
      exact ⟨hpos, (Multi.missing_iff hpos).mp hmissing⟩
    · rintro ⟨hpos, hfits⟩
      refine ⟨by simp [hsome, hpos, hwrap.2], ?_⟩
      intro m' hm'
      obtain rfl := Option.some.inj (hm.symm.trans hm')
      exact ⟨m.len_mul_stride, fun i h0 hlen => Multi.val_inside hpos h0 hlen,
        (Multi.missing_iff hpos).mpr hfits, Multi.vals_elems hpos,
        fun ret key flags r h => putMulti_size hpos h⟩
  · have hnone : wrapMulti page stride = none := by
      rw [← Option.not_isSome_iff_eq_none, wrapMulti_isSome]
      exact hwrap
    simp only [PageFits, hwrap, not_false_eq_true, true_or, iff_true]
    refine ⟨?_, fun m hm => ?_⟩
    · rw [wrapMulti_isSome]
      constructor
      · exact fun h => absurd h hwrap
      · rintro ⟨hpos, hdvd⟩
        refine absurd ⟨?_, hdvd⟩ hwrap
        rintro rfl
        exact absurd hpos (by decide)
    · rw [hnone] at hm
      cases hm

/-- Four bytes. -/
def fourBytes : Page := ⟨[1, 2, 3, 4], 4, by decide, by decide⟩

/-- Four bytes with a capacity of six. -/
def spareBytes : Page := ⟨[1, 2, 3, 4, 5, 6], 4, by decide, by decide⟩

/-- The stride -2 is accepted; `Val` of the stride 2 has a third segment in the spare capacity; and
without any the index -2 ^ 63 gives the first segment. -/
theorem not_pageRespected : ¬PageRespected fourBytes (-2) ∧ ¬PageRespected spareBytes 2 ∧
    ¬PageRespected fourBytes 2 := by
  refine ⟨?_, ?_, ?_⟩
  · rintro ⟨hreturns, -⟩
    exact absurd (hreturns.mp (by decide)).1 (by decide)
  · rintro ⟨-, hrespected⟩
    obtain ⟨-, -, hmissing, -⟩ := hrespected ⟨spareBytes, 2, by decide, by decide⟩ rfl
    exact absurd (hmissing 2 (by decide)) (by decide)
  · rintro ⟨-, hrespected⟩
    obtain ⟨-, -, hmissing, -⟩ := hrespected ⟨fourBytes, 2, by decide, by decide⟩ rfl
    exact absurd (hmissing Int64.minValue (by decide)) (by decide)

end MdbxGo
