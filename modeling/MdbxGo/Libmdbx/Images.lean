import MdbxGo.Libmdbx.Durability

/-! The images of the meta pages and what every run of a database keeps of them: whatever a crash
leaves, the ids are in the order of the commits, and one page is steady and cannot change. -/

namespace MdbxGo

namespace Durable

open Ordered

/-! ### Images -/

namespace Meta

/-- Readers take the page for a steady one. -/
def isSteady (m : Meta) : Bool := (metaSnap m.words).isSteady

/-- The image is one that a commit makes, whole or in part. -/
structure Formed (m : Meta) : Prop where
  sign : m.metaIsSteady = true → m.words.sign = metaSignCalculate
  last : m.txnid ≤ lastTxnid
  first : minPageno ≤ m.firstUnallocated

variable {m : Meta} {sign bootid txnid : Nat}

@[simp] theorem setSign_txnid : (m.setSign sign).txnid = m.txnid := rfl
@[simp] theorem setSign_root : (m.setSign sign).root = m.root := rfl
@[simp] theorem setSign_bootid : (m.setSign sign).bootid = m.bootid := rfl
@[simp] theorem setTxnid_root : (m.setTxnid bootid txnid).root = m.root := rfl
@[simp] theorem setTxnid_bootid : (m.setTxnid bootid txnid).bootid = bootid := rfl

@[simp] theorem setTxnid_txnid : (m.setTxnid bootid txnid).txnid = txnid := by
  simp [Meta.txnid, setTxnid, constmetaTxnid]

theorem metaIsSteady_weak : (m.setSign datasignWeak).metaIsSteady = false := rfl

theorem words_eq (h : m.txnid ≠ 0) : m.words.txnidA = m.words.txnidB := by
  simp only [Meta.txnid, constmetaTxnid] at h
  split at h
  · assumption
  · exact absurd rfl h

/-- A page with an id is steady by its sign alone. -/
theorem isSteady_eq (h : m.txnid ≠ 0) : m.isSteady = m.metaIsSteady := by
  have hw := words_eq h
  have hid : m.words.txnidA ≠ 0 := by
    simpa only [Meta.txnid, constmetaTxnid, hw, if_true] using h
  have hmin : minTxnid ≤ m.words.txnidB := by
    rw [minTxnid]
    omega
  simp [isSteady, metaSnap, metaIsSteady, hw, hmin]

theorem txnid_of_isSteady (h : m.isSteady = true) : m.txnid ≠ 0 := by
  have hmin := minTxnid_le_of_isSteady h
  rw [metaSnap_txnid, minTxnid] at hmin
  have hid : 1 ≤ m.txnid := hmin
  omega

/-- A whole image is a valid one. -/
theorem Formed.valid (hm : m.Formed) (h : m.txnid ≠ 0) : metaValidate m = true := by
  have hw := words_eq h
  have hsign : (m.metaIsSteady && m.words.sign != metaSignCalculate) = false := by
    by_cases hs : m.metaIsSteady = true
    · simp [hm.sign hs]
    · simp [hs]
  have hmin : minTxnid ≤ m.txnid := by
    rw [minTxnid]
    omega
  simp [metaValidate, hw, hsign, hmin, hm.last, hm.first]

theorem Formed.setSign (hm : m.Formed) (h : signIsSteady sign = true → sign = metaSignCalculate) :
    (m.setSign sign).Formed := ⟨h, hm.last, hm.first⟩

theorem Formed.setTxnid (hm : m.Formed) (h : txnid ≤ lastTxnid) :
    (m.setTxnid bootid txnid).Formed := ⟨hm.sign, by simpa using h, hm.first⟩

end Meta

/-- What an image with an id says: where it comes from, and what of it is still there. -/
structure Image (s : Db) (m : Meta) : Prop where
  formed : m.Formed
  boots : m.bootid ≤ s.boots
  sealed : m.isSteady = true → m.root ∈ s.sealed
  known : m.txnid ≠ 0 → m.root ∈ s.lineage
  booted : m.txnid ≠ 0 → m.bootidMatch s.bootid = true → m.root ∈ s.intact

/-- Two images, at pages `i` and `j`, have ids in the order of their commits, and one id is not on
two pages. -/
def Fits (i : MetaNo) (m : Meta) (j : MetaNo) (m' : Meta) : Prop :=
  m.txnid ≠ 0 → m.txnid ≤ m'.txnid → m.root ≤ m'.root ∧ (m.txnid = m'.txnid → i = j)

/-- The images that the pages have or are about to have. -/
structure Images (s : Db) (im : MetaNo → List Meta) : Prop where
  each : ∀ i, ∀ m ∈ im i, Image s m
  fits : ∀ i j, ∀ m ∈ im i, ∀ m' ∈ im j, Fits i m j m'

/-- The id `t` at page `i` is above all the others, and so is the commit `r`. -/
def Tops (im : MetaNo → List Meta) (i : MetaNo) (t r : Nat) : Prop :=
  ∀ j, ∀ m ∈ im j, m.txnid ≠ 0 →
    (m.txnid < t ∧ m.root ≤ r) ∨ (m.txnid = t ∧ m.root = r ∧ j = i)

section Images

variable {s s' : Db} {im im' : MetaNo → List Meta} {i : MetaNo} {t r : Nat}

theorem Images.mono (h : Images s im) (hsub : ∀ i, im' i ⊆ im i) : Images s im' where
  each i m hm := h.each i m (hsub i hm)
  fits i j m hm m' hm' := h.fits i j m (hsub i hm) m' (hsub j hm')

theorem Images.grow (h : Images s im) (hb : s'.bootid = s.bootid) (hboots : s'.boots = s.boots)
    (hs : s.sealed ⊆ s'.sealed) (hl : s.lineage ⊆ s'.lineage) (hi : s.intact ⊆ s'.intact) :
    Images s' im where
  each i m hm :=
    have hm := h.each i m hm
    { formed := hm.formed
      boots := hboots ▸ hm.boots
      sealed := fun h => hs (hm.sealed h)
      known := fun h => hl (hm.known h)
      booted := fun h hmatch => hi (hm.booted h (hb ▸ hmatch)) }
  fits := h.fits

/-- New images at one page, of one commit whose id tops the others. -/
theorem Images.extend (h : Images s im) (new : List Meta) (htop : Tops im i t r)
    (hnew : ∀ m ∈ new, Image s m)
    (hone : ∀ m ∈ new, m.txnid ≠ 0 → m.txnid = t ∧ m.root = r) :
    Images s (Function.update im i (new ++ im i)) := by
  have hmem (j : MetaNo) (m : Meta) (hm : m ∈ Function.update im i (new ++ im i) j) :
      m ∈ im j ∨ (j = i ∧ m ∈ new) := by
    by_cases hj : j = i
    · subst hj
      simp only [Function.update_self, List.mem_append] at hm
      exact hm.elim (fun hm => .inr ⟨rfl, hm⟩) .inl
    · rw [Function.update_of_ne hj] at hm
      exact .inl hm
  constructor
  · intro j m hm
    rcases hmem j m hm with hm | ⟨-, hm⟩
    · exact h.each j m hm
    · exact hnew m hm
  · intro j k m hm m' hm' hid hle
    have hid' : m'.txnid ≠ 0 := by omega
    rcases hmem j m hm with hold | ⟨hj, hm⟩ <;> rcases hmem k m' hm' with hold' | ⟨hk, hm'⟩
    · exact h.fits j k m hold m' hold' hid hle
    · obtain ⟨ht', hr'⟩ := hone m' hm' hid'
      rcases htop j m hold hid with ⟨hlt, hr⟩ | ⟨ht, hr, hj⟩
      · exact ⟨by omega, fun heq => absurd heq (by omega)⟩
      · exact ⟨by omega, fun _ => hj.trans hk.symm⟩
    · obtain ⟨ht, hr⟩ := hone m hm hid
      rcases htop k m' hold' hid' with ⟨hlt, hr'⟩ | ⟨ht', hr', hk⟩
      · omega
      · exact ⟨by omega, fun _ => hj.trans hk.symm⟩
    · obtain ⟨ht, hr⟩ := hone m hm hid
      obtain ⟨ht', hr'⟩ := hone m' hm' hid'
      exact ⟨by omega, fun _ => hj.trans hk.symm⟩

end Images

/-! ### The invariant -/

/-- The page that is being written. -/
def Phase.target : Phase → Option MetaNo
  | .writing target _ _ _ _ => some target
  | .flushing target _ _ _ => some target
  | .overriding target => some target
  | _ => none

namespace Db

/-- The images that page `i` may be left with, now or before the write of it ends. -/
def images (s : Db) (i : MetaNo) : List Meta :=
  match s.phase with
  | .writing target todo pending _ _ =>
    if i = target then (todo ++ [pending]) ++ s.disk i else s.disk i
  | _ => s.disk i

/-- The image `m` is on the head, or is going to be. -/
structure Heads (s : Db) (m : Meta) : Prop where
  txnid : m.txnid ≠ 0
  greatest : ∀ i, ∀ m' ∈ s.images i, m'.txnid ≤ m.txnid
  line : s.lineage.head? = some m.root
  intact : m.root ∈ s.intact
  synced : s.unsynced = 0 → m.root ∈ s.sealed ∧ s.fresh = false

/-- A page that no crash can change, whose commit has every one that was acknowledged. -/
structure Anchor (s : Db) (p : MetaNo) : Prop where
  still : s.phase.target ≠ some p
  steady : (s.cache p).isSteady = true
  reused : s.reused ≤ (s.cache p).txnid
  acked : ∀ r ∈ s.acked, r ≤ (s.cache p).root

/-- What holds in the phase that the process is in. -/
def Stands (s : Db) : Prop :=
  match s.phase with
  | .opened => s.Heads s.headMeta
  | .writing _ _ pending _ _ => s.Heads pending
  | .flushing target pending _ _ => s.cache target = pending ∧ s.Heads pending
  | .recovering => s.unsynced = 0 ∧ s.fresh = false
  | .overriding target => (s.unsynced = 0 ∧ s.fresh = false) ∧ (s.cache target).txnid = 0
  | .failed => False

/-- What is on record of the commits. -/
structure History (s : Db) : Prop where
  bootid : s.bootid ≤ s.boots
  line : s.lineage.Pairwise (· > ·)
  numbered : ∀ r ∈ s.lineage, r < s.nextRoot
  acked : ∀ r ∈ s.acked, r ∈ s.lineage
  sealed : s.sealed ⊆ s.intact

/-- What every run keeps. -/
structure Sound (s : Db) : Prop where
  images : Images s s.images
  history : s.History
  kept : ∀ i, s.cache i ∈ s.disk i
  flushed : ∀ i, s.phase.target ≠ some i → (s.cache i).isSteady = true → s.disk i = [s.cache i]
  settled : ∀ i, s.phase.target ≠ some i → ∀ m ∈ s.disk i, m.txnid ≤ (s.cache i).txnid
  anchored : ∃ p, s.Anchor p
  stands : s.Stands

end Db

section Head

variable {s : Db}

theorem disk_subset_images (s : Db) (i : MetaNo) : s.disk i ⊆ s.images i := by
  intro m hm
  simp only [Db.images]
  split
  · split
    · exact List.mem_append_right _ hm
    · exact hm
  · exact hm

theorem Db.Sound.cached (hs : s.Sound) (i : MetaNo) : s.cache i ∈ s.images i :=
  disk_subset_images s i (hs.kept i)

theorem head_eq (s : Db) :
    s.head = ⟨top (recentKeys s.snap), s.headMeta.txnid, s.headMeta.isSteady⟩ := by
  have hno : s.head.no = top (recentKeys s.snap) := by rw [Db.head, metaRecent_metaTap]
  have hsnap : s.snap (top (recentKeys s.snap)) = metaSnap s.headMeta.words := by
    rw [Db.headMeta, hno, Db.snap]
  rw [Db.head, metaRecent_metaTap, hsnap, metaSnap_txnid]
  rfl

theorem head_txnid (s : Db) : s.head.txnid = s.headMeta.txnid := by rw [head_eq]

theorem head_isSteady (s : Db) : s.head.isSteady = s.headMeta.isSteady := by rw [head_eq]

theorem headMeta_congr {s s' : Db} (h : s'.cache = s.cache) : s'.headMeta = s.headMeta := by
  have hsnap : s'.snap = s.snap := by
    funext i
    rw [Db.snap, Db.snap, h]
  rw [Db.headMeta, Db.headMeta, Db.head, Db.head, hsnap, h]

/-- No page has a greater id than the head. -/
theorem le_head (s : Db) (i : MetaNo) : (s.cache i).txnid ≤ s.headMeta.txnid := by
  have hle := txnid_le_recent s.snap i
  rw [Db.snap, metaSnap_txnid] at hle
  rw [← head_txnid]
  exact hle

theorem steady_txnid (s : Db) : s.steady.txnid = (s.cache s.steady.no).txnid := by
  have hno : s.steady.no = top (steadyKeys s.snap) := by rw [Db.steady, metaPreferSteady_metaTap]
  rw [hno, Db.steady, metaPreferSteady_metaTap, Db.snap, metaSnap_txnid]
  rfl

theorem steady_isSteady (s : Db) : s.steady.isSteady = (s.cache s.steady.no).isSteady := by
  have hno : s.steady.no = top (steadyKeys s.snap) := by rw [Db.steady, metaPreferSteady_metaTap]
  rw [hno, Db.steady, metaPreferSteady_metaTap]
  rfl

/-- Where a page is steady, `steady` is one, with the greatest id of them. -/
theorem isSteady_of_isSteady {i : MetaNo} (h : (s.cache i).isSteady = true) :
    (s.cache s.steady.no).isSteady = true := by
  rw [← steady_isSteady]
  exact preferSteady_isSteady s.snap (i := i) h

theorem le_steady {i : MetaNo} (h : (s.cache i).isSteady = true) :
    (s.cache i).txnid ≤ (s.cache s.steady.no).txnid := by
  have hle := txnid_le_preferSteady s.snap (i := i) h
  rw [Db.snap, metaSnap_txnid] at hle
  rw [← steady_txnid]
  exact hle

/-- The page that has the greatest id is the head. -/
theorem Db.Sound.head_no (hs : s.Sound) {i : MetaNo} (hid : (s.cache i).txnid ≠ 0)
    (hle : s.headMeta.txnid ≤ (s.cache i).txnid) : s.head.no = i := by
  have hge := le_head s i
  have hhead : s.headMeta.txnid ≠ 0 := by omega
  have hfits := hs.images.fits _ _ _ (hs.cached s.head.no) _ (hs.cached i) hhead hle
  exact hfits.2 (by rw [Db.headMeta] at hge hle; omega)

/-- Of images that the head tops, it is the one with the greatest commit too. -/
theorem Db.Sound.tops_head (hs : s.Sound)
    (hle : ∀ i, ∀ m ∈ s.images i, m.txnid ≤ s.headMeta.txnid) :
    Tops s.images s.head.no s.headMeta.txnid s.headMeta.root := by
  intro j m hm hid
  have hhead := hs.cached s.head.no
  have hlt := hle j m hm
  have hfits := hs.images.fits j s.head.no m hm _ hhead hid hlt
  by_cases heq : m.txnid = s.headMeta.txnid
  · have hback := hs.images.fits s.head.no j _ hhead m hm (by rw [← Db.headMeta]; omega)
      (by rw [← Db.headMeta]; omega)
    rw [← Db.headMeta] at hfits hback
    exact .inr ⟨heq, by omega, hfits.2 heq⟩
  · exact .inl ⟨by omega, hfits.1⟩

/-- Where no page is being written, the steady page with the greatest id is an anchor. -/
theorem Db.Sound.anchor_steady (hs : s.Sound) (hnone : s.phase.target = none) :
    s.Anchor s.steady.no := by
  obtain ⟨p, hp⟩ := hs.anchored
  have hle := le_steady hp.steady
  have hfits := hs.images.fits p s.steady.no _ (hs.cached p) _ (hs.cached _)
    (Meta.txnid_of_isSteady hp.steady) hle
  constructor
  · simp [hnone]
  · exact isSteady_of_isSteady hp.steady
  · exact hp.reused.trans hle
  · intro r hr
    exact (hp.acked r hr).trans hfits.1

/-- A head that is not steady is not the page to fall back on. -/
theorem Db.Sound.steady_ne_head (hs : s.Sound) (hnone : s.phase.target = none)
    (hweak : s.headMeta.isSteady = false) : s.steady.no ≠ s.head.no := by
  intro heq
  have hsteady := (hs.anchor_steady hnone).steady
  rw [heq, ← Db.headMeta, hweak] at hsteady
  exact Bool.false_ne_true hsteady

/-- A crash may leave no more images than before. -/
structure Leaves (s : Db) (disk : MetaNo → List Meta) : Prop where
  kept : ∀ i, s.cache i ∈ disk i
  sub : ∀ i, disk i ⊆ s.disk i
  one : ∀ i, s.disk i = [s.cache i] → disk i = [s.cache i]

theorem leaves_fsync (hs : s.Sound) : Leaves s s.fsync.disk where
  kept _ := List.mem_singleton_self _
  sub i _ hm := List.mem_singleton.mp hm ▸ hs.kept i
  one _ _ := rfl

theorem leaves_flushed (hs : s.Sound) (whole : Bool) (target : MetaNo) :
    Leaves s (s.flushed whole target).disk := by
  cases whole with
  | true => exact leaves_fsync hs
  | false =>
    have hself : (s.flushed false target).disk target = [s.cache target] :=
      Function.update_self _ _ _
    have hother (i : MetaNo) (hi : i ≠ target) : (s.flushed false target).disk i = s.disk i :=
      Function.update_of_ne hi _ _
    constructor <;> intro i <;> by_cases hi : i = target
    · rw [hi, hself]
      exact List.mem_singleton_self _
    · rw [hother i hi]
      exact hs.kept i
    · rw [hi, hself]
      exact fun m hm => List.mem_singleton.mp hm ▸ hs.kept target
    · rw [hother i hi]
      exact List.Subset.refl _
    · rw [hi, hself]
      exact fun _ => rfl
    · rw [hother i hi]
      exact id

theorem flushed_target (s : Db) (whole : Bool) (target : MetaNo) :
    (s.flushed whole target).disk target = [s.cache target] := by
  cases whole with
  | true => rfl
  | false => exact Function.update_self _ _ _

end Head

/-! ### Steps of an open environment -/

section Opened

variable {s : Db}

theorem images_opened (h : s.phase = .opened) : s.images = s.disk := by
  funext i
  simp only [Db.images, h]

theorem target_opened (h : s.phase = .opened) : s.phase.target = none := by rw [h]; rfl

theorem Db.Sound.heads (hs : s.Sound) (h : s.phase = .opened) : s.Heads s.headMeta := by
  have hstands := hs.stands
  rw [Db.Stands, h] at hstands
  exact hstands

theorem stands_opened (h : s.phase = .opened) (hheads : s.Heads s.headMeta) : s.Stands := by
  rw [Db.Stands, h]
  exact hheads

/-- A step that leaves the pages as they are. -/
theorem Db.Sound.counts (hs : s.Sound) (h : s.phase = .opened) {unsynced reused : Nat}
    {fresh : Bool}
    {acked : List Nat} (hacked : ∀ r ∈ acked, r ∈ s.lineage)
    (hanchor : ∃ p, s.phase.target ≠ some p ∧ (s.cache p).isSteady = true ∧
      reused ≤ (s.cache p).txnid ∧ ∀ r ∈ acked, r ≤ (s.cache p).root)
    (hsynced : unsynced = 0 → s.headMeta.root ∈ s.sealed ∧ fresh = false) :
    Db.Sound { s with unsynced := unsynced, fresh := fresh, reused := reused, acked := acked } := by
  have hheads := hs.heads h
  refine ⟨hs.images.grow rfl rfl ?_ ?_ ?_, ?_, hs.kept, hs.flushed, hs.settled, ?_, ?_⟩
  · exact List.Subset.refl _
  · exact List.Subset.refl _
  · exact List.Subset.refl _
  · exact ⟨hs.history.bootid, hs.history.line, hs.history.numbered, hacked, hs.history.sealed⟩
  · obtain ⟨p, hstill, hsteady, hreused, hacked⟩ := hanchor
    exact ⟨p, hstill, hsteady, hreused, hacked⟩
  · refine stands_opened h ?_
    exact ⟨hheads.txnid, hheads.greatest, hheads.line, hheads.intact, hsynced⟩

theorem sound_write (hs : s.Sound) (h : s.phase = .opened) {n : Nat} (hn : 0 < n) :
    Db.Sound { s with unsynced := s.unsynced + n, fresh := true } := by
  obtain ⟨p, hp⟩ := hs.anchored
  refine hs.counts h hs.history.acked ⟨p, hp.still, hp.steady, hp.reused, hp.acked⟩ ?_
  intro hzero
  omega

theorem sound_reclaim (hs : s.Sound) (h : s.phase = .opened) {d : Nat} (hd : d ≤ s.steady.txnid) :
    Db.Sound { s with reused := max s.reused d } := by
  have hp := hs.anchor_steady (target_opened h)
  rw [steady_txnid] at hd
  have hreused : max s.reused d ≤ (s.cache s.steady.no).txnid := max_le hp.reused hd
  exact hs.counts h hs.history.acked ⟨_, hp.still, hp.steady, hreused, hp.acked⟩ (hs.heads h).synced

/-- A steady head is durable with all that it comes from. -/
theorem sound_ack (hs : s.Sound) (h : s.phase = .opened) (hsteady : s.headMeta.isSteady = true) :
    (s.ack s.headMeta.root).Sound := by
  have hheads := hs.heads h
  have hmem : s.headMeta.root ∈ s.lineage := List.mem_of_mem_head? hheads.line
  obtain ⟨p, hp⟩ := hs.anchored
  have hle := le_head s p
  have hfits := hs.images.fits p s.head.no _ (hs.cached p) _ (hs.cached _)
    (Meta.txnid_of_isSteady hp.steady) hle
  refine hs.counts h ?_ ⟨s.head.no, ?_, hsteady, hp.reused.trans hle, ?_⟩ hheads.synced
  · intro r hr
    rcases List.mem_cons.mp hr with rfl | hr
    · exact hmem
    · exact hs.history.acked r hr
  · rw [target_opened h]
    simp
  · intro r hr
    rcases List.mem_cons.mp hr with rfl | hr
    · exact le_refl _
    · exact (hp.acked r hr).trans hfits.1

theorem sound_fsync (hs : s.Sound) (h : s.phase = .opened) : s.fsync.Sound := by
  have hheads := hs.heads h
  have himages : s.fsync.images = fun i => [s.cache i] := images_opened (s := s.fsync) h
  have hsub (i : MetaNo) : s.fsync.images i ⊆ s.images i := by
    rw [himages]
    intro m hm
    rw [List.mem_singleton.mp hm]
    exact hs.cached i
  refine ⟨(hs.images.mono hsub).grow rfl rfl ?_ ?_ ?_, ?_, ?_, ?_, ?_, ?_, ?_⟩
  · exact List.Subset.refl _
  · exact List.Subset.refl _
  · exact List.Subset.refl _
  · exact ⟨hs.history.bootid, hs.history.line, hs.history.numbered, hs.history.acked,
      hs.history.sealed⟩
  · intro i
    exact List.mem_singleton_self _
  · intro i _ _
    rfl
  · intro i _ m hm
    rw [List.mem_singleton.mp hm]
    exact le_refl _
  · obtain ⟨p, hp⟩ := hs.anchored
    exact ⟨p, hp.still, hp.steady, hp.reused, hp.acked⟩
  · refine stands_opened (s := s.fsync) h ?_
    exact ⟨hheads.txnid, fun i m hm => hheads.greatest i m (hsub i hm), hheads.line, hheads.intact,
      hheads.synced⟩

theorem sound_metaSync (hs : s.Sound) (h : s.phase = .opened) :
    (if s.head.isSteady then s.fsync.ack s.headMeta.root else s.fsync).Sound := by
  have hfsync := sound_fsync hs h
  by_cases hsteady : s.head.isSteady = true
  · rw [if_pos hsteady]
    rw [head_isSteady] at hsteady
    exact sound_ack hfsync h hsteady
  · rw [if_neg hsteady]
    exact hfsync

end Opened

end Durable

end MdbxGo
