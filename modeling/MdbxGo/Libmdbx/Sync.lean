import MdbxGo.Libmdbx.Images

/-! The steps of a commit or a sync: the image that is signed, its write to the tail or onto the
weak head, and the flush. -/

namespace MdbxGo

namespace Durable

open Ordered

/-! ### The start of a sync -/

section Sync

variable {s : Db} {f : Flags} {p : Pending} {m : Meta}

/-- What is proposed for the next head. -/
structure Proposes (s : Db) (p : Pending) (m : Meta) : Prop where
  formed : m.Formed
  boots : m.bootid ≤ s.boots
  le : s.headMeta.txnid ≤ m.txnid
  same : m.txnid = s.headMeta.txnid → m = s.headMeta ∧ p.isCommit = false
  root : m.root = if p.isCommit then s.nextRoot else s.headMeta.root
  sign : m.metaIsSteady = true → s.headMeta.metaIsSteady = true ∧ p.isCommit = false

theorem proposes (hs : s.Sound) (hm : s.pending p = some m) : Proposes s p m := by
  have hhead := hs.images.each _ _ (hs.cached s.head.no)
  cases p with
  | commit txnid first =>
    simp only [Db.pending, Option.ite_none_right_eq_some] at hm
    obtain ⟨⟨hlt, hlast, hfirst⟩, hm⟩ := hm
    cases hm
    rw [head_txnid] at hlt
    have htxnid :
        (Meta.mk ⟨txnid, datasignNone, txnid⟩ s.bootid first s.nextRoot).txnid = txnid := by
      simp [Meta.txnid, constmetaTxnid]
    have hweak : signIsSteady datasignNone = false := rfl
    constructor
    · exact ⟨fun hsteady => absurd (hweak.symm.trans hsteady) Bool.false_ne_true,
        htxnid.le.trans hlast, hfirst⟩
    · exact hs.history.bootid
    · omega
    · intro heq
      omega
    · rfl
    · intro hsteady
      exact absurd (hweak.symm.trans hsteady) Bool.false_ne_true
  | copy =>
    cases hm
    exact ⟨hhead.formed, hhead.boots, le_refl _, fun _ => ⟨rfl, rfl⟩, rfl, fun h => ⟨h, rfl⟩⟩
  | forward =>
    simp only [Db.pending, Option.ite_none_right_eq_some] at hm
    obtain ⟨hlast, hm⟩ := hm
    cases hm
    rw [head_txnid] at hlast ⊢
    constructor
    · exact hhead.formed.setTxnid hlast
    · exact hs.history.bootid
    · simp
    · intro heq
      rw [Meta.setTxnid_txnid] at heq
      omega
    · rfl
    · exact fun h => ⟨h, rfl⟩

theorem signed_txnid : (s.signed f m).txnid = m.txnid := by
  simp only [Db.signed, Meta.signAsSteady]
  split_ifs <;> rfl

theorem signed_root : (s.signed f m).root = m.root := by
  simp only [Db.signed, Meta.signAsSteady]
  split_ifs <;> rfl

theorem signed_bootid : (s.signed f m).bootid = m.bootid := by
  simp only [Db.signed, Meta.signAsSteady]
  split_ifs <;> rfl

theorem signed_formed (hm : m.Formed) : (s.signed f m).Formed := by
  have hsteady : m.signAsSteady.Formed := hm.setSign fun _ => rfl
  have hweak : (m.setSign datasignWeak).Formed :=
    hm.setSign fun h => absurd (Meta.metaIsSteady_weak (m := m) ▸ h) Bool.false_ne_true
  simp only [Db.signed]
  split_ifs
  · exact hsteady
  · exact hm
  · exact hweak
  · exact hsteady

/-- An image is signed as steady where its data are durable, or where it was signed before. -/
theorem signed_steady (h : (s.signed f m).metaIsSteady = true) :
    s.unsynced = 0 ∨ m.metaIsSteady = true ∨ s.syncsData f = true := by
  by_cases hzero : s.unsynced = 0
  · exact .inl hzero
  · rw [Db.signed, if_neg hzero] at h
    by_cases hskip : s.skipsSign f = true
    · rw [if_pos hskip] at h
      exact .inr (.inl h)
    · rw [if_neg hskip] at h
      by_cases hunsync : f.unsync = true
      · rw [if_pos hunsync, Meta.metaIsSteady_weak] at h
        exact absurd h Bool.false_ne_true
      · refine .inr (.inr ?_)
        simp [Db.syncsData, hzero, hskip, hunsync]

/-! What a sync records. -/

theorem sealed_recorded (s : Db) (f : Flags) (p : Pending) (m : Meta) :
    s.sealed ⊆ (s.recorded f p m).sealed := by
  intro r hr
  simp only [Db.recorded]
  split_ifs
  · exact List.mem_cons_of_mem _ hr
  · exact hr

theorem intact_recorded (s : Db) (f : Flags) (p : Pending) (m : Meta) :
    s.intact ⊆ (s.recorded f p m).intact := by
  intro r hr
  simp only [Db.recorded]
  split_ifs
  · exact List.mem_cons_of_mem _ hr
  · exact hr

theorem lineage_recorded (s : Db) (f : Flags) (p : Pending) (m : Meta) :
    s.lineage ⊆ (s.recorded f p m).lineage := by
  intro r hr
  simp only [Db.recorded]
  split_ifs
  · exact List.mem_cons_of_mem _ hr
  · exact hr

theorem mem_intact_recorded (h : s.headMeta.root ∈ s.intact) :
    m.root ∈ (s.recorded f p m).intact := by
  simp [Db.recorded, h]

theorem mem_sealed_recorded (hi : s.headMeta.root ∈ s.intact)
    (h : s.syncsData f = true ∨ (s.headMeta.root ∈ s.sealed ∧ s.fresh = false)) :
    m.root ∈ (s.recorded f p m).sealed := by
  rcases h with h | ⟨h, hfresh⟩
  · simp [Db.recorded, hi, h]
  · simp [Db.recorded, h, hfresh]

theorem head_recorded (hp : Proposes s p m) (h : s.lineage.head? = some s.headMeta.root) :
    (s.recorded f p m).lineage.head? = some m.root := by
  by_cases hcommit : p.isCommit = true
  · simp [Db.recorded, hcommit]
  · rw [hp.root, if_neg hcommit]
    simpa [Db.recorded, hcommit] using h

theorem history_recorded (hs : s.Sound) (h : s.phase = .opened) (hp : Proposes s p m) :
    (s.recorded f p m).History := by
  have hheads := hs.heads h
  have hroot : m.root ∈ (s.recorded f p m).lineage :=
    List.mem_of_mem_head? (head_recorded hp hheads.line)
  constructor
  · exact hs.history.bootid
  · by_cases hcommit : p.isCommit = true
    · simp only [Db.recorded, hcommit, if_true, hp.root]
      exact List.pairwise_cons.mpr ⟨hs.history.numbered, hs.history.line⟩
    · simpa [Db.recorded, hcommit] using hs.history.line
  · by_cases hcommit : p.isCommit = true
    · simp only [Db.recorded, hcommit, if_true, hp.root]
      intro r hr
      rcases List.mem_cons.mp hr with rfl | hr
      · exact Nat.lt_succ_self _
      · exact (hs.history.numbered r hr).trans (Nat.lt_succ_self _)
    · simpa [Db.recorded, hcommit] using hs.history.numbered
  · intro r hr
    exact lineage_recorded s f p m (hs.history.acked r hr)
  · intro r hr
    simp only [Db.recorded] at hr
    split_ifs at hr
    · rcases List.mem_cons.mp hr with rfl | hr
      · exact mem_intact_recorded hheads.intact
      · exact intact_recorded s f p m (hs.history.sealed hr)
    · exact intact_recorded s f p m (hs.history.sealed hr)

/-! The state after step 1, before the first store. -/

section Synced

variable {t : Db}

@[simp] theorem synced_cache : (t.synced f).cache = t.cache := by
  simp only [Db.synced]; split <;> rfl
@[simp] theorem synced_phase : (t.synced f).phase = t.phase := by
  simp only [Db.synced]; split <;> rfl
@[simp] theorem synced_bootid : (t.synced f).bootid = t.bootid := by
  simp only [Db.synced]; split <;> rfl
@[simp] theorem synced_boots : (t.synced f).boots = t.boots := by
  simp only [Db.synced]; split <;> rfl
@[simp] theorem synced_fresh : (t.synced f).fresh = t.fresh := by
  simp only [Db.synced]; split <;> rfl
@[simp] theorem synced_nextRoot : (t.synced f).nextRoot = t.nextRoot := by
  simp only [Db.synced]; split <;> rfl
@[simp] theorem synced_lineage : (t.synced f).lineage = t.lineage := by
  simp only [Db.synced]; split <;> rfl
@[simp] theorem synced_sealed : (t.synced f).sealed = t.sealed := by
  simp only [Db.synced]; split <;> rfl
@[simp] theorem synced_intact : (t.synced f).intact = t.intact := by
  simp only [Db.synced]; split <;> rfl
@[simp] theorem synced_acked : (t.synced f).acked = t.acked := by
  simp only [Db.synced]; split <;> rfl
@[simp] theorem synced_reused : (t.synced f).reused = t.reused := by
  simp only [Db.synced]; split <;> rfl

theorem leaves_synced (hs : s.Sound) : Leaves s ((s.recorded f p m).synced f).disk := by
  simp only [Db.synced]
  split
  · exact leaves_fsync hs
  · exact ⟨hs.kept, fun i => List.Subset.refl _, fun i => id⟩

/-- Where nothing is left unsynced, the data of the new head are durable. -/
theorem durable_of_synced (hs : s.Sound) (h : s.phase = .opened)
    (hzero : ((s.recorded f p m).synced f).unsynced = 0) :
    s.syncsData f = true ∨ (s.headMeta.root ∈ s.sealed ∧ s.fresh = false) := by
  by_cases hsync : s.syncsData f = true
  · exact .inl hsync
  · have hsync' : (s.recorded f p m).syncsData f = false := Bool.eq_false_iff.mpr hsync
    rw [Db.synced, hsync'] at hzero
    exact .inr ((hs.heads h).synced hzero)

theorem fresh_of_durable
    (h : s.syncsData f = true ∨ (s.headMeta.root ∈ s.sealed ∧ s.fresh = false)) :
    (s.recorded f p m).fresh = false := by
  rcases h with h | ⟨-, h⟩ <;> simp [Db.recorded, h]

theorem images_synced (hs : s.Sound) (h : s.phase = .opened) :
    Images ((s.recorded f p m).synced f) ((s.recorded f p m).synced f).disk := by
  have hsub := (leaves_synced (f := f) (p := p) (m := m) hs).sub
  have hold := hs.images
  rw [images_opened h] at hold
  refine (hold.mono hsub).grow ?_ ?_ ?_ ?_ ?_
  · exact synced_bootid
  · exact synced_boots
  · rw [synced_sealed]
    exact sealed_recorded s f p m
  · rw [synced_lineage]
    exact lineage_recorded s f p m
  · rw [synced_intact]
    exact intact_recorded s f p m

theorem history_synced (hs : s.Sound) (h : s.phase = .opened) (hp : Proposes s p m) :
    ((s.recorded f p m).synced f).History := by
  have hrec := history_recorded (f := f) hs h hp
  constructor
  · simpa using hrec.bootid
  · simpa using hrec.line
  · simpa using hrec.numbered
  · simpa using hrec.acked
  · simpa using hrec.sealed

theorem image_signed (hs : s.Sound) (h : s.phase = .opened) (hp : Proposes s p m) :
    Image ((s.recorded f p m).synced f) (s.signed f m) := by
  have hheads := hs.heads h
  have hhead := hs.images.each _ _ (hs.cached s.head.no)
  have hid : (s.signed f m).txnid ≠ 0 := by
    have hne := hheads.txnid
    have hle := hp.le
    rw [signed_txnid]
    omega
  constructor
  · exact signed_formed hp.formed
  · rw [synced_boots, signed_bootid]
    exact hp.boots
  · intro hsteady
    rw [Meta.isSteady_eq hid] at hsteady
    rw [synced_sealed, signed_root]
    rcases signed_steady hsteady with hzero | hsign | hsync
    · exact mem_sealed_recorded hheads.intact (.inr (hheads.synced hzero))
    · obtain ⟨hheadSign, hcommit⟩ := hp.sign hsign
      have hroot : m.root = s.headMeta.root := by
        rw [hp.root, hcommit]
        rfl
      have hsealed : s.headMeta.root ∈ s.sealed :=
        hhead.sealed ((Meta.isSteady_eq hheads.txnid).trans hheadSign)
      rw [hroot]
      exact sealed_recorded s f p m hsealed
    · exact mem_sealed_recorded hheads.intact (.inl hsync)
  · intro _
    rw [synced_lineage, signed_root]
    exact List.mem_of_mem_head? (head_recorded hp hheads.line)
  · intro _ _
    rw [synced_intact, signed_root]
    exact mem_intact_recorded hheads.intact

theorem image_weak (hm : Image t m) (hid : m.txnid ≠ 0) : Image t (m.setSign datasignWeak) where
  formed := hm.formed.setSign fun h => absurd h Bool.false_ne_true
  boots := hm.boots
  sealed hsteady := by
    rw [Meta.isSteady_eq (m := m.setSign datasignWeak) hid, Meta.metaIsSteady_weak] at hsteady
    exact absurd hsteady Bool.false_ne_true
  known := hm.known
  booted := hm.booted

/-- The images that the write goes through say no more than the old one and the new one. -/
theorem image_metaUpdate {w : Bool} {target pending x : Meta} (ht : Image t target)
    (hp : Image t pending) (hid : pending.txnid ≠ 0) (hx : x ∈ metaUpdate w target pending) :
    Image t x ∧ (x.txnid ≠ 0 → x.txnid = pending.txnid ∧ x.root = pending.root) := by
  have hw := Meta.words_eq hid
  have hA : pending.words.txnidA ≠ 0 := by
    simpa only [Meta.txnid, constmetaTxnid, hw, if_true] using hid
  -- Up to the last store the ids differ, or both are zero.
  have htorn (y : Meta) (hy : y.txnid = 0)
    (hsign : y.words.sign = target.words.sign ∨ y.words.sign = datasignWeak)
      (hfirst : y.firstUnallocated = target.firstUnallocated ∨
        y.firstUnallocated = pending.firstUnallocated)
      (hboot : y.bootid = target.bootid ∨ y.bootid = pending.bootid) :
      Image t y ∧ (y.txnid ≠ 0 → y.txnid = pending.txnid ∧ y.root = pending.root) := by
    refine ⟨⟨⟨?_, by rw [hy]; exact Nat.zero_le _, ?_⟩, ?_, ?_, ?_, ?_⟩, fun h => absurd hy h⟩
    · intro hsteady
      rcases hsign with hsign | hsign
      · rw [hsign]
        exact ht.formed.sign (by rwa [Meta.metaIsSteady, hsign] at hsteady)
      · rw [Meta.metaIsSteady, hsign] at hsteady
        exact absurd hsteady Bool.false_ne_true
    · rcases hfirst with hfirst | hfirst
      · exact hfirst ▸ ht.formed.first
      · exact hfirst ▸ hp.formed.first
    · rcases hboot with hboot | hboot
      · exact hboot ▸ ht.boots
      · exact hboot ▸ hp.boots
    · exact fun h => absurd hy (Meta.txnid_of_isSteady h)
    · exact fun h => absurd hy h
    · exact fun h => absurd hy h
  cases w with
  | false => exact absurd hx List.not_mem_nil
  | true =>
    simp only [metaUpdate, if_true, List.mem_cons, List.not_mem_nil, or_false] at hx
    rcases hx with rfl | rfl | rfl | rfl | rfl | rfl
    · exact htorn _ (by simp [Meta.txnid, constmetaTxnid]) (.inl rfl) (.inl rfl) (.inl rfl)
    · exact htorn _ (by simp [Meta.txnid, constmetaTxnid, hA]) (.inl rfl) (.inl rfl) (.inl rfl)
    · exact htorn _ (by simp [Meta.txnid, constmetaTxnid, Meta.setSign, hA]) (.inr rfl) (.inl rfl)
        (.inl rfl)
    · exact htorn _ (by simp [Meta.txnid, constmetaTxnid, Meta.setSign, hA]) (.inr rfl) (.inr rfl)
        (.inl rfl)
    · exact htorn _ (by simp [Meta.txnid, constmetaTxnid, Meta.setSign, hA]) (.inr rfl) (.inr rfl)
        (.inr rfl)
    · exact ⟨image_weak hp hid, fun _ => ⟨rfl, rfl⟩⟩

/-- The write begins at a page that is not the one to fall back on. -/
theorem sound_writing (hs : s.Sound) (h : s.phase = .opened) (hp : Proposes s p m)
    {target : MetaNo} (todo : List Meta) (hstill : s.steady.no ≠ target)
    (htop : Tops s.disk target m.txnid m.root)
    (htodo : ∀ x ∈ todo, Image ((s.recorded f p m).synced f) x ∧
      (x.txnid ≠ 0 → x.txnid = m.txnid ∧ x.root = m.root)) :
    Db.Sound { (s.recorded f p m).synced f with
      phase := .writing target todo (s.signed f m) f.nometasync f.writemap } := by
  have hheads := hs.heads h
  have hleaves := leaves_synced (f := f) (p := p) (m := m) hs
  have hcache : ((s.recorded f p m).synced f).cache = s.cache := synced_cache
  have hnew (x : Meta) (hx : x ∈ todo ++ [s.signed f m]) : Image ((s.recorded f p m).synced f) x ∧
      (x.txnid ≠ 0 → x.txnid = m.txnid ∧ x.root = m.root) := by
    rcases List.mem_append.mp hx with hx | hx
    · exact htodo x hx
    · rw [List.mem_singleton.mp hx]
      exact ⟨image_signed hs h hp, fun _ => ⟨signed_txnid, signed_root⟩⟩
  have hid : m.txnid ≠ 0 := by
    have hne := hheads.txnid
    have hle := hp.le
    omega
  have himages := (images_synced (f := f) (p := p) (m := m) hs h).extend (todo ++ [s.signed f m])
    (fun j x hx => htop j x (hleaves.sub j hx)) (fun x hx => (hnew x hx).1)
      (fun x hx => (hnew x hx).2)
  set t := (s.recorded f p m).synced f with ht
  set t' := { t with phase := .writing target todo (s.signed f m) f.nometasync f.writemap } with ht'
  have heq :
      t'.images = Function.update t.disk target (todo ++ [s.signed f m] ++ t.disk target) := by
    funext i
    by_cases hi : i = target
    · subst hi
      simp [Db.images, ht']
    · simp [Db.images, ht', hi]
  have htarget (i : MetaNo) (hi : t'.phase.target ≠ some i) : s.phase.target ≠ some i := by
    rw [target_opened h]
    simp
  have hhist := history_synced (f := f) hs h hp
  refine ⟨?_, ?_, ?_, ?_, ?_, ⟨s.steady.no, ?_⟩, ?_, ?_, ?_, ?_, ?_⟩
  · rw [heq]
    exact himages.grow rfl rfl (List.Subset.refl _) (List.Subset.refl _) (List.Subset.refl _)
  · exact ⟨hhist.bootid, hhist.line, hhist.numbered, hhist.acked, hhist.sealed⟩
  · intro i
    show t.cache i ∈ t.disk i
    rw [hcache]
    exact hleaves.kept i
  · intro i hi hsteady
    show t.disk i = [t.cache i]
    rw [hcache]
    exact hleaves.one i (hs.flushed i (htarget i hi) (hcache ▸ hsteady))
  · intro i hi x hx
    show x.txnid ≤ (t.cache i).txnid
    rw [hcache]
    exact hs.settled i (htarget i hi) x (hleaves.sub i hx)
  · have hanchor := hs.anchor_steady (target_opened h)
    refine ⟨?_, ?_, ?_, ?_⟩
    · exact fun heq => hstill (Option.some.inj heq).symm
    · exact hcache.symm ▸ hanchor.steady
    · show t.reused ≤ (t.cache s.steady.no).txnid
      rw [hcache, ht, synced_reused]
      exact hanchor.reused
    · show ∀ r ∈ t.acked, r ≤ (t.cache s.steady.no).root
      rw [hcache, ht, synced_acked]
      exact hanchor.acked
  · rw [signed_txnid]
    exact hid
  · intro i x hx
    rw [heq] at hx
    rw [signed_txnid]
    by_cases hzero : x.txnid = 0
    · omega
    · by_cases hi : i = target
      · subst hi
        rw [Function.update_self] at hx
        rcases List.mem_append.mp hx with hx | hx
        · exact ((hnew x hx).2 hzero).1.le
        · rcases htop _ x (hleaves.sub _ hx) hzero with hlt | heq <;> omega
      · rw [Function.update_of_ne hi] at hx
        rcases htop _ x (hleaves.sub _ hx) hzero with hlt | heq <;> omega
  · show t.lineage.head? = some (s.signed f m).root
    rw [ht, synced_lineage, signed_root]
    exact head_recorded hp hheads.line
  · show (s.signed f m).root ∈ t.intact
    rw [ht, synced_intact, signed_root]
    exact mem_intact_recorded hheads.intact
  · intro hzero
    have hdurable := durable_of_synced (f := f) (p := p) (m := m) hs h hzero
    show (s.signed f m).root ∈ t.sealed ∧ t.fresh = false
    rw [ht, synced_sealed, synced_fresh, signed_root]
    exact ⟨mem_sealed_recorded hheads.intact hdurable, fresh_of_durable hdurable⟩

/-- A sync that leaves the head as it is. -/
theorem sound_synced (hs : s.Sound) (h : s.phase = .opened) (hp : Proposes s p m)
    (hm : m = s.headMeta) : ((s.recorded f p m).synced f).Sound := by
  have hheads := hs.heads h
  have hleaves := leaves_synced (f := f) (p := p) (m := m) hs
  have hcache : ((s.recorded f p m).synced f).cache = s.cache := synced_cache
  have hopen : ((s.recorded f p m).synced f).phase = .opened := synced_phase.trans h
  have hmeta : ((s.recorded f p m).synced f).headMeta = s.headMeta := headMeta_congr hcache
  have hanchor := hs.anchor_steady (target_opened h)
  have htarget (i : MetaNo) : s.phase.target ≠ some i := by simp [target_opened h]
  refine ⟨?_, history_synced hs h hp, ?_, ?_, ?_, ⟨s.steady.no, ?_⟩, stands_opened hopen ?_⟩
  · rw [images_opened hopen]
    exact images_synced hs h
  · intro i
    rw [hcache]
    exact hleaves.kept i
  · intro i _ hsteady
    rw [hcache] at hsteady ⊢
    exact hleaves.one i (hs.flushed i (htarget i) hsteady)
  · intro i _ x hx
    rw [hcache]
    exact hs.settled i (htarget i) x (hleaves.sub i hx)
  · refine ⟨?_, ?_, ?_, ?_⟩
    · rw [target_opened hopen]
      simp
    · rw [hcache]
      exact hanchor.steady
    · rw [hcache, synced_reused]
      exact hanchor.reused
    · rw [hcache, synced_acked]
      exact hanchor.acked
  · rw [hmeta, ← hm]
    refine ⟨hm ▸ hheads.txnid, ?_, ?_, ?_, ?_⟩
    · intro i x hx
      rw [images_opened hopen] at hx
      have hle := hheads.greatest i x (by rw [images_opened h]; exact hleaves.sub i hx)
      rwa [hm]
    · rw [synced_lineage]
      exact head_recorded hp hheads.line
    · rw [synced_intact]
      exact mem_intact_recorded hheads.intact
    · intro hzero
      have hdurable := durable_of_synced hs h hzero
      rw [synced_sealed, synced_fresh]
      exact ⟨mem_sealed_recorded hheads.intact hdurable, fresh_of_durable hdurable⟩

theorem sound_sync (hs : s.Sound) (h : s.phase = .opened) (hm : s.pending p = some m) :
    (s.dxbSyncLocked f p m).Sound := by
  have hp := proposes hs hm
  have hheads := hs.heads h
  have htops := hs.tops_head hheads.greatest
  rw [images_opened h] at htops
  by_cases heq : s.head.txnid = (s.signed f m).txnid
  · have hid : m.txnid = s.headMeta.txnid := by
      rw [signed_txnid, head_txnid] at heq
      exact heq.symm
    obtain ⟨hmeta, -⟩ := hp.same hid
    by_cases hinplace : (!s.head.isSteady && (s.signed f m).metaIsSteady) = true
    · have hweak : s.headMeta.isSteady = false := by
        simp only [Bool.and_eq_true, Bool.not_eq_true', head_isSteady] at hinplace
        exact hinplace.1
      have hne := hs.steady_ne_head (target_opened h) hweak
      have hsound := sound_writing (f := f) hs h hp [] hne (by rwa [hmeta])
        fun x hx => absurd hx List.not_mem_nil
      simpa only [Db.dxbSyncLocked, if_pos heq, if_pos hinplace] using hsound
    · have hsound := sound_synced (f := f) hs h hp hmeta
      simp only [Db.dxbSyncLocked, if_pos heq, if_neg hinplace]
      by_cases hsteady : s.head.isSteady = true
      · rw [if_pos hsteady]
        have hkeep : ((s.recorded f p m).synced f).headMeta = s.headMeta :=
          headMeta_congr synced_cache
        rw [head_isSteady, ← hkeep] at hsteady
        rw [← hkeep]
        exact sound_ack hsound (synced_phase.trans h) hsteady
      · rw [if_neg hsteady]
        exact hsound
  · have hlt : s.headMeta.txnid < m.txnid := by
      have hle := hp.le
      rw [signed_txnid, head_txnid] at heq
      omega
    have hne : s.steady.no ≠ (metaTap s.snap).metaTail.no := by
      have htail := low_ne_top s.snap
      rw [Db.steady, metaPreferSteady_metaTap, metaTail_metaTap]
      exact htail.symm
    have hroot : s.headMeta.root ≤ m.root := by
      rw [hp.root]
      split
      · exact (hs.history.numbered _ (List.mem_of_mem_head? hheads.line)).le
      · exact le_refl _
    have hid : (s.signed f m).txnid ≠ 0 := by
      rw [signed_txnid]
      omega
    have hsound := sound_writing (f := f) hs h hp
      (metaUpdate f.writemap (s.cache (metaTap s.snap).metaTail.no) (s.signed f m)) hne
      (fun j x hx hx0 => by rcases htops j x hx hx0 with hlt | heq <;> exact .inl (by omega))
      fun x hx => by
        have htarget := (images_synced (f := f) (p := p) (m := m) hs h).each _ _
          ((leaves_synced hs).kept (metaTap s.snap).metaTail.no)
        have himage := image_metaUpdate htarget (image_signed hs h hp) hid hx
        rwa [signed_txnid, signed_root] at himage
    simpa only [Db.dxbSyncLocked, if_neg heq] using hsound

end Synced

end Sync

/-! ### The write and its flush -/

section Write

variable {s : Db} {target : MetaNo} {todo : List Meta} {pending m : Meta} {n w : Bool}

theorem put_cache_of_ne {i : MetaNo} (hi : i ≠ target) : (s.put target m).cache i = s.cache i :=
  Function.update_of_ne hi _ _

theorem put_disk_of_ne {i : MetaNo} (hi : i ≠ target) : (s.put target m).disk i = s.disk i :=
  Function.update_of_ne hi _ _

/-- A store to a page that is not the anchor. -/
theorem Db.Sound.puts (hs : s.Sound) {ph : Phase} (hph : ph.target = some target)
    (hpre : ∀ i, i ≠ target → s.phase.target ≠ some i) (hanchor : ∃ p, p ≠ target ∧ s.Anchor p)
    (himages : Images s (Db.images { s.put target m with phase := ph }))
    (hstands : Db.Stands { s.put target m with phase := ph }) :
    Db.Sound { s.put target m with phase := ph } := by
  have hother (i : MetaNo) (hi : ph.target ≠ some i) : i ≠ target ∧ s.phase.target ≠ some i := by
    rw [hph] at hi
    have hne : i ≠ target := fun heq => hi (by rw [heq])
    exact ⟨hne, hpre i hne⟩
  refine ⟨?_, ?_, ?_, ?_, ?_, ?_, hstands⟩
  · exact himages.grow rfl rfl (List.Subset.refl _) (List.Subset.refl _) (List.Subset.refl _)
  · exact ⟨hs.history.bootid, hs.history.line, hs.history.numbered, hs.history.acked,
      hs.history.sealed⟩
  · intro i
    show (s.put target m).cache i ∈ (s.put target m).disk i
    by_cases hi : i = target
    · subst hi
      simp [Db.put]
    · rw [put_cache_of_ne hi, put_disk_of_ne hi]
      exact hs.kept i
  · intro i hi hsteady
    show (s.put target m).disk i = [(s.put target m).cache i]
    obtain ⟨hne, hi⟩ := hother i hi
    rw [put_cache_of_ne hne, put_disk_of_ne hne]
    refine hs.flushed i hi ?_
    rw [← put_cache_of_ne hne (m := m)]
    exact hsteady
  · intro i hi x hx
    show x.txnid ≤ ((s.put target m).cache i).txnid
    obtain ⟨hne, hi⟩ := hother i hi
    rw [put_cache_of_ne hne]
    refine hs.settled i hi x ?_
    rw [← put_disk_of_ne hne (m := m)]
    exact hx
  · obtain ⟨p, hne, hp⟩ := hanchor
    have hcache : (s.put target m).cache p = s.cache p := put_cache_of_ne hne
    refine ⟨p, ?_, ?_, ?_, ?_⟩
    · show ph.target ≠ some p
      rw [hph]
      exact fun heq => hne (Option.some.inj heq).symm
    · show ((s.put target m).cache p).isSteady = true
      rw [hcache]
      exact hp.steady
    · show s.reused ≤ ((s.put target m).cache p).txnid
      rw [hcache]
      exact hp.reused
    · show ∀ r ∈ s.acked, r ≤ ((s.put target m).cache p).root
      rw [hcache]
      exact hp.acked

theorem images_writing (h : s.phase = .writing target todo pending n w) (i : MetaNo) :
    s.images i = if i = target then (todo ++ [pending]) ++ s.disk i else s.disk i := by
  simp only [Db.images, h]

theorem writing_other (h : s.phase = .writing target todo pending n w) (i : MetaNo)
    (hi : i ≠ target) :
    s.phase.target ≠ some i := by
  rw [h]
  exact fun heq => hi (Option.some.inj heq).symm

theorem writing_anchor (hs : s.Sound) (h : s.phase = .writing target todo pending n w) :
    ∃ p, p ≠ target ∧ s.Anchor p := by
  obtain ⟨p, hp⟩ := hs.anchored
  exact ⟨p, fun heq => hp.still (by rw [h, heq]; rfl), hp⟩

theorem Db.Heads.of_images {s' : Db} (hheads : s.Heads pending)
    (hsub : ∀ i, s'.images i ⊆ s.images i) (hline : s'.lineage = s.lineage)
    (hintact : s'.intact = s.intact) (hunsynced : s'.unsynced = 0 → s.unsynced = 0)
    (hsealed : s'.sealed = s.sealed) (hfresh : s'.fresh = s.fresh) : s'.Heads pending where
  txnid := hheads.txnid
  greatest i m hm := hheads.greatest i m (hsub i hm)
  line := hline ▸ hheads.line
  intact := hintact ▸ hheads.intact
  synced hzero := by
    rw [hsealed, hfresh]
    exact hheads.synced (hunsynced hzero)

theorem sound_store (hs : s.Sound) (h : s.phase = .writing target (m :: todo) pending n w) :
    Db.Sound { s.put target m with phase := .writing target todo pending n w } := by
  have hstands := hs.stands
  rw [Db.Stands, h] at hstands
  have hsub (i : MetaNo) :
      Db.images { s.put target m with phase := .writing target todo pending n w } i ⊆
        s.images i := by
    rw [images_writing (s := { s.put target m with phase := .writing target todo pending n w }) rfl,
      images_writing h]
    by_cases hi : i = target
    · subst hi
      rw [if_pos rfl, if_pos rfl]
      intro x hx
      simp only [Db.put, Function.update_self, List.mem_append, List.mem_cons] at hx ⊢
      tauto
    · rw [if_neg hi, if_neg hi]
      show (s.put target m).disk i ⊆ s.disk i
      rw [put_disk_of_ne hi]
      exact List.Subset.refl _
  refine hs.puts rfl (writing_other h) (writing_anchor hs h) (hs.images.mono hsub) ?_
  exact hstands.of_images hsub rfl rfl id rfl rfl

theorem sound_lastStore (hs : s.Sound) (h : s.phase = .writing target [] pending n w) :
    Db.Sound { s.put target pending with phase := .flushing target pending n w } := by
  have hstands := hs.stands
  rw [Db.Stands, h] at hstands
  have hsub (i : MetaNo) :
      Db.images { s.put target pending with phase := .flushing target pending n w } i ⊆
        s.images i := by
    show (s.put target pending).disk i ⊆ s.images i
    rw [images_writing h]
    by_cases hi : i = target
    · subst hi
      rw [if_pos rfl]
      intro x hx
      simpa [Db.put] using hx
    · rw [if_neg hi, put_disk_of_ne hi]
      exact List.Subset.refl _
  refine hs.puts rfl (writing_other h) (writing_anchor hs h) (hs.images.mono hsub) ?_
  refine ⟨?_, hstands.of_images hsub rfl rfl id rfl rfl⟩
  show (s.put target pending).cache target = pending
  simp [Db.put]

/-- The write has ended: its page is the head, and a steady one cannot change any more. -/
theorem Db.Sound.lands (hs : s.Sound) (h : s.phase = .flushing target pending n w)
    {disk : MetaNo → List Meta} (unsynced : Nat) (hleaves : Leaves s disk)
    (hsteady : pending.isSteady = true → disk target = [s.cache target])
    (hunsynced : unsynced = 0 → s.unsynced = 0) :
    Db.Sound { s with disk := disk, unsynced := unsynced, phase := .opened } ∧
    Db.headMeta { s with disk := disk, unsynced := unsynced, phase := .opened } = pending := by
  have hstands := hs.stands
  rw [Db.Stands, h] at hstands
  obtain ⟨hcache, hheads⟩ := hstands
  have himages : s.images = s.disk := by
    funext i
    simp only [Db.images, h]
  have htarget (i : MetaNo) (hi : i ≠ target) : s.phase.target ≠ some i := by
    rw [h]
    exact fun heq => hi (Option.some.inj heq).symm
  have hmeta : s.headMeta = pending := by
    have hid : (s.cache target).txnid ≠ 0 := hcache ▸ hheads.txnid
    have hle : s.headMeta.txnid ≤ (s.cache target).txnid := by
      rw [hcache]
      exact hheads.greatest _ _ (hs.cached s.head.no)
    rw [Db.headMeta, hs.head_no hid hle, hcache]
  have hmeta' :
      Db.headMeta { s with disk := disk, unsynced := unsynced, phase := .opened } = pending :=
    (headMeta_congr rfl).trans hmeta
  have hsub (i : MetaNo) :
      Db.images { s with disk := disk, unsynced := unsynced, phase := .opened } i ⊆ s.images i := by
    rw [himages]
    exact hleaves.sub i
  refine ⟨⟨?_, ?_, hleaves.kept, ?_, ?_, ?_, stands_opened rfl ?_⟩, hmeta'⟩
  · exact (hs.images.mono hsub).grow rfl rfl (List.Subset.refl _) (List.Subset.refl _)
      (List.Subset.refl _)
  · exact ⟨hs.history.bootid, hs.history.line, hs.history.numbered, hs.history.acked,
      hs.history.sealed⟩
  · intro i _ hsteady'
    by_cases hi : i = target
    · subst hi
      exact hsteady (hcache ▸ hsteady')
    · exact hleaves.one i (hs.flushed i (htarget i hi) hsteady')
  · intro i _ x hx
    by_cases hi : i = target
    · subst hi
      show x.txnid ≤ (s.cache i).txnid
      rw [hcache]
      exact hheads.greatest i x (hsub i hx)
    · exact hs.settled i (htarget i hi) x (hleaves.sub i hx)
  · obtain ⟨p, hp⟩ := hs.anchored
    exact ⟨p, (Option.some_ne_none p).symm, hp.steady, hp.reused, hp.acked⟩
  · rw [hmeta']
    exact hheads.of_images hsub rfl rfl hunsynced rfl rfl

/-- The flush, where it leaves no steady page unflushed. -/
theorem sound_flush (hs : s.Sound) (h : s.phase = .flushing target pending n w) (whole : Bool)
    (hflush : n = true → pending.isSteady = false) :
    (s.metaFlush target pending n w whole).Sound := by
  have hstands := hs.stands
  rw [Db.Stands, h] at hstands
  obtain ⟨hcache, hheads⟩ := hstands
  cases n with
  | true =>
    have hweak := hflush rfl
    refine (hs.lands h _ ⟨hs.kept, fun i => List.Subset.refl _, fun i => id⟩ ?_ ?_).1
    · intro hsteady
      exact absurd (hweak.symm.trans hsteady) Bool.false_ne_true
    · cases w
      · exact fun hzero => absurd hzero (Nat.succ_ne_zero _)
      · exact id
  | false =>
    have hland : Db.Sound { s.flushed whole target with phase := .opened } ∧
        Db.headMeta { s.flushed whole target with phase := .opened } = pending := by
      have hland := hs.lands h s.unsynced (leaves_flushed hs whole target)
        (fun _ => flushed_target s whole target) id
      cases whole <;> exact hland
    obtain ⟨hsound, hmeta⟩ := hland
    simp only [Db.metaFlush, Bool.false_eq_true, if_false]
    by_cases hsteady : pending.metaIsSteady = true
    · rw [if_pos hsteady]
      have hack := sound_ack hsound rfl (by
        rw [hmeta, Meta.isSteady_eq hheads.txnid]
        exact hsteady)
      rwa [hmeta] at hack
    · rw [if_neg hsteady]
      exact hsound

end Write

end Durable

end MdbxGo
