import Mathlib.Data.Fintype.Card
import MdbxGo.Libmdbx.Sync

/-! A crash and the rollback after it, and what holds of every run: the rollback ends on a head
whose data are there, and that head comes from every commit reported as durable. -/

namespace MdbxGo

namespace Durable

/-! ### The rollback -/

section Lineage

variable {l : List Nat} {r h : Nat}

/-- Of commits in order, those up to one of them are left when the later ones are gone. -/
theorem mem_dropWhile_of_le (hl : l.Pairwise (· > ·)) (hr : r ∈ l) (hle : r ≤ h) :
    r ∈ l.dropWhile fun x => h < x := by
  induction l with
  | nil => exact absurd hr List.not_mem_nil
  | cons x l ih =>
    obtain ⟨hx, hl⟩ := List.pairwise_cons.mp hl
    by_cases hlt : h < x
    · rw [List.dropWhile_cons_of_pos (by simpa using hlt)]
      rcases List.mem_cons.mp hr with heq | hr
      · omega
      · exact ih hl hr
    · rw [List.dropWhile_cons_of_neg (by simpa using hlt)]
      exact hr

theorem head?_dropWhile (hl : l.Pairwise (· > ·)) (hh : h ∈ l) :
    (l.dropWhile fun x => h < x).head? = some h := by
  induction l with
  | nil => exact absurd hh List.not_mem_nil
  | cons x l ih =>
    obtain ⟨hx, hl⟩ := List.pairwise_cons.mp hl
    by_cases hlt : h < x
    · rw [List.dropWhile_cons_of_pos (by simpa using hlt)]
      rcases List.mem_cons.mp hh with heq | hh
      · omega
      · exact ih hl hh
    · rw [List.dropWhile_cons_of_neg (by simpa using hlt)]
      rcases List.mem_cons.mp hh with heq | hh
      · rw [heq]
        rfl
      · exact absurd (hx h hh) hlt

end Lineage

section Recovery

variable {s : Db}

theorem images_recovering (h : s.phase = .recovering) : s.images = s.disk := by
  funext i
  simp only [Db.images, h]

theorem target_recovering (h : s.phase = .recovering) : s.phase.target = none := by rw [h]; rfl

theorem Db.Sound.idle (hs : s.Sound) (h : s.phase = .recovering) :
    s.unsynced = 0 ∧ s.fresh = false := by
  have hstands := hs.stands
  rwa [Db.Stands, h] at hstands

theorem Db.Sound.le_headMeta (hs : s.Sound) (h : s.phase = .recovering) (i : MetaNo) (m : Meta)
    (hm : m ∈ s.images i) : m.txnid ≤ s.headMeta.txnid := by
  have hnone : s.phase.target ≠ some i := by simp [target_recovering h]
  rw [images_recovering h] at hm
  exact (hs.settled i hnone m hm).trans (le_head s i)

theorem Db.Sound.head_ne_zero (hs : s.Sound) : s.headMeta.txnid ≠ 0 := by
  obtain ⟨p, hp⟩ := hs.anchored
  have hid := Meta.txnid_of_isSteady hp.steady
  have hle := le_head s p
  omega

/-- The environment is opened on a head whose data are there. -/
theorem sound_opens (hs : s.Sound) (h : s.phase = .recovering) {unsynced : Nat}
    (hintact : s.headMeta.root ∈ s.intact) (hsealed : unsynced = 0 → s.headMeta.root ∈ s.sealed) :
    (s.opens unsynced).Sound := by
  have htops := hs.tops_head (hs.le_headMeta h)
  have hknown := (hs.images.each _ _ (hs.cached s.head.no)).known hs.head_ne_zero
  have himages : (s.opens unsynced).images = s.images := by
    rw [images_recovering h]
    exact images_opened (s := s.opens unsynced) rfl
  have hmeta : (s.opens unsynced).headMeta = s.headMeta := headMeta_congr rfl
  have hsub : (s.opens unsynced).lineage ⊆ s.lineage := (List.dropWhile_sublist _).subset
  have hnone (i : MetaNo) : s.phase.target ≠ some i := by simp [target_recovering h]
  refine ⟨⟨?_, ?_⟩, ⟨hs.history.bootid, ?_, ?_, ?_, hs.history.sealed⟩, hs.kept, ?_, ?_, ?_,
    stands_opened rfl ?_⟩
  · intro i m hm
    rw [himages] at hm
    have hm' := hs.images.each i m hm
    refine ⟨hm'.formed, hm'.boots, hm'.sealed, fun hid => ?_, hm'.booted⟩
    have hle : m.root ≤ s.headMeta.root := by
      rcases htops i m hm hid with ⟨-, hle⟩ | ⟨-, heq, -⟩
      · exact hle
      · exact heq.le
    exact mem_dropWhile_of_le hs.history.line (hm'.known hid) hle
  · rw [himages]
    exact hs.images.fits
  · exact hs.history.line.sublist (List.dropWhile_sublist _)
  · exact fun r hr => hs.history.numbered r (hsub hr)
  · intro r hr
    obtain ⟨p, hp⟩ := hs.anchored
    have hfits := hs.images.fits p s.head.no _ (hs.cached p) _ (hs.cached _)
      (Meta.txnid_of_isSteady hp.steady) (le_head s p)
    exact mem_dropWhile_of_le hs.history.line (hs.history.acked r hr)
      ((hp.acked r hr).trans hfits.1)
  · exact fun i _ hsteady => hs.flushed i (hnone i) hsteady
  · exact fun i _ m hm => hs.settled i (hnone i) m hm
  · obtain ⟨p, hp⟩ := hs.anchored
    exact ⟨p, (Option.some_ne_none p).symm, hp.steady, hp.reused, hp.acked⟩
  · rw [hmeta]
    refine ⟨hs.head_ne_zero, ?_, ?_, hintact, fun hzero => ⟨hsealed hzero, (hs.idle h).2⟩⟩
    · intro i m hm
      rw [himages] at hm
      exact hs.le_headMeta h i m hm
    · exact head?_dropWhile hs.history.line hknown

/-- A page other than the one to fall back on is overwritten with id zero. -/
theorem sound_purge (hs : s.Sound) (h : s.phase = .recovering) (hne : s.steady.no ≠ s.head.no)
    {i : MetaNo} : (s.purge (s.cache i)).Sound := by
  have hid : (purged s.bootid (s.cache i)).txnid = 0 := by
    simp [purged, Meta.signAsSteady]
  have hshape := hs.images.each _ _ (hs.cached i)
  have himage : Image s (purged s.bootid (s.cache i)) := by
    refine ⟨⟨fun _ => rfl, ?_, hshape.formed.first⟩, hs.history.bootid, ?_, ?_, ?_⟩
    · rw [hid]
      exact Nat.zero_le _
    · exact fun hsteady => absurd hid (Meta.txnid_of_isSteady hsteady)
    · exact fun hne => absurd hid hne
    · exact fun hne => absurd hid hne
  refine hs.puts rfl ?_ ⟨_, hne, hs.anchor_steady (target_recovering h)⟩ ?_ ⟨hs.idle h, ?_⟩
  · intro j _
    simp [target_recovering h]
  · have hnew := hs.images.extend [purged s.bootid (s.cache i)]
      (hs.tops_head (hs.le_headMeta h)) (fun m hm => List.mem_singleton.mp hm ▸ himage)
      (fun m hm hne => absurd hid (List.mem_singleton.mp hm ▸ hne))
    rw [images_recovering h] at hnew
    exact hnew
  · show ((s.put s.head.no (purged s.bootid (s.cache i))).cache s.head.no).txnid = 0
    simp [Db.put, hid]

theorem sound_overridden (hs : s.Sound) {target : MetaNo} (h : s.phase = .overriding target)
    (whole : Bool) : Db.Sound { s.flushed whole target with phase := .recovering } := by
  have hstands := hs.stands
  rw [Db.Stands, h] at hstands
  obtain ⟨hidle, hid⟩ := hstands
  have hleaves := leaves_flushed hs whole target
  have hcache : (s.flushed whole target).cache = s.cache := by cases whole <;> rfl
  have hsame : Db.Sound { s with disk := (s.flushed whole target).disk, phase := .recovering } := by
    have himages : s.images = s.disk := by
      funext i
      simp only [Db.images, h]
    have htarget (i : MetaNo) (hi : i ≠ target) : s.phase.target ≠ some i := by
      rw [h]
      exact fun heq => hi (Option.some.inj heq).symm
    have himages' := hs.images
    rw [himages] at himages'
    refine ⟨?_, ?_, hleaves.kept, ?_, ?_, ?_, hidle⟩
    · exact (himages'.mono hleaves.sub).grow rfl rfl (List.Subset.refl _) (List.Subset.refl _)
        (List.Subset.refl _)
    · exact ⟨hs.history.bootid, hs.history.line, hs.history.numbered, hs.history.acked,
        hs.history.sealed⟩
    · intro i _ hsteady
      by_cases hi : i = target
      · subst hi
        exact absurd hid (Meta.txnid_of_isSteady hsteady)
      · exact hleaves.one i (hs.flushed i (htarget i hi) hsteady)
    · intro i _ m hm
      by_cases hi : i = target
      · subst hi
        rw [flushed_target] at hm
        rw [List.mem_singleton.mp hm]
      · exact hs.settled i (htarget i hi) m (hleaves.sub i hm)
    · obtain ⟨p, hp⟩ := hs.anchored
      exact ⟨p, (Option.some_ne_none p).symm, hp.steady, hp.reused, hp.acked⟩
  cases whole <;> exact hsame

/-- With an anchor, a round of the loop takes one of three ways, and none is an error. -/
theorem rollback_eq (hs : s.Sound) (h : s.phase = .recovering) :
    s.rollback =
      if s.steady.no = s.head.no then s.opens s.unsynced
      else if s.headMeta.bootidMatch s.bootid then s.opens s.headMeta.firstUnallocated
      else s.purge s.headMeta := by
  have hanchor := hs.anchor_steady (target_recovering h)
  have hsteady : s.steady.isSteady = true := (steady_isSteady s).trans hanchor.steady
  have hclash : (metaTap s.snap).metaEqMask = 0 := by
    rw [metaEqMask_eq_zero_iff]
    intro i j hij hsnap
    by_contra hid
    have htxnid (k : MetaNo) : (s.snap k).txnid = (s.cache k).txnid := metaSnap_txnid _
    have heq : (s.cache i).txnid = (s.cache j).txnid := by rw [← htxnid, ← htxnid, hsnap]
    have hfits := hs.images.fits i j _ (hs.cached i) _ (hs.cached j) (by rwa [← htxnid]) heq.le
    exact hij (hfits.2 heq)
  have hvalid : metaValidate (s.cache s.steady.no) = true :=
    (hs.images.each _ _ (hs.cached _)).formed.valid (Meta.txnid_of_isSteady hanchor.steady)
  have hlast : metaValidate s.headMeta = true :=
    (hs.images.each _ _ (hs.cached _)).formed.valid hs.head_ne_zero
  simp [Db.rollback, hclash, hsteady, hvalid, hlast]

theorem sound_rollback (hs : s.Sound) (h : s.phase = .recovering) : s.rollback.Sound := by
  have hanchor := hs.anchor_steady (target_recovering h)
  have hhead := hs.images.each _ _ (hs.cached s.head.no)
  rw [rollback_eq hs h]
  split
  · rename_i hsame
    have hsealed : s.headMeta.root ∈ s.sealed := by
      rw [Db.headMeta, ← hsame]
      exact (hs.images.each _ _ (hs.cached _)).sealed hanchor.steady
    exact sound_opens hs h (hs.history.sealed hsealed) fun _ => hsealed
  · rename_i hne
    split
    · rename_i hboot
      refine sound_opens hs h (hhead.booted hs.head_ne_zero hboot) fun hzero => ?_
      have hfirst := hhead.formed.first
      rw [← Db.headMeta, hzero, minPageno] at hfirst
      omega
    · exact sound_purge hs h hne

theorem sound_kill (hs : s.Sound) (h : s.phase = .opened ∨ s.phase = .recovering) :
    Db.Sound { s with phase := .recovering, unsynced := 0, fresh := false } := by
  have himages : s.images = s.disk := h.elim images_opened images_recovering
  have hnone (i : MetaNo) : s.phase.target ≠ some i := by
    rcases h with h | h <;> simp [h, Phase.target]
  have himages' := hs.images
  rw [himages] at himages'
  refine ⟨?_, ?_, hs.kept, fun i _ => hs.flushed i (hnone i), fun i _ => hs.settled i (hnone i), ?_,
    ⟨rfl, rfl⟩⟩
  · exact himages'.grow rfl rfl (List.Subset.refl _) (List.Subset.refl _) (List.Subset.refl _)
  · exact ⟨hs.history.bootid, hs.history.line, hs.history.numbered, hs.history.acked,
      hs.history.sealed⟩
  · obtain ⟨p, hp⟩ := hs.anchored
    exact ⟨p, (Option.some_ne_none p).symm, hp.steady, hp.reused, hp.acked⟩

/-- Whatever a crash leaves, the anchor is what it was. -/
theorem sound_crash (hs : s.Sound) {left : MetaNo → Meta} {bootid : Nat}
    (hleft : ∀ i, left i ∈ s.disk i) (hboot : bootid = 0 ∨ s.boots < bootid) :
    (s.crashed left bootid).Sound := by
  have hsub (i : MetaNo) (m : Meta) (hm : m ∈ [left i]) : m ∈ s.images i := by
    rw [List.mem_singleton.mp hm]
    exact disk_subset_images s i (hleft i)
  refine ⟨⟨?_, ?_⟩,
    ⟨?_, hs.history.line, hs.history.numbered, hs.history.acked, ?_⟩, ?_, ?_, ?_, ?_,
    ⟨rfl, rfl⟩⟩
  · intro i m hm
    have hm := hs.images.each i m (hsub i m hm)
    refine ⟨hm.formed, hm.boots.trans (le_max_left _ _), hm.sealed, hm.known, fun _ hmatch => ?_⟩
    -- No image is of the boot that begins.
    have hboots := hm.boots
    simp only [Meta.bootidMatch, Db.crashed, Bool.and_eq_true, beq_iff_eq, bne_iff_ne] at hmatch
    omega
  · exact fun i j m hm m' hm' => hs.images.fits i j m (hsub i m hm) m' (hsub j m' hm')
  · exact le_max_right _ _
  · intro r hr
    have hr' : r ∈ s.sealed := hr
    exact List.mem_filter.mpr ⟨hs.history.sealed hr', by simpa using hr'⟩
  · exact fun i => List.mem_singleton_self _
  · exact fun i _ _ => rfl
  · intro i _ m hm
    rw [List.mem_singleton.mp hm]
    exact le_refl _
  · obtain ⟨p, hp⟩ := hs.anchored
    have hkeep : left p = s.cache p := by
      have hmem := hleft p
      rw [hs.flushed p hp.still hp.steady] at hmem
      exact List.mem_singleton.mp hmem
    refine ⟨p, (Option.some_ne_none p).symm, ?_, ?_, ?_⟩
    · show (left p).isSteady = true
      rw [hkeep]
      exact hp.steady
    · show s.reused ≤ (left p).txnid
      rw [hkeep]
      exact hp.reused
    · show ∀ r ∈ s.acked, r ≤ (left p).root
      rw [hkeep]
      exact hp.acked

end Recovery

/-! ### Runs -/

section Runs

variable {s s' : Db} {e : Event}

/-- The step leaves no steady page unflushed. -/
def Db.Flushes (s : Db) (e : Event) : Prop :=
  match s.phase, e with
  | .flushing _ pending nometasync _, .flush _ => nometasync = true → pending.isSteady = false
  | _, _ => True

instance (s : Db) (e : Event) : Decidable (s.Flushes e) := by
  unfold Db.Flushes
  split <;> infer_instance

theorem created_sound (h : Created s) : s.Sound := by
  obtain ⟨hcache, hdisk, hunsynced, hphase, hboots, hfresh, hnext, hline, hsealed, hintact, hacked,
    hreused⟩ := h
  have hid (i : MetaNo) : (s.cache i).txnid = minTxnid + i.val := by
    rw [hcache]
    simp [Meta.txnid, constmetaTxnid]
  have hne (i : MetaNo) : (s.cache i).txnid ≠ 0 := by
    rw [hid, minTxnid]
    omega
  have hroot (i : MetaNo) : (s.cache i).root = 0 := by rw [hcache]
  have hsteady (i : MetaNo) : (s.cache i).isSteady = true := by
    rw [Meta.isSteady_eq (hne i), hcache]
    rfl
  have hone (i : MetaNo) (m : Meta) (hm : m ∈ s.images i) : m = s.cache i := by
    rw [images_opened hphase, hdisk] at hm
    exact List.mem_singleton.mp hm
  refine ⟨⟨?_, ?_⟩, ⟨hboots.symm.le, ?_, ?_, ?_, ?_⟩, ?_, fun i _ _ => hdisk i, ?_,
    ⟨0, ?_, hsteady 0, ?_, ?_⟩,
    stands_opened hphase ⟨hne _, ?_, ?_, ?_, ?_⟩⟩
  · intro i m hm
    rw [hone i m hm]
    refine ⟨⟨?_, ?_, ?_⟩, ?_, ?_, ?_, ?_⟩
    · rw [hcache]
      exact fun _ => rfl
    · rw [hid, minTxnid, lastTxnid]
      omega
    · rw [hcache]
    · rw [hcache, hboots]
    · rw [hroot, hsealed]
      exact fun _ => List.mem_singleton_self 0
    · rw [hroot, hline]
      exact fun _ => List.mem_singleton_self 0
    · rw [hroot, hintact]
      exact fun _ _ => List.mem_singleton_self 0
  · intro i j m hm m' hm'
    rw [hone i m hm, hone j m' hm']
    refine fun _ _ => ⟨by rw [hroot, hroot], fun heq => Fin.ext ?_⟩
    rw [hid, hid] at heq
    omega
  · rw [hline]
    exact List.pairwise_singleton _ _
  · rw [hline, hnext]
    exact fun r hr => List.mem_singleton.mp hr ▸ Nat.zero_lt_one
  · rw [hacked]
    exact fun r hr => absurd hr List.not_mem_nil
  · rw [hsealed, hintact]
    exact List.Subset.refl _
  · intro i
    rw [hdisk]
    exact List.mem_singleton_self _
  · intro i _ m hm
    rw [hdisk] at hm
    rw [List.mem_singleton.mp hm]
  · simp [target_opened hphase]
  · rw [hreused]
    exact Nat.zero_le _
  · rw [hacked]
    exact fun r hr => absurd hr List.not_mem_nil
  · intro i m hm
    rw [hone i m hm]
    exact le_head s i
  · rw [hline, Db.headMeta, hroot]
    rfl
  · rw [hintact, Db.headMeta, hroot]
    exact List.mem_singleton_self 0
  · rw [hsealed, Db.headMeta, hroot]
    exact fun _ => ⟨List.mem_singleton_self 0, hfresh⟩

theorem step_sound (hs : s.Sound) (hok : s.Flushes e) (h : step s e = some s') : s'.Sound := by
  cases e with
  | write npages =>
    simp only [step, Option.ite_none_right_eq_some, Option.some.injEq] at h
    obtain ⟨⟨hopen, hpos⟩, rfl⟩ := h
    exact sound_write hs hopen hpos
  | reclaim detent =>
    simp only [step, Option.ite_none_right_eq_some, Option.some.injEq] at h
    obtain ⟨⟨hopen, hle⟩, rfl⟩ := h
    exact sound_reclaim hs hopen hle
  | sync f p =>
    simp only [step, Option.ite_none_right_eq_some, Option.map_eq_some_iff] at h
    obtain ⟨hopen, m, hm, rfl⟩ := h
    exact sound_sync hs hopen hm
  | store =>
    simp only [step] at h
    split at h
    · cases h
      exact sound_lastStore hs ‹_›
    · cases h
      exact sound_store hs ‹_›
    · cases h
  | flush whole =>
    simp only [step] at h
    split at h
    · rename_i target pending n w hphase
      cases h
      refine sound_flush hs hphase whole ?_
      simp only [Db.Flushes, hphase] at hok
      exact hok
    · cases h
  | metaSync =>
    simp only [step, Option.ite_none_right_eq_some, Option.some.injEq] at h
    obtain ⟨hopen, rfl⟩ := h
    exact sound_metaSync hs hopen
  | rollback =>
    simp only [step, Option.ite_none_right_eq_some, Option.some.injEq] at h
    obtain ⟨hphase, rfl⟩ := h
    exact sound_rollback hs hphase
  | overridden whole =>
    simp only [step] at h
    split at h
    · cases h
      exact sound_overridden hs ‹_› whole
    · cases h
  | kill =>
    simp only [step, Option.ite_none_right_eq_some, Option.some.injEq] at h
    obtain ⟨hphase, rfl⟩ := h
    exact sound_kill hs hphase
  | crash left bootid =>
    simp only [step, Option.ite_none_right_eq_some, Option.some.injEq] at h
    obtain ⟨⟨hleft, hboot⟩, rfl⟩ := h
    exact sound_crash hs hleft hboot

theorem sound_invariant : system.Invariant Db.Flushes Db.Sound where
  init _ := created_sound
  step _ _ _ := step_sound

/-- No commit that was reported as durable is ever lost: the head of an open environment comes from
all of them. -/
theorem acked_kept (run : system.Reaches Db.Flushes s) :
    (∀ r ∈ s.acked, r ∈ s.lineage) ∧
    (s.phase = .opened → s.lineage.head? = some s.headMeta.root) := by
  have hs := run.invariant sound_invariant
  exact ⟨hs.history.acked, fun h => (hs.heads h).line⟩

/-- The data of the head are on the disk or in the page cache, and no page of them was written
over. -/
theorem head_intact (run : system.Reaches Db.Flushes s) (h : s.phase = .opened) :
    s.headMeta.root ∈ s.intact ∧ s.reused ≤ s.headMeta.txnid := by
  have hs := run.invariant sound_invariant
  obtain ⟨p, hp⟩ := hs.anchored
  exact ⟨(hs.heads h).intact, hp.reused.trans (le_head s p)⟩

/-- The page to fall back on is the only image that a crash can leave of it. Its data are durable,
no page of them was written over, and it is as recent as each commit reported as durable. -/
theorem fall_back (run : system.Reaches Db.Flushes s) (h : s.phase = .opened) :
    let p := s.steady.no
    s.disk p = [s.cache p] ∧ (s.cache p).isSteady = true ∧ (s.cache p).root ∈ s.sealed ∧
      s.reused ≤ (s.cache p).txnid ∧ ∀ r ∈ s.acked, r ≤ (s.cache p).root := by
  have hs := run.invariant sound_invariant
  have hp := hs.anchor_steady (target_opened h)
  have hsealed := (hs.images.each _ _ (hs.cached s.steady.no)).sealed hp.steady
  exact ⟨hs.flushed _ hp.still hp.steady, hp.steady, hsealed, hp.reused, hp.acked⟩

end Runs

/-! ### The loop -/

section Loop

variable {s : Db} {n : Nat}

/-- The loop of `dxb_setup`, up to so many rounds. -/
def Db.setup (s : Db) : Nat → Db
  | 0 => s
  | n + 1 =>
    match s.rollback.phase with
    | .overriding target =>
      ({ s.rollback.flushed true target with phase := .recovering } : Db).setup n
    | _ => s.rollback

/-- The pages that are not purged. -/
def Db.used (s : Db) : Finset MetaNo := Finset.univ.filter fun i => (s.cache i).txnid ≠ 0

theorem head_mem_used (h : s.headMeta.txnid ≠ 0) : s.head.no ∈ s.used :=
  Finset.mem_filter.mpr ⟨Finset.mem_univ _, h⟩

theorem used_purge (h : s.headMeta.txnid ≠ 0) (shape : Meta) :
    (s.purge shape).used.card < s.used.card := by
  refine Finset.card_lt_card (Finset.ssubset_iff_subset_ne.mpr ⟨?_, ?_⟩)
  · intro i hi
    simp only [Db.used, Finset.mem_filter, Finset.mem_univ, true_and] at hi ⊢
    by_cases hne : i = s.head.no
    · subst hne
      exact h
    · rwa [Db.purge, put_cache_of_ne hne] at hi
  · intro heq
    have hmem := head_mem_used h
    rw [← heq] at hmem
    refine (Finset.mem_filter.mp hmem).2 ?_
    simp [Db.purge, Db.put, purged, Meta.signAsSteady]

/-- What the loop leaves as it is. -/
structure Resumes (s t : Db) : Prop where
  sealed : t.sealed = s.sealed
  intact : t.intact = s.intact
  acked : t.acked = s.acked
  reused : t.reused = s.reused

/-- Each round but the last one purges a page. -/
theorem setup_sound (hs : s.Sound) (h : s.phase = .recovering) (hn : s.used.card ≤ n) :
    (s.setup n).Sound ∧ (s.setup n).phase = .opened ∧ Resumes s (s.setup n) := by
  induction n generalizing s with
  | zero =>
    have hpos := Finset.card_pos.mpr ⟨_, head_mem_used hs.head_ne_zero⟩
    omega
  | succ n ih =>
    have hsound := sound_rollback hs h
    rw [Db.setup]
    have heq := rollback_eq hs h
    by_cases hsame : s.steady.no = s.head.no
    · rw [if_pos hsame] at heq
      rw [heq] at hsound ⊢
      exact ⟨hsound, rfl, rfl, rfl, rfl, rfl⟩
    · rw [if_neg hsame] at heq
      by_cases hboot : s.headMeta.bootidMatch s.bootid = true
      · rw [if_pos hboot] at heq
        rw [heq] at hsound ⊢
        exact ⟨hsound, rfl, rfl, rfl, rfl, rfl⟩
      · rw [if_neg hboot] at heq
        rw [heq] at hsound ⊢
        have hless : (s.purge s.headMeta).used.card ≤ n := by
          have hlt := used_purge hs.head_ne_zero s.headMeta
          omega
        obtain ⟨hfinal, hopen, hkeep⟩ := ih (sound_overridden hsound rfl true) rfl hless
        exact ⟨hfinal, hopen, hkeep.sealed, hkeep.intact, hkeep.acked, hkeep.reused⟩

/-- Whatever a crash leaves at any moment, the next open ends within three rounds on a head whose
data were durable, of which no page was written over, and which comes from each commit reported as
durable. -/
theorem crash_recovers (run : system.Reaches Db.Flushes s) {left : MetaNo → Meta} {bootid : Nat}
    (hleft : ∀ i, left i ∈ s.disk i) (hboot : bootid = 0 ∨ s.boots < bootid) :
    let t := (s.crashed left bootid).setup 3
    t.phase = .opened ∧ t.headMeta.root ∈ s.sealed ∧ s.reused ≤ t.headMeta.txnid ∧
      t.lineage.head? = some t.headMeta.root ∧ ∀ r ∈ s.acked, r ∈ t.lineage := by
  have hcrash := sound_crash (run.invariant sound_invariant) hleft hboot
  have hused : (s.crashed left bootid).used.card ≤ 3 := Finset.card_le_univ _
  obtain ⟨hsound, hopen, hkeep⟩ := setup_sound hcrash rfl hused
  obtain ⟨p, hp⟩ := hsound.anchored
  have hheads := hsound.heads hopen
  have hreused := hp.reused.trans (le_head _ p)
  have hintact := hheads.intact
  rw [hkeep.reused] at hreused
  rw [hkeep.intact] at hintact
  refine ⟨hopen, ?_, hreused, hheads.line, fun r hr => ?_⟩
  · exact of_decide_eq_true (List.mem_filter.mp hintact).2
  · exact hsound.history.acked r (hkeep.acked.symm ▸ hr)

end Loop

/-! ### A run -/

/-- A database that was just created. -/
def sample : Db where
  cache i := ⟨⟨minTxnid + i.val, metaSignCalculate, minTxnid + i.val⟩, 7, minPageno, 0⟩
  disk i := [⟨⟨minTxnid + i.val, metaSignCalculate, minTxnid + i.val⟩, 7, minPageno, 0⟩]
  bootid := 7
  boots := 7
  nextRoot := 1
  lineage := [0]
  sealed := [0]
  intact := [0]

theorem sample_created : Created sample :=
  ⟨fun _ => rfl, fun _ => rfl, rfl, rfl, rfl, rfl, rfl, rfl, rfl, rfl, rfl, rfl⟩

/-- A commit that is durable, and one with `MDBX_SAFE_NOSYNC` after it. -/
def sampleRun : List Event :=
  [.write 2, .sync ⟨false, false, false⟩ (.commit 4 6), .store, .flush true, .write 2,
    .sync ⟨true, true, true⟩ (.commit 5 7)] ++ List.replicate 7 .store ++ [.flush true, .reclaim 4]

theorem acked_kept_weak : ∃ s : Db, s.acked = [1] ∧ s.phase = .opened ∧
    (∀ r ∈ s.acked, r ∈ s.lineage) ∧
    (s.phase = .opened → s.lineage.head? = some s.headMeta.root) := by
  obtain ⟨s, run, hs⟩ := system.exists_of_replay Db.Flushes sampleRun sample
    (fun s => decide (s.acked = [1] ∧ s.phase = .opened)) sample_created (by decide +kernel)
  obtain ⟨hacked, hopen⟩ := of_decide_eq_true hs
  exact ⟨s, hacked, hopen, acked_kept run⟩

theorem head_intact_weak : ∃ s : Db, s.reused = 4 ∧ s.headMeta.root ∉ s.sealed ∧
    s.headMeta.root ∈ s.intact ∧ s.reused ≤ s.headMeta.txnid := by
  obtain ⟨s, run, hs⟩ := system.exists_of_replay Db.Flushes sampleRun sample
    (fun s => decide (s.phase = .opened ∧ s.reused = 4 ∧ s.headMeta.root ∉ s.sealed))
    sample_created (by decide +kernel)
  obtain ⟨hopen, hreused, hweak⟩ := of_decide_eq_true hs
  exact ⟨s, hreused, hweak, head_intact run hopen⟩

theorem fall_back_weak : ∃ s : Db, s.reused = 4 ∧ s.acked = [1] ∧
    let p := s.steady.no
    s.disk p = [s.cache p] ∧ (s.cache p).isSteady = true ∧ (s.cache p).root ∈ s.sealed ∧
      s.reused ≤ (s.cache p).txnid ∧ ∀ r ∈ s.acked, r ≤ (s.cache p).root := by
  obtain ⟨s, run, hs⟩ := system.exists_of_replay Db.Flushes sampleRun sample
    (fun s => decide (s.phase = .opened ∧ s.reused = 4 ∧ s.acked = [1]))
    sample_created (by decide +kernel)
  obtain ⟨hopen, hreused, hacked⟩ := of_decide_eq_true hs
  exact ⟨s, hreused, hacked, fall_back run hopen⟩

theorem crash_recovers_weak : ∃ s : Db, s.acked = [1] ∧ s.headMeta.txnid = 5 ∧
    let t := (s.crashed s.cache 8).setup 3
    t.phase = .opened ∧ t.headMeta.root ∈ s.sealed ∧ s.reused ≤ t.headMeta.txnid ∧
      t.lineage.head? = some t.headMeta.root ∧ ∀ r ∈ s.acked, r ∈ t.lineage := by
  obtain ⟨s, run, hs⟩ := system.exists_of_replay Db.Flushes sampleRun sample
    (fun s =>
      decide (s.acked = [1] ∧ s.headMeta.txnid = 5 ∧ (∀ i, s.cache i ∈ s.disk i) ∧ s.boots < 8))
    sample_created (by decide +kernel)
  obtain ⟨hacked, hid, hleft, hboot⟩ := of_decide_eq_true hs
  exact ⟨s, hacked, hid, crash_recovers run hleft (.inr hboot)⟩

/-- The image of the weak commit `4` as it is before it is signed in place. -/
def weakFour : Meta := ⟨⟨4, datasignWeak, 4⟩, 7, 6, 1⟩

/-- The condition is needed. `gc_alloc_ex` signs the head with `MDBX_NOMETASYNC` to get at the pages
that it retired, and a crash may leave the weak image with some of them written over. -/
theorem head_overwritten_unflushed :
    ∃ s, system.Reachable s ∧ s.phase = .opened ∧ s.headMeta.txnid < s.reused := by
  obtain ⟨s, run, hs⟩ := system.exists_of_replay (fun _ _ => True)
    [.write 2, .sync ⟨true, true, false⟩ (.commit 4 6), .store, .flush true,
      .sync ⟨false, true, false⟩ .copy, .store, .flush true, .reclaim 4, .write 1,
      .crash (Function.update sample.cache 0 weakFour) 8, .rollback, .overridden true, .rollback]
    sample (fun s => decide (s.phase = .opened ∧ s.headMeta.txnid < s.reused)) sample_created
    (by decide +kernel)
  obtain ⟨hopen, hlt⟩ := of_decide_eq_true hs
  exact ⟨s, run, hopen, hlt⟩

end Durable

end MdbxGo
