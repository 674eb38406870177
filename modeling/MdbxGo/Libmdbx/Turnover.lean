import MdbxGo.Libmdbx.Refund

/-! A commit makes the pages that were lent part of a new snapshot and records those that it no
longer needs; every other event keeps what a transaction would begin with. -/

namespace MdbxGo

variable {p q : Pages} {oldest txnid x : Nat} {rows : List (Nat × Pnl)} {pl : Place}

/-! ### A commit -/

/-- The pages that the new records have to hold. -/
theorem Pages.Sound.left_nodup (h : p.Sound oldest) :
    (p.retired.pages ++ p.repnl.pages).Nodup := by
  rw [List.nodup_append]
  refine ⟨h.shaped.retired, h.shaped.repnl.nodup, fun x hx y hy heq => ?_⟩
  subst heq
  have hsame := h.placed.unique x .retired .repnl (Pnl.mem_pages.mp hx) (Pnl.mem_pages.mp hy)
  cases hsame

theorem Pages.Writes.has_iff (hw : p.Writes txnid rows) :
    (∃ r ∈ rows, r.2.Has x) ↔ p.retired.Has x ∨ p.repnl.Has x := by
  have hmem := hw.1.mem_iff (a := x)
  rw [List.mem_flatMap, List.mem_append, Pnl.mem_pages, Pnl.mem_pages] at hmem
  rw [← hmem]
  constructor
  · rintro ⟨r, hr, hx⟩
    exact ⟨r, hr, Pnl.mem_pages.mpr hx⟩
  · rintro ⟨r, hr, hx⟩
    exact ⟨r, hr, Pnl.mem_pages.mp hx⟩

/-- No page is in two of the new records. -/
theorem Pages.Sound.written_once (h : p.Sound oldest) (hw : p.Writes txnid rows) {r r' : Nat × Pnl}
    (hr : r ∈ rows) (hr' : r' ∈ rows) (hx : r.2.Has x) (hx' : r'.2.Has x) : r = r' := by
  have hnodup := hw.1.nodup_iff.mpr h.left_nodup
  rw [List.nodup_flatMap] at hnodup
  have hsymm : Std.Symm (Function.onFun List.Disjoint fun r : Nat × Pnl => r.2.pages) :=
    ⟨fun _ _ hab x hx hx' => hab hx' hx⟩
  by_contra hne
  have hdisjoint := hnodup.2.forall hr hr' hne
  exact hdisjoint (Pnl.mem_pages.mpr hx) (Pnl.mem_pages.mpr hx')

/-- Where a page is after a commit that was in a place before it. -/
def Place.After (rows : List (Nat × Pnl)) (x : Nat) : Place → Place → Prop
  | .tree, pl | .lent, pl => pl = .tree
  | .retired, pl | .repnl, pl => ∃ r ∈ rows, pl = .row r.1 ∧ r.2.Has x
  | .loose, _ => False
  | .row id, pl => pl = .row id
  | .unallocated, pl => pl = .unallocated

theorem Pages.commit_mem_rows {r : Nat × Pnl} :
    r ∈ (p.commit txnid rows).rows ↔ (r ∈ p.rows ∧ r.1 ∉ p.reclaimed) ∨ r ∈ rows := by
  simp only [Pages.commit, Pages.fresh, List.mem_append, List.mem_filter, Bool.not_eq_true',
    List.contains_eq_mem, decide_eq_false_iff_not]

theorem Pages.commit_mem_views :
    x ∈ (p.commit txnid rows).views txnid ↔ p.At x .tree ∨ p.At x .lent := by
  simp only [Pages.commit, Pages.fresh, Pages.At, Function.update_self, List.mem_append,
    List.mem_filter, Bool.not_eq_true', List.contains_eq_mem, decide_eq_false_iff_not,
    Pnl.mem_pages]

theorem not_has_nil : ¬ (Pnl.ofList []).Has x := by
  rw [← Pnl.mem_pages, Pnl.pages_ofList]
  exact List.not_mem_nil

theorem Pages.commit_at (hw : p.Writes txnid rows) :
    (p.commit txnid rows).At x pl ↔ ∃ was, p.At x was ∧ was.After rows x pl := by
  constructor
  · intro hpl
    cases pl with
    | tree =>
      rcases Pages.commit_mem_views.mp hpl.1 with htree | hlent
      · exact ⟨.tree, htree, rfl⟩
      · exact ⟨.lent, hlent, rfl⟩
    | lent | loose => cases hpl
    | retired | repnl => exact absurd hpl not_has_nil
    | row id =>
      obtain ⟨-, pnl, hin, hx⟩ := hpl
      rcases Pages.commit_mem_rows.mp hin with ⟨hold, hid⟩ | hnew
      · exact ⟨.row id, ⟨hid, pnl, hold, hx⟩, rfl⟩
      · rcases hw.has_iff.mp ⟨(id, pnl), hnew, hx⟩ with hretired | hrepnl
        · exact ⟨.retired, hretired, (id, pnl), hnew, rfl, hx⟩
        · exact ⟨.repnl, hrepnl, (id, pnl), hnew, rfl, hx⟩
    | unallocated => exact ⟨.unallocated, hpl, rfl⟩
  · rintro ⟨was, hwas, hafter⟩
    have hnew (r : Nat × Pnl) (hr : r ∈ rows) (hx : r.2.Has x) :
        (p.commit txnid rows).At x (.row r.1) :=
      ⟨List.not_mem_nil, r.2, Pages.commit_mem_rows.mpr (.inr hr), hx⟩
    cases was with
    | tree =>
      cases hafter
      exact ⟨Pages.commit_mem_views.mpr (.inl hwas), not_has_nil⟩
    | lent =>
      cases hafter
      exact ⟨Pages.commit_mem_views.mpr (.inr hwas), not_has_nil⟩
    | retired | repnl =>
      obtain ⟨r, hr, rfl, hx⟩ := hafter
      exact hnew r hr hx
    | loose => exact hafter.elim
    | row id =>
      cases hafter
      obtain ⟨hid, pnl, hin, hx⟩ := hwas
      exact ⟨List.not_mem_nil, pnl, Pages.commit_mem_rows.mpr (.inl ⟨hin, hid⟩), hx⟩
    | unallocated =>
      cases hafter
      exact hwas

/-- Each page has a place after the commit, and just one. -/
theorem Pages.Sound.after_unique (h : p.Sound oldest) (hloose : p.loose = [])
    (hw : p.Writes txnid rows) {was : Place} (hwas : p.At x was) :
    ∃ pl, was.After rows x pl ∧ ∀ pl', was.After rows x pl' → pl' = pl := by
  have hrecord (hx : p.retired.Has x ∨ p.repnl.Has x) :
      ∃ pl, (∃ r ∈ rows, pl = Place.row r.1 ∧ r.2.Has x) ∧
        ∀ pl', (∃ r ∈ rows, pl' = Place.row r.1 ∧ r.2.Has x) → pl' = pl := by
    obtain ⟨r, hr, hhas⟩ := hw.has_iff.mpr hx
    refine ⟨.row r.1, ⟨r, hr, rfl, hhas⟩, ?_⟩
    rintro pl' ⟨r', hr', rfl, hhas'⟩
    rw [h.written_once hw hr' hr hhas' hhas]
  cases was with
  | tree | lent => exact ⟨.tree, rfl, fun pl' hpl' => hpl'⟩
  | retired => exact hrecord (.inl hwas)
  | repnl => exact hrecord (.inr hwas)
  | loose =>
    simp only [Pages.At, hloose] at hwas
    cases hwas
  | row id => exact ⟨.row id, rfl, fun pl' hpl' => hpl'⟩
  | unallocated => exact ⟨.unallocated, rfl, fun pl' hpl' => hpl'⟩

/-- A page that a snapshot had stays where its readers are safe. -/
theorem Pages.Writes.shows (hw : p.Writes txnid rows) {s : Nat} {was : Place} (hle : s ≤ p.last)
    (hwas : p.At x was) (hshow : was.Shows s) (hafter : was.After rows x pl) : pl.Shows s := by
  cases was with
  | tree =>
    cases hafter
    trivial
  | retired =>
    obtain ⟨r, hr, rfl, hhas⟩ := hafter
    -- A record with a retired page has an id that no snapshot had.
    rcases (hw.2.2 r hr).2.2.2.2 with hlater | hnone
    · exact Nat.lt_of_le_of_lt hle hlater
    · exact absurd (Pnl.mem_pages.mpr hwas) (hnone x (Pnl.mem_pages.mpr hhas))
  | row id =>
    cases hafter
    exact hshow
  | lent | repnl | loose | unallocated => exact hshow.elim

theorem Pages.Sound.commit_placed (h : p.Sound oldest) (hlast : p.last < txnid)
    (hloose : p.loose = []) (hw : p.Writes txnid rows) : (p.commit txnid rows).Placed oldest := by
  constructor
  · intro x hx
    obtain ⟨was, hwas⟩ := h.placed.place x hx
    obtain ⟨pl, hafter, -⟩ := h.after_unique hloose hw hwas
    exact ⟨pl, (Pages.commit_at hw).mpr ⟨was, hwas, hafter⟩⟩
  · intro x pl pl' hpl hpl'
    obtain ⟨was, hwas, hafter⟩ := (Pages.commit_at hw).mp hpl
    obtain ⟨was', hwas', hafter'⟩ := (Pages.commit_at hw).mp hpl'
    have hsame := h.placed.unique x was' was hwas' hwas
    rw [hsame] at hafter'
    obtain ⟨only, -, honly⟩ := h.after_unique hloose hw hwas
    exact (honly pl hafter).trans (honly pl' hafter').symm
  · intro x pl hpl
    obtain ⟨was, hwas, -⟩ := (Pages.commit_at hw).mp hpl
    exact h.placed.metas x was hwas
  · intro s x hs hx
    by_cases hnew : s = txnid
    · subst hnew
      exact ⟨.tree, (Pages.commit_at hw).mpr (by
        rcases Pages.commit_mem_views.mp hx with htree | hlent
        · exact ⟨.tree, htree, rfl⟩
        · exact ⟨.lent, hlent, rfl⟩), trivial⟩
    · have hin : x ∈ p.views s := by
        simpa only [Pages.commit, Pages.fresh, Function.update_of_ne hnew] using hx
      have hle : s ≤ p.last := by
        by_contra hgt
        have hnone := h.placed.later s (by omega)
        rw [hnone] at hin
        cases hin
      obtain ⟨was, hwas, hshow⟩ := h.placed.kept s x hs hin
      obtain ⟨pl, hafter, -⟩ := h.after_unique hloose hw hwas
      exact ⟨pl, (Pages.commit_at hw).mpr ⟨was, hwas, hafter⟩, hw.shows hle hwas hshow hafter⟩
  · intro s hs
    have hs' : txnid < s := hs
    have hother : s ≠ txnid := by omega
    simp only [Pages.commit, Pages.fresh, Function.update_of_ne hother]
    exact h.placed.later s (by omega)

theorem Pnl.sorted_nil (limit : Nat) : (Pnl.ofList []).Sorted limit := by
  refine ⟨?_, fun x hx => absurd hx not_has_nil, fun x hx => absurd hx not_has_nil⟩
  intro i j hlo hij hhi
  have hzero : (Pnl.ofList []).size = 0 := rfl
  omega

theorem Pages.Shaped.commit (h : p.Shaped) (hw : p.Writes txnid rows) :
    (p.commit txnid rows).Shaped := by
  refine ⟨h.limit, h.first, Pnl.sorted_nil _, ?_, ?_, ?_, List.nodup_nil⟩
  · intro r hr
    rcases List.mem_append.mp hr with hold | hnew
    · exact h.rows r (List.mem_of_mem_filter hold)
    · obtain ⟨hcheck, hsize, -⟩ := hw.2.2 r hnew
      exact ((pnlCheck_iff hsize).mp hcheck).mono h.first
  · have hsplit : ((p.commit txnid rows).rows.map Prod.fst) =
        (p.rows.filter (fun r => !p.reclaimed.contains r.1)).map Prod.fst ++ rows.map Prod.fst :=
      List.map_append
    rw [hsplit, List.nodup_append]
    refine ⟨h.ids.sublist (List.filter_sublist.map _), hw.2.1, fun id hid id' hid' heq => ?_⟩
    subst heq
    obtain ⟨old, hold, rfl⟩ := List.mem_map.mp hid
    obtain ⟨new, hnew, heq⟩ := List.mem_map.mp hid'
    obtain ⟨hin, hkept⟩ := List.mem_filter.mp hold
    rw [Bool.not_eq_true', List.contains_eq_mem, decide_eq_false_iff_not] at hkept
    exact (hw.2.2 new hnew).2.2.2.1 old hin hkept heq.symm
  · show (Pnl.ofList []).pages.Nodup
    rw [Pnl.pages_ofList]
    exact List.nodup_nil

theorem Pages.Sound.commit (h : p.Sound oldest) (hlast : p.last < txnid) (hloose : p.loose = [])
    (hw : p.Writes txnid rows) : (p.commit txnid rows).Sound oldest :=
  ⟨h.commit_placed hlast hloose hw, h.shaped.commit hw⟩

/-! ### Any event -/

/-- The pages that a function has taken from the list of reclaimed pages are lent. -/
theorem Pages.taken_eq {r : Pnl × Nat} {n : Nat} (h : p.taken r n = some q) :
    r.2 ≠ 0 ∧ q = { p with repnl := r.1 }.lend r.2 n := by
  rw [Pages.taken] at h
  by_cases hfound : r.2 ≠ 0
  · rw [if_pos hfound] at h
    exact ⟨hfound, (Option.some.inj h).symm⟩
  · rw [if_neg hfound] at h
    cases h

theorem Pages.Sound.step (h : p.Sound oldest) {detent : Nat} (hdetent : detent ≤ oldest)
    {e : PageEvent} (hstep : p.step detent e = some q) : q.Sound oldest := by
  cases e with
  | loose =>
    obtain ⟨x, hhead, rfl⟩ := Option.map_eq_some_iff.mp hstep
    exact h.relend hhead
  | single =>
    obtain ⟨hfound, rfl⟩ := Pages.taken_eq hstep
    apply h.single
    intro hzero
    apply hfound
    rw [gcRepnlGetSingle, if_neg (not_not.mpr hzero)]
  | sequence impl around num =>
    rw [Pages.step] at hstep
    split at hstep
    · rename_i hguard
      obtain ⟨hfound, rfl⟩ := Pages.taken_eq hstep
      exact h.sequence hguard.1 hguard.2 hfound
    · cases hstep
  | best num edge =>
    rw [Pages.step] at hstep
    split at hstep
    · rename_i hguard
      obtain ⟨hnum, -, hroom, hedge⟩ := hguard
      obtain ⟨hfound, rfl⟩ := Pages.taken_eq hstep
      exact h.best hnum (by omega) hedge hfound
    · cases hstep
  | tail num =>
    rw [Pages.step] at hstep
    split at hstep
    · rename_i hupper
      cases hstep
      exact h.tail hupper
    · cases hstep
  | reclaim id short =>
    rw [Pages.step] at hstep
    split at hstep
    · rename_i hguard
      obtain ⟨r, hr, rfl⟩ := Option.map_eq_some_iff.mp hstep
      have hid := beq_iff_eq.mp (@List.find?_some _ (fun r => r.1 == id) r p.rows hr)
      subst hid
      exact h.reclaim (List.mem_of_find?_eq_some hr) hguard.2 (Nat.le_trans hguard.1 hdetent)
    · cases hstep
  | retire pgno n =>
    rw [Pages.step] at hstep
    split at hstep
    · rename_i hguard
      cases hstep
      exact h.retire hguard.1 hguard.2
    · cases hstep
  | reuse pgno n suitable4loose =>
    rw [Pages.step] at hstep
    split at hstep
    · rename_i hguard
      cases hstep
      exact h.reuse hguard.1 hguard.2
    · cases hstep
  | refund =>
    cases hstep
    exact h.txnRefund
  | mergeLoose short toRepnl =>
    cases hstep
    exact h.gcMergeLoose
  | commit txnid rows =>
    rw [Pages.step] at hstep
    split at hstep
    · rename_i hguard
      cases hstep
      exact h.commit hguard.1 hguard.2.1 hguard.2.2
    · cases hstep

theorem Pages.refundRounds_fresh {fuel : Nat} : (Pages.refundRounds fuel p).fresh = p.fresh := by
  induction fuel generalizing p with
  | zero => rfl
  | succ fuel ih =>
    rw [Pages.refundRounds]
    by_cases hedge : p.atEdge = true
    · simp only [hedge, Bool.not_true, Bool.false_eq_true, if_false]
      split
      · rfl
      · split
        · rfl
        · exact ih
    · rw [Bool.not_eq_true] at hedge
      simp only [hedge, Bool.not_false, if_true]

theorem Pages.txnRefund_fresh : p.txnRefund.fresh = p.fresh := by
  rw [Pages.txnRefund]
  simp only [Pages.refundRounds_fresh]
  split
  · rfl
  · rfl

theorem Pages.refundSuitable_fresh : p.refundSuitable.fresh = p.fresh := by
  rw [Pages.refundSuitable]
  split
  · exact Pages.txnRefund_fresh
  · rfl

theorem Pages.reuse_fresh {pgno n : Nat} {suitable4loose : Bool} :
    (p.reuse pgno n suitable4loose).fresh = p.fresh := by
  rw [Pages.reuse]
  split
  · exact Pages.txnRefund_fresh
  · split
    · rfl
    · exact Pages.refundSuitable_fresh

theorem Pages.taken_fresh {r : Pnl × Nat} {n : Nat} (h : p.taken r n = some q) :
    q.fresh = p.fresh := by
  obtain ⟨-, rfl⟩ := Pages.taken_eq h
  rfl

/-- No event but a commit changes what the next transaction begins with. -/
theorem Pages.step_fresh {detent : Nat} {e : PageEvent} (hstep : p.step detent e = some q)
    (he : ∀ txnid rows, e ≠ .commit txnid rows) : q.fresh = p.fresh := by
  cases e with
  | loose =>
    obtain ⟨x, -, rfl⟩ := Option.map_eq_some_iff.mp hstep
    rfl
  | single => exact Pages.taken_fresh hstep
  | sequence impl around num =>
    rw [Pages.step] at hstep
    split at hstep
    · exact Pages.taken_fresh hstep
    · cases hstep
  | best num edge =>
    rw [Pages.step] at hstep
    split at hstep
    · exact Pages.taken_fresh hstep
    · cases hstep
  | tail num =>
    rw [Pages.step] at hstep
    split at hstep
    · cases hstep
      rfl
    · cases hstep
  | reclaim id short =>
    rw [Pages.step] at hstep
    split at hstep
    · obtain ⟨r, -, rfl⟩ := Option.map_eq_some_iff.mp hstep
      exact Pages.refundSuitable_fresh
    · cases hstep
  | retire pgno n =>
    rw [Pages.step] at hstep
    split at hstep
    · cases hstep
      rfl
    · cases hstep
  | reuse pgno n suitable4loose =>
    rw [Pages.step] at hstep
    split at hstep
    · cases hstep
      exact Pages.reuse_fresh
    · cases hstep
  | refund =>
    cases hstep
    exact Pages.txnRefund_fresh
  | mergeLoose short toRepnl =>
    cases hstep
    rw [Pages.gcMergeLoose]
    split
    · rfl
    · rfl
  | commit txnid rows => exact absurd rfl (he txnid rows)

end MdbxGo
