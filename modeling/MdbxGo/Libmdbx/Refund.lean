import MdbxGo.Libmdbx.Space

/-! Pages that come back: to the unallocated ones, to the list of reclaimed pages, to the retired
and to the loose pages. -/

namespace MdbxGo

open Falling

variable {p q : Pages} {oldest pgno n k x first id short : Nat} {pnl : Pnl}

/-! ### Refunding -/

/-- The pages of the first `k` cells end where the unallocated pages begin. -/
def Ends (pnl : Pnl) (first k : Nat) : Prop :=
  k ≤ pnl.size ∧ ∀ j, 0 < j → j ≤ k → pnl j + j = first

theorem refundLoop_ends {limit fuel i : Nat} (hsorted : pnl.Sorted limit) (hi : 0 < i)
    (h : Ends pnl first i) :
    ∃ k, 0 < k ∧ Ends pnl first k ∧
      refundLoop pnl (fuel + 1) i (first - (i - 1)) = (k + 1, first - k) := by
  have hfirst : first - (i - 1) - 1 = first - i := by omega
  induction fuel generalizing i with
  | zero =>
    refine ⟨i, hi, h, ?_⟩
    simp only [refundLoop, hfirst, ite_self]
  | succ fuel ih =>
    rw [refundLoop]
    simp only [hfirst]
    by_cases hmore : (decide (i + 1 ≤ pnl.size) && pnl (i + 1) == first - i - 1) = true
    · rw [if_pos hmore]
      rw [Bool.and_eq_true, decide_eq_true_eq, beq_iff_eq] at hmore
      have hlast := h.2 i hi (Nat.le_refl i)
      have hmeta := hsorted.above _ (Pnl.has_cell hi h.1)
      simp only [numMetas] at hmeta
      apply ih (by omega) _ (by omega)
      refine ⟨hmore.1, fun j hlo hhi => ?_⟩
      by_cases heq : j = i + 1
      · subst heq
        omega
      · exact h.2 j hlo (by omega)
    · rw [if_neg hmore]
      exact ⟨i, hi, h, rfl⟩

theorem atEdge_iff : p.atEdge = true ↔ 0 < p.repnl.size ∧ p.repnl 1 = p.first - 1 := by
  rw [Pages.atEdge, Bool.and_eq_true, bne_iff_ne, beq_iff_eq]
  omega

/-- The pages that `refund_reclaimed` refunds are no longer in the list and no longer allocated. -/
theorem Pages.Sound.refundReclaimed (h : p.Sound oldest) (hedge : p.atEdge = true) :
    p.refundReclaimed.Sound oldest := by
  obtain ⟨hsize, hmost⟩ := atEdge_iff.mp hedge
  have hshaped := h.shaped
  have hmeta := hshaped.repnl.above _ (Pnl.has_cell Nat.one_pos hsize)
  simp only [numMetas] at hmeta
  have hends : Ends p.repnl p.first 1 := by
    refine ⟨hsize, fun j hlo hhi => ?_⟩
    have hone : j = 1 := by omega
    subst hone
    omega
  obtain ⟨fuel, hfuel⟩ : ∃ fuel, p.repnl.size = fuel + 1 := ⟨p.repnl.size - 1, by omega⟩
  obtain ⟨k, hk, ⟨hle, hcells⟩, hloop⟩ :=
    @refundLoop_ends p.first p.repnl p.upper fuel 1 hshaped.repnl Nat.one_pos hends
  have hlast := hcells k hk (Nat.le_refl k)
  have hfirst : p.first - (1 - 1) = p.first := by omega
  have hcell (j : Nat) := @Pnl.pullDown_cell (p.repnl.setsize (p.repnl.size - k)) k
    (p.repnl.size - k) 1 hk j
  have hcut : Pnl.Narrowed p.repnl (Pnl.pullDown k (p.repnl.size - k) 1
      (p.repnl.setsize (p.repnl.size - k))) 0 k := by
    refine ⟨by omega, ?_, fun j hlo hhi => by omega, fun j hlo hhi => ?_⟩
    · rw [Pnl.size, hcell, if_neg (by omega)]
      exact Pnl.set_same
    · rw [hcell, if_pos (by omega), Pnl.setsize_cell (by omega)]
  have hspan : p.repnl.HasSpan (p.repnl (0 + k)) k := by
    have hsucc : k - 1 + 1 = k := by omega
    have hiff := @Pnl.Sorted.hasSpan_iff p.repnl p.upper k (k - 1) hshaped.repnl hk hle
    have hone := hcells 1 Nat.one_pos hk
    have hback : k - (k - 1) = 1 := by omega
    rw [hsucc, hback] at hiff
    rw [Nat.zero_add]
    exact hiff.mpr ⟨by omega, by omega⟩
  obtain ⟨hsorted, hhas⟩ := hcut.without_span hshaped.repnl hk hspan
  rw [Nat.zero_add] at hspan hhas
  rw [hfirst, ← hfuel] at hloop
  rw [Pages.refundReclaimed]
  simp only [hloop, Nat.add_sub_cancel]
  have hbegin : p.repnl k = p.first - k := by omega
  rw [hbegin] at hspan hhas
  have hend : p.first - k + k = p.first := by omega
  rw [hend] at hhas
  have hmove : Pages.Moves p
      { p with
        first := p.first - k
        repnl := Pnl.pullDown k (p.repnl.size - k) 1 (p.repnl.setsize (p.repnl.size - k)) }
      (fun x => p.first - k ≤ x ∧ x < p.first) .repnl .unallocated := by
    refine h.placed.moves rfl rfl ?_ ?_ ?_ ?_
    · intro x hx
      exact hspan x hx.1 (by omega)
    · intro x
      exact hhas x
    · intro x
      simp only [Pages.At]
      omega
    · intro x pl hne hne'
      cases pl with
      | repnl => exact absurd rfl hne
      | unallocated => exact absurd rfl hne'
      | _ => exact Iff.rfl
  exact ⟨hmove.placed h.placed fun s _ hshow => hshow.elim,
    hshaped.limit, Nat.le_trans (Nat.sub_le _ _) hshaped.first, hsorted, hshaped.rows, hshaped.ids,
    hshaped.retired, hshaped.loose⟩

theorem looseEdge_spec {loose : List Nat} {fuel : Nat} :
    looseEdge loose fuel first ≤ first ∧
      ∀ x, looseEdge loose fuel first ≤ x → x < first → x ∈ loose := by
  induction fuel generalizing first with
  | zero => exact ⟨Nat.le_refl _, fun x hlo hhi => by simp only [looseEdge] at hlo; omega⟩
  | succ fuel ih =>
    rw [looseEdge]
    by_cases hin : loose.contains (first - 1) = true
    · rw [if_pos hin]
      obtain ⟨hle, hall⟩ := @ih (first - 1)
      refine ⟨by omega, fun x hlo hhi => ?_⟩
      by_cases hlast : x = first - 1
      · rw [hlast]
        exact List.contains_iff_mem.mp hin
      · exact hall x hlo (by omega)
    · rw [if_neg hin]
      exact ⟨Nat.le_refl _, fun x hlo hhi => by omega⟩

theorem Pages.Sound.refundLoose (h : p.Sound oldest) : p.refundLoose.Sound oldest := by
  obtain ⟨hle, hall⟩ := @looseEdge_spec p.first p.loose p.loose.length
  rw [Pages.refundLoose]
  generalize looseEdge p.loose p.loose.length p.first = edge at hle hall ⊢
  have hmove : Pages.Moves p
      { p with
        first := edge, loose := p.loose.filter (fun x => decide (x < edge)), refundWl := edge }
      (fun x => edge ≤ x ∧ x < p.first) .loose .unallocated := by
    refine h.placed.moves rfl rfl ?_ ?_ ?_ ?_
    · intro x hx
      exact hall x hx.1 hx.2
    · intro x
      simp only [Pages.At, List.mem_filter, decide_eq_true_eq]
      constructor
      · rintro ⟨hin, hlt⟩
        exact ⟨hin, fun hx => by omega⟩
      · rintro ⟨hin, hout⟩
        refine ⟨hin, ?_⟩
        -- A loose page is an allocated one.
        have hallocated : x < p.first := by
          by_contra hge
          have hsame := h.placed.unique x .loose .unallocated hin (by simp only [Pages.At]; omega)
          cases hsame
        omega
    · intro x
      simp only [Pages.At]
      omega
    · intro x pl hne hne'
      cases pl with
      | loose => exact absurd rfl hne
      | unallocated => exact absurd rfl hne'
      | _ => exact Iff.rfl
  have hshaped := h.shaped
  exact ⟨hmove.placed h.placed fun s _ hshow => hshow.elim,
    hshaped.limit, Nat.le_trans hle hshaped.first, hshaped.repnl, hshaped.rows, hshaped.ids,
    hshaped.retired, hshaped.loose.filter _⟩

theorem Pages.Sound.refundRounds {fuel : Nat} (h : p.Sound oldest) :
    (Pages.refundRounds fuel p).Sound oldest := by
  induction fuel generalizing p with
  | zero => exact h
  | succ fuel ih =>
    rw [Pages.refundRounds]
    by_cases hedge : p.atEdge = true
    · have hq := h.refundReclaimed hedge
      simp only [hedge, Bool.not_true, Bool.false_eq_true, if_false]
      by_cases hmay : p.refundReclaimed.mayRefundLoose = true
      · simp only [hmay, Bool.not_true, Bool.false_eq_true, if_false]
        by_cases hsame : p.refundReclaimed.refundLoose.first = p.refundReclaimed.first
        · rw [if_pos hsame]
          exact hq.refundLoose
        · rw [if_neg hsame]
          exact ih hq.refundLoose
      · rw [Bool.not_eq_true] at hmay
        simp only [hmay, Bool.not_false, if_true]
        exact hq
    · rw [Bool.not_eq_true] at hedge
      simp only [hedge, Bool.not_false, if_true]
      exact h

theorem Pages.Sound.txnRefund (h : p.Sound oldest) : p.txnRefund.Sound oldest := by
  rw [Pages.txnRefund]
  by_cases hmay : p.mayRefundLoose = true
  · simp only [hmay, if_true]
    exact h.refundLoose.refundRounds
  · simp only [if_neg hmay]
    exact h.refundRounds

theorem Pages.Sound.refundSuitable (h : p.Sound oldest) : p.refundSuitable.Sound oldest := by
  rw [Pages.refundSuitable]
  by_cases hedge : p.atEdge = true
  · rw [if_pos hedge]
    exact h.txnRefund
  · rw [if_neg hedge]
    exact h

/-! ### Retiring -/

/-- A page of the tree that no transaction has changed is retired; snapshots still have it. -/
theorem Pages.Sound.retire (h : p.Sound oldest) (hn : 0 < n)
    (htree : ∀ k < n, pgno + k ∈ p.views p.last ∧ pgno + k ∉ p.retired.pages) :
    (p.retire pgno n).Sound oldest := by
  have hspan (x : Nat) (hx : pgno ≤ x ∧ x < pgno + n) :
      x ∈ p.views p.last ∧ ¬ p.retired.Has x := by
    obtain ⟨hin, hout⟩ := htree (x - pgno) (by omega)
    have hback : pgno + (x - pgno) = x := by omega
    rw [hback] at hin hout
    exact ⟨hin, fun hhas => hout (Pnl.mem_pages.mpr hhas)⟩
  have hmove :
      Pages.Moves p (p.retire pgno n) (fun x => pgno ≤ x ∧ x < pgno + n) .tree .retired := by
    refine h.placed.moves rfl rfl ?_ ?_ ?_ ?_
    · exact hspan
    · intro x
      simp only [Pages.At, Pages.retire, pnlAppendSpan_has hn, not_or, and_assoc]
    · intro x
      exact pnlAppendSpan_has hn
    · intro x pl hne hne'
      cases pl with
      | tree => exact absurd rfl hne
      | retired => exact absurd rfl hne'
      | _ => exact Iff.rfl
  have hshaped := h.shaped
  exact ⟨hmove.placed h.placed fun s _ _ => trivial,
    hshaped.limit, hshaped.first, hshaped.repnl, hshaped.rows, hshaped.ids,
    pnlAppendSpan_nodup hn hshaped.retired fun x hlo hhi => (hspan x ⟨hlo, hhi⟩).2, hshaped.loose⟩

/-- A page that the transaction has changed itself is free again at once. -/
theorem Pages.Sound.reuse {suitable4loose : Bool} (h : p.Sound oldest) (hn : 0 < n)
    (hlent : ∀ k < n, pgno + k ∈ p.lent) : (p.reuse pgno n suitable4loose).Sound oldest := by
  have hshaped := h.shaped
  have hspan (x : Nat) (hx : pgno ≤ x ∧ x < pgno + n) : x ∈ p.lent := by
    have hin := hlent (x - pgno) (by omega)
    have hback : pgno + (x - pgno) = x := by omega
    rwa [hback] at hin
  have hmeta : numMetas ≤ pgno := h.placed.metas pgno .lent (hspan pgno (by omega))
  -- Lent pages are allocated.
  have hallocated (x : Nat) (hx : pgno ≤ x ∧ x < pgno + n) : x < p.first := by
    by_contra hge
    have hsame := h.placed.unique x .lent .unallocated (hspan x hx) (by simp only [Pages.At]; omega)
    cases hsame
  have hlast := hallocated (pgno + n - 1) (by omega)
  rw [Pages.reuse]
  by_cases htail : pgno + n = p.first
  · simp only [if_pos htail]
    apply Pages.Sound.txnRefund
    have hmove : Pages.Moves p { p.unlend pgno n with first := pgno }
        (fun x => pgno ≤ x ∧ x < pgno + n) .lent .unallocated := by
      refine h.placed.moves rfl rfl hspan ?_ ?_ ?_
      · intro x
        exact mem_unlend
      · intro x
        simp only [Pages.At]
        omega
      · intro x pl hne hne'
        cases pl with
        | lent => exact absurd rfl hne
        | unallocated => exact absurd rfl hne'
        | _ => exact Iff.rfl
    have hfirst := hshaped.first
    exact ⟨hmove.placed h.placed fun s _ hshow => hshow.elim,
      hshaped.limit, by simp only [Pages.unlend]; omega, hshaped.repnl, hshaped.rows, hshaped.ids,
      hshaped.retired, hshaped.loose⟩
  · simp only [if_neg htail]
    by_cases hloose : (decide (n = 1) && suitable4loose) = true
    · rw [if_pos hloose]
      rw [Bool.and_eq_true, decide_eq_true_eq] at hloose
      obtain ⟨rfl, -⟩ := hloose
      have hmove : Pages.Moves p
          { p.unlend pgno 1 with
            loose := pgno :: (p.unlend pgno 1).loose
            refundWl := max (pgno + 2) (p.unlend pgno 1).refundWl }
          (fun x => pgno ≤ x ∧ x < pgno + 1) .lent .loose := by
        refine h.placed.moves rfl rfl hspan ?_ ?_ ?_
        · intro x
          exact mem_unlend
        · intro x
          simp only [Pages.At, Pages.unlend, List.mem_cons]
          constructor
          · rintro (heq | hold)
            · exact .inr (by omega)
            · exact .inl hold
          · rintro (hold | hin)
            · exact .inr hold
            · exact .inl (by omega)
        · intro x pl hne hne'
          cases pl with
          | lent => exact absurd rfl hne
          | loose => exact absurd rfl hne'
          | _ => exact Iff.rfl
      refine ⟨hmove.placed h.placed fun s _ hshow => hshow.elim,
        hshaped.limit, hshaped.first, hshaped.repnl, hshaped.rows, hshaped.ids, hshaped.retired, ?_⟩
      refine List.nodup_cons.mpr ⟨fun hin => ?_, hshaped.loose⟩
      have hsame := h.placed.unique pgno .lent .loose (hspan pgno (by omega)) hin
      cases hsame
    · rw [if_neg hloose]
      apply Pages.Sound.refundSuitable
      obtain ⟨hsorted, hhas⟩ := @pnlInsertSpan_sorted p.repnl p.upper pgno n hshaped.repnl hn hmeta
        (by have := hshaped.first; omega) fun x hlo hhi hin => by
          have hsame := h.placed.unique x .lent .repnl (hspan x ⟨hlo, hhi⟩) hin
          cases hsame
      have hmove : Pages.Moves p
          { p.unlend pgno n with repnl := pnlInsertSpan (p.unlend pgno n).repnl pgno n }
          (fun x => pgno ≤ x ∧ x < pgno + n) .lent .repnl := by
        refine h.placed.moves rfl rfl hspan ?_ ?_ ?_
        · intro x
          exact mem_unlend
        · intro x
          exact hhas x
        · intro x pl hne hne'
          cases pl with
          | lent => exact absurd rfl hne
          | repnl => exact absurd rfl hne'
          | _ => exact Iff.rfl
      exact ⟨hmove.placed h.placed fun s _ hshow => hshow.elim,
        hshaped.limit, hshaped.first, hsorted, hshaped.rows, hshaped.ids, hshaped.retired,
        hshaped.loose⟩

/-! ### Reclaiming -/

theorem row_unique {rows : List (Nat × Pnl)} (hids : (rows.map Prod.fst).Nodup) {pnl pnl' : Pnl}
    (h : (id, pnl) ∈ rows) (h' : (id, pnl') ∈ rows) : pnl = pnl' := by
  have hinj := List.inj_on_of_nodup_map hids h h' rfl
  exact (Prod.mk.inj hinj).2

/-- The pages of a record that no snapshot in use needs are put into the list of reclaimed pages. -/
theorem Pages.Sound.reclaim (h : p.Sound oldest) {r : Nat × Pnl} (hr : r ∈ p.rows)
    (hid : r.1 ∉ p.reclaimed) (hold : r.1 ≤ oldest) :
    ({ p with
      repnl := pnlMerge short p.repnl r.2, reclaimed := r.1 :: p.reclaimed }.refundSuitable).Sound
      oldest := by
  apply Pages.Sound.refundSuitable
  have hshaped := h.shaped
  have hrow (x : Nat) (hx : r.2.Has x) : p.At x (.row r.1) := ⟨hid, r.2, hr, hx⟩
  obtain ⟨hsorted, hhas⟩ := pnlMerge_has short p.repnl r.2 p.upper hshaped.limit hshaped.repnl
    (hshaped.rows r hr) fun x hin hin' => by
      have hsame := h.placed.unique x .repnl (.row r.1) hin (hrow x hin')
      cases hsame
  have hmove : Pages.Moves p
      { p with repnl := pnlMerge short p.repnl r.2, reclaimed := r.1 :: p.reclaimed }
      (fun x => r.2.Has x) (.row r.1) .repnl := by
    refine h.placed.moves rfl rfl hrow ?_ ?_ ?_
    · intro x
      constructor
      · rintro ⟨hout, _⟩
        exact absurd List.mem_cons_self hout
      · rintro ⟨⟨_, pnl, hin, hx⟩, hnot⟩
        have hsame := row_unique hshaped.ids hin hr
        rw [hsame] at hx
        exact absurd hx hnot
    · intro x
      exact hhas x
    · intro x pl hne hne'
      cases pl with
      | repnl => exact absurd rfl hne'
      | row id =>
        have hother : id ≠ r.1 := fun heq => hne (by rw [heq])
        simp only [Pages.At, List.mem_cons, not_or, hother, not_false_eq_true, true_and]
      | _ => exact Iff.rfl
  refine ⟨hmove.placed h.placed fun s hs hshow => ?_,
    hshaped.limit, hshaped.first, hsorted, hshaped.rows, hshaped.ids, hshaped.retired,
    hshaped.loose⟩
  -- A snapshot in use is not older than the record.
  have hlt : s < r.1 := hshow
  omega

/-! ### Loose pages -/

theorem foldl_pnlAppend_pages {l : List Nat} : (l.foldl pnlAppend pnl).pages = pnl.pages ++ l := by
  induction l generalizing pnl with
  | nil => rw [List.foldl_nil, List.append_nil]
  | cons x l ih =>
    have hone := @pnlAppendStepped_pages pnl x 1 1 Nat.one_pos
    rw [pnlAppendStepped, if_pos rfl] at hone
    rw [List.foldl_cons, ih, hone, List.append_assoc]
    rfl

theorem Pages.Sound.gcMergeLoose {toRepnl : Bool} (h : p.Sound oldest) :
    (p.gcMergeLoose short toRepnl).Sound oldest := by
  have hshaped := h.shaped
  have hrange (x : Nat) (hx : x ∈ p.loose) : numMetas ≤ x ∧ x < p.upper := by
    refine ⟨h.placed.metas x .loose hx, ?_⟩
    by_contra hge
    have hfirst := hshaped.first
    have hsame := h.placed.unique x .loose .unallocated hx (by simp only [Pages.At]; omega)
    cases hsame
  rw [Pages.gcMergeLoose]
  by_cases hto : toRepnl = true
  · rw [if_pos hto]
    have hsort := pnlSort_sorted hshaped.loose hrange
    have hin (x : Nat) : (pnlSort p.loose).Has x ↔ x ∈ p.loose := pnlSort_has
    obtain ⟨hsorted, hhas⟩ := pnlMerge_has short p.repnl (pnlSort p.loose) p.upper hshaped.limit
      hshaped.repnl hsort fun x hx hx' => by
        have hsame := h.placed.unique x .repnl .loose hx ((hin x).mp hx')
        cases hsame
    have hmove : Pages.Moves p
        { p with repnl := pnlMerge short p.repnl (pnlSort p.loose), loose := [], refundWl := 0 }
        (fun x => x ∈ p.loose) .loose .repnl := by
      refine h.placed.moves rfl rfl (fun x hx => hx) ?_ ?_ ?_
      · intro x
        simp only [Pages.At, List.not_mem_nil, and_not_self_iff]
      · intro x
        exact (hhas x).trans (or_congr_right (hin x))
      · intro x pl hne hne'
        cases pl with
        | loose => exact absurd rfl hne
        | repnl => exact absurd rfl hne'
        | _ => exact Iff.rfl
    exact ⟨hmove.placed h.placed fun s _ hshow => hshow.elim,
      hshaped.limit, hshaped.first, hsorted, hshaped.rows, hshaped.ids, hshaped.retired,
      List.nodup_nil⟩
  · rw [if_neg hto]
    have hhas (x : Nat) : (p.loose.foldl pnlAppend p.retired).Has x ↔
        p.retired.Has x ∨ x ∈ p.loose := by
      rw [← Pnl.mem_pages, foldl_pnlAppend_pages, List.mem_append, Pnl.mem_pages]
    have hmove : Pages.Moves p
        { p with retired := p.loose.foldl pnlAppend p.retired, loose := [], refundWl := 0 }
        (fun x => x ∈ p.loose) .loose .retired := by
      refine h.placed.moves rfl rfl (fun x hx => hx) ?_ ?_ ?_
      · intro x
        simp only [Pages.At, List.not_mem_nil, and_not_self_iff]
      · intro x
        exact hhas x
      · intro x pl hne hne'
        cases pl with
        | loose => exact absurd rfl hne
        | retired => exact absurd rfl hne'
        | tree =>
          simp only [Pages.At, hhas, not_or]
          constructor
          · rintro ⟨hin, hnot, _⟩
            exact ⟨hin, hnot⟩
          · rintro ⟨hin, hnot⟩
            refine ⟨hin, hnot, fun hx => ?_⟩
            have hsame := h.placed.unique x .tree .loose ⟨hin, hnot⟩ hx
            cases hsame
        | _ => exact Iff.rfl
    refine ⟨hmove.placed h.placed fun s _ hshow => hshow.elim,
      hshaped.limit, hshaped.first, hshaped.repnl, hshaped.rows, hshaped.ids, ?_, List.nodup_nil⟩
    rw [foldl_pnlAppend_pages, List.nodup_append]
    refine ⟨hshaped.retired, hshaped.loose, fun x hx y hy heq => ?_⟩
    subst heq
    have hsame := h.placed.unique x .retired .loose (Pnl.mem_pages.mp hx) hy
    cases hsame

end MdbxGo
