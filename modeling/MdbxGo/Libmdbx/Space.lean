import MdbxGo.Libmdbx.Pages

/-! Every page is in one place, and a page of a snapshot that is still in use is in none from which
it could be handed out: what each operation on pages does to this. -/

namespace MdbxGo

open Falling

/-! ### What holds -/

/-- A page is in one place, and the pages of the snapshots from `oldest` on are where they may
be. -/
structure Pages.Placed (p : Pages) (oldest : Nat) : Prop where
  place : ∀ x, numMetas ≤ x → ∃ pl, p.At x pl
  unique : ∀ x pl pl', p.At x pl → p.At x pl' → pl = pl'
  metas : ∀ x pl, p.At x pl → numMetas ≤ x
  kept : ∀ s x, oldest ≤ s → x ∈ p.views s → ∃ pl, p.At x pl ∧ pl.Shows s
  later : ∀ s, p.last < s → p.views s = []

/-- The lists of pages are as they should be. -/
structure Pages.Shaped (p : Pages) : Prop where
  limit : p.upper ≤ maxPageno + 1
  first : p.first ≤ p.upper
  repnl : p.repnl.Sorted p.upper
  rows : ∀ r ∈ p.rows, r.2.Sorted p.upper
  ids : (p.rows.map Prod.fst).Nodup
  retired : p.retired.pages.Nodup
  loose : p.loose.Nodup

structure Pages.Sound (p : Pages) (oldest : Nat) : Prop where
  placed : p.Placed oldest
  shaped : p.Shaped

/-- The pages in `M` go from one place to another. -/
structure Pages.Moves (p q : Pages) (M : Nat → Prop) (a b : Place) : Prop where
  views : q.views = p.views
  last : q.last = p.last
  taken : ∀ x, M x → p.At x a
  after : ∀ x pl, q.At x pl ↔ (M x ∧ pl = b) ∨ (¬ M x ∧ p.At x pl)

section Moves

variable {p q : Pages} {M : Nat → Prop} {a b : Place} {oldest : Nat}

theorem Pages.Placed.mono {older : Nat} (h : p.Placed older) (hle : older ≤ oldest) :
    p.Placed oldest :=
  ⟨h.place, h.unique, h.metas, fun s x hs hx => h.kept s x (Nat.le_trans hle hs) hx, h.later⟩

theorem Pages.Sound.mono {older : Nat} (h : p.Sound older) (hle : older ≤ oldest) :
    p.Sound oldest :=
  ⟨h.placed.mono hle, h.shaped⟩

/-- A move is one when it adds to one place what it takes from another. -/
theorem Pages.Placed.moves (h : p.Placed oldest) (hviews : q.views = p.views)
    (hlast : q.last = p.last)
    (htaken : ∀ x, M x → p.At x a)
    (hfrom : ∀ x, q.At x a ↔ p.At x a ∧ ¬ M x) (hto : ∀ x, q.At x b ↔ p.At x b ∨ M x)
    (hother : ∀ x pl, pl ≠ a → pl ≠ b → (q.At x pl ↔ p.At x pl)) : Pages.Moves p q M a b := by
  refine ⟨hviews, hlast, htaken, fun x pl => ?_⟩
  by_cases hb : pl = b
  · subst hb
    rw [hto]
    constructor
    · rintro (hold | hm)
      · by_cases hm : M x
        · exact .inl ⟨hm, rfl⟩
        · exact .inr ⟨hm, hold⟩
      · exact .inl ⟨hm, rfl⟩
    · rintro (⟨hm, _⟩ | ⟨_, hold⟩)
      · exact .inr hm
      · exact .inl hold
  · by_cases ha : pl = a
    · subst ha
      rw [hfrom]
      constructor
      · rintro ⟨hold, hm⟩
        exact .inr ⟨hm, hold⟩
      · rintro (⟨_, heq⟩ | ⟨hm, hold⟩)
        · exact absurd heq hb
        · exact ⟨hold, hm⟩
    · rw [hother x pl ha hb]
      constructor
      · intro hold
        exact .inr ⟨fun hm => ha (h.unique x pl a hold (htaken x hm)), hold⟩
      · rintro (⟨_, heq⟩ | ⟨_, hold⟩)
        · exact absurd heq hb
        · exact hold

/-- A move keeps the pages in place, unless it takes pages of a snapshot to where none may be. -/
theorem Pages.Moves.placed (hmove : Pages.Moves p q M a b) (h : p.Placed oldest)
    (hshows : ∀ s, oldest ≤ s → a.Shows s → b.Shows s) : q.Placed oldest := by
  constructor
  · intro x hx
    by_cases hm : M x
    · exact ⟨b, (hmove.after x b).mpr (.inl ⟨hm, rfl⟩)⟩
    · obtain ⟨pl, hpl⟩ := h.place x hx
      exact ⟨pl, (hmove.after x pl).mpr (.inr ⟨hm, hpl⟩)⟩
  · intro x pl pl' hpl hpl'
    rcases (hmove.after x pl).mp hpl with ⟨hm, rfl⟩ | ⟨hm, hold⟩
    · rcases (hmove.after x pl').mp hpl' with ⟨_, rfl⟩ | ⟨hm', _⟩
      · rfl
      · exact absurd hm hm'
    · rcases (hmove.after x pl').mp hpl' with ⟨hm', _⟩ | ⟨_, hold'⟩
      · exact absurd hm' hm
      · exact h.unique x pl pl' hold hold'
  · intro x pl hpl
    rcases (hmove.after x pl).mp hpl with ⟨hm, _⟩ | ⟨_, hold⟩
    · exact h.metas x a (hmove.taken x hm)
    · exact h.metas x pl hold
  · intro s x hs hx
    rw [hmove.views] at hx
    obtain ⟨pl, hpl, hshow⟩ := h.kept s x hs hx
    by_cases hm : M x
    · have hsame := h.unique x pl a hpl (hmove.taken x hm)
      rw [hsame] at hshow
      exact ⟨b, (hmove.after x b).mpr (.inl ⟨hm, rfl⟩), hshows s hs hshow⟩
    · exact ⟨pl, (hmove.after x pl).mpr (.inr ⟨hm, hpl⟩), hshow⟩
  · intro s hs
    rw [hmove.views]
    rw [hmove.last] at hs
    exact h.later s hs

end Moves

/-! ### Lending -/

section Lend

variable {p : Pages} {oldest pgno n x : Nat} {repnl : Pnl}

theorem inSpan_iff : inSpan pgno n x = true ↔ pgno ≤ x ∧ x < pgno + n := by
  rw [inSpan, Bool.and_eq_true, decide_eq_true_eq, decide_eq_true_eq]

theorem mem_lend : x ∈ (p.lend pgno n).lent ↔ x ∈ p.lent ∨ (pgno ≤ x ∧ x < pgno + n) := by
  simp only [Pages.lend, List.mem_append, List.mem_map, List.mem_range]
  constructor
  · rintro (hold | ⟨i, hi, rfl⟩)
    · exact .inl hold
    · exact .inr (by omega)
  · rintro (hold | hin)
    · exact .inl hold
    · exact .inr ⟨x - pgno, by omega, by omega⟩

theorem mem_unlend : x ∈ (p.unlend pgno n).lent ↔ x ∈ p.lent ∧ ¬ (pgno ≤ x ∧ x < pgno + n) := by
  rw [Pages.unlend, List.mem_filter, Bool.not_eq_true', Bool.eq_false_iff, ne_eq, inSpan_iff]

/-- Pages that leave the list of reclaimed pages are lent. -/
theorem Pages.Sound.lend_repnl (h : p.Sound oldest) (hspan : p.repnl.HasSpan pgno n)
    (hsorted : repnl.Sorted p.upper)
    (hhas : ∀ x, repnl.Has x ↔ p.repnl.Has x ∧ ¬ (pgno ≤ x ∧ x < pgno + n)) :
    ({ p with repnl := repnl }.lend pgno n).Sound oldest := by
  have hmove : Pages.Moves p ({ p with repnl := repnl }.lend pgno n)
      (fun x => pgno ≤ x ∧ x < pgno + n) .repnl .lent := by
    refine h.placed.moves rfl rfl ?_ ?_ ?_ ?_
    · intro x hx
      exact hspan x hx.1 hx.2
    · intro x
      exact hhas x
    · intro x
      exact mem_lend
    · intro x pl hne hne'
      cases pl with
      | repnl => exact absurd rfl hne
      | lent => exact absurd rfl hne'
      | _ => exact Iff.rfl
  have hshaped := h.shaped
  exact ⟨hmove.placed h.placed fun s _ hshow => hshow.elim,
    hshaped.limit, hshaped.first, hsorted, hshaped.rows, hshaped.ids, hshaped.retired,
    hshaped.loose⟩

theorem Pages.Sound.single (h : p.Sound oldest) (hsize : p.repnl.size ≠ 0) :
    ({ p with repnl := (gcRepnlGetSingle p.repnl).1 }.lend (gcRepnlGetSingle p.repnl).2 1).Sound
      oldest := by
  obtain ⟨hin, -, hsorted, hhas⟩ := gcRepnlGetSingle_least h.shaped.repnl (by omega)
  apply h.lend_repnl _ hsorted
  · intro x
    rw [hhas]
    constructor
    · rintro ⟨hold, hne⟩
      exact ⟨hold, fun hx => hne (by omega)⟩
    · rintro ⟨hold, hout⟩
      exact ⟨hold, fun heq => hout (by omega)⟩
  · intro x hx hx'
    have heq : x = (gcRepnlGetSingle p.repnl).2 := by omega
    rw [heq]
    exact hin

theorem Pages.Sound.sequence (h : p.Sound oldest) {impl : ScanImpl} {around : Words} {num : Nat}
    (hnum : 1 < num) (hlen : num ≤ p.repnl.size)
    (hfound : (gcRepnlGetSequence impl around p.repnl num).2 ≠ 0) :
    ({ p with repnl := (gcRepnlGetSequence impl around p.repnl num).1 }.lend
      (gcRepnlGetSequence impl around p.repnl num).2 num).Sound oldest := by
  rcases @gcRepnlGetSequence_found impl around p.repnl p.upper num h.shaped.repnl
    h.shaped.limit hnum
    hlen with ⟨hzero, _⟩ | ⟨r, hspan, _, hpgno, hcut⟩
  · exact absurd hzero hfound
  · obtain ⟨hsorted, hhas⟩ := hcut.without_span h.shaped.repnl (by omega) hspan
    rw [hpgno]
    exact h.lend_repnl hspan hsorted hhas

theorem Pages.Sound.best (h : p.Sound oldest) {num edge : Nat} (hnum : 0 < num) (hle : num ≤ edge)
    (hedge : edge ≤ maxPageno + 1) (hfound : (pnlGetBestSequence p.repnl num edge).2 ≠ 0) :
    ({ p with repnl := (pnlGetBestSequence p.repnl num edge).1 }.lend
      (pnlGetBestSequence p.repnl num edge).2 num).Sound oldest := by
  rcases pnlGetBestSequence_found h.shaped.repnl h.shaped.limit hnum hle hedge with
    ⟨hzero, _⟩ | ⟨n, hfits, _, hsorted, hhas⟩
  · exact absurd hzero hfound
  · exact h.lend_repnl (hfits.whole.span.mono hfits.enough) hsorted hhas

/-- Pages that were never allocated are lent. -/
theorem Pages.Sound.tail (h : p.Sound oldest) {num : Nat} (hupper : p.first + num ≤ p.upper) :
    ({ p with first := p.first + num }.lend p.first num).Sound oldest := by
  have hmove : Pages.Moves p ({ p with first := p.first + num }.lend p.first num)
      (fun x => p.first ≤ x ∧ x < p.first + num) .unallocated .lent := by
    refine h.placed.moves rfl rfl ?_ ?_ ?_ ?_
    · intro x hx
      exact hx.1
    · intro x
      simp only [Pages.At, Pages.lend]
      omega
    · intro x
      exact mem_lend
    · intro x pl hne hne'
      cases pl with
      | unallocated => exact absurd rfl hne
      | lent => exact absurd rfl hne'
      | _ => exact Iff.rfl
  have hshaped := h.shaped
  exact ⟨hmove.placed h.placed fun s _ hshow => hshow.elim,
    hshaped.limit, hupper, hshaped.repnl, hshaped.rows, hshaped.ids, hshaped.retired, hshaped.loose⟩

/-- A loose page is lent again. -/
theorem Pages.Sound.relend (h : p.Sound oldest) (hhead : p.loose.head? = some x) :
    ({ p with loose := p.loose.tail }.lend x 1).Sound oldest := by
  obtain ⟨rest, hloose⟩ : ∃ rest, p.loose = x :: rest := by
    cases hl : p.loose with
    | nil => rw [hl] at hhead; cases hhead
    | cons y rest =>
      rw [hl] at hhead
      cases hhead
      exact ⟨rest, rfl⟩
  have hnodup := h.shaped.loose
  rw [hloose, List.nodup_cons] at hnodup
  have hmove :
      Pages.Moves p ({ p with loose := p.loose.tail }.lend x 1) (fun y => x ≤ y ∧ y < x + 1)
      .loose .lent := by
    refine h.placed.moves rfl rfl ?_ ?_ ?_ ?_
    · intro y hy
      have heq : y = x := by omega
      simp only [Pages.At, hloose, heq]
      exact List.mem_cons_self
    · intro y
      simp only [Pages.At, Pages.lend, hloose, List.tail_cons, List.mem_cons]
      constructor
      · intro hy
        refine ⟨.inr hy, fun hx => hnodup.1 ?_⟩
        have heq : y = x := by omega
        rwa [heq] at hy
      · rintro ⟨heq | hy, hout⟩
        · exact absurd ⟨by omega, by omega⟩ hout
        · exact hy
    · intro y
      exact mem_lend
    · intro y pl hne hne'
      cases pl with
      | loose => exact absurd rfl hne
      | lent => exact absurd rfl hne'
      | _ => exact Iff.rfl
  have hshaped := h.shaped
  refine ⟨hmove.placed h.placed fun s _ hshow => hshow.elim,
    hshaped.limit, hshaped.first, hshaped.repnl, hshaped.rows, hshaped.ids, hshaped.retired, ?_⟩
  simp only [Pages.lend, hloose, List.tail_cons]
  exact hnodup.2

end Lend

end MdbxGo
