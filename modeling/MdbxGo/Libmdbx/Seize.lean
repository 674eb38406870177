import MdbxGo.Libmdbx.Oldest

/-! What a read transaction knows while it takes a snapshot, runs, parks and resumes: its slot holds
the id of its snapshot, and the oldest snapshot in use does not pass that id. -/

namespace MdbxGo

namespace Mvcc

variable {e e' : Env} {i j k t me : Nat} {s s' : Slot} {p q : Thread}

/-- The writer will publish no id above `t` without another look at the slot `j`, and will not take
`t` out of it. -/
structure Guarded (e : Env) (j t : Nat) : Prop where
  pending : ∀ o, e.writer.pending j = some o → o ≤ t
  ousting : e.writer.ousting j ≠ some t

/-- The transaction of the slot holds the snapshot `t`. -/
structure Live (e : Env) (j : Nat) (s : Slot) (t : Nat) : Prop where
  txnid : s.txnid = some t
  oldest : e.cachedOldest ≤ t
  guarded : Guarded e j t

/-- The loads of a tap, all made of the pages as they are now. -/
def Current (e : Env) (loads : List Nat) : Prop :=
  loads = (List.range loads.length).map (word e.metas)

theorem Current.append {loads : List Nat} (h : Current e loads) :
    Current e (loads ++ [word e.metas loads.length]) := by
  unfold Current
  rw [List.length_append, List.length_singleton, List.range_succ, List.map_append,
    List.map_singleton,
    ← h]

/-- A whole tap of the pages as they are now finds their snapshots. -/
theorem Current.tapOf {loads : List Nat} (h : Current e loads) (hl : 9 ≤ loads.length) :
    tapOf loads = snaps e.metas := by
  have hk (k : Nat) (hk : k < 9) : loads.getD k 0 = word e.metas k := by
    rw [h, List.getD_eq_getElem?_getD, List.getElem?_map, List.getElem?_range (by omega)]
    rfl
  funext i
  have hi := i.isLt
  have hdiv (k : Nat) (hk : k < 3) : (3 * i.val + k) / 3 = i.val := by omega
  have hno : Fin.ofNat 3 i.val = i := Fin.ext (Nat.mod_eq_of_lt i.isLt)
  have h0 := hk (3 * i.val) (by omega)
  have h1 := hk (3 * i.val + 1) (by omega)
  have h2 := hk (3 * i.val + 2) (by omega)
  simp only [word, hdiv 1 (by omega), hdiv 2 (by omega), Nat.mul_add_mod, Nat.mul_mod_right,
    Nat.mul_div_cancel_left i.val (by omega : 0 < 3), hno] at h0 h1 h2
  simp only [Mvcc.tapOf, snaps, h0, h1, h2]
  simp

/-- What a transaction that has got past the second tap of `ro_seize` knows of its slot. -/
def Held (e : Env) (j : Nat) (s : Slot) (t : Nat) : Prop :=
  s.txnid = some t → e.cachedOldest ≤ t → Guarded e j t

/-- What a thread knows of its slot `j` where it stands. -/
def Knows (e : Env) (j : Nat) (s : Slot) : Thread → Prop
  | .writer | .out => True
  | .bound _ | .tap _ _ => s.tid = .owner
  | .seize _ _ _ .reset | .seize _ _ _ .write | .seize _ _ _ .refresh => s.tid = .owner
  | .seize _ _ loads (.tap again) => s.tid = .owner ∧
    (s.txnid = some (headOf loads) → e.cachedOldest ≤ headOf loads →
      Guarded e j (headOf loads) ∨ Current e again)
  | .seize _ _ loads .fetch | .seize _ _ loads .oldest =>
    s.tid = .owner ∧ Held e j s (headOf loads)
  | .seize _ _ loads .verify =>
    s.tid = .owner ∧ (s.txnid = some (headOf loads) → Live e j s (headOf loads))
  | .running _ t | .pass _ t .ensure | .pass _ t .parkTid | .pass _ t .parkStore
  | .pass _ t .unparkedTxnid => s.tid = .owner ∧ Live e j s t
  | .pass _ t (.parkTxnid tid) => tid = .owner ∧ s.tid = .owner ∧ Live e j s t
  | .pass _ t (.unparkedTid txnid) => txnid = some t ∧ s.tid = .owner ∧ Live e j s t
  | .parked _ t | .pass _ t .parkFlag | .pass _ t .unparkTid | .pass _ t .unparkSwap =>
    s.tid ≠ .owner ∧ (s.txnid = some t ∨ s.txnid = none) ∧ (s.tid = .parked → Live e j s t)
  | .pass _ t (.unparkTxnid tid) => tid ≠ .owner ∧
    s.tid ≠ .owner ∧ (s.txnid = some t ∨ s.txnid = none) ∧ (s.tid = .parked → Live e j s t)
  | .clean _ .tid | .clean _ .reset | .clean _ .owner => True
  | .clean _ _ => s.tid = .owner
  | .failed _ t .ensure => s.tid = .owner ∧ Live e j s t
  | .failed _ _ .last | .failed _ _ .again => s.tid = .owner
  | .failed _ _ _ => s.tid = .owner ∧ s.txnid = none
  | .broken _ => False
  | .panicked _ => True

/-- The slot of a thread. -/
def Thread.slot : Thread → Option Nat
  | .writer | .out => none
  | .bound j | .tap j _ | .seize j _ _ _ | .running j _ | .parked j _ | .pass j _ _ | .clean j _
  | .failed j _ _ | .broken j | .panicked j => some j

/-- The invariant of the thread with the number `i`: the slot that it has is its own. -/
def Own (e : Env) (i : Nat) (p : Thread) : Prop :=
  ∀ j, p.slot = some j → ∃ s, e.slots[j]? = some s ∧ s.pid = some i ∧ Knows e j s p

/-! ### A step of the writer -/

theorem Passes.cachedOldest_le (h : Passes e e' j s s') : e.cachedOldest ≤ e'.cachedOldest := by
  rcases h.oldest with hold | hold
  · exact hold.ge
  · exact hold.1

theorem Passes.txnid_eq (h : Passes e e' j s s') (ht : s'.txnid = some t) : s.txnid = some t := by
  rcases h.txnid with hsame | ⟨hnone, -⟩
  · exact hsame ▸ ht
  · rw [hnone] at ht
    cases ht

theorem Passes.txnid_none (h : Passes e e' j s s') (ht : s.txnid = none) : s'.txnid = none := by
  rcases h.txnid with hsame | ⟨hnone, -⟩
  · exact hsame.trans ht
  · exact hnone

theorem Passes.tid_owner (h : Passes e e' j s s') (ht : s.tid = .owner) : s'.tid = .owner := by
  rcases h.tid with hsame | ⟨hparked, -⟩
  · exact hsame.trans ht
  · rw [ht] at hparked
    cases hparked

theorem Passes.tid_ne_owner (h : Passes e e' j s s') (ht : s.tid ≠ .owner) : s'.tid ≠ .owner := by
  rcases h.tid with hsame | ⟨-, housted⟩
  · exact hsame ▸ ht
  · rw [housted]
    decide

theorem Passes.tid_parked (h : Passes e e' j s s') (ht : s'.tid = .parked) : s.tid = .parked := by
  rcases h.tid with hsame | ⟨-, housted⟩
  · exact hsame ▸ ht
  · rw [housted] at ht
    cases ht

/-- The writer does not get round the guard of a snapshot, unless it ousts the transaction. -/
theorem Passes.guarded (h : Passes e e' j s s') (ht : s.txnid = some t) (hle : e.cachedOldest ≤ t)
    (hg : Guarded e j t) (htid : s'.tid ≠ .ousted) : Guarded e' j t where
  pending o ho := by
    have hold : e'.cachedOldest ≤ t := by
      rcases h.oldest with hsame | ⟨-, hpending⟩
      · exact hsame ▸ hle
      · exact hg.pending _ hpending
    obtain ⟨-, hlow | ⟨o', ho', hlow⟩ | hread⟩ := h.pending o ho
    · exact hlow.trans hold
    · exact hlow.trans (hg.pending o' ho')
    · have hcase := hread t ht
      omega
  ousting hv := htid (h.ousting t hv)

theorem Passes.live (h : Passes e e' j s s') (hlive : Live e j s t) (htid : s'.tid ≠ .ousted) :
    Live e' j s' t where
  txnid := by
    rcases h.txnid with hsame | ⟨-, v, hv, hcase⟩
    · exact hsame.trans hlive.txnid
    · have heq : v = t := Option.some.inj (hv.symm.trans hlive.txnid)
      subst heq
      rcases hcase with hlt | hout
      · exact absurd hlive.oldest (not_le.mpr hlt)
      · exact absurd hout hlive.guarded.ousting
  oldest := by
    rcases h.oldest with hsame | ⟨-, hpending⟩
    · exact hsame ▸ hlive.oldest
    · exact hlive.guarded.pending _ hpending
  guarded := h.guarded hlive.txnid hlive.oldest hlive.guarded htid

theorem Passes.held (h : Passes e e' j s s') (hheld : Held e j s t) (htid : s'.tid ≠ .ousted) :
    Held e' j s' t := by
  intro ht hle
  have hle' := h.cachedOldest_le.trans hle
  exact h.guarded (h.txnid_eq ht) hle' (hheld (h.txnid_eq ht) hle') htid

/-- While a transaction taps the pages a second time, they change only if the writer cannot get past
its slot. -/
theorem Passes.current (h : Passes e e' j s s') {again : List Nat}
    (hk : s.txnid = some t → e.cachedOldest ≤ t → Guarded e j t ∨ Current e again)
    (htid : s'.tid ≠ .ousted) (ht : s'.txnid = some t) (hle : e'.cachedOldest ≤ t) :
    Guarded e' j t ∨ Current e' again := by
  have hle' := h.cachedOldest_le.trans hle
  rcases hk (h.txnid_eq ht) hle' with hg | hcur
  · exact .inl (h.guarded (h.txnid_eq ht) hle' hg htid)
  · by_cases hg : Guarded e' j t
    · exact .inl hg
    · -- Something above `t` is pending, so the writer is in its scan and stores to no page.
      have hpend : ∃ o, e'.writer.pending j = some o := by
        by_contra hnone
        refine hg ⟨fun o ho => absurd ⟨o, ho⟩ hnone, fun hv => htid (h.ousting t hv)⟩
      obtain ⟨o, ho⟩ := hpend
      have hmetas := (h.pending o ho).1
      refine .inr ?_
      rw [Current, hmetas]
      exact hcur

/-- What a thread knows of its slot outlives the steps of the writer. -/
theorem Passes.knows (h : Passes e e' j s s') (hk : Knows e j s p) : Knows e' j s' p := by
  have hne (ht : s.tid = .owner) : s'.tid ≠ .ousted := by
    rw [h.tid_owner ht]
    decide
  have hpark {t : Nat}
    (ht : (s.txnid = some t ∨ s.txnid = none) ∧ (s.tid = .parked → Live e j s t)) :
      (s'.txnid = some t ∨ s'.txnid = none) ∧ (s'.tid = .parked → Live e' j s' t) := by
    refine ⟨?_, ?_⟩
    · rcases h.txnid with hsame | ⟨hnone, -⟩
      · exact hsame ▸ ht.1
      · exact .inr hnone
    · intro hp
      exact h.live (ht.2 (h.tid_parked hp)) (by rw [hp]; decide)
  cases p with
  | writer | out => trivial
  | bound | tap => exact h.tid_owner hk
  | seize j' loop loads at_ =>
    cases at_ with
    | reset | write | refresh => exact h.tid_owner hk
    | tap again => exact ⟨h.tid_owner hk.1, h.current hk.2 (hne hk.1)⟩
    | fetch | oldest => exact ⟨h.tid_owner hk.1, h.held hk.2 (hne hk.1)⟩
    | verify =>
      exact ⟨h.tid_owner hk.1, fun ht => h.live (hk.2 (h.txnid_eq ht)) (hne hk.1)⟩
  | running => exact ⟨h.tid_owner hk.1, h.live hk.2 (hne hk.1)⟩
  | parked => exact ⟨h.tid_ne_owner hk.1, hpark hk.2⟩
  | pass j' t' at_ =>
    cases at_ with
    | ensure | parkTid | parkStore | unparkedTxnid =>
      exact ⟨h.tid_owner hk.1, h.live hk.2 (hne hk.1)⟩
    | parkTxnid | unparkedTid =>
      exact ⟨hk.1, h.tid_owner hk.2.1, h.live hk.2.2 (hne hk.2.1)⟩
    | parkFlag | unparkTid | unparkSwap => exact ⟨h.tid_ne_owner hk.1, hpark hk.2⟩
    | unparkTxnid => exact ⟨hk.1, h.tid_ne_owner hk.2.1, hpark hk.2.2⟩
  | clean j' at_ =>
    cases at_ with
    | tid | reset | owner => trivial
    | waitTxnid | waitTid | last | flag => exact h.tid_owner hk
  | failed j' t' at_ =>
    cases at_ with
    | ensure => exact ⟨h.tid_owner hk.1, h.live hk.2 (hne hk.1)⟩
    | last | again => exact h.tid_owner hk
    | flag | stale | parkTid | parkTxnid => exact ⟨h.tid_owner hk.1, h.txnid_none hk.2⟩
  | broken => exact hk
  | panicked => trivial

/-! ### A step of a reader -/

/-- A reader stores to its slot and to the refresh flag only. -/
structure Leaves (e e' : Env) : Prop where
  metas : e'.metas = e.metas
  cachedOldest : e'.cachedOldest = e.cachedOldest
  writer : e'.writer = e.writer
  troika : e'.troika = e.troika
  detent : e'.detent = e.detent

theorem Leaves.refl (e : Env) : Leaves e e := ⟨rfl, rfl, rfl, rfl, rfl⟩

theorem Leaves.setSlot (e : Env) (j : Nat) (f : Slot → Slot) : Leaves e (e.setSlot j f) :=
  ⟨rfl, rfl, rfl, rfl, rfl⟩

theorem Leaves.withRefresh (e : Env) (r : Refresh) : Leaves e (e.withRefresh r) :=
  ⟨rfl, rfl, rfl, rfl, rfl⟩

theorem Leaves.sound (h : Leaves e e') (he : Sound e) : Sound e' where
  detent := by
    rw [h.detent, h.cachedOldest]
    exact he.detent
  phase := by
    have hphase := he.phase
    rw [h.writer]
    cases hw : e.writer <;>
      simpa only [hw, Writer.Phase, Writer.Locals, h.metas, h.cachedOldest, h.troika] using hphase

theorem Leaves.guarded (h : Leaves e e') : Guarded e' j t ↔ Guarded e j t :=
  ⟨fun hg => ⟨h.writer ▸ hg.pending, h.writer ▸ hg.ousting⟩,
    fun hg => ⟨h.writer.symm ▸ hg.pending, h.writer.symm ▸ hg.ousting⟩⟩

theorem Leaves.live (h : Leaves e e') : Live e' j s t ↔ Live e j s t :=
  ⟨fun hl => ⟨hl.txnid, h.cachedOldest ▸ hl.oldest, h.guarded.mp hl.guarded⟩,
    fun hl => ⟨hl.txnid, h.cachedOldest.symm ▸ hl.oldest, h.guarded.mpr hl.guarded⟩⟩

theorem Leaves.held (h : Leaves e e') : Held e' j s t ↔ Held e j s t := by
  rw [Held, Held, h.cachedOldest, h.guarded]

theorem Leaves.current (h : Leaves e e') {loads : List Nat} :
    Current e' loads ↔ Current e loads := by
  rw [Current, Current, h.metas]

/-- What a thread knows does not depend on what readers do to other slots. -/
theorem Leaves.knows (h : Leaves e e') : Knows e' j s p ↔ Knows e j s p := by
  cases p with
  | seize j' loop loads at_ =>
    cases at_ <;> simp only [Knows, h.cachedOldest, h.guarded, h.live, h.held, h.current]
  | pass j' t' at_ => cases at_ <;> simp only [Knows, h.live]
  | clean j' at_ => cases at_ <;> rfl
  | failed j' t' at_ => cases at_ <;> simp only [Knows, h.live]
  | running | parked => simp only [Knows, h.live]
  | writer | out | bound | tap | broken | panicked => rfl

/-- What a step of the thread `me` leaves to the others: the pages, the ids, and every slot of
theirs. -/
structure Keeps (e e' : Env) (me : Nat) : Prop where
  leaves : Leaves e e'
  slots : ∀ (j : Nat) (s : Slot), e.slots[j]? = some s → s.pid ≠ none → s.pid ≠ some me →
    e'.slots[j]? = some s

theorem Keeps.same (h : Leaves e e') (hslots : e'.slots = e.slots) : Keeps e e' me :=
  ⟨h, fun _ _ hs _ _ => hslots ▸ hs⟩

/-- A store to the thread's own slot. -/
theorem Keeps.setSlot (hs : e.slots[k]? = some s) (hpid : s.pid = some me) (f : Slot → Slot) :
    Keeps e (e.setSlot k f) me where
  leaves := .setSlot e k f
  slots j s' hs' _ hother := by
    have hjk : k ≠ j := by
      rintro rfl
      obtain rfl := Option.some.inj (hs.symm.trans hs')
      exact hother hpid
    simp [hs', hjk]

/-- What a step of the thread `me` with the slot `j` comes to. -/
structure Acts (e : Env) (me j : Nat) (e' : Env) (p' : Thread) : Prop where
  keeps : Keeps e e' me
  slot : p'.slot = some j
  knows : ∃ s', e'.slots[j]? = some s' ∧ s'.pid = some me ∧ Knows e' j s' p'

section Acts

variable (hs : e.slots[j]? = some s) (hpid : s.pid = some me)
include hs hpid

theorem Acts.load (hslot : p.slot = some j) (hk : Knows e j s p) : Acts e me j e p :=
  ⟨.same (.refl e) rfl, hslot, s, hs, hpid, hk⟩

theorem Acts.flag (hslot : p.slot = some j) (hk : Knows e j s p) :
    Acts e me j (e.withRefresh .yes) p :=
  ⟨.same (.withRefresh e .yes) rfl, hslot, s, hs, hpid, (Leaves.withRefresh e .yes).knows.mpr hk⟩

theorem Acts.store {f : Slot → Slot} (hslot : p.slot = some j) (hf : (f s).pid = s.pid)
    (hk : Knows e j (f s) p) : Acts e me j (e.setSlot j f) p :=
  ⟨.setSlot hs hpid f, hslot, f s, by simp [hs], hf.trans hpid,
    (Leaves.setSlot e j f).knows.mpr hk⟩

/-- The next round of `ro_seize`, or its end, needs nothing but a slot of one's own. -/
theorem Acts.nextRound {loop : Nat} {loads : List Nat} (htid : s.tid = .owner) :
    Acts e me j e (nextRound j loop loads) := by
  unfold Mvcc.nextRound
  split
  · exact .load hs hpid rfl htid
  · exact .load hs hpid rfl trivial

end Acts

/-- What the writer is about to publish is no newer than the last steady page. -/
theorem Sound.pending_le (he : Sound e) {o : Nat} (ho : e.writer.pending j = some o) :
    o ≤ steadyOf (snaps e.metas) := by
  have hphase := he.phase
  cases hw : e.writer <;> rw [hw] at hphase ho <;>
    simp only [Writer.pending, reduceCtorEq] at ho <;>
    obtain ⟨htap, -, hl⟩ := hphase <;> simp only [Writer.Locals] at hl <;> rw [← htap] <;> grind

/-- What the writer is about to take out of a slot is older than the last steady page. -/
theorem Sound.ousting_lt (he : Sound e) {v : Nat} (hv : e.writer.ousting j = some v) :
    v < steadyOf (snaps e.metas) := by
  have hphase := he.phase
  cases hw : e.writer <;> rw [hw] at hphase hv <;> simp only [Writer.ousting, reduceCtorEq] at hv
  obtain ⟨htap, -, hl⟩ := hphase
  rw [← htap]
  split at hv
  · cases hv
    exact hl
  · cases hv

/-- The second tap has found what the first one did. Unless the writer is kept off, its loads are
the pages as they are now, so the head is the most recent page of all, and no older than anything
that the writer will publish. -/
theorem held_of_tap (he : Sound e) {loads again : List Nat} (hlen : 9 ≤ again.length)
    (hk : s.txnid = some (headOf loads) → e.cachedOldest ≤ headOf loads →
      Guarded e j (headOf loads) ∨ Current e again)
    (hsame : (metaTap (tapOf loads)).shouldRetry (metaTap (tapOf again)) = false) :
    Held e j s (headOf again) := by
  have hsnaps : tapOf loads = tapOf again := (shouldRetry_eq_false_iff _ _).mp hsame
  have hhead : headOf again = headOf loads := by rw [headOf, headOf, hsnaps]
  intro ht hle
  rw [hhead] at ht hle ⊢
  rcases hk ht hle with hg | hcur
  · exact hg
  · have hrecent : headOf loads = recentOf (snaps e.metas) := by
      rw [← hhead, headOf, hcur.tapOf hlen]
    have hsteady := @steadyOf_le_recentOf (snaps e.metas)
    refine ⟨fun o ho => ?_, fun hv => ?_⟩
    · have hpending := he.pending_le ho
      omega
    · have housting := he.ousting_lt hv
      omega

section Acts

variable (hs : e.slots[j]? = some s) (hpid : s.pid = some me)
include hs hpid

theorem seizeStep_acts (he : Sound e) {loop : Nat} {loads : List Nat} {at_ : Seize} {c : Choice}
    (hk : Knows e j s (.seize j loop loads at_))
    (h : seizeStep e j loop loads at_ c = some (e', p)) :
    Acts e me j e' p := by
  cases at_ with
  | reset =>
    cases c <;> simp only [seizeStep, reduceCtorEq, Option.some.injEq, Prod.mk.injEq] at h
    obtain ⟨rfl, rfl⟩ := h
    exact .store hs hpid rfl rfl hk
  | write =>
    cases c <;> simp only [seizeStep, reduceCtorEq, Option.some.injEq, Prod.mk.injEq] at h
    obtain ⟨rfl, rfl⟩ := h
    exact .store hs hpid rfl rfl hk
  | refresh =>
    cases c <;> simp only [seizeStep, reduceCtorEq, Option.some.injEq, Prod.mk.injEq] at h
    obtain ⟨rfl, rfl⟩ := h
    exact .flag hs hpid rfl ⟨hk, fun _ _ => .inr rfl⟩
  | tap again =>
    cases c <;> simp only [seizeStep, reduceCtorEq] at h
    split at h
    · cases h
      exact .load hs hpid rfl ⟨hk.1, fun ht hle => (hk.2 ht hle).imp_right Current.append⟩
    · rename_i hlen
      split at h
      · cases h
        exact .nextRound hs hpid hk.1
      · rename_i hretry
        cases h
        exact .load hs hpid rfl ⟨hk.1, held_of_tap he (not_lt.mp hlen) hk.2
          (Bool.eq_false_of_not_eq_true hretry)⟩
  | fetch =>
    cases c with
    | fetched f =>
      cases f <;> cases h
      · exact .load hs hpid rfl hk
      · exact .nextRound hs hpid hk.1
      · exact .load hs hpid rfl trivial
    | _ => cases h
  | oldest =>
    cases c <;> simp only [seizeStep, reduceCtorEq] at h
    split at h
    · cases h
      exact .nextRound hs hpid hk.1
    · rename_i hold
      cases h
      exact .load hs hpid rfl ⟨hk.1, fun ht => ⟨ht, not_lt.mp hold, hk.2 ht (not_lt.mp hold)⟩⟩
  | verify =>
    cases c <;> simp only [seizeStep, reduceCtorEq] at h
    obtain ⟨s', hs', h⟩ := Option.bind_eq_some_iff.mp h
    obtain rfl := Option.some.inj (hs.symm.trans hs')
    split at h
    · rename_i ht
      cases h
      exact .load hs hpid rfl ⟨hk.1, hk.2 ht⟩
    · cases h
      exact .nextRound hs hpid hk.1

theorem passStep_acts {at_ : Pass} {c : Choice} (hk : Knows e j s (.pass j t at_))
    (h : passStep e j t at_ c = some (e', p)) : Acts e me j e' p := by
  have hread {s' : Slot} (hs' : e.slots[j]? = some s') : s' = s :=
    Option.some.inj (hs'.symm.trans hs)
  cases at_ with
  | parkTid =>
    cases c <;> simp only [passStep, reduceCtorEq] at h
    obtain ⟨s', hs', h⟩ := Option.bind_eq_some_iff.mp h
    obtain rfl := hread hs'
    cases h
    exact .load hs hpid rfl ⟨hk.1, hk⟩
  | parkTxnid tid =>
    cases c <;> simp only [passStep, reduceCtorEq] at h <;>
      obtain ⟨s', hs', h⟩ := Option.bind_eq_some_iff.mp h <;>
      obtain rfl := hread hs' <;>
      split at h
    case next.isTrue hbad | error.isTrue hbad =>
      exact absurd hk.2.2.txnid (hbad.resolve_left (not_not.mpr hk.1))
    all_goals
      cases h
      exact .load hs hpid rfl hk.2
  | parkStore =>
    cases c <;> simp only [passStep, reduceCtorEq, Option.some.injEq, Prod.mk.injEq] at h
    obtain ⟨rfl, rfl⟩ := h
    exact .store hs hpid rfl rfl ⟨(by decide : SlotTid.parked ≠ .owner), .inl hk.2.txnid,
      fun _ => ⟨hk.2.txnid, hk.2.oldest, hk.2.guarded⟩⟩
  | parkFlag =>
    cases c <;> simp only [passStep, reduceCtorEq, Option.some.injEq, Prod.mk.injEq] at h
    obtain ⟨rfl, rfl⟩ := h
    exact .flag hs hpid rfl hk
  | unparkTid =>
    cases c <;> simp only [passStep, reduceCtorEq] at h
    obtain ⟨s', hs', h⟩ := Option.bind_eq_some_iff.mp h
    obtain rfl := hread hs'
    cases h
    exact .load hs hpid rfl ⟨hk.1, hk⟩
  | unparkTxnid tid =>
    -- The word was neither the owner's nor OUSTED, and the id is there.
    have hsound (htid : tid ≠ .ousted) (hnone : s.txnid ≠ none) :
        ¬(tid ≠ .parked ∨ s.txnid ≠ some t) := by
      rintro (hbad | hbad)
      · cases tid with
        | owner => exact hk.1 rfl
        | parked => exact hbad rfl
        | ousted => exact htid rfl
      · exact hbad (hk.2.2.1.resolve_right hnone)
    cases c <;> simp only [passStep, reduceCtorEq] at h <;>
      obtain ⟨s', hs', h⟩ := Option.bind_eq_some_iff.mp h <;>
      obtain rfl := hread hs' <;>
      split at h
    case next.isTrue | error.isTrue =>
      cases h
      exact .load hs hpid rfl trivial
    all_goals
      rename_i hvalid
      obtain ⟨htid, hnone⟩ := not_or.mp hvalid
      rw [if_neg (hsound htid hnone)] at h
      cases h
      first
      | exact .load hs hpid rfl hk.2
      | exact .load hs hpid rfl trivial
  | unparkSwap =>
    cases c <;> simp only [passStep, reduceCtorEq] at h
    obtain ⟨s', hs', h⟩ := Option.bind_eq_some_iff.mp h
    obtain rfl := hread hs'
    split at h
    · rename_i hparked
      cases h
      have hlive := hk.2.2 hparked
      exact .store hs hpid rfl rfl ⟨rfl, hlive.txnid, hlive.oldest, hlive.guarded⟩
    · cases h
      exact .load hs hpid rfl hk
  | unparkedTxnid =>
    cases c <;> simp only [passStep, reduceCtorEq] at h
    obtain ⟨s', hs', h⟩ := Option.bind_eq_some_iff.mp h
    obtain rfl := hread hs'
    cases h
    exact .load hs hpid rfl ⟨hk.2.txnid, hk⟩
  | unparkedTid txnid =>
    cases c <;> simp only [passStep, reduceCtorEq] at h
    obtain ⟨s', hs', h⟩ := Option.bind_eq_some_iff.mp h
    obtain rfl := hread hs'
    split at h
    · rename_i hbad
      rcases hbad with hbad | hbad
      · exact absurd hk.1 hbad
      · exact absurd hk.2.1 hbad
    · cases h
      exact .load hs hpid rfl hk.2
  | ensure =>
    cases c <;> simp only [passStep, reduceCtorEq] at h
    split at h
    · rename_i hold
      exact absurd hk.2.oldest (not_le.mpr hold)
    · cases h
      exact .load hs hpid rfl hk.1

theorem cleanStep_acts {at_ : Clean} {c : Choice} (hk : Knows e j s (.clean j at_))
    (h : cleanStep e j at_ c = some (e', p)) : Acts e me j e' p := by
  cases at_ with
  | tid | reset =>
    cases c <;> simp only [cleanStep, reduceCtorEq, Option.some.injEq, Prod.mk.injEq] at h
    obtain ⟨rfl, rfl⟩ := h
    first
    | exact .load hs hpid rfl trivial
    | exact .store hs hpid rfl rfl trivial
  | owner =>
    cases c <;> simp only [cleanStep, reduceCtorEq, Option.some.injEq, Prod.mk.injEq] at h
    obtain ⟨rfl, rfl⟩ := h
    exact .store hs hpid rfl rfl rfl
  | waitTxnid | waitTid =>
    cases c <;> simp only [cleanStep, reduceCtorEq] at h
    obtain ⟨s', -, h⟩ := Option.bind_eq_some_iff.mp h
    cases h
    split
    · exact .load hs hpid rfl trivial
    · exact .load hs hpid rfl hk
  | last =>
    cases c <;> simp only [cleanStep, reduceCtorEq, Option.some.injEq, Prod.mk.injEq] at h
    obtain ⟨rfl, rfl⟩ := h
    exact .store hs hpid rfl rfl hk
  | flag =>
    cases c <;> simp only [cleanStep, reduceCtorEq, Option.some.injEq, Prod.mk.injEq] at h
    obtain ⟨rfl, rfl⟩ := h
    exact .flag hs hpid rfl hk

theorem failedStep_acts {at_ : Failed} {c : Choice} (hk : Knows e j s (.failed j t at_))
    (h : failedStep e j t at_ c = some (e', p)) : Acts e me j e' p := by
  have hread {s' : Slot} (hs' : e.slots[j]? = some s') : s' = s :=
    Option.some.inj (hs'.symm.trans hs)
  cases at_ with
  | ensure =>
    cases c <;> simp only [failedStep, reduceCtorEq] at h
    split at h
    · rename_i hold
      exact absurd hk.2.oldest (not_le.mpr hold)
    · cases h
      exact .load hs hpid rfl hk.1
  | last =>
    cases c <;> simp only [failedStep, reduceCtorEq, Option.some.injEq, Prod.mk.injEq] at h
    obtain ⟨rfl, rfl⟩ := h
    exact .store hs hpid rfl rfl ⟨hk, rfl⟩
  | flag =>
    cases c <;> simp only [failedStep, reduceCtorEq, Option.some.injEq, Prod.mk.injEq] at h
    obtain ⟨rfl, rfl⟩ := h
    exact .flag hs hpid rfl hk
  | stale =>
    cases c <;> simp only [failedStep, reduceCtorEq, Option.some.injEq, Prod.mk.injEq] at h <;>
      obtain ⟨rfl, rfl⟩ := h
    · exact .load hs hpid rfl hk.1
    · exact .load hs hpid rfl hk
  | parkTid =>
    cases c <;> simp only [failedStep, reduceCtorEq] at h
    obtain ⟨s', -, h⟩ := Option.bind_eq_some_iff.mp h
    cases h
    exact .load hs hpid rfl hk
  | parkTxnid tid =>
    cases c <;> simp only [failedStep, reduceCtorEq] at h
    obtain ⟨s', hs', h⟩ := Option.bind_eq_some_iff.mp h
    obtain rfl := hread hs'
    split at h
    · cases h
      exact .load hs hpid rfl hk
    · rename_i hsame
      have ht : s'.txnid = some t := not_not.mp (not_or.mp hsame).2
      rw [hk.2] at ht
      cases ht
  | again =>
    cases c <;> simp only [failedStep, reduceCtorEq] at h
    split at h <;> cases h
    · exact .load hs hpid rfl trivial
    · exact .load hs hpid rfl hk

end Acts

theorem Acts.own {e' : Env} (h : Acts e me j e' p) : Own e' me p := by
  intro j' hj'
  obtain rfl := Option.some.inj (h.slot.symm.trans hj')
  exact h.knows

/-- The slot that `mvcc_bind_slot` takes belongs to nobody. -/
theorem bindSlot_keeps (h : bindSlot e me = some (e', j)) :
    Keeps e e' me ∧ e'.slots[j]? = some { pid := some me } := by
  simp only [bindSlot] at h
  generalize hv : e.slots.findIdx (fun s => s.pid.isNone) = v at h
  split at h
  · rename_i hlt
    simp only [Option.some.injEq, Prod.mk.injEq] at h
    obtain ⟨rfl, rfl⟩ := h
    refine ⟨⟨⟨rfl, rfl, rfl, rfl, rfl⟩, ?_⟩, by simp [hlt]⟩
    intro k s hs hpid _
    have hne : v ≠ k := by
      rintro rfl
      subst hv
      have hfree := List.findIdx_getElem (w := hlt)
      rw [List.getElem?_eq_getElem hlt] at hs
      simp_all
    simp [hs, hne]
  · rename_i hge
    have hlen : v = e.slots.length := le_antisymm (hv ▸ List.findIdx_le_length) (not_lt.mp hge)
    split at h
    · simp only [Option.some.injEq, Prod.mk.injEq] at h
      obtain ⟨rfl, rfl⟩ := h
      refine ⟨⟨⟨rfl, rfl, rfl, rfl, rfl⟩, ?_⟩, by simp [hlen]⟩
      intro k s hs _ _
      rw [List.getElem?_append_left (List.getElem?_eq_some_iff.mp hs).1]
      exact hs
    · cases h

/-- Every step of a reader keeps what it knows, and leaves the others alone. -/
theorem readerStep_keeps {c : Choice} (he : Sound e) (hp : Own e me p)
    (h : readerStep e me p c = some (e', q)) : Keeps e e' me ∧ Own e' me q := by
  cases p with
  | writer => cases c <;> cases h
  | out =>
    cases c <;> simp only [readerStep, reduceCtorEq] at h
    obtain ⟨r, hr, hrq⟩ := Option.map_eq_some_iff.mp h
    cases hrq
    obtain ⟨hkeeps, hslot⟩ := bindSlot_keeps hr
    refine ⟨hkeeps, fun j' hj' => ?_⟩
    cases hj'
    exact ⟨_, hslot, rfl, rfl⟩
  | broken j =>
    obtain ⟨s, -, -, hk⟩ := hp j rfl
    exact hk.elim
  | bound j =>
    obtain ⟨s, hs, hpid, hk⟩ := hp j rfl
    cases c <;> simp only [readerStep, reduceCtorEq, Option.some.injEq, Prod.mk.injEq] at h <;>
      obtain ⟨rfl, rfl⟩ := h
    · exact ⟨.setSlot hs hpid _, fun j' hj' => by cases hj'⟩
    · have hacts : Acts e me j e (.tap j []) := .load hs hpid rfl hk
      exact ⟨hacts.keeps, hacts.own⟩
  | tap j loads =>
    obtain ⟨s, hs, hpid, hk⟩ := hp j rfl
    cases c <;> simp only [readerStep, reduceCtorEq] at h
    have hacts : Acts e me j e' q := by
      split at h <;> cases h
      · exact .load hs hpid rfl hk
      · exact .load hs hpid rfl hk
    exact ⟨hacts.keeps, hacts.own⟩
  | seize j loop loads at_ =>
    obtain ⟨s, hs, hpid, hk⟩ := hp j rfl
    have hacts := seizeStep_acts hs hpid he hk h
    exact ⟨hacts.keeps, hacts.own⟩
  | running j t =>
    obtain ⟨s, hs, hpid, hk⟩ := hp j rfl
    have hacts : Acts e me j e' q := by
      cases c <;> simp only [readerStep, reduceCtorEq, Option.some.injEq, Prod.mk.injEq] at h <;>
        obtain ⟨rfl, rfl⟩ := h
      · exact .load hs hpid rfl hk
      · exact .load hs hpid rfl hk
    exact ⟨hacts.keeps, hacts.own⟩
  | parked j t =>
    obtain ⟨s, hs, hpid, hk⟩ := hp j rfl
    have hacts : Acts e me j e' q := by
      cases c <;> simp only [readerStep, reduceCtorEq, Option.some.injEq, Prod.mk.injEq] at h <;>
        obtain ⟨rfl, rfl⟩ := h
      · exact .load hs hpid rfl trivial
      · exact .load hs hpid rfl hk
    exact ⟨hacts.keeps, hacts.own⟩
  | pass j t at_ =>
    obtain ⟨s, hs, hpid, hk⟩ := hp j rfl
    have hacts := passStep_acts hs hpid hk h
    exact ⟨hacts.keeps, hacts.own⟩
  | clean j at_ =>
    obtain ⟨s, hs, hpid, hk⟩ := hp j rfl
    have hacts := cleanStep_acts hs hpid hk h
    exact ⟨hacts.keeps, hacts.own⟩
  | failed j t at_ =>
    obtain ⟨s, hs, hpid, hk⟩ := hp j rfl
    have hacts := failedStep_acts hs hpid hk h
    exact ⟨hacts.keeps, hacts.own⟩
  | panicked j => cases c <;> cases h

end Mvcc

end MdbxGo
