import MdbxGo.Libmdbx.Mvcc

/-! What the writer keeps while it moves the oldest snapshot in use: it publishes no id above the
last steady page, and none above the id in a slot that it has passed. -/

namespace MdbxGo

namespace Mvcc

open Ordered

/-! ### Fields after an update -/

namespace Env

variable (e : Env) (j : Nat) (f : Slot → Slot) (r : Refresh) (w : Writer) (seen : Nat)

@[simp] theorem setSlot_metas : (e.setSlot j f).metas = e.metas := rfl
@[simp] theorem setSlot_cachedOldest : (e.setSlot j f).cachedOldest = e.cachedOldest := rfl
@[simp] theorem setSlot_slots : (e.setSlot j f).slots = e.slots.modify j f := rfl
@[simp] theorem setSlot_writer : (e.setSlot j f).writer = e.writer := rfl
@[simp] theorem setSlot_troika : (e.setSlot j f).troika = e.troika := rfl
@[simp] theorem setSlot_detent : (e.setSlot j f).detent = e.detent := rfl
@[simp] theorem withRefresh_metas : (e.withRefresh r).metas = e.metas := rfl
@[simp] theorem withRefresh_cachedOldest : (e.withRefresh r).cachedOldest = e.cachedOldest := rfl
@[simp] theorem withRefresh_slots : (e.withRefresh r).slots = e.slots := rfl
@[simp] theorem withRefresh_writer : (e.withRefresh r).writer = e.writer := rfl
@[simp] theorem withRefresh_troika : (e.withRefresh r).troika = e.troika := rfl
@[simp] theorem withRefresh_detent : (e.withRefresh r).detent = e.detent := rfl
@[simp] theorem withWriter_metas : (e.withWriter w).metas = e.metas := rfl
@[simp] theorem withWriter_cachedOldest : (e.withWriter w).cachedOldest = e.cachedOldest := rfl
@[simp] theorem withWriter_slots : (e.withWriter w).slots = e.slots := rfl
@[simp] theorem withWriter_writer : (e.withWriter w).writer = w := rfl
@[simp] theorem withWriter_troika : (e.withWriter w).troika = e.troika := rfl
@[simp] theorem withWriter_detent : (e.withWriter w).detent = e.detent := rfl
@[simp] theorem resetCompare_metas : (e.resetCompare j seen).metas = e.metas := rfl
@[simp] theorem resetCompare_cachedOldest :
    (e.resetCompare j seen).cachedOldest = e.cachedOldest := rfl
@[simp] theorem resetCompare_troika : (e.resetCompare j seen).troika = e.troika := rfl
@[simp] theorem resetCompare_detent : (e.resetCompare j seen).detent = e.detent := rfl

end Env

/-! ### The pages that the writer stores to -/

variable {metas : MetaNo → MetaWords} {snap : MetaNo → MetaSnap} {i : MetaNo}

/-- Whatever the order in which its words arrive, an image ends up on its page. -/
theorem applyAll_imageStores {txnid sign : Nat} {order : Option (List Store)} {todo : List Store}
    (h : imageStores i txnid sign order = some todo) :
    applyAll metas todo = withImage metas i txnid sign := by
  cases order with
  | none =>
    obtain rfl := Option.some.inj h
    simp [applyAll, Store.apply, withImage]
  | some order =>
    simp only [imageStores] at h
    split at h
    · rename_i hperm
      obtain rfl := Option.some.inj h
      have hcomm : ∀ x ∈ order, ∀ y ∈ order, ∀ m : MetaNo → MetaWords,
          (y.apply (x.apply m)) = (x.apply (y.apply m)) := by
        intro x hx y hy m
        rw [hperm.mem_iff] at hx hy
        simp only [List.mem_cons, List.not_mem_nil, or_false] at hx hy
        rcases hx with rfl | rfl | rfl <;> rcases hy with rfl | rfl | rfl <;> simp [Store.apply]
      rw [applyAll, hperm.foldl_eq' hcomm]
      simp [Store.apply, withImage]
    · cases h

/-- A page that keeps the greatest id and gets a steady sign is the one to fall back on. -/
theorem steadyOf_le_signed {metas' : MetaNo → MetaWords}
    (hi : (snaps metas i).txnid = recentOf (snaps metas))
    (ht : (snaps metas' i).txnid = (snaps metas i).txnid)
    (hs : signIsSteady (metas' i).sign = true) :
    steadyOf (snaps metas) ≤ steadyOf (snaps metas') := by
  have hle := @steadyOf_le_recentOf (snaps metas)
  by_cases hmin : minTxnid ≤ (snaps metas' i).txnid
  · have hsteady := le_steadyOf_of_isSteady (isSteady_snaps hs hmin)
    omega
  · simp only [minTxnid] at hmin
    omega

/-- Signing the head does not lower the id to fall back on. -/
theorem steadyOf_le_steady {e : Env} {order : Option (List Store)} {todo : List Store}
    (htap : e.troika = snaps e.metas) (h : steadyStores e order = some todo) :
    steadyOf (snaps e.metas) ≤ steadyOf (snaps (applyAll e.metas todo)) := by
  simp only [steadyStores, htap] at h
  split at h
  · cases h
  set head := top (recentKeys (snaps e.metas)) with hhead
  have hrecent : (snaps e.metas head).txnid = recentOf (snaps e.metas) := by
    rw [recentOf, metaRecent_metaTap]
  have hsign : signIsSteady metaSignCalculate = true := by decide
  rw [metaRecent_metaTap, ← hhead] at h
  cases order with
  | none =>
    obtain rfl := Option.some.inj h
    refine steadyOf_le_signed hrecent ?_ (by simpa [applyAll, Store.apply] using hsign)
    simp [applyAll, Store.apply, snaps, metaSnap_txnid, constmetaTxnid]
  | some order =>
    rw [applyAll_imageStores h]
    refine steadyOf_le_signed hrecent ?_ (by simpa [withImage] using hsign)
    simp [withImage, snaps, metaSnap_txnid, constmetaTxnid]

/-- The pages after some of them lost their signs. -/
theorem applyAll_signs (l : List MetaNo) (v : Nat) :
    applyAll metas (l.map (Store.sign · v)) i =
      if i ∈ l then { metas i with sign := v } else metas i := by
  induction l generalizing metas with
  | nil => simp [applyAll]
  | cons k l ih =>
    have hcons : applyAll metas ((k :: l).map (Store.sign · v)) i =
        applyAll (Function.update metas k { metas k with sign := v }) (l.map (Store.sign · v)) i :=
          rfl
    rw [hcons, ih]
    by_cases hik : i = k
    · subst hik
      simp
    · simp [hik]

/-- Wiping all steady pages leaves the most recent page to fall back on. -/
theorem steadyOf_le_wipe {e : Env} {todo : List Store} (htap : e.troika = snaps e.metas)
    (h : wipeStores e = some todo) :
    steadyOf (snaps e.metas) ≤ steadyOf (snaps (applyAll e.metas todo)) := by
  simp only [wipeStores, htap] at h
  split at h
  · rename_i hguard
    obtain rfl := Option.some.inj h
    obtain ⟨-, -, hdetent⟩ := hguard
    set metas' := applyAll e.metas _ with hmetas'
    have hid (i : MetaNo) : (snaps metas' i).txnid = (snaps e.metas i).txnid := by
      simp only [snaps, metaSnap_txnid, constmetaTxnid, hmetas', applyAll_signs]
      split <;> rfl
    have hweak (i : MetaNo) : (snaps metas' i).isSteady = false := by
      by_contra hs
      have hs := Bool.eq_true_of_not_eq_false hs
      have hmin : minTxnid ≤ (snaps metas' i).txnid := minTxnid_le_of_isSteady hs
      have hsign : signIsSteady (metas' i).sign = true := by
        simp only [snaps, metaSnap] at hs
        split at hs
        · cases hs
        · simp_all
      -- The wipe spared the page, so it was newer than the last steady one.
      simp only [hmetas', applyAll_signs] at hsign
      split at hsign
      · simp [signIsSteady, datasignNone] at hsign
      · rename_i hspared
        have hold : (snaps e.metas i).isSteady = true := isSteady_snaps hsign (hid i ▸ hmin)
        have hle := le_steadyOf_of_isSteady hold
        refine hspared (List.mem_filter.mpr ⟨List.mem_finRange i, ?_⟩)
        rw [snaps, metaSnap_txnid, steadyOf] at hle
        simpa [hsign, hdetent] using hle
    calc steadyOf (snaps e.metas) ≤ recentOf (snaps e.metas) := steadyOf_le_recentOf
      _ = (snaps metas' (top (recentKeys (snaps e.metas)))).txnid := by
        rw [hid, recentOf, metaRecent_metaTap]
      _ ≤ recentOf (snaps metas') := txnid_le_recent _ _
      _ ≤ steadyOf (snaps metas') := recentOf_le_steadyOf hweak
  · cases h

/-! ### The steps of the writer -/

/-- The steps of the two functions that only load. -/
inductive Walk (e : Env) : Writer → Writer → Prop
  | load {g : Goal} : Walk e (.prev g) (.test g e.cachedOldest e.cachedOldest)
  | rescan {g : Goal} {p o : Nat} : Walk e (.test g p o) (.mark g p)
  | changed {g : Goal} {p o : Nat} : Walk e (.test g p o) (.publish g p o)
  | length {g : Goal} {p : Nat} :
      Walk e (.length g p) (.scan g p (steadyOf e.troika) e.slots.length 0)
  | vacant {g : Goal} {p o n i : Nat} {s : Slot} : e.slots[i]? = some s → s.pid = none →
      Walk e (.scan g p o n i) (.scan g p o n (i + 1))
  | taken {g : Goal} {p o n i : Nat} : Walk e (.scan g p o n i) (.look g p o n i)
  | scanned {g : Goal} {p o n i : Nat} : n ≤ i → Walk e (.scan g p o n i) (.test g p o)
  | look {g : Goal} {p o n i : Nat} {seen : Option Nat} :
      Walk e (.look g p o n i) (.again g p o n i seen)
  | retry {g : Goal} {p o n i : Nat} {seen : Option Nat} :
      Walk e (.again g p o n i seen) (.scan g p o n i)
  | empty {g : Goal} {p o n i : Nat} {s : Slot} : e.slots[i]? = some s → s.txnid = none →
      Walk e (.again g p o n i none) (.scan g p o n (i + 1))
  | stuck {g : Goal} {p o n i v : Nat} {s : Slot} : e.slots[i]? = some s → s.txnid = some v →
      v < p → Walk e (.again g p o n i (some v)) (.stuck g p o n i v)
  | floor {g : Goal} {p o n i : Nat} {s : Slot} : e.slots[i]? = some s → s.txnid = some p →
      p < o → Walk e (.again g p o n i (some p)) (.test g p p)
  | lower {g : Goal} {p o n i v : Nat} {s : Slot} : e.slots[i]? = some s → s.txnid = some v →
      p ≤ v → v < o → Walk e (.again g p o n i (some v)) (.scan g p v n (i + 1))
  | newer {g : Goal} {p o n i v : Nat} {s : Slot} : e.slots[i]? = some s → s.txnid = some v →
      o ≤ v → Walk e (.again g p o n i (some v)) (.scan g p o n (i + 1))
  | drop {g : Goal} {p o n i v : Nat} : Walk e (.stuck g p o n i v) (.drop g p o n i v)
  | spare {g : Goal} {p o n i v : Nat} : Walk e (.stuck g p o n i v) (.scan g p o n (i + 1))
  | lagOther {t o i : Nat} : Walk e (.lag t o i) (.lag t o (i + 1))
  | lagVacant {t o i : Nat} : Walk e (.lagPid t o i) (.lag t o (i + 1))
  | lagStuck {t o i : Nat} : Walk e (.lagTid t o i) (.lag t o (i + 1))
  | lagPid {t o i : Nat} : Walk e (.lag t o i) (.lagPid t o i)
  | lagTid {t o i : Nat} : Walk e (.lagPid t o i) (.lagTid t o i)
  | lagSwap {t o i : Nat} : Walk e (.lagTid t o i) (.lagSwap t o i)
  | lagRetry {t o i : Nat} : Walk e (.lagSwap t o i) (.lag t o i)
  | lagDone {t o i : Nat} : Walk e (.lag t o i) .txn

/-- All steps of the holder of the writer lock. -/
inductive Moves (e : Env) (me : Nat) : Writer → Env → Prop
  | lock : Moves e me .free
      { e with holder := some me, writer := .txn, troika := snaps e.metas, detent := 0 }
  | op {o : Op} {e' : Env} : opStep e o = some e' → Moves e me .txn e'
  | store {st : Store} {todo : List Store} {after : Refresh} :
      Moves e me (.storing (st :: todo) after)
      { e with metas := st.apply e.metas, writer := .storing todo after }
  | settle {after : Refresh} : Moves e me (.storing [] after)
      { e with refresh := after, troika := snaps e.metas, writer := .txn }
  | walk {w w' : Writer} : Walk e w w' → Moves e me w (e.withWriter w')
  | mark {g : Goal} {p : Nat} :
      Moves e me (.mark g p) ((e.withRefresh .nothing).withWriter (.length g p))
  | unchanged {g : Goal} {p : Nat} : Moves e me (.test g p p) (finish e p g)
  | drop {g : Goal} {p o n i v : Nat} :
      Moves e me (.drop g p o n i v) ((e.resetCompare i v).withWriter (.scan g p o n (i + 1)))
  | publish {g : Goal} {p o : Nat} :
      Moves e me (.publish g p o) (finish { e with cachedOldest := o } o g)
  | kickAgain {t o i : Nat} :
      Moves e me (.lag t o i) ((e.withRefresh .yes).withWriter (.prev (.laggards t)))
  | swap {t o i : Nat} {s : Slot} : e.slots[i]? = some s → s.tid = .parked →
      Moves e me (.lagSwap t o i)
        ((e.setSlot i fun s => { s with tid := .ousted }).withWriter (.oust t o i))
  | oust {t o i : Nat} :
      Moves e me (.oust t o i) ((e.resetCompare i o).withWriter (.lag t o (i + 1)))

theorem writerStep_moves {e e' : Env} {me : Nat} {w : Writer} {c : Choice}
    (h : writerStep e me w c = some e') : Moves e me w e' := by
  cases w with
  | free =>
    cases c <;> simp only [writerStep, reduceCtorEq] at h
    split at h <;> simp only [Option.some.injEq, reduceCtorEq] at h
    exact h ▸ .lock
  | txn =>
    cases c <;> simp only [writerStep, reduceCtorEq] at h
    exact .op h
  | storing todo after =>
    cases todo <;> cases c <;> simp only [writerStep, reduceCtorEq, Option.some.injEq] at h
    · exact h ▸ .settle
    · exact h ▸ .store
  | prev g =>
    cases c <;> simp only [writerStep, reduceCtorEq, Option.some.injEq] at h
    exact h ▸ .walk .load
  | test g p o =>
    cases c <;> simp only [writerStep, reduceCtorEq] at h
    split at h
    · exact Option.some.inj h ▸ .walk .rescan
    · split at h
      · exact Option.some.inj h ▸ .walk .changed
      · rename_i heq
        obtain rfl : o = p := not_not.mp heq
        exact Option.some.inj h ▸ .unchanged
  | mark g p =>
    cases c <;> simp only [writerStep, reduceCtorEq, Option.some.injEq] at h
    exact h ▸ .mark
  | length g p =>
    cases c <;> simp only [writerStep, reduceCtorEq, Option.some.injEq] at h
    exact h ▸ .walk .length
  | scan g p o n i =>
    cases c <;> simp only [writerStep, reduceCtorEq] at h
    split at h
    · obtain ⟨s, hs, h⟩ := Option.bind_eq_some_iff.mp h
      split at h
      · rename_i hpid
        exact Option.some.inj h ▸ .walk (.vacant hs (Option.isNone_iff_eq_none.mp hpid))
      · exact Option.some.inj h ▸ .walk .taken
    · rename_i hn
      exact Option.some.inj h ▸ .walk (.scanned (not_lt.mp hn))
  | look g p o n i =>
    cases c <;> simp only [writerStep, reduceCtorEq] at h
    obtain ⟨s, -, h⟩ := Option.bind_eq_some_iff.mp h
    exact Option.some.inj h ▸ .walk .look
  | again g p o n i seen =>
    cases c <;> simp only [writerStep, reduceCtorEq] at h
    · obtain ⟨s, hs, h⟩ := Option.bind_eq_some_iff.mp h
      split at h
      · exact Option.some.inj h ▸ .walk .retry
      · rename_i hsame
        obtain rfl : s.txnid = seen := not_not.mp hsame
        split at h
        · rename_i htxnid
          exact Option.some.inj h ▸ htxnid ▸ .walk (.empty hs htxnid)
        · rename_i v htxnid
          rw [htxnid]
          split at h
          · rename_i hv
            exact Option.some.inj h ▸ .walk (.stuck hs htxnid hv)
          · rename_i hp
            split at h
            · rename_i hv
              split at h
              · rename_i heq
                subst heq
                exact Option.some.inj h ▸ .walk (.floor hs htxnid hv)
              · exact Option.some.inj h ▸ .walk (.lower hs htxnid (not_lt.mp hp) hv)
            · rename_i hv
              exact Option.some.inj h ▸ .walk (.newer hs htxnid (not_lt.mp hv))
    · exact Option.some.inj h ▸ .walk .retry
  | stuck g p o n i seen =>
    cases c <;> simp only [writerStep, reduceCtorEq] at h
    split at h
    · exact Option.some.inj h ▸ .walk .drop
    · exact Option.some.inj h ▸ .walk .spare
  | drop g p o n i seen =>
    cases c <;> simp only [writerStep, reduceCtorEq, Option.some.injEq] at h
    exact h ▸ .drop
  | publish g p o =>
    cases c <;> simp only [writerStep, reduceCtorEq, Option.some.injEq] at h
    exact h ▸ .publish
  | lag t o i =>
    cases c <;> simp only [writerStep, reduceCtorEq] at h
    · split at h
      · obtain ⟨s, -, h⟩ := Option.bind_eq_some_iff.mp h
        split at h
        · exact Option.some.inj h ▸ .walk .lagPid
        · exact Option.some.inj h ▸ .walk .lagOther
      · exact Option.some.inj h ▸ .walk .lagDone
    · split at h <;> simp only [reduceCtorEq, Option.some.injEq] at h
      exact h ▸ .kickAgain
  | lagPid t o i =>
    cases c <;> simp only [writerStep, reduceCtorEq] at h
    obtain ⟨s, -, h⟩ := Option.bind_eq_some_iff.mp h
    split at h
    · exact Option.some.inj h ▸ .walk .lagVacant
    · exact Option.some.inj h ▸ .walk .lagTid
  | lagTid t o i =>
    cases c <;> simp only [writerStep, reduceCtorEq] at h
    obtain ⟨s, -, h⟩ := Option.bind_eq_some_iff.mp h
    split at h
    · exact Option.some.inj h ▸ .walk .lagSwap
    · exact Option.some.inj h ▸ .walk .lagStuck
  | lagSwap t o i =>
    cases c <;> simp only [writerStep, reduceCtorEq] at h
    obtain ⟨s, hs, h⟩ := Option.bind_eq_some_iff.mp h
    split at h
    · rename_i htid
      exact Option.some.inj h ▸ .swap hs htid
    · exact Option.some.inj h ▸ .walk .lagRetry
  | oust t o i =>
    cases c <;> simp only [writerStep, reduceCtorEq, Option.some.injEq] at h
    exact h ▸ .oust

/-! ### What the writer knows where it stands -/

namespace Writer

/-- The id that the writer will publish without another look at the slot `j`. -/
def pending : Writer → Nat → Option Nat
  | .test _ _ o, _ | .publish _ _ o, _ => some o
  | .scan _ _ o n i, j | .look _ _ o n i, j | .again _ _ o n i _, j =>
    if j < i ∨ n ≤ j then some o else none
  | .stuck _ _ o n i _, j | .drop _ _ o n i _, j => if j ≤ i ∨ n ≤ j then some o else none
  | _, _ => none

/-- The id that the writer will take out of the slot `j`, its transaction being ousted. -/
def ousting : Writer → Nat → Option Nat
  | .oust _ o i, j => if j = i then some o else none
  | _, _ => none

/-- The locals of `mvcc_snapshot_oldest_rw` and `mvcc_kick_laggards`. -/
def Locals (e : Env) : Writer → Prop
  | .mark _ p | .length _ p => p = e.cachedOldest
  | .test _ p o | .scan _ p o _ _ | .look _ p o _ _ | .again _ p o _ _ _ | .publish _ p o =>
    p = e.cachedOldest ∧ p ≤ o ∧ o ≤ steadyOf e.troika
  | .stuck _ p o _ _ v | .drop _ p o _ _ v =>
    p = e.cachedOldest ∧ p ≤ o ∧ o ≤ steadyOf e.troika ∧ v < p
  | .lag _ o _ | .lagPid _ o _ | .lagTid _ o _ | .lagSwap _ o _ | .oust _ o _ =>
    o < steadyOf e.troika
  | _ => True

/-- What holds of the pages and the ids where the writer stands. -/
def Phase (e : Env) : Writer → Prop
  | .free => e.cachedOldest ≤ steadyOf (snaps e.metas)
  | .storing todo _ => e.cachedOldest ≤ steadyOf (snaps (applyAll e.metas todo))
  | w => e.troika = snaps e.metas ∧ e.cachedOldest ≤ steadyOf e.troika ∧ w.Locals e

end Writer

theorem Writer.phase_withWriter {e : Env} {w' : Writer} (w : Writer) :
    w.Phase (e.withWriter w') ↔ w.Phase e := by
  cases w <;> rfl

/-- The invariant of the shared memory. -/
structure Sound (e : Env) : Prop where
  detent : e.detent ≤ e.cachedOldest
  phase : e.writer.Phase e

/-- A step that only loads keeps what the writer knows. -/
theorem Walk.phase {e : Env} {w w' : Writer} (h : Walk e w w') (hw : w.Phase e) : w'.Phase e := by
  cases h <;> obtain ⟨htap, hle, hl⟩ := hw <;> refine ⟨htap, hle, ?_⟩ <;>
    simp only [Writer.Locals, true_and] at hl ⊢ <;> omega

/-- After the scan of the table the writer is back in its transaction, or looks for laggards. -/
theorem Sound.finish {e : Env} {o : Nat} {g : Goal} (hdetent : e.detent ≤ e.cachedOldest)
    (htap : e.troika = snaps e.metas) (hle : e.cachedOldest ≤ steadyOf e.troika)
    (ho : o = e.cachedOldest) : Sound (finish e o g) := by
  cases g with
  | info => exact ⟨hdetent, htap, hle, trivial⟩
  | detent => exact ⟨le_of_eq ho, htap, hle, trivial⟩
  | laggards t =>
    simp only [Mvcc.finish]
    split
    · exact ⟨hdetent, htap, hle, trivial⟩
    · rename_i hlag
      refine ⟨hdetent, htap, hle, ?_⟩
      simp only [Env.withWriter_writer, Env.withWriter_troika, Writer.Locals]
      omega

/-- What the holder of the lock does between two calls never lowers the id to fall back on. -/
theorem opStep_sound {e e' : Env} {o : Op} (hw : e.writer = .txn)
    (hdetent : e.detent ≤ e.cachedOldest)
    (htap : e.troika = snaps e.metas) (hle : e.cachedOldest ≤ steadyOf e.troika)
    (h : opStep e o = some e') : Sound e' := by
  cases o with
  | commit txnid sign order =>
    obtain ⟨todo, htodo, rfl⟩ := Option.map_eq_some_iff.mp h
    simp only [commitStores] at htodo
    split at htodo
    · rename_i hguard
      refine ⟨hdetent, ?_⟩
      change e.cachedOldest ≤ steadyOf (snaps (applyAll e.metas todo))
      rw [applyAll_imageStores htodo]
      rw [htap] at hguard hle ⊢
      exact hle.trans (steadyOf_le_commit hguard.1)
    · cases htodo
  | steady order =>
    obtain ⟨todo, htodo, rfl⟩ := Option.map_eq_some_iff.mp h
    refine ⟨hdetent, ?_⟩
    change e.cachedOldest ≤ steadyOf (snaps (applyAll e.metas todo))
    exact (htap ▸ hle).trans (steadyOf_le_steady htap htodo)
  | wipe =>
    obtain ⟨todo, htodo, rfl⟩ := Option.map_eq_some_iff.mp h
    refine ⟨hdetent, ?_⟩
    change e.cachedOldest ≤ steadyOf (snaps (applyAll e.metas todo))
    exact (htap ▸ hle).trans (steadyOf_le_wipe htap htodo)
  | force =>
    obtain rfl := Option.some.inj h
    refine ⟨hdetent, ?_⟩
    rw [Env.withRefresh_writer, hw]
    exact ⟨htap, hle, trivial⟩
  | info | detent =>
    obtain rfl := Option.some.inj h
    exact ⟨hdetent, htap, hle, trivial⟩
  | kick =>
    simp only [opStep] at h
    split at h
    · obtain rfl := Option.some.inj h
      exact ⟨hdetent, htap, hle, trivial⟩
    · cases h
  | unlock =>
    obtain rfl := Option.some.inj h
    exact ⟨hdetent, htap ▸ hle⟩

/-- Every step of the writer keeps the invariant of the shared memory. -/
theorem Moves.sound {e e' : Env} {me : Nat} {w : Writer} (hw : e.writer = w) (he : Sound e)
    (h : Moves e me w e') : Sound e' := by
  have hdetent := he.detent
  have hphase := he.phase
  rw [hw] at hphase
  cases h with
  | lock => exact ⟨Nat.zero_le _, rfl, hphase, trivial⟩
  | op hop => exact opStep_sound hw hdetent hphase.1 hphase.2.1 hop
  | store => exact ⟨hdetent, hphase⟩
  | settle => exact ⟨hdetent, rfl, hphase, trivial⟩
  | walk hwalk =>
    have hphase' := hwalk.phase hphase
    exact ⟨hdetent, (Writer.phase_withWriter _).mpr hphase'⟩
  | mark => exact ⟨hdetent, hphase⟩
  | unchanged => exact .finish hdetent hphase.1 hphase.2.1 hphase.2.2.1
  | drop =>
    obtain ⟨htap, hle, hp, hpo, hos, -⟩ := hphase
    exact ⟨hdetent, htap, hle, hp, hpo, hos⟩
  | publish =>
    obtain ⟨htap, hle, hp, hpo, hos⟩ := hphase
    exact .finish (by simp only; omega) htap hos rfl
  | kickAgain => exact ⟨hdetent, hphase.1, hphase.2.1, trivial⟩
  | swap => exact ⟨hdetent, hphase⟩
  | oust => exact ⟨hdetent, hphase⟩

/-! ### What the writer does to a slot -/

variable {e e' : Env} {w w' : Writer} {j o me : Nat} {s s' : Slot}

/-- What may come to be published over the slot `j` after a step that only loads: no more than
before the step, or no more than the id in the slot, unless that is obsolete. -/
theorem Walk.pending (h : Walk e w w') (hl : w.Locals e) (hs : e.slots[j]? = some s)
    (hpid : s.pid ≠ none) (ho : w'.pending j = some o) :
    o ≤ e.cachedOldest ∨ (∃ o', w.pending j = some o' ∧ o ≤ o') ∨
      ∀ t, s.txnid = some t → o ≤ t ∨ t < e.cachedOldest := by
  have hj : j < e.slots.length := (List.getElem?_eq_some_iff.mp hs).1
  -- Where the scan moves past a slot, the slot is vacant or the writer has just read its id.
  cases h <;> grind [Writer.pending, Writer.Locals]

theorem Walk.ousting (h : Walk e w w') : w'.ousting j = none := by
  cases h <;> rfl

theorem finish_frame (e : Env) (o : Nat) (g : Goal) :
    (finish e o g).slots = e.slots ∧ (finish e o g).cachedOldest = e.cachedOldest ∧
      (∀ j, (finish e o g).writer.pending j = none) ∧
      ∀ j, (finish e o g).writer.ousting j = none := by
  cases g with
  | info | detent => exact ⟨rfl, rfl, fun _ => rfl, fun _ => rfl⟩
  | laggards t =>
    simp only [finish]
    split <;> exact ⟨rfl, rfl, fun _ => rfl, fun _ => rfl⟩

/-- What a step of the writer does to the slot `j`, and to what it may do to it later. -/
structure Passes (e e' : Env) (j : Nat) (s s' : Slot) : Prop where
  slot : e'.slots[j]? = some s'
  pid : s'.pid = s.pid
  tid : s'.tid = s.tid ∨ s.tid = .parked ∧ s'.tid = .ousted
  txnid : s'.txnid = s.txnid ∨ s'.txnid = none ∧ ∃ v, s.txnid = some v ∧
    (v < e.cachedOldest ∨ e.writer.ousting j = some v)
  oldest : e'.cachedOldest = e.cachedOldest ∨
    e.cachedOldest ≤ e'.cachedOldest ∧ e.writer.pending j = some e'.cachedOldest
  pending : ∀ o, e'.writer.pending j = some o → e'.metas = e.metas ∧
    (o ≤ e'.cachedOldest ∨ (∃ o', e.writer.pending j = some o' ∧ o ≤ o') ∨
      ∀ t, s.txnid = some t → o ≤ t ∨ t < e.cachedOldest)
  ousting : ∀ v, e'.writer.ousting j = some v → s'.tid = .ousted

/-- A step that leaves the table alone and is in neither function then. -/
theorem Passes.idle (hslots : e'.slots = e.slots) (hs : e.slots[j]? = some s)
    (hold : e'.cachedOldest = e.cachedOldest ∨
      e.cachedOldest ≤ e'.cachedOldest ∧ e.writer.pending j = some e'.cachedOldest)
    (hp : e'.writer.pending j = none) (ho : e'.writer.ousting j = none) : Passes e e' j s s where
  slot := hslots ▸ hs
  pid := rfl
  tid := .inl rfl
  txnid := .inl rfl
  oldest := hold
  pending o h := by rw [hp] at h; cases h
  ousting v h := by rw [ho] at h; cases h

theorem opStep_passes {op : Op} (hw : e.writer = .txn) (hs : e.slots[j]? = some s)
    (h : opStep e op = some e') : Passes e e' j s s := by
  cases op with
  | commit | steady | wipe =>
    obtain ⟨todo, -, rfl⟩ := Option.map_eq_some_iff.mp h
    exact .idle rfl hs (.inl rfl) rfl rfl
  | force =>
    obtain rfl := Option.some.inj h
    exact .idle rfl hs (.inl rfl) (by rw [Env.withRefresh_writer, hw]; rfl)
      (by rw [Env.withRefresh_writer, hw]; rfl)
  | info | detent | unlock =>
    obtain rfl := Option.some.inj h
    exact .idle rfl hs (.inl rfl) rfl rfl
  | kick =>
    simp only [opStep] at h
    split at h
    · obtain rfl := Option.some.inj h
      exact .idle rfl hs (.inl rfl) rfl rfl
    · cases h

/-- The slot that `safe64_reset_compare` is tried on. -/
theorem getElem?_resetCompare (hs : e.slots[j]? = some s) (i v : Nat) :
    (e.resetCompare i v).slots[j]? =
      some (if i = j ∧ s.txnid = some v then { s with txnid := none } else s) := by
  simp only [Env.resetCompare, Env.setSlot_slots, List.getElem?_modify, hs]
  by_cases hi : i = j <;> simp [hi]

/-- Every step of the writer passes a slot in use so. -/
theorem Moves.passes (hw : e.writer = w) (hl : w.Phase e) (hs : e.slots[j]? = some s)
    (hpid : s.pid ≠ none) (h : Moves e me w e') : ∃ s', Passes e e' j s s' := by
  cases h with
  | lock | settle | mark | kickAgain | store => exact ⟨s, .idle rfl hs (.inl rfl) rfl rfl⟩
  | op hop => exact ⟨s, opStep_passes hw hs hop⟩
  | walk hwalk =>
    refine ⟨s, hs, rfl, .inl rfl, .inl rfl, .inl rfl, ?_, ?_⟩
    · intro o ho
      refine ⟨rfl, ?_⟩
      rw [hw]
      exact hwalk.pending (by cases hwalk <;> exact hl.2.2) hs hpid ho
    · intro v hv
      rw [Env.withWriter_writer, hwalk.ousting] at hv
      cases hv
  | unchanged =>
    obtain ⟨hslots, hold, hpending, housting⟩ := finish_frame e _ _
    exact ⟨s, .idle hslots hs (.inl hold) (hpending j) (housting j)⟩
  | @publish g p o =>
    obtain ⟨hslots, hold, hpending, housting⟩ := finish_frame { e with cachedOldest := o } o g
    refine ⟨s, .idle hslots hs (.inr ?_) (hpending j) (housting j)⟩
    rw [hold, hw]
    obtain ⟨-, -, hp, hpo, -⟩ := hl
    exact ⟨hp ▸ hpo, rfl⟩
  | @drop g p o n i v =>
    obtain ⟨-, -, hp, -, -, hv⟩ := hl
    refine ⟨_, getElem?_resetCompare hs i v, ?_, .inl ?_, ?_, .inl rfl, ?_, ?_⟩
    · split <;> rfl
    · split <;> rfl
    · split
      · rename_i hhit
        exact .inr ⟨rfl, v, hhit.2, .inl (hp ▸ hv)⟩
      · exact .inl rfl
    · intro o' ho'
      refine ⟨rfl, .inr (.inl ⟨o', ?_, le_refl _⟩)⟩
      rw [hw]
      simp only [Env.withWriter_writer, Writer.pending, Nat.lt_succ_iff] at ho' ⊢
      exact ho'
    · intro v' hv'
      cases hv'
  | @swap t o i s₀ hs₀ htid =>
    by_cases hi : i = j
    · subst hi
      obtain rfl := Option.some.inj (hs₀.symm.trans hs)
      refine ⟨{ s₀ with tid := .ousted }, ?_, rfl, .inr ⟨htid, rfl⟩, .inl rfl, .inl rfl, ?_, ?_⟩
      · simp [hs]
      · intro o' ho'
        cases ho'
      · exact fun _ _ => rfl
    · refine ⟨s, ?_, rfl, .inl rfl, .inl rfl, .inl rfl, ?_, ?_⟩
      · simp [hs, hi]
      · intro o' ho'
        cases ho'
      · intro v hv
        simp [Writer.ousting, Ne.symm hi] at hv
  | @oust t o i =>
    refine ⟨_, getElem?_resetCompare hs i o, ?_, .inl ?_, ?_, .inl rfl, ?_, ?_⟩
    · split <;> rfl
    · split <;> rfl
    · split
      · rename_i hhit
        refine .inr ⟨rfl, o, hhit.2, .inr ?_⟩
        rw [hw]
        simp [Writer.ousting, hhit.1]
      · exact .inl rfl
    · intro o' ho'
      cases ho'
    · intro v hv
      cases hv

end Mvcc

end MdbxGo
