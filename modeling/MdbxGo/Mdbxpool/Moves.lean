import MdbxGo.Mdbx.Snapshot
import MdbxGo.Mdbxpool.TxnPool

/-! What a step of a program that uses a pool can do, and what holds of its world in all runs. -/

namespace MdbxGo

namespace TxnPool

open Threads Transition MdbxEnv World

variable {cfg : Config} {s s' : TxnPool} {i n : Nat} {t t' : Goroutine} {c : Choice}
  {new : List Goroutine} {w w' : World}

/-! ### What a step does -/

/-- What a step of the goroutine with number `i` can do. -/
inductive Moved (cfg : Config) (i : Nat) (s : TxnPool) (t : Goroutine) (s' : TxnPool)
    (t' : Goroutine) (new : List Goroutine) : Choice → Prop
  | method {thread : Thread} {o : Sys} {call : Call} {r : World × Reply} :
      t.at_.method = some call → s.world.step (.go i thread o call) = some r →
      s' = { s with world := r.1, begun := s.begun ++ t.at_.begins r } →
      t' = t.resume (s.idAt t.at_) r.2 → new = [] → Moved cfg i s t s' t' new (.calls thread o)
  | atomic {thread : Thread} {o : Sys} : t.at_.method = none → s.world.waiting i = false →
      t.at_.atomic cfg s = some (s', t'.at_, new) → t'.out = t.out →
      Moved cfg i s t s' t' new (.calls thread o)
  | got {txn : Option Handle} : (∀ h ∈ txn, h ∈ s.pool) → t.at_.got txn = some t'.at_ →
      s' = { s with pool := txn.elim s.pool s.pool.erase } → t'.out = t.out → new = [] →
      Moved cfg i s t s' t' new (.gets txn)
  | event {e : Event} {r : World × Reply} : t.at_.free = true → mine i e = true →
      (t.at_.runs = true → s.outermost e = false) → s.world.step e = some r →
      s' = { s with world := r.1 } → t' = t → new = [] → Moved cfg i s t s' t' new (.does e)
  | ended {res : FnResult} : (s.world.frames i).length = 1 → t.at_.ended res = some t'.at_ →
      s' = s → t'.out = t.out → new = [] → Moved cfg i s t s' t' new (.ends res)

theorem step_moved (h : step cfg s i t c = some (s', t', new)) :
    Moved cfg i s t s' t' new c := by
  cases c with
  | calls thread o =>
    simp only [step] at h
    split at h
    · rename_i call hcall
      obtain ⟨r, hr, heq⟩ := Option.map_eq_some_iff.mp h
      cases heq
      exact .method hcall hr rfl rfl rfl
    · rename_i hnone
      split at h
      · cases h
      · rename_i hwait
        obtain ⟨r, hr, heq⟩ := Option.map_eq_some_iff.mp h
        cases heq
        exact .atomic hnone (by simpa using hwait) hr rfl
  | gets txn =>
    simp only [step] at h
    split at h
    · rename_i hall
      obtain ⟨a, ha, heq⟩ := Option.map_eq_some_iff.mp h
      cases heq
      refine .got (fun h hh => ?_) ha rfl rfl rfl
      cases hh
      simpa using hall
    · cases h
  | does e =>
    simp only [step] at h
    split at h
    · rename_i hguard
      simp only [Bool.and_eq_true, Bool.not_eq_true', Bool.and_eq_false_iff] at hguard
      obtain ⟨r, hr, heq⟩ := Option.map_eq_some_iff.mp h
      cases heq
      refine .event hguard.1.1 hguard.1.2 (fun hruns => ?_) hr rfl rfl rfl
      exact hguard.2.resolve_left (by simp [hruns])
    · cases h
  | ends res =>
    simp only [step] at h
    split at h
    · rename_i hframes
      obtain ⟨a, ha, heq⟩ := Option.map_eq_some_iff.mp h
      cases heq
      exact .ended hframes ha rfl rfl rfl
    · cases h

/-- What the pool does by itself leaves the transactions alone, and starts goroutines only for
`handleIdle`. -/
theorem atomic_world {a a' : At} (h : a.atomic cfg s = some (s', a', new)) :
    s'.world = s.world ∧ ∀ u ∈ new, u = { at_ := .enterIdle } := by
  have hnone : ∀ u ∈ ([] : List Goroutine), u = { at_ := .enterIdle } := by simp
  unfold At.atomic at h
  split at h
  · cases h; exact ⟨rfl, hnone⟩
  · cases h; exact ⟨rfl, hnone⟩
  · cases h; exact ⟨rfl, hnone⟩
  · cases h; exact ⟨rfl, hnone⟩
  · cases h; exact ⟨rfl, hnone⟩
  · split at h <;> cases h <;> exact ⟨rfl, hnone⟩
  · cases h; exact ⟨rfl, hnone⟩
  · cases h; exact ⟨rfl, hnone⟩
  · cases h; exact ⟨rfl, hnone⟩
  · obtain ⟨r, _, heq⟩ := Option.map_eq_some_iff.mp h
    cases heq
    refine ⟨rfl, ?_⟩
    split <;> simp
  · cases h

/-- What happens in the world on a step of one goroutine. -/
theorem Moved.world (h : Moved cfg i s t s' t' new c) :
    s'.world = s.world ∨ ∃ e r, mine i e = true ∧ s.world.step e = some r ∧ s'.world = r.1 := by
  cases h with
  | method _ hr hs _ _ => exact .inr ⟨_, _, by simp [mine], hr, by rw [hs]⟩
  | atomic _ _ hr _ => exact .inl (atomic_world hr).1
  | got _ _ hs _ _ => exact .inl (by rw [hs])
  | event _ hmine _ hr hs _ _ => exact .inr ⟨_, _, hmine, hr, by rw [hs]⟩
  | ended _ _ hs _ _ => exact .inl (by rw [hs])

/-- A step starts goroutines only for `handleIdle`. -/
theorem Moved.started (h : Moved cfg i s t s' t' new c) : ∀ u ∈ new, u = { at_ := .enterIdle } := by
  cases h with
  | atomic _ _ ha _ => exact (atomic_world ha).2
  | method _ _ _ _ hnew => simp [hnew]
  | got _ _ _ _ hnew => simp [hnew]
  | event _ _ _ _ _ _ hnew => simp [hnew]
  | ended _ _ _ _ hnew => simp [hnew]

theorem Moved.not_returned (hm : Moved cfg i s t s' t' new c) : t.at_ ≠ .returned := by
  intro hat
  cases hm with
  | method hcall _ _ _ _ => rw [hat] at hcall; cases hcall
  | atomic _ _ ha _ => rw [hat] at ha; cases ha
  | got _ ha _ _ _ => rw [hat] at ha; cases ha
  | event hfree _ _ _ _ _ _ => rw [hat] at hfree; cases hfree
  | ended _ ha _ _ _ => rw [hat] at ha; cases ha

/-! ### The world -/

/-- What a step of the goroutine `i` keeps for all the others. -/
structure Later (i : Gor) (w w' : World) : Prop where
  next : w.next ≤ w'.next
  recent : w.lib.recent ≤ w'.lib.recent
  frames : ∀ g, g ≠ i → w'.frames g = w.frames g
  basal : ∀ h, h < w.next → (w'.txns h).ptr = some .basal → (w.txns h).ptr = some .basal

theorem Later.refl (i : Gor) (w : World) : Later i w w :=
  ⟨Nat.le_refl _, UInt64.le_refl _, fun _ _ => rfl, fun _ _ hp => hp⟩

theorem step_later (ok : w.lib.Ok) {e : Event} {r : World × Reply} (hmine : mine i e = true)
    (hr : w.step e = some r) : Later i w r.1 := by
  have hrecent := (step_advances ok hr).recent
  rcases step_cases hr with ⟨g, self, o, call, rfl, _, _, hexec⟩ | ⟨a, x, _, _, rfl⟩ |
    ⟨txnid, changes, _, _, _, _, rfl⟩ | ⟨_, rfl⟩
  · have hg : g = i := by simpa [mine] using hmine
    subst hg
    have act := exec_act ok hexec
    exact ⟨act.next_le, hrecent, fun _ hne => (exec_stacked hexec).other hne,
      fun _ hh hp => act.basal hh hp⟩
  · exact ⟨Nat.le_refl _, hrecent, fun _ _ => rfl, fun _ _ hp => hp⟩
  · exact ⟨Nat.le_refl _, hrecent, fun _ _ => rfl, fun _ _ hp => hp⟩
  · exact ⟨Nat.le_refl _, hrecent, fun _ _ => rfl, fun _ _ hp => hp⟩

theorem Moved.later (ok : s.world.lib.Ok) (h : Moved cfg i s t s' t' new c) :
    Later i s.world s'.world := by
  rcases h.world with hsame | ⟨e, r, hmine, hr, hw⟩
  · rw [hsame]
    exact .refl i s.world
  · rw [hw]
    exact step_later ok hmine hr

/-- What holds of the world of a pool with `n` goroutines. -/
structure Sane (w : World) (n : Nat) : Prop where
  ok : w.lib.Ok
  known : w.Known
  recent : w.Recent
  idle : ∀ g, n ≤ g → w.frames g = []

theorem init_sane (h : World.system.init w) : Sane w 0 := by
  refine ⟨init_ok h, init_known h, init_recent h, fun g _ => ?_⟩
  obtain ⟨_, _, hframes, _⟩ := h
  rw [hframes]

theorem Sane.more (sane : Sane w n) {m : Nat} (h : n ≤ m) : Sane w m :=
  ⟨sane.ok, sane.known, sane.recent, fun g hg => sane.idle g (Nat.le_trans h hg)⟩

theorem Moved.sane (sane : Sane s.world n) (hi : i < n) (h : Moved cfg i s t s' t' new c) :
    Sane s'.world n := by
  have later := h.later sane.ok
  have hidle : ∀ g, n ≤ g → s'.world.frames g = [] := by
    intro g hg
    rw [later.frames g (Nat.ne_of_gt (Nat.lt_of_lt_of_le hi hg))]
    exact sane.idle g hg
  rcases h.world with hsame | ⟨e, r, _, hr, hw⟩
  · rw [hsame]
    exact sane
  · rw [hw] at hidle ⊢
    exact ⟨step_ok sane.ok hr, step_known sane.ok sane.known hr,
      step_recent sane.ok sane.recent hr, hidle⟩

/-- A new pool. -/
def fresh : Threads TxnPool Goroutine := ⟨{}, []⟩

theorem fresh_init (cfg : Config) : (program cfg).system.init fresh :=
  ⟨⟨⟨rfl, rfl, rfl, rfl, rfl, rfl, by decide⟩, rfl, rfl, rfl, rfl⟩, rfl⟩

/-! ### The stack of a goroutine that the pool uses -/

/-- The function that the pool runs on `txn` is the first entry on a stack. -/
def Runs (kind : FrameKind) (txn : Handle) (fs : List Frame) : Prop :=
  ∃ l f, fs = l ++ [f] ∧ f.kind = kind ∧ f.txn = txn

theorem Runs.single {kind : FrameKind} {txn : Handle} {fs : List Frame} (h : Runs kind txn fs)
    (hlength : fs.length = 1) : ∃ f, fs = [f] ∧ f.kind = kind ∧ f.txn = txn := by
  obtain ⟨l, f, rfl, hkind, htxn⟩ := h
  have hnil : l = [] := by
    rw [List.length_append, List.length_singleton] at hlength
    exact List.eq_nil_of_length_eq_zero (by omega)
  subst hnil
  exact ⟨f, rfl, hkind, htxn⟩

/-- What happens in the function leaves its entry on the stack. -/
theorem step_runs {kind : FrameKind} {txn : Handle} {e : Event} {r : World × Reply}
    (hkind : ∀ flags, kind ≠ .amending flags) (hruns : Runs kind txn (s.world.frames i))
    (hmine : mine i e = true) (hinner : s.outermost e = false)
    (hr : s.world.step e = some r) : Runs kind txn (r.1.frames i) := by
  rcases step_cases hr with ⟨g, self, o, call, rfl, _, _, hexec⟩ | ⟨a, x, _, _, rfl⟩ |
    ⟨txnid, changes, _, _, _, _, rfl⟩ | ⟨_, rfl⟩
  · have hg : g = i := by simpa [mine] using hmine
    subst hg
    obtain ⟨l, f, hframes, hk, htxn⟩ := hruns
    cases exec_stacked hexec with
    | same hsame => exact ⟨l, f, by rw [hsame, hframes], hk, htxn⟩
    | pushed _ hpush =>
      rw [hpush, Function.update_self, hframes, ← List.cons_append]
      exact ⟨_, f, rfl, hk, htxn⟩
    | @popped f₀ fs hold hcall hpop =>
      rw [hpop, Function.update_self]
      cases l with
      | nil =>
        rw [hframes] at hold
        obtain ⟨rfl, rfl⟩ := List.cons.inj hold
        rcases hcall with ⟨_, flags, hflags⟩ | ⟨res, rfl⟩
        · exact absurd (hk.symm.trans hflags) (hkind flags)
        · simp [outermost, hframes] at hinner
      | cons f₁ l =>
        rw [hframes] at hold
        obtain ⟨_, rfl⟩ := List.cons.inj hold
        exact ⟨l, f, rfl, hk, htxn⟩
  · exact hruns
  · exact hruns
  · exact hruns

end TxnPool

end MdbxGo
