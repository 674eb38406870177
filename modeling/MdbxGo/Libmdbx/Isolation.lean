import MdbxGo.Libmdbx.Protected
import MdbxGo.Libmdbx.Turnover

/-! Readers beside a writer that recycles pages: what a snapshot consists of stays as it was
committed for as long as the snapshot is in use, and no page is ever lost or in two places. -/

namespace MdbxGo

open Threads Transition

/-! ### The system -/

/-- The database: the lock file and the meta pages with the threads that use them, where the other
pages are, and what they hold. -/
structure Database (α : Type) where
  mvcc : Threads Mvcc.Env Mvcc.Thread
  pages : Pages
  content : Nat → α

/-- What happens to a database: a thread makes a step of the readers' table or of the meta pages, a
commit with the records that `gc_update` has found; the holder of the writer lock does something
with pages; or it changes one. -/
inductive DatabaseEvent (α : Type)
  | access (e : Threads.Event Bool Mvcc.Choice) (rows : List (Nat × Pnl))
  | page (e : PageEvent)
  | write (pgno : Nat) (v : α)

/-- What a step of a thread is for the pages: `txn_basal_start` forgets what a transaction that has
been aborted did to them, and a commit is one of the pages too. -/
def Pages.accessed (p : Pages) (rows : List (Nat × Pnl)) :
    Threads.Event Bool Mvcc.Choice → Option Pages
  | .run _ .lock => some p.fresh
  | .run _ (.op (.commit txnid _ _)) => p.step 0 (.commit txnid rows)
  | _ => some p

/-- The event is a commit. -/
def PageEvent.isCommit : PageEvent → Bool
  | .commit _ _ => true
  | _ => false

namespace Database

variable {α : Type}

def next (db : Database α) : DatabaseEvent α → Option (Database α)
  | .access e rows =>
    (Mvcc.program.next db.mvcc e).bind fun mvcc =>
      (db.pages.accessed rows e).map fun pages => { db with mvcc := mvcc, pages := pages }
  | .page e =>
    if db.mvcc.shared.writer = .txn ∧ e.isCommit = false then
      (db.pages.step db.mvcc.shared.detent e).map fun pages => { db with pages := pages }
    else none
  -- page_touch: only pages that were lent are changed
  | .write pgno v =>
    if db.mvcc.shared.writer = .txn ∧ pgno ∈ db.pages.lent then
      some { db with content := Function.update db.content pgno v }
    else none

/-- A database that has just been opened. -/
structure Opened (db : Database α) : Prop where
  mvcc : Mvcc.program.system.init db.mvcc
  fresh : db.pages.fresh = db.pages
  sound : db.pages.Sound db.mvcc.shared.cachedOldest

def system (α : Type) : System (Database α) (DatabaseEvent α) where
  init := Opened
  step := next

variable {s s' : Database α} {i j t x : Nat}

/-! ### Invariant -/

/-- A step of a thread is one of the pages, or it leaves them. -/
theorem accessed_sound {p q : Pages} {oldest : Nat} {rows : List (Nat × Pnl)}
    {e : Threads.Event Bool Mvcc.Choice} (h : p.Sound oldest) (hfresh : p.fresh.Sound oldest)
    (hq : p.accessed rows e = some q) : q.Sound oldest ∧ q.fresh.Sound oldest := by
  unfold Pages.accessed at hq
  split at hq
  · cases hq
    exact ⟨hfresh, hfresh⟩
  · have hsound := h.step (Nat.zero_le oldest) hq
    rw [Pages.step] at hq
    split at hq
    · cases hq
      exact ⟨hsound, hsound⟩
    · cases hq
  · cases hq
    exact ⟨h, hfresh⟩

/-- A run of the database is one of its threads. -/
theorem run_mvcc (run : (system α).Reachable s) : Mvcc.program.system.Reachable s.mvcc := by
  induction run with
  | start h => exact .start h.mvcc
  | @next s s' e _ _ hstep ih =>
    cases e with
    | access e rows =>
      obtain ⟨mvcc, hmvcc, hpages⟩ := Option.bind_eq_some_iff.mp hstep
      obtain ⟨pages, -, rfl⟩ := Option.map_eq_some_iff.mp hpages
      exact .next ih trivial hmvcc
    | page e =>
      simp only [system, next] at hstep
      split at hstep
      · obtain ⟨pages, -, rfl⟩ := Option.map_eq_some_iff.mp hstep
        exact ih
      · cases hstep
    | write pgno v =>
      simp only [system, next] at hstep
      split at hstep
      · cases hstep
        exact ih
      · cases hstep

/-- The pages are sound, and would be after the transaction was aborted. -/
structure Kept (s : Database α) : Prop where
  sound : s.pages.Sound s.mvcc.shared.cachedOldest
  fresh : s.pages.fresh.Sound s.mvcc.shared.cachedOldest

theorem run_kept (run : (system α).Reachable s) : s.Kept := by
  induction run with
  | start h =>
    refine ⟨h.sound, ?_⟩
    rw [h.fresh]
    exact h.sound
  | @next s s' e run _ hstep ih =>
    cases e with
    | access e rows =>
      obtain ⟨mvcc, hmvcc, hpages⟩ := Option.bind_eq_some_iff.mp hstep
      obtain ⟨pages, haccessed, rfl⟩ := Option.map_eq_some_iff.mp hpages
      have hle := Mvcc.oldest_le_later (run_mvcc run) (.next (.start rfl) trivial hmvcc)
      obtain ⟨hsound, hfresh⟩ := accessed_sound ih.sound ih.fresh haccessed
      exact ⟨hsound.mono hle, hfresh.mono hle⟩
    | page e =>
      simp only [system, next] at hstep
      split at hstep
      · rename_i hguard
        obtain ⟨pages, hpages, rfl⟩ := Option.map_eq_some_iff.mp hstep
        obtain ⟨hmvcc, -⟩ := Mvcc.outline.holds (run_mvcc run)
        refine ⟨ih.sound.step hmvcc.detent hpages, ?_⟩
        have hsame := Pages.step_fresh hpages fun txnid rows heq => by
          rw [heq] at hguard
          cases hguard.2
        simp only [hsame]
        exact ih.fresh
      · cases hstep
    | write pgno v =>
      simp only [system, next] at hstep
      split at hstep
      · cases hstep
        exact ⟨ih.sound, ih.fresh⟩
      · cases hstep

/-! ### Snapshots -/

/-- A page of a snapshot is not one that the transaction was lent. -/
theorem Kept.not_lent (h : s.Kept) (hle : s.mvcc.shared.cachedOldest ≤ t)
    (hx : x ∈ s.pages.views t) : x ∉ s.pages.lent := by
  intro hlent
  obtain ⟨pl, hpl, hshow⟩ := h.sound.placed.kept t x hle hx
  have hsame := h.sound.placed.unique x pl .lent hpl hlent
  rw [hsame] at hshow
  exact hshow

/-- What is left later of the snapshot `t`, if it was committed before. -/
structure Same (t : Nat) (s s' : Database α) : Prop where
  oldest : s.mvcc.shared.cachedOldest ≤ s'.mvcc.shared.cachedOldest
  last : s.pages.last ≤ s'.pages.last
  views : t ≤ s.pages.last → s'.pages.views t = s.pages.views t
  content : t ≤ s.pages.last → s'.mvcc.shared.cachedOldest ≤ t →
    ∀ x ∈ s.pages.views t, s'.content x = s.content x

theorem Same.refl (t : Nat) (s : Database α) : Same t s s :=
  ⟨Nat.le_refl _, Nat.le_refl _, fun _ => rfl, fun _ _ _ _ => rfl⟩

theorem Same.trans {u : Database α} (h : Same t s s') (h' : Same t s' u) : Same t s u := by
  refine ⟨Nat.le_trans h.oldest h'.oldest, Nat.le_trans h.last h'.last, ?_, ?_⟩
  · intro hle
    exact (h'.views (Nat.le_trans hle h.last)).trans (h.views hle)
  · intro hle hold x hx
    have hmid : x ∈ s'.pages.views t := by
      rw [h.views hle]
      exact hx
    calc u.content x
      _ = s'.content x := h'.content (Nat.le_trans hle h.last) hold x hmid
      _ = s.content x := h.content hle (Nat.le_trans h'.oldest hold) x hx

theorem accessed_views {p q : Pages} {rows : List (Nat × Pnl)}
    {e : Threads.Event Bool Mvcc.Choice} (hq : p.accessed rows e = some q) :
    p.last ≤ q.last ∧ (t ≤ p.last → q.views t = p.views t) := by
  unfold Pages.accessed at hq
  split at hq
  · cases hq
    exact ⟨Nat.le_refl _, fun _ => rfl⟩
  · rename_i txnid _ _
    rw [Pages.step] at hq
    split at hq
    · rename_i hguard
      cases hq
      refine ⟨Nat.le_of_lt hguard.1, fun hle => ?_⟩
      have hlt := hguard.1
      have hother : t ≠ txnid := by omega
      simp only [Pages.commit, Pages.fresh, Function.update_of_ne hother]
    · cases hq
  · cases hq
    exact ⟨Nat.le_refl _, fun _ => rfl⟩

/-- One event leaves every snapshot that is not older than the oldest one in use. -/
theorem next_same {e : DatabaseEvent α} (run : (system α).Reachable s)
    (hstep : s.next e = some s') :
    Same t s s' := by
  cases e with
  | access e rows =>
    obtain ⟨mvcc, hmvcc, hpages⟩ := Option.bind_eq_some_iff.mp hstep
    obtain ⟨pages, haccessed, rfl⟩ := Option.map_eq_some_iff.mp hpages
    have hle := Mvcc.oldest_le_later (run_mvcc run) (.next (.start rfl) trivial hmvcc)
    obtain ⟨hlast, hviews⟩ := accessed_views haccessed
    exact ⟨hle, hlast, hviews, fun _ _ _ _ => rfl⟩
  | page e =>
    simp only [next] at hstep
    split at hstep
    · rename_i hguard
      obtain ⟨pages, hpages, rfl⟩ := Option.map_eq_some_iff.mp hstep
      have hsame := Pages.step_fresh hpages fun txnid rows heq => by
        rw [heq] at hguard
        cases hguard.2
      have hlast : pages.fresh.last = s.pages.fresh.last := by rw [hsame]
      have hviews : pages.fresh.views = s.pages.fresh.views := by rw [hsame]
      exact ⟨Nat.le_refl _, hlast.ge, fun _ => congrFun hviews t, fun _ _ _ _ => rfl⟩
    · cases hstep
  | write pgno v =>
    simp only [next] at hstep
    split at hstep
    · rename_i hguard
      cases hstep
      refine ⟨Nat.le_refl _, Nat.le_refl _, fun _ => rfl, fun _ hold x hx => ?_⟩
      have hother : x ≠ pgno := by
        intro heq
        rw [heq] at hx
        exact (run_kept run).not_lent hold hx hguard.2
      exact Function.update_of_ne hother _ _
    · cases hstep

/-- The run lemma: a snapshot stays until the oldest one in use is newer. -/
theorem same_later (run : (system α).Reachable s) (later : ((system α).after s).Reachable s') :
    Same t s s' :=
  run.related later (fun u => Same.refl t u) (fun _ _ _ h h' => h.trans h')
    fun _ _ _ hrun _ hstep => next_same hrun hstep

/-- In every interleaving of readers, commits, the reclaiming, retiring, refunding and handing out
of pages, and changes to pages: while a read transaction has a snapshot that was committed before,
the snapshot still consists of the same pages, and each holds what it held. -/
theorem snapshot_isolated (run : (system α).Reachable s)
    (later : ((system α).after s).Reachable s') {p : Mvcc.Thread}
    (hthread : s'.mvcc.threads[i]? = some p) (hsnap : p.snapshot = some (j, t))
    (hcommitted : t ≤ s.pages.last) :
    s'.pages.views t = s.pages.views t ∧ ∀ x ∈ s.pages.views t, s'.content x = s.content x := by
  have hsame := @same_later α s s' t run later
  obtain ⟨-, hold⟩ := Mvcc.oldest_le_snapshot (run_mvcc (run.trans later)) hthread hsnap
  exact ⟨hsame.views hcommitted, hsame.content hcommitted hold⟩

/-- The same holds, once its stores have arrived, of the snapshot that a recovery would fall back
on. -/
theorem steady_isolated (run : (system α).Reachable s)
    (later : ((system α).after s).Reachable s')
    (hwhole : ∀ todo after, s'.mvcc.shared.writer ≠ .storing todo after)
    (hcommitted : steadyOf (snaps s'.mvcc.shared.metas) ≤ s.pages.last) :
    s'.pages.views (steadyOf (snaps s'.mvcc.shared.metas)) =
        s.pages.views (steadyOf (snaps s'.mvcc.shared.metas)) ∧
      ∀ x ∈ s.pages.views (steadyOf (snaps s'.mvcc.shared.metas)), s'.content x = s.content x := by
  have hsame := @same_later α s s' (steadyOf (snaps s'.mvcc.shared.metas)) run later
  have hold := Mvcc.oldest_le_steady (run_mvcc (run.trans later)) hwhole
  exact ⟨hsame.views hcommitted, hsame.content hcommitted hold⟩

/-- In every state that the database reaches, each page past the meta pages is in exactly one place:
it is allocated to the trees or to the transaction, or it is on one of the lists of free pages, in
one record of the garbage collection table that has not been reclaimed, or was never allocated. So
none is lost, and none is handed out twice. -/
theorem pages_accounted (run : (system α).Reachable s) (x : Nat) :
    (numMetas ≤ x → ∃ pl, s.pages.At x pl ∧ ∀ pl', s.pages.At x pl' → pl' = pl) ∧
      (x < numMetas → ∀ pl, ¬ s.pages.At x pl) := by
  have hplaced := (run_kept run).sound.placed
  constructor
  · intro hx
    obtain ⟨pl, hpl⟩ := hplaced.place x hx
    exact ⟨pl, hpl, fun pl' hpl' => hplaced.unique x pl' pl hpl' hpl⟩
  · intro hx pl hpl
    have hge := hplaced.metas x pl hpl
    omega

/-! ### A run -/

/-- After the commit 7, which has replaced page 4 by page 3. -/
def sample : Database Nat where
  mvcc := ⟨Mvcc.sample, []⟩
  pages :=
    { base := 5, last := 7, upper := 10, rows := [(7, Pnl.ofList [4])]
      views := fun t => if t = 7 then [3] else if t = 6 then [4] else []
      first := 5, repnl := Pnl.ofList [], reclaimed := [], retired := Pnl.ofList [], loose := []
      refundWl := 0, lent := [] }
  content := id

theorem sample_at {pl : Place} : sample.pages.At x pl ↔
    (x = 3 ∧ pl = .tree) ∨ (x = 4 ∧ pl = .row 7) ∨ (5 ≤ x ∧ pl = .unallocated) := by
  cases pl with
  | tree =>
    have hnone : ¬ sample.pages.retired.Has x := not_has_nil
    simp [Pages.At, hnone, show sample.pages.views sample.pages.last = [3] from rfl]
  | lent | loose => simp [Pages.At, sample]
  | retired | repnl => simp [Pages.At, sample, not_has_nil]
  | row id =>
    have hhas : (Pnl.ofList [4]).Has x ↔ x = 4 := by
      rw [← Pnl.mem_pages, Pnl.pages_ofList, List.mem_singleton]
    simp only [Pages.At, sample, List.mem_singleton, Prod.mk.injEq]
    constructor
    · rintro ⟨-, pnl, ⟨rfl, rfl⟩, hx⟩
      exact .inr (.inl ⟨hhas.mp hx, rfl⟩)
    · rintro (⟨_, heq⟩ | ⟨rfl, heq⟩ | ⟨_, heq⟩) <;> cases heq
      exact ⟨List.not_mem_nil, _, ⟨rfl, rfl⟩, hhas.mpr rfl⟩
  | unallocated => simp [Pages.At, sample]

theorem sample_opened : Opened sample := by
  refine ⟨Mvcc.sample_opened, rfl, ⟨?_, ?_, ?_, ?_, ?_⟩, by decide, by decide, Pnl.sorted_nil _, ?_,
    by decide, by decide, List.nodup_nil⟩
  · intro x hx
    simp only [numMetas] at hx
    simp only [sample_at]
    by_cases h3 : x = 3
    · exact ⟨.tree, .inl ⟨h3, rfl⟩⟩
    · by_cases h4 : x = 4
      · exact ⟨.row 7, .inr (.inl ⟨h4, rfl⟩)⟩
      · exact ⟨.unallocated, .inr (.inr ⟨by omega, rfl⟩)⟩
  · intro x pl pl' hpl hpl'
    rcases sample_at.mp hpl with ⟨hx, rfl⟩ | ⟨hx, rfl⟩ | ⟨hx, rfl⟩ <;>
      rcases sample_at.mp hpl' with ⟨hx', rfl⟩ | ⟨hx', rfl⟩ | ⟨hx', rfl⟩ <;>
      first | rfl | omega
  · intro x pl hpl
    simp only [numMetas]
    rcases sample_at.mp hpl with ⟨hx, -⟩ | ⟨hx, -⟩ | ⟨hx, -⟩ <;> omega
  · intro s x _ hx
    by_cases h7 : s = 7
    · subst h7
      have hx : x ∈ [3] := hx
      exact ⟨.tree, sample_at.mpr (.inl ⟨List.mem_singleton.mp hx, rfl⟩), trivial⟩
    · by_cases h6 : s = 6
      · subst h6
        have hx : x ∈ [4] := hx
        have hless : 6 < 7 := by decide
        exact ⟨.row 7, sample_at.mpr (.inr (.inl ⟨List.mem_singleton.mp hx, rfl⟩)), hless⟩
      · simp [sample, h7, h6] at hx
  · intro s hs
    have hs : 7 < s := hs
    have h7 : s ≠ 7 := by omega
    have h6 : s ≠ 6 := by omega
    simp [sample, h7, h6]
  · intro r hr
    obtain rfl := List.mem_singleton.mp hr
    exact (pnlCheck_iff (by decide)).mp (by decide)

/-- The steps of the thread `i` that leave the pages. -/
def accesses (l : List (Threads.Event Bool Mvcc.Choice)) : List (DatabaseEvent Nat) :=
  l.map (.access · [])

/-- A reader takes the snapshot 7. The writer replaces page 3 by page 5 and commits, and the next
transaction reclaims page 4, which no reader needs any more, and changes it. -/
def sampleRun : List (DatabaseEvent Nat) :=
  [accesses [.enter false, .enter true, .run 0 .bind, .run 0 .begin],
    accesses (Mvcc.onward 0 23), accesses [.run 0 (.fetched .ok)], accesses (Mvcc.onward 0 2),
    accesses [.run 1 .lock], [.page (.tail 1), .page (.retire 3 1), .write 5 50],
    [.access (.run 1 (.op (.commit 8 metaSignCalculate none))) [(8, Pnl.ofList [3])]],
    accesses (Mvcc.onward 1 6), accesses [.run 1 (.op .unlock), .run 1 .lock],
    accesses [.run 1 (.op .force), .run 1 (.op .detent)], accesses (Mvcc.onward 1 10),
    [.page (.reclaim 7 0), .page .single, .write 4 40]].flatten

theorem snapshot_isolated_reused : ∃ s : Database Nat,
    s.mvcc.threads[0]? = some (.running 0 7) ∧ s.pages.last = 8 ∧ s.content 4 = 40 ∧
      s.pages.views 7 = sample.pages.views 7 ∧
      ∀ x ∈ sample.pages.views 7, s.content x = sample.content x := by
  obtain ⟨s, later, hs⟩ := System.exists_of_replay ((system Nat).after sample) (fun _ _ => True)
    sampleRun sample (fun s => decide (s.mvcc.threads[0]? = some (Mvcc.Thread.running 0 7) ∧
      s.pages.last = 8 ∧ s.content 4 = 40)) rfl (by decide +kernel)
  obtain ⟨hthread, hlast, hreused⟩ := of_decide_eq_true hs
  exact ⟨s, hthread, hlast, hreused,
    snapshot_isolated (.start sample_opened) later hthread rfl (by decide)⟩

theorem steady_isolated_changed : ∃ s : Database Nat,
    s.content 5 = 50 ∧ steadyOf (snaps s.mvcc.shared.metas) = 6 ∧
      s.pages.views (steadyOf (snaps s.mvcc.shared.metas)) =
        sample.pages.views (steadyOf (snaps s.mvcc.shared.metas)) ∧
      ∀ x ∈ sample.pages.views (steadyOf (snaps s.mvcc.shared.metas)),
        s.content x = sample.content x := by
  obtain ⟨s, later, hs⟩ := System.exists_of_replay ((system Nat).after sample) (fun _ _ => True)
    (accesses [.enter true, .run 0 .lock] ++ [.page (.tail 1), .write 5 50]) sample
    (fun s => decide (s.mvcc.shared.writer = .txn ∧ s.content 5 = 50 ∧
      steadyOf (snaps s.mvcc.shared.metas) = 6)) rfl (by decide +kernel)
  obtain ⟨hwriter, hchanged, hsteady⟩ := of_decide_eq_true hs
  refine ⟨s, hchanged, hsteady, steady_isolated (.start sample_opened) later ?_ ?_⟩
  · intro todo after hstoring
    rw [hwriter] at hstoring
    cases hstoring
  · rw [hsteady]
    decide

theorem pages_accounted_reused : ∃ s : Database Nat, s.pages.lent = [4] ∧
    ∃ pl, s.pages.At 4 pl ∧ ∀ pl', s.pages.At 4 pl' → pl' = pl := by
  obtain ⟨s, run, hs⟩ := System.exists_of_replay (system Nat) (fun _ _ => True) sampleRun sample
    (fun s => decide (s.pages.lent = [4])) sample_opened (by decide +kernel)
  exact ⟨s, of_decide_eq_true hs, (pages_accounted run 4).1 (by decide)⟩

end Database

end MdbxGo
