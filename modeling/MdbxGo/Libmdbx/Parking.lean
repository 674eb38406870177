import MdbxGo.Libmdbx.Locality

/-! What the calls of libmdbx do to the snapshot of a reader and to its parking: which keep both,
which take it out of its parking, and which end with a reader that holds no snapshot. -/

namespace MdbxGo

namespace ReadTxn

variable {o : Sys} {fatal : Bool} {recent : UInt64} {r s t : ReadTxn}

/-- `s` is `r` as far as its snapshot and its parking go. -/
structure Alike (r s : ReadTxn) : Prop where
  finished : s.finished = r.finished
  parked : s.parked = r.parked
  txnid : s.txnid = r.txnid

theorem Alike.refl (r : ReadTxn) : Alike r r := ⟨rfl, rfl, rfl⟩

theorem isParked_of_finished (h : r.finished = true) : r.isParked = false := by
  simp [isParked, h]

theorem isParked_of_unparked (h : r.parked = false) : r.isParked = false := by
  simp [isParked, h]

theorem isParked_iff : r.isParked = true ↔ r.parked = true ∧ r.finished = false := by
  simp [isParked]

/-! ### Reset and start -/

/-- A start leaves a reader that is not parked. -/
theorem txnRoStart_isParked (r : ReadTxn) (prepareOnly : Bool) :
    (r.txnRoStart o recent prepareOnly).1.isParked = false := by
  unfold txnRoStart
  dsimp only
  split
  · rfl
  · split
    · rfl
    · split
      · exact isParked_of_finished rfl
      · rfl

theorem txnRoStart_success (hget : o.roSlotGet = none) (hstart : o.roStart = none) (r : ReadTxn) :
    (r.txnRoStart o recent false).2 = Code.success := by
  simp [txnRoStart, hget, hstart]

/-- A call that ends with a start, and leaves a reader that is not parked. -/
theorem restart_isParked (r : ReadTxn) :
    let reset := if r.finished then (r, Code.success) else r.txnRoReset o
    (if reset.2 != Code.success then reset
      else reset.1.txnRoStart o recent false).1.isParked = false := by
  intro reset
  split
  · cases hfin : r.finished with
    | true => exact isParked_of_finished (by simp [reset, hfin])
    | false => exact isParked_of_finished (by simp [reset, hfin])
  · exact txnRoStart_isParked _ false

theorem mdbxTxnReset_isParked (h : (r.mdbxTxnReset o fatal).1.isParked = true) :
    fatal = true ∧ r.isParked = true := by
  unfold mdbxTxnReset at h
  split at h
  · rename_i hfatal
    exact ⟨hfatal, h⟩
  · rw [isParked_of_finished (r.txnRoReset_finished _)] at h
    cases h

theorem mdbxTxnRenew_isParked (h : (r.mdbxTxnRenew o fatal recent).1.isParked = true) :
    fatal = true ∧ r.isParked = true := by
  unfold mdbxTxnRenew at h
  split at h
  · rename_i hfatal
    exact ⟨hfatal, h⟩
  · rw [restart_isParked] at h
    cases h

theorem mdbxTxnRefresh_isParked (h : (r.mdbxTxnRefresh o fatal recent).1.isParked = true) :
    r.isParked = true := by
  unfold mdbxTxnRefresh at h
  split at h
  · exact h
  · split at h
    · exact h
    · rw [restart_isParked] at h
      cases h

theorem mdbxTxnRollback_isParked (h : (r.mdbxTxnRollback o recent).1.isParked = true) :
    r.isParked = true := by
  unfold mdbxTxnRollback at h
  split at h
  · exact h
  · dsimp only at h
    split at h
    · rw [isParked_of_finished (txnRoReset_finished _ _)] at h
      cases h
    · rw [txnRoStart_isParked] at h
      cases h

/-! ### Unparking -/

/-- What an unpark without a restart has done: nothing, or a parked reader goes on with its
snapshot, or it was reset. -/
inductive Unparked (fatal : Bool) (r s : ReadTxn) : Prop
  | same : s = r → Unparked fatal r s
  | live : fatal = false → r.isParked = true → s.finished = false → s.parked = false →
      s.txnid = r.txnid → Unparked fatal r s
  | lost : fatal = false → r.isParked = true → s.finished = true → Unparked fatal r s

theorem hits_blockedNested (r : ReadTxn) : r.hits Bits.blockedNested = r.finished := by
  simp [hits, Bits.blockedNested]

theorem mdbxTxnUnpark_unparked (r : ReadTxn) :
    Unparked fatal r (r.mdbxTxnUnpark o fatal recent false).1 := by
  unfold mdbxTxnUnpark
  rw [hits_blockedNested]
  split
  · exact .same rfl
  · rename_i hfin
    split
    · exact .same rfl
    · rename_i hfatal
      split
      · exact .same rfl
      · rename_i hparked
        have hfin : r.finished = false := by simpa using hfin
        have hparked : r.isParked = true := isParked_iff.mpr ⟨by simpa using hparked, hfin⟩
        have hfatal : fatal = false := by simpa using hfatal
        simp only [Bool.not_false, Bool.or_true, if_true]
        unfold txnRoUnpark
        split
        · exact .same rfl
        · split
          · exact .same rfl
          · split
            · exact .lost hfatal hparked rfl
            · exact .live hfatal hparked hfin rfl rfl

theorem checkTxn_unparked (bits : Bits) (r : ReadTxn) :
    Unparked fatal r (r.checkTxn o fatal recent bits).1 := by
  unfold checkTxn checkTxnAnythread
  dsimp only
  split
  · split
    · exact .same rfl
    · split
      · exact .same rfl
      · split
        · exact .same rfl
        · exact mdbxTxnUnpark_unparked r
  · exact .same rfl

theorem Unparked.alike (h : Unparked fatal r s) (hst : Alike s t) :
    Alike r t ∨ (fatal = false ∧ r.isParked = true ∧ t.isParked = false ∧
      (t.txnid = r.txnid ∨ t.finished = true)) := by
  cases h with
  | same h =>
    subst h
    exact .inl hst
  | live hfatal hparked _ hunparked htxnid =>
    exact .inr ⟨hfatal, hparked, isParked_of_unparked (hst.parked.trans hunparked),
      .inl (hst.txnid.trans htxnid)⟩
  | lost hfatal hparked hfin =>
    have hfin := hst.finished.trans hfin
    exact .inr ⟨hfatal, hparked, isParked_of_finished hfin, .inr hfin⟩

theorem mdbxGet_unparked (r : ReadTxn) :
    ∃ s, Unparked fatal r s ∧ Alike s (r.mdbxGet o fatal recent).1 := by
  refine ⟨(r.checkTxn o fatal recent Bits.blocked).1, checkTxn_unparked _ r, ?_⟩
  unfold mdbxGet
  dsimp only
  split
  · exact .refl _
  · exact ⟨rfl, rfl, rfl⟩

/-! ### Parking -/

theorem checkTxn_blockedNoError (hfin : r.finished = true) :
    (r.checkTxn o fatal recent Bits.blockedNoError).2 ≠ Code.success := by
  have hhits : r.hits Bits.blockedNoError = true := by
    simp [hits, Bits.blockedNoError, Bits.blocked, hfin]
  unfold checkTxn checkTxnAnythread
  rw [if_pos hhits]
  simp [Bits.blockedNoError, Bits.blocked, hfin, Code.badTxn, Code.success]

theorem txnRoPark_cases (autounpark : Bool) (r : ReadTxn) :
    ((r.txnRoPark o autounpark).2 ≠ Code.success ∧ (r.txnRoPark o autounpark).1 = r) ∨
    (r.finished = false ∧ r.parked = false ∧ o.slotMismatch = false ∧
      (r.txnRoPark o autounpark).2 = Code.success ∧
      (r.txnRoPark o autounpark).1.finished = false ∧
      (r.txnRoPark o autounpark).1.txnid = r.txnid) := by
  unfold txnRoPark
  split
  · exact .inl ⟨show Code.badTxn ≠ Code.success by decide, rfl⟩
  · rename_i hblocked
    obtain ⟨hfin, hparked⟩ : r.finished = false ∧ r.parked = false := by simpa using hblocked
    split
    · exact .inl ⟨show Code.problem ≠ Code.success by decide, rfl⟩
    · rename_i hmismatch
      have hmismatch : o.slotMismatch = false := by simpa using hmismatch
      split
      · exact .inl ⟨show Code.badRslot ≠ Code.success by decide, rfl⟩
      · split
        · exact .inr (by simp [roSlotClean, hmismatch, hfin, hparked])
        · exact .inr ⟨hfin, hparked, hmismatch, rfl, hfin, rfl⟩

/-- A park that succeeds keeps the snapshot, and one that fails may have unparked the reader. -/
theorem mdbxTxnPark_cases (autounpark : Bool) (r : ReadTxn) :
    Unparked fatal r (r.mdbxTxnPark o fatal recent autounpark).1 ∧
      (r.mdbxTxnPark o fatal recent autounpark).2 ≠ Code.success ∨
    r.finished = false ∧ (r.mdbxTxnPark o fatal recent autounpark).2 = Code.success ∧
      (r.mdbxTxnPark o fatal recent autounpark).1.txnid = r.txnid := by
  have hchecked : Unparked fatal r (r.checkTxn o fatal recent Bits.blockedNoError).1 :=
    checkTxn_unparked _ r
  unfold mdbxTxnPark
  dsimp only
  split
  · rename_i hcode
    exact .inl ⟨hchecked, by simpa using hcode⟩
  · rename_i hcode
    have hlive : r.finished = false := by
      by_contra hfin
      exact checkTxn_blockedNoError (by simpa using hfin) (by simpa using hcode)
    split
    · exact .inl ⟨hchecked, show Code.panic ≠ Code.success by decide⟩
    · rcases txnRoPark_cases (o := o) autounpark
        (r.checkTxn o fatal recent Bits.blockedNoError).1 with
        ⟨hcode', hsame⟩ | ⟨hfin, _, _, hsuccess, _, htxnid⟩
      · exact .inl ⟨hsame.symm ▸ hchecked, hcode'⟩
      · refine .inr ⟨hlive, hsuccess, htxnid.trans ?_⟩
        cases hchecked with
        | same h => rw [h]
        | live _ _ _ _ h => exact h
        | lost _ _ h =>
          rw [hfin] at h
          cases h

/-! ### Unparking with a restart -/

/-- An unpark finds that the snapshot of a parked reader is gone. -/
def loses (fatal : Bool) (r : ReadTxn) : Bool := r.isParked && !fatal && r.lost

/-- An unpark does what its `Txn` takes it to have done. With an id that the `Txn` remembers, a
parked reader was not reset by a read before; the slot is its own; and a reader that has lost its
snapshot lost it to a writer, and starts anew if it is to. -/
structure UnparkReady (o : Sys) (fatal restart : Bool) (x : UInt64) (noted : Bool)
    (r : ReadTxn) : Prop where
  unread : x ≠ 0 → noted = true → r.finished = false
  slot : r.isParked = true → fatal = false → o.slotMismatch = false
  ousted : x ≠ 0 → r.loses fatal = true → r.slotTid = .ousted ∧
    (restart = true → o.roSlotGet.isNone = true ∧ o.roStart.isNone = true)

instance (o : Sys) (fatal restart : Bool) (x : UInt64) (noted : Bool) (r : ReadTxn) :
    Decidable (UnparkReady o fatal restart x noted r) :=
  decidable_of_iff ((x ≠ 0 → noted = true → r.finished = false) ∧
    (r.isParked = true → fatal = false → o.slotMismatch = false) ∧
    (x ≠ 0 → r.loses fatal = true → r.slotTid = .ousted ∧
      (restart = true → o.roSlotGet.isNone = true ∧ o.roStart.isNone = true)))
    ⟨fun ⟨hread, hslot, hous⟩ => ⟨hread, hslot, hous⟩,
      fun ⟨hread, hslot, hous⟩ => ⟨hread, hslot, hous⟩⟩

/-- An unpark of a reader that is not parked, or after a fatal error, does nothing. -/
theorem mdbxTxnUnpark_idle (restart : Bool) (h : r.isParked = true → fatal = true) :
    (r.mdbxTxnUnpark o fatal recent restart).1 = r := by
  unfold mdbxTxnUnpark
  rw [hits_blockedNested]
  split
  · rfl
  · rename_i hfin
    split
    · rfl
    · rename_i hfatal
      split
      · rfl
      · rename_i hparked
        exact absurd (h (isParked_iff.mpr ⟨by simpa using hparked, by simpa using hfin⟩)) hfatal

theorem txnRoUnpark_lost (hslot : o.slotMismatch = false) (hparked : r.isParked = true)
    (hlost : r.lost = true) : (r.txnRoUnpark o).1 = (r.txnRoReset o).1 ∧
      (r.slotTid = .ousted → (r.txnRoUnpark o).2 = Code.ousted) := by
  obtain ⟨hp, hfin⟩ := isParked_iff.mp hparked
  simp only [txnRoUnpark, hfin, hp, hslot, hlost, Bool.not_true, Bool.or_false, Bool.false_eq_true,
    if_false, if_true]
  refine ⟨trivial, fun housted => ?_⟩
  simp [txnRoReset, roSlotClean, hslot, hfin, hp, housted]

theorem txnRoUnpark_kept (hslot : o.slotMismatch = false) (hparked : r.isParked = true)
    (hlost : r.lost = false) : (r.txnRoUnpark o) =
      ({ r with parked := false, autounpark := false, slotTid := .owner }, Code.success) := by
  obtain ⟨hp, hfin⟩ := isParked_iff.mp hparked
  simp [txnRoUnpark, hfin, hp, hslot, hlost]

/-- An unpark of a parked reader: it is parked no more, and has kept its snapshot, or the code says
that it has lost it. -/
theorem mdbxTxnUnpark_ready {restart : Bool} {x : UInt64} {noted : Bool}
    (ready : UnparkReady o fatal restart x noted r) (hparked : r.isParked = true)
    (hfatal : fatal = false) :
    (r.mdbxTxnUnpark o fatal recent restart).1.isParked = false ∧
      (x ≠ 0 → (r.mdbxTxnUnpark o fatal recent restart).2 = Code.resultTrue ∨
        (r.mdbxTxnUnpark o fatal recent restart).2 = Code.ousted ∨
        (r.mdbxTxnUnpark o fatal recent restart).1.txnid = r.txnid) := by
  obtain ⟨hp, hfin⟩ := isParked_iff.mp hparked
  have hslot := ready.slot hparked hfatal
  unfold mdbxTxnUnpark
  rw [hits_blockedNested]
  simp only [hfin, hfatal, hp, Bool.not_true, Bool.false_eq_true, if_false]
  cases hlost : r.lost with
  | false =>
    rw [txnRoUnpark_kept hslot hparked hlost]
    exact ⟨isParked_of_unparked rfl, fun _ => .inr (.inr rfl)⟩
  | true =>
    obtain ⟨hreset, hcode⟩ := txnRoUnpark_lost hslot hparked hlost
    have hloses : r.loses fatal = true := by simp [loses, hparked, hfatal, hlost]
    have hfin' : (r.txnRoUnpark o).1.isParked = false := by
      rw [hreset]
      exact isParked_of_finished rfl
    split
    · exact ⟨hfin', fun hx => .inr (.inl (hcode (ready.ousted hx hloses).1))⟩
    · rename_i hgoes
      have hrestart : restart = true := by
        cases restart with
        | true => rfl
        | false => simp at hgoes
      refine ⟨txnRoStart_isParked _ false, fun hx => .inl ?_⟩
      obtain ⟨hget, hstart⟩ := (ready.ousted hx hloses).2 hrestart
      simp [txnRoStart_success (Option.isNone_iff_eq_none.mp hget)
        (Option.isNone_iff_eq_none.mp hstart)]

theorem oust_alike (r : ReadTxn) : Alike r r.oust := by
  unfold oust
  split <;> exact ⟨rfl, rfl, rfl⟩

/-! ### Snapshots that are not lost -/

/-- The snapshot that a reader holds, also while it is parked. -/
def snapshot (r : ReadTxn) : Option UInt64 := if r.finished then none else some r.txnid

theorem snapshot_congr (hfin : s.finished = r.finished) (hid : s.txnid = r.txnid) :
    s.snapshot = r.snapshot := by
  rw [snapshot, snapshot, hfin, hid]

theorem oust_snapshot (r : ReadTxn) : r.oust.snapshot = r.snapshot :=
  snapshot_congr r.oust_alike.finished r.oust_alike.txnid

/-- An unpark resets a reader only when its snapshot was lost. -/
theorem txnRoUnpark_snapshot (hkept : r.isParked = true → r.lost = true → o.slotMismatch = true) :
    (r.txnRoUnpark o).1.snapshot = r.snapshot ∧ (r.txnRoUnpark o).2 ≠ Code.ousted := by
  unfold txnRoUnpark
  split
  · exact ⟨rfl, show Code.badTxn ≠ Code.ousted by decide⟩
  · rename_i hparked
    split
    · exact ⟨rfl, show Code.problem ≠ Code.ousted by decide⟩
    · rename_i hslot
      split
      · rename_i hlost
        obtain ⟨hfin, hp⟩ : r.finished = false ∧ r.parked = true := by simpa using hparked
        exact absurd (hkept (isParked_iff.mpr ⟨hp, hfin⟩) hlost) hslot
      · exact ⟨snapshot_congr rfl rfl, show Code.success ≠ Code.ousted by decide⟩

theorem mdbxTxnUnpark_snapshot (restart : Bool)
    (hkept : r.loses fatal = true → o.slotMismatch = true) :
    (r.mdbxTxnUnpark o fatal recent restart).1.snapshot = r.snapshot := by
  unfold mdbxTxnUnpark
  split
  · rfl
  · split
    · rfl
    · rename_i hfatal
      split
      · rfl
      · have hkept : r.isParked = true → r.lost = true → o.slotMismatch = true := by
          intro hparked hlost
          exact hkept (by simp [loses, hparked, hlost, hfatal])
        obtain ⟨hsame, hcode⟩ := txnRoUnpark_snapshot hkept
        rw [if_pos (by simp [hcode])]
        exact hsame

theorem checkTxn_snapshot {bits : Bits} (hkept : r.autounpark = true →
    (bits.error && r.error) = false → r.loses fatal = true → o.slotMismatch = true) :
    (r.checkTxn o fatal recent bits).1.snapshot = r.snapshot := by
  unfold checkTxn checkTxnAnythread
  dsimp only
  split
  · split
    · rfl
    · split
      · rfl
      · split
        · rfl
        · rename_i hpass
          simp only [Bool.or_eq_true, Bool.not_eq_true', not_or, Bool.not_eq_false,
            Bool.and_eq_true] at hpass
          obtain ⟨⟨⟨_, hauto⟩, _⟩, herror⟩ := hpass
          exact mdbxTxnUnpark_snapshot false (hkept hauto (by simpa using herror))
  · rfl

theorem mdbxGet_snapshot (hkept : r.autounpark = true → r.error = false → r.loses fatal = true →
    o.slotMismatch = true) : (r.mdbxGet o fatal recent).1.snapshot = r.snapshot := by
  have hchecked := @checkTxn_snapshot o fatal recent r Bits.blocked (by
    simpa [Bits.blocked] using hkept)
  unfold mdbxGet
  dsimp only
  split
  · exact hchecked
  · exact (snapshot_congr rfl rfl).trans hchecked

theorem txnRoPark_snapshot (autounpark : Bool) (r : ReadTxn) :
    (r.txnRoPark o autounpark).1.snapshot = r.snapshot := by
  rcases txnRoPark_cases (o := o) autounpark r with ⟨_, hsame⟩ | ⟨hfin, _, _, _, hfin', htxnid⟩
  · rw [hsame]
  · exact snapshot_congr (hfin'.trans hfin.symm) htxnid

theorem mdbxTxnPark_snapshot (autounpark : Bool) (hkept : r.autounpark = true →
    r.loses fatal = true → o.slotMismatch = true) :
    (r.mdbxTxnPark o fatal recent autounpark).1.snapshot = r.snapshot := by
  have hchecked := @checkTxn_snapshot o fatal recent r Bits.blockedNoError fun hauto _ =>
    hkept hauto
  unfold mdbxTxnPark
  dsimp only
  split
  · exact hchecked
  · split
    · exact hchecked
    · exact (txnRoPark_snapshot autounpark _).trans hchecked

end ReadTxn

namespace ReadTxn

variable {o : Sys} {recent txnid : UInt64} {r origin : ReadTxn}

/-! ### Cloning -/

theorem txnRoClone_success (h : (r.txnRoClone o origin).2 = Code.success) :
    o.roSlotGet = none ∧ (decide (origin.txnid < 1) || decide (maxTxnid < origin.txnid)) = false ∧
      (origin.parked = true ∨ o.roStart = none) ∧
      (r.txnRoClone o origin).1.parked = origin.parked := by
  unfold txnRoClone at h ⊢
  split at h
  · rename_i e _
    exact absurd h e.not_success
  · rename_i hget
    split at h
    · exact absurd h (show Code.badTxn ≠ Code.success by decide)
    · rename_i hvalid
      have hvalid := Bool.not_eq_true _ ▸ hvalid
      rw [if_neg (by rw [hvalid]; decide)]
      rw [Bool.or_assoc, Bool.or_eq_false_iff] at hvalid
      dsimp only at h ⊢
      split at h
      · rename_i e _
        exact absurd h e.not_success
      · rename_i hstart
        refine ⟨hget, hvalid.2, ?_, ?_⟩
        · cases hparked : origin.parked with
          | true => exact .inl rfl
          | false => exact .inr (by simpa [hparked] using hstart)
        · rfl

theorem txnRoClone_ready (hget : o.roSlotGet = none) (hlive : origin.finished = false)
    (hvalid : (decide (origin.txnid < 1) || decide (maxTxnid < origin.txnid)) = false)
    (hstart : origin.parked = true ∨ o.roStart = none) :
    (r.txnRoClone o origin).2 = Code.success := by
  unfold txnRoClone
  rw [hget]
  dsimp only
  rw [if_neg (by rw [Bool.or_assoc, hvalid, hlive]; decide)]
  rcases hstart with hparked | hstart
  · simp [hparked]
  · simp [hstart]

theorem txnRoCloneWriter_ready (hget : o.roSlotGet = none)
    (hvalid : (decide (txnid < 1) || decide (maxTxnid < txnid)) = false)
    (hstart : o.roStart = none) :
    (r.txnRoCloneWriter o recent txnid).2 = Code.success ∧
      (r.txnRoCloneWriter o recent txnid).1.txnid = recent := by
  unfold txnRoCloneWriter
  rw [hget]
  dsimp only
  rw [if_neg (by rw [hvalid]; decide), hstart]
  exact ⟨rfl, rfl⟩

theorem txnRoCloneWriter_parked (h : (r.txnRoCloneWriter o recent txnid).2 = Code.success) :
    (r.txnRoCloneWriter o recent txnid).1.parked = false := by
  unfold txnRoCloneWriter at h ⊢
  split at h
  · rename_i e _
    exact absurd h e.not_success
  · split at h
    · exact absurd h (show Code.badTxn ≠ Code.success by decide)
    · rename_i hvalid
      rw [if_neg hvalid]
      dsimp only
      split <;> rfl

end ReadTxn

namespace MdbxEnv

variable {env : MdbxEnv} {o : Sys} {source : Option Ptr} {a : Addr} {r s t : ReadTxn}

/-- Nothing keeps `mdbx_txn_clone` from taking the snapshot of its origin. -/
def cloneReady (o : Sys) (env : MdbxEnv) (source : Option Ptr) : Bool :=
  env.checkClone source == Code.success && o.roSlotGet.isNone &&
    match (env.cloneSource source).2 with
    | .reader origin =>
      !(origin.txnid < 1 || maxTxnid < origin.txnid) && (origin.parked || o.roStart.isNone)
    | .writer txnid =>
      !(txnid < 1 || maxTxnid < txnid) && o.roStart.isNone && txnid - 1 == env.recent

/-- A clone of the origin gets its parked flags. -/
def cloneParks (o : Sys) (env : MdbxEnv) (source : Option Ptr) : Bool :=
  env.cloneReady o source &&
    match (env.cloneSource source).2 with
    | .reader origin => origin.parked
    | .writer _ => false

/-- Nothing keeps `mdbx_txn_clone` from taking the snapshot of its origin into the reader `t`. -/
def cloneIntoReady (o : Sys) (env : MdbxEnv) (source : Option Ptr) (a : Addr) (t : ReadTxn) :
    Bool :=
  env.cloneReady o source && source != some (.reader a) && (t.finished || !o.slotMismatch)

theorem checkClone_success (h : env.checkClone source = Code.success) :
    (env.cloneSource source).1 = Code.success := by
  unfold checkClone at h
  split at h
  · exact h
  · rename_i hsource
    simpa using hsource

theorem live_of_cloneSource {origin : ReadTxn} (h : (env.cloneSource source).1 = Code.success)
    (hr : (env.cloneSource source).2 = .reader origin) : origin.finished = false := by
  unfold cloneSource at h hr
  split at hr
  · cases hr
  · split at hr
    · cases hr
    · rename_i heq
      cases hr
      simp only [heq] at h
      split at h
      · exact absurd h (by decide)
      · rename_i hfin
        simpa using hfin
  · cases hr

theorem cloneInto_ready (h : env.cloneReady o source = true) (r : ReadTxn) :
    (cloneInto o (env.cloneSource source).2 env.recent r).2 = Code.success := by
  simp only [cloneReady, Bool.and_eq_true, beq_iff_eq, Option.isNone_iff_eq_none] at h
  obtain ⟨⟨hcheck, hget⟩, hrest⟩ := h
  have hlive := fun origin => @live_of_cloneSource env source origin (checkClone_success hcheck)
  revert hrest hlive
  cases (env.cloneSource source).2 with
  | reader origin =>
    intro hrest hlive
    simp only [Bool.and_eq_true, Bool.not_eq_true', Bool.or_eq_true, Option.isNone_iff_eq_none]
      at hrest
    simp [cloneInto, ReadTxn.txnRoClone_ready hget (hlive origin rfl) hrest.1 hrest.2]
  | writer txnid =>
    intro hrest _
    simp only [Bool.and_eq_true, Bool.not_eq_true', beq_iff_eq, Option.isNone_iff_eq_none] at hrest
    obtain ⟨⟨hvalid, hstart⟩, hrecent⟩ := hrest
    obtain ⟨hcode, htxnid⟩ :=
      @ReadTxn.txnRoCloneWriter_ready o env.recent txnid r hget hvalid hstart
    simp [cloneInto, hcode, htxnid, hrecent]

/-- A clone that is parked has a parked origin. -/
theorem cloneInto_parks (hcheck : env.checkClone source = Code.success)
    (hcode : (cloneInto o (env.cloneSource source).2 env.recent r).2 = Code.success)
    (hp : (cloneInto o (env.cloneSource source).2 env.recent r).1.isParked = true) :
    env.cloneParks o source = true := by
  simp only [cloneParks, cloneReady, hcheck, BEq.rfl, Bool.true_and]
  revert hcode hp
  cases (env.cloneSource source).2 with
  | writer txnid =>
    intro hcode hp
    simp only [cloneInto] at hcode hp
    split at hcode
    · rename_i hne
      exact absurd hcode (by simpa using hne)
    · rename_i hsuccess
      rw [if_neg hsuccess] at hp
      have hparked := ReadTxn.txnRoCloneWriter_parked (by simpa using hsuccess)
      rw [ReadTxn.isParked_of_unparked hparked] at hp
      cases hp
  | reader origin =>
    intro hcode hp
    simp only [cloneInto] at hcode hp
    split at hcode
    · rename_i hne
      exact absurd hcode (by simpa using hne)
    · rename_i hsuccess
      rw [if_neg hsuccess] at hp
      obtain ⟨hget, hvalid, hstart, hparked⟩ := ReadTxn.txnRoClone_success (by simpa using hsuccess)
      have horigin : origin.parked = true := hparked ▸ (ReadTxn.isParked_iff.mp hp).1
      simp only [hget, hvalid, horigin, Option.isNone_none, Bool.not_false, Bool.true_or,
        Bool.and_self]

theorem mdbxTxnClone_parks {client : Handle} {r : ReadTxn}
    (hcode : (env.mdbxTxnClone o client source).2.1 = Code.success)
    (hr : (env.mdbxTxnClone o client source).1.readers env.brk = some r)
    (hp : r.isParked = true) : env.cloneParks o source = true ∧ o.alloc.isNone = true := by
  unfold mdbxTxnClone at hcode hr
  split at hcode
  · rename_i hcheck
    exact absurd hcode (by simpa using hcheck)
  · rename_i hcheck
    rw [if_neg hcheck] at hr
    split at hcode
    · exact absurd hcode (show Code.enomem ≠ Code.success by decide)
    · rename_i halloc
      rw [if_neg halloc] at hr
      dsimp only at hcode hr
      split at hcode
      · rename_i hne
        exact absurd hcode (by simpa using hne)
      · rename_i hsuccess
        rw [if_neg hsuccess] at hr
        have hr : some _ = some r := (setReader_self _ _ _).symm.trans hr
        rw [← Option.some.inj hr] at hp
        exact ⟨cloneInto_parks (by simpa using hcheck) (by simpa using hsuccess) hp,
          by simpa using halloc⟩

theorem cloneSource_setReader (h : source ≠ some (.reader a)) (x : Option ReadTxn) :
    (env.setReader a x).cloneSource source = env.cloneSource source := by
  cases source with
  | none => rfl
  | some p =>
    cases p with
    | basal => rfl
    | nested b => rfl
    | reader b =>
      have hb : b ≠ a := fun heq => h (heq ▸ rfl)
      simp only [cloneSource, setReader_other hb]

theorem checkClone_setReader (h : source ≠ some (.reader a)) (x : Option ReadTxn) :
    (env.setReader a x).checkClone source = env.checkClone source := by
  unfold checkClone
  rw [cloneSource_setReader h]
  rfl

/-- The origin of a clone into itself has been reset. -/
theorem checkClone_self {x : ReadTxn} (hfin : x.finished = true) :
    (env.setReader a (some x)).checkClone (some (.reader a)) ≠ Code.success := by
  have hsource : ((env.setReader a (some x)).cloneSource (some (.reader a))).1 = Code.badTxn := by
    simp [cloneSource, setReader, hfin]
  unfold checkClone
  rw [hsource, if_pos (by decide)]
  decide

theorem reader_cloneBailout {code : Code} (h : (env.cloneBailout o a r code).1.readers a = some s) :
    s.finished = true ∧ s.txnid = invalidTxnid := by
  have h : some _ = some s := (setReader_self _ _ _).symm.trans h
  rw [← Option.some.inj h]
  exact ⟨rfl, rfl⟩

theorem cloneIntoReady_ready (h : env.cloneReady o source = false) :
    env.cloneIntoReady o source a t = false := by
  simp [cloneIntoReady, h]

theorem slotMismatch_of_reset (h : (t.txnRoReset o).2 ≠ Code.success) : o.slotMismatch = true := by
  by_contra hslot
  apply h
  simp only [ReadTxn.txnRoReset, ReadTxn.roSlotClean, hslot, if_false]
  split
  · rfl
  · split <;> rfl

theorem not_slotMismatch_of_reset (h : (t.txnRoReset o).2 = Code.success) :
    o.slotMismatch = false := by
  cases hslot : o.slotMismatch with
  | false => rfl
  | true =>
    have hbad : (t.txnRoReset o).2 = Code.badRslot := by
      simp [ReadTxn.txnRoReset, ReadTxn.roSlotClean, hslot]
    rw [hbad] at h
    exact absurd h (by decide)

/-- What `mdbx_txn_clone` leaves in the reader that it is to write to: one that was reset when it
fails, and a parked one only when the origin is. -/
theorem mdbxTxnCloneInto_spec (hs : (env.mdbxTxnCloneInto o source a t).1.readers a = some s) :
    ((env.mdbxTxnCloneInto o source a t).2 ≠ Code.success ∧
      env.cloneIntoReady o source a t = false ∧ s.finished = true ∧ s.txnid = invalidTxnid) ∨
    ((env.mdbxTxnCloneInto o source a t).2 = Code.success ∧ (s.isParked = true →
      env.cloneParks o source = true ∧ env.cloneIntoReady o source a t = true)) := by
  have hreset : (if t.finished then (t, Code.success) else t.txnRoReset o).1.finished = true := by
    split
    · assumption
    · exact t.txnRoReset_finished o
  have hslot : (if t.finished then (t, Code.success) else t.txnRoReset o).2 ≠ Code.success →
      (t.finished || !o.slotMismatch) = false := by
    intro hcode
    split at hcode
    · exact absurd rfl hcode
    · rename_i hfin
      simp [hfin, slotMismatch_of_reset hcode]
  have hfits : (if t.finished then (t, Code.success) else t.txnRoReset o).2 = Code.success →
      (t.finished || !o.slotMismatch) = true := by
    intro hcode
    split at hcode
    · rename_i hfin
      simp [hfin]
    · simp [not_slotMismatch_of_reset hcode]
  unfold mdbxTxnCloneInto at hs ⊢
  dsimp only at hs ⊢
  generalize (if t.finished then (t, Code.success) else t.txnRoReset o) = reset
    at hs hreset hslot hfits ⊢
  split at hs
  · rename_i hcheck
    rw [if_pos hcheck]
    have hcheck : env.checkClone source ≠ Code.success := by simpa using hcheck
    refine .inl ⟨hcheck, cloneIntoReady_ready ?_, reader_cloneBailout hs⟩
    simp only [cloneReady, beq_eq_false_iff_ne.mpr hcheck, Bool.false_and]
  · rename_i hcheck
    rw [if_neg hcheck]
    have hcheck : env.checkClone source = Code.success := by simpa using hcheck
    split at hs
    · rename_i hcode
      rw [if_pos hcode]
      have hcode : reset.2 ≠ Code.success := by simpa using hcode
      refine .inl ⟨hcode, ?_, reader_cloneBailout hs⟩
      rw [cloneIntoReady, hslot hcode, Bool.and_false]
    · rename_i hcode
      rw [if_neg hcode]
      split at hs
      · rename_i hagain
        rw [if_pos hagain]
        have hagain : (env.setReader a (some reset.1)).checkClone source ≠ Code.success := by
          simpa using hagain
        refine .inl ⟨hagain, ?_, reader_cloneBailout hs⟩
        have hself : source = some (.reader a) := by
          by_contra hne
          rw [checkClone_setReader hne] at hagain
          exact hagain hcheck
        simp [cloneIntoReady, hself]
      · rename_i hagain
        rw [if_neg hagain]
        have hne : source ≠ some (.reader a) := by
          rintro rfl
          exact checkClone_self hreset (by simpa using hagain)
        rw [cloneSource_setReader hne,
          show (env.setReader a (some reset.1)).recent = env.recent from rfl] at hs ⊢
        split at hs
        · rename_i hclone
          rw [if_pos hclone]
          have hclone : (cloneInto o (env.cloneSource source).2 env.recent reset.1).2 ≠
              Code.success := by simpa using hclone
          refine .inl ⟨hclone, cloneIntoReady_ready ?_, reader_cloneBailout hs⟩
          by_contra hready
          exact hclone (cloneInto_ready (by simpa using hready) reset.1)
        · rename_i hclone
          rw [if_neg hclone]
          refine .inr ⟨rfl, fun hp => ?_⟩
          have hs : some _ = some s := (setReader_self _ _ _).symm.trans hs
          rw [← Option.some.inj hs] at hp
          have hparks := cloneInto_parks hcheck (by simpa using hclone) hp
          refine ⟨hparks, ?_⟩
          simp only [cloneIntoReady, (Bool.and_eq_true_iff.mp hparks).1,
            hfits (by simpa using hcode), bne_iff_ne.mpr hne, Bool.and_self]

/-! ### Amend -/

/-- `mdbx_txn_amend` goes for the lock and parks the reader before. -/
def amendParks (o : Sys) (self : Thread) (flags : UInt32) (env : MdbxEnv) (r : ReadTxn) : Bool :=
  flags &&& ~~~(txnRwBeginFlags ||| txnRdonlyPrepare) == 0 && !r.hits Bits.blockedPure &&
    !env.fatal && !(!env.basal.finished && env.basal.owner == some self) &&
    env.recent == r.txnid && flags &&& txnTry == 0 && !r.parked && !o.slotMismatch

theorem amendStart_reader {self : Thread} {flags : UInt32} (hr : env.readers a = some r)
    (hs : (env.amendStart o self flags (some (.reader a))).1.readers a = some s) :
    s = r ∨ (env.amendParks o self flags r = true ∧ r.finished = false ∧ s.finished = false ∧
      s.txnid = r.txnid) := by
  have hsame : env.readers a = some s → s = r := fun h => Option.some.inj (h.symm.trans hr)
  simp only [amendStart, hr] at hs
  split at hs
  · exact .inl (hsame hs)
  · rename_i hflags
    split at hs
    · exact .inl (hsame hs)
    · rename_i hhits
      split at hs
      · exact .inl (hsame hs)
      · rename_i hfatal
        split at hs
        · exact .inl (hsame hs)
        · rename_i hown
          split at hs
          · exact .inl (hsame hs)
          · rename_i hrecent
            split at hs
            · rename_i hpark
              have hs : some _ = some s := (setReader_self _ _ _).symm.trans hs
              rw [← Option.some.inj hs]
              rcases ReadTxn.txnRoPark_cases (o := o) true r with ⟨_, hsame⟩ |
                ⟨hfin, hparked, hslot, _, hfin', htxnid⟩
              · exact .inl hsame
              · refine .inr ⟨?_, hfin, hfin', htxnid⟩
                simp only [bne_iff_ne, ne_eq, not_not] at hflags hrecent
                simp only [Bool.and_eq_true, beq_iff_eq] at hpark
                simp only [amendParks, hflags, hhits, hfatal, hown, hrecent, hpark.1,
                  hparked, hslot,
                  BEq.rfl, Bool.not_false, Bool.and_self]
            · exact .inl (hsame hs)

end MdbxEnv

end MdbxGo
