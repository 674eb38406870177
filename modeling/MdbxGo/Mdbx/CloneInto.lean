import MdbxGo.Libmdbx.Parking
import MdbxGo.Libmdbx.Session
import MdbxGo.Mdbx.Amend

/-! `CloneInto` for any target: a `Txn` of the environment of the origin or of another one, flat or
nested. `mdbx_txn_clone` looks at neither before it resets what it was given, and the reset of a
transaction that has no reader slot does not return. -/

namespace MdbxGo

namespace MdbxEnv

variable {env origin : MdbxEnv} {o : Sys} {source : Option Ptr} {a : Addr} {r s t : ReadTxn}

/-- `mdbx_txn_clone` of a transaction of the environment `origin` into the flat read-only
transaction at `a` of another one. -/
def mdbxTxnCloneAcross (o : Sys) (source : Option Ptr) (a : Addr) (t : ReadTxn) (env : MdbxEnv)
    (origin : MdbxEnv) : MdbxEnv × Code :=
  if origin.checkClone source != Code.success then
    env.cloneBailout o a t (origin.checkClone source)
  else
    let reset := if t.finished then (t, Code.success) else t.txnRoReset o
    if reset.2 != Code.success then env.cloneBailout o a reset.1 reset.2
    else
      let cloned := cloneInto o (origin.cloneSource source).2 env.recent reset.1
      if cloned.2 != Code.success then env.cloneBailout o a cloned.1 cloned.2
      else (env.setReader a (some cloned.1), Code.success)

/-- The snapshot that a transaction reads, for a writer the one before its own. -/
def basis (env : MdbxEnv) : Option Ptr → UInt64
  | some (.reader a) => ((env.readers a).map (·.txnid)).getD 0
  | _ => env.basal.txnid - 1

/-- The reader at `a` is live and its slot keeps the snapshot. -/
def Reads (env : MdbxEnv) (a : Addr) (snapshot : UInt64) : Prop :=
  ∃ r, env.readers a = some r ∧ r.finished = false ∧ r.parked = false ∧ r.txnid = snapshot ∧
    r.slotTxnid = snapshot

/-- The transaction at a pointer is as it was. -/
def Untouched (env env' : MdbxEnv) : Option Ptr → Prop
  | none => True
  | some (.reader a) => env'.readers a = env.readers a
  | some p => env'.write? p = env.write? p

/-! ### No exit of `mdbx_txn_clone` answers `MDBX_RESULT_TRUE` -/

theorem checkClone_ne_resultTrue : env.checkClone source ≠ Code.resultTrue := by
  have hchecked : ∀ b : Bool,
    (if b = true then Code.badTxn else Code.success) ≠ Code.resultTrue := by
    decide
  have hsource : (env.cloneSource source).1 ≠ Code.resultTrue := by
    unfold cloneSource
    split
    · decide
    · split
      · decide
      · dsimp only
        split <;> decide
    · dsimp only
      split
      · exact show Code.ebadsign ≠ Code.resultTrue by decide
      · exact hchecked _
  unfold checkClone
  split
  · exact hsource
  · split <;> decide

theorem cloneInto_ne_resultTrue (source : CloneSource) (recent : UInt64) (r : ReadTxn) :
    (cloneInto o source recent r).2 ≠ Code.resultTrue := by
  have hbad : Code.badTxn ≠ Code.resultTrue := by decide
  have hsuccess : Code.success ≠ Code.resultTrue := by decide
  have hproblem : Code.problem ≠ Code.resultTrue := by decide
  cases source with
  | reader origin =>
    have hclone : (r.txnRoClone o origin).2 ≠ Code.resultTrue := by
      unfold ReadTxn.txnRoClone
      split
      · rename_i e _
        exact e.not_resultTrue
      · split
        · exact hbad
        · dsimp only
          split
          · rename_i e _
            exact e.not_resultTrue
          · exact hsuccess
    unfold cloneInto
    dsimp only
    split
    · exact hclone
    · exact hsuccess
  | writer txnid =>
    have hclone : (r.txnRoCloneWriter o recent txnid).2 ≠ Code.resultTrue := by
      unfold ReadTxn.txnRoCloneWriter
      split
      · rename_i e _
        exact e.not_resultTrue
      · split
        · exact hbad
        · dsimp only
          split
          · rename_i e _
            exact e.not_resultTrue
          · exact hsuccess
    unfold cloneInto
    dsimp only
    split
    · exact hclone
    · dsimp only
      split
      · exact hproblem
      · exact hsuccess

theorem resetFirst_ne_resultTrue :
    (if t.finished then (t, Code.success) else t.txnRoReset o).2 ≠ Code.resultTrue := by
  split
  · exact show Code.success ≠ Code.resultTrue by decide
  · exact t.txnRoReset_ne_resultTrue

theorem mdbxTxnCloneInto_ne_resultTrue :
    (env.mdbxTxnCloneInto o source a t).2 ≠ Code.resultTrue := by
  have hreset := resetFirst_ne_resultTrue (o := o) (t := t)
  unfold mdbxTxnCloneInto
  dsimp only
  generalize (if t.finished then (t, Code.success) else t.txnRoReset o) = reset at hreset ⊢
  split
  · exact checkClone_ne_resultTrue
  · split
    · exact hreset
    · split
      · exact checkClone_ne_resultTrue
      · split
        · exact cloneInto_ne_resultTrue _ _ _
        · exact show Code.success ≠ Code.resultTrue by decide

theorem mdbxTxnCloneAcross_ne_resultTrue :
    (env.mdbxTxnCloneAcross o source a t origin).2 ≠ Code.resultTrue := by
  have hreset := resetFirst_ne_resultTrue (o := o) (t := t)
  unfold mdbxTxnCloneAcross
  dsimp only
  generalize (if t.finished then (t, Code.success) else t.txnRoReset o) = reset at hreset ⊢
  split
  · exact checkClone_ne_resultTrue
  · split
    · exact hreset
    · split
      · exact cloneInto_ne_resultTrue _ _ _
      · exact show Code.success ≠ Code.resultTrue by decide

/-! ### What the clone reads -/

/-- The snapshot of the origin, as `txn_ro_clone` finds it. -/
theorem basis_of_cloneSource (hcheck : env.checkClone source = Code.success) :
    match (env.cloneSource source).2 with
    | .reader r => env.basis source = r.txnid
    | .writer txnid => env.basis source = txnid - 1 := by
  have hsource := checkClone_success hcheck
  cases source with
  | none => exact absurd (show Code.einval = Code.success from hsource) (by decide)
  | some p =>
    cases p with
    | basal => rfl
    | nested b => rfl
    | reader b =>
      cases hr : env.readers b with
      | none =>
        simp only [cloneSource, hr] at hsource
        exact absurd hsource (by decide)
      | some r => simp [cloneSource, basis, hr]

/-- A copy that succeeds: a live reader of the snapshot, parked as its origin is. -/
theorem cloneInto_copied {src : CloneSource} {recent : UInt64}
    (h : (cloneInto o src recent r).2 = Code.success) :
    (cloneInto o src recent r).1.finished = false ∧
    match src with
    | .reader from_ => (cloneInto o src recent r).1.parked = from_.parked ∧
        (cloneInto o src recent r).1.txnid = from_.txnid ∧
        (from_.parked = false → (cloneInto o src recent r).1.slotTxnid = from_.txnid)
    | .writer txnid => (cloneInto o src recent r).1.parked = false ∧
        (cloneInto o src recent r).1.txnid = txnid - 1 ∧
        (cloneInto o src recent r).1.slotTxnid = txnid - 1 := by
  cases src with
  | reader from_ =>
    unfold cloneInto at h ⊢
    dsimp only at h ⊢
    split at h
    · rename_i hne
      exact absurd h (by simpa using hne)
    · rename_i hsuccess
      rw [if_neg hsuccess]
      have hsuccess : (r.txnRoClone o from_).2 = Code.success := by simpa using hsuccess
      refine ⟨rfl, (ReadTxn.txnRoClone_success hsuccess).2.2.2, ?_⟩
      unfold ReadTxn.txnRoClone at hsuccess ⊢
      split at hsuccess
      · rename_i e _
        exact absurd hsuccess e.not_success
      · split at hsuccess
        · exact absurd hsuccess (show Code.badTxn ≠ Code.success by decide)
        · rename_i hvalid
          rw [if_neg hvalid]
          dsimp only
          split
          · exact ⟨rfl, fun hparked => by simp [hparked]⟩
          · exact ⟨rfl, fun hparked => by simp [hparked]⟩
  | writer txnid =>
    unfold cloneInto at h ⊢
    dsimp only at h ⊢
    split at h
    · rename_i hne
      exact absurd h (by simpa using hne)
    · rename_i hsuccess
      rw [if_neg hsuccess]
      have hsuccess : (r.txnRoCloneWriter o recent txnid).2 = Code.success := by
        simpa using hsuccess
      have hparked := ReadTxn.txnRoCloneWriter_parked hsuccess
      have hcopied : (r.txnRoCloneWriter o recent txnid).1.finished = false ∧
          (r.txnRoCloneWriter o recent txnid).1.slotTxnid =
            (r.txnRoCloneWriter o recent txnid).1.txnid := by
        unfold ReadTxn.txnRoCloneWriter at hsuccess ⊢
        split at hsuccess
        · rename_i e _
          exact absurd hsuccess e.not_success
        · split at hsuccess
          · exact absurd hsuccess (show Code.badTxn ≠ Code.success by decide)
          · rename_i hvalid
            rw [if_neg hvalid]
            dsimp only at hsuccess ⊢
            split at hsuccess
            · rename_i e _
              exact absurd hsuccess e.not_success
            · exact ⟨rfl, rfl⟩
      dsimp only at h
      split at h
      · exact absurd h (show Code.problem ≠ Code.success by decide)
      · rename_i hbasis
        have hbasis : txnid - 1 = (r.txnRoCloneWriter o recent txnid).1.txnid := by
          simpa using hbasis
        exact ⟨hcopied.1, hparked, hbasis.symm, hcopied.2.trans hbasis.symm⟩

/-- A copy into a reader of the same environment: all the checks have passed. -/
theorem mdbxTxnCloneInto_copied (h : (env.mdbxTxnCloneInto o source a t).2 = Code.success) :
    ∃ x, env.checkClone source = Code.success ∧ source ≠ some (.reader a) ∧
      (t.finished || !o.slotMismatch) = true ∧
      (cloneInto o (env.cloneSource source).2 env.recent x).2 = Code.success ∧
      (env.mdbxTxnCloneInto o source a t).1.readers a =
        some (cloneInto o (env.cloneSource source).2 env.recent x).1 := by
  have hfin : (if t.finished then (t, Code.success) else t.txnRoReset o).1.finished = true := by
    split
    · assumption
    · exact t.txnRoReset_finished o
  have hslot : (if t.finished then (t, Code.success) else t.txnRoReset o).2 = Code.success →
      (t.finished || !o.slotMismatch) = true := by
    intro hcode
    cases ht : t.finished with
    | true => rfl
    | false =>
      rw [ht, if_neg (by decide)] at hcode
      simp [ReadTxn.txnRoReset_code.mp hcode]
  unfold mdbxTxnCloneInto at h ⊢
  dsimp only at h ⊢
  generalize (if t.finished then (t, Code.success) else t.txnRoReset o) = reset at h hfin hslot ⊢
  split at h
  · rename_i hcheck
    exact absurd (show env.checkClone source = Code.success from h) (by simpa using hcheck)
  · rename_i hcheck
    rw [if_neg hcheck]
    split at h
    · rename_i hreset
      exact absurd (show reset.2 = Code.success from h) (by simpa using hreset)
    · rename_i hreset
      rw [if_neg hreset]
      split at h
      · rename_i hagain
        exact absurd (show checkClone _ source = Code.success from h) (by simpa using hagain)
      · rename_i hagain
        rw [if_neg hagain]
        have hne : source ≠ some (.reader a) := by
          rintro rfl
          exact checkClone_self hfin (by simpa using hagain)
        rw [cloneSource_setReader hne,
          show (env.setReader a (some reset.1)).recent = env.recent from rfl] at h ⊢
        split at h
        · rename_i hclone
          exact absurd (show (cloneInto o _ env.recent reset.1).2 = Code.success from h)
            (by simpa using hclone)
        · rename_i hclone
          rw [if_neg hclone]
          exact ⟨reset.1, by simpa using hcheck, hne, hslot (by simpa using hreset),
            by simpa using hclone, setReader_self _ _ _⟩

/-- Without the parking of the origin, a copy that succeeds reads its snapshot; with it, it does
not. -/
theorem mdbxTxnCloneInto_reads_iff (h : (env.mdbxTxnCloneInto o source a t).2 = Code.success) :
    (env.mdbxTxnCloneInto o source a t).1.Reads a (env.basis source) ↔
      (env.cloneIntoReady o source a t = true → env.cloneParks o source = false) := by
  obtain ⟨x, hcheck, hne, hslot, hcopy, hreader⟩ := mdbxTxnCloneInto_copied h
  have hbasis := basis_of_cloneSource hcheck
  have hready : env.cloneIntoReady o source a t = env.cloneReady o source := by
    simp [cloneIntoReady, hne, hslot]
  rw [hready]
  unfold Reads
  rw [hreader]
  simp only [cloneParks, cloneReady, hcheck, BEq.rfl, Bool.true_and]
  revert hbasis hcopy
  cases (env.cloneSource source).2 with
  | reader from_ =>
    intro hcopy hbasis
    obtain ⟨hfin, hparked, htxnid, hpinned⟩ := cloneInto_copied hcopy
    have hclone : (x.txnRoClone o from_).2 = Code.success := by
      by_contra hno
      simp only [cloneInto] at hcopy
      rw [if_pos (by simpa using hno)] at hcopy
      exact hno hcopy
    obtain ⟨hget, hvalid, hstart, _⟩ := ReadTxn.txnRoClone_success hclone
    dsimp only at hbasis
    cases hp : from_.parked with
    | true =>
      simp only [hget, hvalid, hp, Option.isNone_none, Bool.not_false, Bool.true_or, Bool.and_self,
        forall_const, Bool.true_eq_false, iff_false]
      rintro ⟨y, hy, _, hyp, _⟩
      obtain rfl := Option.some.inj hy
      rw [hparked, hp] at hyp
      cases hyp
    | false =>
      simp only [hp, Bool.and_false, implies_true, iff_true]
      exact ⟨_, rfl, hfin, hparked.trans hp, htxnid.trans hbasis.symm,
        (hpinned hp).trans hbasis.symm⟩
  | writer txnid =>
    intro hcopy hbasis
    obtain ⟨hfin, hparked, htxnid, hpinned⟩ := cloneInto_copied hcopy
    simp only [Bool.and_false, implies_true, iff_true]
    exact ⟨_, rfl, hfin, hparked, htxnid.trans hbasis.symm, hpinned.trans hbasis.symm⟩

end MdbxEnv

namespace World

open MdbxEnv

/-- A target of `CloneInto`: a `Txn` of the environment of the origin, or of another one. -/
inductive Target
  | here (k : Handle)
  | there (k : Handle)
deriving DecidableEq

variable {w v : World} {o : Sys} {h k : Handle} {target : Target} {a : Addr} {out : CloneOutcome}

/-- The `Txn` of a target and its environment. -/
def Target.txn (w v : World) : Target → Txn
  | .here k => w.txns k
  | .there k => v.txns k

/-- How `CloneInto` ends: it returns, with the environments of the origin and of the target as it
leaves them, or the process crashes in it. -/
inductive CloneOutcome
  | returned (w v : World) (reply : Reply)
  | crashed

/-- `CloneInto`; `w` is the environment of the origin `h` and `v` another one. Whatever
`mdbx_txn_clone` finds out about a target that is no flat read-only transaction, its bailout calls
`txn_ro_reset`, and `ro_slot_clean` takes the `troika` in the union of the target for the pointer to
a slot and follows it. A target that was freed is written to after it was freed, which has no
result. -/
def cloneIntoAny (o : Sys) (w v : World) (h : Handle) (target : Target) : Option CloneOutcome :=
  let refused : Reply := .returned { err := some (.op "mdbx_txn_clone" (.mdbx Code.badTxn)) }
  let x := target.txn w v
  let source := (w.txns h).ptr
  if !x.readonly then some (.returned w v refused)
  else
    match x.ptr, target with
    | none, _ => some (.returned w v refused)
    | some (.reader a), .here k =>
      (w.lib.readers a).map fun t =>
        let r := w.lib.mdbxTxnCloneInto o source a t
        let next := { w with lib := r.1 }
        if r.2 != Code.success then .returned next v (err "mdbx_txn_clone" r.2)
        else .returned (next.setTxn k x.resetID) v (.returned {})
    | some (.reader a), .there k =>
      (v.lib.readers a).map fun t =>
        let r := v.lib.mdbxTxnCloneAcross o source a t w.lib
        let next := { v with lib := r.1 }
        if r.2 != Code.success then .returned w next (err "mdbx_txn_clone" r.2)
        else .returned w (next.setTxn k x.resetID) (.returned {})
    | some p, .here _ => (w.lib.write? p).map fun _ => .crashed
    | some p, .there _ => (v.lib.write? p).map fun _ => .crashed

/-- On the targets that it has a result for, `cloneInto` is the call within one environment. -/
theorem cloneIntoAny_of_cloneInto {r : World × Reply} (hr : w.cloneInto o k h = some r) :
    cloneIntoAny o w v h (.here k) = some (.returned r.1 v r.2) := by
  unfold cloneInto at hr
  unfold cloneIntoAny
  dsimp only [Target.txn] at hr ⊢
  split at hr
  · rename_i hreadonly
    rw [if_pos hreadonly]
    cases hr
    rfl
  · rename_i hreadonly
    rw [if_neg hreadonly]
    cases hp : (w.txns k).ptr with
    | none =>
      rw [hp] at hr
      cases hr
      rfl
    | some p =>
      rw [hp] at hr
      cases p with
      | basal => cases hr
      | nested a => cases hr
      | reader a =>
        obtain ⟨t, ht, rfl⟩ := Option.map_eq_some_iff.mp hr
        simp only [ht, Option.map_some]
        split <;> rfl

/-- The target is a flat read-only transaction of the environment of the origin. -/
def Target.fits (w v : World) (target : Target) : Option Addr :=
  match target, (target.txn w v).ptr with
  | .here _, some (.reader a) => some a
  | _, _ => none

/-- The environment of a target. -/
def Target.lib (w v : World) : Target → MdbxEnv
  | .here _ => w.lib
  | .there _ => v.lib

/-- What `CloneInto` promises: an error, or a target that reads the snapshot of the origin; and for
a target that cannot be reused, an error and nothing else. -/
def CloneIntoRespected (w v : World) (h : Handle) (target : Target) : CloneOutcome → Prop
  | .crashed => False
  | .returned w' v' reply =>
    match target.fits w v with
    | some a => (∃ e, reply = .returned { err := some e }) ∨
        reply = .returned {} ∧ w'.lib.Reads a (w.lib.basis (w.txns h).ptr)
    | none => (∃ e, reply = .returned { err := some e }) ∧
        MdbxEnv.Untouched (target.lib w v) (target.lib w' v') (target.txn w v).ptr

/-- The copy into the reset reader `t` fails, and the reset after it leaves what was there. -/
def Undone (o : Sys) (source : CloneSource) (recent : UInt64) (t : ReadTxn) : Prop :=
  t.finished = true ∧ (MdbxEnv.cloneInto o source recent t).2 ≠ Code.success ∧
    ((MdbxEnv.cloneInto o source recent t).1.txnRoReset o).1 = t

/-- When `CloneInto` keeps its promise: Go refuses the target; or it is of the right kind, and a
parked origin is not copied; or it is a reader of another environment in which a reset changes
nothing any more, and the call fails. -/
def CloneIntoFits (o : Sys) (w v : World) (h : Handle) (target : Target) : Prop :=
  (target.txn w v).readonly = false ∨
    match (target.txn w v).ptr, target with
    | none, _ => True
    | some (.reader a), .here _ => ∀ t, w.lib.readers a = some t →
        w.lib.cloneIntoReady o (w.txns h).ptr a t = true → w.lib.cloneParks o (w.txns h).ptr = false
    | some (.reader a), .there _ => ∀ t, v.lib.readers a = some t →
        if w.lib.checkClone (w.txns h).ptr = Code.success then
          Undone o (w.lib.cloneSource (w.txns h).ptr).2 v.lib.recent t
        else (t.txnRoReset o).1 = t
    | some _, _ => False

theorem err_fails {code : Code} (h : code ≠ Code.success) (h' : code ≠ Code.resultTrue) :
    ∃ e, err "mdbx_txn_clone" code = .returned { err := some e } := by
  cases he : operrno "mdbx_txn_clone" code with
  | none => exact absurd ((operrno_eq_none _).mp he) (by simp [h, h'])
  | some e => exact ⟨e, by simp [err, he]⟩

theorem returned_ne_error (e : GoError) : Reply.returned {} ≠ .returned { err := some e } := by
  intro heq
  cases heq

/-- A flat target of the same environment. -/
theorem cloneInto_here_iff {t : ReadTxn} {x : Txn} (hp : (w.txns k).ptr = some (.reader a))
    (h' : (let r := w.lib.mdbxTxnCloneInto o (w.txns h).ptr a t
      let next := { w with lib := r.1 }
      if r.2 != Code.success then CloneOutcome.returned next v (err "mdbx_txn_clone" r.2)
      else .returned (next.setTxn k x) v (.returned {})) = out) :
    CloneIntoRespected w v h (.here k) out ↔
      (w.lib.cloneIntoReady o (w.txns h).ptr a t = true →
        w.lib.cloneParks o (w.txns h).ptr = false) := by
  have hfits : Target.fits w v (.here k) = some a := by simp [Target.fits, Target.txn, hp]
  simp only [CloneIntoRespected, hfits]
  by_cases hcode : (w.lib.mdbxTxnCloneInto o (w.txns h).ptr a t).2 = Code.success
  · simp only [hcode, bne_self_eq_false, Bool.false_eq_true, ↓reduceIte] at h'
    obtain rfl := h'
    rw [← mdbxTxnCloneInto_reads_iff hcode]
    constructor
    · rintro (⟨e, he⟩ | ⟨-, hreads⟩)
      · exact absurd he (returned_ne_error e)
      · exact hreads
    · exact fun hreads => .inr ⟨rfl, hreads⟩
  · simp only [bne_iff_ne, ne_eq, hcode, not_false_eq_true, ↓reduceIte] at h'
    obtain rfl := h'
    simp only [err_fails hcode mdbxTxnCloneInto_ne_resultTrue, true_or, true_iff]
    intro hready
    exfalso
    obtain ⟨s, hs⟩ : ∃ s, (w.lib.mdbxTxnCloneInto o (w.txns h).ptr a t).1.readers a = some s := by
      obtain ⟨y, hy, _⟩ := mdbxTxnCloneInto_reader o w.lib a t (w.txns h).ptr
      exact ⟨y, by rw [hy, setReader_self]⟩
    rcases mdbxTxnCloneInto_spec hs with ⟨_, hno, _⟩ | ⟨hyes, _⟩
    · rw [hready] at hno
      cases hno
    · exact hcode hyes

/-- A flat target of another environment. -/
theorem cloneInto_there_iff {t : ReadTxn} {x : Txn}
    (hp : (v.txns k).ptr = some (.reader a)) (ht : v.lib.readers a = some t)
    (h' : (let r := v.lib.mdbxTxnCloneAcross o (w.txns h).ptr a t w.lib
      let next := { v with lib := r.1 }
      if r.2 != Code.success then CloneOutcome.returned w next (err "mdbx_txn_clone" r.2)
      else .returned w (next.setTxn k x) (.returned {})) = out) :
    CloneIntoRespected w v h (.there k) out ↔
      if w.lib.checkClone (w.txns h).ptr = Code.success then
        Undone o (w.lib.cloneSource (w.txns h).ptr).2 v.lib.recent t
      else (t.txnRoReset o).1 = t := by
  have hfits : Target.fits w v (.there k) = none := by simp [Target.fits]
  have hptr : Target.txn w v (.there k) = v.txns k := rfl
  simp only [CloneIntoRespected, hfits, hptr, hp, MdbxEnv.Untouched, Target.lib]
  -- what a bailout leaves
  have hbail : ∀ (r : ReadTxn) (code : Code),
      (v.lib.cloneBailout o a r code).1.readers a = some (r.txnRoReset o).1 := fun r code =>
    setReader_self _ _ _
  by_cases hcode : (v.lib.mdbxTxnCloneAcross o (w.txns h).ptr a t w.lib).2 = Code.success
  · simp only [hcode, bne_self_eq_false, Bool.false_eq_true, ↓reduceIte] at h'
    obtain rfl := h'
    have hno : ¬∃ e, Reply.returned {} = .returned { err := some e } := fun ⟨e, he⟩ =>
      returned_ne_error e he
    simp only [hno, false_and, false_iff]
    unfold mdbxTxnCloneAcross at hcode
    split at hcode
    · rename_i hcheck
      exact absurd (show w.lib.checkClone _ = Code.success from hcode) (by simpa using hcheck)
    · rename_i hcheck
      rw [if_pos (by simpa using hcheck)]
      rintro ⟨hfin, hclone, _⟩
      simp only [hfin, ↓reduceIte, bne_self_eq_false, Bool.false_eq_true] at hcode
      rw [if_pos (by simpa using hclone)] at hcode
      exact hclone hcode
  · simp only [bne_iff_ne, ne_eq, hcode, not_false_eq_true, ↓reduceIte] at h'
    obtain rfl := h'
    simp only [err_fails hcode mdbxTxnCloneAcross_ne_resultTrue, true_and, ht]
    unfold mdbxTxnCloneAcross at hcode ⊢
    by_cases hcheck : w.lib.checkClone (w.txns h).ptr = Code.success
    · simp only [hcheck, bne_self_eq_false, Bool.false_eq_true, ↓reduceIte] at hcode ⊢
      cases hfin : t.finished with
      | true =>
        simp only [hfin, ↓reduceIte, bne_self_eq_false, Bool.false_eq_true] at hcode ⊢
        by_cases hclone : (MdbxEnv.cloneInto o (w.lib.cloneSource (w.txns h).ptr).2 v.lib.recent
            t).2 = Code.success
        · exact absurd (by rw [if_neg (by simpa using hclone)]) hcode
        · rw [if_pos (by simpa using hclone), hbail]
          simp [Undone, hfin, hclone]
      | false =>
        -- a live target has been reset
        have hnot : ¬Undone o (w.lib.cloneSource (w.txns h).ptr).2 v.lib.recent t := by
          rintro ⟨hyes, _⟩
          rw [hfin] at hyes
          cases hyes
        have hgone : ∀ r : ReadTxn, ¬some (r.txnRoReset o).1 = some t := by
          intro r heq
          have := congrArg ReadTxn.finished (Option.some.inj heq)
          rw [ReadTxn.txnRoReset_finished, hfin] at this
          cases this
        simp only [hfin, Bool.false_eq_true, ↓reduceIte, hnot, iff_false] at hcode ⊢
        split
        · rw [hbail]
          exact hgone _
        · rename_i hreset
          rw [if_neg hreset] at hcode
          split
          · rw [hbail]
            exact hgone _
          · rename_i hclone
            exact absurd (by rw [if_neg hclone]) hcode
    · simp only [bne_iff_ne, ne_eq, hcheck, not_false_eq_true, ↓reduceIte, hbail,
        Option.some.injEq]

/-- A target that Go refuses. -/
theorem refused_respected (e : GoError) :
    CloneIntoRespected w v h target (.returned w v (.returned { err := some e })) := by
  unfold CloneIntoRespected
  dsimp only
  split
  · exact .inl ⟨e, rfl⟩
  · refine ⟨⟨e, rfl⟩, ?_⟩
    unfold MdbxEnv.Untouched
    split <;> trivial

/-- `CloneInto` keeps its promise exactly when `CloneIntoFits`. -/
theorem cloneInto_respected_iff (hcall : cloneIntoAny o w v h target = some out) :
    CloneIntoRespected w v h target out ↔ CloneIntoFits o w v h target := by
  unfold CloneIntoFits
  unfold cloneIntoAny at hcall
  dsimp only at hcall
  by_cases hreadonly : (target.txn w v).readonly = true
  · simp only [hreadonly, Bool.not_true, Bool.false_eq_true, ↓reduceIte, Bool.true_eq_false,
      false_or] at hcall ⊢
    cases hp : (target.txn w v).ptr with
    | none =>
      simp only [hp] at hcall ⊢
      cases hcall
      simp only [iff_true]
      exact refused_respected _
    | some p =>
      rw [hp] at hcall
      cases target with
      | here k =>
        cases p with
        | reader a =>
          obtain ⟨t, ht, h'⟩ := Option.map_eq_some_iff.mp hcall
          rw [cloneInto_here_iff (t := t) hp h']
          simp only [ht, Option.some.injEq, forall_eq']
        | basal | nested a =>
          obtain ⟨t, _, rfl⟩ := Option.map_eq_some_iff.mp hcall
          exact Iff.rfl
      | there k =>
        cases p with
        | reader a =>
          obtain ⟨t, ht, h'⟩ := Option.map_eq_some_iff.mp hcall
          rw [cloneInto_there_iff (t := t) hp ht h']
          simp only [ht, Option.some.injEq, forall_eq']
        | basal | nested a =>
          obtain ⟨t, _, rfl⟩ := Option.map_eq_some_iff.mp hcall
          exact Iff.rfl
  · have hreadonly : (target.txn w v).readonly = false := by simpa using hreadonly
    simp only [hreadonly, Bool.not_false, ↓reduceIte, Option.some.injEq] at hcall
    obtain rfl := hcall
    simp only [hreadonly, true_or, iff_true]
    exact refused_respected _

/-- A reader, and a read-only transaction nested in a writer. -/
def nestedReading : World :=
  reading.played [.go 0 0 {} (.beginTxn none 0), .go 0 0 {} (.beginTxn (some 1) txnRdonly)]

/-- A clone into the nested transaction crashes the process; a reader of another environment is
overwritten without an error; and a clone of a parked reader has no snapshot in its slot. -/
theorem cloneInto_destroys :
    system.Reachable nestedReading ∧ system.Reachable reading ∧
    (cloneIntoAny {} nestedReading reading 0 (.here 2) = some .crashed ∧
      ¬CloneIntoRespected nestedReading reading 0 (.here 2) .crashed) ∧
    (∃ out, cloneIntoAny {} reading reading 0 (.there 0) = some out ∧
      ¬CloneIntoRespected reading reading 0 (.there 0) out) ∧
    ∃ w out, system.Reachable w ∧ cloneIntoAny {} w reading 0 (.here 1) = some out ∧
      ¬CloneIntoRespected w reading 0 (.here 1) out := by
  refine ⟨played_reachable _ reading_reachable, reading_reachable, ⟨rfl, fun h => h⟩, ⟨_, rfl, ?_⟩,
    reading.played [.go 0 0 {} (.park 0 false), .go 0 0 {} (.beginTxn none txnRdonly)], _,
    played_reachable _ reading_reachable, rfl, ?_⟩
  · rintro ⟨⟨e, he⟩, -⟩
    cases he
  · rintro (⟨e, he⟩ | ⟨-, r, hr, -, hparked, -⟩)
    · cases he
    · obtain rfl := Option.some.inj hr
      cases hparked

theorem cloneInto_respected_reset : ∃ w w' v', CloneIntoRespected w reading 0 (.here 1)
    (.returned w' v' (.returned {})) := by
  let w := reading.played [.go 0 0 {} (.beginTxn none txnRdonly), .go 0 0 {} (.reset 1)]
  have hcall : cloneIntoAny {} w reading 0 (.here 1) = some (.returned _ _ (.returned {})) := rfl
  exact ⟨w, _, _, (cloneInto_respected_iff hcall).mpr (.inr fun t ht _ => rfl)⟩

end World

end MdbxGo
