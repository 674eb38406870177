import MdbxGo.Libmdbx.Amend
import MdbxGo.Libmdbx.Parking
import MdbxGo.Mdbx.Stack

/-! `Amend` from its call to its return: what it leaves of the reader when it does not succeed, and
what it makes of the `Txn` and of the reader when it does. -/

namespace MdbxGo

namespace World

open MdbxEnv

variable {w w' s : World} {o : Sys} {g : Gor} {self : Thread} {flags : UInt32} {h : Handle}
  {a : Addr} {r : ReadTxn} {call : Call} {x : Returned}

/-! ### The wait -/

/-- What may happen while a goroutine waits inside the `Amend` of `h`, whose reader is at `a`: the
others go on through other transactions, other processes commit, and writers oust readers. -/
def Elsewhere (g : Gor) (h : Handle) (a : Addr) (w : World) : Event → Prop
  | .go g' _ _ call =>
    g' ≠ g ∧ (∀ k ∈ w.uses g' call, k ≠ h ∧ (w.txns k).ptr ≠ some (.reader a)) ∧
      ∀ flags k b, call = .amendLocked → w.Amending g' flags k b → k ≠ h ∧ b ≠ a
  | _ => True

theorem readers_allocReader {env : MdbxEnv} (ok : env.Ok) (hr : env.readers a = some r)
    (x : ReadTxn) : (env.allocReader x).readers a = some r := by
  have hne : a ≠ env.brk := Nat.ne_of_lt (lt_brk_of_reader ok hr)
  rw [← hr]
  exact setReader_other hne _

theorem Amended.readers {thread : Thread} {b : Addr} {client : Handle} {env env' : MdbxEnv}
    {code : Code} {p : Option Ptr} (h : Amended thread b client flags env env' code p)
    (hb : b ≠ a) : env'.readers a = env.readers a := by
  cases h with
  | refused _ href hlocal =>
    rw [hlocal.readers (by simpa using hb), href.rest.readers]
  | started _ hst hlib _ _ _ =>
    rw [hlib, setReader_other hb.symm, hst.rest.readers]

/-- A call leaves the reader at `a` alone, or is made through it. -/
theorem Act.reader_or_through (ok : w.lib.Ok) (act : Act o g self call w w')
    (hr : w.lib.readers a = some r)
    (hamend : ∀ flags k b, call = .amendLocked → w.Amending g flags k b → b ≠ a) :
    w'.lib.readers a = some r ∨ ∃ k ∈ w.uses g call, (w.txns k).ptr = some (.reader a) ∧
      Through o g self call k w w' := by
  have hbegan : ∀ {parent : Option Ptr} {code : Code} {p : Option Ptr},
      Began self parent w.next w.lib w'.lib code p → w'.lib.readers a = some r := by
    intro parent code p hb
    cases hb with
    | refused _ href => rw [href.rest.readers, hr]
    | reader _ _ _ _ hlib => exact hlib ▸ readers_allocReader ok hr _
    | basal _ _ hst => rw [hst.rest.readers, hr]
    | nested _ _ _ _ _ _ _ _ _ _ hlib => rw [hlib]; exact hr
  cases act with
  | through k hk ht =>
    have heff := ht.own.effect ok
    cases hp : (w.txns k).ptr with
    | none =>
      rw [hp] at heff
      exact .inl (by rw [show w'.lib = w.lib from heff, hr])
    | some p =>
      rw [hp] at heff
      have heff : Effect p w.lib w'.lib := heff
      by_cases hpa : p = .reader a
      · exact .inr ⟨k, hk, hpa ▸ hp, ht⟩
      · exact .inl (by rw [heff.readers a hpa (lt_brk_of_reader ok hr), hr])
  | refused _ hb _ _ _ => exact .inl (hbegan hb)
  | began _ hb _ _ => exact .inl (hbegan hb)
  | cloned _ hlib _ _ => exact .inl (hlib ▸ readers_allocReader ok hr _)
  | tooOld hcall hwait ha _ _ _ =>
    exact .inl (by rw [Amended.readers ha (hamend _ _ _ hcall hwait), hr])
  | amended hcall hwait ha _ _ _ =>
    exact .inl (by rw [Amended.readers ha (hamend _ _ _ hcall hwait), hr])

/-- A call through other transactions leaves the reader at `a` alone. -/
theorem Act.reader_elsewhere (ok : w.lib.Ok) (act : Act o g self call w w')
    (hr : w.lib.readers a = some r) (huses : ∀ k ∈ w.uses g call, (w.txns k).ptr ≠ some (.reader a))
    (hamend : ∀ flags k b, call = .amendLocked → w.Amending g flags k b → b ≠ a) :
    w'.lib.readers a = some r := by
  rcases act.reader_or_through ok hr hamend with hsame | ⟨k, hk, hp, _⟩
  · exact hsame
  · exact absurd hp (huses k hk)

/-- A call through other `Txn` values leaves `h` alone. -/
theorem Act.txn_elsewhere (act : Act o g self call w w') (hh : h < w.next)
    (huses : ∀ k ∈ w.uses g call, k ≠ h)
    (hamend : ∀ flags k b, call = .amendLocked → w.Amending g flags k b → k ≠ h) :
    w'.txns h = w.txns h := by
  have hne : h ≠ w.next := Nat.ne_of_lt hh
  cases act with
  | through k hk ht => exact ht.others h (huses k hk).symm
  | refused _ _ htxns _ _ => rw [htxns]
  | began _ _ _ hother => exact hother h hne
  | cloned _ _ _ hother => exact hother h hne
  | tooOld _ _ _ htxns _ _ => rw [htxns]
  | amended hcall hwait _ _ hother _ => exact hother h hne (hamend _ _ _ hcall hwait).symm

theorem oust_oust (r : ReadTxn) : r.oust.oust = r.oust := by
  unfold ReadTxn.oust
  by_cases hslot : r.slotTid = .parked <;> simp [hslot]

/-- The reader `r`, unless a writer has ousted it, and the `Txn` and the stack that wait for it. -/
structure Awaited (g : Gor) (h : Handle) (a : Addr) (r : ReadTxn) (w s : World) : Prop where
  reader : s.lib.readers a = some r ∨ s.lib.readers a = some r.oust
  txn : s.txns h = w.txns h
  frames : s.frames g = w.frames g
  known : h < s.next

/-- A step elsewhere leaves all of that alone. -/
theorem Awaited.step {s' : World} {e : Event} (ok : s.lib.Ok) (ha : Awaited g h a r w s)
    (helse : Elsewhere g h a s e) (hstep : system.step s e = some s') : Awaited g h a r w s' := by
  obtain ⟨c, hc, rfl⟩ := Option.map_eq_some_iff.mp hstep
  rcases step_cases hc with ⟨g', self, o, call, rfl, _, _, hexec⟩ | ⟨b, y, rfl, hy, rfl⟩ |
    ⟨txnid, changes, rfl, _, _, _, rfl⟩ | ⟨rfl, rfl⟩
  · obtain ⟨hg, huses, hamend⟩ := helse
    have act := exec_act ok hexec
    refine ⟨?_, ?_, ?_, Nat.lt_of_lt_of_le ha.known act.next_le⟩
    · exact ha.reader.imp
        (fun hr => act.reader_elsewhere ok hr (fun k hk => (huses k hk).2)
          fun flags k b hcall hwait => (hamend flags k b hcall hwait).2)
        fun hr => act.reader_elsewhere ok hr (fun k hk => (huses k hk).2)
          fun flags k b hcall hwait => (hamend flags k b hcall hwait).2
    · rw [act.txn_elsewhere ha.known (fun k hk => (huses k hk).1)
        fun flags k b hcall hwait => (hamend flags k b hcall hwait).1, ha.txn]
    · rw [← ha.frames]
      cases exec_stacked hexec with
      | same hframes => rw [hframes]
      | pushed _ hframes => rw [hframes, Function.update_of_ne hg.symm]
      | popped _ _ hframes => rw [hframes, Function.update_of_ne hg.symm]
  · refine ⟨?_, ha.txn, ha.frames, ha.known⟩
    dsimp only
    by_cases hb : a = b
    · subst hb
      rw [setReader_self]
      rcases ha.reader with hr | hr
      · rw [hr] at hy
        obtain rfl := Option.some.inj hy
        exact .inr rfl
      · rw [hr] at hy
        obtain rfl := Option.some.inj hy
        exact .inr (by rw [oust_oust])
    · rw [setReader_other hb]
      exact ha.reader
  · exact ⟨ha.reader, ha.txn, ha.frames, ha.known⟩
  · exact ⟨ha.reader, ha.txn, ha.frames, ha.known⟩

/-! ### The call -/

/-- A call of `Amend` from the state `w` that has returned `x`, at once or after the wait for the
lock. Its last step, with the answers `o`, leads from `s` to `w'`. -/
inductive Amends (g : Gor) (self : Thread) (flags : UInt32) (h : Handle) (a : Addr) (w : World) :
    Bool → World → Sys → World → Returned → Prop
  | atOnce {o : Sys} {w' : World} {x : Returned} :
      w.step (.go g self o (.amend h flags)) = some (w', .returned x) →
      Amends g self flags h a w false w o w' x
  | waited {o₁ o : Sys} {mid s w' : World} {x : Returned} :
      w.step (.go g self o₁ (.amend h flags)) = some (mid, .running h) →
      (system.after mid).Reaches (Elsewhere g h a) s →
      s.step (.go g self o .amendLocked) = some (w', .returned x) →
      Amends g self flags h a w true s o w' x

/-- The reader `r` and its `Txn` are as they were before the call, but that a writer may have ousted
the reader; and the last step has left no writer behind. -/
structure LeftAlone (h : Handle) (a : Addr) (r : ReadTxn) (w s w' : World) : Prop where
  reader : w'.lib.readers a = some r ∨ w'.lib.readers a = some r.oust
  txn : w'.txns h = w.txns h
  marked : (w'.txns h).parked = r.isParked
  id : w'.idOf h = w.idOf h
  writer : SameWriter s.lib w'.lib

/-- What `Amend` promises: a writer over the snapshot of the reader, or nothing was done. -/
def AmendRespected (h : Handle) (a : Addr) (r : ReadTxn) (w s w' : World) (x : Returned) : Prop :=
  match x.txn with
  | some k => (w'.txns k).ptr = some .basal ∧ w'.lib.basal.finished = false ∧
      w'.lib.basal.txnid - 1 = r.txnid
  | none => LeftAlone h a r w s w'

/-- When the code keeps that promise: the writer starts and the slot of the reader is its own; or
`Txn` and libmdbx agree that the reader is parked, and after a wait, the reader was not parked for
it and is not reset in vain. `env` is libmdbx before the last step. -/
def AmendFits (flags : UInt32) (r : ReadTxn) (marked waited : Bool) (env : MdbxEnv) (o : Sys) :
    Prop :=
  waited = true ∧ StartReady o env r ∧ o.slotMismatch = false ∨
  marked = r.isParked ∧ (waited = true →
    (flags &&& txnTry ≠ 0 ∨ r.parked = true) ∧ ¬(StartReady o env r ∧ o.slotMismatch = true))

theorem amended_txn {ret : Code} (h : amended ret = .returned x) : x.txn = none := by
  unfold amended at h
  split at h
  · cases h
    rfl
  · cases h
    rfl

/-- What `ID` returns depends on the `Txn` and on the id of its reader. -/
theorem idOf_reader (hp : (w.txns h).ptr = some (.reader a))
    (hr : w.lib.readers a = some r) (htxn : s.txns h = w.txns h)
    (hs : s.lib.readers a = some r ∨ s.lib.readers a = some r.oust) : s.idOf h = w.idOf h := by
  have hid : s.getID h = w.getID h := by
    unfold getID
    rw [htxn, hp]
    rcases hs with hs | hs <;> simp [mdbxTxnId, hs, hr, r.oust_alike.txnid]
  unfold idOf
  rw [htxn, hid]

/-- The first step of `Amend`: it answers and has changed nothing, or it waits. -/
theorem amend_cases (hp : (w.txns h).ptr = some (.reader a)) (hr : w.lib.readers a = some r)
    {reply : Reply} (hstep : w.step (.go g self o (.amend h flags)) = some (w', reply)) :
    w' = w ∧ (∀ x, reply = .returned x → x.txn = none) ∧ (∀ k, reply ≠ .running k) ∨
    reply = .running h ∧ w' = ({ w with
      lib := w.lib.setReader a (some (r.awaiting flags)) }).push g (.amending flags) h ∧
      h < w.next ∧ (w.txns h).managed = false := by
  rcases step_cases hstep with ⟨g', self', o', call, he, hknown, _, hexec⟩ | ⟨_, _, he, _⟩ |
    ⟨_, _, he, _⟩ | ⟨he, _⟩
  · obtain ⟨rfl, rfl, rfl, rfl⟩ := Event.go.inj he
    have hh : h < w.next := hknown h (by simp [Call.handles])
    simp only [exec, Option.some.injEq] at hexec
    unfold amend unmanaged at hexec
    split at hexec
    · cases hexec
      exact .inl ⟨rfl, by simp, by simp⟩
    · rename_i hmanaged
      split at hexec
      · cases hexec
        refine .inl ⟨rfl, ?_, by simp⟩
        rintro x hx
        cases hx
        rfl
      · split at hexec
        · cases hexec
          refine .inl ⟨rfl, ?_, ?_⟩ <;> simp [mismatch]
        · rw [hp] at hexec
          rcases amendStart_cases o self flags hr with ⟨ret, hstart, _⟩ | ⟨hstart, _⟩
          · simp only [hstart] at hexec
            cases hexec
            refine .inl ⟨rfl, fun x hx => amended_txn hx, fun k hk => ?_⟩
            unfold amended at hk
            split at hk <;> cases hk
          · simp only [hstart] at hexec
            cases hexec
            exact .inr ⟨rfl, rfl, hh, by simpa using hmanaged⟩
  · cases he
  · cases he
  · cases he

theorem Awaited.run {mid : World} (run : system.Reachable mid)
    (later : (system.after mid).Reaches (Elsewhere g h a) s) (ha : Awaited g h a r mid mid) :
    Awaited g h a r mid s := by
  induction later with
  | start hs =>
    subst hs
    exact ha
  | next prev helse hstep ih => exact ih.step (lib_ok (run.trans prev.reachable)) helse hstep

/-- What the `Txn` of the reader becomes when `Amend` succeeds. -/
def amendedTxn (flags : UInt32) (x : Txn) : Txn :=
  if flags &&& txnRdonlyPrepare == 0 then x.clearTxn else x.resetID

/-- The last step of an `Amend` that has waited: how libmdbx ended, and what that made of the
goroutine's world. -/
theorem amendLocked_cases (ok : s.lib.Ok) {f : Frame} {fs : List Frame}
    (hframes : s.frames g = f :: fs)
    (hkind : f.kind = .amending flags) (htxn : f.txn = h) (hptr : f.ptr = some (.reader a))
    (hr : s.lib.readers a = some r) {reply : Reply}
    (hstep : s.step (.go g self o .amendLocked) = some (w', reply)) :
    ∃ code p, AmendEnd o flags a r s.lib w'.lib code p ∧
      (code ≠ Code.success → w'.txns = s.txns ∧ ∀ x, reply = .returned x → x.txn = none) ∧
      (code = Code.success → reply = .returned { txn := some s.next } ∧
        (w'.txns s.next).ptr = p ∧ (h < s.next → w'.txns h = amendedTxn flags (s.txns h))) := by
  rcases step_cases hstep with ⟨g', self', o', call, he, _, _, hexec⟩ | ⟨_, _, he, _⟩ |
    ⟨_, _, he, _⟩ | ⟨he, _⟩
  · obtain ⟨rfl, rfl, rfl, rfl⟩ := Event.go.inj he
    obtain ⟨kind, txn, ptr, snapshot⟩ := f
    obtain rfl : kind = .amending flags := hkind
    obtain rfl : txn = h := htxn
    obtain rfl : ptr = some (.reader a) := hptr
    simp only [exec, amendLocked, hframes] at hexec
    obtain ⟨res, hres, heq⟩ := Option.map_eq_some_iff.mp hexec
    have hend := amendLocked_end ok hr hres
    by_cases hcode : res.2.1 = Code.success
    · simp only [hcode, bne_self_eq_false, Bool.false_eq_true, ↓reduceIte, Prod.mk.injEq] at heq
      obtain ⟨rfl, rfl⟩ := heq
      refine ⟨_, _, hend, fun hne => absurd hcode hne, fun _ => ⟨rfl, ?_, fun hh => ?_⟩⟩
      · simp [create, setTxn, pop]
      · have hne : txn ≠ s.next := Nat.ne_of_lt hh
        simp [create, setTxn, pop, hne, amendedTxn]
    · simp only [bne_iff_ne, ne_eq, hcode, not_false_eq_true, ↓reduceIte, Prod.mk.injEq] at heq
      obtain ⟨rfl, rfl⟩ := heq
      exact ⟨_, _, hend, fun _ => ⟨rfl, fun x hx => amended_txn hx⟩, fun heq => absurd heq hcode⟩
  · cases he
  · cases he
  · cases he

theorem StartReady.congr {env : MdbxEnv} {r₁ : ReadTxn} (hid : r₁.txnid = r.txnid) :
    StartReady o env r₁ ↔ StartReady o env r := by
  constructor
  · exact fun h => { h with recent := h.recent.trans hid }
  · exact fun h => { h with recent := h.recent.trans hid.symm }

theorem awaiting_txnid (r : ReadTxn) : (r.awaiting flags).txnid = r.txnid := by
  unfold ReadTxn.awaiting
  split <;> rfl

/-- What the wait has left of the reader: it may be parked and ousted, but not more. -/
theorem waited_reader (hr : s.lib.readers a = some (r.awaiting flags) ∨
      s.lib.readers a = some (r.awaiting flags).oust) :
    ∃ r₁, s.lib.readers a = some r₁ ∧ r₁.txnid = r.txnid ∧
      r₁.parked = (r.awaiting flags).parked ∧
      (r₁ = r.awaiting flags ∨ r₁ = (r.awaiting flags).oust) := by
  rcases hr with hr | hr
  · exact ⟨_, hr, awaiting_txnid r, rfl, .inl rfl⟩
  · exact ⟨_, hr, (ReadTxn.oust_alike _).txnid.trans (awaiting_txnid r),
      (ReadTxn.oust_alike _).parked, .inr rfl⟩

/-- An `Amend` that has waited: what its last step began with, how libmdbx ended, and what that made
of the `Txn` values. -/
theorem waited_cases {waited : Bool} (run : system.Reachable w)
    (hp : (w.txns h).ptr = some (.reader a)) (hr : w.lib.readers a = some r)
    (hamend : Amends g self flags h a w waited s o w' x) (hwaited : waited = true) :
    ∃ r₁ code p, (r₁ = r.awaiting flags ∨ r₁ = (r.awaiting flags).oust) ∧ r₁.txnid = r.txnid ∧
      r₁.parked = (r.awaiting flags).parked ∧ s.txns h = w.txns h ∧ (w.txns h).managed = false ∧
      system.Reachable w' ∧ h < w'.next ∧ AmendEnd o flags a r₁ s.lib w'.lib code p ∧
      (code ≠ Code.success → w'.txns = s.txns ∧ x.txn = none) ∧
      (code = Code.success → x = { txn := some s.next } ∧ (w'.txns s.next).ptr = p ∧
        w'.txns h = amendedTxn flags (w.txns h)) := by
  cases hamend with
  | atOnce _ => cases hwaited
  | @waited o₁ _ mid _ _ _ hfirst later hlast =>
    rcases amend_cases hp hr hfirst with ⟨_, _, hno⟩ | ⟨_, hmid, hh, hmanaged⟩
    · exact absurd rfl (hno h)
    · have hrun : system.Reachable mid :=
        run.next trivial (show system.step w (.go g self o₁ (.amend h flags)) = some mid by
          simp [system, hfirst])
      have hstart : Awaited g h a (r.awaiting flags) mid mid := by
        refine ⟨.inl ?_, rfl, rfl, ?_⟩
        · rw [hmid]
          exact setReader_self _ _ _
        · rw [hmid]
          exact hh
      have ha := hstart.run hrun later
      have hlater : system.Reachable s := hrun.trans later.reachable
      have hend' : system.Reachable w' :=
        hlater.next trivial (show system.step s (.go g self o .amendLocked) = some w' by
          simp [system, hlast])
      have htxn : s.txns h = w.txns h := by
        rw [ha.txn, hmid]
        rfl
      have hframes := ha.frames
      rw [hmid] at hframes
      simp only [push, Function.update_self] at hframes
      obtain ⟨r₁, hr₁, hid, hparked, hsame⟩ := waited_reader ha.reader
      obtain ⟨code, p, hend, hfailed, hstarted⟩ :=
        amendLocked_cases (lib_ok hlater) hframes rfl rfl hp hr₁ hlast
      have hnext : s.next ≤ w'.next := by
        rcases step_cases hlast with ⟨_, _, _, _, _, _, _, hexec⟩ | ⟨_, _, he, _⟩ |
          ⟨_, _, he, _⟩ | ⟨he, _⟩
        · exact (exec_act (lib_ok hlater) hexec).next_le
        all_goals cases he
      refine ⟨r₁, code, p, hsame, hid, hparked, htxn, hmanaged, hend',
        Nat.lt_of_lt_of_le ha.known hnext, hend, fun hcode => ?_, fun hcode => ?_⟩
      · exact ⟨(hfailed hcode).1, (hfailed hcode).2 x rfl⟩
      · obtain ⟨hreply, hptr, hafter⟩ := hstarted hcode
        exact ⟨Reply.returned.inj hreply, hptr, by rw [hafter ha.known, htxn]⟩

/-- `Amend` keeps its promise for a live reader exactly when `AmendFits`. -/
theorem amend_respected_iff {waited : Bool} (run : system.Reachable w)
    (hp : (w.txns h).ptr = some (.reader a)) (hr : w.lib.readers a = some r)
    (hlive : r.finished = false) (hamend : Amends g self flags h a w waited s o w' x) :
    AmendRespected h a r w s w' x ↔ AmendFits flags r (w.txns h).parked waited s.lib o := by
  cases waited with
  | false =>
    cases hamend with
    | atOnce hstep =>
      rcases amend_cases hp hr hstep with ⟨rfl, htxn, _⟩ | ⟨hrunning, _⟩
      · simp only [AmendRespected, htxn x rfl, AmendFits, Bool.false_eq_true, false_and, false_or,
          false_implies, and_true]
        constructor
        · exact fun hleft => hleft.marked
        · exact fun hmarked => ⟨.inl hr, rfl, hmarked, rfl, .refl _⟩
      · cases hrunning
  | true =>
    obtain ⟨r₁, code, p, hsame, hid, hparked, htxn, _, _, _, hend, hfailed, hstarted⟩ :=
      waited_cases run hp hr hamend rfl
    have hready : StartReady o s.lib r₁ ↔ StartReady o s.lib r := StartReady.congr hid
    cases hend with
    | failed hnot hcode hreader hrecent hwriter =>
      obtain ⟨htxns, hnone⟩ := hfailed hcode
      rw [hready] at hnot
      have htxn' : w'.txns h = w.txns h := by rw [htxns, htxn]
      simp only [AmendRespected, hnone, AmendFits, hnot, false_and, and_false, false_or,
        not_false_eq_true, and_true, forall_const]
      constructor
      · intro hleft
        refine ⟨by rw [← hleft.marked, hleft.txn], ReadTxn.awaiting_parked.mp ?_⟩
        rw [← hparked]
        rcases hleft.reader with hkept | hkept
        · rw [hreader] at hkept
          rw [Option.some.inj hkept]
        · rw [hreader] at hkept
          rw [Option.some.inj hkept, r.oust_alike.parked]
      · rintro ⟨hmarked, hpark⟩
        rw [ReadTxn.awaiting_same hpark] at hsame
        have hkept : w'.lib.readers a = some r ∨ w'.lib.readers a = some r.oust := by
          rcases hsame with heq | heq
          · exact .inl (heq ▸ hreader)
          · exact .inr (heq ▸ hreader)
        exact ⟨hkept, htxn', by rw [htxn', hmarked], idOf_reader hp hr htxn' hkept, hwriter⟩
    | broken hyes hmismatch hcode hreader =>
      simp only [AmendRespected, (hfailed hcode).2, AmendFits, hready.mp hyes, hmismatch]
      simp only [Bool.true_eq_false, and_false, and_self, not_true_eq_false, forall_const,
        or_self, iff_false]
      intro hleft
      -- the failed reset has taken the snapshot away
      rcases hleft.reader with hkept | hkept
      · rw [hreader] at hkept
        have hfin := congrArg ReadTxn.finished (Option.some.inj hkept)
        rw [ReadTxn.txnRoReset_finished, hlive] at hfin
        cases hfin
      · rw [hreader] at hkept
        have hfin := congrArg ReadTxn.finished (Option.some.inj hkept)
        rw [ReadTxn.txnRoReset_finished, r.oust_alike.finished, hlive] at hfin
        cases hfin
    | started hyes hmatch hcode hwriter htxnid hreader =>
      obtain ⟨rfl, hptr, _⟩ := hstarted hcode
      simp only [AmendRespected, AmendFits, hready.mp hyes, hmatch, and_self, true_or, iff_true]
      refine ⟨hptr, hwriter, ?_⟩
      rw [htxnid, hid]
      exact UInt64.add_sub_cancel _ _

theorem system_init : system.init {} := ⟨rfl, rfl, rfl, rfl, rfl, rfl, by decide⟩

/-- The state after some events; one that cannot happen is left out. -/
def played (w : World) (es : List Event) : World := es.foldl (fun w e => (system.step w e).getD w) w

theorem played_reachable (es : List Event) {w : World} (run : system.Reachable w) :
    system.Reachable (w.played es) := by
  induction es generalizing w with
  | nil => exact run
  | cons e es ih =>
    change system.Reachable (((system.step w e).getD w).played es)
    apply ih
    cases hstep : system.step w e with
    | none => exact run
    | some w' => exact run.next trivial hstep

/-- One live reader, at the address 1. -/
def reading : World := ({} : World).played [.go 0 0 {} (.beginTxn none txnRdonly)]

theorem reading_reachable : system.Reachable reading := played_reachable _ (.start system_init)

/-- A goroutine waits to amend it. -/
def amending (flags : UInt32) : World := reading.played [.go 0 0 {} (.amend 0 flags)]

/-- Another process commits while `Amend` waits: the reader stays parked, and its `Txn` does not
know of it. -/
theorem amend_leaves_parked : ¬ ∀ (g : Gor) (self : Thread) (flags : UInt32) (h : Handle) (a : Addr)
    (w s w' : World) (r : ReadTxn) (waited : Bool) (o : Sys) (x : Returned), system.Reachable w →
    (w.txns h).ptr = some (.reader a) → w.lib.readers a = some r → r.finished = false →
    (w.txns h).parked = r.isParked → Amends g self flags h a w waited s o w' x →
    AmendRespected h a r w s w' x := by
  intro hrespected
  have later : (system.after (amending 0)).Reaches (Elsewhere 0 0 1) _ :=
    (Transition.System.Reaches.start rfl).next (e := .foreignCommit 2 []) trivial rfl
  have hwaits : reading.step (.go 0 0 {} (.amend 0 0)) = some (amending 0, .running 0) := rfl
  have hleft : LeftAlone 0 1 _ reading _ _ :=
    hrespected 0 0 0 0 1 reading _ _ _ true {} { flag := true } reading_reachable rfl rfl rfl rfl
      (.waited hwaits later rfl)
  exact absurd hleft.reader (by decide)

theorem amend_respected_ousted : ∃ (s w' : World) (r : ReadTxn) (x : Returned),
    AmendRespected 0 1 r reading s w' x ∧ x.txn = some 1 := by
  have later : (system.after (amending 0)).Reaches (Elsewhere 0 0 1) _ :=
    (Transition.System.Reaches.start rfl).next (e := .oust 1) trivial rfl
  have hwaits : reading.step (.go 0 0 {} (.amend 0 0)) = some (amending 0, .running 0) := rfl
  have hamends : Amends 0 0 0 0 1 reading true _ {} _ { txn := some 1 } :=
    .waited hwaits later rfl
  exact ⟨_, _, _, _, (amend_respected_iff reading_reachable rfl rfl rfl hamends).mpr
    (.inl ⟨rfl, ⟨rfl, rfl, rfl, rfl, rfl, by decide, rfl⟩, rfl⟩), rfl⟩

/-! ### The reader after a success -/

/-- `Renew` of `h` starts the reader at `a` anew when nothing fails. -/
def Renewable (h : Handle) (a : Addr) (w : World) : Prop :=
  ∀ o self, w.lib.fatal = false → o.roSlotGet = none → o.roStart = none →
    (w.renew o self h).2 = .returned {} ∧
      ∃ r, (w.renew o self h).1.lib.readers a = some r ∧ r.finished = false ∧
        r.txnid = w.lib.recent

/-- `Abort` of `h` frees the reader at `a` and clears the `Txn`. -/
def Abortable (h : Handle) (a : Addr) (w : World) : Prop :=
  ∀ o self, w.lib.fatal = false → w.mismatched self h = false →
    (w.abort o self h).2 = .returned {} ∧ (w.abort o self h).1.lib.readers a = none ∧
      ((w.abort o self h).1.txns h).ptr = none

/-- What `Amend` owes to the `Txn` of the reader when it succeeds. Either libmdbx has freed the
reader, and the `Txn` has no pointer to it, now or ever again; or the reader is reset and the `Txn`
has its pointer and its id and can be renewed and aborted. -/
def HandedOver (h : Handle) (a : Addr) (w : World) : Prop :=
  match w.lib.readers a with
  | none => ∀ v, (system.after w).Reachable v → (v.txns h).ptr = none
  | some r => (w.txns h).ptr = some (.reader a) ∧ r.finished = true ∧ w.idOf h = r.txnid ∧
      Renewable h a w ∧ Abortable h a w

theorem renewable_of_reset (hp : (w.txns h).ptr = some (.reader a))
    (hr : w.lib.readers a = some r) (hfin : r.finished = true)
    (hmanaged : (w.txns h).managed = false) : Renewable h a w := by
  intro o self hfatal hget hstart
  have hstarted : (r.txnRoStart o w.lib.recent false).2 = Code.success :=
    ReadTxn.txnRoStart_success hget hstart r
  have hrenew : w.lib.mdbxTxnRenew o self (some (.reader a)) =
      (w.lib.setReader a (some (r.txnRoStart o w.lib.recent false).1), Code.success) := by
    simp [mdbxTxnRenew, onReader, hr, ReadTxn.mdbxTxnRenew, hfatal, hfin, hstarted]
  unfold renew unmanaged
  rw [if_neg (by simp [hmanaged])]
  unfold renewTxn World.call
  simp only [hp, hrenew]
  refine ⟨rfl, _, setReader_self _ _ _, ?_, ?_⟩
  all_goals simp [ReadTxn.txnRoStart, hget, hstart]

theorem abortable_of_reader (hp : (w.txns h).ptr = some (.reader a))
    (hr : w.lib.readers a = some r) (hmanaged : (w.txns h).managed = false) :
    Abortable h a w := by
  intro o self hfatal hmis
  have habort : w.lib.mdbxTxnAbort o self (some (.reader a)) =
      (w.lib.setReader a none, Code.success) := by
    simp [mdbxTxnAbort, hr, hfatal]
  unfold abort unmanaged
  rw [if_neg (by simp [hmanaged])]
  unfold abortTxn World.call
  simp only [hp, hmis, habort, Option.isNone_some, Bool.false_eq_true, ↓reduceIte]
  refine ⟨trivial, setReader_self _ _ _, ?_⟩
  rw [setTxn_self]
  rfl

/-- A `Txn` without a pointer stays without one. -/
theorem null_stays {v : World} (run : system.Reachable w) (later : (system.after w).Reachable v)
    (hh : h < w.next) (hnull : (w.txns h).ptr = none) : (v.txns h).ptr = none := by
  have hinv : (v.txns h).ptr = none ∧ h < v.next := by
    induction later with
    | start hs => exact hs ▸ ⟨hnull, hh⟩
    | next prev _ hstep ih =>
      obtain ⟨hptr, hlt⟩ := ih
      obtain ⟨c, hc, rfl⟩ := Option.map_eq_some_iff.mp hstep
      rcases step_cases hc with ⟨g', self, o, call, _, _, _, hexec⟩ | ⟨_, _, _, _, rfl⟩ |
        ⟨_, _, _, _, _, _, rfl⟩ | ⟨_, rfl⟩
      · have act := exec_act (lib_ok (run.trans prev)) hexec
        have honly : ∀ b, OnlyReader b (c.1.txns h).ptr := fun b =>
          act.onlyReader hlt (hptr ▸ OnlyReader.none b)
        refine ⟨?_, Nat.lt_of_lt_of_le hlt act.next_le⟩
        -- a pointer would be to two readers at once
        cases hq : (c.1.txns h).ptr with
        | none => rfl
        | some q =>
          have h0 := honly 0 q hq
          have h1 := honly 1 q hq
          rw [h0] at h1
          cases h1
      · exact ⟨hptr, hlt⟩
      · exact ⟨hptr, hlt⟩
      · exact ⟨hptr, hlt⟩
  exact hinv.1

/-- `Amend` hands the reader over for the flags with which Go and libmdbx agree on its fate: those
with all of `TxPrepareRO`, or with none of it. -/
theorem handedOver_iff {waited : Bool} {k : Handle} (run : system.Reachable w)
    (hp : (w.txns h).ptr = some (.reader a)) (hr : w.lib.readers a = some r)
    (hamend : Amends g self flags h a w waited s o w' x) (hk : x.txn = some k) :
    HandedOver h a w' ↔
      flags &&& txnRdonlyPrepare = 0 ∨ flags &&& txnRdonlyPrepare = txnRdonlyPrepare := by
  cases waited with
  | false =>
    -- an `Amend` that does not get to the lock makes no writer
    cases hamend with
    | atOnce hstep =>
      rcases amend_cases hp hr hstep with ⟨_, htxn, _⟩ | ⟨hrunning, _⟩
      · rw [htxn x rfl] at hk
        cases hk
      · cases hrunning
  | true =>
    obtain ⟨r₁, code, p, _, _, _, htxn, hmanaged, run', hh, hend, hfailed, hstarted⟩ :=
      waited_cases run hp hr hamend rfl
    have hsuccess : code = Code.success := by
      by_contra hcode
      rw [(hfailed hcode).2] at hk
      cases hk
    obtain ⟨rfl, _, hafter⟩ := hstarted hsuccess
    cases hend with
    | failed _ hcode _ _ _ => exact absurd hsuccess hcode
    | broken _ _ hcode _ => exact absurd hsuccess hcode
    | started _ _ _ _ _ hreader =>
      by_cases hall : flags &&& txnRdonlyPrepare = txnRdonlyPrepare
      · -- kept by both
        have hzero : ¬flags &&& txnRdonlyPrepare = 0 := by
          rw [hall]
          decide
        have hself : w'.txns h = (w.txns h).resetID := by
          rw [hafter, amendedTxn, if_neg (by simpa using hzero)]
        rw [if_pos hall] at hreader
        have hptr' : (w'.txns h).ptr = some (.reader a) := by rw [hself, Txn.resetID_ptr, hp]
        have hmanaged' : (w'.txns h).managed = false := by
          rw [hself]
          exact hmanaged
        simp only [HandedOver, hreader, hall, or_true, iff_true]
        refine ⟨hptr', rfl, ?_, renewable_of_reset hptr' hreader rfl hmanaged',
          abortable_of_reader hptr' hreader hmanaged'⟩
        have hid : w'.getID h = (r₁.txnRoReset o).1.txnid := by
          simp [getID, hptr', mdbxTxnId, hreader]
        unfold idOf
        rw [hid]
        simp [hself]
      · rw [if_neg hall] at hreader
        simp only [HandedOver, hreader, hall, or_false]
        constructor
        · intro hgone
          by_contra hzero
          have hptr' : (w'.txns h).ptr = none := hgone w' (.start rfl)
          rw [hafter, amendedTxn, if_neg (by simpa using hzero), Txn.resetID_ptr, hp] at hptr'
          cases hptr'
        · intro hzero v later
          refine null_stays run' later hh ?_
          rw [hafter, amendedTxn, if_pos (by simpa using hzero), Txn.clearTxn_ptr]

/-- With one of the two bits of `TxPrepareRO`, which is `Readonly`, libmdbx frees the reader and the
`Txn` keeps its pointer. -/
theorem amend_leaves_dangling :
    ¬ ∀ (g : Gor) (self : Thread) (flags : UInt32) (h k : Handle) (a : Addr)
    (w s w' : World) (r : ReadTxn) (waited : Bool) (o : Sys) (x : Returned), system.Reachable w →
    (w.txns h).ptr = some (.reader a) → w.lib.readers a = some r →
    Amends g self flags h a w waited s o w' x → x.txn = some k → HandedOver h a w' := by
  intro hover
  have hwaits : reading.step (.go 0 0 {} (.amend 0 txnRdonly)) =
      some (amending txnRdonly, .running 0) := rfl
  have hgone : HandedOver 0 1 _ :=
    hover 0 0 txnRdonly 0 1 1 reading (amending txnRdonly) _ _ true {} { txn := some 1 }
      reading_reachable rfl rfl
      (.waited hwaits (.start rfl) rfl) rfl
  have hptr := hgone _ (.start rfl)
  exact absurd hptr (by decide)

theorem handedOver_kept : ∃ w', HandedOver 0 1 w' ∧ (w'.txns 0).ptr = some (.reader 1) := by
  have hwaits : reading.step (.go 0 0 {} (.amend 0 txnRdonlyPrepare)) =
      some (amending txnRdonlyPrepare, .running 0) := rfl
  have hamends : Amends 0 0 txnRdonlyPrepare 0 1 reading true _ {} _ { txn := some 1 } :=
    .waited hwaits (.start rfl) rfl
  exact ⟨_, (handedOver_iff reading_reachable rfl rfl hamends rfl).mpr (.inr rfl), rfl⟩

end World

end MdbxGo
