import MdbxGo.Mdbxpool.Custody

/-! What the callers of a pool may use and what they leave to it, and what then happens to a
transaction while another goroutine makes a step: nothing but an oust. -/

namespace MdbxGo

namespace TxnPool

open Threads Transition MdbxEnv World

variable {cfg : Config} {s s' : TxnPool} {i j n : Nat} {t t' u : Goroutine} {c : Choice}
  {new : List Goroutine} {w w' : World} {txn h : Handle} {a a' : At} {fs : List Frame}

/-! ### The stacks of the goroutines in the pool -/

/-- What is on the stack of a goroutine at a place of `View` or `Update`. -/
def At.stands (fs : List Frame) : At → Prop
  | .get .view | .renew .view _ | .discard .view _ | .create .view | .runOp _ | .runTxn => fs = []
  | .viewing txn => ∃ restore, Runs (.keep restore) txn fs
  | .leave txn _ => (∃ restore, Runs (.keep restore) txn fs) ∧ fs.length = 1
  | .updating txn => Runs .term txn fs
  | .saveID txn | .terminate txn _ _ => Runs .term txn fs ∧ fs.length = 1
  | _ => True

theorem start_stands (a : Entry) : a.start.at_.stands [] := by
  cases a with
  | beginTxn flags =>
    simp only [Entry.start]
    split <;> trivial
  | view | update => rfl
  | _ => trivial

theorem unwind_stands (a : At) : a.unwind.stands fs := by
  unfold At.unwind
  split <;> trivial

theorem delivered_stands {k : Starter} (h : (At.create k).stands fs) :
    (k.delivered txn).stands fs := by
  cases k with
  | beginTxn => trivial
  | view => exact h

theorem atomic_stands (ha : a.atomic cfg s = some (s', a', new)) : a'.stands fs := by
  unfold At.atomic at ha
  split at ha
  · cases ha; trivial
  · cases ha
    split
    · trivial
    · split <;> trivial
  · cases ha; trivial
  · rename_i k _ _
    cases ha
    split
    · trivial
    · cases k <;> trivial
  · rename_i k _
    cases ha
    split
    · cases k <;> trivial
    · split <;> trivial
  · split at ha <;> cases ha <;> trivial
  · rename_i got
    cases ha
    cases got <;> trivial
  · cases ha; trivial
  · cases ha; trivial
  · obtain ⟨r, _, heq⟩ := Option.map_eq_some_iff.mp ha
    cases heq
    trivial
  · cases ha

theorem got_stands {got : Option Handle} (ha : a.got got = some a') (h : a.stands fs) :
    a'.stands fs := by
  unfold At.got at ha
  split at ha
  · rename_i k
    cases ha
    cases k with
    | beginTxn => cases got <;> trivial
    | view => cases got <;> exact h
  · cases ha; trivial
  · cases ha
    cases got <;> trivial
  · cases ha
    cases got <;> trivial
  · cases ha

/-- A call that leaves the stack as it is. -/
theorem next_stands {txnid : UInt64} {r : Returned} {call : Call} (hcall : a.method = some call)
    (hrestacks : restacks call = false) (h : a.stands fs) : (a.next txnid r).stands fs := by
  cases a with
  | renew k txn =>
    unfold At.next
    dsimp only
    split
    · exact delivered_stands (by cases k <;> exact h)
    · cases k <;> exact h
  | discard k txn => cases k <;> exact h
  | create k =>
    unfold At.next
    dsimp only
    cases r.txn with
    | none => trivial
    | some txn => exact delivered_stands h
  | reset txn =>
    unfold At.next
    dsimp only
    split <;> trivial
  | renewStale k txn =>
    unfold At.next
    dsimp only
    split
    · cases k <;> trivial
    · trivial
  | abortStale k txn => cases k <;> trivial
  | saveID txn => exact h
  | runOp txn | leave txn res | terminate txn res saved | runTxn =>
    cases hcall
    cases hrestacks
  | _ => trivial

/-- A method of a `Txn` leaves the goroutine with the stack that its new place has. -/
theorem resume_stands {thread : Thread} {o : Sys} {call : Call} {r : World × Reply}
    {txnid : UInt64} (hcall : t.at_.method = some call)
    (hr : w.step (.go i thread o call) = some r) (h : t.at_.stands (w.frames i)) :
    (t.resume txnid r.2).at_.stands (r.1.frames i) := by
  have hexec := step_exec hr
  obtain ⟨at_, out⟩ := t
  obtain ⟨w', reply⟩ := r
  change at_.method = some call at hcall
  cases reply with
  | panicked p => exact unwind_stands at_
  | returned x =>
    by_cases hrestacks : restacks call = false
    · rw [exec_frames hexec hrestacks]
      exact next_stands hcall hrestacks h
    · cases at_ with
      | runOp txn | leave txn res | runTxn => trivial
      | terminate txn res saved =>
        change (At.next txnid x (.terminate txn res saved)).stands _
        unfold At.next
        dsimp only
        split <;> trivial
      | renew | discard | create | reset | abort | id | renewStale | abortStale | saveID |
        closeAbort =>
        cases hcall
        exact absurd rfl hrestacks
      | _ => cases hcall
  | running k =>
    change (at_.inside k).stands _
    cases at_ with
    | runOp txn =>
      cases hcall
      cases hexec
      have hnil : w.frames i = [] := h
      exact ⟨_, [], _, (Function.update_self _ _ _).trans (congrArg _ hnil), rfl, rfl⟩
    | runTxn =>
      cases hcall
      have hnil : w.frames i = [] := h
      obtain ⟨b, hb, hrun⟩ := Option.map_eq_some_iff.mp hexec
      have hsame := beginTxn_frames hb
      split at hrun
      · cases hrun
      · unfold runOpTerm unmanaged at hrun
        split at hrun
        · cases hrun
        · cases hrun
          have hempty := (congrFun hsame i).trans hnil
          exact ⟨[], _, (Function.update_self _ _ _).trans (congrArg _ hempty), rfl, rfl⟩
    | _ => trivial

theorem Moved.stands (hm : Moved cfg i s t s' t' new c) (h : t.at_.stands (s.world.frames i)) :
    t'.at_.stands (s'.world.frames i) := by
  cases hm with
  | method hcall hr hs ht _ =>
    subst hs ht
    exact resume_stands hcall hr h
  | atomic _ _ ha _ => exact atomic_stands ha
  | got _ ha hs _ _ =>
    subst hs
    exact got_stands ha h
  | event hfree hmine hinner hr hs ht _ =>
    subst hs ht
    obtain ⟨at_, out⟩ := t'
    cases at_ with
    | viewing txn =>
      obtain ⟨restore, hruns⟩ := h
      exact ⟨restore, step_runs (fun _ h => by cases h) hruns hmine (hinner rfl) hr⟩
    | updating txn => exact step_runs (fun _ h => by cases h) h hmine (hinner rfl) hr
    | app | held => trivial
    | _ => cases hfree
  | @ended res hlength ha hs _ _ =>
    subst hs
    obtain ⟨at_, out⟩ := t
    obtain ⟨at', out'⟩ := t'
    cases at_ with
    | viewing txn =>
      obtain rfl : At.leave txn res = at' := Option.some.inj ha
      exact ⟨h, hlength⟩
    | updating txn =>
      have ha : (if res = .nil then At.saveID txn else .terminate txn res 0) = at' :=
        Option.some.inj ha
      subst ha
      change At.stands _ (if _ then _ else _)
      split <;> exact ⟨h, hlength⟩
    | _ => cases ha

theorem stands_outline (cfg : Config)
    (ok : Threads TxnPool Goroutine → Threads.Event Entry Choice → Prop) :
    (program cfg).Outline ok (fun s n => Sane s.world n)
      (fun s i t => t.at_.stands (s.world.frames i)) where
  init s h := init_sane h.1
  enters s a sane _ := by
    refine ⟨sane.more (Nat.le_succ _), ?_⟩
    rw [sane.idle _ (Nat.le_refl _)]
    exact start_stands a
  step s i t c s' t' new sane h _ hi hs := by
    have hm := step_moved hs
    refine ⟨?_, hm.stands h, fun k q hq => ?_⟩
    · exact (hm.sane sane (List.getElem?_eq_some_iff.mp hi).1).more (Nat.le_add_right _ _)
    · rw [hm.started q (List.mem_of_getElem? hq)]
      trivial
  others s i t c s' t' new n j u sane _ hother hij hs := by
    have later := (step_moved hs).later sane.ok
    rw [later.frames j (Ne.symm hij)]
    exact hother

/-! ### What is lent, and what is kept -/

/-- The transactions in hand that the caller has no access to. -/
def At.keeps : At → List Handle
  | .held _ | .viewing _ | .updating _ => []
  | a => a.has

/-- The transactions that the pool keeps: those in the bag and in the hands of its methods. -/
def keeps (s : Threads TxnPool Goroutine) : List Handle :=
  s.shared.pool ++ s.threads.flatMap (·.at_.keeps)

/-- The callers of the pool use the transactions that it has lent to them, and leave alone those
that it keeps. -/
def respects (s : Threads TxnPool Goroutine) : Threads.Event Entry Choice → Bool
  | .run _ (.does e) => (s.shared.world.touches e).all fun h => !(keeps s).contains h
  | _ => true

theorem keeps_of_pool {s : Threads TxnPool Goroutine} (hh : h ∈ s.shared.pool) : h ∈ keeps s :=
  List.mem_append_left _ hh

theorem keeps_of_hand {s : Threads TxnPool Goroutine} (hi : s.threads[i]? = some t)
    (hh : h ∈ t.at_.keeps) : h ∈ keeps s :=
  List.mem_append_right _ (List.mem_flatMap.mpr ⟨t, List.mem_of_getElem? hi, hh⟩)

theorem At.has_of_keeps (hh : h ∈ a.keeps) : h ∈ a.has := by
  unfold At.keeps at hh
  split at hh
  · cases hh
  · cases hh
  · cases hh
  · exact hh

theorem custody_of_keeps {s : Threads TxnPool Goroutine} (hh : h ∈ keeps s) : h ∈ custody s := by
  rcases List.mem_append.mp hh with hpool | hhand
  · exact List.mem_append_left _ hpool
  · obtain ⟨t, ht, hh⟩ := List.mem_flatMap.mp hhand
    exact List.mem_append_right _ (List.mem_flatMap.mpr ⟨t, ht, At.has_of_keeps hh⟩)

theorem respects_untouched {s : Threads TxnPool Goroutine} {e : MdbxGo.Event}
    (hok : respects s (.run i (.does e)) = true) (hh : h ∈ keeps s) :
    h ∉ s.shared.world.touches e := by
  intro htouch
  have hno := List.all_eq_true.mp hok h htouch
  simp [hh] at hno

/-! ### What the others leave alone -/

/-- The pool calls methods of a `Txn` only on what its goroutine has in hand. -/
theorem touches_has {thread : Thread} {o : Sys} {call : Call} (hcall : a.method = some call)
    (hstands : a.stands (w.frames i)) (hh : h ∈ w.touches (.go i thread o call)) : h ∈ a.has := by
  cases a with
  | leave k res =>
    cases hcall
    obtain ⟨⟨restore, hruns⟩, hlength⟩ := hstands
    obtain ⟨f, hframes, _, rfl⟩ := hruns.single hlength
    simpa [touches, uses, Call.handles, hframes, At.has] using hh
  | terminate k res saved =>
    cases hcall
    obtain ⟨hruns, hlength⟩ := hstands
    obtain ⟨f, hframes, _, rfl⟩ := hruns.single hlength
    simpa [touches, uses, Call.handles, hframes, At.has] using hh
  | create k | runTxn =>
    cases hcall
    simp [touches, uses, Call.handles] at hh
  | renew | discard | runOp | reset | abort | id | renewStale | abortStale | saveID | closeAbort =>
    cases hcall
    simpa [touches, uses, Call.handles, At.has] using hh
  | _ => cases hcall

/-- `h` has a reader, and what `P` says of the two holds. -/
def Backed (P : Txn → ReadTxn → Prop) (w : World) (h : Handle) : Prop :=
  ∃ a r, (w.txns h).ptr = some (.reader a) ∧ w.lib.readers a = some r ∧ P (w.txns h) r

variable {P : Txn → ReadTxn → Prop}

/-- What holds of a transaction is kept by the steps of a goroutine that does not have it in hand,
when the callers leave it alone. -/
theorem Moved.backed (hm : Moved cfg i s t s' t' new c) (ok : s.world.lib.Ok)
    (separate : s.world.Separate) (hstands : t.at_.stands (s.world.frames i))
    (hP : ∀ x r, P x r → P x r.oust) (hknown : h < s.world.next) (hfree : h ∉ t.at_.has)
    (hrespects : ∀ e, c = .does e → h ∉ s.world.touches e) (hbacked : Backed P s.world h) :
    Backed P s'.world h := by
  obtain ⟨a, r, hp, ha, hr⟩ := hbacked
  have hstep : ∀ {e x}, s.world.step e = some x → h ∉ s.world.touches e → Backed P x.1 h := by
    intro e x hx htouch
    obtain ⟨hsame, hreader⟩ := step_untouched ok separate hx hknown htouch hp ha
    rcases hreader with hreader | hreader
    · exact ⟨a, r, hsame ▸ hp, hreader, hsame ▸ hr⟩
    · exact ⟨a, r.oust, hsame ▸ hp, hreader, hsame ▸ hP _ _ hr⟩
  cases hm with
  | method hcall hx hs _ _ =>
    subst hs
    exact hstep hx fun hh => hfree (touches_has hcall hstands hh)
  | atomic _ _ ha' _ =>
    rw [(atomic_world ha').1]
    exact ⟨a, r, hp, ha, hr⟩
  | got _ _ hs _ _ =>
    subst hs
    exact ⟨a, r, hp, ha, hr⟩
  | event _ _ _ hx hs _ _ =>
    subst hs
    exact hstep hx (hrespects _ rfl)
  | ended _ _ hs _ _ =>
    subst hs
    exact ⟨a, r, hp, ha, hr⟩

/-- What holds of a pool in every run, whatever its callers do. -/
structure Orderly (s : Threads TxnPool Goroutine) : Prop extends Kept s where
  stands : ∀ (i : Nat) (t : Goroutine), s.threads[i]? = some t →
    t.at_.stands (s.shared.world.frames i)

theorem orderly_invariant (ok : Threads TxnPool Goroutine → Threads.Event Entry Choice → Prop) :
    (program cfg).system.Invariant ok Orderly where
  init s h :=
    ⟨(kept_invariant ok).init s h, ((stands_outline cfg ok).invariant.init s h).2⟩
  step s e s' ord hok hs :=
    ⟨(kept_invariant ok).step s e s' ord.toKept hok hs,
      ((stands_outline cfg ok).invariant.step s e s' ⟨ord.sane, ord.stands⟩ hok hs).2⟩

/-- What holds of a transaction that the pool keeps goes on to hold, when it is not in hand where
the step is made. -/
theorem Orderly.backed {s s' : Threads TxnPool Goroutine} {e : Threads.Event Entry Choice}
    (ord : Orderly s) (hs : (program cfg).next s e = some s') (hok : respects s e = true)
    (hh : h ∈ keeps s)
    (hfree : ∀ i c t, e = .run i c → s.threads[i]? = some t → h ∉ t.at_.has)
    (hP : ∀ x r, P x r → P x r.oust) (hb : Backed P s.shared.world h) :
    Backed P s'.shared.world h := by
  cases e with
  | enter a =>
    rw [Program.next_enter hs]
    exact hb
  | run i c =>
    obtain ⟨t, t', new, hi, hstep, _⟩ := Program.next_run hs
    refine (step_moved hstep).backed ord.sane.ok ord.separate (ord.stands i t hi) hP
      (ord.known h (custody_of_keeps hh)) (hfree i c t rfl hi) ?_ hb
    rintro e rfl
    exact respects_untouched hok hh

end TxnPool

end MdbxGo
