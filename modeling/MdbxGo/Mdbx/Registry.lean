import Mathlib.Algebra.Group.Nat.Defs
import MdbxGo.Mdbx.ReaderList

/-! The registry of `Env.ReaderList` calls: what each call can rely on while any others register,
list and deregister, the promise that follows for all of them, and the one way it fails. -/

namespace MdbxGo

namespace ReaderList

variable {F E V : Type}

/-! ### What each call can rely on -/

/-- A handle that belongs to call `i`. -/
def Registry.Owned (g : Registry F E V) (i : Nat) (ctx : UInt32) : Prop :=
  ∃ obj o, g.readerctxm ctx = some obj ∧ g.contexts[obj]? = some o ∧ o.owner = i

/-- The error that the function of the call first ended with. -/
def Call.failure (c : Call F E V) : Option (CtxErr E V) := c.delivered.findSome? (·.answer.err)

/-- The handle of a call that has an entry of the registry. -/
def Call.handle (c : Call F E V) : Option UInt32 :=
  match c.at_ with
  | .check ctx | .list ctx _ | .bridge ctx _ | .callback ctx _ _ | .took ctx _
  | .deregister ctx _ => some ctx
  | _ => none

/-- The row that is on its way to the function. -/
def Call.pending (c : Call F E V) : List Row :=
  match c.at_ with
  | .bridge _ row | .callback _ _ row => [row]
  | _ => []

/-- The entry of call `i`: the context that it made, with its own function and the error of its
own function. -/
structure Registry.Entry (g : Registry F E V) (i : Nat) (c : Call F E V) (ctx : UInt32)
    (obj : Nat) : Prop where
  mapped : g.readerctxm ctx = some obj
  context : ∃ fn, c.fn = some fn ∧
    g.contexts[obj]? = some { fn, err := c.failure, owner := i }
  only : ∀ other, g.Owned i other → other = ctx

/-- The rows that were issued and the deliveries: every row went to the function of the call, in
order, and none after one that the function failed on. -/
structure Call.Delivered (c : Call F E V) : Prop where
  rows : c.issued.map readerInfo = c.delivered.map (·.info) ++ c.pending.map readerInfo
  own : ∀ d ∈ c.delivered, c.fn = some d.fn
  last : ∀ pre d post, c.delivered = pre ++ d :: post → d.answer.err.isSome = true → post = []

/-- What holds where a call stands. -/
def Own (g : Registry F E V) (i : Nat) (c : Call F E V) : Prop :=
  c.Delivered ∧ match c.at_ with
  | .entry => (∀ ctx, ¬g.Owned i ctx) ∧ c.failure = none
  | .register ctx =>
    (∀ ctx, ¬g.Owned i ctx) ∧ c.failure = none ∧ c.fn.isSome = true ∧ ctx = UInt32.ofNat c.draw
  | .check ctx | .list ctx _ | .bridge ctx _ =>
    (∃ obj, g.Entry i c ctx obj) ∧ c.failure = none ∧ ctx = UInt32.ofNat c.draw
  | .callback ctx obj _ => g.Entry i c ctx obj ∧ c.failure = none ∧ ctx = UInt32.ofNat c.draw
  | .took ctx _ => (∃ obj, g.Entry i c ctx obj) ∧ ctx = UInt32.ofNat c.draw
  | .deregister ctx result =>
    (∃ obj, g.Entry i c ctx obj) ∧ (∀ e, c.failure = some e ↔ result = .ctxerr e) ∧
      ctx = UInt32.ofNat c.draw
  | .returned result =>
    (∀ ctx, ¬g.Owned i ctx) ∧ ∀ e, c.failure = some e ↔ result = .ctxerr e
  | .conflict => ∀ ctx, ¬g.Owned i ctx
  | .nilDeref => False

/-- The entries point to contexts, and the counter counts the draws. -/
structure Shared (g : Registry F E V) : Prop where
  mapped : ∀ ctx obj, g.readerctxm ctx = some obj → obj < g.contexts.length
  counter : g.readerctxn = UInt32.ofNat g.drawn

section Frame

variable {g g' : Registry F E V} {i j : Nat} {c : Call F E V} {ctx other : UInt32} {obj : Nat}

/-- A change of the registry that leaves what belongs to call `j` alone. -/
structure Registry.Spares (g g' : Registry F E V) (j : Nat) : Prop where
  owned : ∀ ctx, g'.Owned j ctx → g.Owned j ctx
  entry : ∀ ctx obj o, g.readerctxm ctx = some obj → g.contexts[obj]? = some o → o.owner = j →
    g'.readerctxm ctx = some obj ∧ g'.contexts[obj]? = some o

theorem Registry.Spares.of_entry (h : g.Spares g' j) (he : g.Entry j c ctx obj) :
    g'.Entry j c ctx obj := by
  obtain ⟨fn, hfn, ho⟩ := he.context
  obtain ⟨hm, ho'⟩ := h.entry ctx obj _ he.mapped ho rfl
  exact ⟨hm, ⟨fn, hfn, ho'⟩, fun other hother => he.only other (h.owned other hother)⟩

theorem Registry.Spares.own (h : g.Spares g' j) (ho : Own g j c) : Own g' j c := by
  have none_owned : (∀ ctx, ¬g.Owned j ctx) → ∀ ctx, ¬g'.Owned j ctx :=
    fun hn ctx hctx => hn ctx (h.owned ctx hctx)
  have some_entry : ∀ {ctx}, (∃ obj, g.Entry j c ctx obj) → ∃ obj, g'.Entry j c ctx obj :=
    fun ⟨obj, he⟩ => ⟨obj, h.of_entry he⟩
  refine ⟨ho.1, ?_⟩
  obtain ⟨-, ho⟩ := ho
  cases hat : c.at_ with
  | callback ctx obj row =>
    simp only [hat] at ho ⊢
    exact ⟨h.of_entry ho.1, ho.2⟩
  | check | list | bridge | took | deregister =>
    simp only [hat] at ho ⊢
    exact ⟨some_entry ho.1, ho.2⟩
  | entry | register | returned =>
    simp only [hat] at ho ⊢
    exact ⟨none_owned ho.1, ho.2⟩
  | conflict =>
    simp only [hat] at ho ⊢
    exact none_owned ho
  | nilDeref =>
    simp only [hat] at ho

theorem owned_register (hs : Shared g) (fn : F) (h : (g.register ctx fn i).Owned j other) :
    g.Owned j other ∨ i = j ∧ other = ctx := by
  obtain ⟨obj, o, hm, ho, hj⟩ := h
  simp only [Registry.register, Function.update_apply] at hm ho
  by_cases hctx : other = ctx
  · right
    simp only [hctx, ↓reduceIte, Option.some.injEq] at hm
    subst hm
    simp only [List.getElem?_concat_length, Option.some.injEq] at ho
    subst ho
    exact ⟨hj, hctx⟩
  · left
    simp only [hctx, ↓reduceIte] at hm
    rw [List.getElem?_append_left (hs.mapped other obj hm)] at ho
    exact ⟨obj, o, hm, ho, hj⟩

theorem spares_register (hij : i ≠ j) (hs : Shared g) (fn : F) (hfree : g.get ctx = none) :
    g.Spares (g.register ctx fn i) j where
  owned other h := by
    rcases owned_register hs fn h with h | ⟨h, -⟩
    · exact h
    · exact absurd h hij
  entry other obj o hm ho _ := by
    have hne : other ≠ ctx := by
      rintro rfl
      rw [Registry.get, hm] at hfree
      cases hfree
    refine ⟨?_, ?_⟩
    · simp only [Registry.register, Function.update_apply, hne, ↓reduceIte]
      exact hm
    · simp only [Registry.register]
      rw [List.getElem?_append_left (hs.mapped other obj hm)]
      exact ho

theorem owned_deregister :
    (g.deregister ctx).Owned j other ↔ g.Owned j other ∧ other ≠ ctx := by
  by_cases hctx : other = ctx
  · simp [Registry.Owned, Registry.deregister, hctx]
  · simp [Registry.Owned, Registry.deregister, hctx]

theorem spares_deregister (hij : i ≠ j) (he : g.Entry i c ctx obj) :
    g.Spares (g.deregister ctx) j where
  owned other h := (owned_deregister.mp h).1
  entry other obj' o hm ho hj := by
    have hne : other ≠ ctx := by
      rintro rfl
      obtain ⟨fn, -, hi⟩ := he.context
      have hobj : obj = obj' := Option.some.inj (he.mapped.symm.trans hm)
      subst hobj
      rw [hi] at ho
      cases ho
      exact hij hj
    simp only [Registry.deregister, Function.update_apply, hne, ↓reduceIte]
    exact ⟨hm, ho⟩

theorem owned_setErr (e : CtxErr E V) : (g.setErr obj e).Owned j other ↔ g.Owned j other := by
  constructor
  · rintro ⟨obj', o, hm, ho, hj⟩
    simp only [Registry.setErr, List.getElem?_modify] at ho
    obtain ⟨o', ho', rfl⟩ := Option.map_eq_some_iff.mp ho
    refine ⟨obj', o', hm, ho', ?_⟩
    split at hj <;> exact hj
  · rintro ⟨obj', o, hm, ho, hj⟩
    refine ⟨obj', if obj = obj' then { o with err := some e } else o, hm, ?_, ?_⟩
    · simp only [Registry.setErr, List.getElem?_modify, ho]
      rfl
    · split <;> exact hj

theorem spares_setErr (hij : i ≠ j) (he : g.Entry i c ctx obj) (e : CtxErr E V) :
    g.Spares (g.setErr obj e) j where
  owned other h := (owned_setErr e).mp h
  entry other obj' o hm ho hj := by
    have hne : obj ≠ obj' := by
      rintro rfl
      obtain ⟨fn, -, hi⟩ := he.context
      rw [hi] at ho
      cases ho
      exact hij hj
    refine ⟨hm, ?_⟩
    simp only [Registry.setErr, List.getElem?_modify, ho, hne, ↓reduceIte]
    rfl

theorem spares_refl : g.Spares g j := ⟨fun _ h => h, fun _ _ _ hm ho _ => ⟨hm, ho⟩⟩

/-- No step of a call touches what belongs to another. -/
theorem Moves.spares {c' : Call F E V} (hij : i ≠ j) (hs : Shared g) (ho : Own g i c)
    (h : Moves i g c g' c') : g.Spares g' j := by
  obtain ⟨-, ho⟩ := ho
  cases h with
  | draw => exact ⟨fun _ h => h, fun _ _ _ hm ho _ => ⟨hm, ho⟩⟩
  | register hat hfree hfn => exact spares_register hij hs _ hfree
  | failed hat hobj ha =>
    simp only [hat] at ho
    exact spares_setErr hij ho.1 _
  | deregister hat =>
    simp only [hat] at ho
    obtain ⟨⟨obj, he⟩, -⟩ := ho
    exact spares_deregister hij he
  | _ => exact spares_refl

end Frame

section Call

variable {c c' : Call F E V} {row : Row} {fn : F} {a : Answer E V}

theorem Call.Delivered.of_same (h : c.Delivered) (hfn : c'.fn = c.fn) (hi : c'.issued = c.issued)
    (hd : c'.delivered = c.delivered) (hp : c'.pending = c.pending) : c'.Delivered where
  rows := by rw [hi, hd, hp]; exact h.rows
  own := by rw [hd, hfn]; exact h.own
  last := by rw [hd]; exact h.last

theorem Call.Delivered.issue (h : c.Delivered) (hp : c.pending = []) (hfn : c'.fn = c.fn)
    (hi : c'.issued = c.issued ++ [row]) (hd : c'.delivered = c.delivered)
    (hp' : c'.pending = [row]) : c'.Delivered where
  rows := by
    have hrows := h.rows
    rw [hp] at hrows
    rw [hi, hd, hp', List.map_append, hrows]
    simp
  own := by rw [hd, hfn]; exact h.own
  last := by rw [hd]; exact h.last

theorem Call.failure_deliver (hok : c.failure = none) : (c.deliver fn row a).failure = a.err := by
  simp only [Call.failure, Call.deliver, List.findSome?_append] at hok ⊢
  rw [hok]
  simp

theorem Call.answers_ok (hok : c.failure = none) {d : Delivery F E V} (hd : d ∈ c.delivered) :
    d.answer.err = none :=
  List.findSome?_eq_none_iff.mp hok d hd

theorem Call.Delivered.deliver (h : c.Delivered) (hok : c.failure = none) (hp : c.pending = [row])
    (hfn : c.fn = some fn) (hsame : c'.fn = c.fn) (hi : c'.issued = c.issued)
    (hd : c'.delivered = (c.deliver fn row a).delivered) (hp' : c'.pending = []) :
    c'.Delivered where
  rows := by
    have hrows := h.rows
    rw [hp] at hrows
    rw [hi, hd, hp', hrows]
    simp [Call.deliver]
  own d hmem := by
    rw [hd] at hmem
    rw [hsame]
    rcases List.mem_append.mp hmem with hmem | hmem
    · exact h.own d hmem
    · rw [List.mem_singleton.mp hmem]
      exact hfn
  last pre d post heq hfail := by
    rw [hd] at heq
    rcases List.eq_nil_or_concat post with hnil | ⟨mid, x, rfl⟩
    · exact hnil
    · -- `d` stands before the new delivery, and those all went well
      have heq' : c.delivered ++ [⟨fn, readerInfo row, a⟩] = (pre ++ d :: mid) ++ [x] := by
        simpa only [Call.deliver, List.concat_eq_append, List.append_assoc, List.cons_append]
          using heq
      have hpre := (List.append_inj' heq' rfl).1
      have hmem : d ∈ c.delivered := by
        rw [hpre]
        simp
      rw [Call.answers_ok hok hmem] at hfail
      cases hfail

end Call

section Steps

variable {g g' : Registry F E V} {i : Nat} {c c' : Call F E V} {ctx : UInt32} {obj : Nat}

theorem Moves.shared (hs : Shared g) (h : Moves i g c g' c') : Shared g' := by
  cases h with
  | draw => exact ⟨hs.mapped, by simp [hs.counter]⟩
  | @register here fn _ _ _ =>
    refine ⟨?_, hs.counter⟩
    intro ctx obj hm
    simp only [Registry.register, Function.update_apply] at hm
    rw [Registry.register, List.length_append, List.length_singleton]
    by_cases hctx : ctx = here
    · simp only [hctx, ↓reduceIte, Option.some.injEq] at hm
      omega
    · simp only [hctx, ↓reduceIte] at hm
      have hlt := hs.mapped ctx obj hm
      omega
  | failed =>
    refine ⟨?_, hs.counter⟩
    intro ctx obj hm
    simpa [Registry.setErr] using hs.mapped ctx obj hm
  | @deregister here _ _ =>
    refine ⟨?_, hs.counter⟩
    intro ctx obj hm
    simp only [Registry.deregister, Function.update_apply] at hm
    by_cases hctx : ctx = here
    · simp only [hctx, ↓reduceIte, reduceCtorEq] at hm
    · simp only [hctx, ↓reduceIte] at hm
      exact hs.mapped ctx obj hm
  | _ => exact hs

theorem Registry.Entry.of_same (he : g.Entry i c ctx obj) (hfn : c'.fn = c.fn)
    (hd : c'.delivered = c.delivered) : g.Entry i c' ctx obj := by
  obtain ⟨fn, hc, ho⟩ := he.context
  exact ⟨he.mapped, ⟨fn, hfn.trans hc, by rw [ho, Call.failure, Call.failure, hd]⟩, he.only⟩

theorem entry_register {fn : F} (hs : Shared g) (hno : ∀ ctx, ¬g.Owned i ctx)
    (hok : c.failure = none) (hfn : c.fn = some fn) :
    (g.register ctx fn i).Entry i c ctx g.contexts.length where
  mapped := by simp [Registry.register]
  context := ⟨fn, hfn, by simp [Registry.register, hok]⟩
  only other h := by
    rcases owned_register hs fn h with h | ⟨-, h⟩
    · exact absurd h (hno other)
    · exact h

theorem entry_setErr {e : CtxErr E V} (he : g.Entry i c ctx obj) (hfn : c'.fn = c.fn)
    (hf : c'.failure = some e) : (g.setErr obj e).Entry i c' ctx obj := by
  obtain ⟨fn, hc, ho⟩ := he.context
  refine ⟨he.mapped, ⟨fn, hfn.trans hc, ?_⟩, ?_⟩
  · simp only [Registry.setErr, List.getElem?_modify, ho, hf, ↓reduceIte]
    rfl
  · intro other h
    exact he.only other ((owned_setErr e).mp h)

theorem resultOf_ctxerr (ret : Code) (err : Option (CtxErr E V)) (e : CtxErr E V) :
    err = some e ↔ resultOf ret err = .ctxerr e := by
  cases err with
  | none => simp [resultOf]
  | some e' => simp [resultOf]

/-- Each step of a call leads from what holds before it to what holds after it. -/
theorem Moves.own (hs : Shared g) (ho : Own g i c) (h : Moves i g c g' c') : Own g' i c' := by
  obtain ⟨hd, ho⟩ := ho
  cases h with
  | nilFunc hat hfn =>
    simp only [hat] at ho
    refine ⟨hd.of_same rfl rfl rfl (by simp [Call.pending, hat]), ho.1, ?_⟩
    intro e
    have hf : Call.failure { c with at_ := At.returned Result.nilFunc } = none := ho.2
    simp [hf]
  | draw hat hfn =>
    simp only [hat] at ho
    refine ⟨hd.of_same rfl rfl rfl (by simp [Call.pending, hat]), ho.1, ho.2, ?_, ?_⟩
    · simp [hfn]
    · simp [hs.counter]
  | @register ctx fn hat hfree hfn =>
    simp only [hat] at ho
    obtain ⟨hno, hok, -, hctx⟩ := ho
    have he : (g.register ctx fn i).Entry i c ctx g.contexts.length :=
      entry_register hs hno hok hfn
    refine ⟨hd.of_same rfl rfl rfl (by simp [Call.pending, hat]), ?_, hok, hctx⟩
    exact ⟨_, he.of_same rfl rfl⟩
  | conflict hat _ =>
    simp only [hat] at ho
    exact ⟨hd.of_same rfl rfl rfl (by simp [Call.pending, hat]), ho.1⟩
  | checked hat =>
    simp only [hat] at ho
    obtain ⟨⟨obj, he⟩, hok, hctx⟩ := ho
    refine ⟨hd.of_same rfl rfl rfl (by simp [Call.pending, hat]), ?_, hok, hctx⟩
    exact ⟨obj, he.of_same rfl rfl⟩
  | refused ret hat | ends hat =>
    simp only [hat] at ho
    obtain ⟨⟨obj, he⟩, -, hctx⟩ := ho
    refine ⟨hd.of_same rfl rfl rfl (by simp [Call.pending, hat]), ?_, hctx⟩
    exact ⟨obj, he.of_same rfl rfl⟩
  | row r hat =>
    simp only [hat] at ho
    obtain ⟨⟨obj, he⟩, hok, hctx⟩ := ho
    refine ⟨hd.issue (by simp [Call.pending, hat]) rfl rfl rfl rfl, ⟨obj, ?_⟩, hok, hctx⟩
    exact he.of_same rfl rfl
  | @bridge ctx row obj hat hget =>
    simp only [hat] at ho
    obtain ⟨⟨obj', he⟩, hok, hctx⟩ := ho
    have hobj : obj' = obj := Option.some.inj (he.mapped.symm.trans hget)
    subst hobj
    refine ⟨hd.of_same rfl rfl rfl (by simp [Call.pending, hat]), ?_, hok, hctx⟩
    exact he.of_same rfl rfl
  | @ok ctx row obj o a hat hobj ha =>
    simp only [hat] at ho
    obtain ⟨he, hok, hctx⟩ := ho
    obtain ⟨fn, hfn, ho⟩ := he.context
    rw [ho] at hobj
    obtain rfl := Option.some.inj hobj
    have hf : (c.deliver fn row a).failure = c.failure := by
      rw [Call.failure_deliver hok, ha, hok]
    have hp : c.pending = [row] := by simp [Call.pending, hat]
    refine ⟨hd.deliver hok hp hfn rfl rfl rfl rfl, ⟨obj, he.mapped, ?_, he.only⟩, ?_, hctx⟩
    · refine ⟨fn, hfn, ?_⟩
      rw [ho, ← hf]
      rfl
    · exact hf.trans hok
  | @failed ctx row obj o a e hat hobj ha =>
    simp only [hat] at ho
    obtain ⟨he, hok, hctx⟩ := ho
    obtain ⟨fn, hfn, ho⟩ := he.context
    rw [ho] at hobj
    obtain rfl := Option.some.inj hobj
    have hf : (c.deliver fn row a).failure = some e := (Call.failure_deliver hok).trans ha
    have hp : c.pending = [row] := by simp [Call.pending, hat]
    refine ⟨hd.deliver hok hp hfn rfl rfl rfl rfl, ⟨obj, ?_⟩, hctx⟩
    exact entry_setErr he rfl hf
  | @took ctx ret obj o hat hget hobj =>
    simp only [hat] at ho
    obtain ⟨⟨obj', he⟩, hctx⟩ := ho
    have hsame : obj' = obj := Option.some.inj (he.mapped.symm.trans hget)
    subst hsame
    obtain ⟨fn, hfn, ho⟩ := he.context
    rw [ho] at hobj
    obtain rfl := Option.some.inj hobj
    refine ⟨hd.of_same rfl rfl rfl (by simp [Call.pending, hat]), ⟨obj', ?_⟩, ?_, hctx⟩
    · exact he.of_same rfl rfl
    · exact resultOf_ctxerr ret c.failure
  | @deregister ctx result hat =>
    simp only [hat] at ho
    obtain ⟨⟨obj, he⟩, hresult, -⟩ := ho
    refine ⟨hd.of_same rfl rfl rfl (by simp [Call.pending, hat]), ?_, hresult⟩
    intro other hown
    obtain ⟨hown, hne⟩ := owned_deregister.mp hown
    exact hne (he.only other hown)
  | lost hmiss =>
    exfalso
    unfold Registry.Misses at hmiss
    split at hmiss <;> rename_i hat
    · simp only [hat] at ho
      obtain ⟨⟨obj, he⟩, -⟩ := ho
      rw [Registry.get, he.mapped] at hmiss
      cases hmiss
    · simp only [hat] at ho
      obtain ⟨⟨obj, he⟩, -⟩ := ho
      obtain ⟨fn, -, hobj⟩ := he.context
      rw [Registry.get, he.mapped, Option.bind_some, hobj] at hmiss
      cases hmiss
    · simp only [hat] at ho
      obtain ⟨he, -⟩ := ho
      obtain ⟨fn, -, hobj⟩ := he.context
      rw [hobj] at hmiss
      cases hmiss
    · exact hmiss

end Steps

/-! ### All calls -/

open Threads Transition

variable {s s' : Threads (Registry F E V) (Call F E V)} {e : Threads.Event (Option F) (Choice E V)}
variable {ok : Threads (Registry F E V) (Call F E V) → Threads.Event (Option F) (Choice E V) → Prop}

theorem program_moves {g g' : Registry F E V} {i : Nat} {c c' : Call F E V} {x : Choice E V}
    {new : List (Call F E V)} (h : (program F E V).step g i c x = some (g', c', new)) :
    Moves i g c g' c' ∧ new = [] := by
  obtain ⟨⟨g₁, c₁⟩, hstep, heq⟩ := Option.map_eq_some_iff.mp h
  simp only [Prod.mk.injEq] at heq
  obtain ⟨rfl, rfl, rfl⟩ := heq
  exact ⟨step_moves hstep, rfl⟩

/-- No entry belongs to a call that is still to come. -/
def Registry.Known (g : Registry F E V) (n : Nat) : Prop :=
  Shared g ∧ ∀ o ∈ g.contexts, o.owner < n

theorem own_start {g : Registry F E V} {fn : Option F} {n : Nat} (hk : g.Known n) :
    Own g n { fn } := by
  refine ⟨⟨rfl, by simp, by simp⟩, ?_, rfl⟩
  rintro ctx ⟨obj, o, -, ho, hn⟩
  have hlt := hk.2 o (List.mem_of_getElem? ho)
  omega

theorem Moves.known {g g' : Registry F E V} {i n : Nat} {c c' : Call F E V} (hk : g.Known n)
    (hi : i < n) (h : Moves i g c g' c') : g'.Known n := by
  refine ⟨h.shared hk.1, ?_⟩
  cases h with
  | register =>
    intro o ho
    rcases List.mem_append.mp ho with ho | ho
    · exact hk.2 o ho
    · rw [List.mem_singleton.mp ho]
      exact hi
  | failed =>
    intro o ho
    obtain ⟨k, hk'⟩ := List.mem_iff_getElem?.mp ho
    simp only [Registry.setErr, List.getElem?_modify] at hk'
    obtain ⟨o', ho', rfl⟩ := Option.map_eq_some_iff.mp hk'
    have hlt := hk.2 o' (List.mem_of_getElem? ho')
    split <;> exact hlt
  | _ => exact hk.2

/-- The outline of all calls: each keeps its own entry, and leaves those of the others alone. -/
theorem outline : (program F E V).Outline ok Registry.Known Own where
  init g hg := by
    subst hg
    refine ⟨⟨?_, rfl⟩, by simp⟩
    intro ctx obj hm
    cases hm
  enters s fn hk _ := by
    refine ⟨⟨hk.1, ?_⟩, own_start hk⟩
    intro o ho
    have hlt := hk.2 o ho
    omega
  step s i c x g' c' new hk ho _ hi h := by
    obtain ⟨hmove, hnew⟩ := program_moves h
    subst hnew
    have hlt := (List.getElem?_eq_some_iff.mp hi).1
    exact ⟨hmove.known hk hlt, hmove.own hk.1 ho, by simp⟩
  others g i c x g' c' new n j d hk ho hd hij h := by
    obtain ⟨hmove, -⟩ := program_moves h
    exact (hmove.spares hij hk.1 ho).own hd

/-- Every entry is that of a call that is there. -/
def Backed (s : Threads (Registry F E V) (Call F E V)) : Prop :=
  ∀ ctx obj, s.shared.readerctxm ctx = some obj → ∃ d ∈ s.threads, d.handle = some ctx

theorem Moves.backed {g g' : Registry F E V} {i : Nat} {c c' : Call F E V} {ctx : UInt32}
    {obj : Nat} (ho : Own g' i c') (h : Moves i g c g' c') (hm : g'.readerctxm ctx = some obj) :
    c'.handle = some ctx ∨
      g.readerctxm ctx = some obj ∧ (c.handle = some ctx → c'.handle = some ctx) := by
  cases h with
  | @register here fn hat _ _ =>
    simp only [Registry.register, Function.update_apply] at hm
    by_cases hctx : ctx = here
    · exact .inl (by rw [hctx, Call.handle])
    · simp only [hctx, ↓reduceIte] at hm
      exact .inr ⟨hm, by simp [Call.handle, hat]⟩
  | @deregister here result hat =>
    simp only [Registry.deregister, Function.update_apply] at hm
    by_cases hctx : ctx = here
    · simp only [hctx, ↓reduceIte, reduceCtorEq] at hm
    · simp only [hctx, ↓reduceIte] at hm
      exact .inr ⟨hm, by simp [Call.handle, hat, Ne.symm hctx]⟩
  | lost => exact absurd ho.2 id
  | nilFunc hat | draw hat | conflict hat | checked hat | refused _ hat | row _ hat | ends hat
    | bridge hat | ok hat | failed hat | took hat =>
    exact .inr ⟨hm, by simp [Call.handle, hat]⟩

theorem backed (run : (program F E V).system.Reachable s) : Backed s := by
  refine (run.invariant (outline.invariant.strengthen (I := Backed) ?_ ?_)).2
  · intro s hs ctx obj hm
    have hinit : s.shared = {} := hs.1
    rw [hinit] at hm
    cases hm
  · intro s e s' hown hown' hb _ hs ctx obj hm
    cases e with
    | enter fn =>
      obtain rfl := Program.next_enter hs
      obtain ⟨d, hd, hctx⟩ := hb ctx obj hm
      exact ⟨d, List.mem_append_left _ hd, hctx⟩
    | run i x =>
      obtain ⟨c, c', new, hc, hr, hthreads⟩ := Program.next_run hs
      obtain ⟨hmove, -⟩ := program_moves hr
      have hself : s'.threads[i]? = some c' := by
        rw [hthreads]
        exact Program.thread_self hc
      rcases hmove.backed (hown'.2 i c' hself) hm with hctx | ⟨hm, hkeep⟩
      · exact ⟨c', List.mem_of_getElem? hself, hctx⟩
      · obtain ⟨d, hd, hctx⟩ := hb ctx obj hm
        obtain ⟨j, hj⟩ := List.mem_iff_getElem?.mp hd
        by_cases hij : i = j
        · subst hij
          obtain rfl := Option.some.inj (hc.symm.trans hj)
          exact ⟨c', List.mem_of_getElem? hself, hkeep hctx⟩
        · refine ⟨d, ?_, hctx⟩
          rw [hthreads]
          exact List.mem_of_getElem? (Program.thread_before hij hj)

/-! ### The law of the registry -/

/-- What `ReaderList` promises its callers: all rows of a call go to its own function, up to the
first that the function fails on; the call returns that failure, if there is one, and leaves no
entry; and it does not panic over its handle. -/
structure Sound (s : Threads (Registry F E V) (Call F E V)) : Prop where
  delivered : ∀ c ∈ s.threads, c.Delivered
  result : ∀ c ∈ s.threads, ∀ r, c.at_ = .returned r → ∀ e, c.failure = some e ↔ r = .ctxerr e
  gone : ∀ (i : Nat) (c : Call F E V) (r : Result E V), s.threads[i]? = some c →
    c.at_ = .returned r → ∀ ctx, ¬s.shared.Owned i ctx
  noConflict : ∀ c ∈ s.threads, c.at_ ≠ .conflict
  noNilDeref : ∀ c ∈ s.threads, c.at_ ≠ .nilDeref

/-- Call `c` is about to register a handle that was drawn a multiple of `2 ^ 32` draws away from
that of `d`, which still has its entry. -/
def Call.crosses (c d : Call F E V) : Bool :=
  match c.at_ with
  | .register _ => d.handle.isSome && d.draw % 2 ^ 32 == c.draw % 2 ^ 32
  | _ => false

/-- The step is not that of a call that crosses another. -/
def Uncrossed (s : Threads (Registry F E V) (Call F E V)) :
    Threads.Event (Option F) (Choice E V) → Prop
  | .run i _ => ∀ c ∈ s.threads[i]?, ∀ d ∈ s.threads, c.crosses d = false
  | .enter _ => True

theorem Own.draw {g : Registry F E V} {i : Nat} {c : Call F E V} {ctx : UInt32} (ho : Own g i c)
    (hc : c.handle = some ctx ∨ c.at_ = .register ctx) : ctx = UInt32.ofNat c.draw := by
  obtain ⟨-, ho⟩ := ho
  cases hat : c.at_ with
  | check | list | bridge | callback | deregister =>
    simp only [hat, Call.handle, Option.some.injEq, reduceCtorEq, or_false] at hc ho
    rw [← hc]
    exact ho.2.2
  | took =>
    simp only [hat, Call.handle, Option.some.injEq, reduceCtorEq, or_false] at hc ho
    rw [← hc]
    exact ho.2
  | register =>
    simp only [hat, Call.handle, reduceCtorEq, At.register.injEq, false_or] at hc ho
    rw [← hc]
    exact ho.2.2.2
  | entry | returned | conflict | nilDeref => simp [hat, Call.handle] at hc

theorem Own.entry {g : Registry F E V} {i : Nat} {c : Call F E V} {ctx : UInt32} (ho : Own g i c)
    (hc : c.handle = some ctx) : ∃ obj, g.Entry i c ctx obj := by
  obtain ⟨-, ho⟩ := ho
  cases hat : c.at_ with
  | check | list | bridge | took | deregister =>
    simp only [hat, Call.handle, Option.some.injEq] at hc ho
    rw [← hc]
    exact ho.1
  | callback ctx' obj row =>
    simp only [hat, Call.handle, Option.some.injEq] at hc ho
    rw [← hc]
    exact ⟨obj, ho.1⟩
  | entry | register | returned | conflict | nilDeref => simp [hat, Call.handle] at hc

theorem ofNat_eq_iff {m n : Nat} : UInt32.ofNat m = UInt32.ofNat n ↔ m % 2 ^ 32 = n % 2 ^ 32 := by
  rw [← UInt32.toNat_inj, UInt32.toNat_ofNat', UInt32.toNat_ofNat']

/-- Two calls cross exactly when the one has the handle of the other. -/
theorem crosses_iff {g : Registry F E V} {i j : Nat} {c d : Call F E V} {ctx : UInt32}
    (hc : Own g i c) (hd : Own g j d) (hat : c.at_ = .register ctx) :
    c.crosses d = true ↔ d.handle = some ctx := by
  have hctx := hc.draw (.inr hat)
  simp only [Call.crosses, hat, Bool.and_eq_true, beq_iff_eq]
  constructor
  · rintro ⟨hlive, hmod⟩
    obtain ⟨other, hother⟩ := Option.isSome_iff_exists.mp hlive
    rw [hother, hctx, hd.draw (.inl hother), ofNat_eq_iff.mpr hmod]
  · intro hother
    refine ⟨by simp [hother], ofNat_eq_iff.mp ?_⟩
    rw [← hctx, ← hd.draw (.inl hother)]

theorem own_of_reachable (run : (program F E V).system.Reachable s) {i : Nat} {c : Call F E V}
    (hc : s.threads[i]? = some c) : Own s.shared i c :=
  (outline.holds run).2 i c hc

/-- A call panics over its handle exactly when it crosses another. -/
theorem conflict_iff (run : (program F E V).system.Reachable s) {i : Nat} {c c' : Call F E V}
    {g' : Registry F E V} (hc : s.threads[i]? = some c) (h : Moves i s.shared c g' c') :
    c'.at_ = .conflict ↔ ∃ d ∈ s.threads, c.crosses d = true := by
  have ho := own_of_reachable run hc
  have none_crosses : (∀ ctx, c.at_ ≠ .register ctx) → ¬∃ d ∈ s.threads, c.crosses d = true := by
    rintro hne ⟨d, -, hcross⟩
    unfold Call.crosses at hcross
    split at hcross
    · rename_i ctx hat
      exact hne ctx hat
    · cases hcross
  cases h with
  | @register ctx fn hat hget hfn =>
    simp only [reduceCtorEq, false_iff, not_exists, not_and]
    intro d hd hcross
    obtain ⟨j, hj⟩ := List.mem_iff_getElem?.mp hd
    have hod := own_of_reachable run hj
    obtain ⟨obj, he⟩ := hod.entry ((crosses_iff ho hod hat).mp hcross)
    rw [Registry.get, he.mapped] at hget
    cases hget
  | @conflict ctx hat hget =>
    have ho' := ho.2
    simp only [hat] at ho'
    simp only [true_iff]
    rcases hget with hget | hfn
    · obtain ⟨obj, hget⟩ := Option.ne_none_iff_exists'.mp hget
      obtain ⟨d, hd, hctx⟩ := backed run ctx obj hget
      obtain ⟨j, hj⟩ := List.mem_iff_getElem?.mp hd
      exact ⟨d, hd, (crosses_iff ho (own_of_reachable run hj) hat).mpr hctx⟩
    · have hsome := ho'.2.2.1
      rw [hfn] at hsome
      cases hsome
  | lost hmiss =>
    simp only [reduceCtorEq, false_iff]
    apply none_crosses
    intro ctx hat
    simp [Registry.Misses, hat] at hmiss
  | nilFunc hat | draw hat | checked hat | refused _ hat | row _ hat | ends hat | bridge hat
    | ok hat | failed hat | took hat | deregister hat =>
    simp only [reduceCtorEq, false_iff]
    apply none_crosses
    simp [hat]

theorem noConflict (run : (program F E V).system.Reaches Uncrossed s) :
    ∀ c ∈ s.threads, c.at_ ≠ .conflict := by
  induction run with
  | start h =>
    rw [h.2]
    intro c hc
    cases hc
  | @next s s' e run hok hs ih =>
    intro d hd
    cases e with
    | enter fn =>
      obtain rfl := Program.next_enter hs
      rcases List.mem_append.mp hd with hd | hd
      · exact ih d hd
      · rw [List.mem_singleton.mp hd]
        intro hat
        cases hat
    | run i x =>
      obtain ⟨c, c', new, hc, hr, hthreads⟩ := Program.next_run hs
      obtain ⟨hmove, rfl⟩ := program_moves hr
      rw [hthreads, List.append_nil] at hd
      rcases List.mem_or_eq_of_mem_set hd with hd | rfl
      · exact ih d hd
      · intro hat
        obtain ⟨other, hother, hcross⟩ := (conflict_iff run.reachable hc hmove).mp hat
        rw [hok c hc other hother] at hcross
        cases hcross

/-- In runs in which no call crosses another, `ReaderList` keeps its promises, and the first step
of a call that crosses another breaks them. -/
theorem readerList_sound :
    (∀ s, (program F E V).system.Reaches Uncrossed s → Sound s) ∧
    ∀ s e s', (program F E V).system.Reachable s → ¬Uncrossed s e →
      (program F E V).system.step s e = some s' → ¬Sound s' := by
  refine ⟨?_, ?_⟩
  · intro s run
    have own := fun {i c} (hc : s.threads[i]? = some c) => own_of_reachable run.reachable hc
    refine ⟨?_, ?_, ?_, noConflict run, ?_⟩
    · intro c hc
      obtain ⟨i, hi⟩ := List.mem_iff_getElem?.mp hc
      exact (own hi).1
    · intro c hc r hat
      obtain ⟨i, hi⟩ := List.mem_iff_getElem?.mp hc
      have ho := (own hi).2
      simp only [hat] at ho
      exact ho.2
    · intro i c r hi hat
      have ho := (own hi).2
      simp only [hat] at ho
      exact ho.1
    · intro c hc hat
      obtain ⟨i, hi⟩ := List.mem_iff_getElem?.mp hc
      have ho := (own hi).2
      simp only [hat] at ho
  · intro s e s' run hcross hs sound
    cases e with
    | enter fn => exact hcross trivial
    | run i x =>
      obtain ⟨c, c', new, hc, hr, hthreads⟩ := Program.next_run hs
      obtain ⟨hmove, -⟩ := program_moves hr
      have hmem : c' ∈ s'.threads := by
        rw [hthreads]
        exact List.mem_of_getElem? (Program.thread_self hc)
      apply sound.noConflict c' hmem
      apply (conflict_iff run hc hmove).mpr
      by_contra hno
      apply hcross
      intro c₁ hc₁ d hd
      obtain rfl := Option.some.inj (hc.symm.trans hc₁)
      exact Bool.eq_false_iff.mpr fun h => hno ⟨d, hd, h⟩

/-! ### A handle that comes round again -/

section Wrap

variable {g : Registry Unit Unit Unit} {ts : List (Call Unit Unit Unit)}

abbrev wrapping : System (Threads (Registry Unit Unit Unit) (Call Unit Unit Unit))
    (Threads.Event (Option Unit) (Choice Unit Unit)) := (program Unit Unit Unit).system

theorem next_last {g g' : Registry Unit Unit Unit} {c c' : Call Unit Unit Unit}
    {x : Choice Unit Unit} (h : step g ts.length c x = some (g', c')) :
    wrapping.step ⟨g, ts ++ [c]⟩ (.run ts.length x) = some ⟨g', ts ++ [c']⟩ :=
  Program.next_last (by simp [program, h])

theorem run_last {g g' : Registry Unit Unit Unit} {c c' : Call Unit Unit Unit}
    (x : Choice Unit Unit) (run : wrapping.Reachable ⟨g, ts ++ [c]⟩)
    (h : step g ts.length c x = some (g', c')) : wrapping.Reachable ⟨g', ts ++ [c']⟩ :=
  run.next trivial (next_last h)

theorem run_draw (run : wrapping.Reachable ⟨g, ts⟩) :
    wrapping.Reachable ⟨{ g with readerctxn := g.readerctxn + 1, drawn := g.drawn + 1 },
      ts ++ [{ fn := some (), at_ := .register (g.readerctxn + 1), draw := g.drawn + 1 }]⟩ := by
  have entered : wrapping.Reachable ⟨g, ts ++ [{ fn := some () }]⟩ :=
    run.next (e := .enter (some ())) trivial rfl
  exact run_last .go entered rfl

theorem registered_get (ctx : UInt32) (i : Nat) :
    ((g.register ctx () i).get ctx).bind ((g.register ctx () i).contexts[·]?) =
      some { fn := (), owner := i } := by
  simp [Registry.get, Registry.register]

/-- A call that finds no rows takes the next handle, if it is free, and gives it back. -/
theorem short_call (run : wrapping.Reachable ⟨g, ts⟩)
    (hfree : g.readerctxm (g.readerctxn + 1) = none) :
    ∃ g' ts', wrapping.Reachable ⟨g', ts'⟩ ∧ g'.readerctxn = g.readerctxn + 1 ∧
      g'.readerctxm = g.readerctxm := by
  have registered := run_last .go (run_draw run) (by simp only [step, Registry.get, hfree]; rfl)
  have checked := run_last (.checked none) registered rfl
  have ended := run_last .ends checked rfl
  have took := run_last .go ended (by simp only [step, registered_get]; rfl)
  have spilled := run_last .go took rfl
  refine ⟨_, _, spilled, rfl, ?_⟩
  simp [Registry.deregister, Registry.register, ← hfree]

/-- The registry while the first call stays in its list. -/
def Held (n : Nat) (g : Registry Unit Unit Unit) : Prop :=
  g.readerctxn = UInt32.ofNat (n + 1) ∧
    g.readerctxm = Function.update (fun _ => none) 1 (some 0)

theorem held (n : Nat) (hn : n < 2 ^ 32) : ∃ g ts, wrapping.Reachable ⟨g, ts⟩ ∧ Held n g := by
  induction n with
  | zero =>
    have started : wrapping.Reachable ⟨{}, []⟩ := .start ⟨rfl, rfl⟩
    have registered := run_last .go (run_draw started) rfl
    exact ⟨_, _, registered, rfl, rfl⟩
  | succ n ih =>
    obtain ⟨g, ts, run, hcount, hmap⟩ := ih (by omega)
    have hnext : g.readerctxn + 1 = UInt32.ofNat (n + 1 + 1) := by
      rw [hcount]
      simp
    have hne : UInt32.ofNat (n + 1 + 1) ≠ 1 := by
      intro heq
      have hmod := ofNat_eq_iff (n := 1).mp heq
      omega
    have hfree : g.readerctxm (g.readerctxn + 1) = none := by
      rw [hmap, hnext, Function.update_of_ne hne]
    obtain ⟨g', ts', run', hcount', hmap'⟩ := short_call run hfree
    exact ⟨g', ts', run', hcount'.trans hnext, hmap'.trans hmap⟩

/-- Once `2 ^ 32` draws have gone by while the first call is still in its list, the next call draws
the handle of the first and panics. -/
theorem wrapped : ∃ g ts c g' c', wrapping.Reachable ⟨g, ts ++ [c]⟩ ∧
    step g ts.length c .go = some (g', c') ∧ c'.at_ = .conflict := by
  obtain ⟨g, ts, run, hcount, hmap⟩ := held (2 ^ 32 - 1) (by omega)
  have hctx : g.readerctxn + 1 = 1 := by
    rw [hcount]
    rfl
  have hheld : g.readerctxm (g.readerctxn + 1) = some 0 := by
    rw [hctx, hmap, Function.update_self]
  refine ⟨_, ts, _, _, _, run_draw run, by simp only [step, Registry.get, hheld]; rfl, rfl⟩

/-- The law of the registry does not hold of all runs. -/
theorem not_sound_after_wrap : ¬∀ s, wrapping.Reachable s → Sound s := by
  intro all
  obtain ⟨g, ts, c, g', c', run, hstep, hat⟩ := wrapped
  have sound := all _ (run_last .go run hstep)
  exact sound.noConflict c' (List.mem_append_right _ (List.mem_singleton_self _)) hat

end Wrap

instance (s : Threads (Registry F E V) (Call F E V)) (e : Threads.Event (Option F) (Choice E V)) :
    Decidable (Uncrossed s e) :=
  match e with
  | .run i _ => inferInstanceAs (Decidable (∀ c ∈ s.threads[i]?, ∀ d ∈ s.threads, _))
  | .enter _ => isTrue trivial

/-- Two calls side by side: the function of the first gets a row and returns the error 9, that of
the second gets a row and goes on. -/
def sideBySide : List (Threads.Event (Option Nat) (Choice Nat Nat)) :=
  let row : Row := ⟨1, 0, 100, 7, 5, 0, 0, 0⟩
  [.enter (some 1), .enter (some 2), .run 0 .go, .run 1 .go, .run 1 .go,
    .run 0 .go, .run 0 (.checked none), .run 1 (.checked none), .run 0 (.row row),
    .run 1 (.row row), .run 1 .go, .run 0 .go, .run 0 (.answers (.error 9)),
    .run 1 (.answers .ok), .run 0 .go, .run 1 .ends, .run 0 .go, .run 1 .go, .run 1 .go]

theorem readerList_sound_sideBySide :
    (∃ s, (program Nat Nat Nat).system.Reaches Uncrossed s ∧ Sound s ∧
      s.threads.map (·.at_) = [.returned (.ctxerr (.error 9)), .returned (.operrno none)]) ∧
    ∃ s, wrapping.Reachable s ∧ ¬Sound s := by
  constructor
  · obtain ⟨s, run, hs⟩ := System.exists_of_replay (program Nat Nat Nat).system Uncrossed
      sideBySide ⟨{}, []⟩ (fun s => decide (s.threads.map (·.at_) =
        [.returned (.ctxerr (.error 9)), .returned (.operrno none)])) ⟨rfl, rfl⟩ (by decide +kernel)
    exact ⟨s, run, readerList_sound.1 s run, of_decide_eq_true hs⟩
  · obtain ⟨g, ts, c, g', c', run, hstep, hat⟩ := wrapped
    have hc : (ts ++ [c])[ts.length]? = some c := by simp
    have hcross : ¬Uncrossed ⟨g, ts ++ [c]⟩ (.run ts.length .go) := by
      intro hok
      obtain ⟨d, hd, hcross⟩ := (conflict_iff run hc (step_moves hstep)).mp hat
      rw [hok c hc d hd] at hcross
      cases hcross
    exact ⟨_, run_last .go run hstep, readerList_sound.2 _ _ _ run hcross (next_last hstep)⟩

end ReaderList

end MdbxGo
