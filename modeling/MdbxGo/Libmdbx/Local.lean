import MdbxGo.Libmdbx.Effect

/-! The calls of libmdbx that change nothing but the transaction at their pointer, and neither end
it nor move it: reads and writes of data, and what can be done with a reader. -/

namespace MdbxGo

namespace ReadTxn

variable {o : Sys}

/-! ### A reader stays the one of its client -/

@[simp] theorem roSlotClean_client (r : ReadTxn) : (r.roSlotClean o).1.client = r.client := by
  unfold roSlotClean
  split
  · rfl
  · split
    · rfl
    · split <;> rfl

@[simp] theorem txnRoReset_client (r : ReadTxn) : (r.txnRoReset o).1.client = r.client :=
  roSlotClean_client r

@[simp] theorem txnRoStart_client (r : ReadTxn) (recent : UInt64) (prepareOnly : Bool) :
    (r.txnRoStart o recent prepareOnly).1.client = r.client := by
  unfold txnRoStart
  dsimp only
  split
  · rfl
  · split
    · rfl
    · split
      · exact txnRoReset_client _
      · rfl

@[simp] theorem txnRoPark_client (r : ReadTxn) (autounpark : Bool) :
    (r.txnRoPark o autounpark).1.client = r.client := by
  unfold txnRoPark
  split
  · rfl
  · split
    · rfl
    · split
      · rfl
      · split
        · exact roSlotClean_client r
        · rfl

@[simp] theorem txnRoUnpark_client (r : ReadTxn) : (r.txnRoUnpark o).1.client = r.client := by
  unfold txnRoUnpark
  split
  · rfl
  · split
    · rfl
    · split
      · exact txnRoReset_client r
      · rfl

@[simp] theorem mdbxTxnUnpark_client (r : ReadTxn) (fatal : Bool) (recent : UInt64)
    (restart : Bool) : (r.mdbxTxnUnpark o fatal recent restart).1.client = r.client := by
  unfold mdbxTxnUnpark
  split
  · rfl
  · split
    · rfl
    · split
      · rfl
      · dsimp only
        split <;> simp

@[simp] theorem checkTxn_client (r : ReadTxn) (fatal : Bool) (recent : UInt64) (bits : Bits) :
    (r.checkTxn o fatal recent bits).1.client = r.client := by
  unfold checkTxn checkTxnAnythread
  dsimp only
  split
  · split
    · rfl
    · split
      · rfl
      · split
        · rfl
        · exact mdbxTxnUnpark_client r fatal recent false
  · rfl

theorem mdbxTxnPark_client (r : ReadTxn) (fatal : Bool) (recent : UInt64) (autounpark : Bool) :
    (r.mdbxTxnPark o fatal recent autounpark).1.client = r.client := by
  unfold mdbxTxnPark
  dsimp only
  split
  · simp
  · split <;> simp

theorem mdbxTxnReset_client (r : ReadTxn) (fatal : Bool) :
    (r.mdbxTxnReset o fatal).1.client = r.client := by
  unfold mdbxTxnReset
  split <;> simp

theorem mdbxTxnRenew_client (r : ReadTxn) (fatal : Bool) (recent : UInt64) :
    (r.mdbxTxnRenew o fatal recent).1.client = r.client := by
  unfold mdbxTxnRenew
  split
  · rfl
  · dsimp only
    by_cases hfin : r.finished <;> simp only [hfin, if_true, Bool.false_eq_true, if_false] <;>
      split <;> simp

theorem mdbxTxnRefresh_client (r : ReadTxn) (fatal : Bool) (recent : UInt64) :
    (r.mdbxTxnRefresh o fatal recent).1.client = r.client := by
  unfold mdbxTxnRefresh
  split
  · rfl
  · split
    · rfl
    · dsimp only
      by_cases hfin : r.finished <;> simp only [hfin, if_true, Bool.false_eq_true, if_false] <;>
        split <;> simp

theorem mdbxGet_client (r : ReadTxn) (fatal : Bool) (recent : UInt64) :
    (r.mdbxGet o fatal recent).1.client = r.client := by
  unfold mdbxGet
  dsimp only
  split <;> simp

theorem mdbxTxnRollback_client (r : ReadTxn) (recent : UInt64) :
    (r.mdbxTxnRollback o recent).1.client = r.client := by
  unfold mdbxTxnRollback
  split
  · rfl
  · dsimp only
    split <;> simp

@[simp] theorem oust_client (r : ReadTxn) : r.oust.client = r.client := by
  unfold oust
  split <;> rfl

end ReadTxn

namespace MdbxEnv

open WriteTxn

variable {env env' : MdbxEnv} {o : Sys} {self : Thread} {p : Ptr}

/-- What a call through `p` may do that neither ends nor moves a write transaction, and touches one
without another nested in it only. -/
inductive Local (p : Ptr) (env : MdbxEnv) : MdbxEnv → Prop
  | refl : Local p env env
  | reader {a : Addr} {r : ReadTxn} (r' : ReadTxn) : p = .reader a → env.readers a = some r →
      r'.client = r.client → Local p env (env.setReader a (some r'))
  | write {t u : WriteTxn} : env.write? p = some (t, false) → t.Keeps u →
      u.finished = t.finished → Local p env (env.setWrite u p)

theorem onReader_local (a : Addr) {f : ReadTxn → ReadTxn × Code}
    (hf : ∀ r, (f r).1.client = r.client) : Local (.reader a) env (env.onReader a f).1 := by
  unfold onReader
  split
  · exact .refl
  · rename_i r hr
    exact .reader _ rfl hr (hf r)

theorem mdbxTxnReset_local (p : Ptr) : Local p env (env.mdbxTxnReset o self (some p)).1 := by
  cases p with
  | reader a => exact onReader_local a fun r => r.mdbxTxnReset_client _
  | basal => exact .refl
  | nested a => exact .refl

theorem mdbxTxnRenew_local (p : Ptr) : Local p env (env.mdbxTxnRenew o self (some p)).1 := by
  cases p with
  | reader a => exact onReader_local a fun r => r.mdbxTxnRenew_client _ _
  | basal => exact .refl
  | nested a => exact .refl

theorem mdbxTxnRefresh_local (p : Ptr) : Local p env (env.mdbxTxnRefresh o self (some p)).1 := by
  cases p with
  | reader a => exact onReader_local a fun r => r.mdbxTxnRefresh_client _ _
  | basal => exact .refl
  | nested a => exact .refl

theorem mdbxTxnPark_local (autounpark : Bool) (p : Ptr) :
    Local p env (env.mdbxTxnPark o autounpark (some p)).1 := by
  cases p with
  | reader a => exact onReader_local a fun r => r.mdbxTxnPark_client _ _ _
  | basal => exact .refl
  | nested a => exact .refl

theorem mdbxTxnUnpark_local (restart : Bool) (p : Ptr) :
    Local p env (env.mdbxTxnUnpark o restart (some p)).1 := by
  cases p with
  | reader a => exact onReader_local a fun r => r.mdbxTxnUnpark_client _ _ _
  | basal => exact .refl
  | nested a => exact .refl

theorem checkTxn_success {t : WriteTxn} {hasChild : Bool} {bits : Bits}
    (h : t.checkTxn hasChild bits = Code.success) :
    (bits.finished = true → t.finished = false) ∧ (bits.error = true → t.error = false) ∧
      (bits.hasChild = true → hasChild = false) := by
  unfold WriteTxn.checkTxn at h
  split at h
  · split at h <;> exact absurd h (by decide)
  · rename_i hbits
    simp only [Bool.or_eq_true, Bool.and_eq_true, not_or, not_and, Bool.not_eq_true] at hbits
    exact ⟨hbits.1.1.1.1, hbits.1.1.1.2, hbits.1.1.2⟩

/-- What passes `check_txn` with the bits of a live transaction without a nested one. -/
theorem live_of_check {t : WriteTxn} {hasChild : Bool} {bits : Bits}
    (hbits : bits.finished = true ∧ bits.hasChild = true)
    (hcheck : ¬ (t.checkTxn hasChild bits != Code.success) = true) :
    t.finished = false ∧ hasChild = false := by
  obtain ⟨hfin, _, hchild⟩ := checkTxn_success (by simpa using hcheck)
  exact ⟨hfin hbits.1, hchild hbits.2⟩

theorem mdbxGet_local (p : Ptr) : Local p env (env.mdbxGet o (some p)).1 := by
  have hwrite : ∀ t hasChild b, env.write? p = some (t, hasChild) →
      ¬ (t.checkTxn hasChild Bits.blocked != Code.success) = true →
      Local p env (env.setWrite { t with error := b } p) := by
    intro t hasChild b hw hcheck
    rw [(live_of_check ⟨rfl, rfl⟩ hcheck).2] at hw
    exact .write hw (keeps_error b) rfl
  cases p with
  | reader a => exact onReader_local a fun r => r.mdbxGet_client _ _
  | basal =>
    simp only [mdbxGet, write?]
    split
    · exact .refl
    · rename_i hcheck
      exact hwrite _ _ _ rfl hcheck
  | nested a =>
    simp only [mdbxGet]
    split
    · exact .refl
    · rename_i hw
      split
      · exact .refl
      · rename_i hcheck
        exact hwrite _ _ _ hw hcheck

theorem keeps_put {t : WriteTxn} (change : Change) :
    t.Keeps { t with dirty := true, changes := t.changes ++ [change] } :=
  ⟨rfl, rfl, rfl, rfl, id, fun _ h => by cases h⟩

theorem keeps_failedPut {t : WriteTxn} (e d : Bool) :
    t.Keeps { t with error := t.error || e, dirty := t.dirty || d } :=
  ⟨rfl, rfl, rfl, rfl, id, fun ht h => ht (Bool.or_eq_false_iff.mp h).1⟩

theorem mdbxPut_local (change : Change) (p : Ptr) :
    Local p env (env.mdbxPut o change (some p)).1 := by
  have hwrite : ∀ t hasChild u, env.write? p = some (t, hasChild) →
      ¬ (t.checkTxn hasChild Bits.blockedRw != Code.success) = true → t.Keeps u →
      u.finished = t.finished → Local p env (env.setWrite u p) := by
    intro t hasChild u hw hcheck
    rw [(live_of_check ⟨rfl, rfl⟩ hcheck).2] at hw
    exact .write hw
  cases p with
  | reader a => exact .refl
  | basal =>
    simp only [mdbxPut, write?]
    split
    · exact .refl
    · rename_i hcheck
      split
      · exact hwrite _ _ _ rfl hcheck (keeps_failedPut _ _) rfl
      · exact hwrite _ _ _ rfl hcheck (keeps_put change) rfl
  | nested a =>
    simp only [mdbxPut]
    split
    · exact .refl
    · rename_i hw
      split
      · exact .refl
      · rename_i hcheck
        split
        · exact hwrite _ _ _ hw hcheck (keeps_failedPut _ _) rfl
        · exact hwrite _ _ _ hw hcheck (keeps_put change) rfl

theorem amendStart_local (flags : UInt32) (p : Ptr) :
    Local p env (env.amendStart o self flags (some p)).1 := by
  unfold amendStart
  dsimp only
  split
  · exact .refl
  · cases p with
    | basal => exact .refl
    | nested a => exact .refl
    | reader a =>
      dsimp only
      split
      · exact .refl
      · rename_i r hr
        split
        · exact .refl
        · split
          · exact .refl
          · split
            · exact .refl
            · split
              · exact .refl
              · split
                · exact .reader _ rfl hr (ReadTxn.txnRoPark_client r true)
                · exact .refl

/-! ### What a local call leaves alone -/

/-- The `Txn` that the transaction at a pointer was made for, as long as it was not ended. -/
def session (env : MdbxEnv) : Ptr → Option Handle
  | .basal => if env.basal.finished then none else some env.basal.client
  | .nested a => (env.txnAt (.nested a)).map (·.client)
  | .reader a => (env.readers a).map (·.client)

theorem Local.readers (h : Local p env env') {a : Addr} (hp : p ≠ .reader a) :
    env'.readers a = env.readers a := by
  cases h with
  | refl => rfl
  | @reader b r r' hb _ _ =>
    simp only [setReader]
    rw [if_neg]
    rintro rfl
    exact hp hb
  | write hw _ _ =>
    cases p with
    | reader b => cases hw
    | basal => rfl
    | nested b => rfl

/-- The transaction at `p` itself, and every other one as it was. -/
theorem Local.txnAt (h : Local p env env') (q : Ptr) :
    env'.txnAt q = env.txnAt q ∨
      q = p ∧ ∃ t u, env.txnAt p = some t ∧ env'.txnAt p = some u ∧ t.Keeps u ∧
        u.finished = t.finished := by
  cases h with
  | refl => exact .inl rfl
  | reader r' _ _ _ => exact .inl (by cases q <;> rfl)
  | @write t u hw hk hfin =>
    cases p with
    | reader b => cases hw
    | basal =>
      have ht : t = env.basal := (Prod.ext_iff.mp (Option.some.inj hw)).1.symm
      cases q with
      | basal => exact .inr ⟨rfl, t, u, congrArg some ht.symm, rfl, hk, hfin⟩
      | nested b => exact .inl rfl
      | reader b => exact .inl rfl
    | nested a =>
      obtain ⟨kids, hin, _⟩ := inner_of_write? hw
      have haddr := inner_addr hin
      have hat := txnAt_of_write? hw
      have hnested : (env.setWrite u (.nested a)).nested = env.outer a ++ (u :: kids) := by
        simp [setWrite, replaceNested, hin]
      have hold : env.nested = env.outer a ++ (t :: kids) := by
        rw [← hin, env.outer_append_inner a]
      have hout : (env.outer a).find? (·.addr == a) = none := by
        refine find?_none_of_addr fun x hx => ?_
        simpa [outer] using List.mem_takeWhile_imp hx
      cases q with
      | basal => exact .inl rfl
      | reader b => exact .inl rfl
      | nested b =>
        by_cases hb : b = a
        · subst hb
          refine .inr ⟨rfl, t, u, hat, ?_, hk, hfin⟩
          simp only [MdbxEnv.txnAt]
          rw [hnested, List.find?_append, hout, Option.none_or, List.find?_cons, hk.addr, haddr]
          simp
        · refine .inl ?_
          have ht : (t.addr == b) = false := by simpa [haddr] using fun h => hb h.symm
          simp only [MdbxEnv.txnAt]
          rw [hnested, hold, List.find?_append, List.find?_append, List.find?_cons,
            List.find?_cons, hk.addr, ht]

theorem Local.session (h : Local p env env') (q : Ptr) : env'.session q = env.session q := by
  have hwrite : ∀ q, (env'.txnAt q).map (fun t => (t.finished, t.client)) =
      (env.txnAt q).map (fun t => (t.finished, t.client)) := by
    intro q
    rcases h.txnAt q with hq | ⟨rfl, t, u, ht, hu, hk, hfin⟩
    · rw [hq]
    · simp [ht, hu, hk.client, hfin]
  cases q with
  | basal =>
    have hb := hwrite .basal
    simp only [MdbxEnv.txnAt, Option.map_some, Option.some.injEq, Prod.mk.injEq] at hb
    simp only [MdbxEnv.session, hb.1, hb.2]
  | nested a =>
    have ha := congrArg (Option.map Prod.snd) (hwrite (.nested a))
    simpa [MdbxEnv.session, Option.map_map, Function.comp_def] using ha
  | reader a =>
    by_cases hp : p = .reader a
    · cases h with
      | refl => rfl
      | @reader b r r' hb hr hclient =>
        rw [hp] at hb
        cases hb
        simp [MdbxEnv.session, setReader, hr, hclient]
      | write hw _ _ =>
        rw [hp] at hw
        cases hw
    · simp only [MdbxEnv.session]
      rw [h.readers hp]

/-- A local call through a pointer; through a null pointer it does nothing. -/
def LocalAt (env env' : MdbxEnv) : Option Ptr → Prop
  | none => env' = env
  | some p => Local p env env'

theorem LocalAt.refl (ptr : Option Ptr) : LocalAt env env ptr := by
  cases ptr with
  | none => rfl
  | some p => exact Local.refl

theorem LocalAt.session {ptr : Option Ptr} (h : LocalAt env env' ptr) (q : Ptr) :
    env'.session q = env.session q := by
  cases ptr with
  | none => exact congrArg (·.session q) h
  | some p => exact Local.session h q

end MdbxEnv

end MdbxGo
