import MdbxGo.Libmdbx.Locality

/-! What the calls of libmdbx that make a transaction do: `mdbx_txn_begin`, `mdbx_txn_amend` and
`mdbx_txn_clone`. -/

namespace MdbxGo

namespace MdbxEnv

open WriteTxn

variable {env env' : MdbxEnv} {o : Sys} {self : Thread}

/-- A call that was refused: no transaction has been made, and the top-level one is as before or
idle. -/
structure Refused (env env' : MdbxEnv) : Prop where
  rest : SameRest env env'
  nested : env'.nested = env.nested
  basal : env'.basal = env.basal ∨ env.basal.finished = true ∧ env'.basal.finished = true
  ok : env'.Ok

theorem Refused.refl (ok : env.Ok) : Refused env env := ⟨.refl env, rfl, .inl rfl, ok⟩

/-- A call that made a top-level transaction: there was none before. -/
structure Started (thread : Thread) (client : Handle) (env env' : MdbxEnv) : Prop where
  rest : SameRest env env'
  idle : env.basal.finished = true
  nested : env.nested = [] ∧ env'.nested = []
  live : env'.basal.finished = false
  client : env'.basal.client = client
  owner : env'.basal.owner = some thread
  ok : env'.Ok

/-- What `mdbx_txn_begin` has done, and the pointer that it leaves behind. -/
inductive Began (self : Thread) (parent : Option Ptr) (client : Handle) (env env' : MdbxEnv)
    (code : Code) : Option Ptr → Prop
  | refused : code ≠ Code.success → Refused env env' → Began self parent client env env' code none
  | reader {r : ReadTxn} : code = Code.success → parent = none → r.client = client →
      r.parked = false → env' = env.allocReader r →
      Began self parent client env env' code (some (.reader env.brk))
  | basal : code = Code.success → parent = none → Started self client env env' →
      Began self parent client env env' code (some .basal)
  | nested {p : Ptr} {t u : WriteTxn} : code = Code.success → parent = some p →
      env.write? p = some (t, false) → t.finished = false → t.error = false →
      u.client = client → u.owner = t.owner → u.txnid = t.txnid → u.finished = false →
      u.changes = [] → env' = env.allocNested u →
      Began self parent client env env' code (some (.nested env.brk))

theorem txnRoStart_parked {r : ReadTxn} {recent : UInt64} {prepareOnly : Bool}
    (h : (r.txnRoStart o recent prepareOnly).2 = Code.success) :
    (r.txnRoStart o recent prepareOnly).1.parked = false := by
  unfold ReadTxn.txnRoStart at h ⊢
  cases hget : o.roSlotGet with
  | some e => rfl
  | none =>
    cases hstart : o.roStart with
    | none => cases prepareOnly <;> rfl
    | some e =>
      cases prepareOnly with
      | true => rfl
      | false =>
        simp only [hget, hstart] at h
        exact absurd h e.not_success

theorem beginRo_began (ok : env.Ok) (flags : UInt32) (client : Handle) :
    Began self none client env (env.beginRo o flags client).1 (env.beginRo o flags client).2.1
      (env.beginRo o flags client).2.2 := by
  unfold beginRo
  split
  · exact .refused (show Code.einval ≠ Code.success by decide) (.refl ok)
  · split
    · exact .refused (show Code.enomem ≠ Code.success by decide) (.refl ok)
    · dsimp only
      split
      · rename_i hcode
        exact .refused (by simpa using hcode) (.refl ok)
      · rename_i hcode
        exact .reader rfl rfl (ReadTxn.txnRoStart_client _ _ _)
          (txnRoStart_parked (by simpa using hcode)) rfl

/-- A start with the lock just taken: it succeeds, or leaves the top-level transaction idle. -/
theorem locked_restarted (o : Sys) (self : Thread) (ok : env.Ok)
    (hidle : env.basal.owner = none) (client : Handle) :
    let locked := { env with basal := { env.basal with owner := some self } }
    Restarted client locked (locked.txnBasalRestart o client).1
      (locked.txnBasalRestart o client).2 := by
  have hfin : env.basal.finished = true := by rw [← ok.owner, hidle]; rfl
  intro locked
  exact txnBasalRestart_restarted (show locked.Base from ⟨ok.freshReader, ok.bounded⟩)
    (ok.ended hfin) rfl client

theorem Restarted.started {code : Code} {client : Handle} (ok : env.Ok)
    (hidle : env.basal.owner = none)
    (h : Restarted client { env with basal := { env.basal with owner := some self } } env' code)
    (hcode : code = Code.success) : Started self client env env' := by
  have hfin : env.basal.finished = true := by rw [← ok.owner, hidle]; rfl
  obtain ⟨hlive, hclient, howner, _⟩ := h.live hcode
  obtain ⟨hbrk, hreaders, hrecent, hdata, hfatal⟩ := h.rest
  exact ⟨⟨hbrk, hreaders, hrecent, hdata, hfatal⟩, hfin, ⟨ok.ended hfin, h.nested⟩, hlive, hclient,
    howner, h.ok⟩

theorem Restarted.refused {code : Code} {client : Handle} (ok : env.Ok)
    (hidle : env.basal.owner = none)
    (h : Restarted client { env with basal := { env.basal with owner := some self } } env' code)
    (hcode : code ≠ Code.success) : Refused env env' := by
  have hfin : env.basal.finished = true := by rw [← ok.owner, hidle]; rfl
  obtain ⟨hbrk, hreaders, hrecent, hdata, hfatal⟩ := h.rest
  exact ⟨⟨hbrk, hreaders, hrecent, hdata, hfatal⟩, h.nested.trans (ok.ended hfin).symm,
    .inr ⟨hfin, h.ended hcode⟩, h.ok⟩

theorem beginRw_began (ok : env.Ok) {flags : UInt32} {client : Handle}
    {r : MdbxEnv × Code × Option Ptr} (h : env.beginRw o self flags client = some r) :
    Began self none client env r.1 r.2.1 r.2.2 := by
  unfold beginRw at h
  split at h
  · cases h
    exact .refused (show Code.einval ≠ Code.success by decide) (.refl ok)
  · obtain ⟨started, hstart, rfl⟩ := Option.map_eq_some_iff.mp h
    unfold txnBasalStart at hstart
    split at hstart
    · cases hstart
      exact .refused (show Code.busy ≠ Code.success by decide) (.refl ok)
    · split at hstart
      · split at hstart
        · cases hstart
          exact .refused (show Code.busy ≠ Code.success by decide) (.refl ok)
        · cases hstart
      · rename_i hidle
        have hidle : env.basal.owner = none := by simpa using hidle
        split at hstart
        · rename_i e _
          cases hstart
          dsimp only
          rw [if_neg (by simpa using e.not_success)]
          exact .refused e.not_success (.refl ok)
        · cases hstart
          have hre := locked_restarted o self ok hidle client
          dsimp only at hre ⊢
          split
          · rename_i hcode
            have hcode := by simpa using hcode
            exact .basal hcode rfl (hre.started ok hidle hcode)
          · rename_i hcode
            have hcode := by simpa using hcode
            exact .refused hcode (hre.refused ok hidle hcode)

theorem beginNested_began (ok : env.Ok) (p : Ptr) (flags : UInt32) (client : Handle) :
    Began self (some p) client env (env.beginNested o p flags client).1
      (env.beginNested o p flags client).2.1 (env.beginNested o p flags client).2.2 := by
  unfold beginNested
  split
  · exact .refused (show Code.einval ≠ Code.success by decide) (.refl ok)
  · split
    · split
      · refine .refused ?_ (.refl ok)
        dsimp only
        split <;> decide
      · exact .refused (show Code.ebadsign ≠ Code.success by decide) (.refl ok)
    · rename_i t hasChild hw
      dsimp only
      split
      · rename_i hcheck
        exact .refused (by simpa using hcheck) (.refl ok)
      · rename_i hcheck
        split
        · exact .refused (show Code.badTxn ≠ Code.success by decide) (.refl ok)
        · split
          · rename_i e _
            exact .refused e.not_success (.refl ok)
          · obtain ⟨hfin, herror, hchild⟩ := checkTxn_success (by simpa using hcheck)
            rw [hchild rfl] at hw
            refine .nested rfl rfl hw (hfin rfl) (herror rfl) ?_ ?_ ?_ ?_ ?_ rfl <;> rfl

theorem mdbxTxnBegin_began (ok : env.Ok) {parent : Option Ptr} {flags : UInt32} {client : Handle}
    {r : MdbxEnv × Code × Option Ptr} (h : env.mdbxTxnBegin o self parent flags client = some r) :
    Began self parent client env r.1 r.2.1 r.2.2 := by
  unfold mdbxTxnBegin at h
  split at h
  · cases h
    exact .refused (show Code.panic ≠ Code.success by decide) (.refl ok)
  · split at h
    · cases h
      exact beginNested_began ok _ flags client
    · split at h
      · cases h
        exact beginRo_began ok flags client
      · exact beginRw_began ok h

theorem ok_allocReader (ok : env.Ok) (r : ReadTxn) : (env.allocReader r).Ok :=
  (effect_allocReader (Effect.refl (p := .basal) ok) r).ok

theorem basal_live_of_nested (ok : env.Ok) (h : env.nested ≠ []) : env.basal.finished = false := by
  by_contra hfin
  exact h (ok.ended (by simpa using hfin))

theorem ok_allocNested (ok : env.Ok) {u : WriteTxn} (hlive : env.basal.finished = false)
    (howner : u.owner = env.basal.owner) (hclean : u.changes = []) : (env.allocNested u).Ok := by
  have hmem : ∀ t ∈ (env.allocNested u).nested,
      t ∈ env.nested ∨ t = { u with addr := env.brk } := by
    intro t ht
    simpa [allocNested] using ht
  refine ⟨⟨?_, ok.bounded⟩, ?_, ok.owner, ?_, ok.clean, ?_, ?_, ok.next⟩
  · intro a ha
    exact ok.freshReader a (Nat.le_of_succ_le ha)
  · intro hf
    have hf : env.basal.finished = true := hf
    rw [hlive] at hf
    cases hf
  · intro t ht
    rcases hmem t ht with ht | rfl
    · exact ok.owners t ht
    · exact howner
  · intro t ht
    rcases hmem t ht with ht | rfl
    · exact ok.cleanNested t ht
    · exact fun _ => hclean
  · intro t ht
    rcases hmem t ht with ht | rfl
    · exact Nat.lt_succ_of_lt (ok.fresh t ht)
    · exact Nat.lt_succ_self env.brk

theorem owner_of_write? (ok : env.Ok) {p : Ptr} {t : WriteTxn} {hasChild : Bool}
    (h : env.write? p = some (t, hasChild)) : t.owner = env.basal.owner := by
  cases p with
  | reader a => cases h
  | basal => cases h; rfl
  | nested a =>
    obtain ⟨kids, hin, _⟩ := inner_of_write? h
    have ht : t ∈ env.inner a := hin ▸ List.mem_cons_self
    exact ok.owners t ((List.dropWhile_suffix _).subset ht)

theorem live_of_write? (ok : env.Ok) {p : Ptr} {t : WriteTxn} {hasChild : Bool}
    (h : env.write? p = some (t, hasChild)) (hfin : t.finished = false) :
    env.basal.finished = false := by
  cases p with
  | reader a => cases h
  | basal => cases h; exact hfin
  | nested a =>
    obtain ⟨kids, hin, _⟩ := inner_of_write? h
    refine basal_live_of_nested ok ?_
    intro hnil
    unfold inner at hin
    rw [hnil] at hin
    cases hin

theorem Began.ok {parent ptr : Option Ptr} {client : Handle} {code : Code} (ok : env.Ok)
    (h : Began self parent client env env' code ptr) : env'.Ok := by
  cases h with
  | refused _ h => exact h.ok
  | reader _ _ _ _ h => exact h ▸ ok_allocReader ok _
  | basal _ _ h => exact h.ok
  | nested _ _ hw hfin _ _ howner _ _ hclean h =>
    exact h ▸ ok_allocNested ok (live_of_write? ok hw hfin)
      (howner.trans (owner_of_write? ok hw)) hclean

/-! ### Amend and clone -/

/-- What `mdbx_txn_amend` has done to the reader at `a` and to the writer. -/
inductive Amended (self : Thread) (a : Addr) (client : Handle) (flags : UInt32)
    (env env' : MdbxEnv) (code : Code) : Option Ptr → Prop
  | refused {mid : MdbxEnv} : code ≠ Code.success → Refused env mid →
      Local (.reader a) mid env' → Amended self a client flags env env' code none
  | started {mid : MdbxEnv} {r : Option ReadTxn} : code = Code.success →
      Started self client env mid → env' = mid.setReader a r → env'.Ok →
      (r = none ↔ flags &&& txnRdonlyPrepare ≠ txnRdonlyPrepare) →
      (∀ r₁, r = some r₁ → ∃ r₀, env.readers a = some r₀ ∧ r₁.client = r₀.client) →
      Amended self a client flags env env' code (some .basal)

theorem amendLocked_amended (ok : env.Ok) {flags : UInt32} {client : Handle} {a : Addr}
    {r : MdbxEnv × Code × Option Ptr} (h : env.amendLocked o self flags client a = some r) :
    Amended self a client flags env r.1 r.2.1 r.2.2 := by
  unfold amendLocked at h
  split at h
  · cases h
  · rename_i reader hr
    split at h
    · split at h
      · cases h
        exact .refused (show Code.busy ≠ Code.success by decide) (.refl ok) .refl
      · cases h
    · rename_i hidle
      have hidle : env.basal.owner = none := by simpa using hidle
      split at h
      · rename_i e _
        cases h
        exact .refused e.not_success (.refl ok) .refl
      · split at h
        · cases h
          exact .refused (show Code.resultTrue ≠ Code.success by decide) (.refl ok) .refl
        · have hre := locked_restarted o self ok hidle client
          dsimp only at h hre
          split at h
          · rename_i hcode
            cases h
            have href := hre.refused ok hidle (by simpa using hcode)
            exact .refused (by simpa using hcode) href .refl
          · rename_i hcode
            have hst := hre.started ok hidle (by simpa using hcode)
            have hend : ∀ x : MdbxEnv, x.Ok → x.nested = [] → SameRest env x →
                Refused env (x.txnBasalEnd o true).1 := by
              intro x hx hn hrest
              exact ⟨hrest.trans (txnBasalEnd_sameRest true), hn.trans hst.nested.1.symm,
                .inr ⟨hst.idle, rfl⟩, ok_txnBasalEnd hx.toBase hn⟩
            split at h
            · cases h
              have href := hend _ hst.ok hst.nested.2 hst.rest
              exact .refused (show Code.resultTrue ≠ Code.success by decide) href .refl
            · have hr' : (txnBasalRestart o client { env with
                  basal := { env.basal with owner := some self } }).1.readers a = some reader := by
                rw [hst.rest.readers]
                exact hr
              split at h
              · rename_i hreset
                cases h
                have href := hend _ hst.ok hst.nested.2 hst.rest
                refine .refused (by simpa using hreset) href ?_
                exact .reader _ rfl hr' reader.txnRoReset_client
              · cases h
                refine .started rfl hst rfl (ok_setReader hst.ok hr' _) ?_ ?_
                · split
                  · rename_i hkeep
                    simp [beq_iff_eq.mp hkeep]
                  · rename_i hkeep
                    simpa using hkeep
                · intro r₁ h₁
                  split at h₁
                  · rw [← Option.some.inj h₁]
                    exact ⟨reader, hr, reader.txnRoReset_client⟩
                  · cases h₁

theorem setReader_setReader (env : MdbxEnv) (a : Addr) (r r' : Option ReadTxn) :
    (env.setReader a r).setReader a r' = env.setReader a r' := by
  simp only [setReader]
  congr
  funext b
  split <;> rfl

theorem cloneInto_client (source : CloneSource) (recent : UInt64) (r : ReadTxn) :
    (cloneInto o source recent r).1.client = r.client := by
  cases source with
  | reader origin =>
    have h : (r.txnRoClone o origin).1.client = r.client := by
      unfold ReadTxn.txnRoClone
      split
      · rfl
      · split
        · rfl
        · dsimp only
          split <;> rfl
    simp only [cloneInto]
    split
    · exact h
    · exact h
  | writer txnid =>
    have h : (r.txnRoCloneWriter o recent txnid).1.client = r.client := by
      unfold ReadTxn.txnRoCloneWriter
      split
      · rfl
      · split
        · rfl
        · dsimp only
          split <;> rfl
    simp only [cloneInto]
    split
    · exact h
    · exact h

/-- `mdbx_txn_clone` fails, or makes a reader. -/
theorem mdbxTxnClone_cases (client : Handle) (source : Option Ptr) (env : MdbxEnv) :
    ((env.mdbxTxnClone o client source).2.1 ≠ Code.success ∧
      (env.mdbxTxnClone o client source).1 = env) ∨
    ∃ r, (env.mdbxTxnClone o client source).2.1 = Code.success ∧ r.client = client ∧
      (env.mdbxTxnClone o client source).1 = env.allocReader r ∧
      (env.mdbxTxnClone o client source).2.2 = some (.reader env.brk) := by
  unfold mdbxTxnClone
  split
  · rename_i hcheck
    exact .inl ⟨by simpa using hcheck, rfl⟩
  · split
    · exact .inl ⟨show Code.enomem ≠ Code.success by decide, rfl⟩
    · dsimp only
      split
      · rename_i hcode
        exact .inl ⟨by simpa using hcode, rfl⟩
      · exact .inr ⟨_, rfl, cloneInto_client _ _ _, rfl, rfl⟩

/-- `mdbx_txn_clone` into a reader changes that reader only. -/
theorem mdbxTxnCloneInto_reader (o : Sys) (env : MdbxEnv) (a : Addr) (t : ReadTxn)
    (source : Option Ptr) :
    ∃ r, (env.mdbxTxnCloneInto o source a t).1 = env.setReader a (some r) ∧
      r.client = t.client := by
  have hreset : (if t.finished then (t, Code.success) else t.txnRoReset o).1.client =
      t.client := by
    split
    · rfl
    · exact t.txnRoReset_client
  unfold mdbxTxnCloneInto cloneBailout
  dsimp only
  generalize (if t.finished then (t, Code.success) else t.txnRoReset o) = reset at hreset ⊢
  split
  · exact ⟨_, rfl, t.txnRoReset_client⟩
  · split
    · exact ⟨_, setReader_setReader _ _ _ _, (ReadTxn.txnRoReset_client _).trans hreset⟩
    · split
      · exact ⟨_, setReader_setReader _ _ _ _, (ReadTxn.txnRoReset_client _).trans hreset⟩
      · split
        · exact ⟨_, setReader_setReader _ _ _ _,
            ((ReadTxn.txnRoReset_client _).trans (cloneInto_client _ _ _)).trans hreset⟩
        · exact ⟨_, setReader_setReader _ _ _ _, (cloneInto_client _ _ _).trans hreset⟩

/-! ### A call through a pointer that may be null -/

/-- What a call through a pointer may do; through a null pointer it does nothing. -/
def EffectAt (env env' : MdbxEnv) : Option Ptr → Prop
  | none => env' = env
  | some p => Effect p env env'

theorem Refused.live {q : Ptr} {u : WriteTxn} (h : Refused env env')
    (hu : env'.txnAt q = some u) (hlive : u.finished = false) : env.txnAt q = some u := by
  cases q with
  | reader a => cases hu
  | basal =>
    cases hu
    rcases h.basal with hsame | ⟨_, hfin⟩
    · exact congrArg some hsame.symm
    · rw [hlive] at hfin
      cases hfin
  | nested a =>
    simp only [txnAt, h.nested] at hu
    exact hu

theorem Started.only {client : Handle} {q : Ptr} {u : WriteTxn}
    (h : Started self client env env') (hu : env'.txnAt q = some u) :
    q = .basal ∧ u.client = client ∧ u.owner = some self := by
  cases q with
  | reader a => cases hu
  | basal =>
    cases hu
    exact ⟨rfl, h.client, h.owner⟩
  | nested a => simp [txnAt, h.nested.2] at hu

theorem txnAt_allocNested {u t : WriteTxn} {q : Ptr} (h : (env.allocNested u).txnAt q = some t) :
    env.txnAt q = some t ∨ q = .nested env.brk ∧ t = { u with addr := env.brk } := by
  cases q with
  | reader a => cases h
  | basal => exact .inl h
  | nested a =>
    simp only [txnAt, allocNested] at h
    rw [List.find?_append, Option.or_eq_some_iff] at h
    rcases h with h | ⟨_, h⟩
    · exact .inl h
    · have hmem := List.mem_of_find?_eq_some h
      have haddr := List.find?_some h
      rw [List.mem_singleton] at hmem
      subst hmem
      exact .inr ⟨by rw [← beq_iff_eq.mp haddr], rfl⟩

/-- A write transaction that is live after a call was live before it, and its own. -/
theorem Effect.live {p q : Ptr} {u : WriteTxn} (h : Effect p env env')
    (hu : env'.txnAt q = some u) (hlive : u.finished = false) :
    ∃ t, env.txnAt q = some t ∧ t.finished = false ∧ u.client = t.client ∧ u.owner = t.owner := by
  cases q with
  | reader a => cases hu
  | basal =>
    cases hu
    obtain ⟨hfin, hclient, howner⟩ := h.basal hlive
    exact ⟨env.basal, rfl, hfin, hclient, howner⟩
  | nested a =>
    obtain ⟨t, ht, hk⟩ := h.nested.find? (fun x y hxy => by rw [hxy.addr]) hu
    refine ⟨t, ht, ?_, hk.client, hk.owner⟩
    by_contra hfin
    rw [hk.finished (by simpa using hfin)] at hlive
    cases hlive

theorem EffectAt.live {ptr : Option Ptr} {q : Ptr} {u : WriteTxn} (h : EffectAt env env' ptr)
    (hu : env'.txnAt q = some u) (hlive : u.finished = false) :
    ∃ t, env.txnAt q = some t ∧ t.finished = false ∧ u.client = t.client ∧ u.owner = t.owner := by
  cases ptr with
  | none =>
    rw [show env' = env from h] at hu
    exact ⟨u, hu, hlive, rfl, rfl⟩
  | some p => exact Effect.live h hu hlive

theorem EffectAt.ok {ptr : Option Ptr} (ok : env.Ok) (h : EffectAt env env' ptr) : env'.Ok := by
  cases ptr with
  | none => exact h ▸ ok
  | some p => exact Effect.ok h

theorem LocalAt.effectAt {ptr : Option Ptr} (ok : env.Ok) (h : LocalAt env env' ptr) :
    EffectAt env env' ptr := by
  cases ptr with
  | none => exact h
  | some p => exact Local.effect ok h

end MdbxEnv

end MdbxGo
