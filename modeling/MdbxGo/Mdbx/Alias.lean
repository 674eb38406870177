import MdbxGo.Libmdbx.Session
import MdbxGo.Mdbx.Stack

/-! No two `Txn` values share a transaction of libmdbx, and none points to a transaction that has
ended, although every top-level writer is the one object `env->basal_txn`. -/

namespace MdbxGo

namespace MdbxEnv

variable {env env' : MdbxEnv} {q : Ptr} {k : Handle}

/-! ### The transactions that a call makes leave the others to their `Txn` -/

theorem session_allocReader (ok : env.Ok) {r : ReadTxn} (hq : env.session q = some k) :
    (env.allocReader r).session q = some k := by
  cases q with
  | basal => exact hq
  | nested a => exact hq
  | reader a =>
    obtain ⟨x, hx, hclient⟩ := session_reader.mp hq
    have hne := Nat.ne_of_lt (lt_brk_of_reader ok hx)
    exact session_reader.mpr ⟨x, (setReader_other hne _).trans hx, hclient⟩

theorem txnAt_allocNested_of_some {u t : WriteTxn} (ht : env.txnAt q = some t) :
    (env.allocNested u).txnAt q = some t := by
  cases q with
  | reader a => cases ht
  | basal => exact ht
  | nested a =>
    simp only [MdbxEnv.txnAt, allocNested] at ht ⊢
    rw [List.find?_append, ht, Option.some_or]

theorem session_allocNested {u : WriteTxn} (hq : env.session q = some k) :
    (env.allocNested u).session q = some k := by
  cases q with
  | basal => exact hq
  | reader a => exact hq
  | nested a =>
    obtain ⟨t, ht, hclient⟩ := session_nested.mp hq
    exact session_nested.mpr ⟨t, txnAt_allocNested_of_some ht, hclient⟩

theorem session_nestedMade (ok : env.Ok) {u : WriteTxn} (hu : u.client = k) :
    (env.allocNested u).session (.nested env.brk) = some k := by
  refine session_nested.mpr ⟨{ u with addr := env.brk }, ?_, hu⟩
  have hnone : env.nested.find? (·.addr == env.brk) = none :=
    find?_none_of_addr fun t ht => Nat.ne_of_lt (ok.fresh t ht)
  simp only [txnAt, allocNested]
  rw [List.find?_append, hnone, Option.none_or]
  simp

theorem Refused.session (h : Refused env env') (q : Ptr) : env'.session q = env.session q := by
  cases q with
  | basal =>
    rcases h.basal with hsame | ⟨hfin, hfin'⟩
    · simp [MdbxEnv.session, hsame]
    · simp [MdbxEnv.session, hfin, hfin']
  | nested a => simp [MdbxEnv.session, txnAt, h.nested]
  | reader a => simp [MdbxEnv.session, h.rest.readers]

theorem Refused.txnAt (h : Refused env env') (hq : env.session q = some k) :
    env'.txnAt q = env.txnAt q := by
  cases q with
  | reader a => rfl
  | nested a => simp [MdbxEnv.txnAt, h.nested]
  | basal =>
    rcases h.basal with hsame | ⟨hfin, _⟩
    · simp [MdbxEnv.txnAt, hsame]
    · simp [MdbxEnv.session, hfin] at hq

/-- When a writer starts there are only readers. -/
theorem Started.session {self : Thread} {client : Handle} (h : Started self client env env')
    (hq : env.session q = some k) : ∃ a, q = .reader a ∧ env'.session q = some k := by
  cases q with
  | basal => simp [MdbxEnv.session, h.idle] at hq
  | nested a => simp [MdbxEnv.session, txnAt, h.nested.1] at hq
  | reader a =>
    refine ⟨a, rfl, ?_⟩
    simpa [MdbxEnv.session, h.rest.readers] using hq

end MdbxEnv

namespace World

open MdbxEnv

variable {w w' : World} {o : Sys} {g : Gor} {self : Thread} {call : Call} {h k : Handle}
  {p q : Ptr}

/-! ### What is asked of a program -/

/-- No rollback fails half way; a transaction is ended while no other `Txn` points into it; and
`Amend` is asked for all of `TxPrepareRO` or for none of it. -/
def Unaliased (w : World) : Event → Prop
  | .go g self o call =>
    (∀ h ∈ call.rollsBack, w.refuses self h call = false →
      ∀ p ∈ (w.txns h).ptr, RollbackReady o w.lib p) ∧
    (∀ h ∈ w.ends g call, w.refuses self h call = false → ∀ p ∈ (w.txns h).ptr,
      ∀ k < w.next, k ≠ h → ∀ q ∈ (w.txns k).ptr, ¬ w.lib.Inside p q) ∧
    (call = .amendLocked → ∀ f ∈ (w.frames g).head?, ∀ flags ∈ f.kind.flags,
      flags &&& txnRdonlyPrepare = 0 ∨ flags &&& txnRdonlyPrepare = txnRdonlyPrepare)
  | _ => True

instance (w : World) : (e : Event) → Decidable (w.Unaliased e)
  | .go g self o call => inferInstanceAs (Decidable
      ((∀ h ∈ call.rollsBack, w.refuses self h call = false →
        ∀ p ∈ (w.txns h).ptr, RollbackReady o w.lib p) ∧
      (∀ h ∈ w.ends g call, w.refuses self h call = false → ∀ p ∈ (w.txns h).ptr,
        ∀ k < w.next, k ≠ h → ∀ q ∈ (w.txns k).ptr, ¬ w.lib.Inside p q) ∧
      (call = .amendLocked → ∀ f ∈ (w.frames g).head?, ∀ flags ∈ f.kind.flags,
        flags &&& txnRdonlyPrepare = 0 ∨ flags &&& txnRdonlyPrepare = txnRdonlyPrepare)))
  | .oust _ | .foreignCommit _ _ | .fatal => .isTrue trivial

/-! ### Every pointer is to a transaction of its own -/

/-- Every `Txn` with a pointer points to a transaction that was made for it and has not ended. -/
def Paired (w : World) : Prop := ∀ h p, (w.txns h).ptr = some p → w.lib.session p = some h

theorem Paired.ne (paired : w.Paired) (hk : (w.txns k).ptr = some q) (hh : (w.txns h).ptr = some p)
    (hne : k ≠ h) : q ≠ p := by
  rintro rfl
  have hsame := (paired k q hk).symm.trans (paired h q hh)
  exact hne (Option.some.inj hsame)

/-- A call through one `Txn` leaves the transactions of the others to them. -/
theorem Own.session_other (ok : w.lib.Ok) (known : w.Known) (paired : w.Paired)
    (hunaliased : w.Unaliased (.go g self o call)) (own : Own o g self call h w w')
    (hne : k ≠ h) (hk : (w.txns k).ptr = some q) : w'.lib.session q = some k := by
  have hq := paired k q hk
  cases hp : (w.txns h).ptr with
  | none =>
    have heff := own.effect ok
    rw [hp] at heff
    rw [show w'.lib = w.lib from heff, hq]
  | some p =>
    have heff : Effect p w.lib w'.lib := by
      have := own.effect ok
      rwa [hp] at this
    have hqp := paired.ne hk hp hne
    -- only a call that ends its transaction reaches those inside it
    have hblocked : (∀ t, w.lib.write? p = some (t, true) → w'.lib = w.lib) →
        w'.lib.session q = some k := by
      intro hsame
      by_cases hin : w.lib.Inside p q
      · obtain ⟨t, ht⟩ := hasChild_of_inside hqp hin hq
        rw [hsame t ht, hq]
      · exact heff.session ok hqp hin hq
    have hends : w.ends g call = some h → w.refuses self h call = false →
        w'.lib.session q = some k := by
      intro hends href
      have hknown : k < w.next := by
        by_contra hge
        rw [known.fresh k (Nat.le_of_not_lt hge)] at hk
        cases hk
      exact heff.session ok hqp (hunaliased.2.1 h hends href p hp k hknown hne q hk) hq
    cases own with
    | kept hlib _ => rw [hlib.session, hq]
    | rolledBack _ _ hlib _ =>
      rw [hp] at hlib
      exact hblocked fun t ht => mdbxTxnRollback_blocked ht hlib
    | committed _ hend href _ _ => exact hends hend href
    | aborted hend href _ _ => exact hends hend href
    | checkpointed _ _ hlib _ =>
      rw [hp] at hlib
      exact hblocked fun t ht => mdbxTxnCheckpoint_blocked ht hlib
    | embarked _ _ hlib _ _ _ _ =>
      rw [hp] at hlib
      exact hblocked fun t ht => mdbxTxnCommitEmbarkRead_blocked ht hlib

/-- The pointer that a call leaves in its `Txn` is to a transaction of that `Txn`. -/
theorem Own.session_self (ok : w.lib.Ok) (paired : w.Paired)
    (hunaliased : w.Unaliased (.go g self o call)) (own : Own o g self call h w w')
    (hp : (w'.txns h).ptr = some p) : w'.lib.session p = some h := by
  cases own with
  | kept hlib hsame =>
    rw [hsame.ptr] at hp
    rw [hlib.session, paired h p hp]
  | rolledBack hcall href hlib htxn =>
    subst hcall
    rw [htxn] at hp
    have hp : (w.txns h).ptr = some p := hp
    rw [hp] at hlib
    rw [mdbxTxnRollback_session ok (hunaliased.1 h rfl href p hp) hlib, paired h p hp]
  | committed _ _ _ _ htxn =>
    rw [htxn] at hp
    cases hp
  | aborted _ _ _ htxn =>
    rw [htxn] at hp
    cases hp
  | checkpointed _ _ hlib htxn =>
    rw [htxn] at hp
    split at hp
    · rename_i hcode
      have hp : (w.txns h).ptr = some p := hp
      rw [hp] at hlib
      rw [mdbxTxnCheckpoint_session ok hlib hcode, paired h p hp]
    · cases hp
  | embarked _ _ hlib hptr _ _ _ =>
    rw [hptr] at hp
    split at hp
    · cases hp
    · cases hq : (w.txns h).ptr with
      | none =>
        rw [hq] at hlib
        have hnull := congrArg (·.2.2) (Option.some.inj hlib)
        rw [hp] at hnull
        cases hnull
      | some q =>
        rw [hq] at hlib
        rw [mdbxTxnCommitEmbarkRead_session hlib hp, paired h q hq]

/-- The reader that a goroutine amends was made for the `Txn` that it amends. -/
def AmendsOwn (w : World) : Prop :=
  ∀ g, ∀ f ∈ w.frames g, ∀ flags a, f.kind = .amending flags → f.ptr = some (.reader a) →
    a < w.lib.brk ∧ ∀ r, w.lib.readers a = some r → r.client = f.txn

/-- A reader stays the one of its `Txn`. -/
theorem Act.clients (ok : w.lib.Ok) (act : Act o g self call w w') {a : Addr}
    (ha : a < w.lib.brk) : a < w'.lib.brk ∧ ∀ r, w'.lib.readers a = some r →
      ∃ r₀, w.lib.readers a = some r₀ ∧ r.client = r₀.client := by
  have hsame : w'.lib.brk = w.lib.brk → w'.lib.readers = w.lib.readers → a < w'.lib.brk ∧
      ∀ r, w'.lib.readers a = some r → ∃ r₀, w.lib.readers a = some r₀ ∧ r.client = r₀.client := by
    intro hbrk hreaders
    rw [hbrk, hreaders]
    exact ⟨ha, fun r hr => ⟨r, hr, rfl⟩⟩
  have halloc : ∀ x, w'.lib = w.lib.allocReader x → a < w'.lib.brk ∧
      ∀ r, w'.lib.readers a = some r → ∃ r₀, w.lib.readers a = some r₀ ∧ r.client = r₀.client := by
    intro x hlib
    rw [hlib]
    refine ⟨Nat.lt_succ_of_lt ha, fun r hr => ⟨r, ?_, rfl⟩⟩
    rwa [← setReader_other (Nat.ne_of_lt ha) (some x)]
  cases act with
  | through h _ ht =>
    have heff := ht.own.effect ok
    cases hp : (w.txns h).ptr with
    | none =>
      rw [hp] at heff
      have hlib : w'.lib = w.lib := heff
      exact hsame (by rw [hlib]) (by rw [hlib])
    | some p =>
      rw [hp] at heff
      have heff : Effect p w.lib w'.lib := heff
      exact ⟨Nat.lt_of_lt_of_le ha heff.brk, fun r hr => heff.clients a r ha hr⟩
  | refused _ hbegan _ _ _ =>
    cases hbegan with
    | refused _ href => exact hsame href.rest.brk href.rest.readers
  | began _ hbegan _ _ =>
    cases hbegan with
    | reader _ _ _ _ hlib => exact halloc _ hlib
    | basal _ _ hst => exact hsame hst.rest.brk hst.rest.readers
    | nested _ _ _ _ _ _ _ _ _ _ hlib =>
      rw [hlib]
      exact ⟨Nat.lt_succ_of_lt ha, fun r hr => ⟨r, hr, rfl⟩⟩
  | cloned _ hlib _ _ => exact halloc _ hlib
  | tooOld _ _ ham _ _ _ =>
    cases ham with
    | refused _ href hlocal =>
      have heff := hlocal.effect href.ok
      have ha : a < _ := href.rest.brk ▸ ha
      refine ⟨Nat.lt_of_lt_of_le ha heff.brk, fun r hr => ?_⟩
      rw [← href.rest.readers]
      exact heff.clients a r ha hr
  | @amended _ b _ _ _ _ ham _ _ _ =>
    cases ham with
    | @started mid x _ hst hlib _ _ hclient =>
      rw [hlib]
      refine ⟨show a < mid.brk from hst.rest.brk ▸ ha, fun r hr => ?_⟩
      by_cases hab : a = b
      · subst hab
        rw [setReader_self] at hr
        exact hclient r hr
      · rw [setReader_other hab, hst.rest.readers] at hr
        exact ⟨r, hr, rfl⟩

theorem exec_amendsOwn (ok : w.lib.Ok) (paired : w.Paired) (howns : w.AmendsOwn)
    {r : World × Reply} (hr : w.exec o g self call = some r) : r.1.AmendsOwn := by
  have act := exec_act ok hr
  intro g' f hf flags a hkind hptr
  rcases (exec_stacked hr).mem hf with hf | ⟨kind, h, hp, rfl, rfl, hptr', _⟩
  · obtain ⟨ha, hclient⟩ := howns g' f hf flags a hkind hptr
    obtain ⟨ha', hclients⟩ := act.clients ok ha
    refine ⟨ha', fun x hx => ?_⟩
    obtain ⟨x₀, hx₀, hsame⟩ := hclients x hx
    rw [hsame, hclient x₀ hx₀]
  · rw [hkind] at hp
    cases hp with
    | @amend _ _ b _ htxns hreader =>
      rw [hptr', htxns, hreader] at hptr
      cases hptr
      obtain ⟨x₀, hx₀, hclient₀⟩ := session_reader.mp (paired _ _ hreader)
      obtain ⟨ha', hclients⟩ := act.clients ok (lt_brk_of_reader ok hx₀)
      refine ⟨ha', fun x hx => ?_⟩
      obtain ⟨x₁, hx₁, hsame⟩ := hclients x hx
      rw [hx₀] at hx₁
      cases hx₁
      exact hsame.trans hclient₀

theorem exec_paired (ok : w.lib.Ok) (known : w.Known) (paired : w.Paired) (howns : w.AmendsOwn)
    (hunaliased : w.Unaliased (.go g self o call)) (act : Act o g self call w w') :
    w'.Paired := by
  intro k q hk
  have hknown : ∀ {q}, (w.txns k).ptr = some q → k ≠ w.next := by
    rintro q hq rfl
    rw [known.fresh _ (Nat.le_refl _)] at hq
    cases hq
  have hreaders : ∀ {a : Addr} {mid : MdbxEnv}, w.lib.session (.reader a) = some k →
      mid.readers = w.lib.readers → mid.session (.reader a) = some k := by
    intro a mid hq hsame
    simpa [session, hsame] using hq
  cases act with
  | through h _ ht =>
    by_cases hkh : k = h
    · subst hkh
      exact ht.own.session_self ok paired hunaliased hk
    · rw [ht.others k hkh] at hk
      exact ht.own.session_other ok known paired hunaliased hkh hk
  | refused _ hbegan htxns _ _ =>
    rw [htxns] at hk
    cases hbegan with
    | refused _ href => rw [href.session, paired k q hk]
  | began _ hbegan hm hother =>
    by_cases hkn : k = w.next
    · subst hkn
      rw [hm.ptr] at hk
      cases hk
      cases hbegan with
      | reader _ _ hclient _ hlib =>
        rw [hlib]
        exact session_reader.mpr ⟨_, setReader_self _ _ _, hclient⟩
      | basal _ _ hst => exact session_basal.mpr ⟨hst.live, hst.client⟩
      | nested _ _ _ _ _ hclient _ _ _ _ hlib =>
        rw [hlib]
        exact session_nestedMade ok hclient
    · rw [hother k hkn] at hk
      have hq := paired k q hk
      cases hbegan with
      | reader _ _ _ _ hlib =>
        rw [hlib]
        exact session_allocReader ok hq
      | basal _ _ hst =>
        obtain ⟨a, rfl, hq'⟩ := hst.session hq
        exact hq'
      | nested _ _ _ _ _ _ _ _ _ _ hlib =>
        rw [hlib]
        exact session_allocNested hq
  | cloned hclient hlib hm hother =>
    by_cases hkn : k = w.next
    · subst hkn
      rw [hm.ptr] at hk
      cases hk
      rw [hlib]
      exact session_reader.mpr ⟨_, setReader_self _ _ _, hclient⟩
    · rw [hother k hkn] at hk
      rw [hlib]
      exact session_allocReader ok (paired k q hk)
  | tooOld _ _ ham htxns _ _ =>
    rw [htxns] at hk
    cases ham with
    | refused _ href hlocal => rw [hlocal.session, href.session, paired k q hk]
  | @amended h a flags code hcall hwait ham hm hother hself =>
    cases ham with
    | @started mid x _ hst hlib _ hfreed hclient =>
      by_cases hkn : k = w.next
      · subst hkn
        rw [hm.ptr] at hk
        cases hk
        rw [hlib]
        exact session_basal.mpr ⟨hst.live, hst.client⟩
      · obtain ⟨f, fs, hframes, hkind, rfl, hptr⟩ := hwait
        have hold : (w.txns k).ptr = some q ∧
            (k = f.txn → flags &&& txnRdonlyPrepare ≠ 0) := by
          by_cases hkf : k = f.txn
          · rw [hkf, hself (hkf ▸ hkn)] at hk
            split at hk
            · cases hk
            · rename_i hflags
              exact ⟨hkf ▸ hk, fun _ => hflags⟩
          · rw [hother k hkn hkf] at hk
            exact ⟨hk, fun h => absurd h hkf⟩
        obtain ⟨b, rfl, hmid⟩ := hst.session (paired k q hold.1)
        rw [hlib]
        by_cases hba : b = a
        · subst hba
          -- the reader is the one that was amended, and its `Txn` still points to it
          obtain ⟨_, howner⟩ := howns g f (hframes ▸ List.mem_cons_self) flags b hkind hptr
          obtain ⟨r₀, hr₀, hclient₀⟩ := session_reader.mp (paired k _ hold.1)
          have hflags := hold.2 (hclient₀.symm.trans (howner r₀ hr₀))
          have hkeep := (hunaliased.2.2 hcall f (by simp [hframes]) flags
            (by simp [hkind, FrameKind.flags])).resolve_left hflags
          obtain ⟨r₁, hr₁⟩ := Option.ne_none_iff_exists'.mp fun hx => hfreed.mp hx hkeep
          obtain ⟨r₂, hr₂, hclient₁⟩ := hclient r₁ hr₁
          rw [hr₀] at hr₂
          cases hr₂
          exact session_reader.mpr ⟨r₁, (setReader_self _ _ _).trans hr₁, hclient₁.trans hclient₀⟩
        · obtain ⟨r₀, hr₀, hclient₀⟩ := session_reader.mp hmid
          exact session_reader.mpr ⟨r₀, (setReader_other hba x).trans hr₀, hclient₀⟩

/-! ### What a call does to the transactions of other `Txn` values -/

/-- What a step may do to the write transaction of a `Txn` that it is not about: nothing, or merge
into it the changes that a commit, a checkpoint or the change to a reader of one nested in it
hands over. -/
inductive Untouched (w : World) (g : Gor) (call : Call) (q : Ptr) (t : WriteTxn) (w' : World) :
    Prop
  | same : w'.lib.txnAt q = some t → Untouched w g call q t w'
  | merged {h : Handle} {p : Ptr} {m : WriteTxn} : call.merges = true → h ∈ w.uses g call →
      (w.txns h).ptr = some p → w.lib.Inside q p → w'.lib.txnAt q = some (t.absorb (some m)) →
      Untouched w g call q t w'

/-- A commit of a reader, which ends it, changes no write transaction. -/
theorem txnAt_commitReader {env : MdbxEnv} (a : Addr) (q : Ptr) :
    (env.mdbxTxnCommitEx o self (some (.reader a))).1.txnAt q = env.txnAt q := by
  simp only [mdbxTxnCommitEx]
  split
  · rfl
  · split
    · exact mdbxTxnAbort_outside (by cases q <;> exact fun h => h)
    · split
      · rfl
      · exact txnAt_setReader _ _ _ _

theorem Own.untouched {t : WriteTxn} (ok : w.lib.Ok) (known : w.Known) (paired : w.Paired)
    (hunaliased : w.Unaliased (.go g self o call)) (hh : h ∈ w.uses g call)
    (own : Own o g self call h w w') (hne : k ≠ h) (hk : (w.txns k).ptr = some q)
    (ht : w.lib.txnAt q = some t) : Untouched w g call q t w' := by
  cases hp : (w.txns h).ptr with
  | none =>
    have heff := own.effect ok
    rw [hp] at heff
    exact .same (by rw [show w'.lib = w.lib from heff, ht])
  | some p =>
    have heff : Effect p w.lib w'.lib := by
      have := own.effect ok
      rwa [hp] at this
    have hqp := paired.ne hk hp hne
    have hends : w.ends g call = some h → w.refuses self h call = false →
        ¬ w.lib.Inside p q := by
      intro hends href
      have hknown : k < w.next := by
        by_contra hge
        rw [known.fresh k (Nat.le_of_not_lt hge)] at hk
        cases hk
      exact hunaliased.2.1 h hends href p hp k hknown hne q hk
    -- what a transaction outside gets is merged into it from one inside it
    have hmerge : call.merges = true → (∀ a, p = .reader a → w'.lib.txnAt q = w.lib.txnAt q) →
        ¬ w.lib.Inside p q → Untouched w g call q t w' := by
      intro hmerges hreader hout
      have hinside : ∀ {u}, w.lib.txnAt p = some u → Untouched w g call q t w' := by
        intro u hu
        obtain ⟨m, hm⟩ := heff.outside q t hout ht
        cases m with
        | none => exact .same hm
        | some m => exact .merged hmerges hh hp (inside_of_outside hu ht hout) hm
      cases p with
      | reader a => exact .same ((hreader a rfl).trans ht)
      | basal => exact hinside rfl
      | nested a =>
        obtain ⟨u, hu, _⟩ := session_nested.mp (paired h _ hp)
        exact hinside hu
    have hblocked : (∀ u, w.lib.write? p = some (u, true) → w'.lib = w.lib) →
        (¬ w.lib.Inside p q → Untouched w g call q t w') → Untouched w g call q t w' := by
      intro hsame hout
      by_cases hin : w.lib.Inside p q
      · obtain ⟨u, hu⟩ := hasChild_of_inside hqp hin (paired k q hk)
        exact .same (by rw [hsame u hu, ht])
      · exact hout hin
    cases own with
    | kept hlib _ =>
      rw [hp] at hlib
      rcases Local.txnAt hlib q with hsame | ⟨hsame, _⟩
      · exact .same (hsame.trans ht)
      · exact absurd hsame hqp
    | rolledBack _ _ hlib _ =>
      rw [hp] at hlib
      refine hblocked (fun u hu => mdbxTxnRollback_blocked hu hlib) fun hout => .same ?_
      exact (mdbxTxnRollback_outside hlib hout).trans ht
    | committed hcommits hend href hlib _ =>
      rw [hp] at hlib
      refine hmerge ?_ ?_ (hends hend href)
      · cases call <;> first | exact hcommits | cases hcommits
      · rintro a rfl
        rw [hlib, txnAt_commitReader]
    | aborted hend href hlib _ =>
      rw [hp] at hlib
      exact .same (by rw [hlib, mdbxTxnAbort_outside (hends hend href), ht])
    | checkpointed hcall _ hlib _ =>
      rw [hp] at hlib
      refine hblocked (fun u hu => mdbxTxnCheckpoint_blocked hu hlib)
        (hmerge (hcall ▸ rfl) ?_)
      rintro a rfl
      rw [← show w.lib = w'.lib from congrArg (·.1) (Option.some.inj hlib)]
    | embarked hcall _ hlib _ _ _ _ =>
      rw [hp] at hlib
      refine hblocked (fun u hu => mdbxTxnCommitEmbarkRead_blocked hu hlib)
        (hmerge (hcall ▸ rfl) ?_)
      rintro a rfl
      rw [← show w.lib = w'.lib from congrArg (·.1) (Option.some.inj hlib)]

theorem exec_untouched {t : WriteTxn} (ok : w.lib.Ok) (known : w.Known) (paired : w.Paired)
    (hunaliased : w.Unaliased (.go g self o call)) (act : Act o g self call w w')
    (hk : k ∉ w.uses g call) (hq : (w.txns k).ptr = some q) (ht : w.lib.txnAt q = some t) :
    Untouched w g call q t w' := by
  have hsession := paired k q hq
  have hwriter : ∀ {a : Addr}, q ≠ .reader a := by
    rintro a rfl
    cases ht
  cases act with
  | through h hh hthrough =>
    have hne : k ≠ h := fun heq => hk (heq ▸ hh)
    exact hthrough.own.untouched ok known paired hunaliased hh hne hq ht
  | refused _ hbegan _ _ _ =>
    cases hbegan with
    | refused _ href => exact .same ((href.txnAt hsession).trans ht)
  | began _ hbegan _ _ =>
    cases hbegan with
    | reader _ _ _ _ hlib => exact .same (by rw [hlib, txnAt_allocReader, ht])
    | basal _ _ hst =>
      obtain ⟨a, hreader, _⟩ := hst.session hsession
      exact absurd hreader hwriter
    | nested _ _ _ _ _ _ _ _ _ _ hlib =>
      exact .same (by rw [hlib, txnAt_allocNested_of_some ht])
  | cloned _ hlib _ _ => exact .same (by rw [hlib, txnAt_allocReader, ht])
  | tooOld _ _ ham _ _ _ =>
    cases ham with
    | refused _ href hlocal =>
      rcases hlocal.txnAt q with hsame | ⟨hreader, _⟩
      · exact .same (by rw [hsame, href.txnAt hsession, ht])
      · exact absurd hreader hwriter
  | amended _ _ ham _ _ _ =>
    cases ham with
    | started _ hst _ _ _ _ =>
      obtain ⟨a, hreader, _⟩ := hst.session hsession
      exact absurd hreader hwriter

/-! ### Runs -/

/-- Every pointer is to a transaction of its own in a run that meets the condition. -/
theorem paired_invariant : system.Invariant (fun w e => w.Unaliased e)
    fun w => (w.lib.Ok ∧ w.Known) ∧ w.Paired ∧ w.AmendsOwn := by
  refine (sane_invariant _).strengthen ?_ ?_
  · rintro w ⟨_, htxns, hframes, _⟩
    constructor
    · intro h p hp
      rw [htxns] at hp
      cases hp
    · simp [AmendsOwn, hframes]
  · rintro w e w' ⟨ok, known⟩ _ ⟨paired, howns⟩ hunaliased hstep
    obtain ⟨r, hr, rfl⟩ := Option.map_eq_some_iff.mp hstep
    rcases step_cases hr with ⟨g, self, o, call, rfl, _, _, hexec⟩ | ⟨a, x, _, hx, rfl⟩ |
      ⟨txnid, changes, _, _, _, _, rfl⟩ | ⟨_, rfl⟩
    · exact ⟨exec_paired ok known paired howns hunaliased (exec_act ok hexec),
        exec_amendsOwn ok paired howns hexec⟩
    · have hlocal : Local (.reader a) w.lib (w.lib.setReader a (some x.oust)) :=
        .reader _ rfl hx x.oust_client
      refine ⟨fun h p hp => (hlocal.session p).trans (paired h p hp), ?_⟩
      intro g f hf flags b hkind hptr
      obtain ⟨hb, hclient⟩ := howns g f hf flags b hkind hptr
      refine ⟨hb, fun r hr => ?_⟩
      obtain ⟨r₀, hr₀, hsame⟩ := (hlocal.effect ok).clients b r hb hr
      rw [hsame, hclient r₀ hr₀]
    · exact ⟨paired, howns⟩
    · exact ⟨paired, howns⟩

end World

end MdbxGo
