import MdbxGo.Libmdbx.Effect

/-! Which transactions of libmdbx are read-only ones, and what each call makes of that. Nothing is
asked of the environment: the results hold also after `mdbx_txn_clone` has reset a transaction that
is no flat read-only one. -/

namespace MdbxGo

namespace WriteTxn

variable {t u v : WriteTxn} {l l' l'' : List WriteTxn}

/-- `u` is at the address of `t`, and read-only when `t` is. -/
structure SameKind (t u : WriteTxn) : Prop where
  addr : u.addr = t.addr
  roNested : u.roNested = t.roNested

theorem SameKind.refl (t : WriteTxn) : SameKind t t := ⟨rfl, rfl⟩

theorem SameKind.trans (h : SameKind t u) (h' : SameKind u v) : SameKind t v :=
  ⟨h'.addr.trans h.addr, h'.roNested.trans h.roNested⟩

/-- Every transaction of `l'` comes from one of `l`. -/
def Within (l l' : List WriteTxn) : Prop := ∀ u ∈ l', ∃ t ∈ l, SameKind t u

theorem Within.refl (l : List WriteTxn) : Within l l := fun u hu => ⟨u, hu, .refl u⟩

theorem Within.nil (l : List WriteTxn) : Within l [] := fun _ hu => absurd hu List.not_mem_nil

theorem Within.trans (h : Within l l') (h' : Within l' l'') : Within l l'' := by
  intro v hv
  obtain ⟨u, hu, huv⟩ := h' v hv
  obtain ⟨t, ht, htu⟩ := h u hu
  exact ⟨t, ht, htu.trans huv⟩

theorem Within.cons (htu : SameKind t u) (h : Within l l') : Within (t :: l) (u :: l') := by
  intro v hv
  rcases List.mem_cons.mp hv with rfl | hv
  · exact ⟨t, List.mem_cons_self, htu⟩
  · obtain ⟨s, hs, hsv⟩ := h v hv
    exact ⟨s, List.mem_cons_of_mem t hs, hsv⟩

theorem Within.append {m m' : List WriteTxn} (h : Within l l') (hm : Within m m') :
    Within (l ++ m) (l' ++ m') := by
  intro u hu
  rcases List.mem_append.mp hu with hu | hu
  · obtain ⟨t, ht, htu⟩ := h u hu
    exact ⟨t, List.mem_append_left m ht, htu⟩
  · obtain ⟨t, ht, htu⟩ := hm u hu
    exact ⟨t, List.mem_append_right l ht, htu⟩

theorem sameKind_absorb (t : WriteTxn) (merged : Option WriteTxn) :
    SameKind t (t.absorb merged) := by
  cases merged <;> exact ⟨rfl, rfl⟩

theorem breakAll_within (self : Thread) (l : List WriteTxn) : Within l (breakAll self l) := by
  induction l with
  | nil => exact .refl _
  | cons t kids ih =>
    unfold breakAll
    split
    · exact .refl _
    · exact .cons ⟨rfl, rfl⟩ ih

theorem abortNested_within (self : Thread) (l : List WriteTxn) :
    Within l (abortNested self l).1 := by
  cases l with
  | nil => exact .refl _
  | cons t kids =>
    simp only [abortNested]
    split
    · exact .refl _
    · split
      · exact breakAll_within self _
      · exact .nil _

theorem commitNested_within (o : Sys) (self : Thread) (l : List WriteTxn) :
    Within l (commitNested o self l).rest := by
  induction l with
  | nil => exact .refl _
  | cons t kids ih =>
    unfold commitNested
    split
    · exact .refl _
    · dsimp only
      split
      · exact (Within.cons (.refl t) ih).trans (abortNested_within self _)
      · rw [txnCommitNested_rest]
        exact .nil _

end WriteTxn

namespace MdbxEnv

open WriteTxn

variable {env env' env'' : MdbxEnv} {o : Sys} {self : Thread} {p : Ptr} {ro : Bool} {a : Addr}

/-- The transaction at a pointer is a read-only one: flat, or nested in the writer. There is no
answer when it was freed. -/
def readonly? (env : MdbxEnv) : Ptr → Option Bool
  | .reader a => (env.readers a).map fun _ => true
  | p => (env.write? p).map (·.1.roNested)

/-- The transaction that was made between two states of an environment in memory of its own. -/
def made (env env' : MdbxEnv) : Option Ptr :=
  if env'.brk = env.brk then none
  else some (if (env'.readers env.brk).isSome then .reader env.brk else .nested env.brk)

/-- What is at `p` is a read-only transaction if and only if `ro`, as long as it is there. -/
def Kind (env : MdbxEnv) : Ptr → Bool → Prop
  | .reader _, ro => ro = true
  | .basal, ro => ro = false
  | .nested a, ro => ∀ t ∈ env.nested, t.addr = a → t.roNested = ro

theorem mem_nested_of_inner {t : WriteTxn} {kids : List WriteTxn} (h : env.inner a = t :: kids) :
    t ∈ env.nested := by
  rw [← env.outer_append_inner a, h]
  exact List.mem_append_right _ List.mem_cons_self

/-- The kind tells what a pointer finds. -/
theorem Kind.readonly? (h : env.Kind p ro) (hbasal : env.basal.roNested = false) {b : Bool}
    (hb : env.readonly? p = some b) : b = ro := by
  cases p with
  | reader a =>
    obtain ⟨r, _, rfl⟩ := Option.map_eq_some_iff.mp hb
    exact Eq.symm h
  | basal =>
    obtain rfl := Option.some.inj hb
    exact hbasal.trans (Eq.symm h)
  | nested a =>
    obtain ⟨⟨t, hasChild⟩, ht, rfl⟩ := Option.map_eq_some_iff.mp hb
    obtain ⟨kids, hin, _⟩ := inner_of_write? ht
    exact h t (mem_nested_of_inner hin) (inner_addr hin)

/-- A call makes no new write transactions, and turns none into one of another kind. -/
structure Alike (env env' : MdbxEnv) : Prop where
  brk : env.brk ≤ env'.brk
  basal : env.basal.roNested = false → env'.basal.roNested = false
  nested : Within env.nested env'.nested

theorem Alike.refl (env : MdbxEnv) : Alike env env := ⟨Nat.le_refl _, id, .refl _⟩

theorem Alike.trans (h : Alike env env') (h' : Alike env' env'') : Alike env env'' :=
  ⟨Nat.le_trans h.brk h'.brk, h'.basal ∘ h.basal, h.nested.trans h'.nested⟩

theorem Alike.kind (h : Alike env env') (hk : env.Kind p ro) : env'.Kind p ro := by
  cases p with
  | nested a =>
    intro u hu haddr
    obtain ⟨t, ht, htu⟩ := h.nested u hu
    exact htu.roNested.trans (hk t ht (htu.addr.symm.trans haddr))
  | _ => exact hk

theorem alike_setReader (a : Addr) (r : Option ReadTxn) : Alike env (env.setReader a r) :=
  ⟨Nat.le_refl _, id, .refl _⟩

theorem alike_allocReader (r : ReadTxn) : Alike env (env.allocReader r) :=
  ⟨Nat.le_succ _, id, .refl _⟩

/-- A call through the top-level transaction leaves the nested ones or ends all of them. -/
theorem alike_basal (hbrk : env'.brk = env.brk)
    (hbasal : env.basal.roNested = false → env'.basal.roNested = false)
    (hnested : env'.nested = env.nested ∨ env'.nested = []) : Alike env env' := by
  refine ⟨Nat.le_of_eq hbrk.symm, hbasal, ?_⟩
  rcases hnested with hsame | hnil
  · rw [hsame]
    exact .refl _
  · rw [hnil]
    exact .nil _

theorem alike_replaceNested {l : List WriteTxn} (hl : Within (env.inner a) l) :
    Alike env (env.replaceNested a l) := by
  refine ⟨Nat.le_refl _, id, ?_⟩
  rw [← env.outer_append_inner a]
  exact (Within.refl _).append hl

theorem mergeInto_within (merged : Option WriteTxn) (t : WriteTxn) (l : List WriteTxn) :
    SameKind t (mergeInto merged t l).1 ∧ Within l (mergeInto merged t l).2 := by
  induction l generalizing t with
  | nil => exact ⟨sameKind_absorb t merged, .refl _⟩
  | cons u l ih =>
    obtain ⟨hu, hl⟩ := ih u
    exact ⟨.refl t, .cons hu hl⟩

theorem alike_joinNested (merged : Option WriteTxn) {l : List WriteTxn}
    (hl : Within (env.inner a) l) : Alike env (env.joinNested a merged l) := by
  obtain ⟨hbasal, houter⟩ := mergeInto_within merged env.basal (env.outer a)
  refine ⟨Nat.le_refl _, fun hro => hbasal.roNested.trans hro, ?_⟩
  rw [← env.outer_append_inner a]
  exact houter.append hl

/-- A write that leaves the address and the kind. -/
theorem alike_setWrite {t u : WriteTxn} {hasChild : Bool} (h : env.write? p = some (t, hasChild))
    (htu : SameKind t u) : Alike env (env.setWrite u p) := by
  cases p with
  | reader a => exact .refl _
  | basal =>
    obtain ⟨rfl, rfl⟩ := Prod.mk.inj (Option.some.inj h)
    exact alike_basal rfl (fun hro => htu.roNested.trans hro) (.inl rfl)
  | nested a =>
    obtain ⟨kids, hin, _⟩ := inner_of_write? h
    apply alike_replaceNested
    rw [hin]
    exact .cons htu (.refl _)

/-! ### Data, and what can be done with a reader -/

theorem onReader_alike (a : Addr) (f : ReadTxn → ReadTxn × Code) :
    Alike env (env.onReader a f).1 := by
  unfold onReader
  split
  · exact .refl _
  · exact alike_setReader a _

theorem mdbxTxnReset_alike (ptr : Option Ptr) : Alike env (env.mdbxTxnReset o self ptr).1 := by
  unfold mdbxTxnReset
  split
  · exact .refl _
  · exact onReader_alike _ _
  · exact .refl _

theorem mdbxTxnRenew_alike (ptr : Option Ptr) : Alike env (env.mdbxTxnRenew o self ptr).1 := by
  unfold mdbxTxnRenew
  split
  · exact .refl _
  · exact onReader_alike _ _
  · exact .refl _

theorem mdbxTxnRefresh_alike (ptr : Option Ptr) : Alike env (env.mdbxTxnRefresh o self ptr).1 := by
  unfold mdbxTxnRefresh
  split
  · exact .refl _
  · exact onReader_alike _ _
  · exact .refl _

theorem mdbxTxnPark_alike (autounpark : Bool) (ptr : Option Ptr) :
    Alike env (env.mdbxTxnPark o autounpark ptr).1 := by
  unfold mdbxTxnPark
  split
  · exact .refl _
  · exact onReader_alike _ _
  · exact .refl _

theorem mdbxTxnUnpark_alike (restart : Bool) (ptr : Option Ptr) :
    Alike env (env.mdbxTxnUnpark o restart ptr).1 := by
  unfold mdbxTxnUnpark
  split
  · exact .refl _
  · exact onReader_alike _ _
  · exact .refl _

theorem mdbxGet_alike (ptr : Option Ptr) : Alike env (env.mdbxGet o ptr).1 := by
  unfold mdbxGet
  split
  · exact .refl _
  · exact onReader_alike _ _
  · split
    · exact .refl _
    · rename_i hw
      dsimp only
      split
      · exact .refl _
      · exact alike_setWrite hw ⟨rfl, rfl⟩

theorem mdbxPut_alike (change : Change) (ptr : Option Ptr) :
    Alike env (env.mdbxPut o change ptr).1 := by
  unfold mdbxPut
  split
  · exact .refl _
  · exact .refl _
  · split
    · exact .refl _
    · rename_i hw
      dsimp only
      split
      · exact .refl _
      · split
        · exact alike_setWrite hw ⟨rfl, rfl⟩
        · exact alike_setWrite hw ⟨rfl, rfl⟩

/-! ### The top-level transaction -/

theorem breakBasal_alike (self : Thread) (env : MdbxEnv) : Alike env (env.breakBasal self) := by
  unfold breakBasal breakAll
  split
  · exact .refl _
  · rename_i basal nested hbreak
    split at hbreak
    · cases hbreak
      exact .refl _
    · cases hbreak
      exact ⟨Nat.le_refl _, id, breakAll_within self _⟩

theorem txnBasalEnd_alike (unlock : Bool) : Alike env (env.txnBasalEnd o unlock).1 :=
  alike_basal rfl (fun _ => rfl) (.inl rfl)

theorem basalStartLocked_alike (client : Handle) : Alike env (env.basalStartLocked o client).1 := by
  unfold basalStartLocked
  split
  · exact .refl _
  · dsimp only
    split
    · exact alike_basal rfl id (.inr rfl)
    · exact alike_basal rfl id (.inr rfl)

theorem txnBasalRestart_alike (client : Handle) : Alike env (env.txnBasalRestart o client).1 := by
  have hstart : Alike env (env.basalStartLocked o client).1 := basalStartLocked_alike client
  unfold txnBasalRestart
  dsimp only
  split
  · exact hstart.trans (txnBasalEnd_alike true)
  · exact hstart

theorem txnBasalCommit_alike (env : MdbxEnv) : Alike env (env.txnBasalCommit o).1 := by
  unfold txnBasalCommit
  split
  · exact .refl _
  · split
    · exact alike_basal rfl id (.inl rfl)
    · exact alike_basal rfl id (.inl rfl)

theorem txnAbortBasal_alike (env : MdbxEnv) : Alike env (env.txnAbortBasal o).1 := by
  unfold txnAbortBasal
  split
  · exact .refl _
  · exact alike_basal rfl (fun _ => rfl) (.inr rfl)

theorem txnCommitBasal_alike (env : MdbxEnv) : Alike env (env.txnCommitBasal o).1 := by
  unfold txnCommitBasal
  split
  · exact txnAbortBasal_alike env
  · exact (txnBasalCommit_alike env).trans (txnBasalEnd_alike true)

/-! ### Abort and commit -/

theorem mdbxTxnAbort_alike (ptr : Option Ptr) : Alike env (env.mdbxTxnAbort o self ptr).1 := by
  unfold mdbxTxnAbort
  split
  · exact .refl _
  · split
    · exact .refl _
    · split
      · exact .refl _
      · exact alike_setReader _ _
  · dsimp only
    split
    · exact .refl _
    · split
      · exact .refl _
      · split
        · exact breakBasal_alike self env
        · exact txnAbortBasal_alike env
  · split
    · exact .refl _
    · rename_i t kids hin
      split
      · exact .refl _
      · split
        · exact .refl _
        · apply alike_replaceNested
          rw [hin]
          exact abortNested_within self _

theorem commitBasal_alike : Alike env (env.commitBasal o self).1 := by
  unfold commitBasal
  split
  · exact .refl _
  · split
    · exact .refl _
    · split
      · exact breakBasal_alike self env
      · have hinner : Alike env { env with nested := (commitNested o self env.nested).rest } :=
          ⟨Nat.le_refl _, id, commitNested_within o self _⟩
        dsimp only
        split
        · exact hinner.trans (mdbxTxnAbort_alike _)
        · have hmerged : Alike env { env with
              basal := env.basal.absorb (commitNested o self env.nested).merged
              nested := (commitNested o self env.nested).rest } :=
            ⟨Nat.le_refl _, fun hro => (sameKind_absorb _ _).roNested.trans hro,
              commitNested_within o self _⟩
          exact hmerged.trans (txnCommitBasal_alike _)

theorem mdbxTxnCommitEx_alike (ptr : Option Ptr) :
    Alike env (env.mdbxTxnCommitEx o self ptr).1 := by
  unfold mdbxTxnCommitEx
  split
  · exact .refl _
  · split
    · exact .refl _
    · split
      · exact mdbxTxnAbort_alike _
      · split
        · exact .refl _
        · exact alike_setReader _ _
  · exact commitBasal_alike
  · split
    · exact .refl _
    · rename_i t kids hin
      split
      · exact .refl _
      · split
        · exact .refl _
        · apply alike_joinNested
          rw [hin]
          exact commitNested_within o self _

/-! ### Checkpoint and rollback -/

/-- `txn_nested_checkpoint` makes nothing of the transactions around, and of its own what `after`
makes of it. -/
theorem txnNestedCheckpoint_alike {after : WriteTxn → WriteTxn} {t : WriteTxn}
    {kids : List WriteTxn} (hin : env.inner a = t :: kids)
    (hafter : SameKind t (after t.restarted)) :
    Alike env (env.txnNestedCheckpoint o after a t).1 := by
  unfold txnNestedCheckpoint
  split
  · exact alike_replaceNested (.nil _)
  · split
    · exact alike_joinNested _ (.nil _)
    · apply alike_joinNested
      rw [hin]
      exact .cons hafter (.nil _)

theorem txnBasalCheckpoint_alike {r : MdbxEnv × Code} (h : env.txnBasalCheckpoint o = some r) :
    Alike env r.1 := by
  have hcommit := txnBasalCommit_alike (o := o) env
  unfold txnBasalCheckpoint at h
  dsimp only at h
  split at h
  · cases h
    exact hcommit.trans (txnBasalEnd_alike true)
  · split at h
    · cases h
    · cases h
      exact (hcommit.trans (txnBasalEnd_alike false)).trans (txnBasalRestart_alike _)

theorem checkWriter_alike (t : WriteTxn) (p : Ptr) : Alike env (env.checkWriter self t p).1 := by
  unfold checkWriter
  split
  · exact .refl _
  · split
    · exact breakBasal_alike self env
    · exact .refl _

/-- A transaction that is no read-only one is none after its checkpoint. -/
theorem mdbxTxnCheckpoint_alike {flags : UInt32} {ptr : Option Ptr}
    (hwriter : ∀ p, ptr = some p → env.Kind p false) {r : MdbxEnv × Code}
    (h : env.mdbxTxnCheckpoint o self flags ptr = some r) : Alike env r.1 := by
  unfold mdbxTxnCheckpoint at h
  split at h
  · cases h
    exact .refl _
  · rename_i p
    split at h
    · cases h
      exact .refl _
    · rename_i t hasChild hw
      dsimp only at h
      split at h
      · cases h
        exact .refl _
      · split at h
        · cases h
          exact .refl _
        · split at h
          · cases h
            exact checkWriter_alike t p
          · split at h
            · cases h
              exact .refl _
            · split at h
              · exact txnBasalCheckpoint_alike h
              · rename_i a
                obtain ⟨kids, hin, _⟩ := inner_of_write? hw
                have hro := hwriter _ rfl t (mem_nested_of_inner hin) (inner_addr hin)
                split at h
                · cases h
                  exact .refl _
                · cases h
                  exact txnNestedCheckpoint_alike hin ⟨rfl, hro.symm⟩
              · cases h
                exact .refl _

theorem txnBasalRollback_alike {r : MdbxEnv × Code} (h : env.txnBasalRollback o self = some r) :
    Alike env r.1 := by
  have hend : Alike env (env.txnBasalEnd o false).1 := txnBasalEnd_alike false
  unfold txnBasalRollback at h
  dsimp only at h
  by_cases hcode : ((env.txnBasalEnd o false).2 != Code.success) = true
  · rw [if_pos hcode] at h
    split at h
    · cases h
    · cases h
      exact hend
  · rw [if_neg hcode] at h
    split at h
    · cases h
    · cases h
      exact hend.trans (txnBasalRestart_alike _)

theorem txnNestedRollback_alike {t : WriteTxn} {kids : List WriteTxn}
    (hin : env.inner a = t :: kids) : Alike env (env.txnNestedRollback o a t).1 := by
  have hwith : ∀ u, SameKind t u → Alike env (env.replaceNested a [u]) := by
    intro u htu
    apply alike_replaceNested
    rw [hin]
    exact .cons htu (.nil _)
  unfold txnNestedRollback
  split
  · exact hwith _ ⟨rfl, rfl⟩
  · split
    · exact alike_replaceNested (.nil _)
    · exact hwith _ ⟨rfl, rfl⟩

theorem mdbxTxnRollback_alike {ptr : Option Ptr} {r : MdbxEnv × Code}
    (h : env.mdbxTxnRollback o self ptr = some r) : Alike env r.1 := by
  unfold mdbxTxnRollback at h
  split at h
  · cases h
    exact .refl _
  · cases h
    exact onReader_alike _ _
  · split at h
    · cases h
      exact .refl _
    · rename_i t hasChild hw
      dsimp only at h
      split at h
      · cases h
        exact .refl _
      · split at h
        · cases h
          obtain ⟨kids, hin, _⟩ := inner_of_write? hw
          exact txnNestedRollback_alike hin
        · have herror : Alike env { env with basal := { env.basal with error := true } } :=
            ⟨Nat.le_refl _, id, .refl _⟩
          exact herror.trans (txnBasalRollback_alike h)

/-! ### The change to a reader -/

/-- The transaction at `a` goes on as a read-only one, and the others are as they were. -/
structure TurnedRo (a : Addr) (env env' : MdbxEnv) : Prop where
  brk : env.brk ≤ env'.brk
  basal : env.basal.roNested = false → env'.basal.roNested = false
  turned : ∀ u ∈ env'.nested, u.addr = a → u.roNested = true
  others : ∀ u ∈ env'.nested, u.addr ≠ a → ∃ t ∈ env.nested, SameKind t u

theorem outer_addr {t : WriteTxn} (h : t ∈ env.outer a) : t.addr ≠ a := by
  have := List.mem_takeWhile_imp (p := fun t : WriteTxn => t.addr != a) h
  simpa using this

theorem joinNested_turnedRo (merged : Option WriteTxn) {u : WriteTxn} (haddr : u.addr = a)
    (hro : u.roNested = true) : TurnedRo a env (env.joinNested a merged [u]) := by
  obtain ⟨hbasal, houter⟩ := mergeInto_within merged env.basal (env.outer a)
  refine ⟨Nat.le_refl _, fun h => hbasal.roNested.trans h, ?_, ?_⟩
  · intro v hv hva
    rcases List.mem_append.mp hv with hv | hv
    · obtain ⟨t, ht, htv⟩ := houter v hv
      exact absurd (htv.addr.symm.trans hva) (outer_addr ht)
    · rw [List.mem_singleton.mp hv]
      exact hro
  · intro v hv hva
    rcases List.mem_append.mp hv with hv | hv
    · obtain ⟨t, ht, htv⟩ := houter v hv
      refine ⟨t, ?_, htv⟩
      rw [← env.outer_append_inner a]
      exact List.mem_append_left _ ht
    · rw [List.mem_singleton.mp hv] at hva
      exact absurd haddr hva

/-- How `mdbx_txn_commit_embark_read` ends for the writer at `p`: a null pointer; a failure that
leaves the pointer; a flat reader; or a nested transaction that has become a read-only one. -/
inductive Embarked (p : Ptr) (env env' : MdbxEnv) (code : Code) : Option Ptr → Prop
  | ended : Alike env env' → Embarked p env env' code none
  | failed : Alike env env' → code ≠ Code.success → Embarked p env env' code (some p)
  | reader (a : Addr) : Alike env env' → code = Code.success →
      Embarked p env env' code (some (.reader a))
  | nested (a : Addr) : p = .nested a → TurnedRo a env env' → code = Code.success →
      Embarked p env env' code (some p)

theorem basalEmbarkRead_embarked {r : MdbxEnv × Code × Option Ptr}
    (h : env.basalEmbarkRead o = some r) : Embarked .basal env r.1 r.2.1 r.2.2 := by
  have hcommit := txnBasalCommit_alike (o := o) env
  unfold basalEmbarkRead at h
  dsimp only at h
  split at h
  · cases h
    exact .ended (hcommit.trans (txnBasalEnd_alike true))
  · split at h
    · cases h
    · have hunlocked := (hcommit.trans (txnBasalEnd_alike (o := o) false)).trans
        (txnBasalEnd_alike (o := o) true)
      split at h
      · cases h
        exact .ended hunlocked
      · split at h
        · cases h
          exact .ended hunlocked
        · cases h
          exact .reader _ (hunlocked.trans (alike_allocReader _)) rfl

theorem mdbxTxnCommitEmbarkRead_embarked (hwriter : env.Kind p false)
    (hbasal : env.basal.roNested = false) {r : MdbxEnv × Code × Option Ptr}
    (h : env.mdbxTxnCommitEmbarkRead o self (some p) = some r) :
    Embarked p env r.1 r.2.1 r.2.2 := by
  unfold mdbxTxnCommitEmbarkRead at h
  dsimp only at h
  split at h
  · cases h
    exact .failed (.refl _) (show Code.ebadsign ≠ Code.success by decide)
  · rename_i t hasChild hw
    split at h
    · rename_i hcode
      cases h
      exact .failed (.refl _) (by simpa using hcode)
    · split at h
      · rename_i hcode
        cases h
        exact .failed (checkWriter_alike t p) (by simpa using hcode)
      · split at h
        · -- a writer is no read-only transaction
          rename_i hro
          have hkind := hwriter.readonly? hbasal (b := t.roNested)
          cases p with
          | reader a => cases hw
          | _ =>
            have hsame := hkind (by simp [readonly?, hw])
            rw [hro] at hsame
            cases hsame
        · cases p with
          | basal => exact basalEmbarkRead_embarked h
          | nested a =>
            obtain ⟨kids, hin, _⟩ := inner_of_write? hw
            cases h
            unfold txnNestedCheckpoint
            split
            · rename_i e _
              rw [if_neg (by simpa using e.not_success)]
              exact .ended (alike_replaceNested (.nil _))
            · split
              · rename_i e _
                rw [if_neg (by simpa using e.not_success)]
                exact .ended (alike_joinNested _ (.nil _))
              · rw [if_pos (by simp)]
                have haddr : t.addr = a := inner_addr hin
                exact .nested a rfl (joinNested_turnedRo _ haddr rfl) rfl
          | reader a => cases hw

/-! ### New transactions -/

/-- A transaction has been made, which is a read-only one if and only if `ro`. -/
inductive Makes (ro : Bool) (env env' : MdbxEnv) : Ptr → Prop
  | reader (a : Addr) : ro = true → Alike env env' → Makes ro env env' (.reader a)
  | basal : ro = false → Alike env env' → Makes ro env env' .basal
  | nested (t : WriteTxn) : t.roNested = ro → env' = env.allocNested t →
      Makes ro env env' (.nested env.brk)

/-- `mdbx_txn_begin` fails, or makes a transaction of the kind that the flags ask for. -/
def Begun (ro : Bool) (env : MdbxEnv) (r : MdbxEnv × Code × Option Ptr) : Prop :=
  if r.2.1 = Code.success then ∃ p, r.2.2 = some p ∧ Makes ro env r.1 p else Alike env r.1

theorem begun_failed {ro : Bool} {code : Code} {ptr : Option Ptr} (h : Alike env env')
    (hcode : code ≠ Code.success) : Begun ro env (env', code, ptr) := by
  unfold Begun
  rwa [if_neg hcode]

theorem Begun.cases {ro : Bool} {r : MdbxEnv × Code × Option Ptr} (h : Begun ro env r) :
    (r.2.1 ≠ Code.success ∧ Alike env r.1) ∨
      (r.2.1 = Code.success ∧ ∃ p, r.2.2 = some p ∧ Makes ro env r.1 p) := by
  unfold Begun at h
  by_cases hcode : r.2.1 = Code.success
  · rw [if_pos hcode] at h
    exact .inr ⟨hcode, h⟩
  · rw [if_neg hcode] at h
    exact .inl ⟨hcode, h⟩

theorem beginRo_begun (flags : UInt32) (client : Handle) :
    Begun true env (env.beginRo o flags client) := by
  unfold beginRo
  split
  · exact begun_failed (.refl _) (by decide)
  · split
    · exact begun_failed (.refl _) (by decide)
    · dsimp only
      split
      · rename_i hcode
        exact begun_failed (.refl _) (by simpa using hcode)
      · exact ⟨_, rfl, .reader _ rfl (alike_allocReader _)⟩

theorem beginRw_begun {flags : UInt32} {client : Handle} {r : MdbxEnv × Code × Option Ptr}
    (h : env.beginRw o self flags client = some r) : Begun false env r := by
  unfold beginRw at h
  split at h
  · cases h
    exact begun_failed (.refl _) (by decide)
  · obtain ⟨started, hstart, rfl⟩ := Option.map_eq_some_iff.mp h
    have hlib : Alike env started.1 := by
      unfold txnBasalStart at hstart
      split at hstart
      · cases hstart
        exact .refl _
      · split at hstart
        · split at hstart
          · cases hstart
            exact .refl _
          · cases hstart
        · split at hstart
          · cases hstart
            exact .refl _
          · cases hstart
            have hlocked : Alike env { env with basal := { env.basal with owner := some self } } :=
              ⟨Nat.le_refl _, id, .refl _⟩
            exact hlocked.trans (txnBasalRestart_alike client)
    unfold Begun
    dsimp only
    split
    · rename_i hcode
      exact ⟨.basal, by rw [if_pos (by simpa using hcode)], .basal rfl hlib⟩
    · exact hlib

theorem beginNested_begun (parent : Ptr) (flags : UInt32) (client : Handle) :
    Begun (flags &&& txnRdonly != 0) env (env.beginNested o parent flags client) := by
  unfold beginNested
  split
  · exact begun_failed (.refl _) (by decide)
  · split
    · split
      · refine begun_failed (.refl _) ?_
        split <;> decide
      · exact begun_failed (.refl _) (by decide)
    · dsimp only
      split
      · rename_i hcode
        exact begun_failed (.refl _) (by simpa using hcode)
      · split
        · exact begun_failed (.refl _) (by decide)
        · split
          · rename_i e _
            exact begun_failed (.refl _) e.not_success
          · exact ⟨_, rfl, .nested _ rfl rfl⟩

theorem mdbxTxnBegin_begun {parent : Option Ptr} {flags : UInt32} {client : Handle}
    {r : MdbxEnv × Code × Option Ptr} (h : env.mdbxTxnBegin o self parent flags client = some r) :
    Begun (flags &&& txnRdonly != 0) env r := by
  unfold mdbxTxnBegin at h
  split at h
  · cases h
    exact begun_failed (.refl _) (by decide)
  · split at h
    · cases h
      exact beginNested_begun _ flags client
    · split at h
      · rename_i hro
        cases h
        rw [hro]
        exact beginRo_begun flags client
      · rename_i hrw
        rw [Bool.not_eq_true] at hrw
        rw [hrw]
        exact beginRw_begun h

theorem mdbxTxnClone_begun (client : Handle) (source : Option Ptr) :
    Begun true env (env.mdbxTxnClone o client source) := by
  unfold mdbxTxnClone
  split
  · rename_i hcode
    exact begun_failed (.refl _) (by simpa using hcode)
  · split
    · exact begun_failed (.refl _) (by decide)
    · dsimp only
      split
      · rename_i hcode
        exact begun_failed (.refl _) (by simpa using hcode)
      · exact ⟨_, rfl, .reader _ rfl (alike_allocReader _)⟩

theorem amendStart_alike (flags : UInt32) (ptr : Option Ptr) :
    Alike env (env.amendStart o self flags ptr).1 := by
  unfold amendStart
  split
  · exact .refl _
  · split
    · exact .refl _
    · split
      · split
        · exact .refl _
        · dsimp only
          split
          · exact .refl _
          · split
            · exact .refl _
            · split
              · exact .refl _
              · split
                · exact .refl _
                · split
                  · exact alike_setReader _ _
                  · exact .refl _
      · exact .refl _

theorem amendLocked_begun {flags : UInt32} {client : Handle} {r : MdbxEnv × Code × Option Ptr}
    (h : env.amendLocked o self flags client a = some r) : Begun false env r := by
  unfold amendLocked at h
  split at h
  · cases h
  · split at h
    · split at h
      · cases h
        exact begun_failed (.refl _) (by decide)
      · cases h
    · split at h
      · rename_i e _
        cases h
        exact begun_failed (.refl _) e.not_success
      · split at h
        · cases h
          exact begun_failed (.refl _) (by decide)
        · dsimp only at h
          have hlocked : Alike env { env with basal := { env.basal with owner := some self } } :=
            ⟨Nat.le_refl _, id, .refl _⟩
          have hstart := hlocked.trans (txnBasalRestart_alike (o := o) client)
          split at h
          · rename_i hcode
            cases h
            exact begun_failed hstart (by simpa using hcode)
          · split at h
            · cases h
              exact begun_failed (hstart.trans (txnBasalEnd_alike true)) (by decide)
            · split at h
              · rename_i hcode
                cases h
                exact begun_failed ((hstart.trans (alike_setReader _ _)).trans
                  (txnBasalEnd_alike true)) (by simpa using hcode)
              · cases h
                exact ⟨_, rfl, .basal rfl (hstart.trans (alike_setReader _ _))⟩

end MdbxEnv

end MdbxGo
