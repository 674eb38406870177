import Mathlib.Data.List.TakeWhile
import MdbxGo.Libmdbx.Restart
import MdbxGo.Remains

/-! What a call of libmdbx through one pointer can do to the transactions of the environment: those
outside the one at the pointer stay as they are, and the others are left, changed or ended. -/

namespace MdbxGo

namespace WriteTxn

variable {t u v : WriteTxn}

/-- Only a dirty transaction has changes. -/
def Clean (t : WriteTxn) : Prop := t.dirty = false → t.changes = []

/-- The transaction without its changes. -/
def core (t : WriteTxn) : WriteTxn := { t with dirty := false, changes := [] }

/-- `u` is what has become of the nested transaction `t`. -/
structure Keeps (t u : WriteTxn) : Prop where
  addr : u.addr = t.addr
  client : u.client = t.client
  owner : u.owner = t.owner
  txnid : u.txnid = t.txnid
  finished : t.finished = true → u.finished = true
  clean : t.Clean → u.Clean

theorem Keeps.refl (t : WriteTxn) : t.Keeps t := ⟨rfl, rfl, rfl, rfl, id, id⟩

theorem Keeps.trans (h : t.Keeps u) (h' : u.Keeps v) : t.Keeps v where
  addr := h'.addr.trans h.addr
  client := h'.client.trans h.client
  owner := h'.owner.trans h.owner
  txnid := h'.txnid.trans h.txnid
  finished := h'.finished ∘ h.finished
  clean := h'.clean ∘ h.clean

theorem Keeps.remains (l : List WriteTxn) : Remains Keeps l l := Remains.refl Keeps.refl l

@[simp] theorem core_addr (t : WriteTxn) : t.core.addr = t.addr := rfl

@[simp] theorem core_finished (t : WriteTxn) : t.core.finished = t.finished := rfl

@[simp] theorem core_client (t : WriteTxn) : t.core.client = t.client := rfl

@[simp] theorem core_txnid (t : WriteTxn) : t.core.txnid = t.txnid := rfl

@[simp] theorem core_absorb (t : WriteTxn) (merged : Option WriteTxn) :
    (t.absorb merged).core = t.core := by
  cases merged <;> rfl

@[simp] theorem absorb_finished (t : WriteTxn) (merged : Option WriteTxn) :
    (t.absorb merged).finished = t.finished := by
  cases merged <;> rfl

@[simp] theorem absorb_addr (t : WriteTxn) (merged : Option WriteTxn) :
    (t.absorb merged).addr = t.addr := by
  cases merged <;> rfl

theorem Clean.absorb (ht : t.Clean) {merged : Option WriteTxn}
    (hm : ∀ m, merged = some m → m.Clean) : (t.absorb merged).Clean := by
  cases merged with
  | none => exact ht
  | some m =>
    intro hdirty
    simp only [WriteTxn.absorb, Bool.or_eq_false_iff] at hdirty
    simp only [WriteTxn.absorb]
    rw [ht hdirty.1, hm m rfl hdirty.2, List.append_nil]

theorem keeps_absorb {merged : Option WriteTxn} (hm : ∀ m, merged = some m → m.Clean) :
    t.Keeps (t.absorb merged) := by
  refine ⟨?_, ?_, ?_, ?_, ?_, fun ht => ht.absorb hm⟩ <;> cases merged <;> simp [WriteTxn.absorb]

theorem keeps_error (b : Bool) : t.Keeps { t with error := b } := ⟨rfl, rfl, rfl, rfl, id, id⟩

theorem clean_of_nil (h : t.changes = []) : t.Clean := fun _ => h

/-! ### The transactions nested in each other -/

theorem breakAll_remains (self : Thread) (l : List WriteTxn) :
    Remains Keeps l (breakAll self l) := by
  induction l with
  | nil => exact .cut []
  | cons t kids ih =>
    unfold breakAll
    split
    · exact Keeps.remains _
    · exact .cons (keeps_error true) ih

theorem abortNested_remains (self : Thread) (l : List WriteTxn) :
    Remains Keeps l (abortNested self l).1 := by
  cases l with
  | nil => exact .cut []
  | cons t kids =>
    simp only [abortNested]
    split
    · exact Keeps.remains _
    · split
      · exact breakAll_remains self _
      · exact .cut _

theorem txnCommitNested_rest (o : Sys) (t : WriteTxn) : (txnCommitNested o t).rest = [] := by
  unfold txnCommitNested
  split
  · rfl
  · split <;> rfl

theorem txnCommitNested_merged {o : Sys} {t m : WriteTxn}
    (h : (txnCommitNested o t).merged = some m) : m = t := by
  unfold txnCommitNested at h
  split at h
  · cases h
  · split at h
    · cases h
    · exact (Option.some.inj h).symm

theorem commitNested_remains (o : Sys) (self : Thread) (l : List WriteTxn) :
    Remains Keeps l (commitNested o self l).rest := by
  induction l with
  | nil => exact .cut []
  | cons t kids ih =>
    unfold commitNested
    split
    · exact Keeps.remains _
    · dsimp only
      split
      · exact (Remains.cons (Keeps.refl t) ih).trans (fun _ _ _ => Keeps.trans)
          (abortNested_remains self _)
      · rw [txnCommitNested_rest]
        exact .cut _

theorem commitNested_rest_of_success {o : Sys} {self : Thread} {l : List WriteTxn}
    (h : (commitNested o self l).code = Code.success) : (commitNested o self l).rest = [] := by
  cases l with
  | nil => rfl
  | cons t kids =>
    unfold commitNested at h ⊢
    split
    · rename_i hfin
      rw [if_pos hfin] at h
      exact absurd (show Code.badTxn = Code.success from h) (by decide)
    · rename_i hfin
      rw [if_neg hfin] at h
      dsimp only at h ⊢
      split
      · rename_i hcode
        rw [if_pos hcode] at h
        exact absurd h (by simpa using hcode)
      · exact txnCommitNested_rest o _

theorem commitNested_clean {o : Sys} {self : Thread} {l : List WriteTxn}
    (hl : ∀ t ∈ l, t.Clean) {m : WriteTxn} (h : (commitNested o self l).merged = some m) :
    m.Clean := by
  induction l generalizing m with
  | nil => cases h
  | cons t kids ih =>
    unfold commitNested at h
    split at h
    · cases h
    · dsimp only at h
      split at h
      · cases h
      · rw [txnCommitNested_merged h]
        exact (hl t List.mem_cons_self).absorb fun m' hm' =>
          ih (fun u hu => hl u (List.mem_cons_of_mem t hu)) hm'

end WriteTxn

namespace MdbxEnv

open WriteTxn

variable {env env' : MdbxEnv}

/-- What holds of the environment whatever its writer does. -/
structure Base (env : MdbxEnv) : Prop where
  freshReader : ∀ a, env.brk ≤ a → env.readers a = none
  bounded : env.recent ≤ maxTxnid

/-- What holds of the environment between two calls. -/
structure Ok (env : MdbxEnv) : Prop extends env.Base where
  ended : env.basal.finished = true → env.nested = []
  owner : env.basal.owner.isNone = env.basal.finished
  owners : ∀ t ∈ env.nested, t.owner = env.basal.owner
  clean : env.basal.Clean
  cleanNested : ∀ t ∈ env.nested, t.Clean
  fresh : ∀ t ∈ env.nested, t.addr < env.brk
  next : env.basal.finished = false →
    env.basal.txnid = env.recent + 1 ∧ env.basal.txnid ≤ maxTxnid

/-- The write transaction at a pointer. -/
def txnAt (env : MdbxEnv) : Ptr → Option WriteTxn
  | .basal => some env.basal
  | .nested a => env.nested.find? (·.addr == a)
  | .reader _ => none

theorem writes_of_txnAt {p : Ptr} {t : WriteTxn} (h : env.txnAt p = some t) : p.writes = true := by
  cases p with
  | reader a => cases h
  | _ => rfl

@[simp] theorem txnAt_setReader (env : MdbxEnv) (a : Addr) (r : Option ReadTxn) (q : Ptr) :
    (env.setReader a r).txnAt q = env.txnAt q := by
  cases q <;> rfl

@[simp] theorem txnAt_allocReader (env : MdbxEnv) (r : ReadTxn) (q : Ptr) :
    (env.allocReader r).txnAt q = env.txnAt q := by
  cases q <;> rfl

/-- The transaction at `q` is the one at `p` or one that is nested in it. -/
def Inside (env : MdbxEnv) : Ptr → Ptr → Prop
  | .basal, .basal => True
  | .basal, .nested _ => True
  | .nested a, .nested b => ∃ t ∈ env.inner a, t.addr = b
  | _, _ => False

instance (env : MdbxEnv) : (p q : Ptr) → Decidable (env.Inside p q)
  | .basal, .basal => .isTrue trivial
  | .basal, .nested _ => .isTrue trivial
  | .nested a, .nested b => inferInstanceAs (Decidable (∃ t ∈ env.inner a, t.addr = b))
  | .basal, .reader _ | .nested _, .basal | .nested _, .reader _ | .reader _, .basal
  | .reader _, .nested _ | .reader _, .reader _ => .isFalse fun h => h

/-- What a call through `p` may do. -/
structure Effect (p : Ptr) (env env' : MdbxEnv) : Prop where
  brk : env.brk ≤ env'.brk
  readers : ∀ a, p ≠ .reader a → a < env.brk → env'.readers a = env.readers a
  clients : ∀ a r, a < env.brk → env'.readers a = some r →
    ∃ r₀, env.readers a = some r₀ ∧ r.client = r₀.client
  outside : ∀ q t, ¬ env.Inside p q → env.txnAt q = some t → ∃ m, env'.txnAt q = some (t.absorb m)
  basal : env'.basal.finished = false → env.basal.finished = false ∧
    env'.basal.client = env.basal.client ∧ env'.basal.owner = env.basal.owner
  nested : Remains Keeps env.nested env'.nested
  fatal : env.fatal = true → env'.fatal = true
  ok : env'.Ok

theorem outer_append_inner (env : MdbxEnv) (a : Addr) :
    env.outer a ++ env.inner a = env.nested :=
  List.takeWhile_append_dropWhile

theorem find?_eq_head?_inner (env : MdbxEnv) (a : Addr) :
    env.nested.find? (·.addr == a) = (env.inner a).head? :=
  List.find?_eq_head?_dropWhile_not _ _

theorem inner_addr {a : Addr} {t : WriteTxn} {kids : List WriteTxn} (h : env.inner a = t :: kids) :
    t.addr = a := by
  have hf := env.find?_eq_head?_inner a
  rw [h, List.head?_cons] at hf
  simpa using List.find?_some hf

theorem inner_of_write? {a : Addr} {t : WriteTxn} {hasChild : Bool}
    (h : env.write? (.nested a) = some (t, hasChild)) :
    ∃ kids, env.inner a = t :: kids ∧ hasChild = !kids.isEmpty := by
  simp only [write?] at h
  split at h
  · cases h
  · rename_i u kids hin
    cases h
    exact ⟨kids, hin, rfl⟩

theorem txnAt_of_write? {p : Ptr} {t : WriteTxn} {hasChild : Bool}
    (h : env.write? p = some (t, hasChild)) : env.txnAt p = some t := by
  cases p with
  | basal => simp_all [write?, txnAt]
  | nested a =>
    simp only [txnAt]
    rw [find?_eq_head?_inner]
    simp only [write?] at h
    split at h
    · cases h
    · rename_i hin
      rw [hin]
      simp_all
  | reader a => simp [write?] at h

/-! ### Merging and replacing nested transactions -/

theorem mergeInto_core (merged : Option WriteTxn) (t : WriteTxn) (l : List WriteTxn) :
    (mergeInto merged t l).1.core = t.core ∧ (mergeInto merged t l).2.map core = l.map core := by
  induction l generalizing t with
  | nil => exact ⟨core_absorb t merged, rfl⟩
  | cons u l ih => exact ⟨rfl, by simp [mergeInto, ih u]⟩

theorem mergeInto_remains {merged : Option WriteTxn} (hm : ∀ m, merged = some m → m.Clean)
    (t : WriteTxn) (l : List WriteTxn) :
    Remains Keeps (t :: l) ((mergeInto merged t l).1 :: (mergeInto merged t l).2) := by
  induction l generalizing t with
  | nil => exact .cons (keeps_absorb hm) (.cut [])
  | cons u l ih => exact .cons (Keeps.refl t) (ih u)

theorem mergeInto_absorbs (merged : Option WriteTxn) (t : WriteTxn) (l : List WriteTxn) :
    List.Forall₂ (fun x y => ∃ m, y = x.absorb m) (t :: l)
      ((mergeInto merged t l).1 :: (mergeInto merged t l).2) := by
  induction l generalizing t with
  | nil => exact .cons ⟨merged, rfl⟩ .nil
  | cons u l ih => exact .cons ⟨none, rfl⟩ (ih u)

theorem mergeInto_none (t : WriteTxn) (l : List WriteTxn) : mergeInto none t l = (t, l) := by
  induction l generalizing t with
  | nil => rfl
  | cons u l ih => simp [mergeInto, ih u]

theorem replaceNested_eq_joinNested (env : MdbxEnv) (a : Addr) (l : List WriteTxn) :
    env.replaceNested a l = env.joinNested a none l := by
  simp [replaceNested, joinNested, mergeInto_none]

/-- What `joinNested` leaves of the nested transactions. -/
theorem joinNested_remains {a : Addr} {merged : Option WriteTxn} {rest : List WriteTxn}
    (hm : ∀ m, merged = some m → m.Clean) (hrest : Remains Keeps (env.inner a) rest) :
    Remains Keeps (env.basal :: env.nested)
      ((env.joinNested a merged rest).basal :: (env.joinNested a merged rest).nested) := by
  rw [← env.outer_append_inner a, ← List.cons_append]
  refine (mergeInto_remains hm env.basal (env.outer a)).append ?_ hrest
  have hlen := congrArg List.length (mergeInto_core merged env.basal (env.outer a)).2
  simpa using hlen.symm

theorem find?_core {l m : List WriteTxn} (h : l.map core = m.map core) (b : Addr) :
    (l.find? (·.addr == b)).map core = (m.find? (·.addr == b)).map core := by
  have hl : ∀ k : List WriteTxn,
      (k.find? (·.addr == b)).map core = (k.map core).find? (·.addr == b) := by
    intro k
    rw [List.find?_map]
    rfl
  rw [hl, hl, h]

theorem find?_none_of_addr {l : List WriteTxn} {b : Addr} (h : ∀ t ∈ l, t.addr ≠ b) :
    l.find? (·.addr == b) = none := by
  rw [List.find?_eq_none]
  intro t ht
  simpa using h t ht

theorem Effect.refl {p : Ptr} (ok : env.Ok) : Effect p env env where
  brk := Nat.le_refl _
  readers _ _ _ := rfl
  clients _ r _ hr := ⟨r, hr, rfl⟩
  outside _ _ _ ht := ⟨none, ht⟩
  basal h := ⟨h, rfl, rfl⟩
  nested := Keeps.remains _
  fatal h := h
  ok := ok

/-- Ok carries over when the basal transaction and what remains of the nested ones keep what they
were. -/
theorem Ok.of_remains (ok : env.Ok)
    (h : Remains Keeps (env.basal :: env.nested) (env'.basal :: env'.nested))
    (hfin : env'.basal.finished = env.basal.finished) (hbrk : env'.brk = env.brk)
    (hreaders : env'.readers = env.readers) (hrecent : env'.recent = env.recent) : env'.Ok := by
  cases h with
  | cons hb hn =>
    refine ⟨⟨?_, ?_⟩, ?_, ?_, ?_, hb.clean ok.clean, ?_, ?_, ?_⟩
    · rw [hbrk, hreaders]
      exact ok.freshReader
    · rw [hrecent]
      exact ok.bounded
    · intro hf
      rw [ok.ended (hfin ▸ hf)] at hn
      exact hn.of_nil
    · rw [hb.owner, hfin]
      exact ok.owner
    · intro u hu
      obtain ⟨t, ht, hk⟩ := hn.mem hu
      rw [hk.owner, hb.owner]
      exact ok.owners t ht
    · intro u hu
      obtain ⟨t, ht, hk⟩ := hn.mem hu
      exact hk.clean (ok.cleanNested t ht)
    · intro u hu
      obtain ⟨t, ht, hk⟩ := hn.mem hu
      rw [hk.addr, hbrk]
      exact ok.fresh t ht
    · intro hf
      rw [hb.txnid, hrecent]
      exact ok.next (hfin ▸ hf)

/-- A call on a nested transaction that merges into the one around it, and leaves `rest` of it and
of those nested in it. -/
theorem effect_joinNested (ok : env.Ok) {a : Addr} {merged : Option WriteTxn}
    {rest : List WriteTxn} (hm : ∀ m, merged = some m → m.Clean)
    (hrest : Remains Keeps (env.inner a) rest) :
    Effect (.nested a) env (env.joinNested a merged rest) := by
  have habsorbs := mergeInto_absorbs merged env.basal (env.outer a)
  have hremains := joinNested_remains hm hrest
  have hfin : (env.joinNested a merged rest).basal.core.finished = env.basal.core.finished :=
    congrArg WriteTxn.finished (mergeInto_core merged env.basal (env.outer a)).1
  refine ⟨Nat.le_refl _, fun _ _ _ => rfl, fun _ r _ hr => ⟨r, hr, rfl⟩, ?_, ?_, ?_, fun h => h, ?_⟩
  · intro q t hq ht
    cases q with
    | reader b => cases ht
    | basal =>
      cases ht
      cases habsorbs with
      | cons hb _ =>
        obtain ⟨m, hb⟩ := hb
        exact ⟨m, congrArg some hb⟩
    | nested b =>
      have hin : ∀ u ∈ env.inner a, u.addr ≠ b := fun u hu hb => hq ⟨u, hu, hb⟩
      simp only [txnAt, joinNested] at ht ⊢
      rw [← env.outer_append_inner a, List.find?_append, find?_none_of_addr hin,
        Option.or_none] at ht
      cases habsorbs with
      | cons _ hl =>
        obtain ⟨_, hfind, m, rfl⟩ := Remains.find?_forall₂
          (fun x y ⟨m, hy⟩ => by rw [hy, absorb_addr]) hl ht
        exact ⟨m, by rw [List.find?_append, hfind, Option.some_or]⟩
  · intro hf
    cases hremains with
    | cons hb _ => exact ⟨hfin ▸ hf, hb.client, hb.owner⟩
  · cases hremains with
    | cons _ hn => exact hn
  · exact ok.of_remains hremains hfin rfl rfl rfl

end MdbxEnv

end MdbxGo
