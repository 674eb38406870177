import MdbxGo.Mdbx.Amend
import MdbxGo.Mdbx.Alias
import MdbxGo.Mdbx.Snapshot

/-! No two `Txn` values have one reader, so that what is done through other `Txn` values leaves the
reader of a `Txn` alone. -/

namespace MdbxGo

namespace World

open MdbxEnv

variable {w w' : World} {o : Sys} {g : Gor} {self : Thread} {call : Call} {h k : Handle} {a : Addr}
  {r : ReadTxn}

/-- The `Txn` values that an event may change: those that a call uses, and the one that an `Amend`
has waited for. -/
def touches (w : World) : Event → List Handle
  | .go g _ _ call =>
    w.uses g call ++
      match call with
      | .amendLocked => ((w.frames g).head?.map (·.txn)).toList
      | _ => []
  | _ => []

/-- No two `Txn` values have one reader, and the reader that a goroutine amends is that of the
`Txn` that it amends. -/
structure Separate (w : World) : Prop where
  below : ∀ h a, (w.txns h).ptr = some (.reader a) → a < w.lib.brk
  unique : ∀ h k a, (w.txns h).ptr = some (.reader a) → (w.txns k).ptr = some (.reader a) → h = k
  amending : ∀ g, ∀ f ∈ w.frames g, ∀ flags a, f.kind = .amending flags →
    f.ptr = some (.reader a) →
    a < w.lib.brk ∧ ∀ k, (w.txns k).ptr = some (.reader a) → k = f.txn

/-! ### Where a pointer to a reader comes from -/

/-- A call on a `Txn` leaves it the pointer to its reader, or gives it one that is new. -/
theorem Own.readerPtr (own : Own o g self call h w w')
    (hp : (w'.txns h).ptr = some (.reader a)) :
    (w.txns h).ptr = some (.reader a) ∨ a = w.lib.brk ∧ w.lib.brk < w'.lib.brk := by
  cases own with
  | kept _ hsame => exact .inl (hsame.ptr ▸ hp)
  | rolledBack _ _ _ htxn => exact .inl (by rwa [htxn] at hp)
  | committed _ _ _ _ htxn =>
    rw [htxn] at hp
    cases hp
  | aborted _ _ _ htxn =>
    rw [htxn] at hp
    cases hp
  | checkpointed _ _ _ htxn =>
    rw [htxn] at hp
    split at hp
    · exact .inl hp
    · cases hp
  | embarked _ _ hlib hptr _ _ _ =>
    rw [hptr] at hp
    split at hp
    · cases hp
    · cases hq : (w.txns h).ptr with
      | none =>
        rw [hq] at hlib
        have hnull : none = some (Ptr.reader a) :=
          (congrArg (·.2.2) (Option.some.inj hlib)).trans hp
        cases hnull
      | some q =>
        rw [hq] at hlib
        rcases mdbxTxnCommitEmbarkRead_ptr hlib hp with ⟨rfl, _⟩ | ⟨hnew, hlt, _⟩
        · exact .inl rfl
        · cases hnew
          exact .inr ⟨rfl, hlt⟩

/-- A step gives at most one `Txn` a pointer to a reader, and that one is new. -/
theorem Act.readerPtr (act : Act o g self call w w') :
    ∃ m, ∀ k a, (w'.txns k).ptr = some (.reader a) →
      (w.txns k).ptr = some (.reader a) ∨ k = m ∧ a = w.lib.brk ∧ w.lib.brk < w'.lib.brk := by
  cases act with
  | through h _ ht =>
    refine ⟨h, fun k a hp => ?_⟩
    by_cases hk : k = h
    · subst hk
      exact (ht.own.readerPtr hp).imp_right fun hnew => ⟨rfl, hnew⟩
    · exact .inl (by rwa [ht.others k hk] at hp)
  | refused _ _ htxns _ _ => exact ⟨0, fun k a hp => .inl (by rwa [htxns] at hp)⟩
  | began _ hbegan hm hother =>
    refine ⟨w.next, fun k a hp => ?_⟩
    by_cases hk : k = w.next
    · subst hk
      rw [hm.ptr] at hp
      cases hbegan with
      | reader _ _ _ _ hlib =>
        cases hp
        exact .inr ⟨rfl, rfl, hlib ▸ Nat.lt_succ_self _⟩
      | basal _ _ _ => cases hp
      | nested _ _ _ _ _ _ _ _ _ _ _ => cases hp
    · exact .inl (by rwa [hother k hk] at hp)
  | cloned _ hlib hm hother =>
    refine ⟨w.next, fun k a hp => ?_⟩
    by_cases hk : k = w.next
    · subst hk
      rw [hm.ptr] at hp
      cases hp
      exact .inr ⟨rfl, rfl, hlib ▸ Nat.lt_succ_self _⟩
    · exact .inl (by rwa [hother k hk] at hp)
  | tooOld _ _ _ htxns _ _ => exact ⟨0, fun k a hp => .inl (by rwa [htxns] at hp)⟩
  | @amended h b flags _ _ _ _ hm hother hself =>
    refine ⟨0, fun k a hp => .inl ?_⟩
    by_cases hk : k = w.next
    · subst hk
      rw [hm.ptr] at hp
      cases hp
    · by_cases hkh : k = h
      · subst hkh
        rw [hself hk] at hp
        split at hp
        · cases hp
        · exact hp
      · rwa [hother k hk hkh] at hp

theorem Act.brk (ok : w.lib.Ok) (act : Act o g self call w w') : w.lib.brk ≤ w'.lib.brk := by
  by_contra hlt
  exact absurd (act.clients ok (Nat.lt_of_not_le hlt)).1 (Nat.lt_irrefl _)

theorem exec_separate (ok : w.lib.Ok) (separate : w.Separate) {r : World × Reply}
    (hr : w.exec o g self call = some r) : r.1.Separate := by
  have act := exec_act ok hr
  have hbrk := act.brk ok
  obtain ⟨m, hold⟩ := act.readerPtr
  refine ⟨fun k a hp => ?_, fun h k a hh hk => ?_, fun g' f hf flags a hkind hptr => ?_⟩
  · rcases hold k a hp with hp | ⟨_, rfl, hlt⟩
    · exact Nat.lt_of_lt_of_le (separate.below k a hp) hbrk
    · exact hlt
  · rcases hold h a hh with hh | ⟨rfl, rfl, _⟩
    · rcases hold k a hk with hk | ⟨_, rfl, _⟩
      · exact separate.unique h k a hh hk
      · exact absurd (separate.below h _ hh) (Nat.lt_irrefl _)
    · rcases hold k w.lib.brk hk with hk | ⟨rfl, _, _⟩
      · exact absurd (separate.below k _ hk) (Nat.lt_irrefl _)
      · rfl
  · rcases (exec_stacked hr).mem hf with hf | ⟨kind, h, hpush, rfl, rfl, hptr', _⟩
    · obtain ⟨hlt, honly⟩ := separate.amending g' f hf flags a hkind hptr
      refine ⟨Nat.lt_of_lt_of_le hlt hbrk, fun k hk => ?_⟩
      rcases hold k a hk with hk | ⟨_, rfl, _⟩
      · exact honly k hk
      · exact absurd hlt (Nat.lt_irrefl _)
    · rw [hkind] at hpush
      cases hpush with
      | amend _ htxns _ =>
        rw [hptr', htxns] at hptr
        refine ⟨Nat.lt_of_lt_of_le (separate.below _ a hptr) hbrk, fun k hk => ?_⟩
        rw [htxns] at hk
        exact separate.unique k _ a hk hptr

theorem step_separate (ok : w.lib.Ok) (separate : w.Separate) {e : Event} {r : World × Reply}
    (hr : w.step e = some r) : r.1.Separate := by
  rcases step_cases hr with ⟨g, self, o, call, _, _, _, hexec⟩ | ⟨a, x, _, _, rfl⟩ |
    ⟨txnid, changes, _, _, _, _, rfl⟩ | ⟨_, rfl⟩
  · exact exec_separate ok separate hexec
  · exact ⟨separate.below, separate.unique, separate.amending⟩
  · exact ⟨separate.below, separate.unique, separate.amending⟩
  · exact ⟨separate.below, separate.unique, separate.amending⟩

theorem init_separate (h : system.init w) : w.Separate := by
  obtain ⟨_, htxns, hframes, _⟩ := h
  constructor
  · simp [htxns]
  · simp [htxns]
  · simp [hframes]

/-! ### What happens elsewhere -/

/-- An event that does not touch `h` leaves it alone, and its reader, unless a writer ousts it. -/
theorem step_untouched (ok : w.lib.Ok) (separate : w.Separate) {e : Event} {x : World × Reply}
    (hr : w.step e = some x) (hknown : h < w.next) (htouch : h ∉ w.touches e)
    (hp : (w.txns h).ptr = some (.reader a)) (ha : w.lib.readers a = some r) :
    x.1.txns h = w.txns h ∧ (x.1.lib.readers a = some r ∨ x.1.lib.readers a = some r.oust) := by
  rcases step_cases hr with ⟨g, self, o, call, rfl, _, _, hexec⟩ | ⟨b, y, rfl, hy, rfl⟩ |
    ⟨txnid, changes, _, _, _, _, rfl⟩ | ⟨_, rfl⟩
  · have act := exec_act ok hexec
    have huses : ∀ k ∈ w.uses g call, k ≠ h := by
      rintro k hk rfl
      exact htouch (List.mem_append_left _ hk)
    have hamend : ∀ flags k b, call = .amendLocked → w.Amending g flags k b → k ≠ h ∧ b ≠ a := by
      rintro flags k b rfl ⟨f, fs, hframes, hkind, rfl, hptr⟩
      have hne : f.txn ≠ h := by
        rintro rfl
        exact htouch (List.mem_append_right _ (by simp [hframes]))
      refine ⟨hne, ?_⟩
      rintro rfl
      have honly := (separate.amending g f (hframes ▸ List.mem_cons_self) flags b hkind hptr).2
      exact hne (honly h hp).symm
    refine ⟨?_, .inl ?_⟩
    · exact act.txn_elsewhere hknown huses fun flags k b hcall hwait =>
        (hamend flags k b hcall hwait).1
    · refine act.reader_elsewhere ok ha (fun k hk hkp => ?_) fun flags k b hcall hwait =>
        (hamend flags k b hcall hwait).2
      exact huses k hk (separate.unique k h a hkp hp)
  · refine ⟨rfl, ?_⟩
    dsimp only
    by_cases hb : a = b
    · subst hb
      rw [ha] at hy
      cases hy
      exact .inr (setReader_self _ _ _)
    · exact .inl ((setReader_other hb _).trans ha)
  · exact ⟨rfl, .inl ha⟩
  · exact ⟨rfl, .inl ha⟩

/-! ### The life of a reader -/

/-- The `Txn` values that an event may end: the one of a call that ends it, when nothing refuses
it, and the one that an `Amend` has waited for. -/
def concludes (w : World) : Event → List Handle
  | .go g self _ call =>
    ((w.ends g call).filter fun h => !w.refuses self h call).toList ++
      match call with
      | .amendLocked => ((w.frames g).head?.map (·.txn)).toList
      | _ => []
  | _ => []

/-- A read-only `Txn` whose reader at `a` is live in libmdbx: nobody has aborted it. -/
structure Live (w : World) (h : Handle) (a : Addr) : Prop where
  ptr : (w.txns h).ptr = some (.reader a)
  reader : (w.lib.readers a).isSome = true
  readonly : (w.txns h).readonly = true

theorem Own.live (own : Own o g self call h w w') (live : w.Live h a)
    (hends : ∀ k, w.ends g call = some k → w.refuses self k call = false → k ≠ h) :
    (w'.txns h).ptr = some (.reader a) ∧ (w'.lib.readers a).isSome = true := by
  obtain ⟨hp, hreader, hreadonly⟩ := live
  have hrefused : ∀ (hcall : call = .rollback h ∨ (∃ flags, call = .checkpoint h flags) ∨
      call = .commitEmbarkRead h), w.refuses self h call ≠ false := by
    rintro (rfl | ⟨flags, rfl⟩ | rfl) <;> simp [refuses, hreadonly]
  cases own with
  | kept hlib hsame =>
    refine ⟨hsame.ptr.trans hp, ?_⟩
    rw [hp] at hlib
    have hlib : Local (.reader a) w.lib w'.lib := hlib
    generalize w'.lib = lib at hlib
    cases hlib with
    | refl => exact hreader
    | reader r' hq _ _ =>
      cases hq
      rw [setReader_self]
      rfl
    | write hw _ _ => cases hw
  | rolledBack hcall href _ _ => exact absurd href (hrefused (.inl hcall))
  | committed _ hend href _ _ => exact absurd rfl (hends h hend href)
  | aborted hend href _ _ => exact absurd rfl (hends h hend href)
  | checkpointed hcall href _ _ => exact absurd href (hrefused (.inr (.inl ⟨_, hcall⟩)))
  | embarked hcall href _ _ _ _ _ => exact absurd href (hrefused (.inr (.inr hcall)))

/-- An event that does not end `h` leaves its reader live. -/
theorem step_live (ok : w.lib.Ok) (separate : w.Separate) {e : Event} {x : World × Reply}
    (hr : w.step e = some x) (hknown : h < w.next) (live : w.Live h a)
    (hnot : h ∉ w.concludes e) : x.1.Live h a := by
  rcases step_cases hr with ⟨g, self, o, call, rfl, _, _, hexec⟩ | ⟨b, y, rfl, hy, rfl⟩ |
    ⟨txnid, changes, _, _, _, _, rfl⟩ | ⟨_, rfl⟩
  · have act := exec_act ok hexec
    have hreadonly := (exec_marked hexec hknown).readonly live.readonly
    obtain ⟨r, hreader⟩ := Option.isSome_iff_exists.mp live.reader
    have hamend : ∀ flags k b, call = .amendLocked → w.Amending g flags k b → k ≠ h ∧ b ≠ a := by
      rintro flags k b rfl ⟨f, fs, hframes, hkind, rfl, hptr⟩
      have hne : f.txn ≠ h := by
        rintro rfl
        exact hnot (List.mem_append_right _ (by simp [hframes]))
      refine ⟨hne, ?_⟩
      rintro rfl
      have honly := (separate.amending g f (hframes ▸ List.mem_cons_self) flags b hkind hptr).2
      exact hne (honly h live.ptr).symm
    have hends : ∀ k, w.ends g call = some k → w.refuses self k call = false → k ≠ h := by
      rintro k hend href rfl
      exact hnot (List.mem_append_left _ (by simp [hend, href]))
    rcases act.reader_or_through ok hreader fun flags k b hcall hwait =>
      (hamend flags k b hcall hwait).2 with hsame | ⟨k, hk, hp, ht⟩
    · refine ⟨?_, by rw [hsame]; rfl, hreadonly⟩
      cases act with
      | through k hk ht =>
        by_cases hkh : h = k
        · subst hkh
          exact (ht.own.live live hends).1
        · rw [ht.others h hkh]
          exact live.ptr
      | refused _ _ htxns _ _ => exact htxns ▸ live.ptr
      | began _ _ _ hother => exact (hother h (Nat.ne_of_lt hknown)) ▸ live.ptr
      | cloned _ _ _ hother => exact (hother h (Nat.ne_of_lt hknown)) ▸ live.ptr
      | tooOld _ _ _ htxns _ _ => exact htxns ▸ live.ptr
      | amended hcall hwait _ _ hother _ =>
        rw [hother h (Nat.ne_of_lt hknown) (hamend _ _ _ hcall hwait).1.symm]
        exact live.ptr
    · obtain rfl := separate.unique k h a hp live.ptr
      obtain ⟨hptr, hlive⟩ := ht.own.live live hends
      exact ⟨hptr, hlive, hreadonly⟩
  · refine ⟨live.ptr, ?_, live.readonly⟩
    dsimp only
    by_cases hb : a = b
    · subst hb
      rw [setReader_self]
      rfl
    · rw [setReader_other hb]
      exact live.reader
  · exact ⟨live.ptr, live.reader, live.readonly⟩
  · exact ⟨live.ptr, live.reader, live.readonly⟩

/-- A reader that was freed stays so: its memory is not given to another. -/
theorem step_freed (ok : w.lib.Ok) {e : Event} {x : World × Reply} (hr : w.step e = some x)
    (ha : a < w.lib.brk) :
    a < x.1.lib.brk ∧ (w.lib.readers a = none → x.1.lib.readers a = none) := by
  rcases step_cases hr with ⟨g, self, o, call, rfl, _, _, hexec⟩ | ⟨b, y, rfl, hy, rfl⟩ |
    ⟨txnid, changes, _, _, _, _, rfl⟩ | ⟨_, rfl⟩
  · obtain ⟨hbrk, hclient⟩ := (exec_act ok hexec).clients ok ha
    refine ⟨hbrk, fun hfree => ?_⟩
    by_contra hsome
    obtain ⟨r, hr⟩ := Option.ne_none_iff_exists'.mp hsome
    obtain ⟨r₀, hr₀, _⟩ := hclient r hr
    rw [hfree] at hr₀
    cases hr₀
  · refine ⟨ha, fun hfree => ?_⟩
    have hne : a ≠ b := by
      rintro rfl
      rw [hfree] at hy
      cases hy
    exact (setReader_other hne _).trans hfree
  · exact ⟨ha, fun hfree => hfree⟩
  · exact ⟨ha, fun hfree => hfree⟩

end World

end MdbxGo
