import MdbxGo.Mdbxpool.Account

/-! `Close` and the goroutines of `handleIdle` that still run: when every reader is aborted in the
end. -/

namespace MdbxGo

namespace TxnPool

open Threads Transition MdbxEnv World

variable {cfg : Config} {s s' : TxnPool} {i j k n : Nat} {t t' u : Goroutine} {c : Choice}
  {new : List Goroutine} {w w' : World} {txn h : Handle} {a a' : At} {o : Sys} {thread : Thread}
  {q q' : Threads TxnPool Goroutine} {e : Threads.Event Entry Choice}

/-- The call of the pool has returned; only `handleIdle` may still run. -/
def At.settled : At → Bool
  | .app | .returned | .commitID _ .returned => true
  | .enterIdle | .getIdle _ | .putBack _ _ | .putFresh _ | .leaveIdle => true
  | .id .handleIdle _ | .getLastID .handleIdle _ _ | .handleReadonly .handleIdle _
  | .renewStale .handleIdle _ | .abortStale .handleIdle _ => true
  | _ => false

/-- The places of `Close`. -/
def At.closes : At → Bool
  | .close | .closeAbort _ => true
  | _ => false

/-! ### Steps after the last call -/

/-- `handleIdle` begins no transactions, and neither does a caller that uses the pool no more. -/
theorem Moved.settled (hm : Moved cfg i s t s' t' new c) (hat : t.at_.settled = true) :
    t'.at_.settled = true ∧ s'.begun = s.begun := by
  obtain ⟨at_, out⟩ := t
  obtain ⟨at', out'⟩ := t'
  cases hm with
  | @method thread o call r hcall hr hs ht _ =>
    subst hs
    have hat' : at' = (Goroutine.resume (s.idAt at_) ⟨at_, out⟩ r.2).at_ :=
      congrArg Goroutine.at_ ht
    rw [hat']
    obtain ⟨w', reply⟩ := r
    cases at_ with
    | id m txn =>
      cases m with
      | handleOutstanding => cases hat
      | handleIdle => cases reply <;> exact ⟨rfl, List.append_nil _⟩
    | renewStale m txn =>
      cases m with
      | handleOutstanding => cases hat
      | handleIdle =>
        refine ⟨?_, List.append_nil _⟩
        cases reply with
        | panicked p => rfl
        | running k => rfl
        | returned x =>
          change (At.next 0 x (.renewStale .handleIdle txn)).settled = true
          unfold At.next
          dsimp only
          split <;> rfl
    | abortStale m txn =>
      cases m with
      | handleOutstanding => cases hat
      | handleIdle => cases reply <;> exact ⟨rfl, List.append_nil _⟩
    | app | returned | commitID | enterIdle | getIdle | putBack | putFresh | leaveIdle |
      getLastID | handleReadonly => cases hcall
    | _ => cases hat
  | atomic _ _ ha _ =>
    refine ⟨?_, atomic_begun ha⟩
    dsimp only at ha ⊢
    cases at_ with
    | commitID saved at_ =>
      cases at_ with
      | returned => cases ha
      | _ => cases hat
    | getLastID m txn saved =>
      cases m with
      | handleOutstanding => cases hat
      | handleIdle =>
        cases ha
        split <;> rfl
    | handleReadonly m txn =>
      cases m with
      | handleOutstanding => cases hat
      | handleIdle =>
        cases ha
        split
        · rfl
        · split <;> rfl
    | enterIdle =>
      simp only [At.atomic] at ha
      split at ha <;> cases ha <;> rfl
    | putBack back got =>
      cases ha
      cases got <;> rfl
    | putFresh | leaveIdle => cases ha; rfl
    | app | returned | getIdle | id | renewStale | abortStale => cases ha
    | _ => cases hat
  | @got got _ ha hs _ _ =>
    subst hs
    refine ⟨?_, rfl⟩
    dsimp only at ha ⊢
    cases at_ with
    | getIdle back =>
      cases back with
      | none =>
        cases ha
        cases got <;> rfl
      | some back => cases ha; rfl
    | get | close => cases hat
    | _ => cases ha
  | event _ _ _ _ hs ht _ =>
    subst hs
    cases ht
    exact ⟨hat, rfl⟩
  | ended _ ha hs _ _ =>
    cases at_ with
    | viewing | updating => cases hat
    | _ => cases ha

/-- `Close` goes on until the bag is empty. -/
theorem Moved.closes (hm : Moved cfg i s t s' t' new c) (hat : t.at_.closes = true)
    (hok : ∀ thread o call, c = .calls thread o → t.at_.method = some call →
      s.world.fails thread call = false) :
    s'.begun = s.begun ∧ (t'.at_.closes = true ∨
      t.at_ = .close ∧ t'.at_ = .returned ∧ c = .gets none ∧ s'.pool = s.pool) := by
  obtain ⟨at_, out⟩ := t
  obtain ⟨at', out'⟩ := t'
  cases at_ with
  | close =>
    cases hm with
    | method hcall _ _ _ _ => cases hcall
    | atomic _ _ ha _ => cases ha
    | @got got _ ha hs _ _ =>
      subst hs
      refine ⟨rfl, ?_⟩
      cases got with
      | none => cases ha; exact .inr ⟨rfl, rfl, rfl, rfl⟩
      | some txn => cases ha; exact .inl rfl
    | event hfree _ _ _ _ _ _ => cases hfree
    | ended _ ha _ _ _ => cases ha
  | closeAbort txn =>
    cases hm with
    | method hcall hr hs ht _ =>
      have hfails := hok _ _ _ rfl hcall
      cases hcall
      subst hs
      obtain ⟨x, hx⟩ := abort_returns (step_exec hr) hfails
      rw [hx] at ht
      cases ht
      exact ⟨List.append_nil _, .inl rfl⟩
    | atomic hnone _ _ _ => cases hnone
    | got _ ha _ _ _ => cases ha
    | event hfree _ _ _ _ _ _ => cases hfree
    | ended _ ha _ _ _ => cases ha
  | _ => cases hat

/-! ### All runs in which the pool is closed -/

/-- `Get` returns an element whenever one is present. -/
def finds (q : Threads TxnPool Goroutine) : Threads.Event Entry Choice → Bool
  | .run _ (.gets none) => q.shared.pool.isEmpty
  | _ => true

/-- No method of the pool is called. -/
def silent : Threads.Event Entry Choice → Bool
  | .enter .app => true
  | .enter _ => false
  | _ => true

/-- When `Close` finds the bag empty, no goroutine of `handleIdle` has a reader in hand. -/
def cleared (q : Threads TxnPool Goroutine) : Threads.Event Entry Choice → Bool
  | .run i (.gets none) =>
    q.threads[i]?.all fun t =>
      decide (t.at_ ≠ .close) || (q.threads.flatMap (·.at_.reader)).isEmpty
  | _ => true

/-- What a run is like from `Close`, the goroutine with the number `k`, on: all other calls have
returned, and once `Close` has returned there are no readers. -/
structure Closing (k : Nat) (q : Threads TxnPool Goroutine) : Prop where
  settled : ∀ (j : Nat) (t : Goroutine), j ≠ k → q.threads[j]? = some t → t.at_.settled = true
  closer : ∀ t : Goroutine, q.threads[k]? = some t →
    t.at_.closes = true ∨ t.at_ = .returned ∧ tally q = []

theorem threads_le (hs : (program cfg).next q e = some q') :
    q.threads.length ≤ q'.threads.length := by
  cases e with
  | enter a =>
    rw [Program.next_enter hs]
    simp
  | run i c =>
    obtain ⟨u, u', new, _, _, hthreads⟩ := Program.next_run hs
    simp [hthreads]

/-- No step of the goroutines of `handleIdle` brings readers back. -/
theorem tally_nil {q q' : Threads TxnPool Goroutine} (hnil : tally q = [])
    (hi : q.threads[i]? = some t)
    (hstep : (program cfg).step q.shared i t c = some (q'.shared, t', new))
    (hthreads : q'.threads = q.threads.set i t' ++ new)
    (hsame : q'.shared.begun = q.shared.begun) (hminds : minds cfg q (.run i c) = true) :
    tally q' = [] := by
  rw [List.eq_nil_iff_forall_not_mem]
  intro h hh
  have hpos := List.count_pos_iff.mpr hh
  have hzero : (tally q).count h = 0 := by rw [hnil]; rfl
  have hcount := tally_run hi hstep hthreads h
  have hmoves := (step_moved hstep).reader h
    (fun thread o call hc hcall => by
      subst hc
      exact minds_method hminds hi hcall)
    fun thread o k txn hc hat => by
      subst hc
      exact minds_isSet hminds hi hat
  rcases hmoves with ⟨_, heq⟩ | ⟨_, hold, hnew, hpool, _⟩
  · rw [hsame] at heq
    omega
  · rw [hold, hnew, hpool, List.count_singleton_self, List.count_nil] at hcount
    omega

theorem next_closing (closing : Closing k q) (hs : (program cfg).next q e = some q')
    (hk : k < q.threads.length) (hsilent : silent e = true) (hfinds : finds q e = true)
    (hcleared : cleared q e = true) (hminds : minds cfg q e = true) : Closing k q' := by
  cases e with
  | enter a =>
    have hs' := Program.next_enter hs
    subst hs'
    have ha : a = .app := by
      cases a with
      | app => rfl
      | _ => cases hsilent
    subst ha
    have htally :
        tally { q with threads := q.threads ++ [(program cfg).start .app] } = tally q := by
      have hnone : ((program cfg).start .app).at_.reader = [] := rfl
      simp [tally, hnone]
    refine ⟨fun j t hj ht => ?_, fun t ht => ?_⟩
    · rcases Program.thread_entered ht with hq | ⟨_, rfl⟩
      · exact closing.settled j t hj hq
      · rfl
    · rcases Program.thread_entered ht with hq | ⟨hlast, _⟩
      · rw [htally]
        exact closing.closer t hq
      · omega
  | run i c =>
    obtain ⟨u, u', new, hi, hstep, hthreads⟩ := Program.next_run hs
    have hm := step_moved hstep
    have hstarted : ∀ v ∈ new, v.at_.settled = true := by
      intro v hv
      rw [hm.started v hv]
      rfl
    by_cases hik : i = k
    · subst hik
      have hcloses : u.at_.closes = true :=
        (closing.closer u hi).resolve_right fun hret => hm.not_returned hret.1
      obtain ⟨hbegun, hnext⟩ := hm.closes hcloses fun thread o call hc hcall => by
        subst hc
        exact minds_method hminds hi hcall
      refine ⟨fun j t hj ht => ?_, fun t ht => ?_⟩
      · rw [hthreads] at ht
        rcases Program.thread_after ht with ⟨rfl, _⟩ | ⟨_, hq⟩ | ⟨m, _, hm'⟩
        · exact absurd rfl hj
        · exact closing.settled j t hj hq
        · exact hstarted t (List.mem_of_getElem? hm')
      · rw [hthreads] at ht
        rcases Program.thread_after ht with ⟨_, rfl⟩ | ⟨hne, _⟩ | ⟨m, hm', _⟩
        · rcases hnext with hnext | ⟨hclose, hret, rfl, _⟩
          · exact .inl hnext
          · refine .inr ⟨hret, tally_nil ?_ hi hstep hthreads hbegun hminds⟩
            have hpool : q.shared.pool = [] := List.isEmpty_iff.mp hfinds
            simp only [cleared, hi, hclose, ne_eq, not_true_eq_false, decide_false, Option.all_some,
              Bool.false_or, List.isEmpty_iff] at hcleared
            rw [tally, hpool, hcleared]
            rfl
        · exact absurd rfl hne
        · omega
    · obtain ⟨hsettled, hbegun⟩ := hm.settled (closing.settled i u hik hi)
      refine ⟨fun j t hj ht => ?_, fun t ht => ?_⟩
      · rw [hthreads] at ht
        rcases Program.thread_after ht with ⟨_, rfl⟩ | ⟨_, hq⟩ | ⟨m, _, hm'⟩
        · exact hsettled
        · exact closing.settled j t hj hq
        · exact hstarted t (List.mem_of_getElem? hm')
      · rw [hthreads] at ht
        rcases Program.thread_after ht with ⟨heq, _⟩ | ⟨_, hq⟩ | ⟨m, hm', _⟩
        · exact absurd heq.symm hik
        · rcases closing.closer t hq with hcloses | ⟨hret, hnil⟩
          · exact .inl hcloses
          · exact .inr ⟨hret, tally_nil hnil hi hstep hthreads hbegun hminds⟩
        · omega

/-- Every reader that the pool has begun is aborted once `Close`, called after all other calls have
returned, has returned, in every run in which no goroutine of `handleIdle` has a reader in hand when
`Close` finds the bag empty. -/
theorem close_complete {q₀ q₁ q₂ : Threads TxnPool Goroutine}
    (run : (program cfg).system.Reaches (fun q e => spares q e = true ∧ minds cfg q e = true) q₀)
    (settled : ∀ t ∈ q₀.threads, t.at_.settled = true)
    (closes : (program cfg).system.step q₀ (.enter .close) = some q₁)
    (closing : ((program cfg).system.after q₁).Reaches
      (fun q e => silent e = true ∧ finds q e = true ∧ spares q e = true ∧ minds cfg q e = true ∧
        cleared q e = true) q₂)
    (returned : ∃ t, q₂.threads[q₀.threads.length]? = some t ∧ t.at_ = .returned) :
    ∀ b ∈ q₂.shared.begun, ∃ a, b.2 = some (.reader a) ∧ q₂.shared.world.lib.readers a = none := by
  have hclosing : ((program cfg).system.after q₁).Reaches
      (fun q e => spares q e = true ∧ minds cfg q e = true) q₂ :=
    closing.mono fun q e h => ⟨h.2.2.1, h.2.2.2.1⟩
  have run₁ := run.next (e := .enter .close) ⟨rfl, rfl⟩ closes
  have haccounted := accounted (run₁.trans hclosing)
  obtain ⟨hlength, hclosed⟩ : q₀.threads.length < q₂.threads.length ∧
      Closing q₀.threads.length q₂ := by
    have hs := Program.next_enter closes
    refine closing.later
      (I := fun q => q₀.threads.length < q.threads.length ∧ Closing q₀.threads.length q) ?_ ?_
    · rw [hs]
      refine ⟨by simp, fun j t hj ht => ?_, fun t ht => ?_⟩
      · rcases Program.thread_entered ht with hq | ⟨hlast, _⟩
        · exact settled t (List.mem_of_getElem? hq)
        · exact absurd hlast hj
      · rcases Program.thread_entered ht with hq | ⟨_, rfl⟩
        · exact absurd (List.getElem?_eq_some_iff.mp hq).1 (Nat.lt_irrefl _)
        · exact .inl rfl
    · rintro q e q' ⟨hk, hclosing⟩ ⟨hsilent, hfinds, _, hminds, hcleared⟩ hstep
      refine ⟨Nat.lt_of_lt_of_le hk ?_,
        next_closing hclosing hstep hk hsilent hfinds hcleared hminds⟩
      exact threads_le hstep
  obtain ⟨t, ht, hat⟩ := returned
  have hnil : tally q₂ = [] := by
    rcases hclosed.closer t ht with hcloses | ⟨_, hnil⟩
    · rw [hat] at hcloses
      cases hcloses
    · exact hnil
  intro b hb
  obtain ⟨a, hp, ⟨hone, _⟩ | ⟨_, hfree⟩⟩ := haccounted b hb
  · rw [hnil] at hone
    cases hone
  · exact ⟨a, hp, hfree⟩

/-- A reader is in the bag, `CommitID` starts a goroutine for `handleIdle`, and that one has taken
the reader out of the bag. -/
def idling : List (Threads.Event Entry Choice) :=
  [.enter (.beginTxn txnRdonly), .run 0 (.gets none), .run 0 (.calls 0 {}), .run 0 (.calls 0 {}),
    .run 0 (.calls 0 {}), .run 0 (.calls 0 {}), .run 0 (.calls 0 {}), .run 0 (.calls 0 {}),
    .run 0 (.calls 0 {}), .enter (.commitID 2), .run 1 (.calls 0 {}), .run 1 (.calls 0 {}),
    .run 1 (.calls 0 {}), .run 1 (.calls 0 {}), .run 1 (.calls 0 {}), .run 2 (.calls 0 {}),
    .run 2 (.gets (some 0))]

/-- `Close` finds the bag empty, and after that the goroutine of `handleIdle` puts the reader
back. -/
def late : List (Threads.Event Entry Choice) :=
  [.run 3 (.gets none), .run 2 (.calls 0 {}), .run 2 (.calls 0 {}), .run 2 (.calls 0 {}),
    .run 2 (.calls 0 {})]

/-- The goroutine makes no more steps in the pool. -/
def At.over : At → Bool
  | .app | .returned | .commitID _ .returned => true
  | _ => false

/-- The runs that go on with `es` after `Close` was called end with a reader that is live. -/
def overlooks (es : List (Threads.Event Entry Choice)) (q₀ : Threads TxnPool Goroutine) : Bool :=
  q₀.threads.all (·.at_.settled) &&
    ((program { updateHandling := { handleIdle := true } }).system.step q₀ (.enter .close)).any
      fun q₁ : Threads TxnPool Goroutine =>
        (((program { updateHandling := { handleIdle := true } }).system.after q₁).replay
          (fun q e => silent e = true ∧ finds q e = true ∧ respects q e = true ∧ spares q e = true)
          q₁ es).any fun q₂ : Threads TxnPool Goroutine =>
            q₂.threads.all (·.at_.over) && q₂.shared.begun.any fun b =>
              match b.2 with
              | some (.reader a) => (q₂.shared.world.lib.readers a).isSome
              | _ => false

/-- A reader that `handleIdle` has in hand while `Close` finds the bag empty is never aborted. -/
theorem reader_overlooked : ¬ ∀ (cfg : Config) (q₀ q₁ q₂ : Threads TxnPool Goroutine),
    (program cfg).system.Reaches
      (fun q e => finds q e = true ∧ respects q e = true ∧ spares q e = true) q₀ →
    (∀ t ∈ q₀.threads, t.at_.settled = true) →
    (program cfg).system.step q₀ (.enter .close) = some q₁ →
    ((program cfg).system.after q₁).Reaches
      (fun q e => silent e = true ∧ finds q e = true ∧ respects q e = true ∧ spares q e = true) q₂ →
    (∀ t ∈ q₂.threads, t.at_.over = true) →
    ∀ b ∈ q₂.shared.begun, ∃ a, b.2 = some (.reader a) ∧ q₂.shared.world.lib.readers a = none := by
  intro hall
  obtain ⟨q₀, run, hq⟩ := System.exists_of_replay
    (program { updateHandling := { handleIdle := true } }).system
    (fun q e => finds q e = true ∧ respects q e = true ∧ spares q e = true) idling fresh
    (overlooks late) (fresh_init _) (by decide +kernel)
  simp only [overlooks, Bool.and_eq_true, List.all_eq_true, Option.any_eq_true, List.any_eq_true]
    at hq
  obtain ⟨hsettled, q₁, hs, q₂, hreplay, hover, b, hb, hlive⟩ := hq
  obtain ⟨a, hp, hfree⟩ := hall _ q₀ q₁ q₂ run hsettled hs
    ((System.Reaches.start rfl).replay _ hreplay) hover b hb
  rw [hp] at hlive
  dsimp only at hlive
  rw [hfree] at hlive
  cases hlive

/-- `Close` takes the only reader out of the bag and aborts it. -/
def drains (q₀ : Threads TxnPool Goroutine) : Bool :=
  q₀.threads.all (·.at_.settled) && decide (q₀.threads.length = 1) &&
    ((program {}).system.step q₀ (.enter .close)).any fun q₁ : Threads TxnPool Goroutine =>
      (((program {}).system.after q₁).replay
        (fun q e => silent e = true ∧ finds q e = true ∧ spares q e = true ∧
          minds {} q e = true ∧ cleared q e = true) q₁
        [.run 1 (.gets (some 0)), .run 1 (.calls 0 {}), .run 1 (.gets none)]).any
        fun q₂ : Threads TxnPool Goroutine =>
          decide (q₂.threads[1]? = some ⟨.returned, .nil⟩) && !q₂.shared.begun.isEmpty

theorem close_complete_drained : ∃ q : Threads TxnPool Goroutine, q.shared.begun ≠ [] ∧
    ∀ b ∈ q.shared.begun, ∃ a, b.2 = some (.reader a) ∧ q.shared.world.lib.readers a = none := by
  obtain ⟨q₀, run, hq⟩ := System.exists_of_replay (program {}).system
    (fun q e => spares q e = true ∧ minds {} q e = true)
    [.enter (.beginTxn txnRdonly), .run 0 (.gets none), .run 0 (.calls 0 {}), .run 0 (.calls 0 {}),
      .run 0 (.calls 0 {}), .run 0 (.calls 0 {}), .run 0 (.calls 0 {})] fresh drains
    (fresh_init _) (by decide +kernel)
  simp only [drains, Bool.and_eq_true, List.all_eq_true, Option.any_eq_true, decide_eq_true_iff]
    at hq
  obtain ⟨⟨hsettled, hlength⟩, q₁, hs, q₂, hreplay, hreturned, hbegun⟩ := hq
  exact ⟨q₂, by simpa using hbegun, close_complete run hsettled hs
    ((System.Reaches.start rfl).replay _ hreplay) ⟨_, hlength ▸ hreturned, rfl⟩⟩

end TxnPool

end MdbxGo
