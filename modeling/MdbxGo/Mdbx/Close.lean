import MdbxGo.Mdbx.CloseGuard

/-! What the lock of an environment guards: no call of libmdbx reaches an environment after its
close, and every call gives back what it took of the lock, except one kind of panic. -/

namespace MdbxGo

namespace CloseGuard

/-- What a call holds of the lock, and what it knows by that: a reader, whether the environment is
open; a writer, that it has not looked yet, that the environment is open, or what the close
returned. -/
inductive Mode
  | out
  | reading (open_ : Bool)
  | settled
  | opened
  | closed (ret : Code)

def Mode.Holds (g : Guard) (i : Nat) : Mode → Prop
  | .out => g.closeLock.held i = 0
  | .reading open_ =>
    g.closeLock.readers.count i = 1 ∧ g.closeLock.writer = none ∧ (open_ = true → g.env = true)
  | .settled => g.closeLock.writer = some i ∧ g.env = g.alive
  | .opened => g.closeLock.writer = some i ∧ g.env = true ∧ g.alive = true
  | .closed ret =>
    g.closeLock.writer = some i ∧ g.env = true ∧ (ret = Code.busy ↔ g.alive = true)

/-- The exit of a `Close` that found the environment busy. -/
def busyExit : Exit := .returned { err := operrno "mdbx_env_close" Code.busy }

/-- The methods in which `abort` runs. -/
def Method.aborts : Method → Bool
  | .abort _ | .runOpTerm _ | .run _ _ | .sub _ => true
  | _ => false

/-- A program keeps the discipline of the lock from a mode on. Only the thread check of `abort` may
exit while it holds the lock. -/
inductive Keeps (aborts : Bool) : Mode → Prog → Prop
  | exit (e : Exit) : Keeps aborts .out (.exit e)
  | lock {p : Prog} : Keeps aborts .settled p → Keeps aborts .out (.lock p)
  | unlock {p : Prog} : Keeps aborts .out p → p ≠ .exit busyExit →
    Keeps aborts .settled (.unlock p)
  | unlockBusy {p : Prog} : Keeps aborts .out p → Keeps aborts (.closed Code.busy) (.unlock p)
  | setEnvNil {ret : Code} {p : Prog} : ret ≠ Code.busy → Keeps aborts .settled p →
    Keeps aborts (.closed ret) (.setEnvNil p)
  | envClose {next : Code → Prog} : (∀ ret, Keeps aborts (.closed ret) (next ret)) →
    Keeps aborts .opened (.envClose next)
  | envOpened {next : Bool → Prog} : Keeps aborts .opened (next true) →
    Keeps aborts .settled (next false) → Keeps aborts .settled (.env next)
  | rLock {p : Prog} : Keeps aborts (.reading false) p → Keeps aborts .out (.rLock p)
  | rUnlock {open_ : Bool} {p : Prog} : Keeps aborts .out p →
    Keeps aborts (.reading open_) (.rUnlock p)
  | envRead {open_ : Bool} {next : Bool → Prog} : (∀ b, Keeps aborts (.reading b) (next b)) →
    Keeps aborts (.reading open_) (.env next)
  | guarded (c : TxnCall) {next : Code → Prog} : (∀ ret, Keeps aborts (.reading true) (next ret)) →
    Keeps aborts (.reading true) (.guarded c next)
  | threadCheck {open_ : Bool} {h : Handle} {next : Thread → Thread → Prog} :
    (∀ current tid, aborts = false ∨ current = tid →
      Keeps aborts (.reading open_) (next current tid)) →
    (∀ current tid, aborts = true → current ≠ tid → ∃ e, next current tid = .exit e) →
    Keeps aborts (.reading open_) (.currentThreadID h next)
  | currentThreadID {h : Handle} {next : Thread → Thread → Prog} :
    (∀ current tid, Keeps aborts .out (next current tid)) →
    Keeps aborts .out (.currentThreadID h next)
  | strict {m : Mode} {next : Bool → Prog} : (∀ b, Keeps aborts m (next b)) →
    Keeps aborts m (.strict next)
  | setStrict {m : Mode} (mode : Bool) {p : Prog} : Keeps aborts m p →
    Keeps aborts m (.setStrict mode p)
  | txn {m : Mode} {h : Handle} {next : Txn → Prog} : (∀ x, Keeps aborts m (next x)) →
    Keeps aborts m (.txn h next)
  | setTxn {m : Mode} {h : Handle} {f : Txn → Txn} {p : Prog} : Keeps aborts m p →
    Keeps aborts m (.setTxn h f p)
  | fn {m : Mode} {next : FnExit → Prog} : (∀ e, Keeps aborts m (next e)) →
    Keeps aborts m (.fn next)
  | call {m : Mode} {next : Code → Prog} : (∀ ret, Keeps aborts m (next ret)) →
    Keeps aborts m (.call next)

/-! ### The methods keep the discipline -/

variable {h : Handle} {aborts : Bool}

theorem keeps_ite {m : Mode} {b : Bool} {p q : Prog} (hp : Keeps aborts m p)
    (hq : Keeps aborts m q) : Keeps aborts m (if b then p else q) := by
  cases b
  · exact hq
  · exact hp

/-- The thread check of a method that is not inside the lock. -/
theorem keeps_strictThreadCheck {ok : Prog} {panics : Panic → Prog} (hok : Keeps aborts .out ok)
    (hpanics : ∀ p, Keeps aborts .out (panics p)) :
    Keeps aborts .out (strictThreadCheck h ok panics) :=
  .strict fun _ => keeps_ite hok <| .currentThreadID fun _ _ => keeps_ite (hpanics _) hok

/-- That of `Park` and `Unpark`. -/
theorem keeps_strictThreadCheck_read {open_ : Bool} {ok : Prog} {panics : Panic → Prog}
    (hok : Keeps false (.reading open_) ok)
    (hpanics : ∀ p, Keeps false (.reading open_) (panics p)) :
    Keeps false (.reading open_) (strictThreadCheck h ok panics) := by
  refine .strict fun _ => keeps_ite hok <| .threadCheck ?_ ?_
  · intro current tid _
    exact keeps_ite (hpanics _) hok
  · intro current tid habort
    cases habort

/-- That of `abort`, whose panic leaves the lock as it is. -/
theorem keeps_strictThreadCheck_abort {open_ : Bool} {ok : Prog}
    (hok : Keeps true (.reading open_) ok) :
    Keeps true (.reading open_) (strictThreadCheck h ok fun p => .exit (.panicked p)) := by
  refine .strict fun _ => keeps_ite hok <| .threadCheck ?_ ?_
  · rintro current tid (habort | rfl)
    · cases habort
    · simpa using hok
  · intro current tid _ hne
    exact ⟨.panicked (.threadMismatch current tid), by simp [hne]⟩

theorem keeps_abort {done : Prog} (hdone : Keeps true .out done) :
    Keeps true .out (abort h done) := by
  have finish : ∀ open_, Keeps true (.reading open_) (.rUnlock (.setTxn h Txn.clearTxn done)) :=
    fun _ => .rUnlock (.setTxn hdone)
  have issue : Keeps true (.reading false) (.env fun env =>
      if env then .guarded (.abort h) fun _ => .rUnlock (.setTxn h Txn.clearTxn done)
      else .rUnlock (.setTxn h Txn.clearTxn done)) := by
    apply Keeps.envRead
    intro env
    cases env
    · exact finish false
    · exact .guarded _ fun _ => finish true
  refine .txn fun x => keeps_ite hdone <| .rLock <| .strict fun b => ?_
  cases b
  · exact issue
  · exact keeps_strictThreadCheck_abort issue

theorem keeps_runFn : Keeps true .out (runFn h) := by
  apply Keeps.fn
  intro e
  cases e with
  | ok =>
    have rest : ∀ e, Keeps true .out (abort h (.exit e)) := fun e => keeps_abort (.exit e)
    exact keeps_strictThreadCheck (.call fun _ => .setTxn (rest _)) fun _ => rest _
  | err | panics => exact keeps_abort (.exit _)

theorem keeps_runOpTerm : Keeps true .out (runOpTerm h) :=
  .txn fun _ => keeps_ite (.exit _) (.setTxn keeps_runFn)

theorem keeps_beginTxn {readonly : Bool} {done : Prog} (hdone : Keeps aborts .out done) :
    Keeps aborts .out (beginTxn h readonly done) := by
  refine .strict fun b => keeps_ite (.currentThreadID fun current _ => ?_) ?_
  · exact .call fun _ => keeps_ite (.exit _) (.setTxn hdone)
  · exact .call fun _ => keeps_ite (.exit _) (.setTxn hdone)

theorem keeps_park (autounpark : Bool) : Keeps false .out (park h autounpark) := by
  refine .txn fun x => keeps_ite (.exit _) <| .rLock <| .envRead fun env => ?_
  cases env
  · exact .rUnlock (.exit _)
  · refine keeps_strictThreadCheck_read (.guarded _ fun ret => ?_) fun _ => .rUnlock (.exit _)
    exact keeps_ite (.rUnlock (.exit _)) (.setTxn (.rUnlock (.exit _)))

theorem keeps_unpark (restartIfOusted : Bool) : Keeps false .out (unpark h restartIfOusted) := by
  refine .txn fun x => keeps_ite (.exit _) <| .rLock <| .envRead fun env => ?_
  cases env
  · exact .rUnlock (.exit _)
  · refine keeps_strictThreadCheck_read (.guarded _ fun ret => ?_) fun _ => .rUnlock (.exit _)
    exact .setTxn (.rUnlock (.exit _))

theorem busyExit_of {ret : Code}
    (heq : Exit.returned { err := operrno "mdbx_env_close" ret } = busyExit) : ret = Code.busy := by
  have hbusy : operrno "mdbx_env_close" Code.busy =
      some (.op "mdbx_env_close" (.mdbx Code.busy)) := rfl
  simp only [busyExit, Exit.returned.injEq, Returned.mk.injEq, and_true, hbusy] at heq
  unfold operrno at heq
  split at heq
  · cases heq
  · split at heq
    · cases heq
    · split at heq
      · cases heq
      · split at heq <;> simp at heq
        exact heq

theorem keeps_close : Keeps false .out close := by
  refine .lock (.envOpened (.envClose fun ret => ?_) (.unlock (.exit _) ?_))
  · by_cases hret : ret = Code.busy
    · subst hret
      exact .unlockBusy (.exit _)
    · simp only [bne_iff_ne, ne_eq, hret, not_false_eq_true, ↓reduceIte]
      refine .setEnvNil hret (.unlock (.exit _) ?_)
      intro heq
      exact hret (busyExit_of (Prog.exit.inj heq))
  · intro heq
    cases Prog.exit.inj heq

theorem keeps_prog (m : Method) : Keeps m.aborts .out m.prog := by
  cases m with
  | close => exact keeps_close
  | abort h => exact .txn fun x => keeps_ite (.exit _) (keeps_abort (.exit _))
  | park h autounpark => exact keeps_park autounpark
  | unpark h restartIfOusted => exact keeps_unpark restartIfOusted
  | runOpTerm h => exact keeps_runOpTerm
  | run h readonly => exact keeps_beginTxn keeps_runOpTerm
  | sub h => exact keeps_beginTxn (.setTxn keeps_runFn)
  | setStrictThreadMode mode => exact .setStrict mode (.exit _)
  | other h f => exact .setTxn (.exit _)

/-! ### What holds of the lock and the environment -/

/-- The call destroyed the environment. -/
def Issued.destroys : Issued → Bool
  | .envClose _ destroyed => destroyed
  | .txn _ => false

/-- The calls into libmdbx: none came after the one that destroyed the environment, and every
close but a busy one destroyed it. -/
structure Ordered (alive : Bool) (issued : List Issued) : Prop where
  alive : alive = true ↔ ∀ c ∈ issued, c.destroys = false
  last : ∀ pre c post, issued = pre ++ c :: post → c.destroys = true → post = []
  busy : ∀ ret destroyed, .envClose ret destroyed ∈ issued → (destroyed = false ↔ ret = Code.busy)

/-- The shared state while `n` calls have entered. -/
structure Shared (g : Guard) (n : Nat) : Prop where
  exclusive : g.closeLock.Exclusive
  quiet : g.closeLock.writer = none → g.env = g.alive
  ordered : Ordered g.alive g.issued
  readers : ∀ i ∈ g.closeLock.readers, i < n
  writer : ∀ i, g.closeLock.writer = some i → i < n

/-- A call keeps the discipline in a mode that holds. -/
def Disciplined (g : Guard) (i : Nat) (c : Call) : Prop :=
  ∃ m, m.Holds g i ∧ Keeps c.method.aborts m c.rest

/-- A panic has ended a call while it held the lock. -/
def Leaked (g : Guard) (i : Nat) (c : Call) : Prop :=
  (Mode.reading false).Holds g i ∧ ∃ e, c.rest = .exit e

/-- The handle whose thread is compared next. -/
def Prog.checks : Prog → Option Handle
  | .currentThreadID h _ => some h
  | _ => none

/-- If the next step is the thread check of an `abort` that holds the lock, then the goroutine is
on the thread of the handle. -/
def Call.OnThread (g : Guard) (i : Nat) (x : Choice) (c : Call) : Prop :=
  c.method.aborts = true → i ∈ g.closeLock.readers →
    ∀ h ∈ c.rest.checks, x.thread = (g.txns h).tid

variable {g g' : Guard} {i j n : Nat} {x : Choice} {p p' : Prog} {m : Mode}

theorem Ordered.issue {alive : Bool} {issued : List Issued} (h : Ordered alive issued)
    (halive : alive = true) (c : Issued)
    (hc : ∀ ret destroyed, c = .envClose ret destroyed → (destroyed = false ↔ ret = Code.busy)) :
    Ordered (!c.destroys) (issued ++ [c]) := by
  have hnone := h.alive.mp halive
  refine ⟨?_, ?_, ?_⟩
  · rw [Bool.not_eq_true']
    constructor
    · intro hlast d hd
      rcases List.mem_append.mp hd with hd | hd
      · exact hnone d hd
      · rw [List.mem_singleton.mp hd]
        exact hlast
    · intro hall
      exact hall c (List.mem_append_right _ (List.mem_singleton_self c))
  · intro pre d post heq hd
    rcases List.eq_nil_or_concat post with hnil | ⟨mid, e, rfl⟩
    · exact hnil
    · have heq' : issued ++ [c] = (pre ++ d :: mid) ++ [e] := by
        simpa only [List.concat_eq_append, List.append_assoc, List.cons_append] using heq
      have hmem : d ∈ issued := by
        rw [(List.append_inj' heq' rfl).1]
        simp
      rw [hnone d hmem] at hd
      cases hd
  · intro ret destroyed hmem
    rcases List.mem_append.mp hmem with hmem | hmem
    · exact h.busy ret destroyed hmem
    · exact hc ret destroyed (List.mem_singleton.mp hmem).symm

/-- The calls of a reader find the environment alive. -/
theorem Shared.alive (hs : Shared g n) (hm : (Mode.reading true).Holds g i) : g.alive = true := by
  rw [← hs.quiet hm.2.1]
  exact hm.2.2 rfl

theorem Shared.enters (hs : Shared g n) : Shared g (n + 1) where
  exclusive := hs.exclusive
  quiet := hs.quiet
  ordered := hs.ordered
  readers i hi := Nat.lt_succ_of_lt (hs.readers i hi)
  writer i hi := Nat.lt_succ_of_lt (hs.writer i hi)

theorem Shared.held_new (hs : Shared g n) : g.closeLock.held n = 0 := by
  have hcount : g.closeLock.readers.count n = 0 :=
    List.count_eq_zero.mpr fun hmem => Nat.lt_irrefl n (hs.readers n hmem)
  have hwriter : g.closeLock.writer ≠ some n := fun hw => Nat.lt_irrefl n (hs.writer n hw)
  simp [RWMutex.held, hcount, hwriter]

/-- While there is a writer, every other call is out. -/
theorem Mode.Holds.eq_out (hm : m.Holds g j) (hij : i ≠ j) (hw : g.closeLock.writer = some i) :
    m = .out := by
  cases m with
  | out => rfl
  | reading open_ =>
    have hnone := hm.2.1
    rw [hw] at hnone
    cases hnone
  | settled | opened | closed ret =>
    have hj := hm.1
    rw [hw] at hj
    exact absurd (Option.some.inj hj) hij

theorem held_of_reading (hw : g.closeLock.writer = none) :
    g.closeLock.held i = g.closeLock.readers.count i := by
  simp [RWMutex.held, hw]

/-- The steps of a call keep what is shared. -/
theorem Keeps.shared (hi : i < n) (hs : Shared g n) (hm : m.Holds g i) (hk : Keeps aborts m p)
    (h : step g i x p = some (g', p')) : Shared g' n := by
  cases hk with
  | exit e => cases h
  | lock hp =>
    obtain ⟨l, hl, heq⟩ := Option.map_eq_some_iff.mp h
    cases heq
    have hexcl := RWMutex.Exclusive.of_lock hl
    obtain ⟨-, -, rfl⟩ := RWMutex.lock_eq_some.mp hl
    refine ⟨hexcl, fun hw => ?_, hs.ordered, hs.readers, fun j hj => ?_⟩
    · cases hw
    · cases hj
      exact hi
  | unlock hp =>
    cases h
    exact ⟨RWMutex.Exclusive.unlock, fun _ => hm.2, hs.ordered, hs.readers, fun _ hj => by cases hj⟩
  | unlockBusy hp =>
    cases h
    have henv : g.env = g.alive := hm.2.1.trans (hm.2.2.mp rfl).symm
    exact ⟨RWMutex.Exclusive.unlock, fun _ => henv, hs.ordered, hs.readers, fun _ hj => by cases hj⟩
  | setEnvNil hret hp =>
    cases h
    refine ⟨hs.exclusive, fun hw => ?_, hs.ordered, hs.readers, hs.writer⟩
    have hnone : g.closeLock.writer = none := hw
    rw [hm.1] at hnone
    cases hnone
  | envClose hp =>
    cases h
    refine ⟨hs.exclusive, fun hw => ?_, ?_, hs.readers, hs.writer⟩
    · have hnone : g.closeLock.writer = none := hw
      rw [hm.1] at hnone
      cases hnone
    · have halive := hm.2.2
      have hissue := hs.ordered.issue halive (.envClose (mdbxEnvClose true x.closing).1
        (mdbxEnvClose true x.closing).2) ?_
      · simpa [halive, Issued.destroys] using hissue
      · rintro ret destroyed heq
        cases heq
        exact (mdbxEnvCloseEx_busy x.closing false).symm
  | rLock hp =>
    obtain ⟨l, hl, heq⟩ := Option.map_eq_some_iff.mp h
    cases heq
    have hexcl := RWMutex.Exclusive.of_rLock hl
    obtain ⟨hw, rfl⟩ := RWMutex.rLock_eq_some.mp hl
    refine ⟨hexcl, hs.quiet, hs.ordered, fun j hj => ?_, hs.writer⟩
    rcases List.mem_cons.mp hj with rfl | hj
    · exact hi
    · exact hs.readers j hj
  | rUnlock hp =>
    cases h
    exact ⟨hs.exclusive.rUnlock i, hs.quiet, hs.ordered,
      fun j hj => hs.readers j (List.mem_of_mem_erase hj), hs.writer⟩
  | guarded c hp =>
    cases h
    have halive := hs.alive hm
    refine ⟨hs.exclusive, hs.quiet, ?_, hs.readers, hs.writer⟩
    have hissue := hs.ordered.issue halive (.txn c) (fun _ _ heq => by cases heq)
    simpa [Issued.destroys, halive] using hissue
  | _ =>
    cases h
    exact ⟨hs.exclusive, hs.quiet, hs.ordered, hs.readers, hs.writer⟩

/-- They lead from mode to mode, but for the panic of `abort`. -/
theorem Keeps.own {c c' : Call} (hs : Shared g n) (hm : m.Holds g i)
    (hk : Keeps c.method.aborts m c.rest) (h : step g i x c.rest = some (g', c'.rest))
    (hmethod : c'.method = c.method) :
    Disciplined g' i c' ∨ ¬c.OnThread g i x ∧ Leaked g' i c' := by
  obtain ⟨method, p⟩ := c
  obtain ⟨method', p'⟩ := c'
  obtain rfl : method' = method := hmethod
  dsimp only at hk h
  cases hk with
  | exit e => cases h
  | lock hp =>
    obtain ⟨l, hl, heq⟩ := Option.map_eq_some_iff.mp h
    cases heq
    obtain ⟨hw, -, rfl⟩ := RWMutex.lock_eq_some.mp hl
    exact .inl ⟨.settled, ⟨rfl, hs.quiet hw⟩, hp⟩
  | unlock hp | unlockBusy hp =>
    cases h
    have hne : g.closeLock.writer ≠ none := by
      rw [hm.1]
      exact Option.some_ne_none i
    refine .inl ⟨.out, ?_, hp⟩
    simp [Mode.Holds, RWMutex.held, RWMutex.unlock, hs.exclusive hne]
  | setEnvNil hret hp =>
    cases h
    have hdead : g.alive = false := by
      rw [Bool.eq_false_iff]
      exact fun halive => hret (hm.2.2.mpr halive)
    exact .inl ⟨.settled, ⟨hm.1, hdead.symm⟩, hp⟩
  | envClose hp =>
    cases h
    refine .inl ⟨.closed _, ⟨hm.1, hm.2.1, ?_⟩, hp _⟩
    have hbusy := mdbxEnvCloseEx_busy x.closing false
    simpa [mdbxEnvClose, hm.2.2] using hbusy
  | envOpened hopen hnil =>
    cases h
    cases henv : g.env with
    | true => exact .inl ⟨.opened, ⟨hm.1, henv, hm.2.symm.trans henv⟩, hopen⟩
    | false => exact .inl ⟨.settled, hm, hnil⟩
  | rLock hp =>
    obtain ⟨l, hl, heq⟩ := Option.map_eq_some_iff.mp h
    cases heq
    obtain ⟨hw, rfl⟩ := RWMutex.rLock_eq_some.mp hl
    refine .inl ⟨.reading false, ⟨?_, hw, fun h => by cases h⟩, hp⟩
    have hcount : g.closeLock.readers.count i = 0 := (held_of_reading hw).symm.trans hm
    simp [hcount]
  | rUnlock hp =>
    cases h
    refine .inl ⟨.out, ?_, hp⟩
    simp [Mode.Holds, RWMutex.held, RWMutex.rUnlock, hm.1, hm.2.1]
  | envRead hp =>
    cases h
    exact .inl ⟨.reading g.env, ⟨hm.1, hm.2.1, id⟩, hp _⟩
  | guarded c hp =>
    cases h
    exact .inl ⟨.reading true, hm, hp _⟩
  | @threadCheck open_ f next hsame hdiff =>
    cases h
    by_cases hthread : method'.aborts = false ∨ x.thread = (g.txns f).tid
    · exact .inl ⟨.reading open_, hm, hsame _ _ hthread⟩
    · obtain ⟨habort, hne⟩ := not_or.mp hthread
      have habort := eq_true_of_ne_false habort
      refine .inr ⟨fun hon => hne (hon habort ?_ f rfl), ?_, hdiff _ _ habort hne⟩
      · apply List.count_pos_iff.mp
        rw [hm.1]
        exact Nat.one_pos
      · exact ⟨hm.1, hm.2.1, fun h => by cases h⟩
  | currentThreadID hp =>
    cases h
    exact .inl ⟨.out, hm, hp _ _⟩
  | strict hp | txn hp | fn hp | call hp =>
    cases h
    exact .inl ⟨_, hm, hp _⟩
  | setStrict _ hp | setTxn hp =>
    cases h
    exact .inl ⟨_, hm, hp⟩

theorem Prog.checks_eq_some (hp : p.checks = some h) : ∃ next, p = .currentThreadID h next := by
  cases p with
  | currentThreadID f next =>
    obtain rfl : f = h := Option.some.inj hp
    exact ⟨next, rfl⟩
  | _ => cases hp

/-- The thread check of an `abort` that is on another thread ends it while it holds the lock. -/
theorem Keeps.leaks {c c' : Call} (hm : m.Holds g i) (hk : Keeps c.method.aborts m c.rest)
    (hoff : ¬c.OnThread g i x) (h : step g i x c.rest = some (g', c'.rest)) : Leaked g' i c' := by
  simp only [Call.OnThread, Classical.not_imp, not_forall] at hoff
  obtain ⟨habort, hreads, f, hf, hne⟩ := hoff
  obtain ⟨next, hrest⟩ := Prog.checks_eq_some hf
  obtain ⟨method, p'⟩ := c'
  rw [hrest] at hk h
  cases h
  cases hk with
  | threadCheck hsame hdiff =>
    obtain ⟨e, he⟩ := hdiff _ _ habort hne
    exact ⟨⟨hm.1, hm.2.1, fun h => by cases h⟩, e, he⟩
  | currentThreadID hp =>
    have hheld : g.closeLock.held i = 0 := hm
    have hcount := List.count_pos_iff.mpr hreads
    simp only [RWMutex.held] at hheld
    omega

/-- They leave what other calls hold and know alone. -/
theorem Keeps.others (hij : i ≠ j) (hm : m.Holds g i) (hk : Keeps aborts m p)
    (h : step g i x p = some (g', p')) {mj : Mode} (hj : mj.Holds g j) : mj.Holds g' j := by
  cases hk with
  | exit e => cases h
  | lock hp =>
    obtain ⟨l, hl, heq⟩ := Option.map_eq_some_iff.mp h
    cases heq
    obtain ⟨hw, hr, rfl⟩ := RWMutex.lock_eq_some.mp hl
    cases mj with
    | out => simp [Mode.Holds, RWMutex.held, hr, hij]
    | reading open_ =>
      have hcount := hj.1
      rw [hr] at hcount
      cases hcount
    | settled | opened | closed ret =>
      have hwriter := hj.1
      rw [hw] at hwriter
      cases hwriter
  | unlock hp | unlockBusy hp =>
    cases h
    obtain rfl := hj.eq_out hij hm.1
    have hheld : g.closeLock.held j = 0 := hj
    simp only [RWMutex.held, Nat.add_eq_zero_iff] at hheld
    simp [Mode.Holds, RWMutex.held, RWMutex.unlock, hheld.1]
  | setEnvNil hret hp =>
    cases h
    obtain rfl := hj.eq_out hij hm.1
    exact hj
  | envClose hp =>
    cases h
    obtain rfl := hj.eq_out hij hm.1
    exact hj
  | rLock hp =>
    obtain ⟨l, hl, heq⟩ := Option.map_eq_some_iff.mp h
    cases heq
    obtain ⟨hw, rfl⟩ := RWMutex.rLock_eq_some.mp hl
    cases mj with
    | out =>
      have hcount : g.closeLock.readers.count j = 0 := (held_of_reading hw).symm.trans hj
      simp [Mode.Holds, RWMutex.held, hw, hcount, List.count_cons_of_ne hij]
    | reading open_ =>
      refine ⟨?_, hj.2⟩
      rw [List.count_cons_of_ne hij]
      exact hj.1
    | settled | opened | closed ret => exact hj
  | rUnlock hp =>
    cases h
    have hcount : (g.closeLock.rUnlock i).readers.count j = g.closeLock.readers.count j :=
      List.count_erase_of_ne (Ne.symm hij)
    cases mj with
    | out =>
      have hheld : g.closeLock.held j = 0 := hj
      simp only [RWMutex.held] at hheld
      simp only [Mode.Holds, RWMutex.held, hcount]
      exact hheld
    | reading open_ => exact ⟨hcount.trans hj.1, hj.2⟩
    | settled | opened | closed ret => exact hj
  | _ =>
    cases h
    cases mj <;> exact hj

/-! ### All calls -/

open Threads Transition

variable {s s' : Threads Guard Call} {ok : Threads Guard Call → Threads.Event Method Choice → Prop}

theorem program_step {c c' : Call} {new : List Call}
    (h : program.step g i c x = some (g', c', new)) :
    step g i x c.rest = some (g', c'.rest) ∧ c'.method = c.method ∧ new = [] := by
  obtain ⟨⟨g₁, p⟩, hstep, heq⟩ := Option.map_eq_some_iff.mp h
  cases heq
  exact ⟨hstep, rfl, rfl⟩

/-- A call that has exited makes no step. -/
theorem not_step_exit {e : Exit} (h : step g i x (.exit e) = some (g', p')) : False := by
  cases h

theorem init_shared (hg : program.init g) : Shared g 0 := by
  obtain ⟨henv, hlock, halive, hissued⟩ := hg
  refine ⟨?_, ?_, ?_, ?_, ?_⟩
  · rw [hlock]
    exact fun _ => rfl
  · rw [henv, halive]
    exact fun _ => rfl
  · rw [halive, hissued]
    exact ⟨by simp, by simp, by simp⟩
  · rw [hlock]
    simp
  · rw [hlock]
    simp

theorem start_disciplined (hs : Shared g n) (m : Method) :
    Disciplined g n (program.start m) := ⟨.out, hs.held_new, keeps_prog m⟩

/-- The outline of all calls. -/
theorem outline : program.Outline ok Shared fun g i c => Disciplined g i c ∨ Leaked g i c where
  init g hg := init_shared hg
  enters s m hs _ := ⟨hs.enters, .inl (start_disciplined hs m)⟩
  step s i c x g' c' new hs ho _ hi h := by
    obtain ⟨hstep, hmethod, rfl⟩ := program_step h
    have hlt := (List.getElem?_eq_some_iff.mp hi).1
    rcases ho with ⟨m, hm, hk⟩ | ⟨-, e, hexit⟩
    · refine ⟨hk.shared hlt hs hm hstep, ?_, by simp⟩
      rcases hk.own hs hm hstep hmethod with hd | ⟨-, hl⟩
      · exact .inl hd
      · exact .inr hl
    · rw [hexit] at hstep
      exact absurd hstep (fun h => not_step_exit h)
  others g i c x g' c' new n j d hs ho hd hij h := by
    obtain ⟨hstep, -, -⟩ := program_step h
    rcases ho with ⟨m, hm, hk⟩ | ⟨-, e, hexit⟩
    · rcases hd with ⟨mj, hj, hkj⟩ | ⟨hj, hexit⟩
      · exact .inl ⟨mj, hk.others hij hm hstep hj, hkj⟩
      · exact .inr ⟨hk.others hij hm hstep hj, hexit⟩
    · rw [hexit] at hstep
      exact absurd hstep (fun h => not_step_exit h)

/-- A new `Close` succeeds when nobody is in its way and the environment is not busy. -/
theorem close_succeeds {ts : List Call} (run : (program.system.after s).Reachable ⟨g, ts⟩)
    (hlock : g.closeLock = {}) (henv : g.env = true) (halive : g.alive = true) :
    ∃ s', (program.system.after s).Reachable s' ∧
      s'.shared.issued = g.issued ++ [.envClose Code.success true] ∧ s'.shared.env = false ∧
      s'.shared.closeLock = {} ∧
      ∃ c ∈ s'.threads, c.method = .close ∧ c.rest = .exit (.returned {}) := by
  obtain ⟨env, lock, strict, txns, alive, issued⟩ := g
  obtain rfl : lock = {} := hlock
  obtain rfl : env = true := henv
  obtain rfl : alive = true := halive
  have step : ∀ {g t : Guard} {c c' : Call},
      (program.system.after s).Reachable ⟨g, ts ++ [c]⟩ →
      program.step g ts.length c {} = some (t, c', []) →
      (program.system.after s).Reachable ⟨t, ts ++ [c']⟩ :=
    fun run h => run.next (e := .run ts.length {}) trivial (Program.next_last h)
  have entered := run.next (e := .enter .close) trivial rfl
  have locked := step entered rfl
  have opened := step locked rfl
  have closed := step opened rfl
  have cleared := step closed rfl
  have unlocked := step cleared rfl
  exact ⟨_, unlocked, rfl, rfl, rfl, _, List.mem_append_right _ (List.mem_singleton_self _), rfl,
    rfl⟩

/-- The environment is not touched after its close: no call into libmdbx comes after the one that
destroyed it, `_env` is nil exactly when it was destroyed, which every close but a busy one does,
and after a busy one a later `Close` may succeed. Between the close of libmdbx and the assignment to
`_env` the writer holds the lock. -/
theorem close_guards (run : program.system.Reachable s) :
    (∀ pre c post, s.shared.issued = pre ++ c :: post → c.destroys = true → post = []) ∧
    (s.shared.closeLock.writer = none →
      (s.shared.env = false ↔ ∃ ret, .envClose ret true ∈ s.shared.issued)) ∧
    (∀ ret destroyed, .envClose ret destroyed ∈ s.shared.issued →
      (destroyed = false ↔ ret = Code.busy)) ∧
    ∀ (i : Nat) (c : Call), s.threads[i]? = some c → c.rest = .unlock (.exit busyExit) →
      s.shared.env = true ∧ s.shared.alive = true ∧
      ∃ s', (program.system.after s).Reachable s' ∧
        s'.shared.issued = s.shared.issued ++ [.envClose Code.success true] ∧
        s'.shared.env = false ∧ s'.shared.closeLock = {} ∧
        ∃ c ∈ s'.threads, c.method = .close ∧ c.rest = .exit (.returned {}) := by
  obtain ⟨hs, own⟩ := outline.holds run
  refine ⟨hs.ordered.last, ?_, hs.ordered.busy, ?_⟩
  · intro hw
    rw [hs.quiet hw]
    constructor
    · intro hdead
      have hsome : ¬∀ c ∈ s.shared.issued, c.destroys = false := by
        rw [← hs.ordered.alive, hdead]
        exact Bool.false_ne_true
      obtain ⟨c, hmem, hc⟩ := by simpa only [not_forall, exists_prop] using hsome
      cases c with
      | txn c => exact absurd rfl hc
      | envClose ret destroyed =>
        obtain rfl : destroyed = true := eq_true_of_ne_false hc
        exact ⟨ret, hmem⟩
    · rintro ⟨ret, hmem⟩
      rw [Bool.eq_false_iff]
      intro halive
      exact Bool.noConfusion (hs.ordered.alive.mp halive _ hmem : true = false)
  · intro i c hi hrest
    have ho := own i c hi
    rcases ho with ⟨m, hm, hk⟩ | ⟨-, e, he⟩
    · rw [hrest] at hk
      cases hk with
      | unlock _ hne => exact absurd rfl hne
      | unlockBusy hp =>
        obtain ⟨hw, henv, hbusy⟩ := hm
        have halive := hbusy.mp rfl
        have hreaders : s.shared.closeLock.readers = [] := hs.exclusive (by rw [hw]; simp)
        have hstep : (program.system.after s).step s (.run i {}) = some
            ⟨{ s.shared with closeLock := s.shared.closeLock.unlock },
              s.threads.set i { c with rest := .exit busyExit } ++ []⟩ := by
          simp [System.after, Program.system, Program.next, hi, program, step, hrest]
        have now : (program.system.after s).Reachable s := .start rfl
        have run' := now.next trivial hstep
        have hlock : s.shared.closeLock.unlock = {} := by simp [RWMutex.unlock, hreaders]
        obtain ⟨s', later, rest⟩ := close_succeeds run' hlock henv halive
        exact ⟨henv, halive, s', later, rest⟩
    · rw [hrest] at he
      cases he

/-- A `Close` that finds a writer on another thread, after an `Abort`. -/
def busyClose : List (Threads.Event Method Choice) :=
  [.enter (.abort 0), .enter .close, .run 0 {}, .run 0 {}, .run 0 {}, .run 0 {}, .run 0 {},
    .run 0 {}, .run 0 {}, .run 0 {}, .run 1 {}, .run 1 {},
      .run 1 { closing := { otherOwner := true } }]

theorem close_guards_busyClose : ∃ s, program.system.Reachable s ∧
    s.shared.issued = [.txn (.abort 0), .envClose Code.busy false] ∧ s.shared.env = true ∧
    ∃ s', (program.system.after s).Reachable s' ∧
      s'.shared.issued = s.shared.issued ++ [.envClose Code.success true] := by
  have start : program.system.Reachable ⟨{ txns := fun _ => { ptr := some .basal } }, []⟩ :=
    .start ⟨⟨rfl, rfl, rfl, rfl⟩, rfl⟩
  have run := start.replay busyClose rfl
  obtain ⟨-, -, -, later⟩ := close_guards run
  obtain ⟨henv, -, s', hs', hissued, -⟩ := later 1 _ rfl rfl
  exact ⟨_, run, rfl, henv, s', hs', hissued⟩

/-! ### What the calls give back -/

/-- The step is not that of an `abort` which holds the lock and is on another thread than the one
of its handle, in strict mode. -/
def SameThread (s : Threads Guard Call) : Threads.Event Method Choice → Prop
  | .run i x => ∀ c ∈ s.threads[i]?, c.OnThread s.shared i x
  | .enter _ => True

/-- A call that has exited, with or without a panic, holds the lock as often as before it. -/
def Balanced (s : Threads Guard Call) : Prop :=
  ∀ (i : Nat) (c : Call), s.threads[i]? = some c → (∃ e, c.rest = .exit e) →
    s.shared.closeLock.held i = 0

/-- The outline of the calls that no such panic ends. -/
theorem outline_sameThread : program.Outline SameThread Shared Disciplined where
  init g hg := init_shared hg
  enters s m hs _ := ⟨hs.enters, start_disciplined hs m⟩
  step s i c x g' c' new hs ho hok hi h := by
    obtain ⟨hstep, hmethod, rfl⟩ := program_step h
    have hlt := (List.getElem?_eq_some_iff.mp hi).1
    obtain ⟨m, hm, hk⟩ := ho
    refine ⟨hk.shared hlt hs hm hstep, ?_, by simp⟩
    rcases hk.own hs hm hstep hmethod with hd | ⟨hoff, -⟩
    · exact hd
    · exact absurd (hok c hi) hoff
  others g i c x g' c' new n j d hs ho hd hij h := by
    obtain ⟨hstep, -, -⟩ := program_step h
    obtain ⟨m, hm, hk⟩ := ho
    obtain ⟨mj, hj, hkj⟩ := hd
    exact ⟨mj, hk.others hij hm hstep hj, hkj⟩

/-- The lock is given back on every exit while each `abort` in strict mode finds itself on the
thread of its handle; the first that does not leaves the lock held. -/
theorem closeLock_balanced (s : Threads Guard Call) (run : program.system.Reachable s) :
    (program.system.Reaches SameThread s → Balanced s) ∧
    ∀ e s', ¬SameThread s e → program.system.step s e = some s' → ¬Balanced s' := by
  constructor
  · rintro hsame i c hi ⟨e, he⟩
    obtain ⟨m, hm, hk⟩ := (outline_sameThread.holds hsame).2 i c hi
    rw [he] at hk
    cases hk with
    | exit _ => exact hm
  · intro e s' hoff hstep hbalanced
    cases e with
    | enter m => exact hoff trivial
    | run i x =>
      obtain ⟨c, c', new, hc, hr, hthreads⟩ := Program.next_run hstep
      obtain ⟨hprog, hmethod, -⟩ := program_step hr
      have hself : s'.threads[i]? = some c' := by
        rw [hthreads]
        exact Program.thread_self hc
      have hoff : ¬c.OnThread s.shared i x := by
        intro hon
        apply hoff
        intro d hd
        obtain rfl := Option.some.inj (hc.symm.trans hd)
        exact hon
      obtain ⟨hs, own⟩ := outline.holds run
      rcases own i c hc with ⟨m, hm, hk⟩ | ⟨-, e, hexit⟩
      · obtain ⟨⟨hcount, -, -⟩, hexit⟩ := hk.leaks hm hoff hprog
        have hheld := hbalanced i c' hself hexit
        simp only [RWMutex.held] at hheld
        omega
      · rw [hexit] at hprog
        exact not_step_exit hprog

instance (s : Threads Guard Call) (e : Threads.Event Method Choice) : Decidable (SameThread s e) :=
  match e with
  | .run i _ => inferInstanceAs (Decidable (∀ c ∈ s.threads[i]?, _ → _ → ∀ h ∈ c.rest.checks, _))
  | .enter _ => isTrue trivial

/-- An `Abort` in strict mode from thread 2 on a handle that thread 1 opened. -/
def otherThread : List (Threads.Event Method Choice) :=
  [.enter (.abort 0), .run 0 {}, .run 0 {}, .run 0 {}, .run 0 {}, .run 0 {}]

def opened : Threads Guard Call :=
  ⟨{ strictThreadCheck := true, txns := fun _ => { ptr := some .basal, tid := 1 } }, []⟩

/-- It panics and keeps the lock: a `Close` can then not start. -/
theorem not_balanced_otherThread : ¬∀ s, program.system.Reachable s → Balanced s := by
  intro all
  have start : program.system.Reachable opened := .start ⟨⟨rfl, rfl, rfl, rfl⟩, rfl⟩
  have run := start.replay (otherThread ++ [.run 0 { thread := 2 }]) rfl
  exact Nat.one_ne_zero (all _ run 0 _ rfl ⟨_, rfl⟩)

/-- The same `Abort` from the thread of the handle gives the lock back. -/
theorem closeLock_balanced_opened :
    (∃ s, program.system.Reaches SameThread s ∧ Balanced s ∧
      s.shared.issued = [.txn (.abort 0)]) ∧
    ∃ s, program.system.Reachable s ∧ ¬Balanced s := by
  constructor
  · have start : program.system.Reaches SameThread opened := .start ⟨⟨rfl, rfl, rfl, rfl⟩, rfl⟩
    have run := start.replay [.enter (.abort 0), .run 0 {}, .run 0 {}, .run 0 {}, .run 0 {},
      .run 0 {}, .run 0 { thread := 1 }, .run 0 {}, .run 0 {}, .run 0 {}, .run 0 {}] rfl
    exact ⟨_, run, (closeLock_balanced _ run.reachable).1 run, rfl⟩
  · have start : program.system.Reachable opened := .start ⟨⟨rfl, rfl, rfl, rfl⟩, rfl⟩
    have run := start.replay otherThread rfl
    refine ⟨_, run.next (e := .run 0 { thread := 2 }) trivial rfl,
      (closeLock_balanced _ run).2 (.run 0 { thread := 2 }) _ ?_ rfl⟩
    intro on
    exact absurd (on _ rfl rfl List.mem_cons_self 0 rfl) (by decide)

end CloseGuard

end MdbxGo
