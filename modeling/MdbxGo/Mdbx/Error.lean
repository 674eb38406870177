import Mathlib.Data.List.Nodup
import MdbxGo.Libmdbx.Table
import MdbxGo.Mdbx.Txn

/-! Errors and the codes that they were made from: what `operrno` of either platform keeps of a
code, and what `IsErrno`, `errors.Is` and the predicates of `IsErrnoFn` can tell of it. -/

namespace MdbxGo

namespace Code

def pageNotFound : Code := -30797
def corrupted : Code := -30796
def versionMismatch : Code := -30794
def invalid : Code := -30793
def dbsFull : Code := -30791
def readersFull : Code := -30790
def cursorFull : Code := -30787
def pageFull : Code := -30786

end Code

/-- The constants of the type `Errno` that the package exports. -/
inductive ErrnoConst
  | keyExist | notFound | pageNotFound | corrupted | panic | versionMismatch | invalid | mapFull
  | dbsFull | readersFull | txnFull | cursorFull | pageFull | incompatible | badRSlot | badTxn
  | badValSize | badDBI | perm | ousted
deriving DecidableEq, Repr

def ErrnoConst.code : ErrnoConst → Code
  | keyExist => Code.keyExist
  | notFound => Code.notFound
  | pageNotFound => Code.pageNotFound
  | corrupted => Code.corrupted
  | panic => Code.panic
  | versionMismatch => Code.versionMismatch
  | invalid => Code.invalid
  | mapFull => Code.mapFull
  | dbsFull => Code.dbsFull
  | readersFull => Code.readersFull
  | txnFull => Code.txnFull
  | cursorFull => Code.cursorFull
  | pageFull => Code.pageFull
  | incompatible => Code.incompatible
  | badRSlot => Code.badRslot
  | badTxn => Code.badTxn
  | badValSize => Code.badValsize
  | badDBI => Code.badDbi
  | perm => Code.eperm
  | ousted => Code.ousted

/-! ### Windows -/

/-- The constants of package `syscall` on Windows for the errno values that are translated.
`syscall.ENOENT` is `ERROR_FILE_NOT_FOUND`, which is 2; for the others it has invented numbers. -/
structure Syscall where
  eio : Code
  enomem : Code
  eacces : Code
  ebusy : Code
  einval : Code
  enospc : Code
  distinct : [2, eio, enomem, eacces, ebusy, einval, enospc].Nodup

/-- The cases of the `switch` in `error_windows.go`, from `C.ENOENT` to `C.ENOSPC`. -/
def Syscall.table (sys : Syscall) : List (Code × Code) :=
  [(2, 2), (5, sys.eio), (12, sys.enomem), (13, sys.eacces), (16, sys.ebusy), (22, sys.einval),
    (28, sys.enospc)]

/-- The `switch` itself, with its `default`. -/
def Syscall.translate (sys : Syscall) (ret : Code) : Code := (sys.table.lookup ret).getD ret

inductive Platform
  | unix
  | windows (sys : Syscall)

namespace Platform

/-- `MDBX_ENODATA`, on Windows `ERROR_HANDLE_EOF`. -/
def enodata : Platform → Code
  | unix => Code.enodata
  | windows _ => 38

/-- The `syscall.Errno` that a code of the system becomes. -/
def translate : Platform → Code → Code
  | unix, ret => ret
  | windows sys, ret => sys.translate ret

/-- `operrno` of `error_unix.go` or of `error_windows.go`. -/
def operrno (p : Platform) (op : String) (ret : Code) : Option GoError :=
  if ret == Code.success || ret == Code.resultTrue then none
  else if ret == Code.notFound then some .notFound
  else if ret == p.enodata then some .noData
  else if minErrno ≤ ret && ret ≤ maxErrno then some (.op op (.mdbx ret))
  else some (.op op (.sys (p.translate ret)))

theorem operrno_unix (op : String) (ret : Code) : unix.operrno op ret = MdbxGo.operrno op ret := rfl

end Platform

/-! ### The tests of an error -/

/-- What `IsErrnoFn` passes on: the `Errno` of an `OpError`, or an error of another type. -/
inductive Underlying
  | errno (e : Errno)
  | other (e : GoError)
deriving DecidableEq

def GoError.underlying : GoError → Underlying
  | .op _ e => .errno e
  | e => .other e

def isErrnoFn (err : Option GoError) (fn : Underlying → Bool) : Bool :=
  match err with
  | none => false
  | some e => fn e.underlying

/-- `IsErrno`, for an `Errno` of this package. -/
def isErrno (err : Option GoError) (errno : Code) : Bool :=
  isErrnoFn err fun e => e == .errno (.mdbx errno)

def isNotFound (err : Option GoError) : Bool := err == some .notFound

/-- The method `Is` for a target of the type `Errno` of this package, which that of `syscall.Errno`
does not know. -/
def Errno.is (target : Code) : Errno → Bool
  | .mdbx c => target == c
  | .sys _ => false

/-- `errors.Is` with such a target: of these errors only an `OpError` has a method `Is`, which asks
again about its `Errno`. -/
def errorsIs (err : Option GoError) (target : Code) : Bool :=
  match err with
  | some (.op _ e) => e == .mdbx target || e.is target
  | _ => false

variable {p : Platform} {sys : Syscall} {ret c : Code}

/-- For such targets the two tests are one. -/
theorem errorsIs_eq_isErrno (err : Option GoError) (target : Code) :
    errorsIs err target = isErrno err target := by
  rcases err with _ | e
  · rfl
  · cases e with
    | op name errno => cases errno with
      | mdbx c =>
        rw [Bool.eq_iff_iff]
        simp only [errorsIs, isErrno, isErrnoFn, GoError.underlying, Errno.is, Bool.or_eq_true,
          beq_iff_eq, Errno.mdbx.injEq, Underlying.errno.injEq]
        exact ⟨fun h => h.elim id Eq.symm, .inl⟩
      | sys c => rfl
    | notFound | noData | fn => rfl

/-! ### What an error keeps of a code -/

namespace Platform

/-- What the predicates see of the error that a failing code becomes. -/
def seen (p : Platform) (ret : Code) : Underlying :=
  if ret = Code.notFound then .other .notFound
  else if ret = p.enodata then .other .noData
  else if minErrno ≤ ret ∧ ret ≤ maxErrno then .errno (.mdbx ret)
  else .errno (.sys (p.translate ret))

theorem operrno_eq_none (op : String) :
    p.operrno op ret = none ↔ ret = Code.success ∨ ret = Code.resultTrue := by
  constructor
  · intro h
    by_contra hret
    rw [operrno, if_neg (by simpa using hret)] at h
    split at h
    · cases h
    · split at h
      · cases h
      · split at h <;> cases h
  · intro hret
    rw [operrno, if_pos (by simpa using hret)]

theorem isNotFound_operrno (op : String) :
    isNotFound (p.operrno op ret) = true ↔ ret = Code.notFound := by
  constructor
  · intro h
    rw [isNotFound, beq_iff_eq, operrno] at h
    split at h
    · cases h
    · split at h
      · rename_i hfound
        simpa using hfound
      · split at h
        · cases h
        · split at h <;> cases h
  · rintro rfl
    rfl

/-- A predicate is asked about what is seen of a failing code. -/
theorem isErrnoFn_operrno (op : String) (hret : ¬(ret = Code.success ∨ ret = Code.resultTrue))
    (fn : Underlying → Bool) : isErrnoFn (p.operrno op ret) fn = fn (p.seen ret) := by
  rw [operrno, if_neg (by simpa using hret)]
  simp only [seen, beq_iff_eq, Bool.and_eq_true, decide_eq_true_eq]
  split
  · rfl
  · split
    · rfl
    · split <;> rfl

/-- Of the codes of the library all are seen but that of a key not found. -/
theorem seen_eq_mdbx : p.seen ret = .errno (.mdbx c) ↔
    ret = c ∧ ret ≠ Code.notFound ∧ minErrno ≤ ret ∧ ret ≤ maxErrno := by
  have hdata : ¬(minErrno ≤ p.enodata ∧ p.enodata ≤ maxErrno) := by
    cases p <;> simp only [enodata] <;> decide
  unfold seen
  split
  · rename_i hfound
    simp [hfound]
  · rename_i hfound
    split
    · rename_i hnodata
      rw [hnodata]
      simp [hdata]
    · split
      · rename_i hrange
        simp [hfound, hrange]
      · rename_i hrange
        simp [hrange]

end Platform

/-- All exported constants but `Perm` lie between `minErrno` and `maxErrno`. -/
theorem ErrnoConst.range (e : ErrnoConst) (h : e ≠ .perm) :
    minErrno ≤ e.code ∧ e.code ≤ maxErrno := by
  cases e with
  | perm => exact absurd rfl h
  | _ => decide

theorem ErrnoConst.code_eq_notFound {e : ErrnoConst} : e.code = Code.notFound ↔ e = .notFound := by
  cases e <;> decide

theorem mem_of_lookup {α β : Type} [BEq α] [LawfulBEq α] {l : List (α × β)} {k : α} {b : β}
    (h : l.lookup k = some b) : (k, b) ∈ l := by
  obtain ⟨l₁, l₂, rfl, -⟩ := List.lookup_eq_some_iff.mp h
  simp

/-- Two codes are translated to the same only when the one is what the other is translated to. -/
theorem Syscall.translate_inj {r s : Code} (h : sys.translate r = sys.translate s) :
    r = s ∨ r = sys.translate s ∨ s = sys.translate r := by
  have hdistinct : (sys.table.map Prod.snd).Nodup := sys.distinct
  cases hr : sys.table.lookup r with
  | none =>
    have hsame : sys.translate r = r := by simp [translate, hr]
    exact .inr (.inl (hsame.symm.trans h))
  | some v =>
    cases hs : sys.table.lookup s with
    | none =>
      have hsame : sys.translate s = s := by simp [translate, hs]
      exact .inr (.inr (hsame.symm.trans h.symm))
    | some u =>
      have hvu : v = u := by simpa [translate, hr, hs] using h
      have hpair := List.inj_on_of_nodup_map hdistinct (mem_of_lookup hr)
        (mem_of_lookup hs) hvu
      exact .inl (congrArg Prod.fst hpair)

theorem Platform.translate_inj {r s : Code} (h : p.translate r = p.translate s) :
    r = s ∨ r = p.translate s ∨ s = p.translate r := by
  cases p with
  | unix => exact .inl h
  | windows sys => exact sys.translate_inj h

/-- The same is seen of two codes only when the one is what the other is translated to. -/
theorem Platform.seen_inj {r s : Code} (h : p.seen r = p.seen s) :
    r = s ∨ r = p.translate s ∨ s = p.translate r := by
  unfold seen at h
  grind [Platform.translate_inj]

/-- A constant is found exactly in the error of its code, but that of a key not found, which has an
error and a test of its own; and predicates tell the errors of two failing codes apart, unless the
system knows the one code by the number of the other. -/
theorem errnos_survive (p : Platform) (op : String) (ret : Code) :
    (p.operrno op ret = none ↔ ret = Code.success ∨ ret = Code.resultTrue) ∧
    (∀ e : ErrnoConst, e ≠ .perm →
      (isErrno (p.operrno op ret) e.code = true ↔ ret = e.code ∧ e ≠ .notFound) ∧
      (errorsIs (p.operrno op ret) e.code = true ↔ ret = e.code ∧ e ≠ .notFound)) ∧
    (isNotFound (p.operrno op ret) = true ↔ ret = Code.notFound) ∧
    ∀ s : Code, p.operrno op ret ≠ none → p.operrno op s ≠ none → ret ≠ s →
      ret ≠ p.translate s → s ≠ p.translate ret →
      ∃ fn, isErrnoFn (p.operrno op ret) fn ≠ isErrnoFn (p.operrno op s) fn := by
  have hisErrno : ∀ e : ErrnoConst, e ≠ .perm →
      (isErrno (p.operrno op ret) e.code = true ↔ ret = e.code ∧ e ≠ .notFound) := by
    intro e hperm
    have hrange := e.range hperm
    by_cases hret : ret = Code.success ∨ ret = Code.resultTrue
    · rw [(Platform.operrno_eq_none op).mpr hret]
      simp only [isErrno, isErrnoFn, Bool.false_eq_true, false_iff, not_and]
      rintro rfl
      rcases hret with hret | hret <;> rw [hret] at hrange <;> exact absurd hrange (by decide)
    · rw [isErrno, Platform.isErrnoFn_operrno op hret, beq_iff_eq, Platform.seen_eq_mdbx]
      constructor
      · rintro ⟨rfl, hfound, -⟩
        exact ⟨rfl, mt ErrnoConst.code_eq_notFound.mpr hfound⟩
      · rintro ⟨rfl, hfound⟩
        exact ⟨rfl, mt ErrnoConst.code_eq_notFound.mp hfound, hrange⟩
  refine ⟨Platform.operrno_eq_none op, fun e hperm => ⟨hisErrno e hperm, ?_⟩,
    Platform.isNotFound_operrno op, ?_⟩
  · rw [errorsIs_eq_isErrno]
    exact hisErrno e hperm
  · intro s hret hs hne htranslated htranslates
    rw [Ne, Platform.operrno_eq_none] at hret hs
    refine ⟨fun e => e == p.seen ret, ?_⟩
    rw [Platform.isErrnoFn_operrno op hret, Platform.isErrnoFn_operrno op hs, beq_self_eq_true,
      Ne, eq_comm, beq_iff_eq]
    intro hseen
    rcases Platform.seen_inj hseen with rfl | h | h
    · exact hne rfl
    · exact htranslates h
    · exact htranslated h

/-- `IsErrno` and `errors.Is` do not find the constant of a key not found. -/
theorem notFound_lost : operrno "mdbx_get" ErrnoConst.notFound.code ≠ none ∧
    isErrno (operrno "mdbx_get" ErrnoConst.notFound.code) ErrnoConst.notFound.code = false ∧
    errorsIs (operrno "mdbx_get" ErrnoConst.notFound.code) ErrnoConst.notFound.code = false := by
  decide

/-- `Perm` lies outside of the range of the `Errno` that `operrno` makes, and is never found. -/
theorem perm_lost (p : Platform) (op : String) (ret : Code) :
    isErrno (p.operrno op ret) ErrnoConst.perm.code = false := by
  by_cases hret : ret = Code.success ∨ ret = Code.resultTrue
  · rw [(Platform.operrno_eq_none op).mpr hret]
    rfl
  · rw [isErrno, Platform.isErrnoFn_operrno op hret, beq_eq_false_iff_ne, Ne, Platform.seen_eq_mdbx]
    rintro ⟨rfl, -, -, hmax⟩
    exact absurd hmax (by decide)

end MdbxGo
