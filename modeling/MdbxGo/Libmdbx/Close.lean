import MdbxGo.Libmdbx.Code

/-! `mdbx_env_close`: what it finds, what it returns and whether it destroys the environment. -/

namespace MdbxGo

namespace Code

def eagain : Code := 11
def ebusy : Code := 16

end Code

/-- What `mdbx_env_close_ex` finds in an environment and gets from the system. -/
structure Closing where
  /-- `env->pid != osal_getpid()` -/
  otherPid : Bool := false
  /-- `env->dxb_mmap.base` -/
  mapped : Bool := true
  /-- `MDBX_RDONLY` and `ENV_FATAL_ERROR` -/
  rdonly : Bool := false
  fatal : Bool := false
  /-- `env->basal_txn`, and a transaction of it whose owner is another thread -/
  basal : Bool := true
  otherOwner : Bool := false
  /-- the `errno` of `fstat`, and `st_nlink == 0` -/
  fstat : Option Nat := none
  unlinked : Bool := false
  /-- `env_sync` and `env_close` -/
  envSync : Code := Code.success
  envClose : Bool := false
deriving DecidableEq

/-- The code of the sync, which does not matter when another process holds the lock. -/
def Closing.syncCode (o : Closing) : Code :=
  match o.fstat with
  | some errno => (errno : Int)
  | none =>
    if o.unlinked then Code.success
    else if o.envSync ∈ [Code.busy, Code.eagain, Code.eaccess, Code.ebusy, Code.resultTrue]
    then Code.success
    else o.envSync

/-- The code, and whether the environment was destroyed and released; `signature` tells whether
`env->signature` still is `env_signature`. -/
def mdbxEnvCloseEx (signature : Bool) (o : Closing) (dontSync : Bool) : Code × Bool :=
  if !signature then (Code.ebadsign, false)
  else
    let live := o.mapped && !(o.rdonly || o.fatal || o.otherPid) && o.basal
    if live && o.otherOwner then (Code.busy, false)
    else
      let rc := if dontSync || !live then Code.success else o.syncCode
      (if o.envClose then Code.panic else rc, true)

def mdbxEnvClose (signature : Bool) (o : Closing) : Code × Bool := mdbxEnvCloseEx signature o false

theorem Closing.syncCode_ne_busy (o : Closing) : o.syncCode ≠ Code.busy := by
  unfold syncCode
  split
  · rename_i errno _
    intro h
    have hn : (0 : Int) ≤ (errno : Int) := Int.natCast_nonneg errno
    rw [h] at hn
    exact absurd hn (by decide)
  · split
    · decide
    · by_cases hc : o.envSync ∈
        [Code.busy, Code.eagain, Code.eaccess, Code.ebusy, Code.resultTrue]
      · rw [if_pos hc]
        decide
      · rw [if_neg hc]
        intro h
        rw [h] at hc
        exact hc List.mem_cons_self

/-- A live environment survives exactly when it is busy. -/
theorem mdbxEnvCloseEx_busy (o : Closing) (dontSync : Bool) :
    (mdbxEnvCloseEx true o dontSync).1 = Code.busy ↔
      (mdbxEnvCloseEx true o dontSync).2 = false := by
  have sync := o.syncCode_ne_busy
  simp only [mdbxEnvCloseEx, Bool.not_true, Bool.false_eq_true, ↓reduceIte]
  split
  · simp
  · simp only [Bool.true_eq_false, iff_false]
    split
    · decide
    · split
      · decide
      · exact sync

end MdbxGo
