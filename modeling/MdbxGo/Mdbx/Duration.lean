import MdbxGo.Word
import MdbxGo.Mdbx.Txn
import Mathlib.Logic.Function.Iterate

/-! Durations as libmdbx counts them, in 65536ths of a second, and their way through the Go layer:
the conversions from and to nanoseconds, and the cast to a C `unsigned`. -/

namespace MdbxGo

/-- `time.Duration`: nanoseconds. -/
abbrev Duration := Int64

/-- `time.Second` -/
def second : Duration := 1000000000

abbrev Duration16dot16 := UInt64

/-- `time.Second / 65536`, a constant expression: the quotient of two integers. -/
def unit16dot16 : Duration := second / 65536

def Duration16dot16.toDuration (d : Duration16dot16) : Duration := d.toInt64 * unit16dot16

def newDuration16dot16 (duration : Duration) : Duration16dot16 := (duration / unit16dot16).toUInt64

variable {d : Duration} {x : Duration16dot16}

/-! ### The two conversions -/

theorem unit16dot16_toInt : unit16dot16.toInt = 15258 := by decide

theorem newDuration16dot16_toNat (d : Duration) :
    ((newDuration16dot16 d).toNat : Int) = d.toInt.tdiv 15258 % 2 ^ 64 := by
  unfold newDuration16dot16
  rw [Int64.toNat_toUInt64_eq_emod, Int64.toInt_div, unit16dot16_toInt]
  exact Int.bmod_emod

/-- A duration that is not negative is rounded down to a whole number of units. -/
theorem newDuration16dot16_of_nonneg (h : 0 ≤ d.toInt) :
    ((newDuration16dot16 d).toNat : Int) = d.toInt / 15258 := by
  have hmax := d.toInt_lt
  rw [newDuration16dot16_toNat, Int.tdiv_eq_ediv_of_nonneg h]
  omega

/-- Without an overflow the conversion is the product with the unit. -/
theorem toDuration_toInt (h : x.toNat * 15258 < 2 ^ 63) :
    x.toDuration.toInt = x.toNat * 15258 := by
  unfold Duration16dot16.toDuration
  rw [Int64.toInt_mul, unit16dot16_toInt, UInt64.toInt_toInt64_of_lt (by omega)]
  exact Int.bmod_eq_of_le (by omega) (by omega)

/-- A duration that was set, as it is got back. -/
def Duration.rounded (d : Duration) : Duration := (newDuration16dot16 d).toDuration

/-- What is got back of a duration that is not negative is the whole units of it. -/
theorem rounded_toInt (h : 0 ≤ d.toInt) : d.rounded.toInt = d.toInt / 15258 * 15258 := by
  have hunits := newDuration16dot16_of_nonneg h
  have hmax := d.toInt_lt
  unfold Duration.rounded
  rw [toDuration_toInt (by omega), hunits]

theorem newDuration16dot16_toDuration (h : x.toNat * 15258 < 2 ^ 63) :
    newDuration16dot16 x.toDuration = x := by
  have hproduct := toDuration_toInt h
  have hunits := newDuration16dot16_of_nonneg (d := x.toDuration) (by omega)
  apply UInt64.toNat_inj.mp
  omega

/-- Whole units are kept as they are. -/
theorem rounded_rounded (h : 0 ≤ d.toInt) : d.rounded.rounded = d.rounded := by
  have hunits := newDuration16dot16_of_nonneg h
  have hmax := d.toInt_lt
  have hsame : newDuration16dot16 d.rounded = newDuration16dot16 d :=
    newDuration16dot16_toDuration (by omega)
  unfold Duration.rounded at hsame ⊢
  rw [hsame]

/-- Nothing is lost of a number of units that can be told in nanoseconds; less than one unit is lost
of a duration, and however often it is got and set again, nothing after the first time. -/
theorem duration_round_trip :
    (∀ x : Duration16dot16, x.toNat * unit16dot16.toInt < 2 ^ 63 →
      newDuration16dot16 x.toDuration = x) ∧
    ∀ d : Duration, 0 ≤ d.toInt →
      (0 ≤ d.toInt - (newDuration16dot16 d).toDuration.toInt ∧
        d.toInt - (newDuration16dot16 d).toDuration.toInt < unit16dot16.toInt) ∧
      ∀ n : Nat, Duration.rounded^[n + 1] d = (newDuration16dot16 d).toDuration := by
  rw [unit16dot16_toInt]
  constructor
  · intro x hx
    exact newDuration16dot16_toDuration (by omega)
  · intro d hd
    have hrounded := rounded_toInt hd
    unfold Duration.rounded at hrounded
    refine ⟨by omega, ?_⟩
    intro n
    induction n with
    | zero => rfl
    | succ n ih =>
      rw [Function.iterate_succ_apply', ih]
      exact rounded_rounded hd

theorem duration_round_trip_hour :
    newDuration16dot16 (Duration16dot16.toDuration 604494169409803) = 604494169409803 ∧
    3600000000000 - (newDuration16dot16 3600000000000).toDuration.toInt < unit16dot16.toInt :=
  ⟨duration_round_trip.1 604494169409803 (by decide),
    (duration_round_trip.2 3600000000000 (by decide)).1.2⟩

/-! ### What a number of units stands for -/

/-- The two numbers of nanoseconds are within one 65536th of a second. -/
def Near (a b : Duration) : Prop := (a.toInt - b.toInt).natAbs * 65536 ≤ 10 ^ 9

/-- `x` 65536ths of a second are a number of nanoseconds that an `int64` can hold. -/
def Duration16dot16.Fits (x : Duration16dot16) : Prop := x.toNat * 10 ^ 9 ≤ (2 ^ 63 - 1) * 65536

/-- The nanoseconds `a` are off by less than one 65536th of a second. -/
def Duration16dot16.Meant (x : Duration16dot16) (a : Duration) : Prop :=
  (a.toInt * 65536 - x.toNat * 10 ^ 9).natAbs < 10 ^ 9

/-- Each unit loses the fraction that the constant `time.Second / 65536` has lost, so only a small
number of units keeps its meaning; and no second but the zeroth has 65536 of them. -/
theorem sixteen_fidelity (n : Int) (x : Duration16dot16)
    (hn : -2 ^ 63 ≤ n * 10 ^ 9 ∧ n * 10 ^ 9 < 2 ^ 63) (hx : x.Fits) :
    (newDuration16dot16 (.ofInt (n * 10 ^ 9)) = .ofInt (n * 65536) ↔ n = 0) ∧
      (x.Meant x.toDuration ↔ x.toNat ≤ 19337) := by
  constructor
  · have hint : (Int64.ofInt (n * 10 ^ 9)).toInt = n * 10 ^ 9 :=
      Int64.toInt_ofInt_of_le hn.1 hn.2
    have hright : ((UInt64.ofInt (n * 65536)).toNat : Int) = n * 65536 % 2 ^ 64 := by
      simp [UInt64.ofInt]
      omega
    rw [← UInt64.toNat_inj, ← Int.natCast_inj, newDuration16dot16_toNat, hint, hright]
    have hquot := Int.mul_tdiv_add_tmod (n * 10 ^ 9) 15258
    have hlt := Int.tmod_lt_of_pos (n * 10 ^ 9) (show (0 : Int) < 15258 by decide)
    have hgt := Int.lt_tmod_of_pos (n * 10 ^ 9) (show (0 : Int) < 15258 by decide)
    constructor
    · intro hmod
      obtain ⟨k, hk⟩ := Int.dvd_of_emod_eq_zero (Int.emod_eq_emod_iff_emod_sub_eq_zero.mp hmod)
      -- the loss of less than 2 ^ 64 units cannot wrap around
      have hzero : k = 0 := by omega
      subst hzero
      omega
    · intro hn
      subst hn
      omega
  · unfold Duration16dot16.Fits at hx
    unfold Duration16dot16.Meant
    rw [toDuration_toInt (by omega)]
    omega

/-- One second becomes 65539 units, and 65536 units become less than a second. -/
theorem second_off : newDuration16dot16 (.ofInt (1 * 10 ^ 9)) ≠ .ofInt (1 * 65536) ∧
    Duration16dot16.Fits 65536 ∧
    ¬Duration16dot16.Meant 65536 (Duration16dot16.toDuration 65536) := by
  unfold Duration16dot16.Fits Duration16dot16.Meant
  decide

theorem sixteen_fidelity_zero : newDuration16dot16 (.ofInt (0 * 10 ^ 9)) = .ofInt (0 * 65536) ∧
    Duration16dot16.Meant 19337 (Duration16dot16.toDuration 19337) := by
  have hfidelity := sixteen_fidelity 0 19337 (by decide) (by unfold Duration16dot16.Fits; decide)
  exact ⟨hfidelity.1.mpr rfl, hfidelity.2.mpr (by decide)⟩

/-! ### On the way to libmdbx -/

/-- `mdbx_env_set_syncperiod`: what it stores, and its code. It may fail before it stores the
period, and in `env_sync` after it. The number is taken to be stored as it is:
`osal_16dot16_to_monotime` on the way in and `osal_monotime_to_16dot16` on the way out, whose
rounding may take one from it, are left out. -/
def mdbxEnvSetSyncperiod (refused sync : Option Failure) (period seconds16dot16 : UInt32) :
    UInt32 × Code :=
  match refused with
  | some e => (period, e.code)
  | none => (seconds16dot16, Failure.codeOf sync)

/-- `mdbxgo_env_get_syncperiod` -/
def mdbxgoEnvGetSyncperiod (refused : Option Failure) (period : UInt32) : UInt32 × Code :=
  match refused with
  | some e => (0, e.code)
  | none => (period, Code.success)

/-- `SetSyncPeriod`, with the cast `C.uint(NewDuration16dot16(value))`. -/
def setSyncPeriod (refused sync : Option Failure) (period : UInt32) (value : Duration) :
    UInt32 × Option GoError :=
  let r := mdbxEnvSetSyncperiod refused sync period (newDuration16dot16 value).toUInt32
  (r.1, operrno "mdbx_env_set_syncperiod" r.2)

def getSyncPeriod (refused : Option Failure) (period : UInt32) : Duration × Option GoError :=
  let r := mdbxgoEnvGetSyncperiod refused period
  (Duration16dot16.toDuration r.1.toUInt64, operrno "mdbx_env_get_syncperiod" r.2)

/-- `EnvWarmup`: the flags and the timeout that it passes to `mdbx_env_warmup`, and its error. -/
def envWarmup (ret : Code) (flags : UInt32) (timeout : Duration) :
    (UInt32 × UInt32) × Option GoError :=
  ((flags, (newDuration16dot16 timeout).toUInt32), operrno "mdbx_env_warmup" ret)

/-- The period that was set is the one that is got, and the timeout that is passed is the one that
was asked for. -/
def Survives (d : Duration) : Prop :=
  (∀ refused sync refused' period, (setSyncPeriod refused sync period d).2 = none →
    let r := getSyncPeriod refused' (setSyncPeriod refused sync period d).1
    r.2 = none → Near r.1 d) ∧
  ∀ ret flags, Near (Duration16dot16.toDuration (envWarmup ret flags d).1.2.toUInt64) d

/-- The units that the cast to a C `unsigned` leaves. -/
theorem cast_toInt (h : 0 ≤ d.toInt) :
    (Duration16dot16.toDuration (newDuration16dot16 d).toUInt32.toUInt64).toInt =
      d.toInt / 15258 % 2 ^ 32 * 15258 := by
  have hunits := newDuration16dot16_of_nonneg h
  have hcast : (newDuration16dot16 d).toUInt32.toUInt64.toNat =
      (newDuration16dot16 d).toNat % 2 ^ 32 := by simp
  rw [toDuration_toInt (by omega), hcast, Int.natCast_emod, hunits]
  rfl

/-- The cast loses nothing of a duration of less than 2 ^ 32 units, about eighteen hours. -/
theorem near_cast_iff (h : 0 ≤ d.toInt) :
    Near (Duration16dot16.toDuration (newDuration16dot16 d).toUInt32.toUInt64) d ↔
      d.toInt < 2 ^ 32 * 15258 := by
  unfold Near
  rw [cast_toInt h]
  omega

/-- A duration survives the trip exactly when it has less than 2 ^ 32 units. -/
theorem survives_iff (h : 0 ≤ d.toInt) : Survives d ↔ d.toInt < 2 ^ 32 * 15258 := by
  constructor
  · intro hsurvives
    exact (near_cast_iff h).mp (hsurvives.2 Code.success 0)
  · intro hlt
    have hnear := (near_cast_iff h).mpr hlt
    refine ⟨?_, fun _ _ => hnear⟩
    intro refused sync refused' period hset
    dsimp only
    intro hget
    cases refused with
    | some e => exact absurd ((operrno_eq_none _).mp hset) (by simp [mdbxEnvSetSyncperiod,
        e.not_success, e.not_resultTrue])
    | none =>
      cases refused' with
      | some e => exact absurd ((operrno_eq_none _).mp hget) (by simp [mdbxgoEnvGetSyncperiod,
          e.not_success, e.not_resultTrue])
      | none => exact hnear

/-- A period of twenty hours is set without an error and is then one of less than two. -/
theorem twenty_hours_lost :
    (setSyncPeriod none none 0 72000000000000).2 = none ∧
    (getSyncPeriod none (setSyncPeriod none none 0 72000000000000).1).2 = none ∧
    ¬Near (getSyncPeriod none (setSyncPeriod none none 0 72000000000000).1).1 72000000000000 := by
  unfold Near
  decide

theorem survives_hour : Survives 3600000000000 :=
  (survives_iff (by decide)).mpr (by decide)

end MdbxGo
