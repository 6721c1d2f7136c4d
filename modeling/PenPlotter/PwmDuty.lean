import PenPlotter.PidStability
import PenPlotter.Pwm

/-!
# The pulse of the motor PWM (`rtl/pid_peripheral/pwm.sv`)

The counter and the threshold are `$clog2(Period)` bits wide. Both fit: the counter runs through `0, …, Period - 1`,
and a duty of 255 parts of 256 stays below the period. So every window of `Period` cycles has the same pulse.
-/

namespace PenPlotter

section

variable (ClockRate PwmFreq : Int)

/-- `Period`; the division of `int`s truncates. -/
def pwmPeriod : Int := ClockRate.tdiv PwmFreq

/-- `$clog2(Period)`. -/
def pwmCounterWidth : Nat := clog2 (pwmPeriod ClockRate PwmFreq).toNat

/-- `pwm`. -/
structure PwmState where
  counter : BitVec (pwmCounterWidth ClockRate PwmFreq)

/-- `threshold`. -/
def pwmThreshold (dutyI : BitVec 8) : BitVec (pwmCounterWidth ClockRate PwmFreq) :=
  ((dutyI.setWidth 32 * BitVec.ofInt 32 (pwmPeriod ClockRate PwmFreq)) >>> 8).setWidth
    (pwmCounterWidth ClockRate PwmFreq)

/-- `$clog2(Period)'(Period - 1)`. -/
def pwmLast : BitVec (pwmCounterWidth ClockRate PwmFreq) := BitVec.ofInt _ (pwmPeriod ClockRate PwmFreq - 1)

variable {ClockRate PwmFreq}

namespace PwmState

variable (s : PwmState ClockRate PwmFreq) (dutyI : BitVec 8)

def reset : PwmState ClockRate PwmFreq := ⟨0⟩

def pwmO : Bool := s.counter < pwmThreshold ClockRate PwmFreq dutyI

def step : PwmState ClockRate PwmFreq :=
  ⟨if s.counter == pwmLast ClockRate PwmFreq then 0 else s.counter + 1⟩

end PwmState

/-- `pwm_o` in cycle `t` after reset. -/
def motorPwmOut (ClockRate PwmFreq : Int) (duty : Nat → BitVec 8) (t : Nat) : Bool :=
  (Clocked.run (fun s _ => PwmState.step s) (.reset : PwmState ClockRate PwmFreq) duty t).pwmO (duty t)

end

section Period

variable {ClockRate PwmFreq : Int} {P : Nat} (hP : pwmPeriod ClockRate PwmFreq = P) (htwo : 2 ≤ P)
include hP htwo

theorem pwmPeriod_le : P ≤ 2 ^ pwmCounterWidth ClockRate PwmFreq := by
  have hlt := lt_two_pow_clog2 htwo
  rw [pwmCounterWidth, hP, Int.toNat_natCast]
  omega

/-- The last value of the counter fits its width, also when `Period` itself does not. -/
theorem toNat_pwmLast : (pwmLast ClockRate PwmFreq).toNat = P - 1 := by
  have hle := pwmPeriod_le hP htwo
  have hlast : pwmPeriod ClockRate PwmFreq - 1 = ((P - 1 : Nat) : Int) := by
    rw [hP]
    omega
  rw [pwmLast, hlast, BitVec.ofInt_natCast, BitVec.toNat_ofNat]
  exact Nat.mod_eq_of_lt (by omega)

/-- The product fits 32 bits, and 255 parts of 256 of the period fit the width of the counter. -/
theorem toNat_pwmThreshold (hfits : 255 * P < 2 ^ 32) (dutyI : BitVec 8) :
    (pwmThreshold ClockRate PwmFreq dutyI).toNat = dutyI.toNat * P / 256 := by
  have hle := pwmPeriod_le hP htwo
  have hduty : dutyI.toNat ≤ 255 := Nat.le_of_lt_succ dutyI.isLt
  have hprod : dutyI.toNat * P ≤ 255 * P := Nat.mul_le_mul_right P hduty
  have hmul : (dutyI.setWidth 32 * BitVec.ofInt 32 (pwmPeriod ClockRate PwmFreq)).toNat = dutyI.toNat * P := by
    rw [hP, BitVec.ofInt_natCast, BitVec.toNat_mul, BitVec.toNat_setWidth_of_le (by decide), BitVec.toNat_ofNat,
      Nat.mod_eq_of_lt (show P < 2 ^ 32 by omega)]
    exact Nat.mod_eq_of_lt (by omega)
  rw [pwmThreshold, BitVec.toNat_setWidth, BitVec.toNat_ushiftRight, hmul, Nat.shiftRight_eq_div_pow]
  exact Nat.mod_eq_of_lt (by omega)

theorem pwmCounter_step (s : PwmState ClockRate PwmFreq) (hlt : s.counter.toNat < P) :
    s.step.counter.toNat = (s.counter.toNat + 1) % P := by
  have hle := pwmPeriod_le hP htwo
  have hlast := toNat_pwmLast hP htwo
  rw [PwmState.step]
  by_cases heq : s.counter = pwmLast ClockRate PwmFreq
  · rw [if_pos (beq_iff_eq.2 heq), heq, hlast, Nat.sub_add_cancel (by omega), Nat.mod_self]
    rfl
  · have hne : s.counter.toNat ≠ P - 1 := fun h => heq (BitVec.eq_of_toNat_eq (h.trans hlast.symm))
    have hone : (1 : BitVec (pwmCounterWidth ClockRate PwmFreq)).toNat = 1 := by
      refine (BitVec.toNat_ofNat 1 _).trans ?_
      exact Nat.mod_eq_of_lt (by omega)
    rw [if_neg (mt beq_iff_eq.1 heq), BitVec.toNat_add, hone, Nat.mod_eq_of_lt (by omega),
      Nat.mod_eq_of_lt (by omega)]

theorem pwmCounter_eq (duty : Nat → BitVec 8) (t : Nat) :
    (Clocked.run (fun s _ => PwmState.step s) (.reset : PwmState ClockRate PwmFreq) duty t).counter.toNat = t % P := by
  induction t with
  | zero => exact (Nat.zero_mod P).symm
  | succ t ih =>
    have hlt : t % P < P := Nat.mod_lt t (by omega)
    rw [Clocked.run_succ, pwmCounter_step hP htwo _ (by rw [ih]; exact hlt), ih, Nat.mod_add_mod]

end Period

/-- The counter and the threshold lose nothing to their width, and a duty that is held over a window of `Period`
cycles, wherever it starts, is high in that share of them. -/
theorem pwm_duty {ClockRate PwmFreq : Int} {P : Nat} (hP : pwmPeriod ClockRate PwmFreq = P) (htwo : 2 ≤ P)
    (hfits : 255 * P < 2 ^ 32) :
    (pwmLast ClockRate PwmFreq).toNat = P - 1 ∧
    (∀ d, (pwmThreshold ClockRate PwmFreq d).toNat = d.toNat * P / 256) ∧
    ∀ (duty : Nat → BitVec 8) (d : BitVec 8) (T : Nat), (∀ j < P, duty (T + j) = d) →
      Nat.count (fun j => motorPwmOut ClockRate PwmFreq duty (T + j) = true) P = d.toNat * P / 256 := by
  refine ⟨toNat_pwmLast hP htwo, toNat_pwmThreshold hP htwo hfits, fun duty d T hheld => ?_⟩
  have hout (j : Nat) (hj : j < P) : motorPwmOut ClockRate PwmFreq duty (T + j) = true ↔
      (T + j) % P < d.toNat * P / 256 := by
    rw [motorPwmOut, hheld j hj, PwmState.pwmO, decide_eq_true_iff, BitVec.lt_def, pwmCounter_eq hP htwo,
      toNat_pwmThreshold hP htwo hfits]
  have hle : d.toNat * P / 256 ≤ P := by
    have hprod : d.toNat * P ≤ 256 * P := Nat.mul_le_mul_right P (Nat.le_of_lt d.isLt)
    omega
  rw [count_congr hout, count_residues]
  exact Nat.min_eq_left hle

/-- A period of 4 cycles, a power of two, and the duty 128. -/
theorem pwm_duty_four :
    Nat.count (fun j => motorPwmOut 100 25 (fun _ => 128) (3 + j) = true) 4 = 128 * 4 / 256 :=
  (pwm_duty (P := 4) (by decide) (by decide) (by decide)).2.2 (fun _ => 128) 128 3 fun _ _ => rfl

end PenPlotter
