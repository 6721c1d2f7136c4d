import PenPlotter.HostSender
import Mathlib.Data.Int.Interval
import Mathlib.Tactic.IntervalCases
import Mathlib.Tactic.Linarith
import Mathlib.Tactic.NormNum
import Mathlib.Tactic.Positivity

/-!
# The servo angle, from the host's float to `PWM->WIDTH`

The hosts send `65535` at 180 degrees. The firmware clamps at `65535` but divides by `66535`, so the pulse
falls behind by `1000 / 66535` of its length (`servo_width_iff`).
-/

namespace PenPlotter

open Firmware Mmio

/-- 1 ms at 0 degrees and 2 ms at 180 degrees, in cycles of 50 MHz. -/
def idealWidth (θ : ℚ) : ℚ := 50000 + 50000 * θ / 180

/-- The length beyond 1 ms, up to two counts less, is covered by the scaled value sent. -/
def ServoOk (θ : ℚ) : Prop := 66535 * (⌈50000 * θ / 180⌉ - 2) ≤ 50000 * ⌊θ * (65535 / 180)⌋

theorem toNat_clamp (v : BitVec 32) : (if 65535#32 ≤ v then 65535#32 else v).toNat = min v.toNat 65535 := by
  have hlit : (65535#32).toNat = 65535 := rfl
  split
  case isTrue h =>
    have := BitVec.le_def.1 h
    omega
  case isFalse h =>
    have := mt BitVec.le_def.2 h
    omega

theorem toNat_scaled (v : BitVec 32) :
    (50000 * if 65535#32 ≤ v then 65535#32 else v).toNat = 50000 * min v.toNat 65535 := by
  have hlit : (50000 : BitVec 32).toNat = 50000 := rfl
  rw [BitVec.toNat_mul, toNat_clamp, hlit]
  omega

theorem toNat_servoWidth (v : BitVec 32) :
    (servoWidth v).toNat = 50000 + 50000 * min v.toNat 65535 / 66535 := by
  have hlit : (50000 : BitVec 32).toNat = 50000 := rfl
  have hdiv : (66535 : BitVec 32).toNat = 66535 := rfl
  have hscaled := toNat_scaled v
  simp only [servoWidth, BitVec.toNat_add, BitVec.toNat_udiv]
  simp only [BitVec.ofNat_eq_ofNat] at hscaled hlit hdiv ⊢
  rw [hscaled, hlit, hdiv]
  omega

theorem executed_servo {resp : Access → BitVec 32} {l : Locals} {regs : BitVec 32 → BitVec 32}
    (v : BitVec 32) : executed resp l (Command.set 5 v).encode regs pwmWidth = servoWidth v := by
  rw [executed_set]
  exact Function.update_self pwmWidth (servoWidth v) regs

section

variable {θ : ℚ} {c : Undefined}

theorem floatToUint32_angle (h0 : 0 ≤ θ) (h180 : θ ≤ 180) :
    (floatToUint32 c (θ * (65535 / 180))).toNat = ⌊θ * (65535 / 180)⌋ ∧ ⌊θ * (65535 / 180)⌋ ≤ 65535 := by
  have hnonneg : 0 ≤ θ * (65535 / 180) := by positivity
  have hle : ⌊θ * (65535 / 180)⌋ ≤ 65535 := by
    have hreal : θ * (65535 / 180) ≤ (65535 : ℤ) := by
      push_cast
      linarith
    exact Int.floor_le_iff.2 (by push_cast at hreal ⊢; linarith)
  have hge : 0 ≤ ⌊θ * (65535 / 180)⌋ := Int.floor_nonneg.2 hnonneg
  refine ⟨?_, hle⟩
  rw [floatToUint32, truncate_of_nonneg hnonneg, if_pos ⟨hge, by omega⟩, BitVec.toNat_ofInt]
  omega

/-- The width falls short of the ideal one, so it is within two counts if it reaches two counts less. -/
theorem within_two_iff {a : ℤ} {w : ℕ} (ha : a = ⌊θ * (65535 / 180)⌋) (h0 : 0 ≤ a)
    (hw : (w : ℤ) = 50000 + 50000 * a / 66535) :
    |(w : ℚ) - idealWidth θ| ≤ 2 ↔ ServoOk θ := by
  have hwq : (w : ℚ) = 50000 + (50000 * a / 66535 : ℤ) := by exact_mod_cast hw
  have hdiv : 66535 * (50000 * a / 66535) ≤ 50000 * a := Int.mul_ediv_self_le (by omega)
  have hsent : (a : ℚ) ≤ θ * (65535 / 180) := by
    rw [ha]
    exact Int.floor_le _
  have hshort : (w : ℚ) ≤ idealWidth θ := by
    have hdivq : 66535 * ((50000 * a / 66535 : ℤ) : ℚ) ≤ 50000 * a := by exact_mod_cast hdiv
    have ha0 : (0 : ℚ) ≤ a := by exact_mod_cast h0
    rw [hwq, idealWidth]
    linarith
  calc |(w : ℚ) - idealWidth θ| ≤ 2
      ↔ 50000 * θ / 180 ≤ (50000 * a / 66535 + 2 : ℤ) := by
        rw [abs_of_nonpos (by linarith), hwq, idealWidth]
        push_cast
        constructor <;> intro h <;> linarith
    _ ↔ ⌈50000 * θ / 180⌉ ≤ 50000 * a / 66535 + 2 := Int.ceil_le.symm
    _ ↔ ⌈50000 * θ / 180⌉ - 2 ≤ 50000 * a / 66535 := by omega
    _ ↔ (⌈50000 * θ / 180⌉ - 2) * 66535 ≤ 50000 * a := Int.le_ediv_iff_mul_le (by omega)
    _ ↔ ServoOk θ := by rw [ServoOk, ← ha, mul_comm]

/-- Up to 72/625 of a degree the divisor does not matter. -/
theorem servoOk_of_le (h0 : 0 ≤ θ) (h : θ ≤ 72 / 625) : ServoOk θ := by
  have hceil : ⌈50000 * θ / 180⌉ ≤ 32 := Int.ceil_le.2 (by push_cast; linarith)
  have hceil0 : 0 ≤ ⌈50000 * θ / 180⌉ := Int.ceil_nonneg (by positivity)
  have hsent0 : 0 ≤ ⌊θ * (65535 / 180)⌋ := Int.floor_nonneg.2 (by positivity)
  have hsent : 65535 * (⌈50000 * θ / 180⌉ - 1) < 50000 * (⌊θ * (65535 / 180)⌋ + 1) := by
    have hlt := Int.lt_floor_add_one (θ * (65535 / 180))
    have hgt := Int.ceil_lt_add_one (50000 * θ / 180)
    have hreal : (65535 * (⌈50000 * θ / 180⌉ - 1) : ℚ) < 50000 * (⌊θ * (65535 / 180)⌋ + 1) := by linarith
    exact_mod_cast hreal
  unfold ServoOk
  generalize ⌈50000 * θ / 180⌉ = n at *
  interval_cases n <;> omega

theorem not_servoOk_of_lt (h : 297 / 625 < θ) : ¬ServoOk θ := by
  have hceil : 132 < ⌈50000 * θ / 180⌉ := Int.lt_ceil.2 (by push_cast; linarith)
  have hsent : 50000 * ⌊θ * (65535 / 180)⌋ ≤ 65535 * ⌈50000 * θ / 180⌉ := by
    have hle := Int.floor_le (θ * (65535 / 180))
    have hge := Int.le_ceil (50000 * θ / 180)
    have hreal : (50000 * ⌊θ * (65535 / 180)⌋ : ℚ) ≤ 65535 * ⌈50000 * θ / 180⌉ := by linarith
    exact_mod_cast hreal
  intro hok
  rw [ServoOk] at hok
  have hlast : ⌈50000 * θ / 180⌉ = 133 := by omega
  rw [hlast] at hok hsent
  omega

end

/-- The width for the angle sent is within two counts of the ideal one exactly when `ServoOk`; whatever is
received, nothing overflows, the width is monotone and stays within its range. -/
theorem servo_width_iff (resp : Access → BitVec 32) (l : Locals) (regs : BitVec 32 → BitVec 32) :
    (∀ (c : Undefined) (θ : ℚ), 0 ≤ θ → θ ≤ 180 →
      (|((executed resp l (sendSetCommandAngle c 5 θ) regs pwmWidth).toNat : ℚ) - idealWidth θ| ≤ 2 ↔
        ServoOk θ) ∧
      (θ ≤ 72 / 625 → ServoOk θ) ∧ (297 / 625 < θ → ¬ServoOk θ)) ∧
    (∀ v : BitVec 32,
      (50000 * if 65535#32 ≤ v then 65535#32 else v).toNat = 50000 * min v.toNat 65535 ∧
      (executed resp l (Command.set 5 v).encode regs pwmWidth).toNat =
        50000 + 50000 * min v.toNat 65535 / 66535 ∧
      50000#32 ≤ executed resp l (Command.set 5 v).encode regs pwmWidth ∧
      executed resp l (Command.set 5 v).encode regs pwmWidth ≤ 100000#32) ∧
    ∀ v v' : BitVec 32, v ≤ v' →
      executed resp l (Command.set 5 v).encode regs pwmWidth ≤
        executed resp l (Command.set 5 v').encode regs pwmWidth := by
  refine ⟨fun c θ h0 h180 => ⟨?_, servoOk_of_le h0, not_servoOk_of_lt⟩, fun v => ?_, fun v v' hle => ?_⟩
  · obtain ⟨hsent, hmax⟩ := floatToUint32_angle (c := c) h0 h180
    rw [sendSetCommandAngle, executed_servo]
    refine within_two_iff rfl (by omega) ?_
    have hmin : min (floatToUint32 c (θ * (65535 / 180))).toNat 65535 =
        (floatToUint32 c (θ * (65535 / 180))).toNat := by omega
    rw [toNat_servoWidth, hmin, ← hsent]
    push_cast
    rfl
  · have hwidth := toNat_servoWidth v
    have hmin : (50000#32).toNat = 50000 := rfl
    have hmax : (100000#32).toNat = 100000 := rfl
    rw [executed_servo]
    refine ⟨toNat_scaled v, hwidth, BitVec.le_def.2 ?_, BitVec.le_def.2 ?_⟩ <;> omega
  · have hle' := BitVec.le_def.1 hle
    rw [executed_servo, executed_servo, BitVec.le_def, toNat_servoWidth, toNat_servoWidth]
    have hdiv : 50000 * min v.toNat 65535 / 66535 ≤ 50000 * min v'.toNat 65535 / 66535 :=
      Nat.div_le_div_right (Nat.mul_le_mul_left _ (by omega))
    omega

/-- At 180 degrees the pulse is 752 counts short. -/
theorem servo_full_scale_short :
    executed (fun _ => 0) .initial (sendSetCommandAngle ⟨fun _ => 0, fun _ => 0, fun _ => 0⟩ 5 180) (fun _ => 0)
      pwmWidth = 99248 ∧ idealWidth 180 = 100000 ∧ ¬|(99248 : ℚ) - idealWidth 180| ≤ 2 := by
  refine ⟨?_, by norm_num [idealWidth], by norm_num [idealWidth, abs_le]⟩
  have hangle : (180 : ℚ) * (65535 / 180) = (65535 : ℤ) := by norm_num
  rw [sendSetCommandAngle, executed_servo, hangle, floatToUint32_intCast _ (by norm_num) (by norm_num)]
  decide

end PenPlotter
