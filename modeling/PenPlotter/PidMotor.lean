import PenPlotter.Pid
import Mathlib.Tactic.Ring

/-!
# The motor outputs of `pid_controller` and the exact response

`exactResponse` is the response over the integers. The code keeps 32 bits of the two differences, of the two
products and of their difference; modulo `2 ^ 32` only the truncation of the two differences matters
(`response_toInt`), and that shifts the response by `shift`. So the motor is driven as the exact response asks iff
the shifted response lies in the residues of the quarter and the sign of the exact one (`motor_iff`): without a shift
that is every response below 304, and beyond it half of the residues (`outputs_of_differencesFit`).
-/

namespace PenPlotter

/-- `md_mode_e`. -/
inductive MdMode
  | coast | forward | reverse | brake
deriving DecidableEq

namespace PidController

variable (s : PidController) (i : PidControllerIn)

/-- `8'(BASE_PWM)`. -/
def basePwm : BitVec 8 := 179

def magnitude : BitVec 32 := if (s.response i).slt 0 then -s.response i else s.response i

def contrib : BitVec 8 := if s.magnitude i < 1024 then (s.magnitude i >>> 2).setWidth 8 else 255

def val : BitVec 9 := basePwm.setWidth 9 + (s.contrib i).setWidth 9

def motorDirO : MdMode :=
  if (s.response i).slt 0 then .reverse else if (0 : BitVec 32).slt (s.response i) then .forward else .coast

def motorDutyO : BitVec 8 :=
  if (s.response i).slt 0 ∨ (0 : BitVec 32).slt (s.response i) then
    if s.val i < 255 then (s.val i).setWidth 8 else 255
  else 0

/-- What 32 signed bits keep of an integer. -/
def i32 (x : Int) : Int := x.bmod (2 ^ 32)

/-- The response without any truncation. -/
def exactResponse : Int :=
  i.proportionalConstantI.toInt * (i.setpointI.toInt - i.processVariableI.toInt) / 2 ^ 16 -
    i.derivativeConstantI.toInt * ((s.pvPrev0.toInt - s.pvPrev1.toInt) / 2 ^ i.sampleRateI.toNat) / 2 ^ 16

/-- The response with the truncations that matter. -/
def keptResponse : Int :=
  i32 (i.proportionalConstantI.toInt * i32 (i.setpointI.toInt - i.processVariableI.toInt) / 2 ^ 16 -
    i.derivativeConstantI.toInt * (i32 (s.pvPrev0.toInt - s.pvPrev1.toInt) / 2 ^ i.sampleRateI.toNat) / 2 ^ 16)

/-- The integer fits in `i32_t`. -/
def Fits (x : Int) : Prop := -2 ^ 31 ≤ x ∧ x < 2 ^ 31

/-- By how many times `2 ^ 32` an integer is beyond `i32_t`. -/
def wraps (x : Int) : Int := (x + 2 ^ 31) / 2 ^ 32

/-- What the truncation of the differences adds to the exact response. A set-point that is too far away costs the
whole of `2 ^ 32` ticks times the gain. -/
def shift : Int :=
  i.derivativeConstantI.toInt * ((s.pvPrev0.toInt - s.pvPrev1.toInt) / 2 ^ i.sampleRateI.toNat) / 2 ^ 16 -
    i.derivativeConstantI.toInt * ((s.pvPrev0.toInt - s.pvPrev1.toInt -
      2 ^ 32 * wraps (s.pvPrev0.toInt - s.pvPrev1.toInt)) / 2 ^ i.sampleRateI.toNat) / 2 ^ 16 -
    i.proportionalConstantI.toInt * wraps (i.setpointI.toInt - i.processVariableI.toInt) * 2 ^ 16

/-- The differences fit. -/
structure DifferencesFit : Prop where
  error : Fits (i.setpointI.toInt - i.processVariableI.toInt)
  delta : Fits (s.pvPrev0.toInt - s.pvPrev1.toInt)

end PidController

/-- The duty of a response that is not 0. -/
def duty (r : Int) : Nat := min 255 (179 + min 255 (r.natAbs / 4))

/-- How the motor is to be driven on a response. -/
def drive (r : Int) : MdMode × Nat :=
  if r = 0 then (.coast, 0) else if 0 < r then (.forward, duty r) else (.reverse, duty r)

/-- The responses have the same sign and quarters that are equal or at the end of the scale, 255 - 179. -/
def SameDrive (r r' : Int) : Prop := r.sign = r'.sign ∧ min (r.natAbs / 4) 76 = min (r'.natAbs / 4) 76

/-- The integer lies in the residues modulo `2 ^ 32` of the responses that drive the motor as `r` does: those of the
quarter of `r`, and from `304 = 4 * 76` on those of its sign up to the end of `i32_t`. -/
def DrivesAs (r x : Int) : Prop :=
  if r = 0 then x % 2 ^ 32 = 0
  else if 304 ≤ r then 304 ≤ x % 2 ^ 32 ∧ x % 2 ^ 32 < 2 ^ 31
  else if r ≤ -304 then 2 ^ 31 ≤ x % 2 ^ 32 ∧ x % 2 ^ 32 ≤ 2 ^ 32 - 304
  else if 0 < r then 0 < x % 2 ^ 32 ∧ x % 2 ^ 32 / 4 = r / 4
  else (2 ^ 32 - x % 2 ^ 32) / 4 = -r / 4

section

variable {r r' : Int}

theorem duty_eq_duty_iff : duty r = duty r' ↔ min (r.natAbs / 4) 76 = min (r'.natAbs / 4) 76 := by
  unfold duty
  omega

theorem drive_of_pos (h : 0 < r) : drive r = (.forward, duty r) := by
  rw [drive, if_neg (by omega), if_pos h]

theorem drive_of_neg (h : r < 0) : drive r = (.reverse, duty r) := by
  rw [drive, if_neg (by omega), if_neg (by omega)]

theorem drive_eq_drive_iff : drive r = drive r' ↔ SameDrive r r' := by
  unfold SameDrive
  rcases lt_trichotomy r 0 with hr | rfl | hr <;> rcases lt_trichotomy r' 0 with hr' | rfl | hr'
  · rw [drive_of_neg hr, drive_of_neg hr', Prod.mk.injEq, duty_eq_duty_iff, Int.sign_eq_neg_one_of_neg hr,
      Int.sign_eq_neg_one_of_neg hr']
    exact and_congr_left' (iff_of_true rfl rfl)
  · rw [drive_of_neg hr, Int.sign_eq_neg_one_of_neg hr]
    exact iff_of_false nofun nofun
  · rw [drive_of_neg hr, drive_of_pos hr', Int.sign_eq_neg_one_of_neg hr, Int.sign_eq_one_of_pos hr']
    exact iff_of_false nofun nofun
  · rw [drive_of_neg hr', Int.sign_eq_neg_one_of_neg hr']
    exact iff_of_false nofun nofun
  · exact iff_of_true rfl ⟨rfl, rfl⟩
  · rw [drive_of_pos hr', Int.sign_eq_one_of_pos hr']
    exact iff_of_false nofun nofun
  · rw [drive_of_pos hr, drive_of_neg hr', Int.sign_eq_one_of_pos hr, Int.sign_eq_neg_one_of_neg hr']
    exact iff_of_false nofun nofun
  · rw [drive_of_pos hr, Int.sign_eq_one_of_pos hr]
    exact iff_of_false nofun nofun
  · rw [drive_of_pos hr, drive_of_pos hr', Prod.mk.injEq, duty_eq_duty_iff, Int.sign_eq_one_of_pos hr,
      Int.sign_eq_one_of_pos hr']
    exact and_congr_left' (iff_of_true rfl rfl)

end

namespace PidController

variable {s : PidController} {i : PidControllerIn}

theorem i32_of_fits {x : Int} (h : Fits x) : i32 x = x := by
  obtain ⟨hlo, hhi⟩ := h
  exact Int.bmod_eq_of_le_mul_two (by omega) (by omega)

theorem toInt_setWidth_i32 (x : BitVec 64) : (x.setWidth 32).toInt = i32 x.toInt := by
  rw [BitVec.toInt_setWidth, BitVec.toInt_eq_toNat_bmod, i32, Int.bmod_bmod_of_dvd (by decide)]

theorem mulQ16_toInt (a b : BitVec 32) : (mulQ16 a b).toInt = i32 (a.toInt * b.toInt / 2 ^ 16) := by
  have hprod : (a.signExtend 64 * b.signExtend 64).toInt = a.toInt * b.toInt := by
    have hlo : -2 ^ 62 ≤ a.toInt * b.toInt := BitVec.le_toInt_mul_toInt
    have hhi : a.toInt * b.toInt ≤ 2 ^ 62 := BitVec.toInt_mul_toInt_le
    rw [BitVec.toInt_mul, BitVec.toInt_signExtend_of_le (by decide), BitVec.toInt_signExtend_of_le (by decide)]
    exact Int.bmod_eq_of_le_mul_two (by omega) (by omega)
  rw [mulQ16, toInt_setWidth_i32, BitVec.toInt_sshiftRight, hprod, Int.shiftRight_eq_div_pow]
  rfl

theorem delta_toInt : (s.delta i).toInt = i32 (s.pvPrev0.toInt - s.pvPrev1.toInt) / 2 ^ i.sampleRateI.toNat := by
  rw [delta, BitVec.toInt_sshiftRight, BitVec.toInt_sub, Int.shiftRight_eq_div_pow, i32]
  push_cast
  rfl

theorem response_toInt : (s.response i).toInt = s.keptResponse i := by
  rw [response, BitVec.toInt_sub, pTerm, dTerm, mulQ16_toInt, mulQ16_toInt, delta_toInt, error, BitVec.toInt_sub,
    keptResponse, i32, i32, Int.bmod_sub_bmod, Int.sub_bmod_bmod, mul_comm (_ / _) i.derivativeConstantI.toInt]
  rfl

theorem i32_eq_sub_wraps (x : Int) : i32 x = x - 2 ^ 32 * wraps x := by
  rw [i32, wraps, Int.bmod_def]
  push_cast
  split <;> omega

theorem wraps_of_fits {x : Int} (h : Fits x) : wraps x = 0 := by
  obtain ⟨hlo, hhi⟩ := h
  unfold wraps
  omega

theorem keptResponse_eq : s.keptResponse i = i32 (s.exactResponse i + s.shift i) := by
  have hproduct (k e w : Int) : k * (e - 2 ^ 32 * w) / 2 ^ 16 = k * e / 2 ^ 16 - k * w * 2 ^ 16 := by
    have hsplit : k * (e - 2 ^ 32 * w) = k * e + -(k * w * 2 ^ 16) * 2 ^ 16 := by ring
    rw [hsplit, Int.add_mul_ediv_right _ _ (by decide)]
    omega
  rw [keptResponse, i32_eq_sub_wraps (_ - i.processVariableI.toInt), i32_eq_sub_wraps (_ - s.pvPrev1.toInt), hproduct]
  congr 1
  unfold exactResponse shift
  omega

theorem shift_of_fits (h : s.DifferencesFit i) : s.shift i = 0 := by
  rw [shift, wraps_of_fits h.error, wraps_of_fits h.delta, mul_zero, sub_zero, mul_zero, zero_mul, sub_zero, sub_self]

theorem sign_eq_sign_iff {a b : Int} : a.sign = b.sign ↔ (0 < a ↔ 0 < b) ∧ (a < 0 ↔ b < 0) := by
  rcases lt_trichotomy a 0 with ha | rfl | ha <;> rcases lt_trichotomy b 0 with hb | rfl | hb <;>
    simp [Int.sign_eq_one_of_pos, Int.sign_eq_neg_one_of_neg, *] <;> omega

theorem sameDrive_i32_iff (r x : Int) : SameDrive (i32 x) r ↔ DrivesAs r x := by
  have hi32 : i32 x = if x % 2 ^ 32 < 2 ^ 31 then x % 2 ^ 32 else x % 2 ^ 32 - 2 ^ 32 := by
    rw [i32, Int.bmod_def]
    rfl
  have hlo : 0 ≤ x % 2 ^ 32 := Int.emod_nonneg _ (by decide)
  have hhi : x % 2 ^ 32 < 2 ^ 32 := Int.emod_lt_of_pos _ (by decide)
  rw [SameDrive, sign_eq_sign_iff, hi32, DrivesAs]
  split_ifs <;> omega

/-! ### The outputs -/

theorem slt_zero_iff (x : BitVec 32) : x.slt 0 = true ↔ x.toInt < 0 := BitVec.slt_iff_toInt_lt

theorem zero_slt_iff (x : BitVec 32) : (0 : BitVec 32).slt x = true ↔ 0 < x.toInt := BitVec.slt_iff_toInt_lt

theorem magnitude_toNat : (s.magnitude i).toNat = (s.response i).toInt.natAbs := by
  unfold magnitude
  have hcond := BitVec.toInt_eq_toNat_cond (s.response i)
  have hlt := (s.response i).isLt
  split
  next h =>
    rw [slt_zero_iff] at h
    rw [BitVec.toNat_neg]
    split at hcond <;> omega
  next h =>
    rw [slt_zero_iff] at h
    split at hcond <;> omega

theorem val_toNat : (s.val i).toNat = 179 + min 255 ((s.response i).toInt.natAbs / 4) := by
  have hmag : (s.magnitude i).toNat = (s.response i).toInt.natAbs := magnitude_toNat
  have hcontrib : (s.contrib i).toNat = min 255 ((s.magnitude i).toNat / 4) := by
    unfold contrib
    split
    next h =>
      rw [BitVec.lt_def] at h
      rw [BitVec.toNat_setWidth, BitVec.toNat_ushiftRight, Nat.shiftRight_eq_div_pow]
      have : (1024 : BitVec 32).toNat = 1024 := rfl
      omega
    next h =>
      rw [BitVec.lt_def] at h
      have : (1024 : BitVec 32).toNat = 1024 := rfl
      show 255 = _
      omega
  rw [val, BitVec.toNat_add, BitVec.toNat_setWidth, BitVec.toNat_setWidth, hcontrib, hmag]
  have : basePwm.toNat = 179 := rfl
  omega

/-- The motor is driven on the response that the code computes. -/
theorem outputs_eq : (s.motorDirO i, (s.motorDutyO i).toNat) = drive (s.response i).toInt := by
  unfold motorDirO motorDutyO
  have hneg := slt_zero_iff (s.response i)
  have hpos := zero_slt_iff (s.response i)
  have hduty (h : (s.response i).toInt ≠ 0) :
      (if s.val i < 255 then (s.val i).setWidth 8 else 255 : BitVec 8).toNat = duty (s.response i).toInt := by
    rw [duty, ← val_toNat]
    split
    next h =>
      rw [BitVec.lt_def] at h
      have : (255 : BitVec 9).toNat = 255 := rfl
      rw [BitVec.toNat_setWidth]
      omega
    next h =>
      rw [BitVec.lt_def] at h
      have : (255 : BitVec 9).toNat = 255 := rfl
      show 255 = _
      omega
  rcases lt_trichotomy (s.response i).toInt 0 with h | h | h
  · rw [if_pos (hneg.2 h), if_pos (.inl (hneg.2 h)), hduty h.ne, drive_of_neg h]
  · have hnot : ¬((s.response i).slt 0 = true) := fun hs => (hneg.1 hs).ne h
    have hnot' : ¬((0 : BitVec 32).slt (s.response i) = true) := fun hs => (hpos.1 hs).ne' h
    rw [if_neg hnot, if_neg hnot', if_neg (not_or.2 ⟨hnot, hnot'⟩), h]
    rfl
  · have hnot : ¬((s.response i).slt 0 = true) := fun hs => (hneg.1 hs).not_gt h
    rw [if_neg hnot, if_pos (hpos.2 h), if_pos (.inr (hpos.2 h)), hduty h.ne', drive_of_pos h]

/-- The motor is driven as a response asks iff the shifted response lies in the residues of that response. -/
theorem outputs_eq_drive_iff (r : Int) : (s.motorDirO i, (s.motorDutyO i).toNat) = drive r ↔
    DrivesAs r (s.exactResponse i + s.shift i) := by
  rw [outputs_eq, response_toInt, drive_eq_drive_iff, keptResponse_eq]
  exact sameDrive_i32_iff _ _

/-- Where the differences fit, a response below the end of the scale drives the motor right, and one beyond it iff
its residue has its sign and is beyond it too. -/
theorem outputs_of_differencesFit (h : s.DifferencesFit i) :
    (s.motorDirO i, (s.motorDutyO i).toNat) = drive (s.exactResponse i) ↔
      (304 ≤ s.exactResponse i → 304 ≤ s.exactResponse i % 2 ^ 32 ∧ s.exactResponse i % 2 ^ 32 < 2 ^ 31) ∧
      (s.exactResponse i ≤ -304 →
        2 ^ 31 ≤ s.exactResponse i % 2 ^ 32 ∧ s.exactResponse i % 2 ^ 32 ≤ 2 ^ 32 - 304) := by
  rw [outputs_eq_drive_iff, shift_of_fits h, add_zero, DrivesAs]
  split_ifs <;> omega

/-- Without truncation the motor is driven right. -/
theorem outputs_of_fits (h : s.DifferencesFit i) (hresponse : Fits (s.exactResponse i)) :
    (s.motorDirO i, (s.motorDutyO i).toNat) = drive (s.exactResponse i) := by
  obtain ⟨hlo, hhi⟩ := hresponse
  rw [outputs_of_differencesFit h]
  omega

end PidController

open PidController in
/-- The motor is driven as the exact response asks iff the shifted response lies in the residues of the exact one. -/
theorem motor_iff (s : PidController) (i : PidControllerIn) :
    (s.motorDirO i, (s.motorDutyO i).toNat) = drive (s.exactResponse i) ↔
      DrivesAs (s.exactResponse i) (s.exactResponse i + s.shift i) :=
  outputs_eq_drive_iff _

/-- The set-point `sp` from rest at 0, with the gain `kp`. -/
def approach (kp sp : BitVec 32) : PidControllerIn := ⟨kp, 0, 0, 0, sp⟩

/-- With gain 2 and the target `2 ^ 30` ticks ahead the motor runs backward; with gain 4 it coasts, and the
response counts as stable. -/
theorem motor_wraps :
    (PidController.reset.exactResponse (approach 0x20000 (2 ^ 30)) = 2 ^ 31 ∧
      PidController.reset.motorDirO (approach 0x20000 (2 ^ 30)) = .reverse) ∧
    (PidController.reset.exactResponse (approach 0x40000 (2 ^ 30)) = 2 ^ 32 ∧
      PidController.reset.motorDirO (approach 0x40000 (2 ^ 30)) = .coast ∧
      PidController.reset.response (approach 0x40000 (2 ^ 30)) = 0) := by
  decide

end PenPlotter
