import PenPlotter.PidMotor
import PenPlotter.PwmDuty
import PenPlotter.SimDrv8833

/-!
# The motor pins (`rtl/pid_peripheral/md_controller.sv`, `obi_pid.sv`)

Each axis of `obi_pid` has an `md_controller` behind its controller. The pins never ask the driver for a brake, and
ask for a direction only in cycles whose response has its sign; over a period of the PWM with one response the driver
sees that direction for the duty of the response, wherever the period starts (`drv8833_reports_drive`).
-/

namespace PenPlotter

structure MdController (ClockRate PwmFreq : Int) where
  pwm : PwmState ClockRate PwmFreq

namespace MdController

variable {ClockRate PwmFreq : Int} (s : MdController ClockRate PwmFreq) (mode : MdMode) (duty : BitVec 8)

def reset : MdController ClockRate PwmFreq := ⟨.reset⟩

def step : MdController ClockRate PwmFreq := ⟨s.pwm.step⟩

/-- `in1` and `in2`. -/
def pins : Bool × Bool :=
  match mode with
  | .forward => (s.pwm.pwmO duty, false)
  | .reverse => (false, s.pwm.pwmO duty)
  | .coast => (false, false)
  | .brake => (true, true)

end MdController

structure PidMotors where
  pid : PidState
  md : Axis → MdController 50000000 25000

namespace PidMotors

section

variable (M : Nat) (s : PidMotors) (i : PidIn) (a : Axis)

def reset : PidMotors := ⟨.reset, fun _ => .reset⟩

def step : PidMotors := ⟨s.pid.step M i, fun a => (s.md a).step⟩

/-- `motor_x_o`, `motor_y_o`: `in1` is bit 0. -/
def motorO : BitVec 2 :=
  let pins := (s.md a).pins ((s.pid.ctl a).motorDirO (s.pid.controllerIn i a))
    ((s.pid.ctl a).motorDutyO (s.pid.controllerIn i a))
  BitVec.ofBool pins.2 ++ BitVec.ofBool pins.1

end

variable (M : Nat) (inp : Nat → PidIn)

def run (t : Nat) : PidMotors := Clocked.run (PidMotors.step M) .reset inp t

/-- The response of axis `a` in cycle `t`. -/
def responseAt (a : Axis) (t : Nat) : Int := ((run M inp t).pid.response (inp t) a).toInt

/-- What the pins ask for in cycle `t`. -/
def modeAt (a : Axis) (t : Nat) : DRV8833Mode := .ofPins ((run M inp t).motorO (inp t) a)

end PidMotors

/-- The direction of a response. -/
def directionOf (r : Int) : DRV8833Mode := if 0 < r then .forward else if r < 0 then .backward else .coast

theorem directionOf_neg {r : Int} (h : r < 0) : directionOf r = .backward := by
  rw [directionOf, if_neg (by omega), if_pos h]

theorem directionOf_zero : directionOf 0 = .coast := by decide

theorem directionOf_pos {r : Int} (h : 0 < r) : directionOf r = .forward := if_pos h

/-- The cycles of a PWM period in which a response drives the motor. -/
def onCycles (r : Int) : Nat := (drive r).2 * 2000 / 256

namespace PidMotors

variable {M : Nat} {inp : Nat → PidIn} {a : Axis}

theorem counter_run (t : Nat) : ((run M inp t).md a).pwm.counter.toNat = t % 2000 := by
  have hrun : ((run M inp t).md a).pwm =
      Clocked.run (fun s _ => PwmState.step s) (.reset : PwmState 50000000 25000) (fun _ => (0 : BitVec 8)) t :=
    Clocked.run_map (fun s => (PidMotors.md s a).pwm) _ (fun _ => rfl) t
  rw [hrun]
  exact pwmCounter_eq (P := 2000) (by decide) (by decide) _ t

/-- The pins of a controller in the mode of a response. -/
theorem ofPins_pins (s : MdController 50000000 25000) (r : Int) (d : BitVec 8) :
    DRV8833Mode.ofPins (BitVec.ofBool (s.pins (drive r).1 d).2 ++ BitVec.ofBool (s.pins (drive r).1 d).1) =
      if s.pwm.pwmO d then directionOf r else .coast := by
  rcases lt_trichotomy r 0 with hneg | rfl | hpos
  · rw [drive_of_neg hneg, directionOf_neg hneg]
    simp only [MdController.pins]
    cases s.pwm.pwmO d <;> rfl
  · have hcoast : drive 0 = (.coast, 0) := if_pos rfl
    rw [hcoast, directionOf_zero, ite_self]
    show DRV8833Mode.ofPins (BitVec.ofBool false ++ BitVec.ofBool false) = .coast
    decide
  · rw [drive_of_pos hpos, directionOf_pos hpos]
    simp only [MdController.pins]
    cases s.pwm.pwmO d <;> rfl

/-- The motor runs in its direction in the first part of each period. -/
theorem modeAt_eq (t : Nat) : modeAt M inp a t =
    if t % 2000 < onCycles (responseAt M inp a t) then directionOf (responseAt M inp a t) else .coast := by
  have hdrive : (((run M inp t).pid.ctl a).motorDirO ((run M inp t).pid.controllerIn (inp t) a),
      (((run M inp t).pid.ctl a).motorDutyO ((run M inp t).pid.controllerIn (inp t) a)).toNat) =
        drive (responseAt M inp a t) := PidController.outputs_eq
  have hpwm (d : BitVec 8) : ((run M inp t).md a).pwm.pwmO d = true ↔ t % 2000 < d.toNat * 2000 / 256 := by
    rw [PwmState.pwmO, decide_eq_true_iff, BitVec.lt_def, counter_run,
      toNat_pwmThreshold (P := 2000) (by decide) (by decide) (by decide)]
  have hdir := congrArg Prod.fst hdrive
  have hduty := congrArg Prod.snd hdrive
  dsimp only at hdir hduty
  rw [modeAt, motorO, onCycles, ← hduty, hdir]
  refine (ofPins_pins _ _ _).trans ?_
  simp only [hpwm]

/-! ### What the driver sees -/

theorem directionOf_ne_brake (r : Int) : directionOf r ≠ .brake := by
  rcases lt_trichotomy r 0 with hneg | rfl | hpos
  · rw [directionOf_neg hneg]
    exact nofun
  · rw [directionOf_zero]
    exact nofun
  · rw [directionOf_pos hpos]
    exact nofun

theorem modeAt_ne_brake (t : Nat) : modeAt M inp a t ≠ .brake := by
  rw [modeAt_eq]
  split
  · exact directionOf_ne_brake _
  · exact nofun

/-- A direction is that of the response. -/
theorem directionOf_of_modeAt {t : Nat} {m : DRV8833Mode} (h : modeAt M inp a t = m) (hm : m ≠ .coast) :
    directionOf (responseAt M inp a t) = m := by
  rw [modeAt_eq] at h
  split at h
  · exact h
  · exact absurd h.symm hm

theorem pos_of_forward {r : Int} (h : directionOf r = .forward) : 0 < r := by
  rcases lt_trichotomy r 0 with hneg | rfl | hpos
  · rw [directionOf_neg hneg] at h
    cases h
  · rw [directionOf_zero] at h
    cases h
  · exact hpos

theorem neg_of_backward {r : Int} (h : directionOf r = .backward) : r < 0 := by
  rcases lt_trichotomy r 0 with hneg | rfl | hpos
  · exact hneg
  · rw [directionOf_zero] at h
    cases h
  · rw [directionOf_pos hpos] at h
    cases h

theorem onCycles_le (r : Int) : onCycles r ≤ 2000 := by
  have hle : (drive r).2 ≤ 255 := by
    rcases lt_trichotomy r 0 with hneg | rfl | hpos
    · rw [drive_of_neg hneg]
      exact Nat.min_le_left ..
    · exact Nat.zero_le _
    · rw [drive_of_pos hpos]
      exact Nat.min_le_left ..
  rw [onCycles]
  omega

/-- A period with one response has its direction for the cycles of its duty. -/
theorem count_modeAt {T : Nat} {r : Int} (h : ∀ x < 2000, responseAt M inp a (T + x) = r) {m : DRV8833Mode}
    (hm : m ≠ .coast) :
    Nat.count (fun x => modeAt M inp a (T + x) = m) 2000 = if directionOf r = m then onCycles r else 0 := by
  have hmode (x : Nat) (hx : x < 2000) :
      modeAt M inp a (T + x) = m ↔ (T + x) % 2000 < onCycles r ∧ directionOf r = m := by
    rw [modeAt_eq, h x hx]
    constructor
    · intro hx
      split at hx
      next hon => exact ⟨hon, hx⟩
      next => exact absurd hx.symm hm
    · rintro ⟨hon, hdir⟩
      rw [if_pos hon, hdir]
  rw [count_congr hmode]
  split
  next hdir => simp only [hdir, and_true, count_residues, Nat.min_eq_left (onCycles_le r)]
  next hdir => simp [hdir]

end PidMotors

/-- The axis of a channel. -/
def channelAxis (j : Fin 2) : Axis := if j.val = 0 then .x else .y

/-- The inputs of the driver, whose first tick sees the outputs of cycle `T`. -/
def motorPins (M : Nat) (inp : Nat → PidIn) (T x : Nat) (j : Fin 2) : BitVec 2 :=
  (PidMotors.run M inp (T + x)).motorO (inp (T + x)) (channelAxis j)

/-- What a report says about the responses of a period. -/
structure ReportsDrive (resp : Nat → Int) (info : DRV8833Info) : Prop where
  brake : info.brkRatio = 0
  sum : info.fwdRatio + info.bwdRatio + info.cstRatio = 1
  forward : 0 < info.fwdRatio → ∃ x < 2000, 0 < resp x
  backward : 0 < info.bwdRatio → ∃ x < 2000, resp x < 0
  constant : ∀ r, (∀ x < 2000, resp x = r) →
    info.fwdRatio = (if 0 < r then onCycles r else 0 : Nat) / 2000 ∧
      info.bwdRatio = (if r < 0 then onCycles r else 0 : Nat) / 2000

open PidMotors DRV8833Decoder in
/-- Every report of the driver, however the registers and the positions change and wherever its periods start in the
run, is about the last period: it never sees a brake, sees a direction only if the response had its sign, and sees the
duty of a response that has not changed. -/
theorem drv8833_reports_drive (M : Nat) (inp : Nat → PidIn) (T : Nat) (cycles : Nat)
    (channel : Fin 2 → DRV8833Mode → Nat) (info : Fin 2 → DRV8833Info) (k r : Nat) (hr : r < 2000) (j : Fin 2) :
    ReportsDrive (fun x => responseAt M inp (channelAxis j) (T + (k * 2000 + x)))
      (((DRV8833Decoder.mk 2000 cycles channel info).reset.run (motorPins M inp T)
        ((k + 1) * 2000 + r)).currentInfo j) := by
  have hinfo := @currentInfo_run (DRV8833Decoder.mk 2000 cycles channel info).reset (motorPins M inp T) ⟨rfl, rfl⟩
    k r hr j
  have hP : (DRV8833Decoder.mk 2000 cycles channel info).reset.cyclesForPeriod = 2000 := rfl
  rw [hP] at hinfo
  rw [hinfo, infoFrom, hP]
  have hshares (m : DRV8833Mode) : shares (motorPins M inp T) j (k * 2000) 2000 m =
      Nat.count (fun x => modeAt M inp (channelAxis j) (T + (k * 2000 + x)) = m) 2000 := rfl
  have hbrake : shares (motorPins M inp T) j (k * 2000) 2000 .brake = 0 := by
    rw [hshares]
    simp [modeAt_ne_brake]
  have hsum := @shares_sum (motorPins M inp T) j (k * 2000) 2000
  rw [hbrake, Nat.add_zero] at hsum
  have hexists {m : DRV8833Mode} (hm : m ≠ .coast)
      (hpos : (0 : ℚ) < shares (motorPins M inp T) j (k * 2000) 2000 m / (2000 : Nat)) :
      ∃ x < 2000, directionOf (responseAt M inp (channelAxis j) (T + (k * 2000 + x))) = m := by
    have hne : Nat.count (fun x => modeAt M inp (channelAxis j) (T + (k * 2000 + x)) = m) 2000 ≠ 0 := by
      intro hzero
      rw [hshares, hzero] at hpos
      simp at hpos
    obtain ⟨x, hx, hmode⟩ := Nat.count_ne_iff_exists.1 hne
    exact ⟨x, hx, directionOf_of_modeAt hmode hm⟩
  constructor
  · simp [hbrake]
  · have hcast : (shares (motorPins M inp T) j (k * 2000) 2000 .forward +
        shares (motorPins M inp T) j (k * 2000) 2000 .backward +
        shares (motorPins M inp T) j (k * 2000) 2000 .coast : ℚ) = (2000 : Nat) := by
      exact_mod_cast hsum
    rw [← add_div, ← add_div, hcast]
    exact div_self (by norm_num)
  · intro hpos
    obtain ⟨x, hx, hdir⟩ := hexists (m := .forward) (by decide) hpos
    exact ⟨x, hx, pos_of_forward hdir⟩
  · intro hpos
    obtain ⟨x, hx, hdir⟩ := hexists (m := .backward) (by decide) hpos
    exact ⟨x, hx, neg_of_backward hdir⟩
  · intro c hc
    have hcount {m : DRV8833Mode} (hm : m ≠ .coast) :
        shares (motorPins M inp T) j (k * 2000) 2000 m = if directionOf c = m then onCycles c else 0 := by
      have hall : ∀ x < 2000, responseAt M inp (channelAxis j) (T + k * 2000 + x) = c := fun x hx => by
        rw [Nat.add_assoc]
        exact hc x hx
      rw [hshares, ← count_modeAt hall hm]
      simp only [Nat.add_assoc]
    have hfwd : directionOf c = .forward ↔ 0 < c := ⟨pos_of_forward, directionOf_pos⟩
    have hbwd : directionOf c = .backward ↔ c < 0 := ⟨neg_of_backward, directionOf_neg⟩
    rw [hcount (m := .forward) (by decide), hcount (m := .backward) (by decide)]
    simp only [hfwd, hbwd]
    exact ⟨rfl, rfl⟩

/-- `KP` of the x axis becomes 1 in cycle 0, and the axis stays 50 below its set-point. -/
def pulledIn (t : Nat) : PidIn := ⟨if t = 0 then ⟨true, 4, true, 0xF, 0x10000⟩ else .idle, fun _ => -50⟩

open PidMotors in
theorem pulledIn_reg (r : PidReg) (t : Nat) : (run 100000 pulledIn (1 + t)).pid.reg .x r =
    (run 100000 pulledIn 1).pid.reg .x r := by
  induction t with
  | zero => rfl
  | succ t ih =>
    have hidle : (pulledIn (1 + t)).reqI = false := by
      rw [pulledIn, if_neg (by omega)]
      rfl
    have hstep : (run 100000 pulledIn (1 + (t + 1))).pid.reg .x r = _ := PidState.reg_step (M := 100000)
      (s := (run 100000 pulledIn (1 + t)).pid) (i := pulledIn (1 + t)) (a := .x) r
    rw [hstep, ObiRegState.swWe_idle hidle, if_neg (by simp), ih]

open PidMotors in
/-- The response is 50 throughout, and the driver reports its duty. -/
theorem drv8833_reports_drive_pulled :
    (((DRV8833Decoder.mk 2000 0 (fun _ _ => 0) fun _ => ⟨0, 0, 0, 0⟩).reset.run
      (motorPins 100000 pulledIn 1) ((0 + 1) * 2000 + 7)).currentInfo 0).fwdRatio = 1492 / 2000 := by
  have hresponse : ∀ x < 2000, responseAt 100000 pulledIn .x (1 + (0 * 2000 + x)) = 50 := by
    intro x _
    have hkp : (run 100000 pulledIn 1).pid.reg .x .kp = 0x10000 := by decide
    have hkd : (run 100000 pulledIn 1).pid.reg .x .kd = 0 := by decide
    have hsp : (run 100000 pulledIn 1).pid.reg .x .sp = 0 := by decide
    have hpv (t : Nat) : (pulledIn t).hwPvI .x = -50 := rfl
    have hdelta (d : BitVec 32) : PidController.mulQ16 d 0 = 0 := by simp [PidController.mulQ16]
    rw [responseAt, PidState.response, PidState.controllerIn, PidController.response, PidController.dTerm]
    simp only [pulledIn_reg, hkp, hkd, hsp, hpv, hdelta, PidController.pTerm, PidController.error]
    decide
  have hreports := drv8833_reports_drive 100000 pulledIn 1 0 (fun _ _ => 0) (fun _ => ⟨0, 0, 0, 0⟩) 0 7 (by decide) 0
  rw [(hreports.constant 50 hresponse).1]
  have hon : onCycles 50 = 1492 := by decide
  rw [if_pos (by decide), hon]
  rfl

end PenPlotter
