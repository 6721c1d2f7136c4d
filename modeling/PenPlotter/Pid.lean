import PenPlotter.ObiReg
import Mathlib.Data.Fintype.Basic

/-!
# The PID peripheral (`rtl/pid_peripheral/obi_pid.sv`, `pid_controller.sv`)

Two controllers, their registers, and for each axis the edge detector that turns a rising `stable` into a
bit of STATUS. `M` is `MIN_PERIOD_FOR_STABILITY`. The motor outputs, which nothing in the peripheral
reads, are in `PidMotor`.
-/

namespace PenPlotter

inductive Axis
  | x | y
deriving DecidableEq

instance : Fintype Axis := ⟨{.x, .y}, fun a => by cases a <;> simp⟩

/-- `$clog2(CLOCK_RATE)` at 50 MHz. -/
abbrev sampleRateWidth : Nat := 26

structure PidControllerIn where
  proportionalConstantI : BitVec 32
  derivativeConstantI : BitVec 32
  sampleRateI : BitVec sampleRateWidth
  processVariableI : BitVec 32
  setpointI : BitVec 32

/-- `stability_counter` stops at `M - 1`, so its width `$clog2(M)` never matters. -/
structure PidController where
  pvPrev0 : BitVec 32
  pvPrev1 : BitVec 32
  counter : BitVec sampleRateWidth
  stabilityCounter : Nat

namespace PidController

variable (M : Nat) (s : PidController) (i : PidControllerIn)

def reset : PidController := ⟨0, 0, 0, 0⟩

/-- `32'((64'(a) * 64'(b)) >>> 16)` on signed operands. -/
def mulQ16 (a b : BitVec 32) : BitVec 32 :=
  ((a.signExtend 64 * b.signExtend 64).sshiftRight 16).setWidth 32

def error : BitVec 32 := i.setpointI - i.processVariableI

def pTerm : BitVec 32 := mulQ16 i.proportionalConstantI (error i)

def delta : BitVec 32 := (s.pvPrev0 - s.pvPrev1).sshiftRight i.sampleRateI.toNat

def dTerm : BitVec 32 := mulQ16 (s.delta i) i.derivativeConstantI

def response : BitVec 32 := pTerm i - s.dTerm i

def stableO : Bool := s.stabilityCounter == M - 1

/-- `counter == (26'd1 << sample_rate_i) - 1`, which is 32 bits wide. -/
def samples : Bool := s.counter.setWidth 32 == (1#32 <<< i.sampleRateI.toNat) - 1

def step : PidController where
  pvPrev0 := if s.samples i then i.processVariableI else s.pvPrev0
  pvPrev1 := if s.samples i then s.pvPrev0 else s.pvPrev1
  counter := if s.samples i then 0 else s.counter + 1
  stabilityCounter :=
    if s.response i = 0 then
      if s.stabilityCounter = M - 1 then s.stabilityCounter else s.stabilityCounter + 1
    else 0

variable {M s i}

/-- Without gains the controller does not respond. -/
theorem response_eq_zero (hkp : i.proportionalConstantI = 0) (hkd : i.derivativeConstantI = 0) :
    s.response i = 0 := by
  simp [response, pTerm, dTerm, mulQ16, hkp, hkd]

theorem stabilityCounter_step (hle : s.stabilityCounter ≤ M - 1) : (s.step M i).stabilityCounter =
    if s.response i = 0 then min (s.stabilityCounter + 1) (M - 1) else 0 := by
  show (if s.response i = 0 then
    if s.stabilityCounter = M - 1 then s.stabilityCounter else s.stabilityCounter + 1 else 0) = _
  split
  · split <;> omega
  · rfl

end PidController

/-! ### `obi_pid` -/

abbrev TotalRegCount : Nat := 9

inductive PidReg
  | kp | kd | rs | sp
deriving DecidableEq

/-- `PIDOffset + gi * PerPIDRegCount + reg`. -/
def PidReg.idx (a : Axis) (r : PidReg) : Fin TotalRegCount :=
  match a, r with
  | .x, .kp => 1
  | .x, .kd => 2
  | .x, .rs => 3
  | .x, .sp => 4
  | .y, .kp => 5
  | .y, .kd => 6
  | .y, .rs => 7
  | .y, .sp => 8

def statusIdx : Fin TotalRegCount := 0

def pidCfg : ObiRegCfg TotalRegCount where
  usedAddrWidth := 8
  regAccess r := if r = statusIdx then .w1c else .rw
  resValue _ := 0

/-- The bit of `pid_status_reg_t` for the axis. -/
def Axis.bit : Axis → BitVec 32
  | .x => 1
  | .y => 2

structure PidIn extends ObiIn where
  hwPvI : Axis → BitVec 32

/-- `stableL1` and `stableL0` are the bits of `stable_x_l` and `stable_y_l`. -/
structure PidState where
  regs : ObiRegState TotalRegCount
  ctl : Axis → PidController
  stableL1 : Axis → Bool
  stableL0 : Axis → Bool

namespace PidState

variable (M : Nat) (s : PidState) (i : PidIn) (a : Axis)

def reset : PidState where
  regs := .reset pidCfg
  ctl _ := .reset
  stableL1 _ := false
  stableL0 _ := false

def reg (r : PidReg) : BitVec 32 := s.regs.q (r.idx a)

def controllerIn : PidControllerIn where
  proportionalConstantI := s.reg a .kp
  derivativeConstantI := s.reg a .kd
  sampleRateI := (s.reg a .rs).setWidth sampleRateWidth
  processVariableI := i.hwPvI a
  setpointI := s.reg a .sp

def response : BitVec 32 := (s.ctl a).response (s.controllerIn i a)

def stable : Bool := (s.ctl a).stableO M

def statusQ : BitVec 32 := s.regs.q statusIdx

/-- `stable_x_event`, `stable_y_event`. -/
def event : Bool := s.stableL1 a && !s.stableL0 a

def statusDe : Bool := s.event .x || s.event .y

def statusD : BitVec 32 :=
  let d := s.statusQ
  let d := if s.event .x then d ||| Axis.x.bit else d
  if s.event .y then d ||| Axis.y.bit else d

def irqO : Bool := s.statusQ &&& Axis.x.bit != 0 || s.statusQ &&& Axis.y.bit != 0

def regsIn : ObiRegIn TotalRegCount where
  toObiIn := i.toObiIn
  hwDe r := r == statusIdx && s.statusDe
  hwD r := if r = statusIdx then s.statusD else 0

def step : PidState where
  regs := s.regs.step pidCfg (s.regsIn i)
  ctl a := (s.ctl a).step M (s.controllerIn i a)
  stableL1 a := s.stable M a
  stableL0 a := s.stableL1 a

def statusBit : Bool := s.statusQ &&& a.bit != 0

/-- The bus clears the STATUS bit of the axis. -/
def acks (i : PidIn) (a : Axis) : Bool := i.swWe pidCfg statusIdx && i.wdataI &&& a.bit != 0

/-- A stable event is generated: the counter reaches its end in this cycle. -/
def generates : Bool := !s.stable M a && (s.step M i).stable M a

/-- An event is on its way to the processor. -/
def Pending : Prop :=
  s.statusBit a = true ∨ s.event a = true ∨ (s.stable M a = true ∧ s.stableL1 a = false)

instance : Decidable (s.Pending M a) := inferInstanceAs (Decidable (_ ∨ _ ∨ _))

variable {M s i a}

theorem reg_step (r : PidReg) :
    (s.step M i).reg a r = if i.swWe pidCfg (r.idx a) then i.wdataI else s.reg a r := by
  have hne : r.idx a ≠ statusIdx := by cases a <;> cases r <;> decide
  refine ObiRegState.step_q_rw (i := s.regsIn i) (if_neg hne) ?_
  show (r.idx a == statusIdx && s.statusDe) = false
  rw [beq_false_of_ne hne, Bool.false_and]

/-- The position of the bit. -/
def bitPos (a : Axis) : Nat := if a = .x then 0 else 1

theorem and_bit_ne_zero (v : BitVec 32) : (v &&& a.bit != 0) = v.getLsbD (bitPos a) := by
  have hbit : a.bit = BitVec.twoPow 32 (bitPos a) := by cases a <;> decide
  have hpow : BitVec.twoPow 32 (bitPos a) ≠ 0 := by cases a <;> decide
  rw [hbit, BitVec.and_twoPow]
  cases v.getLsbD (bitPos a) with
  | false => rfl
  | true => simpa using hpow

theorem statusD_getLsbD : s.statusD.getLsbD (bitPos a) = (s.statusBit a || s.event a) := by
  rw [statusBit, and_bit_ne_zero]
  unfold statusD
  cases a <;> cases s.event .x <;> cases s.event .y <;> simp [Axis.bit, bitPos]

theorem statusBit_step : (s.step M i).statusBit a = ((s.statusBit a || s.event a) && !acks i a) := by
  have hq : (s.step M i).statusQ = (if s.statusDe then s.statusD else s.statusQ) &&&
      (if i.swWe pidCfg statusIdx then ~~~i.wdataI else BitVec.allOnes 32) :=
    ObiRegState.step_q_w1c (i := s.regsIn i) rfl
  have hpos : bitPos a < 32 := by cases a <;> decide
  have hset : (if s.statusDe then s.statusD else s.statusQ).getLsbD (bitPos a) =
      (s.statusBit a || s.event a) := by
    cases hde : s.statusDe with
    | true => exact statusD_getLsbD
    | false =>
      obtain ⟨hx, hy⟩ := Bool.or_eq_false_iff.1 hde
      have hevent : s.event a = false := by cases a <;> assumption
      rw [hevent, Bool.or_false, statusBit, and_bit_ne_zero]
      rfl
  have hclear : (if i.swWe pidCfg statusIdx then ~~~i.wdataI else BitVec.allOnes 32).getLsbD (bitPos a) =
      !acks i a := by
    rw [acks, and_bit_ne_zero]
    cases i.swWe pidCfg statusIdx with
    | false => exact (BitVec.getLsbD_allOnes ..).trans (decide_eq_true hpos)
    | true => simp [hpos]
  rw [statusBit, hq, and_bit_ne_zero, BitVec.getLsbD_and, hset, hclear]

theorem stableL1_step : (s.step M i).stableL1 a = s.stable M a := rfl

theorem event_step : (s.step M i).event a = (s.stable M a && !s.stableL1 a) := rfl

/-- Only a new event becomes pending. -/
theorem Pending.of_step (h : (s.step M i).Pending M a) : s.Pending M a ∨ s.generates M i a = true := by
  rcases h with hstatus | hevent | ⟨hstable, hl1⟩
  · rw [statusBit_step, Bool.and_eq_true, Bool.or_eq_true] at hstatus
    exact .inl (hstatus.1.imp_right .inl)
  · rw [event_step, Bool.and_eq_true, Bool.not_eq_true'] at hevent
    exact .inl (.inr (.inr hevent))
  · exact .inr (by rw [generates, hstable, Bool.and_true, ← stableL1_step (i := i), hl1]; rfl)

end PidState

end PenPlotter
