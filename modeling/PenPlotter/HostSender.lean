import PenPlotter.Commands
import Mathlib.Algebra.Order.Floor.Ring
import Mathlib.Data.Rat.Floor

/-!
# The host's set commands (`dv/verilator/ppcsender.c`, `dv/verilator/shape.c`)

The three encoders of a set command, with floating-point values taken as exact rationals, and the device
registers after the firmware has executed the frame. C leaves some conversions undefined; what a compiler
makes of those is a parameter, `Undefined`.
-/

namespace PenPlotter

open Mmio

/-- The results of the conversions that C leaves undefined. -/
structure Undefined where
  toUint32 : ℚ → BitVec 32
  toInt32 : ℚ → BitVec 32
  atoi : ℤ → BitVec 32

/-- The conversion of a floating-point value discards its fraction. -/
def truncate (q : ℚ) : ℤ := if 0 ≤ q then ⌊q⌋ else ⌈q⌉

/-- `(uint32_t)q`. -/
def floatToUint32 (c : Undefined) (q : ℚ) : BitVec 32 :=
  if 0 ≤ truncate q ∧ truncate q < 2 ^ 32 then BitVec.ofInt 32 (truncate q) else c.toUint32 q

/-- `(int32_t)q`. -/
def floatToInt32 (c : Undefined) (q : ℚ) : BitVec 32 :=
  if -2 ^ 31 ≤ truncate q ∧ truncate q < 2 ^ 31 then BitVec.ofInt 32 (truncate q) else c.toInt32 q

/-- `atoi` of the text of `z`. -/
def atoi (c : Undefined) (z : ℤ) : BitVec 32 :=
  if -2 ^ 31 ≤ z ∧ z < 2 ^ 31 then BitVec.ofInt 32 z else c.atoi z

theorem truncate_of_nonneg {q : ℚ} (hq : 0 ≤ q) : truncate q = ⌊q⌋ := if_pos hq

theorem truncate_intCast (z : ℤ) : truncate z = z := by
  unfold truncate
  split <;> simp

theorem floatToUint32_intCast (c : Undefined) {z : ℤ} (h0 : 0 ≤ z) (hlt : z < 2 ^ 32) :
    floatToUint32 c z = BitVec.ofInt 32 z := by
  rw [floatToUint32, truncate_intCast, if_pos ⟨h0, hlt⟩]

theorem floatToInt32_intCast (c : Undefined) {z : ℤ} (hlo : -2 ^ 31 ≤ z) (hlt : z < 2 ^ 31) :
    floatToInt32 c z = BitVec.ofInt 32 z := by
  rw [floatToInt32, truncate_intCast, if_pos ⟨hlo, hlt⟩]

def sendSetCommandU32 (loc : BitVec 8) (val : BitVec 32) : List (BitVec 8) := (Command.set loc val).encode

def sendSetCommandAngle (c : Undefined) (loc : BitVec 8) (angle : ℚ) : List (BitVec 8) :=
  (Command.set loc (floatToUint32 c (angle * (65535 / 180)))).encode

def sendSetCommandQ16 (c : Undefined) (loc : BitVec 8) (val : ℚ) : List (BitVec 8) :=
  (Command.set loc (floatToInt32 c (val * 65536))).encode

namespace Firmware

/-- The registers after a program that finds `regs` in them; `resp` answers what is no register. -/
def registers {α : Type} (resp : Access → BitVec 32) :
    Firmware α → (BitVec 32 → BitVec 32) → BitVec 32 → BitVec 32
  | .ret _, regs => regs
  | .act (.load addr) k, regs => registers resp (k (regs addr)) regs
  | .act (.store addr value) k, regs =>
    registers resp (k (resp (.store addr value))) (Function.update regs addr value)
  | .act a k, regs => registers resp (k (resp a)) regs
  | .spin _ _ k, regs => registers resp k regs

/-- The buffer holds the frame. -/
def Locals.holding (l : Locals) (frame : List (BitVec 8)) : Locals :=
  { l with command := fun i => frame.getD i 0 }

/-- The registers after the firmware has executed a frame. -/
def executed (resp : Access → BitVec 32) (l : Locals) (frame : List (BitVec 8))
    (regs : BitVec 32 → BitVec 32) : BitVec 32 → BitVec 32 :=
  registers resp (dispatch (l.holding frame)) regs

/-- The stores that a set command makes. -/
def stores (loc : BitVec 8) (value : BitVec 32) : List (BitVec 32 × BitVec 32) :=
  match loc with
  | 0#8 => [(pidXSetPoint, value)]
  | 1#8 => [(pidYSetPoint, value)]
  | 2#8 => [(pidXKp, value), (pidYKp, value)]
  | 3#8 => [(pidXKd, value), (pidYKd, value)]
  | 4#8 => [(pidXRs, value), (pidYRs, value)]
  | 5#8 => [(pwmWidth, servoWidth value)]
  | _ => []

section

variable {resp : Access → BitVec 32} {l : Locals} {regs : BitVec 32 → BitVec 32}

theorem registers_setPoint (addr value : BitVec 32) (v : Var) :
    registers resp (setPoint addr v value l) regs = Function.update regs addr value := by
  rw [setPoint, load_bind, registers]
  by_cases hold : regs addr = value
  · subst hold
    simp [registers]
  · rw [if_pos (by simpa using hold)]
    rfl

theorem executed_set (loc : BitVec 8) (value : BitVec 32) :
    executed resp l (Command.set loc value).encode regs =
      (stores loc value).foldl (fun r s => Function.update r s.1 s.2) regs := by
  have hdecode : decodeCommand (l.holding (Command.set loc value).encode).command = some (.set loc value) :=
    decodeFrame_encode (.set loc value)
  rw [executed, dispatch_eq, hdecode]
  simp only [Option.elim, Command.perform]
  split
  case h_1 => exact registers_setPoint ..
  case h_2 => exact registers_setPoint ..
  case h_7 =>
    have hnone : stores loc value = [] := by
      unfold stores
      split
      case h_7 => rfl
      all_goals contradiction
    rw [hnone]
    rfl
  all_goals rfl

end

end Firmware

end PenPlotter
