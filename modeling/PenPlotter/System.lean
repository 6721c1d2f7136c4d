import PenPlotter.Firmware
import PenPlotter.Pid

/-!
# The firmware on the processor, together with `obi_pid`

In each clock cycle the processor makes one memory access, or none (`Turn.stall`: it executes, waits for
the bus, or serves the timer interrupt), or takes the PID interrupt if it is pending. The handler then
makes its accesses to the end before `main` goes on. What the other devices answer, and `print`, which
only the timer handler sets, is an input.
-/

namespace PenPlotter

/-- What the processor does in a cycle. -/
inductive Turn
  | stall | core | interrupt
deriving DecidableEq

structure SystemIn where
  turn : Turn
  resp : BitVec 32
  hwPvI : Axis → BitVec 32

def Axis.flag : Axis → Var
  | .x => .stableX
  | .y => .stableY

@[ext] structure SystemState where
  main : Firmware Firmware.Locals
  /-- What is left of the interrupt handler, while it runs. -/
  handler : Option (Firmware Unit)
  /-- `stable_x` and `stable_y`. -/
  flag : Axis → BitVec 32
  pid : PidState

/-- `PIDStart` and `PIDMask` of `pp_system`. -/
def pidSelected (addr : BitVec 32) : Bool := addr &&& 0xFFFFFC00 == 0x80004000

/-- The byte of the word, and its lane. -/
def byteOffset (addr : BitVec 32) : Nat := (addr &&& 3).toNat

/-- The request of an access to the PID peripheral. -/
def Access.pidRequest : Access → ObiIn
  | .load addr => if pidSelected addr then ⟨true, addr, false, 0xF, 0⟩ else .idle
  | .store addr value => if pidSelected addr then ⟨true, addr, true, 0xF, value⟩ else .idle
  | .loadByte addr => if pidSelected addr then ⟨true, addr, false, 1 <<< byteOffset addr, 0⟩ else .idle
  | .storeByte addr value =>
    if pidSelected addr then
      ⟨true, addr, true, 1 <<< byteOffset addr, value.setWidth 32 <<< (8 * byteOffset addr)⟩
    else .idle
  | _ => .idle

namespace SystemState

variable (M : Nat) (s : SystemState) (i : SystemIn)

/-- After reset, with `main` at `while (1)`; `stable_x` and `stable_y` are initialised to 1. -/
def reset : SystemState where
  main := .ret .initial
  handler := none
  flag _ := 1
  pid := .reset

/-- The access that `main` makes in this cycle. -/
def mainAccess : Option Access :=
  if i.turn = .core ∧ s.handler = none then s.main.access else none

/-- `main` clears the flag of the axis. -/
def clears (a : Axis) : Bool :=
  match s.mainAccess i with
  | some (.set v _) => v == a.flag
  | _ => false

def handlerAccess : Option Access :=
  if i.turn = .core then s.handler.bind Prog.access else none

def access : Option Access := (s.handlerAccess i).or (s.mainAccess i)

def pidIn : PidIn where
  toObiIn := (s.access i).elim .idle Access.pidRequest
  hwPvI := i.hwPvI

/-- The answer to the access. -/
def answer : BitVec 32 :=
  match s.access i with
  | some (.load addr) => if pidSelected addr then (s.pid.step M (s.pidIn i)).regs.rdataO else i.resp
  | some (.loadByte addr) =>
    if pidSelected addr then
      (s.pid.step M (s.pidIn i)).regs.rdataO >>> (8 * byteOffset addr)
    else i.resp
  | some (.get .stableX) => s.flag .x
  | some (.get .stableY) => s.flag .y
  | _ => i.resp

def stepMain : Firmware Firmware.Locals :=
  if i.turn = .core ∧ s.handler = none then s.main.step Firmware.body (s.answer M i) else s.main

/-- `mret` ends the handler. -/
def stepHandler : Option (Firmware Unit) :=
  match i.turn, s.handler with
  | .interrupt, none => if s.pid.irqO then some Firmware.pidInterruptHandler else none
  | .core, some (.ret _) => none
  | .core, some p => some (p.step (fun _ => .ret ()) (s.answer M i))
  | _, h => h

def stepFlag (a : Axis) : BitVec 32 :=
  match s.access i with
  | some (.set v value) => if v = a.flag then value else s.flag a
  | _ => s.flag a

def step : SystemState where
  main := s.stepMain M i
  handler := s.stepHandler M i
  flag := s.stepFlag i
  pid := s.pid.step M (s.pidIn i)

variable {M s i}

theorem step_main (hcore : i.turn = .core ∧ s.handler = none) :
    (s.step M i).main = s.main.step Firmware.body (s.answer M i) := if_pos hcore

theorem step_main_still (hidle : ¬ (i.turn = .core ∧ s.handler = none)) : (s.step M i).main = s.main :=
  if_neg hidle

end SystemState

end PenPlotter
