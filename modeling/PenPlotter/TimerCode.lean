import PenPlotter.Firmware
import PenPlotter.SysTimer
import PenPlotter.System

/-!
# The code that accesses the timer (`sw/main.c`)

`timer_read_mtime`, `timer_write_mtimecmp` and `machine_timer_handler`, and a run of such code against
`obi_sys_timer`. An input says in which cycles the next access of the code is granted, and what reaches the
port in the others, so any delay between two accesses is a run.
-/

namespace PenPlotter

namespace Mmio

def mtimeLo : BitVec 32 := 0x80003004
def mtimeHi : BitVec 32 := 0x80003008
def mtimecmpLo : BitVec 32 := 0x8000300C
def mtimecmpHi : BitVec 32 := 0x80003010
def timerPeriodTicks : BitVec 64 := 500000

end Mmio

open Mmio Prog

namespace Firmware

/-- The body of the loop of `timer_read_mtime`; `none` goes on with the loop. -/
def readMtime : Firmware (Option (BitVec 64)) := do
  let hi0 ← load mtimeHi
  let lo ← load mtimeLo
  let hi1 ← load mtimeHi
  if hi0 != hi1 then return none
  else return some (hi1.setWidth 64 <<< 32 ||| lo.setWidth 64)

/-- `timer_read_mtime`, as the body of a loop that stays at its value. -/
def timerReadMtime : Option (BitVec 64) → Firmware (Option (BitVec 64))
  | none => readMtime
  | some value => .ret (some value)

def timerWriteMtimecmp (value : BitVec 64) : Firmware Unit := do
  store mtimecmpLo 0xFFFFFFFF
  store mtimecmpHi ((value >>> 32).setWidth 32)
  store mtimecmpLo (value.setWidth 32)

end Firmware

/-- Where `machine_timer_handler` stands. -/
inductive TimerHandler
  | enter
  | reading (mtime : Option (BitVec 64))
  | done

/-- `machine_timer_handler`; `timer_interrupt_count`, which nothing reads, is left out. -/
def Firmware.machineTimerHandler : TimerHandler → Firmware TimerHandler
  | .enter => do
    set .print 1
    return .reading none
  | .reading none => do
    let mtime ← readMtime
    return .reading mtime
  | .reading (some mtime) => do
    timerWriteMtimecmp (mtime + timerPeriodTicks)
    return .done
  | .done => .ret .done

section Only

variable {allowed : Access → Prop}

theorem readMtime_only (hhi : allowed (.load mtimeHi)) (hlo : allowed (.load mtimeLo)) :
    Firmware.readMtime.Only allowed fun _ => True := by
  refine ⟨hhi, fun hi0 => ⟨hlo, fun lo => ⟨hhi, fun hi1 => ?_⟩⟩⟩
  change Only _ _ (if hi0 != hi1 then _ else _)
  split <;> trivial

theorem machineTimerHandler_only (hset : allowed (.set .print 1)) (hhi : allowed (.load mtimeHi))
    (hlo : allowed (.load mtimeLo))
    (hcmp : ∀ addr value, addr = mtimecmpLo ∨ addr = mtimecmpHi → allowed (.store addr value)) (h : TimerHandler) :
    (Firmware.machineTimerHandler h).Only allowed fun _ => True := by
  cases h with
  | enter => exact ⟨hset, fun _ => trivial⟩
  | done => trivial
  | reading mtime =>
    cases mtime with
    | none => exact (readMtime_only hhi hlo).bind fun _ _ => trivial
    | some mtime =>
      exact ⟨hcmp _ _ (.inl rfl), fun _ => ⟨hcmp _ _ (.inr rfl), fun _ => ⟨hcmp _ _ (.inl rfl), fun _ => trivial⟩⟩⟩

end Only

/-- `TimerStart` and `TimerMask` of `pp_system`. -/
def timerSelected (addr : BitVec 32) : Bool := addr &&& 0xFFFFF000 == 0x80003000

/-- The request of a word access to the timer. -/
def Access.timerRequest : Access → ObiIn
  | .load addr => if timerSelected addr then ⟨true, addr, false, 0xF, 0⟩ else .idle
  | .store addr value => if timerSelected addr then ⟨true, addr, true, 0xF, value⟩ else .idle
  | _ => .idle

structure TimerCodeIn where
  /-- The next access of the code is granted. -/
  go : Bool
  /-- What reaches the port when the code does not access it. -/
  other : ObiIn

structure TimerCode (α : Type) where
  code : Firmware α
  timer : SysTimerState

namespace TimerCode

variable {α : Type} (body : α → Firmware α) (s : TimerCode α) (i : TimerCodeIn)

def access : Option Access := if i.go then s.code.access else none

def port : ObiIn := if i.go then s.code.access.elim .idle Access.timerRequest else i.other

/-- The answer of the timer: all accesses of the code go there. -/
def answer : BitVec 32 := (s.timer.step (s.port i)).regs.rdataO

def step : TimerCode α where
  code := if i.go then s.code.step body (s.answer i) else s.code
  timer := s.timer.step (s.port i)

variable {s i}

theorem step_code_of_go (hgo : i.go = true) : (s.step body i).code = s.code.step body (s.answer i) := if_pos hgo

theorem step_code_of_wait (hgo : i.go = false) : (s.step body i).code = s.code := if_neg (by rw [hgo]; decide)

theorem port_of_access {acc : Access} (hgo : i.go = true) (hacc : s.code.access = some acc) :
    s.port i = acc.timerRequest := by
  rw [port, if_pos hgo, hacc]
  rfl

theorem port_of_ret {a : α} (hgo : i.go = true) (hret : s.code = .ret a) : s.port i = .idle := by
  rw [port, if_pos hgo, hret]
  rfl

theorem port_of_wait (hgo : i.go = false) : s.port i = i.other := if_neg (by rw [hgo]; decide)

theorem answer_load {addr : BitVec 32} {r : Fin TimerRegCount} (hgo : i.go = true)
    (hacc : s.code.access = some (.load addr)) (hsel : timerSelected addr = true)
    (hword : (⟨true, addr, false, 0xF, 0⟩ : ObiIn).word timerCfg = r.val) :
    s.answer i = s.timer.regs.q r := by
  have hport : s.port i = ⟨true, addr, false, 0xF, 0⟩ := (port_of_access hgo hacc).trans (if_pos hsel)
  have herr : (⟨true, addr, false, 0xF, 0⟩ : ObiIn).err timerCfg = false := by
    rw [ObiIn.err_eq (by decide), ObiIn.faulty, hword, decide_eq_false (Nat.not_le.2 r.isLt)]
    rfl
  rw [answer, hport]
  exact ObiRegState.rdataO_of_read (i := s.timer.regsIn ⟨true, addr, false, 0xF, 0⟩) rfl rfl rfl hword herr

end TimerCode

end PenPlotter
