import PenPlotter.Handshake
import PenPlotter.ObiRegRef
import PenPlotter.Pid
import PenPlotter.Quad

/-!
# The devices with a one-cycle port

The RAM (`rtl/core/mem/ram_2p.sv`), the stub in place of the GPIO (`rtl/core/obi_stub.sv`), and the peripherals
behind `obi_reg`: `obi_pwm`, `obi_sys_timer`, `obi_pid`, `obi_quad`. Each grants a request at once and answers
it in the next cycle.
-/

namespace PenPlotter

structure RamPortIn (Aw : Nat) where
  reqI : Bool
  writeI : Bool
  addrI : BitVec Aw
  wdataI : BitVec 32
  wmaskI : BitVec 32

/-- `prim_ram_2p` or `prim_altera_ram_2p`, whichever `RAM_IMPL` selects. -/
structure RamPrim (Aw : Nat) where
  State : Type
  step : State → RamPortIn Aw → RamPortIn Aw → State
  aRdataO : State → BitVec 32
  bRdataO : State → BitVec 32

variable {Aw : Nat}

structure Ram2p (prim : RamPrim Aw) where
  ram : prim.State
  aRvalidO : Bool
  bRvalidO : Bool

structure Ram2pIn where
  a : ObiIn
  b : ObiIn

namespace Ram2p

variable {prim : RamPrim Aw}

/-- A port of `u_ram`: the word index is `addr[Aw-1+2:2]`. -/
def primIn (o : ObiIn) : RamPortIn Aw := ⟨o.reqI, o.weI, o.addrI.extractLsb' 2 Aw, o.wdataI, byteMask o.beI⟩

def step (s : Ram2p prim) (i : Ram2pIn) : Ram2p prim :=
  ⟨prim.step s.ram (primIn i.a) (primIn i.b), i.a.reqI, i.b.reqI⟩

def reset (ram : prim.State) : Ram2p prim := ⟨ram, false, false⟩

end Ram2p

/-! ### `obi_stub` -/

structure ObiStub where
  rvalidO : Bool
  rdataO : BitVec 32
  errO : Bool

namespace ObiStub

def reset : ObiStub := ⟨false, 0, false⟩

def step (_ : ObiStub) (i : ObiIn) : ObiStub := ⟨i.reqI, 0, i.reqI⟩

end ObiStub

/-! ### `obi_pwm` -/

/-- `prgm_pwm`. -/
structure PrgmPwm where
  counter : BitVec 32

namespace PrgmPwm

variable (s : PrgmPwm) (periodI widthI : BitVec 32)

def enabled : Bool := periodI != 0

def width : BitVec 32 := if widthI > periodI then periodI else widthI

def pwmO : Bool := enabled periodI && s.counter < width periodI widthI

def step : PrgmPwm := ⟨if enabled periodI && s.counter < periodI - 1 then s.counter + 1 else 0⟩

end PrgmPwm

def pwmCfg (PWMCount : Nat) : ObiRegCfg (2 * PWMCount) where
  usedAddrWidth := 8
  regAccess _ := .rw
  resValue _ := 0

structure ObiPwmState (PWMCount : Nat) where
  regs : ObiRegState (2 * PWMCount)
  pwm : Fin PWMCount → PrgmPwm

namespace ObiPwmState

variable {PWMCount : Nat} (s : ObiPwmState PWMCount) (i : ObiIn)

def reset : ObiPwmState PWMCount := ⟨.reset (pwmCfg PWMCount), fun _ => ⟨0⟩⟩

def period (g : Fin PWMCount) : BitVec 32 := s.regs.q ⟨g * 2, by omega⟩
def width (g : Fin PWMCount) : BitVec 32 := s.regs.q ⟨g * 2 + 1, by omega⟩

def pwmO (g : Fin PWMCount) : Bool := (s.pwm g).pwmO (s.period g) (s.width g)

def step : ObiPwmState PWMCount where
  regs := s.regs.step (pwmCfg PWMCount) ⟨i, fun _ => false, fun _ => 0⟩
  pwm g := (s.pwm g).step (s.period g)

end ObiPwmState

/-! ### `obi_sys_timer` -/

abbrev TimerRegCount : Nat := 5

def controlLane : Fin TimerRegCount := 0
def mTimeLoLane : Fin TimerRegCount := 1
def mTimeHiLane : Fin TimerRegCount := 2
def mTimeCmpLoLane : Fin TimerRegCount := 3
def mTimeCmpHiLane : Fin TimerRegCount := 4

def timerCfg : ObiRegCfg TimerRegCount where
  usedAddrWidth := 8
  regAccess _ := .rw
  resValue r := if r = mTimeCmpLoLane ∨ r = mTimeCmpHiLane then 0xFFFFFFFF else 0

structure SysTimerState where
  regs : ObiRegState TimerRegCount

namespace SysTimerState

variable (s : SysTimerState) (i : ObiIn)

def reset : SysTimerState := ⟨.reset timerCfg⟩

def enable : Bool := (s.regs.q controlLane).getLsbD 0
def irqEnable : Bool := (s.regs.q controlLane).getLsbD 1

def mtime : BitVec 64 := s.regs.q mTimeHiLane ++ s.regs.q mTimeLoLane
def mtimeCmp : BitVec 64 := s.regs.q mTimeCmpHiLane ++ s.regs.q mTimeCmpLoLane

def irqO : Bool := s.irqEnable && s.enable && s.mtimeCmp ≤ s.mtime

/-- The counter runs when it is enabled and neither half is written. -/
def counts : Bool := s.enable && !i.swWe timerCfg mTimeLoLane && !i.swWe timerCfg mTimeHiLane

def regsIn : ObiRegIn TimerRegCount where
  toObiIn := i
  hwDe r := s.counts i && (r == mTimeLoLane || r == mTimeHiLane)
  hwD r :=
    if s.counts i then
      if r = mTimeLoLane then (s.mtime + 1).setWidth 32
      else if r = mTimeHiLane then (s.mtime + 1).extractLsb' 32 32
      else 0
    else 0

def step : SysTimerState := ⟨s.regs.step timerCfg (s.regsIn i)⟩

end SysTimerState

/-- A device with the wires of its OBI port, and the error status that it owes to a request. -/
structure FrontEnd where
  State : Type
  In : Type
  step : State → In → State
  port : In → ObiIn
  gntO : State → In → Bool
  rvalidO : State → Bool
  rdataO : State → BitVec 32
  errO : State → Bool
  status : ObiIn → Bool

namespace FrontEnd

/-- A request is due its error status when it is granted; an answer is a cycle with `rvalid`. -/
def handshake (F : FrontEnd) : Handshake.Port F.State F.In Bool where
  step := F.step
  due s i := if (F.port i).reqI && F.gntO s i then [F.status (F.port i)] else []
  answer s := if F.rvalidO s then [F.errO s] else []

/-- The discipline that the bus relies on. -/
structure Disciplined (F : FrontEnd) (s : F.State) : Prop where
  inOrder : F.handshake.InOrder s
  complete : F.handshake.Complete s

/-- Port A of the RAM, with `device_gnt` and `device_err` as `pp_system` ties them. -/
def ram2p (prim : RamPrim Aw) : FrontEnd where
  State := Ram2p prim
  In := Ram2pIn
  step := Ram2p.step
  port i := i.a
  gntO _ i := i.a.reqI
  rvalidO := Ram2p.aRvalidO
  rdataO s := prim.aRdataO s.ram
  errO _ := false
  status _ := false

/-- Every access to the stub is an error. -/
def stub : FrontEnd where
  State := ObiStub
  In := ObiIn
  step := ObiStub.step
  port i := i
  gntO _ i := i.reqI
  rvalidO := ObiStub.rvalidO
  rdataO := ObiStub.rdataO
  errO := ObiStub.errO
  status _ := true

def pwm (PWMCount : Nat) : FrontEnd where
  State := ObiPwmState PWMCount
  In := ObiIn
  step := ObiPwmState.step
  port i := i
  gntO _ i := i.gntO
  rvalidO s := s.regs.rvalidO
  rdataO s := s.regs.rdataO
  errO s := s.regs.errO
  status := ObiIn.faulty (pwmCfg PWMCount)

def pid (M : Nat) : FrontEnd where
  State := PidState
  In := PidIn
  step := PidState.step M
  port := PidIn.toObiIn
  gntO _ i := i.gntO
  rvalidO s := s.regs.rvalidO
  rdataO s := s.regs.rdataO
  errO s := s.regs.errO
  status := ObiIn.faulty pidCfg

def quad : FrontEnd where
  State := ObiQuadState
  In := ObiQuadIn
  step := ObiQuadState.step
  port := ObiQuadIn.toObiIn
  gntO _ i := i.gntO
  rvalidO s := s.regs.rvalidO
  rdataO s := s.regs.rdataO
  errO s := s.regs.errO
  status := ObiIn.faulty quadCfg

def timer : FrontEnd where
  State := SysTimerState
  In := ObiIn
  step := SysTimerState.step
  port i := i
  gntO _ i := i.gntO
  rvalidO s := s.regs.rvalidO
  rdataO s := s.regs.rdataO
  errO s := s.regs.errO
  status := ObiIn.faulty timerCfg

variable {F : FrontEnd} {s : F.State}

/-- A port that grants every request, registers it as `rvalid` and its status as `err`. -/
theorem Disciplined.of_registered (hgnt : ∀ s i, F.gntO s i = (F.port i).reqI)
    (hrvalid : ∀ s i, F.rvalidO (F.step s i) = (F.port i).reqI)
    (herr : ∀ s i, (F.port i).reqI = true → F.errO (F.step s i) = F.status (F.port i))
    (h0 : F.rvalidO s = false) : F.Disciplined s := by
  have hnext : ∀ s i, F.handshake.answer (F.handshake.step s i) = F.handshake.due s i := by
    intro s i
    show (if F.rvalidO (F.step s i) then [F.errO (F.step s i)] else []) =
      if (F.port i).reqI && F.gntO s i then [F.status (F.port i)] else []
    rw [hrvalid, hgnt, Bool.and_self]
    split
    next h => rw [herr s i h]
    next => rfl
  have hnil : F.handshake.answer s = [] := if_neg (by rw [h0]; decide)
  exact ⟨Handshake.Port.inOrder_of_next hnext hnil, Handshake.Port.complete_of_next hnext hnil⟩

theorem ram2p_disciplined (prim : RamPrim Aw) (ram : prim.State) : (ram2p prim).Disciplined (.reset ram) :=
  .of_registered (fun _ _ => rfl) (fun _ _ => rfl) (fun _ _ _ => rfl) rfl

theorem stub_disciplined : stub.Disciplined .reset :=
  .of_registered (fun _ _ => rfl) (fun _ _ => rfl) (fun _ _ h => h) rfl

theorem errO_step {n : Nat} {cfg : ObiRegCfg n} (hn : 4 * n ≤ 2 ^ cfg.usedAddrWidth) (r : ObiRegState n)
    {i : ObiRegIn n} (h : i.reqI = true) : (r.step cfg i).errO = i.faulty cfg :=
  (r.step_answers hn i).err h

theorem pwm_disciplined {PWMCount : Nat} (hn : PWMCount ≤ 32) : (pwm PWMCount).Disciplined .reset :=
  .of_registered (fun _ _ => rfl) (fun _ _ => rfl)
    (fun s _ h => errO_step (by show 4 * (2 * PWMCount) ≤ 2 ^ 8; omega) s.regs h) rfl

theorem pid_disciplined (M : Nat) : (pid M).Disciplined .reset :=
  .of_registered (fun _ _ => rfl) (fun _ _ => rfl) (fun s _ h => errO_step (by decide) s.regs h) rfl

theorem quad_disciplined : quad.Disciplined .reset :=
  .of_registered (fun _ _ => rfl) (fun _ _ => rfl) (fun s _ h => errO_step (by decide) s.regs h) rfl

theorem timer_disciplined : timer.Disciplined .reset :=
  .of_registered (fun _ _ => rfl) (fun _ _ => rfl) (fun s _ h => errO_step (by decide) s.regs h) rfl

end FrontEnd

end PenPlotter
