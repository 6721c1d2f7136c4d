import PenPlotter.Bus
import PenPlotter.UartPort
import Mathlib.Data.Fin.VecNotation

/-!
# The system (`rtl/core/pp_system.sv`)

The bus with the data port of the core as its host and the seven devices. The grant of a device may depend on
the request of the same cycle; the request side of the bus reads only the host port, so there is no loop. What
the core and the pins do is an input; `M` is `MIN_PERIOD_FOR_STABILITY`.
-/

namespace PenPlotter

abbrev NrDevices : Nat := 7
abbrev NrHosts : Nat := 1

/-- `MemSize / 4` words. -/
abbrev MemAw : Nat := 15

/-- `cfg_device_addr_base` and `cfg_device_addr_mask`, in the order of `bus_device_e`: Ram, Uart, Gpio, Pwm,
Pid, Quad, Timer. -/
def cfgDevice : AddrMap NrDevices where
  deviceAddrBase :=
    ![0x00100000, 0x80000000, 0x80001000, 0x80002000, 0x80004000, 0x80004400, 0x80003000]
  deviceAddrMask :=
    ![~~~(128 * 1024 - 1), ~~~(4 * 1024 - 1), ~~~(4 * 1024 - 1), ~~~(4 * 1024 - 1), ~~~(1024 - 1),
      ~~~(1024 - 1), ~~~(4 * 1024 - 1)]

/-- The ports of `u_ibex` and the pins. -/
structure PpSystemIn where
  dataReqO : Bool
  dataAddrO : BitVec 32
  dataWeO : Bool
  dataBeO : BitVec 4
  dataWdataO : BitVec 32
  instrReqO : Bool
  instrAddrO : BitVec 32
  quad : Axis → BitVec 2
  uartRx : Bool
  /-- The undriven bits of the UART status. -/
  padding : BitVec 4

variable (prim : RamPrim MemAw) (M : Nat)

structure PpSystem where
  bus : BusState NrHosts NrDevices 2
  ram : Ram2p prim
  uart : UartState 5
  gpio : ObiStub
  pwm : ObiPwmState 1
  pid : PidState
  quad : ObiQuadState
  timer : SysTimerState

/-- The device on each port of the bus. -/
def device : Fin NrDevices → FrontEnd
  | 0 => .ram2p prim
  | 1 => .uart 50000000 5
  | 2 => .stub
  | 3 => .pwm 1
  | 4 => .pid M
  | 5 => .quad
  | 6 => .timer

namespace PpSystem

variable {prim}

/-- Reset; the RAM, `rdata_o` of the UART and its two buffers keep what they hold. -/
def reset (ram : prim.State) (rdata : BitVec 32) (txBuf rxBuf : BitVec 5 → BitVec 8) : PpSystem prim where
  bus := .reset
  ram := .reset ram
  uart := .reset rdata txBuf rxBuf
  gpio := .reset
  pwm := .reset
  pid := .reset
  quad := .reset
  timer := .reset

variable (s : PpSystem prim) (i : PpSystemIn)

/-- The host side of the bus. -/
def hostIn : BusIn NrHosts NrDevices where
  hostReq _ := i.dataReqO
  hostAddr _ := i.dataAddrO
  hostWe _ := i.dataWeO
  hostBe _ := i.dataBeO
  hostWdata _ := i.dataWdataO
  deviceGnt _ := false
  deviceRvalid _ := false
  deviceRdata _ := 0
  deviceErr _ := false

/-- `device_req[d]` and the signals with it. -/
def devicePort (d : Fin NrDevices) : ObiIn where
  reqI := s.bus.deviceReq cfgDevice (hostIn i) d
  addrI := s.bus.deviceAddr cfgDevice (hostIn i) d
  weI := s.bus.deviceWe cfgDevice (hostIn i) d
  beI := s.bus.deviceBe cfgDevice (hostIn i) d
  wdataI := s.bus.deviceWdata cfgDevice (hostIn i) d

/-- `mem_instr_req`, on port B of the RAM. -/
def instrPort : ObiIn where
  reqI := i.instrReqO && i.instrAddrO &&& cfgDevice.deviceAddrMask 0 == cfgDevice.deviceAddrBase 0
  addrI := i.instrAddrO
  weI := false
  beI := 0
  wdataI := 0

def ramIn : Ram2pIn := ⟨s.devicePort i 0, instrPort i⟩

def uartIn : UartIn where
  rxI := i.uartRx
  reqI := (s.devicePort i 1).reqI
  addrI := (s.devicePort i 1).addrI
  weI := (s.devicePort i 1).weI
  beI := (s.devicePort i 1).beI
  wdataI := (s.devicePort i 1).wdataI
  padding := i.padding

/-- `ticks_x` and `ticks_y` go from the decoders to the controllers. -/
def pidIn : PidIn := { s.devicePort i 4 with hwPvI := s.quad.hwQuad }

def quadIn : ObiQuadIn := { s.devicePort i 5 with quadI := i.quad }

def deviceIn : (d : Fin NrDevices) → (device prim M d).In
  | 0 => s.ramIn i
  | 1 => s.uartIn i
  | 2 => s.devicePort i 2
  | 3 => s.devicePort i 3
  | 4 => s.pidIn i
  | 5 => s.quadIn i
  | 6 => s.devicePort i 6

def deviceState : (d : Fin NrDevices) → (device prim M d).State
  | 0 => s.ram
  | 1 => s.uart
  | 2 => s.gpio
  | 3 => s.pwm
  | 4 => s.pid
  | 5 => s.quad
  | 6 => s.timer

/-- All ports of the bus. -/
def busIn : BusIn NrHosts NrDevices :=
  { hostIn i with
    deviceGnt := fun d => (device prim M d).gntO (s.deviceState M d) (s.deviceIn M i d)
    deviceRvalid := fun d => (device prim M d).rvalidO (s.deviceState M d)
    deviceRdata := fun d => (device prim M d).rdataO (s.deviceState M d)
    deviceErr := fun d => (device prim M d).errO (s.deviceState M d) }

def step : PpSystem prim where
  bus := s.bus.step cfgDevice (s.busIn M i)
  ram := s.ram.step (s.ramIn i)
  uart := s.uart.step 50000000 (s.uartIn i)
  gpio := s.gpio.step (s.devicePort i 2)
  pwm := s.pwm.step (s.devicePort i 3)
  pid := s.pid.step M (s.pidIn i)
  quad := s.quad.step (s.quadIn i)
  timer := s.timer.step (s.devicePort i 6)

variable {s i}

/-- Without a request of the core no device sees one. -/
theorem reqI_devicePort (h : i.dataReqO = false) (d : Fin NrDevices) : (s.devicePort i d).reqI = false := by
  show Option.elim _ false _ = false
  cases BusState.driver .. with
  | none => rfl
  | some _ => exact h

end PpSystem

end PenPlotter
