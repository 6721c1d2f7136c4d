import PenPlotter.Clocked
import PenPlotter.Ring

/-!
# The UART peripheral (`rtl/uart_peripheral/uart_obi.sv`)

The registers are grouped by the clocked block that drives them: the baud counters, the bus side,
the transmitter and the receiver. `UartState.step` updates the four groups from the old state, and the
combinational blocks are functions of it. `BufferLength = 2 ^ k`.
-/

namespace PenPlotter

/-- `uart_state_e`. -/
inductive UartPhase
  | idle | start | data | stop
deriving DecidableEq

/-- `device_state_e`. -/
inductive DevicePhase
  | wait | read | write
deriving DecidableEq

/-- `register_e`. -/
inductive UartRegister
  | disabled | status | tx | rx | baud
deriving DecidableEq

def stsLane : BitVec 32 := 0x000
def baudLane : BitVec 32 := 0x004
def txLane : BitVec 32 := 0x008
def rxLane : BitVec 32 := 0x00C

structure UartIn where
  rxI : Bool
  reqI : Bool
  addrI : BitVec 32
  weI : Bool
  beI : BitVec 4
  wdataI : BitVec 32
  /-- `status.padding`, which nothing drives. -/
  padding : BitVec 4

structure BaudRegs where
  rxBaudCounter : BitVec 32
  txBaudCounter : BitVec 32

structure DeviceRegs (k : Nat) where
  deviceState : DevicePhase
  rvalidO : Bool
  rdataO : BitVec 32
  baudSelector : BitVec 8
  rxBufStart : BitVec k
  txBuf : BitVec k → BitVec 8
  txBufEnd : BitVec k
  wdataByteIdx : BitVec 2
  weLatch : Bool
  beLatch : BitVec 4
  wdataLatch : BitVec 32
  addrLatch : BitVec 32

structure TxRegs (k : Nat) where
  txState : UartPhase
  txDataCount : BitVec 3
  txDataLatch : BitVec 8
  txBufStart : BitVec k

/-- The receiver proper; `rxSync1` and `rxSync0` are the bits of `rx_sync`. -/
structure RxFsm where
  rxState : UartPhase
  rxCollectingCount : BitVec 3
  rxCollecting : BitVec 8
  rxRestartBaud : Bool
  rxSync1 : Bool
  rxSync0 : Bool

structure RxRegs (k : Nat) extends RxFsm where
  rxBuf : BitVec k → BitVec 8
  rxBufEnd : BitVec k

structure UartState (k : Nat) extends BaudRegs, DeviceRegs k, TxRegs k, RxRegs k

variable {k : Nat} (ClockRate : Nat)

/-- `clks_per_bit`: 0 stalls the transmitter and the receiver, says the source. -/
def clksPerBit (baudSelector : BitVec 8) : BitVec 32 :=
  match baudSelector with
  | 0x01#8 => BitVec.ofNat 32 (ClockRate / 4800)
  | 0x02#8 => BitVec.ofNat 32 (ClockRate / 9600)
  | 0x03#8 => BitVec.ofNat 32 (ClockRate / 19200)
  | 0x04#8 => BitVec.ofNat 32 (ClockRate / 38400)
  | 0x05#8 => BitVec.ofNat 32 (ClockRate / 57600)
  | 0x06#8 => BitVec.ofNat 32 (ClockRate / 115200)
  | 0x07#8 => BitVec.ofNat 32 (ClockRate / 230400)
  | _ => 0

/-- Assigning bit `i` of a byte. -/
def setBit (v : BitVec 8) (i : BitVec 3) (b : Bool) : BitVec 8 :=
  if b then v ||| 1#8 <<< i.toNat else v &&& ~~~(1#8 <<< i.toNat)

theorem getLsbD_setBit (v : BitVec 8) (i : BitVec 3) (b : Bool) {j : Nat} (hj : j < 8) :
    (setBit v i b).getLsbD j = if j = i.toNat then b else v.getLsbD j := by
  unfold setBit
  cases b <;> by_cases h : j = i.toNat <;> simp [h, hj]
  all_goals omega

namespace UartState

variable (s : UartState k) (i : UartIn)

def clks : BitVec 32 := clksPerBit ClockRate s.baudSelector

def rxBaud : Bool := s.rxBaudCounter == s.clks ClockRate - 1
def txBaud : Bool := s.txBaudCounter == s.clks ClockRate - 1
def rxSample : Bool := s.rxBaudCounter == (s.clks ClockRate >>> 1) - 1

def rxEmpty : Bool := s.rxBufStart == s.rxBufEnd
def txEmpty : Bool := s.txBufStart == s.txBufEnd
def rxFull : Bool := s.rxBufEnd + 1 == s.rxBufStart
def txFull : Bool := s.txBufEnd + 1 == s.txBufStart

/-- `uart_status_t`, first member most significant. -/
def status : BitVec 8 :=
  BitVec.ofBool s.rxEmpty ++ BitVec.ofBool s.rxFull ++ BitVec.ofBool s.txEmpty ++
    BitVec.ofBool s.txFull ++ i.padding

def gntO : Bool := s.deviceState == .wait && i.reqI

def wdataSelector : UartRegister :=
  if s.weLatch then
    if s.addrLatch = stsLane then .disabled
    else if s.addrLatch = baudLane then .baud
    else if s.addrLatch = txLane then .tx
    else .disabled
  else .disabled

def rdataSelector : UartRegister :=
  if s.weLatch then .disabled
  else if s.addrLatch = stsLane then .status
  else if s.addrLatch = baudLane then .baud
  else if s.addrLatch = txLane then .disabled
  else if s.addrLatch = rxLane then .rx
  else .disabled

def errO : Bool :=
  s.addrLatch != stsLane && s.addrLatch != baudLane && s.addrLatch != txLane && s.addrLatch != rxLane

def txO : Bool :=
  match s.txState with
  | .idle => true
  | .start => false
  | .data => s.txDataLatch.getLsbD s.txDataCount.toNat
  | .stop => true

/-- Lane `wdata_byte_idx` of the latched write. -/
def laneByte : BitVec 8 := s.wdataLatch.extractLsb' (8 * s.wdataByteIdx.toNat) 8
def laneEn : Bool := s.beLatch.getLsbD s.wdataByteIdx.toNat

/-! ### The clocked blocks -/

def baudNext : BaudRegs where
  rxBaudCounter := if s.rxBaud ClockRate || s.rxRestartBaud then 0 else s.rxBaudCounter + 1
  txBaudCounter := if s.txBaud ClockRate then 0 else s.txBaudCounter + 1

def deviceNext : DeviceRegs k :=
  let d := s.toDeviceRegs
  match s.deviceState with
  | .wait =>
    if i.reqI then
      { d with
        rvalidO := false
        deviceState := if i.weI then .write else .read
        wdataLatch := i.wdataI
        addrLatch := (i.addrI.setWidth 8).setWidth 32
        weLatch := i.weI
        beLatch := i.beI }
    else { d with rvalidO := false }
  | .read =>
    let d := match s.rdataSelector with
      | .rx =>
        if s.rxEmpty then { d with rdataO := 0 }
        else
          { d with
            rdataO := (s.rxBuf s.rxBufStart).setWidth 32
            rxBufStart := s.rxBufStart + 1 }
      | .baud => { d with rdataO := s.baudSelector.setWidth 32 }
      | .status => { d with rdataO := (s.status i).setWidth 32 }
      | _ => { d with rdataO := 0 }
    { d with rvalidO := true, deviceState := .wait }
  | .write =>
    match s.wdataSelector with
    | .tx =>
      if !s.laneEn || !s.txFull then
        let d := if s.laneEn then
            { d with
              txBuf := Function.update s.txBuf s.txBufEnd s.laneByte
              txBufEnd := s.txBufEnd + 1 }
          else d
        if s.wdataByteIdx = 3 then
          { d with wdataByteIdx := s.wdataByteIdx + 1, rvalidO := true, deviceState := .wait }
        else { d with wdataByteIdx := s.wdataByteIdx + 1 }
      else d
    | .baud =>
      { d with baudSelector := s.wdataLatch.setWidth 8, rvalidO := true, deviceState := .wait }
    | _ => { d with rvalidO := true, deviceState := .wait }

def txNext : TxRegs k :=
  let x := s.toTxRegs
  match s.txState with
  | .idle =>
    if !s.txEmpty && s.txBaud ClockRate then
      { x with txDataLatch := s.txBuf s.txBufStart, txState := .start }
    else x
  | .start => if s.txBaud ClockRate then { x with txDataCount := 0, txState := .data } else x
  | .data =>
    if s.txBaud ClockRate then
      if s.txDataCount = 7 then { x with txState := .stop }
      else { x with txDataCount := s.txDataCount + 1 }
    else x
  | .stop =>
    if s.txBaud ClockRate then
      if s.txEmpty then { x with txState := .idle }
      else { x with txBufStart := s.txBufStart + 1, txState := .idle }
    else x

def rxNext : RxRegs k :=
  let x := { s.toRxRegs with rxSync1 := i.rxI, rxSync0 := s.rxSync1, rxRestartBaud := false }
  match s.rxState with
  | .idle => if !s.rxSync0 then { x with rxRestartBaud := true, rxState := .start } else x
  | .start =>
    if s.rxSample ClockRate then
      if !s.rxSync0 then
        { x with rxRestartBaud := true, rxCollectingCount := 0, rxState := .data }
      else { x with rxState := .idle }
    else x
  | .data =>
    if s.rxBaud ClockRate then
      { x with
        rxCollecting := setBit s.rxCollecting s.rxCollectingCount s.rxSync0
        rxCollectingCount := s.rxCollectingCount + 1
        rxState := if s.rxCollectingCount = 7 then .stop else .data }
    else x
  | .stop =>
    if s.rxBaud ClockRate && s.rxSync0 then
      { x with
        rxBuf := Function.update s.rxBuf s.rxBufEnd s.rxCollecting
        rxCollecting := 0
        rxBufEnd := if s.rxFull then s.rxBufEnd else s.rxBufEnd + 1
        rxState := .idle }
    else x

def step : UartState k where
  toBaudRegs := s.baudNext ClockRate
  toDeviceRegs := s.deviceNext i
  toTxRegs := s.txNext ClockRate
  toRxRegs := s.rxNext ClockRate i

/-- Reset; `rdata_o` and the two memories keep what they hold, so they are arbitrary. -/
def reset (rdata : BitVec 32) (txBuf rxBuf : BitVec k → BitVec 8) : UartState k where
  rxBaudCounter := 0
  txBaudCounter := 0
  deviceState := .wait
  rvalidO := false
  rdataO := rdata
  baudSelector := 0
  rxBufStart := 0
  txBuf := txBuf
  txBufEnd := 0
  wdataByteIdx := 0
  weLatch := false
  beLatch := 0
  wdataLatch := 0
  addrLatch := 0
  txState := .idle
  txDataCount := 0
  txDataLatch := 0
  txBufStart := 0
  rxState := .idle
  rxCollectingCount := 0
  rxCollecting := 0
  rxRestartBaud := false
  rxSync1 := false
  rxSync0 := false
  rxBuf := rxBuf
  rxBufEnd := 0

end UartState

end PenPlotter
