import PenPlotter.Clocked
import Mathlib.Data.BitVec
import Mathlib.Data.Fin.Basic
import Mathlib.Data.List.FinRange
import Mathlib.Logic.Function.Basic

/-!
# The OBI interconnect (`rtl/core/bus.sv`)

`HostCount` hosts, `DeviceCount` devices, and a ring of `BufferMax = 2 ^ k` outstanding transactions
whose pointers are `BufferCountBits = k` bits wide. `BusState.step` is the clocked block; the
combinational blocks are functions of the state and of the inputs of the cycle. An index that the
source accompanies by a valid flag (`host_req_valid`/`host_req`, `device_req_valid`/`device_req`) is
an `Option` here.
-/

namespace PenPlotter

/-- `pair_t`. -/
structure Pair (HostCount DeviceCount : Nat) where
  host : Fin HostCount
  device : Fin DeviceCount
  rdata : BitVec 32
  done : Bool
  err : Bool
deriving DecidableEq

/-- The input ports `device_addr_base` and `device_addr_mask`, which every instantiation ties to
constants. -/
structure AddrMap (DeviceCount : Nat) where
  deviceAddrBase : Fin DeviceCount → BitVec 32
  deviceAddrMask : Fin DeviceCount → BitVec 32

structure BusIn (HostCount DeviceCount : Nat) where
  hostReq : Fin HostCount → Bool
  hostAddr : Fin HostCount → BitVec 32
  hostWe : Fin HostCount → Bool
  hostBe : Fin HostCount → BitVec 4
  hostWdata : Fin HostCount → BitVec 32
  deviceGnt : Fin DeviceCount → Bool
  deviceRvalid : Fin DeviceCount → Bool
  deviceRdata : Fin DeviceCount → BitVec 32
  deviceErr : Fin DeviceCount → Bool

structure BusState (HostCount DeviceCount k : Nat) where
  outstanding : BitVec k → Pair HostCount DeviceCount
  outstandingFront : BitVec k
  outstandingBack : BitVec k

variable {H D k : Nat}

/-- The arbiter: the loop runs from the highest host down and the last assignment wins. -/
def BusIn.hostReqSel (i : BusIn H D) : Option (Fin H) :=
  (List.finRange H).reverse.foldl (fun sel h => if i.hostReq h then some h else sel) none

/-- The decoder: the loop runs from device 0 up and the last match wins. -/
def AddrMap.decode (cfg : AddrMap D) (addr : BitVec 32) : Option (Fin D) :=
  (List.finRange D).foldl
    (fun sel d => if addr &&& cfg.deviceAddrMask d = cfg.deviceAddrBase d then some d else sel) none

namespace BusState

/-- `'{default: '0}` with both pointers at 0. -/
def reset [NeZero H] [NeZero D] : BusState H D k :=
  ⟨fun _ => ⟨0, 0, 0, false, false⟩, 0, 0⟩

def response (s : BusState H D k) : Pair H D := s.outstanding s.outstandingFront

def outstandingFull (s : BusState H D k) : Bool := s.outstandingBack + 1 == s.outstandingFront

/-- The request of the cycle: the selected host, unless the ring is full. -/
def request (s : BusState H D k) (i : BusIn H D) : Option (Fin H) :=
  if s.outstandingFull then none else i.hostReqSel

/-- One round of the `capture_en` loop, on the pair `(capture_en, claimed)`. -/
def captureRound (s : BusState H D k) (i : BusIn H D) (acc : (BitVec k → Bool) × (Fin D → Bool))
    (n : Nat) : (BitVec k → Bool) × (Fin D → Bool) :=
  let occ := s.outstandingBack - s.outstandingFront
  let idx := s.outstandingFront + BitVec.ofNat k n
  let dev := (s.outstanding idx).device
  if n < occ.toNat then
    if i.deviceRvalid dev && !(s.outstanding idx).done && !(s.outstanding idx).err &&
        !acc.2 dev then
      (Function.update acc.1 idx true, Function.update acc.2 dev true)
    else acc
  else acc

def captureEn (s : BusState H D k) (i : BusIn H D) : BitVec k → Bool :=
  ((List.range (2 ^ k)).foldl (captureRound s i) (fun _ => false, fun _ => false)).1

/-! ### The clocked block -/

/-- The new transaction written at `outstanding_back`, if one is granted. -/
def pushed [NeZero D] (cfg : AddrMap D) (s : BusState H D k) (i : BusIn H D) : Option (Pair H D) :=
  let slot := s.outstanding s.outstandingBack
  match s.request i with
  | none => none
  | some h =>
    match cfg.decode (i.hostAddr h) with
    | some d => if i.deviceGnt d then some { slot with host := h, device := d, err := false } else none
    | none => some { slot with host := h, device := 0, err := true, done := true }

def popping (s : BusState H D k) : Bool :=
  s.outstandingFront != s.outstandingBack && s.response.done

/-- The assignments of the clocked block in source order; each right-hand side reads the old state. -/
def step [NeZero D] (cfg : AddrMap D) (s : BusState H D k) (i : BusIn H D) : BusState H D k :=
  let o := s.outstanding
  let o₁ := match s.pushed cfg i with
    | some p => Function.update o s.outstandingBack p
    | none => o
  let o₂ := fun n =>
    if s.captureEn i n then
      { o₁ n with rdata := i.deviceRdata (o n).device, err := i.deviceErr (o n).device, done := true }
    else o₁ n
  let o₃ := if s.popping then
      Function.update o₂ s.outstandingFront
        { o₂ s.outstandingFront with done := false, err := false }
    else o₂
  { outstanding := o₃
    outstandingFront := if s.popping then s.outstandingFront + 1 else s.outstandingFront
    outstandingBack := if (s.pushed cfg i).isSome then s.outstandingBack + 1 else s.outstandingBack }

def hostGnt (cfg : AddrMap D) (s : BusState H D k) (i : BusIn H D) (h : Fin H) : Bool :=
  match s.request i with
  | none => false
  | some h' =>
    if h = h' then
      match cfg.decode (i.hostAddr h') with
      | some d => i.deviceGnt d
      | none => true
    else false

/-- The host whose request drives device port `d`; every other device port is `'0`. -/
def driver (cfg : AddrMap D) (s : BusState H D k) (i : BusIn H D) (d : Fin D) : Option (Fin H) :=
  (s.request i).filter fun h => cfg.decode (i.hostAddr h) = some d

def deviceReq (cfg : AddrMap D) (s : BusState H D k) (i : BusIn H D) (d : Fin D) : Bool :=
  (driver cfg s i d).elim false i.hostReq

def deviceAddr (cfg : AddrMap D) (s : BusState H D k) (i : BusIn H D) (d : Fin D) : BitVec 32 :=
  (driver cfg s i d).elim 0 fun h => i.hostAddr h &&& ~~~cfg.deviceAddrMask d

def deviceWe (cfg : AddrMap D) (s : BusState H D k) (i : BusIn H D) (d : Fin D) : Bool :=
  (driver cfg s i d).elim false i.hostWe

def deviceBe (cfg : AddrMap D) (s : BusState H D k) (i : BusIn H D) (d : Fin D) : BitVec 4 :=
  (driver cfg s i d).elim 0 i.hostBe

def deviceWdata (cfg : AddrMap D) (s : BusState H D k) (i : BusIn H D) (d : Fin D) : BitVec 32 :=
  (driver cfg s i d).elim 0 i.hostWdata

def hostRvalid (s : BusState H D k) (h : Fin H) : Bool := s.popping && h = s.response.host

def hostRdata (s : BusState H D k) (h : Fin H) : BitVec 32 :=
  if s.hostRvalid h then (if s.response.err then 0 else s.response.rdata) else 0

def hostErr (s : BusState H D k) (h : Fin H) : Bool := s.hostRvalid h && s.response.err

end BusState

end PenPlotter
