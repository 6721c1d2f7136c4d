import PenPlotter.Prog
import Mathlib.Data.BitVec
import Mathlib.Data.Fin.Basic
import Mathlib.Data.Fintype.Basic
import Mathlib.Logic.Function.Basic

/-!
# The firmware (`sw/main.c`)

`main` from its `while (1)` on and the PID interrupt handler, as programs over the accesses that other
parties see: device registers, the `volatile` globals, and the stores through the index `len`. The locals
of `main` are passed along. Two notes, which are no accesses of the program, mark the entry of
`switch (command[0])` and the STABLE packet.
-/

namespace PenPlotter

/-- The `volatile` globals. -/
inductive Var
  | stableX | stableY | print
deriving DecidableEq

inductive Note
  | dispatch (command : Fin 6 → BitVec 8)
  | stable
deriving DecidableEq

inductive Access
  | load (addr : BitVec 32)
  | store (addr value : BitVec 32)
  | loadByte (addr : BitVec 32)
  | storeByte (addr : BitVec 32) (value : BitVec 8)
  | get (v : Var)
  | set (v : Var) (value : BitVec 32)
  /-- `command[idx] = value`. -/
  | storeCommand (idx value : BitVec 8)
  | note (n : Note)
deriving DecidableEq

abbrev Firmware (α : Type) := Prog Access (BitVec 32) α

/-! ### `peripherals.h` -/

namespace Mmio

def uartStatus : BitVec 32 := 0x80000000
def uartTx : BitVec 32 := 0x80000008
def uartRx : BitVec 32 := 0x8000000C
def uartRxEmpty : BitVec 32 := 0x80
def uartTxFull : BitVec 32 := 0x10
def pwmWidth : BitVec 32 := 0x80002004
def pidStatus : BitVec 32 := 0x80004000
def pidXKp : BitVec 32 := 0x80004004
def pidXKd : BitVec 32 := 0x80004008
def pidXRs : BitVec 32 := 0x8000400C
def pidXSetPoint : BitVec 32 := 0x80004010
def pidYKp : BitVec 32 := 0x80004014
def pidYKd : BitVec 32 := 0x80004018
def pidYRs : BitVec 32 := 0x8000401C
def pidYSetPoint : BitVec 32 := 0x80004020
def pidIntXStable : BitVec 32 := 1
def pidIntYStable : BitVec 32 := 2
def quadX : BitVec 32 := 0x80004400
def quadY : BitVec 32 := 0x80004404

end Mmio

open Mmio

namespace Firmware

def load (addr : BitVec 32) : Firmware (BitVec 32) := .act (.load addr) .ret
def store (addr value : BitVec 32) : Firmware Unit := .act (.store addr value) fun _ => .ret ()
def loadByte (addr : BitVec 32) : Firmware (BitVec 8) :=
  .act (.loadByte addr) fun r => .ret (r.setWidth 8)
def storeByte (addr : BitVec 32) (value : BitVec 8) : Firmware Unit :=
  .act (.storeByte addr value) fun _ => .ret ()
def get (v : Var) : Firmware (BitVec 32) := .act (.get v) .ret
def set (v : Var) (value : BitVec 32) : Firmware Unit := .act (.set v value) fun _ => .ret ()
def storeCommand (idx value : BitVec 8) : Firmware Unit :=
  .act (.storeCommand idx value) fun _ => .ret ()
def note (n : Note) : Firmware Unit := .act (.note n) fun _ => .ret ()

section

variable {α : Type} (addr value : BitVec 32) (v : Var)

@[simp] theorem load_bind (f : BitVec 32 → Firmware α) : load addr >>= f = .act (.load addr) f := rfl

@[simp] theorem loadByte_bind (f : BitVec 8 → Firmware α) :
    loadByte addr >>= f = .act (.loadByte addr) fun r => f (r.setWidth 8) := rfl

@[simp] theorem get_bind (f : BitVec 32 → Firmware α) : get v >>= f = .act (.get v) f := rfl

@[simp] theorem storeCommand_bind (idx b : BitVec 8) (f : Unit → Firmware α) :
    storeCommand idx b >>= f = .act (.storeCommand idx b) fun _ => f () := rfl

@[simp] theorem note_bind (n : Note) (f : Unit → Firmware α) :
    note n >>= f = .act (.note n) fun _ => f () := rfl

@[simp] theorem pure_eq_ret (a : α) : (pure a : Firmware α) = .ret a := rfl

end

def txFull (status : BitVec 32) : Bool := status &&& uartTxFull != 0

/-- `while ((UART->STATUS & UART_TX_FULL)) nop`. -/
def waitTx : Firmware Unit := .spin (.load uartStatus) txFull (.ret ())

def uartPutc (c : BitVec 8) : Firmware Unit := do
  waitTx
  storeByte uartTx c

def uartPutw (w : BitVec 32) : Firmware Unit := do
  waitTx
  store uartTx w

def readU32Le (b0 b1 b2 b3 : BitVec 8) : BitVec 32 :=
  b0.setWidth 32 <<< 0 ||| b1.setWidth 32 <<< 8 ||| b2.setWidth 32 <<< 16 ||| b3.setWidth 32 <<< 24

def pidInterruptHandler : Firmware Unit := do
  let status ← load pidStatus
  let mut acknowledged : BitVec 32 := 0
  if status &&& pidIntXStable != 0 then
    set .stableX 1
    acknowledged := acknowledged ||| pidIntXStable
  if status &&& pidIntYStable != 0 then
    set .stableY 1
    acknowledged := acknowledged ||| pidIntYStable
  if acknowledged != 0 then
    store pidStatus acknowledged

/-- `command` has a first byte. -/
instance command_neZero : NeZero 6 := ⟨by decide⟩

/-- The locals of `main`. -/
structure Locals where
  command : Fin 6 → BitVec 8
  len : BitVec 8
  finished : Bool
  streaming : Bool
  messageSent : Bool

def Locals.initial : Locals := ⟨fun _ => 0, 0, false, false, false⟩

/-- A store through `len` past the six bytes hits none of them. -/
def putCommand (command : Fin 6 → BitVec 8) (idx value : BitVec 8) : Fin 6 → BitVec 8 :=
  fun i => if i.val = idx.toNat then value else command i

/-- The command assembly. -/
def receive (l : Locals) : Firmware Locals := do
  let status ← load uartStatus
  if status &&& uartRxEmpty != uartRxEmpty then
    let b ← loadByte uartRx
    storeCommand l.len b
    let mut l := { l with command := putCommand l.command l.len b, len := l.len + 1 }
    if l.len = 1 then
      l := { l with finished := l.command 0 == 0 || l.command 0 == 1 || l.command 0 == 4 }
    if l.len = 6 then
      l := { l with finished := true }
    return l
  else
    return l

/-- The stream report. -/
def report (l : Locals) : Firmware Unit := do
  if l.streaming then
    let print ← get .print
    if print != 0 then
      uartPutc 1
      let x ← load quadX
      uartPutw x
      uartPutc 2
      let y ← load quadY
      uartPutw y
      set .print 0

/-- The STABLE packet. -/
def sendStable (l : Locals) : Firmware Locals := do
  if !l.messageSent then
    let x ← get .stableX
    if x != 0 then
      let y ← get .stableY
      if y != 0 then
        note .stable
        uartPutc 3
        return { l with messageSent := true }
      else return l
    else return l
  else return l

/-- The case of a new set-point for one axis. -/
def setPoint (setPointReg : BitVec 32) (stable : Var) (value : BitVec 32) (l : Locals) :
    Firmware Locals := do
  let old ← load setPointReg
  if old != value then
    store setPointReg value
    set stable 0
    return { l with messageSent := false }
  else return l

def servoWidth (angle : BitVec 32) : BitVec 32 :=
  let angle := if 65535#32 ≤ angle then 65535 else angle
  50000 + (50000 * angle) / 66535

/-- `switch (command[0])`. -/
def dispatch (l : Locals) : Firmware Locals := do
  let value := readU32Le (l.command 2) (l.command 3) (l.command 4) (l.command 5)
  match l.command 0 with
  | 0#8 =>
    uartPutc 0
    uartPutc 3
    return l
  | 1#8 =>
    store quadX 1
    store pidXSetPoint 0
    store quadY 1
    store pidYSetPoint 0
    return l
  | 2#8 =>
    match l.command 1 with
    | 0#8 => setPoint pidXSetPoint .stableX value l
    | 1#8 => setPoint pidYSetPoint .stableY value l
    | 2#8 =>
      store pidXKp value
      store pidYKp value
      return l
    | 3#8 =>
      store pidXKd value
      store pidYKd value
      return l
    | 4#8 =>
      store pidXRs value
      store pidYRs value
      return l
    | 5#8 =>
      store pwmWidth (servoWidth value)
      return l
    | _ => return l
  | 4#8 => return { l with streaming := !l.streaming }
  | _ => return l

/-- `if (finished) { … }`. -/
def execute (l : Locals) : Firmware Locals := do
  if l.finished then
    note (.dispatch l.command)
    let l ← dispatch l
    return { l with len := 0, finished := false }
  else return l

/-- One iteration of `while (1)`. -/
def body (l : Locals) : Firmware Locals := do
  let l ← receive l
  report l
  let l ← sendStable l
  execute l

end Firmware

end PenPlotter
