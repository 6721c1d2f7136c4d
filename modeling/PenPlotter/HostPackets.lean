import PenPlotter.Commands

/-!
# The packets to the host (`dv/verilator/ppcsender.c`, `shape.c`)

The receive loops of the two host programs, on the bytes that `read_exact` gets one by one, and the packets
that they tell apart by the type byte alone.
-/

namespace PenPlotter

/-- What the child process of `ppcsender.c` prints for a packet. -/
inductive Printed
  | status (version : BitVec 8)
  | xTicks (ticks : Int)
  | yTicks (ticks : Int)
  | stable
deriving DecidableEq

/-- The receive loop of `ppcsender.c`; it waits where the bytes end. -/
def ppcsender : List (BitVec 8) → List Printed
  | [] => []
  | packetType :: bytes =>
    match packetType with
    | 0#8 =>
      match bytes with
      | version :: rest => .status version :: ppcsender rest
      | [] => []
    | 1#8 =>
      match bytes with
      | b0 :: b1 :: b2 :: b3 :: rest => .xTicks (Firmware.readU32Le b0 b1 b2 b3).toInt :: ppcsender rest
      | _ => []
    | 2#8 =>
      match bytes with
      | b0 :: b1 :: b2 :: b3 :: rest => .yTicks (Firmware.readU32Le b0 b1 b2 b3).toInt :: ppcsender rest
      | _ => []
    | 3#8 => .stable :: ppcsender bytes
    | _ => ppcsender bytes
termination_by structural bytes => bytes

/-- What `shape.c` reads for a packet. -/
inductive ShapeRead
  | status (version : BitVec 8)
  | ticks (packetType : BitVec 8) (ticks : Int)
  | stable
deriving DecidableEq

/-- The shape that `shape.c` is compiled for, with one of `CIRCLE` and `RECTANGLE` defined or none. -/
inductive ShapeBuild
  | plain | circle | rectangle

/-- The loop ends when `index` comes to `SAMPLES + 2` or to `POINTS - 1`. -/
def ShapeBuild.stopAt : ShapeBuild → Option Nat
  | .plain => none
  | .circle => some (32 + 2)
  | .rectangle => some (12 - 1)

/-- The receive loop of `shape.c`; `index` counts the STABLE packets. -/
def shape (build : ShapeBuild) : Nat → List (BitVec 8) → List ShapeRead
  | _, [] => []
  | index, packetType :: bytes =>
    match packetType with
    | 0#8 =>
      match bytes with
      | version :: rest => .status version :: if build.stopAt = some index then [] else shape build index rest
      | [] => []
    | 1#8 | 2#8 =>
      match bytes with
      | b0 :: b1 :: b2 :: b3 :: rest =>
        .ticks packetType (Firmware.readU32Le b0 b1 b2 b3).toInt ::
          if build.stopAt = some index then [] else shape build index rest
      | _ => []
    | 3#8 => .stable :: if build.stopAt = some (index + 1) then [] else shape build (index + 1) bytes
    | _ => if build.stopAt = some index then [] else shape build index bytes
termination_by structural _ bytes => bytes

inductive Packet
  | status
  | xTicks (x : BitVec 32)
  | yTicks (y : BitVec 32)
  | stable
deriving DecidableEq

/-- A write of the UART TX register. -/
inductive TxWrite
  | byte (c : BitVec 8)
  | word (w : BitVec 32)

/-- The enabled lanes of a write, in order. -/
def TxWrite.lanes : TxWrite → List (BitVec 8)
  | .byte c => [c]
  | .word w => [w.extractLsb' 0 8, w.extractLsb' 8 8, w.extractLsb' 16 8, w.extractLsb' 24 8]

namespace Packet

/-- The writes that send a packet. -/
def writes : Packet → List TxWrite
  | .status => [.byte 0, .byte 3]
  | .xTicks x => [.byte 1, .word x]
  | .yTicks y => [.byte 2, .word y]
  | .stable => [.byte 3]

def bytes (p : Packet) : List (BitVec 8) := p.writes.flatMap TxWrite.lanes

def x : Packet → Option (BitVec 32)
  | .xTicks x => some x
  | _ => none

def y : Packet → Option (BitVec 32)
  | .yTicks y => some y
  | _ => none

def printed : Packet → Printed
  | .status => .status 3
  | .xTicks x => .xTicks x.toInt
  | .yTicks y => .yTicks y.toInt
  | .stable => .stable

def shapeRead : Packet → ShapeRead
  | .status => .status 3
  | .xTicks x => .ticks 1 x.toInt
  | .yTicks y => .ticks 2 y.toInt
  | .stable => .stable

/-- Some writes of a packet, but not all: a packet is cut off between two register writes. -/
def IsPart (part : List TxWrite) : Prop := part = [] ∨ ∃ p : Packet, part <+: p.writes ∧ part ≠ p.writes

theorem IsPart.cases {part : List TxWrite} (h : IsPart part) :
    part = [] ∨ part = [.byte 0] ∨ part = [.byte 1] ∨ part = [.byte 2] := by
  rcases h with rfl | ⟨p, hpre, hne⟩
  · exact .inl rfl
  obtain ⟨rest, hrest⟩ := hpre
  have hnil : rest ≠ [] := fun h => hne (by rw [← hrest, h, List.append_nil])
  obtain ⟨last, tail, rfl⟩ := List.exists_cons_of_ne_nil hnil
  match part with
  | [] => exact .inl rfl
  | [w] => cases p <;> cases hrest <;> simp
  | _ :: _ :: _ =>
    have hlen := congrArg List.length hrest
    cases p <;> simp [writes] at hlen

end Packet

section Parse

variable {ps : List Packet} {part : List TxWrite}

theorem ppcsender_append (p : Packet) (rest : List (BitVec 8)) :
    ppcsender (p.bytes ++ rest) = p.printed :: ppcsender rest := by
  cases p with
  | xTicks x => exact congrArg (fun v : BitVec 32 => Printed.xTicks v.toInt :: ppcsender rest) (readU32Le_extract x)
  | yTicks y => exact congrArg (fun v : BitVec 32 => Printed.yTicks v.toInt :: ppcsender rest) (readU32Le_extract y)
  | _ => rfl

theorem shape_append (build : ShapeBuild) (index : Nat) (p : Packet) (rest : List (BitVec 8)) :
    shape build index (p.bytes ++ rest) = p.shapeRead ::
      if build.stopAt = some (index + if p = .stable then 1 else 0) then []
      else shape build (index + if p = .stable then 1 else 0) rest := by
  cases p with
  | xTicks x => exact congrArg (fun v : BitVec 32 => ShapeRead.ticks 1 v.toInt :: _) (readU32Le_extract x)
  | yTicks y => exact congrArg (fun v : BitVec 32 => ShapeRead.ticks 2 v.toInt :: _) (readU32Le_extract y)
  | _ => rfl

theorem flatMap_lanes (ps : List Packet) :
    (ps.flatMap Packet.writes).flatMap TxWrite.lanes = ps.flatMap Packet.bytes := List.flatMap_assoc

theorem ppcsender_stream (hpart : Packet.IsPart part) :
    ppcsender ((ps.flatMap Packet.writes ++ part).flatMap TxWrite.lanes) = ps.map Packet.printed := by
  rw [List.flatMap_append, flatMap_lanes]
  induction ps with
  | nil => rcases hpart.cases with rfl | rfl | rfl | rfl <;> rfl
  | cons p ps ih => rw [List.flatMap_cons, List.append_assoc, ppcsender_append, ih, List.map_cons]

variable (ps) in
/-- `shape.c` reads the packets up to its last point. -/
theorem shape_stream (build : ShapeBuild) (hpart : Packet.IsPart part) (index : Nat) :
    shape build index ((ps.flatMap Packet.writes ++ part).flatMap TxWrite.lanes) <+: ps.map Packet.shapeRead ∧
      ((∀ n ∈ build.stopAt, index + ps.count .stable < n) →
        shape build index ((ps.flatMap Packet.writes ++ part).flatMap TxWrite.lanes) = ps.map Packet.shapeRead) := by
  rw [List.flatMap_append, flatMap_lanes]
  induction ps generalizing index with
  | nil =>
    have hnil : shape build index (part.flatMap TxWrite.lanes) = [] := by
      rcases hpart.cases with rfl | rfl | rfl | rfl <;> rfl
    exact ⟨by rw [List.flatMap_nil, List.nil_append, hnil]; exact List.nil_prefix, fun _ => hnil⟩
  | cons p ps ih =>
    have hcount : (p :: ps).count .stable = (if p = .stable then 1 else 0) + ps.count .stable := by
      rw [List.count_cons, Nat.add_comm]
      simp
    obtain ⟨hpre, heq⟩ := ih (index + if p = .stable then 1 else 0)
    rw [List.flatMap_cons, List.append_assoc, shape_append, List.map_cons, hcount]
    generalize (if p = .stable then 1 else 0) = counted at hpre heq ⊢
    split
    next hstop =>
      refine ⟨(List.prefix_cons_inj _).2 List.nil_prefix, fun hlt => ?_⟩
      have := hlt _ hstop
      omega
    next hstop =>
      refine ⟨(List.prefix_cons_inj _).2 hpre, fun hlt => ?_⟩
      rw [heq fun n hn => by have := hlt n hn; omega]

end Parse

end PenPlotter
