import PenPlotter.Pid

/-!
# The quadrature peripheral (`rtl/quad_peripheral/quad_decoder.sv`, `obi_quad.sv`)

For each axis a decoder behind two latches counts the steps of the encoder. The bus reads a mirror of the
counts, a W1C register pair that the hardware rewrites in every cycle but the one of a clear.
-/

namespace PenPlotter

/-- `quad_state_e`. -/
inductive QuadState
  | abZero | aLeadsB | abOne | bLeadsA
deriving DecidableEq

/-- `next_state` and `tick_val`. -/
def QuadState.decode : QuadState → Bool → Bool → QuadState × BitVec 32
  | .abZero, false, false => (.abZero, 0)
  | .abZero, true, false => (.aLeadsB, 1)
  | .abZero, false, true => (.bLeadsA, -1)
  | .aLeadsB, false, false => (.abZero, -1)
  | .aLeadsB, true, false => (.aLeadsB, 0)
  | .aLeadsB, true, true => (.abOne, 1)
  | .bLeadsA, false, false => (.abZero, 1)
  | .bLeadsA, false, true => (.bLeadsA, 0)
  | .bLeadsA, true, true => (.abOne, -1)
  | .abOne, true, true => (.abOne, 0)
  | .abOne, true, false => (.aLeadsB, -1)
  | .abOne, false, true => (.bLeadsA, 1)
  | _, _, _ => (.abZero, 0)

structure QuadIn where
  clrI : Bool
  aI : Bool
  bI : Bool

/-- `aILatch1` and `aILatch0` are the bits of `A_i_latch`. -/
structure QuadDecoder where
  tickPosition : BitVec 32
  aILatch1 : Bool
  aILatch0 : Bool
  bILatch1 : Bool
  bILatch0 : Bool
  state : QuadState

namespace QuadDecoder

variable (s : QuadDecoder) (i : QuadIn)

def reset : QuadDecoder := ⟨0, false, false, false, false, .abZero⟩

def nextState : QuadState := (s.state.decode s.aILatch0 s.bILatch0).1

def tickVal : BitVec 32 := (s.state.decode s.aILatch0 s.bILatch0).2

def step : QuadDecoder where
  tickPosition := if i.clrI then 0 else s.tickPosition + s.tickVal
  aILatch1 := i.aI
  aILatch0 := s.aILatch1
  bILatch1 := i.bI
  bILatch0 := s.bILatch1
  state := s.nextState

end QuadDecoder

/-! ### `obi_quad` -/

abbrev QuadCount : Nat := 2

instance quadCount_neZero : NeZero QuadCount := ⟨by decide⟩

/-- `QuadX`, `QuadY`. -/
def Axis.quadIdx : Axis → Fin QuadCount
  | .x => 0
  | .y => 1

def quadCfg : ObiRegCfg QuadCount where
  usedAddrWidth := 8
  regAccess _ := .w1c
  resValue _ := 0

/-- Bit 0 of `quadI` is line A, bit 1 is line B. -/
structure ObiQuadIn extends ObiIn where
  quadI : Axis → BitVec 2

structure ObiQuadState where
  regs : ObiRegState QuadCount
  decoder : Axis → QuadDecoder

namespace ObiQuadState

variable (s : ObiQuadState) (i : ObiQuadIn) (a : Axis)

def reset : ObiQuadState := ⟨.reset quadCfg, fun _ => .reset⟩

/-- `hw_quad_x`, `hw_quad_y`. -/
def hwQuad : BitVec 32 := (s.decoder a).tickPosition

/-- `clr_quad`. -/
def clrQuad (i : ObiIn) (a : Axis) : Bool := i.swWe quadCfg a.quadIdx && i.swWd quadCfg a.quadIdx == 1

/-- The axis a register belongs to. -/
def axisOf (r : Fin QuadCount) : Axis := if r = 0 then .x else .y

def regsIn : ObiRegIn QuadCount where
  toObiIn := i.toObiIn
  hwDe r := !clrQuad i.toObiIn (axisOf r)
  hwD r := s.hwQuad (axisOf r)

def decoderIn (i : ObiQuadIn) (a : Axis) : QuadIn where
  clrI := clrQuad i.toObiIn a
  aI := (i.quadI a).getLsbD 0
  bI := (i.quadI a).getLsbD 1

def step : ObiQuadState where
  regs := s.regs.step quadCfg (s.regsIn i)
  decoder a := (s.decoder a).step (decoderIn i a)

end ObiQuadState

end PenPlotter
