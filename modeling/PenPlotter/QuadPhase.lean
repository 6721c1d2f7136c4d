import PenPlotter.Quad
import Mathlib.Algebra.BigOperators.Intervals

/-!
# The decoder and the phase of the encoder

The decoder is in step once its state belongs to the phase it decoded last; from then on every step of the
encoder counts with its sign (`Synced.step`). It leaves reset in `abZero`: an encoder that stands at `(1, 1)`
is not listed there, and the decoder gets into step with the first change only.
-/

namespace PenPlotter

open Finset

/-- The lines A and B. -/
abbrev Phase := Bool × Bool

namespace Phase

/-- The place in the cycle `00, 10, 11, 01` in which a forward shaft runs through the phases. -/
def place (p : Phase) : Nat := if p.1 then if p.2 then 2 else 1 else if p.2 then 3 else 0

/-- At most one line changes. -/
def Near (p q : Phase) : Prop := p.1 = q.1 ∨ p.2 = q.2

/-- The displacement in quadrature steps between near phases. -/
def steps (p q : Phase) : Int :=
  if q.place = (p.place + 1) % 4 then 1 else if p.place = (q.place + 1) % 4 then -1 else 0

instance (p q : Phase) : Decidable (p.Near q) := inferInstanceAs (Decidable (_ ∨ _))

end Phase

/-- The state of a decoder that has decoded the phase. -/
def QuadState.ofPhase (p : Phase) : QuadState :=
  if p.1 then if p.2 then .abOne else .aLeadsB else if p.2 then .bLeadsA else .abZero

def QuadIn.phase (i : QuadIn) : Phase := (i.aI, i.bI)

theorem QuadState.decode_ofPhase {p q : Phase} (h : p.Near q) :
    (QuadState.ofPhase p).decode q.1 q.2 = (.ofPhase q, BitVec.ofInt 32 (p.steps q)) := by
  rcases p with ⟨_ | _, _ | _⟩ <;> rcases q with ⟨_ | _, _ | _⟩ <;> first | rfl | exact absurd h (by decide)

/-- The decoder before clock edge `t`. -/
def decoderRun (inp : Nat → QuadIn) : Nat → QuadDecoder := Clocked.run QuadDecoder.step .reset inp

/-- `tick_position` after clock edge `t`. -/
def tickAt (inp : Nat → QuadIn) (t : Nat) : BitVec 32 := (decoderRun inp (t + 1)).tickPosition

/-- The phase last sampled before clock edge `t`; the latches leave reset at `(0, 0)`. -/
def phaseBefore (inp : Nat → QuadIn) : Nat → Phase
  | 0 => (false, false)
  | t + 1 => (inp t).phase

/-- The decoder has followed the encoder to the phase of two clocks ago. -/
def Synced (inp : Nat → QuadIn) (t : Nat) : Prop :=
  (decoderRun inp (t + 2)).state = .ofPhase (phaseBefore inp t)

section

variable {inp : Nat → QuadIn} {t : Nat}

theorem tickAt_succ (t : Nat) : tickAt inp (t + 1) =
    if (inp (t + 1)).clrI then 0 else tickAt inp t + (decoderRun inp (t + 1)).tickVal := rfl

theorem Synced.decode (h : Synced inp t) (hnear : (phaseBefore inp t).Near (inp t).phase) :
    (decoderRun inp (t + 2)).state.decode (inp t).aI (inp t).bI =
      (.ofPhase (inp t).phase, BitVec.ofInt 32 ((phaseBefore inp t).steps (inp t).phase)) := by
  rw [h]
  exact QuadState.decode_ofPhase hnear

/-- A decoder in step stays so. -/
theorem Synced.step (h : Synced inp t) (hnear : (phaseBefore inp t).Near (inp t).phase) : Synced inp (t + 1) :=
  congrArg Prod.fst (h.decode hnear)

/-- A decoder in step counts the step two clocks after the encoder made it. -/
theorem Synced.tickVal (h : Synced inp t) (hnear : (phaseBefore inp t).Near (inp t).phase) :
    (decoderRun inp (t + 2)).tickVal = BitVec.ofInt 32 ((phaseBefore inp t).steps (inp t).phase) :=
  congrArg Prod.snd (h.decode hnear)

theorem synced_zero : Synced inp 0 := rfl

theorem Synced.of_le {T : Nat} (h : Synced inp T)
    (hnear : ∀ t, T ≤ t → (phaseBefore inp t).Near (inp t).phase) (hle : T ≤ t) : Synced inp t := by
  induction t, hle using Nat.le_induction with
  | base => exact h
  | succ t hle ih => exact ih.step (hnear t hle)

end

end PenPlotter
