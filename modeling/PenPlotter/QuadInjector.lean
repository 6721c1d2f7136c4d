import PenPlotter.QuadPhase
import Mathlib.Tactic.Ring

/-!
# The simulated encoder and the decoder (`dv/verilator/peripherals/sim_quad.hpp`)

`QuadInjector` runs through the phases by calls of `increase_ticks` and `decrease_ticks`. The decoder's count
is the number of its forward steps less its backward steps since the last clear, two clocks late.
-/

namespace PenPlotter

open Finset

/-- `QuadInjector::State`. -/
inductive InjectorState
  | abZero | ab | ba | abOne
deriving DecidableEq

structure QuadInjector where
  state : InjectorState
  ticks : BitVec 64

namespace QuadInjector

def reset : QuadInjector := ⟨.abZero, 0⟩

/-- The `switch` of `increase_ticks`. -/
def forward : InjectorState → InjectorState
  | .abZero => .ab
  | .ab => .abOne
  | .abOne => .ba
  | .ba => .abZero

/-- The `switch` of `decrease_ticks`. -/
def backward : InjectorState → InjectorState
  | .abZero => .ba
  | .ba => .abOne
  | .abOne => .ab
  | .ab => .abZero

/-- `A()`. -/
def a : InjectorState → Bool
  | .abZero => false
  | .ab => true
  | .ba => false
  | .abOne => true

/-- `B()`. -/
def b : InjectorState → Bool
  | .abZero => false
  | .ba => true
  | .ab => false
  | .abOne => true

variable (s : QuadInjector) (ticksForNext : BitVec 32)

/-- `++ticks >= ticks_for_next`, the `int` converted to `size_t`. -/
def fires : Bool := (ticksForNext.signExtend 64).ule (s.ticks + 1)

def increaseTicks : QuadInjector :=
  if s.fires ticksForNext then ⟨forward s.state, 0⟩ else ⟨s.state, s.ticks + 1⟩

def decreaseTicks : QuadInjector :=
  if s.fires ticksForNext then ⟨backward s.state, 0⟩ else ⟨s.state, s.ticks + 1⟩

/-- The call of a clock. -/
inductive Call
  | none
  | increaseTicks (ticksForNext : BitVec 32)
  | decreaseTicks (ticksForNext : BitVec 32)

def call : Call → QuadInjector
  | .none => s
  | .increaseTicks n => s.increaseTicks n
  | .decreaseTicks n => s.decreaseTicks n

/-- The lines in a state. -/
def phase (st : InjectorState) : Phase := (a st, b st)

end QuadInjector

open QuadInjector

section

variable (calls : Nat → Call) (clr : Nat → Bool)

/-- The injector before the call of clock `t`. -/
def injector : Nat → QuadInjector := Clocked.run QuadInjector.call .reset calls

/-- The decoder samples the lines after the call of the clock. -/
def injected (t : Nat) : QuadIn where
  clrI := clr t
  aI := a (injector calls (t + 1)).state
  bI := b (injector calls (t + 1)).state

/-- The change first visible at clock edge `e` is a forward one. -/
def ForwardAt (e : Nat) : Prop := (injector calls (e + 1)).state = forward (injector calls e).state

/-- It is a backward one. -/
def BackwardAt (e : Nat) : Prop := (injector calls (e + 1)).state = backward (injector calls e).state

instance : DecidablePred (ForwardAt calls) := fun _ => inferInstanceAs (Decidable (_ = _))

instance : DecidablePred (BackwardAt calls) := fun _ => inferInstanceAs (Decidable (_ = _))

/-- No clear at clock edges `s, …, t`. -/
def NoClear (s t : Nat) : Prop := ∀ c ∈ Icc s t, clr c = false

instance (s t : Nat) : Decidable (NoClear clr s t) :=
  inferInstanceAs (Decidable (∀ c ∈ Icc s t, clr c = false))

/-- The changes of a kind decoded up to edge `t` since the last clear: that of edge `e` is decoded at edge
`e + 2`, and neither that edge nor a later one is a clear. -/
def decodedCount (change : Nat → Prop) [DecidablePred change] (t : Nat) : Nat :=
  ((range (t - 1)).filter fun e => NoClear clr (e + 2) t ∧ change e).card

end

section

variable {calls : Nat → Call} {clr : Nat → Bool}

theorem phaseBefore_injected (t : Nat) : phaseBefore (injected calls clr) t = phase (injector calls t).state := by
  cases t <;> rfl

/-- A call moves by one phase at most. -/
theorem call_state (s : QuadInjector) (c : Call) :
    (s.call c).state = s.state ∨ (s.call c).state = forward s.state ∨ (s.call c).state = backward s.state := by
  cases c with
  | none => exact .inl rfl
  | increaseTicks n =>
    rw [call, increaseTicks]
    split
    · exact .inr (.inl rfl)
    · exact .inl rfl
  | decreaseTicks n =>
    rw [call, decreaseTicks]
    split
    · exact .inr (.inr rfl)
    · exact .inl rfl

/-- The lines show a call as the step it makes. -/
theorem phase_call {st st' : InjectorState} (h : st' = st ∨ st' = forward st ∨ st' = backward st) :
    (phase st).Near (phase st') ∧ (phase st).steps (phase st') =
      (if st' = forward st then 1 else 0) - (if st' = backward st then 1 else 0) := by
  rcases h with h | h | h <;> rw [h] <;> cases st <;> decide

theorem injector_near (t : Nat) : (phaseBefore (injected calls clr) t).Near (injected calls clr t).phase := by
  rw [phaseBefore_injected]
  exact (phase_call (call_state _ (calls t))).1

/-! ### The counts -/

theorem decodedCount_of_le_one {change : Nat → Prop} [DecidablePred change] {t : Nat} (h : t ≤ 1) :
    decodedCount clr change t = 0 := by
  rw [decodedCount, Nat.sub_eq_zero_of_le h]
  rfl

theorem decodedCount_clear {change : Nat → Prop} [DecidablePred change] {t : Nat} (h : clr t = true) :
    decodedCount clr change t = 0 := by
  refine card_eq_zero.2 (filter_eq_empty_iff.2 fun e he hdec => ?_)
  have hle : e + 2 ≤ t := by
    have := mem_range.1 he
    omega
  have hlow := hdec.1 t (mem_Icc.2 ⟨hle, Nat.le_refl t⟩)
  rw [h] at hlow
  cases hlow

/-- Edge `e + 2` decodes the change of edge `e`. -/
theorem decodedCount_succ {change : Nat → Prop} [DecidablePred change] {e : Nat} (h : clr (e + 2) = false) :
    decodedCount clr change (e + 2) = decodedCount clr change (e + 1) + if change e then 1 else 0 := by
  have hkeep (j : Nat) (hj : j ∈ range e) : NoClear clr (j + 2) (e + 2) ↔ NoClear clr (j + 2) (e + 1) := by
    constructor <;> intro hall c hc <;> rw [mem_Icc] at hc
    · exact hall c (mem_Icc.2 ⟨hc.1, by omega⟩)
    · rcases Nat.lt_or_ge c (e + 2) with hlt | hge
      · exact hall c (mem_Icc.2 ⟨hc.1, by omega⟩)
      · rwa [show c = e + 2 by omega]
  have hlast : NoClear clr (e + 2) (e + 2) := fun c hc => by
    rw [Icc_self, mem_singleton] at hc
    rwa [hc]
  have hold : (range e).filter (fun j => NoClear clr (j + 2) (e + 2) ∧ change j) =
      (range e).filter fun j => NoClear clr (j + 2) (e + 1) ∧ change j :=
    filter_congr fun j hj => and_congr_left' (hkeep j hj)
  rw [decodedCount, decodedCount, show e + 2 - 1 = e + 1 from rfl, show e + 1 - 1 = e from rfl, range_add_one,
    filter_insert, hold]
  by_cases hchange : change e
  · have hnew : e ∉ (range e).filter fun j => NoClear clr (j + 2) (e + 1) ∧ change j := fun hmem =>
      notMem_range_self (mem_filter.1 hmem).1
    rw [if_pos ⟨hlast, hchange⟩, if_pos hchange, card_insert_of_notMem hnew]
  · rw [if_neg fun h => hchange h.2, if_neg hchange]
    rfl

end

/-- After every clock edge the position is the number of forward changes less the number of backward changes
of the injector decoded since the last clear. -/
theorem quad_tracks_injector (calls : Nat → Call) (clr : Nat → Bool) (t : Nat) :
    tickAt (injected calls clr) t =
      BitVec.ofInt 32 (decodedCount clr (ForwardAt calls) t - decodedCount clr (BackwardAt calls) t) := by
  match t with
  | 0 =>
    rw [decodedCount_of_le_one (by decide), decodedCount_of_le_one (by decide)]
    exact ite_self _
  | 1 =>
    rw [decodedCount_of_le_one (by decide), decodedCount_of_le_one (by decide)]
    show (if clr 1 then 0 else (if clr 0 then 0 else 0) + 0) = (0 : BitVec 32)
    cases clr 1 <;> cases clr 0 <;> rfl
  | e + 2 =>
    rw [tickAt_succ]
    show (if clr (e + 2) then 0 else _) = _
    cases hclr : clr (e + 2) with
    | true =>
      rw [decodedCount_clear hclr, decodedCount_clear hclr]
      rfl
    | false =>
      have hsync : Synced (injected calls clr) e :=
        synced_zero.of_le (fun j _ => injector_near j) (Nat.zero_le e)
      have hval := hsync.tickVal (injector_near e)
      have hsteps : (phaseBefore (injected calls clr) e).steps (injected calls clr e).phase =
          (if ForwardAt calls e then 1 else 0) - if BackwardAt calls e then 1 else 0 := by
        rw [phaseBefore_injected]
        exact (phase_call (call_state _ (calls e))).2
      rw [hsteps] at hval
      rw [if_neg Bool.false_ne_true, hval, quad_tracks_injector calls clr (e + 1), decodedCount_succ hclr,
        decodedCount_succ hclr, ← BitVec.ofInt_add]
      congr 1
      push_cast
      ring

end PenPlotter
