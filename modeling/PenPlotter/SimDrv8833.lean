import PenPlotter.Pwm
import Mathlib.Data.Rat.Defs
import Mathlib.Tactic.Linarith
import Mathlib.Algebra.Order.Field.Rat

/-!
# The simulated motor driver (`dv/verilator/peripherals/sim_drv8833.hpp`)

`DRV8833Decoder` counts for each channel how many of `cycles_for_period` ticks the two inputs ask for each mode, and
reports the shares. The ratios are exact rationals. A report is about the window of ticks that ends with it, and
stands until the next one (`currentInfo_run`).
-/

namespace PenPlotter

inductive DRV8833Mode
  | forward | backward | coast | brake
deriving DecidableEq

/-- The `switch` over IN1 (bit 0) and IN2 (bit 1). -/
def DRV8833Mode.ofPins (state : BitVec 2) : DRV8833Mode :=
  match state with
  | 0b00#2 => .coast
  | 0b01#2 => .forward
  | 0b10#2 => .backward
  | _ => .brake

structure DRV8833Info where
  fwdRatio : ℚ
  bwdRatio : ℚ
  cstRatio : ℚ
  brkRatio : ℚ

/-- `ChannelCount` channels. -/
structure DRV8833Decoder where
  cyclesForPeriod : Nat
  cycles : Nat
  channel : Fin 2 → DRV8833Mode → Nat
  currentInfo : Fin 2 → DRV8833Info

namespace DRV8833Decoder

variable (s : DRV8833Decoder)

def infoFrom (channel : DRV8833Mode → Nat) : DRV8833Info where
  fwdRatio := channel .forward / s.cyclesForPeriod
  bwdRatio := channel .backward / s.cyclesForPeriod
  cstRatio := channel .coast / s.cyclesForPeriod
  brkRatio := channel .brake / s.cyclesForPeriod

/-- The last report stays. -/
def reset : DRV8833Decoder := { s with cycles := 0, channel := fun _ _ => 0 }

/-- The channels after the `switch`. -/
def counted (pins : Fin 2 → BitVec 2) (j : Fin 2) : DRV8833Mode → Nat :=
  Function.update (s.channel j) (.ofPins (pins j)) (s.channel j (.ofPins (pins j)) + 1)

def tick (pins : Fin 2 → BitVec 2) : DRV8833Decoder :=
  if s.cycles + 1 = s.cyclesForPeriod then
    { s with
      cycles := 0
      currentInfo := fun j => s.infoFrom (s.counted pins j)
      channel := fun _ _ => 0 }
  else { s with cycles := s.cycles + 1, channel := s.counted pins }

/-- The decoder after `t` ticks. -/
def run (pins : Nat → Fin 2 → BitVec 2) (t : Nat) : DRV8833Decoder := Clocked.run tick s pins t

/-- How many of the `n` ticks from `a` on ask channel `j` for each mode. -/
def shares (pins : Nat → Fin 2 → BitVec 2) (j : Fin 2) (a n : Nat) (m : DRV8833Mode) : Nat :=
  Nat.count (fun x => DRV8833Mode.ofPins (pins (a + x) j) = m) n

variable {s} {pins : Nat → Fin 2 → BitVec 2}

theorem shares_succ (j : Fin 2) (a n : Nat) : shares pins j a (n + 1) =
    Function.update (shares pins j a n) (.ofPins (pins (a + n) j))
      (shares pins j a n (.ofPins (pins (a + n) j)) + 1) := by
  funext m
  rw [shares, Nat.count_succ]
  by_cases hm : DRV8833Mode.ofPins (pins (a + n) j) = m
  · subst hm
    rw [if_pos rfl, Function.update_self]
    rfl
  · rw [if_neg hm, Function.update_of_ne (Ne.symm hm)]
    rfl

theorem counted_shares {a n : Nat} (h : s.channel = fun j => shares pins j a n) :
    s.counted (pins (a + n)) = fun j => shares pins j a (n + 1) := by
  funext j
  rw [counted, h, shares_succ]

/-- Every tick asks for one mode. -/
theorem shares_sum (j : Fin 2) (a n : Nat) : shares pins j a n .forward + shares pins j a n .backward +
    shares pins j a n .coast + shares pins j a n .brake = n := by
  induction n with
  | zero => rfl
  | succ n ih =>
    rw [shares_succ]
    cases DRV8833Mode.ofPins (pins (a + n) j) <;> simp <;> omega

/-- A period has begun. -/
structure Fresh (s : DRV8833Decoder) : Prop where
  cycles : s.cycles = 0
  channel : s.channel = fun _ _ => 0

section

variable (h : s.Fresh) (a : Nat)
include h

/-- Within a period. -/
theorem Fresh.run {n : Nat} (hn : n < s.cyclesForPeriod) : s.run (fun x => pins (a + x)) n =
    { s with cycles := n, channel := fun j => shares pins j a n } := by
  induction n with
  | zero =>
    rcases s with ⟨P, cycles, channel, info⟩
    obtain ⟨hcycles, hchannel⟩ := h
    cases hcycles
    cases hchannel
    rfl
  | succ n ih =>
    have hgo : ¬n + 1 = s.cyclesForPeriod := Nat.ne_of_lt hn
    rw [DRV8833Decoder.run, Clocked.run_succ, ← DRV8833Decoder.run, ih (Nat.lt_of_succ_lt hn), tick]
    rw [if_neg hgo, counted_shares rfl]

/-- The end of a period. -/
theorem Fresh.run_period (hP : 0 < s.cyclesForPeriod) :
    s.run (fun x => pins (a + x)) s.cyclesForPeriod =
      { s with cycles := 0, channel := fun _ _ => 0,
               currentInfo := fun j => s.infoFrom (shares pins j a s.cyclesForPeriod) } := by
  obtain ⟨n, hn⟩ : ∃ n, s.cyclesForPeriod = n + 1 := ⟨s.cyclesForPeriod - 1, by omega⟩
  have hlast := @Fresh.run s pins h a n (by omega)
  have hend : s.run (fun x => pins (a + x)) (n + 1) =
      { s with cycles := 0, channel := fun _ _ => 0,
               currentInfo := fun j => s.infoFrom (shares pins j a (n + 1)) } := by
    rw [DRV8833Decoder.run, Clocked.run_succ, ← DRV8833Decoder.run, hlast, tick, if_pos hn.symm, counted_shares rfl]
    rfl
  rwa [← hn] at hend

end

/-- After whole periods. -/
theorem Fresh.run_periods (h : s.Fresh) (hP : 0 < s.cyclesForPeriod) (k : Nat) :
    (s.run pins (k * s.cyclesForPeriod)).Fresh ∧
      (s.run pins (k * s.cyclesForPeriod)).cyclesForPeriod = s.cyclesForPeriod ∧
      ∀ n, k = n + 1 → (s.run pins (k * s.cyclesForPeriod)).currentInfo = fun j =>
        s.infoFrom (shares pins j (n * s.cyclesForPeriod) s.cyclesForPeriod) := by
  induction k with
  | zero =>
    rw [Nat.zero_mul]
    exact ⟨h, rfl, nofun⟩
  | succ k ih =>
    obtain ⟨hfresh, hsame, -⟩ := ih
    have hperiod := @Fresh.run_period _ pins hfresh (k * s.cyclesForPeriod) (by rwa [hsame])
    rw [hsame] at hperiod
    have hadd : s.run pins ((k + 1) * s.cyclesForPeriod) =
        (s.run pins (k * s.cyclesForPeriod)).run (fun x => pins (k * s.cyclesForPeriod + x)) s.cyclesForPeriod := by
      rw [Nat.succ_mul]
      exact Clocked.run_add ..
    rw [hadd, hperiod]
    refine ⟨⟨rfl, rfl⟩, rfl, ?_⟩
    rintro n hn
    obtain rfl : k = n := Nat.succ.inj hn
    funext j
    show infoFrom (s.run pins (k * s.cyclesForPeriod)) _ = _
    rw [infoFrom, hsame, infoFrom]

/-- The report that stands during a period is about the period before. -/
theorem currentInfo_run (h : s.Fresh) {k r : Nat} (hr : r < s.cyclesForPeriod) (j : Fin 2) :
    (s.run pins ((k + 1) * s.cyclesForPeriod + r)).currentInfo j =
      s.infoFrom (shares pins j (k * s.cyclesForPeriod) s.cyclesForPeriod) := by
  obtain ⟨hfresh, hsame, hinfo⟩ := @Fresh.run_periods s pins h (by omega) (k + 1)
  have hwithin := @Fresh.run _ pins hfresh ((k + 1) * s.cyclesForPeriod) r (by rwa [hsame])
  rw [DRV8833Decoder.run, Clocked.run_add]
  show ((s.run pins ((k + 1) * s.cyclesForPeriod)).run _ r).currentInfo j = _
  rw [hwithin, hinfo k rfl]

end DRV8833Decoder

end PenPlotter
