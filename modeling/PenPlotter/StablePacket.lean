import PenPlotter.Polling

/-!
# STABLE under the latest set-point

In a run whose cycles are undisturbed a STABLE packet reports, for every axis that a set command has
changed, an event of the latest set-point (`stable_packet`). A command that comes in the cycle after the
event of the old set-point gets a packet without one (`race_sends`).
-/

namespace PenPlotter

open Mmio Prog

variable {M : Nat} {inp : Nat → SystemIn} {T : Nat}

/-- In an undisturbed run the STABLE packet reports, for every axis that a set command has changed, an
event of the latest set-point. -/
theorem stable_packet (hu : ∀ t < T, Undisturbed M (track M inp t).1 (inp t) (track M inp t).2)
    (hsend : (track M inp T).1.mainAccess (inp T) = some (.note .stable)) :
    ∀ a value, (track M inp T).2.target a = some value → (track M inp T).2.fresh a = true := by
  intro a value htarget
  obtain ⟨g, hinv⟩ := stableInv_track hu
  obtain ⟨hcore, hm⟩ := Option.ite_none_right_eq_some.1 hsend
  have hsaw := (hinv.main.access_ok hm).stable rfl a
  by_contra hfresh
  exact hinv.saw a hsaw ⟨fun hnone => Option.some_ne_none value (htarget ▸ hnone), by simpa using hfresh⟩

/-- A set command that is executed before the counters of the controllers reach their end. -/
def settleIn (t : Nat) : SystemIn where
  turn := if t = 42 then .interrupt else .core
  resp :=
    if t = 2 then 2
    else if 11 ≤ t ∧ t < 30 ∧ t % 4 = 3 then
      ((Command.set 0 5).encode.getD ((t - 7) / 4) 0).setWidth 32
    else if t < 30 then 0
    else uartRxEmpty
  hwPvI _ := 0

theorem stable_packet_settled :
    (track 40 settleIn 52).2.target .x = some 5 ∧ (track 40 settleIn 52).2.fresh .x = true := by
  have htarget : (track 40 settleIn 52).2.target .x = some 5 := by decide +kernel
  exact ⟨htarget, stable_packet (by decide +kernel) (by decide +kernel) .x 5 htarget⟩

/-- A set command for the X axis whose SET_POINT store comes in the cycle after the event. -/
def raceIn (t : Nat) : SystemIn where
  turn := if t = 100001 then .interrupt else .core
  resp :=
    if 99973 ≤ t ∧ t < 99997 then
      if (t - 99973) % 4 = 2 then ((Command.set 0 5).encode.getD ((t - 99973) / 4) 0).setWidth 32 else 0
    else uartRxEmpty
  hwPvI _ := 0

/-- The event of the old set-point is pending when the flag is cleared, and the handler sets it again. -/
theorem race_sends :
    (track 100000 raceIn 100011).1.mainAccess (raceIn 100011) = some (.note .stable) ∧
      (track 100000 raceIn 100011).2.target .x = some 5 ∧
      (track 100000 raceIn 100011).2.fresh .x = false := by
  have hpolled : track 100000 raceIn 99973 = (.fresh (.ret polled) 99973, .initial) := by
    refine track_polled (n := 49983) (fun u hu => ?_) (by omega)
    unfold raceIn
    rw [if_neg (by omega), if_neg (by omega)]
    rfl
  rw [show 100011 = 99973 + 38 from rfl, track, Clocked.run_add]
  rw [show Clocked.run _ _ raceIn 99973 = track 100000 raceIn 99973 from rfl, hpolled]
  decide +kernel

end PenPlotter
