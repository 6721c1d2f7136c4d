import PenPlotter.Devices
import Mathlib.Data.Nat.Count
import Mathlib.Data.Nat.Periodic

/-!
# The pulse of a PWM generator (`rtl/pwm_peripheral/prgm_pwm.sv`)

The counter restarts as soon as it does not lie below `period_i - 1`, whatever it was: one cycle after the
period has changed it lies below the new one, and from then on it counts modulo the period (`prgm_pwm_duty`). Each pin of
`obi_pwm` shows such a pulse (`obi_pwm_window`).
-/

namespace PenPlotter

/-- A window of a period `a` has as many hits as any other. -/
theorem count_window {P : Nat → Prop} [DecidablePred P] {a : Nat} (hP : Function.Periodic P a) (c : Nat) :
    Nat.count (fun j => P (c + j)) a = Nat.count P a := by
  induction c with
  | zero => simp only [Nat.zero_add]
  | succ c ih =>
    -- the window moves on by one: `P c` leaves it and `P (c + a)` enters
    have hlast := Nat.count_succ (fun j => P (c + j)) a
    have hfirst := Nat.count_succ' (fun j => P (c + j)) a
    have hends : (if P (c + a) then 1 else 0) = if P (c + 0) then 1 else 0 := if_congr (iff_of_eq (hP c)) rfl rfl
    simp only [← Nat.add_assoc, Nat.add_right_comm c _ 1] at hfirst ⊢
    omega

theorem count_lt (m a : Nat) : Nat.count (fun j => j < m) a = min m a := by
  induction a with
  | zero => rw [Nat.count_zero, Nat.min_zero]
  | succ a ih =>
    rw [Nat.count_succ, ih]
    split <;> omega

theorem count_congr {P Q : Nat → Prop} [DecidablePred P] [DecidablePred Q] {n : Nat} (h : ∀ k < n, (P k ↔ Q k)) :
    Nat.count P n = Nat.count Q n :=
  Nat.le_antisymm (Nat.count_mono_left fun k hk => (h k hk).1) (Nat.count_mono_left fun k hk => (h k hk).2)

/-- The residues below `m` in a window of the modulus, wherever it starts. -/
theorem count_residues (c m a : Nat) : Nat.count (fun j => (c + j) % a < m) a = min m a := by
  have hperiodic : Function.Periodic (fun n => n % a < m) a := fun n => by
    show ((n + a) % a < m) = (n % a < m)
    rw [Nat.add_mod_right]
  rw [count_window hperiodic, ← count_lt]
  refine count_congr fun k hk => ?_
  rw [Nat.mod_eq_of_lt hk]

namespace PrgmPwm

variable {s : PrgmPwm} {p w : BitVec 32}

theorem pwmO_zero : s.pwmO 0 w = false := rfl

theorem toNat_width : (width p w).toNat = min w.toNat p.toNat := by
  rw [width]
  split
  next h =>
    have := BitVec.lt_def.1 h
    omega
  next h =>
    have := Nat.not_lt.1 (mt BitVec.lt_def.2 h)
    omega

theorem pwmO_iff (hp : p ≠ 0) : s.pwmO p w = true ↔ s.counter.toNat < min w.toNat p.toNat := by
  rw [pwmO, enabled, bne_iff_ne.2 hp, Bool.true_and, decide_eq_true_iff, BitVec.lt_def, toNat_width]

theorem step_counter (hp : p ≠ 0) : (s.step p).counter.toNat =
    if s.counter.toNat + 1 < p.toNat then s.counter.toNat + 1 else 0 := by
  have hpos : p.toNat ≠ 0 := fun h => hp (BitVec.eq_of_toNat_eq h)
  have hlt : s.counter < p - 1 ↔ s.counter.toNat + 1 < p.toNat := by
    have hone : (1 : BitVec 32).toNat = 1 := rfl
    have hle : (1 : BitVec 32) ≤ p := BitVec.le_def.2 (Nat.pos_of_ne_zero hpos)
    rw [BitVec.lt_def, BitVec.toNat_sub_of_le hle]
    omega
  rw [step, enabled, bne_iff_ne.2 hp, Bool.true_and]
  by_cases hc : s.counter < p - 1
  · rw [if_pos (decide_eq_true hc), if_pos (hlt.1 hc), BitVec.toNat_add]
    have := hlt.1 hc
    have := p.isLt
    exact Nat.mod_eq_of_lt (show s.counter.toNat + 1 < 2 ^ 32 by omega)
  · rw [if_neg (by rwa [decide_eq_true_iff]), if_neg (mt hlt.2 hc)]
    rfl

end PrgmPwm

section Run

variable (s₀ : PrgmPwm) (period width : Nat → BitVec 32)

/-- `prgm_pwm` before cycle `t`. -/
def pwmRun : Nat → PrgmPwm := Clocked.run PrgmPwm.step s₀ period

/-- `pwm_o` in cycle `t`. -/
def pwmOut (t : Nat) : Bool := (pwmRun s₀ period t).pwmO (period t) (width t)

variable {s₀ period width} {p w : BitVec 32} {T U t j : Nat}

theorem pwmRun_succ (hp : p ≠ 0) (hper : period t = p) : (pwmRun s₀ period (t + 1)).counter.toNat =
    if (pwmRun s₀ period t).counter.toNat + 1 < p.toNat then (pwmRun s₀ period t).counter.toNat + 1 else 0 := by
  rw [← PrgmPwm.step_counter hp, ← hper]
  rfl

section Held

variable (hp : p ≠ 0) (hheld : ∀ t, T ≤ t → t < U → period t = p)
include hp hheld

theorem pwm_counter_lt (hT : T < t) (hU : t ≤ U) : (pwmRun s₀ period t).counter.toNat < p.toNat := by
  obtain ⟨t, rfl⟩ : ∃ n, t = n + 1 := ⟨t - 1, by omega⟩
  have hpos : p.toNat ≠ 0 := fun h => hp (BitVec.eq_of_toNat_eq h)
  rw [pwmRun_succ hp (hheld t (by omega) hU)]
  split <;> omega

theorem pwm_counter_add (hT : T < t) (hU : t + j ≤ U) : (pwmRun s₀ period (t + j)).counter.toNat =
    ((pwmRun s₀ period t).counter.toNat + j) % p.toNat := by
  induction j with
  | zero => exact (Nat.mod_eq_of_lt (pwm_counter_lt hp hheld hT hU)).symm
  | succ j ih =>
    have hprev := ih (by omega)
    have hlt : (pwmRun s₀ period (t + j)).counter.toNat < p.toNat :=
      pwm_counter_lt hp hheld (Nat.lt_add_right j hT) (by omega)
    rw [← Nat.add_assoc, pwmRun_succ hp (hheld (t + j) (by omega) (by omega)), ← Nat.add_assoc, ← Nat.mod_add_mod,
      ← hprev]
    split
    next h => exact (Nat.mod_eq_of_lt h).symm
    next h => rw [show (pwmRun s₀ period (t + j)).counter.toNat + 1 = p.toNat by omega, Nat.mod_self]

end Held

theorem pwmOut_eq (hper : period t = p) (hwid : width t = w) :
    pwmOut s₀ period width t = (pwmRun s₀ period t).pwmO p w := by
  rw [pwmOut, hper, hwid]

section HeldWidth

variable (hp : p ≠ 0) (hheld : ∀ t, T ≤ t → t < U → period t = p ∧ width t = w)
include hp hheld

theorem pwmOut_iff (hT : T < t) (hU : t + j < U) : pwmOut s₀ period width (t + j) = true ↔
    ((pwmRun s₀ period t).counter.toNat + j) % p.toNat < min w.toNat p.toNat := by
  obtain ⟨hper, hwid⟩ := hheld (t + j) (by omega) hU
  rw [pwmOut_eq hper hwid, PrgmPwm.pwmO_iff hp,
    pwm_counter_add hp (fun u hlo hhi => (hheld u hlo hhi).1) hT (Nat.le_of_lt hU)]

theorem pwm_window (hT : T < t) (hU : t + p.toNat ≤ U) :
    Nat.count (fun j => pwmOut s₀ period width (t + j) = true) p.toNat = min w.toNat p.toNat := by
  rw [count_congr fun j hj => pwmOut_iff hp hheld hT (by omega), count_residues]
  exact Nat.min_eq_left (Nat.min_le_right ..)

end HeldWidth

/-- `prgm_pwm` after any history, over a stretch that holds the period at `p` and the width at `w`. -/
theorem prgm_pwm_duty (hheld : ∀ t, T ≤ t → t < U → period t = p ∧ width t = w) :
    (p = 0 → ∀ t, T ≤ t → t < U → pwmOut s₀ period width t = false) ∧
    (p ≠ 0 →
      (∀ t, T < t → t < U → (pwmRun s₀ period t).counter.toNat < p.toNat) ∧
      (∀ t, T < t → t + p.toNat ≤ U →
        Nat.count (fun j => pwmOut s₀ period width (t + j) = true) p.toNat = min w.toNat p.toNat) ∧
      (∀ t j, T < t → t + j < U →
        (pwmRun s₀ period (t + j)).counter.toNat = ((pwmRun s₀ period t).counter.toNat + j) % p.toNat) ∧
      ∀ t j, T < t → t + j < U → j < p.toNat → (pwmRun s₀ period t).counter = 0 →
        (pwmOut s₀ period width (t + j) = true ↔ j < min w.toNat p.toNat)) := by
  refine ⟨fun hp t hT hU => ?_, fun hp => ?_⟩
  · obtain ⟨hper, hwid⟩ := hheld t hT hU
    rw [pwmOut_eq hper hwid, hp, PrgmPwm.pwmO_zero]
  have hper (t : Nat) (hT : T ≤ t) (hU : t < U) : period t = p := (hheld t hT hU).1
  refine ⟨fun t hT hU => pwm_counter_lt hp hper hT (Nat.le_of_lt hU), fun t hT hU => pwm_window hp hheld hT hU,
    fun t j hT hU => pwm_counter_add hp hper hT (Nat.le_of_lt hU), fun t j hT hU hj hzero => ?_⟩
  have hzero' : (pwmRun s₀ period t).counter.toNat = 0 := congrArg BitVec.toNat hzero
  rw [pwmOut_iff hp hheld hT hU, hzero', Nat.zero_add, Nat.mod_eq_of_lt hj]

end Run

/-- The period falls from 10 to 3 while the counter is at 8. -/
def shrinkingPeriod (t : Nat) : BitVec 32 := if t < 8 then 10 else 3

theorem prgm_pwm_duty_shrinking : (pwmRun ⟨0⟩ shrinkingPeriod 8).counter = 8 ∧
    Nat.count (fun j => pwmOut ⟨0⟩ shrinkingPeriod (fun _ => 2) (9 + j) = true) 3 = 2 :=
  ⟨by decide, ((prgm_pwm_duty (T := 8) (U := 12) (p := 3) (w := 2) fun _ hT _ =>
    ⟨if_neg (Nat.not_lt.2 hT), rfl⟩).2 (by decide)).2.1 9 (by decide) (by decide)⟩

section ObiPwm

variable {PWMCount : Nat} (s₀ : ObiPwmState PWMCount) (inp : Nat → ObiIn) (g : Fin PWMCount)

/-- Every generator of `obi_pwm` is such a run, fed by its two registers. -/
theorem obi_pwm_generator (t : Nat) : (Clocked.run ObiPwmState.step s₀ inp t).pwm g =
    pwmRun (s₀.pwm g) (fun u => (Clocked.run ObiPwmState.step s₀ inp u).period g) t :=
  Clocked.run_map (fun s : ObiPwmState PWMCount => s.pwm g) _ (fun _ => rfl) t

/-- Over a stretch in which the bus leaves the two registers alone, each period of the pin has the pulse of the width. -/
theorem obi_pwm_window {p w : BitVec 32} {T U t : Nat} (hp : p ≠ 0)
    (hheld : ∀ u, T ≤ u → u < U → (Clocked.run ObiPwmState.step s₀ inp u).period g = p ∧
      (Clocked.run ObiPwmState.step s₀ inp u).width g = w) (hT : T < t) (hU : t + p.toNat ≤ U) :
    Nat.count (fun j => (Clocked.run ObiPwmState.step s₀ inp (t + j)).pwmO g = true) p.toNat =
      min w.toNat p.toNat := by
  have hout (u : Nat) : (Clocked.run ObiPwmState.step s₀ inp u).pwmO g =
      pwmOut (s₀.pwm g) (fun v => (Clocked.run ObiPwmState.step s₀ inp v).period g)
        (fun v => (Clocked.run ObiPwmState.step s₀ inp v).width g) u := by
    rw [ObiPwmState.pwmO, obi_pwm_generator]
    rfl
  simp only [hout]
  exact pwm_window hp hheld hT hU

end ObiPwm

end PenPlotter
