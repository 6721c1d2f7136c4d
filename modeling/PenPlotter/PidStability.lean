import PenPlotter.PidEdge
import PenPlotter.PidSample

/-!
# Stability as runs of the response (`pid_controller.sv`, `obi_pid.sv`)

`stability_counter` is a counter that saturates at `M - 1`, so it tells how many cycles the response has been
0; the edge detector then fires once for each maximal run of at least `M - 1` such cycles, wherever the run
starts and whether or not it ends.
-/

namespace PenPlotter

/-- A maximal run of cycles with `z` starts at `b`, and it lasts `n` cycles or longer. -/
def RunFrom (z : Nat → Prop) (n b : Nat) : Prop :=
  (∀ c, b = c + 1 → ¬ z c) ∧ ∀ u, b ≤ u → u < b + n → z u

/-- The `n` cycles before `t` have `z`. -/
def HeldFor (z : Nat → Prop) (n t : Nat) : Prop := n ≤ t ∧ ∀ u, t ≤ u + n → u < t → z u

section Saturating

variable {z : Nat → Prop} {n t : Nat}

theorem heldFor_zero : HeldFor z 0 t := ⟨Nat.zero_le t, fun _ hu hut => absurd hut (Nat.not_lt.2 hu)⟩

theorem heldFor_succ : HeldFor z (n + 1) (t + 1) ↔ z t ∧ HeldFor z n t := by
  constructor
  · rintro ⟨hn, hz⟩
    exact ⟨hz t (by omega) (by omega), by omega, fun u hu hut => hz u (by omega) (by omega)⟩
  · rintro ⟨hzt, hn, hz⟩
    refine ⟨by omega, fun u hu hut => ?_⟩
    rcases Nat.lt_succ_iff_lt_or_eq.1 hut with hut | rfl
    · exact hz u (by omega) hut
    · exact hzt

/-- The run has just become `n + 1` cycles long. -/
theorem heldFor_first : HeldFor z (n + 1) (t + 1) ∧ ¬ HeldFor z (n + 1) t ↔
    ∃ b, t = b + n ∧ RunFrom z (n + 1) b := by
  constructor
  · rintro ⟨⟨hn, hz⟩, hnot⟩
    refine ⟨t - n, by omega, fun c hc hzc => hnot ⟨by omega, fun u hu hut => ?_⟩,
      fun u hu hut => hz u (by omega) (by omega)⟩
    rcases Nat.lt_or_ge c u with hcu | huc
    · exact hz u (by omega) (by omega)
    · rwa [show u = c by omega]
  · rintro ⟨b, rfl, hfirst, hz⟩
    refine ⟨⟨by omega, fun u hu hut => hz u (by omega) (by omega)⟩, fun ⟨hn, hprev⟩ => ?_⟩
    obtain ⟨c, rfl⟩ : ∃ c, b = c + 1 := ⟨b - 1, by omega⟩
    exact hfirst c rfl (hprev c (by omega) (by omega))

/-- What a counter that restarts without `z` and saturates at `n` has counted. -/
theorem le_saturating_iff [DecidablePred z] {c : Nat → Nat} (h0 : c 0 = 0)
    (hstep : ∀ t, c (t + 1) = if z t then min (c t + 1) n else 0) {k : Nat} (hk : k ≤ n) :
    k ≤ c t ↔ HeldFor z k t := by
  induction t generalizing k with
  | zero =>
    rw [h0]
    refine ⟨fun h => ?_, fun h => h.1⟩
    rw [Nat.le_zero.1 h]
    exact heldFor_zero
  | succ t ih =>
    cases k with
    | zero => exact iff_of_true (Nat.zero_le _) heldFor_zero
    | succ k =>
      rw [heldFor_succ, ← ih (Nat.le_of_succ_le hk), hstep]
      split
      next hz =>
        simp only [hz, true_and]
        omega
      next hz =>
        simp only [hz, false_and, iff_false]
        omega

end Saturating

section Controller

variable {M : Nat} {inp : Nat → PidControllerIn} {t : Nat}

theorem ctlRun_count_le (t : Nat) : (ctlRun M inp t).stabilityCounter ≤ M - 1 := by
  induction t with
  | zero => exact Nat.zero_le _
  | succ t ih =>
    have hstep : (ctlRun M inp (t + 1)).stabilityCounter = _ := PidController.stabilityCounter_step ih
    rw [hstep]
    split
    · exact Nat.min_le_right ..
    · exact Nat.zero_le _

theorem ctlRun_count_succ (t : Nat) : (ctlRun M inp (t + 1)).stabilityCounter =
    if (ctlRun M inp t).response (inp t) = 0 then min ((ctlRun M inp t).stabilityCounter + 1) (M - 1) else 0 :=
  PidController.stabilityCounter_step (ctlRun_count_le t)

theorem ctlRun_stable_iff : (ctlRun M inp t).stableO M = true ↔
    HeldFor (fun u => (ctlRun M inp u).response (inp u) = 0) (M - 1) t := by
  have hcount : M - 1 ≤ (ctlRun M inp t).stabilityCounter ↔ _ :=
    le_saturating_iff (c := fun u => (ctlRun M inp u).stabilityCounter) rfl ctlRun_count_succ (Nat.le_refl _)
  have hle : (ctlRun M inp t).stabilityCounter ≤ M - 1 := ctlRun_count_le t
  rw [← hcount, PidController.stableO, beq_iff_eq]
  omega

theorem lt_two_pow_clog2 (hM : 2 ≤ M) : M - 1 < 2 ^ clog2 M := by
  rw [clog2, if_neg (by omega)]
  exact Nat.lt_log2_self

end Controller

/-! ### The edge detector and the STATUS bit -/

section Peripheral

variable {M : Nat} {p : Nat → PidState} {pin : Nat → PidIn} {a : Axis} {t : Nat}

/-- The controller of an axis does not respond in cycle `t`. -/
def Quiet (p : Nat → PidState) (pin : Nat → PidIn) (a : Axis) (t : Nat) : Prop := (p t).response (pin t) a = 0

theorem PidRun.ctl_eq (hp : PidRun M p pin) (h0 : p 0 = .reset) (t : Nat) :
    (p t).ctl a = ctlRun M (fun u => (p u).controllerIn (pin u) a) t := by
  induction t with
  | zero =>
    rw [h0]
    rfl
  | succ t ih =>
    rw [hp t]
    show ((p t).ctl a).step M _ = (ctlRun M _ t).step M _
    rw [ih]

theorem PidRun.stable_iff_quiet (hp : PidRun M p pin) (h0 : p 0 = .reset) :
    (p t).stable M a = true ↔ HeldFor (Quiet p pin a) (M - 1) t := by
  have hquiet : Quiet p pin a = fun u => (ctlRun M (fun u => (p u).controllerIn (pin u) a) u).response
      ((p u).controllerIn (pin u) a) = 0 := by
    funext u
    rw [Quiet, PidState.response, hp.ctl_eq h0]
  rw [PidState.stable, hp.ctl_eq h0, hquiet]
  exact ctlRun_stable_iff

theorem PidRun.event_iff (hp : PidRun M p pin) (h0 : p 0 = .reset) (hM : 2 ≤ M) :
    (p t).event a = true ↔ ∃ b, t = b + M ∧ RunFrom (Quiet p pin a) (M - 1) b := by
  obtain ⟨n, rfl⟩ : ∃ n, M = n + 2 := ⟨M - 2, by omega⟩
  match t with
  | 0 =>
    rw [h0]
    exact iff_of_false Bool.false_ne_true fun ⟨b, hb, _⟩ => by omega
  | 1 =>
    rw [hp.event_succ, hp.stable_iff_quiet h0]
    exact iff_of_false (fun h => by have := h.1.1; omega) fun ⟨b, hb, _⟩ => by omega
  | t + 2 =>
    rw [hp.event_succ_succ, Bool.eq_false_iff, ne_eq, hp.stable_iff_quiet h0, hp.stable_iff_quiet h0]
    refine heldFor_first.trans (exists_congr fun b => and_congr_left' ?_)
    omega

theorem PidRun.statusBit_iff (hp : PidRun M p pin) {t₀ : Nat} (ht : t₀ ≤ t) (hclear : (p t₀).statusBit a = false)
    (hack : ∀ u, t₀ ≤ u → u < t → PidState.acks (pin u) a = false) :
    (p t).statusBit a = true ↔ ∃ e, t₀ ≤ e ∧ e < t ∧ (p e).event a = true := by
  induction t, ht using Nat.le_induction with
  | base => exact iff_of_false (Bool.eq_false_iff.1 hclear) fun ⟨e, hlo, hhi, _⟩ => by omega
  | succ t ht ih =>
    rw [hp t, PidState.statusBit_step, hack t ht (Nat.lt_succ_self t), Bool.not_false, Bool.and_true, Bool.or_eq_true,
      ih fun u hlo hhi => hack u hlo (Nat.lt_succ_of_lt hhi)]
    constructor
    · rintro (⟨e, hlo, hhi, hevent⟩ | hevent)
      · exact ⟨e, hlo, Nat.lt_succ_of_lt hhi, hevent⟩
      · exact ⟨t, ht, Nat.lt_succ_self t, hevent⟩
    · rintro ⟨e, hlo, hhi, hevent⟩
      rcases Nat.lt_succ_iff_lt_or_eq.1 hhi with hhi | rfl
      · exact .inl ⟨e, hlo, hhi, hevent⟩
      · exact .inr hevent

end Peripheral

/-- `stable_o` is high exactly if the response was 0 in the `M - 1` cycles before, and the counter fits its
width; the edge detector fires for a maximal run of such cycles exactly once, `M` cycles after its start; a
STATUS bit that is not cleared is set exactly if this has happened. -/
theorem stability_spec {M : Nat} (hM : 2 ≤ M) :
    (∀ inp t, ((ctlRun M inp t).stableO M = true ↔
        M - 1 ≤ t ∧ ∀ u, t ≤ u + (M - 1) → u < t → (ctlRun M inp u).response (inp u) = 0) ∧
      (ctlRun M inp t).stabilityCounter < 2 ^ clog2 M) ∧
    ∀ p pin, PidRun M p pin → p 0 = .reset → ∀ a,
      (∀ t, (p t).event a = true ↔ ∃ b, t = b + M ∧ RunFrom (fun u => (p u).response (pin u) a = 0) (M - 1) b) ∧
      ∀ t₀ t, t₀ ≤ t → (p t₀).statusBit a = false → (∀ u, t₀ ≤ u → u < t → PidState.acks (pin u) a = false) →
        ((p t).statusBit a = true ↔
          ∃ b, RunFrom (fun u => (p u).response (pin u) a = 0) (M - 1) b ∧ t₀ ≤ b + M ∧ b + M < t) := by
  refine ⟨fun inp t => ⟨ctlRun_stable_iff, Nat.lt_of_le_of_lt (ctlRun_count_le t) (lt_two_pow_clog2 hM)⟩,
    fun p pin hp h0 a => ⟨fun t => hp.event_iff h0 hM, fun t₀ t ht hclear hack => ?_⟩⟩
  rw [hp.statusBit_iff ht hclear hack]
  constructor
  · rintro ⟨e, hlo, hhi, hevent⟩
    obtain ⟨b, rfl, hrun⟩ := (hp.event_iff h0 hM).1 hevent
    exact ⟨b, hrun, hlo, hhi⟩
  · rintro ⟨b, hrun, hlo, hhi⟩
    exact ⟨b + M, hlo, hhi, (hp.event_iff h0 hM).2 ⟨b, rfl, hrun⟩⟩

/-- Neither requests nor motion. -/
def restingPid (_ : Nat) : PidIn := ⟨.idle, fun _ => 0⟩

theorem stability_from_reset : (Clocked.run (PidState.step 2) .reset restingPid 2).event .x = true := by
  have hevent := ((stability_spec (Nat.le_refl 2)).2 (Clocked.run (PidState.step 2) .reset restingPid) restingPid
    (fun _ => rfl) rfl .x).1 2
  refine hevent.2 ⟨0, rfl, fun c hc => absurd hc (Nat.succ_ne_zero c).symm, fun u _ hu => ?_⟩
  obtain rfl : u = 0 := by omega
  exact PidController.response_eq_zero rfl rfl

end PenPlotter
