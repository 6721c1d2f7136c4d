import PenPlotter.Pid

/-!
# The sample counter of the controller (`rtl/pid_peripheral/pid_controller.sv`)

The counter is compared with `2^s - 1` for equality. A counter that is already past it when the rate is
lowered runs on to its 26-bit wrap, so the samples keep their distance exactly if the counter lies below
`2^s` when the rate is set (`sampled_every_iff`).
-/

namespace PenPlotter

namespace PidController

variable {M : Nat} {s : PidController} {i : PidControllerIn}

/-- The bound is `2^s - 1` in 32 bits, so it is within the reach of the counter up to `s = 26`. -/
theorem samples_iff (hs : i.sampleRateI.toNat ≤ 26) :
    s.samples i = true ↔ s.counter.toNat = 2 ^ i.sampleRateI.toNat - 1 := by
  have hpow : 2 ^ i.sampleRateI.toNat ≤ 2 ^ 26 := Nat.pow_le_pow_right (by omega) hs
  have hpos := Nat.two_pow_pos i.sampleRateI.toNat
  have hbound : (1#32 <<< i.sampleRateI.toNat - 1).toNat = 2 ^ i.sampleRateI.toNat - 1 := by
    have hshift : (1#32 <<< i.sampleRateI.toNat).toNat = 2 ^ i.sampleRateI.toNat := by
      have hone : (1#32).toNat = 1 := rfl
      rw [BitVec.toNat_shiftLeft, Nat.shiftLeft_eq, hone, Nat.one_mul]
      exact Nat.mod_eq_of_lt (by omega)
    have hone : (1 : BitVec 32).toNat = 1 := rfl
    have hle : (1 : BitVec 32) ≤ 1#32 <<< i.sampleRateI.toNat := BitVec.le_def.2 (by omega)
    rw [BitVec.toNat_sub_of_le hle, hshift, hone]
  have hcounter : (s.counter.setWidth 32).toNat = s.counter.toNat :=
    BitVec.toNat_setWidth_of_le (by decide)
  rw [samples, beq_iff_eq, ← BitVec.toNat_inj, hcounter, hbound]

theorem counter_step_of_sample (h : s.samples i = true) : (s.step M i).counter.toNat = 0 := by
  show (if s.samples i then 0 else s.counter + 1).toNat = 0
  rw [if_pos h]
  rfl

theorem counter_step (h : s.samples i = false) : (s.step M i).counter.toNat = (s.counter.toNat + 1) % 2 ^ 26 := by
  show (if s.samples i then 0 else s.counter + 1).toNat = _
  rw [if_neg (Bool.eq_false_iff.1 h)]
  rfl

/-- A sample shifts the history of the process variable; nothing else does. -/
theorem pvPrev_step : (s.step M i).pvPrev0 = (if s.samples i then i.processVariableI else s.pvPrev0) ∧
    (s.step M i).pvPrev1 = if s.samples i then s.pvPrev0 else s.pvPrev1 := ⟨rfl, rfl⟩

end PidController

section Run

variable (M : Nat) (inp : Nat → PidControllerIn)

/-- The controller before cycle `t`. -/
def ctlRun : Nat → PidController := Clocked.run (PidController.step M) .reset inp

/-- A derivative sample is taken in cycle `t`. -/
def sampled (t : Nat) : Bool := (ctlRun M inp t).samples (inp t)

/-- From cycle `T` on, a sample within `n` cycles and then one every `n` cycles. A sample shifts the process variable
into the history, which no other cycle changes. -/
structure SampledEvery (T n : Nat) : Prop where
  first : ∃ t, T ≤ t ∧ t < T + n ∧ sampled M inp t = true
  next : ∀ t, T ≤ t → sampled M inp t = true →
    sampled M inp (t + n) = true ∧ ∀ u, t < u → u < t + n → sampled M inp u = false
  taken : ∀ t, T ≤ t → sampled M inp t = true →
    (ctlRun M inp (t + 1)).pvPrev0 = (inp t).processVariableI ∧
      (ctlRun M inp (t + 1)).pvPrev1 = (ctlRun M inp t).pvPrev0
  kept : ∀ t, T ≤ t → sampled M inp t = false →
    (ctlRun M inp (t + 1)).pvPrev0 = (ctlRun M inp t).pvPrev0 ∧
      (ctlRun M inp (t + 1)).pvPrev1 = (ctlRun M inp t).pvPrev1

variable {M inp} {T j t : Nat} {s : BitVec sampleRateWidth}

theorem counter_after_sample (h : sampled M inp t = true) : (ctlRun M inp (t + 1)).counter.toNat = 0 :=
  PidController.counter_step_of_sample h

theorem history_taken (h : sampled M inp t = true) :
    (ctlRun M inp (t + 1)).pvPrev0 = (inp t).processVariableI ∧
      (ctlRun M inp (t + 1)).pvPrev1 = (ctlRun M inp t).pvPrev0 :=
  ⟨PidController.pvPrev_step.1.trans (if_pos h), PidController.pvPrev_step.2.trans (if_pos h)⟩

theorem history_kept (h : sampled M inp t = false) :
    (ctlRun M inp (t + 1)).pvPrev0 = (ctlRun M inp t).pvPrev0 ∧
      (ctlRun M inp (t + 1)).pvPrev1 = (ctlRun M inp t).pvPrev1 :=
  have hnot := Bool.eq_false_iff.1 h
  ⟨PidController.pvPrev_step.1.trans (if_neg hnot), PidController.pvPrev_step.2.trans (if_neg hnot)⟩

/-- Without samples the counter runs on, over its wrap. -/
theorem counter_run (hnone : ∀ k < j, sampled M inp (T + k) = false) :
    (ctlRun M inp (T + j)).counter.toNat = ((ctlRun M inp T).counter.toNat + j) % 2 ^ 26 := by
  induction j with
  | zero => exact (Nat.mod_eq_of_lt (ctlRun M inp T).counter.isLt).symm
  | succ j ih =>
    have hstep : (ctlRun M inp (T + j + 1)).counter.toNat = ((ctlRun M inp (T + j)).counter.toNat + 1) % 2 ^ 26 :=
      PidController.counter_step (hnone j (Nat.lt_succ_self j))
    rw [← Nat.add_assoc, hstep, ih fun k hk => hnone k (Nat.lt_succ_of_lt hk), Nat.mod_add_mod, Nat.add_assoc]

section Held

variable (hs : s.toNat ≤ 26) (hheld : ∀ t, T ≤ t → (inp t).sampleRateI = s)
include hs hheld

theorem sampled_iff (hT : T ≤ t) : sampled M inp t = true ↔ (ctlRun M inp t).counter.toNat = 2 ^ s.toNat - 1 := by
  rw [← hheld t hT]
  exact PidController.samples_iff (by rw [hheld t hT]; exact hs)

/-- A counter below the bound reaches it in time. -/
theorem next_sample (hT : T ≤ t) (hlt : (ctlRun M inp t).counter.toNat < 2 ^ s.toNat) :
    sampled M inp (t + (2 ^ s.toNat - 1 - (ctlRun M inp t).counter.toNat)) = true ∧
      ∀ k < 2 ^ s.toNat - 1 - (ctlRun M inp t).counter.toNat, sampled M inp (t + k) = false := by
  have hpow : 2 ^ s.toNat ≤ 2 ^ 26 := Nat.pow_le_pow_right (by omega) hs
  have hnone (j : Nat) (hj : j ≤ 2 ^ s.toNat - 1 - (ctlRun M inp t).counter.toNat) :
      ∀ k < j, sampled M inp (t + k) = false := by
    induction j with
    | zero => exact fun k hk => absurd hk (Nat.not_lt_zero k)
    | succ j ih =>
      intro k hk
      rcases Nat.lt_succ_iff_lt_or_eq.1 hk with hk | rfl
      · exact ih (by omega) k hk
      · have hcount := counter_run (ih (by omega))
        rw [Nat.mod_eq_of_lt (by omega)] at hcount
        rw [Bool.eq_false_iff, ne_eq, sampled_iff hs hheld (by omega), hcount]
        omega
  refine ⟨?_, hnone _ (Nat.le_refl _)⟩
  rw [sampled_iff hs hheld (by omega), counter_run (hnone _ (Nat.le_refl _)), Nat.mod_eq_of_lt (by omega)]
  omega

/-- A counter past the bound does not come back to it in time. -/
theorem no_sample (hge : 2 ^ s.toNat ≤ (ctlRun M inp T).counter.toNat) {j : Nat} (hj : j ≤ 2 ^ s.toNat) :
    ∀ k < j, sampled M inp (T + k) = false := by
  have hlt : (ctlRun M inp T).counter.toNat < 2 ^ 26 := (ctlRun M inp T).counter.isLt
  induction j with
  | zero => exact fun k hk => absurd hk (Nat.not_lt_zero k)
  | succ j ih =>
    intro k hk
    rcases Nat.lt_succ_iff_lt_or_eq.1 hk with hk | rfl
    · exact ih (by omega) k hk
    · rw [Bool.eq_false_iff, ne_eq, sampled_iff hs hheld (by omega), counter_run (ih (by omega))]
      omega

/-- After a sample the counter starts again, and the next sample comes `2^s` cycles later. -/
theorem sample_after (hT : T ≤ t) (hsample : sampled M inp t = true) :
    sampled M inp (t + 2 ^ s.toNat) = true ∧ ∀ u, t < u → u < t + 2 ^ s.toNat → sampled M inp u = false := by
  have hpos := Nat.two_pow_pos s.toNat
  have hzero := counter_after_sample hsample
  obtain ⟨hnext, hnone⟩ := next_sample hs hheld (Nat.le_succ_of_le hT) (by rw [hzero]; exact hpos)
  rw [hzero, Nat.sub_zero] at hnext hnone
  rw [show t + 1 + (2 ^ s.toNat - 1) = t + 2 ^ s.toNat by omega] at hnext
  refine ⟨hnext, fun u htu hu => ?_⟩
  rw [show u = t + 1 + (u - (t + 1)) by omega]
  exact hnone _ (by omega)

/-- The samples keep to a rate from the first cycle with it on exactly if the counter is below its bound then. -/
theorem sampled_every_iff : SampledEvery M inp T (2 ^ s.toNat) ↔ (ctlRun M inp T).counter.toNat < 2 ^ s.toNat := by
  constructor
  · intro h
    obtain ⟨t, hT, ht, hsample⟩ := h.first
    by_contra hge
    have hnone := no_sample hs hheld (Nat.not_lt.1 hge) (Nat.le_refl _) (t - T) (by omega)
    rw [Nat.add_sub_cancel' hT, hsample] at hnone
    cases hnone
  · intro hlt
    have hpos := Nat.two_pow_pos s.toNat
    obtain ⟨hfirst, -⟩ := next_sample hs hheld (Nat.le_refl T) hlt
    exact
      { first := ⟨_, Nat.le_add_right .., by omega, hfirst⟩
        next := fun t hT => sample_after hs hheld hT
        taken := fun t _ => history_taken
        kept := fun t _ => history_kept }

end Held

end Run

/-- No gains, and the given rate. -/
def rateIn (s : BitVec sampleRateWidth) : PidControllerIn := ⟨0, 0, s, 0, 0⟩

theorem sampled_every_constant : SampledEvery 100000 (fun _ => rateIn 3) 0 (2 ^ 3) :=
  (sampled_every_iff (s := 3) (by decide) fun _ _ => rfl).2 (by decide)

/-- The rate falls from 3 to 1 while the counter is at 5. -/
def loweredRate (t : Nat) : PidControllerIn := rateIn (if t < 5 then 3 else 1)

theorem loweredRate_misses : (ctlRun 100000 loweredRate 5).counter = 5 ∧
    (∀ t ≥ 5, (loweredRate t).sampleRateI = 1) ∧ ¬ SampledEvery 100000 loweredRate 5 (2 ^ 1) := by
  refine ⟨by decide, fun t ht => if_neg (Nat.not_lt.2 ht), ?_⟩
  intro h
  obtain ⟨t, hlo, hhi, hsample⟩ := h.first
  obtain rfl | rfl : t = 5 ∨ t = 6 := by omega
  · exact absurd hsample (by decide)
  · exact absurd hsample (by decide)

end PenPlotter
