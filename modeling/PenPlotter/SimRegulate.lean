import PenPlotter.PidSample
import PenPlotter.RamPrims
import PenPlotter.Settling
import PenPlotter.SimSystem

/-!
# The simulated plotter under control

While the bus leaves a controller with a positive proportional constant alone, the error of its axis settles: outside
the dead band the response has the sign of the error, the driver reports it a period late, and before long the encoder
steps towards the set-point. So the error comes within five steps of the dead band and stays there, although it need
not come to rest (`loop_regulates`). The derivative sees at most one step in 1000 clocks, so what the shift leaves of
it is 0 or, rounded down, -1: it only widens the dead band above the set-point.
-/

namespace PenPlotter

open Settling

theorem le_onCycles {r : Int} (h : r ≠ 0) : 1398 ≤ onCycles r := by
  have hduty : 179 ≤ (drive r).2 := by
    rcases lt_or_gt_of_ne h with hneg | hpos
    · rw [drive_of_neg hneg, duty]
      omega
    · rw [drive_of_pos hpos, duty]
      omega
  rw [onCycles]
  omega

namespace SimSystem

variable {prim : RamPrim MemAw} (M : Nat) (p : PowerUp prim) (a : Axis) (inp : Nat → SimIn)

/-- The register of the axis before tick `t`. -/
def regAt (t : Nat) (r : PidReg) : BitVec 32 := (run M p inp t).system.pid.reg a r

/-- The controller of the axis and its inputs in tick `t`. -/
def ctlAt (t : Nat) : PidController := (run M p inp t).system.pid.ctl a

def ctlInAt (t : Nat) : PidControllerIn :=
  (run M p inp t).system.pid.controllerIn ((run M p inp t).system.pidIn (systemInAt M p inp t)) a

/-- The distance of its samples. -/
def rateAt (t : Nat) : Nat := (ctlInAt M p a inp t).sampleRateI.toNat

/-- The count of the axis before tick `t`. -/
def countAt (t : Nat) : BitVec 32 := (run M p inp t).system.quad.hwQuad a

/-- The set-point less the count. -/
def errorAt (t : Nat) : Int := (regAt M p a inp t .sp - countAt M p a inp t).toInt

/-- From tick `T` on the bus leaves the registers and the count of the axis alone. -/
structure Steady (T : Nat) : Prop where
  config : ∀ t, T ≤ t → ∀ r : PidReg,
    ((run M p inp t).system.pidIn (systemInAt M p inp t)).swWe pidCfg (r.idx a) = false
  count : ∀ t, T ≤ t → clears M p a inp t = false

/-- The axis has not moved for two samples, and the next one is due in time. -/
structure AtRest (t : Nat) : Prop where
  rate : 0 < rateAt M p a inp t ∧ rateAt M p a inp t ≤ 26
  counter : (ctlAt M p a inp t).counter.toNat < 2 ^ rateAt M p a inp t
  prev : (ctlAt M p a inp t).pvPrev0 = countAt M p a inp t ∧ (ctlAt M p a inp t).pvPrev1 = countAt M p a inp t

/-- A controller works on the axis from tick `T` on. -/
structure Controls (T : Nat) : Prop where
  kp : 0 < (regAt M p a inp T .kp).toInt
  kd : 0 ≤ (regAt M p a inp T .kd).toInt
  damped : regAt M p a inp T .kd = 0 ∨ AtRest M p a inp T

/-- What the derivative takes off the response of an axis that moves back. -/
def damping (t : Nat) : Int := -(-(regAt M p a inp t .kd).toInt / 2 ^ 16)

/-- The greatest error without a response. -/
def deadBelow (t : Nat) : Int := (2 ^ 16 - 1) / (regAt M p a inp t .kp).toInt

/-- How far the error can be negative without one. -/
def deadAbove (t : Nat) : Int := damping M p a inp t * 2 ^ 16 / (regAt M p a inp t .kp).toInt

variable {M p a inp}

theorem Steady.regAt {T : Nat} (h : Steady M p a inp T) (r : PidReg) {t : Nat} (ht : T ≤ t) :
    regAt M p a inp t r = SimSystem.regAt M p a inp T r := by
  induction t, ht using Nat.le_induction with
  | base => rfl
  | succ t ht ih =>
    have hstep : SimSystem.regAt M p a inp (t + 1) r = _ := PidState.reg_step (M := M)
      (s := (run M p inp t).system.pid) (i := (run M p inp t).system.pidIn (systemInAt M p inp t)) (a := a) r
    rw [hstep, h.config t ht r]
    exact ih

variable (M p a inp) in
theorem seen_cases (t : Nat) : seen M p a inp t = 0 ∨ seen M p a inp t = 1 ∨ seen M p a inp t = -1 := by
  match t with
  | 0 | 1 => exact .inl rfl
  | t + 2 =>
    obtain ⟨f, b, hc⟩ := exists_counts M p a inp t
    rcases moves hc with ⟨hzero, -⟩ | ⟨hone, -⟩ | ⟨hone, -⟩
    · exact .inl hzero
    · exact .inr (.inl hone)
    · exact .inr (.inr hone)

theorem seen_pace {t t' : Nat} (hlt : t < t') (ht : seen M p a inp t ≠ 0) (ht' : seen M p a inp t' ≠ 0) :
    t + 1000 ≤ t' := by
  match t, t' with
  | 0, _ | 1, _ => exact absurd rfl ht
  | t + 2, 0 | t + 2, 1 => omega
  | t + 2, t' + 2 =>
    have := pace (Nat.lt_of_add_lt_add_right hlt) ht ht'
    omega

variable (M p a inp) in
/-- The steps that the count shows, with a sign. -/
theorem paced_shown (T : Nat) {σ : Int} (hσ : σ = 1 ∨ σ = -1) (c : Int) :
    Paced (fun t => σ * shown M p a inp (T + t) + c) 1000 := by
  have hsucc (t : Nat) : σ * shown M p a inp (T + (t + 1)) =
      σ * shown M p a inp (T + t) + σ * seen M p a inp (T + t) := by
    rw [← Nat.add_assoc, shown, Int.mul_add]
  constructor
  · intro t
    show σ * _ + c = _ ∨ σ * _ + c = _ ∨ σ * _ + c = _
    rw [hsucc]
    rcases seen_cases M p a inp (T + t) with hseen | hseen | hseen <;> rw [hseen] <;>
      rcases hσ with rfl | rfl <;> omega
  · intro s t hst hs ht
    have hseen {t : Nat} (ht : σ * shown M p a inp (T + (t + 1)) + c ≠ σ * shown M p a inp (T + t) + c) :
        seen M p a inp (T + t) ≠ 0 := by
      rintro hzero
      rw [hsucc, hzero] at ht
      omega
    have := seen_pace (Nat.add_lt_add_left hst T) (hseen hs) (hseen ht)
    omega

variable (M p a inp) in
/-- The two samples were taken in the ticks `r` and `s`, no further apart than the rate has it. -/
structure Sampled (n T t : Nat) (r s : Nat) : Prop where
  first : T ≤ r
  second : r ≤ s ∧ s ≤ r + n
  last : s ≤ t ∧ t ≤ s + (ctlAt M p a inp t).counter.toNat + 1
  counter : (ctlAt M p a inp t).counter.toNat < n
  prev0 : (ctlAt M p a inp t).pvPrev0 = countAt M p a inp s
  prev1 : (ctlAt M p a inp t).pvPrev1 = countAt M p a inp r

theorem AtRest.sampled {T : Nat} (hsteady : Steady M p a inp T) (h : AtRest M p a inp T) {t : Nat} (ht : T ≤ t) :
    ∃ r s, Sampled M p a inp (2 ^ rateAt M p a inp T) T t r s := by
  have hpow : 2 ^ rateAt M p a inp T ≤ 2 ^ 26 := Nat.pow_le_pow_right (by omega) h.rate.2
  induction t, ht using Nat.le_induction with
  | base =>
    exact ⟨T, T, Nat.le_refl T, ⟨Nat.le_refl T, Nat.le_add_right ..⟩, ⟨Nat.le_refl T, by omega⟩, h.counter, h.prev.1,
      h.prev.2⟩
  | succ t ht ih =>
    obtain ⟨r, s, hr, ⟨hrs, hsr⟩, ⟨hst, hts⟩, hcount, h0, h1⟩ := ih
    have hrate : rateAt M p a inp t = rateAt M p a inp T :=
      congrArg (fun v : BitVec 32 => (v.setWidth sampleRateWidth).toNat) (hsteady.regAt .rs ht)
    have hsample := PidController.samples_iff (s := ctlAt M p a inp t) (i := ctlInAt M p a inp t)
      (hrate.le.trans h.rate.2)
    have hstep : ctlAt M p a inp (t + 1) = (ctlAt M p a inp t).step M (ctlInAt M p a inp t) := rfl
    obtain ⟨hprev0, hprev1⟩ := PidController.pvPrev_step (M := M) (s := ctlAt M p a inp t) (i := ctlInAt M p a inp t)
    rw [← rateAt, hrate] at hsample
    rw [← hstep] at hprev0 hprev1
    cases hs : (ctlAt M p a inp t).samples (ctlInAt M p a inp t) with
    | true =>
      have hzero := PidController.counter_step_of_sample (M := M) hs
      have hend := hsample.1 hs
      rw [← hstep] at hzero
      rw [hs, if_pos rfl] at hprev0 hprev1
      exact ⟨s, t, by omega, ⟨hst, by omega⟩, ⟨Nat.le_succ t, by omega⟩, by omega, hprev0, hprev1.trans h0⟩
    | false =>
      have hnext := PidController.counter_step (M := M) hs
      have hnot := mt hsample.2 (by rw [hs]; exact Bool.false_ne_true)
      rw [← hstep, Nat.mod_eq_of_lt (by omega)] at hnext
      rw [hs, if_neg Bool.false_ne_true] at hprev0 hprev1
      exact ⟨r, s, hr, ⟨hrs, hsr⟩, ⟨by omega, by omega⟩, by omega, hprev0.trans h0, hprev1.trans h1⟩

variable (M p a inp) in
/-- The derivative in the response. -/
def derivative (t : Nat) : Int :=
  (regAt M p a inp t .kd).toInt * (((ctlAt M p a inp t).pvPrev0 - (ctlAt M p a inp t).pvPrev1).toInt /
    2 ^ rateAt M p a inp t) / 2 ^ 16

/-- The shift leaves nothing of the few steps between two samples but their sign. -/
theorem derivative_range {T : Nat} (hsteady : Steady M p a inp T) (h : Controls M p a inp T) {t : Nat} (ht : T ≤ t) :
    -damping M p a inp T ≤ derivative M p a inp t ∧ derivative M p a inp t ≤ 0 := by
  rw [derivative, damping, hsteady.regAt .kd ht]
  rcases h.damped with hzero | hrest
  · rw [hzero]
    simp
  · obtain ⟨r, s, hr, ⟨hrs, hsr⟩, -, -, h0, h1⟩ := hrest.sampled hsteady ht
    have hrate : rateAt M p a inp t = rateAt M p a inp T :=
      congrArg (fun v : BitVec 32 => (v.setWidth sampleRateWidth).toNat) (hsteady.regAt .rs ht)
    have htwo : 2 ^ 1 ≤ 2 ^ rateAt M p a inp T := Nat.pow_le_pow_right (by decide) hrest.rate.1
    have hbig : 2 ^ rateAt M p a inp T ≤ 2 ^ 26 := Nat.pow_le_pow_right (by decide) hrest.rate.2
    have hcast : (2 : Int) ^ rateAt M p a inp T = ((2 ^ rateAt M p a inp T : Nat) : Int) := by push_cast; rfl
    rw [h0, h1, hrate, hcast]
    generalize 2 ^ rateAt M p a inp T = n at hsr htwo hbig ⊢
    have hcount := hwQuad_run M p a inp hrs fun u hu _ => hsteady.count u (by omega)
    have hdiff (σ : Int) (hσ : σ = 1 ∨ σ = -1) :
        σ * shown M p a inp s ≤ σ * shown M p a inp r + (n / 1000 + 1 : Nat) := by
      have := (paced_shown M p a inp r hσ 0).le_add 0 (n / 1000 + 1) (n := s - r) (by omega)
      simpa [Nat.add_sub_cancel' hrs] using this
    have hup := hdiff 1 (.inl rfl)
    have hdown := hdiff (-1) (.inr rfl)
    have hsub : (countAt M p a inp s - countAt M p a inp r).toInt = shown M p a inp s - shown M p a inp r := by
      rw [countAt, hcount, countAt, BitVec.add_comm, BitVec.add_sub_cancel, BitVec.toInt_ofInt]
      exact Int.bmod_eq_of_le_mul_two (by omega) (by omega)
    have hlo : -1 ≤ (shown M p a inp s - shown M p a inp r) / (n : Int) :=
      (Int.le_ediv_iff_mul_le (by omega)).2 (by omega)
    have hhi : (shown M p a inp s - shown M p a inp r) / (n : Int) < 1 :=
      (Int.ediv_lt_iff_lt_mul (by omega)).2 (by omega)
    rw [hsub]
    obtain hq | hq : (shown M p a inp s - shown M p a inp r) / (n : Int) = 0 ∨
        (shown M p a inp s - shown M p a inp r) / (n : Int) = -1 := by omega
    · have := h.kd
      rw [hq]
      omega
    · have := h.kd
      rw [hq]
      omega


theorem response_eq (t : Nat) : response M p a inp t = PidController.i32
    ((regAt M p a inp t .kp).toInt * errorAt M p a inp t / 2 ^ 16 - derivative M p a inp t) := by
  have hkept : response M p a inp t = PidController.keptResponse (ctlAt M p a inp t) (ctlInAt M p a inp t) :=
    PidController.response_toInt
  rw [hkept, PidController.keptResponse, errorAt, derivative, BitVec.toInt_sub, BitVec.toInt_sub]
  rfl

variable (M p a inp) in
theorem sign_response {t : Nat} (hkp : 0 < (regAt M p a inp t .kp).toInt)
    (hd : -damping M p a inp t ≤ derivative M p a inp t ∧ derivative M p a inp t ≤ 0)
    (hrange : (regAt M p a inp t .kp).toInt * (errorAt M p a inp t).natAbs < 2 ^ 46) :
    (deadBelow M p a inp t < errorAt M p a inp t → 0 < response M p a inp t) ∧
    (deadAbove M p a inp t < -errorAt M p a inp t → response M p a inp t < 0) := by
  have hdamp : damping M p a inp t ≤ 2 ^ 15 := by
    have : (regAt M p a inp t .kd).toInt < 2 ^ 31 := BitVec.toInt_lt
    have : -2 ^ 31 ≤ (regAt M p a inp t .kd).toInt := BitVec.le_toInt _
    rw [damping]
    omega
  rw [response_eq, deadBelow, deadAbove]
  generalize derivative M p a inp t = D at hd ⊢
  generalize damping M p a inp t = B at hd hdamp ⊢
  generalize errorAt M p a inp t = e at hrange ⊢
  generalize (regAt M p a inp t .kp).toInt = K at hkp hrange ⊢
  constructor
  · intro he
    have hlow : 2 ^ 16 - 1 < K * e := by
      rw [Int.mul_comm]
      exact (Int.ediv_lt_iff_lt_mul hkp).1 he
    have hpos : 0 < e := by
      have : 0 ≤ (2 ^ 16 - 1) / K := Int.ediv_nonneg (by decide) hkp.le
      omega
    rw [Int.natAbs_of_nonneg hpos.le] at hrange
    rw [PidController.i32_of_fits ⟨by omega, by omega⟩]
    omega
  · intro he
    have hlow : B * 2 ^ 16 < K * -e := by
      rw [Int.mul_comm K]
      exact (Int.ediv_lt_iff_lt_mul hkp).1 he
    have hneg : 0 < -e := by
      have : 0 ≤ B * 2 ^ 16 / K := Int.ediv_nonneg (by omega) hkp.le
      omega
    rw [Int.ofNat_natAbs_of_nonpos (by omega)] at hrange
    rw [Int.mul_neg] at hlow hrange
    rw [PidController.i32_of_fits ⟨by omega, by omega⟩]
    omega

theorem Controls.dead_nonneg {T : Nat} (h : Controls M p a inp T) :
    0 ≤ deadBelow M p a inp T ∧ 0 ≤ deadAbove M p a inp T := by
  have hdamp : 0 ≤ damping M p a inp T := by
    have := h.kd
    rw [damping]
    omega
  exact ⟨Int.ediv_nonneg (by decide) h.kp.le, Int.ediv_nonneg (by omega) h.kp.le⟩

/-! ### One side of the set-point -/

/-- The sign of the errors on a side of the dead band, how far it extends there, the mode of the driver that reduces
them, and the other one. -/
inductive Side (below above : Int) : Int → Int → DRV8833Mode → DRV8833Mode → Prop
  | below : Side below above 1 below .forward .backward
  | above : Side below above (-1) above .backward .forward

section

variable {below above σ d : Int} {m m' : DRV8833Mode} (hside : Side below above σ d m m')
include hside

theorem Side.directionOf {r : Int} (hr : 0 < σ * r) : PenPlotter.directionOf r = m ∧ m ≠ m' := by
  cases hside with
  | below => exact ⟨directionOf_pos (by omega), by decide⟩
  | above => exact ⟨directionOf_neg (by omega), by decide⟩

theorem Side.ne_coast : m ≠ .coast ∧ m' ≠ .coast := by
  cases hside <;> exact ⟨by decide, by decide⟩

/-- A response of one sign through a period drives its direction for the base duty at least, and never the other. -/
theorem Side.shares {k : Nat} (hall : ∀ x < 2000, 0 < σ * response M p a inp (k * 2000 + x)) :
    1398 ≤ share M p a inp m k ∧ share M p a inp m' k = 0 := by
  have hmode (x : Nat) : PidMotors.modeAt M (pidInAt M p inp) a (1 + (k * 2000 + x)) =
      if (1 + k * 2000 + x) % 2000 < onCycles (response M p a inp (k * 2000 + x)) then
        PenPlotter.directionOf (response M p a inp (k * 2000 + x)) else .coast := by
    rw [PidMotors.modeAt_eq, responseAt_eq, Nat.add_assoc]
  have hon (x : Nat) (hx : x < 2000) : 1398 ≤ onCycles (response M p a inp (k * 2000 + x)) := by
    have hne : response M p a inp (k * 2000 + x) ≠ 0 := fun hzero => by
      have := hall x hx
      rw [hzero, Int.mul_zero] at this
      omega
    exact le_onCycles hne
  rw [share_eq, share_eq]
  constructor
  · have hbase : Nat.count (fun x => (1 + k * 2000 + x) % 2000 < 1398) 2000 = 1398 := count_residues ..
    rw [← hbase]
    refine Nat.count_mono_left fun x hx hlt => ?_
    rw [hmode, if_pos (lt_of_lt_of_le hlt (hon x hx))]
    exact (hside.directionOf (hall x hx)).1
  · by_contra hne
    obtain ⟨x, hx, heq⟩ := Nat.count_ne_iff_exists.1 hne
    obtain ⟨hdir, hmm⟩ := hside.directionOf (hall x hx)
    rw [hmode, hdir] at heq
    split at heq
    · exact hmm heq
    · exact hside.ne_coast.2 heq.symm

variable (M p a inp) in
/-- The encoder under the report about period `k`. -/
theorem Side.moves (k : Nat) {r : Nat} (hr : r < 2000) {n n' : Nat}
    (hn : n = ((run M p inp ((k + 1) * 2000 + r)).quad a).ticks.toNat)
    (hn' : n' = ((run M p inp ((k + 1) * 2000 + r + 1)).quad a).ticks.toNat) :
    move M p a inp ((k + 1) * 2000 + r) = 0 ∧
      (1398 ≤ share M p a inp m k → share M p a inp m' k = 0 → n' = n + 1 ∧ n' < 2861) ∨
    move M p a inp ((k + 1) * 2000 + r) = σ ∨
    move M p a inp ((k + 1) * 2000 + r) = -σ ∧ 600 < share M p a inp m' k := by
  subst hn hn'
  have hinfo := info_later M p a inp k hr
  rcases SimSystem.moves hinfo with ⟨hzero, hwaits⟩ | ⟨hone, hf, -⟩ | ⟨hone, hb, -⟩
  · refine .inl ⟨hzero, fun hon hoff => hwaits.grows ?_⟩
    cases hside with
    | below => exact .inl ⟨hon, hoff⟩
    | above => exact .inr ⟨hon, hoff⟩
  · cases hside with
    | below => exact .inr (.inl hone)
    | above => exact .inr (.inr ⟨hone, hf⟩)
  · cases hside with
    | below => exact .inr (.inr ⟨hone, hb⟩)
    | above => exact .inr (.inl hone)

end

variable (M p a inp) in
/-- The error at tick `T` less the steps counted since. -/
def errorFrom (T t : Nat) : Int := errorAt M p a inp T - (shown M p a inp (T + t) - shown M p a inp T)

theorem errorFrom_succ (T t : Nat) :
    errorFrom M p a inp T (t + 1) = errorFrom M p a inp T t - seen M p a inp (T + t) := by
  rw [errorFrom, errorFrom, ← Nat.add_assoc, shown]
  omega

section

variable {T : Nat} (hsteady : Steady M p a inp T)
include hsteady

theorem errorAt_eq {t : Nat} (hrange : (errorFrom M p a inp T t).natAbs < 2 ^ 31) :
    errorAt M p a inp (T + t) = errorFrom M p a inp T t := by
  have hcount := hwQuad_run M p a inp (Nat.le_add_right T t) fun u hu _ => hsteady.count u hu
  have hbmod : errorAt M p a inp (T + t) = (errorFrom M p a inp T t).bmod (2 ^ 32) := by
    rw [errorAt, hsteady.regAt .sp (Nat.le_add_right T t), countAt, hcount, ← BitVec.sub_sub, BitVec.toInt_sub,
      BitVec.toInt_ofInt, Int.sub_bmod_bmod]
    rfl
  rw [hbmod]
  exact Int.bmod_eq_of_le_mul_two (by omega) (by omega)

variable (h : Controls M p a inp T) {R : Int}
  (hword : R + deadBelow M p a inp T + deadAbove M p a inp T < 2 ^ 31)
  (hrange : (regAt M p a inp T .kp).toInt * (R + deadBelow M p a inp T + deadAbove M p a inp T) < 2 ^ 46)
  {σ d : Int} {m m' : DRV8833Mode} (hside : Side (deadBelow M p a inp T) (deadAbove M p a inp T) σ d m m')
include h hword hrange hside

/-- Within the range and outside the dead band the response has the sign of the error. -/
theorem pos_response {t : Nat} (hpos : 0 < σ * errorFrom M p a inp T t - d)
    (hle : σ * errorFrom M p a inp T t - d ≤ R) : 0 < σ * response M p a inp (T + t) := by
  have hT := Nat.le_add_right T t
  obtain ⟨hbelow, habove⟩ := h.dead_nonneg
  have habs : ((errorFrom M p a inp T t).natAbs : Int) ≤ R + deadBelow M p a inp T + deadAbove M p a inp T := by
    cases hside <;> omega
  have hK : (regAt M p a inp T .kp).toInt * (errorFrom M p a inp T t).natAbs ≤
      (regAt M p a inp T .kp).toInt * (R + deadBelow M p a inp T + deadAbove M p a inp T) :=
    Int.mul_le_mul_of_nonneg_left habs h.kp.le
  have hsign := sign_response M p a inp (t := T + t)
  rw [damping, deadBelow, deadAbove, damping, hsteady.regAt .kp hT, hsteady.regAt .kd hT,
    errorAt_eq hsteady (t := t) (by omega)] at hsign
  obtain ⟨hfwd, hbwd⟩ := hsign h.kp (derivative_range hsteady h hT) (by omega)
  cases hside with
  | below =>
    have := hfwd (by rw [← deadBelow]; omega)
    omega
  | above =>
    have := hbwd (by rw [← damping, ← deadAbove]; omega)
    omega

/-- The feedback: a report is about responses at most 4000 ticks old, and a step is counted two ticks late. -/
theorem pulled : Pulled (fun t => σ * errorFrom M p a inp T t - d) R 4001 2861 := by
  -- A tick whose count comes after the delay is under the report about a period of the stretch.
  have hperiod {s t : Nat} (hs : s + 4001 ≤ t) (habove : Above (fun t => σ * errorFrom M p a inp T t - d) R s t) :
      ∃ k r, r < 2000 ∧ T + t = (k + 1) * 2000 + r + 2 ∧ 1398 ≤ share M p a inp m k ∧ share M p a inp m' k = 0 := by
    refine ⟨(T + t - 2) / 2000 - 1, (T + t - 2) % 2000, Nat.mod_lt _ (by decide), by omega, hside.shares ?_⟩
    intro x hx
    obtain ⟨y, hy⟩ : ∃ y, ((T + t - 2) / 2000 - 1) * 2000 + x = T + y :=
      ⟨((T + t - 2) / 2000 - 1) * 2000 + x - T, by omega⟩
    obtain ⟨hpos, hle⟩ := habove y (by omega) (by omega)
    rw [hy]
    exact pos_response hsteady h hword hrange hside hpos hle
  have hsucc (t : Nat) : σ * errorFrom M p a inp T (t + 1) =
      σ * errorFrom M p a inp T t - σ * seen M p a inp (T + t) := by
    rw [errorFrom_succ, Int.mul_sub]
  constructor
  · intro s t hs habove
    obtain ⟨k, r, hr, ht, hon, hoff⟩ := hperiod hs habove
    show σ * errorFrom M p a inp T (t + 1) - d ≤ σ * errorFrom M p a inp T t - d
    rw [hsucc, ht, seen]
    rcases hside.moves M p a inp k hr rfl rfl with ⟨hzero, -⟩ | hone | ⟨-, hmore⟩
    · rw [hzero]
      omega
    · rw [hone]
      cases hside <;> omega
    · omega
  · intro s habove
    by_contra hnone
    -- Without a step the ticks of the encoder would grow past where its call fires.
    have hwait (j : Nat) (hj : j < 2861) : ((run M p inp (T + s + 3999 + j + 1)).quad a).ticks.toNat =
        ((run M p inp (T + s + 3999 + j)).quad a).ticks.toNat + 1 ∧
        ((run M p inp (T + s + 3999 + j + 1)).quad a).ticks.toNat < 2861 := by
      obtain ⟨k, r, hr, ht, hon, hoff⟩ := hperiod (s := s) (t := s + 4001 + j) (by omega) fun x hs hx =>
        habove x hs (by omega)
      rw [show T + s + 3999 + j = (k + 1) * 2000 + r by omega]
      rcases hside.moves M p a inp k hr rfl rfl with ⟨-, hgrows⟩ | hone | ⟨-, hmore⟩
      · exact hgrows hon hoff
      · refine absurd ⟨s + 4001 + j, by omega, by omega, ?_⟩ hnone
        show σ * errorFrom M p a inp T (s + 4001 + j + 1) - d < σ * errorFrom M p a inp T (s + 4001 + j) - d
        rw [hsucc, ht, seen, hone]
        cases hside <;> omega
      · omega
    have hticks (j : Nat) (hj : j ≤ 2861) : j ≤ ((run M p inp (T + s + 3999 + j)).quad a).ticks.toNat := by
      induction j with
      | zero => exact Nat.zero_le _
      | succ j ih =>
        have hstep := (hwait j (by omega)).1
        have hprev := ih (by omega)
        rw [← Nat.add_assoc]
        omega
    have hfull := hticks (2860 + 1) (Nat.le_refl _)
    have hlast := (hwait 2860 (by decide)).2
    rw [← Nat.add_assoc] at hfull
    omega

end

/-- What settling says of one side. -/
theorem side_settles {T : Nat} (hsteady : Steady M p a inp T) (h : Controls M p a inp T)
    (hword : (errorAt M p a inp T).natAbs + 6 + deadBelow M p a inp T + deadAbove M p a inp T < 2 ^ 31)
    (hrange : (regAt M p a inp T .kp).toInt *
      ((errorAt M p a inp T).natAbs + 6 + deadBelow M p a inp T + deadAbove M p a inp T) < 2 ^ 46)
    {σ d : Int} {m m' : DRV8833Mode} (hside : Side (deadBelow M p a inp T) (deadAbove M p a inp T) σ d m m') (t : Nat) :
    σ * errorFrom M p a inp T t ≤ max (σ * errorAt M p a inp T) d + 5 ∧
    (4001 + 2861 * ((errorAt M p a inp T).natAbs + 5) ≤ t → σ * errorFrom M p a inp T t ≤ d + 5) := by
  have hpulled := pulled hsteady h (R := (errorAt M p a inp T).natAbs + 6) (by omega) hrange hside
  obtain ⟨hbelow, habove⟩ := h.dead_nonneg
  have hpaced : Paced (fun t => σ * errorFrom M p a inp T t - d) 1000 := by
    have hshown := paced_shown M p a inp T (σ := -σ) (by cases hside <;> decide)
      (σ * errorAt M p a inp T + σ * shown M p a inp T - d)
    convert hshown using 2 with t
    rw [errorFrom, Int.mul_sub, Int.mul_sub, Int.neg_mul]
    omega
  have hzero : errorFrom M p a inp T 0 = errorAt M p a inp T := by
    rw [errorFrom, Nat.add_zero]
    omega
  have h0 : σ * errorFrom M p a inp T 0 - d ≤ max (σ * errorAt M p a inp T) d - d := by
    rw [hzero]
    omega
  have hR : max (σ * errorAt M p a inp T) d - d + (5 : Nat) < ((errorAt M p a inp T).natAbs + 6 : Int) := by
    cases hside <;> omega
  constructor
  · have := hpulled.le_add hpaced (b := 5) (by decide) h0 (by omega) hR t
    omega
  · intro ht
    have := hpulled.eventually_le hpaced (b := 5) (by decide) h0 (by omega) hR (t := t) (by omega)
    omega

end SimSystem

open SimSystem in
/-- While the bus leaves the axis alone, a controller with a positive proportional constant and a derivative that is off
or starts at rest keeps the error near the dead band if it starts there, and brings it within five steps of the dead
band at 2861 ticks a step; from then on it stays there. -/
theorem loop_regulates {prim : RamPrim MemAw} (M : Nat) (p : PowerUp prim) (inp : Nat → SimIn) (a : Axis) (T : Nat)
    (hsteady : Steady M p a inp T) (h : Controls M p a inp T)
    (hword : (errorAt M p a inp T).natAbs + 6 + deadBelow M p a inp T + deadAbove M p a inp T < 2 ^ 31)
    (hrange : (regAt M p a inp T .kp).toInt *
      ((errorAt M p a inp T).natAbs + 6 + deadBelow M p a inp T + deadAbove M p a inp T) < 2 ^ 46) :
    (∀ t, T ≤ t → min (errorAt M p a inp T) (-deadAbove M p a inp T) - 5 ≤ errorAt M p a inp t ∧
      errorAt M p a inp t ≤ max (errorAt M p a inp T) (deadBelow M p a inp T) + 5) ∧
    ∀ t, T + 4001 + 2861 * ((errorAt M p a inp T).natAbs + 5) ≤ t →
      -(deadAbove M p a inp T + 5) ≤ errorAt M p a inp t ∧ errorAt M p a inp t ≤ deadBelow M p a inp T + 5 := by
  obtain ⟨hbelow, habove⟩ := h.dead_nonneg
  have hsides (t : Nat) := And.intro (side_settles hsteady h hword hrange .below t)
    (side_settles hsteady h hword hrange .above t)
  have heq {t : Nat} (ht : T ≤ t) : errorAt M p a inp t = errorFrom M p a inp T (t - T) := by
    obtain ⟨⟨hfwd, -⟩, hbwd, -⟩ := hsides (t - T)
    have := errorAt_eq hsteady (t := t - T) (by omega)
    rwa [Nat.add_sub_cancel' ht] at this
  constructor
  · intro t ht
    obtain ⟨⟨hfwd, -⟩, hbwd, -⟩ := hsides (t - T)
    rw [heq ht]
    omega
  · intro t ht
    obtain ⟨n, rfl⟩ : ∃ n, t = T + n := ⟨t - T, by omega⟩
    obtain ⟨⟨-, hfwd⟩, -, hbwd⟩ := hsides n
    rw [Nat.add_assoc] at ht
    have hlate : 4001 + 2861 * ((errorAt M p a inp T).natAbs + 5) ≤ n := Nat.le_of_add_le_add_left ht
    have hup := hfwd hlate
    have hdown := hbwd hlate
    rw [heq (Nat.le_add_right T n), Nat.add_sub_cancel_left]
    omega

/-- The writes that follow the settings of `shape.c`, gains of 0.5 and a rate of 10, and a set-point. -/
def settingWrites : List (BitVec 32 × BitVec 32) :=
  [(0x80004004, 0x8000), (0x80004008, 0x8000), (0x8000400C, 10), (0x80004010, 100)]

/-- One write in each tick, then no request. -/
def settingsIn (t : Nat) : SimIn where
  core :=
    { dataReqO := decide (t < 4)
      dataAddrO := (settingWrites.getD t (0, 0)).1
      dataWeO := true
      dataBeO := 0xF
      dataWdataO := (settingWrites.getD t (0, 0)).2
      instrReqO := false
      instrAddrO := 0
      quad := fun _ => 0
      uartRx := true
      padding := 0 }
  enqueue := []

def emptyPowerUp : PowerUp (primRam2p MemAw) where
  ram := ⟨fun _ => 0, 0, 0⟩
  rdata := 0
  txBuf _ := 0
  rxBuf _ := 0
  core := (settingsIn 4).core

namespace SimSystem

theorem settings_steady : Steady 100000 emptyPowerUp .x settingsIn 4 := by
  have hquiet (t : Nat) (ht : 4 ≤ t) (d : Fin NrDevices) :
      ((run 100000 emptyPowerUp settingsIn t).system.devicePort (systemInAt 100000 emptyPowerUp settingsIn t) d).reqI =
        false := by
    have hlow : (settingsIn t).core.dataReqO = false := decide_eq_false (Nat.not_lt.2 ht)
    exact PpSystem.reqI_devicePort hlow d
  constructor
  · exact fun t ht r => ObiRegState.swWe_idle (hquiet t ht 4) _
  · intro t ht
    have hwe := @ObiRegState.swWe_idle _ quadCfg _ (hquiet t ht 5) Axis.x.quadIdx
    exact Bool.and_eq_false_imp.2 fun h => absurd (h.symm.trans hwe) (by decide)

theorem settings_control : countAt 100000 emptyPowerUp .x settingsIn 4 = 0 ∧
    Controls 100000 emptyPowerUp .x settingsIn 4 := by
  have hcount : countAt 100000 emptyPowerUp .x settingsIn 4 = 0 := by
    have hrun := hwQuad_run 100000 emptyPowerUp .x settingsIn (Nat.zero_le 4)
      fun u _ hu => by
        obtain rfl | rfl | rfl | rfl : u = 0 ∨ u = 1 ∨ u = 2 ∨ u = 3 := by omega
        all_goals decide
    rw [shown_first (by decide), shown_first (by decide)] at hrun
    exact hrun
  refine ⟨hcount, by decide, by decide, .inr ⟨by decide, by decide, ?_⟩⟩
  rw [hcount]
  decide

end SimSystem

open SimSystem in
/-- From rest with the settings of `shape.c` the error comes down from 100 to between -7 and 6. -/
theorem loop_regulates_shape : Steady 100000 emptyPowerUp .x settingsIn 4 ∧
    ∀ t, 4 + 4001 + 2861 * (100 + 5) ≤ t →
      -7 ≤ errorAt 100000 emptyPowerUp .x settingsIn t ∧ errorAt 100000 emptyPowerUp .x settingsIn t ≤ 6 := by
  obtain ⟨hcount, hcontrols⟩ := settings_control
  have herror : errorAt 100000 emptyPowerUp .x settingsIn 4 = 100 := by
    rw [errorAt, hcount]
    decide
  have hbelow : deadBelow 100000 emptyPowerUp .x settingsIn 4 = 1 := by decide
  have habove : deadAbove 100000 emptyPowerUp .x settingsIn 4 = 2 := by decide
  have hkp : (regAt 100000 emptyPowerUp .x settingsIn 4 .kp).toInt = 32768 := by decide
  have hloop := loop_regulates 100000 emptyPowerUp settingsIn .x 4 settings_steady hcontrols
  rw [herror, hbelow, habove, hkp] at hloop
  exact ⟨settings_steady, (hloop (by decide) (by decide)).2⟩

end PenPlotter
