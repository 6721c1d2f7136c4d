import PenPlotter.Devices

/-!
# The timer as one counter (`rtl/obi_sys_timer.sv`)

`mtime` lives in two registers. A write to one of them suspends the count of both for that cycle, so no
carry is lost or torn; in every other cycle the two count as one 64-bit word (`mtime_counts`).
-/

namespace PenPlotter

/-- What a cycle does to a 64-bit counter that can be written by halves. -/
def counterNext (enable : Bool) (lo hi : Option (BitVec 32)) (v : BitVec 64) : BitVec 64 :=
  match lo, hi with
  | some w, _ => v.extractLsb' 32 32 ++ w
  | none, some w => w ++ v.setWidth 32
  | none, none => if enable then v + 1 else v

theorem hi_append_lo (v : BitVec 64) : v.extractLsb' 32 32 ++ v.setWidth 32 = v := by
  ext i hi
  simp only [BitVec.getElem_append, BitVec.getElem_setWidth, BitVec.getElem_extractLsb']
  split
  next h => exact BitVec.getLsbD_eq_getElem hi
  next h =>
    rw [Nat.add_sub_cancel' (Nat.not_lt.1 h)]
    exact BitVec.getLsbD_eq_getElem hi

/-- The word that a request writes to register `r`. -/
def ObiIn.written {n : Nat} (cfg : ObiRegCfg n) (i : ObiIn) (r : Fin n) : Option (BitVec 32) :=
  if i.writes cfg r then some i.wdataI else none

theorem ObiIn.written_eq_none {n : Nat} {cfg : ObiRegCfg n} {i : ObiIn} {r : Fin n} (h : i.writes cfg r = false) :
    i.written cfg r = none := by
  rw [written, h]
  rfl

theorem ObiIn.writes_of_faulty {n : Nat} {cfg : ObiRegCfg n} {i : ObiIn} (h : i.faulty cfg = true) (r : Fin n) :
    i.writes cfg r = false := by
  rw [faulty, Bool.or_eq_true, decide_eq_true_iff, Bool.and_eq_true, bne_iff_ne] at h
  by_contra hw
  simp only [Bool.not_eq_false, writes, Bool.and_eq_true, beq_iff_eq] at hw
  rcases h with hword | ⟨-, hbe⟩
  · have := r.isLt
    omega
  · exact hbe hw.1.2

namespace SysTimerState

variable (s : SysTimerState) (i : ObiIn)

theorem swWe_eq (r : Fin TimerRegCount) : i.swWe timerCfg r = i.writes timerCfg r :=
  ObiIn.swWe_eq (by decide) i r

/-- A request names one register. -/
theorem writes_hi_of_lo (h : i.writes timerCfg mTimeLoLane = true) : i.writes timerCfg mTimeHiLane = false := by
  simp only [ObiIn.writes, Bool.and_eq_true, beq_iff_eq] at h
  rw [ObiIn.writes, h.2]
  exact Bool.and_eq_false_iff.2 (.inr rfl)

/-- A register that the hardware leaves alone in this cycle. -/
theorem q_step_sw {r : Fin TimerRegCount} (hde : (s.regsIn i).hwDe r = false) :
    (s.step i).regs.q r = (i.written timerCfg r).getD (s.regs.q r) := by
  have hq : (s.step i).regs.q r = if i.swWe timerCfg r then i.wdataI else s.regs.q r :=
    ObiRegState.step_q_rw (i := s.regsIn i) rfl hde
  rw [hq, swWe_eq, ObiIn.written]
  split <;> rfl

/-- A half of `mtime` while the counter runs. -/
theorem q_step_hw {r : Fin TimerRegCount} (hde : (s.regsIn i).hwDe r = true) (hw : i.writes timerCfg r = false) :
    (s.step i).regs.q r = (s.regsIn i).hwD r := by
  show primSubreg .rw (i.swWe timerCfg r) _ ((s.regsIn i).hwDe r) _ _ = _
  rw [swWe_eq, hw, hde]
  rfl

theorem mtime_step : (s.step i).mtime =
    counterNext s.enable (i.written timerCfg mTimeLoLane) (i.written timerCfg mTimeHiLane) s.mtime := by
  cases hc : s.counts i with
  | true =>
    obtain ⟨⟨hen, hlo⟩, hhi⟩ : (s.enable = true ∧ i.writes timerCfg mTimeLoLane = false) ∧
        i.writes timerCfg mTimeHiLane = false := by
      simpa [counts, swWe_eq] using hc
    have hde (r : Fin TimerRegCount) : (s.regsIn i).hwDe r = (r == mTimeLoLane || r == mTimeHiLane) := by
      show (s.counts i && _) = _
      rw [hc, Bool.true_and]
    have hd (r : Fin TimerRegCount) : (s.regsIn i).hwD r =
        if r = mTimeLoLane then (s.mtime + 1).setWidth 32
        else if r = mTimeHiLane then (s.mtime + 1).extractLsb' 32 32 else 0 := if_pos hc
    rw [mtime, q_step_hw s i (hde _) hhi, q_step_hw s i (hde _) hlo, hd, hd, ObiIn.written_eq_none hlo,
      ObiIn.written_eq_none hhi, hen]
    exact hi_append_lo (s.mtime + 1)
  | false =>
    have hde (r : Fin TimerRegCount) : (s.regsIn i).hwDe r = false := by
      show (s.counts i && _) = _
      rw [hc, Bool.false_and]
    rw [mtime, q_step_sw s i (hde _), q_step_sw s i (hde _)]
    cases hlo : i.writes timerCfg mTimeLoLane with
    | true =>
      rw [ObiIn.written_eq_none (writes_hi_of_lo i hlo), ObiIn.written, if_pos hlo]
      exact congrArg (· ++ i.wdataI) BitVec.extractLsb'_append_eq_left.symm
    | false =>
      rw [ObiIn.written_eq_none hlo]
      cases hhi : i.writes timerCfg mTimeHiLane with
      | true =>
        rw [ObiIn.written, if_pos hhi]
        exact congrArg (i.wdataI ++ ·) BitVec.setWidth_append_eq_right.symm
      | false =>
        have hen : s.enable = false := by simpa [counts, swWe_eq, hlo, hhi] using hc
        rw [ObiIn.written_eq_none hhi, hen]
        rfl

theorem q_step_other {r : Fin TimerRegCount} (hlo : r ≠ mTimeLoLane) (hhi : r ≠ mTimeHiLane) :
    (s.step i).regs.q r = (i.written timerCfg r).getD (s.regs.q r) := by
  refine q_step_sw s i ?_
  show (s.counts i && (r == mTimeLoLane || r == mTimeHiLane)) = false
  rw [beq_false_of_ne hlo, beq_false_of_ne hhi, Bool.or_self, Bool.and_false]

/-- Neither half of `mtime` is written. -/
def KeepsMtime (i : ObiIn) : Prop :=
  i.writes timerCfg mTimeLoLane = false ∧ i.writes timerCfg mTimeHiLane = false

variable {s i}

theorem KeepsMtime.of_read (h : i.weI = false) : KeepsMtime i := by
  simp [KeepsMtime, ObiIn.writes, h]

theorem mtime_step_of_keeps (h : KeepsMtime i) :
    (s.step i).mtime = if s.enable then s.mtime + 1 else s.mtime := by
  rw [mtime_step, ObiIn.written_eq_none h.1, ObiIn.written_eq_none h.2]
  rfl

end SysTimerState

open SysTimerState

section

variable (s₀ : SysTimerState) (inp : Nat → ObiIn)

/-- The timer before cycle `t`. -/
def timerRun : Nat → SysTimerState := Clocked.run SysTimerState.step s₀ inp

/-- How many of the cycles `t, …, t + d - 1` find the counter enabled. -/
def enabledCycles (t d : Nat) : Nat := (List.range d).countP fun j => (timerRun s₀ inp (t + j)).enable

variable {s₀ inp}

theorem mtime_advances {t d : Nat} (h : ∀ j < d, KeepsMtime (inp (t + j))) :
    (timerRun s₀ inp (t + d)).mtime =
      (timerRun s₀ inp t).mtime + BitVec.ofNat 64 (enabledCycles s₀ inp t d) := by
  induction d with
  | zero => exact (BitVec.add_zero _).symm
  | succ d ih =>
    have hstep : (timerRun s₀ inp (t + d + 1)).mtime =
        if (timerRun s₀ inp (t + d)).enable then (timerRun s₀ inp (t + d)).mtime + 1
        else (timerRun s₀ inp (t + d)).mtime := mtime_step_of_keeps (h d (Nat.lt_succ_self d))
    have hcount : enabledCycles s₀ inp t (d + 1) =
        enabledCycles s₀ inp t d + if (timerRun s₀ inp (t + d)).enable then 1 else 0 := by
      rw [enabledCycles, List.range_succ, List.countP_append, List.countP_singleton]
      rfl
    have hprev := ih fun j hj => h j (Nat.lt_succ_of_lt hj)
    rw [← Nat.add_assoc, hstep, hcount]
    split
    · rw [hprev, BitVec.ofNat_add, BitVec.add_assoc]
      rfl
    · rw [hprev, Nat.add_zero]

end

/-- `mtime` is one 64-bit counter, for every stream of requests: an accepted write sets one half and leaves
the other alone, every other cycle counts by 1 if the timer is enabled, rejected accesses included, and a
stretch without writes of `mtime` advances it by its enabled cycles. -/
theorem mtime_counts (inp : Nat → ObiIn) :
    (∀ t, (inp t).writes timerCfg mTimeLoLane = true → (timerRun .reset inp (t + 1)).mtime =
      (timerRun .reset inp t).mtime.extractLsb' 32 32 ++ (inp t).wdataI) ∧
    (∀ t, (inp t).writes timerCfg mTimeHiLane = true → (timerRun .reset inp (t + 1)).mtime =
      (inp t).wdataI ++ (timerRun .reset inp t).mtime.setWidth 32) ∧
    (∀ t, KeepsMtime (inp t) → (timerRun .reset inp (t + 1)).mtime =
      if (timerRun .reset inp t).enable then (timerRun .reset inp t).mtime + 1
      else (timerRun .reset inp t).mtime) ∧
    (∀ t d, (∀ j < d, KeepsMtime (inp (t + j))) → (timerRun .reset inp (t + d)).mtime =
      (timerRun .reset inp t).mtime + BitVec.ofNat 64 (enabledCycles .reset inp t d)) ∧
    ∀ t, (inp t).faulty timerCfg = true → KeepsMtime (inp t) := by
  refine ⟨fun t hlo => ?_, fun t hhi => ?_, fun t h => mtime_step_of_keeps h, fun t d h => mtime_advances h,
    fun t h => ⟨ObiIn.writes_of_faulty h _, ObiIn.writes_of_faulty h _⟩⟩
  · refine (mtime_step _ _).trans ?_
    rw [ObiIn.written, if_pos hlo]
    rfl
  · have hlo : (inp t).writes timerCfg mTimeLoLane = false := by
      by_contra hlo
      rw [writes_hi_of_lo _ (Bool.eq_true_of_not_eq_false hlo)] at hhi
      cases hhi
    refine (mtime_step _ _).trans ?_
    rw [ObiIn.written, ObiIn.written, hlo, if_pos hhi]
    rfl

/-- Enables the timer, then writes the last value before a carry to `MTIME_LO`. -/
def nearCarry (t : Nat) : ObiIn :=
  if t = 0 then ⟨true, 0x80003000, true, 0xF, 1⟩
  else if t = 1 then ⟨true, 0x80003004, true, 0xF, 0xFFFFFFFF⟩
  else .idle

theorem mtime_counts_carry : (timerRun .reset nearCarry 3).mtime = 0x100000000 := by
  have hcount := (mtime_counts nearCarry).2.2.1 2 ⟨by decide, by decide⟩
  rw [(mtime_counts nearCarry).1 1 (by decide), (by decide : (timerRun .reset nearCarry 2).enable = true)] at hcount
  exact hcount.trans (by decide)

end PenPlotter
