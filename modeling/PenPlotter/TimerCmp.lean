import PenPlotter.TimerRead

/-!
# Moving the compare value by halves (`timer_write_mtimecmp`)

The first write sets the low half to the largest word, so the two values between the old and the new one lie
above one of them.
-/

namespace PenPlotter

open Mmio Prog SysTimerState

namespace SysTimerState

variable {s : SysTimerState} {i : ObiIn}

theorem mtimeCmp_step : (s.step i).mtimeCmp =
    (i.written timerCfg mTimeCmpHiLane).getD (mtimeHigh s.mtimeCmp) ++
      (i.written timerCfg mTimeCmpLoLane).getD (s.mtimeCmp.setWidth 32) := by
  have hhigh : mtimeHigh s.mtimeCmp = s.regs.q mTimeCmpHiLane := BitVec.extractLsb'_append_eq_left
  have hlow : s.mtimeCmp.setWidth 32 = s.regs.q mTimeCmpLoLane := BitVec.setWidth_append_eq_right
  rw [hhigh, hlow, mtimeCmp, q_step_other _ _ (by decide) (by decide), q_step_other _ _ (by decide) (by decide)]

/-- Neither half of `mtimecmp` is written. -/
def KeepsCmp (i : ObiIn) : Prop :=
  i.writes timerCfg mTimeCmpLoLane = false ∧ i.writes timerCfg mTimeCmpHiLane = false

theorem KeepsCmp.idle : KeepsCmp .idle := ⟨rfl, rfl⟩

theorem mtimeCmp_step_of_keeps (h : KeepsCmp i) : (s.step i).mtimeCmp = s.mtimeCmp := by
  rw [mtimeCmp_step, ObiIn.written_eq_none h.1, ObiIn.written_eq_none h.2]
  exact hi_append_lo _

theorem written_word {addr w : BitVec 32} (r : Fin TimerRegCount) :
    (⟨true, addr, true, 0xF, w⟩ : ObiIn).written timerCfg r =
      if addr.toNat % 2 ^ 8 / 4 = r.val then some w else none := by
  rw [ObiIn.written, ObiIn.writes, Bool.and_true, BEq.rfl, Bool.and_true, Bool.true_and]
  exact if_congr beq_iff_eq rfl rfl

theorem mtimeCmp_step_lo (w : BitVec 32) :
    (s.step ⟨true, mtimecmpLo, true, 0xF, w⟩).mtimeCmp = mtimeHigh s.mtimeCmp ++ w := by
  rw [mtimeCmp_step, written_word, written_word, if_neg (by decide), if_pos (by decide)]
  rfl

theorem mtimeCmp_step_hi (w : BitVec 32) :
    (s.step ⟨true, mtimecmpHi, true, 0xF, w⟩).mtimeCmp = w ++ s.mtimeCmp.setWidth 32 := by
  rw [mtimeCmp_step, written_word, written_word, if_pos (by decide), if_neg (by decide)]
  rfl

end SysTimerState

/-- The code together with the compare value that it has reached. -/
inductive CmpWrite (old new : BitVec 64) : Firmware Unit → BitVec 64 → Prop
  | first : CmpWrite old new (Firmware.timerWriteMtimecmp new) old
  | second : CmpWrite old new
    (.act (.store mtimecmpHi ((new >>> 32).setWidth 32)) fun _ => Firmware.store mtimecmpLo (new.setWidth 32))
    (mtimeHigh old ++ 0xFFFFFFFF#32)
  | third : CmpWrite old new (Firmware.store mtimecmpLo (new.setWidth 32)) (mtimeHigh new ++ 0xFFFFFFFF#32)
  | done : CmpWrite old new (.ret ()) new

theorem shift_eq_high (v : BitVec 64) : (v >>> 32).setWidth 32 = mtimeHigh v := by
  refine BitVec.eq_of_toNat_eq ?_
  rw [toNat_mtimeHigh, BitVec.toNat_setWidth, BitVec.toNat_ushiftRight, Nat.shiftRight_eq_div_pow]
  have := v.isLt
  omega

/-- Filling the low half with ones only raises the value. -/
theorem le_of_high (C m : BitVec 64) (h : mtimeHigh C ++ 0xFFFFFFFF#32 ≤ m) : C ≤ m := by
  rw [BitVec.le_def, BitVec.toNat_append, toNat_mtimeHigh, ← Nat.shiftLeft_add_eq_or_of_lt (by decide),
    Nat.shiftLeft_eq] at h
  have hones : (0xFFFFFFFF#32).toNat = 2 ^ 32 - 1 := rfl
  rw [BitVec.le_def]
  omega

theorem CmpWrite.le {old new : BitVec 64} {code : Firmware Unit} {cmp m : BitVec 64} (h : CmpWrite old new code cmp)
    (hm : cmp ≤ m) : old ≤ m ∨ new ≤ m := by
  cases h with
  | first => exact .inl hm
  | second => exact .inl (le_of_high old m hm)
  | third => exact .inr (le_of_high new m hm)
  | done => exact .inr hm

theorem CmpWrite.eq_of_ret {old new cmp : BitVec 64} (h : CmpWrite old new (.ret ()) cmp) : cmp = new := by
  cases h
  rfl

section Run

variable (new : BitVec 64) (s₀ : SysTimerState) (inp : Nat → TimerCodeIn)

/-- A call of `timer_write_mtimecmp`, before cycle `t`. -/
def writeRun : Nat → TimerCode Unit :=
  Clocked.run (TimerCode.step fun _ => .ret ()) ⟨Firmware.timerWriteMtimecmp new, s₀⟩ inp

variable {new s₀ inp} {t : Nat}

theorem writeRun_succ (t : Nat) :
    writeRun new s₀ inp (t + 1) = (writeRun new s₀ inp t).step (fun _ => .ret ()) (inp t) := rfl

theorem writeRun_timer (t : Nat) : (writeRun new s₀ inp (t + 1)).timer =
    (writeRun new s₀ inp t).timer.step ((writeRun new s₀ inp t).port (inp t)) := rfl

theorem writeRun_store {addr w : BitVec 32} {k : BitVec 32 → Firmware Unit} (hgo : (inp t).go = true)
    (hcode : (writeRun new s₀ inp t).code = .act (.store addr w) k) (hsel : timerSelected addr = true) :
    (∃ v, (writeRun new s₀ inp (t + 1)).code = k v) ∧
      (writeRun new s₀ inp (t + 1)).timer = (writeRun new s₀ inp t).timer.step ⟨true, addr, true, 0xF, w⟩ := by
  have hacc : (writeRun new s₀ inp t).code.access = some (.store addr w) := by
    rw [hcode]
    rfl
  refine ⟨⟨(writeRun new s₀ inp t).answer (inp t), ?_⟩, ?_⟩
  · rw [writeRun_succ, TimerCode.step_code_of_go _ hgo, hcode]
    rfl
  · rw [writeRun_timer, TimerCode.port_of_access hgo hacc, Access.timerRequest, if_pos hsel]

theorem cmpWrite_succ {old : BitVec 64} (hkeep : ∀ t, KeepsCmp (inp t).other)
    (h : CmpWrite old new (writeRun new s₀ inp t).code (writeRun new s₀ inp t).timer.mtimeCmp) :
    CmpWrite old new (writeRun new s₀ inp (t + 1)).code (writeRun new s₀ inp (t + 1)).timer.mtimeCmp := by
  cases hgo : (inp t).go with
  | false =>
    rw [writeRun_timer, TimerCode.port_of_wait hgo, mtimeCmp_step_of_keeps (hkeep t), writeRun_succ,
      TimerCode.step_code_of_wait _ hgo]
    exact h
  | true =>
    generalize hcode : (writeRun new s₀ inp t).code = code at h
    generalize hcmp : (writeRun new s₀ inp t).timer.mtimeCmp = cmp at h
    cases h with
    | first =>
      obtain ⟨⟨v, hnext⟩, htimer⟩ := writeRun_store hgo hcode (by decide)
      rw [hnext, htimer, mtimeCmp_step_lo, hcmp]
      exact .second
    | second =>
      obtain ⟨⟨v, hnext⟩, htimer⟩ := writeRun_store hgo hcode (by decide)
      rw [hnext, htimer, mtimeCmp_step_hi, hcmp, shift_eq_high, BitVec.setWidth_append_eq_right]
      exact .third
    | third =>
      obtain ⟨⟨v, hnext⟩, htimer⟩ := writeRun_store hgo hcode (by decide)
      rw [hnext, htimer, mtimeCmp_step_lo, hcmp, mtimeHigh,
        BitVec.extractLsb'_append_eq_left, mtimeHigh, hi_append_lo]
      exact .done
    | done =>
      rw [writeRun_timer, TimerCode.port_of_ret hgo hcode, mtimeCmp_step_of_keeps .idle, writeRun_succ,
        TimerCode.step_code_of_go _ hgo, hcode, hcmp]
      exact .done

theorem cmpWrite (hkeep : ∀ t, KeepsCmp (inp t).other) (t : Nat) :
    CmpWrite s₀.mtimeCmp new (writeRun new s₀ inp t).code (writeRun new s₀ inp t).timer.mtimeCmp := by
  induction t with
  | zero => exact .first
  | succ t ih => exact cmpWrite_succ hkeep ih

/-- `timer_write_mtimecmp`, with any delay around its writes and whatever else happens to the timer: an
interrupt on the way is due by the old or the new compare value, and from the last write on it is raised
exactly when it is due by the new one. -/
theorem timer_write_mtimecmp_spec (hkeep : ∀ t, KeepsCmp (inp t).other) :
    (∀ t, (writeRun new s₀ inp t).timer.irqO = true → s₀.mtimeCmp ≤ (writeRun new s₀ inp t).timer.mtime ∨
      new ≤ (writeRun new s₀ inp t).timer.mtime) ∧
    (∀ t, (writeRun new s₀ inp t).code = .ret () → ∀ t' ≥ t, ((writeRun new s₀ inp t').timer.irqO = true ↔
      (writeRun new s₀ inp t').timer.enable = true ∧ (writeRun new s₀ inp t').timer.irqEnable = true ∧
        new ≤ (writeRun new s₀ inp t').timer.mtime)) := by
  have hirq (t : Nat) : (writeRun new s₀ inp t).timer.irqO = true ↔ (writeRun new s₀ inp t).timer.irqEnable = true ∧
      (writeRun new s₀ inp t).timer.enable = true ∧
        (writeRun new s₀ inp t).timer.mtimeCmp ≤ (writeRun new s₀ inp t).timer.mtime := by
    rw [irqO, Bool.and_eq_true, Bool.and_eq_true, decide_eq_true_iff, and_assoc]
  refine ⟨fun t ht => (cmpWrite hkeep t).le ((hirq t).1 ht).2.2, fun t hdone t' htt' => ?_⟩
  have hdone' : (writeRun new s₀ inp t').code = .ret () := by
    induction t', htt' using Nat.le_induction with
    | base => exact hdone
    | succ t' _ ih =>
      rw [writeRun_succ, TimerCode.step, ih]
      exact ite_self _
  have hcmp : CmpWrite s₀.mtimeCmp new (writeRun new s₀ inp t').code (writeRun new s₀ inp t').timer.mtimeCmp :=
    cmpWrite hkeep t'
  rw [hdone'] at hcmp
  rw [hirq, hcmp.eq_of_ret]
  exact and_left_comm

end Run

/-- Counts from 0 with its interrupt enabled. -/
def freshTimer : SysTimerState :=
  ⟨{ ObiRegState.reset timerCfg with
    q := fun r => if r = controlLane then 3 else (ObiRegState.reset timerCfg).q r }⟩

theorem timer_write_mtimecmp_due : (writeRun 2 freshTimer readAlways 3).timer.irqO = true := by
  have hdone : (writeRun 2 freshTimer readAlways 3).code = .ret () := rfl
  have hen : (writeRun 2 freshTimer readAlways 3).timer.enable = true := by decide
  have hirq : (writeRun 2 freshTimer readAlways 3).timer.irqEnable = true := by decide
  have hdue : 2 ≤ (writeRun 2 freshTimer readAlways 3).timer.mtime := by decide
  exact ((timer_write_mtimecmp_spec fun _ => .idle).2 3 hdone 3 (Nat.le_refl 3)).2 ⟨hen, hirq, hdue⟩

end PenPlotter
