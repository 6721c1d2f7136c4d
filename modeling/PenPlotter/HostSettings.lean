import PenPlotter.HostSender
import PenPlotter.PidSample
import Mathlib.Data.Rat.Cast.Order
import Mathlib.Tactic.IntervalCases
import Mathlib.Tactic.NormNum

/-!
# The settings that the hosts send (`dv/verilator/ppcsender.c`, `dv/verilator/shape.c`)

Each place that sends a setting pairs its location byte with one of the encoders. `shape.c` sends the
derivative rate in Q16.16, so the register holds `65536` times the rate and the sample counter never
matches (`settings_stored_iff`).
-/

namespace PenPlotter

open Firmware Mmio

inductive Setting
  | setPoint (a : Axis)
  | kp | kd | rd

namespace Setting

def loc : Setting → BitVec 8
  | setPoint .x => 0
  | setPoint .y => 1
  | kp => 2
  | kd => 3
  | rd => 4

/-- The registers that hold the setting. -/
def registers : Setting → List (BitVec 32)
  | setPoint .x => [pidXSetPoint]
  | setPoint .y => [pidYSetPoint]
  | kp => [pidXKp, pidYKp]
  | kd => [pidXKd, pidYKd]
  | rd => [pidXRs, pidYRs]

theorem exists_register (t : Setting) : ∃ addr, addr ∈ t.registers := by
  rcases t with (_ | _) | _ | _ | _ <;> exact ⟨_, List.mem_cons_self⟩

/-- The number that a register value stands for. -/
def value : Setting → BitVec 32 → ℚ
  | setPoint _, w => w.toInt
  | kp, w | kd, w => w.toInt / 65536
  | rd, w => w.toNat

end Setting

/-- The places that send a setting, with the word typed or the state of the drawing. -/
inductive Site
  -- `ppcsender.c`
  | set (a : Axis)
  | setKp | setKd | setRd
  | go (a : Axis)
  -- `shape.c`
  | kp | kd | rd
  | start (a : Axis)
  | rectangle (a : Axis)
  | center (a : Axis)
  | circle (a : Axis)
  | home (a : Axis)

namespace Site

def setting : Site → Setting
  | set a | go a | start a | rectangle a | center a | circle a | home a => .setPoint a
  | setKp | kp => .kp
  | setKd | kd => .kd
  | setRd | rd => .rd

/-- The frame sent for `v`. Where an integer is expected, the text or constant has no fraction. -/
def frame (c : Undefined) (s : Site) (v : ℚ) : List (BitVec 8) :=
  match s with
  | set _ | go _ | setRd => sendSetCommandU32 s.setting.loc (atoi c (truncate v))
  | setKp | setKd | kp | kd | rd => sendSetCommandQ16 c s.setting.loc v
  | start _ | rectangle _ | center _ | home _ =>
    sendSetCommandU32 s.setting.loc (BitVec.ofInt 32 (truncate v))
  | circle _ => sendSetCommandU32 s.setting.loc (floatToUint32 c v)

/-- The value arrives: `shape.c` scales the rate, and no C conversion leaves its range. -/
def Ok : Site → BitVec 32 → Prop
  | rd, w => w = 0
  | circle _, w => 0 ≤ w.toInt
  | setRd, w => w.toNat < 2 ^ 31
  | _, _ => True

end Site

section

variable {c : Undefined} {w : BitVec 32}

theorem atoi_toInt : atoi c w.toInt = w := by
  have hlo := BitVec.le_toInt w
  have hhi := BitVec.toInt_lt (x := w)
  rw [atoi, if_pos ⟨hlo, hhi⟩, BitVec.ofInt_toInt]

theorem atoi_toNat (h : w.toNat < 2 ^ 31) : atoi c w.toNat = w := by
  rw [atoi, if_pos ⟨by omega, by exact_mod_cast h⟩]
  simp

theorem floatToInt32_toInt : floatToInt32 c w.toInt = w := by
  rw [floatToInt32_intCast c (BitVec.le_toInt w) BitVec.toInt_lt, BitVec.ofInt_toInt]

/-- The word that the place sends for the value of `w`. -/
def Site.sent (c : Undefined) (s : Site) (w : BitVec 32) : BitVec 32 :=
  match s with
  | .setRd => atoi c w.toNat
  | .rd => floatToInt32 c ((w.toNat : ℤ) * 65536 : ℤ)
  | .circle _ => floatToUint32 c w.toInt
  | _ => w

theorem Site.frame_value (s : Site) :
    s.frame c (s.setting.value w) = (Command.set s.setting.loc (s.sent c w)).encode := by
  have hnat : ((w.toNat : ℤ) : ℚ) = w.toNat := by norm_cast
  cases s <;>
    simp only [frame, setting, Setting.value, sendSetCommandU32, sendSetCommandQ16, sent, ← hnat,
      truncate_intCast, atoi_toInt, BitVec.ofInt_toInt, Int.cast_mul, Int.cast_ofNat,
      div_mul_cancel₀ (w.toInt : ℚ) (by norm_num : (65536 : ℚ) ≠ 0), floatToInt32_toInt]

theorem Site.executed_frame {resp : Access → BitVec 32} {l : Locals} {regs : BitVec 32 → BitVec 32} (s : Site) :
    ∀ addr ∈ s.setting.registers, executed resp l (s.frame c (s.setting.value w)) regs addr = s.sent c w := by
  intro addr haddr
  rw [frame_value, executed_set]
  generalize s.sent c w = v
  generalize s.setting = t at *
  rcases t with (_ | _) | _ | _ | _ <;>
    rcases haddr with _ | ⟨_, _ | ⟨_, ⟨⟩⟩⟩ <;>
    simp [Setting.loc, stores, Function.update, pidXSetPoint, pidYSetPoint]

/-- Every undefined conversion gives `v`. -/
def Undefined.giving (v : BitVec 32) : Undefined := ⟨fun _ => v, fun _ => v, fun _ => v⟩

theorem succ_ne (w : BitVec 32) : w + 1 ≠ w := by
  intro h
  have hnat := congrArg BitVec.toNat h
  have hone : (1 : BitVec 32).toNat = 1 := rfl
  have hlt := w.isLt
  rw [BitVec.toNat_add, hone] at hnat
  omega

theorem sent_rd_of_lt (h : w.toNat < 2 ^ 15) : (Site.rd.sent c w).toNat = w.toNat * 65536 := by
  rw [Site.sent, floatToInt32_intCast c (by omega) (by omega), BitVec.toNat_ofInt]
  omega

/-- The value arrives with every compiler if no conversion is left to it. -/
theorem Site.sent_iff_of {s : Site} {P : Prop} (hdefined : P → ∀ c : Undefined, s.sent c w = w)
    (hother : ¬P → s.sent (.giving (w + 1)) w = w + 1) : (∀ c : Undefined, s.sent c w = w) ↔ P := by
  refine ⟨fun h => ?_, hdefined⟩
  by_contra hP
  have hsent := h (.giving (w + 1))
  rw [hother hP] at hsent
  exact succ_ne w hsent

theorem sent_rd_iff : (∀ c : Undefined, Site.rd.sent c w = w) ↔ w = 0 := by
  rcases Nat.lt_or_ge w.toNat (2 ^ 15) with hlt | hge
  · have hzero : (0 : BitVec 32).toNat = 0 := rfl
    have hsent : ∀ c : Undefined, Site.rd.sent c w = w ↔ w = 0 := by
      intro c
      rw [← BitVec.toNat_inj, sent_rd_of_lt hlt, ← BitVec.toNat_inj, hzero]
      omega
    exact ⟨fun h => (hsent (.giving 0)).1 (h (.giving 0)), fun h c => (hsent c).2 h⟩
  · have hne : w ≠ 0 := by
      rintro rfl
      exact absurd hge (by decide)
    refine Site.sent_iff_of (fun h => absurd h hne) fun _ => ?_
    have hout : ¬(-2 ^ 31 ≤ (w.toNat : ℤ) * 65536 ∧ (w.toNat : ℤ) * 65536 < 2 ^ 31) := by omega
    rw [Site.sent, floatToInt32, truncate_intCast, if_neg hout]
    rfl

theorem sent_setRd_iff : (∀ c : Undefined, Site.setRd.sent c w = w) ↔ w.toNat < 2 ^ 31 := by
  refine Site.sent_iff_of (fun h c => atoi_toNat h) fun hge => ?_
  have hout : ¬(-2 ^ 31 ≤ (w.toNat : ℤ) ∧ (w.toNat : ℤ) < 2 ^ 31) := by omega
  rw [Site.sent, atoi, if_neg hout]
  rfl

theorem sent_circle_iff (a : Axis) : (∀ c : Undefined, (Site.circle a).sent c w = w) ↔ 0 ≤ w.toInt := by
  refine Site.sent_iff_of (fun h c => ?_) fun hneg => ?_
  · have hlt := BitVec.toInt_lt (x := w)
    rw [Site.sent, floatToUint32_intCast c h (by omega), BitVec.ofInt_toInt]
  · have hout : ¬(0 ≤ w.toInt ∧ w.toInt < 2 ^ 32) := by omega
    rw [Site.sent, floatToUint32, truncate_intCast, if_neg hout]
    rfl

theorem Site.sent_iff (s : Site) : (∀ c : Undefined, s.sent c w = w) ↔ s.Ok w := by
  cases s with
  | rd => exact sent_rd_iff
  | setRd => exact sent_setRd_iff
  | circle a => exact sent_circle_iff a
  | _ => exact ⟨fun _ => trivial, fun _ _ => rfl⟩

/-! ### The sample counter -/

/-- The counter of a controller with the rate `rs` in its register can match. -/
def CanSample (rs : BitVec 32) : Prop :=
  ∃ (s : PidController) (i : PidControllerIn), i.sampleRateI = rs.setWidth sampleRateWidth ∧ s.samples i = true

theorem not_samples {s : PidController} {i : PidControllerIn} (h : 26 < i.sampleRateI.toNat) :
    s.samples i = false := by
  have hcounter : (s.counter.setWidth 32).toNat < 2 ^ 26 := by
    rw [BitVec.toNat_setWidth_of_le (by decide)]
    exact s.counter.isLt
  have hbound : 2 ^ 26 ≤ (1#32 <<< i.sampleRateI.toNat - 1).toNat := by
    generalize i.sampleRateI.toNat = n at *
    rcases Nat.lt_or_ge n 32 with hlt | hge
    · interval_cases n <;> decide
    · rw [BitVec.shiftLeft_eq_zero hge]
      decide
  rw [PidController.samples, beq_eq_false_iff_ne]
  intro heq
  rw [heq] at hcounter
  omega

theorem canSample_iff (rs : BitVec 32) : CanSample rs ↔ (rs.setWidth sampleRateWidth).toNat ≤ 26 := by
  constructor
  · rintro ⟨s, i, hrate, hs⟩
    by_contra hlt
    rw [not_samples (by rw [hrate]; omega)] at hs
    cases hs
  · intro hle
    have hlt : 2 ^ (rs.setWidth sampleRateWidth).toNat - 1 < 2 ^ 26 := by
      have := Nat.pow_le_pow_right (n := 2) (by decide) hle
      omega
    refine ⟨⟨0, 0, BitVec.ofNat 26 (2 ^ (rs.setWidth sampleRateWidth).toNat - 1), 0⟩,
      rateIn (rs.setWidth sampleRateWidth), rfl, ?_⟩
    exact (PidController.samples_iff hle).2 (Nat.mod_eq_of_lt hlt)

theorem canSample_sent {s : Site} (hs : s.setting = .rd) (hle : w.toNat ≤ 26) : CanSample (s.sent c w) ↔ s.Ok w := by
  have hwidth : ∀ v : BitVec 32, v.toNat < 2 ^ 26 → (v.setWidth sampleRateWidth).toNat = v.toNat := by
    intro v hv
    exact (BitVec.toNat_setWidth ..).trans (Nat.mod_eq_of_lt hv)
  cases s with
  | rd =>
    have hsent := sent_rd_of_lt (c := c) (w := w) (by omega)
    have hzero : (0 : BitVec 32).toNat = 0 := rfl
    rw [canSample_iff, hwidth _ (by omega), hsent, Site.Ok, ← BitVec.toNat_inj, hzero]
    omega
  | setRd =>
    rw [Site.sent, atoi_toNat (by omega), canSample_iff, hwidth _ (by omega)]
    exact iff_of_true hle (by show w.toNat < 2 ^ 31; omega)
  | _ => cases hs

end

/-- What the places that send a setting store, and which rates let the sample counter match. -/
theorem settings_stored_iff (s : Site) (w : BitVec 32) :
    ((∀ (c : Undefined) (resp : Access → BitVec 32) (l : Locals) (regs : BitVec 32 → BitVec 32),
      ∀ addr ∈ s.setting.registers, executed resp l (s.frame c (s.setting.value w)) regs addr = w) ↔ s.Ok w) ∧
    (s.setting = .rd → w.toNat ≤ 26 →
      ∀ (c : Undefined) (resp : Access → BitVec 32) (l : Locals) (regs : BitVec 32 → BitVec 32),
        ∀ addr ∈ s.setting.registers,
          (CanSample (executed resp l (s.frame c (s.setting.value w)) regs addr) ↔ s.Ok w)) := by
  refine ⟨?_, fun hs hle c resp l regs addr haddr => ?_⟩
  · rw [← s.sent_iff]
    constructor
    · intro h c
      obtain ⟨addr, haddr⟩ := s.setting.exists_register
      rw [← s.executed_frame addr haddr]
      exact h c (fun _ => 0) .initial (fun _ => 0) addr haddr
    · intro h c resp l regs addr haddr
      rw [s.executed_frame addr haddr, h c]
  · rw [s.executed_frame addr haddr]
    exact canSample_sent hs hle

/-- The rate 10 that `shape.c` sends. -/
theorem shape_rate_ten :
    executed (fun _ => 0) .initial (Site.rd.frame (.giving 0) (Setting.rd.value 10)) (fun _ => 0) pidXRs = 655360 ∧
      ¬CanSample 655360 := by
  constructor
  · refine (Site.executed_frame .rd pidXRs List.mem_cons_self).trans ?_
    exact BitVec.eq_of_toNat_eq (sent_rd_of_lt (by decide))
  · rw [canSample_iff]
    decide

end PenPlotter
