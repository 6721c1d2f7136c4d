import PenPlotter.ObiReg
import Mathlib.Data.Fin.VecNotation
import Mathlib.Tactic.IntervalCases

/-!
# The register file against its reference array (`dv/uvm/obi_reg/obi_reg_scoreboard.svh`)

The scoreboard keeps an array `predicted` and updates each entry by `next_reg` from what the software and the
hardware wrote in the cycle. `predictedStep` is that update, with the software writes named by the word
address instead of the truncated index of the RTL. `ObiRegState.step` refines it.
-/

namespace PenPlotter

/-- `obi_reg_scoreboard.next_reg`. RC falls under `default`. -/
def nextReg (mode : SwAccess) (de we : Bool) (d wd q : BitVec 32) : BitVec 32 :=
  let wr : Bool × BitVec 32 :=
    match mode with
    | .rw | .wo => (we || de, if we then wd else d)
    | .ro => (de, d)
    | .w1s => (we || de, (if de then d else q) ||| (if we then wd else 0))
    | .w1c => (we || de, (if de then d else q) &&& (if we then ~~~wd else BitVec.allOnes 32))
    | .w0c => (we || de, (if de then d else q) &&& (if we then wd else BitVec.allOnes 32))
    | .rc => (de, d)
  if wr.1 then wr.2 else q

namespace ObiIn

variable {n : Nat} (cfg : ObiRegCfg n) (i : ObiIn)

/-- The word of the trimmed address. -/
def word : Nat := i.addrI.toNat % 2 ^ cfg.usedAddrWidth / 4

/-- The request is a full-word write of register `r`. -/
def writes (r : Fin n) : Bool := i.reqI && i.weI && i.beI == 0xF && i.word cfg == r.val

/-- The word is out of range, or a write does not enable all bytes. -/
def faulty : Bool := decide (n ≤ i.word cfg) || (i.weI && i.beI != 0xF)

end ObiIn

variable {n : Nat} {cfg : ObiRegCfg n}

/-- `predicted` after a cycle with `sw_pend` and `hw_pend`. -/
def predictedStep (cfg : ObiRegCfg n) (predicted : Fin n → BitVec 32) (i : ObiRegIn n) :
    Fin n → BitVec 32 := fun r =>
  if i.hwDe r || i.writes cfg r then
    nextReg (cfg.regAccess r) (i.hwDe r) (i.writes cfg r) (i.hwD r) i.wdataI (predicted r)
  else predicted r

/-- Byte `k` of a word. -/
def byteOf (v : BitVec 32) (k : Nat) : BitVec 8 := v.extractLsb' (8 * k) 8

theorem primSubreg_eq_nextReg {access : SwAccess} (hrc : access ≠ .rc) (we de : Bool) (wd d q : BitVec 32) :
    primSubreg access we (if we then wd else 0) de d q = nextReg access de we d wd q := by
  cases access <;> first | exact absurd rfl hrc | (cases we <;> cases de <;> rfl)

theorem nextReg_idle (access : SwAccess) (d wd q : BitVec 32) : nextReg access false false d wd q = q := by
  cases access <;> rfl

theorem le_two_pow_clog2 (n : Nat) : n ≤ 2 ^ (if n > 1 then clog2 n else 1) := by
  split
  next h =>
    rw [clog2, if_neg (Nat.not_le.2 h)]
    have := Nat.lt_log2_self (n := n - 1)
    omega
  next h => omega

theorem ObiIn.regWordIdx_toNat (i : ObiIn) : (i.regWordIdx cfg).toNat = i.word cfg := by
  rw [regWordIdx, trimmedAddr, BitVec.toNat_ushiftRight, BitVec.toNat_setWidth, Nat.shiftRight_eq_div_pow]
  rfl

/-- The truncation to `RegisterCountBits` loses nothing on a word in range. -/
theorem ObiIn.regIdx_eq {i : ObiIn} (h : i.word cfg < n) : i.regIdx cfg = i.word cfg := by
  rw [regIdx, regWordIdx_toNat]
  exact Nat.mod_eq_of_lt (Nat.lt_of_lt_of_le h (le_two_pow_clog2 n))

section

variable (hn : 4 * n ≤ 2 ^ cfg.usedAddrWidth)
include hn

theorem ObiIn.err_eq (i : ObiIn) : i.err cfg = i.faulty cfg := by
  have hlt : n < 2 ^ cfg.usedAddrWidth := by
    have := Nat.two_pow_pos cfg.usedAddrWidth
    omega
  have hle : BitVec.ofNat cfg.usedAddrWidth n ≤ i.regWordIdx cfg ↔ n ≤ i.word cfg := by
    rw [BitVec.le_def, BitVec.toNat_ofNat, Nat.mod_eq_of_lt hlt, regWordIdx_toNat]
  exact congrArg (· || _) (decide_eq_decide.2 hle)

theorem ObiIn.swWe_eq (i : ObiIn) (r : Fin n) : i.swWe cfg r = i.writes cfg r := by
  rw [swWe, err_eq hn, writes, faulty]
  by_cases hword : i.word cfg < n
  · rw [regIdx_eq hword, decide_eq_false (Nat.not_le.2 hword), Bool.false_or]
    rw [bne]
    cases i.reqI <;> cases i.weI <;> cases i.beI == 0xF <;> rfl
  · have hne : (i.word cfg == r.val) = false := beq_false_of_ne (by have := r.isLt; omega)
    rw [hne, decide_eq_true (Nat.not_lt.1 hword), Bool.true_or, Bool.and_false, Bool.not_true, Bool.and_false,
      Bool.false_and]

theorem ObiRegState.step_q_ref (hrc : ∀ r, cfg.regAccess r ≠ .rc) (s : ObiRegState n) (i : ObiRegIn n) :
    (s.step cfg i).q = predictedStep cfg s.q i := by
  funext r
  show primSubreg _ _ _ _ _ _ = _
  rw [ObiIn.swWd, primSubreg_eq_nextReg (hrc r), ObiIn.swWe_eq hn, predictedStep]
  split
  next => rfl
  next h =>
    rw [Bool.not_eq_true, Bool.or_eq_false_iff] at h
    rw [h.1, h.2, nextReg_idle]

end

theorem byteOf_byteMask (be : BitVec 4) {k : Nat} (hk : k < 4) :
    byteOf (byteMask be) k = if be.getLsbD k then 0xFF else 0 := by
  unfold byteMask
  interval_cases k <;>
    cases be.getLsbD 0 <;> cases be.getLsbD 1 <;> cases be.getLsbD 2 <;> cases be.getLsbD 3 <;> decide

theorem byteOf_and_byteMask (v : BitVec 32) (be : BitVec 4) {k : Nat} (hk : k < 4) :
    byteOf (v &&& byteMask be) k = if be.getLsbD k then byteOf v k else 0 := by
  have hand : byteOf (v &&& byteMask be) k = byteOf v k &&& byteOf (byteMask be) k :=
    BitVec.extractLsb'_and ..
  rw [hand, byteOf_byteMask be hk]
  split
  · exact BitVec.and_allOnes
  · exact BitVec.and_zero

theorem ObiRegState.selected_eq {s : ObiRegState n} {i : ObiRegIn n} {r : Fin n} (h : i.word cfg = r.val) :
    s.selected cfg i = s.q r := by
  have hidx : i.regIdx cfg = r.val := by rw [ObiIn.regIdx_eq (by omega), h]
  rw [selected, dif_pos (by omega)]
  exact congrArg s.q (Fin.ext hidx)

/-- What the port owes for the request of a cycle in which the registers hold `q`. -/
structure ObiRegState.Answers (cfg : ObiRegCfg n) (q : Fin n → BitVec 32) (i : ObiIn) (s : ObiRegState n) :
    Prop where
  rvalid : s.rvalidO = i.reqI
  err : i.reqI = true → s.errO = i.faulty cfg
  read : i.reqI = true → i.weI = false → ∀ r : Fin n, i.word cfg = r.val → ∀ k < 4,
    byteOf s.rdataO k = if i.beI.getLsbD k then byteOf (q r) k else 0

theorem ObiRegState.step_answers (hn : 4 * n ≤ 2 ^ cfg.usedAddrWidth) (s : ObiRegState n) (i : ObiRegIn n) :
    (s.step cfg i).Answers cfg s.q i.toObiIn where
  rvalid := rfl
  err hreq := by
    show (i.reqI && _) = _
    rw [hreq, Bool.true_and, ObiIn.err_eq hn]
  read hreq hwe r hr k hk := by
    have hok : i.err cfg = false := by
      rw [ObiIn.err_eq hn, ObiIn.faulty, hwe, hr, decide_eq_false (Nat.not_le.2 r.isLt)]
      rfl
    have hdata : (s.step cfg i).rdataO = s.selected cfg i &&& byteMask i.beI := by
      show (if (i.reqI && _ && _) = true then _ else _) = _
      rw [hreq, hwe, hok]
      rfl
    rw [hdata, byteOf_and_byteMask _ _ hk, selected_eq hr]

/-- A word read returns the addressed register. -/
theorem ObiRegState.rdataO_of_read {s : ObiRegState n} {i : ObiRegIn n} {r : Fin n} (hreq : i.reqI = true)
    (hwe : i.weI = false) (hbe : i.beI = 0xF) (hr : i.word cfg = r.val) (herr : i.err cfg = false) :
    (s.step cfg i).rdataO = s.q r := by
  have hmask : byteMask i.beI = BitVec.allOnes 32 := by
    rw [hbe]
    decide
  show (if (i.reqI && _ && _) = true then _ else _) = _
  rw [hreq, hwe, herr, selected_eq hr, hmask, BitVec.and_allOnes]
  rfl

section

variable (cfg) (inp : Nat → ObiRegIn n)

/-- The register file before cycle `t`. -/
def obiRegRun : Nat → ObiRegState n := Clocked.run (ObiRegState.step cfg) (.reset cfg) inp

/-- The reference array before cycle `t`. -/
def predictedRun : Nat → Fin n → BitVec 32 := Clocked.run (predictedStep cfg) cfg.resValue inp

end

/-- The register file is the reference array: a cycle with a full-word write of register `i` in range updates
it by the software, `hw_de_i` by the hardware, and each request is answered in the next cycle. -/
theorem obiReg_refines (hn : 4 * n ≤ 2 ^ cfg.usedAddrWidth) (hrc : ∀ r, cfg.regAccess r ≠ .rc)
    (inp : Nat → ObiRegIn n) (t : Nat) :
    (obiRegRun cfg inp t).q = predictedRun cfg inp t ∧
      (∀ r, (inp t).swWe cfg r = (inp t).writes cfg r) ∧
      ((inp t).err cfg = true → ∀ r, (inp t).swWe cfg r = false) ∧
      (obiRegRun cfg inp (t + 1)).Answers cfg (predictedRun cfg inp t) (inp t).toObiIn := by
  have hstep (j : Nat) : (obiRegRun cfg inp (j + 1)).q = predictedStep cfg (obiRegRun cfg inp j).q (inp j) :=
    ObiRegState.step_q_ref hn hrc _ _
  have hq : (obiRegRun cfg inp t).q = predictedRun cfg inp t := Clocked.run_map ObiRegState.q inp hstep t
  refine ⟨hq, fun r => ObiIn.swWe_eq hn _ r, fun herr r => ?_, ?_⟩
  · simp [ObiIn.swWe, herr]
  · rw [← hq]
    exact ObiRegState.step_answers hn _ (inp t)

/-- Five registers, one of each mode but WO, behind a port of 5 address bits. -/
def mixedCfg : ObiRegCfg 5 where
  usedAddrWidth := 5
  regAccess := ![.rw, .ro, .w1c, .w1s, .w0c]
  resValue _ := 0xFF

theorem obiReg_refines_mixed : 4 * 5 ≤ 2 ^ mixedCfg.usedAddrWidth ∧ (∀ r, mixedCfg.regAccess r ≠ .rc) ∧
    (obiRegRun mixedCfg (fun _ => ⟨⟨true, 0x128, true, 0xF, 0x0F⟩, fun _ => true, fun _ => 0x3F⟩) 1).q =
      predictedRun mixedCfg (fun _ => ⟨⟨true, 0x128, true, 0xF, 0x0F⟩, fun _ => true, fun _ => 0x3F⟩) 1 :=
  have hn : 4 * 5 ≤ 2 ^ mixedCfg.usedAddrWidth := by decide
  have hrc : ∀ r, mixedCfg.regAccess r ≠ .rc := by decide
  ⟨hn, hrc, (obiReg_refines hn hrc _ 1).1⟩

end PenPlotter
