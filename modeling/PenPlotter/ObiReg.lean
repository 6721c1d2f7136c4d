import PenPlotter.Clocked
import Mathlib.Data.BitVec
import Mathlib.Data.Fin.Basic

/-!
# The register file of the peripherals (`rtl/common/obi_reg.sv`)

`RegisterCount` slices `prim_subreg`, each with its own access mode, behind one OBI port. The hardware
side of a slice is the pair `hw_de`/`hw_d`.
-/

namespace PenPlotter

/-- `$clog2`. -/
def clog2 (n : Nat) : Nat := if n ≤ 1 then 0 else (n - 1).log2 + 1

/-- `sw_access_e`. -/
inductive SwAccess
  | rw | ro | wo | w1c | w1s | w0c | rc
deriving DecidableEq

/-- `prim_subreg_arb`: the value written if `wr_en`. -/
def primSubregArb (access : SwAccess) (we : Bool) (wd : BitVec 32) (de : Bool) (d q : BitVec 32) :
    Option (BitVec 32) :=
  match access with
  | .rw | .wo => if we || de then some (if we then wd else d) else none
  | .ro => if de then some d else none
  | .w1s => if we || de then some ((if de then d else q) ||| (if we then wd else 0)) else none
  | .w1c =>
    if we || de then some ((if de then d else q) &&& (if we then ~~~wd else BitVec.allOnes 32)) else none
  | .w0c =>
    if we || de then some ((if de then d else q) &&& (if we then wd else BitVec.allOnes 32)) else none
  | .rc => if we || de then some ((if de then d else q) &&& (if we then 0 else BitVec.allOnes 32)) else none

/-- `prim_subreg`. -/
def primSubreg (access : SwAccess) (we : Bool) (wd : BitVec 32) (de : Bool) (d q : BitVec 32) : BitVec 32 :=
  (primSubregArb access we wd de d q).getD q

/-- The parameters; `RegisterCount` is the index. -/
structure ObiRegCfg (RegisterCount : Nat) where
  usedAddrWidth : Nat
  regAccess : Fin RegisterCount → SwAccess
  resValue : Fin RegisterCount → BitVec 32

/-- The request side of an OBI device port. -/
structure ObiIn where
  reqI : Bool
  addrI : BitVec 32
  weI : Bool
  beI : BitVec 4
  wdataI : BitVec 32

/-- No request. -/
def ObiIn.idle : ObiIn := ⟨false, 0, false, 0, 0⟩

structure ObiRegIn (RegisterCount : Nat) extends ObiIn where
  hwDe : Fin RegisterCount → Bool
  hwD : Fin RegisterCount → BitVec 32

structure ObiRegState (RegisterCount : Nat) where
  q : Fin RegisterCount → BitVec 32
  rvalidO : Bool
  rdataO : BitVec 32
  errO : Bool

variable {n : Nat}

namespace ObiIn

variable (cfg : ObiRegCfg n) (i : ObiIn)

def trimmedAddr : BitVec cfg.usedAddrWidth := i.addrI.setWidth cfg.usedAddrWidth

def regWordIdx : BitVec cfg.usedAddrWidth := i.trimmedAddr cfg >>> 2

/-- `RegisterCountBits'(reg_word_idx)`. -/
def regIdx : Nat := (i.regWordIdx cfg).toNat % 2 ^ (if n > 1 then clog2 n else 1)

def err : Bool := BitVec.ofNat cfg.usedAddrWidth n ≤ i.regWordIdx cfg || (i.weI && i.beI != 0xF)

/-- `we[r]`. -/
def swWe (r : Fin n) : Bool := i.reqI && i.weI && !i.err cfg && i.regIdx cfg == r.val

/-- `wd[r]`. -/
def swWd (r : Fin n) : BitVec 32 := if i.swWe cfg r then i.wdataI else 0

/-- `gnt_o`. -/
def gntO : Bool := i.reqI

end ObiIn

/-- The bytes of a word that `be` enables. -/
def byteMask (be : BitVec 4) : BitVec 32 :=
  (if be.getLsbD 3 then 0xFF#8 else 0#8) ++ (if be.getLsbD 2 then 0xFF#8 else 0#8) ++
    (if be.getLsbD 1 then 0xFF#8 else 0#8) ++ (if be.getLsbD 0 then 0xFF#8 else 0#8)

namespace ObiRegState

variable (cfg : ObiRegCfg n) (s : ObiRegState n) (i : ObiRegIn n)

def reset : ObiRegState n := ⟨cfg.resValue, false, 0, false⟩

/-- `q[reg_idx]`. -/
def selected : BitVec 32 :=
  if h : i.regIdx cfg < n then s.q ⟨i.regIdx cfg, h⟩ else 0

def step : ObiRegState n where
  q r := primSubreg (cfg.regAccess r) (i.swWe cfg r) (i.swWd cfg r) (i.hwDe r) (i.hwD r) (s.q r)
  rvalidO := i.reqI
  rdataO := if i.reqI && !i.weI && !i.err cfg then s.selected cfg i &&& byteMask i.beI else 0
  errO := i.reqI && i.err cfg

variable {cfg s i}

/-- A register that only the software writes. -/
theorem step_q_rw {r : Fin n} (hrw : cfg.regAccess r = .rw) (hde : i.hwDe r = false) :
    (s.step cfg i).q r = if i.swWe cfg r then i.wdataI else s.q r := by
  show primSubreg _ _ _ _ _ _ = _
  rw [hrw, hde, ObiIn.swWd]
  cases i.swWe cfg r <;> rfl

/-- The hardware sets the bits of a W1C register, the software clears them, and the software wins. -/
theorem step_q_w1c {r : Fin n} (hw1c : cfg.regAccess r = .w1c) :
    (s.step cfg i).q r =
      (if i.hwDe r then i.hwD r else s.q r) &&& (if i.swWe cfg r then ~~~i.wdataI else BitVec.allOnes 32) := by
  show primSubreg _ _ _ _ _ _ = _
  rw [hw1c, ObiIn.swWd]
  cases i.swWe cfg r <;> cases i.hwDe r <;>
    simp only [primSubreg, primSubregArb, Bool.or_true, Bool.or_false, if_true, if_false,
      Bool.false_eq_true, BitVec.and_allOnes, Option.getD_some, Option.getD_none]

/-- A cycle without a request and without hardware writes changes no register. -/
theorem step_idle (hreq : i.reqI = false) (hde : ∀ r, i.hwDe r = false) :
    s.step cfg i = ⟨s.q, false, 0, false⟩ := by
  have hq (r : Fin n) : (s.step cfg i).q r = s.q r := by
    show primSubreg _ _ _ _ _ _ = _
    rw [hde r, show i.swWe cfg r = false by simp [ObiIn.swWe, hreq]]
    cases cfg.regAccess r <;> rfl
  show ObiRegState.mk (fun r => (s.step cfg i).q r) i.reqI (if i.reqI && _ && _ then _ else 0)
    (i.reqI && _) = _
  rw [hreq, funext hq]
  rfl

theorem swWe_idle {o : ObiIn} (h : o.reqI = false) (r : Fin n) : o.swWe cfg r = false := by
  simp [ObiIn.swWe, h]

end ObiRegState

end PenPlotter
