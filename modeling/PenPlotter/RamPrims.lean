import PenPlotter.Devices

/-!
# The two RAMs behind `ram_2p` (`prim_generic/rtl/prim_ram_2p.sv`, `rtl/core/mem/prim_altera_ram_2p.sv`)

`altsyncram` is a parameter: `Altsyncram.Follows` is what its parameters promise. A read of a word in the
cycle in which the other port writes it gives any value, and so does a word that both ports write.
-/

namespace PenPlotter

variable {Aw : Nat}

/-- Bit `k` is `&wmask_i[8*k +: 8]`. -/
def maskBits (wmask : BitVec 32) : BitVec 4 :=
  BitVec.ofBool (wmask.extractLsb' 24 8 == 0xFF) ++ BitVec.ofBool (wmask.extractLsb' 16 8 == 0xFF) ++
    BitVec.ofBool (wmask.extractLsb' 8 8 == 0xFF) ++ BitVec.ofBool (wmask.extractLsb' 0 8 == 0xFF)

/-- The word after a write of the bytes that `en` enables. -/
def writeBytes (en : BitVec 4) (data old : BitVec 32) : BitVec 32 :=
  (if en.getLsbD 3 then data.extractLsb' 24 8 else old.extractLsb' 24 8) ++
    (if en.getLsbD 2 then data.extractLsb' 16 8 else old.extractLsb' 16 8) ++
    (if en.getLsbD 1 then data.extractLsb' 8 8 else old.extractLsb' 8 8) ++
    (if en.getLsbD 0 then data.extractLsb' 0 8 else old.extractLsb' 0 8)

structure PrimRam2p (Aw : Nat) where
  mem : BitVec Aw → BitVec 32
  aRdataO : BitVec 32
  bRdataO : BitVec 32

namespace PrimRam2p

/-- The memory after what one port writes. -/
def write (p : RamPortIn Aw) (mem : BitVec Aw → BitVec 32) : BitVec Aw → BitVec 32 :=
  if p.reqI && p.writeI then
    Function.update mem p.addrI (writeBytes (maskBits p.wmaskI) p.wdataI (mem p.addrI))
  else mem

def step (s : PrimRam2p Aw) (a b : RamPortIn Aw) : PrimRam2p Aw where
  mem := write b (write a s.mem)
  aRdataO := if a.reqI && !a.writeI then s.mem a.addrI else s.aRdataO
  bRdataO := if b.reqI && !b.writeI then s.mem b.addrI else s.bRdataO

end PrimRam2p

def primRam2p (Aw : Nat) : RamPrim Aw where
  State := PrimRam2p Aw
  step := PrimRam2p.step
  aRdataO := PrimRam2p.aRdataO
  bRdataO := PrimRam2p.bRdataO

/-! ### `altsyncram` -/

structure AltsyncramPort (Aw : Nat) where
  address : BitVec Aw
  data : BitVec 32
  wren : Bool
  rden : Bool
  byteena : BitVec 4

/-- The inputs are registered and the outputs are not, so `q` follows the port by one cycle. -/
structure Altsyncram (Aw : Nat) where
  State : Type
  step : State → AltsyncramPort Aw → AltsyncramPort Aw → State
  qA : State → BitVec 32
  qB : State → BitVec 32

namespace AltsyncramPort

/-- The port writes the word at `address`. -/
def Writes (p : AltsyncramPort Aw) (address : BitVec Aw) : Prop := p.wren = true ∧ p.address = address

instance (p : AltsyncramPort Aw) (address : BitVec Aw) : Decidable (p.Writes address) :=
  inferInstanceAs (Decidable (_ ∧ _))

def write (p : AltsyncramPort Aw) (mem : BitVec Aw → BitVec 32) : BitVec Aw → BitVec 32 :=
  if p.wren then Function.update mem p.address (writeBytes p.byteena p.data (mem p.address)) else mem

end AltsyncramPort

/-- What the parameters promise of the words that `contents` finds in the memory. -/
structure Altsyncram.Follows (R : Altsyncram Aw) (contents : R.State → BitVec Aw → BitVec 32) : Prop where
  words : ∀ s a b, ¬(a.wren = true ∧ b.Writes a.address) → contents (R.step s a b) = b.write (a.write (contents s))
  qA : ∀ s a b, a.rden = true → ¬b.Writes a.address → R.qA (R.step s a b) = contents s a.address
  qB : ∀ s a b, b.rden = true → ¬a.Writes b.address → R.qB (R.step s a b) = contents s b.address

/-- The wires of one port of `u_impl`. -/
def alteraPort (p : RamPortIn Aw) : AltsyncramPort Aw :=
  ⟨p.addrI, p.wdataI, p.reqI && p.writeI, p.reqI && !p.writeI, maskBits p.wmaskI⟩

def primAlteraRam2p (R : Altsyncram Aw) : RamPrim Aw where
  State := R.State
  step s a b := R.step s (alteraPort a) (alteraPort b)
  aRdataO := R.qA
  bRdataO := R.qB

theorem write_alteraPort (p : RamPortIn Aw) (mem : BitVec Aw → BitVec 32) :
    (alteraPort p).write mem = PrimRam2p.write p mem := rfl

/-- A port reads the word, or what `junk` makes of it if the other port writes it. -/
def AltsyncramPort.read (junk : BitVec 32 → BitVec 32) (p other : AltsyncramPort Aw) (mem : BitVec Aw → BitVec 32)
    (q : BitVec 32) : BitVec 32 :=
  if p.rden then (if other.Writes p.address then junk (mem p.address) else mem p.address) else q

def Altsyncram.dontCare (Aw : Nat) (junk : BitVec 32 → BitVec 32) : Altsyncram Aw where
  State := PrimRam2p Aw
  step s a b := ⟨b.write (a.write s.mem), a.read junk b s.mem s.aRdataO, b.read junk a s.mem s.bRdataO⟩
  qA := PrimRam2p.aRdataO
  qB := PrimRam2p.bRdataO

theorem Altsyncram.dontCare_follows (junk : BitVec 32 → BitVec 32) : (dontCare Aw junk).Follows PrimRam2p.mem where
  words _ _ _ _ := rfl
  qA s a b hr hw := by
    show a.read junk b s.mem s.aRdataO = s.mem a.address
    rw [AltsyncramPort.read, if_pos hr, if_neg hw]
  qB s a b hr hw := by
    show b.read junk a s.mem s.bRdataO = s.mem b.address
    rw [AltsyncramPort.read, if_pos hr, if_neg hw]

theorem not_ne (v : BitVec 32) : ~~~v ≠ v := by
  intro h
  have hbit := congrArg (fun v => v.getLsbD 0) h
  simp at hbit

section

variable {R : Altsyncram Aw} {contents : R.State → BitVec Aw → BitVec 32} (hR : R.Follows contents)
  {g : PrimRam2p Aw} {s : R.State} {a b : RamPortIn Aw}

include hR in
/-- A port B that never writes keeps the words of the two RAMs the same. -/
theorem contents_step (h : contents s = g.mem) (hb : b.writeI = false) :
    contents (R.step s (alteraPort a) (alteraPort b)) = (g.step a b).mem := by
  have hnone : ¬((alteraPort a).wren = true ∧ (alteraPort b).Writes (alteraPort a).address) := by
    rintro ⟨-, hw, -⟩
    have hand : (b.reqI && b.writeI) = true := hw
    rw [hb, Bool.and_false] at hand
    cases hand
  rw [hR.words s _ _ hnone, h, write_alteraPort, write_alteraPort]
  rfl

include hR in
theorem qA_step (h : contents s = g.mem) (hb : b.writeI = false) (hread : (a.reqI && !a.writeI) = true) :
    R.qA (R.step s (alteraPort a) (alteraPort b)) = (g.step a b).aRdataO := by
  have hnone : ¬(alteraPort b).Writes (alteraPort a).address := by
    rintro ⟨hw, -⟩
    have hand : (b.reqI && b.writeI) = true := hw
    rw [hb, Bool.and_false] at hand
    cases hand
  rw [hR.qA s _ _ hread hnone, h]
  exact (if_pos hread).symm

include hR in
theorem qB_step (h : contents s = g.mem) (hread : (b.reqI && !b.writeI) = true)
    (hnone : ¬((a.reqI && a.writeI) = true ∧ a.addrI = b.addrI)) :
    R.qB (R.step s (alteraPort a) (alteraPort b)) = (g.step a b).bRdataO := by
  rw [hR.qB s (alteraPort a) (alteraPort b) hread hnone, h]
  exact (if_pos hread).symm

end

/-- In a conflict the value of `dontCare` is not the one of `prim_ram_2p`. -/
theorem dontCare_ne {junk : BitVec 32 → BitVec 32} (hjunk : ∀ v, junk v ≠ v) {g s : PrimRam2p Aw}
    {a b : RamPortIn Aw} (h : s.mem = g.mem) (hread : (b.reqI && !b.writeI) = true)
    (hwrite : (a.reqI && a.writeI) = true) (haddr : a.addrI = b.addrI) :
    (Altsyncram.dontCare Aw junk).qB ((Altsyncram.dontCare Aw junk).step s (alteraPort a) (alteraPort b)) ≠
      (g.step a b).bRdataO := by
  have hq : (alteraPort b).read junk (alteraPort a) s.mem s.bRdataO = junk (s.mem b.addrI) := by
    have hrd : (alteraPort b).rden = true := hread
    have hwr : (alteraPort a).Writes (alteraPort b).address := ⟨hwrite, haddr⟩
    rw [AltsyncramPort.read, if_pos hrd, if_pos hwr]
    rfl
  have hg : (g.step a b).bRdataO = g.mem b.addrI := if_pos hread
  rw [hg, ← h]
  exact fun heq => hjunk _ (hq.symm.trans heq)

end PenPlotter
