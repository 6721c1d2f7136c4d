import Mathlib

/-!
# A RISC-V core between two instructions

The part of the base instruction set that assembler start-up code is written in, on a byte-addressed
memory, with the machine-mode state that taking an interrupt saves and `mret` gives back. `fetch` tells
the instruction at an address and the address of the next one, so nothing here depends on the sizes that
an assembler and a linker choose. `saves` and `restores` are the two halves of a register frame: what the
second half reads back is what the first half was given, for every frame that does not wrap around.
-/

namespace Rv32

abbrev Word := BitVec 32

/-- The registers under their names in the calling convention, in the order of their numbers. -/
inductive Reg
  | zero | ra | sp | gp | tp
  | t0 | t1 | t2
  | s0 | s1
  | a0 | a1 | a2 | a3 | a4 | a5 | a6 | a7
  | s2 | s3 | s4 | s5 | s6 | s7 | s8 | s9 | s10 | s11
  | t3 | t4 | t5 | t6
deriving DecidableEq

abbrev Memory := Word → BitVec 8

namespace Memory

def storeWord (m : Memory) (a w : Word) : Memory := fun x =>
  if (x - a).toNat < 4 then w.extractLsb' (8 * (x - a).toNat) 8 else m x

/-- The lowest byte at the lowest address. -/
def loadWord (m : Memory) (a : Word) : Word := m (a + 3) ++ m (a + 2) ++ m (a + 1) ++ m a

variable {m m' : Memory} {a b w : Word}

theorem storeWord_outside {x : Word} (h : 4 ≤ (x - a).toNat) : m.storeWord a w x = m x :=
  if_neg (Nat.not_lt.2 h)

theorem loadWord_congr (h : ∀ x, (x - a).toNat < 4 → m x = m' x) : m.loadWord a = m'.loadWord a := by
  have hbyte (i : Word) (hi : i.toNat < 4) : m (a + i) = m' (a + i) := by
    apply h
    rwa [BitVec.add_comm, BitVec.add_sub_cancel]
  have hzero : m a = m' a := by
    apply h
    simp
  rw [loadWord, loadWord, hbyte 3 (by decide), hbyte 2 (by decide), hbyte 1 (by decide), hzero]

theorem loadWord_storeWord : (m.storeWord a w).loadWord a = w := by
  have hbyte (i : Word) (hi : i.toNat < 4) : m.storeWord a w (a + i) = w.extractLsb' (8 * i.toNat) 8 := by
    have hsub : a + i - a = i := by rw [BitVec.add_comm, BitVec.add_sub_cancel]
    rw [storeWord, hsub, if_pos hi]
  have hzero : m.storeWord a w a = w.extractLsb' 0 8 := by simp [storeWord]
  rw [loadWord, hbyte 3 (by decide), hbyte 2 (by decide), hbyte 1 (by decide), hzero]
  apply BitVec.eq_of_getLsbD_eq
  intro i hi
  simp only [BitVec.getLsbD_append, BitVec.getLsbD_extractLsb']
  grind

end Memory

/-! ### The core -/

/-- The register file, with `zero` always zero. -/
@[ext] structure Regs where
  val : Reg → Word
  zero : val .zero = 0

namespace Regs

def write (x : Regs) (r : Reg) (v : Word) : Regs where
  val := if r = .zero then x.val else Function.update x.val r v
  zero := by
    split
    next => exact x.zero
    next hr => rw [Function.update_of_ne (Ne.symm hr), x.zero]

variable {x : Regs} {r r' : Reg} {v : Word}

@[simp] theorem write_self (hr : r ≠ .zero) : (x.write r v).val r = v := by simp [write, hr]

@[simp] theorem write_zero : x.write .zero v = x := rfl

@[simp] theorem write_val : x.write r (x.val r) = x := by
  ext i
  by_cases hr : r = .zero
  · simp [write, hr]
  · simp [write, hr]

@[simp] theorem write_write {w : Word} : (x.write r v).write r w = x.write r w := by
  ext i
  by_cases hr : r = .zero
  · simp [write, hr]
  · simp [write, hr]

@[simp] theorem write_of_ne (hr : r' ≠ r) : (x.write r v).val r' = x.val r' := by
  unfold write
  split
  next => rfl
  next => exact Function.update_of_ne hr ..

end Regs

structure Core where
  pc : Word
  regs : Regs

structure Machine where
  core : Core
  mem : Memory
  mie : Bool
  mpie : Bool
  mepc : Word

inductive Instr
  | addi (rd rs : Reg) (imm : Word)
  | la (rd : Reg) (a : Word)
  | lw (rd : Reg) (imm : Word) (rs : Reg)
  | sw (rs₂ : Reg) (imm : Word) (rs₁ : Reg)
  | bgeu (rs₁ rs₂ : Reg) (target : Word)
  | jal (rd : Reg) (target : Word)
  | mret
deriving DecidableEq

/-- `next` is the address of the next instruction. -/
def exec (s : Machine) (next : Word) : Instr → Machine
  | .addi rd rs imm => { s with core := ⟨next, s.core.regs.write rd (s.core.regs.val rs + imm)⟩ }
  | .la rd a => { s with core := ⟨next, s.core.regs.write rd a⟩ }
  | .lw rd imm rs => { s with core := ⟨next, s.core.regs.write rd (s.mem.loadWord (s.core.regs.val rs + imm))⟩ }
  | .sw rs₂ imm rs₁ =>
    { s with
      core := ⟨next, s.core.regs⟩
      mem := s.mem.storeWord (s.core.regs.val rs₁ + imm) (s.core.regs.val rs₂) }
  | .bgeu rs₁ rs₂ target =>
    { s with core := ⟨if s.core.regs.val rs₂ ≤ s.core.regs.val rs₁ then target else next, s.core.regs⟩ }
  | .jal rd target => { s with core := ⟨target, s.core.regs.write rd next⟩ }
  | .mret => { s with core := ⟨s.mepc, s.core.regs⟩, mie := s.mpie, mpie := true }

/-- An interrupt of the given cause is taken: interrupts are off, and the vector of the cause runs. -/
def Machine.trap (s : Machine) (mtvec : Word) (cause : Nat) : Machine :=
  { s with
    core := ⟨mtvec + BitVec.ofNat 32 (4 * cause), s.core.regs⟩
    mie := false
    mpie := s.mie
    mepc := s.core.pc }

section Fetch

variable (fetch : Word → Option (Instr × Word))

def step (s : Machine) : Option Machine := (fetch s.core.pc).map fun p => exec s p.2 p.1

def run : Nat → Machine → Option Machine
  | 0, s => some s
  | n + 1, s => (step fetch s).bind (run n)

theorem run_add (m n : Nat) (s : Machine) : run fetch (m + n) s = (run fetch m s).bind (run fetch n) := by
  induction m generalizing s with
  | zero => rw [Nat.zero_add]; rfl
  | succ m ih =>
    rw [Nat.succ_add]
    show (step fetch s).bind (run fetch (m + n)) = ((step fetch s).bind (run fetch m)).bind _
    cases step fetch s with
    | none => rfl
    | some s => exact ih s

/-- The listing lies in memory, its `i`-th instruction at `loc i`. -/
def Placed (loc : Nat → Word) (code : List Instr) : Prop :=
  ∀ i c, code[i]? = some c → fetch (loc i) = some (c, loc (i + 1))

variable {fetch} {loc : Nat → Word} {code : List Instr} {s : Machine}

theorem run_trans {m n : Nat} {s' s'' : Machine} (h : run fetch m s = some s') (h' : run fetch n s' = some s'') :
    run fetch (m + n) s = some s'' := by
  rw [run_add, h]
  exact h'

namespace Placed

/-- A part of a listing. -/
theorem inner (l l' : List Instr) (h : Placed fetch loc (l ++ (code ++ l'))) :
    Placed fetch (fun i => loc (l.length + i)) code := by
  intro i c hc
  apply h
  rw [List.getElem?_append_right (Nat.le_add_right ..), Nat.add_sub_cancel_left,
    List.getElem?_append_left (List.getElem?_eq_some_iff.1 hc).1]
  exact hc

theorem tail {a : Instr} (h : Placed fetch loc (a :: code)) : Placed fetch (fun i => loc (i + 1)) code :=
  fun i c hc => h (i + 1) c hc

/-- The instruction at the program counter is executed. -/
theorem step {i : Nat} {c : Instr} (h : Placed fetch loc code) (hc : code[i]? = some c) (hpc : s.core.pc = loc i) :
    run fetch 1 s = some (exec s (loc (i + 1)) c) := by
  show (Rv32.step fetch s).bind some = _
  rw [Rv32.step, hpc, h i c hc]
  rfl

end Placed

end Fetch

/-- One register after the other from the offset `off` of the stack pointer on. -/
def saves (off : Word) : List Reg → List Instr
  | [] => []
  | r :: l => .sw r off .sp :: saves (off + 4) l

def restores (off : Word) : List Reg → List Instr
  | [] => []
  | r :: l => .lw r off .sp :: restores (off + 4) l

def saveAll (x : Regs) (base : Word) : List Reg → Memory → Memory
  | [], m => m
  | r :: l, m => saveAll x (base + 4) l (m.storeWord base (x.val r))

def restoreAll (m : Memory) (base : Word) : List Reg → Regs → Regs
  | [], x => x
  | r :: l, x => restoreAll m (base + 4) l (x.write r (m.loadWord base))

/-- The frame at `base` has the values of the registers of the list. -/
def HoldsFrame (m : Memory) (x : Regs) (base : Word) : List Reg → Prop
  | [] => True
  | r :: l => m.loadWord base = x.val r ∧ HoldsFrame m x (base + 4) l

@[simp] theorem length_saves (off : Word) (l : List Reg) : (saves off l).length = l.length := by
  induction l generalizing off with
  | nil => rfl
  | cons r l ih => simp [saves, ih]

@[simp] theorem length_restores (off : Word) (l : List Reg) : (restores off l).length = l.length := by
  induction l generalizing off with
  | nil => rfl
  | cons r l ih => simp [restores, ih]

section Frame

variable {fetch : Word → Option (Instr × Word)} {m m' : Memory} {x : Regs} {base : Word} {l : List Reg}

theorem run_saves {off : Word} {loc : Nat → Word} {s : Machine} (h : Placed fetch loc (saves off l))
    (hpc : s.core.pc = loc 0) : run fetch l.length s = some { s with
      core := ⟨loc l.length, s.core.regs⟩
      mem := saveAll s.core.regs (s.core.regs.val .sp + off) l s.mem } := by
  induction l generalizing off loc s with
  | nil =>
    rcases s with ⟨⟨pc, x⟩, m, mie, mpie, mepc⟩
    cases hpc
    rfl
  | cons r l ih =>
    have hone := h.step (i := 0) rfl hpc
    have hrest := ih (s := exec s (loc 1) (.sw r off .sp)) h.tail rfl
    rw [List.length_cons, Nat.add_comm]
    refine (run_trans hone hrest).trans ?_
    simp [exec, saveAll, BitVec.add_assoc, Nat.add_comm]

theorem run_restores {off : Word} {loc : Nat → Word} {s : Machine} (h : Placed fetch loc (restores off l))
    (hsp : .sp ∉ l) (hpc : s.core.pc = loc 0) : run fetch l.length s = some { s with
      core := ⟨loc l.length, restoreAll s.mem (s.core.regs.val .sp + off) l s.core.regs⟩ } := by
  induction l generalizing off loc s with
  | nil =>
    rcases s with ⟨⟨pc, x⟩, m, mie, mpie, mepc⟩
    cases hpc
    rfl
  | cons r l ih =>
    obtain ⟨hr, hl⟩ := List.ne_and_not_mem_of_not_mem_cons hsp
    have hone := h.step (i := 0) rfl hpc
    have hrest := ih (s := exec s (loc 1) (.lw r off .sp)) h.tail hl rfl
    rw [List.length_cons, Nat.add_comm]
    refine (run_trans hone hrest).trans ?_
    simp [exec, restoreAll, hr, BitVec.add_assoc, Nat.add_comm]

theorem saveAll_outside {a : Word} (hwrap : 4 * l.length ≤ (a - base).toNat) : saveAll x base l m a = m a := by
  induction l generalizing base m with
  | nil => rfl
  | cons r l ih =>
    rw [List.length_cons] at hwrap
    rw [saveAll, ih (by bv_omega)]
    exact Memory.storeWord_outside (by omega)

theorem holdsFrame_saveAll (hwrap : 4 * l.length ≤ 2 ^ 32) : HoldsFrame (saveAll x base l m) x base l := by
  induction l generalizing base m with
  | nil => trivial
  | cons r l ih =>
    rw [List.length_cons] at hwrap
    refine ⟨?_, ih (by omega)⟩
    have hfirst : (saveAll x (base + 4) l (m.storeWord base (x.val r))).loadWord base =
        (m.storeWord base (x.val r)).loadWord base := by
      apply Memory.loadWord_congr
      intro a ha
      apply saveAll_outside
      bv_omega
    rw [saveAll, hfirst]
    exact Memory.loadWord_storeWord

theorem HoldsFrame.congr (h : HoldsFrame m x base l) (hwrap : 4 * l.length ≤ 2 ^ 32)
    (hm : ∀ a, (a - base).toNat < 4 * l.length → m a = m' a) : HoldsFrame m' x base l := by
  induction l generalizing base with
  | nil => trivial
  | cons r l ih =>
    rw [List.length_cons] at hwrap hm
    obtain ⟨hfirst, hrest⟩ := h
    refine ⟨?_, ih hrest (by omega) ?_⟩
    · rw [← hfirst]
      symm
      apply Memory.loadWord_congr
      intro a ha
      exact hm a (by omega)
    · intro a ha
      exact hm a (by bv_omega)

/-- What is read back from a frame is what it holds. -/
theorem HoldsFrame.restoreAll {y : Regs} (h : HoldsFrame m x base l) (r : Reg) :
    (restoreAll m base l y).val r = if r ∈ l then x.val r else y.val r := by
  induction l generalizing base y with
  | nil => simp [Rv32.restoreAll]
  | cons q l ih =>
    obtain ⟨hfirst, hrest⟩ := h
    rw [Rv32.restoreAll, ih hrest, hfirst]
    by_cases hr : r ∈ l
    · simp [hr]
    · by_cases hq : r = q
      · subst hq
        by_cases hzero : r = .zero
        · subst hzero
          simp [hr, Regs.zero]
        · simp [hr, hzero]
      · simp [hr, hq]

theorem restoreAll_of_notMem {y : Regs} {r : Reg} (h : r ∉ l) : (restoreAll m base l y).val r = y.val r := by
  induction l generalizing base y with
  | nil => rfl
  | cons q l ih =>
    obtain ⟨hq, hl⟩ := List.ne_and_not_mem_of_not_mem_cons h
    rw [Rv32.restoreAll, ih hl, Regs.write_of_ne hq]

end Frame

end Rv32
