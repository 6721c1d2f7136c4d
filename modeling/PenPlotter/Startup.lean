import PenPlotter.Preempt
import PenPlotter.Rv32

/-!
# The start-up code and the interrupt entries

The listings of `startup.S`, placed wherever the linker puts them. Both interrupt entries save the
registers that a call may change, call their handler and restore them, so an interrupt gives back the
core it found and changes the memory only where its handler does and below the stack pointer. A program
that is interrupted any number of times therefore runs as it does alone, but for what it shares with the
handlers. `_start` zeroes the words of the bss section on its way to `main`.
-/

namespace PenPlotter

open Rv32

/-- The registers `ra`, `t0` to `t6` and `a0` to `a7`, in the order of the frame. -/
def saved : List Reg := [.ra, .t0, .t1, .t2, .t3, .t4, .t5, .t6, .a0, .a1, .a2, .a3, .a4, .a5, .a6, .a7]

/-- `machine_timer_isr_entry` and `pid_isr_entry`, which differ in the handler. -/
def isrEntry (handler : Word) : List Instr :=
  .addi .sp .sp (-64) :: (saves 0 saved ++ .jal .ra handler :: (restores 0 saved ++ [.addi .sp .sp 64, .mret]))

def vectors (defaultExceptionHandler machineTimerIsrEntry pidIsrEntry start : Word) : List Instr :=
  List.replicate 7 (.jal .zero defaultExceptionHandler) ++ .jal .zero machineTimerIsrEntry ::
    (List.replicate 8 (.jal .zero defaultExceptionHandler) ++ .jal .zero pidIsrEntry ::
      (List.replicate 15 (.jal .zero defaultExceptionHandler) ++ [.jal .zero start]))

/-- `_start`; its labels `1`, `2` and `3` are at the fourth, the eighth and the ninth instruction. -/
def startCode (loc : Nat → Word) (stackStart bssStart bssEnd main : Word) : List Instr :=
  [.la .sp stackStart,
   .la .t0 bssStart,
   .la .t1 bssEnd,
   .bgeu .t0 .t1 (loc 7),
   .sw .zero 0 .t0,
   .addi .t0 .t0 4,
   .jal .zero (loc 3),
   .jal .ra main,
   .jal .zero (loc 8)]

inductive Irq
  | machineTimer
  | pid
deriving DecidableEq

/-- The machine timer is interrupt 7, and `irq_fast_i[0]`, which is the line of the PID controller, 16. -/
def Irq.cause : Irq → Nat
  | .machineTimer => 7
  | .pid => 16

/-- The addresses of a linked program. -/
structure Image where
  vectorsStart : Word
  defaultExceptionHandler : Nat → Word
  isrEntry : Irq → Nat → Word
  start : Nat → Word
  handler : Irq → Word
  main : Word
  stackStart : Word
  bssStart : Word
  bssEnd : Word

/-- The vectors are four bytes each. -/
structure Image.Linked (img : Image) (fetch : Word → Option (Instr × Word)) : Prop where
  vectors : Placed fetch (fun i => img.vectorsStart + BitVec.ofNat 32 (4 * i)) (vectors
    (img.defaultExceptionHandler 0) (img.isrEntry .machineTimer 0) (img.isrEntry .pid 0) (img.start 0))
  defaultExceptionHandler : Placed fetch img.defaultExceptionHandler [.jal .zero (img.defaultExceptionHandler 0)]
  isrEntry : ∀ irq, Placed fetch (img.isrEntry irq) (PenPlotter.isrEntry (img.handler irq))
  start : Placed fetch img.start (startCode img.start img.stackStart img.bssStart img.bssEnd img.main)

example (handler : Word) : isrEntry handler =
    [.addi .sp .sp (-64), .sw .ra 0 .sp, .sw .t0 4 .sp, .sw .t1 8 .sp, .sw .t2 12 .sp, .sw .t3 16 .sp, .sw .t4 20 .sp,
     .sw .t5 24 .sp, .sw .t6 28 .sp, .sw .a0 32 .sp, .sw .a1 36 .sp, .sw .a2 40 .sp, .sw .a3 44 .sp, .sw .a4 48 .sp,
     .sw .a5 52 .sp, .sw .a6 56 .sp, .sw .a7 60 .sp, .jal .ra handler, .lw .ra 0 .sp, .lw .t0 4 .sp, .lw .t1 8 .sp,
     .lw .t2 12 .sp, .lw .t3 16 .sp, .lw .t4 20 .sp, .lw .t5 24 .sp, .lw .t6 28 .sp, .lw .a0 32 .sp, .lw .a1 36 .sp,
     .lw .a2 40 .sp, .lw .a3 44 .sp, .lw .a4 48 .sp, .lw .a5 52 .sp, .lw .a6 56 .sp, .lw .a7 60 .sp, .addi .sp .sp 64,
     .mret] := rfl

theorem placed_of_forall {fetch : Word → Option (Instr × Word)} {loc : Nat → Word} {code : List Instr}
    (h : ∀ i : Fin code.length, fetch (loc i) = some (code.get i, loc (i + 1))) : Placed fetch loc code := by
  intro i c hc
  obtain ⟨hi, rfl⟩ := List.getElem?_eq_some_iff.1 hc
  exact h ⟨i, hi⟩

/-- The listings one after the other from the start of the memory on; an address takes two instructions to load. -/
def demoImage : Image where
  vectorsStart := 0x100000
  defaultExceptionHandler i := 0x100084 + BitVec.ofNat 32 (4 * i)
  isrEntry irq i := (if irq = .machineTimer then 0x100088 else 0x100118) + BitVec.ofNat 32 (4 * i)
  start i := 0x1001a8 + BitVec.ofNat 32 (4 * i + 4 * min i 3)
  handler irq := if irq = .machineTimer then 0x100200 else 0x100240
  main := 0x100280
  stackStart := 0x120000
  bssStart := 0x100800
  bssEnd := 0x100816

def layout (a : Word) : List Instr → List (Word × Instr × Word)
  | [] => []
  | .la rd x :: l => (a, .la rd x, a + 8) :: layout (a + 8) l
  | c :: l => (a, c, a + 4) :: layout (a + 4) l

def demoCode : List (Word × Instr × Word) :=
  layout 0x100000 (vectors 0x100084 0x100088 0x100118 0x1001a8 ++ [.jal .zero 0x100084] ++ isrEntry 0x100200 ++
    isrEntry 0x100240 ++ startCode demoImage.start 0x120000 0x100800 0x100816 0x100280)

def demoFetch (pc : Word) : Option (Instr × Word) := (demoCode.find? fun c => c.1 = pc).map Prod.snd

theorem demo_linked : demoImage.Linked demoFetch where
  vectors := placed_of_forall (by decide +kernel)
  defaultExceptionHandler := placed_of_forall (by decide +kernel)
  isrEntry irq := by
    cases irq
    · exact placed_of_forall (by decide +kernel)
    · exact placed_of_forall (by decide +kernel)
  start := placed_of_forall (by decide +kernel)

/-- In `main`, with interrupts on. -/
def demoMachine : Machine where
  core := ⟨0x100300, (⟨fun _ => 0, rfl⟩ : Regs).write .sp 0x11fff0⟩
  mem _ := 0
  mie := true
  mpie := true
  mepc := 0

/-! ### Interrupts -/

/-- The registers that the calling convention has a function keep: `sp`, `gp`, `tp` and `s0` to `s11`. -/
def calleeSaved : List Reg := [.sp, .gp, .tp, .s0, .s1, .s2, .s3, .s4, .s5, .s6, .s7, .s8, .s9, .s10, .s11]

theorem saved_or_calleeSaved (r : Reg) : r = .zero ∨ r ∈ saved ∨ r ∈ calleeSaved := by
  cases r <;> decide

/-- A call that obeys the calling convention, writes what is shared with it and the stack from `lo` up to the stack
pointer it is given, and leaves the machine-mode registers alone. -/
structure Obeys (shared : Set Word) (lo : Word) (a b : Machine) : Prop where
  pc : b.core.pc = a.core.regs.val .ra
  regs : ∀ r ∈ calleeSaved, b.core.regs.val r = a.core.regs.val r
  mie : b.mie = a.mie
  mpie : b.mpie = a.mpie
  mepc : b.mepc = a.mepc
  mem : ∀ x ∉ shared, x < lo ∨ a.core.regs.val .sp ≤ x → b.mem x = a.mem x

/-- An interrupted program finds its core and, but for what is shared and free stack, its memory. -/
structure Resumed (shared : Set Word) (lo : Word) (s s' : Machine) : Prop where
  core : s'.core = s.core
  mie : s'.mie = s.mie
  mem : ∀ x ∉ shared, x < lo ∨ s.core.regs.val .sp ≤ x → s'.mem x = s.mem x

theorem sp_ne_zero : Reg.sp ≠ .zero := by decide

section

variable {fetch : Word → Option (Instr × Word)} {img : Image} {irq : Irq} {s b : Machine}
  {shared : Set Word} {lo : Word}

theorem vectors_cause (d t p x : Word) :
    (vectors d t p x)[irq.cause]? = some (.jal .zero (if irq = .machineTimer then t else p)) := by
  cases irq <;> rfl

/-- The frame of an entry. -/
abbrev frameBase (x : Regs) : Word := x.val .sp - 64

/-- What an entry hands to its handler. -/
def entered (img : Image) (irq : Irq) (s : Machine) : Machine where
  core := ⟨img.handler irq, (s.core.regs.write .sp (frameBase s.core.regs)).write .ra (img.isrEntry irq 18)⟩
  mem := saveAll (s.core.regs.write .sp (frameBase s.core.regs)) (frameBase s.core.regs) saved s.mem
  mie := false
  mpie := s.mie
  mepc := s.core.pc

theorem entered_sp : (entered img irq s).core.regs.val .sp = frameBase s.core.regs := rfl

theorem run_entry (hl : img.Linked fetch) :
    run fetch 19 (s.trap img.vectorsStart irq.cause) = some (entered img irq s) := by
  have hisr : (if irq = .machineTimer then img.isrEntry .machineTimer 0 else img.isrEntry .pid 0) =
      img.isrEntry irq 0 := by
    cases irq <;> rfl
  have hvector := hl.vectors.step (s := s.trap img.vectorsStart irq.cause) (vectors_cause ..) rfl
  rw [hisr] at hvector
  have haddi := run_trans hvector ((hl.isrEntry irq).step (i := 0) rfl rfl)
  have hplaced : Placed fetch (fun i => img.isrEntry irq (1 + i)) (saves 0 saved) :=
    (hl.isrEntry irq).inner [.addi .sp .sp (-64)] (.jal .ra (img.handler irq) :: (restores 0 saved ++ _))
  have hsaves := run_trans haddi (run_saves hplaced rfl)
  refine (run_trans hsaves ((hl.isrEntry irq).step (i := 17) rfl rfl)).trans ?_
  simp [exec, entered, Machine.trap, BitVec.sub_eq_add_neg, frameBase]

theorem run_exit (hl : img.Linked fetch) (hpc : b.core.pc = img.isrEntry irq 18) : run fetch 18 b = some { b with
    core := ⟨b.mepc,
      (restoreAll b.mem (b.core.regs.val .sp) saved b.core.regs).write .sp (b.core.regs.val .sp + 64)⟩
    mie := b.mpie
    mpie := true } := by
  have hplaced : Placed fetch (fun i => img.isrEntry irq (18 + i)) (restores 0 saved) :=
    (hl.isrEntry irq).inner (.addi .sp .sp (-64) :: (saves 0 saved ++ [.jal .ra (img.handler irq)]))
      [.addi .sp .sp 64, .mret]
  have hrestores := run_trans (run_restores hplaced (by decide) hpc)
    ((hl.isrEntry irq).step (i := 34) rfl rfl)
  refine (run_trans hrestores ((hl.isrEntry irq).step (i := 35) rfl rfl)).trans ?_
  have hkept : (restoreAll b.mem (b.core.regs.val .sp) saved b.core.regs).val .sp = b.core.regs.val .sp :=
    restoreAll_of_notMem (by decide)
  simp [exec, hkept]

section

variable (hroom : lo.toNat + 64 ≤ (s.core.regs.val .sp).toNat)
  (hshared : ∀ x ∈ shared, x < lo ∨ s.core.regs.val .sp ≤ x)
  (hb : Obeys shared lo (entered img irq s) b)
include hroom hb

theorem Obeys.keeps_memory {x : Word} (hx : x ∉ shared) (hlive : x < lo ∨ s.core.regs.val .sp ≤ x) :
    b.mem x = s.mem x := by
  have hhandler : b.mem x = (entered img irq s).mem x := by
    apply hb.mem x hx
    rw [entered_sp]
    bv_omega
  rw [hhandler]
  apply saveAll_outside
  show 64 ≤ _
  bv_omega

include hshared in
/-- The handler leaves the frame alone. -/
theorem Obeys.holds :
    HoldsFrame b.mem (s.core.regs.write .sp (frameBase s.core.regs)) (frameBase s.core.regs) saved := by
  refine HoldsFrame.congr (holdsFrame_saveAll (m := s.mem) (by decide)) (by decide) ?_
  intro x hx
  replace hx : (x - frameBase s.core.regs).toNat < 64 := hx
  symm
  refine hb.mem x ?_ ?_
  · intro hin
    have := hshared x hin
    bv_omega
  · rw [entered_sp]
    bv_omega

include hshared in
theorem Obeys.restored (r : Reg) :
    ((restoreAll b.mem (b.core.regs.val .sp) saved b.core.regs).write .sp (b.core.regs.val .sp + 64)).val r =
      s.core.regs.val r := by
  have hsp : b.core.regs.val .sp = frameBase s.core.regs := hb.regs .sp (by decide)
  rw [hsp]
  rcases eq_or_ne r .sp with rfl | hr
  · rw [Regs.write_self sp_ne_zero, BitVec.sub_add_cancel]
  rw [Regs.write_of_ne hr, (hb.holds hroom hshared).restoreAll, Regs.write_of_ne hr]
  split
  next => rfl
  next hsaved =>
    rcases saved_or_calleeSaved r with rfl | hmem | hcallee
    · rw [Regs.zero, Regs.zero]
    · exact absurd hmem hsaved
    · have hra : r ≠ .ra := by
        rintro rfl
        exact absurd hsaved (by decide)
      rw [hb.regs r hcallee, entered, Regs.write_of_ne hra, Regs.write_of_ne hr]

end

theorem resumes (hl : img.Linked fetch) (hroom : lo.toNat + 64 ≤ (s.core.regs.val .sp).toNat)
    (hshared : ∀ x ∈ shared, x < lo ∨ s.core.regs.val .sp ≤ x) (hb : Obeys shared lo (entered img irq s) b) :
    ∃ s', run fetch 18 b = some s' ∧ Resumed shared lo s s' := by
  refine ⟨_, run_exit hl hb.pc, ?_, hb.mpie, fun x hx hlive => hb.keeps_memory hroom hx hlive⟩
  rcases s with ⟨⟨pc, x⟩, m, mie, mpie, mepc⟩
  exact congrArg₂ Core.mk hb.mepc (Regs.ext (funext fun r => hb.restored hroom hshared r))

/-- An interrupt runs its handler with interrupts off, and whatever the handler does as a call, the interrupted
program goes on with the core it had. -/
theorem isr_transparent (hl : img.Linked fetch) (irq : Irq) (s : Machine) (shared : Set Word) (lo : Word)
    (hroom : lo.toNat + 64 ≤ (s.core.regs.val .sp).toNat) (hshared : ∀ x ∈ shared, x < lo ∨ s.core.regs.val .sp ≤ x) :
    ∃ a, run fetch 19 (s.trap img.vectorsStart irq.cause) = some a ∧ a.core.pc = img.handler irq ∧ a.mie = false ∧
      ∀ b, Obeys shared lo a b → ∃ s', run fetch 18 b = some s' ∧ Resumed shared lo s s' := by
  refine ⟨entered img irq s, run_entry hl, rfl, rfl, ?_⟩
  intro b hb
  exact resumes hl hroom hshared hb

theorem demo_interruptible {x : Word} (hx : x ∈ ({0x100900} : Set Word)) :
    x < 0x11e000 ∨ demoMachine.core.regs.val .sp ≤ x := by
  rcases hx with rfl
  left
  decide

theorem isr_transparent_demo :
    ∃ a, run demoFetch 19 (demoMachine.trap 0x100000 16) = some a ∧ a.core.pc = 0x100240 ∧ a.mie = false ∧
      ∀ b, Obeys {0x100900} 0x11e000 a b →
        ∃ s', run demoFetch 18 b = some s' ∧ Resumed {0x100900} 0x11e000 demoMachine s' :=
  isr_transparent demo_linked .pid demoMachine {0x100900} 0x11e000 (by decide) fun _ => demo_interruptible

end

open Preempt

/-- An interrupt, from where it is taken to where the program goes on. -/
def Image.Serviced (img : Image) (fetch : Word → Option (Instr × Word)) (handles : Irq → Machine → Machine → Prop)
    (irq : Irq) (s s' : Machine) : Prop :=
  ∃ a b, run fetch 19 (s.trap img.vectorsStart irq.cause) = some a ∧ handles irq a b ∧ run fetch 18 b = some s'

/-- A program on the machine, with the states of the core after its own steps. -/
inductive SystemRun (img : Image) (fetch : Word → Option (Instr × Word)) (handles : Irq → Machine → Machine → Prop)
    (prog : Core → Act Core Word (BitVec 8)) (s₀ : Machine) : List Core → Machine → Prop
  | start : SystemRun img fetch handles prog s₀ [] s₀
  | step {cs : List Core} {s : Machine} {c : Core} {m : Memory} (h : SystemRun img fetch handles prog s₀ cs s)
      (hs : Step prog s.core s.mem c m) :
    SystemRun img fetch handles prog s₀ (cs ++ [c]) { s with core := c, mem := m }
  | interrupt {cs : List Core} {s s' : Machine} (irq : Irq) (h : SystemRun img fetch handles prog s₀ cs s)
      (hmie : s.mie = true) (hs : img.Serviced fetch handles irq s s') : SystemRun img fetch handles prog s₀ cs s'

/-- What lies below the stack pointer is free. -/
def liveMemory (lo : Word) (c : Core) : Set Word := {x | x < lo ∨ c.regs.val .sp ≤ x}

/-- There is room for the frame of an entry, and the stack is not shared. -/
def Interruptible (shared : Set Word) (lo : Word) (c : Core) : Prop :=
  lo.toNat + 64 ≤ (c.regs.val .sp).toNat ∧ shared ⊆ liveMemory lo c

def aloneFrom (lo : Word) (s : Machine) : Alone Core Word (BitVec 8) := ⟨s.core, s.mem, liveMemory lo s.core⟩

section

variable {fetch : Word → Option (Instr × Word)} {img : Image} {handles : Irq → Machine → Machine → Prop}
  {prog : Core → Act Core Word (BitVec 8)} {shared : Set Word} {lo : Word} {s₀ s s' : Machine} {cs : List Core}
  (hl : img.Linked fetch) (hhandles : ∀ irq a b, handles irq a b → Obeys shared lo a b)
include hl hhandles

theorem Image.Serviced.resumed {irq : Irq} (h : img.Serviced fetch handles irq s s')
    (hsafe : Interruptible shared lo s.core) : Resumed shared lo s s' := by
  obtain ⟨a, b, ha, hb, hs'⟩ := h
  obtain rfl := Option.some.inj (ha.symm.trans (run_entry hl))
  obtain ⟨s'', hs'', hresumed⟩ := resumes hl hsafe.1 hsafe.2 (hhandles irq _ b hb)
  obtain rfl := Option.some.inj (hs'.symm.trans hs'')
  exact hresumed

theorem SystemRun.preempted (h : SystemRun img fetch handles prog s₀ cs s) :
    Preempted prog shared (liveMemory lo) (Interruptible shared lo) s₀.core s₀.mem cs s.core s.mem := by
  induction h with
  | start => exact .start
  | step _ hs ih => exact .step ih hs
  | interrupt irq _ _ hs ih =>
    refine .interrupt ih ?_
    intro hsafe
    obtain ⟨hcore, -, hmem⟩ := hs.resumed hl hhandles hsafe
    exact ⟨hcore, fun x hx hshared => hmem x hshared hx⟩

/-- However often and wherever a program is interrupted, its core goes through states that it goes through alone, with
a memory that differs only in what is shared or not its own, if alone it reads only what it owns or shares and keeps
room on its stack. -/
theorem interrupts_only_share (s₀ : Machine)
    (hdisc : Disciplined prog shared (liveMemory lo) (Interruptible shared lo) (aloneFrom lo s₀))
    (h : SystemRun img fetch handles prog s₀ cs s) :
    ∃ u, AloneRun prog shared (liveMemory lo) (aloneFrom lo s₀) cs u ∧ u.core = s.core ∧
      ∀ x ∈ u.own, x ∉ shared → u.mem x = s.mem x := by
  have hstart : Agrees shared (liveMemory lo) (aloneFrom lo s₀) s₀.core s₀.mem :=
    ⟨rfl, fun _ _ _ => rfl, fun _ hx => hx⟩
  obtain ⟨u, hrun, hagrees⟩ := alone_of_preempted hstart hdisc (h.preempted hl hhandles)
  exact ⟨u, hrun, hagrees.core, hagrees.mem⟩

end

/-- A handler that sets a flag. -/
def demoHandles (_ : Irq) (a b : Machine) : Prop :=
  b = { a with core := ⟨a.core.regs.val .ra, a.core.regs⟩, mem := Function.update a.mem 0x100900 1 }

/-- A loop that waits for the flag. -/
def demoProg (c : Core) : Act Core Word (BitVec 8) :=
  .load [0x100900] fun vs => ⟨if vs = [0] then c.pc else c.pc + 4, c.regs⟩

theorem demoHandles_obeys (irq : Irq) (a b : Machine) (h : demoHandles irq a b) : Obeys {0x100900} 0x11e000 a b := by
  obtain rfl := h
  exact ⟨rfl, fun _ _ => rfl, rfl, rfl, rfl, fun x hx _ => Function.update_of_ne hx ..⟩

theorem demoProg_regs {cs : List Core} {u : Alone Core Word (BitVec 8)}
    (h : AloneRun demoProg {0x100900} (liveMemory 0x11e000) (aloneFrom 0x11e000 demoMachine) cs u) :
    u.core.regs = demoMachine.core.regs := by
  induction h with
  | start => rfl
  | step _ hs ih =>
    cases hs with
    | next hp => cases hp
    | load _ hp => cases hp; exact ih
    | store hp => cases hp

theorem demoProg_disciplined : Disciplined demoProg {0x100900} (liveMemory 0x11e000)
    (Interruptible {0x100900} 0x11e000) (aloneFrom 0x11e000 demoMachine) where
  reads := by
    intro cs u _ as k hp a ha
    cases hp
    exact .inl (List.mem_singleton.1 ha)
  safe := by
    intro cs u h
    unfold Interruptible liveMemory
    rw [demoProg_regs h]
    exact ⟨by decide, fun _ => demo_interruptible⟩

theorem demo_serviced : ∃ s', demoImage.Serviced demoFetch demoHandles .machineTimer demoMachine s' ∧
    s'.core = demoMachine.core ∧ s'.mem 0x100900 = 1 := by
  have hserviced : demoImage.Serviced demoFetch demoHandles .machineTimer demoMachine _ :=
    ⟨_, _, run_entry demo_linked, rfl, run_exit demo_linked rfl⟩
  have hresumed := hserviced.resumed demo_linked demoHandles_obeys (demoProg_disciplined.safe [] _ .start)
  have hflag : Function.update (entered demoImage .machineTimer demoMachine).mem (0x100900 : Word) 1 0x100900 = 1 :=
    Function.update_self ..
  exact ⟨_, hserviced, hresumed.core, hflag⟩

theorem demoProg_step (c : Core) (m : Memory) :
    Step demoProg c m ⟨if m 0x100900 = 0 then c.pc else c.pc + 4, c.regs⟩ m := by
  have hload : demoProg c = .load [0x100900] fun vs => ⟨if vs = [0] then c.pc else c.pc + 4, c.regs⟩ := rfl
  simpa using Step.load (m := m) hload

/-- One turn of the loop, the timer, and the turn that sees the flag. -/
theorem demo_run : ∃ s, SystemRun demoImage demoFetch demoHandles demoProg demoMachine
    [⟨0x100300, demoMachine.core.regs⟩, ⟨0x100304, demoMachine.core.regs⟩] s := by
  obtain ⟨s', hserviced, hcore, hflag⟩ := demo_serviced
  have hfirst : Step demoProg demoMachine.core demoMachine.mem ⟨0x100300, demoMachine.core.regs⟩ demoMachine.mem :=
    demoProg_step ..
  have hsecond : Step demoProg s'.core s'.mem ⟨0x100304, demoMachine.core.regs⟩ s'.mem := by
    have hstep := demoProg_step s'.core s'.mem
    rw [hflag, if_neg (by decide), hcore] at hstep
    rw [hcore]
    exact hstep
  have hrun : SystemRun demoImage demoFetch demoHandles demoProg demoMachine [⟨0x100300, demoMachine.core.regs⟩]
      demoMachine := SystemRun.start.step hfirst
  have hinterrupted := hrun.interrupt .machineTimer rfl hserviced
  exact ⟨_, hinterrupted.step hsecond⟩

theorem interrupts_only_share_demo : ∃ s u,
    AloneRun demoProg {0x100900} (liveMemory 0x11e000) (aloneFrom 0x11e000 demoMachine)
      [⟨0x100300, demoMachine.core.regs⟩, ⟨0x100304, demoMachine.core.regs⟩] u ∧ u.core = s.core ∧
      ∀ x ∈ u.own, x ∉ ({0x100900} : Set Word) → u.mem x = (s : Machine).mem x := by
  obtain ⟨s, h⟩ := demo_run
  exact ⟨s, interrupts_only_share demo_linked demoHandles_obeys demoMachine demoProg_disciplined h⟩

/-! ### `_start` -/

/-- The words that the loop over the bss section writes. -/
def bssWords (bssStart bssEnd : Word) : Nat := (bssEnd.toNat - bssStart.toNat + 3) / 4

def zeroed (m : Memory) (a : Word) (n : Nat) : Memory := fun x => if (x - a).toNat < 4 * n then 0 else m x

@[simp] theorem zeroed_zero {m : Memory} {a : Word} : zeroed m a 0 = m := by
  funext x
  simp [zeroed]

theorem zeroed_succ {m : Memory} {a : Word} {n : Nat} (h : 4 * (n + 1) ≤ 2 ^ 32) :
    zeroed (m.storeWord a 0) (a + 4) n = zeroed m a (n + 1) := by
  funext x
  unfold zeroed Memory.storeWord
  by_cases hword : (x - a).toNat < 4
  · have hfar : ¬(x - (a + 4)).toNat < 4 * n := by bv_omega
    rw [if_neg hfar, if_pos hword, if_pos (by omega)]
    simp
  · have hsame : (x - (a + 4)).toNat < 4 * n ↔ (x - a).toNat < 4 * (n + 1) := by bv_omega
    rw [if_neg hword]
    simp only [hsame]

section

variable {fetch : Word → Option (Instr × Word)} {img : Image} (hl : img.Linked fetch)
include hl

/-- The loop, from its first label to its second. -/
theorem run_bss_loop {n : Nat} {s : Machine} (hpc : s.core.pc = img.start 3)
    (hn : bssWords (s.core.regs.val .t0) (s.core.regs.val .t1) = n)
    (hend : (s.core.regs.val .t1).toNat + 3 < 2 ^ 32) :
    run fetch (4 * n + 1) s = some { s with
      core := ⟨img.start 7, s.core.regs.write .t0 (s.core.regs.val .t0 + BitVec.ofNat 32 (4 * n))⟩
      mem := zeroed s.mem (s.core.regs.val .t0) n } := by
  induction n generalizing s with
  | zero =>
    refine (hl.start.step (i := 3) rfl hpc).trans ?_
    have hle : s.core.regs.val .t1 ≤ s.core.regs.val .t0 := by
      unfold bssWords at hn
      bv_omega
    simp [exec, hle]
  | succ n ih =>
    have hlt : ¬s.core.regs.val .t1 ≤ s.core.regs.val .t0 := by
      unfold bssWords at hn
      bv_omega
    have hbranch := hl.start.step (i := 3) rfl hpc
    have hstore := run_trans hbranch (hl.start.step (i := 4) rfl (if_neg hlt))
    have hadd := run_trans hstore (hl.start.step (i := 5) rfl rfl)
    have hbody : run fetch 4 s = some { s with
        core := ⟨img.start 3, s.core.regs.write .t0 (s.core.regs.val .t0 + 4)⟩
        mem := s.mem.storeWord (s.core.regs.val .t0) 0 } := by
      refine (run_trans hadd (hl.start.step (i := 6) rfl rfl)).trans ?_
      simp [exec, Regs.zero]
    have ht0 : (s.core.regs.write .t0 (s.core.regs.val .t0 + 4)).val .t0 = s.core.regs.val .t0 + 4 :=
      Regs.write_self (by decide)
    have ht1 : (s.core.regs.write .t0 (s.core.regs.val .t0 + 4)).val .t1 = s.core.regs.val .t1 :=
      Regs.write_of_ne (by decide)
    have hrest := ih (s := { s with
        core := ⟨img.start 3, s.core.regs.write .t0 (s.core.regs.val .t0 + 4)⟩
        mem := s.mem.storeWord (s.core.regs.val .t0) 0 }) rfl
      (by
        show bssWords ((s.core.regs.write .t0 _).val .t0) ((s.core.regs.write .t0 _).val .t1) = n
        rw [ht0, ht1]
        unfold bssWords at hn ⊢
        bv_omega)
      (by rwa [ht1])
    have hsteps : 4 * (n + 1) + 1 = 4 + (4 * n + 1) := by omega
    have hnext : s.core.regs.val .t0 + 4 + BitVec.ofNat 32 (4 * n) =
        s.core.regs.val .t0 + BitVec.ofNat 32 (4 * (n + 1)) := by
      bv_omega
    have hsize : 4 * (n + 1) ≤ 2 ^ 32 := by
      unfold bssWords at hn
      omega
    rw [hsteps]
    refine (run_trans hbody hrest).trans ?_
    simp only [ht0, Regs.write_write, hnext, zeroed_succ hsize]

/-- The loop that `main` returns to. -/
theorem run_stuck {u : Machine} (hpc : u.core.pc = img.start 8) (k : Nat) : run fetch k u = some u := by
  induction k with
  | zero => rfl
  | succ k ih =>
    have hstep : run fetch 1 u = some u := by
      refine (hl.start.step (i := 8) rfl hpc).trans ?_
      rcases u with ⟨⟨pc, x⟩, m, mie, mpie, mepc⟩
      cases hpc
      rfl
    rw [Nat.add_comm]
    exact run_trans hstep ih

/-- After reset the core reaches `main` with the stack pointer set and the bss section zeroed, the bytes that its last
word has beyond the end as well, and nothing else written; if `main` returns, the core stays where it is. -/
theorem start_zeroes_bss (s : Machine) (hpc : s.core.pc = img.vectorsStart + 0x80)
    (hend : img.bssEnd.toNat + 3 < 2 ^ 32) :
    ∃ n s', run fetch n s = some s' ∧ s'.core.pc = img.main ∧ s'.core.regs.val .sp = img.stackStart ∧
      (∀ x, s'.mem x = if (x - img.bssStart).toNat < 4 * bssWords img.bssStart img.bssEnd then 0 else s.mem x) ∧
      (∀ r, r ≠ .ra → r ≠ .sp → r ≠ .t0 → r ≠ .t1 → s'.core.regs.val r = s.core.regs.val r) ∧
      ∀ u, u.core.pc = s'.core.regs.val .ra → ∀ k, run fetch k u = some u := by
  obtain ⟨x, hx⟩ : ∃ x, x = ((s.core.regs.write .sp img.stackStart).write .t0 img.bssStart).write .t1 img.bssEnd :=
    ⟨_, rfl⟩
  have hlas : run fetch 4 s = some { s with core := ⟨img.start 3, x⟩ } := by
    have hvector := hl.vectors.step (i := 32) rfl hpc
    have hsp := run_trans hvector (hl.start.step (i := 0) rfl rfl)
    have hbss := run_trans hsp (hl.start.step (i := 1) rfl rfl)
    rw [hx]
    exact run_trans hbss (hl.start.step (i := 2) rfl rfl)
  have ht1 : x.val .t1 = img.bssEnd := by rw [hx, Regs.write_self (by decide)]
  have ht0 : x.val .t0 = img.bssStart := by rw [hx, Regs.write_of_ne (by decide), Regs.write_self (by decide)]
  have hloop := run_trans hlas (run_bss_loop hl rfl rfl (by rwa [ht1]))
  refine ⟨_, _, run_trans hloop (hl.start.step (i := 7) rfl rfl), rfl, ?_, ?_, ?_, ?_⟩
  · simp [exec, hx]
  · intro a
    show zeroed s.mem (x.val .t0) (bssWords (x.val .t0) (x.val .t1)) a = _
    rw [ht0, ht1]
    rfl
  · intro r hra hrsp hr0 hr1
    simp [exec, hx, hra, hrsp, hr0, hr1]
  · intro u hu k
    apply run_stuck hl
    rw [hu]
    exact Regs.write_self (by decide)

end

theorem start_zeroes_bss_demo :
    ∃ n s', run demoFetch n { demoMachine with core := ⟨0x100080, demoMachine.core.regs⟩, mem := fun _ => 0xA5 } =
        some s' ∧
      s'.core.pc = 0x100280 ∧ s'.core.regs.val .sp = 0x120000 ∧
      (∀ x, s'.mem x = if (x - 0x100800).toNat < 4 * bssWords 0x100800 0x100816 then 0 else 0xA5) ∧
      (∀ r, r ≠ .ra → r ≠ .sp → r ≠ .t0 → r ≠ .t1 → s'.core.regs.val r = demoMachine.core.regs.val r) ∧
      ∀ u, u.core.pc = s'.core.regs.val .ra → ∀ k, run demoFetch k u = some u :=
  start_zeroes_bss demo_linked _ rfl (by decide)

end PenPlotter
