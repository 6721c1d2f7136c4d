import PenPlotter.PidMotors
import PenPlotter.PpSystem
import PenPlotter.QuadInjector
import PenPlotter.SimDecoder
import PenPlotter.SimInjector
import PenPlotter.SimPwm
import Mathlib.Data.Rat.Floor

/-!
# The simulated plotter (`dv/verilator/sim_pp_system.hpp`)

`PPSystem::tick` runs the simulated peripherals beside the system. What the driver reports about a period turns the
encoders in the next one, and the quadrature peripheral counts what the encoders show: the loop through the motors is
closed. An encoder moves at most once in 1000 clocks, and only in a direction in which the pins have been driven for
more than 600 clocks of the last whole period (`plant_closed_loop`).
-/

namespace PenPlotter

/-- `2000.0 / ratio` as an `int`. On the shares of 2000 ticks the quotients of `double`s have the same integer part. -/
def ticksForNext (ratio : ℚ) : BitVec 32 := .ofInt 32 ⌊2000 / ratio⌋

namespace QuadInjector

/-- The calls of `increase_ticks` and `decrease_ticks`. -/
def turn (s : QuadInjector) (info : DRV8833Info) : QuadInjector :=
  let s := if 3 / 10 < info.fwdRatio then s.increaseTicks (ticksForNext info.fwdRatio) else s
  if 3 / 10 < info.bwdRatio then s.decreaseTicks (ticksForNext info.bwdRatio) else s

/-- A report about `f` ticks forward and `b` ticks backward of 2000. -/
structure Counts (f b : Nat) (info : DRV8833Info) : Prop where
  fwd : info.fwdRatio = f / 2000
  bwd : info.bwdRatio = b / 2000
  le : f + b ≤ 2000

theorem three_tenths_lt {n : Nat} : (3 / 10 : ℚ) < n / 2000 ↔ 600 < n := by
  rw [lt_div_iff₀ (by norm_num)]
  norm_num

theorem toNat_ticksForNext {n : Nat} (hlo : 600 < n) :
    ((ticksForNext (n / 2000)).signExtend 64).toNat = 4000000 / n := by
  have hfloor : ⌊(2000 : ℚ) / (n / 2000)⌋ = ((4000000 / n : Nat) : Int) := by
    rw [div_div_eq_mul_div, show (2000 * 2000 : ℚ) = ((4000000 : Nat) : ℚ) by norm_num]
    exact Rat.floor_natCast_div_natCast ..
  have hle : 4000000 / n ≤ 4000000 / 601 := Nat.div_le_div_left hlo (by decide)
  generalize 4000000 / n = m at hfloor hle ⊢
  rw [ticksForNext, hfloor, BitVec.ofInt_natCast, BitVec.signExtend_eq_setWidth_of_msb_false]
  · rw [BitVec.toNat_setWidth, BitVec.toNat_ofNat]
    omega
  · rw [BitVec.msb_eq_decide, BitVec.toNat_ofNat, decide_eq_false_iff_not]
    omega

/-- The ticks of an encoder stay small. -/
def Small (s : QuadInjector) : Prop := s.ticks.toNat < 6656

/-- What one call makes of the ticks, with `n` for the next step. -/
structure Called (n : Nat) (dir : InjectorState → InjectorState) (s s' : QuadInjector) : Prop where
  small : s'.Small
  out : (n ≤ s.ticks.toNat + 1 ∧ s'.state = dir s.state ∧ s'.ticks.toNat = 0) ∨
    (s.ticks.toNat + 1 < n ∧ s'.state = s.state ∧ s'.ticks.toNat = s.ticks.toNat + 1)

section

variable {s : QuadInjector} {n : Nat} (h : s.Small) (hlo : 600 < n)
include h hlo

theorem fires_iff : s.fires (ticksForNext (n / 2000)) = true ↔ 4000000 / n ≤ s.ticks.toNat + 1 := by
  have hsmall : s.ticks.toNat < 6656 := h
  rw [fires, BitVec.ule_iff_toNat_le, toNat_ticksForNext hlo, BitVec.toNat_add]
  show _ ≤ (s.ticks.toNat + 1) % 2 ^ 64 ↔ _
  rw [Nat.mod_eq_of_lt (by omega)]

theorem Called.of_call (dir : InjectorState → InjectorState) : Called (4000000 / n) dir s
    (if s.fires (ticksForNext (n / 2000)) then ⟨dir s.state, 0⟩ else ⟨s.state, s.ticks + 1⟩) := by
  have hsmall : s.ticks.toNat < 6656 := h
  have hle : 4000000 / n ≤ 4000000 / 601 := Nat.div_le_div_left hlo (by decide)
  have hsucc : (s.ticks + 1).toNat = s.ticks.toNat + 1 := by
    rw [BitVec.toNat_add]
    show (s.ticks.toNat + 1) % 2 ^ 64 = _
    omega
  split
  next hfire =>
    rw [fires_iff h hlo] at hfire
    exact ⟨by show 0 < 6656; omega, .inl ⟨hfire, rfl, rfl⟩⟩
  next hfire =>
    rw [fires_iff h hlo, not_le] at hfire
    refine ⟨?_, .inr ⟨hfire, rfl, hsucc⟩⟩
    show (s.ticks + 1).toNat < 6656
    omega

end

/-- The ticks go on, and where one direction has the duty of a controller that responds, not for long. -/
structure Waits (f b n n' : Nat) : Prop where
  le : n' ≤ n + 2
  grows : 1398 ≤ f ∧ b = 0 ∨ 1398 ≤ b ∧ f = 0 → n' = n + 1 ∧ n' < 2861

/-- What a report does in a tick: no step, or the one step of a call that fires. -/
inductive Turned (f b : Nat) (s s' : QuadInjector) : Prop
  | rests (hstate : s'.state = s.state) (hwaits : Waits f b s.ticks.toNat s'.ticks.toNat)
  | steps (dir : InjectorState → InjectorState) (hdir : dir = forward ∧ 600 < f ∨ dir = backward ∧ 600 < b)
      (hstate : s'.state = dir s.state) (hticks : s'.ticks.toNat ≤ 1) (hfull : 1998 ≤ s.ticks.toNat)

section

variable {s : QuadInjector} {info : DRV8833Info} {f b : Nat} (h : s.Small) (hc : Counts f b info)
include h hc

/-- The two calls. -/
theorem turn_calls : ∃ q, (f ≤ 600 ∧ q = s ∨ 600 < f ∧ Called (4000000 / f) forward s q) ∧
    (b ≤ 600 ∧ s.turn info = q ∨ 600 < b ∧ Called (4000000 / b) backward q (s.turn info)) := by
  have := hc.le
  rw [turn, hc.fwd, hc.bwd]
  simp only [three_tenths_lt]
  by_cases hf : 600 < f <;> by_cases hb : 600 < b
  · have hfwd := Called.of_call h hf forward
    rw [if_pos hf, if_pos hb]
    exact ⟨_, .inr ⟨hf, hfwd⟩, .inr ⟨hb, .of_call hfwd.small hb backward⟩⟩
  · rw [if_pos hf, if_neg hb]
    exact ⟨_, .inr ⟨hf, .of_call h hf forward⟩, .inl ⟨not_lt.1 hb, rfl⟩⟩
  · rw [if_neg hf, if_pos hb]
    exact ⟨s, .inl ⟨not_lt.1 hf, rfl⟩, .inr ⟨hb, .of_call h hb backward⟩⟩
  · rw [if_neg hf, if_neg hb]
    exact ⟨s, .inl ⟨not_lt.1 hf, rfl⟩, .inl ⟨not_lt.1 hb, rfl⟩⟩

theorem Small.turn : (s.turn info).Small := by
  obtain ⟨q, hfwd, hbwd⟩ := turn_calls h hc
  have hq : q.Small := hfwd.elim (fun heq => heq.2 ▸ h) fun hcall => hcall.2.small
  exact hbwd.elim (fun heq => heq.2 ▸ hq) fun hcall => hcall.2.small

theorem turned : Turned f b s (s.turn info) := by
  have hle := hc.le
  obtain ⟨q, hfwd, hbwd⟩ := turn_calls h hc
  have hlow {n : Nat} (hlo : 600 < n) (hhi : n ≤ 2000) : 2000 ≤ 4000000 / n :=
    (Nat.le_div_iff_mul_le (by omega)).2 (by omega)
  have hduty {n : Nat} (hn : 1398 ≤ n) : 4000000 / n ≤ 2861 := Nat.div_le_div_left hn (by decide)
  rcases hfwd with ⟨hf, rfl⟩ | ⟨hf, hcall⟩
  · rcases hbwd with ⟨hb, heq⟩ | ⟨hb, hcall'⟩
    · rw [heq]
      exact .rests rfl ⟨by omega, fun hon => by omega⟩
    · have := hlow hb (by omega)
      rcases hcall'.out with ⟨hfire, hstate, hticks⟩ | ⟨hwait, hstate, hticks⟩
      · exact .steps backward (.inr ⟨rfl, hb⟩) hstate (by omega) (by omega)
      · refine .rests hstate ⟨by omega, fun hon => ?_⟩
        have := hduty (n := b) (by omega)
        omega
  · have := hlow hf (by omega)
    rcases hcall.out with ⟨hfire, hstate, hticks⟩ | ⟨hwait, hstate, hticks⟩
    · -- The call that fires leaves the other one far from firing.
      rcases hbwd with ⟨hb, heq⟩ | ⟨hb, hcall'⟩
      · rw [heq]
        exact .steps forward (.inl ⟨rfl, hf⟩) hstate (by omega) (by omega)
      · have := hlow hb (by omega)
        rcases hcall'.out with ⟨hfire', -⟩ | ⟨-, hstate', hticks'⟩
        · omega
        · exact .steps forward (.inl ⟨rfl, hf⟩) (hstate'.trans hstate) (by omega) (by omega)
    · rcases hbwd with ⟨hb, heq⟩ | ⟨hb, hcall'⟩
      · rw [heq]
        refine .rests hstate ⟨by omega, fun hon => ?_⟩
        have := hduty (n := f) (by omega)
        omega
      · have := hlow hb (by omega)
        rcases hcall'.out with ⟨hfire', hstate', hticks'⟩ | ⟨-, hstate', hticks'⟩
        · exact .steps backward (.inr ⟨rfl, hb⟩) (hstate'.trans (congrArg backward hstate)) (by omega) (by omega)
        · exact .rests (hstate'.trans hstate) ⟨by omega, fun hon => by omega⟩

end

end QuadInjector

/-! ### `PPSystem` -/

/-- What the core and the host do in a tick. -/
structure SimIn where
  /-- The pins in it are replaced. -/
  core : PpSystemIn
  /-- The bytes of `uart_enqueue`. -/
  enqueue : List (BitVec 8)

structure SimSystem (prim : RamPrim MemAw) where
  /-- `instance`, but for the motor controllers. -/
  system : PpSystem prim
  md : Axis → MdController 50000000 25000
  uartRxInjector : InjectorFeed
  uartTxDecoder : UARTDecoder
  servo : PWMDecoder
  quad : Axis → QuadInjector
  drv8833 : DRV8833Decoder

/-- What `reset` does not set, and what the core does in its last cycle, where `rst_n` is high again. -/
structure PowerUp (prim : RamPrim MemAw) where
  ram : prim.State
  rdata : BitVec 32
  txBuf : BitVec 5 → BitVec 8
  rxBuf : BitVec 5 → BitVec 8
  core : PpSystemIn

/-- The channel of an axis. -/
def axisChannel : Axis → Fin 2
  | .x => 0
  | .y => 1

theorem channelAxis_axisChannel (a : Axis) : channelAxis (axisChannel a) = a := by
  cases a <;> rfl

namespace SimSystem

variable {prim : RamPrim MemAw} (M : Nat) (s : SimSystem prim) (i : SimIn) (p : PowerUp prim) (a : Axis)

/-- The pins that `tick` sets: line A is bit 0. -/
def pins (core : PpSystemIn) (quad : Axis → QuadInjector) (uartRx : Bool) : PpSystemIn :=
  { core with
    quad := fun a => BitVec.ofBool (QuadInjector.b (quad a).state) ++ BitVec.ofBool (QuadInjector.a (quad a).state)
    uartRx := uartRx }

def motors : PidMotors := ⟨s.system.pid, s.md⟩

/-- The encoders as the last report turns them. -/
def turned : QuadInjector := (s.quad a).turn (s.drv8833.currentInfo (axisChannel a))

/-- The inputs of `instance` in this tick. -/
def systemIn : PpSystemIn := pins i.core s.turned (s.uartRxInjector.uartRx i.enqueue)

def tick : SimSystem prim where
  system := s.system.step M (s.systemIn i)
  md a := (s.md a).step
  uartRxInjector := s.uartRxInjector.step i.enqueue
  uartTxDecoder := s.uartTxDecoder.tick s.system.uart.txO
  servo := s.servo.tick (sample (s.system.pwm.pwmO ⟨0, Nat.one_pos⟩))
  quad := s.turned
  drv8833 := s.drv8833.tick fun j => s.motors.motorO (s.system.pidIn (s.systemIn i)) (channelAxis j)

/-- The inputs of `instance` in the last cycle of `reset`. -/
def resetIn : PpSystemIn := pins p.core (fun _ => .reset) true

/-- The devices with `rst_n` low. -/
def low : PpSystem prim := .reset p.ram p.rdata p.txBuf p.rxBuf

/-- After the constructor and `reset`. -/
def reset : SimSystem prim where
  system := (low p).step M (resetIn p)
  md _ := MdController.reset.step
  uartRxInjector := ⟨⟨.idle, false, 0, 0, 0, 50000000 / 9600⟩, []⟩
  uartTxDecoder := ⟨.idle, 0, 0, 0, 50000000 / 9600⟩
  servo := .reset
  quad _ := .reset
  drv8833 := ⟨50000000 / 25000, 0, fun _ _ => 0, fun _ => ⟨0, 0, 0, 0⟩⟩

variable (inp : Nat → SimIn)

/-- Before tick `t`. -/
def run (t : Nat) : SimSystem prim := Clocked.run (tick M) (reset M p) inp t

/-- The inputs of `instance` in tick `t`. -/
def systemInAt (t : Nat) : PpSystemIn := (run M p inp t).systemIn (inp t)

/-- The response of the controller in tick `t`. -/
def response (t : Nat) : Int :=
  ((run M p inp t).system.pid.response ((run M p inp t).system.pidIn (systemInAt M p inp t)) a).toInt

/-- The bus clears the count in tick `t`. -/
def clears (t : Nat) : Bool :=
  ObiQuadState.clrQuad ((run M p inp t).system.quadIn (systemInAt M p inp t)).toObiIn a

/-- The step of the encoder in tick `t`. -/
def move (t : Nat) : Int :=
  (QuadInjector.phase ((run M p inp t).quad a).state).steps (QuadInjector.phase ((run M p inp (t + 1)).quad a).state)

/-- The step that the decoder counts in tick `t`, made two ticks before. -/
def seen : Nat → Int
  | 0 | 1 => 0
  | t + 2 => move M p a inp t

/-- The steps that the decoder has counted before tick `t`. -/
def shown : Nat → Int
  | 0 => 0
  | t + 1 => shown t + seen M p a inp t

/-- The inputs of `u_pid` from the last cycle of `reset` on. -/
def pidInAt : Nat → PidIn
  | 0 => (low p).pidIn (resetIn p)
  | t + 1 => (run M p inp t).system.pidIn (systemInAt M p inp t)

/-- The inputs of a decoder from the last cycle of `reset` on. -/
def linesAt : Nat → QuadIn
  | 0 => ObiQuadState.decoderIn ((low p).quadIn (resetIn p)) a
  | t + 1 => ObiQuadState.decoderIn ((run M p inp t).system.quadIn (systemInAt M p inp t)) a

/-- The ticks of period `k` with the pins in a mode. -/
def share (m : DRV8833Mode) (k : Nat) : Nat :=
  DRV8833Decoder.shares (motorPins M (pidInAt M p inp) 1) (axisChannel a) (k * 2000) 2000 m

variable {M p a inp}

theorem motors_run (t : Nat) : (run M p inp t).motors = PidMotors.run M (pidInAt M p inp) (t + 1) := by
  induction t with
  | zero => rfl
  | succ t ih =>
    show _ = PidMotors.step M (PidMotors.run M (pidInAt M p inp) (t + 1)) (pidInAt M p inp (t + 1))
    rw [← ih]
    rfl

theorem decoder_run (t : Nat) :
    (run M p inp t).system.quad.decoder a = decoderRun (linesAt M p a inp) (t + 1) := by
  induction t with
  | zero => rfl
  | succ t ih =>
    show _ = QuadDecoder.step (decoderRun (linesAt M p a inp) (t + 1)) (linesAt M p a inp (t + 1))
    rw [← ih]
    rfl

theorem drv8833_run (t : Nat) : (run M p inp t).drv8833 =
    (DRV8833Decoder.mk 2000 0 (fun _ _ => 0) fun _ => ⟨0, 0, 0, 0⟩).run (motorPins M (pidInAt M p inp) 1) t := by
  induction t with
  | zero => rfl
  | succ t ih =>
    have hpins : (fun j => (run M p inp t).motors.motorO (pidInAt M p inp (t + 1)) (channelAxis j)) =
        motorPins M (pidInAt M p inp) 1 t := by
      funext j
      rw [motors_run, motorPins, Nat.add_comm 1 t]
    rw [DRV8833Decoder.run, Clocked.run_succ, ← DRV8833Decoder.run, ← ih, ← hpins]
    rfl

theorem responseAt_eq (t : Nat) : PidMotors.responseAt M (pidInAt M p inp) a (1 + t) = response M p a inp t := by
  rw [PidMotors.responseAt, Nat.add_comm 1 t, ← motors_run]
  rfl

/-- A decoder samples the lines that its encoder shows after the calls of the tick. -/
theorem linesAt_phase (t : Nat) :
    (linesAt M p a inp t).phase = QuadInjector.phase ((run M p inp t).quad a).state := by
  have hbits (x y : Bool) : ((BitVec.ofBool y ++ BitVec.ofBool x : BitVec 2).getLsbD 0,
      (BitVec.ofBool y ++ BitVec.ofBool x : BitVec 2).getLsbD 1) = (x, y) := by
    cases x <;> cases y <;> rfl
  cases t <;> exact hbits _ _

theorem share_eq (m : DRV8833Mode) (k : Nat) : share M p a inp m k =
    Nat.count (fun x => PidMotors.modeAt M (pidInAt M p inp) a (1 + (k * 2000 + x)) = m) 2000 := by
  rw [share, DRV8833Decoder.shares]
  simp only [motorPins, channelAxis_axisChannel]
  rfl

variable (M p a inp) in
/-- A direction is driven only on responses of its sign. -/
theorem share_le (k : Nat) :
    share M p a inp .forward k ≤ Nat.count (fun x => 0 < response M p a inp (k * 2000 + x)) 2000 ∧
    share M p a inp .backward k ≤ Nat.count (fun x => response M p a inp (k * 2000 + x) < 0) 2000 := by
  have hdir {m : DRV8833Mode} (hm : m ≠ .coast) (x : Nat)
      (hx : PidMotors.modeAt M (pidInAt M p inp) a (1 + (k * 2000 + x)) = m) :
      directionOf (response M p a inp (k * 2000 + x)) = m := by
    rw [← responseAt_eq]
    exact PidMotors.directionOf_of_modeAt hx hm
  rw [share_eq, share_eq]
  constructor
  · exact Nat.count_mono_left fun x _ hx => PidMotors.pos_of_forward (hdir (by decide) x hx)
  · exact Nat.count_mono_left fun x _ hx => PidMotors.neg_of_backward (hdir (by decide) x hx)

/-- No report in the first period. -/
theorem info_first {t : Nat} (ht : t < 2000) :
    QuadInjector.Counts 0 0 ((run M p inp t).drv8833.currentInfo (axisChannel a)) := by
  have hrun := @DRV8833Decoder.Fresh.run ⟨2000, 0, fun _ _ => 0, fun _ => ⟨0, 0, 0, 0⟩⟩
    (motorPins M (pidInAt M p inp) 1) ⟨rfl, rfl⟩ 0 t ht
  simp only [Nat.zero_add] at hrun
  rw [drv8833_run, hrun]
  exact ⟨by simp, by simp, by decide⟩

variable (M p a inp) in
/-- Then always the one about the last period. -/
theorem info_later (k : Nat) {r : Nat} (hr : r < 2000) :
    QuadInjector.Counts (share M p a inp .forward k) (share M p a inp .backward k)
      ((run M p inp ((k + 1) * 2000 + r)).drv8833.currentInfo (axisChannel a)) := by
  have hinfo := @DRV8833Decoder.currentInfo_run ⟨2000, 0, fun _ _ => 0, fun _ => ⟨0, 0, 0, 0⟩⟩
    (motorPins M (pidInAt M p inp) 1) ⟨rfl, rfl⟩ k r hr (axisChannel a)
  have hsum := @DRV8833Decoder.shares_sum (motorPins M (pidInAt M p inp) 1) (axisChannel a) (k * 2000) 2000
  rw [drv8833_run]
  refine ⟨?_, ?_, ?_⟩
  · exact congrArg DRV8833Info.fwdRatio hinfo
  · exact congrArg DRV8833Info.bwdRatio hinfo
  · unfold share
    omega

variable (M p a inp) in
theorem exists_counts (t : Nat) : ∃ f b, QuadInjector.Counts f b
    ((run M p inp t).drv8833.currentInfo (axisChannel a)) := by
  rcases Nat.lt_or_ge t 2000 with hlt | hge
  · exact ⟨0, 0, info_first hlt⟩
  · have hinfo := info_later M p a inp (t / 2000 - 1) (Nat.mod_lt t (by decide))
    rw [show (t / 2000 - 1 + 1) * 2000 + t % 2000 = t by omega] at hinfo
    exact ⟨_, _, hinfo⟩

/-! ### The steps of an encoder -/

theorem small_run (t : Nat) : ((run M p inp t).quad a).Small := by
  induction t with
  | zero => exact Nat.zero_lt_succ _
  | succ t ih =>
    obtain ⟨f, b, hc⟩ := exists_counts M p a inp t
    exact ih.turn hc

theorem phase_steps (st : InjectorState) :
    (QuadInjector.phase st).steps (QuadInjector.phase st) = 0 ∧
    (QuadInjector.phase st).steps (QuadInjector.phase (QuadInjector.forward st)) = 1 ∧
    (QuadInjector.phase st).steps (QuadInjector.phase (QuadInjector.backward st)) = -1 := by
  cases st <;> decide

/-- The tick of an encoder under a report: a step needs a call that fires, and its direction. -/
inductive Moves (f b : Nat) (v : Int) (n n' : Nat) : Prop
  | rests (hv : v = 0) (hwaits : QuadInjector.Waits f b n n')
  | forward (hv : v = 1) (hf : 600 < f) (hticks : n' ≤ 1) (hfull : 1998 ≤ n)
  | backward (hv : v = -1) (hb : 600 < b) (hticks : n' ≤ 1) (hfull : 1998 ≤ n)

theorem moves {f b t : Nat} (hc : QuadInjector.Counts f b ((run M p inp t).drv8833.currentInfo (axisChannel a))) :
    Moves f b (move M p a inp t) ((run M p inp t).quad a).ticks.toNat ((run M p inp (t + 1)).quad a).ticks.toNat := by
  have hsteps := phase_steps ((run M p inp t).quad a).state
  rcases QuadInjector.turned (small_run t) hc with ⟨hstate, hwaits⟩ | ⟨dir, hdir, hstate, hticks, hfull⟩
  · refine .rests ?_ hwaits
    rw [← hsteps.1]
    exact congrArg (fun st => (QuadInjector.phase _).steps (QuadInjector.phase st)) hstate
  · rcases hdir with ⟨rfl, hf⟩ | ⟨rfl, hb⟩
    · refine .forward ?_ hf hticks hfull
      rw [← hsteps.2.1]
      exact congrArg (fun st => (QuadInjector.phase _).steps (QuadInjector.phase st)) hstate
    · refine .backward ?_ hb hticks hfull
      rw [← hsteps.2.2]
      exact congrArg (fun st => (QuadInjector.phase _).steps (QuadInjector.phase st)) hstate

/-- A step waits until the ticks since the last one are full, and they grow by two at most. -/
theorem pace {u v : Nat} (huv : u < v) (hu : move M p a inp u ≠ 0) (hv : move M p a inp v ≠ 0) : u + 1000 ≤ v := by
  have hfew (n : Nat) (hn : ∀ x, u < x → x < u + 1 + n → move M p a inp x = 0) :
      ((run M p inp (u + 1 + n)).quad a).ticks.toNat ≤ 2 * n + 1 := by
    induction n with
    | zero =>
      obtain ⟨f, b, hc⟩ := exists_counts M p a inp u
      rcases moves hc with ⟨hzero, -⟩ | ⟨-, -, hticks, -⟩ | ⟨-, -, hticks, -⟩
      · exact absurd hzero hu
      · exact hticks
      · exact hticks
    | succ n ih =>
      obtain ⟨f, b, hc⟩ := exists_counts M p a inp (u + 1 + n)
      have hprev := ih fun x hx hlt => hn x hx (by omega)
      have hzero := hn (u + 1 + n) (by omega) (by omega)
      rcases moves hc with ⟨-, hwaits⟩ | ⟨hone, -⟩ | ⟨hone, -⟩
      · have := hwaits.le
        rw [← Nat.add_assoc]
        omega
      · omega
      · omega
  -- It is enough to look at the first step after `u`.
  induction v using Nat.strong_induction_on with
  | _ v ih =>
    by_cases hbetween : ∃ x, u < x ∧ x < v ∧ move M p a inp x ≠ 0
    · obtain ⟨x, hux, hxv, hx⟩ := hbetween
      have := ih x hxv hux hx
      omega
    · have hnone (x : Nat) (hux : u < x) (hxv : x < u + 1 + (v - u - 1)) : move M p a inp x = 0 := by
        by_contra hx
        exact hbetween ⟨x, hux, by omega, hx⟩
      have hticks := hfew (v - u - 1) hnone
      rw [show u + 1 + (v - u - 1) = v by omega] at hticks
      obtain ⟨f, b, hc⟩ := exists_counts M p a inp v
      rcases moves hc with ⟨hzero, -⟩ | ⟨-, -, -, hfull⟩ | ⟨-, -, -, hfull⟩
      · exact absurd hzero hv
      · omega
      · omega

/-- Nothing moves in the first period. -/
theorem move_first {t : Nat} (ht : t < 2000) : move M p a inp t = 0 := by
  rcases moves (info_first ht) with ⟨hzero, -⟩ | ⟨-, hf, -⟩ | ⟨-, hb, -⟩
  · exact hzero
  · omega
  · omega

theorem shown_first {t : Nat} (ht : t < 2000) : shown M p a inp t = 0 := by
  induction t with
  | zero => rfl
  | succ t ih =>
    rw [shown, ih (by omega)]
    match t with
    | 0 | 1 => rfl
    | t + 2 =>
      rw [seen, move_first (by omega)]
      rfl

theorem move_near (t : Nat) : (QuadInjector.phase ((run M p inp t).quad a).state).Near
    (QuadInjector.phase ((run M p inp (t + 1)).quad a).state) := by
  obtain ⟨f, b, hc⟩ := exists_counts M p a inp t
  refine (phase_call ?_).1
  rcases QuadInjector.turned (small_run t) hc with ⟨hstate, -⟩ | ⟨dir, hdir, hstate, -⟩
  · exact .inl hstate
  · rcases hdir with ⟨rfl, -⟩ | ⟨rfl, -⟩
    · exact .inr (.inl hstate)
    · exact .inr (.inr hstate)

/-- The count follows a step two ticks later. -/
theorem hwQuad_succ (t : Nat) : (run M p inp (t + 1)).system.quad.hwQuad a =
    if clears M p a inp t then 0 else (run M p inp t).system.quad.hwQuad a + BitVec.ofInt 32 (seen M p a inp t) := by
  have hcount (t : Nat) : (run M p inp t).system.quad.hwQuad a = tickAt (linesAt M p a inp) t := by
    rw [ObiQuadState.hwQuad, decoder_run, tickAt]
  have hbefore (t : Nat) : phaseBefore (linesAt M p a inp) (t + 1) =
      QuadInjector.phase ((run M p inp t).quad a).state := linesAt_phase t
  have hnear (t : Nat) : (phaseBefore (linesAt M p a inp) t).Near (linesAt M p a inp t).phase := by
    cases t with
    | zero =>
      rw [linesAt_phase]
      exact .inl rfl
    | succ t =>
      rw [hbefore, linesAt_phase]
      exact move_near t
  have hsync (t : Nat) : Synced (linesAt M p a inp) t := synced_zero.of_le (fun t _ => hnear t) (Nat.zero_le _)
  have hval : (decoderRun (linesAt M p a inp) (t + 1)).tickVal = BitVec.ofInt 32 (seen M p a inp t) := by
    match t with
    | 0 => rfl
    | 1 =>
      have h1 := (hsync 0).tickVal (hnear 0)
      rwa [linesAt_phase] at h1
    | t + 2 =>
      have h2 := (hsync (t + 1)).tickVal (hnear (t + 1))
      rwa [hbefore, linesAt_phase] at h2
  rw [hcount, hcount, tickAt_succ, hval]
  rfl

variable (M p a inp) in
/-- Without a clear the count follows the encoder. -/
theorem hwQuad_run {s t : Nat} (hst : s ≤ t) (hclear : ∀ u, s ≤ u → u < t → clears M p a inp u = false) :
    (run M p inp t).system.quad.hwQuad a = (run M p inp s).system.quad.hwQuad a +
      BitVec.ofInt 32 (shown M p a inp t - shown M p a inp s) := by
  induction t, hst using Nat.le_induction with
  | base => simp
  | succ t hst ih =>
    have hlow := hclear t hst (Nat.lt_succ_self t)
    rw [hwQuad_succ, hlow, if_neg Bool.false_ne_true, ih fun u hu hut => hclear u hu (by omega), shown,
      BitVec.add_assoc, ← BitVec.ofInt_add]
    congr 2
    omega

end SimSystem

open SimSystem in
/-- Whatever the core does and the host sends: without a clear the count of an axis changes by the steps that its
encoder made, two ticks late; the encoder steps in a direction only if for more than 600 of the 2000 ticks of the last
whole period of the driver the response of the controller had that sign; and two steps are 1000 ticks apart. -/
theorem plant_closed_loop {prim : RamPrim MemAw} (M : Nat) (p : PowerUp prim) (inp : Nat → SimIn) (a : Axis) :
    (∀ s t, s ≤ t → (∀ u, s ≤ u → u < t → clears M p a inp u = false) →
      (run M p inp t).system.quad.hwQuad a = (run M p inp s).system.quad.hwQuad a +
        BitVec.ofInt 32 (shown M p a inp t - shown M p a inp s)) ∧
    (∀ t, move M p a inp t = 0 ∨ ∃ k r, r < 2000 ∧ t = (k + 1) * 2000 + r ∧
      (move M p a inp t = 1 ∧ 600 < Nat.count (fun x => 0 < response M p a inp (k * 2000 + x)) 2000 ∨
        move M p a inp t = -1 ∧ 600 < Nat.count (fun x => response M p a inp (k * 2000 + x) < 0) 2000)) ∧
    ∀ u v, u < v → move M p a inp u ≠ 0 → move M p a inp v ≠ 0 → u + 1000 ≤ v := by
  refine ⟨fun s t => hwQuad_run M p a inp, fun t => ?_, fun u v => pace⟩
  rcases Nat.lt_or_ge t 2000 with hlt | hge
  · exact .inl (move_first hlt)
  · have hinfo := info_later M p a inp (t / 2000 - 1) (Nat.mod_lt t (by decide))
    rw [show (t / 2000 - 1 + 1) * 2000 + t % 2000 = t by omega] at hinfo
    have hshare := share_le M p a inp (t / 2000 - 1)
    rcases moves hinfo with ⟨hzero, -⟩ | ⟨hone, hf, -⟩ | ⟨hone, hb, -⟩
    · exact .inl hzero
    · exact .inr ⟨t / 2000 - 1, _, Nat.mod_lt t (by decide), by omega, .inl ⟨hone, by omega⟩⟩
    · exact .inr ⟨t / 2000 - 1, _, Nat.mod_lt t (by decide), by omega, .inr ⟨hone, by omega⟩⟩

end PenPlotter
