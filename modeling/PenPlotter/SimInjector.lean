import PenPlotter.LineReader
import PenPlotter.Uart

/-!
# The simulated sender (`dv/verilator/peripherals/sim_uart.hpp`)

`UARTInjector` writes frames of `10 (ticks_per_baud - 1)` cycles, with the start bit one cycle longer and bit 0 one
cycle shorter than the other bits (`UARTInjector.frame`). `InjectorFeed` is the injector with the queue of bytes in
front of it, as `PPSystem::tick` runs it.
-/

namespace PenPlotter

open Serial

structure UARTInjector where
  state : UartPhase
  dataReady : Bool
  data : BitVec 8
  ticks : Nat
  bit : Nat
  ticksPerBaud : Nat

namespace UARTInjector

variable (s : UARTInjector)

def inject (val : BitVec 8) : UARTInjector × Bool :=
  if s.dataReady || s.state != .idle then (s, false)
  else ({ s with dataReady := true, data := val }, true)

def tick : UARTInjector × Bool :=
  let s := { s with ticks := s.ticks + 1 }
  match s.state with
  | .idle =>
    if s.dataReady then ({ s with dataReady := false, ticks := 0, state := .start }, true) else (s, true)
  | .start =>
    if s.ticks = s.ticksPerBaud - 1 then ({ s with bit := 0, ticks := 0, state := .data }, false)
    else (s, false)
  | .data =>
    if s.ticks = s.ticksPerBaud - 1 then
      let s := { s with ticks := 0, bit := s.bit + 1 }
      if 8 ≤ s.bit then ({ s with state := .stop }, true) else (s, s.data.getLsbD s.bit)
    else (s, s.data.getLsbD s.bit)
  | .stop => if s.ticks = s.ticksPerBaud - 1 then ({ s with state := .idle }, true) else (s, true)

/-- The byte whose stop bit ends with this tick. -/
def finished : List (BitVec 8) :=
  if s.state = .stop ∧ s.ticks + 1 = s.ticksPerBaud - 1 then [s.data] else []

/-- Cycle `p` of a frame. -/
def level (N : Nat) (b : BitVec 8) (p : Nat) : Bool :=
  if p < N - 1 then false else symbol b ((p + 1) / (N - 1))

def frame (N : Nat) (b : BitVec 8) : List Bool := (List.range (10 * (N - 1))).map (level N b)

/-- The injector has nothing to send. -/
structure Rests (N : Nat) : Prop where
  state : s.state = .idle
  dataReady : s.dataReady = false
  ticksPerBaud : s.ticksPerBaud = N

/-- The injector is at cycle `p` of the frame of `b`. -/
inductive At (N : Nat) (b : BitVec 8) : Nat → UARTInjector → Prop
  | start {ticks bit : Nat} (hticks : ticks < N - 1) : At N b ticks ⟨.start, false, b, ticks, bit, N⟩
  | data {ticks bit : Nat} (hticks : ticks < N - 1) (hbit : bit < 8) :
    At N b ((bit + 1) * (N - 1) + ticks) ⟨.data, false, b, ticks, bit, N⟩
  | stop {ticks bit : Nat} (hticks : ticks < N - 1) :
    At N b (9 * (N - 1) + ticks) ⟨.stop, false, b, ticks, bit, N⟩

variable {s} {N p : Nat} {b : BitVec 8}

@[simp] theorem length_frame : (frame N b).length = 10 * (N - 1) := by simp [frame]

theorem getElem?_frame (hp : p < 10 * (N - 1)) : (frame N b)[p]? = some (level N b p) := by
  rw [frame, List.getElem?_map, List.getElem?_range hp]
  rfl

theorem level_start (hp : p < N - 1) : level N b p = false := if_pos hp

theorem level_symbol {q : Nat} (hp : N - 1 ≤ p) (hlo : q * (N - 1) ≤ p + 1) (hhi : p + 1 < (q + 1) * (N - 1)) :
    level N b p = symbol b q := by
  rw [level, if_neg (Nat.not_lt.2 hp), Nat.div_eq_of_lt_le hlo hhi]

theorem level_stop (hN : 2 ≤ N) (hp : N - 1 ≤ p) (hlo : 9 * (N - 1) ≤ p + 1) : level N b p = true := by
  have hq : 9 ≤ (p + 1) / (N - 1) := (Nat.le_div_iff_mul_le (by omega)).2 hlo
  rw [level, if_neg (Nat.not_lt.2 hp), symbol, if_neg (by omega), if_neg (by omega)]

theorem At.cast {p' : Nat} (h : At N b p s) (hp : p = p') : At N b p' s := hp ▸ h

theorem At.busy (h : At N b p s) : s.state ≠ .idle := by
  cases h <;> exact nofun

theorem At.lt (h : At N b p s) : p < 10 * (N - 1) := by
  cases h with
  | start hticks => omega
  | @data ticks bit hticks hbit =>
    have hmul : (bit + 1) * (N - 1) ≤ 8 * (N - 1) := Nat.mul_le_mul_right _ hbit
    omega
  | stop hticks => omega

theorem At.tick_level (h : At N b p s) (hN : 3 ≤ N) : s.tick.2 = level N b p := by
  cases h with
  | start hticks =>
    rw [level_start hticks, tick]
    dsimp only
    split <;> rfl
  | @data ticks bit hticks hbit =>
    have hmul : (bit + 1 + 1) * (N - 1) = (bit + 1) * (N - 1) + (N - 1) := Nat.succ_mul _ _
    have hmul' : (bit + 1 + 1 + 1) * (N - 1) = (bit + 1 + 1) * (N - 1) + (N - 1) := Nat.succ_mul _ _
    have hone : N - 1 ≤ (bit + 1) * (N - 1) := Nat.le_mul_of_pos_left _ (Nat.succ_pos _)
    rw [tick]
    dsimp only
    by_cases hend : ticks + 1 = N - 1
    · -- the last cycle of a bit shows the next one
      rw [if_pos hend, level_symbol (q := bit + 1 + 1) (by omega) (by omega) (by omega)]
      by_cases h8 : 8 ≤ bit + 1
      · rw [if_pos h8, symbol, if_neg (by omega), if_neg (by omega)]
      · rw [if_neg h8, symbol_data (by omega)]
    · rw [if_neg hend, level_symbol (q := bit + 1) (by omega) (by omega) (by omega), symbol_data hbit]
  | stop hticks =>
    rw [level_stop (by omega) (by omega) (by omega), tick]
    dsimp only
    split <;> rfl

theorem At.tick_next (h : At N b p s) (hp : p + 1 < 10 * (N - 1)) : At N b (p + 1) s.tick.1 := by
  cases h with
  | start hticks =>
    rw [tick]
    dsimp only
    by_cases hend : p + 1 = N - 1
    · rw [if_pos hend]
      exact (At.data (by omega) (by decide)).cast (by omega)
    · rw [if_neg hend]
      exact .start (by omega)
  | @data ticks bit hticks hbit =>
    have hmul : (bit + 1 + 1) * (N - 1) = (bit + 1) * (N - 1) + (N - 1) := Nat.succ_mul _ _
    rw [tick]
    dsimp only
    by_cases hend : ticks + 1 = N - 1
    · rw [if_pos hend]
      by_cases h8 : 8 ≤ bit + 1
      · obtain rfl : bit = 7 := by omega
        rw [if_pos h8]
        exact (At.stop (by omega)).cast (by omega)
      · rw [if_neg h8]
        exact (At.data (by omega) (by omega)).cast (by omega)
    · rw [if_neg hend]
      exact (At.data (by omega) hbit).cast (by omega)
  | stop hticks =>
    rw [tick]
    dsimp only
    rw [if_neg (by omega)]
    exact (At.stop (by omega)).cast (by omega)

theorem At.finished_next (h : At N b p s) (hp : p + 1 < 10 * (N - 1)) : s.finished = [] := by
  refine if_neg ?_
  rintro ⟨hst, hend⟩
  cases h with
  | start | data => cases hst
  | stop hticks =>
    dsimp only at hend
    omega

theorem At.tick_finish (h : At N b p s) (hp : p + 1 = 10 * (N - 1)) : s.tick.1.Rests N ∧ s.finished = [b] := by
  cases h with
  | start hticks => omega
  | @data ticks bit hticks hbit =>
    have hmul : (bit + 1) * (N - 1) ≤ 8 * (N - 1) := Nat.mul_le_mul_right _ hbit
    omega
  | @stop ticks bit hticks =>
    have hend : ticks + 1 = N - 1 := by omega
    refine ⟨?_, if_pos ⟨rfl, hend⟩⟩
    rw [tick]
    dsimp only
    rw [if_pos hend]
    exact ⟨rfl, rfl, rfl⟩

theorem Rests.finished (h : s.Rests N) : s.finished = [] := if_neg fun hend => by
  rw [h.state] at hend
  cases hend.1

theorem Rests.tick (h : s.Rests N) : s.tick.1.Rests N ∧ s.tick.2 = true := by
  rw [UARTInjector.tick, h.state]
  dsimp only
  rw [if_neg (by rw [h.dataReady]; exact Bool.false_ne_true)]
  exact ⟨⟨rfl, h.dataReady, h.ticksPerBaud⟩, rfl⟩

/-- A byte that is accepted starts its frame in the next cycle. -/
theorem Rests.inject (h : s.Rests N) (hN : 3 ≤ N) (b : BitVec 8) :
    (s.inject b).2 = true ∧ At N b 0 (s.inject b).1.tick.1 ∧ (s.inject b).1.tick.2 = true := by
  have haccept : s.inject b = ({ s with dataReady := true, data := b }, true) := by
    refine if_neg ?_
    rw [h.dataReady, h.state]
    decide
  rw [haccept]
  refine ⟨rfl, ?_, ?_⟩
  · simp only [UARTInjector.tick, h.state, h.ticksPerBaud]
    exact .start (by omega)
  · simp only [UARTInjector.tick, h.state]
    rfl

theorem At.inject (h : At N b p s) (val : BitVec 8) : s.inject val = (s, false) := by
  refine if_pos ?_
  rw [Bool.or_eq_true_iff]
  exact .inr (bne_iff_ne.2 h.busy)

end UARTInjector

/-! ### The queue in front of the injector -/

structure InjectorFeed where
  injector : UARTInjector
  /-- `enqueued_uart_rx`. -/
  enqueued : List (BitVec 8)

namespace InjectorFeed

variable (f : InjectorFeed) (push : List (BitVec 8))

/-- The front of the queue is offered to the injector, after the bytes of `uart_enqueue`. -/
def offer : InjectorFeed :=
  match f.enqueued ++ push with
  | [] => { f with enqueued := [] }
  | b :: rest => ⟨(f.injector.inject b).1, if (f.injector.inject b).2 then rest else b :: rest⟩

def step : InjectorFeed := { f.offer push with injector := (f.offer push).injector.tick.1 }

/-- `uart_rx` in this cycle. -/
def uartRx : Bool := (f.offer push).injector.tick.2

/-- The byte whose frame ends with this cycle. -/
def finished (_push : List (BitVec 8)) : List (BitVec 8) := f.injector.finished

variable {f push} {N : Nat} {b : BitVec 8}

theorem offer_nil (h : f.enqueued ++ push = []) : f.offer push = ⟨f.injector, []⟩ := by
  rw [offer, h]

theorem offer_cons {rest : List (BitVec 8)} (h : f.enqueued ++ push = b :: rest) :
    f.offer push = ⟨(f.injector.inject b).1, if (f.injector.inject b).2 then rest else b :: rest⟩ := by
  rw [offer, h]

theorem offer_of_at {p : Nat} (h : UARTInjector.At N b p f.injector) :
    f.offer push = ⟨f.injector, f.enqueued ++ push⟩ := by
  cases hq : f.enqueued ++ push with
  | nil => exact offer_nil hq
  | cons b' rest => rw [offer_cons hq, h.inject]; rfl

/-- The line, the byte in progress and the queue together carry the bytes enqueued. -/
def Inv (N : Nat) (f : InjectorFeed) (l : List Bool) (sent bytes : List (BitVec 8)) : Prop :=
  ∃ cur part, Sending (UARTInjector.frame N) l sent cur part ∧
    cur.elim (f.injector.Rests N) (fun b => UARTInjector.At N b part.length f.injector) ∧
    sent ++ cur.toList ++ f.enqueued = bytes

theorem Inv.initial (h : f.injector.Rests N) : Inv N f [] [] f.enqueued := ⟨none, [], sending_nil, h, rfl⟩

variable {l : List Bool} {sent bytes : List (BitVec 8)}

variable (push) in
/-- Between frames the front of the queue, if there is one, starts. -/
theorem step_of_rests (h : f.injector.Rests N) (hN : 3 ≤ N) : f.uartRx push = true ∧
    ((f.enqueued ++ push = [] ∧ (f.step push).injector.Rests N ∧ (f.step push).enqueued = []) ∨
      ∃ b, UARTInjector.At N b 0 (f.step push).injector ∧ b :: (f.step push).enqueued = f.enqueued ++ push) := by
  rw [step, uartRx]
  cases hq : f.enqueued ++ push with
  | nil =>
    obtain ⟨hrests, hhigh⟩ := h.tick
    rw [offer_nil hq]
    exact ⟨hhigh, .inl ⟨rfl, hrests, rfl⟩⟩
  | cons b rest =>
    obtain ⟨haccept, hat, hhigh⟩ := h.inject hN b
    rw [offer_cons hq, haccept]
    exact ⟨hhigh, .inr ⟨b, hat, rfl⟩⟩

variable (push) in
theorem Inv.step (h : Inv N f l sent bytes) (hN : 3 ≤ N) :
    Inv N (f.step push) (l ++ [f.uartRx push]) (sent ++ f.finished push) (bytes ++ push) := by
  obtain ⟨cur, part, hsend, hat, rfl⟩ := h
  cases cur with
  | none =>
    obtain ⟨hhigh, hnext⟩ := step_of_rests push hat hN
    rw [hhigh, show f.finished push = [] from UARTInjector.Rests.finished hat, List.append_nil]
    rcases hnext with ⟨hq, hrests, hempty⟩ | ⟨b, hat, hq⟩
    · refine ⟨none, [], hsend.gap, hrests, ?_⟩
      rw [hempty, List.append_assoc _ f.enqueued, hq]
    · refine ⟨some b, [], hsend.gap.start b, hat, ?_⟩
      rw [List.append_assoc (sent ++ _), ← hq]
      simp
  | some b =>
    have hbusy : UARTInjector.At N b part.length f.injector := hat
    have hlt := hbusy.lt
    have hstep : f.step push = ⟨f.injector.tick.1, f.enqueued ++ push⟩ := by
      rw [InjectorFeed.step, offer_of_at hbusy]
    have hlevel : f.uartRx push = UARTInjector.level N b part.length := by
      rw [uartRx, offer_of_at hbusy, hbusy.tick_level hN]
    have hpart : part ++ [UARTInjector.level N b part.length] <+: UARTInjector.frame N b := by
      obtain ⟨_, _, _, _, hprefix⟩ := hsend
      exact prefix_concat_of_getElem? hprefix (UARTInjector.getElem?_frame hlt)
    rw [hlevel, hstep]
    by_cases hend : part.length + 1 = 10 * (N - 1)
    · obtain ⟨hrests, hone⟩ := hbusy.tick_finish hend
      have hwhole : part ++ [UARTInjector.level N b part.length] = UARTInjector.frame N b :=
        hpart.eq_of_length (by rw [List.length_append, UARTInjector.length_frame]; exact hend)
      rw [show f.finished push = [b] from hone]
      exact ⟨none, [], hsend.finish hwhole, hrests, by simp⟩
    · rw [show f.finished push = [] from hbusy.finished_next (by omega), List.append_nil]
      refine ⟨some b, _, hsend.cycle hpart, ?_, by simp⟩
      rw [Option.elim_some, List.length_append]
      exact hbusy.tick_next (by omega)

section Run

variable (f : InjectorFeed) (push : Nat → List (BitVec 8))

abbrev run (t : Nat) : InjectorFeed := Clocked.run step f push t

/-- `uart_rx` in the cycles before `t`. -/
def line (t : Nat) : List Bool := Clocked.log step (fun f bs => [f.uartRx bs]) f push t

/-- The bytes enqueued before cycle `t`, after those that `f` starts with. -/
def fed (t : Nat) : List (BitVec 8) := f.enqueued ++ Clocked.log step (fun _ bs => bs) f push t

/-- The bytes whose frames are complete before cycle `t`. -/
def injected (t : Nat) : List (BitVec 8) := Clocked.log step finished f push t

variable {f push}

variable (f push) in
theorem onLine_line (t : Nat) : (line f push t).length = t ∧
    OnLine (line f push t) fun t => (run f push t).uartRx (push t) := onLine_log _ _ _ _ t

theorem Inv.run {w : List (BitVec 8)} (h : Inv N f [] [] w) (hN : 3 ≤ N) (t : Nat) :
    Inv N (run f push t) (line f push t) (injected f push t)
      (w ++ Clocked.log InjectorFeed.step (fun _ bs => bs) f push t) := by
  induction t with
  | zero => rwa [Clocked.log_zero, List.append_nil]
  | succ t ih =>
    have hstep := ih.step (push t) hN
    rwa [List.append_assoc] at hstep

/-- After the first cycle, which shows the idle level, the line starts afresh. -/
theorem Inv.first (h : f.injector.Rests N) (hN : 3 ≤ N) (bs : List (BitVec 8)) :
    f.uartRx bs = true ∧ Inv N (f.step bs) [] [] (f.enqueued ++ bs) := by
  obtain ⟨hhigh, ⟨hq, hrests, hempty⟩ | ⟨b, hat, hq⟩⟩ := step_of_rests bs h hN
  · exact ⟨hhigh, none, [], sending_nil, hrests, by rw [hq, hempty]; rfl⟩
  · exact ⟨hhigh, some b, [], sending_nil.start b, hat, hq⟩

theorem injected_succ (t : Nat) :
    injected f push (t + 1) = injected f push t ++ (run f push t).injector.finished := rfl

theorem injected_one_add (h : f.injector.Rests N) (t : Nat) :
    injected f push (1 + t) = injected (f.step (push 0)) (fun j => push (1 + j)) t := by
  have hfirst : injected f push 1 = [] := UARTInjector.Rests.finished h
  exact (Clocked.log_add 1 t).trans (congrArg (· ++ _) hfirst)

theorem fed_one_add (t : Nat) : fed f push (1 + t) =
    f.enqueued ++ push 0 ++
      Clocked.log InjectorFeed.step (fun _ bs => bs) (f.step (push 0)) (fun j => push (1 + j)) t := by
  rw [fed, Clocked.log_add, List.append_assoc]
  rfl

theorem injected_grows_of_at {p t : Nat} (h : UARTInjector.At N b p (run f push t).injector) :
    ∃ t' > t, (injected f push t).length < (injected f push t').length := by
  induction hd : 10 * (N - 1) - p generalizing p t with
  | zero =>
    have hlt := h.lt
    omega
  | succ d ih =>
    have hlt := h.lt
    have hnext : (run f push (t + 1)).injector = (run f push t).injector.tick.1 := by
      show ((run f push t).step (push t)).injector = _
      rw [InjectorFeed.step, offer_of_at h]
    by_cases hend : p + 1 = 10 * (N - 1)
    · refine ⟨t + 1, Nat.lt_succ_self t, ?_⟩
      rw [injected_succ, (h.tick_finish hend).2, List.length_append]
      exact Nat.lt_succ_self _
    · have hat : UARTInjector.At N b (p + 1) (run f push (t + 1)).injector := hnext ▸ h.tick_next (by omega)
      obtain ⟨t', ht', hlt'⟩ := ih hat (by omega)
      have hle : (injected f push t).length ≤ (injected f push (t + 1)).length :=
        (Clocked.log_mono (Nat.le_succ t)).length_le
      exact ⟨t', by omega, by omega⟩

/-- Every byte enqueued is sent. -/
theorem fed_injected (h : f.injector.Rests N) (hN : 3 ≤ N) (t : Nat) :
    ∃ t' ≥ t, fed f push t <+: injected f push t' := by
  have hinv (t : Nat) : Inv N (run f push t) (line f push t) (injected f push t) (fed f push t) :=
    (Inv.initial h).run hN t
  have hmono {m n : Nat} (h : m ≤ n) : fed f push m <+: fed f push n :=
    (List.prefix_append_right_inj _).2 (Clocked.log_mono h)
  have hpre (t : Nat) : injected f push t <+: fed f push t := by
    obtain ⟨cur, part, -, -, hfed⟩ := hinv t
    rw [← hfed, List.append_assoc]
    exact List.prefix_append _ _
  refine Clocked.exists_caught_up hmono hpre (fun t hlt => ?_) t
  obtain ⟨cur, part, -, hat, hfed⟩ := hinv t
  cases cur with
  | some b => exact injected_grows_of_at hat
  | none =>
    obtain ⟨-, ⟨hq, -⟩ | ⟨b, hstart, -⟩⟩ := step_of_rests (push t) hat hN
    · rw [← hfed, (List.append_eq_nil_iff.1 hq).1] at hlt
      simp at hlt
    · obtain ⟨t', ht', hlt'⟩ := injected_grows_of_at (t := t + 1) hstart
      have hle : (injected f push t).length ≤ (injected f push (t + 1)).length :=
        (Clocked.log_mono (Nat.le_succ t)).length_le
      exact ⟨t', by omega, by omega⟩

end Run

end InjectorFeed

end PenPlotter
