import PenPlotter.UartReceive

/-!
# The simulated receiver (`dv/verilator/peripherals/sim_uart.hpp`)

`UARTDecoder` is ticked once per clock on the line. Its bit period is one cycle short of `ticks_per_baud`, so it
drifts by nine cycles in a frame, less than the half bit that it starts with (`UARTDecoder.reader`).
-/

namespace PenPlotter

open Serial

/-- The states of `UARTState` are those of `uart_state_e`. -/
structure UARTDecoder where
  state : UartPhase
  ticks : Nat
  val : BitVec 32
  bit : Nat
  ticksPerBaud : Nat

namespace UARTDecoder

variable (d : UARTDecoder) (txIn : Bool)

def tick : UARTDecoder :=
  let d := { d with ticks := d.ticks + 1 }
  match d.state with
  | .idle => if !txIn then { d with state := .start, ticks := 0, val := 0 } else d
  | .start =>
    if d.ticks = (d.ticksPerBaud - 1) / 2 then { d with bit := 0, ticks := 0, state := .data } else d
  | .data =>
    if d.ticks = d.ticksPerBaud - 1 then
      let d :=
        { d with val := d.val ||| (BitVec.ofBool txIn).setWidth 32 <<< d.bit, ticks := 0, bit := d.bit + 1 }
      if 8 ≤ d.bit then { d with state := .stop } else d
    else d
  | .stop => if d.ticks = d.ticksPerBaud - 1 then { d with state := .idle } else d

/-- What `notify` is called with in this cycle. -/
def notified (_txIn : Bool) : List (BitVec 8) :=
  if d.state = .stop ∧ d.ticks + 1 = d.ticksPerBaud - 1 then [d.val.setWidth 8] else []

variable (L : Nat → Bool)

def run (t : Nat) : UARTDecoder := Clocked.run tick d L t

/-- The bytes notified before cycle `t`. -/
def decoded (t : Nat) : List (BitVec 8) := Clocked.log tick notified d L t

variable {d L} {N : Nat} {x : Bool}

theorem run_succ (t : Nat) : run d L (t + 1) = (run d L t).tick (L t) := rfl

theorem decoded_succ (t : Nat) : decoded d L (t + 1) = decoded d L t ++ (run d L t).notified (L t) := rfl

theorem run_add (m n : Nat) : run d L (m + n) = run (run d L m) (fun t => L (m + t)) n := Clocked.run_add m n

theorem decoded_add (m n : Nat) :
    decoded d L (m + n) = decoded d L m ++ decoded (run d L m) (fun t => L (m + t)) n := Clocked.log_add m n

/-- The ticks after which the decoder leaves its state or takes the next bit. -/
def limit (N : Nat) : UartPhase → Nat
  | .start => (N - 1) / 2
  | _ => N - 1

/-- In state `st`, at bit `i`, with `val` collected, `r` ticks after the last change. -/
structure Timing (N : Nat) (st : UartPhase) (i : Nat) (val : BitVec 32) (r : Nat) (d : UARTDecoder) : Prop where
  state : d.state = st
  bit : d.bit = i
  val : d.val = val
  ticks : d.ticks = r
  ticksPerBaud : d.ticksPerBaud = N

structure Idle (N : Nat) (d : UARTDecoder) : Prop where
  state : d.state = .idle
  ticksPerBaud : d.ticksPerBaud = N

variable {st : UartPhase} {i r : Nat} {val : BitVec 32}

theorem Timing.step (h : Timing N st i val r d) (hidle : st ≠ .idle) (hr : r + 1 < limit N st) :
    Timing N st i val (r + 1) (d.tick x) ∧ d.notified x = [] := by
  obtain ⟨rfl, rfl, rfl, rfl, rfl⟩ := h
  have hne : d.ticks + 1 ≠ limit d.ticksPerBaud d.state := by omega
  have htick : d.tick x = { d with ticks := d.ticks + 1 } := by
    unfold tick
    cases hst : d.state with
    | idle => exact absurd hst hidle
    | _ =>
      rw [hst] at hne
      exact if_neg hne
  refine ⟨?_, if_neg ?_⟩
  · rw [htick]
    exact ⟨rfl, rfl, rfl, rfl, rfl⟩
  · rintro ⟨hstop, heq⟩
    rw [hstop] at hne
    exact hne heq

theorem Timing.wait (h : Timing N st i val 0 d) (hidle : st ≠ .idle) {n : Nat} (hn : n < limit N st) :
    Timing N st i val n (run d L n) ∧ decoded d L n = [] := by
  induction n with
  | zero => exact ⟨h, rfl⟩
  | succ n ih =>
    obtain ⟨ht, hlog⟩ := ih (by omega)
    obtain ⟨ht, hquiet⟩ := ht.step (x := L n) hidle hn
    exact ⟨ht, by rw [decoded_succ, hlog, hquiet]; rfl⟩

/-- The tick that ends a stretch of `limit` ticks, after quiet ones. -/
theorem Timing.until_limit (h : Timing N st i val 0 d) (hidle : st ≠ .idle) (hpos : 0 < limit N st) :
    ∃ d', Timing N st i val (limit N st - 1) d' ∧ run d L (limit N st) = d'.tick (L (limit N st - 1)) ∧
      decoded d L (limit N st) = d'.notified (L (limit N st - 1)) := by
  obtain ⟨ht, hlog⟩ := h.wait (L := L) hidle (n := limit N st - 1) (by omega)
  refine ⟨_, ht, ?_, ?_⟩
  · rw [← run_succ, Nat.sub_add_cancel hpos]
  · rw [← Nat.sub_add_cancel hpos, decoded_succ, hlog, Nat.sub_add_cancel hpos]
    rfl

theorem Timing.start_end (h : Timing N .start i val ((N - 1) / 2 - 1) d) (hN : 3 ≤ N) :
    Timing N .data 0 val 0 (d.tick x) ∧ d.notified x = [] := by
  obtain ⟨hst, -, rfl, hticks, rfl⟩ := h
  have heq : d.ticks + 1 = (d.ticksPerBaud - 1) / 2 := by omega
  refine ⟨?_, if_neg fun hstop => by rw [hst] at hstop; cases hstop.1⟩
  unfold tick
  simp only [hst, heq, if_true]
  exact ⟨rfl, rfl, rfl, rfl, rfl⟩

theorem Timing.data_end (h : Timing N .data i val (N - 1 - 1) d) (hN : 3 ≤ N) :
    Timing N (if 8 ≤ i + 1 then .stop else .data) (i + 1) (val ||| (BitVec.ofBool x).setWidth 32 <<< i) 0
      (d.tick x) ∧ d.notified x = [] := by
  obtain ⟨hst, rfl, rfl, hticks, rfl⟩ := h
  have heq : d.ticks + 1 = d.ticksPerBaud - 1 := by omega
  refine ⟨?_, if_neg fun hstop => by rw [hst] at hstop; cases hstop.1⟩
  unfold tick
  simp only [hst, heq, if_true]
  split
  · exact ⟨rfl, rfl, rfl, rfl, rfl⟩
  · exact ⟨rfl, rfl, rfl, rfl, rfl⟩

theorem Timing.stop_end (h : Timing N .stop i val (N - 1 - 1) d) (hN : 3 ≤ N) :
    Idle N (d.tick x) ∧ d.notified x = [val.setWidth 8] := by
  obtain ⟨hst, rfl, rfl, hticks, rfl⟩ := h
  have heq : d.ticks + 1 = d.ticksPerBaud - 1 := by omega
  refine ⟨?_, if_pos ⟨hst, heq⟩⟩
  unfold tick
  simp only [hst, heq, if_true]
  exact ⟨rfl, rfl⟩

theorem Timing.bit_run (h : Timing N .data i val 0 d) (hN : 3 ≤ N) :
    Timing N (if 8 ≤ i + 1 then .stop else .data) (i + 1)
        (val ||| (BitVec.ofBool (L (N - 1 - 1))).setWidth 32 <<< i) 0 (run d L (N - 1)) ∧
      decoded d L (N - 1) = [] := by
  obtain ⟨d', ht, hrun, hlog⟩ := h.until_limit (L := L) (by decide) (show 0 < N - 1 by omega)
  obtain ⟨ht, hquiet⟩ := ht.data_end (x := L (N - 1 - 1)) hN
  refine ⟨?_, hlog.trans hquiet⟩
  rw [show run d L (N - 1) = d'.tick (L (N - 1 - 1)) from hrun]
  exact ht

theorem Timing.stop_run (h : Timing N .stop i val 0 d) (hN : 3 ≤ N) :
    Idle N (run d L (N - 1)) ∧ decoded d L (N - 1) = [val.setWidth 8] := by
  obtain ⟨d', ht, hrun, hlog⟩ := h.until_limit (L := L) (by decide) (show 0 < N - 1 by omega)
  obtain ⟨hidle, hone⟩ := ht.stop_end (x := L (N - 1 - 1)) hN
  refine ⟨?_, hlog.trans hone⟩
  rw [show run d L (N - 1) = d'.tick (L (N - 1 - 1)) from hrun]
  exact hidle

theorem getLsbD_sample (val : BitVec 32) {i j : Nat} (hj : j < 32) :
    (val ||| (BitVec.ofBool x).setWidth 32 <<< i).getLsbD j = (val.getLsbD j || decide (j = i) && x) := by
  rw [BitVec.getLsbD_or, BitVec.getLsbD_shiftLeft, BitVec.getLsbD_setWidth, BitVec.getLsbD_ofBool]
  congr 1
  rcases Nat.lt_trichotomy j i with hlt | rfl | hgt
  · simp [hlt, Nat.ne_of_lt hlt]
  · simp [hj]
  · simp [hj, Nat.ne_of_gt hgt, Nat.sub_eq_zero_iff_le, Nat.not_le_of_gt hgt]

/-- The first `i` bits of `b`. -/
def Collected (b : BitVec 8) (i : Nat) (val : BitVec 32) : Prop :=
  ∀ j < 32, val.getLsbD j = (decide (j < i) && b.getLsbD j)

theorem Collected.zero {b : BitVec 8} : Collected b 0 0 := fun j _ => by simp

theorem Collected.sample {b : BitVec 8} (h : Collected b i val) (hx : x = b.getLsbD i) :
    Collected b (i + 1) (val ||| (BitVec.ofBool x).setWidth 32 <<< i) := by
  intro j hj
  rw [getLsbD_sample val hj, h j hj, hx]
  rcases Nat.lt_trichotomy j i with hlt | rfl | hgt
  · simp [hlt, Nat.ne_of_lt hlt, Nat.lt_succ_of_lt hlt]
  · simp
  · simp [Nat.ne_of_gt hgt, Nat.not_lt_of_gt hgt, Nat.not_lt_of_ge (Nat.succ_le_of_lt hgt)]

theorem Collected.byte {b : BitVec 8} (h : Collected b 8 val) : val.setWidth 8 = b := by
  refine BitVec.eq_of_getLsbD_eq fun j hj => ?_
  rw [BitVec.getLsbD_setWidth, h j (by omega)]
  simp [hj]

theorem Timing.bits {b : BitVec 8} (h : Timing N .data 0 0 0 d) (hN : 3 ≤ N) (hi : i ≤ 8)
    (hL : ∀ j < i, L (j * (N - 1) + (N - 1 - 1)) = b.getLsbD j) :
    ∃ val, Timing N (if 8 ≤ i then .stop else .data) i val 0 (run d L (i * (N - 1))) ∧
      Collected b i val ∧ decoded d L (i * (N - 1)) = [] := by
  induction i with
  | zero => exact ⟨0, by rwa [Nat.zero_mul], .zero, by rw [Nat.zero_mul]; rfl⟩
  | succ i ih =>
    obtain ⟨val, ht, hval, hlog⟩ := ih (by omega) fun j hj => hL j (by omega)
    rw [if_neg (by omega)] at ht
    obtain ⟨ht, hquiet⟩ := ht.bit_run (L := fun t => L (i * (N - 1) + t)) hN
    rw [Nat.succ_mul, run_add, decoded_add, hlog, hquiet]
    exact ⟨_, ht, hval.sample (hL i (by omega)), rfl⟩

theorem Idle.high (h : Idle N d) : Idle N (d.tick true) ∧ d.notified true = [] := by
  obtain ⟨hst, rfl⟩ := h
  refine ⟨?_, if_neg fun hstop => by rw [hst] at hstop; cases hstop.1⟩
  unfold tick
  simp only [hst, Bool.not_true, Bool.false_eq_true, if_false]
  exact ⟨rfl, rfl⟩

theorem Idle.edge (h : Idle N d) : Timing N .start d.bit 0 0 (d.tick false) ∧ d.notified false = [] := by
  obtain ⟨hst, rfl⟩ := h
  refine ⟨?_, if_neg fun hstop => by rw [hst] at hstop; cases hstop.1⟩
  unfold tick
  simp only [hst, Bool.not_false, if_true]
  exact ⟨rfl, rfl, rfl, rfl, rfl⟩

/-- Half a bit after the start edge the bits are timed. -/
theorem Idle.start (h : Idle N d) (hN : 3 ≤ N) (h0 : L 0 = false) :
    Timing N .data 0 0 0 (run d L (1 + (N - 1) / 2)) ∧ decoded d L (1 + (N - 1) / 2) = [] := by
  obtain ⟨ht, hquiet⟩ := h.edge
  have hfirst : run d L 1 = d.tick false := by rw [← h0]; rfl
  have hlog : decoded d L 1 = [] := hquiet
  have hhalf : 0 < limit N .start := by
    show 0 < (N - 1) / 2
    omega
  obtain ⟨d', ht, hrun, hlog'⟩ := ht.until_limit (L := fun t => L (1 + t)) (by decide) hhalf
  obtain ⟨ht, hquiet⟩ := ht.start_end (x := L (1 + (limit N .start - 1))) hN
  rw [run_add, decoded_add, hfirst, hlog]
  refine ⟨?_, hlog'.trans hquiet⟩
  rw [show run (d.tick false) (fun t => L (1 + t)) ((N - 1) / 2) = d'.tick _ from hrun]
  exact ht

/-- With 17 cycles a bit the drift of the last sample is within the half bit. -/
theorem Idle.frame {b : BitVec 8} (h : Idle N d) (hN : 17 ≤ N) (hL : Shows N b L) :
    Idle N (run d L (10 * N)) ∧ decoded d L (10 * N) = [b] := by
  obtain ⟨ht, hlog⟩ := h.start (by omega) (hL.at_symbol (q := 0) (by omega) (by omega) (by omega))
  obtain ⟨half, hhalf⟩ : ∃ half, half = 1 + (N - 1) / 2 := ⟨_, rfl⟩
  rw [← hhalf] at ht hlog
  have hsample (j : Nat) (hj : j < 8) : L (half + (j * (N - 1) + (N - 1 - 1))) = b.getLsbD j := by
    have hdrift : (j + 1) * N = j * (N - 1) + (N - 1) + (j + 1) := by
      obtain ⟨M, rfl⟩ : ∃ M, N = M + 1 := ⟨N - 1, by omega⟩
      rw [Nat.add_sub_cancel, Nat.mul_succ, Nat.succ_mul]
    rw [← symbol_data hj]
    exact hL.at_symbol (by omega) (by omega) (by omega)
  obtain ⟨val, ht, hval, hquiet⟩ := ht.bits (L := fun t => L (half + t)) (by omega) (i := 8) (Nat.le_refl 8) hsample
  rw [if_pos (Nat.le_refl 8), ← run_add] at ht
  obtain ⟨hidle, hone⟩ := ht.stop_run (L := fun t => L (half + 8 * (N - 1) + t)) (by omega)
  have hbyte : decoded d L (half + 8 * (N - 1) + (N - 1)) = [b] := by
    rw [decoded_add, decoded_add, hlog, hquiet, hone, hval.byte]
    rfl
  rw [← run_add] at hidle
  -- bit 7 is over by then
  have hhigh (d : UARTDecoder) (h : Idle N d) : Idle N (d.tick true) ∧ d.notified true = [] := h.high
  obtain ⟨hready, hquiet⟩ := gap_of_high hhigh hidle
    (L := fun t => L (half + 8 * (N - 1) + (N - 1) + t)) (g := 10 * N - (half + 8 * (N - 1) + (N - 1)))
    fun t ht => hL.at_symbol (q := 9) (by omega) (by omega) (by omega)
  have hlen : 10 * N = half + 8 * (N - 1) + (N - 1) + (10 * N - (half + 8 * (N - 1) + (N - 1))) := by omega
  rw [hlen, run_add, decoded_add, hbyte]
  exact ⟨hready, congrArg ([b] ++ ·) hquiet⟩

theorem reader (hN : 17 ≤ N) : Reader (frame N) tick notified (Idle N) where
  high _ h := h.high
  frame d b L h hL := by
    rw [length_frame]
    exact h.frame hN (shows_of_onLine hL)

end UARTDecoder

end PenPlotter
