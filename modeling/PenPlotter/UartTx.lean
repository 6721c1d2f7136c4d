import PenPlotter.UartWrite
import PenPlotter.Serial

/-!
# The transmitter

With `N = clks_per_bit` the transmitter is either idle or at cycle `r` of symbol `q` of the frame of
a byte that is still at the head of the TX ring (`TxAt`); each tick of the free-running counter ends
a symbol. The byte leaves the ring with the last cycle of its stop bit.
-/

namespace PenPlotter

open Serial

variable {k : Nat} {ClockRate N : Nat}

theorem counter_eq_pred_iff {c n : BitVec 32} (hn : 0 < n.toNat) :
    (c == n - 1) = true ↔ c.toNat + 1 = n.toNat := by
  rw [beq_iff_eq]
  bv_omega

theorem toNat_counter_succ {c n : BitVec 32} (h : c.toNat < n.toNat) :
    (c + 1).toNat = c.toNat + 1 := by
  bv_omega

namespace UartState

variable (s : UartState k) (i : UartIn)

/-- The byte whose stop bit ends with this cycle. -/
def sentByte (ClockRate : Nat) : List (BitVec 8) :=
  if s.txState == .stop && s.txBaud ClockRate then [s.txDataLatch] else []

/-- The state of the transmitter during symbol `q` of a frame. -/
def txPhaseOf (q : Nat) : UartPhase := if q = 0 then .start else if q ≤ 8 then .data else .stop

structure TxAt (N : Nat) (b : BitVec 8) (q r : Nat) : Prop where
  q_lt : q < 10
  r_lt : r < N
  counter : s.txBaudCounter.toNat = r
  state : s.txState = txPhaseOf q
  count : 1 ≤ q → q ≤ 8 → s.txDataCount.toNat = q - 1
  latch : s.txDataLatch = b
  head : ∃ rest, s.txContents = b :: rest

structure TxIdle (N : Nat) : Prop where
  state : s.txState = .idle
  counter : s.txBaudCounter.toNat < N

variable {s i} {b : BitVec 8} {q r : Nat}

theorem txBaud_iff (hN : 0 < N) (hb : (s.clks ClockRate).toNat = N) :
    s.txBaud ClockRate = true ↔ s.txBaudCounter.toNat + 1 = N := by
  subst hb
  exact counter_eq_pred_iff hN

/-- The transmit counter wraps at `clks_per_bit`. -/
theorem toNat_txBaudCounter_step (hN : 0 < N) (hb : (s.clks ClockRate).toNat = N)
    (hc : s.txBaudCounter.toNat < N) : (s.step ClockRate i).txBaudCounter.toNat =
      if s.txBaudCounter.toNat + 1 = N then 0 else s.txBaudCounter.toNat + 1 := by
  show (if s.txBaud ClockRate then (0 : BitVec 32) else s.txBaudCounter + 1).toNat = _
  by_cases h : s.txBaudCounter.toNat + 1 = N
  · rw [if_pos ((txBaud_iff hN hb).2 h), if_pos h]
    rfl
  · rw [if_neg (mt (txBaud_iff hN hb).1 h), if_neg h]
    subst hb
    exact toNat_counter_succ hc

theorem txEmpty_iff : s.txEmpty = true ↔ s.txContents = [] := by
  rw [txEmpty, beq_iff_eq, txContents, Ring.contents_eq_nil_iff]

theorem txEmpty_of_txFull (hk : 0 < k) (hf : s.txFull = true) : s.txEmpty = false := by
  rw [txFull, beq_iff_eq] at hf
  rw [txEmpty, beq_eq_false_iff_ne, ← hf]
  exact fun h => Ring.one_ne_zero_of_pos hk (by grind)

theorem txContents_step : (s.step ClockRate i).txContents =
    Ring.contents (s.deviceNext i).txBuf (s.txNext ClockRate).txBufStart (s.deviceNext i).txBufEnd :=
  rfl

theorem txBufStart_txNext (h : s.txState ≠ .stop ∨ s.txBaud ClockRate = false) :
    (s.txNext ClockRate).txBufStart = s.txBufStart := by
  unfold txNext
  cases hs : s.txState with
  | stop => simp [h.resolve_left (by simp [hs])]
  | idle => dsimp only; split <;> rfl
  | start => dsimp only; split <;> rfl
  | data => dsimp only; split <;> (try split) <;> rfl

/-- Unless a stop bit ends, the ring only grows. -/
theorem txContents_step_of_not_popping (h : s.txState ≠ .stop ∨ s.txBaud ClockRate = false) :
    (s.step ClockRate i).txContents = s.txContents ++ s.pushedByte := by
  rw [txContents_step, txBufStart_txNext h, contents_deviceNext]

/-- The end of a stop bit takes the byte out of the ring. -/
theorem txContents_step_of_popping (hs : s.txState = .stop) (ht : s.txBaud ClockRate = true)
    {rest : List (BitVec 8)} (hc : s.txContents = b :: rest) :
    (s.step ClockRate i).txContents = rest ++ s.pushedByte := by
  have hne : s.txEmpty = false := by
    rw [← Bool.not_eq_true, txEmpty_iff, hc]
    simp
  have hstart : (s.txNext ClockRate).txBufStart = s.txBufStart + 1 := by
    simp [txNext, hs, ht, hne]
  have hgrow := contents_deviceNext (s := s) (i := i)
  rw [txContents_step, hstart]
  rw [hc, Ring.contents_pop, List.cons_append, List.cons.injEq] at hgrow
  · exact hgrow.2
  · intro heq
    rw [Ring.contents_eq_nil_iff.2 heq] at hgrow
    cases hgrow

namespace TxAt

theorem txO (h : s.TxAt N b q r) : s.txO = symbol b q := by
  have hq := h.q_lt
  rw [UartState.txO, h.state, txPhaseOf, symbol]
  by_cases h0 : q = 0
  · rw [if_pos h0, if_pos h0]
  · rw [if_neg h0, if_neg h0]
    by_cases h8 : q ≤ 8
    · rw [if_pos h8, if_pos h8]
      dsimp only
      rw [h.latch, h.count (by omega) h8]
    · rw [if_neg h8, if_neg h8]

theorem not_txEmpty (h : s.TxAt N b q r) : s.txEmpty = false := by
  obtain ⟨rest, hrest⟩ := h.head
  rw [← Bool.not_eq_true, txEmpty_iff, hrest]
  simp

theorem txBaud (h : s.TxAt N b q r) (hb : (s.clks ClockRate).toNat = N) :
    s.txBaud ClockRate = true ↔ r + 1 = N := by
  have := h.r_lt
  rw [txBaud_iff (by omega) hb, h.counter]

theorem head_step (h : s.TxAt N b q r)
    (hp : s.txState ≠ .stop ∨ s.txBaud ClockRate = false) :
    ∃ rest, (s.step ClockRate i).txContents = b :: rest := by
  obtain ⟨rest, hrest⟩ := h.head
  exact ⟨rest ++ s.pushedByte, by rw [txContents_step_of_not_popping hp, hrest]; rfl⟩

theorem counter_step (h : s.TxAt N b q r) (hb : (s.clks ClockRate).toNat = N) :
    (s.step ClockRate i).txBaudCounter.toNat = if r + 1 = N then 0 else r + 1 := by
  have := h.r_lt
  rw [toNat_txBaudCounter_step (by omega) hb (by rw [h.counter]; exact h.r_lt), h.counter]

theorem step_within (h : s.TxAt N b q r) (hb : (s.clks ClockRate).toNat = N) (hr : r + 1 < N) :
    (s.step ClockRate i).TxAt N b q (r + 1) := by
  have ht : s.txBaud ClockRate = false := by
    rw [← Bool.not_eq_true, h.txBaud hb]
    omega
  have hsame : (s.step ClockRate i).toTxRegs = s.toTxRegs := by
    show s.txNext ClockRate = _
    unfold txNext
    cases s.txState <;> simp [ht]
  refine ⟨h.q_lt, hr, ?_, ?_, fun h1 h8 => ?_, ?_, h.head_step (.inr ht)⟩
  · rw [h.counter_step hb, if_neg (by omega)]
  · rw [hsame]; exact h.state
  · rw [hsame]; exact h.count h1 h8
  · rw [hsame]; exact h.latch

theorem step_next (h : s.TxAt N b q r) (hb : (s.clks ClockRate).toNat = N) (hr : r + 1 = N)
    (hq : q < 9) : (s.step ClockRate i).TxAt N b (q + 1) 0 := by
  have ht := (h.txBaud hb).2 hr
  have hns : s.txState ≠ .stop := by
    rw [h.state, txPhaseOf]
    split_ifs <;> first | decide | omega
  refine ⟨by omega, by omega, by rw [h.counter_step hb, if_pos hr], ?_, fun h1 h8 => ?_, ?_,
    h.head_step (.inl hns)⟩
  · show (s.txNext ClockRate).txState = txPhaseOf (q + 1)
    by_cases h0 : q = 0
    · have hst : s.txState = .start := by rw [h.state, h0]; rfl
      simp [txNext, hst, ht, txPhaseOf, h0]
    · have hst : s.txState = .data := by rw [h.state, txPhaseOf, if_neg h0, if_pos (by omega)]
      have hcount := h.count (by omega) (by omega)
      by_cases h7 : s.txDataCount = 7
      · have : q = 8 := by rw [h7] at hcount; simp at hcount; omega
        simp [txNext, hst, ht, h7, txPhaseOf, this]
      · have : q ≠ 8 := fun h8 => h7 (BitVec.eq_of_toNat_eq (by rw [hcount, h8]; rfl))
        have : q + 1 ≤ 8 := by omega
        simp only [txNext, hst, ht, h7, if_true, if_false, txPhaseOf, this]
        simp
  · show (s.txNext ClockRate).txDataCount.toNat = q + 1 - 1
    by_cases h0 : q = 0
    · have hst : s.txState = .start := by rw [h.state, h0]; rfl
      simp [txNext, hst, ht, h0]
    · have hst : s.txState = .data := by rw [h.state, txPhaseOf, if_neg h0, if_pos (by omega)]
      have hcount := h.count (by omega) (by omega)
      have h7 : s.txDataCount ≠ 7 := fun h7 => by rw [h7] at hcount; simp at hcount; omega
      simp only [txNext, hst, ht, h7, if_true, if_false]
      bv_omega
  · show (s.txNext ClockRate).txDataLatch = b
    rw [← h.latch]
    unfold txNext
    cases hs : s.txState with
    | idle => simp [h.state, txPhaseOf] at hs; split_ifs at hs
    | start => simp [ht]
    | data => dsimp only; split <;> (try split) <;> rfl
    | stop => exact absurd hs hns

theorem step_end (h : s.TxAt N b 9 r) (hb : (s.clks ClockRate).toNat = N) (hr : r + 1 = N) :
    (s.step ClockRate i).TxIdle N ∧
      s.txContents ++ s.pushedByte = b :: (s.step ClockRate i).txContents := by
  have ht := (h.txBaud hb).2 hr
  have hst : s.txState = .stop := h.state
  obtain ⟨rest, hrest⟩ := h.head
  refine ⟨⟨?_, ?_⟩, ?_⟩
  · show (s.txNext ClockRate).txState = .idle
    simp [txNext, hst, ht, h.not_txEmpty]
  · rw [h.counter_step hb, if_pos hr]
    omega
  · rw [txContents_step_of_popping hst ht hrest, hrest]
    rfl

end TxAt

namespace TxIdle

theorem txO (h : s.TxIdle N) : s.txO = true := by
  rw [UartState.txO, h.state]

theorem txContents_step (h : s.TxIdle N) :
    (s.step ClockRate i).txContents = s.txContents ++ s.pushedByte :=
  txContents_step_of_not_popping (.inl (by rw [h.state]; decide))

/-- Without a tick, or with nothing to send, the transmitter stays idle. -/
theorem step_stay (h : s.TxIdle N) (hN : 0 < N) (hb : (s.clks ClockRate).toNat = N)
    (hstay : s.txContents = [] ∨ s.txBaudCounter.toNat + 1 ≠ N) : (s.step ClockRate i).TxIdle N := by
  refine ⟨?_, ?_⟩
  · show (s.txNext ClockRate).txState = .idle
    have hcond : (!s.txEmpty && s.txBaud ClockRate) = false := by
      rcases hstay with hc | hc
      · simp [txEmpty_iff.2 hc]
      · simp [mt (txBaud_iff hN hb).1 hc]
    simp only [txNext, h.state, hcond, Bool.false_eq_true, if_false]
  · have := h.counter
    rw [toNat_txBaudCounter_step hN hb h.counter]
    split <;> omega

/-- A tick with a byte waiting starts its frame. -/
theorem step_start (h : s.TxIdle N) (hN : 0 < N) (hb : (s.clks ClockRate).toNat = N)
    {rest : List (BitVec 8)} (hc : s.txContents = b :: rest) (ht : s.txBaudCounter.toNat + 1 = N) :
    (s.step ClockRate i).TxAt N b 0 0 := by
  have htick := (txBaud_iff hN hb).2 ht
  have hne : s.txBufStart ≠ s.txBufEnd := fun heq => by
    rw [txContents, Ring.contents_eq_nil_iff.2 heq] at hc
    cases hc
  have hnext : s.txNext ClockRate =
      { s.toTxRegs with txDataLatch := s.txBuf s.txBufStart, txState := .start } := by
    have : s.txEmpty = false := by simp [txEmpty, hne]
    simp [txNext, h.state, htick, this]
  refine ⟨by omega, hN, ?_, ?_, by omega, ?_, ?_⟩
  · rw [toNat_txBaudCounter_step hN hb h.counter, if_pos ht]
  · show (s.txNext ClockRate).txState = _
    rw [hnext]
    rfl
  · show (s.txNext ClockRate).txDataLatch = b
    rw [txContents, Ring.contents_pop hne] at hc
    rw [hnext]
    exact (List.cons.inj hc).1
  · exact ⟨rest ++ s.pushedByte, by rw [h.txContents_step, hc]; rfl⟩

end TxIdle

end UartState

end PenPlotter
