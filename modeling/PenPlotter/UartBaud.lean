import PenPlotter.UartSend

/-!
# The free-running baud counters

Both counters are compared with `clks_per_bit - 1` for equality, so a counter that has passed the bound
runs on to its 32-bit wrap. The bound only moves when the baud register is written
(`uart_counters_bounded`), and while the register is disabled the bound is 0 and the comparison fires
in the last cycle before the wrap (`uart_disabled_stalls`).
-/

namespace PenPlotter

variable {k ClockRate : Nat}

namespace UartState

variable (ClockRate) (s : UartState k)

/-- Both counters are below `clks_per_bit` now, or after one cycle. -/
def CountersBounded : Prop :=
  (s.rxBaudCounter < s.clks ClockRate ∨ (s.baudNext ClockRate).rxBaudCounter < s.clks ClockRate) ∧
    (s.txBaudCounter < s.clks ClockRate ∨ (s.baudNext ClockRate).txBaudCounter < s.clks ClockRate)

/-- The bound that the latched word selects. -/
def clksWritten : BitVec 32 := clksPerBit ClockRate (s.wdataLatch.setWidth 8)

/-- This cycle writes an enabled code to the baud register. -/
def Enables : Prop :=
  s.deviceState = .write ∧ s.wdataSelector = .baud ∧ s.clksWritten ClockRate ≠ 0

/-- The receiver asks for a restart of its counter. -/
def restartsRx : Bool :=
  (s.rxState == .idle || s.rxState == .start && s.rxSample ClockRate) && !s.rxSync0

/-- Each counter ticks, restarts, stays below the bound being written, or is about to wrap. -/
structure InTime : Prop where
  rx : s.rxBaud ClockRate = true ∨ s.rxRestartBaud = true ∨ s.restartsRx ClockRate = true ∨
    s.rxBaudCounter + 1 < s.clksWritten ClockRate ∨ s.rxBaudCounter + 2 = 0
  tx : s.txBaud ClockRate = true ∨ s.txBaudCounter + 1 < s.clksWritten ClockRate ∨
    s.txBaudCounter + 2 = 0

variable {ClockRate} {s} {i : UartIn}

theorem clks_baudWrite (h : s.deviceState = .write) (hs : s.wdataSelector = .baud) :
    (s.step ClockRate i).clks ClockRate = s.clksWritten ClockRate := by
  show clksPerBit ClockRate (s.deviceNext i).baudSelector = _
  simp [deviceNext, h, hs, clksWritten]

/-- Only a write to the baud lane moves the bound. -/
theorem clks_step (h : ¬(s.deviceState = .write ∧ s.wdataSelector = .baud)) :
    (s.step ClockRate i).clks ClockRate = s.clks ClockRate := by
  rw [clks, baudSelector_step h]
  rfl

theorem rxRestartBaud_step : (s.step ClockRate i).rxRestartBaud = s.restartsRx ClockRate := by
  show (s.rxNext ClockRate i).rxRestartBaud = _
  unfold rxNext restartsRx
  cases s.rxState with
  | idle => cases s.rxSync0 <;> rfl
  | start => cases s.rxSample ClockRate <;> cases s.rxSync0 <;> rfl
  | data => dsimp only; split <;> rfl
  | stop => dsimp only; split <;> rfl

/-- A counter that is compared with `n - 1` is below `n` after the next cycle when it is now, when it
restarts, or when it wraps. -/
theorem counter_bounded_iff {c n : BitVec 32} {r : Bool} (hn : n ≠ 0) :
    (c < n ∨ (if c == n - 1 || r then 0 else c + 1) < n) ↔ c < n ∨ r = true ∨ c + 1 = 0 := by
  by_cases ht : c = n - 1
  · refine iff_of_true (.inl ?_) (.inl ?_) <;> bv_omega
  · have htick : (c == n - 1) = false := beq_eq_false_iff_ne.2 ht
    cases r with
    | true =>
      rw [htick, Bool.or_true, if_pos rfl]
      refine iff_of_true (.inr ?_) (.inr (.inl rfl))
      bv_omega
    | false =>
      rw [htick, Bool.or_false, if_neg (by simp)]
      rw [or_iff_right (a := false = true) (by decide)]
      constructor
      · rintro (h | h)
        · exact .inl h
        · by_cases hc : c < n
          · exact .inl hc
          · right; bv_omega
      · rintro (h | h)
        · exact .inl h
        · right; bv_omega

theorem countersBounded_iff (hn : s.clks ClockRate ≠ 0) : s.CountersBounded ClockRate ↔
    (s.rxBaudCounter < s.clks ClockRate ∨ s.rxRestartBaud = true ∨ s.rxBaudCounter + 1 = 0) ∧
      (s.txBaudCounter < s.clks ClockRate ∨ s.txBaudCounter + 1 = 0) := by
  have htx := counter_bounded_iff (c := s.txBaudCounter) (r := false) hn
  rw [Bool.or_false, or_iff_right (a := false = true) (by decide)] at htx
  exact and_congr (counter_bounded_iff hn) htx

theorem rxBaudCounter_step : (s.step ClockRate i).rxBaudCounter =
    if s.rxBaud ClockRate || s.rxRestartBaud then 0 else s.rxBaudCounter + 1 := rfl

theorem txBaudCounter_step : (s.step ClockRate i).txBaudCounter =
    if s.txBaud ClockRate then 0 else s.txBaudCounter + 1 := rfl

/-- A cycle that leaves the bound alone keeps the counters bounded. -/
theorem CountersBounded.step (h : s.CountersBounded ClockRate) (hn : s.clks ClockRate ≠ 0)
    (hsame : (s.step ClockRate i).clks ClockRate = s.clks ClockRate) :
    (s.step ClockRate i).CountersBounded ClockRate := by
  rw [countersBounded_iff hn] at h
  rw [countersBounded_iff (by rwa [hsame]), hsame, rxBaudCounter_step, txBaudCounter_step]
  obtain ⟨hrx, htx⟩ := h
  refine ⟨.inl ?_, .inl ?_⟩
  · by_cases hzero : (s.rxBaud ClockRate || s.rxRestartBaud) = true
    · rw [if_pos hzero]
      bv_omega
    · rw [if_neg hzero]
      rw [Bool.or_eq_true, not_or, rxBaud, beq_iff_eq] at hzero
      rcases hrx with h | h | h
      · have := hzero.1
        bv_omega
      · exact absurd h hzero.2
      · bv_omega
  · by_cases hzero : s.txBaud ClockRate = true
    · rw [if_pos hzero]
      bv_omega
    · rw [if_neg hzero]
      rw [txBaud, beq_iff_eq] at hzero
      rcases htx with h | h <;> bv_omega

/-- After a write of the bound `n` a counter is below it, restarts or wraps exactly when it came in
time. -/
theorem counter_in_time_iff {c n : BitVec 32} {b r : Bool} (hn : n ≠ 0) :
    ((if b then 0 else c + 1) < n ∨ r = true ∨ (if b then 0 else c + 1) + 1 = 0) ↔
      b = true ∨ r = true ∨ c + 1 < n ∨ c + 2 = 0 := by
  cases b with
  | true =>
    refine iff_of_true (.inl ?_) (.inl rfl)
    rw [if_pos rfl]
    bv_omega
  | false =>
    have hwrap : c + 1 + 1 = 0 ↔ c + 2 = 0 := by
      constructor <;> intro h <;> bv_omega
    rw [if_neg (by decide), hwrap]
    simp only [Bool.false_eq_true, false_or]
    exact or_left_comm

theorem countersBounded_step_iff (he : s.Enables ClockRate) :
    (s.step ClockRate i).CountersBounded ClockRate ↔ s.InTime ClockRate := by
  obtain ⟨hd, hs, hn⟩ := he
  have hclks : (s.step ClockRate i).clks ClockRate = s.clksWritten ClockRate := clks_baudWrite hd hs
  have hrx := counter_in_time_iff (c := s.rxBaudCounter) (n := s.clksWritten ClockRate)
    (b := s.rxBaud ClockRate || s.rxRestartBaud) (r := s.restartsRx ClockRate) hn
  have htx := counter_in_time_iff (c := s.txBaudCounter) (n := s.clksWritten ClockRate)
    (b := s.txBaud ClockRate) (r := false) hn
  simp only [Bool.false_eq_true, false_or] at htx
  rw [countersBounded_iff (by rwa [hclks]), hclks, rxBaudCounter_step, txBaudCounter_step,
    rxRestartBaud_step, hrx, htx, Bool.or_eq_true, or_assoc]
  exact ⟨fun h => ⟨h.1, h.2⟩, fun h => ⟨h.rx, h.tx⟩⟩

/-- What a cycle needs for the counters to be bounded after it. -/
theorem bounded_step_iff (h : s.clks ClockRate ≠ 0 → s.CountersBounded ClockRate) :
    ((s.step ClockRate i).clks ClockRate ≠ 0 → (s.step ClockRate i).CountersBounded ClockRate) ↔
      (s.Enables ClockRate → s.InTime ClockRate) := by
  by_cases hw : s.deviceState = .write ∧ s.wdataSelector = .baud
  · have hclks : (s.step ClockRate i).clks ClockRate = s.clksWritten ClockRate :=
      clks_baudWrite hw.1 hw.2
    rw [hclks]
    constructor
    · exact fun hb he => (countersBounded_step_iff he).1 (hb he.2.2)
    · exact fun hok hn => (countersBounded_step_iff ⟨hw.1, hw.2, hn⟩).2 (hok ⟨hw.1, hw.2, hn⟩)
  · have hclks : (s.step ClockRate i).clks ClockRate = s.clks ClockRate := clks_step hw
    refine iff_of_true (fun hn => ?_) fun he => absurd ⟨he.1, he.2.1⟩ hw
    rw [hclks] at hn
    exact (h hn).step hn hclks

end UartState

/-! ### The bound over whole runs -/

open UartState UartRun

variable {s₀ : UartState k} {inp : Nat → UartIn} {N : Nat}

/-- A transmit counter that is `m` cycles below its last value ticks after `m` cycles. -/
theorem exists_tick {t m : Nat} (hheld : ∀ d ≤ m, ((state ClockRate s₀ inp (t + d)).clks ClockRate).toNat = N)
    (hm : (state ClockRate s₀ inp t).txBaudCounter.toNat + m + 1 = N) :
    ∃ d ≤ m, (state ClockRate s₀ inp (t + d)).txBaud ClockRate = true := by
  induction m generalizing t with
  | zero => exact ⟨0, le_rfl, (txBaud_iff (by omega) (hheld 0 le_rfl)).2 (by simpa using hm)⟩
  | succ m ih =>
    have hnext : (state ClockRate s₀ inp (t + 1)).txBaudCounter.toNat =
        (state ClockRate s₀ inp t).txBaudCounter.toNat + 1 := by
      have h0 : ((state ClockRate s₀ inp t).clks ClockRate).toNat = N := hheld 0 (Nat.zero_le _)
      exact (toNat_txBaudCounter_step (by omega) h0 (by omega)).trans (if_neg (by omega))
    obtain ⟨d, hd, ht⟩ := ih (t := t + 1) (fun d hd => by
      rw [Nat.add_right_comm, Nat.add_assoc]
      exact hheld (d + 1) (by omega)) (by omega)
    exact ⟨d + 1, by omega, by rwa [Nat.add_right_comm, Nat.add_assoc] at ht⟩

/-- Bounded counters tick within `clks_per_bit + 1` cycles. -/
theorem tick_of_bounded {t : Nat} (hn : (state ClockRate s₀ inp t).clks ClockRate ≠ 0)
    (h : (state ClockRate s₀ inp t).CountersBounded ClockRate)
    (hheld : ∀ d ≤ ((state ClockRate s₀ inp t).clks ClockRate).toNat,
      (state ClockRate s₀ inp (t + d)).clks ClockRate = (state ClockRate s₀ inp t).clks ClockRate) :
    ∃ d ≤ ((state ClockRate s₀ inp t).clks ClockRate).toNat,
      (state ClockRate s₀ inp (t + d)).txBaud ClockRate = true := by
  have htx := ((countersBounded_iff hn).1 h).2
  have hpos : 0 < ((state ClockRate s₀ inp t).clks ClockRate).toNat := by bv_omega
  generalize hN : ((state ClockRate s₀ inp t).clks ClockRate).toNat = N at hheld hpos ⊢
  have hheld' : ∀ d ≤ N, ((state ClockRate s₀ inp (t + d)).clks ClockRate).toNat = N :=
    fun d hd => by rw [hheld d hd, hN]
  by_cases hlt : (state ClockRate s₀ inp t).txBaudCounter.toNat < N
  · obtain ⟨d, hd, ht⟩ := exists_tick (t := t)
      (m := N - 1 - (state ClockRate s₀ inp t).txBaudCounter.toNat)
      (fun d hd => hheld' d (by omega)) (by omega)
    exact ⟨d, by omega, ht⟩
  · -- the counter is about to wrap
    have hwrap : (state ClockRate s₀ inp t).txBaudCounter + 1 = 0 := by
      rcases htx with h | h
      · rw [BitVec.lt_def, hN] at h
        exact absurd h hlt
      · exact h
    have hzero : (state ClockRate s₀ inp (t + 1)).txBaudCounter = 0 := by
      show (UartState.step ClockRate _ (inp t)).txBaudCounter = 0
      rw [txBaudCounter_step, hwrap, ite_self]
    obtain ⟨d, hd, ht⟩ := exists_tick (t := t + 1) (m := N - 1) (fun d hd => by
      rw [Nat.add_right_comm, Nat.add_assoc]
      exact hheld' (d + 1) (by omega)) (by rw [hzero]; simp; omega)
    exact ⟨d + 1, by omega, by rwa [Nat.add_right_comm, Nat.add_assoc] at ht⟩

section Reset

variable (ClockRate) (rdata : BitVec 32) (txBuf rxBuf : BitVec k → BitVec 8) (inp)

/-- From reset, both counters are below every enabled bound (now or one cycle later), and the transmitter
ticks within `clks_per_bit + 1` cycles of any state whose bound is held, up to cycle `T`, exactly when
every write of an enabled code before `T` came in time. -/
theorem uart_counters_bounded (T : Nat) :
    (∀ t ≤ T, (state ClockRate (reset rdata txBuf rxBuf) inp t).clks ClockRate ≠ 0 →
      (state ClockRate (reset rdata txBuf rxBuf) inp t).CountersBounded ClockRate ∧
      ((∀ d ≤ ((state ClockRate (reset rdata txBuf rxBuf) inp t).clks ClockRate).toNat,
          (state ClockRate (reset rdata txBuf rxBuf) inp (t + d)).clks ClockRate =
            (state ClockRate (reset rdata txBuf rxBuf) inp t).clks ClockRate) →
        ∃ d ≤ ((state ClockRate (reset rdata txBuf rxBuf) inp t).clks ClockRate).toNat,
          (state ClockRate (reset rdata txBuf rxBuf) inp (t + d)).txBaud ClockRate = true)) ↔
    ∀ t < T, (state ClockRate (reset rdata txBuf rxBuf) inp t).Enables ClockRate →
      (state ClockRate (reset rdata txBuf rxBuf) inp t).InTime ClockRate := by
  constructor
  · intro h t ht
    exact (bounded_step_iff (i := inp t) fun hn => (h t (by omega) hn).1).1
      fun hn => (h (t + 1) (by omega) hn).1
  · intro h t ht hn
    have hall : ∀ t ≤ T, (state ClockRate (reset rdata txBuf rxBuf) inp t).clks ClockRate ≠ 0 →
        (state ClockRate (reset rdata txBuf rxBuf) inp t).CountersBounded ClockRate := by
      intro t
      induction t with
      | zero => exact fun _ hn => absurd rfl hn
      | succ t ih => exact fun ht => (bounded_step_iff (i := inp t) (ih (by omega))).2 (h t (by omega))
    exact ⟨hall t ht hn, tick_of_bounded hn (hall t ht hn)⟩

end Reset

/-- With the bound at 0 a tick and the wrap of the counter coincide. -/
theorem txBaudCounter_disabled {t : Nat}
    (h : ∀ j < t, (state ClockRate s₀ inp j).clks ClockRate = 0) :
    (state ClockRate s₀ inp t).txBaudCounter = s₀.txBaudCounter + BitVec.ofNat 32 t := by
  induction t with
  | zero => exact (BitVec.add_zero _).symm
  | succ t ih =>
    have hstep : (state ClockRate s₀ inp (t + 1)).txBaudCounter =
        if (state ClockRate s₀ inp t).txBaud ClockRate then 0
        else (state ClockRate s₀ inp t).txBaudCounter + 1 := rfl
    have hnext : (state ClockRate s₀ inp (t + 1)).txBaudCounter =
        (state ClockRate s₀ inp t).txBaudCounter + 1 := by
      rw [hstep, txBaud, h t (by omega)]
      split
      · next ht => rw [beq_iff_eq.1 ht]; rfl
      · rfl
    rw [hnext, ih fun j hj => h j (by omega), BitVec.ofNat_add, BitVec.add_assoc]
    rfl

theorem baudWrite_granted (ClockRate : Nat) {s : UartState k} {i : UartIn} (hd : s.deviceState = .wait)
    (hr : i.reqI = true) (hw : i.weI = true) (ha : (i.addrI.setWidth 8).setWidth 32 = baudLane) :
    (s.step ClockRate i).deviceState = .write ∧ (s.step ClockRate i).wdataSelector = .baud ∧
      (s.step ClockRate i).clksWritten ClockRate = clksPerBit ClockRate (i.wdataI.setWidth 8) := by
  have hstep : (s.step ClockRate i).toDeviceRegs = s.deviceNext i := rfl
  rw [wdataSelector, clksWritten, hstep]
  simp [deviceNext, hd, hr, hw, ha, baudLane, stsLane]

/-- The line is high, and cycle `T` requests a write of the code for 230400 to the baud lane. -/
def enableAt (T t : Nat) : UartIn where
  rxI := true
  reqI := t == T
  addrI := 4
  weI := true
  beI := 15
  wdataI := 7
  padding := 0

section EnableAt

variable {T : Nat} (hdev : s₀.deviceState = .wait) (hclks : s₀.clks ClockRate = 0)
include hdev hclks

theorem enableAt_before {t : Nat} (ht : t ≤ T) :
    (state ClockRate s₀ (enableAt T) t).deviceState = .wait ∧
      (state ClockRate s₀ (enableAt T) t).clks ClockRate = 0 := by
  induction t with
  | zero => exact ⟨hdev, hclks⟩
  | succ t ih =>
    obtain ⟨hd, hc⟩ := ih (by omega)
    have hquiet : (enableAt T t).reqI = false := beq_eq_false_iff_ne.2 (by omega)
    have hstep : (state ClockRate s₀ (enableAt T) (t + 1)).toDeviceRegs =
        (state ClockRate s₀ (enableAt T) t).deviceNext (enableAt T t) := rfl
    refine ⟨?_, (clks_step (by rw [hd]; simp)).trans hc⟩
    rw [hstep]
    simp [deviceNext, hd, hquiet]

theorem enableAt_disabled {t : Nat} (ht : t < T + 2) :
    (state ClockRate s₀ (enableAt T) t).clks ClockRate = 0 := by
  rcases Nat.lt_or_eq_of_le (Nat.le_of_lt_succ ht) with hlt | rfl
  · exact (enableAt_before hdev hclks (by omega)).2
  · obtain ⟨hd, hc⟩ := enableAt_before (T := T) hdev hclks le_rfl
    exact (clks_step (by rw [hd]; simp)).trans hc

theorem enableAt_enabled (d : Nat) :
    (state ClockRate s₀ (enableAt T) (T + 2 + d)).clks ClockRate = clksPerBit ClockRate 7 ∧
      (state ClockRate s₀ (enableAt T) (T + 2 + d)).deviceState = .wait := by
  induction d with
  | zero =>
    obtain ⟨hd, -⟩ := enableAt_before (T := T) hdev hclks le_rfl
    have hr : (enableAt T T).reqI = true := beq_self_eq_true _
    obtain ⟨hd', hs', hw'⟩ := baudWrite_granted ClockRate hd hr rfl
      (by decide : ((4 : BitVec 32).setWidth 8).setWidth 32 = baudLane)
    refine ⟨(clks_baudWrite hd' hs').trans hw', ?_⟩
    show (((state ClockRate s₀ (enableAt T) T).step ClockRate (enableAt T T)).deviceNext _).deviceState = _
    simp [deviceNext, hd', hs']
  | succ d ih =>
    obtain ⟨hc, hd⟩ := ih
    have hquiet : (enableAt T (T + 2 + d)).reqI = false := beq_eq_false_iff_ne.2 (by omega)
    have hstep : (state ClockRate s₀ (enableAt T) (T + 2 + d + 1)).toDeviceRegs =
        (state ClockRate s₀ (enableAt T) (T + 2 + d)).deviceNext (enableAt T (T + 2 + d)) := rfl
    have hkeep : (state ClockRate s₀ (enableAt T) (T + 2 + d + 1)).clks ClockRate =
        (state ClockRate s₀ (enableAt T) (T + 2 + d)).clks ClockRate := clks_step (by rw [hd]; simp)
    refine ⟨hkeep.trans hc, ?_⟩
    rw [← Nat.add_assoc, hstep]
    simp [deviceNext, hd, hquiet]

end EnableAt

/-- A UART with rings of 32 cells after reset. -/
def resetUart : UartState 5 := reset 0 (fun _ => 0) fun _ => 0

/-- 302 cycles after reset the bound becomes 217, with the transmit counter past it. -/
theorem lateEnable_unbounded :
    ((state 50000000 resetUart (enableAt 300) 302).clks 50000000).toNat = 217 ∧
      ¬(state 50000000 resetUart (enableAt 300) 302).CountersBounded 50000000 := by
  have hclks : (state 50000000 resetUart (enableAt 300) 302).clks 50000000 = clksPerBit 50000000 7 :=
    (enableAt_enabled rfl rfl 0).1
  have htx : (state 50000000 resetUart (enableAt 300) 302).txBaudCounter = 0 + BitVec.ofNat 32 302 :=
    txBaudCounter_disabled fun j hj => enableAt_disabled rfl rfl (by omega)
  refine ⟨by rw [hclks]; rfl, fun h => ?_⟩
  rw [countersBounded_iff (by rw [hclks]; decide), hclks, htx] at h
  exact absurd h.2 (by decide)

end PenPlotter
