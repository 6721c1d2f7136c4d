import PenPlotter.UartReceive
import PenPlotter.UartBaud

/-!
# The false start after reset

The synchroniser resets low, so the receiver takes a start bit right after reset and waits in START for
the half-bit sample, with its counter running from 0. A line that is high then lets it go back to IDLE,
but only when the counter still reaches the sample point: a counter that has passed `clks_per_bit` when
the baud register is enabled runs on to its 32-bit wrap.
-/

namespace PenPlotter

open Serial

namespace Receiver

variable {clks : BitVec 32} {v : Receiver} {L : Nat → Bool} {N c : Nat}

/-- In START with a high line, `c` cycles after the restart. -/
structure Waiting (c : Nat) (v : Receiver) : Prop where
  state : v.rxState = .start
  counter : v.rxBaudCounter.toNat = c
  restart : v.rxRestartBaud = false
  sync1 : v.rxSync1 = true
  sync0 : v.rxSync0 = true

/-- The count at which a bound of `N` samples; for a bound below 2 it is the last one. -/
def samplePoint (N : Nat) : Nat := (N / 2 + (2 ^ 32 - 1)) % 2 ^ 32

theorem rxSample_iff_samplePoint (hn : clks.toNat = N) :
    v.rxSample clks = true ↔ v.rxBaudCounter.toNat = samplePoint N := by
  have hhalf : (clks >>> 1).toNat = N / 2 := by
    rw [BitVec.toNat_ushiftRight, hn, Nat.shiftRight_eq_div_pow, Nat.pow_one]
  have hlt := v.rxBaudCounter.isLt
  rw [rxSample, beq_iff_eq, ← BitVec.toNat_inj, samplePoint, ← hhalf]
  bv_omega

theorem start_stays {x : Bool} (hst : v.rxState = .start) (hs : v.rxSample clks = false) :
    (v.step clks x).rxState = .start ∧ (v.step clks x).rxRestartBaud = false := by
  constructor <;> simp [Receiver.step, hst, hs]

theorem Waiting.sample (h : Waiting c v) (hn : clks.toNat = N) (hc : c = samplePoint N) :
    Ready (v.step clks true) := by
  have hs : v.rxSample clks = true := (rxSample_iff_samplePoint hn).2 (h.counter.trans hc)
  exact ⟨⟨by simp [Receiver.step, h.state, hs, h.sync0], by simp [Receiver.step, h.state, hs, h.sync0]⟩,
    rxSync1_step, by rw [rxSync0_step, h.sync1]⟩

/-- Anywhere else the counter goes on. -/
theorem Waiting.step (h : Waiting c v) (hn : clks.toNat = N) (hc : c ≠ samplePoint N) :
    Waiting (if c + 1 = N then 0 else (c + 1) % 2 ^ 32) (v.step clks true) := by
  have hs : v.rxSample clks = false := by
    rw [← Bool.not_eq_true, rxSample_iff_samplePoint hn, h.counter]
    exact hc
  have hcounter : (v.step clks true).rxBaudCounter.toNat =
      if c + 1 = N then 0 else (c + 1) % 2 ^ 32 := by
    rw [rxBaudCounter_step, h.restart, Bool.or_false, rxBaud, ← h.counter]
    by_cases ht : v.rxBaudCounter = clks - 1
    · rw [beq_iff_eq.2 ht, if_pos rfl]
      split <;> bv_omega
    · rw [beq_eq_false_iff_ne.2 ht, if_neg (by decide), if_neg (by bv_omega), BitVec.toNat_add]
      rfl
  obtain ⟨hst, hr⟩ := start_stays (x := true) h.state hs
  exact ⟨hst, hcounter, hr, rxSync1_step, by rw [rxSync0_step, h.sync1]⟩

/-- Away from the sample point and the bound the counter counts. -/
theorem Waiting.count (h : Waiting c v) (hn : clks.toNat = N) {d : Nat} (hL : ∀ t < d, L t = true)
    (hfree : ∀ j < d, c + j ≠ samplePoint N ∧ c + j + 1 ≠ N) (hd : c + d < 2 ^ 32) :
    Waiting (c + d) (run clks v L d) := by
  induction d with
  | zero => exact h
  | succ d ih =>
    have hprev := ih (fun t ht => hL t (by omega)) (fun j hj => hfree j (by omega)) (by omega)
    obtain ⟨hs, hb⟩ := hfree d (by omega)
    have hnext := hprev.step hn hs
    rw [if_neg hb, Nat.mod_eq_of_lt (by omega)] at hnext
    rw [run_succ, hL d (by omega)]
    exact hnext

/-- Below the sample point the receiver is back in IDLE right after it. -/
theorem Waiting.ready (h : Waiting c v) (hn : clks.toNat = N) (hc : c < N / 2) {n : Nat}
    (hL : ∀ t < n, L t = true) (hr : N / 2 - c ≤ n) : Ready (run clks v L n) := by
  have hlt := clks.isLt
  have hpoint : samplePoint N = N / 2 - 1 := by
    rw [samplePoint]
    omega
  have hw := h.count (d := N / 2 - 1 - c) hn (fun t ht => hL t (by omega))
    (fun j hj => by omega) (by omega)
  have hready : Ready (run clks v L (N / 2 - c)) := by
    rw [show N / 2 - c = N / 2 - 1 - c + 1 by omega, run_succ, hL _ (by omega)]
    exact hw.sample hn (by omega)
  obtain ⟨d, rfl⟩ := Nat.exists_eq_add_of_le hr
  rw [run_add]
  exact (hready.wait fun t ht => hL _ (by omega)).1

theorem run_split (d n : Nat) : run clks v L (d + 1 + n) =
    run clks ((run clks v L d).step clks (L d)) (fun t => L (d + 1 + t)) n := by
  rw [run_add, run_succ]

/-- With a bound of at least 2, `N + 2` cycles are enough exactly when the counter is below the bound or
about to wrap. -/
theorem Waiting.ready_iff (h : Waiting c v) (hn : clks.toNat = N) (hN : 2 ≤ N)
    (hL : ∀ t < N + 2, L t = true) :
    (Ready (run clks v L (N + 2)) ∨ (run clks v L (N + 2)).rxState = .start) ∧
      (Ready (run clks v L (N + 2)) ↔ c < N ∨ 2 ^ 32 + N / 2 ≤ c + N + 2) := by
  have hlt := clks.isLt
  have hc : c < 2 ^ 32 := by rw [← h.counter]; exact v.rxBaudCounter.isLt
  have hpoint : samplePoint N = N / 2 - 1 := by
    rw [samplePoint]
    omega
  -- a wait that is still going on is not IDLE
  have hstart : ∀ c', Waiting c' (run clks v L (N + 2)) → ¬(c < N ∨ 2 ^ 32 + N / 2 ≤ c + N + 2) →
      (Ready (run clks v L (N + 2)) ∨ (run clks v L (N + 2)).rxState = .start) ∧
        (Ready (run clks v L (N + 2)) ↔ c < N ∨ 2 ^ 32 + N / 2 ≤ c + N + 2) := fun _ hw hno =>
    ⟨.inr hw.state, iff_of_false
      (fun hr => absurd (hr.toIdle.state.symm.trans hw.state) (by decide)) hno⟩
  by_cases hlow : c < N / 2
  · have hr := h.ready hn hlow hL (by omega)
    exact ⟨.inl hr, iff_of_true hr (.inl (by omega))⟩
  by_cases hmid : c < N
  · have hw := h.count (d := N - 1 - c) hn (fun t ht => hL t (by omega)) (fun j hj => by omega)
      (by omega)
    have hzero := hw.step hn (by omega)
    rw [if_pos (by omega)] at hzero
    have hr : Ready (run clks v L (N + 2)) := by
      rw [show N + 2 = N - 1 - c + 1 + (c + 2) by omega, run_split, hL _ (by omega)]
      exact hzero.ready hn (by omega) (fun t ht => hL _ (by omega)) (by omega)
    exact ⟨.inl hr, iff_of_true hr (.inl hmid)⟩
  by_cases hfar : c + (N + 2) < 2 ^ 32
  · exact hstart _ (h.count hn hL (fun j hj => by omega) hfar) (by omega)
  · -- the counter wraps within the `N + 2` cycles
    have hw := h.count (d := 2 ^ 32 - 1 - c) hn (fun t ht => hL t (by omega)) (fun j hj => by omega)
      (by omega)
    have hzero := hw.step hn (by omega)
    rw [if_neg (by omega), show c + (2 ^ 32 - 1 - c) + 1 = 2 ^ 32 by omega, Nat.mod_self] at hzero
    have hsplit : N + 2 = 2 ^ 32 - 1 - c + 1 + (c + N + 2 - 2 ^ 32) := by omega
    have hrun : run clks v L (N + 2) = run clks ((run clks v L (2 ^ 32 - 1 - c)).step clks true)
        (fun t => L (2 ^ 32 - 1 - c + 1 + t)) (c + N + 2 - 2 ^ 32) := by
      rw [← hL (2 ^ 32 - 1 - c) (by omega), ← run_split, ← hsplit]
    by_cases hlate : c + N + 2 - 2 ^ 32 < N / 2
    · refine hstart (0 + (c + N + 2 - 2 ^ 32)) ?_ (by omega)
      rw [hrun]
      exact hzero.count hn (fun t ht => hL _ (by omega)) (fun j hj => by omega) (by omega)
    · have hr : Ready (run clks v L (N + 2)) := by
        rw [hrun]
        exact hzero.ready hn (by omega) (fun t ht => hL _ (by omega)) (by omega)
      exact ⟨.inl hr, iff_of_true hr (.inr (by omega))⟩

/-- A bound of 1 restarts a counter at 0 in every cycle; any other count goes on to the wrap. -/
theorem Waiting.ready_iff_one (h : Waiting c v) (hn : clks.toNat = 1) (hL : ∀ t < 3, L t = true) :
    (Ready (run clks v L 3) ∨ (run clks v L 3).rxState = .start) ∧
      (Ready (run clks v L 3) ↔ 2 ^ 32 ≤ c + 3) := by
  have hc : c < 2 ^ 32 := by rw [← h.counter]; exact v.rxBaudCounter.isLt
  have hpoint : samplePoint 1 = 2 ^ 32 - 1 := rfl
  have hstart : ∀ c', Waiting c' (run clks v L 3) → ¬2 ^ 32 ≤ c + 3 →
      (Ready (run clks v L 3) ∨ (run clks v L 3).rxState = .start) ∧
        (Ready (run clks v L 3) ↔ 2 ^ 32 ≤ c + 3) := fun _ hw hno =>
    ⟨.inr hw.state, iff_of_false
      (fun hr => absurd (hr.toIdle.state.symm.trans hw.state) (by decide)) hno⟩
  rcases Nat.eq_zero_or_pos c with rfl | hpos
  · have hstep : ∀ {w}, Waiting 0 w → Waiting 0 (w.step clks true) := fun hw =>
      hw.step hn (by rw [hpoint]; decide)
    refine hstart 0 ?_ (by omega)
    rw [run_succ, run_succ, run_succ, run_zero, hL 0 (by omega), hL 1 (by omega), hL 2 (by omega)]
    exact hstep (hstep (hstep h))
  by_cases hfar : c + 3 < 2 ^ 32
  · exact hstart _ (h.count hn hL (fun j hj => by omega) hfar) (by omega)
  · have hw := h.count (d := 2 ^ 32 - 1 - c) hn (fun t ht => hL t (by omega)) (fun j hj => by omega)
      (by omega)
    have hr : Ready (run clks v L 3) := by
      rw [show 3 = 2 ^ 32 - 1 - c + 1 + (c + 3 - 2 ^ 32) by omega, run_split, hL _ (by omega)]
      exact ((hw.sample hn (by omega)).wait fun t ht => hL _ (by omega)).1
    exact ⟨.inl hr, iff_of_true hr (by omega)⟩

/-- The receiver is ready in time exactly when the counter still meets the sample point. -/
theorem Waiting.recovers_iff (h : Waiting c v) (hn : clks.toNat = N) (hN : 0 < N)
    (hL : ∀ t < N + 2, L t = true) :
    (Ready (run clks v L (N + 2)) ∨ (run clks v L (N + 2)).rxState = .start) ∧
      (Ready (run clks v L (N + 2)) ↔ (2 ≤ N ∧ c < N) ∨ 2 ^ 32 + N / 2 ≤ c + N + 2) := by
  rcases Nat.lt_or_ge N 2 with hone | htwo
  · obtain rfl : N = 1 := by omega
    obtain ⟨hcases, hiff⟩ := h.ready_iff_one hn hL
    exact ⟨hcases, hiff.trans (by omega)⟩
  · obtain ⟨hcases, hiff⟩ := h.ready_iff hn htwo hL
    exact ⟨hcases, hiff.trans (by omega)⟩

theorem waiting_reset (hst : v.rxState = .idle) (h0 : v.rxSync0 = false)
    (hr : v.rxRestartBaud = false) (hc : v.rxBaudCounter = 0) (hL : ∀ t < 2, L t = true) :
    Waiting 0 (run 0 v L 2) := by
  have hb : v.rxBaud 0 = false := by rw [rxBaud, hc]; decide
  have hstep1 : run 0 v L 1 = v.step 0 true := by rw [run_succ, hL 0 (by omega)]; rfl
  have hst1 : (run 0 v L 1).rxState = .start := by rw [hstep1]; simp [Receiver.step, hst, h0]
  have hr1 : (run 0 v L 1).rxRestartBaud = true := by rw [hstep1]; simp [Receiver.step, hst, h0]
  have hc1 : (run 0 v L 1).rxBaudCounter = 1 := by
    rw [hstep1, rxBaudCounter_step, hb, hr, hc]
    rfl
  have hs1 : (run 0 v L 1).rxSample 0 = false := by rw [rxSample, hc1]; decide
  have hstep2 : run 0 v L 2 = (run 0 v L 1).step 0 true := by rw [run_succ, hL 1 (by omega)]
  obtain ⟨hst2, hr2⟩ := start_stays (x := true) hst1 hs1
  rw [hstep2]
  refine ⟨hst2, ?_, hr2, rxSync1_step, ?_⟩
  · rw [rxBaudCounter_step, hr1, Bool.or_true, if_pos rfl]
    rfl
  · rw [rxSync0_step, hstep1, rxSync1_step]

/-- With the baud register disabled the wait goes on up to the wrap. -/
theorem waiting_disabled (h : Waiting 0 v) {n : Nat} (hL : ∀ t < n, L t = true) :
    (n < 2 ^ 32 → Waiting n (run 0 v L n)) ∧ (2 ^ 32 ≤ n → Ready (run 0 v L n)) := by
  have hcount : ∀ d ≤ n, d < 2 ^ 32 → Waiting d (run 0 v L d) := fun d hd hlt => by
    have hw : Waiting (0 + d) (run 0 v L d) := h.count (N := 0) rfl (fun t ht => hL t (by omega)) (fun j hj => by
      have : samplePoint 0 = 2 ^ 32 - 1 := rfl
      omega) (by omega)
    rwa [Nat.zero_add] at hw
  refine ⟨fun hn => hcount n le_rfl hn, fun hn => ?_⟩
  have hr : Ready ((run 0 v L (2 ^ 32 - 1)).step 0 true) :=
    (hcount (2 ^ 32 - 1) (by omega) (by omega)).sample (N := 0) rfl rfl
  rw [show n = 2 ^ 32 - 1 + 1 + (n - 2 ^ 32) by omega, run_split, hL _ (by omega)]
  exact (hr.wait fun t ht => hL _ (by omega)).1

end Receiver

/-! ### From reset -/

open UartState UartRun

variable {k ClockRate N T e : Nat} {s₀ : UartState k} {inp : Nat → UartIn}

/-- While the line is high a ready receiver stays ready, whatever the bound. -/
theorem ready_stays {t d : Nat} (h : Receiver.Ready (state ClockRate s₀ inp t).receiver)
    (hhigh : ∀ j < d, (inp (t + j)).rxI = true) :
    Receiver.Ready (state ClockRate s₀ inp (t + d)).receiver := by
  induction d with
  | zero => exact h
  | succ d ih =>
    rw [← Nat.add_assoc, receiver_succ, hhigh d (by omega)]
    exact (ih fun j hj => hhigh j (by omega)).step.1

section Reset

variable {rdata : BitVec 32} {txBuf rxBuf : BitVec k → BitVec 8}

/-- When the baud register is enabled the receiver still waits in START, with as many counts as there
were cycles since its restart, unless the wrap has already brought it back. -/
theorem receiver_enabled
    (hdis : ∀ t < T + 2, (state ClockRate (reset rdata txBuf rxBuf) inp t).clks ClockRate = 0)
    (hhigh : ∀ t < T + 2, (inp t).rxI = true) :
    (T < 2 ^ 32 →
        Receiver.Waiting T (state ClockRate (reset rdata txBuf rxBuf) inp (2 + T)).receiver) ∧
      (2 ^ 32 ≤ T → Receiver.Ready (state ClockRate (reset rdata txBuf rxBuf) inp (2 + T)).receiver) := by
  obtain ⟨h2, -⟩ := receiver_segment (t := 0) (d := 2) fun j hj =>
    hdis (0 + j) (by omega)
  obtain ⟨hT, -⟩ := receiver_segment (t := 2) (d := T) fun j hj =>
    hdis (2 + j) (by omega)
  have hwait := Receiver.waiting_reset (v := (reset rdata txBuf rxBuf).receiver) rfl rfl rfl rfl
    fun t ht => hhigh (0 + t) (by omega)
  rw [hT, h2]
  exact Receiver.waiting_disabled hwait fun t ht => hhigh (2 + t) (by omega)

/-- From reset with a high line, an enabled bound `N` that takes effect in cycle `T` gets the receiver
back to IDLE within `N + 2` cycles, for as long as the line is high and ready for a frame after that,
exactly when it comes before the counter has passed it or so late that the counter wraps in time. -/
theorem uart_reset_recovers (hN : 0 < N)
    (hdis : ∀ t < T, (state ClockRate (reset rdata txBuf rxBuf) inp t).clks ClockRate = 0)
    (hen : ∀ t, T ≤ t → t < T + N + 2 →
      ((state ClockRate (reset rdata txBuf rxBuf) inp t).clks ClockRate).toNat = N)
    (he : T + N + 2 ≤ e) (hhigh : ∀ t < e, (inp t).rxI = true) :
    ((∀ t, T + N + 2 ≤ t → t ≤ e →
        (state ClockRate (reset rdata txBuf rxBuf) inp t).rxState = .idle) ∧
      ∀ M b, 10 ≤ M →
        (∀ t, e ≤ t → t < e + 10 * M →
          ((state ClockRate (reset rdata txBuf rxBuf) inp t).clks ClockRate).toNat = M) →
        (∀ q < 10, ∀ r < M, (inp (e + (q * M + r))).rxI = symbol b q) →
        completed ClockRate (reset rdata txBuf rxBuf) inp (e + 10 * M) =
          completed ClockRate (reset rdata txBuf rxBuf) inp e ++ [b]) ↔
    (2 ≤ N ∧ T < N + 2) ∨ 2 ^ 32 + N / 2 ≤ T + N := by
  have hpos := hen T le_rfl (by omega)
  -- the write takes effect in the third cycle at the earliest
  have hT : 2 ≤ T := by
    by_contra hlt
    have hzero : (state ClockRate (reset rdata txBuf rxBuf) inp T).clks ClockRate = 0 := by
      rcases (by omega : T = 0 ∨ T = 1) with rfl | rfl
      · rfl
      · exact (clks_step (by rintro ⟨h, -⟩; cases h)).trans rfl
    rw [hzero] at hpos
    exact absurd hpos (by simp; omega)
  obtain ⟨c, rfl⟩ := Nat.exists_eq_add_of_le hT
  obtain ⟨hwait, hback⟩ := receiver_enabled (T := c) (fun t ht => hdis t (by omega)) fun t ht =>
    hhigh t (by omega)
  obtain ⟨hrun, -⟩ := receiver_segment (t := 2 + c) (d := N + 2)
    fun j hj => BitVec.eq_of_toNat_eq ((hen (2 + c + j) (by omega) (by omega)).trans hpos.symm)
  have hmain : (Receiver.Ready (state ClockRate (reset rdata txBuf rxBuf) inp (2 + c + (N + 2))).receiver ∨
        (state ClockRate (reset rdata txBuf rxBuf) inp (2 + c + (N + 2))).rxState = .start) ∧
      (Receiver.Ready (state ClockRate (reset rdata txBuf rxBuf) inp (2 + c + (N + 2))).receiver ↔
        (2 ≤ N ∧ 2 + c < N + 2) ∨ 2 ^ 32 + N / 2 ≤ 2 + c + N) := by
    rcases Nat.lt_or_ge c (2 ^ 32) with hlt | hge
    · obtain ⟨hcases, hiff⟩ := (hwait hlt).recovers_iff hpos hN fun t ht => hhigh (2 + c + t) (by omega)
      rw [← hrun] at hcases hiff
      exact ⟨hcases, hiff.trans (by omega)⟩
    · have hr := ready_stays (hback hge) (d := N + 2) fun j hj => hhigh _ (by omega)
      exact ⟨.inl hr, iff_of_true hr (.inr (by omega))⟩
  rw [← hmain.2]
  constructor
  · intro h
    have hidle := h.1 (2 + c + (N + 2)) (by omega) (by omega)
    exact hmain.1.resolve_right fun hst => absurd (hidle.symm.trans hst) (by decide)
  · intro hready
    have hstay : ∀ t, 2 + c + N + 2 ≤ t → t ≤ e →
        Receiver.Ready (state ClockRate (reset rdata txBuf rxBuf) inp t).receiver := by
      intro t ht hte
      obtain ⟨d, rfl⟩ := Nat.exists_eq_add_of_le (show 2 + c + (N + 2) ≤ t by omega)
      exact ready_stays hready fun j hj => hhigh _ (by omega)
    refine ⟨fun t ht hte => (hstay t ht hte).state, fun M b hM hheld hframe => ?_⟩
    have hclks := hheld e le_rfl (by omega)
    obtain ⟨-, hrec⟩ := receiver_segment (t := e) (d := 10 * M)
      fun j hj => BitVec.eq_of_toNat_eq ((hheld (e + j) (by omega) (by omega)).trans hclks.symm)
    obtain ⟨col, -, hone, hbits⟩ := (hstay e he le_rfl).oneFrame hclks (fits_self hM)
      (L := fun j => (inp (e + j)).rxI) hframe
    rw [hrec, hone, (byte_eq_iff hbits).2 frameOk_self]

end Reset

theorem enableAt_clks {T t : Nat} (ht : T + 2 ≤ t) :
    ((state 50000000 resetUart (enableAt T) t).clks 50000000).toNat = 217 := by
  obtain ⟨d, rfl⟩ := Nat.exists_eq_add_of_le ht
  rw [(enableAt_enabled rfl rfl d).1]
  rfl

/-- Enabled in cycle 12, the receiver is idle again in time. -/
theorem uart_reset_recovers_early : (state 50000000 resetUart (enableAt 10) 231).rxState = .idle := by
  have hidle : ∀ t ≥ 231, (state 50000000 resetUart (enableAt 10) t).rxState = .idle := fun t ht =>
    ((uart_reset_recovers (T := 12) (N := 217) (e := t) (by decide)
      (fun t ht => enableAt_disabled rfl rfl (by omega)) (fun t ht _ => enableAt_clks (by omega))
      (by omega) fun _ _ => rfl).2 (.inl ⟨by decide, by decide⟩)).1 t (by omega) le_rfl
  exact hidle 231 le_rfl

/-- Enabled in cycle 302, it still waits in START after 219 cycles. -/
theorem lateEnable_stuck : (state 50000000 resetUart (enableAt 300) 521).rxState = .start := by
  have hdis : ∀ t < 302, (state 50000000 resetUart (enableAt 300) t).clks 50000000 = 0 :=
    fun t ht => enableAt_disabled rfl rfl (by omega)
  have hwait : Receiver.Waiting 300 (state 50000000 resetUart (enableAt 300) (2 + 300)).receiver :=
    (receiver_enabled hdis fun _ _ => rfl).1 (by decide)
  have hn : ((state 50000000 resetUart (enableAt 300) (2 + 300)).clks 50000000).toNat = 217 :=
    enableAt_clks (by decide)
  obtain ⟨hrun, -⟩ := receiver_segment (t := 2 + 300) (d := 217 + 2) fun j hj =>
    BitVec.eq_of_toNat_eq ((enableAt_clks (T := 300) (t := 2 + 300 + j) (by omega)).trans hn.symm)
  obtain ⟨hcases, hiff⟩ := hwait.recovers_iff hn (by decide)
    (L := fun j => (enableAt 300 (2 + 300 + j)).rxI) fun _ _ => rfl
  have hstart := hcases.resolve_left fun hr => absurd (hiff.1 hr) (by decide)
  rw [← hrun, receiver_rxState] at hstart
  rw [show 521 = 2 + 300 + (217 + 2) by decide]
  exact hstart

end PenPlotter
