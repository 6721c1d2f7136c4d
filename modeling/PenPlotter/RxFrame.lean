import PenPlotter.UartRx
import PenPlotter.UartTx

/-!
# Receiving one frame

With `N = clks_per_bit` and the baud register left alone, a frame whose bits last `B` cycles each is
followed from its start edge to its end: the half-bit wait, one sample every `N` cycles, and the stop
bit. The receiver's first decision may be taken from a counter that has not been restarted yet, and
then every sample falls half a bit early (`sampleBase`).
-/

namespace PenPlotter

open Serial

/-- The cycle after the start edge from which the bits are timed, when the counter stands at `c` in the
cycle of the edge: the decision that is due half a bit after the restart is taken before the restart
takes effect when the free-running counter happens to be there. -/
def sampleBase (N c : Nat) : Nat := if c + 4 = N / 2 then 5 else N / 2 + 5

namespace Receiver

variable (clks : BitVec 32) (v : Receiver) (L : Nat → Bool)

def run (t : Nat) : Receiver := Clocked.run (Receiver.step clks) v L t

/-- The bytes that complete before cycle `t`. -/
def received (t : Nat) : List (BitVec 8) :=
  Clocked.log (Receiver.step clks) (Receiver.completed clks) v L t

variable {clks v L} {N : Nat} {x : Bool}

@[simp] theorem run_zero : run clks v L 0 = v := rfl

theorem run_succ (t : Nat) : run clks v L (t + 1) = (run clks v L t).step clks (L t) := rfl

@[simp] theorem received_zero : received clks v L 0 = [] := rfl

theorem received_succ (t : Nat) : received clks v L (t + 1) =
    received clks v L t ++ (run clks v L t).completed clks (L t) := rfl

theorem run_add (m n : Nat) :
    run clks v L (m + n) = run clks (run clks v L m) (fun t => L (m + t)) n :=
  Clocked.run_add m n

theorem received_add (m n : Nat) : received clks v L (m + n) =
    received clks v L m ++ received clks (run clks v L m) (fun t => L (m + t)) n :=
  Clocked.log_add m n

theorem rxSync1_run (t : Nat) : (run clks v L (t + 1)).rxSync1 = L t := by
  rw [run_succ, rxSync1_step]

/-- The receiver sees the line two cycles late. -/
theorem rxSync0_run (t : Nat) : (run clks v L (t + 2)).rxSync0 = L t := by
  rw [run_succ, rxSync0_step]
  exact rxSync1_run t

theorem rxBaud_iff (hn : clks.toNat = N) (hN : 0 < N) :
    v.rxBaud clks = true ↔ v.rxBaudCounter.toNat + 1 = N := by
  subst hn
  exact counter_eq_pred_iff hN

theorem rxSample_iff (hn : clks.toNat = N) (hN : 2 ≤ N) :
    v.rxSample clks = true ↔ v.rxBaudCounter.toNat + 1 = N / 2 := by
  have hhalf : (clks >>> 1).toNat = N / 2 := by
    rw [BitVec.toNat_ushiftRight, hn, Nat.shiftRight_eq_div_pow, Nat.pow_one]
  rw [← hhalf]
  exact counter_eq_pred_iff (by omega)

/-- The receiver is timing: in state `st`, `r` cycles after the last restart or tick. -/
structure Timing (st : UartPhase) (cnt : BitVec 3) (col : BitVec 8) (r : Nat) (v : Receiver) :
    Prop where
  state : v.rxState = st
  count : v.rxCollectingCount = cnt
  collecting : v.rxCollecting = col
  counter : v.rxBaudCounter.toNat = r
  restart : v.rxRestartBaud = false

structure Idle (v : Receiver) : Prop where
  state : v.rxState = .idle
  restart : v.rxRestartBaud = false

/-- The receiver is idle and has seen a high line for two cycles. -/
structure Ready (v : Receiver) : Prop extends Idle v where
  sync1 : v.rxSync1 = true
  sync0 : v.rxSync0 = true

variable {st : UartPhase} {cnt : BitVec 3} {col : BitVec 8} {r : Nat}

/-- Below the tick the counter advances and nothing else changes. -/
theorem Timing.step (h : Timing st cnt col r v) (hn : clks.toNat = N) (hN : 2 ≤ N) (hr : r + 1 < N)
    (hidle : st ≠ .idle) (hstart : st = .start → r + 1 ≠ N / 2) :
    Timing st cnt col (r + 1) (v.step clks x) ∧ v.completed clks x = [] := by
  have hb : v.rxBaud clks = false := by
    rw [← Bool.not_eq_true, rxBaud_iff hn (by omega), h.counter]
    omega
  have hs : st = .start → v.rxSample clks = false := fun hst => by
    rw [← Bool.not_eq_true, rxSample_iff hn hN, h.counter]
    exact hstart hst
  have hstate := h.state
  have hcounter : (v.step clks x).rxBaudCounter.toNat = r + 1 := by
    rw [rxBaudCounter_step, hb, h.restart, if_neg (by simp), toNat_counter_succ (n := clks), h.counter]
    rw [h.counter]
    omega
  refine ⟨⟨?_, ?_, ?_, hcounter, ?_⟩, by simp [completed, hb]⟩ <;> cases st <;>
    simp_all [Receiver.step, h.count, h.collecting]

theorem Timing.wait (h : Timing st cnt col 0 v) (hn : clks.toNat = N) (hN : 2 ≤ N)
    (hidle : st ≠ .idle) {d : Nat} (hd : d < N) (hstart : st = .start → d < N / 2) :
    Timing st cnt col d (run clks v L d) ∧ received clks v L d = [] := by
  induction d with
  | zero => exact ⟨h, rfl⟩
  | succ d ih =>
    obtain ⟨ht, hrec⟩ := ih (by omega) fun hst => by have := hstart hst; omega
    obtain ⟨ht', hrec'⟩ := ht.step (x := L d) hn hN (by omega) hidle
      fun hst => by have := hstart hst; omega
    exact ⟨ht', by rw [received_succ, hrec, hrec']; rfl⟩

/-- In cycle `N - 1` the line as it was two cycles before is sampled. -/
theorem Timing.tick (h : Timing st cnt col 0 v) (hn : clks.toNat = N) (hN : 3 ≤ N) (hidle : st ≠ .idle)
    (hstart : st ≠ .start) : Timing st cnt col (N - 1) (run clks v L (N - 1)) ∧
      (run clks v L (N - 1)).rxBaud clks = true ∧ (run clks v L (N - 1)).rxSync0 = L (N - 3) ∧
      run clks v L N = (run clks v L (N - 1)).step clks (L (N - 1)) ∧
      received clks v L N = (run clks v L (N - 1)).completed clks (L (N - 1)) := by
  obtain ⟨ht, hrec⟩ := h.wait (L := L) hn (by omega) hidle (d := N - 1) (by omega)
    fun hst => absurd hst hstart
  have hN1 : N = N - 1 + 1 := by omega
  refine ⟨ht, ?_, ?_, ?_, ?_⟩
  · rw [rxBaud_iff hn (by omega), ht.counter]
    omega
  · rw [show N - 1 = N - 3 + 2 by omega]
    exact rxSync0_run _
  · rw [← run_succ, ← hN1]
  · rw [← List.nil_append (completed ..), ← hrec, ← received_succ, ← hN1]

/-- After `N` cycles the line as it was two cycles before is taken as the next bit. -/
theorem Timing.bit (h : Timing .data cnt col 0 v) (hn : clks.toNat = N) (hN : 3 ≤ N) :
    Timing (if cnt = 7 then .stop else .data) (cnt + 1) (setBit col cnt (L (N - 3))) 0
      (run clks v L N) ∧ received clks v L N = [] := by
  obtain ⟨ht, hb, hsync, hrun, hrec⟩ := h.tick (L := L) hn hN (by decide) (by decide)
  rw [hrun, hrec, completed_of_ne (by rw [ht.state]; decide)]
  refine ⟨⟨?_, ?_, ?_, ?_, ?_⟩, rfl⟩
  · simp [Receiver.step, ht.state, hb, ht.count]
  · simp [Receiver.step, ht.state, hb, ht.count]
  · simp [Receiver.step, ht.state, hb, ht.count, ht.collecting, hsync]
  · simp [rxBaudCounter_step, hb]
  · simp [Receiver.step, ht.state, hb]

theorem ofNat_succ_eq {j : Nat} (hj : j < 8) :
    (BitVec.ofNat 3 j = 7 ↔ j + 1 = 8) ∧ BitVec.ofNat 3 j + 1 = BitVec.ofNat 3 (j + 1) ∧
      (BitVec.ofNat 3 j).toNat = j := by
  refine ⟨?_, (BitVec.ofNat_add _ _).symm, ?_⟩
  · rw [← BitVec.toNat_inj, BitVec.toNat_ofNat]
    show j % 8 = 7 ↔ _
    omega
  · rw [BitVec.toNat_ofNat]
    omega

theorem Timing.bits (h : Timing .data 0 col 0 v) (hn : clks.toNat = N) (hN : 3 ≤ N) {j : Nat}
    (hj : j ≤ 8) : ∃ col', Timing (if j = 8 then .stop else .data) (BitVec.ofNat 3 j) col' 0
        (run clks v L (j * N)) ∧ (∀ i < j, col'.getLsbD i = L (i * N + (N - 3))) ∧
      received clks v L (j * N) = [] := by
  induction j with
  | zero => exact ⟨col, by simpa using h, by omega, by simp⟩
  | succ j ih =>
    obtain ⟨col', ht, hbits, hrec⟩ := ih (by omega)
    obtain ⟨h7, hsucc, hnat⟩ := ofNat_succ_eq (show j < 8 by omega)
    rw [if_neg (by omega)] at ht
    obtain ⟨ht', hrec'⟩ := ht.bit (L := fun t => L (j * N + t)) hn hN
    simp only [h7, hsucc] at ht'
    rw [Nat.succ_mul, run_add, received_add, hrec, hrec']
    refine ⟨_, ht', fun i hi => ?_, rfl⟩
    rw [getLsbD_setBit _ _ _ (by omega), hnat]
    by_cases hij : i = j
    · rw [if_pos hij, hij]
    · rw [if_neg hij]
      exact hbits i (by omega)

theorem Timing.stop_high (h : Timing .stop cnt col 0 v) (hn : clks.toNat = N) (hN : 3 ≤ N)
    (hL : L (N - 3) = true) : Idle (run clks v L N) ∧ received clks v L N = [col] := by
  obtain ⟨ht, hb, hsync, hrun, hrec⟩ := h.tick (L := L) hn hN (by decide) (by decide)
  rw [hL] at hsync
  rw [hrun, hrec]
  refine ⟨⟨?_, ?_⟩, ?_⟩
  · simp [Receiver.step, ht.state, hb, hsync]
  · simp [Receiver.step, ht.state, hb, hsync]
  · simp [completed, ht.state, hb, hsync, ht.collecting]

theorem Timing.stop_low (h : Timing .stop cnt col 0 v) (hn : clks.toNat = N) (hN : 3 ≤ N)
    (hL : L (N - 3) = false) :
    Timing .stop cnt col 0 (run clks v L N) ∧ received clks v L N = [] := by
  obtain ⟨ht, hb, hsync, hrun, hrec⟩ := h.tick (L := L) hn hN (by decide) (by decide)
  rw [hL] at hsync
  rw [hrun, hrec]
  refine ⟨⟨?_, ?_, ?_, by simp [rxBaudCounter_step, hb], ?_⟩, by simp [completed, hsync]⟩ <;>
    simp [Receiver.step, ht.state, hsync, ht.count, ht.collecting]

theorem counter_step (hn : clks.toNat = N) (hN : 0 < N) (hr : v.rxRestartBaud = false) :
    (v.step clks x).rxBaudCounter.toNat =
      if v.rxBaudCounter.toNat + 1 = N then 0 else (v.rxBaudCounter.toNat + 1) % 2 ^ 32 := by
  rw [rxBaudCounter_step, hr, Bool.or_false]
  by_cases h : v.rxBaudCounter.toNat + 1 = N
  · rw [if_pos ((rxBaud_iff hn hN).2 h), if_pos h]
    rfl
  · rw [if_neg (mt (rxBaud_iff hn hN).1 h), if_neg h, BitVec.toNat_add]
    rfl

theorem Idle.step (h : Idle v) (hs : v.rxSync0 = true) :
    Idle (v.step clks x) ∧ v.completed clks x = [] :=
  ⟨⟨by simp [Receiver.step, h.state, hs], by simp [Receiver.step, h.state, hs]⟩,
    completed_of_ne (by rw [h.state]; decide)⟩

theorem Idle.wait (h : Idle v) {d : Nat}
    (hs : ∀ t < d, (run clks v L t).rxSync0 = true) :
    Idle (run clks v L d) ∧ received clks v L d = [] := by
  induction d with
  | zero => exact ⟨h, rfl⟩
  | succ d ih =>
    obtain ⟨hidle, hrec⟩ := ih fun t ht => hs t (by omega)
    obtain ⟨hidle', hrec'⟩ := hidle.step (x := L d) (hs d (by omega))
    exact ⟨hidle', by rw [received_succ, hrec, hrec']; rfl⟩

/-- While the line is high a ready receiver stays ready. -/
theorem Ready.step (h : Ready v) :
    Ready (v.step clks true) ∧ v.completed clks true = [] := by
  obtain ⟨hidle, hrec⟩ := h.toIdle.step (x := true) h.sync0
  exact ⟨⟨hidle, rxSync1_step, by rw [rxSync0_step, h.sync1]⟩, hrec⟩

theorem Ready.wait (h : Ready v) {d : Nat} (hL : ∀ t < d, L t = true) :
    Ready (run clks v L d) ∧ received clks v L d = [] := by
  induction d with
  | zero => exact ⟨h, rfl⟩
  | succ d ih =>
    obtain ⟨hready, hrec⟩ := ih fun t ht => hL t (by omega)
    obtain ⟨hready', hrec'⟩ := hready.step
    rw [run_succ, received_succ, hL d (by omega), hrec, hrec']
    exact ⟨hready', rfl⟩

/-- A line that stays high to the end of the frame leaves the receiver ready. -/
theorem Idle.ready_of_high {u e : Nat} (h : Idle (run clks v L u)) (hu : 2 ≤ u) (hue : u ≤ e)
    (hL : ∀ t, u ≤ t + 2 → t < e → L t = true) :
    Ready (run clks v L e) ∧ received clks v L e = received clks v L u := by
  obtain ⟨d, rfl⟩ := Nat.exists_eq_add_of_le hue
  obtain ⟨hidle, hquiet⟩ := h.wait (L := fun t => L (u + t)) (d := d) fun t ht => by
    rw [← run_add, show u + t = u + t - 2 + 2 by omega, rxSync0_run]
    exact hL _ (by omega) (by omega)
  rw [← run_add] at hidle
  refine ⟨⟨hidle, ?_, ?_⟩, by rw [received_add, hquiet, List.append_nil]⟩
  · rw [show u + d = u + d - 1 + 1 by omega, rxSync1_run]
    exact hL _ (by omega) (by omega)
  · rw [show u + d = u + d - 2 + 2 by omega, rxSync0_run]
    exact hL _ (by omega) (by omega)

/-- The restart that the decision on the start bit requests takes effect one cycle later. -/
theorem restart_data (hn : clks.toNat = N) (hN : 2 ≤ N) (hst : v.rxState = .data)
    (hcnt : v.rxCollectingCount = 0) (hr : v.rxRestartBaud = true)
    (hc : v.rxBaudCounter.toNat + 1 ≠ N) :
    Timing .data 0 v.rxCollecting 0 (v.step clks x) ∧ v.completed clks x = [] := by
  have hb : v.rxBaud clks = false := by
    rw [← Bool.not_eq_true, rxBaud_iff hn (by omega)]
    exact hc
  refine ⟨⟨?_, ?_, ?_, by simp [rxBaudCounter_step, hr], ?_⟩,
    completed_of_ne (by rw [hst]; decide)⟩ <;> simp [Receiver.step, hst, hb, hcnt]

theorem start_data (hst : v.rxState = .start) (hs : v.rxSync0 = false)
    (hb : v.rxSample clks = true) : (v.step clks x).rxState = .data ∧
      (v.step clks x).rxCollectingCount = 0 ∧ (v.step clks x).rxRestartBaud = true ∧
      v.completed clks x = [] := by
  refine ⟨?_, ?_, ?_, completed_of_ne (by rw [hst]; decide)⟩ <;> simp [Receiver.step, hst, hs, hb]

/-- Three cycles after its start edge a frame has put the receiver into START, with the counter still
running freely. -/
theorem Ready.edge (h : Ready v) (hn : clks.toNat = N) (hN : 8 ≤ N) (h0 : L 0 = false) :
    (run clks v L 3).rxState = .start ∧ (run clks v L 3).rxRestartBaud = true ∧
      ((run clks v L 3).rxBaudCounter.toNat + 1 = N / 2 ↔ v.rxBaudCounter.toNat + 4 = N / 2) ∧
      received clks v L 3 = [] := by
  obtain ⟨h1, hrec1⟩ := h.toIdle.step (x := L 0) h.sync0
  have hs1 : (run clks v L 1).rxSync0 = true := by
    rw [run_succ, rxSync0_step]
    exact h.sync1
  obtain ⟨h2, hrec2⟩ := Idle.step (v := run clks v L 1) (x := L 1) h1 hs1
  have hs2 : (run clks v L 2).rxSync0 = false := by rw [← h0]; exact rxSync0_run 0
  have hc1 := counter_step (x := L 0) hn (by omega) h.restart
  have hc2 := counter_step (v := run clks v L 1) (x := L 1) hn (by omega) h1.restart
  have hc3 := counter_step (v := run clks v L 2) (x := L 2) hn (by omega) h2.restart
  have hst2 : (run clks v L 2).rxState = .idle := h2.state
  refine ⟨?_, ?_, ?_, ?_⟩
  · rw [run_succ]
    simp [Receiver.step, hst2, hs2]
  · rw [run_succ]
    simp [Receiver.step, hst2, hs2]
  · have hlt := v.rxBaudCounter.isLt
    change (run clks v L 1).rxBaudCounter.toNat = _ at hc1
    change (run clks v L 2).rxBaudCounter.toNat = _ at hc2
    change (run clks v L 3).rxBaudCounter.toNat = _ at hc3
    split at hc1 <;> split at hc2 <;> split at hc3 <;> omega
  · rw [received_succ, received_succ, received_succ, run_zero, hrec1, hrec2,
      completed_of_ne (by rw [hst2]; decide)]
    rfl

theorem sampleBase_cases (N c : Nat) : sampleBase N c = 5 ∨ sampleBase N c = N / 2 + 5 := by
  rw [sampleBase]
  split
  · exact .inl rfl
  · exact .inr rfl

theorem Ready.start (h : Ready v) (hn : clks.toNat = N) (hN : 8 ≤ N)
    (hL : ∀ t < N / 2 + 2, L t = false) : ∃ col, Timing .data 0 col 0
        (run clks v L (sampleBase N v.rxBaudCounter.toNat)) ∧
      received clks v L (sampleBase N v.rxBaudCounter.toNat) = [] := by
  obtain ⟨hst3, hr3, hc3, hrec3⟩ := h.edge hn hN (hL 0 (by omega))
  have hs3 : (run clks v L 3).rxSync0 = false := (rxSync0_run 1).trans (hL 1 (by omega))
  have hc4 : (run clks v L 4).rxBaudCounter = 0 := by
    rw [run_succ, rxBaudCounter_step, hr3, Bool.or_true, if_pos rfl]
  by_cases hstale : v.rxBaudCounter.toNat + 4 = N / 2
  · -- the counter stands at the sample point before it has been restarted
    have hb : (run clks v L 3).rxSample clks = true := (rxSample_iff hn (by omega)).2 (hc3.2 hstale)
    obtain ⟨hst4, hcnt4, hr4, hrec4⟩ := start_data (x := L 3) hst3 hs3 hb
    obtain ⟨ht, hrec5⟩ := restart_data (v := run clks v L 4) (x := L 4) hn (by omega) hst4 hcnt4 hr4
      (by rw [hc4]; simp; omega)
    rw [sampleBase, if_pos hstale]
    refine ⟨_, ht, ?_⟩
    rw [received_succ, received_succ, hrec3, hrec4, hrec5]
    rfl
  · have hb : (run clks v L 3).rxSample clks = false := by
      rw [← Bool.not_eq_true, rxSample_iff hn (by omega), hc3]
      exact hstale
    have ht4 : Timing .start (run clks v L 3).rxCollectingCount (run clks v L 3).rxCollecting 0
        (run clks v L 4) := by
      refine ⟨?_, ?_, ?_, by rw [hc4]; rfl, ?_⟩ <;> rw [run_succ] <;>
        simp [Receiver.step, hst3, hb]
    obtain ⟨ht, hrec⟩ := ht4.wait (L := fun t => L (4 + t)) hn (by omega) (by decide)
      (d := N / 2 - 1) (by omega) fun _ => by omega
    rw [← run_add, show 4 + (N / 2 - 1) = N / 2 + 3 by omega] at ht
    have hs : (run clks v L (N / 2 + 3)).rxSync0 = false :=
      (rxSync0_run (N / 2 + 1)).trans (hL _ (by omega))
    obtain ⟨hst4, hcnt4, hr4, hrec4⟩ := start_data (x := L (N / 2 + 3)) ht.state hs
      ((rxSample_iff hn (by omega)).2 (by rw [ht.counter]; omega))
    have hcounter : (run clks v L (N / 2 + 4)).rxBaudCounter.toNat = N / 2 := by
      rw [run_succ, counter_step hn (by omega) ht.restart, ht.counter,
        if_neg (by omega)]
      omega
    obtain ⟨ht5, hrec5⟩ := restart_data (v := run clks v L (N / 2 + 4)) (x := L (N / 2 + 4)) hn
      (by omega) hst4 hcnt4 hr4 (by rw [hcounter]; omega)
    rw [sampleBase, if_neg hstale]
    refine ⟨_, ht5, ?_⟩
    rw [received_succ, received_succ, hrec4, hrec5, show N / 2 + 3 = 4 + (N / 2 - 1) by omega,
      received_add, hrec, received_succ, hrec3, completed_of_ne (by rw [hst3]; decide)]
    rfl

/-- Eight bits after the start bit the receiver has the samples and waits for the stop bit. -/
theorem Ready.collects (h : Ready v) (hn : clks.toNat = N) (hN : 8 ≤ N)
    (hL : ∀ t < N / 2 + 2, L t = false) :
    ∃ T col, T = sampleBase N v.rxBaudCounter.toNat ∧ Timing .stop 0 col 0 (run clks v L (T + 8 * N)) ∧
      (∀ i < 8, col.getLsbD i = L (T + (i * N + (N - 3)))) ∧ received clks v L (T + 8 * N) = [] := by
  obtain ⟨col₀, ht₀, hrec₀⟩ := h.start hn hN hL
  obtain ⟨col, ht, hbits, hrec⟩ := ht₀.bits
    (L := fun t => L (sampleBase N v.rxBaudCounter.toNat + t)) hn (by omega) (j := 8) (Nat.le_refl 8)
  rw [if_pos rfl, ← run_add] at ht
  exact ⟨_, col, rfl, ht, hbits, by rw [received_add, hrec₀, hrec]; rfl⟩

end Receiver

end PenPlotter
