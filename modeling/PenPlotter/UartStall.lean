import PenPlotter.UartBaud
import PenPlotter.UartRx

/-!
# A disabled baud register

With no enabled code the bound is 0 and `clks_per_bit - 1` is the last value of a counter before its
wrap. So the peripheral stalls, but only for as long as no counter gets there with work to do: a run
shorter than `2 ^ 32` cycles is safe, a longer one is not.
-/

namespace PenPlotter

open UartState UartRun

variable {k ClockRate : Nat} {s : UartState k} {i : UartIn}

namespace UartState

variable (s) in
/-- The last count meets a byte to send, or a byte received and room for it. -/
def WrapsWithWork : Prop :=
  (s.txBaudCounter + 1 = 0 ∧ s.txEmpty = false) ∨
    (s.rxBaudCounter + 1 = 0 ∧ s.rxState = .stop ∧ s.rxSync0 = true ∧ s.rxFull = false)

variable (ClockRate) (s) (i) in
/-- The transmitter takes no byte out of the TX ring and the receiver puts none into the RX ring. -/
def RingsLeft : Prop :=
  Ring.contents s.txBuf (s.txNext ClockRate).txBufStart s.txBufEnd = s.txContents ∧
    Ring.contents (s.rxNext ClockRate i).rxBuf s.rxBufStart (s.rxNext ClockRate i).rxBufEnd =
      s.rxContents

theorem tick_disabled {c : BitVec 32} : (c == 0 - 1) = true ↔ c + 1 = 0 := by
  rw [beq_iff_eq]
  constructor <;> intro h <;> bv_omega

theorem txO_step_start (hidle : s.txState = .idle) (ht : s.txBaud ClockRate = true)
    (hne : s.txEmpty = false) : (s.step ClockRate i).txO = false := by
  have hstep : (s.step ClockRate i).toTxRegs = s.txNext ClockRate := rfl
  rw [txO, hstep]
  simp [txNext, hidle, ht, hne]

theorem txState_step_disabled (hc : s.clks ClockRate = 0) (hidle : s.txState = .idle) :
    (s.step ClockRate i).txState = .idle ↔ ¬(s.txBaudCounter + 1 = 0 ∧ s.txEmpty = false) := by
  have ht : s.txBaud ClockRate = true ↔ s.txBaudCounter + 1 = 0 := by
    rw [txBaud, hc, tick_disabled]
  have hnext : (s.step ClockRate i).txState =
      if !s.txEmpty && s.txBaud ClockRate then .start else .idle := by
    show (s.txNext ClockRate).txState = _
    unfold txNext
    rw [hidle]
    dsimp only
    split
    · rfl
    · exact hidle
  rw [hnext, ← ht]
  cases s.txEmpty <;> cases s.txBaud ClockRate <;> simp

/-- An idle transmitter leaves its ring alone, and the receiver fills its own only at the wrap. -/
theorem ringsLeft_iff (hc : s.clks ClockRate = 0) (hidle : s.txState = .idle) :
    s.RingsLeft ClockRate i ↔
      ¬(s.rxBaudCounter + 1 = 0 ∧ s.rxState = .stop ∧ s.rxSync0 = true ∧ s.rxFull = false) := by
  have ht : s.rxBaud ClockRate = true ↔ s.rxBaudCounter + 1 = 0 := by
    rw [rxBaud, hc, tick_disabled]
  have hstart : (s.txNext ClockRate).txBufStart = s.txBufStart :=
    txBufStart_txNext (.inl (by rw [hidle]; decide))
  rw [RingsLeft, hstart, contents_rxNext, List.append_right_eq_self, ← ht]
  constructor
  · rintro ⟨-, hnil⟩ ⟨hb, hst, hs, hf⟩
    rw [hf, if_neg (by decide), completedByte, hst, hb, hs] at hnil
    exact absurd hnil (by simp)
  · intro hno
    refine ⟨rfl, ?_⟩
    cases hf : s.rxFull with
    | true => rfl
    | false =>
      rw [if_neg (by decide), completedByte, if_neg]
      intro hcond
      rw [Bool.and_eq_true, Bool.and_eq_true, beq_iff_eq] at hcond
      exact hno ⟨hcond.1.2, hcond.1.1, hcond.2, hf⟩

end UartState

section Reset

variable (rdata : BitVec 32) (txBuf rxBuf : BitVec k → BitVec 8) {inp : Nat → UartIn}

/-- In a run from reset in which the baud register stays disabled, the transmitter is idle with its line
high, no byte leaves the TX ring for the line and none enters the RX ring, up to cycle `T`, exactly when
no counter wraps with work to do before `T`. -/
theorem uart_disabled_stalls
    (hdis : ∀ t, (state ClockRate (reset rdata txBuf rxBuf) inp t).clks ClockRate = 0) (T : Nat) :
    (∀ t ≤ T, (state ClockRate (reset rdata txBuf rxBuf) inp t).txState = .idle ∧
      (state ClockRate (reset rdata txBuf rxBuf) inp t).txO = true ∧
      (t < T → (state ClockRate (reset rdata txBuf rxBuf) inp t).RingsLeft ClockRate (inp t))) ↔
    ∀ t < T, ¬(state ClockRate (reset rdata txBuf rxBuf) inp t).WrapsWithWork := by
  constructor
  · rintro h t ht (hwrap | hwrap)
    · exact (txState_step_disabled (i := inp t) (hdis t) (h t ht.le).1).1 (h (t + 1) ht).1 hwrap
    · exact (ringsLeft_iff (hdis t) (h t ht.le).1).1 ((h t ht.le).2.2 ht) hwrap
  · intro h
    have hidle : ∀ t ≤ T, (state ClockRate (reset rdata txBuf rxBuf) inp t).txState = .idle := by
      intro t
      induction t with
      | zero => exact fun _ => rfl
      | succ t ih =>
        exact fun ht => (txState_step_disabled (hdis t) (ih (by omega))).2 fun hw => h t ht (.inl hw)
    intro t ht
    refine ⟨hidle t ht, by rw [txO, hidle t ht], fun hlt => ?_⟩
    exact (ringsLeft_iff (hdis t) (hidle t ht)).2 fun hw => h t hlt (.inr hw)

end Reset

variable {s₀ : UartState k} {inp : Nat → UartIn}

theorem rxBaudCounter_le (h : s₀.rxBaudCounter = 0) (t : Nat) :
    (state ClockRate s₀ inp t).rxBaudCounter.toNat ≤ t := by
  induction t with
  | zero => exact le_of_eq (congrArg BitVec.toNat h)
  | succ t ih =>
    have hstep : (state ClockRate s₀ inp (t + 1)).rxBaudCounter =
        if (state ClockRate s₀ inp t).rxBaud ClockRate || (state ClockRate s₀ inp t).rxRestartBaud
        then 0 else (state ClockRate s₀ inp t).rxBaudCounter + 1 := rfl
    rw [hstep]
    split
    · exact Nat.zero_le _
    · bv_omega

theorem writeTwoLanes_disabled (t : Nat) :
    (state ClockRate resetUart writeTwoLanes t).clks ClockRate = 0 := by
  have hb : BaudHeld ClockRate resetUart writeTwoLanes 0 :=
    baudHeld_of_no_write (by decide) fun _ _ _ => (by decide : (8#32 : BitVec 32) ≠ 4#32)
  exact BitVec.eq_of_toNat_eq (hb t)

/-- No run shorter than `2 ^ 32` cycles gets to a wrap. -/
theorem uart_disabled_short {T : Nat} (hT : T < 2 ^ 32) :
    ∀ t < T, ¬(state ClockRate resetUart writeTwoLanes t).WrapsWithWork := by
  rintro t ht (⟨hwrap, -⟩ | ⟨hwrap, -⟩)
  · rw [txBaudCounter_disabled fun j _ => writeTwoLanes_disabled j] at hwrap
    have : (resetUart.txBaudCounter + BitVec.ofNat 32 t + 1).toNat = t + 1 := by
      show ((0 : BitVec 32) + BitVec.ofNat 32 t + 1).toNat = t + 1
      bv_omega
    rw [hwrap] at this
    exact absurd this (by simp)
  · have hle : (state ClockRate resetUart writeTwoLanes t).rxBaudCounter.toNat ≤ t :=
      rxBaudCounter_le rfl t
    bv_omega

/-- After a write of two lanes the line still rests in cycle `2 ^ 32 - 1`. -/
theorem uart_disabled_stalls_short :
    (state 50000000 resetUart writeTwoLanes (2 ^ 32 - 1)).txState = .idle ∧
      (state 50000000 resetUart writeTwoLanes (2 ^ 32 - 1)).txO = true := by
  have hdis : ∀ t, (state 50000000 resetUart writeTwoLanes t).clks 50000000 = 0 :=
    writeTwoLanes_disabled
  obtain ⟨hidle, hline, -⟩ := (uart_disabled_stalls 0 (fun _ => 0) (fun _ => 0) hdis (2 ^ 32 - 1)).2
    (uart_disabled_short (by decide)) _ le_rfl
  exact ⟨hidle, hline⟩

/-- A byte that waits long enough is sent although the baud register was never enabled. -/
theorem uart_disabled_sends : (state 50000000 resetUart writeTwoLanes (2 ^ 32)).txO = false := by
  have hcount : ∀ t, (state 50000000 resetUart writeTwoLanes t).txBaudCounter = 0 + BitVec.ofNat 32 t :=
    fun t => txBaudCounter_disabled fun j _ => writeTwoLanes_disabled j
  have hwait : ∀ d, d + 6 < 2 ^ 32 →
      (state 50000000 resetUart writeTwoLanes (d + 6)).txState = .idle ∧
        (state 50000000 resetUart writeTwoLanes (d + 6)).txContents ≠ [] := by
    intro d
    induction d with
    | zero => exact fun _ => ⟨rfl, by decide⟩
    | succ d ih =>
      intro hd
      obtain ⟨hidle, hc⟩ := ih (by omega)
      have hno : ¬((state 50000000 resetUart writeTwoLanes (d + 6)).txBaudCounter + 1 = 0 ∧
          (state 50000000 resetUart writeTwoLanes (d + 6)).txEmpty = false) := by
        rintro ⟨hwrap, -⟩
        rw [hcount] at hwrap
        bv_omega
      have hgrow : (state 50000000 resetUart writeTwoLanes (d + 6 + 1)).txContents = _ ++ _ :=
        txContents_step_of_not_popping (.inl (by rw [hidle]; decide))
      rw [Nat.add_right_comm]
      refine ⟨(txState_step_disabled (writeTwoLanes_disabled _) hidle).2 hno, ?_⟩
      rw [hgrow]
      exact List.append_ne_nil_of_left_ne_nil hc _
  obtain ⟨n, hn⟩ : ∃ n, 2 ^ 32 = n + 6 + 1 := ⟨2 ^ 32 - 7, by omega⟩
  obtain ⟨hidle, hc⟩ := hwait n (by omega)
  rw [hn]
  refine txO_step_start hidle ?_ ?_
  · rw [txBaud, writeTwoLanes_disabled, hcount, tick_disabled]
    bv_omega
  · rw [← Bool.not_eq_true, txEmpty_iff]
    exact hc

end PenPlotter
