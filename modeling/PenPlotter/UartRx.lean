import PenPlotter.UartWrite

/-!
# The receiver

The receiver and its baud counter are driven by the line alone, so they form a machine of their own
(`Receiver`). A byte completes in the cycle that finds its stop bit high, and enters the RX ring then
unless the ring is full.
-/

namespace PenPlotter

variable {k : Nat} {ClockRate : Nat}

/-- The receiver with the counter that times it. -/
structure Receiver extends RxFsm where
  rxBaudCounter : BitVec 32

namespace Receiver

variable (clks : BitVec 32) (v : Receiver)

def rxBaud : Bool := v.rxBaudCounter == clks - 1
def rxSample : Bool := v.rxBaudCounter == (clks >>> 1) - 1

/-- The receiver after one cycle, as in `UartState.rxNext` and `UartState.baudNext`. -/
def step (rxI : Bool) : Receiver :=
  let x : Receiver :=
    { v with
      rxSync1 := rxI
      rxSync0 := v.rxSync1
      rxRestartBaud := false
      rxBaudCounter := if v.rxBaud clks || v.rxRestartBaud then 0 else v.rxBaudCounter + 1 }
  match v.rxState with
  | .idle => if !v.rxSync0 then { x with rxRestartBaud := true, rxState := .start } else x
  | .start =>
    if v.rxSample clks then
      if !v.rxSync0 then { x with rxRestartBaud := true, rxCollectingCount := 0, rxState := .data }
      else { x with rxState := .idle }
    else x
  | .data =>
    if v.rxBaud clks then
      { x with
        rxCollecting := setBit v.rxCollecting v.rxCollectingCount v.rxSync0
        rxCollectingCount := v.rxCollectingCount + 1
        rxState := if v.rxCollectingCount = 7 then .stop else .data }
    else x
  | .stop =>
    if v.rxBaud clks && v.rxSync0 then { x with rxCollecting := 0, rxState := .idle } else x

/-- The byte that completes in this cycle. -/
def completed (_rxI : Bool) : List (BitVec 8) :=
  if v.rxState == .stop && v.rxBaud clks && v.rxSync0 then [v.rxCollecting] else []

variable {clks v} {rxI : Bool}

@[simp] theorem rxSync1_step : (v.step clks rxI).rxSync1 = rxI := by
  unfold step
  cases v.rxState <;> dsimp only <;> split <;> (try split) <;> rfl

@[simp] theorem rxSync0_step : (v.step clks rxI).rxSync0 = v.rxSync1 := by
  unfold step
  cases v.rxState <;> dsimp only <;> split <;> (try split) <;> rfl

theorem rxBaudCounter_step : (v.step clks rxI).rxBaudCounter =
    if v.rxBaud clks || v.rxRestartBaud then 0 else v.rxBaudCounter + 1 := by
  unfold step
  cases v.rxState <;> dsimp only <;> (repeat' split) <;> simp_all

theorem completed_of_ne (h : v.rxState ≠ .stop) : v.completed clks rxI = [] := by
  simp [completed, h]

end Receiver

namespace UartState

variable (s : UartState k) (i : UartIn)

def receiver : Receiver := { s.toRxFsm with rxBaudCounter := s.rxBaudCounter }

/-- The byte that completes in the receiver in this cycle. -/
def completedByte (ClockRate : Nat) : List (BitVec 8) :=
  if s.rxState == .stop && s.rxBaud ClockRate && s.rxSync0 then [s.rxCollecting] else []

def rxContents : List (BitVec 8) := Ring.contents s.rxBuf s.rxBufStart s.rxBufEnd

variable {s i}

theorem receiver_rxState : s.receiver.rxState = s.rxState := rfl

theorem receiver_step : (s.step ClockRate i).receiver = s.receiver.step (s.clks ClockRate) i.rxI := by
  have hstep : (s.step ClockRate i).receiver =
      { (s.rxNext ClockRate i).toRxFsm with
        rxBaudCounter := (s.baudNext ClockRate).rxBaudCounter } := rfl
  have hbaud : s.receiver.rxBaud (s.clks ClockRate) = s.rxBaud ClockRate := rfl
  have hsample : s.receiver.rxSample (s.clks ClockRate) = s.rxSample ClockRate := rfl
  rw [hstep, Receiver.step, rxNext, hbaud, hsample]
  dsimp only [receiver, baudNext]
  -- both sides now branch on the same conditions
  clear hstep hbaud hsample
  cases s.rxState <;> dsimp only <;> split <;> (try split) <;> simp_all

/-- A completed byte enters the RX ring unless the ring is full. -/
theorem contents_rxNext : Ring.contents (s.rxNext ClockRate i).rxBuf s.rxBufStart
      (s.rxNext ClockRate i).rxBufEnd =
    s.rxContents ++ (if s.rxFull then [] else s.completedByte ClockRate) := by
  by_cases hdone : (s.rxState == .stop && s.rxBaud ClockRate && s.rxSync0) = true
  · have hst : s.rxState = .stop := by simp at hdone; exact hdone.1.1
    have hb : (s.rxBaud ClockRate && s.rxSync0) = true := by simp [hst] at hdone; simp [hdone]
    rw [completedByte, if_pos hdone]
    unfold rxNext
    rw [hst]
    dsimp only
    rw [if_pos hb]
    dsimp only
    cases hf : s.rxFull with
    | true =>
      rw [if_pos rfl, if_pos rfl, List.append_nil]
      exact Ring.contents_update_stop _
    | false =>
      rw [rxFull, beq_eq_false_iff_ne] at hf
      exact Ring.contents_push hf _
  · have hsame : (s.rxNext ClockRate i).rxBuf = s.rxBuf ∧
        (s.rxNext ClockRate i).rxBufEnd = s.rxBufEnd := by
      unfold rxNext
      cases hst : s.rxState with
      | stop =>
        have hb : (s.rxBaud ClockRate && s.rxSync0) = false := by simpa [hst] using hdone
        simp [hb]
      | _ => dsimp only; split <;> (try split) <;> exact ⟨rfl, rfl⟩
    rw [completedByte, if_neg hdone, hsame.1, hsame.2]
    simp [rxContents]

end UartState

end PenPlotter
