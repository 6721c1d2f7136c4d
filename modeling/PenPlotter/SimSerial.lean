import PenPlotter.PpObject
import PenPlotter.SimRegulate
import PenPlotter.SimUart
import PenPlotter.UartReset
import PenPlotter.UartStall

/-!
# The serial line of the simulated system (`dv/verilator/sim_pp_system.hpp`)

`main` first writes the baud code 9600, the rate of the simulator. Where this comes soon after reset and the host
sends nothing before the receiver has got over its false start, `uart_tx_decoder` notifies the bytes that the core
has stored in the TX lane, in the order in which the bus has granted the stores, and `u_uart` completes the bytes of
`uart_enqueue` (`serial_link`).
-/

namespace PenPlotter

open BusRun Sequential Serial UartRun

/-- `Uart` of `bus_device_e`. -/
def uartDevice : Fin NrDevices := ⟨1, Nat.le_of_ble_eq_true rfl⟩

/-- What a request to `u_uart` stores in the TX lane. -/
def DevReq.txBytes (q : DevReq) : List (BitVec 8) :=
  if q.we && (q.addr.setWidth 8).setWidth 32 == txLane then lanesFrom q.wdata q.be 0 else []

/-- The enabled bytes of the stores to the TX lane among the granted requests. -/
def txStored (G : List (Granted NrHosts)) : List (BitVec 8) :=
  (PpSystem.requestsTo uartDevice G).flatMap DevReq.txBytes

namespace PpSystem

variable {prim : RamPrim MemAw} {M : Nat} {s₀ s : PpSystem prim} {inp : Nat → PpSystemIn} {i : PpSystemIn}

/-- A grant of the bus to `u_uart` is a grant of `u_uart`. -/
theorem writtenLanes_eq :
    s.uart.writtenLanes (s.uartIn i) = (s.bus.accepted cfgDevice uartDevice (s.busIn M i)).flatMap DevReq.txBytes := by
  have hgnt : (s.busIn M i).deviceGnt uartDevice = s.uart.gntO (s.uartIn i) := rfl
  have hacc : s.bus.accepted cfgDevice uartDevice (s.busIn M i) =
      if (s.devicePort i uartDevice).reqI && (s.busIn M i).deviceGnt uartDevice then [_] else [] := rfl
  rw [hacc, hgnt, UartState.writtenLanes]
  have hreq : s.uart.gntO (s.uartIn i) = ((s.devicePort i uartDevice).reqI && s.uart.gntO (s.uartIn i)) := by
    show (s.uart.deviceState == .wait && (s.devicePort i uartDevice).reqI) =
      ((s.devicePort i uartDevice).reqI && (s.uart.deviceState == .wait && (s.devicePort i uartDevice).reqI))
    cases (s.devicePort i uartDevice).reqI <;> simp
  rw [← hreq]
  cases s.uart.gntO (s.uartIn i) with
  | false => rfl
  | true => exact (List.append_nil _).symm

theorem txStored_succ (h0 : s₀.bus = .reset) (t : Nat) :
    txStored (grants 2 cfgDevice (busTrace M s₀ inp) (t + 1)) =
      txStored (grants 2 cfgDevice (busTrace M s₀ inp) t) ++
        (run M s₀ inp t).uart.writtenLanes ((run M s₀ inp t).uartIn (inp t)) := by
  have hacc (t : Nat) : requestsTo uartDevice (grants 2 cfgDevice (busTrace M s₀ inp) t) =
      accepts 2 cfgDevice (busTrace M s₀ inp) uartDevice t := (accepts_eq ..).symm
  rw [txStored, hacc, accepts, Clocked.log_succ, ← accepts, List.flatMap_append, txStored, hacc,
    writtenLanes_eq (M := M), bus_run h0]
  rfl

end PpSystem

section Reset

variable {k ClockRate : Nat} {rdata : BitVec 32} {txBuf rxBuf : BitVec k → BitVec 8} {ins : Nat → UartIn}

/-- Before the baud code the transmitter is idle, and what is stored waits. -/
theorem tx_before_baud {B t : Nat} (hB : B < 2 ^ 32)
    (hdis : ∀ t < B, (state ClockRate (UartState.reset rdata txBuf rxBuf) ins t).clks ClockRate = 0) (ht : t ≤ B) :
    (state ClockRate (UartState.reset rdata txBuf rxBuf) ins t).txState = .idle ∧
      (state ClockRate (UartState.reset rdata txBuf rxBuf) ins t).txBaudCounter.toNat = t ∧
      (state ClockRate (UartState.reset rdata txBuf rxBuf) ins t).IdxRests ∧
      (state ClockRate (UartState.reset rdata txBuf rxBuf) ins t).txContents ++
        (state ClockRate (UartState.reset rdata txBuf rxBuf) ins t).pendingLanes =
        written ClockRate (UartState.reset rdata txBuf rxBuf) ins t := by
  induction t with
  | zero =>
    have hempty : (UartState.reset rdata txBuf rxBuf).txContents = [] := UartState.txEmpty_iff.1 (beq_self_eq_true _)
    exact ⟨rfl, rfl, fun _ => rfl, congrArg (· ++ _) hempty⟩
  | succ t ih =>
    obtain ⟨hidle, hcounter, hrests, hkept⟩ := ih (by omega)
    have hclks := hdis t (by omega)
    generalize hs : state ClockRate (UartState.reset rdata txBuf rxBuf) ins t = s at hidle hcounter hrests hkept hclks
    have hnext : state ClockRate (UartState.reset rdata txBuf rxBuf) ins (t + 1) = s.step ClockRate (ins t) := by
      rw [← hs]
      rfl
    have hwritten : written ClockRate (UartState.reset rdata txBuf rxBuf) ins (t + 1) =
        written ClockRate (UartState.reset rdata txBuf rxBuf) ins t ++ s.writtenLanes (ins t) := by
      rw [← hs]
      rfl
    -- the counter does not wrap yet
    have hcount : (s.txBaudCounter + 1).toNat = t + 1 := by
      rw [BitVec.toNat_add, hcounter]
      exact Nat.mod_eq_of_lt (show t + 1 < 2 ^ 32 by omega)
    have hlast : ¬ s.txBaudCounter + 1 = 0 := fun h => by
      rw [h] at hcount
      cases hcount
    have hbaud : s.txBaud ClockRate = false := by
      rw [UartState.txBaud, hclks, ← Bool.not_eq_true, UartState.tick_disabled]
      exact hlast
    rw [hnext, hwritten]
    refine ⟨(UartState.txState_step_disabled hclks hidle).2 fun h => hlast h.1, ?_, hrests.step, ?_⟩
    · show (if s.txBaud ClockRate then 0 else s.txBaudCounter + 1 : BitVec 32).toNat = t + 1
      rw [hbaud, if_neg Bool.false_ne_true]
      exact hcount
    · rw [UartState.txContents_step_of_not_popping (.inr hbaud), List.append_assoc,
        ← UartState.lanes_conserved hrests, ← List.append_assoc, hkept]

/-- On a high line the receiver is in IDLE or waits in START, whatever the bound. -/
theorem Receiver.high_step {clks : BitVec 32} {v : Receiver} (hst : v.rxState = .idle ∨ v.rxState = .start)
    (h1 : v.rxSync1 = true) (h0 : v.rxSync0 = true) :
    ((v.step clks true).rxState = .idle ∨ (v.step clks true).rxState = .start) ∧
      (v.step clks true).rxSync1 = true ∧ (v.step clks true).rxSync0 = true := by
  refine ⟨?_, rxSync1_step, by rw [rxSync0_step, h1]⟩
  rcases hst with hst | hst
  · left
    simp [Receiver.step, hst, h0]
  · cases hs : v.rxSample clks with
    | true =>
      left
      simp [Receiver.step, hst, hs, h0]
    | false => exact .inr (start_stays hst hs).1

/-- Before the first frame the receiver completes nothing. -/
theorem rx_on_high {t : Nat}
    (hdis : ∀ t < 2, (state ClockRate (UartState.reset rdata txBuf rxBuf) ins t).clks ClockRate = 0)
    (hhigh : ∀ j < t, (ins j).rxI = true) :
    (state ClockRate (UartState.reset rdata txBuf rxBuf) ins t).rxState ≠ .stop := by
  have hlate (d : Nat) (hhigh : ∀ j < 2 + d, (ins j).rxI = true) :
      ((state ClockRate (UartState.reset rdata txBuf rxBuf) ins (2 + d)).receiver.rxState = .idle ∨
        (state ClockRate (UartState.reset rdata txBuf rxBuf) ins (2 + d)).receiver.rxState = .start) ∧
      (state ClockRate (UartState.reset rdata txBuf rxBuf) ins (2 + d)).receiver.rxSync1 = true ∧
      (state ClockRate (UartState.reset rdata txBuf rxBuf) ins (2 + d)).receiver.rxSync0 = true := by
    induction d with
    | zero =>
      have hwait := (receiver_enabled (T := 0) hdis hhigh).1 (by decide)
      exact ⟨.inr hwait.state, hwait.sync1, hwait.sync0⟩
    | succ d ih =>
      obtain ⟨hst, h1, h0⟩ := ih fun j hj => hhigh j (by omega)
      rw [← Nat.add_assoc, receiver_succ, hhigh (2 + d) (by omega)]
      exact Receiver.high_step hst h1 h0
  match t with
  | 0 => exact fun h => by cases h
  | 1 =>
    have hone : (state ClockRate (UartState.reset rdata txBuf rxBuf) ins 1).receiver =
        (UartState.reset rdata txBuf rxBuf).receiver.step _ _ := receiver_succ 0
    rw [← UartState.receiver_rxState, hone]
    exact fun h => by cases h
  | d + 2 =>
    rw [Nat.add_comm, ← UartState.receiver_rxState]
    rcases (hlate d fun j hj => hhigh j (by omega)).1 with h | h <;> rw [h] <;> decide

end Reset

namespace SimSystem

variable {prim : RamPrim MemAw} (M : Nat) (p : PowerUp prim) (inp : Nat → SimIn)

/-- The inputs of `instance` from the last cycle of `reset` on. -/
def instanceIn : Nat → PpSystemIn
  | 0 => resetIn p
  | t + 1 => systemInAt M p inp t

/-- What `u_bus` sees from the last cycle of `reset` on. -/
def busIns : Nat → BusIn NrHosts NrDevices := PpSystem.busTrace M (low p) (instanceIn M p inp)

/-- What `out` gives in the ticks before `t`. -/
def before {E : Type} (out : SimSystem prim → SimIn → List E) (t : Nat) : List E :=
  Clocked.log (tick M) out (reset M p) inp t

/-- The bytes that `uart_tx_decoder` notifies. -/
def notified : Nat → List (BitVec 8) := before M p inp fun s _ => s.uartTxDecoder.notified s.system.uart.txO

/-- The bytes that complete in the receiver of `u_uart`. -/
def received : Nat → List (BitVec 8) := before M p inp fun s _ => s.system.uart.completedByte 50000000

/-- The bytes of `uart_enqueue`. -/
def enqueued : Nat → List (BitVec 8) := before M p inp fun _ i => i.enqueue

/-- The baud code 9600 that the firmware writes takes effect in tick `B`, before a counter has passed the bound, and
stays; the host sends nothing before tick `e`, more than one bit later. -/
structure SerialSetup (B e : Nat) : Prop where
  disabled : ∀ t < B, (run M p inp t).system.uart.clks 50000000 = 0
  baud : ∀ t ≥ B, ((run M p inp t).system.uart.clks 50000000).toNat = 5208
  early : B < 5207
  silent : ∀ t < e, (inp t).enqueue = []
  late : B + 5210 ≤ e

/-- What `u_uart` sees from the last cycle of `reset` on. -/
def uartIns (t : Nat) : UartIn :=
  (PpSystem.run M (low p) (instanceIn M p inp) t).uartIn (instanceIn M p inp t)

/-- `u_uart` with `rst_n` low. -/
abbrev uartLow : UartState 5 := .reset p.rdata p.txBuf p.rxBuf

variable {M p inp} {t T B e : Nat}

/-! ### The parts of a run -/

theorem run_from (t : Nat) : run M p inp (T + t) = Clocked.run (tick M) (run M p inp T) (fun j => inp (T + j)) t :=
  Clocked.run_add T t

theorem before_from {E : Type} {out : SimSystem prim → SimIn → List E} (h : before M p inp out T = []) (t : Nat) :
    before M p inp out (T + t) = Clocked.log (tick M) out (run M p inp T) (fun j => inp (T + j)) t := by
  refine (Clocked.log_add T t).trans ?_
  rw [show Clocked.log (tick M) out (reset M p) inp T = [] from h]
  rfl

theorem system_run (t : Nat) :
    (run M p inp t).system = PpSystem.run M (low p) (instanceIn M p inp) (t + 1) := by
  induction t with
  | zero => rfl
  | succ t ih =>
    show _ = PpSystem.step M (PpSystem.run M (low p) (instanceIn M p inp) (t + 1)) (systemInAt M p inp t)
    rw [← ih]
    rfl

theorem uart_run (t : Nat) : (PpSystem.run M (low p) (instanceIn M p inp) t).uart =
    state 50000000 (uartLow p) (uartIns M p inp) t :=
  Clocked.run_map (fun s : PpSystem prim => s.uart) (uartIns M p inp) (fun _ => rfl) t

theorem uart_tick (t : Nat) :
    (run M p inp t).system.uart = state 50000000 (uartLow p) (uartIns M p inp) (t + 1) := by
  rw [system_run]
  exact uart_run (t + 1)

theorem rxI_uartIns (t : Nat) :
    (uartIns M p inp (t + 1)).rxI = (run M p inp t).uartRxInjector.uartRx (inp t).enqueue := rfl

/-- The grants of the bus put the lanes into `u_uart` that its transmitter sends. -/
theorem txStored_granted (t : Nat) : txStored (grants 2 cfgDevice (busIns M p inp) t) =
    written 50000000 (uartLow p) (uartIns M p inp) t := by
  induction t with
  | zero => rfl
  | succ t ih =>
    rw [busIns, PpSystem.txStored_succ rfl, ← busIns, ih, uart_run]
    rfl

theorem uart_from (t : Nat) : (run M p inp (T + t)).system.uart =
    state 50000000 (run M p inp T).system.uart (fun j => uartIns M p inp (T + 1 + j)) t := by
  rw [uart_tick, uart_tick, show T + t + 1 = T + 1 + t by omega]
  exact Clocked.run_add (T + 1) t

theorem txStored_from (t : Nat) : txStored (grants 2 cfgDevice (busIns M p inp) (T + t + 1)) =
    txStored (grants 2 cfgDevice (busIns M p inp) (T + 1)) ++
      written 50000000 (run M p inp T).system.uart (fun j => uartIns M p inp (T + 1 + j)) t := by
  rw [txStored_granted, txStored_granted, uart_tick, show T + t + 1 = T + 1 + t by omega]
  exact Clocked.log_add (T + 1) t

theorem notified_from (h : notified M p inp T = []) (t : Nat) :
    notified M p inp (T + t) = (run M p inp T).uartTxDecoder.decoded (fun t =>
      (state 50000000 (run M p inp T).system.uart (fun j => uartIns M p inp (T + 1 + j)) t).txO) t := by
  rw [notified, before_from h]
  refine Clocked.log_map (fun s : SimSystem prim => s.uartTxDecoder) _ (fun t => ?_) (fun t => ?_) t
  · rw [← uart_from, ← run_from, ← run_from]
    rfl
  · rw [← uart_from, ← run_from]

theorem received_from (h : received M p inp T = []) (t : Nat) : received M p inp (T + t) =
    completed 50000000 (run M p inp T).system.uart (fun j => uartIns M p inp (T + 1 + j)) t := by
  rw [received, before_from h]
  refine Clocked.log_map (fun s : SimSystem prim => s.system.uart) _ (fun t => ?_) (fun _ => rfl) t
  rw [← run_from, ← run_from, ← Nat.add_assoc, uart_tick, uart_tick, Nat.add_right_comm T 1 t]
  rfl

theorem injector_from (t : Nat) : (run M p inp (T + t)).uartRxInjector =
    (run M p inp T).uartRxInjector.run (fun j => (inp (T + j)).enqueue) t := by
  rw [run_from]
  exact Clocked.run_map (fun s : SimSystem prim => s.uartRxInjector) _ (fun _ => rfl) t

theorem enqueued_from (h : enqueued M p inp T = []) (hqueue : (run M p inp T).uartRxInjector.enqueued = []) (t : Nat) :
    enqueued M p inp (T + t) = (run M p inp T).uartRxInjector.fed (fun j => (inp (T + j)).enqueue) t := by
  rw [enqueued, before_from h, InjectorFeed.fed, hqueue, List.nil_append]
  exact Clocked.log_map (fun s : SimSystem prim => s.uartRxInjector) _ (fun _ => rfl) (fun _ => rfl) t

namespace SerialSetup

variable (h : SerialSetup M p inp B e)
include h

theorem clks_low (ht : t < B + 1) : (state 50000000 (uartLow p) (uartIns M p inp) t).clks 50000000 = 0 := by
  cases t with
  | zero => rfl
  | succ t =>
    rw [← uart_tick]
    exact h.disabled t (by omega)

theorem tx_idle (ht : t ≤ B) : (run M p inp t).system.uart.txState = .idle ∧
    (run M p inp t).system.uart.txBaudCounter.toNat = t + 1 ∧ (run M p inp t).system.uart.IdxRests ∧
    (run M p inp t).system.uart.txContents ++ (run M p inp t).system.uart.pendingLanes =
      txStored (grants 2 cfgDevice (busIns M p inp) (t + 1)) := by
  have hearly := h.early
  rw [uart_tick, txStored_granted]
  exact tx_before_baud (B := B + 1) (by omega) (fun t ht => h.clks_low ht) (by omega)

theorem decoder_idle (ht : t ≤ B) : (run M p inp t).uartTxDecoder.Idle 5208 ∧ notified M p inp t = [] := by
  induction t with
  | zero => exact ⟨⟨rfl, rfl⟩, rfl⟩
  | succ t ih =>
    obtain ⟨hidle, hnone⟩ := ih (by omega)
    have htx : (run M p inp t).system.uart.txO = true := by
      rw [UartState.txO, (h.tx_idle (t := t) (by omega)).1]
    have hdec : (run M p inp (t + 1)).uartTxDecoder = (run M p inp t).uartTxDecoder.tick true := by
      rw [← htx]
      rfl
    have hlog : notified M p inp (t + 1) =
        notified M p inp t ++ (run M p inp t).uartTxDecoder.notified true := by
      rw [← htx]
      rfl
    rw [hdec, hlog, hnone]
    exact hidle.high

theorem injector_rests (ht : t ≤ e) : (run M p inp t).uartRxInjector.injector.Rests 5208 ∧
    (run M p inp t).uartRxInjector.enqueued = [] ∧ enqueued M p inp t = [] := by
  induction t with
  | zero => exact ⟨⟨rfl, rfl, rfl⟩, rfl, rfl⟩
  | succ t ih =>
    obtain ⟨hrests, hqueue, hnone⟩ := ih (by omega)
    have hsilent := h.silent t ht
    have hlog : enqueued M p inp (t + 1) = enqueued M p inp t ++ (inp t).enqueue := rfl
    rw [hlog, hnone, hsilent]
    rcases (InjectorFeed.step_of_rests (inp t).enqueue hrests (by decide)).2 with ⟨-, hrests, hempty⟩ | ⟨b, -, hb⟩
    · exact ⟨hrests, hempty, rfl⟩
    · rw [hqueue, hsilent] at hb
      cases hb

theorem rxI_high (ht : t < e + 1) : (uartIns M p inp t).rxI = true := by
  cases t with
  | zero => rfl
  | succ t =>
    rw [rxI_uartIns]
    exact (InjectorFeed.step_of_rests _ (h.injector_rests (t := t) (by omega)).1 (by decide)).1

/-- The write takes effect in tick 1 at the earliest. -/
theorem pos : 0 < B := by
  by_contra hB
  have hbaud := h.baud 0 (by omega)
  have hstep : (run M p inp 0).system.uart.clks 50000000 = (uartLow p).clks 50000000 := by
    rw [uart_tick]
    exact UartState.clks_step (by rintro ⟨h, -⟩; cases h)
  rw [hstep] at hbaud
  cases hbaud

theorem received_none (ht : t ≤ e) : received M p inp t = [] := by
  have hpos := h.pos
  have hlate := h.late
  induction t with
  | zero => rfl
  | succ t ih =>
    have hlog : received M p inp (t + 1) =
        received M p inp t ++ (run M p inp t).system.uart.completedByte 50000000 := rfl
    have hstop : (run M p inp t).system.uart.rxState ≠ .stop := by
      rw [uart_tick]
      exact rx_on_high (fun t ht => h.clks_low (by omega)) fun j hj => h.rxI_high (by omega)
    rw [hlog, ih (by omega), UartState.completedByte, beq_false_of_ne hstop]
    rfl

/-- The baud code comes early enough for the receiver to get over its false start. -/
theorem rx_ready : (run M p inp e).system.uart.receiver.Ready := by
  have hpos := h.pos
  have hearly := h.early
  have hlate := h.late
  have hbaud (j : Nat) :
      ((state 50000000 (uartLow p) (uartIns M p inp) (2 + (B - 1) + j)).clks 50000000).toNat = 5208 := by
    rw [show 2 + (B - 1) + j = B + j + 1 by omega, ← uart_tick]
    exact h.baud (B + j) (by omega)
  have hwait := (receiver_enabled (T := B - 1) (fun t ht => h.clks_low (t := t) (by omega)) fun t ht =>
    h.rxI_high (t := t) (by omega)).1 (by omega)
  obtain ⟨hrun, -⟩ := receiver_segment (t := 2 + (B - 1)) (d := 5208 + 2) fun j _ =>
    BitVec.eq_of_toNat_eq ((hbaud j).trans (hbaud 0).symm)
  have hready := (hwait.recovers_iff (hbaud 0) (by decide) fun t ht =>
    h.rxI_high (t := 2 + (B - 1) + t) (by omega)).2.2 (.inl ⟨by decide, by omega⟩)
  rw [← hrun] at hready
  have hstay := ready_stays hready (d := e + 1 - (B + 5211)) fun j hj =>
    h.rxI_high (t := 2 + (B - 1) + (5208 + 2) + j) (by omega)
  rw [show 2 + (B - 1) + (5208 + 2) + (e + 1 - (B + 5211)) = e + 1 by omega] at hstay
  rw [uart_tick]
  exact hstay

theorem baudHeld (hT : B ≤ T) :
    BaudHeld 50000000 (run M p inp T).system.uart (fun j => uartIns M p inp (T + 1 + j)) 5208 := by
  intro t
  rw [← uart_from]
  exact h.baud (T + t) (by omega)

theorem tx_link (t : Nat) : notified M p inp (B + t) <+: txStored (grants 2 cfgDevice (busIns M p inp) (B + t + 1)) ∧
    ∃ t' ≥ t, txStored (grants 2 cfgDevice (busIns M p inp) (B + t + 1)) <+: notified M p inp (B + t') := by
  have hearly := h.early
  have hb := h.baudHeld le_rfl
  obtain ⟨hidle, hcounter, hrests, hkept⟩ := h.tx_idle le_rfl
  obtain ⟨hdec, hnone⟩ := h.decoder_idle le_rfl
  have htx : (run M p inp B).system.uart.TxIdle 5208 := ⟨hidle, by omega⟩
  have hstart := TxInv.of_idle htx hrests
  have hagree := decoder_agrees (by decide) hb hdec htx hrests
  simp only [notified_from hnone, txStored_from, ← hkept]
  constructor
  · rw [← (TxInv.run_from (by decide) hb hstart t).conserved]
    rcases hagree t with hall | ⟨b, rest, -, hrest, hone⟩
    · rw [hall, List.append_assoc]
      exact List.prefix_append _ _
    · rw [hone, hrest]
      simp
  · obtain ⟨t', ht', hsent⟩ := written_sent (by decide) (by decide) hb hstart t
    refine ⟨t', ht', hsent.trans ?_⟩
    rcases hagree t' with hall | ⟨b, rest, -, -, hone⟩
    · rw [hall]
    · rw [hone]
      exact List.prefix_append _ _

theorem rx_link (t : Nat) : received M p inp (e + t) <+: enqueued M p inp (e + t) ∧
    ∃ t' ≥ t, enqueued M p inp (e + t) <+: received M p inp (e + t') := by
  have hlate := h.late
  have hb := h.baudHeld (T := e) (by omega)
  have hready := h.rx_ready
  obtain ⟨hrests, hqueue, hnone⟩ := h.injector_rests le_rfl
  have hline (t : Nat) : (uartIns M p inp (e + 1 + t)).rxI =
      ((run M p inp e).uartRxInjector.run (fun j => (inp (e + j)).enqueue) t).uartRx (inp (e + t)).enqueue := by
    rw [← injector_from, Nat.add_right_comm, rxI_uartIns]
  have hbetween := completed_between (by decide) hb hrests hready.state hready.sync1 hready.sync0 hline
  simp only [received_from (h.received_none le_rfl), enqueued_from hnone hqueue]
  constructor
  · cases t with
    | zero => exact List.nil_prefix
    | succ t =>
      rw [Nat.add_comm t 1]
      exact (hbetween t).2
  · obtain ⟨t', ht', hfed⟩ := InjectorFeed.fed_injected hrests (by decide) t
    refine ⟨1 + t', by omega, hfed.trans (List.IsPrefix.trans ?_ (hbetween t').1)⟩
    exact Clocked.log_mono (by omega)

end SerialSetup

theorem txStored_mono {t t' : Nat} (ht : t ≤ t') :
    txStored (grants 2 cfgDevice (busIns M p inp) t) <+: txStored (grants 2 cfgDevice (busIns M p inp) t') := by
  rw [txStored_granted, txStored_granted]
  exact Clocked.log_mono ht

end SimSystem

open SimSystem

variable {prim : RamPrim MemAw} {M B e : Nat} {p : PowerUp prim} {inp : Nat → SimIn}

/-- Nothing is lost, doubled or reordered between the stores of the core and the bytes that the simulator shows, nor
between `uart_enqueue` and the receiver of the peripheral, and everything arrives. -/
theorem serial_link (h : SerialSetup M p inp B e) (t : Nat) :
    (notified M p inp t <+: txStored (grants 2 cfgDevice (busIns M p inp) (t + 1)) ∧
      ∃ t' ≥ t, txStored (grants 2 cfgDevice (busIns M p inp) (t + 1)) <+: notified M p inp t') ∧
    received M p inp t <+: enqueued M p inp t ∧ ∃ t' ≥ t, enqueued M p inp t <+: received M p inp t' := by
  constructor
  · rcases Nat.le_total t B with ht | ht
    · rw [(h.decoder_idle ht).2]
      obtain ⟨t', -, hsent⟩ := (h.tx_link 0).2
      exact ⟨List.nil_prefix, B + t', by omega, (txStored_mono (by omega)).trans hsent⟩
    · obtain ⟨d, rfl⟩ := Nat.exists_eq_add_of_le ht
      obtain ⟨hsofar, t', ht', hsent⟩ := h.tx_link d
      exact ⟨hsofar, B + t', by omega, hsent⟩
  · rcases Nat.le_total t e with ht | ht
    · rw [h.received_none ht, (h.injector_rests ht).2.2]
      exact ⟨List.nil_prefix, t, le_rfl, List.nil_prefix⟩
    · obtain ⟨d, rfl⟩ := Nat.exists_eq_add_of_le ht
      obtain ⟨hsofar, t', ht', hsent⟩ := h.rx_link d
      exact ⟨hsofar, e + t', by omega, hsent⟩

/-- The core sets the baud code 9600 and then stores two bytes; later the host sends three. -/
def serialIn (t : Nat) : SimIn where
  core :=
    { (settingsIn 4).core with
      dataReqO := t == 0 || t == 8
      dataAddrO := if t = 0 then 0x80000004 else 0x80000008
      dataBeO := if t = 0 then 0xF else 5
      dataWdataO := if t = 0 then 2 else 0x00420041 }
  enqueue := if t = 6000 then [0x43, 0x44] else if t = 6001 then [0x45] else []

theorem serialIn_setup : SerialSetup 100000 emptyPowerUp serialIn 2 6000 := by
  have hnone (t : Nat) : (uartIns 100000 emptyPowerUp serialIn (2 + 1 + t)).NoBaudRequest := by
    by_cases ht : t = 6
    · subst ht
      exact fun _ _ => (by decide)
    · have hlow : (serialIn (2 + t)).core.dataReqO = false :=
        Bool.or_eq_false_iff.2 ⟨beq_false_of_ne (by omega), beq_false_of_ne (by omega)⟩
      have hquiet : (uartIns 100000 emptyPowerUp serialIn (2 + 1 + t)).reqI = false := by
        rw [Nat.add_right_comm]
        exact PpSystem.reqI_devicePort hlow 1
      exact fun hreq => absurd (hreq.symm.trans hquiet) (by decide)
  have hwait : (run 100000 emptyPowerUp serialIn 2).system.uart.deviceState ≠ .write := by decide
  have hheld : BaudHeld 50000000 _ _ _ := baudHeld_of_no_write hwait hnone
  refine ⟨by decide, fun t ht => ?_, by decide, fun t ht => ?_, by decide⟩
  · obtain ⟨d, rfl⟩ := Nat.exists_eq_add_of_le ht
    rw [uart_from, hheld]
    rfl
  · show (if t = 6000 then _ else if t = 6001 then _ else []) = ([] : List (BitVec 8))
    rw [if_neg (by omega), if_neg (by omega)]

theorem serial_link_bytes : (∃ t, [0x41, 0x42] <+: notified 100000 emptyPowerUp serialIn t) ∧
    ∃ t, [0x43, 0x44, 0x45] <+: received 100000 emptyPowerUp serialIn t := by
  have hstored : txStored (grants 2 cfgDevice (busIns 100000 emptyPowerUp serialIn) (9 + 1)) = [0x41, 0x42] := by decide
  have henqueued : enqueued 100000 emptyPowerUp serialIn 6002 = [0x43, 0x44, 0x45] := by
    have hsplit : enqueued 100000 emptyPowerUp serialIn 6002 =
        enqueued 100000 emptyPowerUp serialIn 6000 ++ [0x43, 0x44] ++ [0x45] := rfl
    rw [hsplit, (serialIn_setup.injector_rests le_rfl).2.2]
    rfl
  obtain ⟨⟨-, t, -, hnotified⟩, -⟩ := serial_link serialIn_setup 9
  obtain ⟨-, -, t', -, hreceived⟩ := serial_link serialIn_setup 6002
  rw [hstored] at hnotified
  rw [henqueued] at hreceived
  exact ⟨⟨t, hnotified⟩, t', hreceived⟩

end PenPlotter
