import PenPlotter.SimDecoder
import PenPlotter.SimInjector
import PenPlotter.UartLoopback

/-!
# The simulated UART against the peripheral

`UARTDecoder` on `tx_o` and the receiver of the peripheral behind `UARTInjector` are readers of the two kinds of
frames, so both give the bytes sent, in order (`sim_uart_agrees`).
-/

namespace PenPlotter

open Serial UartRun

variable {N : Nat}

namespace Receiver

variable {clks : BitVec 32} {v : Receiver} {L : Nat → Bool} {b : BitVec 8}

/-- The samples fall ever later into the shorter bits, by eight cycles at the stop bit. -/
theorem injector_sample (hN : 30 ≤ N) (hL : ∀ p < 10 * (N - 1), L p = UARTInjector.level N b p) {T j : Nat}
    (hT : T = 5 ∨ T = N / 2 + 5) (hj : j < 8) : L (T + (j * N + (N - 3))) = b.getLsbD j := by
  obtain ⟨M, rfl⟩ : ∃ M, N = M + 1 := ⟨N - 1, by omega⟩
  have hmul : j * (M + 1) = j * M + j := Nat.mul_succ j M
  have hone : (j + 1) * M = j * M + M := Nat.succ_mul j M
  have htwo : (j + 1 + 1) * M = (j + 1) * M + M := Nat.succ_mul (j + 1) M
  have hle : j * M ≤ 7 * M := Nat.mul_le_mul_right M (by omega)
  rw [← symbol_data hj, hL _ (by omega)]
  exact UARTInjector.level_symbol (by omega) (by rw [Nat.add_sub_cancel]; omega) (by rw [Nat.add_sub_cancel]; omega)

theorem Ready.injector_frame (h : Ready v) (hn : clks.toNat = N) (hN : 30 ≤ N)
    (hL : ∀ p < 10 * (N - 1), L p = UARTInjector.level N b p) :
    Ready (run clks v L (10 * (N - 1))) ∧ received clks v L (10 * (N - 1)) = [b] := by
  have hhigh (p : Nat) (hlo : 9 * (N - 1) ≤ p + 1) (hhi : p < 10 * (N - 1)) : L p = true := by
    rw [hL p hhi]
    exact UARTInjector.level_stop (by omega) (by omega) hlo
  obtain ⟨T, col, hT, ht, hbits, hrec⟩ := h.collects (L := L) hn (by omega) fun t ht => by
    rw [hL t (by omega)]
    exact UARTInjector.level_start (by omega)
  have hbase := sampleBase_cases N v.rxBaudCounter.toNat
  rw [← hT] at hbase
  obtain rfl : col = b := BitVec.eq_of_getLsbD_eq fun i hi =>
    (hbits i hi).trans (injector_sample hN hL hbase hi)
  obtain ⟨hidle, hone⟩ := ht.stop_high (L := fun t => L (T + 8 * N + t)) hn (by omega)
    (hhigh _ (by omega) (by omega))
  rw [← run_add] at hidle
  obtain ⟨hready, hquiet⟩ := hidle.ready_of_high (e := 10 * (N - 1)) (by omega) (by omega) fun t ht ht' =>
    hhigh t (by omega) ht'
  refine ⟨hready, hquiet.trans ?_⟩
  rw [received_add, hrec, hone]
  rfl

theorem injector_reader (hn : clks.toNat = N) (hN : 30 ≤ N) :
    Reader (UARTInjector.frame N) (Receiver.step clks) (Receiver.completed clks) Ready where
  high _ h := h.step
  frame v b L h hL := by
    rw [UARTInjector.length_frame]
    refine h.injector_frame hn hN fun p hp => ?_
    have hcycle := hL p (by rwa [UARTInjector.length_frame])
    rw [UARTInjector.getElem?_frame hp] at hcycle
    exact (Option.some.inj hcycle).symm

end Receiver

variable {k ClockRate : Nat} {s₀ : UartState k} {inp : Nat → UartIn}

/-! ### The decoder on `tx_o` -/

/-- An idle transmitter, whatever is in its ring or still to be pushed. -/
theorem TxInv.of_idle (h : s₀.TxIdle N) (hidx : s₀.IdxRests) :
    TxInv N s₀ [] [] (s₀.txContents ++ s₀.pendingLanes) :=
  ⟨hidx, rfl, [], rfl, .inl ⟨h, 0, rfl⟩⟩

theorem decoder_agrees {d : UARTDecoder} (hN : 17 ≤ N) (hb : BaudHeld ClockRate s₀ inp N) (hd : d.Idle N)
    (htx : s₀.TxIdle N) (hidx : s₀.IdxRests) (t : Nat) :
    d.decoded (fun t => (state ClockRate s₀ inp t).txO) t = sent ClockRate s₀ inp t ∨
      ∃ b rest, (state ClockRate s₀ inp t).txState ≠ .idle ∧ (state ClockRate s₀ inp t).txContents = b :: rest ∧
        d.decoded (fun t => (state ClockRate s₀ inp t).txO) t = sent ClockRate s₀ inp t ++ [b] := by
  have hinv := TxInv.run_from (by omega) hb (TxInv.of_idle htx hidx) t
  rcases reader_sent (UARTDecoder.reader hN) hd hinv with hall | ⟨b, q, r, hat, hone⟩
  · exact .inl hall
  · obtain ⟨rest, hrest⟩ := hat.head
    refine .inr ⟨b, rest, ?_, hrest, hone⟩
    rw [hat.state, UartState.txPhaseOf]
    split
    · decide
    · split <;> decide

/-- A high cycle takes a restart back. -/
theorem Receiver.ready_succ {clks : BitVec 32} {v : Receiver} (hst : v.rxState = .idle) (h1 : v.rxSync1 = true)
    (h0 : v.rxSync0 = true) : Ready (v.step clks true) := by
  refine ⟨⟨?_, ?_⟩, rxSync1_step, ?_⟩
  · simp [Receiver.step, hst, h0]
  · simp [Receiver.step, hst, h0]
  · rw [rxSync0_step, h1]

section Feed

variable {f : InjectorFeed} {push : Nat → List (BitVec 8)}

/-- From the second cycle on the receiver reads the line of the injector. -/
theorem completed_between (hN : 30 ≤ N) (hb : BaudHeld ClockRate s₀ inp N) (hf : f.injector.Rests N)
    (hrx : s₀.rxState = .idle) (h1 : s₀.rxSync1 = true) (h0 : s₀.rxSync0 = true)
    (hline : ∀ t, (inp t).rxI = (f.run push t).uartRx (push t)) (t : Nat) :
    f.injected push (1 + t) <+: completed ClockRate s₀ inp (1 + t) ∧
      completed ClockRate s₀ inp (1 + t) <+: f.fed push (1 + t) := by
  obtain ⟨hhigh, hinv⟩ := InjectorFeed.Inv.first hf (by omega) (push 0)
  have hready : Receiver.Ready (state ClockRate s₀ inp 1).receiver := by
    rw [receiver_succ, hline 0, show (f.run push 0).uartRx (push 0) = true from hhigh]
    exact Receiver.ready_succ hrx h1 h0
  have hquiet : s₀.receiver.completed (s₀.clks ClockRate) (inp 0).rxI = [] :=
    Receiver.completed_of_ne (by rw [UartState.receiver_rxState, hrx]; decide)
  obtain ⟨-, hseg⟩ := receiver_segment (t := 1) (d := t) fun j _ => hb.clks_eq (1 + j)
  rw [show completed ClockRate s₀ inp 1 = [] from hquiet, List.nil_append] at hseg
  -- the line of the injector and the line that the receiver reads
  obtain ⟨hlen, hon⟩ := InjectorFeed.onLine_line (f.step (push 0)) (fun j => push (1 + j)) t
  have hsame (j : Nat) : (inp (1 + j)).rxI =
      (InjectorFeed.run (f.step (push 0)) (fun j => push (1 + j)) j).uartRx (push (1 + j)) := by
    rw [hline, InjectorFeed.run, Clocked.run_add]
    rfl
  obtain ⟨cur, part, hsend, -, hfed⟩ := hinv.run (by omega) t
  have hn : (s₀.clks ClockRate).toNat = N := hb 0
  have hemit := (Receiver.injector_reader hn hN).emitted hready hsend hon
  have hrec := hseg.trans (Clocked.log_congr fun j _ => hsame j)
  rw [hlen, ← hrec] at hemit
  rw [InjectorFeed.injected_one_add hf, InjectorFeed.fed_one_add, ← hfed]
  rcases hemit with hall | ⟨b, rfl, hone⟩
  · rw [hall, List.append_assoc]
    exact ⟨List.prefix_rfl, List.prefix_append _ _⟩
  · rw [hone]
    exact ⟨List.prefix_append _ _, List.prefix_append _ _⟩

end Feed

/-- At every enabled baud code, from an idle transmitter and an idle receiver that sees a high line: the decoder
notifies the bytes of the frames on `tx_o`, in order, none of them later than its stop bit, and so in the end
every byte in the ring, every lane still to be pushed and every lane written; and the receiver completes the bytes
enqueued for the injector, in order, and all of them in the end. -/
theorem sim_uart_agrees (hk : 0 < k) (hclock : 6912000 ≤ ClockRate) (hword : ClockRate < 2 ^ 32) (hN : 0 < N)
    (hb : BaudHeld ClockRate s₀ inp N) :
    (∀ d : UARTDecoder, d.Idle N → s₀.TxIdle N → s₀.IdxRests → ∀ t,
      (d.decoded (fun t => (state ClockRate s₀ inp t).txO) t = sent ClockRate s₀ inp t ∨
        ∃ b rest, (state ClockRate s₀ inp t).txState ≠ .idle ∧ (state ClockRate s₀ inp t).txContents = b :: rest ∧
          d.decoded (fun t => (state ClockRate s₀ inp t).txO) t = sent ClockRate s₀ inp t ++ [b]) ∧
      d.decoded (fun t => (state ClockRate s₀ inp t).txO) t <+:
        s₀.txContents ++ s₀.pendingLanes ++ written ClockRate s₀ inp t ∧
      ∃ t' ≥ t, s₀.txContents ++ s₀.pendingLanes ++ written ClockRate s₀ inp t <+:
        d.decoded (fun t => (state ClockRate s₀ inp t).txO) t') ∧
    ∀ (f : InjectorFeed) (push : Nat → List (BitVec 8)), f.injector.Rests N → s₀.rxState = .idle →
      s₀.rxSync1 = true → s₀.rxSync0 = true → (∀ t, (inp t).rxI = (f.run push t).uartRx (push t)) → ∀ t,
      completed ClockRate s₀ inp t <+: f.fed push t ∧
      ∃ t' ≥ t, f.fed push t <+: completed ClockRate s₀ inp t' := by
  have hthirty : 30 ≤ N := by
    rw [← hb 0] at hN ⊢
    exact le_clks hclock hword hN
  constructor
  · intro d hd htx hidx t
    have hagree := decoder_agrees (by omega) hb hd htx hidx
    have hinv := TxInv.run_from hN hb (TxInv.of_idle htx hidx) t
    refine ⟨hagree t, ?_, ?_⟩
    · rw [← hinv.conserved]
      rcases hagree t with hall | ⟨b, rest, -, hrest, hone⟩
      · rw [hall, List.append_assoc]
        exact List.prefix_append _ _
      · rw [hone, hrest]
        simp
    · obtain ⟨t', ht', hsent⟩ := written_sent hk hN hb (TxInv.of_idle htx hidx) t
      refine ⟨t', ht', hsent.trans ?_⟩
      rcases hagree t' with hall | ⟨b, rest, -, -, hone⟩
      · rw [hall]
      · rw [hone]
        exact List.prefix_append _ _
  · intro f push hf hrx h1 h0 hline t
    have hbetween := completed_between hthirty hb hf hrx h1 h0 hline
    constructor
    · cases t with
      | zero => exact List.nil_prefix
      | succ t =>
        rw [Nat.add_comm]
        exact (hbetween t).2
    · obtain ⟨t', ht', hfed⟩ := InjectorFeed.fed_injected hf (by omega) t
      refine ⟨1 + t', by omega, hfed.trans (List.IsPrefix.trans ?_ (hbetween t').1)⟩
      exact Clocked.log_mono (by omega)

/-- `idleUart` writes two lanes and is sent three bytes. -/
def simIn (t : Nat) : UartIn :=
  { writeTwoLanes t with
    rxI := (InjectorFeed.run ⟨⟨.idle, false, 0, 0, 0, 217⟩, [0x43, 0x00, 0xFF]⟩ (fun _ => []) t).uartRx [] }

theorem sim_uart_agrees_bytes :
    (∃ t ≥ 1, [0x41, 0x42] <+: UARTDecoder.decoded ⟨.idle, 0, 0, 0, 217⟩
      (fun t => (state 50000000 idleUart simIn t).txO) t) ∧
    ∃ t ≥ 0, [0x43, 0x00, 0xFF] <+: completed 50000000 idleUart simIn t := by
  have hb : BaudHeld 50000000 idleUart simIn 217 :=
    baudHeld_of_no_write (by decide) fun _ _ _ => (by decide : (8#32 : BitVec 32) ≠ 4#32)
  obtain ⟨hdecoder, hinjector⟩ := sim_uart_agrees (N := 217) (by decide) (by decide) (by decide) (by decide) hb
  obtain ⟨-, -, hdecoded⟩ := hdecoder ⟨.idle, 0, 0, 0, 217⟩ ⟨rfl, rfl⟩ ⟨rfl, by decide⟩ (fun _ => rfl) 1
  obtain ⟨-, hcompleted⟩ := hinjector ⟨⟨.idle, false, 0, 0, 0, 217⟩, [0x43, 0x00, 0xFF]⟩ (fun _ => []) ⟨rfl, rfl, rfl⟩
    rfl rfl rfl (fun _ => rfl) 0
  exact ⟨hdecoded, hcompleted⟩

end PenPlotter
