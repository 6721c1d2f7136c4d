import PenPlotter.LineReader
import PenPlotter.RxFrame
import PenPlotter.UartSend

/-!
# Receiving a waveform

Every frame gives the receiver exactly one byte and leaves it ready for the next start edge. Which
symbol each bit is sampled from depends on where the counter stood when the start edge arrived
(`sampledSymbol`), so the bytes are the ones sent exactly when `FrameOk` holds of every frame.
-/

namespace PenPlotter

open Serial

/-- Bit period `B` is close enough to `N` for ten bits; `N` leaves room for the synchroniser. -/
structure Fits (B N : Nat) : Prop where
  slow : 10 ≤ N
  start : N / 2 + 2 ≤ B
  late : 9 * B ≤ 9 * N + N / 2 + 2
  early : 9 * N + N / 2 + 5 ≤ 10 * B

theorem Fits.of_percent {B N : Nat} (hN : 200 ≤ N) (hslow : 25 * B ≤ 26 * N)
    (hfast : 24 * N ≤ 25 * B) : Fits B N :=
  ⟨by omega, by omega, by omega, by omega⟩

/-- The symbol that the line shows when bit `i` is sampled, when the counter stood at `c` in the cycle
of the start edge. -/
def sampledSymbol (B N c i : Nat) : Nat :=
  if c + 4 = N / 2 ∧ 2 < (i + 1) * (B - N) then i else i + 1

/-- Wherever a sample falls into the symbol before, that symbol is the same. -/
def FrameOk (B N c : Nat) (b : BitVec 8) : Prop :=
  c + 4 = N / 2 → ∀ i < 8, 2 < (i + 1) * (B - N) → symbol b (i + 1) = symbol b i

/-- The line shows the frame of `b` from cycle 0 on. -/
def Shows (B : Nat) (b : BitVec 8) (L : Nat → Bool) : Prop :=
  ∀ q < 10, ∀ r < B, L (q * B + r) = symbol b q

variable {B N : Nat} {b : BitVec 8} {L : Nat → Bool}

theorem shows_of_onLine (hL : OnLine (frame B b) L) : Shows B b L := by
  intro q hq r hr
  have hlt : (q + 1) * B ≤ 10 * B := Nat.mul_le_mul_right B (by omega)
  rw [Nat.succ_mul] at hlt
  have hcycle := hL (q * B + r) (by rw [length_frame]; omega)
  rw [getElem?_frame hq hr] at hcycle
  exact (Option.some.inj hcycle).symm

namespace Shows

theorem at_symbol (h : Shows B b L) {p q : Nat} (hq : q < 10) (hlo : q * B ≤ p)
    (hhi : p < q * B + B) : L p = symbol b q := by
  rw [← h q hq (p - q * B) (by omega), Nat.add_sub_cancel' hlo]

/-- Bit `i` is sampled from `sampledSymbol`. -/
theorem at_sample (h : Shows B b L) (hfit : Fits B N) (c : Nat) {i : Nat} (hi : i < 9) :
    L (sampleBase N c + (i * N + (N - 3))) = symbol b (sampledSymbol B N c i) := by
  obtain ⟨hslow, hstart, hlate, hearly⟩ := hfit
  have hN : i * N + N = (i + 1) * N := (Nat.succ_mul i N).symm
  have hB : i * B + B = (i + 1) * B := (Nat.succ_mul i B).symm
  rcases Nat.le_total B N with hle | hle
  · -- a fast sender: every sample stays in its symbol
    obtain ⟨d, rfl⟩ := Nat.exists_eq_add_of_le hle
    have hd : (i + 1) * (B + d) = (i + 1) * B + (i + 1) * d := Nat.mul_add _ _ _
    have hdle : (i + 1) * d ≤ 9 * d := Nat.mul_le_mul_right d (by omega)
    have hsym : sampledSymbol B (B + d) c i = i + 1 := by
      rw [sampledSymbol, if_neg]
      rw [Nat.sub_eq_zero_of_le hle]
      omega
    rw [hsym]
    refine h.at_symbol (by omega) ?_ ?_ <;> rw [sampleBase] <;> split <;> omega
  · obtain ⟨d, rfl⟩ := Nat.exists_eq_add_of_le hle
    have hd : (i + 1) * (N + d) = (i + 1) * N + (i + 1) * d := Nat.mul_add _ _ _
    have hdle : (i + 1) * d ≤ 9 * d := Nat.mul_le_mul_right d (by omega)
    rw [sampledSymbol, Nat.add_sub_cancel_left, sampleBase]
    by_cases hstale : c + 4 = N / 2
    · rw [if_pos hstale]
      by_cases hdrift : 2 < (i + 1) * d
      · rw [if_pos ⟨hstale, hdrift⟩]
        refine h.at_symbol (by omega) ?_ ?_ <;> omega
      · rw [if_neg fun hand => hdrift hand.2]
        refine h.at_symbol (by omega) ?_ ?_ <;> omega
    · rw [if_neg hstale, if_neg fun hand => hstale hand.1]
      refine h.at_symbol (by omega) ?_ ?_ <;> omega

/-- Once high after the start of bit 7, the line stays high to the end of the frame. -/
theorem stays_high (h : Shows B b L) {p u : Nat} (hp : 8 * B ≤ p) (hL : L p = true) (hpu : p ≤ u)
    (hu : u < 10 * B) : L u = true := by
  by_cases h9 : 9 * B ≤ u
  · exact h.at_symbol (by omega) h9 (by omega)
  · rw [h.at_symbol (q := 8) (by omega) (by omega) (by omega)]
    rwa [h.at_symbol (q := 8) (by omega) hp (by omega)] at hL

end Shows

/-- Sampled from these symbols, the byte is right exactly when the frame is. -/
theorem byte_eq_iff {c : Nat} {col : BitVec 8}
    (h : ∀ i < 8, col.getLsbD i = symbol b (sampledSymbol B N c i)) : col = b ↔ FrameOk B N c b := by
  constructor
  · rintro rfl hstale i hi hdrift
    rw [symbol_data hi, h i hi, sampledSymbol, if_pos ⟨hstale, hdrift⟩]
  · intro hok
    refine BitVec.eq_of_getLsbD_eq fun i hi => ?_
    rw [h i hi, sampledSymbol, ← symbol_data hi]
    split
    · next hand => rw [hok hand.1 i hi hand.2]
    · rfl

theorem fits_self (hN : 10 ≤ N) : Fits N N := ⟨hN, by omega, by omega, by omega⟩

theorem frameOk_self {c : Nat} : FrameOk N N c b := fun _ i _ h => by
  rw [Nat.sub_self, Nat.mul_zero] at h
  omega

namespace Receiver

variable {clks : BitVec 32} {v : Receiver}

/-- A frame gives one byte and leaves the receiver ready. -/
theorem Ready.oneFrame (h : Ready v) (hn : clks.toNat = N) (hfit : Fits B N) (hL : Shows B b L) :
    ∃ col, Ready (run clks v L (10 * B)) ∧ received clks v L (10 * B) = [col] ∧
      ∀ i < 8, col.getLsbD i = symbol b (sampledSymbol B N v.rxBaudCounter.toNat i) := by
  obtain ⟨hslow, hstart, hlate, hearly⟩ := id hfit
  have hsample := fun i (hi : i < 9) => hL.at_sample hfit v.rxBaudCounter.toNat hi
  have hbase := sampleBase_cases N v.rxBaudCounter.toNat
  obtain ⟨T, col, hT, ht₈, hbits, hrec₈⟩ := h.collects (L := L) hn (by omega) fun t ht =>
    hL.at_symbol (q := 0) (by omega) (by omega) (by omega)
  rw [← hT] at hbase hsample
  -- the stop bit is found at the first or at the second tick
  obtain ⟨u, hu, hu2, hidle, hrec, hhigh⟩ : ∃ u ≤ 10 * B, 2 ≤ u ∧ Idle (run clks v L u) ∧
      received clks v L u = [col] ∧ ∀ t, u ≤ t + 2 → t < 10 * B → L t = true := by
    cases hp : L (T + 8 * N + (N - 3)) with
    | true =>
      obtain ⟨hidle, hrec⟩ := ht₈.stop_high (L := fun t => L (T + 8 * N + t)) hn (by omega) hp
      refine ⟨T + 8 * N + N, by omega, by omega, by rw [run_add]; exact hidle, ?_, fun t ht ht' =>
        hL.stays_high (p := T + 8 * N + (N - 3)) (by omega) hp (by omega) ht'⟩
      rw [received_add, hrec, hrec₈]
      rfl
    | false =>
      have hlow : T + 8 * N + (N - 3) < 9 * B := by
        by_contra hge
        rw [hL.at_symbol (q := 9) (by omega) (by omega) (by omega)] at hp
        cases hp
      obtain ⟨ht₉, hrec₉⟩ := ht₈.stop_low (L := fun t => L (T + 8 * N + t)) hn (by omega) hp
      rw [← run_add] at ht₉
      have hp' : L (T + 8 * N + N + (N - 3)) = true :=
        hL.at_symbol (q := 9) (by omega) (by omega) (by omega)
      obtain ⟨hidle, hrec⟩ := ht₉.stop_high (L := fun t => L (T + 8 * N + N + t)) hn (by omega) hp'
      refine ⟨T + 8 * N + N + N, by omega, by omega, by rw [run_add]; exact hidle, ?_, fun t ht ht' =>
        hL.at_symbol (q := 9) (by omega) (by omega) (by omega)⟩
      rw [received_add, hrec, received_add, hrec₉, hrec₈]
      rfl
  obtain ⟨hready, hquiet⟩ := hidle.ready_of_high hu2 hu hhigh
  refine ⟨col, hready, hquiet.trans hrec, fun i hi => ?_⟩
  rw [hbits i hi, hsample i (by omega)]

/-- Every frame of `fs` gives one byte, and all of them are right exactly when every frame is. -/
theorem Ready.frames (h : Ready v) (hn : clks.toNat = N) (hfit : Fits B N)
    {fs : List (Nat × BitVec 8)} (hL : OnLine (wave B fs) L) :
    Ready (run clks v L (wave B fs).length) ∧
      (received clks v L (wave B fs).length).length = fs.length ∧
      (received clks v L (wave B fs).length = fs.map Prod.snd ↔
        ∀ pre g b, pre ++ [(g, b)] <+: fs →
          FrameOk B N (run clks v L ((wave B pre).length + g)).rxBaudCounter.toNat b) := by
  induction fs using List.reverseRecOn with
  | nil =>
    refine ⟨h, rfl, iff_of_true rfl fun pre g b hpre => ?_⟩
    simpa using hpre.length_le
  | append_singleton fs f ih =>
    obtain ⟨g, b⟩ := f
    have hlen : (wave B (fs ++ [(g, b)])).length = (wave B fs).length + g + 10 * B := by
      rw [wave_append, wave_singleton, List.length_append, List.length_append, List.length_replicate, length_frame,
        Nat.add_assoc]
    rw [wave_append, wave_singleton] at hL
    obtain ⟨hfs, hlast⟩ := onLine_append.1 hL
    obtain ⟨hgap, hframe⟩ := onLine_append.1 hlast
    obtain ⟨hready, hcount, hiff⟩ := ih hfs
    obtain ⟨hready, hquiet⟩ := hready.wait (onLine_replicate.1 hgap)
    rw [← run_add] at hready
    have hshows : Shows B b fun t => L ((wave B fs).length + g + t) := shows_of_onLine fun j hj => by
      rw [hframe j hj, List.length_replicate, Nat.add_assoc]
    obtain ⟨col, hready, hone, hbits⟩ := hready.oneFrame hn hfit hshows
    have hrec : received clks v L (wave B (fs ++ [(g, b)])).length =
        received clks v L (wave B fs).length ++ [col] := by
      rw [hlen, received_add, received_add, hquiet, hone, List.append_nil]
    refine ⟨by rw [hlen, run_add]; exact hready, by rw [hrec]; simp [hcount], ?_⟩
    have hcol : col = b ↔ FrameOk B N
        (run clks v L ((wave B fs).length + g)).rxBaudCounter.toNat b := byte_eq_iff hbits
    rw [hrec, List.map_append, List.map_singleton, List.append_singleton_inj, hiff, hcol]
    constructor
    · rintro ⟨hprev, hlast⟩ pre g' b' hpre
      rcases List.prefix_concat_iff.1 hpre with heq | hpre'
      · obtain ⟨rfl, hf⟩ := List.append_singleton_inj.1 heq
        cases hf
        exact hlast
      · exact hprev pre g' b' hpre'
    · exact fun hall => ⟨fun pre g' b' hpre => hall pre g' b' (hpre.trans (List.prefix_append _ _)),
        hall fs g b List.prefix_rfl⟩

end Receiver

/-! ### The receiver of the peripheral -/

variable {k ClockRate : Nat} {s₀ : UartState k} {inp : Nat → UartIn}

namespace UartRun

variable (ClockRate) (s₀) (inp)

/-- The bytes that complete in the receiver before cycle `t`. -/
def completed (t : Nat) : List (BitVec 8) :=
  Clocked.log (UartState.step ClockRate) (fun s _ => s.completedByte ClockRate) s₀ inp t

variable {ClockRate} {s₀} {inp}

theorem BaudHeld.clks_eq (hb : BaudHeld ClockRate s₀ inp N) (t : Nat) :
    (state ClockRate s₀ inp t).clks ClockRate = s₀.clks ClockRate :=
  BitVec.eq_of_toNat_eq ((hb t).trans (hb 0).symm)

theorem receiver_succ (t : Nat) : (state ClockRate s₀ inp (t + 1)).receiver =
    (state ClockRate s₀ inp t).receiver.step ((state ClockRate s₀ inp t).clks ClockRate) (inp t).rxI :=
  UartState.receiver_step

/-- While the bound stays the receiver runs on its own. -/
theorem receiver_segment {n : BitVec 32} {t d : Nat}
    (h : ∀ j < d, (state ClockRate s₀ inp (t + j)).clks ClockRate = n) :
    (state ClockRate s₀ inp (t + d)).receiver =
        Receiver.run n (state ClockRate s₀ inp t).receiver (fun j => (inp (t + j)).rxI) d ∧
      completed ClockRate s₀ inp (t + d) = completed ClockRate s₀ inp t ++
        Receiver.received n (state ClockRate s₀ inp t).receiver (fun j => (inp (t + j)).rxI) d := by
  induction d with
  | zero => exact ⟨rfl, (List.append_nil _).symm⟩
  | succ d ih =>
    obtain ⟨hrun, hrec⟩ := ih fun j hj => h j (by omega)
    have hlog : completed ClockRate s₀ inp (t + (d + 1)) = completed ClockRate s₀ inp (t + d) ++
        (state ClockRate s₀ inp (t + d)).receiver.completed
          ((state ClockRate s₀ inp (t + d)).clks ClockRate) (inp (t + d)).rxI := rfl
    rw [hlog, ← Nat.add_assoc, receiver_succ, h d (by omega), hrun, hrec, List.append_assoc]
    exact ⟨rfl, rfl⟩

theorem receiver_state (hb : BaudHeld ClockRate s₀ inp N) (t : Nat) :
    (state ClockRate s₀ inp t).receiver =
      Receiver.run (s₀.clks ClockRate) s₀.receiver (fun t => (inp t).rxI) t := by
  obtain ⟨hrun, -⟩ := receiver_segment (t := 0) (d := t) fun j _ => hb.clks_eq (0 + j)
  simp only [Nat.zero_add] at hrun
  exact hrun

theorem completed_eq (hb : BaudHeld ClockRate s₀ inp N) (t : Nat) : completed ClockRate s₀ inp t =
    Receiver.received (s₀.clks ClockRate) s₀.receiver (fun t => (inp t).rxI) t := by
  obtain ⟨-, hrec⟩ := receiver_segment (t := 0) (d := t) fun j _ => hb.clks_eq (0 + j)
  simp only [Nat.zero_add] at hrec
  exact hrec

end UartRun

open UartRun

theorem Receiver.ready_of_idle {s : UartState k} (hst : s.rxState = .idle) (h1 : s.rxSync1 = true)
    (h0 : s.rxSync0 = true) (hr : s.rxRestartBaud = false) : Receiver.Ready s.receiver :=
  ⟨⟨hst, hr⟩, h1, h0⟩

/-- From an idle receiver, a list of frames with bit period `B` and arbitrary gaps gives its bytes, one
a frame and nothing after the last, exactly when every frame is `FrameOk` for the value of the
free-running counter in the cycle of its start edge. A byte that completes enters the RX ring unless
the ring is full. -/
theorem uart_receives (hN : 200 ≤ N) (hslow : 25 * B ≤ 26 * N) (hfast : 24 * N ≤ 25 * B)
    (hb : BaudHeld ClockRate s₀ inp N) (hst : s₀.rxState = .idle) (h1 : s₀.rxSync1 = true)
    (h0 : s₀.rxSync0 = true) (hr : s₀.rxRestartBaud = false)
    (fs : List (Nat × BitVec 8)) (hline : ∀ t, (inp t).rxI = (wave B fs)[t]?.getD true) :
    ((∀ pre, pre <+: fs →
        completed ClockRate s₀ inp (wave B pre).length = pre.map Prod.snd) ∧
      (∀ t ≥ (wave B fs).length, completed ClockRate s₀ inp t = fs.map Prod.snd) ∧
      ∀ t, Ring.contents ((state ClockRate s₀ inp t).rxNext ClockRate (inp t)).rxBuf
          (state ClockRate s₀ inp t).rxBufStart
          ((state ClockRate s₀ inp t).rxNext ClockRate (inp t)).rxBufEnd =
        (state ClockRate s₀ inp t).rxContents ++
          if (state ClockRate s₀ inp t).rxFull then []
          else (state ClockRate s₀ inp t).completedByte ClockRate) ↔
      ∀ pre g b, pre ++ [(g, b)] <+: fs →
        FrameOk B N (state ClockRate s₀ inp ((wave B pre).length + g)).rxBaudCounter.toNat b := by
  have hn : (s₀.clks ClockRate).toNat = N := hb 0
  have hfit := Fits.of_percent hN hslow hfast
  have hready := Receiver.ready_of_idle hst h1 h0 hr
  have hL : OnLine (wave B fs) fun t => (inp t).rxI := fun t ht => by
    show _ = some (inp t).rxI
    rw [hline, List.getElem?_eq_getElem ht]
    rfl
  obtain ⟨hend, hcount, hiff⟩ := hready.frames (L := fun t => (inp t).rxI) hn hfit hL
  have hcounter : ∀ t, (Receiver.run (s₀.clks ClockRate) s₀.receiver (fun t => (inp t).rxI)
      t).rxBaudCounter = (state ClockRate s₀ inp t).rxBaudCounter := fun t => by
    rw [← receiver_state hb t]
    rfl
  simp only [hcounter, ← completed_eq hb] at hiff
  rw [← hiff]
  constructor
  · exact fun h => h.2.1 _ le_rfl
  · refine fun hall => ⟨fun pre hpre => ?_, fun t ht => ?_, fun t => UartState.contents_rxNext⟩
    · -- a prefix of the frames has given as many bytes as it has frames
      obtain ⟨post, rfl⟩ := hpre
      have hle : (wave B pre).length ≤ (wave B (pre ++ post)).length := by
        rw [wave_append, List.length_append]
        omega
      have hlen : (Receiver.received (s₀.clks ClockRate) s₀.receiver (fun t => (inp t).rxI)
          (wave B pre).length).length = pre.length := by
        rw [wave_append] at hL
        exact (hready.frames hn hfit (onLine_append.1 hL).1).2.1
      rw [← completed_eq hb] at hlen
      have hpre : completed ClockRate s₀ inp (wave B pre).length <+:
          completed ClockRate s₀ inp (wave B (pre ++ post)).length := Clocked.log_mono hle
      rw [hall, List.map_append] at hpre
      exact (List.prefix_of_prefix_length_le hpre (List.prefix_append _ _) (by simp [hlen])).eq_of_length
        (by simp [hlen])
    · obtain ⟨d, rfl⟩ := Nat.exists_eq_add_of_le ht
      obtain ⟨-, hquiet⟩ := hend.wait
        (L := fun t => (inp ((wave B fs).length + t)).rxI) (d := d) fun t _ => by
          rw [hline, List.getElem?_eq_none (Nat.le_add_right _ _)]
          rfl
      rw [completed_eq hb, Receiver.received_add, hquiet, List.append_nil, ← completed_eq hb, hall]

/-- No accesses; the line shows frames of 218 cycles a bit. -/
def slowFrames (fs : List (Nat × BitVec 8)) (t : Nat) : UartIn where
  rxI := (wave 218 fs)[t]?.getD true
  reqI := false
  addrI := 0
  weI := false
  beI := 0
  wdataI := 0
  padding := 0

/-- The line shows the frame of `b`. -/
def slowByte (b : BitVec 8) : Nat → UartIn := slowFrames [(0, b)]

theorem slowFrames_baudHeld {s : UartState k} {fs : List (Nat × BitVec 8)} (h : s.deviceState ≠ .write) :
    BaudHeld ClockRate s (slowFrames fs) (s.clks ClockRate).toNat :=
  baudHeld_of_no_write h fun _ hr => absurd hr (by simp [slowFrames])

/-- At 217 cycles a bit the frame of 4 is received as 4 when the counter stands at 0, and so is the frame behind it,
whose bits are the same from the second on, wherever the counter stands. -/
theorem uart_receives_backToBack : completed 50000000 idleUart (slowFrames [(0, 4), (0, 0xFE)]) 4360 = [4, 0xFE] := by
  have hb : BaudHeld 50000000 idleUart (slowFrames [(0, 4), (0, 0xFE)]) 217 := slowFrames_baudHeld (by decide)
  have hiff := uart_receives (B := 218) (by decide) (by decide) (by decide) hb rfl rfl rfl rfl
    [(0, 4), (0, 0xFE)] fun _ => rfl
  have hlen : (wave 218 [(0, 4), (0, 0xFE)]).length = 4360 := by simp [wave, length_frame]
  rw [hlen] at hiff
  refine (hiff.2 fun pre g b hpre => ?_).2.1 4360 le_rfl
  rcases pre with _ | ⟨f, _ | ⟨f', pre⟩⟩
  · obtain ⟨rfl, rfl⟩ : g = 0 ∧ b = 4 := by simpa using hpre
    exact fun hstale => absurd hstale (by decide)
  · obtain ⟨-, rfl, rfl⟩ : f = (0, 4) ∧ g = 0 ∧ b = 0xFE := by simpa using hpre
    exact fun _ => by decide
  · have := hpre.length_le
    rw [List.length_append, List.length_cons, List.length_cons] at this
    simp at this

/-- The same peripheral with its free-running counter at 104. -/
def staleUart : UartState 5 := { idleUart with rxBaudCounter := 104 }

/-- The frame of 4 is received as 8: the counter reaches the sample point before its restart takes
effect, and from bit 2 on every sample falls into the symbol before. -/
theorem slowByte_misread : completed 50000000 staleUart (slowByte 4) 2180 = [8] := by
  have hb : BaudHeld 50000000 staleUart (slowByte 4) 217 := slowFrames_baudHeld (by decide)
  have hn : (staleUart.clks 50000000).toNat = 217 := hb 0
  have hready : Receiver.Ready staleUart.receiver :=
    Receiver.ready_of_idle rfl rfl rfl rfl
  have hshows : Shows 218 4 fun t => (slowByte 4 t).rxI := fun q hq r hr => by
    show (wave 218 [(0, 4)])[q * 218 + r]?.getD true = _
    rw [wave_singleton, List.replicate_zero, List.nil_append, getElem?_frame hq hr]
    rfl
  obtain ⟨col, -, hone, hbits⟩ := hready.oneFrame hn (B := 218) ⟨by decide, by decide, by decide,
    by decide⟩ hshows
  rw [completed_eq hb]
  refine hone.trans (congrArg (fun c => [c]) (BitVec.eq_of_getLsbD_eq fun i hi => ?_))
  rw [hbits i hi]
  revert i
  decide

end PenPlotter
