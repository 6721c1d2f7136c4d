import PenPlotter.UartReceive

/-!
# The loopback of the UART

With `tx_o` wired to `rx_i` the receiver reads the waveform of `TxInv`. Every frame in it has the
receiver's own bit period, so all are received, and the one in progress is received before its stop bit
is over. The RX ring hands the bytes to the reads in the same order.
-/

namespace PenPlotter

open Serial

variable {N : Nat}

namespace Receiver

variable {clks : BitVec 32} {L : Nat → Bool}

/-- The line shows `l` in its first `t` cycles. -/
def Agrees (l : List Bool) (L : Nat → Bool) (t : Nat) : Prop :=
  l.length = t ∧ ∀ j < t, l[j]? = some (L j)

theorem Agrees.onLine {l : List Bool} {t : Nat} (h : Agrees l L t) : l.length = t ∧ OnLine l L :=
  ⟨h.1, fun j hj => h.2 j (h.1 ▸ hj)⟩

theorem reader (hn : clks.toNat = N) (hN : 10 ≤ N) :
    Reader (frame N) (Receiver.step clks) (Receiver.completed clks) Ready where
  high _ h := h.step
  frame v b L h hL := by
    obtain ⟨col, hready, hrec, hbits⟩ := h.oneFrame hn (fits_self hN) (shows_of_onLine hL)
    rw [(byte_eq_iff hbits).2 frameOk_self] at hrec
    rw [length_frame]
    exact ⟨hready, hrec⟩

end Receiver

section TxReader

variable {k ClockRate : Nat} {s₀ : UartState k} {inp : Nat → UartIn}

open UartRun

variable (ClockRate s₀ inp) in
theorem line_agrees (t : Nat) :
    Receiver.Agrees (line ClockRate s₀ inp t) (fun t => (state ClockRate s₀ inp t).txO) t := by
  obtain ⟨hlen, hline⟩ := onLine_log (UartState.step ClockRate) (fun s _ => s.txO) s₀ inp t
  exact ⟨hlen, fun j hj => hline j (hlen.symm ▸ hj)⟩

theorem TxInv.sending {s : UartState k} {l : List Bool} {sent written : List (BitVec 8)}
    (h : TxInv N s l sent written) : ∃ cur part, Sending (frame N) l sent cur part ∧
      ∀ b, cur = some b → ∃ q r, s.TxAt N b q r := by
  obtain ⟨fs, hfs, ⟨-, g, hgap⟩ | ⟨b, q, r, g, hat, hframe⟩⟩ := h.wave
  · exact ⟨none, [], ⟨fs, g, hfs, by rw [hgap, List.append_nil]; rfl, rfl⟩, fun b hb => by cases hb⟩
  · refine ⟨some b, partialFrame N b q r, ⟨fs, g, hfs, hframe, ?_⟩, fun b' hb => ?_⟩
    · exact partialFrame_extends hat.q_lt (le_of_lt hat.r_lt)
    · cases hb
      exact ⟨q, r, hat⟩

/-- A reader of `N` cycles a bit gives the bytes sent, and that of the frame in progress at most. -/
theorem reader_sent {S : Type} {step : S → Bool → S} {out : S → Bool → List (BitVec 8)} {ready : S → Prop} {s : S}
    (hread : Reader (frame N) step out ready) (hs : ready s) {t : Nat} {w : List (BitVec 8)}
    (hinv : TxInv N (state ClockRate s₀ inp t) (line ClockRate s₀ inp t) (sent ClockRate s₀ inp t) w) :
    Clocked.log step out s (fun t => (state ClockRate s₀ inp t).txO) t = sent ClockRate s₀ inp t ∨
      ∃ b q r, (state ClockRate s₀ inp t).TxAt N b q r ∧
        Clocked.log step out s (fun t => (state ClockRate s₀ inp t).txO) t = sent ClockRate s₀ inp t ++ [b] := by
  obtain ⟨cur, part, hsend, hcur⟩ := hinv.sending
  obtain ⟨hlen, hline⟩ := (line_agrees ClockRate s₀ inp t).onLine
  have hlog := hread.emitted hs hsend hline
  rw [hlen] at hlog
  rcases hlog with hall | ⟨b, hb, hone⟩
  · exact .inl hall
  · obtain ⟨q, r, hat⟩ := hcur b hb
    exact .inr ⟨b, q, r, hat, hone⟩

end TxReader

variable {k ClockRate : Nat}

namespace UartState

variable (s : UartState k) (i : UartIn)

/-- The byte that a read of a non-empty RX ring returns in this cycle. -/
def readByte : List (BitVec 8) :=
  if s.deviceState == .read && s.rdataSelector == .rx && !s.rxEmpty then [s.rxBuf s.rxBufStart] else []

variable {s i}

theorem readByte_returned {b : BitVec 8} (h : s.readByte = [b]) :
    (s.step ClockRate i).rdataO = b.setWidth 32 ∧ (s.step ClockRate i).rvalidO = true ∧
      (s.step ClockRate i).rxBufStart = s.rxBufStart + 1 := by
  have hcond : (s.deviceState == .read && s.rdataSelector == .rx && !s.rxEmpty) = true := by
    by_contra hcond
    rw [readByte, if_neg hcond] at h
    cases h
  rw [readByte, if_pos hcond] at h
  have hb : s.rxBuf s.rxBufStart = b := (List.cons.inj h).1
  obtain ⟨⟨hd, hs⟩, he⟩ : (s.deviceState = .read ∧ s.rdataSelector = .rx) ∧ s.rxEmpty = false := by
    simpa using hcond
  subst hb
  have hstep : (s.step ClockRate i).toDeviceRegs = s.deviceNext i := rfl
  rw [hstep]
  simp [deviceNext, hd, hs, he]

theorem rxBufStart_deviceNext : (s.deviceNext i).rxBufStart =
    if s.deviceState == .read && s.rdataSelector == .rx && !s.rxEmpty then s.rxBufStart + 1
    else s.rxBufStart := by
  unfold deviceNext
  cases hd : s.deviceState with
  | wait => dsimp only; split <;> rfl
  | read =>
    cases hs : s.rdataSelector with
    | rx => cases he : s.rxEmpty <;> rfl
    | _ => rfl
  | write =>
    refine Eq.trans ?_ (if_neg (by simp)).symm
    cases hs : s.wdataSelector with
    | tx => dsimp only; split <;> (try split) <;> (try split) <;> rfl
    | _ => rfl

/-- What the ring gains is the byte completed, unless it is full, and what it loses is the byte read. -/
theorem rxContents_step : s.readByte ++ (s.step ClockRate i).rxContents =
    s.rxContents ++ (if s.rxFull then [] else s.completedByte ClockRate) := by
  have hgrow : Ring.contents (s.rxNext ClockRate i).rxBuf s.rxBufStart (s.rxNext ClockRate i).rxBufEnd =
      s.rxContents ++ (if s.rxFull then [] else s.completedByte ClockRate) := contents_rxNext
  have hstep : (s.step ClockRate i).rxContents = Ring.contents (s.rxNext ClockRate i).rxBuf
      (s.deviceNext i).rxBufStart (s.rxNext ClockRate i).rxBufEnd := rfl
  rw [hstep, rxBufStart_deviceNext, readByte]
  by_cases hcond : (s.deviceState == .read && s.rdataSelector == .rx && !s.rxEmpty) = true
  · rw [if_pos hcond, if_pos hcond]
    have hne : s.rxBufStart ≠ s.rxBufEnd := by
      have : s.rxEmpty = false := by simp at hcond; exact hcond.2
      rwa [rxEmpty, beq_eq_false_iff_ne] at this
    rw [rxContents, Ring.contents_pop hne, List.cons_append] at hgrow
    have hne' : s.rxBufStart ≠ (s.rxNext ClockRate i).rxBufEnd := fun heq => by
      rw [Ring.contents_eq_nil_iff.2 heq] at hgrow
      cases hgrow
    rw [Ring.contents_pop hne', List.cons.injEq] at hgrow
    rw [rxContents, Ring.contents_pop hne, hgrow.2]
    rfl
  · rw [if_neg hcond, if_neg hcond, hgrow]
    rfl

end UartState

/-! ### The loopback -/

namespace UartRun

variable (ClockRate) (s₀ : UartState k) (inp : Nat → UartIn)

/-- The bytes that reads of a non-empty RX ring have returned before cycle `t`. -/
def reads (t : Nat) : List (BitVec 8) :=
  Clocked.log (UartState.step ClockRate) (fun s _ => s.readByte) s₀ inp t

end UartRun

open UartRun UartState

theorem clksPerBit_eq (ClockRate : Nat) (code : BitVec 8) : clksPerBit ClockRate code = 0 ∨ ∃ rate, 0 < rate ∧
    rate ≤ 230400 ∧ clksPerBit ClockRate code = BitVec.ofNat 32 (ClockRate / rate) := by
  unfold clksPerBit
  split <;> first
    | exact .inl rfl
    | (refine .inr ⟨_, ?_, ?_, rfl⟩ <;> decide)

/-- The fastest code gives the fewest cycles. -/
theorem le_clks {code : BitVec 8} {m : Nat} (hclock : m * 230400 ≤ ClockRate) (hword : ClockRate < 2 ^ 32)
    (hcode : 0 < (clksPerBit ClockRate code).toNat) : m ≤ (clksPerBit ClockRate code).toNat := by
  rcases clksPerBit_eq ClockRate code with hzero | ⟨rate, hpos, hrate, heq⟩
  · rw [hzero] at hcode
    exact absurd hcode (by decide)
  · have hle : ClockRate / rate ≤ ClockRate := Nat.div_le_self _ _
    have hmul : m * rate ≤ m * 230400 := Nat.mul_le_mul_left m hrate
    rw [heq, BitVec.toNat_ofNat, Nat.mod_eq_of_lt (by omega), Nat.le_div_iff_mul_le hpos]
    omega

/-- From this clock on, which the 50 MHz of the system exceeds, every enabled code gives ten cycles. -/
theorem ten_le_clks {code : BitVec 8} (hclock : 2304000 ≤ ClockRate) (hword : ClockRate < 2 ^ 32)
    (hcode : 0 < (clksPerBit ClockRate code).toNat) : 10 ≤ (clksPerBit ClockRate code).toNat :=
  le_clks hclock hword hcode

variable {s₀ : UartState k} {inp : Nat → UartIn}

theorem reads_rxContents (hempty : s₀.rxEmpty = true)
    (hroom : ∀ t, (state ClockRate s₀ inp t).completedByte ClockRate ≠ [] →
      (state ClockRate s₀ inp t).rxFull = false) (t : Nat) :
    reads ClockRate s₀ inp t ++ (state ClockRate s₀ inp t).rxContents =
      completed ClockRate s₀ inp t := by
  induction t with
  | zero =>
    rw [rxEmpty, beq_iff_eq] at hempty
    exact Ring.contents_eq_nil_iff.2 hempty
  | succ t ih =>
    have hkeep : (if (state ClockRate s₀ inp t).rxFull then []
          else (state ClockRate s₀ inp t).completedByte ClockRate) =
        (state ClockRate s₀ inp t).completedByte ClockRate := by
      by_cases hc : (state ClockRate s₀ inp t).completedByte ClockRate = []
      · rw [hc, ite_self]
      · rw [if_neg (by simp [hroom t hc])]
    show reads ClockRate s₀ inp t ++ (state ClockRate s₀ inp t).readByte ++
        ((state ClockRate s₀ inp t).step ClockRate (inp t)).rxContents =
      completed ClockRate s₀ inp t ++ (state ClockRate s₀ inp t).completedByte ClockRate
    rw [List.append_assoc, rxContents_step, hkeep, ← List.append_assoc, ih]

/-- What has been received is what has been sent, up to the frame in progress. -/
theorem completed_sent (hN : 10 ≤ N) (hb : BaudHeld ClockRate s₀ inp N)
    (hready : Receiver.Ready s₀.receiver) {pending : List (BitVec 8)}
    (hinv : ∀ t, TxInv N (state ClockRate s₀ inp t) (line ClockRate s₀ inp t)
      (sent ClockRate s₀ inp t) (pending ++ written ClockRate s₀ inp t))
    (hloop : ∀ t, (inp t).rxI = (state ClockRate s₀ inp t).txO) (t : Nat) :
    completed ClockRate s₀ inp t = sent ClockRate s₀ inp t ∨
      ∃ b rest, (state ClockRate s₀ inp t).txContents = b :: rest ∧
        completed ClockRate s₀ inp t = sent ClockRate s₀ inp t ++ [b] := by
  have hn : (s₀.clks ClockRate).toNat = N := hb 0
  have hrec : completed ClockRate s₀ inp t = Clocked.log (Receiver.step (s₀.clks ClockRate))
      (Receiver.completed (s₀.clks ClockRate)) s₀.receiver (fun t => (state ClockRate s₀ inp t).txO) t :=
    (completed_eq hb t).trans (Clocked.log_congr fun j _ => hloop j)
  rw [hrec]
  rcases reader_sent (Receiver.reader hn hN) hready (hinv t) with hall | ⟨b, q, r, hat, hone⟩
  · exact .inl hall
  · obtain ⟨rest, hrest⟩ := hat.head
    exact .inr ⟨b, rest, hrest, hone⟩

/-- In a loopback the bytes read, the bytes in the RX ring and the bytes still to be received are the
lanes written, in order; the bytes still to be received are those the transmitter has not finished,
less the one in progress once it is received, so a drained transmitter leaves none. -/
theorem uart_loopback (hclock : 2304000 ≤ ClockRate) (hword : ClockRate < 2 ^ 32) (hN : 0 < N)
    (hb : BaudHeld ClockRate s₀ inp N) (htx : s₀.txState = .idle) (hrx : s₀.rxState = .idle)
    (h1 : s₀.rxSync1 = true) (h0 : s₀.rxSync0 = true) (hr : s₀.rxRestartBaud = false)
    (htxe : s₀.txEmpty = true) (hrxe : s₀.rxEmpty = true) (hidx : s₀.IdxRests)
    (htc : s₀.txBaudCounter.toNat < N)
    (hloop : ∀ t, (inp t).rxI = (state ClockRate s₀ inp t).txO)
    (hroom : ∀ t, (state ClockRate s₀ inp t).completedByte ClockRate ≠ [] →
      (state ClockRate s₀ inp t).rxFull = false) (t : Nat) :
    ∃ rest,
      reads ClockRate s₀ inp t ++ (state ClockRate s₀ inp t).rxContents ++ rest =
        s₀.pendingLanes ++ written ClockRate s₀ inp t ∧
      (rest = (state ClockRate s₀ inp t).txContents ++ (state ClockRate s₀ inp t).pendingLanes ∨
        ∃ b, b :: rest =
          (state ClockRate s₀ inp t).txContents ++ (state ClockRate s₀ inp t).pendingLanes) ∧
      ((state ClockRate s₀ inp t).txEmpty = true → (state ClockRate s₀ inp t).pendingLanes = [] →
        rest = []) := by
  have hten : 10 ≤ N := by
    rw [← hb 0]
    exact ten_le_clks hclock hword (by rw [← hb 0] at hN; exact hN)
  have hstart : TxInv N s₀ [] [] s₀.pendingLanes := by
    refine ⟨hidx, ?_, [], rfl, .inl ⟨⟨htx, htc⟩, 0, rfl⟩⟩
    rw [txEmpty_iff.1 htxe]
    rfl
  have hinv := TxInv.run_from hN hb hstart
  have hread := reads_rxContents hrxe hroom t
  have hcons := (hinv t).conserved
  rcases completed_sent hten hb (Receiver.ready_of_idle hrx h1 h0 hr) hinv hloop t with
    hall | ⟨b, rest, hhead, hone⟩
  · refine ⟨(state ClockRate s₀ inp t).txContents ++ (state ClockRate s₀ inp t).pendingLanes, ?_,
      .inl rfl, fun hempty hp => ?_⟩
    · rw [hread, hall, ← List.append_assoc, hcons]
    · rw [txEmpty_iff.1 hempty, hp, List.append_nil]
  · refine ⟨rest ++ (state ClockRate s₀ inp t).pendingLanes, ?_, .inr ⟨b, by rw [hhead]; rfl⟩,
      fun hempty _ => ?_⟩
    · rw [hread, hone, ← hcons, hhead]
      simp only [List.append_assoc, List.cons_append, List.nil_append]
    · rw [txEmpty_iff.1 hempty] at hhead
      cases hhead

variable (ClockRate s₀) (req : Nat → UartIn)

/-- The run of the loopback under a stream of accesses. -/
def loopState : Nat → UartState k
  | 0 => s₀
  | t + 1 => (loopState t).step ClockRate { req t with rxI := (loopState t).txO }

def loopIn (t : Nat) : UartIn := { req t with rxI := (loopState ClockRate s₀ req t).txO }

variable {ClockRate s₀ req}

theorem state_loopIn (t : Nat) :
    state ClockRate s₀ (loopIn ClockRate s₀ req) t = loopState ClockRate s₀ req t := by
  induction t with
  | zero => rfl
  | succ t ih => rw [state, Clocked.run_succ, show Clocked.run _ _ _ t = _ from ih]; rfl

theorem length_rxContents_le (hempty : s₀.rxEmpty = true) (t : Nat) :
    (state ClockRate s₀ inp t).rxContents.length ≤ (completed ClockRate s₀ inp t).length := by
  induction t with
  | zero =>
    rw [rxEmpty, beq_iff_eq] at hempty
    exact le_of_eq (congrArg List.length (Ring.contents_eq_nil_iff.2 hempty))
  | succ t ih =>
    have hstep : (state ClockRate s₀ inp t).readByte ++ (state ClockRate s₀ inp (t + 1)).rxContents =
        _ := rxContents_step
    have hlen := congrArg List.length hstep
    have hsucc : completed ClockRate s₀ inp (t + 1) = completed ClockRate s₀ inp t ++
        (state ClockRate s₀ inp t).completedByte ClockRate := rfl
    rw [hsucc]
    simp only [List.length_append] at hlen ⊢
    split at hlen
    · simp only [List.length_nil] at hlen
      omega
    · omega

theorem length_completed_le (hN : 10 ≤ N) (hb : BaudHeld ClockRate s₀ inp N)
    (hready : Receiver.Ready s₀.receiver) (hinv : ∀ t, TxInv N (state ClockRate s₀ inp t)
      (line ClockRate s₀ inp t) (sent ClockRate s₀ inp t) ([] ++ written ClockRate s₀ inp t))
    (hloop : ∀ t, (inp t).rxI = (state ClockRate s₀ inp t).txO) (t : Nat) :
    (completed ClockRate s₀ inp t).length ≤ (written ClockRate s₀ inp t).length := by
  have hcons := congrArg List.length (hinv t).conserved
  simp only [List.length_append, List.nil_append] at hcons
  rcases completed_sent hN hb hready hinv hloop t with hall | ⟨b, rest, hhead, hone⟩
  · rw [hall]
    omega
  · rw [hhead, List.length_cons] at hcons
    rw [hone, List.length_append, List.length_singleton]
    omega

theorem rxFull_eq_false {s : UartState 5} (h : s.rxContents.length < 31) : s.rxFull = false := by
  rw [rxContents, Ring.length_contents] at h
  rw [rxFull, beq_eq_false_iff_ne]
  bv_omega

theorem written_twoLanes (t : Nat) :
    written 50000000 idleUart (loopIn 50000000 idleUart writeTwoLanes) (t + 1) = [0x41, 0x42] := by
  induction t with
  | zero => rfl
  | succ t ih =>
    rw [written, Clocked.log_succ, ← written, ih]
    simp [writtenLanes, gntO, loopIn, writeTwoLanes]

/-- Once the transmitter is drained, both lanes of `writeTwoLanes` have come back. -/
theorem uart_loopback_twoLanes : ∃ t, (loopState 50000000 idleUart writeTwoLanes t).txEmpty = true ∧
    (loopState 50000000 idleUart writeTwoLanes t).pendingLanes = [] ∧
    reads 50000000 idleUart (loopIn 50000000 idleUart writeTwoLanes) t ++
      (loopState 50000000 idleUart writeTwoLanes t).rxContents = [0x41, 0x42] := by
  have hb : BaudHeld 50000000 idleUart (loopIn 50000000 idleUart writeTwoLanes) 217 :=
    baudHeld_of_no_write (by decide) fun _ _ _ => (by decide : (8#32 : BitVec 32) ≠ 4#32)
  have hloop : ∀ t, (loopIn 50000000 idleUart writeTwoLanes t).rxI =
      (state 50000000 idleUart (loopIn 50000000 idleUart writeTwoLanes) t).txO := fun t => by
    rw [state_loopIn]
    rfl
  have hstart : TxInv 217 idleUart [] [] [] := TxInv.initial rfl rfl rfl rfl (by decide)
  -- two bytes never fill the ring
  have hroom : ∀ t, (state 50000000 idleUart (loopIn 50000000 idleUart writeTwoLanes)
        t).completedByte 50000000 ≠ [] →
      (state 50000000 idleUart (loopIn 50000000 idleUart writeTwoLanes) t).rxFull = false := by
    intro t _
    have hlen := length_completed_le (by decide) hb
      (Receiver.ready_of_idle rfl rfl rfl rfl) (TxInv.run_from (by decide) hb hstart) hloop t
    have hring : (state 50000000 idleUart (loopIn 50000000 idleUart writeTwoLanes)
        t).rxContents.length ≤ _ := length_rxContents_le rfl t
    refine rxFull_eq_false (lt_of_le_of_lt (hring.trans hlen) ?_)
    cases t with
    | zero => exact Nat.succ_pos _
    | succ t => rw [written_twoLanes]; exact (by decide : 2 < 31)
  -- everything written is sent, so a cycle comes that leaves nothing to send
  obtain ⟨t, ht, hsent⟩ := written_sent (by decide) (by decide) hb hstart 1
  obtain ⟨u, rfl⟩ := Nat.exists_eq_add_of_le' ht
  have hcons := congrArg List.length (TxInv.run_from (by decide) hb hstart (u + 1)).conserved
  rw [List.nil_append, written_twoLanes, List.length_append, List.length_append] at hcons
  rw [List.nil_append, written_twoLanes 0] at hsent
  have hlen := hsent.length_le
  simp only [List.length_cons, List.length_nil] at hcons hlen
  have htx : (loopState 50000000 idleUart writeTwoLanes (u + 1)).txEmpty = true := by
    rw [← state_loopIn, txEmpty_iff, ← List.length_eq_zero_iff]
    omega
  have hpending : (loopState 50000000 idleUart writeTwoLanes (u + 1)).pendingLanes = [] := by
    rw [← state_loopIn, ← List.length_eq_zero_iff]
    omega
  obtain ⟨rest, hrest, -, hnil⟩ := uart_loopback (by decide) (by decide) (by decide) hb rfl rfl rfl rfl rfl
    rfl rfl (fun _ => rfl) (by decide) hloop hroom (u + 1)
  rw [written_twoLanes, state_loopIn] at hrest
  rw [state_loopIn] at hnil
  rw [hnil htx hpending, List.append_nil] at hrest
  exact ⟨u + 1, htx, hpending, hrest⟩

end PenPlotter
