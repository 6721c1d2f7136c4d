import PenPlotter.UartTx

/-!
# What the transmitter sends

Along a run whose baud register is left alone, the line is a waveform of frames followed by an idle
stretch or a frame in progress (`TxInv`), and the bytes of the frames, the TX ring and the lanes still
to be pushed are together the lanes of the writes granted so far. With bytes waiting, some frame is
completed later (`sent_grows`), so every lane written is sent.
-/

namespace PenPlotter

open Serial UartState

variable {k : Nat} (ClockRate : Nat)

namespace UartRun

variable (s₀ : UartState k) (inp : Nat → UartIn)

abbrev state (t : Nat) : UartState k := Clocked.run (UartState.step ClockRate) s₀ inp t

/-- `tx_o` in the cycles before `t`. -/
def line (t : Nat) : List Bool := Clocked.log (UartState.step ClockRate) (fun s _ => [s.txO]) s₀ inp t

/-- The enabled lanes of the writes to the TX lane granted before cycle `t`. -/
def written (t : Nat) : List (BitVec 8) :=
  Clocked.log (UartState.step ClockRate) UartState.writtenLanes s₀ inp t

/-- The bytes whose frames are complete before cycle `t`. -/
def sent (t : Nat) : List (BitVec 8) :=
  Clocked.log (UartState.step ClockRate) (fun s _ => s.sentByte ClockRate) s₀ inp t

/-- No access changes the baud register, so `clks_per_bit` stays `N`. -/
def BaudHeld (N : Nat) : Prop := ∀ t, ((state ClockRate s₀ inp t).clks ClockRate).toNat = N

end UartRun

open UartRun

variable {ClockRate} {N : Nat} {s₀ : UartState k} {inp : Nat → UartIn}

/-- A line made of the frames `fs`, up to an idle stretch or a frame in progress. -/
structure TxInv (N : Nat) (s : UartState k) (line : List Bool) (sent written : List (BitVec 8)) :
    Prop where
  rests : s.IdxRests
  conserved : sent ++ s.txContents ++ s.pendingLanes = written
  wave : ∃ fs : List (Nat × BitVec 8), fs.map Prod.snd = sent ∧
    ((s.TxIdle N ∧ ∃ g, line = Serial.wave N fs ++ List.replicate g true) ∨
      ∃ b q r g, s.TxAt N b q r ∧
        line = Serial.wave N fs ++ (List.replicate g true ++ partialFrame N b q r))

namespace TxInv

variable {s : UartState k} {i : UartIn} {line : List Bool} {sent written : List (BitVec 8)}

theorem sentByte_of_at {b : BitVec 8} {q r : Nat} (h : s.TxAt N b q r)
    (hb : (s.clks ClockRate).toNat = N) :
    s.sentByte ClockRate = if q = 9 ∧ r + 1 = N then [b] else [] := by
  have hq := h.q_lt
  have hstop : (s.txState == .stop) = decide (q = 9) := by
    rw [h.state, txPhaseOf]
    rcases (by omega : q = 0 ∨ (q ≠ 0 ∧ q ≤ 8) ∨ q = 9) with rfl | ⟨h0, h8⟩ | rfl
    · rfl
    · rw [if_neg h0, if_pos h8, decide_eq_false (show q ≠ 9 by omega)]
      rfl
    · rfl
  have ht : s.txBaud ClockRate = decide (r + 1 = N) := by
    rw [Bool.eq_iff_iff, h.txBaud hb, decide_eq_true_iff]
  rw [sentByte, hstop, ht, h.latch]
  simp

theorem sentByte_of_idle (h : s.TxIdle N) : s.sentByte ClockRate = [] := by
  simp [sentByte, h.state]

/-- The pushes of a cycle move lanes from the walk into the ring and lose none. -/
theorem conserved_step {sent' c' : List (BitVec 8)} (h : TxInv N s line sent written)
    (hc : s.sentByte ClockRate ++ c' = s.txContents ++ s.pushedByte)
    (hs : sent' = sent ++ s.sentByte ClockRate) :
    sent' ++ c' ++ (s.step ClockRate i).pendingLanes = written ++ s.writtenLanes i := by
  have hl : s.pendingLanes ++ s.writtenLanes i = s.pushedByte ++ (s.step ClockRate i).pendingLanes :=
    lanes_conserved h.rests
  calc sent' ++ c' ++ (s.step ClockRate i).pendingLanes
      = sent ++ (s.sentByte ClockRate ++ c') ++ (s.step ClockRate i).pendingLanes := by
        rw [hs]; simp only [List.append_assoc]
    _ = sent ++ s.txContents ++ (s.pushedByte ++ (s.step ClockRate i).pendingLanes) := by
        rw [hc]; simp only [List.append_assoc]
    _ = sent ++ s.txContents ++ s.pendingLanes ++ s.writtenLanes i := by
        rw [← hl]; simp only [List.append_assoc]
    _ = written ++ s.writtenLanes i := by rw [h.conserved]

theorem step (h : TxInv N s line sent written) (hN : 0 < N) (hb : (s.clks ClockRate).toNat = N) :
    TxInv N (s.step ClockRate i) (line ++ [s.txO]) (sent ++ s.sentByte ClockRate)
      (written ++ s.writtenLanes i) := by
  obtain ⟨fs, hfs, ⟨hidle, g, hline⟩ | ⟨b, q, r, g, hat, hline⟩⟩ := h.wave
  · -- an idle cycle lengthens the gap, and a tick with a byte waiting ends it
    have hgap : line ++ [s.txO] = Serial.wave N fs ++ List.replicate (g + 1) true := by
      rw [hline, hidle.txO, List.append_assoc, ← List.replicate_succ']
    refine ⟨h.rests.step, h.conserved_step ?_ rfl, fs, ?_, ?_⟩
    · rw [sentByte_of_idle hidle, List.nil_append, hidle.txContents_step]
    · rw [sentByte_of_idle hidle, List.append_nil, hfs]
    · by_cases hstay : s.txContents = [] ∨ s.txBaudCounter.toNat + 1 ≠ N
      · exact .inl ⟨hidle.step_stay hN hb hstay, g + 1, hgap⟩
      · push Not at hstay
        obtain ⟨b, rest, hc⟩ := List.exists_cons_of_ne_nil hstay.1
        exact .inr ⟨b, 0, 0, g + 1, hidle.step_start hN hb hc hstay.2, by simpa using hgap⟩
  · have hsym : line ++ [s.txO] =
        Serial.wave N fs ++ (List.replicate g true ++ partialFrame N b q (r + 1)) := by
      rw [hline, hat.txO, partialFrame_succ]
      simp only [List.append_assoc]
    have hr := hat.r_lt
    have hq := hat.q_lt
    have hsent := sentByte_of_at hat hb
    by_cases hend : q = 9 ∧ r + 1 = N
    · -- the last cycle of the stop bit completes the frame
      obtain ⟨rfl, hr1⟩ := hend
      obtain ⟨hidle, hpop⟩ := hat.step_end (i := i) hb hr1
      rw [if_pos ⟨rfl, hr1⟩] at hsent
      refine ⟨h.rests.step, h.conserved_step (by rw [hsent, hpop]; rfl) rfl, fs ++ [(g, b)],
        by simp [hfs, hsent], .inl ⟨hidle, 0, ?_⟩⟩
      rw [hsym, hr1, partialFrame_stop, wave_append, wave_singleton]
      simp
    · rw [if_neg hend] at hsent
      have hns : s.txState ≠ .stop ∨ s.txBaud ClockRate = false := by
        by_contra hcon
        push Not at hcon
        rw [sentByte, hcon.1, Bool.eq_true_of_not_eq_false hcon.2] at hsent
        simp at hsent
      refine ⟨h.rests.step, h.conserved_step ?_ rfl, fs, by simp [hfs, hsent], .inr ?_⟩
      · rw [hsent, txContents_step_of_not_popping hns]
        rfl
      · by_cases hr1 : r + 1 = N
        · refine ⟨b, q + 1, 0, g, hat.step_next hb hr1 (by omega), ?_⟩
          rw [hsym, hr1, partialFrame_full]
        · exact ⟨b, q, r + 1, g, hat.step_within hb (by omega), hsym⟩

end TxInv

theorem TxInv.initial (htx : s₀.txState = .idle) (hempty : s₀.txEmpty = true)
    (hdev : s₀.deviceState = .wait) (hidx : s₀.wdataByteIdx = 0) (hctr : s₀.txBaudCounter.toNat < N) :
    TxInv N s₀ [] [] [] := by
  have hw : s₀.walking = false := not_walking_of_ne (by rw [hdev]; decide)
  refine ⟨fun _ => hidx, ?_, [], rfl, .inl ⟨⟨htx, hctr⟩, 0, rfl⟩⟩
  rw [txEmpty_iff.1 hempty, pendingLanes, hw]
  rfl

/-- The invariant of a run that starts with the lanes `w` still to be pushed. -/
theorem TxInv.run_from {w : List (BitVec 8)} (hN : 0 < N) (hb : BaudHeld ClockRate s₀ inp N)
    (h0 : TxInv N s₀ [] [] w) (t : Nat) : TxInv N (state ClockRate s₀ inp t)
      (line ClockRate s₀ inp t) (sent ClockRate s₀ inp t) (w ++ written ClockRate s₀ inp t) := by
  induction t with
  | zero => rwa [show written ClockRate s₀ inp 0 = [] from rfl, List.append_nil]
  | succ t ih =>
    have hstep := ih.step (i := inp t) hN (hb t)
    rwa [List.append_assoc] at hstep

theorem TxInv.run (hN : 0 < N) (hb : BaudHeld ClockRate s₀ inp N)
    (h0 : TxInv N s₀ [] [] []) (t : Nat) : TxInv N (state ClockRate s₀ inp t)
      (line ClockRate s₀ inp t) (sent ClockRate s₀ inp t) (written ClockRate s₀ inp t) :=
  TxInv.run_from hN hb h0 t

theorem sent_succ (t : Nat) : sent ClockRate s₀ inp (t + 1) =
    sent ClockRate s₀ inp t ++ (state ClockRate s₀ inp t).sentByte ClockRate := rfl

theorem sent_grows_of_at (hb : BaudHeld ClockRate s₀ inp N) {b : BitVec 8} {q r t : Nat}
    (h : (state ClockRate s₀ inp t).TxAt N b q r) : ∃ t' > t,
      (sent ClockRate s₀ inp t).length < (sent ClockRate s₀ inp t').length := by
  have hq := h.q_lt
  have hr := h.r_lt
  -- by the number of cycles left in the frame
  induction hm : (10 - q) * N - r using Nat.strong_induction_on generalizing q r t with
  | _ m ih =>
    have hle : (sent ClockRate s₀ inp t).length ≤ (sent ClockRate s₀ inp (t + 1)).length := by
      rw [sent_succ, List.length_append]
      omega
    have hmul : (10 - q) * N = (9 - q) * N + N := by
      rw [← Nat.succ_mul]; congr 1; omega
    by_cases hr1 : r + 1 = N
    · by_cases hq9 : q = 9
      · subst hq9
        refine ⟨t + 1, by omega, ?_⟩
        rw [sent_succ, TxInv.sentByte_of_at h (hb t), if_pos ⟨rfl, hr1⟩]
        simp
      · have hnext : (state ClockRate s₀ inp (t + 1)).TxAt N b (q + 1) 0 :=
          h.step_next (i := inp t) (hb t) hr1 (by omega)
        obtain ⟨t', ht', hlt⟩ := ih ((10 - (q + 1)) * N - 0)
          (by rw [show 10 - (q + 1) = 9 - q by omega]; omega) hnext (by omega) (by omega) rfl
        exact ⟨t', by omega, by omega⟩
    · have hnext : (state ClockRate s₀ inp (t + 1)).TxAt N b q (r + 1) :=
        h.step_within (i := inp t) (hb t) (by omega)
      obtain ⟨t', ht', hlt⟩ := ih ((10 - q) * N - (r + 1)) (by omega) hnext (by omega) (by omega) rfl
      exact ⟨t', by omega, by omega⟩

/-- With a byte in the ring an idle transmitter starts a frame at the next tick. -/
theorem sent_grows_of_idle (hN : 0 < N) (hb : BaudHeld ClockRate s₀ inp N) {t : Nat}
    (h : (state ClockRate s₀ inp t).TxIdle N) (hc : (state ClockRate s₀ inp t).txContents ≠ []) :
    ∃ t' > t, (sent ClockRate s₀ inp t).length < (sent ClockRate s₀ inp t').length := by
  induction hm : N - (state ClockRate s₀ inp t).txBaudCounter.toNat using Nat.strong_induction_on
    generalizing t with
  | _ m ih =>
    have hcount := h.counter
    have hsame : sent ClockRate s₀ inp (t + 1) = sent ClockRate s₀ inp t := by
      rw [sent_succ, TxInv.sentByte_of_idle h, List.append_nil]
    by_cases ht : (state ClockRate s₀ inp t).txBaudCounter.toNat + 1 = N
    · obtain ⟨b, rest, hbr⟩ := List.exists_cons_of_ne_nil hc
      obtain ⟨t', ht', hlt⟩ := sent_grows_of_at (t := t + 1) hb
        (h.step_start (i := inp t) hN (hb t) hbr ht)
      exact ⟨t', by omega, by rw [← hsame]; exact hlt⟩
    · have hidle : (state ClockRate s₀ inp (t + 1)).TxIdle N :=
        h.step_stay (i := inp t) hN (hb t) (.inr ht)
      have hc' : (state ClockRate s₀ inp (t + 1)).txContents ≠ [] := by
        show (UartState.step ClockRate _ (inp t)).txContents ≠ []
        rw [h.txContents_step]
        exact fun hnil => hc (List.append_eq_nil_iff.1 hnil).1
      have hnext : (state ClockRate s₀ inp (t + 1)).txBaudCounter.toNat =
          (state ClockRate s₀ inp t).txBaudCounter.toNat + 1 := by
        show (UartState.step ClockRate _ (inp t)).txBaudCounter.toNat = _
        rw [toNat_txBaudCounter_step hN (hb t) hcount, if_neg ht]
      obtain ⟨t', ht', hlt⟩ := ih _ (by rw [hnext]; omega) hidle hc' rfl
      exact ⟨t', by omega, by rw [← hsame]; exact hlt⟩

/-- A walk over an empty ring pushes its next enabled lane. -/
theorem sent_grows_of_walk (hk : 0 < k) (hN : 0 < N) (hb : BaudHeld ClockRate s₀ inp N) {t : Nat}
    (h : (state ClockRate s₀ inp t).TxIdle N) (hc : (state ClockRate s₀ inp t).txContents = [])
    (hp : (state ClockRate s₀ inp t).pendingLanes ≠ []) :
    ∃ t' > t, (sent ClockRate s₀ inp t).length < (sent ClockRate s₀ inp t').length := by
  induction hm : 4 - (state ClockRate s₀ inp t).wdataByteIdx.toNat using Nat.strong_induction_on
    generalizing t with
  | _ m ih =>
    have hw : (state ClockRate s₀ inp t).walking = true := by
      by_contra hw
      simp [pendingLanes, hw] at hp
    have hsame : sent ClockRate s₀ inp (t + 1) = sent ClockRate s₀ inp t := by
      rw [sent_succ, TxInv.sentByte_of_idle h, List.append_nil]
    have hidle : (state ClockRate s₀ inp (t + 1)).TxIdle N :=
      h.step_stay (i := inp t) hN (hb t) (.inl hc)
    have hc' : (state ClockRate s₀ inp (t + 1)).txContents =
        (state ClockRate s₀ inp t).pushedByte := by
      show (UartState.step ClockRate _ (inp t)).txContents = _
      rw [h.txContents_step, hc, List.nil_append]
    have hfull : (state ClockRate s₀ inp t).txFull = false := by
      by_contra hf
      have hne := txEmpty_of_txFull hk (by simpa using hf)
      rw [txEmpty_iff.2 hc] at hne
      cases hne
    have hlane : (!(state ClockRate s₀ inp t).laneEn || !(state ClockRate s₀ inp t).txFull) = true := by
      simp [hfull]
    by_cases hen : (state ClockRate s₀ inp t).laneEn = true
    · have hne : (state ClockRate s₀ inp (t + 1)).txContents ≠ [] := by
        rw [hc', pushedByte_of_lane hw hlane, if_pos hen]
        simp
      obtain ⟨t', ht', hlt⟩ := sent_grows_of_idle hN hb hidle hne
      exact ⟨t', by omega, by rw [← hsame]; exact hlt⟩
    · -- a lane that is not enabled is skipped
      have hnil : (state ClockRate s₀ inp t).pushedByte = [] := by
        rw [pushedByte_of_lane hw hlane, if_neg hen]
      have hrests : (state ClockRate s₀ inp t).IdxRests := fun hw' => by simp [hw] at hw'
      have hcons : (state ClockRate s₀ inp t).pendingLanes ++
            (state ClockRate s₀ inp t).writtenLanes (inp t) =
          (state ClockRate s₀ inp t).pushedByte ++ (state ClockRate s₀ inp (t + 1)).pendingLanes :=
        lanes_conserved hrests
      have hgnt : (state ClockRate s₀ inp t).writtenLanes (inp t) = [] := by
        simp [writtenLanes, gntO, (walking_iff.1 hw).1]
      rw [hnil, hgnt, List.append_nil, List.nil_append] at hcons
      have hp' : (state ClockRate s₀ inp (t + 1)).pendingLanes ≠ [] := by
        rwa [← hcons]
      have h3 : (state ClockRate s₀ inp t).wdataByteIdx ≠ 3 := by
        intro h3
        have hw' : (state ClockRate s₀ inp (t + 1)).walking = _ := walking_step_lane hw hlane
        rw [h3] at hw'
        rw [pendingLanes, hw'] at hp'
        simp at hp'
      have hidx : (state ClockRate s₀ inp (t + 1)).wdataByteIdx.toNat =
          (state ClockRate s₀ inp t).wdataByteIdx.toNat + 1 := by
        show ((state ClockRate s₀ inp t).deviceNext (inp t)).wdataByteIdx.toNat = _
        rw [deviceNext_lane hw hlane]
        exact toNat_succ_idx h3
      have hlt4 := (state ClockRate s₀ inp t).wdataByteIdx.isLt
      obtain ⟨t', ht', hlt⟩ := ih _ (by rw [hidx]; omega) hidle (by rw [hc', hnil]) hp' rfl
      exact ⟨t', by omega, by rw [← hsame]; exact hlt⟩

theorem sent_grows {w : List (BitVec 8)} (hk : 0 < k) (hN : 0 < N) (hb : BaudHeld ClockRate s₀ inp N)
    (h0 : TxInv N s₀ [] [] w) {t : Nat}
    (hlt : (sent ClockRate s₀ inp t).length < (w ++ written ClockRate s₀ inp t).length) :
    ∃ t' > t, (sent ClockRate s₀ inp t).length < (sent ClockRate s₀ inp t').length := by
  have hinv := TxInv.run_from hN hb h0 t
  obtain ⟨fs, -, ⟨hidle, -⟩ | ⟨b, q, r, g, hat, -⟩⟩ := hinv.wave
  · by_cases hc : (state ClockRate s₀ inp t).txContents = []
    · refine sent_grows_of_walk hk hN hb hidle hc fun hp => ?_
      have := hinv.conserved
      rw [hc, hp, List.append_nil, List.append_nil] at this
      rw [this] at hlt
      exact lt_irrefl _ hlt
    · exact sent_grows_of_idle hN hb hidle hc
  · exact sent_grows_of_at hb hat

/-- Everything written is sent, after the lanes that were still to be pushed. -/
theorem written_sent {w : List (BitVec 8)} (hk : 0 < k) (hN : 0 < N) (hb : BaudHeld ClockRate s₀ inp N)
    (h0 : TxInv N s₀ [] [] w) (t : Nat) :
    ∃ t' ≥ t, w ++ written ClockRate s₀ inp t <+: sent ClockRate s₀ inp t' := by
  have hmono {m n : Nat} (h : m ≤ n) : w ++ written ClockRate s₀ inp m <+: w ++ written ClockRate s₀ inp n :=
    (List.prefix_append_right_inj w).2 (Clocked.log_mono h)
  have hpre (t : Nat) : sent ClockRate s₀ inp t <+: w ++ written ClockRate s₀ inp t := by
    rw [← (TxInv.run_from hN hb h0 t).conserved, List.append_assoc]
    exact List.prefix_append _ _
  exact Clocked.exists_caught_up hmono hpre (fun t => sent_grows hk hN hb h0) t

/-! ### The transmitter on the line -/

theorem UartState.getLsbD_status (s : UartState k) (i : UartIn) : (s.status i).getLsbD 5 = s.txEmpty := by
  simp only [status, BitVec.getLsbD_append]
  cases s.txEmpty <;> rfl

/-- The baud register is held when no granted write is to the baud lane. -/
theorem baudHeld_of_no_write (hw : s₀.deviceState ≠ .write) (hi : ∀ t, (inp t).NoBaudRequest) :
    BaudHeld ClockRate s₀ inp (s₀.clks ClockRate).toNat := by
  have hrun : ∀ t, (state ClockRate s₀ inp t).NoBaudWrite ∧
      (state ClockRate s₀ inp t).baudSelector = s₀.baudSelector := by
    intro t
    induction t with
    | zero => exact ⟨fun h => absurd h hw, rfl⟩
    | succ t ih => exact ⟨ih.1.step (hi t), (ih.1.baudSelector_step).trans ih.2⟩
  intro t
  rw [clks, (hrun t).2]
  rfl

/-- From an idle transmitter, whatever the accesses are: before every cycle the line is a waveform of
complete frames followed by an idle stretch or by a frame in progress, whose byte keeps the TX ring
from being empty; the frames carry the lanes written, up to those still in the ring or still to be
pushed; and every lane written is sent. -/
theorem uart_transmits (hk : 0 < k) (hN : 0 < N) (hb : BaudHeld ClockRate s₀ inp N)
    (htx : s₀.txState = .idle) (hempty : s₀.txEmpty = true) (hdev : s₀.deviceState = .wait)
    (hidx : s₀.wdataByteIdx = 0) (hctr : s₀.txBaudCounter.toNat < N) (t : Nat) :
    (∃ fs : List (Nat × BitVec 8),
      fs.map Prod.snd ++ (state ClockRate s₀ inp t).txContents ++
        (state ClockRate s₀ inp t).pendingLanes = written ClockRate s₀ inp t ∧
      (((state ClockRate s₀ inp t).txO = true ∧
          ∃ g, line ClockRate s₀ inp t = Serial.wave N fs ++ List.replicate g true) ∨
        ∃ b q r g, q < 10 ∧ r < N ∧
          line ClockRate s₀ inp t =
            Serial.wave N fs ++ (List.replicate g true ++ partialFrame N b q r) ∧
          (state ClockRate s₀ inp t).txO = symbol b q ∧
          (state ClockRate s₀ inp t).txContents.head? = some b ∧
          ((state ClockRate s₀ inp t).status (inp t)).getLsbD 5 = false)) ∧
    ∃ t' ≥ t, ∃ (fs : List (Nat × BitVec 8)) (rest : List Bool),
      line ClockRate s₀ inp t' = Serial.wave N fs ++ rest ∧
      written ClockRate s₀ inp t <+: fs.map Prod.snd := by
  have h0 : TxInv N s₀ [] [] [] := TxInv.initial htx hempty hdev hidx hctr
  have hinv := TxInv.run hN hb h0
  refine ⟨?_, ?_⟩
  · obtain ⟨fs, hfs, hline⟩ := (hinv t).wave
    refine ⟨fs, by rw [hfs]; exact (hinv t).conserved, ?_⟩
    rcases hline with ⟨hidle, hgap⟩ | ⟨b, q, r, g, hat, hframe⟩
    · exact .inl ⟨hidle.txO, hgap⟩
    · obtain ⟨rest, hrest⟩ := hat.head
      refine .inr ⟨b, q, r, g, hat.q_lt, hat.r_lt, hframe, hat.txO, by rw [hrest]; rfl, ?_⟩
      rw [getLsbD_status, hat.not_txEmpty]
  · obtain ⟨t', ht', hsent⟩ := written_sent hk hN hb h0 t
    obtain ⟨fs, hfs, hline⟩ := (hinv t').wave
    refine ⟨t', ht', fs, ?_⟩
    rw [hfs]
    rcases hline with ⟨-, g, hgap⟩ | ⟨b, q, r, g, -, hframe⟩
    · exact ⟨_, hgap, hsent⟩
    · exact ⟨_, hframe, hsent⟩

/-- An idle UART at 230400 baud. -/
def idleUart : UartState 5 :=
  { UartState.reset 0 (fun _ => 0) (fun _ => 0) with
    baudSelector := 7, rxSync1 := true, rxSync0 := true }

/-- Two lanes are written to the TX lane in the first cycle, and nothing else happens. -/
def writeTwoLanes (t : Nat) : UartIn where
  rxI := true
  reqI := t == 0
  addrI := 8
  weI := true
  beI := 5
  wdataI := 0x00420041
  padding := 0

/-- Both lanes are sent. -/
theorem uart_transmits_twoLanes : ∃ t' ≥ 1, ∃ (fs : List (Nat × BitVec 8)) (rest : List Bool),
    line 50000000 idleUart writeTwoLanes t' = Serial.wave 217 fs ++ rest ∧
      [0x41, 0x42] <+: fs.map Prod.snd := by
  have hb : BaudHeld 50000000 idleUart writeTwoLanes 217 :=
    baudHeld_of_no_write (by decide) fun _ _ _ => (by decide : (8#32 : BitVec 32) ≠ 4#32)
  exact (uart_transmits (by decide) (by decide) hb rfl rfl rfl rfl (by decide) 1).2

end PenPlotter
