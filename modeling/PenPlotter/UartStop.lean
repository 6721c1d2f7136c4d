import PenPlotter.UartLoopback

/-!
# The stop bit

`uart_monitor` drops a byte whose stop bit is low. The receiver stays in STOP instead and samples again
every bit time, so it appends the byte at the first such sample that finds the line high, however late
(`appendOf_iff`).
-/

namespace PenPlotter

variable {N : Nat}

namespace Receiver

variable {clks : BitVec 32} {v : Receiver} {L : Nat → Bool} {x : Bool} {r s e : Nat}

/-- This cycle takes the eighth data bit. -/
def TakesLast (clks : BitVec 32) (v : Receiver) : Prop :=
  v.rxState = .data ∧ v.rxBaud clks = true ∧ v.rxCollectingCount = 7

/-- In STOP, `r` cycles after the last tick. -/
structure Waits (r : Nat) (v : Receiver) : Prop where
  state : v.rxState = .stop
  counter : v.rxBaudCounter.toNat = r
  restart : v.rxRestartBaud = false

/-- STOP is entered by the eighth sample and left by a completion. -/
theorem rxState_step_stop (h : (v.step clks x).rxState = .stop) : v.TakesLast clks ∨ v.rxState = .stop := by
  cases hst : v.rxState with
  | idle => cases hs : v.rxSync0 <;> simp [step, hst, hs] at h
  | start => cases hb : v.rxSample clks <;> cases hs : v.rxSync0 <;> simp [step, hst, hb, hs] at h
  | data =>
    cases hb : v.rxBaud clks with
    | false => simp [step, hst, hb] at h
    | true =>
      refine .inl ⟨hst, hb, ?_⟩
      simpa [step, hst, hb] using h
  | stop => exact .inr rfl

theorem completed_ne_nil : v.completed clks x ≠ [] ↔
    v.rxState = .stop ∧ v.rxBaud clks = true ∧ v.rxSync0 = true := by
  simp [completed, and_assoc]

theorem completed_of_ne_nil {b : BitVec 8} (h : v.completed clks x ≠ []) (hcol : v.rxCollecting = b) :
    v.completed clks x = [b] := by
  by_cases hdone : (v.rxState == .stop && v.rxBaud clks && v.rxSync0) = true
  · rw [completed, if_pos hdone, hcol]
  · exact absurd (if_neg hdone) h

theorem rxState_step_completed (h : v.completed clks x ≠ []) : (v.step clks x).rxState ≠ .stop := by
  obtain ⟨hst, hb, hs⟩ := completed_ne_nil.1 h
  simp [step, hst, hb, hs]

theorem TakesLast.waits (h : v.TakesLast clks) : Waits 0 (v.step clks x) := by
  obtain ⟨hst, hb, h7⟩ := h
  exact ⟨by simp [step, hst, hb, h7], by simp [rxBaudCounter_step, hb], by simp [step, hst, hb]⟩

/-- A tick that finds the line low goes back to the wait for the next one. -/
theorem Waits.step (h : Waits (r % N) v) (hn : clks.toNat = N) (hN : 0 < N)
    (hlow : N ∣ r + 1 → v.rxSync0 = false) : Waits ((r + 1) % N) (v.step clks x) := by
  have hlt := Nat.mod_lt r hN
  have hstay : (v.rxBaud clks && v.rxSync0) = false := by
    rw [Bool.and_eq_false_iff, ← Bool.not_eq_true, rxBaud_iff hn hN, h.counter]
    by_cases htick : r % N + 1 = N
    · refine .inr (hlow (Nat.dvd_of_mod_eq_zero ?_))
      rw [← Nat.mod_add_mod, htick, Nat.mod_self]
    · exact .inl htick
  refine ⟨by simp [Receiver.step, h.state, hstay], ?_, by simp [Receiver.step, h.state, hstay]⟩
  have hcount := v.rxBaudCounter.isLt
  rw [counter_step hn hN h.restart, h.counter, ← Nat.mod_add_mod r N 1]
  have hle : N ≤ 2 ^ 32 := hn ▸ clks.isLt.le
  split
  next htick => rw [htick, Nat.mod_self]
  next htick => rw [Nat.mod_eq_of_lt (show r % N + 1 < 2 ^ 32 by omega),
      Nat.mod_eq_of_lt (show r % N + 1 < N by omega)]

/-- As long as the ticks after the eighth sample find the line low, the receiver stays in STOP. -/
theorem waits_run (hn : clks.toNat = N) (hN : 0 < N) (h : (run clks v L s).TakesLast clks) (d : Nat)
    (hlow : ∀ c, s < c → c < s + 1 + d → N ∣ c - s → (run clks v L c).rxSync0 = false) :
    Waits (d % N) (run clks v L (s + 1 + d)) := by
  induction d with
  | zero =>
    rw [Nat.zero_mod]
    exact h.waits
  | succ d ih =>
    refine (ih fun c hc hd => hlow c hc (by omega)).step hn hN fun hdvd => ?_
    refine hlow (s + 1 + d) (by omega) (by omega) ?_
    rwa [show s + 1 + d - s = d + 1 by omega]

/-- A receiver found in STOP was there all along or has taken an eighth sample, its last one. -/
theorem takesLast_of_stop (hse : s ≤ e) (hstop : (run clks v L e).rxState = .stop) :
    (run clks v L s).rxState = .stop ∨ ∃ c, s ≤ c ∧ c < e ∧ (run clks v L c).TakesLast clks ∧
      ∀ c', c < c' → c' < e → ¬(run clks v L c').TakesLast clks := by
  induction e, hse using Nat.le_induction with
  | base => exact .inl hstop
  | succ e hse ih =>
    rcases rxState_step_stop hstop with hlast | hst
    · exact .inr ⟨e, hse, Nat.lt_succ_self e, hlast, fun c' _ _ => by omega⟩
    · rcases ih hst with hst' | ⟨c, hsc, hce, hlast, hnone⟩
      · exact .inl hst'
      · refine .inr ⟨c, hsc, by omega, hlast, fun c' hc' he => ?_⟩
        rcases Nat.lt_or_eq_of_le (Nat.lt_succ_iff.1 he) with hlt | rfl
        · exact hnone c' hc' hlt
        · exact fun hdata => absurd (hdata.1.symm.trans hst) (by decide)

end Receiver

/-! ### The peripheral -/

variable {k ClockRate : Nat} {s₀ : UartState k} {inp : Nat → UartIn} {s e : Nat}

namespace UartRun

variable (ClockRate) (s₀) (inp)

/-- Cycle `s` samples an eighth data bit. -/
def EighthSample (s : Nat) : Prop :=
  (state ClockRate s₀ inp s).rxState = .data ∧ (state ClockRate s₀ inp s).rxBaud ClockRate = true ∧
    (state ClockRate s₀ inp s).rxCollectingCount = 7

/-- Cycle `e` appends a byte to the RX ring. -/
def Appends (e : Nat) : Prop :=
  (state ClockRate s₀ inp e).completedByte ClockRate ≠ [] ∧ (state ClockRate s₀ inp e).rxFull = false

/-- Cycle `e` appends the byte whose eighth data bit was sampled in cycle `s`. -/
structure AppendOf (s e : Nat) : Prop where
  sample : EighthSample ClockRate s₀ inp s
  lt : s < e
  last : ∀ c, s < c → c < e → ¬EighthSample ClockRate s₀ inp c
  appends : Appends ClockRate s₀ inp e

/-- Of the cycles a whole number of bit times after `s`, `e` is the first that finds the line high. -/
structure FirstHigh (N s e : Nat) : Prop where
  lt : s < e
  dvd : N ∣ e - s
  high : (state ClockRate s₀ inp e).rxSync0 = true
  low : ∀ c, s < c → c < e → N ∣ c - s → (state ClockRate s₀ inp c).rxSync0 = false

variable {ClockRate s₀ inp}

theorem exists_firstHigh (hlt : s < e) (hdvd : N ∣ e - s) (hhigh : (state ClockRate s₀ inp e).rxSync0 = true) :
    ∃ e' ≤ e, FirstHigh ClockRate s₀ inp N s e' := by
  induction e using Nat.strong_induction_on with
  | _ e ih =>
    by_cases hlow : ∀ c, s < c → c < e → N ∣ c - s → (state ClockRate s₀ inp c).rxSync0 = false
    · exact ⟨e, le_rfl, hlt, hdvd, hhigh, hlow⟩
    · push Not at hlow
      obtain ⟨c, hsc, hce, hc, hne⟩ := hlow
      obtain ⟨e', he', hfirst⟩ := ih c hce hsc hc (by simpa using hne)
      exact ⟨e', he'.trans hce.le, hfirst⟩

section
variable (hb : BaudHeld ClockRate s₀ inp N)
include hb

theorem eighthSample_iff (t : Nat) : EighthSample ClockRate s₀ inp t ↔
    (Receiver.run (s₀.clks ClockRate) s₀.receiver (fun t => (inp t).rxI) t).TakesLast
      (s₀.clks ClockRate) := by
  rw [← receiver_state hb, ← hb.clks_eq t]
  rfl

theorem completedByte_run (t : Nat) : (state ClockRate s₀ inp t).completedByte ClockRate =
    (Receiver.run (s₀.clks ClockRate) s₀.receiver (fun t => (inp t).rxI) t).completed
      (s₀.clks ClockRate) (inp t).rxI := by
  rw [← receiver_state hb, ← hb.clks_eq t]
  rfl

theorem rxSync0_run (t : Nat) : (state ClockRate s₀ inp t).rxSync0 =
    (Receiver.run (s₀.clks ClockRate) s₀.receiver (fun t => (inp t).rxI) t).rxSync0 := by
  rw [← receiver_state hb]
  rfl

/-- Up to the first high tick the receiver waits in STOP. -/
theorem EighthSample.waits (hN : 0 < N) (hs : EighthSample ClockRate s₀ inp s) (hlt : s < e)
    (hlow : ∀ c, s < c → c < e → N ∣ c - s → (state ClockRate s₀ inp c).rxSync0 = false) :
    Receiver.Waits ((e - s - 1) % N)
      (Receiver.run (s₀.clks ClockRate) s₀.receiver (fun t => (inp t).rxI) e) := by
  obtain ⟨d, rfl⟩ := Nat.exists_eq_add_of_lt hlt
  rw [show s + d + 1 = s + 1 + d by omega] at hlow ⊢
  rw [show s + 1 + d - s - 1 = d by omega]
  have hn : (s₀.clks ClockRate).toNat = N := hb 0
  exact Receiver.waits_run hn hN ((eighthSample_iff hb s).1 hs) d fun c hc hd hdvd => by
    rw [← rxSync0_run hb]
    exact hlow c hc hd hdvd

/-- The first high tick completes a byte. -/
theorem FirstHigh.completes (hN : 0 < N) (hs : EighthSample ClockRate s₀ inp s)
    (hfirst : FirstHigh ClockRate s₀ inp N s e) :
    (state ClockRate s₀ inp e).completedByte ClockRate ≠ [] := by
  obtain ⟨hlt, hdvd, hhigh, hlow⟩ := hfirst
  have hn : (s₀.clks ClockRate).toNat = N := hb 0
  have hwait := hs.waits hb hN hlt hlow
  rw [completedByte_run hb, Receiver.completed_ne_nil, ← rxSync0_run hb]
  refine ⟨hwait.state, ?_, hhigh⟩
  rw [Receiver.rxBaud_iff hn hN, hwait.counter]
  obtain ⟨m, hm⟩ := hdvd
  obtain ⟨m, rfl⟩ : ∃ m', m = m' + 1 := Nat.exists_eq_succ_of_ne_zero (by rintro rfl; omega)
  rw [Nat.mul_succ] at hm
  rw [show e - s - 1 = N - 1 + N * m by omega, Nat.add_mul_mod_self_left,
    Nat.mod_eq_of_lt (by omega)]
  omega

/-- A byte is appended at the first high tick after its eighth sample and at no other time. -/
theorem appendOf_iff (hN : 0 < N) (hs : EighthSample ClockRate s₀ inp s) :
    AppendOf ClockRate s₀ inp s e ↔
      FirstHigh ClockRate s₀ inp N s e ∧ (state ClockRate s₀ inp e).rxFull = false := by
  constructor
  · rintro ⟨-, hlt, hlast, hdone, hroom⟩
    rw [completedByte_run hb, Receiver.completed_ne_nil, ← rxSync0_run hb] at hdone
    obtain ⟨hstop, hbaud, hhigh⟩ := hdone
    have hlow : ∀ c, s < c → c < e → N ∣ c - s → (state ClockRate s₀ inp c).rxSync0 = false := by
      intro c hsc hce hdvd
      by_contra hne
      -- the byte would have been completed at the first high tick, and STOP left for good
      obtain ⟨e', he', hfirst⟩ := exists_firstHigh hsc hdvd (by simpa using hne)
      have hleft := hfirst.completes hb hN hs
      rw [completedByte_run hb] at hleft
      rcases Receiver.takesLast_of_stop (show e' + 1 ≤ e by omega) hstop with hst | ⟨c', hc', hce', hsample, -⟩
      · exact Receiver.rxState_step_completed hleft hst
      · have := hfirst.lt
        exact hlast c' (by omega) hce' ((eighthSample_iff hb c').2 hsample)
    have hn : (s₀.clks ClockRate).toNat = N := hb 0
    have hwait := hs.waits hb hN hlt hlow
    rw [Receiver.rxBaud_iff hn hN, hwait.counter] at hbaud
    refine ⟨⟨hlt, ?_, hhigh, hlow⟩, hroom⟩
    rw [show e - s = e - s - 1 + 1 by omega]
    refine Nat.dvd_of_mod_eq_zero ?_
    rw [← Nat.mod_add_mod, hbaud, Nat.mod_self]
  · rintro ⟨hfirst, hroom⟩
    refine ⟨hs, hfirst.lt, fun c hsc hce hsample => ?_, hfirst.completes hb hN hs, hroom⟩
    have hwait := hs.waits hb hN hsc fun c' hsc' hc' => hfirst.low c' hsc' (by omega)
    have hdata := ((eighthSample_iff hb c).1 hsample).1
    rw [hwait.state] at hdata
    cases hdata

/-- Every byte appended belongs to an eighth sample, unless the run begins in STOP. -/
theorem exists_appendOf (hst : s₀.rxState ≠ .stop) (he : Appends ClockRate s₀ inp e) :
    ∃ s, AppendOf ClockRate s₀ inp s e := by
  have hdone := he.1
  rw [completedByte_run hb, Receiver.completed_ne_nil] at hdone
  rcases Receiver.takesLast_of_stop (Nat.zero_le e) hdone.1 with hstop | ⟨s, -, hse, hsample, hlast⟩
  · exact absurd hstop hst
  · exact ⟨s, (eighthSample_iff hb s).2 hsample, hse,
      fun c hsc hce hc => hlast c hsc hce ((eighthSample_iff hb c).1 hc), he⟩

end

end UartRun

open UartRun

/-- With the baud held, whatever the line shows: every byte appended had a high stop bit, one bit time
after its eighth data bit, exactly when the RX ring is full at the first high tick after every low one. -/
theorem uart_stop_bit (hN : 0 < N) (hb : BaudHeld ClockRate s₀ inp N) :
    ((∀ s e, AppendOf ClockRate s₀ inp s e → (state ClockRate s₀ inp (s + N)).rxSync0 = true) ↔
      ∀ s e, EighthSample ClockRate s₀ inp s → (state ClockRate s₀ inp (s + N)).rxSync0 = false →
        FirstHigh ClockRate s₀ inp N s e → (state ClockRate s₀ inp e).rxFull = true) ∧
      (s₀.rxState ≠ .stop → ∀ e, Appends ClockRate s₀ inp e → ∃ s, AppendOf ClockRate s₀ inp s e) := by
  refine ⟨⟨fun h s e hs hlow hfirst => ?_, fun h s e happ => ?_⟩, fun hst e => exists_appendOf hb hst⟩
  · by_contra hroom
    have hhigh := h s e ((appendOf_iff hb hN hs).2 ⟨hfirst, by simpa using hroom⟩)
    rw [hlow] at hhigh
    cases hhigh
  · obtain ⟨hfirst, hroom⟩ := (appendOf_iff hb hN happ.sample).1 happ
    by_contra hlow
    have hfull := h s e happ.sample (by simpa using hlow) hfirst
    rw [hroom] at hfull
    cases hfull

/-- No accesses; the line shows `L`. -/
def lineOnly (L : Nat → Bool) (t : Nat) : UartIn where
  rxI := L t
  reqI := false
  addrI := 0
  weI := false
  beI := 0
  wdataI := 0
  padding := 0

theorem lineOnly_baudHeld {L : Nat → Bool} : BaudHeld 50000000 idleUart (lineOnly L) 217 :=
  baudHeld_of_no_write (by decide) fun _ hr => absurd hr (by simp [lineOnly])

/-- A break: the line is low for 2200 cycles, more than ten bits of 217, and high again after that. -/
def breakLine (t : Nat) : Bool := 2200 ≤ t

theorem breakLine_low {t : Nat} (h : t < 2200) : breakLine t = false := decide_eq_false (by omega)

section
variable (hn : (idleUart.clks 50000000).toNat = 217)
include hn

/-- The eighth low bit is taken in cycle 1848. -/
theorem breakLine_takesLast :
    (Receiver.run (idleUart.clks 50000000) idleUart.receiver breakLine 1848).TakesLast
      (idleUart.clks 50000000) := by
  have hready : Receiver.Ready idleUart.receiver := Receiver.ready_of_idle rfl rfl rfl rfl
  obtain ⟨col, ht, -⟩ := hready.start (L := breakLine) hn (by decide) fun t ht => breakLine_low (by omega)
  rw [show sampleBase 217 idleUart.receiver.rxBaudCounter.toNat = 113 from rfl] at ht
  obtain ⟨col₇, ht₇, -, -⟩ := ht.bits (L := fun t => breakLine (113 + t)) hn (by decide) (j := 7) (by decide)
  obtain ⟨hlast, -⟩ := ht₇.wait (L := fun t => breakLine (113 + (7 * 217 + t))) hn (by decide)
    (by decide) (d := 216) (by decide) (by decide)
  rw [← Receiver.run_add (L := fun t => breakLine (113 + t)), ← Receiver.run_add (L := breakLine)] at hlast
  rw [show 1848 = 113 + (7 * 217 + 216) from rfl]
  exact ⟨hlast.state, (Receiver.rxBaud_iff hn (by decide)).2 (by rw [hlast.counter]), hlast.count⟩

/-- In cycle 2282 the receiver holds the byte 0 and samples the stop bit for the second time. -/
theorem breakLine_second_tick :
    Receiver.Timing .stop 0 0 216 (Receiver.run (idleUart.clks 50000000) idleUart.receiver breakLine 2282) ∧
      Receiver.received (idleUart.clks 50000000) idleUart.receiver breakLine 2282 = [] := by
  have hready : Receiver.Ready idleUart.receiver := Receiver.ready_of_idle rfl rfl rfl rfl
  obtain ⟨T, col, hT, ht₈, hbits, hrec₈⟩ := hready.collects (L := breakLine) hn (by decide) fun t ht =>
    breakLine_low (by omega)
  obtain rfl : T = 113 := hT
  obtain ⟨ht₉, hrec₉⟩ := ht₈.stop_low (L := fun t => breakLine (113 + 8 * 217 + t)) hn (by decide)
    (breakLine_low (by decide))
  obtain ⟨htick, hrec⟩ := ht₉.wait (L := fun t => breakLine (113 + 8 * 217 + (217 + t))) hn (by decide)
    (by decide) (d := 216) (by decide) (by decide)
  have hcol : col = 0 := BitVec.eq_of_getLsbD_eq fun i hi => by
    rw [hbits i hi, breakLine_low (by omega)]
    exact BitVec.getLsbD_zero.symm
  subst hcol
  rw [← Receiver.run_add (L := fun t => breakLine (113 + 8 * 217 + t)), ← Receiver.run_add (L := breakLine)] at htick
  refine ⟨htick, ?_⟩
  rw [show 2282 = 113 + 8 * 217 + (217 + 216) from rfl, Receiver.received_add (113 + 8 * 217),
    Receiver.received_add 217, hrec₈, hrec₉, hrec]
  rfl

end

/-- The stop bit of the break is low, and the first high tick after it comes in cycle 2282 and finds room. -/
theorem breakLine_firstHigh : EighthSample 50000000 idleUart (lineOnly breakLine) 1848 ∧
    FirstHigh 50000000 idleUart (lineOnly breakLine) 217 1848 2282 ∧
    (state 50000000 idleUart (lineOnly breakLine) 2282).rxFull = false ∧
    (state 50000000 idleUart (lineOnly breakLine) (1848 + 217)).rxSync0 = false := by
  have hb : BaudHeld 50000000 idleUart (lineOnly breakLine) 217 := lineOnly_baudHeld
  have hn : (idleUart.clks 50000000).toNat = 217 := hb 0
  have hsync : ∀ t ≥ 2, (state 50000000 idleUart (lineOnly breakLine) t).rxSync0 = breakLine (t - 2) :=
    fun t ht => by
      obtain ⟨t, rfl⟩ := Nat.exists_eq_add_of_le' ht
      rw [rxSync0_run hb]
      exact Receiver.rxSync0_run t
  refine ⟨(eighthSample_iff hb 1848).2 (breakLine_takesLast hn), ⟨by decide, by decide, ?_, ?_⟩, ?_, ?_⟩
  · rw [hsync 2282 (by decide)]
    exact decide_eq_true (by decide)
  · intro c hc hc' hdvd
    rw [hsync c (by omega)]
    exact breakLine_low (by omega)
  · obtain ⟨-, hrec⟩ := breakLine_second_tick hn
    refine rxFull_eq_false (lt_of_le_of_lt (length_rxContents_le rfl 2282) ?_)
    rw [completed_eq hb]
    exact lt_of_le_of_lt (le_of_eq (congrArg List.length hrec)) (by decide)
  · rw [hsync (1848 + 217) (by decide)]
    exact breakLine_low (by decide)

/-- On a line that stays high every byte appended has its stop bit; the byte of the break belongs to an eighth
sample. -/
theorem uart_stop_bit_lines :
    (∀ s e, AppendOf 50000000 idleUart (lineOnly fun _ => true) s e →
      (state 50000000 idleUart (lineOnly fun _ => true) (s + 217)).rxSync0 = true) ∧
      ∃ s, AppendOf 50000000 idleUart (lineOnly breakLine) s 2282 := by
  refine ⟨(uart_stop_bit (by decide) lineOnly_baudHeld).1.2 fun s e hs _ _ => ?_, ?_⟩
  · have hready : Receiver.Ready idleUart.receiver := Receiver.ready_of_idle rfl rfl rfl rfl
    have hidle : Receiver.Ready (Receiver.run (idleUart.clks 50000000) idleUart.receiver (fun _ => true) s) :=
      (hready.wait fun _ _ => rfl).1
    have hdata := ((eighthSample_iff lineOnly_baudHeld s).1 hs).1
    exact absurd (hdata.symm.trans hidle.state) (by decide)
  · obtain ⟨hsample, hfirst, hroom, -⟩ := breakLine_firstHigh
    exact (uart_stop_bit (by decide) lineOnly_baudHeld).2 (by decide) 2282
      ⟨hfirst.completes lineOnly_baudHeld (by decide) hsample, hroom⟩

/-- The receiver takes eight low bits, finds the stop bit low, and appends the byte 0 one bit later. -/
theorem break_appends : AppendOf 50000000 idleUart (lineOnly breakLine) 1848 2282 ∧
    (state 50000000 idleUart (lineOnly breakLine) 2282).completedByte 50000000 = [0] ∧
    (state 50000000 idleUart (lineOnly breakLine) (1848 + 217)).rxSync0 = false := by
  have hb : BaudHeld 50000000 idleUart (lineOnly breakLine) 217 := lineOnly_baudHeld
  obtain ⟨hsample, hfirst, hroom, hlow⟩ := breakLine_firstHigh
  refine ⟨(appendOf_iff hb (by decide) hsample).2 ⟨hfirst, hroom⟩, ?_, hlow⟩
  have hdone := hfirst.completes hb (by decide) hsample
  have hline : (fun t => (lineOnly breakLine t).rxI) = breakLine := rfl
  rw [completedByte_run hb, hline] at hdone ⊢
  exact Receiver.completed_of_ne_nil hdone (breakLine_second_tick (hb 0)).1.collecting

end PenPlotter
