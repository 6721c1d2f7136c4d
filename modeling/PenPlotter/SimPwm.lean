import PenPlotter.Clocked
import Mathlib.Data.BitVec
import Mathlib.Data.Nat.Count
import Mathlib.Data.Rat.Defs

/-!
# The simulated PWM decoder (`dv/verilator/peripherals/sim_pwm.hpp`)

`PWMDecoder` counts the high and the low ticks since its last report and reports them at every rising edge
but the first one after reset or after a timeout. That first edge does not clear the counters, so the idle
ticks before it end up in the first report (`periodic_reported_iff`).
-/

namespace PenPlotter

inductive PWMKind
  | periodic | stable
deriving DecidableEq

/-- The `double` is taken as a rational. -/
structure PWMInfo where
  kind : PWMKind
  period : Nat
  onDuration : Nat
  offDuration : Nat
  duty : ℚ
deriving DecidableEq

structure PWMDecoder where
  stableCounter : Nat
  prevRisingEdge : Bool
  onActive : Bool
  onDuration : Nat
  offDuration : Nat
  prevPwm : BitVec 8

namespace PWMDecoder

def stableTimeout : Nat := 1000000

def reset : PWMDecoder := ⟨0, false, false, 0, 0, 0⟩

variable (d : PWMDecoder) (pwm : BitVec 8)

/-- `if (pwm != prev_pwm) { … }`, with what it notifies. -/
def edge : PWMDecoder × List PWMInfo :=
  if pwm ≠ d.prevPwm then
    if pwm = 0 ∧ d.prevPwm = 1 then ({ d with onActive := false, stableCounter := 0 }, [])
    else if pwm = 1 ∧ d.prevPwm = 0 then
      if !d.onActive && d.prevRisingEdge then
        let period := d.onDuration + d.offDuration
        ({ d with
            offDuration := 0, onDuration := 0, prevRisingEdge := true, onActive := true, stableCounter := 0 },
          [⟨.periodic, period, d.onDuration, d.offDuration, d.onDuration / period⟩])
      else ({ d with prevRisingEdge := true, onActive := true, stableCounter := 0 }, [])
    else ({ d with stableCounter := 0 }, [])
  else ({ d with stableCounter := d.stableCounter + 1 }, [])

def count : PWMDecoder :=
  if d.onActive then { d with onDuration := d.onDuration + 1 } else { d with offDuration := d.offDuration + 1 }

/-- `if (stable_counter >= stable_timeout) { … }`, with what it notifies. -/
def timeout : PWMDecoder × List PWMInfo :=
  if stableTimeout ≤ d.stableCounter then
    ({ d with prevRisingEdge := false, onDuration := 0, offDuration := 0, stableCounter := 0 },
      [⟨.stable, 0, 0, 0, if pwm = 0 then 0 else 1⟩])
  else (d, [])

def tick : PWMDecoder := { (((d.edge pwm).1.count).timeout pwm).1 with prevPwm := pwm }

/-- What `notify` is called with in this tick. -/
def notified : List PWMInfo := (d.edge pwm).2 ++ (((d.edge pwm).1.count).timeout pwm).2

end PWMDecoder

section

variable (w : Nat → Bool)

/-- A sample of the waveform. -/
def sample (b : Bool) : BitVec 8 := if b then 1 else 0

/-- The level before tick `t`; the line is low in reset. -/
def levelBefore : Nat → Bool
  | 0 => false
  | t + 1 => w t

def Rising (t : Nat) : Prop := levelBefore w t = false ∧ w t = true

/-- The ticks before `t` since the last change. -/
def quiet : Nat → Nat
  | 0 => 0
  | t + 1 => if w t = levelBefore w t then quiet t + 1 else 0

/-- The level has been the same for a multiple of the timeout. -/
def Timeout (t : Nat) : Prop := 0 < quiet w (t + 1) ∧ PWMDecoder.stableTimeout ∣ quiet w (t + 1)

/-- The high ticks from `a` on before `b`. -/
def highs (a b : Nat) : Nat := Nat.count (fun j => w (a + j) = true) (b - a)

def lows (a b : Nat) : Nat := Nat.count (fun j => w (a + j) = false) (b - a)

/-- `P` holds nowhere from `a` on before `b`. -/
def NoneIn (P : Nat → Prop) (a b : Nat) : Prop := ∀ j, a ≤ j → j < b → ¬P j

/-- `r` is the last rising edge before `t`. -/
structure LastRising (r t : Nat) : Prop where
  lt : r < t
  rising : Rising w r
  last : NoneIn (Rising w) (r + 1) t

/-- No tick before the rising edge at `r` is counted with it: it is the first tick after reset or after a
timeout, or another rising edge has come before it since. -/
def Counted (r : Nat) : Prop :=
  r = 0 ∨ (∃ t, r = t + 1 ∧ Timeout w t) ∨ ∃ r' < r, Rising w r' ∧ NoneIn (Timeout w) r' r

/-- The decoder before tick `t`. -/
def servoRun : Nat → PWMDecoder := Clocked.run PWMDecoder.tick .reset fun t => sample (w t)

/-- What tick `t` notifies. -/
def servoNotified (t : Nat) : List PWMInfo := (servoRun w t).notified (sample (w t))

end

section

variable {w : Nat → Bool} {a b t : Nat}

theorem NoneIn.succ {P : Nat → Prop} (h : NoneIn P a b) (hb : ¬P b) : NoneIn P a (b + 1) := by
  intro j ha hj
  rcases Nat.lt_succ_iff_lt_or_eq.1 hj with hlt | rfl
  · exact h j ha hlt
  · exact hb

theorem noneIn_self {P : Nat → Prop} : NoneIn P a a := by
  intro j ha hj
  omega

@[simp] theorem highs_self : highs w a a = 0 := by simp [highs]

@[simp] theorem lows_self : lows w a a = 0 := by simp [lows]

theorem highs_succ (h : a ≤ b) : highs w a (b + 1) = highs w a b + (w b).toNat := by
  have hlen : b + 1 - a = b - a + 1 := by omega
  have hlast : a + (b - a) = b := by omega
  rw [highs, hlen, Nat.count_succ, hlast, highs]
  cases w b <;> rfl

theorem lows_succ (h : a ≤ b) : lows w a (b + 1) = lows w a b + (!w b).toNat := by
  have hlen : b + 1 - a = b - a + 1 := by omega
  have hlast : a + (b - a) = b := by omega
  rw [lows, hlen, Nat.count_succ, hlast, lows]
  cases w b <;> rfl

theorem highs_add_lows (h : a ≤ b) : highs w a b + lows w a b = b - a := by
  induction b, h using Nat.le_induction with
  | base => simp
  | succ b h ih =>
    rw [highs_succ h, lows_succ h]
    cases w b <;> simp <;> omega

namespace PWMDecoder

/-- The decoder agrees with the line, whose level is `b`. -/
structure Level (b : Bool) (d : PWMDecoder) : Prop where
  prevPwm : d.prevPwm = sample b
  onActive : d.onActive = b

variable {d : PWMDecoder} {b : Bool}

theorem tick_same (h : d.Level b) (hlt : d.stableCounter + 1 < stableTimeout) :
    d.tick (sample b) =
      { d with
        stableCounter := d.stableCounter + 1, onDuration := d.onDuration + b.toNat,
        offDuration := d.offDuration + (!b).toNat } ∧
    d.notified (sample b) = [] := by
  obtain ⟨hprev, hon⟩ := h
  have hn : ¬stableTimeout ≤ d.stableCounter + 1 := by omega
  cases b <;> simp [tick, notified, edge, count, timeout, hprev, hon, hn]

theorem tick_timeout (h : d.Level b) (hge : stableTimeout ≤ d.stableCounter + 1) :
    d.tick (sample b) =
      { d with stableCounter := 0, prevRisingEdge := false, onDuration := 0, offDuration := 0 } ∧
    d.notified (sample b) = [⟨.stable, 0, 0, 0, if b then 1 else 0⟩] := by
  obtain ⟨hprev, hon⟩ := h
  cases b <;> simp [tick, notified, edge, count, timeout, hprev, hon, hge, sample]

theorem tick_falling (h : d.Level true) :
    d.tick (sample false) =
      { d with stableCounter := 0, onActive := false, offDuration := d.offDuration + 1, prevPwm := sample false } ∧
    d.notified (sample false) = [] := by
  obtain ⟨hprev, hon⟩ := h
  simp [tick, notified, edge, count, timeout, hprev, sample, stableTimeout]

theorem tick_first (h : d.Level false) (hpre : d.prevRisingEdge = false) :
    d.tick (sample true) =
      { d with
        stableCounter := 0, prevRisingEdge := true, onActive := true, onDuration := d.onDuration + 1,
        prevPwm := sample true } ∧
    d.notified (sample true) = [] := by
  obtain ⟨hprev, hon⟩ := h
  simp [tick, notified, edge, count, timeout, hprev, hpre, sample, stableTimeout]

theorem tick_report (h : d.Level false) (hpre : d.prevRisingEdge = true) :
    d.tick (sample true) =
      { d with
        stableCounter := 0, prevRisingEdge := true, onActive := true, onDuration := 1, offDuration := 0,
        prevPwm := sample true } ∧
    d.notified (sample true) =
      [⟨.periodic, d.onDuration + d.offDuration, d.onDuration, d.offDuration,
        d.onDuration / (d.onDuration + d.offDuration : Nat)⟩] := by
  obtain ⟨hprev, hon⟩ := h
  simp [tick, notified, edge, count, timeout, hprev, hon, hpre, sample, stableTimeout]

end PWMDecoder

/-! ### The invariant -/

/-- `g` is the first tick since reset or since the last timeout before `t`. -/
structure SegmentStart (w : Nat → Bool) (g t : Nat) : Prop where
  le : g ≤ t
  start : g = 0 ∨ ∃ τ, g = τ + 1 ∧ Timeout w τ
  none : NoneIn (Timeout w) g t

/-- The durations count the ticks from `k` on. -/
structure CountsFrom (w : Nat → Bool) (k t : Nat) (d : PWMDecoder) : Prop where
  onDuration : d.onDuration = highs w k t
  offDuration : d.offDuration = lows w k t

/-- What the durations count: everything since the start of the segment, until its second rising edge. -/
inductive Counting (w : Nat → Bool) (t : Nat) (d : PWMDecoder) : Prop
  | idle {g : Nat} (hg : SegmentStart w g t) (hpre : d.prevRisingEdge = false) (hnone : NoneIn (Rising w) g t)
      (hcounts : CountsFrom w g t d)
  | first {g r : Nat} (hg : SegmentStart w g t) (hpre : d.prevRisingEdge = true) (hle : g ≤ r)
      (hr : LastRising w r t) (hnone : NoneIn (Rising w) g r) (hcounts : CountsFrom w g t d)
  | later {g r' r : Nat} (hg : SegmentStart w g t) (hpre : d.prevRisingEdge = true) (hle : g ≤ r') (hlt : r' < r)
      (hr' : Rising w r') (hr : LastRising w r t) (hcounts : CountsFrom w r t d)

structure PwmInv (w : Nat → Bool) (t : Nat) (d : PWMDecoder) : Prop where
  level : d.Level (levelBefore w t)
  stableCounter : d.stableCounter = quiet w t % PWMDecoder.stableTimeout
  phase : Counting w t d

variable {d d' : PWMDecoder} {g k r : Nat}

theorem SegmentStart.succ (h : SegmentStart w g t) (hto : ¬Timeout w t) : SegmentStart w g (t + 1) :=
  ⟨Nat.le_succ_of_le h.le, h.start, h.none.succ hto⟩

theorem LastRising.succ (h : LastRising w r t) (hr : ¬Rising w t) : LastRising w r (t + 1) :=
  ⟨Nat.lt_succ_of_lt h.lt, h.rising, h.last.succ hr⟩

theorem LastRising.of_rising (h : Rising w t) : LastRising w t (t + 1) := ⟨Nat.lt_succ_self t, h, noneIn_self⟩

theorem CountsFrom.succ (h : CountsFrom w k t d) (hk : k ≤ t) (hon : d'.onDuration = d.onDuration + (w t).toNat)
    (hoff : d'.offDuration = d.offDuration + (!w t).toNat) : CountsFrom w k (t + 1) d' := by
  constructor
  · rw [hon, h.onDuration, highs_succ hk]
  · rw [hoff, h.offDuration, lows_succ hk]

theorem not_timeout (hne : w t ≠ levelBefore w t) : ¬Timeout w t := by
  have hquiet : quiet w (t + 1) = 0 := if_neg hne
  simp [Timeout, hquiet]

theorem Rising.not_timeout (h : Rising w t) : ¬Timeout w t := PenPlotter.not_timeout (by rw [h.1, h.2]; decide)

theorem not_rising (hsame : w t = levelBefore w t) : ¬Rising w t := by
  rintro ⟨hlow, hhigh⟩
  rw [hsame, hlow] at hhigh
  cases hhigh

/-- A tick with no rising edge and no timeout only counts. -/
theorem Counting.count (h : Counting w t d) (hr : ¬Rising w t) (hto : ¬Timeout w t)
    (hpre : d'.prevRisingEdge = d.prevRisingEdge) (hon : d'.onDuration = d.onDuration + (w t).toNat)
    (hoff : d'.offDuration = d.offDuration + (!w t).toNat) : Counting w (t + 1) d' := by
  cases h with
  | idle hg hp hnone hc => exact .idle (hg.succ hto) (hpre.trans hp) (hnone.succ hr) (hc.succ hg.le hon hoff)
  | first hg hp hle hlast hnone hc =>
    exact .first (hg.succ hto) (hpre.trans hp) hle (hlast.succ hr) hnone (hc.succ hg.le hon hoff)
  | later hg hp hle hlt hr' hlast hc =>
    exact .later (hg.succ hto) (hpre.trans hp) hle hlt hr' (hlast.succ hr) (hc.succ hlast.lt.le hon hoff)

/-- A rising edge starts the counts over if it is not the first one of its segment. -/
theorem Counting.rise (h : Counting w t d) (hr : Rising w t) (hpre : d'.prevRisingEdge = true)
    (hfirst : d.prevRisingEdge = false → d'.onDuration = d.onDuration + 1 ∧ d'.offDuration = d.offDuration)
    (hlater : d.prevRisingEdge = true → d'.onDuration = 1 ∧ d'.offDuration = 0) : Counting w (t + 1) d' := by
  have hto := hr.not_timeout
  have hlast := LastRising.of_rising hr
  have hover (hp : d.prevRisingEdge = true) : CountsFrom w t (t + 1) d' := by
    obtain ⟨hon, hoff⟩ := hlater hp
    constructor
    · rw [hon, highs_succ (Nat.le_refl t), hr.2, highs_self]
      rfl
    · rw [hoff, lows_succ (Nat.le_refl t), hr.2, lows_self]
      rfl
  cases h with
  | idle hg hp hnone hc =>
    obtain ⟨hon, hoff⟩ := hfirst hp
    refine .first (hg.succ hto) hpre hg.le hlast hnone (hc.succ hg.le ?_ ?_) <;> rw [hr.2]
    · exact hon
    · exact hoff
  | first hg hp hle hr' hnone hc => exact .later (hg.succ hto) hpre hle hr'.lt hr'.rising hlast (hover hp)
  | later hg hp hle hlt hr' hr'' hc =>
    exact .later (hg.succ hto) hpre (hle.trans hlt.le) hr''.lt hr''.rising hlast (hover hp)

theorem PwmInv.timeout_iff (h : PwmInv w t d) (hsame : w t = levelBefore w t) :
    Timeout w t ↔ PWMDecoder.stableTimeout ≤ d.stableCounter + 1 := by
  have hquiet : quiet w (t + 1) = quiet w t + 1 := if_pos hsame
  have hsc := h.stableCounter
  simp only [Timeout, hquiet, PWMDecoder.stableTimeout] at *
  omega

/-- What a tick does to the decoder and notifies. -/
inductive PwmTick (w : Nat → Bool) (t : Nat) (d : PWMDecoder) : PWMDecoder → List PWMInfo → Prop
  | hold (hsame : w t = levelBefore w t) (hto : ¬Timeout w t) :
    PwmTick w t d
      { d with
        stableCounter := d.stableCounter + 1, onDuration := d.onDuration + (w t).toNat,
        offDuration := d.offDuration + (!w t).toNat }
      []
  | timeout (hsame : w t = levelBefore w t) (hto : Timeout w t) :
    PwmTick w t d { d with stableCounter := 0, prevRisingEdge := false, onDuration := 0, offDuration := 0 }
      [⟨.stable, 0, 0, 0, if w t then 1 else 0⟩]
  | fall (hbefore : levelBefore w t = true) (hb : w t = false) :
    PwmTick w t d
      { d with stableCounter := 0, onActive := false, offDuration := d.offDuration + 1, prevPwm := sample false } []
  | first (hr : Rising w t) (hpre : d.prevRisingEdge = false) :
    PwmTick w t d
      { d with
        stableCounter := 0, prevRisingEdge := true, onActive := true, onDuration := d.onDuration + 1,
        prevPwm := sample true }
      []
  | report (hr : Rising w t) (hpre : d.prevRisingEdge = true) :
    PwmTick w t d
      { d with
        stableCounter := 0, prevRisingEdge := true, onActive := true, onDuration := 1, offDuration := 0,
        prevPwm := sample true }
      [⟨.periodic, d.onDuration + d.offDuration, d.onDuration, d.offDuration,
        d.onDuration / (d.onDuration + d.offDuration : Nat)⟩]

theorem PwmInv.tick (h : PwmInv w t d) : PwmTick w t d (d.tick (sample (w t))) (d.notified (sample (w t))) := by
  by_cases hsame : w t = levelBefore w t
  · have hlevel : d.Level (w t) := hsame ▸ h.level
    have hto := h.timeout_iff hsame
    by_cases hge : PWMDecoder.stableTimeout ≤ d.stableCounter + 1
    · obtain ⟨htick, hnotified⟩ := PWMDecoder.tick_timeout hlevel hge
      rw [htick, hnotified]
      exact .timeout hsame (hto.2 hge)
    · obtain ⟨htick, hnotified⟩ := PWMDecoder.tick_same hlevel (by omega)
      rw [htick, hnotified]
      exact .hold hsame (mt hto.1 hge)
  · cases hb : w t with
    | false =>
      have hbefore : levelBefore w t = true := by simpa [hb] using Ne.symm hsame
      obtain ⟨htick, hnotified⟩ := PWMDecoder.tick_falling (hbefore ▸ h.level)
      rw [htick, hnotified]
      exact .fall hbefore hb
    | true =>
      have hbefore : levelBefore w t = false := by simpa [hb] using Ne.symm hsame
      have hlevel : d.Level false := hbefore ▸ h.level
      cases hpre : d.prevRisingEdge with
      | false =>
        obtain ⟨htick, hnotified⟩ := PWMDecoder.tick_first hlevel hpre
        rw [htick, hnotified]
        exact .first ⟨hbefore, hb⟩ hpre
      | true =>
        obtain ⟨htick, hnotified⟩ := PWMDecoder.tick_report hlevel hpre
        rw [htick, hnotified]
        exact .report ⟨hbefore, hb⟩ hpre

theorem PwmInv.step (h : PwmInv w t d) : PwmInv w (t + 1) (d.tick (sample (w t))) := by
  have htick := h.tick
  have hsc := h.stableCounter
  generalize d.tick _ = d', d.notified _ = reports at htick ⊢
  cases htick with
  | hold hsame hto =>
    have hlevel : d.Level (w t) := hsame ▸ h.level
    refine ⟨⟨hlevel.prevPwm, hlevel.onActive⟩, ?_, h.phase.count (not_rising hsame) hto rfl rfl rfl⟩
    have hquiet : quiet w (t + 1) = quiet w t + 1 := if_pos hsame
    simp only [Timeout, hquiet, PWMDecoder.stableTimeout] at *
    omega
  | timeout hsame hto =>
    have hlevel : d.Level (w t) := hsame ▸ h.level
    refine ⟨⟨hlevel.prevPwm, hlevel.onActive⟩, (Nat.mod_eq_zero_of_dvd hto.2).symm, ?_⟩
    exact .idle ⟨Nat.le_refl _, .inr ⟨t, rfl, hto⟩, noneIn_self⟩ rfl noneIn_self ⟨highs_self.symm, lows_self.symm⟩
  | fall hbefore hb =>
    have hne : w t ≠ levelBefore w t := by simp [hb, hbefore]
    have hquiet : quiet w (t + 1) = 0 := if_neg hne
    have hr : ¬Rising w t := by simp [Rising, hb]
    refine ⟨⟨congrArg sample hb.symm, hb.symm⟩, by rw [hquiet]; rfl, ?_⟩
    exact h.phase.count hr (not_timeout hne) rfl (by rw [hb]; rfl) (by rw [hb]; rfl)
  | first hr hpre =>
    have hquiet : quiet w (t + 1) = 0 := if_neg (by rw [hr.1, hr.2]; decide)
    refine ⟨⟨congrArg sample hr.2.symm, hr.2.symm⟩, by rw [hquiet]; rfl, ?_⟩
    exact h.phase.rise hr rfl (fun _ => ⟨rfl, rfl⟩) fun hlater => absurd (hpre.symm.trans hlater) (by decide)
  | report hr hpre =>
    have hquiet : quiet w (t + 1) = 0 := if_neg (by rw [hr.1, hr.2]; decide)
    refine ⟨⟨congrArg sample hr.2.symm, hr.2.symm⟩, by rw [hquiet]; rfl, ?_⟩
    exact h.phase.rise hr rfl (fun hfirst => absurd (hpre.symm.trans hfirst) (by decide)) fun _ => ⟨rfl, rfl⟩

theorem servoRun_inv (t : Nat) : PwmInv w t (servoRun w t) := by
  induction t with
  | zero =>
    refine ⟨⟨rfl, rfl⟩, rfl, .idle ⟨Nat.le_refl 0, .inl rfl, noneIn_self⟩ rfl noneIn_self ?_⟩
    exact ⟨highs_self.symm, lows_self.symm⟩
  | succ t ih => exact ih.step

/-- A tick with a report of a period is a rising edge of a segment that has had one. -/
theorem PwmInv.periodic (h : PwmInv w t d) {i : PWMInfo} (hi : i ∈ d.notified (sample (w t)))
    (hkind : i.kind = .periodic) :
    Rising w t ∧ d.prevRisingEdge = true ∧ i.period = d.onDuration + d.offDuration ∧
      i.onDuration = d.onDuration ∧ i.offDuration = d.offDuration := by
  have htick := h.tick
  generalize d.tick _ = d', d.notified _ = reports at htick hi
  cases htick with
  | timeout hsame hto =>
    obtain rfl := List.mem_singleton.1 hi
    cases hkind
  | report hr hpre =>
    obtain rfl := List.mem_singleton.1 hi
    exact ⟨hr, hpre, rfl, rfl, rfl⟩
  | _ => cases hi

/-- A STABLE report comes exactly after a timeout. -/
theorem stable_reported_iff (w : Nat → Bool) (t : Nat) :
    (∃ i ∈ servoNotified w t, i.kind = .stable) ↔ Timeout w t := by
  have htick := (servoRun_inv (w := w) t).tick
  rw [servoNotified]
  generalize (servoRun w t).tick _ = d', (servoRun w t).notified _ = reports at htick ⊢
  cases htick with
  | timeout hsame hto => exact iff_of_true ⟨_, List.mem_singleton_self _, rfl⟩ hto
  | hold hsame hto => simp [hto]
  | fall hbefore hb => simp [not_timeout (w := w) (t := t) (by rw [hb, hbefore]; decide)]
  | first hr hpre => simp [hr.not_timeout]
  | report hr hpre => simp [hr.not_timeout]

/-- The longest count in each phase, up to the last change of the line. -/
def durationBound (d : PWMDecoder) : Nat :=
  match d.prevRisingEdge, d.onActive with
  | false, true => 0
  | false, false => PWMDecoder.stableTimeout
  | true, true => 2 * PWMDecoder.stableTimeout
  | true, false => 3 * PWMDecoder.stableTimeout

/-- The durations stay far below the range of `size_t`. -/
theorem durations_le (w : Nat → Bool) (t : Nat) :
    (servoRun w t).onDuration + (servoRun w t).offDuration ≤
      durationBound (servoRun w t) + (servoRun w t).stableCounter + 1 := by
  induction t with
  | zero => exact Nat.zero_le _
  | succ t ih =>
    have hinv := servoRun_inv (w := w) t
    have htick := hinv.tick
    have hsc : (servoRun w t).stableCounter < PWMDecoder.stableTimeout := by
      rw [hinv.stableCounter]
      exact Nat.mod_lt _ (by decide)
    have hon := hinv.level.onActive
    have hsucc : servoRun w (t + 1) = (servoRun w t).tick (sample (w t)) := rfl
    rw [hsucc]
    generalize servoRun w t = d at *
    generalize d.tick _ = d', d.notified _ = reports at htick ⊢
    cases htick with
    | hold hsame hto =>
      have hone : (w t).toNat + (!w t).toNat = 1 := by cases w t <;> rfl
      simp only [durationBound] at ih ⊢
      omega
    | timeout hsame hto => simp
    | fall hbefore hb =>
      rw [hbefore] at hon
      cases hpre : d.prevRisingEdge <;> simp only [durationBound, hon, hpre] at ih ⊢ <;> omega
    | first hr hpre =>
      rw [hr.1] at hon
      simp only [durationBound, hon, hpre] at ih ⊢
      omega
    | report hr hpre => simp [durationBound]

/-- The report of a period describes the ticks from the rising edge at `r` on. -/
def PWMInfo.Describes (w : Nat → Bool) (r t : Nat) (i : PWMInfo) : Prop :=
  i.period = t - r ∧ i.onDuration = highs w r t ∧ i.offDuration = lows w r t

theorem describes_of_counts {i : PWMInfo} (hk : k ≤ t) (h : CountsFrom w k t d)
    (hperiod : i.period = d.onDuration + d.offDuration) (hon : i.onDuration = d.onDuration)
    (hoff : i.offDuration = d.offDuration) : i.Describes w k t := by
  refine ⟨?_, hon.trans h.onDuration, hoff.trans h.offDuration⟩
  rw [hperiod, h.onDuration, h.offDuration, highs_add_lows hk]

/-- The first rising edge of a segment is the first tick of it exactly if it is `Counted`. -/
theorem SegmentStart.counted_iff (h : SegmentStart w g t) (hle : g ≤ r) (hlt : r < t)
    (hnone : NoneIn (Rising w) g r) : Counted w r ↔ g = r := by
  constructor
  · rintro (rfl | ⟨τ, rfl, hτ⟩ | ⟨r', hr', hrise, hto⟩)
    · omega
    · by_contra hne
      exact h.none τ (by omega) (by omega) hτ
    · exfalso
      have hbefore : r' < g := by
        by_contra hge
        exact hnone r' (by omega) hr' hrise
      rcases h.start with rfl | ⟨τ, rfl, hτ⟩
      · omega
      · exact hto τ (by omega) (by omega) hτ
  · rintro rfl
    rcases h.start with h0 | hτ
    · exact .inl h0
    · exact .inr (.inl hτ)

/-- A period is reported right exactly when no tick before its first rising edge is counted with it. -/
theorem periodic_reported_iff (w : Nat → Bool) (t : Nat) :
    ∀ i ∈ servoNotified w t, i.kind = .periodic →
      ∃ r, LastRising w r t ∧ Rising w t ∧ (i.Describes w r t ↔ Counted w r) := by
  intro i hi hkind
  have hinv := servoRun_inv (w := w) t
  obtain ⟨hrise, hpre, hperiod, hon, hoff⟩ := hinv.periodic hi hkind
  cases hinv.phase with
  | idle hg hp hnone hc =>
    rw [hp] at hpre
    cases hpre
  | @first g r hg hp hle hr hnone hc =>
    refine ⟨r, hr, hrise, ?_⟩
    rw [hg.counted_iff hle hr.lt hnone]
    have hgt := describes_of_counts hg.le hc hperiod hon hoff
    have hlt := hr.lt
    constructor
    · rintro ⟨hperiod', -, -⟩
      have := hgt.1
      omega
    · rintro rfl
      exact hgt
  | @later g r' r hg hp hle hlt hr' hr hc =>
    have hbetween : NoneIn (Timeout w) r' r := by
      intro j hj hjr
      exact hg.none j (hle.trans hj) (hjr.trans hr.lt)
    refine ⟨r, hr, hrise, iff_of_true (describes_of_counts hr.lt.le hc hperiod hon hoff) ?_⟩
    exact .inr (.inr ⟨r', hlt, hr', hbetween⟩)

theorem first_pulse_reported : ∃ i ∈ servoNotified (fun t => t % 2 == 0) 2, i.period = 2 ∧
    ∃ r, LastRising (fun t => t % 2 == 0) r 2 ∧ Rising (fun t => t % 2 == 0) 2 ∧
      (i.Describes (fun t => t % 2 == 0) r 2 ↔ Counted (fun t => t % 2 == 0) r) := by
  have hi : ∃ i, servoNotified (fun t => t % 2 == 0) 2 = [i] ∧ i.kind = .periodic ∧ i.period = 2 := ⟨_, rfl, rfl, rfl⟩
  obtain ⟨i, hnotified, hkind, hperiod⟩ := hi
  have hmem : i ∈ servoNotified (fun t => t % 2 == 0) 2 := by
    rw [hnotified]
    exact List.mem_singleton_self i
  exact ⟨i, hmem, hperiod, periodic_reported_iff (fun t => t % 2 == 0) 2 i hmem hkind⟩

/-- One idle tick, then a waveform of period 2: the first report has the idle tick in it. -/
theorem idle_tick_reported :
    (servoNotified (fun t => t % 2 == 1) 3).map (fun i => (i.kind, i.period, i.onDuration, i.offDuration)) =
      [(.periodic, 3, 1, 2)] ∧
    LastRising (fun t => t % 2 == 1) 1 3 ∧
    ∀ i ∈ servoNotified (fun t => t % 2 == 1) 3, ¬i.Describes (fun t => t % 2 == 1) 1 3 := by
  refine ⟨rfl, ⟨by decide, by unfold Rising; decide, ?_⟩, ?_⟩
  · intro j hj hj3
    obtain rfl : j = 2 := by omega
    unfold Rising
    decide
  · intro i hi
    obtain rfl := List.mem_singleton.1 hi
    rintro ⟨hperiod, -, -⟩
    cases hperiod

end

end PenPlotter
