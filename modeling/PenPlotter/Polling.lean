import PenPlotter.StableInv
import Mathlib.Tactic.IntervalCases

/-!
# The firmware while it waits for the first command

After reset both flags are set and both gains are 0: `main` sends one STABLE packet and polls the UART
(`pollStep`), and the stability counters count the cycles (`track_polled`).
-/

namespace PenPlotter

open Mmio Prog

variable {M : Nat} {inp : Nat → SystemIn}

/-- The peripheral after reset, `c` cycles later: with `Kp = Kd = 0` the response is 0. -/
def PidState.quiet (c : Nat) : PidState where
  regs := .reset pidCfg
  ctl _ := { PidController.reset with stabilityCounter := c }
  stableL1 _ := false
  stableL0 _ := false

theorem PidState.quiet_step {c : Nat} {i : PidIn} (hreq : i.reqI = false) (hpv : i.hwPvI = fun _ => 0)
    (hc : c + 1 < M) : (quiet c).step M i = quiet (c + 1) := by
  obtain ⟨o, pv⟩ := i
  subst hpv
  have hne : c ≠ M - 1 := by omega
  have hregs : (quiet c).regs.step pidCfg ((quiet c).regsIn ⟨o, fun _ => 0⟩) = .reset pidCfg :=
    ObiRegState.step_idle hreq fun r => Bool.and_false _
  have hctl (a : Axis) : ((quiet c).ctl a).step M ((quiet c).controllerIn ⟨o, fun _ => 0⟩ a) =
      { PidController.reset with stabilityCounter := c + 1 } := by
    have hresponse : ((quiet c).ctl a).response ((quiet c).controllerIn ⟨o, fun _ => 0⟩ a) = 0 :=
      PidController.response_eq_zero rfl rfl
    have hsamples : ((quiet c).ctl a).samples ((quiet c).controllerIn ⟨o, fun _ => 0⟩ a) = true := by
      show ((0#26).setWidth 32 == (1#32 <<< ((0#32).setWidth 26).toNat) - 1) = true
      decide
    simp only [PidController.step, hresponse, hsamples, if_true]
    show PidController.mk _ _ _ (if c = M - 1 then c else c + 1) = _
    rw [if_neg hne]
    rfl
  have hstable : (fun a => (quiet c).stable M a) = fun _ => false := funext fun _ => beq_false_of_ne hne
  show PidState.mk _ (fun a => _) (fun a => (quiet c).stable M a) _ = _
  rw [hregs, hstable, funext hctl]
  rfl

/-- The system `c` cycles after reset, before any set command, with `main` at `p`. -/
def SystemState.fresh (p : Firmware Firmware.Locals) (c : Nat) : SystemState where
  main := p
  handler := none
  flag _ := 1
  pid := .quiet c

/-- An access that changes neither the peripheral, nor the flags, nor the history. -/
def Access.Harmless (acc : Access) : Prop :=
  acc.pidRequest.reqI = false ∧ (∀ (a : Axis) value, acc ≠ .set a.flag value) ∧
    ∀ command, acc ≠ .note (.dispatch command)

theorem reqI_of_harmless {s : SystemState} {i : SystemIn} (hcore : i.turn = .core ∧ s.handler = none)
    (hacc : ∀ acc, s.main.access = some acc → acc.Harmless) : (s.pidIn i).reqI = false := by
  show ((s.access i).elim .idle Access.pidRequest).reqI = false
  rw [access_main hcore]
  cases hm : s.main.access with
  | none => rfl
  | some acc => exact (hacc acc hm).1

theorem flag_of_harmless {s : SystemState} {i : SystemIn} (hcore : i.turn = .core ∧ s.handler = none)
    (hacc : ∀ acc, s.main.access = some acc → acc.Harmless) (a : Axis) :
    (s.step M i).flag a = s.flag a := by
  refine stepFlag_eq fun value h => ?_
  rw [access_main hcore] at h
  exact (hacc _ h).2.1 a value rfl

theorem fresh_step {p : Firmware Firmware.Locals} {c : Nat} {i : SystemIn} (hi : i.turn = .core)
    (hpv : i.hwPvI = fun _ => 0) (hacc : ∀ acc, p.access = some acc → acc.Harmless) (hc : c + 1 < M) :
    ((SystemState.fresh p c).step M i, History.initial.step M (SystemState.fresh p c) i) =
      (.fresh (p.step Firmware.body ((SystemState.fresh p c).answer M i)) (c + 1), .initial) := by
  have hcore : i.turn = .core ∧ (SystemState.fresh p c).handler = none := ⟨hi, rfl⟩
  have hreq : ((SystemState.fresh p c).pidIn i).reqI = false := reqI_of_harmless hcore hacc
  have hstate : (SystemState.fresh p c).step M i =
      .fresh (p.step Firmware.body ((SystemState.fresh p c).answer M i)) (c + 1) :=
    SystemState.ext (SystemState.step_main hcore) (handler_step_main hcore)
      (funext (flag_of_harmless hcore hacc)) (PidState.quiet_step hreq hpv hc)
  have hch (a : Axis) : History.initial.changes (SystemState.fresh p c) i a = false :=
    changes_eq_false (ObiRegState.swWe_idle hreq _)
  have hcommand : (History.initial.step M (SystemState.fresh p c) i).command = none := by
    rw [History.step_command, mainAccess_main hcore]
    split
    · next command h => exact absurd rfl ((hacc _ h).2.2 command)
    · rfl
  have hfresh (a : Axis) : (History.initial.step M (SystemState.fresh p c) i).fresh a = false := by
    show (if _ then _ else _) = _
    rw [hch a, if_neg (by simp)]
    exact Bool.and_false _
  have hhistory : History.initial.step M (SystemState.fresh p c) i = .initial :=
    History.ext hcommand (funext fun a => target_step (hch a)) (funext hfresh)
  rw [hstate, hhistory]

/-- `main` polls the UART while both flags are set. -/
def pollStep (p : Firmware Firmware.Locals) : Firmware Firmware.Locals :=
  p.step Firmware.body (match p.access with
    | some (.get .stableX) | some (.get .stableY) => 1
    | _ => uartRxEmpty)

def pollIn : SystemIn := ⟨.core, uartRxEmpty, fun _ => 0⟩

theorem answer_fresh {p : Firmware Firmware.Locals} {c : Nat}
    (hacc : ∀ acc, p.access = some acc → acc.Harmless) :
    p.step Firmware.body ((SystemState.fresh p c).answer M pollIn) = pollStep p := by
  have haccess : (SystemState.fresh p c).access pollIn = p.access := access_main ⟨rfl, rfl⟩
  have hother (acc : Access) (hp : p.access = some acc) : (SystemState.fresh p c).answer M pollIn =
      match p.access with
      | some (.get .stableX) | some (.get .stableY) => 1
      | _ => uartRxEmpty := by
    have hreq := (hacc acc hp).1
    rw [SystemState.answer, haccess, hp]
    cases acc with
    | load addr | loadByte addr =>
      cases hsel : pidSelected addr with
      | true => simp [Access.pidRequest, hsel] at hreq
      | false => exact if_neg (by simp [hsel])
    | get v => cases v <;> rfl
    | _ => rfl
  cases hp : p.access with
  | none =>
    cases p with
    | ret l => rfl
    | act acc k => cases hp
    | spin acc again k => cases hp
  | some acc => rw [hother acc hp, pollStep]

theorem track_fresh {t : Nat} (hin : ∀ u < t, inp u = pollIn)
    (hacc : ∀ u < t, ∀ acc, (pollStep^[u] (.ret .initial)).access = some acc → acc.Harmless) (ht : t < M) :
    track M inp t = (.fresh (pollStep^[t] (.ret .initial)) t, .initial) := by
  induction t with
  | zero => rfl
  | succ t ih =>
    have hprev := ih (fun u hu => hin u (by omega)) (fun u hu => hacc u (by omega)) (by omega)
    have hharmless := hacc t (by omega)
    rw [track_succ, hprev, hin t (by omega), fresh_step rfl rfl hharmless (by omega), answer_fresh hharmless,
      Function.iterate_succ_apply']

/-- The locals after the first STABLE packet. -/
def polled : Firmware.Locals := { Firmware.Locals.initial with messageSent := true }

theorem pollStep_polled (n : Nat) : pollStep^[2 * n] (.ret polled) = .ret polled := by
  induction n with
  | zero => rfl
  | succ n ih =>
    have htwo : pollStep^[2] (.ret polled) = .ret polled := rfl
    rw [Nat.mul_succ, Function.iterate_add_apply, htwo, ih]

theorem pollStep_start : pollStep^[7] (.ret .initial) = .ret polled := rfl

/-- Until it gets a byte `main` makes harmless accesses only. -/
theorem poll_harmless (t : Nat) :
    ∀ acc, (pollStep^[t] (.ret .initial)).access = some acc → acc.Harmless := by
  rcases lt_or_ge t 7 with ht | ht
  · interval_cases t <;> intro acc h <;> cases h
    all_goals exact ⟨rfl, nofun, nofun⟩
  · obtain ⟨n, rfl | rfl⟩ : ∃ n, t = 2 * n + 7 ∨ t = 1 + (2 * n + 7) := ⟨(t - 7) / 2, by omega⟩
    · rw [Function.iterate_add_apply, pollStep_start, pollStep_polled]
      intro acc h
      cases h
    · rw [Function.iterate_add_apply, Function.iterate_add_apply, pollStep_start, pollStep_polled]
      intro acc h
      cases h
      exact ⟨rfl, nofun, nofun⟩

/-- The system after `2 * n + 7` cycles without a byte. -/
theorem track_polled {n : Nat} (hin : ∀ u < 2 * n + 7, inp u = pollIn) (hn : 2 * n + 7 < M) :
    track M inp (2 * n + 7) = (.fresh (.ret polled) (2 * n + 7), .initial) := by
  rw [track_fresh hin (fun u _ => poll_harmless u) hn, Function.iterate_add_apply, pollStep_start,
    pollStep_polled]

end PenPlotter
