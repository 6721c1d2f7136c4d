import PenPlotter.CommandOrder
import PenPlotter.System
import PenPlotter.TimerCode

/-!
# The stream reports and the timer interrupt (`sw/main.c`)

`main` and `machine_timer_handler` share the flag `print`: the handler sets it, and `main` clears it when it has
sent a report. The interrupt is taken in any cycle, and `main` stands still until the handler has returned.
`ReportPhase` says where in a report `main` stands (`body_phase`).
-/

namespace PenPlotter

open Mmio Prog

structure StreamIn where
  turn : Turn
  /-- What the devices and the other globals answer. -/
  resp : BitVec 32

structure StreamState where
  main : Firmware Firmware.Locals
  /-- What is left of `machine_timer_handler`, while it runs. -/
  handler : Option (Firmware TimerHandler)
  print : BitVec 32

namespace StreamState

variable (s : StreamState) (i : StreamIn)

/-- At `while (1)`, with `print` initialised to 0. -/
def initial : StreamState := ⟨.ret .initial, none, 0⟩

/-- `main` makes a step in this cycle. -/
def mainGo : Bool := i.turn == .core && s.handler.isNone

def mainAccess : Option Access := if s.mainGo i then s.main.access else none

def handlerAccess : Option Access := if i.turn == .core then s.handler.bind Prog.access else none

def access : Option Access := (s.handlerAccess i).or (s.mainAccess i)

def answer : BitVec 32 := if s.access i = some (.get .print) then s.print else i.resp

/-- `mret` ends the handler. -/
def stepHandler : Option (Firmware TimerHandler) :=
  match i.turn, s.handler with
  | .interrupt, none => some (Firmware.machineTimerHandler .enter)
  | .core, some (.ret .done) => none
  | .core, some p => some (p.step Firmware.machineTimerHandler (s.answer i))
  | _, h => h

def step : StreamState where
  main := if s.mainGo i then s.main.step Firmware.body (s.answer i) else s.main
  handler := s.stepHandler i
  print :=
    match s.access i with
    | some (.set .print value) => value
    | _ => s.print

/-- The handler of a timer tick sets the flag. -/
def ticks : Prop := s.handlerAccess i = some (.set .print 1)

instance : Decidable (s.ticks i) := inferInstanceAs (Decidable (_ = _))

end StreamState

inductive ReportPhase
  /-- In no report. -/
  | idle
  /-- `print` has been seen set, `QUAD->X` has not been read. -/
  | reading
  /-- `QUAD->X` has been read. -/
  | sendingX
  /-- `QUAD->Y` has been read too, `print` has not been cleared. -/
  | sendingY
deriving DecidableEq

namespace ReportPhase

/-- A report is under way, and its X has been read. -/
def Reporting (p : ReportPhase) : Prop := p = .sendingX ∨ p = .sendingY

instance (p : ReportPhase) : Decidable p.Reporting := inferInstanceAs (Decidable (_ ∨ _))

def update (p : ReportPhase) : Access → BitVec 32 → ReportPhase
  | .get .print, r => if r ≠ 0 then .reading else p
  | .load addr, _ => if addr = quadX then .sendingX else if addr = quadY then .sendingY else p
  | .set .print _, _ => .idle
  | _, _ => p

/-- The accesses that belong to the report, each in its phase. -/
def Allowed (p : ReportPhase) : Access → Prop
  | .get .print => p = .idle
  | .load addr => (addr = quadX → p = .reading) ∧ (addr = quadY → p = .sendingX)
  | .set .print value => p = .sendingY ∧ value = 0
  | _ => True

end ReportPhase

/-- An access that has nothing to do with the reports. -/
def Access.OffReport : Access → Prop
  | .get v | .set v _ => v ≠ .print
  | .load addr => addr ≠ quadX ∧ addr ≠ quadY
  | _ => True

theorem Access.OffReport.frame {acc : Access} (h : acc.OffReport) (p : ReportPhase) :
    p.Allowed acc ∧ ∀ r, p.update acc r = p := by
  cases acc with
  | get v | set v value => cases v <;> first | exact absurd rfl h | exact ⟨trivial, fun _ => rfl⟩
  | load addr =>
    exact ⟨⟨fun hx => absurd hx h.1, fun hy => absurd hy h.2⟩, fun _ => (if_neg h.1).trans (if_neg h.2)⟩
  | _ => exact ⟨trivial, fun _ => rfl⟩

section OffReport

theorem receive_offReport (l : Firmware.Locals) :
    (Firmware.receive l).Only Access.OffReport fun l' => l'.streaming = l.streaming :=
  receive_only ⟨by decide, by decide⟩ trivial fun _ _ => trivial

theorem uartPutc_offReport (c : BitVec 8) : (Firmware.uartPutc c).Only Access.OffReport fun _ => True :=
  uartPutc_only ⟨by decide, by decide⟩ trivial

theorem uartPutw_offReport (w : BitVec 32) : (Firmware.uartPutw w).Only Access.OffReport fun _ => True :=
  uartPutw_only ⟨by decide, by decide⟩ trivial

theorem sendStable_offReport (l : Firmware.Locals) :
    (Firmware.sendStable l).Only Access.OffReport fun _ => True :=
  (sendStable_only ⟨by decide, by decide⟩ trivial (fun _ h => h) trivial).mono fun _ _ => trivial

theorem perform_offReport (c : Command) (l : Firmware.Locals) :
    (c.perform l).Only Access.OffReport fun _ => True := by
  by_cases hc : c = .sts
  · subst hc
    exact (uartPutc_offReport 0).bind fun _ _ => (uartPutc_offReport 3).bind fun _ _ => trivial
  · refine Command.perform_registers hc ?_ (fun _ _ _ => trivial) fun _ h => h
    rintro _ (rfl | rfl) <;> exact ⟨by decide, by decide⟩

theorem execute_offReport (l : Firmware.Locals) : (Firmware.execute l).Only Access.OffReport fun _ => True := by
  unfold Firmware.execute
  split
  · rw [Firmware.note_bind]
    refine ⟨trivial, fun _ => ?_⟩
    change (Firmware.dispatch l >>= _).Only _ _
    have hdispatch : (Firmware.dispatch l).Only Access.OffReport fun _ => True := by
      rw [dispatch_eq]
      cases decodeCommand l.command with
      | none => trivial
      | some c => exact perform_offReport c l
    exact hdispatch.bind fun _ _ => trivial
  · trivial

end OffReport

section Body

variable {α : Type} {p : Firmware α} {l : Firmware.Locals} {phase : ReportPhase}

abbrev ReportPhase.wlp (Q : α → ReportPhase → Prop) (p : Firmware α) (phase : ReportPhase) : Prop :=
  Prog.wlp ReportPhase.update ReportPhase.Allowed Q p phase

theorem wlp_offReport {P : α → Prop} (h : p.Only Access.OffReport P) :
    ReportPhase.wlp (fun _ phase' => phase' = phase) p phase :=
  wlp_mono (fun _ _ hsame => hsame.1) (h.wlp fun _ ha => ha.frame phase)

/-- The rest of the program starts in the phase that the UART writes leave alone. -/
theorem wlp_offReport_bind {P : α → Prop} {β : Type} {Q : β → ReportPhase → Prop} {f : α → Firmware β}
    (h : p.Only Access.OffReport P) (hf : ∀ a, ReportPhase.wlp Q (f a) phase) :
    ReportPhase.wlp Q (p >>= f) phase := by
  refine wlp_bind.2 (wlp_mono (fun a phase' hsame => ?_) (wlp_offReport h))
  rw [hsame]
  exact hf a

theorem report_phase : ReportPhase.wlp (fun _ phase => phase = .idle) (Firmware.report l) .idle := by
  unfold Firmware.report
  split
  · rw [Firmware.get_bind]
    refine ⟨rfl, fun print => ?_⟩
    dsimp only
    split
    next hprint =>
      have hreading : ReportPhase.update .idle (.get .print) print = .reading := if_pos (bne_iff_ne.1 hprint)
      rw [hreading]
      refine wlp_offReport_bind (uartPutc_offReport 1) fun _ => ?_
      rw [Firmware.load_bind]
      refine ⟨⟨fun _ => rfl, fun h => absurd h (by decide)⟩, fun x => ?_⟩
      change ReportPhase.wlp _ _ .sendingX
      refine wlp_offReport_bind (uartPutw_offReport x) fun _ => wlp_offReport_bind (uartPutc_offReport 2) fun _ => ?_
      rw [Firmware.load_bind]
      refine ⟨⟨fun h => absurd h (by decide), fun _ => rfl⟩, fun y => ?_⟩
      change ReportPhase.wlp _ _ .sendingY
      exact wlp_offReport_bind (uartPutw_offReport y) fun _ => ⟨⟨rfl, rfl⟩, fun _ => rfl⟩
    next hprint =>
      have hidle : ReportPhase.update .idle (.get .print) print = .idle := if_neg (mt bne_iff_ne.2 hprint)
      exact hidle
  · rfl

theorem body_phase : ReportPhase.wlp (fun _ phase => phase = .idle) (Firmware.body l) .idle := by
  refine wlp_offReport_bind (receive_offReport l) fun l => ?_
  refine wlp_bind.2 (wlp_mono (fun _ phase hidle => ?_) report_phase)
  rw [hidle]
  refine wlp_offReport_bind (sendStable_offReport l) fun l => ?_
  exact wlp_offReport (execute_offReport l)

theorem body_leads (hstream : l.streaming = true) :
    (Firmware.body l).Leads (fun a => a = .get .print) fun _ => False := by
  refine (receive_offReport l).leads.bind fun l' hl' => ?_
  unfold Firmware.report
  rw [hl'.trans hstream, if_pos rfl]
  exact .inl rfl

end Body

end PenPlotter
