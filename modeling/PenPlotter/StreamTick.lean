import PenPlotter.StreamSystem

/-!
# Which timer ticks are reported

A tick sets `print`, and `main` clears it at the end of a report. A tick in the stretch from the read of
`QUAD->X` to that store is cleared with the report that does not contain it; every other tick is followed by a
report (`tick_reported_iff`).
-/

namespace PenPlotter

open Mmio Prog

variable (inp : Nat → StreamIn)

def streamRun : Nat → StreamState := Clocked.run StreamState.step .initial inp

/-- Where `main` stands in a report before cycle `t`. -/
def phaseAt : Nat → ReportPhase
  | 0 => .idle
  | t + 1 =>
    if (streamRun inp t).mainGo (inp t) then
      Prog.ghost ReportPhase.update (phaseAt t) (streamRun inp t).main ((streamRun inp t).answer (inp t))
    else phaseAt t

/-- `main` makes the access in cycle `t`. -/
def MainDoes (a : Access) (t : Nat) : Prop := (streamRun inp t).mainAccess (inp t) = some a

/-- The handler of a timer tick sets `print` in cycle `t`. -/
def TickAt (t : Nat) : Prop := (streamRun inp t).ticks (inp t)

variable {inp} {t e : Nat}

theorem streamRun_paced : Paced Firmware.body (fun t => (streamRun inp t).main)
    (fun t => (streamRun inp t).mainGo (inp t)) fun t => (streamRun inp t).answer (inp t) := fun _ => rfl

theorem phase_wlp (t : Nat) :
    ReportPhase.wlp (fun _ phase => phase = .idle) (streamRun inp t).main (phaseAt inp t) := by
  induction t with
  | zero => exact rfl
  | succ t ih =>
    rw [phaseAt]
    cases hgo : (streamRun inp t).mainGo (inp t) with
    | true =>
      rw [streamRun_paced.of_go hgo, if_pos rfl]
      exact wlp_step (fun l phase hidle => hidle ▸ body_phase) ih _
    | false =>
      rw [streamRun_paced.of_wait hgo, if_neg Bool.false_ne_true]
      exact ih

/-- The handler sets `print` to 1 only. -/
def Access.SetsOne (a : Access) : Prop := ∀ value, a = .set .print value → value = 1

theorem machineTimerHandler_setsOne (h : TimerHandler) :
    (Firmware.machineTimerHandler h).Only Access.SetsOne fun _ => True := by
  refine machineTimerHandler_only ?_ (fun _ h => ?_) (fun _ h => ?_) (fun _ _ _ _ h => ?_) h
  · intro value h
    cases h
    rfl
  all_goals cases h

theorem handler_setsOne (t : Nat) : ∀ p, (streamRun inp t).handler = some p → p.Only Access.SetsOne fun _ => True := by
  induction t with
  | zero => exact fun p h => by cases h
  | succ t ih =>
    intro p hp
    change (streamRun inp t).stepHandler (inp t) = some p at hp
    unfold StreamState.stepHandler at hp
    split at hp
    · cases hp
      exact machineTimerHandler_setsOne _
    · cases hp
    next q _ _ hq =>
      cases hp
      exact (ih q hq).step (fun h _ => machineTimerHandler_setsOne h) _
    · exact ih p hp

variable (inp t) in
/-- The moves between the phases, with what they do to `print`. -/
inductive ReportMove : ReportPhase → ReportPhase → Prop
  | stay (phase : ReportPhase) (hx : ¬ MainDoes inp (.load quadX) t) (hclear : ¬ MainDoes inp (.set .print 0) t)
    (hprint : (streamRun inp (t + 1)).print = (streamRun inp t).print ∨
      TickAt inp t ∧ (streamRun inp (t + 1)).print = 1) : ReportMove phase phase
  | ask (hset : (streamRun inp t).print ≠ 0) (hprint : (streamRun inp (t + 1)).print = (streamRun inp t).print) :
    ReportMove .idle .reading
  | readX (hx : MainDoes inp (.load quadX) t) : ReportMove .reading .sendingX
  | readY (hy : MainDoes inp (.load quadY) t) : ReportMove .sendingX .sendingY
  | clear (hclear : MainDoes inp (.set .print 0) t) (hprint : (streamRun inp (t + 1)).print = 0) :
    ReportMove .sendingY .idle

variable (inp t) in
theorem print_succ : (streamRun inp (t + 1)).print =
    match (streamRun inp t).access (inp t) with
    | some (.set .print value) => value
    | _ => (streamRun inp t).print := rfl

theorem move_of_wait (hgo : (streamRun inp t).mainGo (inp t) = false) :
    ReportMove inp t (phaseAt inp t) (phaseAt inp (t + 1)) := by
  have hmain : (streamRun inp t).mainAccess (inp t) = none := if_neg (by rw [hgo]; exact Bool.false_ne_true)
  have hphase : phaseAt inp (t + 1) = phaseAt inp t := if_neg (by rw [hgo]; exact Bool.false_ne_true)
  have hnone (a : Access) : ¬ MainDoes inp a t := fun h => by rw [MainDoes, hmain] at h; cases h
  rw [hphase]
  refine .stay _ (hnone _) (hnone _) ?_
  rw [print_succ, StreamState.access, hmain, Option.or_none]
  split
  next value hacc =>
    right
    have hone : value = 1 := by
      rw [StreamState.handlerAccess] at hacc
      split at hacc
      · obtain ⟨p, hp, hpacc⟩ := Option.bind_eq_some_iff.1 hacc
        exact (handler_setsOne t p hp).access hpacc value rfl
      · cases hacc
    exact ⟨by rw [TickAt, StreamState.ticks, hacc, hone], hone⟩
  next => exact .inl rfl

theorem access_of_go (hgo : (streamRun inp t).mainGo (inp t) = true) :
    (streamRun inp t).access (inp t) = (streamRun inp t).main.access := by
  have hhandler : (streamRun inp t).handler = none := Option.isNone_iff_eq_none.1 (Bool.and_eq_true_iff.1 hgo).2
  rw [StreamState.access, StreamState.handlerAccess, hhandler, StreamState.mainAccess, if_pos hgo]
  split <;> rfl

theorem move_of_access {a : Access} (hgo : (streamRun inp t).mainGo (inp t) = true)
    (hacc : (streamRun inp t).main.access = some a) :
    ReportMove inp t (phaseAt inp t) ((phaseAt inp t).update a ((streamRun inp t).answer (inp t))) := by
  have hdoes (b : Access) : MainDoes inp b t ↔ a = b := by
    rw [MainDoes, StreamState.mainAccess, if_pos hgo, hacc, Option.some_inj]
  have haccess : (streamRun inp t).access (inp t) = some a := (access_of_go hgo).trans hacc
  have hallowed : (phaseAt inp t).Allowed a := (phase_wlp t).access_ok hacc
  have hprint := print_succ inp t
  rw [haccess] at hprint
  by_cases hoff : a.OffReport
  · rw [(hoff.frame _).2]
    refine .stay _ ?_ ?_ (.inl ?_)
    · rw [hdoes]
      rintro rfl
      exact hoff.1 rfl
    · rw [hdoes]
      rintro rfl
      exact hoff rfl
    · rw [hprint]
      split
      next value h => exact absurd rfl (Option.some.inj h ▸ hoff)
      next => rfl
  · cases a with
    | get v =>
      obtain rfl : v = .print := not_not.1 hoff
      rw [show phaseAt inp t = .idle from hallowed, StreamState.answer, if_pos haccess]
      by_cases hset : (streamRun inp t).print = 0
      · have hidle : ReportPhase.update .idle (.get .print) (streamRun inp t).print = .idle :=
          if_neg (not_not.2 hset)
        rw [hidle]
        refine .stay _ ?_ ?_ (.inl hprint) <;> rw [hdoes] <;> exact fun h => by cases h
      · have hreading : ReportPhase.update .idle (.get .print) (streamRun inp t).print = .reading := if_pos hset
        rw [hreading]
        exact .ask hset hprint
    | set v value =>
      obtain rfl : v = .print := not_not.1 hoff
      obtain ⟨hphase, rfl⟩ := hallowed
      rw [hphase]
      exact .clear ((hdoes _).2 rfl) hprint
    | load addr =>
      by_cases hx : addr = quadX
      · rw [hallowed.1 hx, ReportPhase.update, if_pos hx]
        exact .readX ((hdoes _).2 (congrArg _ hx))
      · have hy : addr = quadY := by
          by_contra hy
          exact hoff ⟨hx, hy⟩
        rw [hallowed.2 hy, ReportPhase.update, if_neg hx, if_pos hy]
        exact .readY ((hdoes _).2 (congrArg _ hy))
    | _ => exact absurd trivial hoff

theorem report_move (t : Nat) : ReportMove inp t (phaseAt inp t) (phaseAt inp (t + 1)) := by
  cases hgo : (streamRun inp t).mainGo (inp t) with
  | false => exact move_of_wait hgo
  | true =>
    have hphase : phaseAt inp (t + 1) = Prog.ghost ReportPhase.update (phaseAt inp t) (streamRun inp t).main
        ((streamRun inp t).answer (inp t)) := if_pos hgo
    rw [hphase, Prog.ghost]
    cases hacc : (streamRun inp t).main.access with
    | some a => exact move_of_access hgo hacc
    | none =>
      have hnone (a : Access) : ¬ MainDoes inp a t := by
        rw [MainDoes, StreamState.mainAccess, if_pos hgo, hacc]
        exact fun h => by cases h
      have hprint := print_succ inp t
      rw [access_of_go hgo, hacc] at hprint
      exact .stay _ (hnone _) (hnone _) (.inl hprint)

theorem MainDoes.allowed {a : Access} (h : MainDoes inp a t) : (phaseAt inp t).Allowed a := by
  rw [MainDoes, StreamState.mainAccess] at h
  split at h
  · exact (phase_wlp t).access_ok h
  · cases h

/-- While the handler sets the flag `main` stands still. -/
theorem TickAt.succ (h : TickAt inp t) :
    phaseAt inp (t + 1) = phaseAt inp t ∧ (streamRun inp (t + 1)).print = 1 := by
  have hacc : (streamRun inp t).handlerAccess (inp t) = some (.set .print 1) := h
  have hwait : (streamRun inp t).mainGo (inp t) = false := by
    unfold StreamState.handlerAccess at hacc
    split at hacc
    · obtain ⟨p, hp, -⟩ := Option.bind_eq_some_iff.1 hacc
      rw [StreamState.mainGo, hp]
      exact Bool.and_false _
    · cases hacc
  refine ⟨if_neg (by rw [hwait]; exact Bool.false_ne_true), ?_⟩
  rw [print_succ, StreamState.access, hacc]
  rfl

/-- A phase that is left is left in some first cycle. -/
theorem exists_leave {phase : ReportPhase} {u : Nat} (htu : t ≤ u) (ht : phaseAt inp t = phase)
    (hu : phaseAt inp u ≠ phase) :
    ∃ v ≥ t, (∀ w, t ≤ w → w ≤ v → phaseAt inp w = phase) ∧ phaseAt inp (v + 1) ≠ phase := by
  induction hd : u - t generalizing t with
  | zero =>
    obtain rfl : u = t := by omega
    exact absurd ht hu
  | succ d ih =>
    by_cases hnext : phaseAt inp (t + 1) = phase
    · obtain ⟨v, hv, hsame, hleave⟩ := ih (by omega) hnext (by omega)
      refine ⟨v, by omega, fun w hw hwv => ?_, hleave⟩
      rcases Nat.eq_or_lt_of_le hw with rfl | hlt
      · exact ht
      · exact hsame w hlt hwv
    · refine ⟨t, Nat.le_refl t, fun w hw hwt => ?_, hnext⟩
      rw [Nat.le_antisymm hwt hw]
      exact ht

section Fair

variable (inp) in
/-- `main` is let go on again and again, also where it waits for the UART. -/
def Fair : Prop :=
  ∀ t, ∃ t' ≥ t, (streamRun inp t').mainGo (inp t') = true ∧
    Firmware.txFull ((streamRun inp t').answer (inp t')) = false

variable (inp e) in
/-- From cycle `e` on every iteration begins with the stream on. -/
def StreamsFrom : Prop := ∀ t ≥ e, ∀ l, (streamRun inp t).main = .ret l → l.streaming = true

variable (hfair : Fair inp)

include hfair

theorem exists_head (t : Nat) : ∃ t' ≥ t, ∃ l, (streamRun inp t').main = .ret l :=
  streamRun_paced.exists_end hfair (streamRun_paced.spinsOn body_spinsOn trivial t)

theorem exists_idle (t : Nat) : ∃ t' ≥ t, phaseAt inp t' = .idle := by
  obtain ⟨t', ht', l, hl⟩ := exists_head hfair t
  have hwlp : ReportPhase.wlp (fun _ phase => phase = .idle) (streamRun inp t').main (phaseAt inp t') := phase_wlp t'
  rw [hl] at hwlp
  exact ⟨t', ht', hwlp⟩

theorem exists_readX (ht : phaseAt inp t = .reading) :
    ∃ v ≥ t, MainDoes inp (.load quadX) v ∧ phaseAt inp (v + 1) = .sendingX ∧
      ∀ w, t ≤ w → w ≤ v → phaseAt inp w = .reading := by
  obtain ⟨u, hu, hidle⟩ := exists_idle hfair t
  obtain ⟨v, hv, hsame, hleave⟩ := exists_leave hu ht (by rw [hidle]; decide)
  have hmove : ReportMove inp v _ _ := report_move v
  rw [hsame v hv (Nat.le_refl v)] at hmove
  generalize hnext : phaseAt inp (v + 1) = next at hmove hleave
  cases hmove with
  | stay => exact absurd rfl hleave
  | readX hx => exact ⟨v, hv, hx, hnext, hsame⟩

theorem exists_readY (ht : phaseAt inp t = .sendingX) : ∃ v ≥ t, MainDoes inp (.load quadY) v := by
  obtain ⟨u, hu, hidle⟩ := exists_idle hfair t
  obtain ⟨v, hv, hsame, hleave⟩ := exists_leave hu ht (by rw [hidle]; decide)
  have hmove : ReportMove inp v _ _ := report_move v
  rw [hsame v hv (Nat.le_refl v)] at hmove
  generalize phaseAt inp (v + 1) = next at hmove hleave
  cases hmove with
  | stay => exact absurd rfl hleave
  | readY hy => exact ⟨v, hv, hy⟩

theorem exists_ask (hstream : StreamsFrom inp e) (hte : e ≤ t) :
    ∃ v ≥ t, (streamRun inp v).mainGo (inp v) = true ∧ (streamRun inp v).main.access = some (.get .print) := by
  obtain ⟨head, hhead, l, hl⟩ := exists_head hfair t
  obtain ⟨u, hu, hgo, -⟩ := hfair head
  have hstay (t : Nat) (ht : (streamRun inp t).main = .ret l) (hgo : ¬ (streamRun inp t).mainGo (inp t) = true) :
      (streamRun inp (t + 1)).main = .ret l :=
    (streamRun_paced.of_wait (Bool.eq_false_iff.2 hgo)).trans ht
  obtain ⟨start, hstart, hret, hgo⟩ := exists_move hstay hu hgo hl
  have hbody : (streamRun inp (start + 1)).main = Firmware.body l := by
    rw [streamRun_paced.of_go hgo, hret]
    rfl
  have hleads := body_leads (hstream head (by omega) l hl)
  obtain ⟨v, hv, ⟨-, -, hfalse⟩ | ⟨hgo, a, hacc, rfl⟩⟩ :=
    streamRun_paced.reached hfair hbody (body_spinsOn l) hleads
  · exact hfalse.elim
  · exact ⟨v, by omega, hgo, hacc⟩

theorem exists_reading (hstream : StreamsFrom inp e) (hte : e ≤ t) (ht : phaseAt inp t = .idle)
    (hset : (streamRun inp t).print ≠ 0) :
    ∃ v ≥ t, phaseAt inp v = .reading ∧ ∀ w, t ≤ w → w < v → phaseAt inp w = .idle := by
  have hleaves : ∃ u ≥ t, phaseAt inp u ≠ .idle := by
    by_contra hnone
    have hidle (w : Nat) (hw : t ≤ w) : phaseAt inp w = .idle := by
      by_contra hw'
      exact hnone ⟨w, hw, hw'⟩
    have hkeep (w : Nat) (hw : t ≤ w) : (streamRun inp w).print ≠ 0 := by
      induction w, hw using Nat.le_induction with
      | base => exact hset
      | succ w hw ih =>
        have hmove : ReportMove inp w _ _ := report_move w
        rw [hidle w hw, hidle (w + 1) (by omega)] at hmove
        cases hmove with
        | stay _ _ _ hprint =>
          rcases hprint with hsame | ⟨-, hone⟩
          · rwa [hsame]
          · rw [hone]
            decide
    obtain ⟨v, hv, hgo, hacc⟩ := exists_ask hfair hstream hte
    have hanswer : (streamRun inp v).answer (inp v) = (streamRun inp v).print :=
      if_pos ((access_of_go hgo).trans hacc)
    have hreading : phaseAt inp (v + 1) = .reading := by
      rw [phaseAt, if_pos hgo, Prog.ghost, hacc, hanswer]
      exact if_pos (hkeep v hv)
    have hstill := hidle (v + 1) (by omega)
    rw [hreading] at hstill
    cases hstill
  obtain ⟨u, hu, hleave⟩ := hleaves
  obtain ⟨v, hv, hsame, hleave⟩ := exists_leave hu ht hleave
  have hmove : ReportMove inp v _ _ := report_move v
  rw [hsame v hv (Nat.le_refl v)] at hmove
  generalize hnext : phaseAt inp (v + 1) = next at hmove hleave
  cases hmove with
  | stay => exact absurd rfl hleave
  | ask => exact ⟨v + 1, by omega, hnext, fun w hw hwv => hsame w hw (by omega)⟩

/-- A tick outside a report is followed by one, and no report ends before that one has begun. -/
theorem report_follows (hstream : StreamsFrom inp e) (hte : e ≤ t) (htick : TickAt inp t)
    (ht : ¬ (phaseAt inp t).Reporting) :
    ∃ x > t, MainDoes inp (.load quadX) x ∧ phaseAt inp (x + 1) = .sendingX ∧
      ∀ w, t < w → w ≤ x → ¬ (phaseAt inp w).Reporting := by
  obtain ⟨hphase, hprint⟩ := htick.succ
  have hreading : ∃ v ≥ t + 1, phaseAt inp v = .reading ∧ ∀ w, t + 1 ≤ w → w < v → phaseAt inp w = .idle := by
    cases hold : phaseAt inp t with
    | idle =>
      exact exists_reading hfair hstream (by omega) (hphase.trans hold) (by rw [hprint]; decide)
    | reading => exact ⟨t + 1, Nat.le_refl _, hphase.trans hold, fun w hw hwv => by omega⟩
    | sendingX => exact absurd (.inl hold) ht
    | sendingY => exact absurd (.inr hold) ht
  obtain ⟨v, hv, hread, hidle⟩ := hreading
  obtain ⟨x, hx, hload, hnext, hsame⟩ := exists_readX hfair hread
  refine ⟨x, by omega, hload, hnext, fun w hw hwx => ?_⟩
  rcases Nat.lt_or_ge w v with hlt | hge
  · rw [hidle w hw hlt]
    decide
  · rw [hsame w hge hwx]
    decide

end Fair

/-! ### The ticks that are swallowed -/

/-- A report that is under way goes on to its `print = 0`. -/
theorem reporting_until_clear {x : Nat} (ht : (phaseAt inp t).Reporting)
    (hclear : ∀ w, t ≤ w → w < x → ¬ MainDoes inp (.set .print 0) w) {w : Nat} (hw : t ≤ w) (hwx : w ≤ x) :
    (phaseAt inp w).Reporting := by
  induction w, hw using Nat.le_induction with
  | base => exact ht
  | succ w hw ih =>
    have hold := ih (by omega)
    have hmove : ReportMove inp w _ _ := report_move w
    generalize phaseAt inp w = phase at hmove hold
    generalize phaseAt inp (w + 1) = next at hmove
    cases hmove with
    | stay => exact hold
    | readY => exact .inr rfl
    | clear h => exact absurd h (hclear w hw (by omega))
    | ask | readX => exact absurd hold (by decide)

/-- Where all ticks from `e` on fall into a report, no report begins after the one that `e` falls into. -/
theorem no_readX (htick : TickAt inp e) (hall : ∀ t ≥ e, TickAt inp t → (phaseAt inp t).Reporting) {x : Nat}
    (hx : e ≤ x) : ¬ MainDoes inp (.load quadX) x := by
  have hsilent : (phaseAt inp x).Reporting ∨ phaseAt inp x = .idle ∧ (streamRun inp x).print = 0 := by
    induction x, hx using Nat.le_induction with
    | base => exact .inl (hall e (Nat.le_refl e) htick)
    | succ w hw ih =>
      have hnew := hall w hw
      have hmove : ReportMove inp w _ _ := report_move w
      generalize phaseAt inp w = phase at hmove ih hnew
      generalize phaseAt inp (w + 1) = next at hmove
      cases hmove with
      | stay _ _ _ hprint =>
        rcases ih with hold | ⟨rfl, hzero⟩
        · exact .inl hold
        · rcases hprint with hsame | ⟨hset, -⟩
          · exact .inr ⟨rfl, hsame.trans hzero⟩
          · exact absurd (hnew hset) (by decide)
      | ask hset =>
        rcases ih with hold | ⟨-, hzero⟩
        · exact absurd hold (by decide)
        · exact absurd hzero hset
      | readX =>
        rcases ih with hold | ⟨hold, -⟩
        · exact absurd hold (by decide)
        · cases hold
      | readY => exact .inl (.inr rfl)
      | clear _ hprint => exact .inr ⟨rfl, hprint⟩
  intro h
  have hreading : phaseAt inp x = .reading := h.allowed.1 rfl
  rw [hreading] at hsilent
  exact absurd hsilent (by simp [ReportPhase.Reporting])

/-- After a tick at `e` a further report comes if and only if that tick or a later one falls outside the stretch
from the read of `QUAD->X` to `print = 0`; and the flag that this tick has set lasts until a further report reads
`QUAD->X` if and only if the tick itself does. -/
theorem tick_reported_iff (hfair : Fair inp) (hstream : StreamsFrom inp e) (htick : TickAt inp e) :
    ((∃ x > e, MainDoes inp (.load quadX) x ∧ ∃ y > x, MainDoes inp (.load quadY) y) ↔
      ∃ t ≥ e, TickAt inp t ∧ ¬ (phaseAt inp t).Reporting) ∧
    ((∃ x > e, MainDoes inp (.load quadX) x ∧ ∀ w, e < w → w < x → ¬ MainDoes inp (.set .print 0) w) ↔
      ¬ (phaseAt inp e).Reporting) := by
  refine ⟨⟨?_, ?_⟩, ?_, ?_⟩
  · rintro ⟨x, hx, hload, -⟩
    by_contra hnone
    refine no_readX htick (fun t ht htick' => ?_) hx.le hload
    by_contra hout
    exact hnone ⟨t, ht, htick', hout⟩
  · rintro ⟨t, ht, htick', hout⟩
    obtain ⟨x, hx, hload, hnext, -⟩ := report_follows hfair hstream ht htick' hout
    obtain ⟨y, hy, hloadY⟩ := exists_readY hfair hnext
    exact ⟨x, by omega, hload, y, hy, hloadY⟩
  · rintro ⟨x, hx, hload, hclear⟩ hreporting
    have hsame : phaseAt inp (e + 1) = phaseAt inp e := htick.succ.1
    have hstill : (phaseAt inp x).Reporting :=
      reporting_until_clear (hsame ▸ hreporting) hclear hx (Nat.le_refl x)
    have hreading : phaseAt inp x = .reading := hload.allowed.1 rfl
    rw [hreading] at hstill
    exact absurd hstill (by decide)
  · intro hout
    obtain ⟨x, hx, hload, -, hidle⟩ := report_follows hfair hstream (Nat.le_refl e) htick hout
    refine ⟨x, hx, hload, fun w hw hwx hclear => ?_⟩
    exact hidle w hw hwx.le (.inr hclear.allowed.1)

section Swallowed

/-- A tick, the command that turns the stream on, and a report whose X waits `n` cycles for the UART and then meets
a second tick. -/
def swallowedIn (n t : Nat) : StreamIn where
  turn := if t = 0 ∨ t = 27 + n then .interrupt else .core
  resp := if t = 12 then 0 else if t = 13 then 4 else if 27 ≤ t ∧ t < 27 + n then uartTxFull else uartRxEmpty

variable (n k : Nat)

theorem phaseAt_congr {inp' : Nat → StreamIn} (h : ∀ j < t, inp j = inp' j) : phaseAt inp t = phaseAt inp' t := by
  induction t with
  | zero => rfl
  | succ t ih =>
    have hrun : streamRun inp t = streamRun inp' t := Clocked.run_congr fun j hj => h j (by omega)
    rw [phaseAt, phaseAt, ih fun j hj => h j (by omega), hrun, h t (by omega)]

theorem swallowed_waits (hk : k ≤ n) :
    streamRun (swallowedIn n) (27 + k) = streamRun (swallowedIn 0) 27 ∧
      phaseAt (swallowedIn n) (27 + k) = .sendingX := by
  induction k with
  | zero =>
    have hsame (j : Nat) (hj : j < 27) : swallowedIn n j = swallowedIn 0 j := by
      simp only [swallowedIn]
      grind
    exact ⟨Clocked.run_congr hsame, (phaseAt_congr hsame).trans rfl⟩
  | succ k ih =>
    obtain ⟨hrun, hphase⟩ := ih (by omega)
    have hin : swallowedIn n (27 + k) = ⟨.core, uartTxFull⟩ := by
      simp only [swallowedIn]
      grind
    constructor
    · change (streamRun (swallowedIn n) (27 + k)).step (swallowedIn n (27 + k)) = _
      rw [hrun, hin]
      rfl
    · rw [← Nat.add_assoc, phaseAt, hrun, hin, hphase]
      rfl

theorem swallowedIn_add : swallowedIn n (27 + n + k) = swallowedIn 0 (27 + k) := by
  simp only [swallowedIn]
  grind

/-- After the wait the run is the one without it. -/
theorem swallowed_add :
    streamRun (swallowedIn n) (27 + n + k) = streamRun (swallowedIn 0) (27 + k) ∧
      phaseAt (swallowedIn n) (27 + n + k) = phaseAt (swallowedIn 0) (27 + k) := by
  induction k with
  | zero =>
    obtain ⟨hrun, hphase⟩ := swallowed_waits n n (Nat.le_refl n)
    exact ⟨hrun, hphase.trans rfl⟩
  | succ k ih =>
    obtain ⟨hrun, hphase⟩ := ih
    constructor
    · change (streamRun (swallowedIn n) (27 + n + k)).step (swallowedIn n (27 + n + k)) = _
      rw [hrun, swallowedIn_add]
      rfl
    · rw [← Nat.add_assoc, ← Nat.add_assoc, phaseAt, phaseAt, hrun, hphase, swallowedIn_add]

theorem swallowedIn_tail : swallowedIn 0 (46 + k) = ⟨.core, uartRxEmpty⟩ := by
  simp only [swallowedIn]
  grind

theorem swallowed_period : streamRun (swallowedIn 0) (49 + k) = streamRun (swallowedIn 0) (46 + k) := by
  induction k with
  | zero => rfl
  | succ k ih =>
    have hin : swallowedIn 0 (49 + k) = swallowedIn 0 (46 + k) := by
      rw [show 49 + k = 46 + (3 + k) by omega, swallowedIn_tail, swallowedIn_tail]
    change (streamRun (swallowedIn 0) (49 + k)).step (swallowedIn 0 (49 + k)) = _
    rw [ih, hin]
    rfl

/-- The loop goes round with the flag cleared. -/
theorem swallowed_tail : ∃ j < 3, streamRun (swallowedIn 0) (46 + k) = streamRun (swallowedIn 0) (46 + j) := by
  induction k using Nat.strongRecOn with
  | _ k ih =>
    rcases Nat.lt_or_ge k 3 with hk | hk
    · exact ⟨k, hk, rfl⟩
    · obtain ⟨j, hj, hsame⟩ := ih (k - 3) (by omega)
      refine ⟨j, hj, Eq.trans ?_ ((swallowed_period (k - 3)).trans hsame)⟩
      rw [show 49 + (k - 3) = 46 + k by omega]

/-- What holds in the stretch from the second tick to `print = 0`, and in each cycle of the loop after it, holds
from the second tick on. -/
theorem swallowed_all {P : StreamState → StreamIn → Prop}
    (hwindow : ∀ j < 19, P (streamRun (swallowedIn 0) (27 + j)) (swallowedIn 0 (27 + j)))
    (hloop : ∀ j < 3, P (streamRun (swallowedIn 0) (46 + j)) ⟨.core, uartRxEmpty⟩) :
    P (streamRun (swallowedIn n) (27 + n + k)) (swallowedIn n (27 + n + k)) := by
  rw [(swallowed_add n k).1, swallowedIn_add]
  rcases Nat.lt_or_ge k 19 with hk | hk
  · exact hwindow k hk
  · obtain ⟨j, hj, hsame⟩ := swallowed_tail (k - 19)
    rw [show 27 + k = 46 + (k - 19) by omega, hsame, swallowedIn_tail]
    exact hloop j hj

/-- The stream is on where an iteration begins. -/
def headStreams : Firmware Firmware.Locals → Bool
  | .ret l => l.streaming
  | _ => true

theorem swallowed_streams : StreamsFrom (swallowedIn n) (28 + n) := by
  intro t ht l hl
  have hhead : headStreams (streamRun (swallowedIn n) (27 + n + (t - (27 + n)))).main = true :=
    swallowed_all n _ (P := fun s _ => headStreams s.main = true) (by decide) (by decide)
  rw [Nat.add_sub_cancel' (by omega), hl] at hhead
  exact hhead

theorem swallowed_fair : Fair (swallowedIn n) := by
  have hloop : ∀ j < 3, (streamRun (swallowedIn 0) (46 + j)).mainGo ⟨.core, uartRxEmpty⟩ = true ∧
      Firmware.txFull ((streamRun (swallowedIn 0) (46 + j)).answer ⟨.core, uartRxEmpty⟩) = false := by
    decide
  intro t
  obtain ⟨j, hj, hsame⟩ := swallowed_tail t
  refine ⟨27 + n + (19 + t), by omega, ?_⟩
  rw [(swallowed_add n (19 + t)).1, swallowedIn_add, show 27 + (19 + t) = 46 + t by omega, hsame, swallowedIn_tail]
  exact hloop j hj

theorem swallowed_tick : TickAt (swallowedIn n) (28 + n) := by
  have htick : TickAt (swallowedIn 0) (27 + 1) := rfl
  rw [TickAt, show 28 + n = 27 + n + 1 by omega, (swallowed_add n 1).1, swallowedIn_add]
  exact htick

/-- The end of the report takes the flag of the second tick away. -/
theorem swallowed_clear : MainDoes (swallowedIn n) (.set .print 0) (45 + n) := by
  have hclear : MainDoes (swallowedIn 0) (.set .print 0) (27 + 18) := rfl
  rw [MainDoes, show 45 + n = 27 + n + 18 by omega, (swallowed_add n 18).1, swallowedIn_add]
  exact hclear

theorem swallowed_ticks (ht : 27 + n ≤ t) (htick : TickAt (swallowedIn n) t) :
    (phaseAt (swallowedIn n) t).Reporting := by
  obtain ⟨k, rfl⟩ := Nat.exists_eq_add_of_le ht
  obtain ⟨hrun, hphase⟩ := swallowed_add n k
  rcases Nat.lt_or_ge k 19 with hk | hk
  · have hwindow : ∀ j < 19, (phaseAt (swallowedIn 0) (27 + j)).Reporting := by decide
    rw [hphase]
    exact hwindow k hk
  · have hloop : ∀ j < 3, ¬ (streamRun (swallowedIn 0) (46 + j)).ticks ⟨.core, uartRxEmpty⟩ := by decide
    obtain ⟨j, hj, hsame⟩ := swallowed_tail (k - 19)
    rw [TickAt, hrun, swallowedIn_add, show 27 + k = 46 + (k - 19) by omega, hsame, swallowedIn_tail] at htick
    exact absurd htick (hloop j hj)

end Swallowed

theorem tick_reported_swallowed :
    ((∃ x > 500028, MainDoes (swallowedIn 500000) (.load quadX) x ∧
        ∃ y > x, MainDoes (swallowedIn 500000) (.load quadY) y) ↔
      ∃ t ≥ 500028, TickAt (swallowedIn 500000) t ∧ ¬ (phaseAt (swallowedIn 500000) t).Reporting) ∧
    ((∃ x > 500028, MainDoes (swallowedIn 500000) (.load quadX) x ∧
        ∀ w, 500028 < w → w < x → ¬ MainDoes (swallowedIn 500000) (.set .print 0) w) ↔
      ¬ (phaseAt (swallowedIn 500000) 500028).Reporting) :=
  tick_reported_iff (swallowed_fair 500000) (swallowed_streams 500000) (swallowed_tick 500000)

/-- The report waits 500000 cycles for the UART with its X read, a tick comes and `main` clears its flag, and no further
report comes, although the stream stays on and `main` goes on. -/
theorem swallowed_tick_unreported :
    Fair (swallowedIn 500000) ∧ StreamsFrom (swallowedIn 500000) 500028 ∧
      MainDoes (swallowedIn 500000) (.load quadX) 26 ∧ TickAt (swallowedIn 500000) 500028 ∧
      MainDoes (swallowedIn 500000) (.set .print 0) 500045 ∧
      ¬ ∃ x > 500028, MainDoes (swallowedIn 500000) (.load quadX) x := by
  refine ⟨swallowed_fair 500000, swallowed_streams 500000, rfl, swallowed_tick 500000, swallowed_clear 500000, ?_⟩
  rintro ⟨x, hx, hload⟩
  refine no_readX (swallowed_tick 500000) (fun t ht htick => ?_) hx.le hload
  exact swallowed_ticks 500000 (by omega) htick

end PenPlotter
