import PenPlotter.PidStability
import PenPlotter.StableInv

/-!
# Stable events and their acknowledgement

The detector of an axis sets its STATUS bit, and a write-1-to-clear of the bit in the same cycle wins over it
(`statusBit_step`). Nothing else clears the bit. The interrupt handler acknowledges only bits that it has read,
so an event after its read stays pending unless its bit was read as 1 (`status_events`).
-/

namespace PenPlotter

open Mmio Prog

namespace PidState

variable {M : Nat} {s : PidState} {i : PidIn} {a : Axis}

theorem irqO_of_statusBit (h : s.statusBit a = true) : s.irqO = true := by
  rw [irqO, Bool.or_eq_true]
  cases a
  · exact .inl h
  · exact .inr h

theorem statusBit_step_of_event (hevent : s.event a = true) (hack : acks i a = false) :
    (s.step M i).statusBit a = true := by
  rw [statusBit_step, hevent, hack, Bool.or_true]
  rfl

theorem statusBit_step_of_statusBit (hbit : s.statusBit a = true) (hack : acks i a = false) :
    (s.step M i).statusBit a = true := by
  rw [statusBit_step, hbit, hack]
  rfl

end PidState

/-- The peripheral before cycle `t`. -/
def pidRun (M : Nat) (inp : Nat → PidIn) : Nat → PidState := Clocked.run (PidState.step M) .reset inp

/-- The access clears the STATUS bit of the axis. -/
def Access.acks (acc : Access) (a : Axis) : Bool :=
  acc.pidRequest.swWe pidCfg statusIdx && acc.pidRequest.wdataI &&& a.bit != 0

/-- The access does not read STATUS, and of its bits it clears only those that `status` has. -/
def Access.AcksOnly (status : BitVec 32) (acc : Access) : Prop :=
  acc ≠ .load pidStatus ∧ ∀ a : Axis, (status &&& a.bit != 0) = false → acc.acks a = false

theorem store_status_acksOnly {status value : BitVec 32}
    (h : ∀ a : Axis, (status &&& a.bit != 0) = false → (value &&& a.bit != 0) = false) :
    (Firmware.store pidStatus value).Only (Access.AcksOnly status) fun _ => True := by
  refine ⟨⟨nofun, fun a ha => ?_⟩, fun _ => trivial⟩
  have hdata : (Access.store pidStatus value).pidRequest.wdataI = value := rfl
  rw [Access.acks, hdata, h a ha, Bool.and_false]

theorem set_acksOnly (status : BitVec 32) (v : Var) (value : BitVec 32) :
    (Access.set v value).AcksOnly status :=
  ⟨nofun, fun _ _ => Bool.and_eq_false_iff.2 (.inl (ObiRegState.swWe_idle rfl _))⟩

/-- The handler reads STATUS and acknowledges what it has read. -/
theorem handler_acksOnly : ∃ k, Firmware.pidInterruptHandler = .act (Access.load pidStatus) k ∧
    ∀ status, (k status).Only (Access.AcksOnly status) fun _ => True := by
  unfold Firmware.pidInterruptHandler
  rw [Firmware.load_bind]
  refine ⟨_, rfl, fun status => ?_⟩
  dsimp only
  split
  · next hx =>
    refine ⟨set_acksOnly status _ _, fun _ => ?_⟩
    show Prog.Only _ _ (if _ then _ else _)
    split
    · next hy =>
      refine ⟨set_acksOnly status _ _, fun _ => ?_⟩
      refine store_status_acksOnly fun a ha => ?_
      cases a
      · exact absurd hx (Bool.eq_false_iff.1 ha)
      · exact absurd hy (Bool.eq_false_iff.1 ha)
    · refine store_status_acksOnly fun a ha => ?_
      cases a
      · exact absurd hx (Bool.eq_false_iff.1 ha)
      · rfl
  · split
    · next hy =>
      refine ⟨set_acksOnly status _ _, fun _ => ?_⟩
      refine store_status_acksOnly fun a ha => ?_
      cases a
      · rfl
      · exact absurd hy (Bool.eq_false_iff.1 ha)
    · trivial

/-- No handler is running, or it has not read STATUS yet. -/
def Unread (h : Option (Firmware Unit)) : Prop := h = none ∨ h = some Firmware.pidInterruptHandler

/-- The handler is running and has read `status`. -/
def Acking (status : BitVec 32) (h : Option (Firmware Unit)) : Prop :=
  ∃ p, h = some p ∧ p.Only (Access.AcksOnly status) fun _ => True

namespace SystemState

/-- The handler reads STATUS. -/
def HandlerReads (s : SystemState) (i : SystemIn) : Prop := s.handlerAccess i = some (.load pidStatus)

instance (s : SystemState) (i : SystemIn) : Decidable (s.HandlerReads i) := inferInstanceAs (Decidable (_ = _))

/-- The handler acknowledges. -/
def HandlerAcks (s : SystemState) (i : SystemIn) : Prop :=
  ∃ value, s.handlerAccess i = some (.store pidStatus value)

variable {M : Nat} {s : SystemState} {i : SystemIn} {a : Axis} {status : BitVec 32}

theorem access_of_handler {p : Firmware Unit} (hp : s.handler = some p) : s.access i = s.handlerAccess i := by
  have hmain : s.mainAccess i = none := if_neg fun h => by rw [hp] at h; cases h.2
  rw [access, hmain, Option.or_none]

theorem exists_handler_of_access {acc : Access} (h : s.handlerAccess i = some acc) :
    i.turn = .core ∧ ∃ p, s.handler = some p ∧ p.access = some acc := by
  obtain ⟨hcore, h⟩ := Option.ite_none_right_eq_some.1 h
  exact ⟨hcore, Option.bind_eq_some_iff.1 h⟩

theorem acks_pidIn : PidState.acks (s.pidIn i) a = (s.access i).elim false (Access.acks · a) := by
  have hreq : (s.pidIn i).toObiIn = (s.access i).elim .idle Access.pidRequest := rfl
  rw [PidState.acks, hreq]
  cases s.access i with
  | none => exact Bool.and_eq_false_iff.2 (.inl (ObiRegState.swWe_idle rfl _))
  | some acc => rfl

theorem acks_of_reads (h : s.HandlerReads i) : PidState.acks (s.pidIn i) a = false := by
  obtain ⟨-, p, hp, -⟩ := exists_handler_of_access h
  rw [acks_pidIn, access_of_handler hp, h]
  rfl

/-- A handler that has not read the bit does not clear it. -/
theorem acks_of_acking (h : Acking status s.handler) (ha : (status &&& a.bit != 0) = false) :
    PidState.acks (s.pidIn i) a = false := by
  obtain ⟨p, hp, honly⟩ := h
  rw [acks_pidIn, access_of_handler hp]
  cases hacc : s.handlerAccess i with
  | none => rfl
  | some acc =>
    obtain ⟨-, p', hp', hacc⟩ := exists_handler_of_access hacc
    rw [hp] at hp'
    cases hp'
    exact (honly.access hacc).2 a ha

theorem unread_step (h : Unread s.handler) (hread : ¬s.HandlerReads i) : Unread (s.step M i).handler := by
  change Unread (s.stepHandler M i)
  rcases h with hnone | hfresh
  · rw [stepHandler, hnone]
    cases i.turn with
    | interrupt =>
      show Unread (if _ then _ else _)
      split
      · exact .inr rfl
      · exact .inl rfl
    | core | stall => exact .inl rfl
  · have hcore : i.turn ≠ .core := fun hcore => hread (by
      rw [HandlerReads, handlerAccess, if_pos hcore, hfresh]
      rfl)
    have hstill : s.stepHandler M i = s.handler := by
      rw [stepHandler, hfresh]
      cases hturn : i.turn <;> first | rfl | exact absurd hturn hcore
    rw [hstill]
    exact .inr hfresh

theorem acking_step (h : Acking status s.handler) :
    Acking status (s.step M i).handler ∨ Unread (s.step M i).handler := by
  change Acking status (s.stepHandler M i) ∨ Unread (s.stepHandler M i)
  obtain ⟨p, hp, honly⟩ := h
  unfold stepHandler
  split
  · next hnone => rw [hp] at hnone; cases hnone
  · exact .inr (.inl rfl)
  · next p₀ _ _ hsome =>
    rw [hp] at hsome
    cases hsome
    refine .inl ⟨_, rfl, honly.step (fun _ _ => ?_) _⟩
    trivial
  · exact .inl ⟨p, hp, honly⟩

theorem acking_of_reads (hfresh : s.handler = some Firmware.pidInterruptHandler) (hread : s.HandlerReads i) :
    Acking s.pid.statusQ (s.step M i).handler := by
  obtain ⟨k, hk, hrest⟩ := handler_acksOnly
  have hacc : s.access i = some (.load pidStatus) := (access_of_handler hfresh).trans hread
  have hstep : s.stepHandler M i = some (k s.pid.statusQ) := by
    have hcore := (exists_handler_of_access hread).1
    rw [stepHandler, hcore, hfresh, answer_status hacc, hk]
    rfl
  exact ⟨_, hstep, hrest _⟩

theorem fresh_of_reads (h : Unread s.handler ∨ ∃ status, Acking status s.handler) (hread : s.HandlerReads i) :
    s.handler = some Firmware.pidInterruptHandler := by
  obtain ⟨-, p, hp, hacc⟩ := exists_handler_of_access hread
  rcases h with (hnone | hfresh) | ⟨status, q, hq, honly⟩
  · rw [hnone] at hp
    cases hp
  · exact hfresh
  · rw [hq] at hp
    cases hp
    exact absurd rfl (honly.access hacc).1

theorem not_acks_of_unread (h : Unread s.handler) : ¬s.HandlerAcks i := by
  rintro ⟨value, hacc⟩
  obtain ⟨-, p, hp, hacc⟩ := exists_handler_of_access hacc
  rcases h with hnone | hfresh
  · rw [hnone] at hp
    cases hp
  · rw [hfresh] at hp
    cases hp
    cases hacc

end SystemState

/-! ### Runs -/

section

variable {M : Nat} {inp : Nat → SystemIn}

/-- The system before cycle `t`. -/
def systemRun (M : Nat) (inp : Nat → SystemIn) : Nat → SystemState := Clocked.run (SystemState.step M) .reset inp

theorem handler_run (t : Nat) :
    Unread (systemRun M inp t).handler ∨ ∃ status, Acking status (systemRun M inp t).handler := by
  induction t with
  | zero => exact .inl (.inl rfl)
  | succ t ih =>
    by_cases hread : (systemRun M inp t).HandlerReads (inp t)
    · exact .inr ⟨_, SystemState.acking_of_reads (SystemState.fresh_of_reads ih hread) hread⟩
    · rcases ih with hunread | ⟨status, hacking⟩
      · exact .inl (SystemState.unread_step hunread hread)
      · exact (SystemState.acking_step hacking).symm.imp_right fun h => ⟨status, h⟩

variable {t₁ t₂ : Nat} (hread : (systemRun M inp t₁).HandlerReads (inp t₁))
  (hack : (systemRun M inp t₂).HandlerAcks (inp t₂))
  (hlast : ∀ t, t₁ < t → t < t₂ → ¬(systemRun M inp t).HandlerReads (inp t))

include hlast in
/-- Without a new read the handler that acknowledges is the one that was running before. -/
theorem unread_until {t : Nat} (ht : t₁ < t) (h : Unread (systemRun M inp t).handler) {d : Nat}
    (hd : t + d ≤ t₂) : Unread (systemRun M inp (t + d)).handler := by
  induction d with
  | zero => exact h
  | succ d ih => exact SystemState.unread_step (ih (by omega)) (hlast (t + d) (by omega) (by omega))

include hread hack hlast in
theorem acking_between {t : Nat} (ht : t₁ < t) (ht₂ : t ≤ t₂) :
    Acking (systemRun M inp t₁).pid.statusQ (systemRun M inp t).handler := by
  have hnot {t : Nat} (ht : t₁ < t) (ht₂ : t ≤ t₂) (h : Unread (systemRun M inp t).handler) : False := by
    obtain ⟨d, rfl⟩ := Nat.exists_eq_add_of_le ht₂
    exact SystemState.not_acks_of_unread (unread_until hlast ht h (Nat.le_refl _)) hack
  induction t, ht using Nat.le_induction with
  | base => exact SystemState.acking_of_reads (SystemState.fresh_of_reads (handler_run t₁) hread) hread
  | succ t ht ih =>
    exact (SystemState.acking_step (ih (by omega))).resolve_right fun h => hnot (by omega) ht₂ h

include hread hack hlast in
/-- The handler clears no bit that it has not read. -/
theorem not_acked {a : Axis} (hbit : (systemRun M inp t₁).pid.statusBit a = false) {t : Nat} (ht : t₁ ≤ t)
    (ht₂ : t ≤ t₂) : PidState.acks ((systemRun M inp t).pidIn (inp t)) a = false := by
  rcases Nat.eq_or_lt_of_le ht with rfl | hlt
  · exact SystemState.acks_of_reads hread
  · exact SystemState.acks_of_acking (acking_between hread hack hlast hlt ht₂) hbit

include hread hack hlast in
theorem pending_after_ack {a : Axis} (hbit : (systemRun M inp t₁).pid.statusBit a = false) {e : Nat}
    (he : t₁ ≤ e) (he₂ : e ≤ t₂) (hevent : (systemRun M inp e).pid.event a = true) :
    (systemRun M inp (t₂ + 1)).pid.statusBit a = true := by
  obtain ⟨d, rfl⟩ := Nat.exists_eq_add_of_le he₂
  have hkept : ∀ j ≤ d, (systemRun M inp (e + j + 1)).pid.statusBit a = true := by
    intro j hj
    induction j with
    | zero =>
      exact PidState.statusBit_step_of_event hevent (not_acked hread hack hlast hbit he (by omega))
    | succ j ih =>
      exact PidState.statusBit_step_of_statusBit (ih (by omega))
        (not_acked hread hack hlast hbit (by omega : t₁ ≤ e + j + 1) (by omega))
  exact hkept d (Nat.le_refl d)

end

/-- An event raises its STATUS bit and the interrupt unless it is acknowledged in the same cycle; only an
acknowledgement lowers the bit; and an event from the handler's read on is pending after its acknowledgement,
unless the bit was read as 1. -/
theorem status_events (M : Nat) :
    (∀ inp t a, (pidRun M inp t).event a = true → PidState.acks (inp t) a = false →
      (pidRun M inp (t + 1)).statusBit a = true ∧ (pidRun M inp (t + 1)).irqO = true) ∧
    (∀ inp t a, (pidRun M inp t).statusBit a = true → (pidRun M inp (t + 1)).statusBit a = false →
      PidState.acks (inp t) a = true) ∧
    ∀ (inp : Nat → SystemIn) (a : Axis) (t₁ t₂ e : Nat), (systemRun M inp t₁).HandlerReads (inp t₁) →
      (systemRun M inp t₂).HandlerAcks (inp t₂) →
      (∀ t, t₁ < t → t < t₂ → ¬(systemRun M inp t).HandlerReads (inp t)) →
      ((systemRun M inp t₁).answer M (inp t₁) &&& a.bit != 0) = false →
      t₁ ≤ e → e ≤ t₂ → (systemRun M inp e).pid.event a = true →
      (systemRun M inp (t₂ + 1)).pid.statusBit a = true ∧ (systemRun M inp (t₂ + 1)).pid.irqO = true := by
  refine ⟨fun inp t a hevent hack => ?_, fun inp t a hbit hlow => ?_,
    fun inp a t₁ t₂ e hread hack hlast hbit he he₂ hevent => ?_⟩
  · have hset : (pidRun M inp (t + 1)).statusBit a = true := PidState.statusBit_step_of_event hevent hack
    exact ⟨hset, PidState.irqO_of_statusBit hset⟩
  · by_contra hack
    have hset : (pidRun M inp (t + 1)).statusBit a = true :=
      PidState.statusBit_step_of_statusBit hbit (Bool.eq_false_iff.2 hack)
    rw [hlow] at hset
    cases hset
  · obtain ⟨-, p, hp, -⟩ := SystemState.exists_handler_of_access hread
    rw [answer_status ((SystemState.access_of_handler hp).trans hread)] at hbit
    have hset := pending_after_ack hread hack hlast hbit he he₂ hevent
    exact ⟨hset, PidState.irqO_of_statusBit hset⟩

/-- `main` sets the gains from the bytes 2, 2, 2, …. The handler runs from cycle 36 on for the first events of
both axes and from cycle 46 on for the second event of X; the second event of Y comes in cycle 48. -/
def secondEvents (t : Nat) : SystemIn where
  turn := if t = 36 ∨ t = 46 then .interrupt else .core
  resp := 2
  hwPvI a := if a = .x ∧ t = 42 ∨ a = .y ∧ t = 45 then 1 else 0

theorem status_events_second :
    ((pidRun 2 (fun _ => ⟨.idle, fun _ => 0⟩) 3).statusBit .x = true) ∧
      (systemRun 2 secondEvents 50).pid.statusBit .y = true := by
  refine ⟨((status_events 2).1 _ 2 .x (by decide) (by decide)).1, ?_⟩
  refine ((status_events 2).2.2 secondEvents .y 47 49 48 (by decide +kernel) ⟨1, by decide +kernel⟩
    (fun t h₁ h₂ => ?_) (by decide +kernel) (by decide) (by decide) (by decide +kernel)).1
  obtain rfl : t = 48 := by omega
  decide +kernel

/-- Neither motion nor requests, but for a write of 3 to STATUS in the cycle of the first events. -/
def ackFirst (t : Nat) : PidIn := ⟨if t = 100000 then ⟨true, 0, true, 0xF, 3⟩ else .idle, fun _ => 0⟩

theorem ackFirst_reg (a : Axis) (r : PidReg) {t : Nat} (ht : t ≤ 100000) : (pidRun 100000 ackFirst t).reg a r = 0 := by
  induction t with
  | zero => rfl
  | succ t ih =>
    have hidle : (ackFirst t).reqI = false := by
      rw [ackFirst, if_neg (by omega)]
      rfl
    rw [pidRun, Clocked.run_succ, ← pidRun, PidState.reg_step, ObiRegState.swWe_idle hidle, if_neg (by simp),
      ih (by omega)]

theorem ackFirst_event (a : Axis) : (pidRun 100000 ackFirst 100000).event a = true := by
  have hrun : PidRun 100000 (pidRun 100000 ackFirst) ackFirst := fun _ => rfl
  refine (hrun.event_iff rfl (by decide)).2 ⟨0, (Nat.zero_add _).symm, ?_, ?_⟩
  · exact fun c hc => absurd hc (Nat.succ_ne_zero c).symm
  · exact fun u _ hu => PidController.response_eq_zero (ackFirst_reg a .kp (by omega)) (ackFirst_reg a .kd (by omega))

theorem ackFirst_clears (a : Axis) : (pidRun 100000 ackFirst (100000 + 1)).statusBit a = false := by
  have hack : PidState.acks (ackFirst 100000) a = true := by cases a <;> decide
  rw [pidRun, Clocked.run_succ, ← pidRun, PidState.statusBit_step, hack, Bool.not_true, Bool.and_false]

/-- The first events of both axes come in cycle 100000, and a write of 3 to STATUS in that cycle takes them away. -/
theorem ack_wins : (pidRun 100000 ackFirst 100000).event .x = true ∧ (pidRun 100000 ackFirst 100000).event .y = true ∧
    (pidRun 100000 ackFirst (100000 + 1)).statusBit .x = false ∧
    (pidRun 100000 ackFirst (100000 + 1)).irqO = false := by
  refine ⟨ackFirst_event .x, ackFirst_event .y, ackFirst_clears .x, ?_⟩
  exact Bool.or_eq_false_iff.2 ⟨ackFirst_clears .x, ackFirst_clears .y⟩

end PenPlotter
