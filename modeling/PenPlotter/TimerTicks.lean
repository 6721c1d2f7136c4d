import PenPlotter.StreamTick
import PenPlotter.TimerCmp

/-!
# The firmware with its timer (`sw/main.c`, `rtl/obi_sys_timer.sv`)

`main` and `machine_timer_handler` run beside the timer: the handler starts only while the timer asks for it, and what
it reads and writes are the registers of the timer. Each run of the handler moves the compare value a period past what
it has read, so two ticks are more than a period apart, however long the handler and the reports take, and the next
interrupt is raised exactly a period after that read (`ticks_apart`).
-/

namespace PenPlotter

open Mmio Prog SysTimerState

structure TimedIn where
  turn : Turn
  /-- What the other devices and globals answer. -/
  resp : BitVec 32

structure TimedState where
  stream : StreamState
  timer : SysTimerState

namespace TimedState

variable (s : TimedState) (i : TimedIn)

/-- The core takes the interrupt only while the timer raises it. -/
def turn : Turn := if i.turn = .interrupt ∧ s.timer.irqO = false then .stall else i.turn

/-- The port of the timer. -/
def port : ObiIn := (s.stream.access ⟨s.turn i, i.resp⟩).elim .idle Access.timerRequest

def streamIn : StreamIn where
  turn := s.turn i
  resp := if (s.port i).reqI then (s.timer.step (s.port i)).regs.rdataO else i.resp

def step : TimedState where
  stream := s.stream.step (s.streamIn i)
  timer := s.timer.step (s.port i)

end TimedState

/-- An access that stores nothing in the timer. -/
def Access.OffTimer (a : Access) : Prop := ∀ addr value, a = .store addr value → timerSelected addr = false

/-- An access of the handler: it stores in the compare value only. -/
def Access.OnCompare (a : Access) : Prop := ∀ addr value, a = .store addr value → addr = mtimecmpLo ∨ addr = mtimecmpHi

theorem Access.Quiet.offTimer {a : Access} (h : a.Quiet) : a.OffTimer := by
  rintro addr value rfl
  rw [show addr = uartTx from h]
  decide

theorem Command.Action.offTimer {a : Access} {c : Command} (h : c.Action a) : a.OffTimer := by
  rintro addr value rfl
  cases c with
  | sts | stream => cases h
  | rst => rcases h with h | h | h | h <;> cases h <;> decide
  | set loc w =>
    rcases h with ⟨-, h | h⟩ | ⟨-, h | h⟩ | ⟨-, h | h⟩ | ⟨-, h | h⟩ | ⟨-, h | h⟩ | ⟨-, h⟩ <;> cases h <;> decide

theorem Access.OfMain.offTimer {a : Access} (h : a.OfMain) : a.OffTimer := by
  rcases h with h | ⟨_, rfl⟩ | ⟨_, _, rfl⟩ | ⟨_, rfl⟩ | ⟨_, h⟩
  · exact h.offTimer
  · exact nofun
  · exact nofun
  · exact nofun
  · exact h.offTimer

theorem body_offTimer (l : Firmware.Locals) : (Firmware.body l).Only Access.OffTimer fun _ => True :=
  (body_only l).allow fun _ => Access.OfMain.offTimer

theorem machineTimerHandler_onCompare (h : TimerHandler) :
    (Firmware.machineTimerHandler h).Only Access.OnCompare fun _ => True := by
  refine machineTimerHandler_only ?_ ?_ ?_ (fun addr value haddr => ?_) h
  · simp [Access.OnCompare]
  · simp [Access.OnCompare]
  · simp [Access.OnCompare]
  · intro addr' value' heq
    cases heq
    exact haddr

/-- A request that leaves the register of the timer alone. -/
theorem writes_of_offTimer {a : Access} (h : a.OffTimer) (r : Fin TimerRegCount) :
    a.timerRequest.writes timerCfg r = false := by
  cases a with
  | store addr value =>
    rw [Access.timerRequest, if_neg (by rw [h addr value rfl]; exact Bool.false_ne_true)]
    rfl
  | load addr =>
    rw [Access.timerRequest]
    split
    · simp [ObiIn.writes]
    · rfl
  | _ => rfl

theorem writes_of_onCompare {a : Access} (h : a.OnCompare) {r : Fin TimerRegCount} (hr : r.val < 3) :
    a.timerRequest.writes timerCfg r = false := by
  cases a with
  | store addr value =>
    have hword : (⟨true, addr, true, 0xF, value⟩ : ObiIn).word timerCfg ≠ r.val := by
      rcases h addr value rfl with rfl | rfl
      · exact fun heq => by
          have hlo : mtimecmpLo.toNat % 2 ^ 8 / 4 = r.val := heq
          rw [show mtimecmpLo.toNat % 2 ^ 8 / 4 = 3 by decide] at hlo
          omega
      · exact fun heq => by
          have hhi : mtimecmpHi.toNat % 2 ^ 8 / 4 = r.val := heq
          rw [show mtimecmpHi.toNat % 2 ^ 8 / 4 = 4 by decide] at hhi
          omega
    rw [Access.timerRequest]
    split
    · rw [ObiIn.writes, beq_false_of_ne hword, Bool.and_false]
    · rfl
  | load addr =>
    rw [Access.timerRequest]
    split
    · simp [ObiIn.writes]
    · rfl
  | _ => rfl

/-! ### The run -/

/-- The latest cycle before `t` in which `P` held. -/
def LastBefore (P : Nat → Prop) (b t : Nat) : Prop := P b ∧ b < t ∧ ∀ j, b < j → j < t → ¬ P j

theorem LastBefore.new {P : Nat → Prop} {t : Nat} (h : P t) : LastBefore P t (t + 1) :=
  ⟨h, Nat.lt_succ_self t, fun j hj hjt => by omega⟩

theorem LastBefore.succ {P : Nat → Prop} {b t : Nat} (h : LastBefore P b t) (ht : ¬ P t) :
    LastBefore P b (t + 1) := by
  refine ⟨h.1, Nat.lt_succ_of_lt h.2.1, fun j hj hjt => ?_⟩
  rcases Nat.lt_succ_iff_lt_or_eq.1 hjt with hlt | rfl
  · exact h.2.2 j hj hlt
  · exact ht

theorem LastBefore.unique {P : Nat → Prop} {b b' t : Nat} (h : LastBefore P b t) (h' : LastBefore P b' t) : b = b' := by
  rcases Nat.lt_trichotomy b b' with hlt | heq | hlt
  · exact absurd h'.1 (h.2.2 b' hlt h'.2.1)
  · exact heq
  · exact absurd h.1 (h'.2.2 b hlt h.2.1)

section Run

variable (s₀ : SysTimerState) (inp : Nat → TimedIn)

/-- From `while (1)` on, before cycle `t`. -/
def timedRun : Nat → TimedState := Clocked.run TimedState.step ⟨.initial, s₀⟩ inp

/-- What the firmware sees. -/
def streamIns (t : Nat) : StreamIn := (timedRun s₀ inp t).streamIn (inp t)

/-- The handler makes the access in cycle `t`. -/
def HandlerDoes (a : Access) (t : Nat) : Prop :=
  (streamRun (streamIns s₀ inp) t).handlerAccess (streamIns s₀ inp t) = some a

theorem timedRun_stream (t : Nat) : (timedRun s₀ inp t).stream = streamRun (streamIns s₀ inp) t := by
  induction t with
  | zero => rfl
  | succ t ih =>
    change (timedRun s₀ inp t).stream.step (streamIns s₀ inp t) = _
    rw [ih]
    rfl

def timedPort (t : Nat) : ObiIn := (timedRun s₀ inp t).port (inp t)

variable {s₀ inp} {t : Nat}

theorem timedRun_timer (t : Nat) :
    (timedRun s₀ inp (t + 1)).timer = (timedRun s₀ inp t).timer.step (timedPort s₀ inp t) := rfl

variable (s₀ inp) in
theorem timedPort_eq (t : Nat) : timedPort s₀ inp t =
    ((streamRun (streamIns s₀ inp) t).access (streamIns s₀ inp t)).elim .idle Access.timerRequest := by
  rw [← timedRun_stream]
  rfl

section Stream

variable {ins : Nat → StreamIn} {allowed : Access → Prop}

theorem main_only (hbody : ∀ l, (Firmware.body l).Only allowed fun _ => True) (t : Nat) :
    (streamRun ins t).main.Only allowed fun _ => True := by
  induction t with
  | zero => trivial
  | succ t ih =>
    change (if (streamRun ins t).mainGo (ins t) then _ else (streamRun ins t).main).Only _ _
    split
    · exact ih.step (fun l _ => hbody l) _
    · exact ih

theorem handler_only (hbody : ∀ h, (Firmware.machineTimerHandler h).Only allowed fun _ => True) (t : Nat) :
    ∀ p, (streamRun ins t).handler = some p → p.Only allowed fun _ => True := by
  induction t with
  | zero => exact fun p h => by cases h
  | succ t ih =>
    intro p hp
    change (streamRun ins t).stepHandler (ins t) = some p at hp
    unfold StreamState.stepHandler at hp
    split at hp
    · cases hp
      exact hbody .enter
    · cases hp
    next q _ _ hq =>
      cases hp
      exact (ih q hq).step (fun h _ => hbody h) _
    · exact ih p hp

theorem handlerAccess_only (hbody : ∀ h, (Firmware.machineTimerHandler h).Only allowed fun _ => True) {a : Access}
    (h : (streamRun ins t).handlerAccess (ins t) = some a) : allowed a := by
  unfold StreamState.handlerAccess at h
  split at h
  · obtain ⟨p, hp, hacc⟩ := Option.bind_eq_some_iff.1 h
    exact (handler_only hbody t p hp).access hacc
  · cases h

theorem mainAccess_only (hbody : ∀ l, (Firmware.body l).Only allowed fun _ => True) {a : Access}
    (h : (streamRun ins t).mainAccess (ins t) = some a) : allowed a := by
  unfold StreamState.mainAccess at h
  split at h
  · exact (main_only hbody t).access h
  · cases h

end Stream

/-- A register below the compare value is left alone. -/
theorem timedPort_writes {r : Fin TimerRegCount} (hr : r.val < 3) :
    (timedPort s₀ inp t).writes timerCfg r = false := by
  rw [timedPort_eq]
  cases hacc : (streamRun (streamIns s₀ inp) t).access (streamIns s₀ inp t) with
  | none => rfl
  | some a =>
    rcases Option.or_eq_some_iff.1 hacc with hhandler | ⟨-, hmain⟩
    · exact writes_of_onCompare (handlerAccess_only machineTimerHandler_onCompare hhandler) hr
    · exact writes_of_offTimer (mainAccess_only body_offTimer hmain) r

/-- Where the handler accesses nothing, the compare value stays. -/
theorem timedPort_keepsCmp (h : (streamRun (streamIns s₀ inp) t).handlerAccess (streamIns s₀ inp t) = none) :
    KeepsCmp (timedPort s₀ inp t) := by
  rw [timedPort_eq, StreamState.access, h, Option.none_or]
  cases hmain : (streamRun (streamIns s₀ inp) t).mainAccess (streamIns s₀ inp t) with
  | none => exact .idle
  | some a =>
    have hoff : a.OffTimer := mainAccess_only body_offTimer hmain
    exact ⟨writes_of_offTimer hoff _, writes_of_offTimer hoff _⟩

variable (s₀ inp) in
theorem control_kept (t : Nat) : (timedRun s₀ inp t).timer.regs.q controlLane = s₀.regs.q controlLane := by
  induction t with
  | zero => rfl
  | succ t ih =>
    rw [timedRun_timer, q_step_other _ _ (by decide) (by decide), ObiIn.written_eq_none (timedPort_writes (by decide))]
    exact ih

theorem enable_kept (hen : s₀.enable = true) (t : Nat) : (timedRun s₀ inp t).timer.enable = true := by
  rw [enable, control_kept]
  exact hen

/-- `mtime` in cycle `t`. -/
theorem mtime_timed (hen : s₀.enable = true) (t : Nat) :
    (timedRun s₀ inp t).timer.mtime = s₀.mtime + BitVec.ofNat 64 t := by
  induction t with
  | zero => exact (BitVec.add_zero _).symm
  | succ t ih =>
    have hkeep : KeepsMtime (timedPort s₀ inp t) := ⟨timedPort_writes (by decide), timedPort_writes (by decide)⟩
    rw [timedRun_timer, mtime_step_of_keeps hkeep, if_pos (enable_kept hen t), ih, BitVec.ofNat_add, BitVec.add_assoc]
    rfl

theorem toNat_mtime_timed (hen : s₀.enable = true) (ht : s₀.mtime.toNat + t < 2 ^ 64) :
    (timedRun s₀ inp t).timer.mtime.toNat = s₀.mtime.toNat + t := by
  rw [mtime_timed hen, BitVec.toNat_add, BitVec.toNat_ofNat, Nat.add_mod_mod, Nat.mod_eq_of_lt ht]

variable (s₀ inp) in
def handlerAt (t : Nat) : Option (Firmware TimerHandler) := (streamRun (streamIns s₀ inp) t).handler

variable (s₀ inp) in
def turnAt (t : Nat) : Turn := (streamIns s₀ inp t).turn

variable (s₀ inp) in
theorem turnAt_eq (t : Nat) : turnAt s₀ inp t =
    if (inp t).turn = .interrupt ∧ (timedRun s₀ inp t).timer.irqO = false then .stall else (inp t).turn := rfl

variable {p : Firmware TimerHandler} {k : BitVec 32 → Firmware TimerHandler} {addr : BitVec 32}

theorem handlerAccess_of_core (hturn : turnAt s₀ inp t = .core) (hp : handlerAt s₀ inp t = some p) :
    (streamRun (streamIns s₀ inp) t).handlerAccess (streamIns s₀ inp t) = p.access := by
  refine (if_pos (beq_iff_eq.2 hturn)).trans ?_
  rw [← handlerAt, hp]
  rfl

theorem handlerAccess_of_wait (hturn : turnAt s₀ inp t ≠ .core) :
    (streamRun (streamIns s₀ inp) t).handlerAccess (streamIns s₀ inp t) = none :=
  if_neg fun h => hturn (beq_iff_eq.1 h)

theorem handlerAccess_of_none (hp : handlerAt s₀ inp t = none) :
    (streamRun (streamIns s₀ inp) t).handlerAccess (streamIns s₀ inp t) = none := by
  rw [StreamState.handlerAccess, ← handlerAt, hp]
  exact ite_self _

theorem handlerAt_of_wait (hturn : turnAt s₀ inp t ≠ .core) (hp : handlerAt s₀ inp t = some p) :
    handlerAt s₀ inp (t + 1) = some p := by
  change (streamRun (streamIns s₀ inp) t).stepHandler (streamIns s₀ inp t) = _
  rw [StreamState.stepHandler, ← handlerAt, hp, ← turnAt]
  cases hcase : turnAt s₀ inp t with
  | core => exact absurd hcase hturn
  | _ => rfl

theorem handlerAt_of_act {a : Access} (hturn : turnAt s₀ inp t = .core) (hp : handlerAt s₀ inp t = some (.act a k)) :
    handlerAt s₀ inp (t + 1) =
      some (k ((streamRun (streamIns s₀ inp) t).answer (streamIns s₀ inp t))) := by
  change (streamRun (streamIns s₀ inp) t).stepHandler (streamIns s₀ inp t) = _
  rw [StreamState.stepHandler, ← handlerAt, hp, ← turnAt, hturn]
  rfl

theorem handlerAt_of_ret {h : TimerHandler} (hturn : turnAt s₀ inp t = .core)
    (hp : handlerAt s₀ inp t = some (.ret h)) (hdone : h ≠ .done) :
    handlerAt s₀ inp (t + 1) = some (Firmware.machineTimerHandler h) := by
  change (streamRun (streamIns s₀ inp) t).stepHandler (streamIns s₀ inp t) = _
  rw [StreamState.stepHandler, ← handlerAt, hp, ← turnAt, hturn]
  cases h with
  | done => exact absurd rfl hdone
  | _ => rfl

theorem handlerAt_of_done (hturn : turnAt s₀ inp t = .core) (hp : handlerAt s₀ inp t = some (.ret .done)) :
    handlerAt s₀ inp (t + 1) = none := by
  change (streamRun (streamIns s₀ inp) t).stepHandler (streamIns s₀ inp t) = _
  rw [StreamState.stepHandler, ← handlerAt, hp, ← turnAt, hturn]

theorem timedPort_of_access {a : Access} (hturn : turnAt s₀ inp t = .core)
    (hp : handlerAt s₀ inp t = some (.act a k)) : timedPort s₀ inp t = a.timerRequest := by
  rw [timedPort_eq, StreamState.access, handlerAccess_of_core hturn hp]
  rfl

/-- A load of the handler is answered by the timer. -/
theorem handlerAt_load {r : Fin TimerRegCount} (hturn : turnAt s₀ inp t = .core)
    (hp : handlerAt s₀ inp t = some (.act (.load addr) k)) (hsel : timerSelected addr = true)
    (hword : (⟨true, addr, false, 0xF, 0⟩ : ObiIn).word timerCfg = r.val) :
    handlerAt s₀ inp (t + 1) = some (k ((timedRun s₀ inp t).timer.regs.q r)) ∧
      (timedRun s₀ inp (t + 1)).timer.mtimeCmp = (timedRun s₀ inp t).timer.mtimeCmp := by
  have hport : timedPort s₀ inp t = ⟨true, addr, false, 0xF, 0⟩ :=
    (timedPort_of_access hturn hp).trans (if_pos hsel)
  have hans : (streamRun (streamIns s₀ inp) t).answer (streamIns s₀ inp t) = (timedRun s₀ inp t).timer.regs.q r := by
    have hacc : (streamRun (streamIns s₀ inp) t).access (streamIns s₀ inp t) = some (.load addr) := by
      rw [StreamState.access, handlerAccess_of_core hturn hp]
      rfl
    have herr : (⟨true, addr, false, 0xF, 0⟩ : ObiIn).err timerCfg = false := by
      rw [ObiIn.err_eq (by decide), ObiIn.faulty, hword, decide_eq_false (Nat.not_le.2 r.isLt)]
      rfl
    rw [StreamState.answer, hacc, if_neg (by simp)]
    refine (if_pos (congrArg ObiIn.reqI hport)).trans ?_
    rw [← timedPort, hport]
    exact ObiRegState.rdataO_of_read (i := (timedRun s₀ inp t).timer.regsIn ⟨true, addr, false, 0xF, 0⟩) rfl rfl rfl
      hword herr
  refine ⟨by rw [handlerAt_of_act hturn hp, hans], ?_⟩
  rw [timedRun_timer, hport]
  exact mtimeCmp_step_of_keeps (by simp [KeepsCmp, ObiIn.writes])

theorem handlerAt_store {w : BitVec 32} (hturn : turnAt s₀ inp t = .core)
    (hp : handlerAt s₀ inp t = some (.act (.store addr w) k)) (hsel : timerSelected addr = true) :
    (∃ v, handlerAt s₀ inp (t + 1) = some (k v)) ∧
      (timedRun s₀ inp (t + 1)).timer = (timedRun s₀ inp t).timer.step ⟨true, addr, true, 0xF, w⟩ := by
  refine ⟨⟨_, handlerAt_of_act hturn hp⟩, ?_⟩
  rw [timedRun_timer, timedPort_of_access hturn hp, Access.timerRequest, if_pos hsel]

/-! ### Where the handler stands -/

variable (s₀ inp) in
def timeAt (t : Nat) : BitVec 64 := (timedRun s₀ inp t).timer.mtime

variable (s₀ inp) in
def cmpAt (t : Nat) : BitVec 64 := (timedRun s₀ inp t).timer.mtimeCmp

/-- `mtime` is past no wrap, so its high half does not come back. -/
theorem mtimeHigh_timeAt {a b c : Nat} (hen : s₀.enable = true) (hc : s₀.mtime.toNat + c < 2 ^ 64) (hab : a ≤ b)
    (hbc : b ≤ c) (h : mtimeHigh (timeAt s₀ inp a) = mtimeHigh (timeAt s₀ inp c)) :
    mtimeHigh (timeAt s₀ inp b) = mtimeHigh (timeAt s₀ inp c) := by
  have hnat := congrArg BitVec.toNat h
  refine BitVec.eq_of_toNat_eq ?_
  rw [toNat_mtimeHigh, toNat_mtimeHigh] at hnat ⊢
  rw [timeAt, timeAt, toNat_mtime_timed hen (by omega), toNat_mtime_timed hen hc] at hnat ⊢
  omega

variable (s₀ inp) in
/-- The handler after the tick of cycle `k`, with the compare value that it has reached. The value that it has read is
that of `mtime` when it last read `MTIME_LO`. -/
inductive Handling (k t : Nat) : Firmware TimerHandler → BitVec 64 → Prop
  | again {cmp} : Handling k t (.ret (.reading none)) cmp
  | first {cmp} : Handling k t (Firmware.machineTimerHandler (.reading none)) cmp
  | second {a cmp} (hka : k < a) (hat : a < t) :
    Handling k t (afterHi (mtimeHigh (timeAt s₀ inp a)) >>= fun mtime => .ret (.reading mtime)) cmp
  | third {a b cmp} (hka : k < a) (hab : a < b) (hb : LastBefore (HandlerDoes s₀ inp (.load mtimeLo)) b t) :
    Handling k t (afterLo (mtimeHigh (timeAt s₀ inp a)) ((timeAt s₀ inp b).setWidth 32) >>=
      fun mtime => .ret (.reading mtime)) cmp
  | read {b cmp} (hkb : k < b) (hb : LastBefore (HandlerDoes s₀ inp (.load mtimeLo)) b t) :
    Handling k t (.ret (.reading (some (timeAt s₀ inp b)))) cmp
  | write {b old cmp} {code : Firmware Unit} (hkb : k < b)
    (hb : LastBefore (HandlerDoes s₀ inp (.load mtimeLo)) b t)
    (hcode : CmpWrite old (timeAt s₀ inp b + timerPeriodTicks) code cmp) :
    Handling k t (code >>= fun _ => .ret .done) cmp

variable (s₀ inp) in
/-- The handler and the compare value before cycle `t`: the next tick is a period after the last. -/
inductive TickInv (t : Nat) : Option (Firmware TimerHandler) → BitVec 64 → Prop
  | armed {cmp} (h : ∀ k, LastBefore (TickAt (streamIns s₀ inp)) k t →
      ∃ b > k, LastBefore (HandlerDoes s₀ inp (.load mtimeLo)) b t ∧ cmp = timeAt s₀ inp b + timerPeriodTicks) :
    TickInv t none cmp
  | entered {cmp} (h : ∀ k, LastBefore (TickAt (streamIns s₀ inp)) k t → k + 500000 < t) :
    TickInv t (some (Firmware.machineTimerHandler .enter)) cmp
  | handling {k p cmp} (hk : LastBefore (TickAt (streamIns s₀ inp)) k t) (h : Handling s₀ inp k t p cmp) :
    TickInv t (some p) cmp

/-- The writes are over, or the next of them moves the compare value on. -/
theorem CmpWrite.moves {old new cmp : BitVec 64} {code : Firmware Unit} (h : CmpWrite old new code cmp) :
    code = .ret () ∧ cmp = new ∨ ∃ addr w k, code = .act (.store addr w) k ∧ timerSelected addr = true ∧
      ∀ (s : SysTimerState) v, s.mtimeCmp = cmp →
        CmpWrite old new (k v) (s.step ⟨true, addr, true, 0xF, w⟩).mtimeCmp := by
  cases h with
  | first =>
    refine .inr ⟨_, _, _, rfl, by decide, fun s v hs => ?_⟩
    rw [mtimeCmp_step_lo, hs]
    exact .second
  | second =>
    refine .inr ⟨_, _, _, rfl, by decide, fun s v hs => ?_⟩
    rw [mtimeCmp_step_hi, hs, shift_eq_high, BitVec.setWidth_append_eq_right]
    exact .third
  | third =>
    refine .inr ⟨_, _, _, rfl, by decide, fun s v hs => ?_⟩
    rw [mtimeCmp_step_lo, hs, mtimeHigh, BitVec.extractLsb'_append_eq_left, mtimeHigh, hi_append_lo]
    exact .done
  | done => exact .inl ⟨rfl, rfl⟩

theorem CmpWrite.access_store {old new cmp : BitVec 64} {code : Firmware Unit} (h : CmpWrite old new code cmp)
    {a : Access} (ha : (code >>= fun _ => (.ret .done : Firmware TimerHandler)).access = some a) :
    ∃ addr w, a = .store addr w := by
  rcases h.moves with ⟨rfl, -⟩ | ⟨addr, w, k, rfl, -, -⟩
  · cases ha
  · cases ha
    exact ⟨addr, w, rfl⟩

theorem Handling.no_tick {k : Nat} {cmp : BitVec 64} (h : Handling s₀ inp k t p cmp) :
    p.access ≠ some (.set .print 1) := by
  intro hacc
  cases h with
  | write hkb hb hcode =>
    obtain ⟨_, _, hstore⟩ := hcode.access_store hacc
    cases hstore
  | _ => cases hacc

theorem Handling.wait {k : Nat} {cmp : BitVec 64} (h : Handling s₀ inp k t p cmp)
    (hread : ¬ HandlerDoes s₀ inp (.load mtimeLo) t) : Handling s₀ inp k (t + 1) p cmp := by
  cases h with
  | again => exact .again
  | first => exact .first
  | second hka hat => exact .second hka (Nat.lt_succ_of_lt hat)
  | third hka hab hb => exact .third hka hab (hb.succ hread)
  | read hkb hb => exact .read hkb (hb.succ hread)
  | write hkb hb hcode => exact .write hkb (hb.succ hread) hcode

theorem LastBefore.pred {P : Nat → Prop} {k t : Nat} (h : LastBefore P k (t + 1)) (ht : ¬ P t) : LastBefore P k t := by
  have hne : k ≠ t := fun heq => ht (heq ▸ h.1)
  exact ⟨h.1, by have := h.2.1; omega, fun j hj hjt => h.2.2 j hj (Nat.lt_succ_of_lt hjt)⟩

theorem handlerDoes_iff {a : Access} (hturn : turnAt s₀ inp t = .core) (hp : handlerAt s₀ inp t = some p) :
    HandlerDoes s₀ inp a t ↔ p.access = some a := by
  rw [HandlerDoes, handlerAccess_of_core hturn hp]

theorem cmpAt_kept (h : (streamRun (streamIns s₀ inp) t).handlerAccess (streamIns s₀ inp t) = none) :
    cmpAt s₀ inp (t + 1) = cmpAt s₀ inp t := mtimeCmp_step_of_keeps (timedPort_keepsCmp h)

/-- A step of the writes, or the return after the last of them. -/
theorem CmpWrite.go {old new : BitVec 64} {code : Firmware Unit} (hturn : turnAt s₀ inp t = .core)
    (hp : handlerAt s₀ inp t = some (code >>= fun _ => .ret .done)) (h : CmpWrite old new code (cmpAt s₀ inp t)) :
    (∃ code', handlerAt s₀ inp (t + 1) = some (code' >>= fun _ => .ret .done) ∧
      CmpWrite old new code' (cmpAt s₀ inp (t + 1))) ∨
      handlerAt s₀ inp (t + 1) = none ∧ cmpAt s₀ inp (t + 1) = new := by
  rcases h.moves with ⟨rfl, hnew⟩ | ⟨addr, w, k, rfl, hsel, hmove⟩
  · exact .inr ⟨handlerAt_of_done hturn hp, (cmpAt_kept (handlerAccess_of_core hturn hp)).trans hnew⟩
  · obtain ⟨⟨v, hnext⟩, htimer⟩ := handlerAt_store hturn hp hsel
    refine .inl ⟨k v, hnext, ?_⟩
    rw [cmpAt, htimer]
    exact hmove _ v rfl

/-- A step of the handler is a step within `Handling`, or its return with the compare value moved. -/
theorem Handling.go {k : Nat} (hen : s₀.enable = true) (ht : s₀.mtime.toNat + t < 2 ^ 64) (hkt : k < t)
    (hturn : turnAt s₀ inp t = .core) (hp : handlerAt s₀ inp t = some p)
    (h : Handling s₀ inp k t p (cmpAt s₀ inp t)) :
    (∃ p', handlerAt s₀ inp (t + 1) = some p' ∧ Handling s₀ inp k (t + 1) p' (cmpAt s₀ inp (t + 1))) ∨
      handlerAt s₀ inp (t + 1) = none ∧ ∃ b > k, LastBefore (HandlerDoes s₀ inp (.load mtimeLo)) b (t + 1) ∧
        cmpAt s₀ inp (t + 1) = timeAt s₀ inp b + timerPeriodTicks := by
  have hdoes (a : Access) : HandlerDoes s₀ inp a t ↔ p.access = some a := handlerDoes_iff hturn hp
  have hread (hne : p.access ≠ some (.load mtimeLo)) : ¬ HandlerDoes s₀ inp (.load mtimeLo) t := (hdoes _).not.2 hne
  generalize hcmp : cmpAt s₀ inp t = cmp at h
  cases h with
  | again =>
    exact .inl ⟨_, handlerAt_of_ret hturn hp (fun h => by cases h), .first⟩
  | first =>
    obtain ⟨hnext, -⟩ := handlerAt_load (r := mTimeHiLane) hturn hp (by decide) (by decide)
    refine .inl ⟨_, hnext, ?_⟩
    rw [← mtimeHigh_mtime]
    exact .second hkt (Nat.lt_succ_self t)
  | second hka hat =>
    obtain ⟨hnext, -⟩ := handlerAt_load (r := mTimeLoLane) hturn hp (by decide) (by decide)
    refine .inl ⟨_, hnext, ?_⟩
    rw [← setWidth_mtime]
    exact .third hka hat (.new ((hdoes _).2 rfl))
  | @third a b _ hka hab hb =>
    obtain ⟨hnext, -⟩ := handlerAt_load (r := mTimeHiLane) hturn hp (by decide) (by decide)
    refine .inl ⟨_, hnext, ?_⟩
    rw [← mtimeHigh_mtime, ← timeAt]
    beta_reduce
    by_cases hsame : mtimeHigh (timeAt s₀ inp a) = mtimeHigh (timeAt s₀ inp t)
    · have hhigh : mtimeHigh (timeAt s₀ inp b) = mtimeHigh (timeAt s₀ inp t) :=
        mtimeHigh_timeAt hen ht hab.le hb.2.1.le hsame
      rw [if_neg (by rw [hsame, bne_self_eq_false]; exact Bool.false_ne_true), join_halves, ← hhigh, mtimeHigh,
        hi_append_lo]
      exact .read (hka.trans hab) (hb.succ (hread fun h => by cases h))
    · rw [if_pos (bne_iff_ne.2 hsame)]
      exact .again
  | read hkb hb =>
    have hb' := hb.succ (hread fun h => by cases h)
    exact .inl ⟨_, handlerAt_of_ret hturn hp (fun h => by cases h), .write hkb hb' .first⟩
  | @write b old _ code hkb hb hcode =>
    have hb' := hb.succ (hread fun hacc => by
      obtain ⟨_, _, hstore⟩ := hcode.access_store hacc
      cases hstore)
    rcases CmpWrite.go hturn hp (hcmp ▸ hcode) with ⟨code', hnext, hcode'⟩ | ⟨hnext, hnew⟩
    · exact .inl ⟨_, hnext, .write hkb hb' hcode'⟩
    · exact .inr ⟨hnext, b, hkb, hb', hnew⟩

/-- The interrupt is taken only when the compare value is reached. -/
theorem cmpAt_le_of_interrupt (h : turnAt s₀ inp t = .interrupt) : cmpAt s₀ inp t ≤ timeAt s₀ inp t := by
  have hirq : (timedRun s₀ inp t).timer.irqO ≠ false := by
    intro hno
    rw [turnAt_eq] at h
    split at h
    · cases h
    next hor => exact hor ⟨h, hno⟩
  rw [irqO, Ne, Bool.not_eq_false, Bool.and_eq_true, decide_eq_true_iff] at hirq
  exact hirq.2

theorem toNat_due {b : Nat} (hen : s₀.enable = true) (hb : s₀.mtime.toNat + b + 500000 < 2 ^ 64) :
    (timeAt s₀ inp b + timerPeriodTicks).toNat = s₀.mtime.toNat + b + 500000 := by
  rw [BitVec.toNat_add, timeAt, toNat_mtime_timed hen (by omega)]
  exact Nat.mod_eq_of_lt hb

theorem due_iff {b : Nat} (hen : s₀.enable = true) (ht : s₀.mtime.toNat + t + 500000 < 2 ^ 64) (hbt : b < t) :
    timeAt s₀ inp b + timerPeriodTicks ≤ timeAt s₀ inp t ↔ b + 500000 ≤ t := by
  rw [BitVec.le_def, toNat_due hen (by omega), timeAt, toNat_mtime_timed hen (by omega)]
  omega

theorem handlerAt_of_interrupt (hturn : turnAt s₀ inp t = .interrupt) (hp : handlerAt s₀ inp t = none) :
    handlerAt s₀ inp (t + 1) = some (Firmware.machineTimerHandler .enter) := by
  change (streamRun (streamIns s₀ inp) t).stepHandler (streamIns s₀ inp t) = _
  rw [StreamState.stepHandler, ← handlerAt, hp, ← turnAt, hturn]

theorem handlerAt_of_none (hturn : turnAt s₀ inp t ≠ .interrupt) (hp : handlerAt s₀ inp t = none) :
    handlerAt s₀ inp (t + 1) = none := by
  change (streamRun (streamIns s₀ inp) t).stepHandler (streamIns s₀ inp t) = _
  rw [StreamState.stepHandler, ← handlerAt, hp, ← turnAt]
  cases hcase : turnAt s₀ inp t with
  | interrupt => exact absurd hcase hturn
  | _ => rfl

theorem tickInv_succ (hen : s₀.enable = true) (ht : s₀.mtime.toNat + t + 500000 < 2 ^ 64)
    (h : TickInv s₀ inp t (handlerAt s₀ inp t) (cmpAt s₀ inp t)) :
    TickInv s₀ inp (t + 1) (handlerAt s₀ inp (t + 1)) (cmpAt s₀ inp (t + 1)) := by
  -- where the handler makes no access, nothing is counted and the compare value stays
  have hquiet (hacc : (streamRun (streamIns s₀ inp) t).handlerAccess (streamIns s₀ inp t) = none) :
      ¬ TickAt (streamIns s₀ inp) t ∧ ¬ HandlerDoes s₀ inp (.load mtimeLo) t ∧
        cmpAt s₀ inp (t + 1) = cmpAt s₀ inp t := by
    refine ⟨?_, ?_, cmpAt_kept hacc⟩
    · rw [TickAt, StreamState.ticks, hacc]
      exact fun h => by cases h
    · rw [HandlerDoes, hacc]
      exact fun h => by cases h
  generalize hp : handlerAt s₀ inp t = handler at h
  generalize hcmp : cmpAt s₀ inp t = cmp at h
  cases h with
  | armed h =>
    obtain ⟨htick, hread, hkept⟩ := hquiet (handlerAccess_of_none hp)
    by_cases hturn : turnAt s₀ inp t = .interrupt
    · rw [handlerAt_of_interrupt hturn hp]
      refine .entered fun k hk => ?_
      obtain ⟨b, hkb, hb, hcmpb⟩ := h k (hk.pred htick)
      have hdue : timeAt s₀ inp b + timerPeriodTicks ≤ timeAt s₀ inp t := by
        rw [← hcmpb, ← hcmp]
        exact cmpAt_le_of_interrupt hturn
      have := (due_iff hen ht hb.2.1).1 hdue
      omega
    · rw [handlerAt_of_none hturn hp]
      refine .armed fun k hk => ?_
      obtain ⟨b, hkb, hb, hcmpb⟩ := h k (hk.pred htick)
      exact ⟨b, hkb, hb.succ hread, by rw [hkept, hcmp, hcmpb]⟩
  | entered h =>
    by_cases hturn : turnAt s₀ inp t = .core
    · have htick : TickAt (streamIns s₀ inp) t := (handlerDoes_iff hturn hp).2 rfl
      rw [handlerAt_of_act hturn hp]
      exact .handling (.new htick) .again
    · obtain ⟨htick, -, -⟩ := hquiet (handlerAccess_of_wait hturn)
      rw [handlerAt_of_wait hturn hp]
      refine .entered fun k hk => ?_
      have := h k (hk.pred htick)
      omega
  | handling hk h =>
    by_cases hturn : turnAt s₀ inp t = .core
    · have htick : ¬ TickAt (streamIns s₀ inp) t := fun htick =>
        h.no_tick ((handlerDoes_iff hturn hp).1 htick)
      rw [← hcmp] at h
      rcases h.go hen (by omega) hk.2.1 hturn hp with ⟨p', hnext, h'⟩ | ⟨hnext, b, hkb, hb, hnew⟩
      · rw [hnext]
        exact .handling (hk.succ htick) h'
      · rw [hnext]
        refine .armed fun k' hk' => ?_
        rw [hk'.unique (hk.succ htick)]
        exact ⟨b, hkb, hb, hnew⟩
    · obtain ⟨htick, hread, hkept⟩ := hquiet (handlerAccess_of_wait hturn)
      rw [handlerAt_of_wait hturn hp, hkept, hcmp]
      exact .handling (hk.succ htick) (h.wait hread)

theorem tickInv (hen : s₀.enable = true) (ht : s₀.mtime.toNat + t + 500000 < 2 ^ 64) :
    TickInv s₀ inp t (handlerAt s₀ inp t) (cmpAt s₀ inp t) := by
  induction t with
  | zero => exact .armed fun k hk => absurd hk.2.1 (Nat.not_lt_zero k)
  | succ t ih => exact tickInv_succ hen (by omega) (ih (by omega))

theorem exists_lastBefore {P : Nat → Prop} {t u : Nat} (h : P t) (htu : t < u) : ∃ k ≥ t, LastBefore P k u := by
  induction u, htu using Nat.le_induction with
  | base => exact ⟨t, Nat.le_refl t, .new h⟩
  | succ u htu ih =>
    obtain ⟨k, htk, hk⟩ := ih
    by_cases hu : P u
    · exact ⟨u, by omega, .new hu⟩
    · exact ⟨k, htk, hk.succ hu⟩

variable {u : Nat}

/-- Ticks are more than a period apart. Once the handler of the last tick has returned, the timer asks for the next
interrupt exactly from a period after that handler last read `MTIME_LO` on. -/
theorem ticks_apart (hen : s₀.enable = true) (hirq : s₀.irqEnable = true)
    (hu : s₀.mtime.toNat + u + 500000 < 2 ^ 64) :
    (∀ t < u, TickAt (streamIns s₀ inp) t → TickAt (streamIns s₀ inp) u → t + 500000 < u) ∧
    ∀ k, LastBefore (TickAt (streamIns s₀ inp)) k u → (timedRun s₀ inp u).stream.handler = none →
      ∃ b > k, LastBefore (HandlerDoes s₀ inp (.load mtimeLo)) b u ∧
        ((timedRun s₀ inp u).timer.irqO = true ↔ b + 500000 ≤ u) := by
  have hinv : TickInv s₀ inp u (handlerAt s₀ inp u) (cmpAt s₀ inp u) := tickInv hen hu
  generalize hp : handlerAt s₀ inp u = handler at hinv
  generalize hcmp : cmpAt s₀ inp u = cmp at hinv
  refine ⟨fun t htu ht htick => ?_, fun k hk hnone => ?_⟩
  · obtain ⟨k, htk, hk⟩ := exists_lastBefore ht htu
    have hturn : turnAt s₀ inp u = .core := by
      by_contra hturn
      have hacc := handlerAccess_of_wait hturn
      rw [TickAt, StreamState.ticks, hacc] at htick
      cases htick
    cases hinv with
    | armed h =>
      have hacc := handlerAccess_of_none hp
      rw [TickAt, StreamState.ticks, hacc] at htick
      cases htick
    | entered h => exact Nat.lt_of_le_of_lt (Nat.add_le_add_right htk _) (h k hk)
    | handling hk' h => exact absurd ((handlerDoes_iff hturn hp).1 htick) h.no_tick
  · rw [timedRun_stream, ← handlerAt, hp] at hnone
    subst hnone
    cases hinv with
    | armed h =>
      obtain ⟨b, hkb, hb, hcmpb⟩ := h k hk
      refine ⟨b, hkb, hb, ?_⟩
      have hirqu : (timedRun s₀ inp u).timer.irqEnable = true := by
        rw [irqEnable, control_kept]
        exact hirq
      rw [irqO, hirqu, enable_kept hen, Bool.and_self, Bool.true_and, decide_eq_true_iff]
      change cmpAt s₀ inp u ≤ timeAt s₀ inp u ↔ _
      rw [hcmp, hcmpb]
      exact due_iff hen hu hb.2.1

end Run

/-- Counts from 0 with its interrupt due at once. -/
def dueTimer : SysTimerState :=
  ⟨{ ObiRegState.reset timerCfg with q := fun r => if r = controlLane then 3 else 0 }⟩

/-- The interrupt is taken in cycle 0 and when it is next due, and nothing holds up its handler; the core waits in
between. -/
def takenAgain (t : Nat) : TimedIn :=
  ⟨if t = 0 ∨ t = 500020 then .interrupt else if t < 11 ∨ 500020 < t then .core else .stall, 0⟩

theorem takenAgain_stalls {t : Nat} (hlo : 11 ≤ t) (hhi : t < 500020) : turnAt dueTimer takenAgain t = .stall := by
  have hturn : (takenAgain t).turn = .stall := by
    show (if t = 0 ∨ t = 500020 then Turn.interrupt else if t < 11 ∨ 500020 < t then .core else .stall) = .stall
    rw [if_neg (by omega), if_neg (by omega)]
  rw [turnAt_eq, hturn, ite_self]

theorem takenAgain_waits {t : Nat} (hlo : 11 ≤ t) (hhi : t ≤ 500020) : handlerAt dueTimer takenAgain t = none := by
  induction t, hlo using Nat.le_induction with
  | base => rfl
  | succ t ht ih =>
    refine handlerAt_of_none ?_ (ih (by omega))
    rw [takenAgain_stalls ht (by omega)]
    decide

theorem takenAgain_early {a : Access} {t : Nat} (h : HandlerDoes dueTimer takenAgain a t) (ht : t < 500020) :
    t < 11 := by
  by_contra hlate
  have hstall := takenAgain_stalls (Nat.not_lt.1 hlate) ht
  rw [HandlerDoes, handlerAccess_of_wait (by rw [hstall]; decide)] at h
  cases h

/-- The interrupt of the second tick is due in cycle 500020. -/
theorem ticks_apart_takenAgain : TickAt (streamIns dueTimer takenAgain) 1 ∧
    TickAt (streamIns dueTimer takenAgain) 500021 ∧
    ∀ t < 500021, TickAt (streamIns dueTimer takenAgain) t → t + 500000 < 500021 := by
  have hfirst : LastBefore (TickAt (streamIns dueTimer takenAgain)) 1 500020 := by
    refine ⟨rfl, by decide, fun j hj hj' hagain => ?_⟩
    have hearly := takenAgain_early hagain hj'
    interval_cases j <;> cases hagain
  have hzero : dueTimer.mtime.toNat = 0 := by decide
  have hnone := takenAgain_waits (t := 500020) (by decide) le_rfl
  have hirq : (timedRun dueTimer takenAgain 500020).timer.irqO = true := by
    obtain ⟨b, -, hb, hdue⟩ := (ticks_apart (by decide) (by decide) (by rw [hzero]; decide)).2 1 hfirst
      (by rw [timedRun_stream]; exact hnone)
    have := takenAgain_early hb.1 hb.2.1
    exact hdue.2 (by omega)
  have hturn : turnAt dueTimer takenAgain 500020 = .interrupt := by
    rw [turnAt_eq, hirq, if_neg (by simp)]
    simp [takenAgain]
  have hentered := handlerAt_of_interrupt hturn hnone
  have htick : TickAt (streamIns dueTimer takenAgain) (500020 + 1) := handlerAccess_of_core rfl hentered
  refine ⟨rfl, htick, fun t ht h => ?_⟩
  exact (ticks_apart (by decide) (by decide) (by rw [hzero]; decide)).1 t ht h htick

end PenPlotter
