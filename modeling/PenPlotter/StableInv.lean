import PenPlotter.ObiRegRef
import PenPlotter.Stable

/-!
# The invariant behind the STABLE packet

`StableInv` relates the devices, the interrupt handler and the view of `main` to the history: while an
event is owed for an axis, its flag is clear and nothing is pending, except between the two stores of a
set command. Every undisturbed cycle keeps it (`StableInv.step`).
-/

namespace PenPlotter

open Mmio Prog

/-- The access does not write a set-point and sets only the flags in `P`. -/
def Access.SetsOnly (P : Axis → Prop) (acc : Access) : Prop :=
  (∀ a, acc.pidRequest.swWe pidCfg (PidReg.idx a .sp) = false) ∧
    ∀ (a : Axis) value, acc = .set a.flag value → P a

theorem setsOnly_status {P : Axis → Prop} : (Access.load pidStatus).SetsOnly P :=
  ⟨(neutral_load _).1, fun a value h => by cases h⟩

/-- The handler sets the flags whose bits it has read. -/
theorem handler_setsOnly (P : Axis → Prop) :
    ∃ k, Firmware.pidInterruptHandler = .act (Access.load pidStatus) k ∧
      ∀ status, (∀ a : Axis, (status &&& a.bit != 0) = true → P a) →
        (k status).Only (Access.SetsOnly P) fun _ => True := by
  have hset (a : Axis) (ha : P a) : (Access.set a.flag 1).SetsOnly P := by
    refine ⟨fun b => ObiRegState.swWe_idle rfl _, fun b value h => ?_⟩
    cases a <;> cases b <;> first | exact ha | cases h
  have hack (value : BitVec 32) : (Firmware.store pidStatus value).Only (Access.SetsOnly P) fun _ => True :=
    ⟨⟨(neutral_store value (fun a => by cases a <;> decide) rfl).1, fun a value h => by cases h⟩,
      fun _ => trivial⟩
  unfold Firmware.pidInterruptHandler
  rw [Firmware.load_bind]
  refine ⟨_, rfl, fun status hP => ?_⟩
  dsimp only
  split
  · next hx =>
    refine ⟨hset .x (hP .x hx), fun _ => ?_⟩
    show Prog.Only _ _ (if _ then _ else _)
    split
    · next hy =>
      refine ⟨hset .y (hP .y hy), fun _ => ?_⟩
      exact hack _
    · exact hack _
  · split
    · next hy =>
      refine ⟨hset .y (hP .y hy), fun _ => ?_⟩
      exact hack _
    · trivial

section History

variable {M : Nat} {s : SystemState} {i : SystemIn} {h : History} {a : Axis}

theorem setPointWrite_eq_none (hw : (s.pidIn i).swWe pidCfg (PidReg.idx a .sp) = false) :
    (s.pidIn i).setPointWrite a = none := by
  rw [ObiIn.setPointWrite, hw]
  rfl

theorem changes_eq_false (hw : (s.pidIn i).swWe pidCfg (PidReg.idx a .sp) = false) :
    h.changes s i a = false := by
  rw [History.changes, setPointWrite_eq_none hw]
  rfl

theorem reg_sp_step :
    (s.step M i).pid.reg a .sp = ((s.pidIn i).setPointWrite a).getD (s.pid.reg a .sp) := by
  show (s.pid.step M (s.pidIn i)).reg a .sp = _
  rw [PidState.reg_step, ObiIn.setPointWrite]
  split <;> rfl

theorem History.Owed.of_step (hch : h.changes s i a = false) (ho : (h.step M s i).Owed a) :
    h.Owed a ∧ (h.target a = some (s.pid.reg a .sp) → s.pid.generates M (s.pidIn i) a = false) := by
  obtain ⟨htarget, hfresh⟩ := ho
  simp only [History.step, hch, Bool.false_eq_true, if_false] at htarget hfresh
  obtain ⟨hfresh, hgen⟩ := Bool.or_eq_false_iff.1 hfresh
  refine ⟨⟨htarget, hfresh⟩, fun heq => ?_⟩
  rwa [heq, beq_self_eq_true, Bool.and_true] at hgen

theorem target_step (hch : h.changes s i a = false) : (h.step M s i).target a = h.target a := by
  simp [History.step, hch]

theorem not_pending_step (hch : h.changes s i a = false) (ho : (h.step M s i).Owed a)
    (hsp : h.target a = some (s.pid.reg a .sp)) (hp : ¬ s.pid.Pending M a) :
    ¬ (s.step M i).pid.Pending M a := by
  intro hp'
  rcases PidState.Pending.of_step hp' with hold | hgen
  · exact hp hold
  · rw [(ho.of_step hch).2 hsp] at hgen
    cases hgen

end History

structure StableInv (M : Nat) (s : SystemState) (h : History) (g : View) : Prop where
  main : wlp View.update View.Allowed (fun _ g => g.changing = none) s.main g
  command : g.command = h.command
  setPoint : ∀ a, h.Owed a → h.target a = some (s.pid.reg a .sp)
  quiet : ∀ a, h.Owed a → g.changing ≠ some a → s.flag a = 0 ∧ ¬ s.pid.Pending M a
  handler : ∀ p, s.handler = some p → p = Firmware.pidInterruptHandler ∨
    p.Only (Access.SetsOnly fun a => ¬ h.Owed a ∨ g.changing = some a) fun _ => True
  saw : ∀ a, g.saw a = true → ¬ h.Owed a

section Step

variable {M : Nat} {s : SystemState} {i : SystemIn} {h : History} {g : View}

theorem stableInv_reset : StableInv M .reset .initial ⟨none, none, fun _ => false⟩ where
  main := rfl
  command := rfl
  setPoint _ ho := absurd rfl ho.1
  quiet _ ho := absurd rfl ho.1
  handler _ hp := by cases hp
  saw _ hs := by cases hs

/-- The STATUS register answers the handler's load. -/
theorem answer_status (hacc : s.access i = some (Access.load pidStatus)) :
    s.answer M i = s.pid.statusQ := by
  have hreq : (s.pidIn i).toObiIn = ⟨true, pidStatus, false, 0xF, 0⟩ := by
    show (s.access i).elim _ _ = _
    rw [hacc]
    rfl
  have hword : (s.pidIn i).toObiIn.word pidCfg = 0 := by
    rw [hreq]
    decide
  have herr : (s.pidIn i).toObiIn.err pidCfg = false := by
    rw [hreq]
    decide
  unfold SystemState.answer
  rw [hacc]
  refine (if_pos (by decide)).trans ?_
  exact ObiRegState.rdataO_of_read (i := s.pid.regsIn (s.pidIn i)) (congrArg ObiIn.reqI hreq) (congrArg ObiIn.weI hreq)
    (congrArg ObiIn.beI hreq) hword herr

theorem stepFlag_eq {a : Axis} (hacc : ∀ value, s.access i ≠ some (.set a.flag value)) :
    (s.step M i).flag a = s.flag a := by
  show s.stepFlag i a = s.flag a
  unfold SystemState.stepFlag
  split
  · next v value h =>
    refine if_neg fun hv => hacc value ?_
    rw [h, hv]
  · rfl

theorem StableInv.handler_access (hinv : StableInv M s h g) {acc : Access}
    (hacc : s.handlerAccess i = some acc) :
    acc.SetsOnly fun a => ¬ h.Owed a ∨ g.changing = some a := by
  obtain ⟨hcore, hacc⟩ := Option.ite_none_right_eq_some.1 hacc
  obtain ⟨p, hp, hacc⟩ := Option.bind_eq_some_iff.1 hacc
  rcases hinv.handler p hp with rfl | honly
  · cases hacc
    exact setsOnly_status
  · exact honly.access hacc

theorem StableInv.handler_step (hinv : StableInv M s h g)
    (howed : ∀ a, (h.step M s i).Owed a → h.Owed a) (p : Firmware Unit)
    (hp : (s.step M i).handler = some p) : p = Firmware.pidInterruptHandler ∨
      p.Only (Access.SetsOnly fun a => ¬ (h.step M s i).Owed a ∨ g.changing = some a) fun _ => True := by
  have hmono (acc : Access) (ha : acc.SetsOnly fun a => ¬ h.Owed a ∨ g.changing = some a) :
      acc.SetsOnly fun a => ¬ (h.step M s i).Owed a ∨ g.changing = some a :=
    ⟨ha.1, fun a value h' => (ha.2 a value h').imp_left fun hn ho => hn (howed a ho)⟩
  change s.stepHandler M i = some p at hp
  unfold SystemState.stepHandler at hp
  split at hp
  · split at hp
    · cases hp
      exact .inl rfl
    · cases hp
  · cases hp
  · next p₀ _ hcore hhandler =>
    cases hp
    refine .inr ?_
    rcases hinv.handler p₀ hhandler with rfl | honly
    · obtain ⟨k, hk, hrest⟩ := handler_setsOnly fun a => ¬ h.Owed a ∨ g.changing = some a
      have hacc : s.access i = some (Access.load pidStatus) := by
        simp [SystemState.access, SystemState.handlerAccess, hcore, hhandler, hk, Prog.access]
      rw [answer_status hacc, hk]
      refine (hrest s.pid.statusQ fun a hbit => ?_).allow hmono
      by_contra hnot
      obtain ⟨ho, hne⟩ := not_or.1 hnot
      exact (hinv.quiet a (not_not.1 ho) hne).2 (.inl hbit)
    · refine Only.allow ?_ hmono
      refine honly.step (fun _ _ => ?_) _
      trivial
  · exact (hinv.handler p hp).imp_right fun honly => honly.allow hmono

theorem StableInv.step_handler (hinv : StableInv M s h g) (hidle : ¬ (i.turn = .core ∧ s.handler = none)) :
    StableInv M (s.step M i) (h.step M s i) g := by
  have hmain : s.mainAccess i = none := if_neg hidle
  have hacc : s.access i = s.handlerAccess i := by
    rw [SystemState.access, hmain]
    exact Option.or_none
  have hallow (acc : Access) (h' : s.access i = some acc) := hinv.handler_access (hacc ▸ h')
  have hwe (a : Axis) : (s.pidIn i).swWe pidCfg (PidReg.idx a .sp) = false := by
    show ObiIn.swWe pidCfg ((s.access i).elim .idle Access.pidRequest) _ = _
    cases h' : s.access i with
    | none => exact ObiRegState.swWe_idle rfl _
    | some acc => exact (hallow acc h').1 a
  have hch (a : Axis) : h.changes s i a = false := changes_eq_false (hwe a)
  have howed (a : Axis) (ho : (h.step M s i).Owed a) : h.Owed a := (ho.of_step (hch a)).1
  refine ⟨?_, ?_, fun a ho => ?_, fun a ho hne => ⟨?_, ?_⟩, ?_, fun a hs ho => hinv.saw a hs (howed a ho)⟩
  · rw [SystemState.step_main_still hidle]
    exact hinv.main
  · rw [hinv.command]
    rw [History.step_command, hmain]
  · rw [target_step (hch a), reg_sp_step, setPointWrite_eq_none (hwe a)]
    exact hinv.setPoint a (howed a ho)
  · rw [← (hinv.quiet a (howed a ho) hne).1]
    refine stepFlag_eq fun value h' => ?_
    rcases (hallow _ h').2 a value rfl with hdone | hchange
    · exact hdone (howed a ho)
    · exact hne hchange
  · exact not_pending_step (hch a) ho (hinv.setPoint a (howed a ho)) (hinv.quiet a (howed a ho) hne).2
  · exact hinv.handler_step howed

/-! ### A cycle of `main` -/

/-- The write of a set command starts the change. -/
theorem View.update_of_write {acc : Access} {r : BitVec 32} {a : Axis} (hsp : acc.spAxis = some a) :
    g.update acc r =
      { g with changing := if g.command = some .rst then g.changing else some a, saw := fun _ => false } := by
  cases acc with
  | store addr value =>
    rw [View.update_store, hsp]
  | _ => cases hsp

/-- Clearing the flag is what ends the change. -/
theorem View.changing_of_update {acc : Access} {r : BitVec 32} {a : Axis} (hg : g.changing = some a)
    (hne : (g.update acc r).changing ≠ some a) (hok : g.Allowed acc) : acc = .set a.flag 0 := by
  have hclear (b : Axis) (value : BitVec 32) (h : acc = .set b.flag value) : acc = .set a.flag 0 := by
    obtain ⟨hb, rfl⟩ := hok.clear b value h
    rw [hg, Option.some_inj] at hb
    rw [h, hb]
  cases acc with
  | set v value =>
    cases v with
    | stableX => exact hclear .x value rfl
    | stableY => exact hclear .y value rfl
    | print => exact absurd hg hne
  | store addr value =>
    cases hsp : (Access.store addr value).spAxis with
    | none =>
      rw [update_store_none hsp] at hne
      exact absurd hg hne
    | some b =>
      have hnone := (hok.write (by rw [hsp]; exact fun h => by cases h)).1
      rw [hg] at hnone
      cases hnone
  | get v => cases v <;> exact absurd hg hne
  | note n => cases n <;> exact absurd hg hne
  | load | loadByte | storeByte | storeCommand => exact absurd hg hne

theorem View.saw_of_update {acc : Access} {r : BitVec 32} {a : Axis}
    (hs : (g.update acc r).saw a = true) : g.saw a = true ∨ (acc = .get a.flag ∧ r ≠ 0) := by
  cases acc with
  | get v =>
    cases v with
    | print => exact .inl hs
    | stableX =>
      cases a with
      | x => exact .inr ⟨rfl, bne_iff_ne.1 hs⟩
      | y => exact .inl hs
    | stableY =>
      cases a with
      | x => exact .inl hs
      | y => exact .inr ⟨rfl, bne_iff_ne.1 hs⟩
  | store addr value =>
    cases hsp : (Access.store addr value).spAxis with
    | none =>
      rw [update_store_none hsp] at hs
      exact .inl hs
    | some b =>
      rw [update_of_write hsp] at hs
      cases hs
  | set v value => cases v <;> exact .inl hs
  | note n => cases n <;> exact .inl hs
  | load | loadByte | storeByte | storeCommand => exact .inl hs

theorem View.command_update {acc : Access} {r : BitVec 32} :
    (g.update acc r).command =
      match acc with
      | .note (.dispatch command) => decodeCommand command
      | _ => g.command := by
  cases acc with
  | store addr value =>
    cases hsp : (Access.store addr value).spAxis with
    | none => rw [update_store_none hsp]
    | some b => rw [update_of_write hsp]
  | get v => cases v <;> rfl
  | set v value => cases v <;> rfl
  | note n => cases n <;> rfl
  | load | loadByte | storeByte | storeCommand => rfl

theorem answer_get {a : Axis} (hacc : s.access i = some (.get a.flag)) : s.answer M i = s.flag a := by
  unfold SystemState.answer
  rw [hacc]
  cases a <;> rfl

theorem stepFlag_set {a : Axis} {value : BitVec 32} (hacc : s.access i = some (.set a.flag value)) :
    (s.step M i).flag a = value := by
  show s.stepFlag i a = value
  unfold SystemState.stepFlag
  rw [hacc]
  exact if_pos rfl

theorem clears_of_access {a : Axis} {value : BitVec 32} (hm : s.mainAccess i = some (.set a.flag value)) :
    s.clears i a = true := by
  rw [SystemState.clears, hm]
  exact beq_self_eq_true _

theorem changes_eq_true_iff {a : Axis} : h.changes s i a = true ↔
    (∃ value, (s.pidIn i).setPointWrite a = some value) ∧ h.command ≠ some .rst := by
  rw [History.changes, Bool.and_eq_true, Option.isSome_iff_exists, bne_iff_ne]

theorem ghost_idle (hm : s.main.access = none) : Prog.ghost View.update g s.main (s.answer M i) = g := by
  rw [Prog.ghost, hm]
  rfl

theorem ghost_access {acc : Access} (hm : s.main.access = some acc) :
    Prog.ghost View.update g s.main (s.answer M i) = g.update acc (s.answer M i) := by
  rw [Prog.ghost, hm]
  rfl

section Main

variable (hcore : i.turn = .core ∧ s.handler = none)

include hcore

theorem access_main : s.access i = s.main.access := by
  simp [SystemState.access, SystemState.handlerAccess, SystemState.mainAccess, hcore.1, hcore.2]

theorem mainAccess_main : s.mainAccess i = s.main.access := if_pos hcore

theorem handler_step_main : (s.step M i).handler = none := by
  show s.stepHandler M i = none
  rw [SystemState.stepHandler, hcore.1, hcore.2]

/-- A write of a set-point is an access of `main` to its address. -/
theorem StableInv.write (hinv : StableInv M s h g) {a : Axis} {value : BitVec 32}
    (hw : (s.pidIn i).setPointWrite a = some value) :
    ∃ acc, s.main.access = some acc ∧ acc.spAxis = some a ∧ acc.pidRequest.wdataI = value := by
  obtain ⟨hwe, hvalue⟩ := Option.ite_none_right_eq_some.1 hw
  have hreq : (s.pidIn i).toObiIn = s.main.access.elim .idle Access.pidRequest :=
    congrArg (fun acc => Option.elim acc ObiIn.idle Access.pidRequest) (access_main hcore)
  rw [hreq] at hwe
  cases hm : s.main.access with
  | none =>
    rw [hm, ObiRegState.swWe_idle rfl] at hwe
    cases hwe
  | some acc =>
    rw [hm] at hwe
    have hvalue' : (s.pidIn i).toObiIn.wdataI = value := Option.some_inj.1 hvalue
    rw [hreq, hm] at hvalue'
    exact ⟨acc, rfl, ((hinv.main.access_ok hm).addressed a).1 hwe, hvalue'⟩

/-- A write that changes the target is `main`'s, and starts a change in its view. -/
theorem StableInv.ghost_of_change (hinv : StableInv M s h g) {a : Axis} (hch : h.changes s i a = true) :
    Prog.ghost View.update g s.main (s.answer M i) = { g with changing := some a, saw := fun _ => false } := by
  obtain ⟨⟨value, hw⟩, hset⟩ := changes_eq_true_iff.1 hch
  obtain ⟨acc, hm, hsp, -⟩ := hinv.write hcore hw
  rw [ghost_access hm, View.update_of_write hsp, if_neg (hinv.command ▸ hset)]

theorem StableInv.command_step (hinv : StableInv M s h g) :
    (Prog.ghost View.update g s.main (s.answer M i)).command = (h.step M s i).command := by
  rw [History.step_command, mainAccess_main hcore]
  cases hm : s.main.access with
  | none => rw [ghost_idle hm, hinv.command]
  | some acc =>
    rw [ghost_access hm, View.command_update, hinv.command]
    cases acc with
    | note n => cases n <;> rfl
    | _ => rfl

/-- The set-point of an owed axis is its target: a write either moves both, or is the zero that `rst`
stores over a zero. -/
theorem StableInv.setPoint_step (hinv : StableInv M s h g) (hu : Undisturbed M s i h) {a : Axis}
    (ho : (h.step M s i).Owed a) : (h.step M s i).target a = some ((s.step M i).pid.reg a .sp) := by
  rw [reg_sp_step]
  cases hch : h.changes s i a with
  | true =>
    obtain ⟨⟨value, hw⟩, hset⟩ := changes_eq_true_iff.1 hch
    simp only [History.step, hch, if_true, hw, Option.getD_some]
  | false =>
    have howed := (ho.of_step hch).1
    rw [target_step hch]
    cases hw : (s.pidIn i).setPointWrite a with
    | none => exact hinv.setPoint a howed
    | some value =>
      have hrst : h.command = some .rst := by
        by_contra hset
        rw [changes_eq_true_iff.2 ⟨⟨value, hw⟩, hset⟩] at hch
        cases hch
      obtain ⟨acc, hm, hsp, hvalue⟩ := hinv.write hcore hw
      have hzero := ((hinv.main.access_ok hm).write (by rw [hsp]; exact fun h => by cases h)).2
      rw [hu.rst a (by rw [hw]; rfl) hrst howed, Option.getD_some, ← hvalue, hzero (hinv.command.trans hrst)]

/-- An axis whose change ends in this cycle gets its flag cleared, and nothing is pending there. -/
theorem StableInv.quiet_of_clear (hinv : StableInv M s h g) (hu : Undisturbed M s i h) {a : Axis}
    (ho : h.Owed a) (hg : g.changing = some a)
    (hne : (Prog.ghost View.update g s.main (s.answer M i)).changing ≠ some a) :
    (s.step M i).flag a = 0 ∧ ¬ s.pid.Pending M a := by
  cases hm : s.main.access with
  | none =>
    rw [ghost_idle hm] at hne
    exact absurd hg hne
  | some acc =>
    rw [ghost_access hm] at hne
    have hacc := View.changing_of_update hg hne (hinv.main.access_ok hm)
    rw [hacc] at hm
    refine ⟨stepFlag_set ((access_main hcore).trans hm), fun hp => ?_⟩
    have hfresh := hu.clear a (clears_of_access ((mainAccess_main hcore).trans hm)) hp
    rw [ho.2] at hfresh
    cases hfresh

theorem StableInv.quiet_step (hinv : StableInv M s h g) (hu : Undisturbed M s i h) {a : Axis}
    (ho : (h.step M s i).Owed a)
    (hne : (Prog.ghost View.update g s.main (s.answer M i)).changing ≠ some a) :
    (s.step M i).flag a = 0 ∧ ¬ (s.step M i).pid.Pending M a := by
  cases hch : h.changes s i a with
  | true =>
    rw [hinv.ghost_of_change hcore hch] at hne
    exact absurd rfl hne
  | false =>
    have howed := (ho.of_step hch).1
    suffices hnow : (s.step M i).flag a = 0 ∧ ¬ s.pid.Pending M a from
      ⟨hnow.1, not_pending_step hch ho (hinv.setPoint a howed) hnow.2⟩
    by_cases hg : g.changing = some a
    · exact hinv.quiet_of_clear hcore hu howed hg hne
    · obtain ⟨hflag, hp⟩ := hinv.quiet a howed hg
      refine ⟨(stepFlag_eq fun value h' => ?_).trans hflag, hp⟩
      rw [access_main hcore] at h'
      exact hg ((hinv.main.access_ok h').clear a value rfl).1

/-- `main` sees a flag set only on an axis that is owed nothing. -/
theorem StableInv.saw_step (hinv : StableInv M s h g) {a : Axis}
    (hs : (Prog.ghost View.update g s.main (s.answer M i)).saw a = true) : ¬ (h.step M s i).Owed a := by
  intro ho
  cases hch : h.changes s i a with
  | true =>
    rw [hinv.ghost_of_change hcore hch] at hs
    cases hs
  | false =>
    have howed := (ho.of_step hch).1
    cases hm : s.main.access with
    | none =>
      rw [ghost_idle hm] at hs
      exact hinv.saw a hs howed
    | some acc =>
      rw [ghost_access hm] at hs
      rcases View.saw_of_update hs with hold | ⟨rfl, hr⟩
      · exact hinv.saw a hold howed
      · have hnone := (hinv.main.access_ok hm).read a rfl
        have hflag := (hinv.quiet a howed (by rw [hnone]; exact fun h => by cases h)).1
        rw [answer_get ((access_main hcore).trans hm)] at hr
        exact hr hflag

theorem StableInv.step_main (hinv : StableInv M s h g) (hu : Undisturbed M s i h) :
    StableInv M (s.step M i) (h.step M s i) (Prog.ghost View.update g s.main (s.answer M i)) where
  main := by
    rw [SystemState.step_main hcore]
    exact wlp_step (fun l g hg => body_view hg) hinv.main _
  command := hinv.command_step hcore
  setPoint _ ho := hinv.setPoint_step hcore hu ho
  quiet _ ho hne := hinv.quiet_step hcore hu ho hne
  handler p hp := by
    rw [handler_step_main hcore] at hp
    cases hp
  saw _ hs := hinv.saw_step hcore hs

end Main

end Step

variable {M : Nat} {inp : Nat → SystemIn} {T : Nat}

theorem StableInv.step {s : SystemState} {i : SystemIn} {h : History} {g : View}
    (hinv : StableInv M s h g) (hu : Undisturbed M s i h) :
    ∃ g', StableInv M (s.step M i) (h.step M s i) g' := by
  by_cases hcore : i.turn = .core ∧ s.handler = none
  · exact ⟨_, hinv.step_main hcore hu⟩
  · exact ⟨g, hinv.step_handler hcore⟩

/-- The system and its history before cycle `t`, from reset. -/
def track (M : Nat) (inp : Nat → SystemIn) : Nat → SystemState × History :=
  Clocked.run (fun p i => (p.1.step M i, p.2.step M p.1 i)) (.reset, .initial) inp

theorem track_succ (t : Nat) : track M inp (t + 1) =
    ((track M inp t).1.step M (inp t), (track M inp t).2.step M (track M inp t).1 (inp t)) := rfl

theorem stableInv_track
    (hu : ∀ t < T, Undisturbed M (track M inp t).1 (inp t) (track M inp t).2) :
    ∃ g, StableInv M (track M inp T).1 (track M inp T).2 g := by
  induction T with
  | zero => exact ⟨_, stableInv_reset⟩
  | succ T ih =>
    obtain ⟨g, hinv⟩ := ih fun t ht => hu t (by omega)
    exact hinv.step (hu T (by omega))

end PenPlotter
