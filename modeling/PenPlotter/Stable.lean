import PenPlotter.Commands
import PenPlotter.System

/-!
# The STABLE packet

The history of a run records, for each axis, the set-point of the latest set command that changed it
(`target`) and whether the hardware has generated a stable event under it since (`fresh`). A set command
writes SET_POINT first and clears the flag after it, so an event of the old set-point that is still
pending at the second store sets the flag again; `Undisturbed` excludes that.
-/

namespace PenPlotter

open Mmio Prog

/-- The set-point that a request writes for the axis. -/
def ObiIn.setPointWrite (o : ObiIn) (a : Axis) : Option (BitVec 32) :=
  if o.swWe pidCfg (PidReg.idx a .sp) then some o.wdataI else none

/-- What a run has shown of the set-points. -/
@[ext] structure History where
  /-- The latest command that `main` has dispatched. -/
  command : Option Command
  target : Axis → Option (BitVec 32)
  fresh : Axis → Bool

namespace History

variable (M : Nat) (s : SystemState) (i : SystemIn) (h : History) (a : Axis)

def initial : History := ⟨none, fun _ => none, fun _ => false⟩

/-- `main` writes the set-point for a set command; `rst` writes it too. -/
def changes : Bool :=
  ((s.pidIn i).setPointWrite a).isSome && h.command != some .rst

def step : History where
  command :=
    match s.mainAccess i with
    | some (.note (.dispatch command)) => decodeCommand command
    | _ => h.command
  target a := if h.changes s i a then (s.pidIn i).setPointWrite a else h.target a
  fresh a :=
    if h.changes s i a then false
    else h.fresh a || (s.pid.generates M (s.pidIn i) a && h.target a == some (s.pid.reg a .sp))

theorem step_command : (h.step M s i).command =
    match s.mainAccess i with
    | some (.note (.dispatch command)) => decodeCommand command
    | _ => h.command := rfl

/-- A stable event under the latest set-point is still owed. -/
def Owed : Prop := h.target a ≠ none ∧ h.fresh a = false

instance : Decidable (h.Owed a) := inferInstanceAs (Decidable (_ ∧ _))

end History

/-- When `main` clears the flag of an axis, no event of an older set-point is pending; and `rst` does not
overwrite a set-point under which an event is still owed, unless that is 0 as well. -/
structure Undisturbed (M : Nat) (s : SystemState) (i : SystemIn) (h : History) : Prop where
  clear : ∀ a, s.clears i a = true → s.pid.Pending M a → h.fresh a = true
  rst : ∀ a, ((s.pidIn i).setPointWrite a).isSome = true → h.command = some .rst → h.Owed a →
    h.target a = some 0

instance (M : Nat) (s : SystemState) (i : SystemIn) (h : History) : Decidable (Undisturbed M s i h) :=
  decidable_of_iff
    ((∀ a, s.clears i a = true → s.pid.Pending M a → h.fresh a = true) ∧
      ∀ a, ((s.pidIn i).setPointWrite a).isSome = true → h.command = some .rst → h.Owed a →
        h.target a = some 0)
    ⟨fun ⟨hclear, hrst⟩ => ⟨hclear, hrst⟩, fun ⟨hclear, hrst⟩ => ⟨hclear, hrst⟩⟩

/-- What `main` knows. -/
structure View where
  command : Option Command
  /-- SET_POINT is written and the flag not cleared yet. -/
  changing : Option Axis
  /-- The flag has been read as set, and no set-point has been written since. -/
  saw : Axis → Bool

def Access.spAxis : Access → Option Axis
  | .store addr _ =>
    if addr = pidXSetPoint then some .x else if addr = pidYSetPoint then some .y else none
  | _ => none

namespace View

variable (g : View)

def update : Access → BitVec 32 → View
  | .note (.dispatch command), _ => { g with command := decodeCommand command }
  | .get .stableX, r => { g with saw := Function.update g.saw .x (r != 0) }
  | .get .stableY, r => { g with saw := Function.update g.saw .y (r != 0) }
  | .set .stableX _, _ | .set .stableY _, _ => { g with changing := none }
  | .store addr value, _ =>
    match (Access.store addr value).spAxis with
    | some a =>
      { g with changing := if g.command = some .rst then g.changing else some a, saw := fun _ => false }
    | none => g
  | _, _ => g

structure Allowed (acc : Access) : Prop where
  addressed : ∀ a, acc.pidRequest.swWe pidCfg (PidReg.idx a .sp) = true ↔ acc.spAxis = some a
  write : acc.spAxis ≠ none → g.changing = none ∧ (g.command = some .rst → acc.pidRequest.wdataI = 0)
  clear : ∀ (a : Axis) value, acc = .set a.flag value → g.changing = some a ∧ value = 0
  read : ∀ a : Axis, acc = .get a.flag → g.changing = none
  stable : acc = .note .stable → ∀ a, g.saw a = true

variable {g}

theorem update_store {addr value r : BitVec 32} : g.update (.store addr value) r =
    match (Access.store addr value).spAxis with
    | some a =>
      { g with changing := if g.command = some .rst then g.changing else some a, saw := fun _ => false }
    | none => g := rfl

theorem update_store_none {addr value r : BitVec 32} (hsp : (Access.store addr value).spAxis = none) :
    g.update (.store addr value) r = g := by
  rw [update_store, hsp]

end View

/-- An access that has nothing to do with the set-points and the flags. -/
def Access.Neutral (acc : Access) : Prop :=
  (∀ a, acc.pidRequest.swWe pidCfg (PidReg.idx a .sp) = false) ∧ acc.spAxis = none ∧
  match acc with
  | .note _ => False
  | .get v => v = .print
  | .set v _ => v = .print
  | _ => True

theorem Access.Neutral.frame {acc : Access} (h : acc.Neutral) (g : View) :
    g.Allowed acc ∧ ∀ r, g.update acc r = g := by
  obtain ⟨hwe, hsp, hkind⟩ := h
  refine ⟨⟨fun a => by simp [hwe a, hsp], fun hne => absurd hsp hne, ?_, ?_, ?_⟩, fun r => ?_⟩
  · rintro a value rfl
    cases a <;> cases hkind
  · rintro a rfl
    cases a <;> cases hkind
  · rintro rfl
    exact hkind.elim
  · cases acc with
    | note => exact hkind.elim
    | get v => cases hkind; rfl
    | set v value => cases hkind; rfl
    | store addr value => exact View.update_store_none hsp
    | load | loadByte | storeByte | storeCommand => rfl

theorem neutral_load (addr : BitVec 32) : (Access.load addr).Neutral := by
  refine ⟨fun a => ?_, rfl, trivial⟩
  show ObiIn.swWe _ (if _ then _ else _) _ = _
  split <;> simp [ObiIn.swWe, ObiIn.idle]

theorem neutral_loadByte (addr : BitVec 32) : (Access.loadByte addr).Neutral := by
  refine ⟨fun a => ?_, rfl, trivial⟩
  show ObiIn.swWe _ (if _ then _ else _) _ = _
  split <;> simp [ObiIn.swWe, ObiIn.idle]

theorem neutral_storeCommand (idx value : BitVec 8) : (Access.storeCommand idx value).Neutral :=
  ⟨fun a => by cases a <;> rfl, rfl, trivial⟩

theorem neutral_storeByte (c : BitVec 8) : (Access.storeByte uartTx c).Neutral :=
  ⟨fun a => by cases a <;> rfl, rfl, trivial⟩

theorem uartPutc_neutral (c : BitVec 8) : (Firmware.uartPutc c).Only Access.Neutral fun _ => True :=
  uartPutc_only (neutral_load _) (neutral_storeByte _)

theorem store_swWe (addr value : BitVec 32) (r : Fin TotalRegCount) :
    (Access.store addr value).pidRequest.swWe pidCfg r = (Access.store addr 0).pidRequest.swWe pidCfg r := by
  show ObiIn.swWe _ (if _ then _ else _) _ = ObiIn.swWe _ (if _ then _ else _) _
  split <;> rfl

theorem neutral_store {addr : BitVec 32} (value : BitVec 32)
    (hwe : ∀ a, (Access.store addr 0).pidRequest.swWe pidCfg (PidReg.idx a .sp) = false)
    (hsp : (Access.store addr 0).spAxis = none) : (Access.store addr value).Neutral :=
  ⟨fun a => by rw [store_swWe, hwe a], hsp, trivial⟩

theorem receive_neutral (l : Firmware.Locals) : (Firmware.receive l).Only Access.Neutral fun _ => True :=
  (receive_only (neutral_load _) (neutral_loadByte _) neutral_storeCommand).mono fun _ _ => trivial

theorem report_neutral (l : Firmware.Locals) : (Firmware.report l).Only Access.Neutral fun _ => True := by
  refine report_only neutral_load neutral_storeByte (fun w => neutral_store w (fun a => ?_) rfl) ?_ ?_
  · cases a <;> decide
  · exact ⟨fun a => by cases a <;> rfl, rfl, rfl⟩
  · exact ⟨fun a => by cases a <;> rfl, rfl, rfl⟩

/-! ### The body of the loop keeps the view -/

section Body

variable {l : Firmware.Locals} {g : View}

theorem wlp_neutral {α : Type} {p : Firmware α} (h : p.Only Access.Neutral fun _ => True) :
    wlp View.update View.Allowed (fun _ g' => g' = g) p g :=
  wlp_mono (fun _ _ hg => hg.1) (h.wlp fun _ ha => ha.frame g)

theorem wlp_act_neutral {α : Type} {Q : α → View → Prop} {acc : Access} {k : BitVec 32 → Firmware α}
    (hacc : acc.Neutral) (h : ∀ r, wlp View.update View.Allowed Q (k r) g) :
    wlp View.update View.Allowed Q (.act acc k) g := by
  refine ⟨(hacc.frame g).1, fun r => ?_⟩
  rw [(hacc.frame g).2 r]
  exact h r

theorem addressed_of_idle {acc : Access} (hreq : acc.pidRequest = .idle) (hsp : acc.spAxis = none)
    (a : Axis) : acc.pidRequest.swWe pidCfg (PidReg.idx a .sp) = true ↔ acc.spAxis = some a := by
  rw [hreq, hsp]
  cases a <;> decide

theorem allowed_get (hchange : g.changing = none) (a : Axis) : g.Allowed (.get a.flag) where
  addressed := addressed_of_idle rfl rfl
  write h := absurd rfl h
  clear b value h := by cases h
  read b _ := hchange
  stable h := by cases h

theorem allowed_set {a : Axis} (hchange : g.changing = some a) : g.Allowed (.set a.flag 0) where
  addressed := addressed_of_idle rfl rfl
  write h := absurd rfl h
  clear b value h := by
    rw [hchange]
    cases a <;> cases b <;> cases h <;> exact ⟨rfl, rfl⟩
  read b h := by cases h
  stable h := by cases h

theorem allowed_dispatch (command : Fin 6 → BitVec 8) : g.Allowed (.note (.dispatch command)) where
  addressed := addressed_of_idle rfl rfl
  write h := absurd rfl h
  clear b value h := by cases h
  read b h := by cases h
  stable h := by cases h

theorem allowed_stable (hsaw : ∀ a, g.saw a = true) : g.Allowed (.note .stable) where
  addressed := addressed_of_idle rfl rfl
  write h := absurd rfl h
  clear b value h := by cases h
  read b h := by cases h
  stable _ := hsaw

/-- The address of `SET_POINT`. -/
def Axis.setPointReg : Axis → BitVec 32
  | .x => pidXSetPoint
  | .y => pidYSetPoint

theorem allowed_write (hchange : g.changing = none) (a : Axis) {value : BitVec 32}
    (hrst : g.command = some .rst → value = 0) : g.Allowed (.store a.setPointReg value) where
  addressed b := by
    rw [store_swWe]
    show _ ↔ (Access.store a.setPointReg 0).spAxis = some b
    cases a <;> cases b <;> decide
  write _ := ⟨hchange, by cases a <;> exact hrst⟩
  clear b v h := by cases h
  read b h := by cases h
  stable h := by cases h

theorem sendStable_view (hchange : g.changing = none) :
    wlp View.update View.Allowed (fun _ g' => g'.changing = none) (Firmware.sendStable l) g := by
  unfold Firmware.sendStable
  split
  · rw [Firmware.get_bind]
    refine ⟨allowed_get hchange .x, fun x => ?_⟩
    dsimp only
    split
    · next hx =>
      rw [Firmware.get_bind]
      refine ⟨allowed_get (g := g.update (.get .stableX) x) hchange .y, fun y => ?_⟩
      dsimp only
      split
      · next hy =>
        rw [Firmware.note_bind]
        refine ⟨allowed_stable fun a => ?_, fun _ => wlp_bind.2 (wlp_mono ?_ (wlp_neutral (uartPutc_neutral 3)))⟩
        · cases a
          · exact hx
          · exact hy
        · rintro _ _ rfl
          exact hchange
      · exact hchange
    · exact hchange
  · exact hchange

theorem setPoint_view (hchange : g.changing = none) (hset : g.command ≠ some .rst) (a : Axis)
    (value : BitVec 32) :
    wlp View.update View.Allowed (fun _ g' => g'.changing = none)
      (Firmware.setPoint a.setPointReg a.flag value l) g := by
  rw [Firmware.setPoint, Firmware.load_bind]
  refine wlp_act_neutral (neutral_load _) fun old => ?_
  split
  · refine ⟨allowed_write hchange a fun h => absurd h hset, fun _ => ⟨allowed_set ?_, fun _ => ?_⟩⟩
    · cases a <;> exact if_neg hset
    · cases a <;> rfl
  · exact hchange

/-- Carrying out a command leaves no set-point half changed. -/
theorem perform_view (hchange : g.changing = none) {c : Command} (hc : g.command = some c) :
    wlp View.update View.Allowed (fun _ g' => g'.changing = none) (c.perform l) g := by
  have hkeep {p : Firmware Firmware.Locals} (h : p.Only Access.Neutral fun _ => True) :
      wlp View.update View.Allowed (fun _ g' => g'.changing = none) p g :=
    wlp_mono (by rintro _ _ rfl; exact hchange) (wlp_neutral h)
  cases c with
  | sts => exact hkeep ((uartPutc_neutral 0).bind fun _ _ => (uartPutc_neutral 3).bind fun _ _ => trivial)
  | stream => exact hchange
  | rst =>
    have hwrite (a : Axis) (g' : View) (hg : g'.command = some .rst) (h : g'.changing = none) :
        g'.Allowed (.store a.setPointReg 0) ∧
          ∀ r, (g'.update (.store a.setPointReg 0) r).command = some .rst ∧
            (g'.update (.store a.setPointReg 0) r).changing = none :=
      ⟨allowed_write h a fun _ => rfl, fun r => by cases a <;> exact ⟨hg, (if_pos hg).trans h⟩⟩
    refine wlp_act_neutral (neutral_store 1 (fun a => by cases a <;> decide) rfl) fun _ => ?_
    obtain ⟨hok, hnext⟩ := hwrite .x g hc hchange
    refine ⟨hok, fun r => ?_⟩
    obtain ⟨hc, hchange⟩ := hnext r
    refine wlp_act_neutral (neutral_store 1 (fun a => by cases a <;> decide) rfl) fun _ => ?_
    obtain ⟨hok, hnext⟩ := hwrite .y _ hc hchange
    exact ⟨hok, fun r => (hnext r).2⟩
  | set loc value =>
    have hset : g.command ≠ some .rst := by rw [hc]; exact fun h => by cases h
    unfold Command.perform
    dsimp only
    split
    · exact setPoint_view hchange hset .x value
    · exact setPoint_view hchange hset .y value
    · refine hkeep ⟨neutral_store value ?_ rfl, fun _ => ⟨neutral_store value ?_ rfl, fun _ => trivial⟩⟩ <;>
        exact fun a => by cases a <;> decide
    · refine hkeep ⟨neutral_store value ?_ rfl, fun _ => ⟨neutral_store value ?_ rfl, fun _ => trivial⟩⟩ <;>
        exact fun a => by cases a <;> decide
    · refine hkeep ⟨neutral_store value ?_ rfl, fun _ => ⟨neutral_store value ?_ rfl, fun _ => trivial⟩⟩ <;>
        exact fun a => by cases a <;> decide
    · refine hkeep ⟨neutral_store _ ?_ rfl, fun _ => trivial⟩
      exact fun a => by cases a <;> decide
    · exact hchange

theorem execute_view (hchange : g.changing = none) :
    wlp View.update View.Allowed (fun _ g' => g'.changing = none) (Firmware.execute l) g := by
  unfold Firmware.execute
  split
  · rw [Firmware.note_bind]
    refine ⟨allowed_dispatch _, fun _ => wlp_bind.2 ?_⟩
    rw [dispatch_eq]
    cases hc : decodeCommand l.command with
    | none => exact hchange
    | some c =>
      exact wlp_mono (fun _ _ h => h) (perform_view (g := { g with command := decodeCommand l.command }) hchange hc)
  · exact hchange

theorem body_view (hchange : g.changing = none) :
    wlp View.update View.Allowed (fun _ g' => g'.changing = none) (Firmware.body l) g := by
  refine wlp_bind.2 (wlp_mono ?_ (wlp_neutral (receive_neutral l)))
  rintro l _ rfl
  refine wlp_bind.2 (wlp_mono ?_ (wlp_neutral (report_neutral l)))
  rintro _ _ rfl
  exact wlp_bind.2 (wlp_mono (fun l g h => execute_view h) (sendStable_view hchange))

end Body

end PenPlotter
