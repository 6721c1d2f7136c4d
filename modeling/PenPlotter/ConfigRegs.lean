import PenPlotter.PpObject

/-!
# The configuration registers as the core sees them

The registers that only the software writes: PERIOD and WIDTH of the PWM, the constants and set-points of the
controllers, and CONTROL and MTIMECMP of the timer. Behind the bus each holds what the core wrote last by a granted
full-word write, and a read returns that (`config_coherent`); a request that is answered with an error changes none.
-/

namespace PenPlotter

open BusRun Sequential

section

variable {n : Nat} (cfg : ObiRegCfg n)

/-- What a request writes to a register. -/
def DevReq.writesReg (q : DevReq) (r : Fin n) : Option (BitVec 32) :=
  if q.port.writes cfg r then some q.wdata else none

/-- The registers in `sw`, and what the port owes for a request. -/
def regObject (sw : Fin n → Prop) : Object ({r : Fin n // sw r} → BitVec 32) DevReq Answer where
  next c q r := (q.writesReg cfg r).getD (c r)
  due c q a := a.err = q.port.faulty cfg ∧ (q.we = false → ∀ r, q.port.word cfg = r.1.val → ∀ k : Fin 4,
    byteOf a.rdata k = if q.be.getLsbD k then byteOf (c r) k else 0)

/-- The answer on the port. -/
def ObiRegState.answer (s : ObiRegState n) : Option Answer := if s.rvalidO then some ⟨s.rdataO, s.errO⟩ else none

variable {cfg}

theorem regs_serve (hn : 4 * n ≤ 2 ^ cfg.usedAddrWidth) {sw : Fin n → Prop} (hrw : ∀ r, sw r → cfg.regAccess r = .rw)
    (regs : Nat → ObiRegState n) (inp : Nat → ObiRegIn n) (hstep : ∀ t, regs (t + 1) = (regs t).step cfg (inp t))
    (hde : ∀ t r, sw r → (inp t).hwDe r = false) (h0 : (regs 0).rvalidO = false) :
    Serves (regObject cfg sw) (fun t r => (regs t).q r) (fun t => (inp t).toObiIn.request)
      (fun t => (regs t).answer) where
  first := if_neg (by rw [h0]; exact Bool.false_ne_true)
  next t := by
    funext r
    rw [hstep, ObiRegState.step_q_rw (hrw r r.2) (hde t r r.2), ObiIn.swWe_eq hn]
    cases hq : (inp t).toObiIn.request with
    | none =>
      have hreq : (inp t).reqI = false := ObiIn.reqI_of_request hq
      rw [ObiIn.writes, hreq]
      rfl
    | some q =>
      have hport : (inp t).toObiIn = q.port := ObiIn.eq_port hq
      rw [hport]
      show _ = (DevReq.writesReg cfg q r).getD _
      rw [DevReq.writesReg]
      split <;> rfl
  idle t hq := by
    have hreq : (inp t).reqI = false := ObiIn.reqI_of_request hq
    refine if_neg ?_
    rw [hstep, show ((regs t).step cfg (inp t)).rvalidO = (inp t).reqI from rfl, hreq]
    exact Bool.false_ne_true
  due t q hq := by
    have hport : (inp t).toObiIn = q.port := ObiIn.eq_port hq
    have hreq : (inp t).reqI = true := congrArg ObiIn.reqI hport
    have hans := ObiRegState.step_answers hn (regs t) (inp t)
    rw [← hstep, hport] at hans
    refine ⟨_, if_pos hans.rvalid, hans.err rfl, fun hwe r hr k => ?_⟩
    exact hans.read rfl hwe r hr k k.isLt

end

inductive ConfigReg
  | pwmPeriod | pwmWidth
  | pid (a : Axis) (r : PidReg)
  | timerControl | mtimeCmpLo | mtimeCmpHi

namespace ConfigReg

/-- `Pwm`, `Pid` or `Timer` of `bus_device_e`. -/
def device : ConfigReg → Fin NrDevices
  | pwmPeriod | pwmWidth => ⟨3, Nat.le_of_ble_eq_true rfl⟩
  | pid .. => ⟨4, Nat.le_of_ble_eq_true rfl⟩
  | timerControl | mtimeCmpLo | mtimeCmpHi => ⟨6, Nat.le_of_ble_eq_true rfl⟩

/-- The index of the register in its peripheral. -/
def idx : ConfigReg → Nat
  | pwmPeriod => 0
  | pwmWidth => 1
  | pid a r => (r.idx a).val
  | timerControl => controlLane.val
  | mtimeCmpLo => mTimeCmpLoLane.val
  | mtimeCmpHi => mTimeCmpHiLane.val

def resValue : ConfigReg → BitVec 32
  | mtimeCmpLo | mtimeCmpHi => 0xFFFFFFFF
  | _ => 0

/-- What the peripheral works with. -/
def value {prim : RamPrim MemAw} (s : PpSystem prim) : ConfigReg → BitVec 32
  | pwmPeriod => s.pwm.period ⟨0, Nat.one_pos⟩
  | pwmWidth => s.pwm.width ⟨0, Nat.one_pos⟩
  | pid a r => s.pid.reg a r
  | timerControl => s.timer.regs.q controlLane
  | mtimeCmpLo => s.timer.regs.q mTimeCmpLoLane
  | mtimeCmpHi => s.timer.regs.q mTimeCmpHiLane

variable (c : ConfigReg)

/-- A request to the register: eight bits of the address are decoded in the peripheral. -/
def hit (g : Granted NrHosts) : Bool :=
  cfgDevice.decode g.addr == some c.device && g.addr.toNat % 2 ^ 8 / 4 == c.idx

/-- The last full-word write to the register. -/
def lastWritten (G : List (Granted NrHosts)) : BitVec 32 :=
  (G.filterMap fun g => if c.hit g && g.we && g.be == 0xF then some g.wdata else none).getLast?.getD c.resValue

end ConfigReg

theorem word_localise {n : Nat} {cfg : ObiRegCfg n} (hcfg : cfg.usedAddrWidth = 8) (d : Fin NrDevices)
    (g : Granted NrHosts) : (cfgDevice.localise d g).port.word cfg = g.addr.toNat % 2 ^ 8 / 4 := by
  have hmask : (~~~cfgDevice.deviceAddrMask d).setWidth 8 = BitVec.allOnes 8 := by
    fin_cases d <;> decide
  have haddr : (g.addr &&& ~~~cfgDevice.deviceAddrMask d).setWidth 8 = g.addr.setWidth 8 := by
    rw [BitVec.setWidth_and, hmask, BitVec.and_allOnes]
  have hnat := congrArg BitVec.toNat haddr
  rw [BitVec.toNat_setWidth, BitVec.toNat_setWidth] at hnat
  show (g.addr &&& ~~~cfgDevice.deviceAddrMask d).toNat % 2 ^ cfg.usedAddrWidth / 4 = _
  rw [hcfg, hnat]

/-- The writes that the peripheral sees are those of the granted requests that hit the register. -/
theorem filterMap_writesReg {n : Nat} {cfg : ObiRegCfg n} (hcfg : cfg.usedAddrWidth = 8) {c : ConfigReg} {r : Fin n}
    (hr : r.val = c.idx) (G : List (Granted NrHosts)) :
    (PpSystem.requestsTo c.device G).filterMap (DevReq.writesReg cfg · r) =
      G.filterMap fun g => if c.hit g && g.we && g.be == 0xF then some g.wdata else none := by
  rw [PpSystem.requestsTo, List.filterMap_map, List.filterMap_filter]
  refine List.filterMap_congr fun g _ => ?_
  have hword : (cfgDevice.localise c.device g).port.word cfg = g.addr.toNat % 2 ^ 8 / 4 :=
    word_localise hcfg c.device g
  show (if decide (cfgDevice.decode g.addr = some c.device) = true then
    DevReq.writesReg cfg (cfgDevice.localise c.device g) r else none) = _
  rw [DevReq.writesReg, ObiIn.writes, hword, hr, ConfigReg.hit]
  show (if _ then (if (true && g.we && g.be == 0xF && g.addr.toNat % 2 ^ 8 / 4 == c.idx) = true then some g.wdata
    else none) else none) = _
  by_cases hd : cfgDevice.decode g.addr = some c.device <;>
    cases g.we <;> cases g.be == 0xF <;> cases g.addr.toNat % 2 ^ 8 / 4 == c.idx <;> simp [hd]

namespace PpSystem

variable {prim : RamPrim MemAw} (M : Nat) (s₀ : PpSystem prim) (inp : Nat → PpSystemIn)

theorem pwm_serves (h0 : s₀.pwm.regs.rvalidO = false) :
    Serves (regObject (pwmCfg 1) fun _ => True) (fun t r => (run M s₀ inp t).pwm.regs.q r)
      (requestAt M s₀ inp ConfigReg.pwmPeriod.device) (answerAt M s₀ inp ConfigReg.pwmPeriod.device) :=
  regs_serve (by decide) (fun _ _ => rfl) (fun t => (run M s₀ inp t).pwm.regs)
    (fun t => ⟨(run M s₀ inp t).devicePort (inp t) ConfigReg.pwmPeriod.device, fun _ => false, fun _ => 0⟩)
    (fun _ => rfl) (fun _ _ _ => rfl) h0

theorem pid_serves (h0 : s₀.pid.regs.rvalidO = false) :
    Serves (regObject pidCfg fun r => r ≠ statusIdx) (fun t r => (run M s₀ inp t).pid.regs.q r)
      (requestAt M s₀ inp (ConfigReg.pid .x .kp).device) (answerAt M s₀ inp (ConfigReg.pid .x .kp).device) :=
  regs_serve (by decide) (fun _ hr => if_neg hr) (fun t => (run M s₀ inp t).pid.regs)
    (fun t => (run M s₀ inp t).pid.regsIn ((run M s₀ inp t).pidIn (inp t)))
    (fun _ => rfl) (fun t r hr => by
      show (r == statusIdx && _) = false
      rw [beq_false_of_ne hr, Bool.false_and]) h0

theorem timer_serves (h0 : s₀.timer.regs.rvalidO = false) :
    Serves (regObject timerCfg fun r => r ≠ mTimeLoLane ∧ r ≠ mTimeHiLane) (fun t r => (run M s₀ inp t).timer.regs.q r)
      (requestAt M s₀ inp ConfigReg.timerControl.device) (answerAt M s₀ inp ConfigReg.timerControl.device) :=
  regs_serve (by decide) (fun _ _ => rfl) (fun t => (run M s₀ inp t).timer.regs)
    (fun t => (run M s₀ inp t).timer.regsIn ((run M s₀ inp t).devicePort (inp t) ConfigReg.timerControl.device))
    (fun _ => rfl) (fun t r hr => by
      show (_ && (r == mTimeLoLane || r == mTimeHiLane)) = false
      rw [beq_false_of_ne hr.1, beq_false_of_ne hr.2, Bool.or_self, Bool.and_false]) h0

end PpSystem

open PpSystem

/-- What the configuration registers hold and answer, in terms of the granted requests. -/
structure ConfigCoherent (M : Nat) {prim : RamPrim MemAw} (s₀ : PpSystem prim) (inp : Nat → PpSystemIn) (t : Nat)
    (c : ConfigReg) : Prop where
  value : c.value (run M s₀ inp t) = c.lastWritten (grants 2 cfgDevice (busTrace M s₀ inp) t)
  read : ∀ n g r, (grants 2 cfgDevice (busTrace M s₀ inp) t)[n]? = some g → c.hit g = true → g.we = false →
    (responses 2 cfgDevice (busTrace M s₀ inp) t)[n]? = some r → r.err = false ∧ ∀ k : Fin 4, byteOf r.rdata k =
      if g.be.getLsbD k then byteOf (c.lastWritten ((grants 2 cfgDevice (busTrace M s₀ inp) t).take n)) k else 0

section

variable {M : Nat} {prim : RamPrim MemAw} {s₀ : PpSystem prim} {inp : Nat → PpSystemIn}
  (h0 : s₀.bus = .reset) (hdisc : ∀ d, (PenPlotter.device prim M d).Disciplined (s₀.deviceState M d))
include h0 hdisc

/-- A device that serves the register keeps it coherent. -/
theorem coherent_of_serves {n : Nat} {cfg : ObiRegCfg n} (hcfg : cfg.usedAddrWidth = 8) {sw : Fin n → Prop}
    {q : Nat → Fin n → BitVec 32} (c : ConfigReg)
    (hgnt : ∀ s i, (PenPlotter.device prim M c.device).gntO s i = ((PenPlotter.device prim M c.device).port i).reqI)
    (hserves : Serves (regObject cfg sw) (fun t r => q t r.1) (requestAt M s₀ inp c.device)
      (answerAt M s₀ inp c.device))
    {r : Fin n} (hsw : sw r) (hr : r.val = c.idx) (hres : q 0 r = c.resValue)
    (hvalue : ∀ t, c.value (run M s₀ inp t) = q t r) (t : Nat) : ConfigCoherent M s₀ inp t c := by
  have hlast (G : List (Granted NrHosts)) :
      (regObject cfg sw).replay (fun r => q 0 r.1) (requestsTo c.device G) ⟨r, hsw⟩ = c.lastWritten G := by
    rw [replay_eq_last (w := fun req r => DevReq.writesReg cfg req r.1) fun _ _ _ => rfl]
    rw [filterMap_writesReg hcfg hr, hres]
    rfl
  constructor
  · rw [hvalue, ← hlast]
    exact congrFun (contents_eq h0 hgnt hserves t) ⟨r, hsw⟩
  · intro n g resp hg hhit hwe hresp
    obtain ⟨hd, hidx⟩ := Bool.and_eq_true_iff.1 hhit
    have hd := beq_iff_eq.1 hd
    have hword : (cfgDevice.localise c.device g).port.word cfg = r.val := by
      rw [word_localise hcfg, beq_iff_eq.1 hidx, hr]
    obtain ⟨a, ⟨herr, hread⟩, hrdata, hrerr⟩ := response_due h0 hgnt hserves hdisc hg hd hresp
    have hok : (cfgDevice.localise c.device g).port.faulty cfg = false := by
      rw [ObiIn.faulty, hword, decide_eq_false (Nat.not_le.2 r.isLt), Bool.false_or]
      show (g.we && _) = false
      rw [hwe, Bool.false_and]
    rw [hok] at herr
    rw [herr] at hrdata hrerr
    refine ⟨hrerr, fun k => ?_⟩
    rw [hrdata, if_neg Bool.false_ne_true, hread hwe ⟨r, hsw⟩ hword k, hlast]
    rfl

end

/-- Each configuration register holds what the core wrote to it last by a granted full-word write, or its reset
value, and a granted read returns what was so when it was granted, without an error. -/
theorem config_coherent {prim : RamPrim MemAw} (M : Nat) (ram : prim.State) (rdata : BitVec 32)
    (txBuf rxBuf : BitVec 5 → BitVec 8) (inp : Nat → PpSystemIn) (t : Nat) (c : ConfigReg) :
    ConfigCoherent M (PpSystem.reset ram rdata txBuf rxBuf) inp t c := by
  have hdisc := reset_disciplined (M := M) ram rdata txBuf rxBuf
  cases c with
  | pwmPeriod =>
    exact coherent_of_serves rfl hdisc rfl .pwmPeriod (fun _ _ => rfl) (pwm_serves M _ inp rfl) trivial rfl rfl
      (fun _ => rfl) t
  | pwmWidth =>
    exact coherent_of_serves rfl hdisc rfl .pwmWidth (fun _ _ => rfl) (pwm_serves M _ inp rfl) trivial rfl rfl
      (fun _ => rfl) t
  | pid a r =>
    have hne : r.idx a ≠ statusIdx := by cases a <;> cases r <;> decide
    exact coherent_of_serves rfl hdisc rfl (.pid a r) (fun _ _ => rfl) (pid_serves M _ inp rfl) hne rfl rfl
      (fun _ => rfl) t
  | timerControl =>
    exact coherent_of_serves rfl hdisc rfl .timerControl (fun _ _ => rfl) (timer_serves M _ inp rfl) (by decide) rfl
      rfl (fun _ => rfl) t
  | mtimeCmpLo =>
    exact coherent_of_serves rfl hdisc rfl .mtimeCmpLo (fun _ _ => rfl) (timer_serves M _ inp rfl) (by decide) rfl
      rfl (fun _ => rfl) t
  | mtimeCmpHi =>
    exact coherent_of_serves rfl hdisc rfl .mtimeCmpHi (fun _ _ => rfl) (timer_serves M _ inp rfl) (by decide) rfl
      rfl (fun _ => rfl) t

end PenPlotter
