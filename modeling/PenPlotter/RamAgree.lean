import PenPlotter.PpOrder
import PenPlotter.RamPrims

/-!
# The two RAMs in the system (`rtl/core/mem/ram_2p.sv`, `rtl/core/pp_system.sv`)

Two systems that differ in their RAM only show it the same two ports: the bus decides nothing by the data it
returns. The fetches reach port B without the bus, so a store and a fetch of one word can meet, and the data
agree exactly in the runs in which they do not (`ram_interchangeable_iff`).
-/

namespace PenPlotter

section

variable {H D k : Nat}

def Pair.forget (p : Pair H D) : Pair H D := { p with rdata := 0 }

def BusIn.forget (i : BusIn H D) : BusIn H D := { i with deviceRdata := fun _ => 0 }

def BusState.forget (s : BusState H D k) : BusState H D k :=
  { s with outstanding := fun n => (s.outstanding n).forget }

/-- The ring after the push of a cycle. -/
def BusState.pushSlot (s : BusState H D k) (new : Option (Pair H D)) : BitVec k → Pair H D :=
  new.elim s.outstanding (Function.update s.outstanding s.outstandingBack)

/-- The ring after the captures of a cycle. -/
def BusState.captureSlots (s : BusState H D k) (i : BusIn H D) (f : BitVec k → Pair H D) (n : BitVec k) : Pair H D :=
  if s.captureEn i n then
    { f n with
      rdata := i.deviceRdata (s.outstanding n).device, err := i.deviceErr (s.outstanding n).device, done := true }
  else f n

/-- The ring after the pop of a cycle. -/
def BusState.popSlot (s : BusState H D k) (f : BitVec k → Pair H D) : BitVec k → Pair H D :=
  if s.popping then Function.update f s.outstandingFront { f s.outstandingFront with done := false, err := false }
  else f

variable {cfg : AddrMap D} {s s' : BusState H D k} {i i' : BusIn H D} {f f' : BitVec k → Pair H D}

theorem forget_update (hf : ∀ n, (f' n).forget = (f n).forget) {p p' : Pair H D} (hp : p'.forget = p.forget)
    (m n : BitVec k) : (Function.update f' m p' n).forget = (Function.update f m p n).forget := by
  by_cases hn : n = m
  · subst hn
    rw [Function.update_self, Function.update_self, hp]
  · rw [Function.update_of_ne hn, Function.update_of_ne hn, hf]

theorem BusState.pushSlot_forget {new new' : Option (Pair H D)} (h : new'.map Pair.forget = new.map Pair.forget)
    (n : BitVec k) : (s.forget.pushSlot new' n).forget = (s.pushSlot new n).forget := by
  have hold : ∀ n, (s.forget.outstanding n).forget = (s.outstanding n).forget := fun _ => rfl
  rcases new' with _ | p' <;> rcases new with _ | p
  · rfl
  · cases h
  · cases h
  · exact forget_update hold (Option.some.inj h) s.outstandingBack n

theorem BusState.captureSlots_forget (hf : ∀ n, (f' n).forget = (f n).forget) (n : BitVec k) :
    (s.forget.captureSlots i.forget f' n).forget = (s.captureSlots i f n).forget := by
  have hcap : s.forget.captureEn i.forget = s.captureEn i := rfl
  rw [captureSlots, captureSlots, hcap]
  split
  · exact congrArg (fun p : Pair H D => { p with err := i.deviceErr (s.outstanding n).device, done := true }) (hf n)
  · exact hf n

theorem BusState.popSlot_forget (hf : ∀ n, (f' n).forget = (f n).forget) (n : BitVec k) :
    (s.forget.popSlot f' n).forget = (s.popSlot f n).forget := by
  have hpop : s.forget.popping = s.popping := rfl
  rw [popSlot, popSlot, hpop]
  split
  · exact forget_update hf
      (congrArg (fun p : Pair H D => { p with done := false, err := false }) (hf s.outstandingFront)) _ n
  · exact hf n

variable [NeZero D]

theorem BusState.outstanding_step :
    (s.step cfg i).outstanding = s.popSlot (s.captureSlots i (s.pushSlot (s.pushed cfg i))) := by
  unfold step
  cases s.pushed cfg i <;> rfl

theorem BusState.pushed_forget :
    (s.forget.pushed cfg i.forget).map Pair.forget = (s.pushed cfg i).map Pair.forget := by
  have hreq : s.forget.request i.forget = s.request i := rfl
  rw [pushed, pushed, hreq]
  cases s.request i with
  | none => rfl
  | some h =>
    have haddr : i.forget.hostAddr h = i.hostAddr h := rfl
    simp only [haddr]
    cases cfg.decode (i.hostAddr h) with
    | none => rfl
    | some d =>
      have hgnt : i.forget.deviceGnt d = i.deviceGnt d := rfl
      simp only [hgnt]
      split <;> rfl

/-- The returned data has no part in what the bus does. -/
theorem BusState.step_forget : (s.forget.step cfg i.forget).forget = (s.step cfg i).forget := by
  have hpush : (s.forget.pushed cfg i.forget).map Pair.forget = (s.pushed cfg i).map Pair.forget := pushed_forget
  have hslots : ∀ n, ((s.forget.step cfg i.forget).outstanding n).forget = ((s.step cfg i).outstanding n).forget := by
    rw [outstanding_step, outstanding_step]
    exact popSlot_forget (captureSlots_forget (pushSlot_forget hpush))
  have hsome : (s.forget.pushed cfg i.forget).isSome = (s.pushed cfg i).isSome := by
    rw [← Option.isSome_map, hpush, Option.isSome_map]
  have hback : (s.forget.step cfg i.forget).outstandingBack = (s.step cfg i).outstandingBack := by
    show (if (s.forget.pushed cfg i.forget).isSome then _ else _) = _
    rw [hsome]
    rfl
  rw [forget, hback, funext hslots]
  rfl

theorem BusState.step_forget_congr (hs : s.forget = s'.forget) (hi : i.forget = i'.forget) :
    (s.step cfg i).forget = (s'.step cfg i').forget := by
  rw [← step_forget, hs, hi, step_forget]

end

/-! ### Two systems with different RAMs -/

namespace PpSystem

variable {prim prim' : RamPrim MemAw} {M : Nat} {i : PpSystemIn}

/-- The systems agree up to the data of the RAM. -/
structure Alike (s : PpSystem prim) (s' : PpSystem prim') : Prop where
  bus : s.bus.forget = s'.bus.forget
  aRvalidO : s.ram.aRvalidO = s'.ram.aRvalidO
  uart : s.uart = s'.uart
  gpio : s.gpio = s'.gpio
  pwm : s.pwm = s'.pwm
  pid : s.pid = s'.pid
  quad : s.quad = s'.quad
  timer : s.timer = s'.timer

variable {s : PpSystem prim} {s' : PpSystem prim'}

/-- The port of a device as a function of the bus. -/
def busPort (b : BusState NrHosts NrDevices 2) (i : PpSystemIn) (d : Fin NrDevices) : ObiIn where
  reqI := b.deviceReq cfgDevice (hostIn i) d
  addrI := b.deviceAddr cfgDevice (hostIn i) d
  weI := b.deviceWe cfgDevice (hostIn i) d
  beI := b.deviceBe cfgDevice (hostIn i) d
  wdataI := b.deviceWdata cfgDevice (hostIn i) d

theorem devicePort_eq (s : PpSystem prim) (d : Fin NrDevices) : s.devicePort i d = busPort s.bus.forget i d := rfl

theorem Alike.devicePort (h : Alike s s') (d : Fin NrDevices) : s.devicePort i d = s'.devicePort i d := by
  rw [devicePort_eq, devicePort_eq, h.bus]

theorem Alike.ramIn (h : Alike s s') : s.ramIn i = s'.ramIn i := by
  simp only [PpSystem.ramIn, h.devicePort]

theorem Alike.uartIn (h : Alike s s') : s.uartIn i = s'.uartIn i := by
  simp only [PpSystem.uartIn, h.devicePort]

theorem Alike.pidIn (h : Alike s s') : s.pidIn i = s'.pidIn i := by
  simp only [PpSystem.pidIn, h.devicePort, h.quad]

theorem Alike.quadIn (h : Alike s s') : s.quadIn i = s'.quadIn i := by
  simp only [PpSystem.quadIn, h.devicePort]

theorem Alike.gnt (h : Alike s s') (d : Fin NrDevices) :
    (s.busIn M i).deviceGnt d = (s'.busIn M i).deviceGnt d := by
  fin_cases d
  · exact congrArg ObiIn.reqI (h.devicePort 0)
  · exact congrArg₂ (FrontEnd.uart 50000000 5).gntO h.uart h.uartIn
  · exact congrArg₂ FrontEnd.stub.gntO h.gpio (h.devicePort 2)
  · exact congrArg₂ (FrontEnd.pwm 1).gntO h.pwm (h.devicePort 3)
  · exact congrArg₂ (FrontEnd.pid M).gntO h.pid h.pidIn
  · exact congrArg₂ FrontEnd.quad.gntO h.quad h.quadIn
  · exact congrArg₂ FrontEnd.timer.gntO h.timer (h.devicePort 6)

/-- The status outputs of the devices. -/
theorem Alike.status (h : Alike s s') (d : Fin NrDevices) :
    (s.busIn M i).deviceRvalid d = (s'.busIn M i).deviceRvalid d ∧
      (s.busIn M i).deviceErr d = (s'.busIn M i).deviceErr d := by
  fin_cases d
  · exact ⟨h.aRvalidO, rfl⟩
  · exact ⟨congrArg (FrontEnd.uart 50000000 5).rvalidO h.uart, congrArg (FrontEnd.uart 50000000 5).errO h.uart⟩
  · exact ⟨congrArg FrontEnd.stub.rvalidO h.gpio, congrArg FrontEnd.stub.errO h.gpio⟩
  · exact ⟨congrArg (FrontEnd.pwm 1).rvalidO h.pwm, congrArg (FrontEnd.pwm 1).errO h.pwm⟩
  · exact ⟨congrArg (FrontEnd.pid M).rvalidO h.pid, congrArg (FrontEnd.pid M).errO h.pid⟩
  · exact ⟨congrArg FrontEnd.quad.rvalidO h.quad, congrArg FrontEnd.quad.errO h.quad⟩
  · exact ⟨congrArg FrontEnd.timer.rvalidO h.timer, congrArg FrontEnd.timer.errO h.timer⟩

theorem Alike.busIn (h : Alike s s') : (s.busIn M i).forget = (s'.busIn M i).forget := by
  have hgnt := funext fun d => h.gnt (M := M) (i := i) d
  have hrvalid := funext fun d => (h.status (M := M) (i := i) d).1
  have herr := funext fun d => (h.status (M := M) (i := i) d).2
  rw [BusIn.forget, BusIn.forget, hgnt, hrvalid, herr]
  rfl

theorem Alike.step (h : Alike s s') : Alike (s.step M i) (s'.step M i) where
  bus := BusState.step_forget_congr h.bus h.busIn
  aRvalidO := congrArg ObiIn.reqI (h.devicePort 0)
  uart := congrArg₂ (UartState.step 50000000) h.uart h.uartIn
  gpio := congrArg₂ ObiStub.step h.gpio (h.devicePort 2)
  pwm := congrArg₂ ObiPwmState.step h.pwm (h.devicePort 3)
  pid := congrArg₂ (PidState.step M) h.pid h.pidIn
  quad := congrArg₂ ObiQuadState.step h.quad h.quadIn
  timer := congrArg₂ SysTimerState.step h.timer (h.devicePort 6)

/-- Port A writes the word that port B fetches. -/
def StoreMeetsFetch (s : PpSystem prim) (i : PpSystemIn) : Prop :=
  ((s.ramIn i).a.reqI && (s.ramIn i).a.weI) = true ∧ (s.ramIn i).b.reqI = true ∧
    (s.ramIn i).a.addrI.extractLsb' 2 MemAw = (s.ramIn i).b.addrI.extractLsb' 2 MemAw

/-- The two RAMs see the same requests and answer a read and a fetch with the same data. -/
structure SameData (M : Nat) (s : PpSystem prim) (s' : PpSystem prim') (i : PpSystemIn) : Prop where
  port : s'.ramIn i = s.ramIn i
  a : ((s.ramIn i).a.reqI && !(s.ramIn i).a.weI) = true →
    prim'.aRdataO (s'.step M i).ram.ram = prim.aRdataO (s.step M i).ram.ram
  b : (s.ramIn i).b.reqI = true → prim'.bRdataO (s'.step M i).ram.ram = prim.bRdataO (s.step M i).ram.ram

theorem fetch_reads (h : (s.ramIn i).b.reqI = true) :
    ((s.ramIn i).b.reqI && !(s.ramIn i).b.weI) = true := by
  rw [h]
  rfl

section

variable {R : Altsyncram MemAw} {contents : R.State → BitVec MemAw → BitVec 32} (hR : R.Follows contents)
  {g : PpSystem (primRam2p MemAw)} {q : PpSystem (primAlteraRam2p R)}

theorem ram_step (h : Alike g q) : (q.step M i).ram.ram =
    R.step q.ram.ram (alteraPort (Ram2p.primIn (g.ramIn i).a)) (alteraPort (Ram2p.primIn (g.ramIn i).b)) := by
  rw [h.ramIn]
  rfl

include hR

theorem words_step (h : Alike g q) (hw : contents q.ram.ram = g.ram.ram.mem) :
    contents (q.step M i).ram.ram = (g.step M i).ram.ram.mem := by
  rw [ram_step h]
  exact contents_step hR hw rfl

theorem sameData (h : Alike g q) (hw : contents q.ram.ram = g.ram.ram.mem) (hnone : ¬StoreMeetsFetch g i) :
    SameData M g q i := by
  refine ⟨h.ramIn.symm, fun hread => ?_, fun hread => ?_⟩
  · rw [ram_step h]
    exact qA_step hR hw rfl hread
  · rw [ram_step h]
    exact qB_step hR hw (fetch_reads hread) fun hmeet => hnone ⟨hmeet.1, hread, hmeet.2⟩

end

end PpSystem

open PpSystem

section

variable (M : Nat) (ram : PrimRam2p MemAw) (rdata : BitVec 32) (txBuf rxBuf : BitVec 5 → BitVec 8)
  (inp : Nat → PpSystemIn)

/-- The system with `ImplGeneric`. -/
def genericRun (t : Nat) : PpSystem (primRam2p MemAw) := run M (.reset ram rdata txBuf rxBuf) inp t

/-- The system with `ImplQuartus`. -/
def quartusRun (R : Altsyncram MemAw) (ram' : R.State) (t : Nat) : PpSystem (primAlteraRam2p R) :=
  run M (.reset ram' rdata txBuf rxBuf) inp t

theorem alike_run (R : Altsyncram MemAw) (ram' : R.State) (t : Nat) :
    Alike (genericRun M ram rdata txBuf rxBuf inp t) (quartusRun M rdata txBuf rxBuf inp R ram' t) := by
  induction t with
  | zero => exact ⟨rfl, rfl, rfl, rfl, rfl, rfl, rfl, rfl⟩
  | succ t ih => exact ih.step

theorem words_run {R : Altsyncram MemAw} {contents : R.State → BitVec MemAw → BitVec 32} (hR : R.Follows contents)
    {ram' : R.State} (hw : contents ram' = ram.mem) (t : Nat) :
    contents (quartusRun M rdata txBuf rxBuf inp R ram' t).ram.ram =
      (genericRun M ram rdata txBuf rxBuf inp t).ram.ram.mem := by
  induction t with
  | zero => exact hw
  | succ t ih => exact words_step hR (alike_run M ram rdata txBuf rxBuf inp R ram' t) ih

/-- An `altsyncram` that inverts the word in a conflict shows a store that meets a fetch. -/
theorem not_sameData {t : Nat}
    (hmeet : StoreMeetsFetch (genericRun M ram rdata txBuf rxBuf inp t) (inp t)) :
    ¬SameData M (genericRun M ram rdata txBuf rxBuf inp t)
      (quartusRun M rdata txBuf rxBuf inp (.dontCare MemAw fun v => ~~~v) ram t) (inp t) := by
  intro hsame
  have halike := alike_run M ram rdata txBuf rxBuf inp (.dontCare MemAw fun v => ~~~v) ram t
  have hwords := words_run M ram rdata txBuf rxBuf inp (Altsyncram.dontCare_follows fun v => ~~~v)
    (rfl : ram.mem = ram.mem) t
  have hb := hsame.b hmeet.2.1
  rw [ram_step halike] at hb
  exact dontCare_ne not_ne hwords (fetch_reads hmeet.2.1) hmeet.1 hmeet.2.2 hb

/-- The RAMs are interchangeable in a run, whatever `altsyncram` gives in a conflict, exactly when no store
meets a fetch of its word. -/
theorem ram_interchangeable_iff :
    (∀ (R : Altsyncram MemAw) (contents : R.State → BitVec MemAw → BitVec 32), R.Follows contents →
      ∀ ram' : R.State, contents ram' = ram.mem → ∀ t,
        SameData M (genericRun M ram rdata txBuf rxBuf inp t) (quartusRun M rdata txBuf rxBuf inp R ram' t)
          (inp t)) ↔
      ∀ t, ¬StoreMeetsFetch (genericRun M ram rdata txBuf rxBuf inp t) (inp t) := by
  constructor
  · intro hsame t hmeet
    exact not_sameData M ram rdata txBuf rxBuf inp hmeet
      (hsame _ _ (Altsyncram.dontCare_follows fun v => ~~~v) ram rfl t)
  · intro hnone R contents hR ram' hw t
    exact sameData hR (alike_run M ram rdata txBuf rxBuf inp R ram' t)
      (words_run M ram rdata txBuf rxBuf inp hR hw t) (hnone t)

end

/-- The core fetches word after word from its reset address, and stores to the sixth one while it fetches it. -/
def storeAndFetch (t : Nat) : PpSystemIn where
  dataReqO := t == 5
  dataAddrO := 0x00100094
  dataWeO := true
  dataBeO := 0xF
  dataWdataO := 1
  instrReqO := true
  instrAddrO := 0x00100080 + 4 * BitVec.ofNat 32 t
  quad _ := 0
  uartRx := true
  padding := 0

theorem store_meets_fetch :
    (Altsyncram.dontCare MemAw fun v => ~~~v).Follows PrimRam2p.mem ∧ (instrPort (storeAndFetch 5)).reqI = true ∧
    (genericRun 100000 ⟨fun _ => 0, 0, 0⟩ 0 (fun _ => 0) (fun _ => 0) storeAndFetch 6).ram.ram.bRdataO = 0 ∧
    (quartusRun 100000 0 (fun _ => 0) (fun _ => 0) storeAndFetch (.dontCare MemAw fun v => ~~~v)
      ⟨fun _ => 0, 0, 0⟩ 6).ram.ram.bRdataO = 0xFFFFFFFF :=
  ⟨Altsyncram.dontCare_follows _, by decide, by rfl, by rfl⟩

end PenPlotter
