import PenPlotter.Pairing
import PenPlotter.PpOrder

/-!
# The transaction log of the simulation (`rtl/platform/top_verilator.sv`, `dv/verilator/sim_main.cpp`)

At every clock edge `top_verilator` reports a response on the data port of the core, then a granted request, then an
edge of the PID interrupt. `host_rvalid_received` aborts the program when no request is pending. Since the bus
answers in order and after the grant, it never does, and every logged transaction is a request with its own response
(`trace_faithful`).
-/

namespace PenPlotter

open BusRun Pairing

/-- `OBITransaction`. -/
structure OBITransaction where
  sequence : BitVec 64
  addr : BitVec 32
  wdata : BitVec 32
  we : Bool
  be : BitVec 8
  rdata : BitVec 32
  err : Bool

/-- What `Status` keeps of the bus and of the interrupt. -/
structure SimStatus where
  pendingTransactions : List OBITransaction
  transactions : List OBITransaction
  nextTransactionSequence : BitVec 64
  pidIrq : Bool

namespace SimStatus

variable (sts : SimStatus)

def init : SimStatus := ⟨[], [], 0, false⟩

def hostGntReceived (addr wdata : BitVec 32) (we : Bool) (be : BitVec 4) : SimStatus :=
  { sts with
    pendingTransactions := sts.pendingTransactions ++
      [⟨sts.nextTransactionSequence, addr, wdata, we, be.setWidth 8, 0, false⟩]
    nextTransactionSequence := sts.nextTransactionSequence + 1 }

/-- `none` is the abort. -/
def hostRvalidReceived (rdata : BitVec 32) (err : Bool) : Option SimStatus :=
  match sts.pendingTransactions with
  | [] => none
  | completed :: pending => some
      { sts with
        pendingTransactions := pending
        transactions := push 20 sts.transactions { completed with rdata := rdata, err := err } }

def pidIrqReceived (irq : Bool) : SimStatus := { sts with pidIrq := irq }

end SimStatus

/-- `Core`. -/
def core : Fin NrHosts := ⟨0, Nat.one_pos⟩

structure TopVerilator (prim : RamPrim MemAw) where
  system : PpSystem prim
  prevPidIrq : Bool
  status : SimStatus

namespace TopVerilator

variable {prim : RamPrim MemAw} (M : Nat) (s : TopVerilator prim) (i : PpSystemIn)

def pidIrq : Bool := s.system.pid.irqO

def onRvalid (sts : SimStatus) : Option SimStatus :=
  if s.system.bus.hostRvalid core then
    sts.hostRvalidReceived (s.system.bus.hostRdata core) (s.system.bus.hostErr core)
  else some sts

def onGnt (sts : SimStatus) : SimStatus :=
  if i.dataReqO && s.system.bus.hostGnt cfgDevice (s.system.busIn M i) core then
    sts.hostGntReceived i.dataAddrO i.dataWdataO i.dataWeO i.dataBeO
  else sts

def onIrq (sts : SimStatus) : SimStatus :=
  let sts := if !s.prevPidIrq && s.pidIrq then sts.pidIrqReceived true else sts
  if s.prevPidIrq && !s.pidIrq then sts.pidIrqReceived false else sts

/-- A clock edge out of reset. -/
def step : Option (TopVerilator prim) :=
  (s.onRvalid s.status).map fun sts => ⟨s.system.step M i, s.pidIrq, s.onIrq (s.onGnt M i sts)⟩

def run (inp : Nat → PpSystemIn) : Nat → Option (TopVerilator prim)
  | 0 => some s
  | t + 1 => (run inp t).bind fun s => s.step M (inp t)

end TopVerilator

/-- The entry of a granted request. -/
def OBITransaction.ofGranted (n : Nat) (g : Granted NrHosts) : OBITransaction :=
  ⟨BitVec.ofNat 64 n, g.addr, g.wdata, g.we, g.be.setWidth 8, 0, false⟩

def OBITransaction.complete (tr : OBITransaction) (r : HostResp NrHosts) : OBITransaction :=
  { tr with rdata := r.rdata, err := r.err }

/-- The entries of the granted requests, numbered in their order. -/
def entries (G : List (Granted NrHosts)) : List OBITransaction :=
  G.mapIdx OBITransaction.ofGranted

/-- The status after the requests `G` and the responses `rs`. -/
structure SimStatus.Tracks (sts : SimStatus) (G : List (Granted NrHosts)) (rs : List (HostResp NrHosts)) : Prop where
  sequence : sts.nextTransactionSequence = BitVec.ofNat 64 G.length
  log : ∃ done, Paired OBITransaction.complete (entries G) rs sts.pendingTransactions done ∧
    sts.transactions = recent 20 done

namespace SimStatus.Tracks

variable {sts : SimStatus} {G : List (Granted NrHosts)} {rs : List (HostResp NrHosts)} (h : sts.Tracks G rs)
include h

theorem gnt (g : Granted NrHosts) : (sts.hostGntReceived g.addr g.wdata g.we g.be).Tracks (G ++ [g]) rs := by
  obtain ⟨hseq, done, hpaired, hlog⟩ := h
  refine ⟨?_, done, ?_, hlog⟩
  · rw [List.length_append, hostGntReceived, hseq]
    exact (BitVec.ofNat_add ..).symm
  · have hentry : entries (G ++ [g]) = entries G ++ [.ofGranted G.length g] := List.mapIdx_concat
    rw [hentry, hostGntReceived, hseq]
    exact hpaired.request _

theorem rvalid (hlt : rs.length < G.length) (r : HostResp NrHosts) :
    ∃ sts', sts.hostRvalidReceived r.rdata r.err = some sts' ∧ sts'.Tracks G (rs ++ [r]) ∧
      sts'.pidIrq = sts.pidIrq := by
  obtain ⟨hseq, done, hpaired, hlog⟩ := h
  obtain ⟨tr, pending, hhead, hnext⟩ := hpaired.respond (by rwa [entries, List.length_mapIdx]) r
  have hcall : sts.hostRvalidReceived r.rdata r.err = some
      { sts with
        pendingTransactions := pending
        transactions := push 20 sts.transactions (tr.complete r) } := by
    rw [hostRvalidReceived, hhead]
    rfl
  refine ⟨_, hcall, ⟨hseq, _, hnext, ?_⟩, rfl⟩
  rw [hlog]
  exact push_recent ..

theorem irq (b : Bool) : (sts.pidIrqReceived b).Tracks G rs := ⟨h.sequence, h.log⟩

end SimStatus.Tracks

namespace TopVerilator

variable {prim : RamPrim MemAw} {M : Nat} {s : TopVerilator prim} {i : PpSystemIn}

theorem granted_core : s.system.bus.granted cfgDevice (s.system.busIn M i) =
    if i.dataReqO && s.system.bus.hostGnt cfgDevice (s.system.busIn M i) core then
      [⟨core, i.dataAddrO, i.dataWeO, i.dataBeO, i.dataWdataO⟩] else [] := by
  have hcore : List.finRange NrHosts = [core] := rfl
  have hreq : (s.system.busIn M i).hostReq core = i.dataReqO := rfl
  rw [BusState.granted, hcore, List.filterMap_cons, List.filterMap_nil, hreq]
  cases i.dataReqO && s.system.bus.hostGnt cfgDevice (s.system.busIn M i) core <;> rfl

theorem delivered_core (b : BusIn NrHosts NrDevices) : s.system.bus.delivered b =
    if s.system.bus.hostRvalid core then
      [⟨core, s.system.bus.hostRdata core, s.system.bus.hostErr core⟩] else [] := by
  have hcore : List.finRange NrHosts = [core] := rfl
  rw [BusState.delivered, hcore, List.filterMap_cons, List.filterMap_nil]
  cases s.system.bus.hostRvalid core <;> rfl

/-- After a clock edge the status has the irq of the cycle. -/
theorem onIrq_pidIrq (sts : SimStatus) (h : s.prevPidIrq = sts.pidIrq ∨ s.pidIrq = false ∧ sts.pidIrq = false) :
    (s.onIrq sts).pidIrq = s.pidIrq := by
  rw [onIrq]
  cases hprev : s.prevPidIrq <;> cases hirq : s.pidIrq <;> rcases h with h | ⟨h, h'⟩ <;>
    simp_all [SimStatus.pidIrqReceived]


theorem step_tracks {G : List (Granted NrHosts)} {rs : List (HostResp NrHosts)} (h : s.status.Tracks G rs)
    (hirq : s.prevPidIrq = s.status.pidIrq ∨ s.pidIrq = false ∧ s.status.pidIrq = false)
    (hle : (rs ++ s.system.bus.delivered (s.system.busIn M i)).length ≤ G.length) :
    ∃ sts, s.step M i = some ⟨s.system.step M i, s.pidIrq, sts⟩ ∧
      sts.Tracks (G ++ s.system.bus.granted cfgDevice (s.system.busIn M i))
        (rs ++ s.system.bus.delivered (s.system.busIn M i)) ∧ sts.pidIrq = s.pidIrq := by
  -- the response first
  obtain ⟨sts, hsts, htracks, hsame⟩ : ∃ sts, s.onRvalid s.status = some sts ∧
      sts.Tracks G (rs ++ s.system.bus.delivered (s.system.busIn M i)) ∧ sts.pidIrq = s.status.pidIrq := by
    rw [delivered_core] at hle ⊢
    rw [onRvalid]
    cases hv : s.system.bus.hostRvalid core with
    | false => exact ⟨_, rfl, by simpa using h, rfl⟩
    | true =>
      rw [hv, List.length_append] at hle
      exact h.rvalid hle ⟨core, s.system.bus.hostRdata core, s.system.bus.hostErr core⟩
  have hgnt : (s.onGnt M i sts).Tracks (G ++ s.system.bus.granted cfgDevice (s.system.busIn M i))
      (rs ++ s.system.bus.delivered (s.system.busIn M i)) ∧ (s.onGnt M i sts).pidIrq = sts.pidIrq := by
    rw [granted_core, onGnt]
    split
    · exact ⟨htracks.gnt ⟨core, i.dataAddrO, i.dataWeO, i.dataBeO, i.dataWdataO⟩, rfl⟩
    · exact ⟨by rwa [List.append_nil], rfl⟩
  refine ⟨s.onIrq (s.onGnt M i sts), by rw [step, hsts]; rfl, ?_, ?_⟩
  · rw [onIrq]
    split <;> split <;> first | exact hgnt.1 | exact hgnt.1.irq _
  · exact onIrq_pidIrq _ (by rwa [hgnt.2, hsame])

end TopVerilator

open PpSystem in
/-- The program is never aborted. After any number of cycles the log holds the last twenty completed requests, each
with its own number and response, the requests without a response wait in order, and the interrupt of the status is
that of the last cycle. -/
theorem trace_faithful {prim : RamPrim MemAw} (M : Nat) (ram : prim.State) (rdata : BitVec 32)
    (txBuf rxBuf : BitVec 5 → BitVec 8) (prevPidIrq : Bool) (inp : Nat → PpSystemIn) (t : Nat) :
    let s₀ := PpSystem.reset ram rdata txBuf rxBuf
    let granted := grants 2 cfgDevice (busTrace M s₀ inp) t
    let responses := responses 2 cfgDevice (busTrace M s₀ inp) t
    ∃ s, TopVerilator.run M ⟨s₀, prevPidIrq, .init⟩ inp t = some s ∧ s.system = PpSystem.run M s₀ inp t ∧
      s.status.nextTransactionSequence = BitVec.ofNat 64 granted.length ∧
      s.status.transactions = recent 20 (List.zipWith OBITransaction.complete (entries granted) responses) ∧
      s.status.pendingTransactions = (entries granted).drop responses.length ∧
      ∀ j, t = j + 1 → s.status.pidIrq = (PpSystem.run M s₀ inp j).pid.irqO := by
  intro s₀ granted responses
  have h0 : s₀.bus = .reset := rfl
  have hdev : DevicesAnswer 2 cfgDevice (busTrace M s₀ inp) :=
    devicesAnswer h0 (reset_disciplined ram rdata txBuf rxBuf)
  have hrun : ∃ s, TopVerilator.run M ⟨s₀, prevPidIrq, .init⟩ inp t = some s ∧
      s.system = PpSystem.run M s₀ inp t ∧ s.status.Tracks granted responses ∧
      (s.prevPidIrq = s.status.pidIrq ∨ s.pidIrq = false ∧ s.status.pidIrq = false) ∧
      ∀ j, t = j + 1 → s.status.pidIrq = (PpSystem.run M s₀ inp j).pid.irqO := by
    subst granted responses
    induction t with
    | zero =>
      have hreset : PidState.reset.irqO = false := by decide
      exact ⟨_, rfl, rfl, ⟨rfl, [], ⟨rfl, rfl, Nat.le_refl 0⟩, rfl⟩, .inr ⟨hreset, rfl⟩, nofun⟩
    | succ t ih =>
      obtain ⟨s, hs, hsys, htracks, hirq, -⟩ := ih
      have hle := responses_le hdev t
      rw [BusRun.responses, Clocked.log_succ, ← BusRun.responses, ← bus_run h0] at hle
      have hbus : busTrace M s₀ inp t = s.system.busIn M (inp t) := by rw [hsys]; rfl
      rw [← hsys, hbus] at hle
      obtain ⟨sts, hstep, hnext, hnow⟩ := TopVerilator.step_tracks htracks hirq hle
      refine ⟨_, by rw [TopVerilator.run, hs]; exact hstep, by rw [hsys]; rfl, ?_, .inl hnow.symm, ?_⟩
      · rw [BusRun.grants, Clocked.log_succ, ← BusRun.grants, BusRun.responses, Clocked.log_succ, ← BusRun.responses,
          ← bus_run h0, ← hsys, hbus]
        exact hnext
      · rintro j hj
        obtain rfl : t = j := Nat.succ.inj hj
        rw [← hsys]
        exact hnow
  obtain ⟨s, hs, hsys, ⟨hseq, done, hpaired, hlog⟩, -, hirq⟩ := hrun
  exact ⟨s, hs, hsys, hseq, by rw [hlog, hpaired.done], hpaired.waiting, hirq⟩

end PenPlotter
