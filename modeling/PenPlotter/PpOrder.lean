import PenPlotter.BusLive
import PenPlotter.PpSystem
import Mathlib.Tactic.FinCases

/-!
# The system returns every response once, in order

Each device of the system is a run of its own front end, driven by the port that the bus shows it. So its
discipline is the one the bus relies on, and each granted request of the core gets one response, in order.
-/

namespace PenPlotter

open BusRun

variable {prim : RamPrim MemAw} {M : Nat}

/-- The wires of a request. -/
def DevReq.port (r : DevReq) : ObiIn := ⟨true, r.addr, r.we, r.be, r.wdata⟩

variable (prim M) in
/-- The error status of a granted request: a miss is an error. -/
def errStatus (g : Granted NrHosts) : Bool :=
  (cfgDevice.decode g.addr).elim true fun d => (device prim M d).status (cfgDevice.localise d g).port

namespace PpSystem

variable (M) (s₀ : PpSystem prim) (inp : Nat → PpSystemIn)

def run (t : Nat) : PpSystem prim := Clocked.run (PpSystem.step M) s₀ inp t

/-- What the bus of the system sees in cycle `t`. -/
def busTrace (t : Nat) : BusIn NrHosts NrDevices := (run M s₀ inp t).busIn M (inp t)

/-- What device `d` sees in cycle `t`. -/
def deviceTrace (d : Fin NrDevices) (t : Nat) : (device prim M d).In := (run M s₀ inp t).deviceIn M (inp t) d

variable {M s₀ inp} {s : PpSystem prim} {i : PpSystemIn}

theorem bus_run (h0 : s₀.bus = .reset) (t : Nat) : (run M s₀ inp t).bus =
    Clocked.run (BusState.step cfgDevice) .reset (busTrace M s₀ inp) t := by
  rw [← h0]
  exact Clocked.run_map PpSystem.bus (busTrace M s₀ inp) (fun _ => rfl) t

theorem deviceState_step (d : Fin NrDevices) :
    (s.step M i).deviceState M d = (device prim M d).step (s.deviceState M d) (s.deviceIn M i d) := by
  fin_cases d <;> rfl

theorem deviceState_run (d : Fin NrDevices) (t : Nat) : (run M s₀ inp t).deviceState M d =
    (device prim M d).handshake.run (s₀.deviceState M d) (deviceTrace M s₀ inp d) t :=
  Clocked.run_map (fun s => PpSystem.deviceState M s d) (deviceTrace M s₀ inp d)
    (fun _ => deviceState_step d) t

theorem port_deviceIn (d : Fin NrDevices) : (device prim M d).port (s.deviceIn M i d) = s.devicePort i d := by
  fin_cases d <;> rfl

theorem accepted_busIn (d : Fin NrDevices) :
    (s.bus.accepted cfgDevice d (s.busIn M i)).map (fun r => (device prim M d).status r.port) =
      (device prim M d).handshake.due (s.deviceState M d) (s.deviceIn M i d) := by
  show (if s.bus.deviceReq cfgDevice (s.busIn M i) d && (s.busIn M i).deviceGnt d then [_] else []).map _ =
    if ((device prim M d).port (s.deviceIn M i d)).reqI && _ then [_] else []
  rw [port_deviceIn]
  show (if (s.devicePort i d).reqI && (s.busIn M i).deviceGnt d then [_] else []).map _ =
    if (s.devicePort i d).reqI && (s.busIn M i).deviceGnt d then [_] else []
  split
  next h =>
    have hreq := (Bool.and_eq_true_iff.1 h).1
    have hport : s.devicePort i d = ⟨true, (s.devicePort i d).addrI, (s.devicePort i d).weI,
        (s.devicePort i d).beI, (s.devicePort i d).wdataI⟩ := by rw [← hreq]
    exact congrArg (fun o => [(device prim M d).status o]) hport.symm
  next => rfl

theorem answered_busIn (d : Fin NrDevices) :
    (BusState.answered d s.bus (s.busIn M i)).map Answer.err =
      (device prim M d).handshake.answer (s.deviceState M d) := by
  show (if (s.busIn M i).deviceRvalid d then [_] else []).map _ =
    if (s.busIn M i).deviceRvalid d then [(s.busIn M i).deviceErr d] else []
  split <;> rfl

section
variable (h0 : s₀.bus = .reset)
include h0

theorem accepts_eq_owed (d : Fin NrDevices) (t : Nat) :
    (accepts 2 cfgDevice (busTrace M s₀ inp) d t).map (fun r => (device prim M d).status r.port) =
      (device prim M d).handshake.owed (s₀.deviceState M d) (deviceTrace M s₀ inp d) t := by
  induction t with
  | zero => rfl
  | succ t ih =>
    have hnow := accepted_busIn (M := M) (s := run M s₀ inp t) (i := inp t) d
    rw [bus_run h0, deviceState_run] at hnow
    rw [accepts, Clocked.log_succ, List.map_append, ← accepts, ih]
    exact congrArg _ hnow

theorem answers_eq_given (d : Fin NrDevices) (t : Nat) :
    (answers 2 cfgDevice (busTrace M s₀ inp) t d).map Answer.err =
      (device prim M d).handshake.given (s₀.deviceState M d) (deviceTrace M s₀ inp d) t := by
  induction t with
  | zero => rfl
  | succ t ih =>
    have hnow := answered_busIn (M := M) (s := run M s₀ inp t) (i := inp t) d
    rw [bus_run h0, deviceState_run] at hnow
    rw [answers, Clocked.log_succ, List.map_append, ← answers, ih]
    exact congrArg _ hnow

variable (hdisc : ∀ d, (device prim M d).Disciplined (s₀.deviceState M d))
include hdisc

/-- The answers of a device carry the error statuses of the requests it accepted, in order. -/
theorem answers_err (d : Fin NrDevices) (t : Nat) :
    (answers 2 cfgDevice (busTrace M s₀ inp) (t + 1) d).map Answer.err <+:
      (accepts 2 cfgDevice (busTrace M s₀ inp) d t).map (fun r => (device prim M d).status r.port) := by
  rw [answers_eq_given h0, accepts_eq_owed h0]
  exact (hdisc d).inOrder _ t

theorem devicesAnswer : DevicesAnswer 2 cfgDevice (busTrace M s₀ inp) := by
  intro t d hv
  have hpre : (answers 2 cfgDevice (busTrace M s₀ inp) (t + 1) d).map Answer.err <+: _ :=
    answers_err h0 hdisc d t
  have hlen := hpre.length_le
  rw [List.length_map, List.length_map] at hlen
  have hnow : answers 2 cfgDevice (busTrace M s₀ inp) (t + 1) d =
      answers 2 cfgDevice (busTrace M s₀ inp) t d ++ [⟨_, _⟩] := congrArg (_ ++ ·) (if_pos hv)
  rw [hnow, List.length_append] at hlen
  exact hlen

theorem devicesComplete : DevicesComplete 2 cfgDevice (busTrace M s₀ inp) := by
  intro d t
  obtain ⟨t', ht', hpre⟩ := (hdisc d).complete (deviceTrace M s₀ inp d) t
  rw [← answers_eq_given h0, ← accepts_eq_owed h0] at hpre
  exact ⟨t', ht', by simpa using hpre.length_le⟩

end

end PpSystem

/-- A response carries the error status of its request, when the answers of the devices do. -/
theorem errStatus_of_response {G : List (Granted NrHosts)} {A : Fin NrDevices → List Answer}
    (hA : ∀ d, (A d).map Answer.err <+:
      ((G.filter fun g => cfgDevice.decode g.addr = some d).map (cfgDevice.localise d)).map
        fun r => (device prim M d).status r.port)
    {n : Nat} {r : HostResp NrHosts} (hr : cfgDevice.response G A n = some r) :
    (G.map (errStatus prim M))[n]? = some r.err := by
  obtain ⟨g, hg, hmap⟩ := Option.bind_eq_some_iff.1 hr
  obtain ⟨a, ha, rfl⟩ := Option.map_eq_some_iff.1 hmap
  rw [List.getElem?_map, hg]
  refine congrArg some ?_
  cases hd : cfgDevice.decode g.addr with
  | none =>
    have hmiss : cfgDevice.reply G A n = some decodeError := InOrder.reply_miss hg hd
    rw [errStatus, hd]
    exact congrArg Answer.err (Option.some.inj (hmiss.symm.trans ha))
  | some d =>
    have hanswer : (A d)[cfgDevice.rank G d n]? = some a := (InOrder.reply_source hg hd).symm.trans ha
    have hrequest : (G.filter fun g => cfgDevice.decode g.addr = some d)[cfgDevice.rank G d n]? = some g :=
      InOrder.getElem?_filter_rank hg hd
    have herr : ((A d).map Answer.err)[cfgDevice.rank G d n]? = some a.err := by
      rw [List.getElem?_map, hanswer]
      rfl
    obtain ⟨L, hL⟩ := hA d
    have hboth := congrArg (fun l => l[cfgDevice.rank G d n]?) hL
    rw [List.getElem?_append_left (List.getElem?_eq_some_iff.1 herr).1, herr, List.getElem?_map,
      List.getElem?_map, hrequest] at hboth
    rw [errStatus, hd]
    exact (Option.some.inj hboth).symm

open PpSystem

theorem responses_err {s₀ : PpSystem prim} {inp : Nat → PpSystemIn} (h0 : s₀.bus = .reset)
    (hdisc : ∀ d, (device prim M d).Disciplined (s₀.deviceState M d)) (t : Nat) :
    (responses 2 cfgDevice (busTrace M s₀ inp) t).map HostResp.err <+:
      (grants 2 cfgDevice (busTrace M s₀ inp) t).map (errStatus prim M) := by
  have hanswers : ∀ d, (answers 2 cfgDevice (busTrace M s₀ inp) t d).map Answer.err <+: _ := fun d =>
    List.IsPrefix.trans ((Clocked.log_mono (Nat.le_succ t)).map _) (answers_err h0 hdisc d t)
  simp only [accepts_eq] at hanswers
  rw [List.prefix_iff_getElem?]
  intro n hn
  have hlt : n < (responses 2 cfgDevice (busTrace M s₀ inp) t).length := by rwa [List.length_map] at hn
  have hdue : (responses 2 cfgDevice (busTrace M s₀ inp) t).map some = _ :=
    responses_due (devicesAnswer h0 hdisc) t
  have hnth := congrArg (fun l => l[n]?) hdue
  rw [List.getElem?_map, List.getElem?_eq_getElem hlt, List.getElem?_map, List.getElem?_range hlt] at hnth
  rw [List.getElem_map]
  exact errStatus_of_response hanswers (Option.some.inj hnth).symm

theorem reset_disciplined (ram : prim.State) (rdata : BitVec 32) (txBuf rxBuf : BitVec 5 → BitVec 8)
    (d : Fin NrDevices) :
    (device prim M d).Disciplined ((PpSystem.reset ram rdata txBuf rxBuf).deviceState M d) := by
  fin_cases d
  · exact FrontEnd.ram2p_disciplined prim ram
  · exact FrontEnd.uart_disciplined 50000000 (by decide) rdata txBuf rxBuf
  · exact FrontEnd.stub_disciplined
  · exact FrontEnd.pwm_disciplined (by decide)
  · exact FrontEnd.pid_disciplined M
  · exact FrontEnd.quad_disciplined
  · exact FrontEnd.timer_disciplined

/-- Every device of the system answers its granted requests in order, once each, in a later cycle, with the
error status of the request, whatever the requests are. So the core gets one response for each granted
request, in order. -/
theorem pp_system_in_order (prim : RamPrim MemAw) (M : Nat) (ram : prim.State) (rdata : BitVec 32)
    (txBuf rxBuf : BitVec 5 → BitVec 8) :
    let s₀ := PpSystem.reset ram rdata txBuf rxBuf
    (∀ d, (device prim M d).Disciplined (s₀.deviceState M d)) ∧
      ∀ (inp : Nat → PpSystemIn) (t : Nat),
        let grants := grants 2 cfgDevice (busTrace M s₀ inp)
        let responses := responses 2 cfgDevice (busTrace M s₀ inp)
        (responses t).map some = (List.range (responses t).length).map
            (cfgDevice.response (grants t) (answers 2 cfgDevice (busTrace M s₀ inp) t)) ∧
          (responses t).map HostResp.err <+: (grants t).map (errStatus prim M) ∧
          ∃ t' ≥ t, (grants t).length ≤ (responses t').length := by
  intro s₀
  have hdisc := reset_disciplined (M := M) ram rdata txBuf rxBuf
  have h0 : s₀.bus = .reset := rfl
  refine ⟨hdisc, fun inp t => ⟨?_, responses_err h0 hdisc t, ?_⟩⟩
  · exact responses_due (devicesAnswer h0 hdisc) t
  · exact served (devicesAnswer h0 hdisc) (devicesComplete h0 hdisc) t

end PenPlotter
