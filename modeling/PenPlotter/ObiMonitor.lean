import PenPlotter.BusOrder
import PenPlotter.Pairing

/-!
# The OBI monitor of the testbench (`dv/uvm/obi/obi_monitor.svh`)

At each clock edge one thread of the monitor queues a granted request and another one takes the oldest request for a
response; which of them runs first is up to the simulator. On a host port of the bus the monitor never finds a response
without a request, and publishes each request with its own response, in the order of the grants (`obi_monitor_pairs`).
The monitor starts one edge after reset.
-/

namespace PenPlotter

open Pairing

variable {H D k : Nat}

/-- `obi_item`. -/
structure ObiItem where
  addr : BitVec 32
  we : Bool
  be : BitVec 4
  wdata : BitVec 32
  rdata : BitVec 32
  err : Bool
deriving DecidableEq

/-- `waiting`, what the analysis ports have published, and the number of errors. -/
structure ObiMonitor where
  waiting : List ObiItem
  phaseA : List ObiItem
  ap : List ObiItem
  errors : Nat

/-- The packet of a granted request. -/
def Granted.item (g : Granted H) : ObiItem := ⟨g.addr, g.we, g.be, g.wdata, 0, false⟩

def ObiItem.respond (p : ObiItem) (r : HostResp H) : ObiItem := { p with rdata := r.rdata, err := r.err }

namespace ObiMonitor

def init : ObiMonitor := ⟨[], [], [], 0⟩

variable (m : ObiMonitor) (s : BusState H D k) (i : BusIn H D) (h : Fin H)

/-- The first thread. -/
def onRequest (cfg : AddrMap D) : ObiMonitor :=
  if i.hostReq h && s.hostGnt cfg i h then
    let packet : ObiItem := ⟨i.hostAddr h, i.hostWe h, i.hostBe h, i.hostWdata h, 0, false⟩
    { m with waiting := m.waiting ++ [packet], phaseA := m.phaseA ++ [packet] }
  else m

/-- The second thread. -/
def onResponse : ObiMonitor :=
  if s.hostRvalid h then
    match m.waiting with
    | [] => { m with errors := m.errors + 1 }
    | p :: rest => { m with waiting := rest, ap := m.ap ++ [{ p with rdata := s.hostRdata h, err := s.hostErr h }] }
  else m

/-- A clock edge; `responseFirst` is the choice of the simulator. -/
def step (cfg : AddrMap D) (responseFirst : Bool) : ObiMonitor :=
  if responseFirst then (m.onResponse s h).onRequest s i h cfg else (m.onRequest s i h cfg).onResponse s h

end ObiMonitor

theorem filter_host_filterMap (h : Fin H) (p : Fin H → Bool) {α : Type*} (host : α → Fin H) (f : Fin H → α)
    (hf : ∀ h, host (f h) = h) :
    ((List.finRange H).filterMap fun h => if p h then some (f h) else none).filter (fun a => host a = h) =
      if p h then [f h] else [] := by
  rw [← filterMap_finRange_eq, List.filter_filterMap]
  refine List.filterMap_congr fun h' _ => ?_
  by_cases heq : h' = h
  · subst heq
    cases p h' <;> simp [hf]
  · cases p h' <;> simp [hf, heq]

section

variable {cfg : AddrMap D} {s : BusState H D k} {i : BusIn H D} {h : Fin H}

theorem granted_filter : (s.granted cfg i).filter (fun g => g.host = h) =
    if i.hostReq h && s.hostGnt cfg i h then
      [⟨h, i.hostAddr h, i.hostWe h, i.hostBe h, i.hostWdata h⟩] else [] :=
  filter_host_filterMap h _ Granted.host
    (fun h => ⟨h, i.hostAddr h, i.hostWe h, i.hostBe h, i.hostWdata h⟩) fun _ => rfl

theorem delivered_filter : (s.delivered i).filter (fun r => r.host = h) =
    if s.hostRvalid h then [⟨h, s.hostRdata h, s.hostErr h⟩] else [] :=
  filter_host_filterMap h s.hostRvalid HostResp.host (fun h => ⟨h, s.hostRdata h, s.hostErr h⟩) fun _ => rfl

end

/-- What the monitor has after the requests `G` and the responses `rs` of its port. -/
structure ObiMonitor.Tracks (m : ObiMonitor) (G : List (Granted H)) (rs : List (HostResp H)) : Prop where
  paired : Paired ObiItem.respond (G.map Granted.item) rs m.waiting m.ap
  phaseA : m.phaseA = G.map Granted.item
  errors : m.errors = 0

namespace ObiMonitor.Tracks

variable {m : ObiMonitor} {cfg : AddrMap D} {s : BusState H D k} {i : BusIn H D} {h : Fin H} {G : List (Granted H)}
  {rs : List (HostResp H)} (ht : m.Tracks G rs)
include ht

theorem onRequest :
    (m.onRequest s i h cfg).Tracks (G ++ (s.granted cfg i).filter fun g => g.host = h) rs := by
  rw [granted_filter, ObiMonitor.onRequest]
  split
  · refine ⟨?_, ?_, ht.errors⟩
    · rw [List.map_append]
      exact ht.paired.request _
    · show m.phaseA ++ [_] = _
      rw [ht.phaseA, List.map_append]
      rfl
  · rwa [List.append_nil]

theorem onResponse (hle : (rs ++ (s.delivered i).filter fun r => r.host = h).length ≤ G.length) :
    (m.onResponse s h).Tracks G (rs ++ (s.delivered i).filter fun r => r.host = h) := by
  rw [delivered_filter] at hle ⊢
  rw [ObiMonitor.onResponse]
  split
  next hv =>
    rw [if_pos hv, List.length_append] at hle
    obtain ⟨p, rest, hhead, hnext⟩ := ht.paired.respond (by rwa [List.length_map])
      (⟨h, s.hostRdata h, s.hostErr h⟩ : HostResp H)
    rw [hhead]
    exact ⟨hnext, ht.phaseA, ht.errors⟩
  next => rwa [List.append_nil]

/-- Whichever thread runs first. -/
theorem step (hle : (rs ++ (s.delivered i).filter fun r => r.host = h).length ≤ G.length) (responseFirst : Bool) :
    (m.step s i h cfg responseFirst).Tracks (G ++ (s.granted cfg i).filter fun g => g.host = h)
      (rs ++ (s.delivered i).filter fun r => r.host = h) := by
  rw [ObiMonitor.step]
  cases responseFirst with
  | false =>
    refine ht.onRequest.onResponse (Nat.le_trans hle ?_)
    rw [List.length_append]
    exact Nat.le_add_right _ _
  | true => exact (ht.onResponse hle).onRequest

end ObiMonitor.Tracks

open BusRun

section

variable [NeZero H] [NeZero D]

namespace ObiMonitor

/-- The monitor of host `h` after `t` edges, the first one in cycle 1. -/
def run (k : Nat) (cfg : AddrMap D) (inp : Nat → BusIn H D) (h : Fin H) (responseFirst : Nat → Bool) :
    Nat → ObiMonitor
  | 0 => init
  | t + 1 => (run k cfg inp h responseFirst t).step
      (Clocked.run (BusState.step cfg) (.reset : BusState H D k) inp (1 + t)) (inp (1 + t)) h cfg (responseFirst t)

end ObiMonitor

variable {cfg : AddrMap D} {inp : Nat → BusIn H D} (hdev : DevicesAnswer k cfg inp)
include hdev

/-- The `n`-th response goes to the host of the `n`-th granted request. -/
theorem host_of_response {t n : Nat} {g : Granted H} {r : HostResp H} (hg : (grants k cfg inp t)[n]? = some g)
    (hr : (responses k cfg inp t)[n]? = some r) : g.host = r.host := by
  have hdue := congrArg (fun l => l[n]?) (responses_due hdev t)
  have hlt := (List.getElem?_eq_some_iff.1 hr).1
  rw [List.getElem?_map, hr, List.getElem?_map, List.getElem?_range hlt] at hdue
  obtain ⟨g', hg', hmap⟩ := Option.bind_eq_some_iff.1 (Option.some.inj hdue).symm
  obtain ⟨a, -, rfl⟩ := Option.map_eq_some_iff.1 hmap
  rw [hg] at hg'
  cases hg'
  rfl

theorem filter_responses_le (h : Fin H) (t : Nat) :
    ((responses k cfg inp (t + 1)).filter fun r => r.host = h).length ≤
      ((grants k cfg inp t).filter fun g => g.host = h).length := by
  refine length_filter_le (fun n g r hg hr => ?_) (responses_le hdev t)
  have hlt := (List.getElem?_eq_some_iff.1 hg).1
  have hlater : (grants k cfg inp (t + 1))[n]? = some g := by
    rw [grants, Clocked.log_succ, ← grants, List.getElem?_append_left hlt, hg]
  rw [host_of_response hdev hlater hr]

theorem obiMonitor_tracks (hquiet : ∀ h, (inp 0).hostReq h = false) (h : Fin H) (responseFirst : Nat → Bool) (t : Nat) :
    (ObiMonitor.run k cfg inp h responseFirst t).Tracks ((grants k cfg inp (1 + t)).filter fun g => g.host = h)
      ((responses k cfg inp (1 + t)).filter fun r => r.host = h) := by
  induction t with
  | zero =>
    have hgrants : (grants k cfg inp 1).filter (fun g => g.host = h) = [] := by
      show ((BusState.reset : BusState H D k).granted cfg (inp 0)).filter (fun g => g.host = h) = []
      rw [granted_filter, hquiet h]
      rfl
    have hresponses : (responses k cfg inp 1).filter (fun r => r.host = h) = [] :=
      List.eq_nil_of_length_eq_zero (Nat.le_zero.1 (filter_responses_le hdev h 0))
    rw [hgrants, hresponses]
    exact ⟨⟨rfl, rfl, Nat.le_refl 0⟩, rfl, rfl⟩
  | succ t ih =>
    have hle := filter_responses_le hdev h (1 + t)
    rw [responses, Clocked.log_succ, ← responses, List.filter_append] at hle
    rw [← Nat.add_assoc, grants, responses, Clocked.log_succ, Clocked.log_succ, ← grants, ← responses,
      List.filter_append, List.filter_append]
    exact ih.step hle (responseFirst t)

end

/-- Whichever thread the simulator runs first at each edge: the monitor of a host reports no error, publishes every
granted request of the host and every response paired with its own request, in order, and keeps the requests without
a response. -/
theorem obi_monitor_pairs [NeZero H] [NeZero D] (cfg : AddrMap D) (inp : Nat → BusIn H D)
    (hdev : DevicesAnswer k cfg inp) (hquiet : ∀ h, (inp 0).hostReq h = false) (h : Fin H)
    (responseFirst : Nat → Bool) (t : Nat) :
    let m := ObiMonitor.run k cfg inp h responseFirst t
    let granted := grants k cfg inp (1 + t)
    let responses := responses k cfg inp (1 + t)
    m.errors = 0 ∧ m.phaseA = (granted.filter fun g => g.host = h).map Granted.item ∧
      m.ap = (granted.zip responses).filterMap (fun x => if x.1.host = h then some (x.1.item.respond x.2) else none) ∧
      m.waiting = ((granted.filter fun g => g.host = h).map Granted.item).drop
        (responses.filter fun r => r.host = h).length := by
  intro m granted responses
  have ht := obiMonitor_tracks hdev hquiet h responseFirst t
  refine ⟨ht.errors, ht.phaseA, ?_, ht.paired.waiting⟩
  rw [ht.paired.done, List.zipWith_map_left]
  have hagree (n : Nat) (g : Granted H) (r : HostResp H) (hg : granted[n]? = some g) (hr : responses[n]? = some r) :
      decide (g.host = h) = decide (r.host = h) := by
    rw [host_of_response hdev hg hr]
  rw [zipWith_filter hagree (BusRun.inv hdev (1 + t)).le]
  simp only [decide_eq_true_eq]

/-- The first read and the error of host 0, and the error of host 2. -/
theorem obi_monitor_pairs_crossedReads :
    (ObiMonitor.run 2 threeDevices crossedReads 0 (fun _ => true) 8).ap =
      [⟨0x0004, false, 0xF, 0, 7, false⟩, ⟨0x5000, false, 0xF, 0, 0, true⟩] ∧
    (ObiMonitor.run 2 threeDevices crossedReads 0 (fun _ => true) 8).errors = 0 ∧
    (ObiMonitor.run 2 threeDevices crossedReads 2 (fun t => t = 7) 8).ap = [⟨0x200C, false, 0xF, 0, 0, true⟩] ∧
    (ObiMonitor.run 2 threeDevices crossedReads 2 (fun t => t = 7) 8).errors = 0 :=
  ⟨by decide +kernel,
    (obi_monitor_pairs threeDevices crossedReads crossedReads_answer (by decide) 0 (fun _ => true) 8).1,
    by decide +kernel,
    (obi_monitor_pairs threeDevices crossedReads crossedReads_answer (by decide) 2 (fun t => t = 7) 8).1⟩

end PenPlotter
