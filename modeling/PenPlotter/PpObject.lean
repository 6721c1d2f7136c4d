import PenPlotter.PpOrder
import PenPlotter.Sequential

/-!
# What the core reads back

A device that grants every request at once serves an object on its port (`Sequential.Serves`). The bus hands each
response to its own request, so the response to the `n`-th granted request of the core is due on what the requests
to the same device among the `n` before it have left there (`response_due`).
-/

namespace PenPlotter

open BusRun Sequential

variable {prim : RamPrim MemAw} {M : Nat}

/-- The request on a port. -/
def ObiIn.request (o : ObiIn) : Option DevReq :=
  if o.reqI then some ⟨o.addrI, o.weI, o.beI, o.wdataI⟩ else none

theorem ObiIn.reqI_of_request {o : ObiIn} (h : o.request = none) : o.reqI = false := by
  rw [request] at h
  cases hreq : o.reqI with
  | false => rfl
  | true =>
    rw [hreq] at h
    cases h

theorem ObiIn.eq_port {o : ObiIn} {q : DevReq} (h : o.request = some q) : o = q.port := by
  rcases o with ⟨reqI, addrI, weI, beI, wdataI⟩
  cases reqI with
  | false => cases h
  | true =>
    cases h
    rfl

/-- The answer on the port of a device. -/
def FrontEnd.answer (F : FrontEnd) (s : F.State) : Option Answer :=
  if F.rvalidO s then some ⟨F.rdataO s, F.errO s⟩ else none

/-- The first of the granted requests to a device are those among the first granted requests. -/
theorem take_rank (G : List (Granted NrHosts)) (d : Fin NrDevices) (n : Nat) :
    (G.filter fun g => cfgDevice.decode g.addr = some d).take (cfgDevice.rank G d n) =
      (G.take n).filter fun g => cfgDevice.decode g.addr = some d := by
  have hsplit : G.filter (fun g => cfgDevice.decode g.addr = some d) =
      (G.take n).filter (fun g => cfgDevice.decode g.addr = some d) ++
        (G.drop n).filter fun g => cfgDevice.decode g.addr = some d := by
    rw [← List.filter_append, List.take_append_drop]
  rw [hsplit, AddrMap.rank, InOrder.rank, List.countP_eq_length_filter, List.take_left]

namespace PpSystem

variable (M) (s₀ : PpSystem prim) (inp : Nat → PpSystemIn) (d : Fin NrDevices)

def requestAt (t : Nat) : Option DevReq := ((run M s₀ inp t).devicePort (inp t) d).request

def answerAt (t : Nat) : Option Answer := (device prim M d).answer ((run M s₀ inp t).deviceState M d)

/-- The requests to device `d` among the granted ones, as it sees them. -/
def requestsTo (G : List (Granted NrHosts)) : List DevReq :=
  (G.filter fun g => cfgDevice.decode g.addr = some d).map (cfgDevice.localise d)

variable {M s₀ inp d} (h0 : s₀.bus = .reset)
include h0

theorem accepts_eq_upto (hgnt : ∀ s i, (device prim M d).gntO s i = ((device prim M d).port i).reqI) (t : Nat) :
    accepts 2 cfgDevice (busTrace M s₀ inp) d t = upto (requestAt M s₀ inp d) t := by
  induction t with
  | zero => rfl
  | succ t ih =>
    rw [accepts, Clocked.log_succ, ← accepts, ih, upto, ← bus_run h0]
    refine congrArg (upto (requestAt M s₀ inp d) t ++ ·) ?_
    have hboth : (busTrace M s₀ inp t).deviceGnt d = ((run M s₀ inp t).devicePort (inp t) d).reqI := by
      rw [← port_deviceIn (M := M)]
      exact hgnt _ _
    have hacc : (run M s₀ inp t).bus.accepted cfgDevice d (busTrace M s₀ inp t) =
        if ((run M s₀ inp t).devicePort (inp t) d).reqI && (busTrace M s₀ inp t).deviceGnt d then [_] else [] := rfl
    rw [hacc, hboth, Bool.and_self, requestAt, ObiIn.request]
    split <;> rfl

theorem answers_eq_upto (t : Nat) :
    answers 2 cfgDevice (busTrace M s₀ inp) t d = upto (answerAt M s₀ inp d) t := by
  induction t with
  | zero => rfl
  | succ t ih =>
    rw [answers, Clocked.log_succ, ← answers, ih, upto, ← bus_run h0]
    refine congrArg (upto (answerAt M s₀ inp d) t ++ ·) ?_
    rw [answerAt, FrontEnd.answer]
    show (if (device prim M d).rvalidO _ then [_] else []) = _
    split <;> rfl

variable {C : Type*} {O : Object C DevReq Answer} {contents : Nat → C}
  (hgnt : ∀ s i, (device prim M d).gntO s i = ((device prim M d).port i).reqI)
  (hserves : Serves O contents (requestAt M s₀ inp d) (answerAt M s₀ inp d))
include hgnt hserves

theorem contents_eq (t : Nat) :
    contents t = O.replay (contents 0) (requestsTo d (grants 2 cfgDevice (busTrace M s₀ inp) t)) := by
  rw [hserves.contents_eq, ← accepts_eq_upto h0 hgnt, accepts_eq]
  rfl

/-- The response to a request is due on what the earlier granted requests to its device have left. -/
theorem response_due (hdisc : ∀ d, (device prim M d).Disciplined (s₀.deviceState M d)) {t n : Nat}
    {g : Granted NrHosts} {r : HostResp NrHosts}
    (hg : (grants 2 cfgDevice (busTrace M s₀ inp) t)[n]? = some g) (hd : cfgDevice.decode g.addr = some d)
    (hr : (responses 2 cfgDevice (busTrace M s₀ inp) t)[n]? = some r) :
    ∃ a : Answer, O.due (O.replay (contents 0)
        (requestsTo d ((grants 2 cfgDevice (busTrace M s₀ inp) t).take n))) (cfgDevice.localise d g) a ∧
      r.rdata = (if a.err then 0 else a.rdata) ∧ r.err = a.err := by
  generalize hG : grants 2 cfgDevice (busTrace M s₀ inp) t = G at hg ⊢
  have hall : (responses 2 cfgDevice (busTrace M s₀ inp) t).map some = _ :=
    responses_due (devicesAnswer h0 hdisc) t
  have hdue := congrArg (fun l => l[n]?) hall
  have hlt := (List.getElem?_eq_some_iff.1 hr).1
  rw [List.getElem?_map, hr, List.getElem?_map, List.getElem?_range hlt, hG] at hdue
  obtain ⟨g', hg', hmap⟩ := Option.bind_eq_some_iff.1 (Option.some.inj hdue).symm
  obtain ⟨a, ha, rfl⟩ := Option.map_eq_some_iff.1 hmap
  -- the answer stands at the rank of the request among those to its device
  have hrank : (answers 2 cfgDevice (busTrace M s₀ inp) t d)[cfgDevice.rank G d n]? = some a :=
    (InOrder.reply_source hg hd).symm.trans ha
  rw [answers_eq_upto h0] at hrank
  have hlater : (upto (answerAt M s₀ inp d) (t + 1))[cfgDevice.rank G d n]? = some a := by
    rw [upto, List.getElem?_append_left (List.getElem?_eq_some_iff.1 hrank).1, hrank]
  have hreqs : upto (requestAt M s₀ inp d) t = requestsTo d G := by
    rw [← accepts_eq_upto h0 hgnt, accepts_eq, hG]
    rfl
  have hreq : (requestsTo d G)[cfgDevice.rank G d n]? = some (cfgDevice.localise d g) := by
    rw [requestsTo, List.getElem?_map,
      (InOrder.getElem?_filter_rank hg hd : (G.filter _)[cfgDevice.rank G d n]? = some g)]
    rfl
  have hanswered := hserves.answered t
  rw [hreqs] at hanswered
  have htake : (requestsTo d G).take (cfgDevice.rank G d n) = requestsTo d (G.take n) := by
    rw [requestsTo, ← List.map_take, take_rank, requestsTo]
  refine ⟨a, ?_, rfl, rfl⟩
  rw [← htake]
  exact hanswered _ _ _ hreq hlater

end PpSystem

end PenPlotter
