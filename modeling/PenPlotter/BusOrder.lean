import PenPlotter.BusStep

/-!
# The bus returns every response once, in order, to the right host

Along a run from reset whose devices keep their discipline, `BusInv` ties the logs of the ports
together: what the host ports show is `AddrMap.response` of the first granted requests.
-/

namespace PenPlotter

open InOrder

variable {H D k : Nat}

namespace BusRun

variable [NeZero H] [NeZero D] (k) (cfg : AddrMap D) (inp : Nat → BusIn H D)

/-- The requests granted before cycle `t`, in grant order. -/
def grants (t : Nat) : List (Granted H) :=
  Clocked.log (BusState.step cfg) (BusState.granted cfg) (.reset : BusState H D k) inp t

def accepts (d : Fin D) (t : Nat) : List DevReq :=
  Clocked.log (BusState.step cfg) (BusState.accepted cfg d) (.reset : BusState H D k) inp t

def answers (t : Nat) (d : Fin D) : List Answer :=
  Clocked.log (BusState.step cfg) (BusState.answered d) (.reset : BusState H D k) inp t

def responses (t : Nat) : List (HostResp H) :=
  Clocked.log (BusState.step cfg) BusState.delivered (.reset : BusState H D k) inp t

/-- The devices of the run answer a request only after the cycle in which it was granted to them,
and never more requests than that. -/
def DevicesAnswer : Prop :=
  ∀ t d, (inp t).deviceRvalid d = true →
    (answers k cfg inp t d).length < (accepts k cfg inp d t).length

variable {k cfg inp}

theorem accepts_eq (d : Fin D) (t : Nat) : accepts k cfg inp d t =
    ((grants k cfg inp t).filter fun g => cfg.decode g.addr = some d).map (cfg.localise d) := by
  induction t with
  | zero => rfl
  | succ t ih =>
    rw [accepts, Clocked.log_succ, BusState.accepted_eq, grants, Clocked.log_succ,
      List.filter_append, List.map_append]
    exact congrArg (· ++ _) ih

theorem length_accepts (d : Fin D) (t : Nat) : (accepts k cfg inp d t).length =
    cfg.rank (grants k cfg inp t) d (grants k cfg inp t).length := by
  rw [accepts_eq, List.length_map, ← List.countP_eq_length_filter, AddrMap.rank, rank,
    List.take_length]

theorem inv (hdev : DevicesAnswer k cfg inp) (t : Nat) :
    BusInv cfg (Clocked.run (BusState.step cfg) (.reset : BusState H D k) inp t)
      (grants k cfg inp t) (answers k cfg inp t) (responses k cfg inp t).length := by
  induction t with
  | zero => exact BusInv.reset
  | succ t ih =>
    have hdisc : BusInv.Disciplined cfg (grants k cfg inp t) (answers k cfg inp t) (inp t) :=
      fun d hv => by rw [← length_accepts d t]; exact hdev t d hv
    have hstep := ih.step hdisc
    rwa [← List.length_append] at hstep

end BusRun

/-- The response due to request `n` of `G`: its host, and the answer of its device (a decode error
when it has none) with the data cleared on an error. -/
def AddrMap.response (cfg : AddrMap D) (G : List (Granted H)) (A : Fin D → List Answer) (n : Nat) :
    Option (HostResp H) :=
  G[n]?.bind fun g => (cfg.reply G A n).map fun a =>
    ⟨g.host, if a.err then 0 else a.rdata, a.err⟩

theorem BusInv.delivered_eq_response [NeZero D] {cfg : AddrMap D} {s : BusState H D k}
    {i : BusIn H D} {G : List (Granted H)} {A : Fin D → List Answer} {nd : Nat}
    (h : BusInv cfg s G A nd) : s.delivered i = (cfg.response G A nd).toList := by
  rw [h.delivered_eq, AddrMap.response]
  cases G[nd]? <;> cases cfg.reply G A nd <;> rfl

theorem AddrMap.reply_lt {cfg : AddrMap D} {G : List (Granted H)} {A : Fin D → List Answer} {n : Nat}
    {a : Answer} (h : cfg.reply G A n = some a) : n < G.length :=
  reply_isSome_lt (h ▸ rfl : (cfg.reply G A n).isSome)

theorem AddrMap.response_mono {cfg : AddrMap D} {G L : List (Granted H)}
    {A A' : Fin D → List Answer} {n : Nat} {r : HostResp H} (hA : ∀ d, A d <+: A' d)
    (h : cfg.response G A n = some r) : cfg.response (G ++ L) A' n = some r := by
  unfold AddrMap.response at h ⊢
  cases hrep : cfg.reply G A n with
  | none => simp [hrep] at h
  | some a =>
    have hlt : n < G.length := AddrMap.reply_lt hrep
    rw [List.getElem?_append_left hlt, AddrMap.reply, reply_append _ hlt, reply_mono hA hrep]
    simpa [hrep] using h

namespace BusRun

variable [NeZero H] [NeZero D] {cfg : AddrMap D} {inp : Nat → BusIn H D}

/-- A response that is due is driven at once, and no other. -/
theorem responses_succ (hdev : DevicesAnswer k cfg inp) (t : Nat) : responses k cfg inp (t + 1) =
    responses k cfg inp t ++ (cfg.response (grants k cfg inp t) (answers k cfg inp t)
      (responses k cfg inp t).length).toList := by
  rw [← (inv hdev t).delivered_eq_response (i := inp t)]
  rfl

/-- The response of a cycle is to a request of an earlier one. -/
theorem responses_le (hdev : DevicesAnswer k cfg inp) (t : Nat) :
    (responses k cfg inp (t + 1)).length ≤ (grants k cfg inp t).length := by
  have hle := (inv hdev t).le
  rw [responses_succ hdev, List.length_append]
  cases hdue : cfg.response (grants k cfg inp t) (answers k cfg inp t) (responses k cfg inp t).length with
  | none => simpa using hle
  | some r =>
    obtain ⟨g, hg, -⟩ := Option.bind_eq_some_iff.1 hdue
    exact (List.getElem?_eq_some_iff.1 hg).1

/-- The responses are those due to the first granted requests. -/
theorem responses_due (hdev : DevicesAnswer k cfg inp) (t : Nat) : (responses k cfg inp t).map some =
    (List.range (responses k cfg inp t).length).map
      (cfg.response (grants k cfg inp t) (answers k cfg inp t)) := by
  induction t with
  | zero => rfl
  | succ t ih =>
    -- earlier responses stay due, and the one of this cycle was due before it
    have hgrow : ∀ n r, cfg.response (grants k cfg inp t) (answers k cfg inp t) n = some r →
        cfg.response (grants k cfg inp (t + 1)) (answers k cfg inp (t + 1)) n = some r :=
      fun n r => AddrMap.response_mono fun d => List.prefix_append _ _
    have hold : (List.range (responses k cfg inp t).length).map
        (cfg.response (grants k cfg inp (t + 1)) (answers k cfg inp (t + 1))) =
        (responses k cfg inp t).map some := by
      rw [ih]
      refine List.map_congr_left fun n hn => ?_
      have hmem := List.mem_map_of_mem (f := cfg.response (grants k cfg inp t) (answers k cfg inp t)) hn
      rw [← ih] at hmem
      obtain ⟨r, -, hr⟩ := List.mem_map.1 hmem
      rw [← hr, hgrow n r hr.symm]
    rw [responses_succ hdev]
    cases hdue : cfg.response (grants k cfg inp t) (answers k cfg inp t)
        (responses k cfg inp t).length with
    | none => simpa using hold.symm
    | some r => simp [List.range_succ, hold, hgrow _ r hdue]

end BusRun

open BusRun in
/-- At every point of every run whose devices keep the discipline: the responses on the host ports
are those due to the first granted requests, in grant order; the next response that is due is driven
at once; and each device has accepted exactly the granted requests decoded to it, in that order. -/
theorem bus_in_order [NeZero H] [NeZero D] (cfg : AddrMap D) (inp : Nat → BusIn H D)
    (hdev : DevicesAnswer k cfg inp) (t : Nat) :
    (responses k cfg inp t).length ≤ (grants k cfg inp t).length ∧
    (responses k cfg inp t).map some = (List.range (responses k cfg inp t).length).map
      (cfg.response (grants k cfg inp t) (answers k cfg inp t)) ∧
    (∀ r, cfg.response (grants k cfg inp t) (answers k cfg inp t) (responses k cfg inp t).length =
      some r → responses k cfg inp (t + 1) = responses k cfg inp t ++ [r]) ∧
    ∀ d, accepts k cfg inp d t =
      ((grants k cfg inp t).filter fun g => cfg.decode g.addr = some d).map (cfg.localise d) := by
  refine ⟨(inv hdev t).le, responses_due hdev t, fun r hr => ?_, fun d => accepts_eq d t⟩
  rw [responses_succ hdev, hr]
  rfl

/-- The hosts meet in cycle 1 and host 0 wins, host 1 follows, and host 0 then reads where no device is. That fills the
ring, and host 2 has to wait until cycle 6. The device that host 1 reads answers first, and the last one reports an
error. -/
def crossedReads (t : Nat) : BusIn 3 3 where
  hostReq h := if h.val = 0 then t = 1 || t = 3 else if h.val = 1 then t = 1 || t = 2 else 1 ≤ t && t ≤ 6
  hostAddr h := if h.val = 0 then (if t = 1 then 0x0004 else 0x5000) else if h.val = 1 then 0x1008 else 0x200C
  hostWe _ := false
  hostBe _ := 0xF
  hostWdata _ := 0
  deviceGnt _ := true
  deviceRvalid d := if d.val = 0 then t = 4 else if d.val = 1 then t = 3 else t = 7
  deviceRdata d := if d.val = 0 then 7 else 9
  deviceErr d := d.val = 2

def threeDevices : AddrMap 3 := ⟨fun d => BitVec.ofNat 32 (0x1000 * d.val), fun _ => 0xFFFFF000⟩

theorem crossedReads_answer : BusRun.DevicesAnswer 2 threeDevices crossedReads := by
  intro t d hv
  match d with
  | 0 =>
    obtain rfl : t = 4 := by simpa [crossedReads] using hv
    decide +kernel
  | 1 =>
    obtain rfl : t = 3 := by simpa [crossedReads] using hv
    decide +kernel
  | 2 =>
    obtain rfl : t = 7 := by simpa [crossedReads] using hv
    decide +kernel

open BusRun in
theorem bus_in_order_crossedReads :
    responses 2 threeDevices crossedReads 9 = [⟨0, 7, false⟩, ⟨1, 9, false⟩, ⟨0, 0, true⟩, ⟨2, 0, true⟩] ∧
    (responses 2 threeDevices crossedReads 9).map some =
      (List.range (responses 2 threeDevices crossedReads 9).length).map
        (threeDevices.response (grants 2 threeDevices crossedReads 9) (answers 2 threeDevices crossedReads 9)) :=
  ⟨by decide +kernel, (bus_in_order threeDevices crossedReads crossedReads_answer 9).2.1⟩

end PenPlotter
