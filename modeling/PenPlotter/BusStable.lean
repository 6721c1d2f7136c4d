import PenPlotter.BusTrace

/-!
# A pending request at a device port

The hosts keep an ungranted request. The arbiter picks anew in every cycle, so a device port keeps one until
a host of higher priority raises another request (`port_kept_iff`); neither the ring nor an access of the other
hosts, to an unmapped address or not, gets in between (`port_kept_of_quiet`).
-/

namespace PenPlotter

variable {H D k : Nat}

/-- What host `h` shows at device port `d` when it is selected. -/
def BusIn.shown (cfg : AddrMap D) (i : BusIn H D) (d : Fin D) (h : Fin H) : DevReq :=
  ⟨i.hostAddr h &&& ~~~cfg.deviceAddrMask d, i.hostWe h, i.hostBe h, i.hostWdata h⟩

/-- A request of host `h` of the cycle with inputs `i` is still there in the cycle with inputs `i'`. -/
structure BusIn.Keeps (i i' : BusIn H D) (h : Fin H) : Prop where
  req : i'.hostReq h = true
  addr : i'.hostAddr h = i.hostAddr h
  we : i'.hostWe h = i.hostWe h
  be : i'.hostBe h = i.hostBe h
  wdata : i'.hostWdata h = i.hostWdata h

/-- No host in front of the one selected before takes the arbiter, unless it shows device port `d` the same
request. -/
def BusIn.NotPreempted (cfg : AddrMap D) (i i' : BusIn H D) (d : Fin D) : Prop :=
  ∀ h h', i.hostReqSel = some h → i'.hostReqSel = some h' → h' < h →
    cfg.decode (i'.hostAddr h') = some d ∧ i'.shown cfg d h' = i.shown cfg d h

namespace BusState

/-- What device port `d` shows. -/
def port (cfg : AddrMap D) (s : BusState H D k) (i : BusIn H D) (d : Fin D) : DevReq :=
  ⟨s.deviceAddr cfg i d, s.deviceWe cfg i d, s.deviceBe cfg i d, s.deviceWdata cfg i d⟩

/-- `device_req_o[d]` is high and `device_gnt_i[d]` low. -/
def Waits (cfg : AddrMap D) (s : BusState H D k) (i : BusIn H D) (d : Fin D) : Prop :=
  s.deviceReq cfg i d = true ∧ i.deviceGnt d = false

end BusState

theorem BusIn.hostReqSel_eq_find? (i : BusIn H D) : i.hostReqSel = (List.finRange H).find? i.hostReq := by
  have hfold (l : List (Fin H)) :
      l.foldr (fun h sel => if i.hostReq h then some h else sel) none = l.find? i.hostReq := by
    induction l with
    | nil => rfl
    | cons h l ih =>
      rw [List.foldr_cons, ih, List.find?_cons]
      cases i.hostReq h <;> rfl
  rw [BusIn.hostReqSel, List.foldl_reverse]
  exact hfold _

/-- The arbiter picks the first host that requests. -/
theorem BusIn.not_req_of_lt_sel {i : BusIn H D} {h h' : Fin H} (hsel : i.hostReqSel = some h) (hlt : h' < h) :
    i.hostReq h' = false := by
  rw [hostReqSel_eq_find?, List.find?_eq_some_iff_getElem] at hsel
  obtain ⟨-, n, hn, heq, hbefore⟩ := hsel
  rw [List.getElem_finRange] at heq
  have hval : n = h.val := congrArg Fin.val heq
  have hskip := hbefore h'.val (by omega)
  rw [List.getElem_finRange] at hskip
  simpa using hskip

theorem BusIn.exists_sel {i : BusIn H D} {h : Fin H} (hreq : i.hostReq h = true) :
    ∃ h' ≤ h, i.hostReqSel = some h' := by
  cases hsel : i.hostReqSel with
  | none =>
    rw [hostReqSel_eq_find?, List.find?_eq_none] at hsel
    exact absurd hreq (hsel h (List.mem_finRange h))
  | some h' =>
    refine ⟨h', Fin.not_lt.1 fun hlt => ?_, rfl⟩
    rw [not_req_of_lt_sel hsel hlt] at hreq
    cases hreq

theorem BusIn.notPreempted_iff {cfg : AddrMap D} {i i' : BusIn H D} {d : Fin D} {h h' : Fin H}
    (hsel : i.hostReqSel = some h) (hsel' : i'.hostReqSel = some h') :
    i.NotPreempted cfg i' d ↔
      (h' < h → cfg.decode (i'.hostAddr h') = some d ∧ i'.shown cfg d h' = i.shown cfg d h) := by
  constructor
  · exact fun hnot => hnot h h' hsel hsel'
  · intro hsame h₁ h₁' hsel₁ hsel₁'
    rw [hsel] at hsel₁
    rw [hsel'] at hsel₁'
    cases hsel₁
    cases hsel₁'
    exact hsame

/-- Hosts behind the one selected before do not take the arbiter, whatever they access. -/
theorem BusIn.notPreempted_of_quiet {cfg : AddrMap D} {i i' : BusIn H D} (d : Fin D)
    (hquiet : ∀ h, i.hostReqSel = some h → ∀ h' < h, i'.hostReq h' = false) : i.NotPreempted cfg i' d := by
  intro h h' hsel hsel' hlt
  have hreq := BusIn.hostReq_of_sel hsel'
  rw [hquiet h hsel h' hlt] at hreq
  cases hreq

/-- With one host nothing comes in between. -/
theorem BusIn.notPreempted_one (cfg : AddrMap D) (i i' : BusIn 1 D) (d : Fin D) : i.NotPreempted cfg i' d := by
  refine notPreempted_of_quiet d fun h _ h' hlt => ?_
  rw [Subsingleton.elim h' h] at hlt
  exact absurd hlt (lt_irrefl h)

namespace BusState

variable {cfg : AddrMap D} {s : BusState H D k} {i : BusIn H D} {d : Fin D} {h : Fin H}

theorem driver_eq_some : s.driver cfg i d = some h ↔
    s.request i = some h ∧ cfg.decode (i.hostAddr h) = some d := by
  rw [driver, Option.filter_eq_some_iff, decide_eq_true_iff]

theorem request_eq_some : s.request i = some h ↔ s.outstandingFull = false ∧ i.hostReqSel = some h := by
  rw [request]
  cases s.outstandingFull <;> simp

theorem exists_driver (hreq : s.deviceReq cfg i d = true) : ∃ h, s.driver cfg i d = some h := by
  unfold deviceReq at hreq
  cases hdrv : s.driver cfg i d with
  | none =>
    rw [hdrv] at hreq
    cases hreq
  | some h => exact ⟨h, rfl⟩

theorem port_eq (hdrv : s.driver cfg i d = some h) : s.port cfg i d = i.shown cfg d h := by
  simp only [port, deviceAddr, deviceWe, deviceBe, deviceWdata, hdrv]
  rfl

/-- A port shows a request iff the host that the arbiter serves addresses it and shows that request. -/
theorem port_shown_iff (hrequest : s.request i = some h) {r : DevReq} :
    s.deviceReq cfg i d = true ∧ s.port cfg i d = r ↔
      cfg.decode (i.hostAddr h) = some d ∧ i.shown cfg d h = r := by
  constructor
  · rintro ⟨hreq, hport⟩
    obtain ⟨h', hdrv⟩ := exists_driver hreq
    obtain ⟨hrequest', hdec⟩ := driver_eq_some.1 hdrv
    rw [hrequest] at hrequest'
    cases hrequest'
    exact ⟨hdec, port_eq hdrv ▸ hport⟩
  · rintro ⟨hdec, hshown⟩
    have hdrv := driver_eq_some.2 ⟨hrequest, hdec⟩
    refine ⟨?_, (port_eq hdrv).trans hshown⟩
    rw [deviceReq, hdrv]
    exact BusIn.hostReq_of_sel (request_eq_some.1 hrequest).2

theorem hostGnt_eq (hdrv : s.driver cfg i d = some h) : s.hostGnt cfg i h = i.deviceGnt d := by
  obtain ⟨hreq, hdec⟩ := driver_eq_some.1 hdrv
  rw [hostGnt, hreq]
  simp [hdec]

theorem not_full_step [NeZero D] (hdrv : s.driver cfg i d = some h) (hgnt : i.deviceGnt d = false) :
    (s.step cfg i).outstandingFull = false := by
  obtain ⟨hreq, hdec⟩ := driver_eq_some.1 hdrv
  have hfull := (request_eq_some.1 hreq).1
  have hpush : s.pushed cfg i = none := by
    rw [pushed, hreq]
    simp [hdec, hgnt]
  have hback : (s.step cfg i).outstandingBack = s.outstandingBack := by
    show (if (s.pushed cfg i).isSome then _ else _) = _
    rw [hpush]
    rfl
  have hfront : (s.step cfg i).outstandingFront =
      if s.popping then s.outstandingFront + 1 else s.outstandingFront := rfl
  rw [outstandingFull, hback, hfront]
  split
  next hpop =>
    -- the ring is not empty, so its back does not meet the new front
    rw [popping, Bool.and_eq_true, bne_iff_ne] at hpop
    exact beq_false_of_ne fun heq => hpop.1 ((BitVec.add_left_inj _).1 heq).symm
  next => exact hfull

/-- What one cycle does to a request that waits, if its host keeps it. -/
theorem port_step_iff [NeZero D] {i' : BusIn H D} (hwait : s.Waits cfg i d)
    (hkeeps : ∀ h, s.driver cfg i d = some h → i.Keeps i' h) :
    ((s.step cfg i).deviceReq cfg i' d = true ∧ (s.step cfg i).port cfg i' d = s.port cfg i d) ↔
      i.NotPreempted cfg i' d := by
  obtain ⟨hreq, hgnt⟩ := hwait
  obtain ⟨h, hdrv⟩ := exists_driver hreq
  obtain ⟨hrequest, hdec⟩ := driver_eq_some.1 hdrv
  have hsel := (request_eq_some.1 hrequest).2
  have hkeep := hkeeps h hdrv
  have hfull : (s.step cfg i).outstandingFull = false := not_full_step hdrv hgnt
  obtain ⟨h', hle, hsel'⟩ := BusIn.exists_sel hkeep.req
  rw [port_eq hdrv, port_shown_iff (request_eq_some.2 ⟨hfull, hsel'⟩), BusIn.notPreempted_iff hsel hsel']
  rcases Fin.lt_or_eq_of_le hle with hlt | rfl
  · exact ⟨fun hsame _ => hsame, fun hnot => hnot hlt⟩
  · -- the same host: it kept its request
    refine iff_of_true ⟨hkeep.addr ▸ hdec, ?_⟩ fun hlt => absurd hlt (lt_irrefl _)
    rw [BusIn.shown, BusIn.shown, hkeep.addr, hkeep.we, hkeep.be, hkeep.wdata]

end BusState

section

variable [NeZero H] [NeZero D] (k) (cfg : AddrMap D) (inp : Nat → BusIn H D)

/-- The bus before cycle `t`. -/
def busRun (t : Nat) : BusState H D k := Clocked.run (BusState.step cfg) .reset inp t

/-- Each host keeps its request until it is granted. -/
def HostsStable : Prop :=
  ∀ t h, (inp t).hostReq h = true → (busRun k cfg inp t).hostGnt cfg (inp t) h = false →
    (inp t).Keeps (inp (t + 1)) h

end

open BusState in
theorem HostsStable.keeps [NeZero H] [NeZero D] {cfg : AddrMap D} {inp : Nat → BusIn H D}
    (hstable : HostsStable k cfg inp) {t : Nat} {d : Fin D} (hwait : (busRun k cfg inp t).Waits cfg (inp t) d)
    (h : Fin H) (hdrv : (busRun k cfg inp t).driver cfg (inp t) d = some h) : (inp t).Keeps (inp (t + 1)) h := by
  have hsel := (request_eq_some.1 (driver_eq_some.1 hdrv).1).2
  exact hstable t h (BusIn.hostReq_of_sel hsel) ((hostGnt_eq hdrv).trans hwait.2)

open BusState in
/-- Between stable hosts a device port keeps a request that it has not granted iff no host of higher priority
brings another one. -/
theorem port_kept_iff [NeZero H] [NeZero D] (cfg : AddrMap D) (inp : Nat → BusIn H D)
    (hstable : HostsStable k cfg inp) (t : Nat) (d : Fin D)
    (hwait : (busRun k cfg inp t).Waits cfg (inp t) d) :
    ((busRun k cfg inp (t + 1)).deviceReq cfg (inp (t + 1)) d = true ∧
      (busRun k cfg inp (t + 1)).port cfg (inp (t + 1)) d = (busRun k cfg inp t).port cfg (inp t) d) ↔
    (inp t).NotPreempted cfg (inp (t + 1)) d :=
  port_step_iff hwait (hstable.keeps hwait)

section

variable [NeZero H] [NeZero D] {cfg : AddrMap D} {t : Nat} {d : Fin D}

/-- A single stable host is never disturbed. -/
theorem port_kept_of_single {inp : Nat → BusIn 1 D} (hstable : HostsStable k cfg inp)
    (hwait : (busRun k cfg inp t).Waits cfg (inp t) d) :
    (busRun k cfg inp (t + 1)).deviceReq cfg (inp (t + 1)) d = true ∧
      (busRun k cfg inp (t + 1)).port cfg (inp (t + 1)) d = (busRun k cfg inp t).port cfg (inp t) d :=
  (BusState.port_step_iff hwait (hstable.keeps hwait)).2 (BusIn.notPreempted_one cfg _ _ d)

/-- Neither a ring that fills nor what the hosts of lower priority access disturbs a request. -/
theorem port_kept_of_quiet {inp : Nat → BusIn H D} (hstable : HostsStable k cfg inp)
    (hwait : (busRun k cfg inp t).Waits cfg (inp t) d)
    (hquiet : ∀ h, (inp t).hostReqSel = some h → ∀ h' < h, (inp (t + 1)).hostReq h' = false) :
    (busRun k cfg inp (t + 1)).deviceReq cfg (inp (t + 1)) d = true ∧
      (busRun k cfg inp (t + 1)).port cfg (inp (t + 1)) d = (busRun k cfg inp t).port cfg (inp t) d :=
  (BusState.port_step_iff hwait (hstable.keeps hwait)).2 (BusIn.notPreempted_of_quiet d hquiet)

end

/-- One device that takes every address and never grants. Host 1 reads word 1 all the time; from cycle 1 on
host 0 reads word 2 if `joins`. -/
def contendingHosts (joins : Bool) (t : Nat) : BusIn 2 1 where
  hostReq h := if h = 0 then joins && 0 < t else true
  hostAddr h := if h = 0 then 8 else 4
  hostWe _ := false
  hostBe _ := 0xF
  hostWdata _ := 0
  deviceGnt _ := false
  deviceRvalid _ := false
  deviceRdata _ := 0
  deviceErr _ := false

def anyAddress : AddrMap 1 := ⟨fun _ => 0, fun _ => 0⟩

theorem contendingHosts_stable (joins : Bool) : HostsStable 2 anyAddress (contendingHosts joins) := by
  intro t h hreq _
  refine ⟨?_, rfl, rfl, rfl, rfl⟩
  unfold contendingHosts at hreq ⊢
  dsimp only at hreq ⊢
  split
  next h0 =>
    rw [if_pos h0, Bool.and_eq_true] at hreq
    rw [hreq.1]
    rfl
  next => rfl

theorem port_kept_alone : HostsStable 2 anyAddress (contendingHosts false) ∧
    (busRun 2 anyAddress (contendingHosts false) 0).Waits anyAddress (contendingHosts false 0) 0 ∧
    (busRun 2 anyAddress (contendingHosts false) 1).deviceReq anyAddress (contendingHosts false 1) 0 = true := by
  have hwait : (busRun 2 anyAddress (contendingHosts false) 0).Waits anyAddress (contendingHosts false 0) 0 :=
    ⟨by decide, rfl⟩
  have hkept : (contendingHosts false 0).NotPreempted anyAddress (contendingHosts false 1) 0 := by
    refine BusIn.notPreempted_of_quiet 0 fun h _ h' hlt => ?_
    obtain rfl : h' = 0 := by omega
    rfl
  exact ⟨contendingHosts_stable false, hwait,
    ((port_kept_iff _ _ (contendingHosts_stable false) 0 0 hwait).2 hkept).1⟩

/-- The port shows word 1 in cycle 0 and, without a grant, word 2 in cycle 1. -/
theorem contendingHosts_preempt : HostsStable 2 anyAddress (contendingHosts true) ∧
    (busRun 2 anyAddress (contendingHosts true) 0).Waits anyAddress (contendingHosts true 0) 0 ∧
    (busRun 2 anyAddress (contendingHosts true) 0).deviceAddr anyAddress (contendingHosts true 0) 0 = 4 ∧
    (busRun 2 anyAddress (contendingHosts true) 1).deviceAddr anyAddress (contendingHosts true 1) 0 = 8 :=
  ⟨contendingHosts_stable true, ⟨by decide, rfl⟩, by decide, by decide⟩

end PenPlotter
