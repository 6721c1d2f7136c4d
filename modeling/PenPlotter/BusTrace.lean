import PenPlotter.Bus
import PenPlotter.InOrder

/-!
# What the bus transfers

The four transfers seen on the ports of `bus`, cycle by cycle (requests granted to hosts, requests
accepted by devices, answers of devices, responses to hosts), each reduced to one optional value,
and the scan of the `capture_en` loop in closed form.
-/

namespace PenPlotter

/-- A request of a host in the cycle it is granted. -/
structure Granted (H : Nat) where
  host : Fin H
  addr : BitVec 32
  we : Bool
  be : BitVec 4
  wdata : BitVec 32
deriving DecidableEq

/-- A request as a device port shows it. -/
structure DevReq where
  addr : BitVec 32
  we : Bool
  be : BitVec 4
  wdata : BitVec 32
deriving DecidableEq

structure Answer where
  rdata : BitVec 32
  err : Bool
deriving DecidableEq

structure HostResp (H : Nat) where
  host : Fin H
  rdata : BitVec 32
  err : Bool
deriving DecidableEq

variable {H D k : Nat}

namespace BusState

/-- `host_req_i` and `host_gnt_o` both high. -/
def granted (cfg : AddrMap D) (s : BusState H D k) (i : BusIn H D) : List (Granted H) :=
  (List.finRange H).filterMap fun h =>
    if i.hostReq h && s.hostGnt cfg i h then
      some ⟨h, i.hostAddr h, i.hostWe h, i.hostBe h, i.hostWdata h⟩
    else none

/-- `device_req_o` and `device_gnt_i` both high. -/
def accepted (cfg : AddrMap D) (d : Fin D) (s : BusState H D k) (i : BusIn H D) : List DevReq :=
  if s.deviceReq cfg i d && i.deviceGnt d then
    [⟨s.deviceAddr cfg i d, s.deviceWe cfg i d, s.deviceBe cfg i d, s.deviceWdata cfg i d⟩]
  else []

/-- `device_rvalid_i` high. -/
def answered (d : Fin D) (_ : BusState H D k) (i : BusIn H D) : List Answer :=
  if i.deviceRvalid d then [⟨i.deviceRdata d, i.deviceErr d⟩] else []

/-- `host_rvalid_o` high. -/
def delivered (s : BusState H D k) (_ : BusIn H D) : List (HostResp H) :=
  (List.finRange H).filterMap fun h =>
    if s.hostRvalid h then some ⟨h, s.hostRdata h, s.hostErr h⟩ else none

end BusState

namespace AddrMap

/-- The request that device `d` sees for a granted host request. -/
def localise (cfg : AddrMap D) (d : Fin D) (g : Granted H) : DevReq :=
  ⟨g.addr &&& ~~~cfg.deviceAddrMask d, g.we, g.be, g.wdata⟩

end AddrMap

theorem filterMap_finRange_eq {α : Type*} (h₀ : Fin H) (p : Bool) (f : Fin H → α) :
    (List.finRange H).filterMap (fun h => if p && h = h₀ then some (f h) else none) =
      if p then [f h₀] else [] := by
  cases p with
  | false => simp
  | true =>
    have hfilter : (List.finRange H).filter (fun h => h = h₀) = [h₀] := by
      rw [List.filter_eq, List.count_eq_one_of_mem (List.nodup_finRange H) (List.mem_finRange h₀)]
      rfl
    have := List.filterMap_filter (p := fun h => decide (h = h₀)) (f := fun h => some (f h))
      (l := List.finRange H)
    simpa [hfilter] using this.symm

theorem BusIn.hostReq_of_sel {i : BusIn H D} {h : Fin H} (hs : i.hostReqSel = some h) :
    i.hostReq h = true := by
  have key : ∀ (l : List (Fin H)) (sel : Option (Fin H)), (∀ h, sel = some h → i.hostReq h = true) →
      ∀ h, l.foldl (fun sel h => if i.hostReq h then some h else sel) sel = some h →
        i.hostReq h = true := by
    intro l
    induction l with
    | nil => intro sel hsel h hl; exact hsel h hl
    | cons x l ih =>
      intro sel hsel h hl
      refine ih _ (fun h' hh => ?_) h hl
      by_cases hx : i.hostReq x = true
      · simp only [hx, if_true, Option.some.injEq] at hh
        rwa [← hh]
      · simp only [hx, Bool.false_eq_true, if_false] at hh
        exact hsel h' hh
  exact key _ none (by simp) h hs

namespace BusState

variable {cfg : AddrMap D} {s : BusState H D k} {i : BusIn H D}

/-- The grant of the cycle: no request, an unmatched one, or one whose device grants it. -/
def grant (cfg : AddrMap D) (s : BusState H D k) (i : BusIn H D) : Option (Granted H) :=
  (s.request i).bind fun h =>
    if (cfg.decode (i.hostAddr h)).elim true i.deviceGnt then
      some ⟨h, i.hostAddr h, i.hostWe h, i.hostBe h, i.hostWdata h⟩
    else none

theorem hostReq_of_request {h : Fin H} (hr : s.request i = some h) : i.hostReq h = true := by
  unfold request at hr
  split at hr
  · cases hr
  · exact BusIn.hostReq_of_sel hr

theorem granted_eq : s.granted cfg i = (s.grant cfg i).toList := by
  unfold granted grant
  cases hr : s.request i with
  | none => simp [hostGnt, hr]
  | some h₀ =>
    have hreq := hostReq_of_request hr
    have hfun : ∀ h, (i.hostReq h && s.hostGnt cfg i h) =
        ((cfg.decode (i.hostAddr h₀)).elim true i.deviceGnt && decide (h = h₀)) := by
      intro h
      by_cases hh : h = h₀
      · subst hh
        cases hd : cfg.decode (i.hostAddr h) <;> simp [hostGnt, hr, hreq, hd]
      · simp [hostGnt, hr, hh]
    simp only [hfun, Option.bind_some]
    rw [filterMap_finRange_eq]
    split <;> rfl

theorem pushed_eq [NeZero D] : s.pushed cfg i = (s.grant cfg i).map fun g =>
    { s.outstanding s.outstandingBack with
      host := g.host
      device := (cfg.decode g.addr).getD 0
      err := (cfg.decode g.addr).isNone
      done := if (cfg.decode g.addr).isNone then true
        else (s.outstanding s.outstandingBack).done } := by
  unfold pushed grant
  cases hr : s.request i with
  | none => rfl
  | some h =>
    cases hd : cfg.decode (i.hostAddr h) with
    | none => simp [hd]
    | some d => cases hg : i.deviceGnt d <;> simp [hd, hg]

theorem driver_of_request {h : Fin H} (hr : s.request i = some h) (d : Fin D) :
    s.driver cfg i d = if cfg.decode (i.hostAddr h) = some d then some h else none := by
  simp [driver, hr, Option.filter]

theorem accepted_eq (d : Fin D) : s.accepted cfg d i =
    ((s.granted cfg i).filter fun g => cfg.decode g.addr = some d).map (cfg.localise d) := by
  rw [granted_eq]
  unfold accepted grant
  cases hr : s.request i with
  | none => simp [deviceReq, driver, hr]
  | some h =>
    have hreq := hostReq_of_request hr
    simp only [deviceReq, deviceAddr, deviceWe, deviceBe, deviceWdata, driver_of_request hr]
    cases hd : cfg.decode (i.hostAddr h) with
    | none => simp [hd]
    | some d' =>
      by_cases hdd : d' = d
      · subst hdd
        cases hg : i.deviceGnt d' <;> simp [hd, hg, hreq, AddrMap.localise]
      · cases hg : i.deviceGnt d' <;> simp [hd, hg, hdd]

theorem delivered_eq : s.delivered i =
    if s.popping then
      [⟨s.response.host, if s.response.err then 0 else s.response.rdata, s.response.err⟩]
    else [] := by
  unfold delivered
  rw [show (fun h => if s.hostRvalid h then
        some (⟨h, s.hostRdata h, s.hostErr h⟩ : HostResp H) else none) =
      fun h => if s.popping && h = s.response.host then
        some ⟨h, if s.response.err then 0 else s.response.rdata, s.response.err⟩ else none by
    funext h
    by_cases hv : s.hostRvalid h = true
    · simp only [hv, hostRdata, hostErr, if_true, Bool.true_and]
      unfold hostRvalid at hv
      simp only [hv, if_true]
    · simp only [hv, Bool.false_eq_true, if_false]
      unfold hostRvalid at hv
      simp only [hv, Bool.false_eq_true, if_false]]
  exact filterMap_finRange_eq _ _ _

/-- Slot `front + n` is inside the window, unanswered, and its device answers in this cycle. -/
def Eligible (s : BusState H D k) (i : BusIn H D) (n : Nat) : Prop :=
  let slot := s.outstanding (s.outstandingFront + BitVec.ofNat k n)
  n < (s.outstandingBack - s.outstandingFront).toNat ∧ i.deviceRvalid slot.device = true ∧
    slot.done = false ∧ slot.err = false

def windowDevice (s : BusState H D k) (n : Nat) : Fin D :=
  (s.outstanding (s.outstandingFront + BitVec.ofNat k n)).device

theorem captureRound_eq (acc : (BitVec k → Bool) × (Fin D → Bool)) (n : Nat) [Decidable (s.Eligible i n)] :
    captureRound s i acc n =
      if s.Eligible i n ∧ acc.2 (s.windowDevice n) = false then
        (Function.update acc.1 (s.outstandingFront + BitVec.ofNat k n) true,
          Function.update acc.2 (s.windowDevice n) true)
      else acc := by
  unfold captureRound Eligible windowDevice
  by_cases h : n < (s.outstandingBack - s.outstandingFront).toNat
  · simp only [h, if_true, true_and, Bool.and_eq_true, Bool.not_eq_true', and_assoc]
  · simp only [h, if_false, false_and]

open scoped Classical in
/-- After `m` rounds: a device is claimed when an eligible slot of it has been seen, and the slots
to capture are the first eligible ones of each device. -/
theorem captureRounds (m : Nat) :
    let acc := (List.range m).foldl (captureRound s i) (fun _ => false, fun _ => false)
    (∀ d, acc.2 d = true ↔ ∃ j < m, s.Eligible i j ∧ s.windowDevice j = d) ∧
    ∀ idx, acc.1 idx = true ↔ ∃ j < m, idx = s.outstandingFront + BitVec.ofNat k j ∧
      s.Eligible i j ∧ ∀ j' < j, s.Eligible i j' → s.windowDevice j' ≠ s.windowDevice j := by
  induction m with
  | zero => simp
  | succ m ih =>
    simp only [List.range_succ, List.foldl_append, List.foldl_cons, List.foldl_nil] at ih ⊢
    obtain ⟨hclaimed, hcapture⟩ := ih
    set acc := (List.range m).foldl (captureRound s i) (fun _ => false, fun _ => false)
    have hfree : acc.2 (s.windowDevice m) = false ↔
        ∀ j < m, s.Eligible i j → s.windowDevice j ≠ s.windowDevice m := by
      rw [← Bool.not_eq_true, hclaimed]
      push Not
      rfl
    rw [captureRound_eq]
    by_cases hnew : s.Eligible i m ∧ acc.2 (s.windowDevice m) = false
    · rw [if_pos hnew]
      refine ⟨fun d => ?_, fun idx => ?_⟩
      · simp only [Function.update_apply]
        split
        · next hd => exact iff_of_true rfl ⟨m, by omega, hnew.1, hd.symm⟩
        · next hd =>
          rw [hclaimed]
          refine ⟨fun ⟨j, hj, h⟩ => ⟨j, by omega, h⟩, fun ⟨j, hj, h, hjd⟩ => ?_⟩
          rcases Nat.lt_succ_iff_lt_or_eq.1 hj with hj | rfl
          · exact ⟨j, hj, h, hjd⟩
          · exact absurd hjd.symm hd
      · simp only [Function.update_apply]
        split
        · next hidx => exact iff_of_true rfl ⟨m, by omega, hidx, hnew.1, hfree.1 hnew.2⟩
        · next hidx =>
          rw [hcapture]
          refine ⟨fun ⟨j, hj, h⟩ => ⟨j, by omega, h⟩, fun ⟨j, hj, hji, h⟩ => ?_⟩
          rcases Nat.lt_succ_iff_lt_or_eq.1 hj with hj | rfl
          · exact ⟨j, hj, hji, h⟩
          · exact absurd hji hidx
    · rw [if_neg hnew]
      refine ⟨fun d => ?_, fun idx => ?_⟩
      · rw [hclaimed]
        refine ⟨fun ⟨j, hj, h⟩ => ⟨j, by omega, h⟩, fun ⟨j, hj, h, hjd⟩ => ?_⟩
        rcases Nat.lt_succ_iff_lt_or_eq.1 hj with hj | rfl
        · exact ⟨j, hj, h, hjd⟩
        · have hc := (hclaimed (s.windowDevice j)).1 (by simpa [h] using hnew)
          rwa [hjd] at hc
      · rw [hcapture]
        refine ⟨fun ⟨j, hj, h⟩ => ⟨j, by omega, h⟩, fun ⟨j, hj, hji, h, hfirst⟩ => ?_⟩
        rcases Nat.lt_succ_iff_lt_or_eq.1 hj with hj | rfl
        · exact ⟨j, hj, hji, h, hfirst⟩
        · exact absurd ⟨h, hfree.2 hfirst⟩ hnew

theorem captureEn_iff (idx : BitVec k) : s.captureEn i idx = true ↔
    ∃ j, idx = s.outstandingFront + BitVec.ofNat k j ∧ s.Eligible i j ∧
      ∀ j' < j, s.Eligible i j' → s.windowDevice j' ≠ s.windowDevice j := by
  rw [captureEn, captureRounds (2 ^ k) |>.2]
  refine ⟨fun ⟨j, _, h⟩ => ⟨j, h⟩, fun ⟨j, hidx, h, hfirst⟩ => ⟨j, ?_, hidx, h, hfirst⟩⟩
  exact lt_trans h.1 (BitVec.isLt _)

end BusState

end PenPlotter
