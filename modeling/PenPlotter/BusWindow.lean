import PenPlotter.BusOrder
import PenPlotter.Ring

/-!
# The window of outstanding transactions

What `BusInv` says about the ring as it stands, with the positions in the log of grants left out: which bits
are set inside and outside the window, that every answer finds its slot, and that the front never waits once
it is answered.
-/

namespace PenPlotter

open InOrder

variable {H D k : Nat}

namespace BusState

variable (s : BusState H D k)

/-- The slot lies in `[outstanding_front, outstanding_back)`. -/
def InWindow (idx : BitVec k) : Prop := Ring.Within s.outstandingFront s.outstandingBack idx

/-- The slots of the window that wait for device `d`. -/
def waiting (d : Fin D) : Nat :=
  (Ring.contents s.outstanding s.outstandingFront s.outstandingBack).countP fun p => p.device = d && !p.done

end BusState

namespace BusInv

variable [NeZero D] {cfg : AddrMap D} {s : BusState H D k} {i : BusIn H D} {G : List (Granted H)}
  {A : Fin D → List Answer} {nd n : Nat} {g : Granted H} {idx : BitVec k} {d : Fin D}

theorem inWindow_iff (h : BusInv cfg s G A nd) :
    s.InWindow idx ↔ ∃ n, nd ≤ n ∧ n < G.length ∧ idx = BitVec.ofNat k n := by
  rw [BusState.InWindow, Ring.within_iff, h.occ]
  have hle := h.le
  constructor
  · rintro ⟨j, hj, rfl⟩
    exact ⟨nd + j, Nat.le_add_right .., by omega, h.front_add j⟩
  · rintro ⟨n, hn, hlt, rfl⟩
    exact ⟨n - nd, by omega, by rw [h.front_add, Nat.add_sub_cancel' hn]⟩

theorem clear_outside (h : BusInv cfg s G A nd) (hidx : ¬ s.InWindow idx) :
    (s.outstanding idx).done = false ∧ (s.outstanding idx).err = false :=
  h.outside idx fun n hn hlt heq => hidx (h.inWindow_iff.2 ⟨n, hn, hlt, heq⟩)

theorem done_of_err (h : BusInv cfg s G A nd) (hidx : s.InWindow idx) (herr : (s.outstanding idx).err = true) :
    (s.outstanding idx).done = true := by
  obtain ⟨n, hn, hlt, rfl⟩ := h.inWindow_iff.1 hidx
  have hslot := h.inside n _ hn (List.getElem?_eq_getElem hlt)
  rw [hslot.err] at herr
  rw [hslot.done]
  cases hrep : cfg.reply G A n with
  | some a => rfl
  | none =>
    rw [hrep] at herr
    cases herr

/-- A slot waits for `d` if its request goes there and has no answer yet. -/
theorem waits_iff (h : BusInv cfg s G A nd) (hn : nd ≤ n) (hg : G[n]? = some g) :
    ((s.outstanding (BitVec.ofNat k n)).device = d ∧ (s.outstanding (BitVec.ofNat k n)).done = false) ↔
      cfg.decode g.addr = some d ∧ cfg.reply G A n = none := by
  have hslot := h.inside n g hn hg
  rw [hslot.device, hslot.done]
  constructor
  · rintro ⟨hdev, hdone⟩
    have hnone : cfg.reply G A n = none := by simpa using hdone
    obtain ⟨d', hd'⟩ := AddrMap.source_of_reply_none hg hnone
    rw [hd'] at hdev
    exact ⟨hdev ▸ hd', hnone⟩
  · rintro ⟨hd, hnone⟩
    rw [hd, hnone]
    exact ⟨rfl, rfl⟩

theorem waiting_add (h : BusInv cfg s G A nd) (d : Fin D) :
    s.waiting d + (A d).length = cfg.rank G d G.length := by
  have hopen := countP_open (fun g : Granted H => cfg.decode g.addr) decodeError (d := d) (j := G.length - nd)
    (P := fun j => (s.outstanding (s.outstandingFront + BitVec.ofNat k j)).device = d &&
      !(s.outstanding (s.outstandingFront + BitVec.ofNat k j)).done) h.served (fun j r hr => ?_)
    (by have := h.le; omega)
  · rw [Nat.add_sub_cancel' h.le, Nat.min_eq_right (h.counts d)] at hopen
    rw [BusState.waiting, Ring.contents, List.countP_map, h.occ]
    exact hopen
  · rw [h.front_add, Bool.and_eq_true, decide_eq_true_iff, Bool.not_eq_true']
    exact h.waits_iff (Nat.le_add_right ..) hr

/-- An answer finds the oldest slot that waits for its device, and is written there. -/
theorem captures (h : BusInv cfg s G A nd) (hdev : Disciplined cfg G A i) (hv : i.deviceRvalid d = true) :
    ∃ idx, s.InWindow idx ∧ (s.outstanding idx).device = d ∧ (s.outstanding idx).done = false ∧
      s.captureEn i idx = true ∧ (s.step cfg i).outstanding idx =
        { s.outstanding idx with rdata := i.deviceRdata d, err := i.deviceErr d, done := true } := by
  obtain ⟨n, g, hlt, hg, hd, hrank⟩ := exists_rank (Nat.le_refl G.length) (hdev d hv)
  have hnone : cfg.reply G A n = none := (reply_eq_none_iff hg hd).2 hrank.ge
  have hn : nd ≤ n := by
    by_contra hserved
    have hsome := h.served n (Nat.lt_of_not_le hserved)
    rw [hnone] at hsome
    cases hsome
  obtain ⟨hdevice, hdone⟩ := (h.waits_iff hn hg).2 ⟨hd, hnone⟩
  have hcap : s.captureEn i (BitVec.ofNat k n) = true := (h.captureEn_iff hn hg).2 ⟨d, hd, hv, hrank⟩
  have hpop : s.popping = true → BitVec.ofNat k n ≠ s.outstandingFront := by
    intro hq heq
    rw [h.front] at heq
    obtain rfl : n = nd := h.slot_inj hn hlt.le (Nat.le_refl _) h.le heq
    have hsome := h.popping_iff.1 hq
    rw [hnone] at hsome
    cases hsome
  refine ⟨BitVec.ofNat k n, h.inWindow_iff.2 ⟨n, hn, hlt, rfl⟩, hdevice, hdone, hcap, ?_⟩
  rw [BusState.step_slot_of_not_popped hpop fun _ _ => (h.back_outside hn hlt).symm, if_pos hcap, hdevice]

/-- The response that is due next stands on the ports of its host. -/
theorem drives (h : BusInv cfg s G A nd) (i : BusIn H D) {r : HostResp H} (hr : cfg.response G A nd = some r) :
    s.hostRvalid r.host = true ∧ s.hostRdata r.host = r.rdata ∧ s.hostErr r.host = r.err := by
  have hdel : s.delivered i = [r] := by
    rw [h.delivered_eq_response, hr]
    rfl
  rw [BusState.delivered_eq] at hdel
  split at hdel
  next hpop =>
    obtain rfl := List.cons.inj hdel |>.1
    have hvalid : s.hostRvalid s.response.host = true := by
      rw [BusState.hostRvalid, hpop, decide_eq_true rfl]
      rfl
    refine ⟨hvalid, ?_, ?_⟩
    · rw [BusState.hostRdata, if_pos hvalid]
    · rw [BusState.hostErr, hvalid, Bool.true_and]
  next => cases hdel

end BusInv

open BusRun in
/-- The ring in every cycle of every run whose devices keep their discipline: slots outside the window are
clear, an error inside is done, the slots waiting for a device are its open requests, an answer is captured
at once, the window leaves one slot free, and the response that is due next is driven. -/
theorem bus_window [NeZero H] [NeZero D] (cfg : AddrMap D) (inp : Nat → BusIn H D)
    (hdev : DevicesAnswer k cfg inp) (t : Nat) :
    let s := Clocked.run (BusState.step cfg) (.reset : BusState H D k) inp t
    (∀ idx, ¬ s.InWindow idx → (s.outstanding idx).done = false ∧ (s.outstanding idx).err = false) ∧
    (∀ idx, s.InWindow idx → (s.outstanding idx).err = true → (s.outstanding idx).done = true) ∧
    (∀ d, s.waiting d + (answers k cfg inp t d).length = (accepts k cfg inp d t).length) ∧
    (∀ d, (inp t).deviceRvalid d = true → ∃ idx, s.InWindow idx ∧ (s.outstanding idx).device = d ∧
      (s.outstanding idx).done = false ∧ s.captureEn (inp t) idx = true ∧
      (s.step cfg (inp t)).outstanding idx =
        { s.outstanding idx with rdata := (inp t).deviceRdata d, err := (inp t).deviceErr d, done := true }) ∧
    (s.outstandingBack - s.outstandingFront).toNat + (responses k cfg inp t).length = (grants k cfg inp t).length ∧
    (s.outstandingBack - s.outstandingFront).toNat ≤ 2 ^ k - 1 ∧
    ∀ r, cfg.response (grants k cfg inp t) (answers k cfg inp t) (responses k cfg inp t).length = some r →
      s.hostRvalid r.host = true ∧ s.hostRdata r.host = r.rdata ∧ s.hostErr r.host = r.err := by
  intro s
  have h : BusInv cfg s (grants k cfg inp t) (answers k cfg inp t) (responses k cfg inp t).length := inv hdev t
  have hdisc : BusInv.Disciplined cfg (grants k cfg inp t) (answers k cfg inp t) (inp t) :=
    fun d hv => by rw [← length_accepts d t]; exact hdev t d hv
  refine ⟨fun idx => h.clear_outside, fun idx => h.done_of_err, fun d => ?_, fun d hv => h.captures hdisc hv, ?_, ?_,
    fun r hr => h.drives (inp t) hr⟩
  · rw [h.waiting_add, length_accepts]
  · rw [h.occ, Nat.sub_add_cancel h.le]
  · exact Nat.le_sub_one_of_lt (s.outstandingBack - s.outstandingFront).isLt

open BusRun in
/-- The first device answers the oldest request when that of the second has been captured and the ring is full. -/
theorem bus_window_crossedReads :
    let s := Clocked.run (BusState.step threeDevices) (.reset : BusState 3 3 2) crossedReads 4
    s.outstandingFull = true ∧ (∀ d, s.waiting d = if d.val = 0 then 1 else 0) ∧
    (∀ d, s.waiting d + (answers 2 threeDevices crossedReads 4 d).length =
      (accepts 2 threeDevices crossedReads d 4).length) ∧
    ∃ idx, s.InWindow idx ∧ (s.outstanding idx).device.val = 0 ∧ (s.outstanding idx).done = false := by
  obtain ⟨-, -, hwaiting, hcaptures, -⟩ := bus_window threeDevices crossedReads crossedReads_answer 4
  obtain ⟨idx, hin, hdevice, hdone, -⟩ := hcaptures 0 (by decide)
  exact ⟨by decide +kernel, by decide +kernel, hwaiting, idx, hin, congrArg Fin.val hdevice, hdone⟩

end PenPlotter
