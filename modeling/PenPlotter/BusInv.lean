import PenPlotter.BusTrace
import Mathlib.Tactic.Set
import Mathlib.Tactic.Push

/-!
# The ring of outstanding transactions

`BusInv cfg s G A nd`: with the requests `G` granted, the answers `A` given and `nd` responses
delivered so far, slot `n mod BufferMax` holds request `n` of `G` for every `n` in `[nd, |G|)`, done
exactly when `InOrder.reply` says that request is answered, and every other slot has `done` and
`err` clear. Pointers are positions in `G` modulo `2 ^ k`, so wrapping never shows.
-/

namespace PenPlotter

open InOrder

variable {H D k : Nat}

/-- The response of the bus to a request that matches no device. -/
def decodeError : Answer := ⟨0, true⟩

/-- The answer that request `n` of `G` is due, as far as it is known. -/
abbrev AddrMap.reply (cfg : AddrMap D) (G : List (Granted H)) (A : Fin D → List Answer) (n : Nat) :
    Option Answer :=
  InOrder.reply (fun g => cfg.decode g.addr) decodeError G A n

/-- How many of the first `n` requests of `G` are decoded to `d`. -/
abbrev AddrMap.rank (cfg : AddrMap D) (G : List (Granted H)) (d : Fin D) (n : Nat) : Nat :=
  InOrder.rank (fun g => cfg.decode g.addr) G d n

/-- A slot holding request `g` whose answer, so far, is `rep`. -/
structure SlotOk [NeZero D] (cfg : AddrMap D) (p : Pair H D) (g : Granted H) (rep : Option Answer) :
    Prop where
  host : p.host = g.host
  device : p.device = (cfg.decode g.addr).getD 0
  done : p.done = rep.isSome
  err : p.err = rep.elim false Answer.err
  rdata : ∀ a, rep = some a → a.err = false → p.rdata = a.rdata

structure BusInv [NeZero D] (cfg : AddrMap D) (s : BusState H D k) (G : List (Granted H))
    (A : Fin D → List Answer) (nd : Nat) : Prop where
  front : s.outstandingFront = BitVec.ofNat k nd
  back : s.outstandingBack = BitVec.ofNat k G.length
  le : nd ≤ G.length
  lt : G.length < nd + 2 ^ k
  inside : ∀ n g, nd ≤ n → G[n]? = some g →
    SlotOk cfg (s.outstanding (BitVec.ofNat k n)) g (cfg.reply G A n)
  outside : ∀ idx, (∀ n, nd ≤ n → n < G.length → idx ≠ BitVec.ofNat k n) →
    (s.outstanding idx).done = false ∧ (s.outstanding idx).err = false
  served : ∀ n < nd, (cfg.reply G A n).isSome
  counts : ∀ d, (A d).length ≤ cfg.rank G d G.length

theorem ofNat_inj_of_window {a n m : Nat} (hn : a ≤ n) (hn' : n < a + 2 ^ k) (hm : a ≤ m)
    (hm' : m < a + 2 ^ k) (h : BitVec.ofNat k n = BitVec.ofNat k m) : n = m := by
  have h' : n % 2 ^ k = m % 2 ^ k := by simpa using congrArg BitVec.toNat h
  by_contra hne
  rcases Nat.lt_or_gt_of_ne hne with hlt | hlt
  · have hd := (Nat.modEq_iff_dvd' hlt.le).1 h'
    have := Nat.le_of_dvd (by omega) hd
    omega
  · have hd := (Nat.modEq_iff_dvd' hlt.le).1 h'.symm
    have := Nat.le_of_dvd (by omega) hd
    omega

theorem AddrMap.source_of_reply_none {cfg : AddrMap D} {G : List (Granted H)} {A : Fin D → List Answer}
    {n : Nat} {g : Granted H} (hg : G[n]? = some g) (hnone : cfg.reply G A n = none) :
    ∃ d, cfg.decode g.addr = some d := by
  cases hd : cfg.decode g.addr with
  | some d => exact ⟨d, rfl⟩
  | none =>
    have : cfg.reply G A n = some decodeError := reply_miss hg hd
    rw [this] at hnone
    cases hnone

namespace BusInv

variable [NeZero D] {cfg : AddrMap D} {s : BusState H D k} {i : BusIn H D} {G : List (Granted H)}
  {A : Fin D → List Answer} {nd n : Nat} {g : Granted H}

theorem reset [NeZero H] : BusInv cfg (BusState.reset : BusState H D k) [] (fun _ => []) 0 where
  front := rfl
  back := rfl
  le := le_rfl
  lt := by
    rw [Nat.zero_add]
    exact Nat.two_pow_pos k
  inside _ _ _ h := by simp at h
  outside _ _ := ⟨rfl, rfl⟩
  served _ h := absurd h (by omega)
  counts _ := Nat.zero_le _

theorem lt_length (hg : G[n]? = some g) : n < G.length := (List.getElem?_eq_some_iff.1 hg).1

theorem slot_inj (h : BusInv cfg s G A nd) {m : Nat} (hn : nd ≤ n) (hn' : n ≤ G.length) (hm : nd ≤ m)
    (hm' : m ≤ G.length) (heq : BitVec.ofNat k n = BitVec.ofNat k m) : n = m := by
  have := h.lt
  exact ofNat_inj_of_window hn (by omega) hm (by omega) heq

theorem front_add (h : BusInv cfg s G A nd) (j : Nat) :
    s.outstandingFront + BitVec.ofNat k j = BitVec.ofNat k (nd + j) := by
  rw [h.front, ← BitVec.ofNat_add]

theorem occ (h : BusInv cfg s G A nd) :
    (s.outstandingBack - s.outstandingFront).toNat = G.length - nd := by
  obtain ⟨j, hj⟩ := Nat.exists_eq_add_of_le h.le
  have hlt := h.lt
  rw [h.front, h.back, hj, BitVec.ofNat_add, BitVec.add_comm, BitVec.add_sub_cancel]
  simp only [BitVec.toNat_ofNat]
  rw [Nat.mod_eq_of_lt (by omega)]
  omega

theorem not_full (h : BusInv cfg s G A nd) (hf : s.outstandingFull = false) :
    G.length + 1 < nd + 2 ^ k := by
  have hlt := h.lt
  by_contra hge
  have heq : G.length + 1 = nd + 2 ^ k := by omega
  have : s.outstandingBack + 1 = s.outstandingFront := by
    rw [h.back, h.front, show (1 : BitVec k) = BitVec.ofNat k 1 from rfl, ← BitVec.ofNat_add, heq]
    exact BitVec.eq_of_toNat_eq (by simp)
  rw [BusState.outstandingFull, beq_eq_false_iff_ne] at hf
  exact hf this

theorem eligible_iff (h : BusInv cfg s G A nd) (hn : nd ≤ n) (hg : G[n]? = some g) :
    s.Eligible i (n - nd) ↔
      cfg.reply G A n = none ∧ ∃ d, cfg.decode g.addr = some d ∧ i.deviceRvalid d = true := by
  have hslot := h.inside n g hn hg
  have hlt := lt_length hg
  unfold BusState.Eligible
  dsimp only
  rw [h.front_add, Nat.add_sub_cancel' hn, h.occ, hslot.done, hslot.err, hslot.device]
  constructor
  · rintro ⟨-, hv, hdone, -⟩
    have hnone : cfg.reply G A n = none := by simpa using hdone
    obtain ⟨d, hd⟩ := AddrMap.source_of_reply_none hg hnone
    exact ⟨hnone, d, hd, by simpa [hd] using hv⟩
  · rintro ⟨hnone, d, hd, hv⟩
    exact ⟨by omega, by simpa [hd] using hv, by simp [hnone], by simp [hnone]⟩

theorem windowDevice_eq (h : BusInv cfg s G A nd) (hn : nd ≤ n) (hg : G[n]? = some g) {d : Fin D}
    (hd : cfg.decode g.addr = some d) : s.windowDevice (n - nd) = d := by
  unfold BusState.windowDevice
  rw [h.front_add, Nat.add_sub_cancel' hn, (h.inside n g hn hg).device, hd]
  rfl

/-- The slots captured in a cycle: a device that answers now answers its oldest open request. -/
theorem captureEn_iff (h : BusInv cfg s G A nd) (hn : nd ≤ n) (hg : G[n]? = some g) :
    s.captureEn i (BitVec.ofNat k n) = true ↔
      ∃ d, cfg.decode g.addr = some d ∧ i.deviceRvalid d = true ∧
        cfg.rank G d n = (A d).length := by
  have hlt := lt_length hg
  rw [BusState.captureEn_iff]
  constructor
  · rintro ⟨j, hidx, helig, hfirst⟩
    have hj : j < G.length - nd := h.occ ▸ helig.1
    rw [h.front_add] at hidx
    obtain rfl : n = nd + j := h.slot_inj hn (by omega) (by omega) (by omega) hidx
    rw [show j = nd + j - nd by omega] at helig
    obtain ⟨hnone, d, hd, hv⟩ := (h.eligible_iff hn hg).1 helig
    refine ⟨d, hd, hv, (first_unanswered_iff decodeError hg hd h.served).1 ⟨hnone, fun m r' hm hmn hr' hd' => ?_⟩⟩
    by_contra hopen
    have helig' : s.Eligible i (m - nd) :=
      (h.eligible_iff hm hr').2 ⟨by simpa [AddrMap.reply] using hopen, d, hd', hv⟩
    refine hfirst (m - nd) (by omega) helig' ?_
    rw [h.windowDevice_eq hm hr' hd', ← h.windowDevice_eq hn hg hd]
    congr 1
    omega
  · rintro ⟨d, hd, hv, hrank⟩
    obtain ⟨hnone, hfirst⟩ := (first_unanswered_iff decodeError hg hd h.served).2 hrank
    refine ⟨n - nd, by rw [h.front_add, Nat.add_sub_cancel' hn],
      (h.eligible_iff hn hg).2 ⟨hnone, d, hd, hv⟩, fun j hj helig => ?_⟩
    have hr' : G[nd + j]? = some G[nd + j] := List.getElem?_eq_getElem (by omega)
    rw [show j = nd + j - nd by omega] at helig ⊢
    obtain ⟨hnone', d', hd', -⟩ := (h.eligible_iff (by omega) hr').1 helig
    rw [h.windowDevice_eq (by omega) hr' hd', h.windowDevice_eq hn hg hd]
    rintro rfl
    have := hfirst (nd + j) _ (by omega) (by omega) hr' hd'
    rw [show reply _ _ G A (nd + j) = cfg.reply G A (nd + j) from rfl, hnone'] at this
    simp at this

theorem captureEn_outside (h : BusInv cfg s G A nd) {idx : BitVec k}
    (hidx : ∀ n, nd ≤ n → n < G.length → idx ≠ BitVec.ofNat k n) : s.captureEn i idx = false := by
  rw [← Bool.not_eq_true, BusState.captureEn_iff]
  rintro ⟨j, hj, helig, -⟩
  have : j < G.length - nd := h.occ ▸ helig.1
  exact hidx (nd + j) (by omega) (by omega) (by rw [hj, h.front_add])

theorem popping_iff (h : BusInv cfg s G A nd) :
    s.popping = true ↔ (cfg.reply G A nd).isSome := by
  unfold BusState.popping BusState.response
  rw [Bool.and_eq_true, bne_iff_ne, h.front, h.back]
  constructor
  · rintro ⟨hne, hdone⟩
    have hnd : nd < G.length := by
      have := h.le
      rcases Nat.lt_or_eq_of_le this with hlt | heq
      · exact hlt
      · exact absurd (congrArg _ heq) hne
    rwa [(h.inside nd _ le_rfl (List.getElem?_eq_getElem hnd)).done] at hdone
  · intro hsome
    have hnd : nd < G.length := reply_isSome_lt hsome
    refine ⟨fun heq => ?_, ?_⟩
    · have := h.slot_inj le_rfl hnd.le h.le le_rfl heq
      omega
    · rwa [(h.inside nd _ le_rfl (List.getElem?_eq_getElem hnd)).done]

end BusInv

end PenPlotter
