import PenPlotter.BusInv

/-!
# One cycle of the bus keeps `BusInv`

The push, the captures and the pop of a cycle act on different slots: the push on a slot outside the
window, a capture on an open slot, the pop on a done one. `BusInv.step` puts them together under
`BusInv.Disciplined`: devices answer only requests granted to them in earlier cycles.
-/

namespace PenPlotter

open InOrder

variable {H D k : Nat}

namespace BusState

variable {cfg : AddrMap D} {s : BusState H D k} {i : BusIn H D}

theorem answered_eq (d : Fin D) : answered d s i =
    (if i.deviceRvalid d then some ⟨i.deviceRdata d, i.deviceErr d⟩ else none : Option Answer).toList := by
  rw [answered]
  split <;> rfl

theorem delivered_length : (s.delivered i).length = if s.popping then 1 else 0 := by
  rw [delivered_eq]
  split <;> rfl

variable [NeZero D]

theorem step_slot_of_not_popped {idx : BitVec k} (hpop : s.popping = true → idx ≠ s.outstandingFront)
    (hpush : ∀ p, s.pushed cfg i = some p → idx ≠ s.outstandingBack) :
    (s.step cfg i).outstanding idx =
      if s.captureEn i idx then
        { s.outstanding idx with
          rdata := i.deviceRdata (s.outstanding idx).device
          err := i.deviceErr (s.outstanding idx).device
          done := true }
      else s.outstanding idx := by
  unfold step
  cases hp : s.pushed cfg i with
  | none =>
    by_cases hq : s.popping = true
    · simp only [hq, if_true, Function.update_of_ne (hpop hq)]
    · simp only [hq, Bool.false_eq_true, if_false]
  | some p =>
    by_cases hq : s.popping = true
    · simp only [hq, if_true, Function.update_of_ne (hpop hq), Function.update_of_ne (hpush p hp)]
    · simp only [hq, Bool.false_eq_true, if_false, Function.update_of_ne (hpush p hp)]

theorem step_slot_pushed {p : Pair H D} (hp : s.pushed cfg i = some p)
    (hpop : s.popping = true → s.outstandingBack ≠ s.outstandingFront)
    (hcap : s.captureEn i s.outstandingBack = false) :
    (s.step cfg i).outstanding s.outstandingBack = p := by
  unfold step
  by_cases hq : s.popping = true
  · simp only [hp, hq, if_true, Function.update_of_ne (hpop hq), hcap, Bool.false_eq_true, if_false,
      Function.update_self]
  · simp only [hp, hq, hcap, Bool.false_eq_true, if_false, Function.update_self]

theorem step_slot_popped (hq : s.popping = true) :
    ((s.step cfg i).outstanding s.outstandingFront).done = false ∧
      ((s.step cfg i).outstanding s.outstandingFront).err = false := by
  unfold step
  simp [hq]

end BusState

namespace BusInv

variable [NeZero D] {cfg : AddrMap D} {s : BusState H D k} {i : BusIn H D} {G : List (Granted H)}
  {A : Fin D → List Answer} {nd n : Nat} {g : Granted H}

/-- The discipline of the devices in one cycle: an answer is to a request granted earlier. -/
def Disciplined (cfg : AddrMap D) (G : List (Granted H)) (A : Fin D → List Answer) (i : BusIn H D) :
    Prop :=
  ∀ d, i.deviceRvalid d = true → (A d).length < cfg.rank G d G.length

theorem back_outside (h : BusInv cfg s G A nd) (hn : nd ≤ n) (hn' : n < G.length) :
    s.outstandingBack ≠ BitVec.ofNat k n := by
  rw [h.back]
  intro heq
  have := h.slot_inj h.le le_rfl hn hn'.le heq
  omega

omit [NeZero D] in
theorem not_full_of_grant (hg : s.grant cfg i = some g) : s.outstandingFull = false := by
  cases hf : s.outstandingFull with
  | false => rfl
  | true => simp [BusState.grant, BusState.request, hf] at hg

theorem pushed_isSome : (s.pushed cfg i).isSome = (s.grant cfg i).isSome := by
  rw [BusState.pushed_eq, Option.isSome_map]

/-- A slot of the window that stays in it: it is captured exactly when its request gets its answer. -/
theorem step_inside_old (h : BusInv cfg s G A nd) (hn : nd ≤ n) (hpop : s.popping = true → n ≠ nd)
    (hg : G[n]? = some g) :
    SlotOk cfg ((s.step cfg i).outstanding (BitVec.ofNat k n)) g
      (cfg.reply (G ++ s.granted cfg i) (fun d => A d ++ BusState.answered d s i) n) := by
  have hlt := lt_length hg
  have hslot := h.inside n g hn hg
  have hpush : ∀ p, s.pushed cfg i = some p → BitVec.ofNat k n ≠ s.outstandingBack :=
    fun _ _ => (h.back_outside hn hlt).symm
  rw [BusState.step_slot_of_not_popped (fun hq heq => hpop hq
    (h.slot_inj hn hlt.le le_rfl h.le (by rw [heq, h.front]))) hpush]
  rw [AddrMap.reply, reply_append _ hlt]
  cases hrep : cfg.reply G A n with
  | some a =>
    have hcap : s.captureEn i (BitVec.ofNat k n) = false := by
      rw [← Bool.not_eq_true, h.captureEn_iff hn hg]
      rintro ⟨d, hd, -, hrank⟩
      have := (first_unanswered_iff decodeError hg hd h.served).2 hrank
      rw [show reply _ _ G A n = cfg.reply G A n from rfl, hrep] at this
      exact absurd this.1 (by simp)
    rw [reply_mono (fun d => List.prefix_append _ _) hrep, hcap]
    simpa [hrep] using hslot
  | none =>
    obtain ⟨d, hd⟩ := AddrMap.source_of_reply_none hg hrep
    have hnext := reply_answer (fun d => A d ++ BusState.answered d s i)
      (congrArg _ (BusState.answered_eq (s := s) d)) hg hd hrep
    rw [hnext]
    by_cases hcap : s.captureEn i (BitVec.ofNat k n) = true
    · obtain ⟨d', hd', hv, hrank⟩ := (h.captureEn_iff hn hg).1 hcap
      obtain rfl : d = d' := by rw [hd] at hd'; exact Option.some.inj hd'
      have hdev : (s.outstanding (BitVec.ofNat k n)).device = d := by rw [hslot.device, hd]; rfl
      rw [if_pos hcap, if_pos hrank, if_pos hv, hdev]
      exact ⟨hslot.host, by rw [← hslot.device], rfl, rfl, fun a ha _ => by cases ha; rfl⟩
    · rw [if_neg hcap]
      rw [h.captureEn_iff hn hg] at hcap
      have hno : (if InOrder.rank (fun g : Granted H => cfg.decode g.addr) G d n = (A d).length then
          if i.deviceRvalid d then some (⟨i.deviceRdata d, i.deviceErr d⟩ : Answer) else none
          else none) = none := by
        split
        · next hrank =>
          split
          · next hv => exact absurd ⟨d, hd, hv, hrank⟩ hcap
          · rfl
        · rfl
      rw [hno]
      simpa [hrep] using hslot

theorem answered_length_le (h : BusInv cfg s G A nd) (hdev : Disciplined cfg G A i) (d : Fin D) :
    (A d ++ BusState.answered d s i).length ≤ cfg.rank G d G.length := by
  by_cases hv : i.deviceRvalid d = true
  · have := hdev d hv
    simp [BusState.answered, hv]
    omega
  · simpa [BusState.answered, hv] using h.counts d

theorem step_inside_new (h : BusInv cfg s G A nd) (hdev : Disciplined cfg G A i)
    (hgr : s.grant cfg i = some g) :
    SlotOk cfg ((s.step cfg i).outstanding (BitVec.ofNat k G.length)) g
      (cfg.reply (G ++ [g]) (fun d => A d ++ BusState.answered d s i) G.length) := by
  have hfull := not_full_of_grant hgr
  have hout := h.outside s.outstandingBack fun n hn hn' => h.back_outside hn hn'
  have hcap : s.captureEn i s.outstandingBack = false :=
    h.captureEn_outside fun n hn hn' => h.back_outside hn hn'
  have hpop : s.popping = true → s.outstandingBack ≠ s.outstandingFront := by
    intro hq
    simp only [BusState.popping, Bool.and_eq_true, bne_iff_ne] at hq
    exact hq.1.symm
  rw [← h.back, BusState.step_slot_pushed (by rw [BusState.pushed_eq, hgr, Option.map_some]) hpop hcap]
  cases hd : cfg.decode g.addr with
  | none =>
    rw [AddrMap.reply, reply_miss (r := g) (by simp) hd]
    exact ⟨rfl, by simp [hd], by simp, by simp [decodeError],
      fun a ha he => by cases ha; cases he⟩
  | some d =>
    have hnone : cfg.reply (G ++ [g]) (fun d => A d ++ BusState.answered d s i) G.length = none :=
      reply_issued hd (h.answered_length_le hdev d)
    rw [hnone]
    exact ⟨rfl, by simp [hd], by simpa using hout.1, by simp, fun a ha => by cases ha⟩

omit [NeZero D] in
theorem length_granted : (G ++ s.granted cfg i).length = G.length + (s.grant cfg i).toList.length := by
  rw [List.length_append, BusState.granted_eq]

/-- The window's front moves over the one slot that a cycle pops, or stays. -/
theorem front_moves (h : BusInv cfg s G A nd) :
    (s.popping = true ∧ nd < G.length ∧ nd + (s.delivered i).length = nd + 1) ∨
      (s.popping = false ∧ nd + (s.delivered i).length = nd) := by
  rw [BusState.delivered_length]
  cases hq : s.popping with
  | true => exact .inl ⟨rfl, reply_isSome_lt (h.popping_iff.1 hq), rfl⟩
  | false => exact .inr ⟨rfl, rfl⟩

/-- The slots of the window after a cycle: those that stay in it, and the one that a grant writes. -/
theorem step_inside (h : BusInv cfg s G A nd) (hdev : Disciplined cfg G A i)
    (hn : nd + (s.delivered i).length ≤ n) (hg : (G ++ s.granted cfg i)[n]? = some g) :
    SlotOk cfg ((s.step cfg i).outstanding (BitVec.ofNat k n)) g
      (cfg.reply (G ++ s.granted cfg i) (fun d => A d ++ BusState.answered d s i) n) := by
  by_cases hold : n < G.length
  · rw [List.getElem?_append_left hold] at hg
    refine h.step_inside_old (by omega) (fun hq => ?_) hg
    obtain ⟨-, -, hnd⟩ | ⟨hq', -⟩ := h.front_moves (i := i)
    · omega
    · rw [hq] at hq'
      cases hq'
  · cases hgr : s.grant cfg i with
    | none =>
      rw [BusState.granted_eq, hgr] at hg
      simp at hg
      exact absurd (lt_length hg) hold
    | some g' =>
      rw [BusState.granted_eq, hgr] at hg ⊢
      have hn' := lt_length hg
      simp only [Option.toList_some, List.length_append, List.length_singleton] at hn'
      obtain rfl : n = G.length := by omega
      obtain rfl : g' = g := by simpa using hg
      exact h.step_inside_new hdev hgr

/-- A slot outside the new window was outside the old one, or is the one just popped. -/
theorem step_outside (h : BusInv cfg s G A nd) {idx : BitVec k}
    (hidx : ∀ n, nd + (s.delivered i).length ≤ n → n < (G ++ s.granted cfg i).length →
      idx ≠ BitVec.ofNat k n) :
    ((s.step cfg i).outstanding idx).done = false ∧ ((s.step cfg i).outstanding idx).err = false := by
  have hle := h.le
  by_cases hfront : s.popping = true ∧ idx = s.outstandingFront
  · rw [hfront.2]
    exact BusState.step_slot_popped hfront.1
  · have hold : ∀ n, nd ≤ n → n < G.length → idx ≠ BitVec.ofNat k n := by
      intro n hn hn'
      by_cases hp : s.popping = true ∧ n = nd
      · rw [hp.2, ← h.front]
        exact fun heq => hfront ⟨hp.1, heq⟩
      · refine hidx n ?_ (by rw [length_granted]; omega)
        obtain ⟨hq, -, hnd⟩ | ⟨-, hnd⟩ := h.front_moves (i := i)
        · have : n ≠ nd := fun he => hp ⟨hq, he⟩
          omega
        · omega
    have hback : ∀ p, s.pushed cfg i = some p → idx ≠ s.outstandingBack := by
      intro p hp
      have hsome : (s.grant cfg i).isSome := by rw [← pushed_isSome, hp]; rfl
      obtain ⟨g, hg⟩ := Option.isSome_iff_exists.1 hsome
      rw [h.back]
      refine hidx G.length ?_ (by rw [length_granted, hg]; simp)
      obtain ⟨-, hlt, hnd⟩ | ⟨-, hnd⟩ := h.front_moves (i := i)
      · omega
      · omega
    rw [BusState.step_slot_of_not_popped (fun hq heq => hfront ⟨hq, heq⟩) hback,
      h.captureEn_outside hold]
    exact h.outside idx hold

theorem step_served (h : BusInv cfg s G A nd) (hn : n < nd + (s.delivered i).length) :
    (cfg.reply (G ++ s.granted cfg i) (fun d => A d ++ BusState.answered d s i) n).isSome := by
  have hsome : (cfg.reply G A n).isSome := by
    by_cases hlt : n < nd
    · exact h.served n hlt
    · obtain ⟨hq, -, hnd⟩ | ⟨-, hnd⟩ := h.front_moves (i := i)
      · obtain rfl : n = nd := by omega
        exact h.popping_iff.1 hq
      · omega
  obtain ⟨a, ha⟩ := Option.isSome_iff_exists.1 hsome
  rw [AddrMap.reply, reply_append _ (reply_isSome_lt hsome),
    reply_mono (fun d => List.prefix_append _ _) ha]
  rfl

theorem step (h : BusInv cfg s G A nd) (hdev : Disciplined cfg G A i) :
    BusInv cfg (s.step cfg i) (G ++ s.granted cfg i) (fun d => A d ++ BusState.answered d s i)
      (nd + (s.delivered i).length) := by
  have hle := h.le
  have hlt := h.lt
  constructor
  case front =>
    show (if s.popping then s.outstandingFront + 1 else s.outstandingFront) = _
    obtain ⟨hq, -, hnd⟩ | ⟨hq, hnd⟩ := h.front_moves (i := i)
    · rw [hq, hnd, h.front]
      exact (BitVec.ofNat_add ..).symm
    · rw [hq, hnd, h.front]
      rfl
  case back =>
    show (if (s.pushed cfg i).isSome then s.outstandingBack + 1 else s.outstandingBack) = _
    rw [pushed_isSome, length_granted, h.back]
    cases s.grant cfg i with
    | none => rfl
    | some g => exact (BitVec.ofNat_add ..).symm
  case le =>
    rw [List.length_append]
    obtain ⟨-, hfront, hnd⟩ | ⟨-, hnd⟩ := h.front_moves (i := i)
    · omega
    · omega
  case lt =>
    rw [length_granted]
    cases hg : s.grant cfg i with
    | none =>
      have : nd ≤ nd + (s.delivered i).length := Nat.le_add_right ..
      simp
      omega
    | some g =>
      have := h.not_full (not_full_of_grant hg)
      simp
      omega
  case inside => exact fun n g hn hg => h.step_inside hdev hn hg
  case outside => exact fun idx hidx => h.step_outside hidx
  case served => exact fun n hn => h.step_served hn
  case counts =>
    intro d
    calc (A d ++ BusState.answered d s i).length
        ≤ cfg.rank G d G.length := h.answered_length_le hdev d
      _ = cfg.rank (G ++ s.granted cfg i) d G.length := (rank_append _ le_rfl).symm
      _ ≤ _ := rank_mono (by simp)

/-- The response of a cycle is the reply to the next request in grant order. -/
theorem delivered_eq (h : BusInv cfg s G A nd) : s.delivered i =
    match G[nd]?, cfg.reply G A nd with
    | some g, some a => [⟨g.host, if a.err then 0 else a.rdata, a.err⟩]
    | _, _ => [] := by
  rw [BusState.delivered_eq]
  cases hrep : cfg.reply G A nd with
  | none =>
    have : s.popping = false := by rw [← Bool.not_eq_true, h.popping_iff, hrep]; simp
    simp [this]
  | some a =>
    have hq : s.popping = true := by rw [h.popping_iff, hrep]; rfl
    have hlt : nd < G.length := reply_isSome_lt (h.popping_iff.1 hq)
    have hg : G[nd]? = some G[nd] := List.getElem?_eq_getElem hlt
    have hslot := h.inside nd _ le_rfl hg
    rw [hrep, ← h.front] at hslot
    have herr : s.response.err = a.err := hslot.err
    have hhost : s.response.host = G[nd].host := hslot.host
    rw [if_pos hq, hg, herr, hhost]
    by_cases he : a.err = true
    · simp [he]
    · have hdata : s.response.rdata = a.rdata := hslot.rdata a rfl (by simpa using he)
      simp [he, hdata]

end BusInv

end PenPlotter
