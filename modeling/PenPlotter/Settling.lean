import Mathlib.Data.Int.Basic

/-!
# Sequences that settle

An integer sequence that changes by one at a time, and rarely, under a feedback that works with a delay. Where it
has been positive for the delay it no longer rises, and before long it falls; while it is out of the reach of the
feedback nothing is said. Then it stays a few steps above where it started (`Pulled.le_add`) and in the end a few
steps above zero (`Pulled.eventually_le`). Everything here is about arbitrary sequences.
-/

namespace Settling

/-- Single steps, at most one in `P`. -/
structure Paced (e : Nat → Int) (P : Nat) : Prop where
  unit : ∀ t, e (t + 1) = e t ∨ e (t + 1) = e t + 1 ∨ e (t + 1) = e t - 1
  pace : ∀ s t, s < t → e (s + 1) ≠ e s → e (t + 1) ≠ e t → s + P ≤ t

/-- The sequence stays where the feedback reaches it from above. -/
def Above (e : Nat → Int) (R : Int) (s t : Nat) : Prop := ∀ x, s ≤ x → x ≤ t → 0 < e x ∧ e x ≤ R

/-- Feedback with a delay of `W` that takes a step in `L`. -/
structure Pulled (e : Nat → Int) (R : Int) (W L : Nat) : Prop where
  settles : ∀ s t, s + W ≤ t → Above e R s t → e (t + 1) ≤ e t
  progresses : ∀ s, Above e R s (s + W + L) → ∃ t, s + W ≤ t ∧ t < s + W + L ∧ e (t + 1) < e t

variable {e : Nat → Int} {P W L : Nat} {R E B : Int}

namespace Paced

/-- One step within the pace. -/
theorem le_one (h : Paced e P) (s : Nat) {n : Nat} (hn : n ≤ P) : e (s + n) ≤ e s + 1 := by
  -- Either no step has been made yet, or the one of time `m` is the last.
  have hone : e (s + n) = e s ∨ ∃ m, s ≤ m ∧ m < s + n ∧ e (m + 1) ≠ e m ∧ e (s + n) = e (m + 1) ∧ e m = e s := by
    induction n with
    | zero => exact .inl rfl
    | succ n ih =>
      by_cases hmove : e (s + n + 1) = e (s + n)
      · rw [← Nat.add_assoc, hmove]
        rcases ih (by omega) with hsame | ⟨m, hle, hlt, hne, heq, hm⟩
        · exact .inl hsame
        · exact .inr ⟨m, hle, by omega, hne, heq, hm⟩
      · rcases ih (by omega) with hsame | ⟨m, hle, hlt, hne, -⟩
        · exact .inr ⟨s + n, by omega, by omega, hmove, rfl, hsame⟩
        · have := h.pace m (s + n) hlt hne hmove
          omega
  rcases hone with hsame | ⟨m, -, -, -, heq, hm⟩
  · omega
  · rcases h.unit m with hm' | hm' | hm' <;> omega

theorem le_add (h : Paced e P) (s b : Nat) {n : Nat} (hn : n ≤ b * P) : e (s + n) ≤ e s + b := by
  induction b generalizing n with
  | zero =>
    obtain rfl : n = 0 := by omega
    simp
  | succ b ih =>
    rw [Nat.succ_mul] at hn
    rcases Nat.le_total n (b * P) with hle | hge
    · have := ih hle
      push_cast
      omega
    · have hlast := h.le_one (s + b * P) (n := n - b * P) (by omega)
      have hfirst := ih (Nat.le_refl (b * P))
      rw [show s + b * P + (n - b * P) = s + n by omega] at hlast
      push_cast
      omega

end Paced

/-- A positive stretch begins at the start or with a first step above zero. -/
theorem exists_stretch {t : Nat} (hpos : 0 < e t) :
    ∃ s ≤ t, (∀ x, s ≤ x → x ≤ t → 0 < e x) ∧ (s = 0 ∨ ∃ r, s = r + 1 ∧ e r ≤ 0) := by
  induction t with
  | zero =>
    refine ⟨0, Nat.le_refl 0, fun x _ hx => ?_, .inl rfl⟩
    obtain rfl : x = 0 := by omega
    exact hpos
  | succ t ih =>
    by_cases hprev : 0 < e t
    · obtain ⟨s, hle, hall, hstart⟩ := ih hprev
      refine ⟨s, by omega, fun x hs hx => ?_, hstart⟩
      rcases Nat.lt_or_ge x (t + 1) with hlt | hge
      · exact hall x hs (by omega)
      · rwa [show x = t + 1 by omega]
    · refine ⟨t + 1, Nat.le_refl _, fun x hs hx => ?_, .inr ⟨t, rfl, by omega⟩⟩
      rwa [show x = t + 1 by omega]

namespace Pulled

/-- After the delay a positive stretch does not rise. -/
theorem antitone (h : Pulled e R W L) {s t : Nat} (hs : s + W ≤ t) {n : Nat} (habove : Above e R s (t + n)) :
    e (t + n) ≤ e t := by
  induction n with
  | zero => exact Int.le_refl _
  | succ n ih =>
    have hle := ih fun x hsx hx => habove x hsx (by omega)
    have hlast := h.settles s (t + n) (by omega) fun x hsx hx => habove x hsx (by omega)
    rw [← Nat.add_assoc]
    omega

/-- And it falls. -/
theorem falls (h : Pulled e R W L) {s : Nat} (habove : Above e R s (s + W + L)) : e (s + W + L) < e (s + W) := by
  obtain ⟨t, hlo, hhi, hstep⟩ := h.progresses s habove
  have hbefore := h.antitone (s := s) (Nat.le_refl (s + W)) (n := t - (s + W)) fun x hs hx => habove x hs (by omega)
  have hafter := h.antitone (s := s) (t := t + 1) (by omega) (n := s + W + L - (t + 1)) fun x hs hx =>
    habove x hs (by omega)
  rw [show s + W + (t - (s + W)) = t by omega] at hbefore
  rw [show t + 1 + (s + W + L - (t + 1)) = s + W + L by omega] at hafter
  omega

section

variable (h : Pulled e R W L) (hpace : Paced e P) {b : Nat} (hW : W + 1 ≤ b * P)
include h hpace hW

/-- What a positive stretch reaches: the delay leaves time for `b` steps, counted from the last time before it. -/
theorem stretch_le {r s t : Nat} (hrs : r ≤ s) (hsr : s ≤ r + 1) (hst : s ≤ t) (habove : Above e R s t) :
    e t ≤ e r + b := by
  rcases Nat.le_total t (s + W) with hle | hge
  · have := hpace.le_add r b (n := t - r) (by omega)
    rwa [show r + (t - r) = t by omega] at this
  · have hdelay := hpace.le_add r b (n := s + W - r) (by omega)
    have hfall := h.antitone (t := s + W) (n := t - (s + W)) (Nat.le_refl _)
      (by rwa [show s + W + (t - (s + W)) = t by omega])
    rw [show r + (s + W - r) = s + W by omega] at hdelay
    rw [show s + W + (t - (s + W)) = t by omega] at hfall
    omega

variable (h0 : e 0 ≤ E) (hE : 0 ≤ E) (hR : E + b < R)
include h0 hE hR

/-- It never rises further than the delay allows. -/
theorem le_add (t : Nat) : e t ≤ E + b := by
  induction t using Nat.strong_induction_on with
  | _ t ih =>
    have hrange : e t ≤ R := by
      cases t with
      | zero => omega
      | succ t =>
        have := ih t (Nat.lt_succ_self t)
        rcases hpace.unit t with hsame | hup | hdown <;> omega
    by_cases hpos : 0 < e t
    · obtain ⟨s, hst, hall, hstart⟩ := exists_stretch hpos
      have habove : Above e R s t := by
        intro x hs hx
        refine ⟨hall x hs hx, ?_⟩
        rcases Nat.lt_or_eq_of_le hx with hlt | rfl
        · have := ih x hlt
          omega
        · exact hrange
      rcases hstart with rfl | ⟨r, rfl, hr⟩
      · have := h.stretch_le hpace hW (Nat.le_refl 0) (by omega) hst habove
        omega
      · have := h.stretch_le hpace hW (Nat.le_succ r) (Nat.le_refl _) hst habove
        omega
    · omega

theorem above (s t : Nat) (hall : ∀ x, s ≤ x → x ≤ t → 0 < e x) : Above e R s t := fun x hs hx =>
  ⟨hall x hs hx, by
    have := h.le_add hpace hW h0 hE hR x
    omega⟩

/-- A stretch from the start comes down step by step. -/
theorem comes_down {t : Nat} (hall : ∀ x, 0 ≤ x → x ≤ t → 0 < e x) (j : Nat) (hj : W + L * j ≤ t) :
    e (W + L * j) ≤ E + b - j := by
  induction j with
  | zero =>
    have := h.le_add hpace hW h0 hE hR (W + L * 0)
    push_cast
    omega
  | succ j ih =>
    rw [Nat.mul_succ] at hj
    have hprev := ih (by omega)
    have hfall := h.falls (h.above hpace hW h0 hE hR (L * j) (L * j + W + L) fun x _ hx =>
      hall x (Nat.zero_le x) (by omega))
    rw [show L * j + W + L = W + L * (j + 1) by rw [Nat.mul_succ]; omega, Nat.add_comm (L * j) W] at hfall
    push_cast
    omega

/-- In the end it stays below what the delay allows above zero. -/
theorem eventually_le {t : Nat} (ht : W + L * (E + b).toNat ≤ t) : e t ≤ b := by
  by_cases hpos : 0 < e t
  · obtain ⟨s, hst, hall, hstart⟩ := exists_stretch hpos
    rcases hstart with rfl | ⟨r, rfl, hr⟩
    · have hend := h.comes_down hpace hW h0 hE hR hall (E + b).toNat ht
      have hlast := hall (W + L * (E + b).toNat) (Nat.zero_le _) ht
      omega
    · have := h.stretch_le hpace hW (Nat.le_succ r) (Nat.le_refl _) hst (h.above hpace hW h0 hE hR _ _ hall)
      omega
  · omega

end

end Pulled

end Settling
