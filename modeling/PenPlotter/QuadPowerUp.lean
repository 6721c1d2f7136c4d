import PenPlotter.QuadPhase
import Mathlib.Data.Nat.Find

/-!
# Counting from any phase at power-up

The differences of `tick_position` are those of the encoder iff every clock edge without a clear adds the step
of two clocks before (`countsRight_iff`). From `(0, 0)`, `(1, 0)` and `(0, 1)` the decoder is in step at once.
From `(1, 1)` it waits in `abZero` for the first change, which it takes for a step out of `(0, 0)`.
-/

namespace PenPlotter

open Finset

/-- The net displacement of the encoder from sample `s` to sample `t`. -/
def displacement (inp : Nat → QuadIn) (s t : Nat) : Int :=
  ∑ k ∈ Ico s t, (inp k).phase.steps (inp (k + 1)).phase

/-- Between clock edges without a clear, past the first four, the count moves as the encoder did two clocks
before. -/
def CountsRight (inp : Nat → QuadIn) : Prop :=
  ∀ t₁ t₂, 4 ≤ t₁ → t₁ < t₂ → (∀ c, t₁ < c → c ≤ t₂ → (inp c).clrI = false) →
    tickAt inp t₂ - tickAt inp t₁ = BitVec.ofInt 32 (displacement inp (t₁ - 2) (t₂ - 2))

/-- The encoder leaves its initial phase at clock `t`. -/
def FirstChange (inp : Nat → QuadIn) (t : Nat) : Prop :=
  (∀ j < t, (inp j).phase = (inp 0).phase) ∧ (inp t).phase ≠ (inp 0).phase

/-- Not at `(1, 1)`, or the first step is cleared when it is decoded. -/
def PowerUpOk (inp : Nat → QuadIn) : Prop :=
  (inp 0).phase = (true, true) → ∀ t, FirstChange inp t → (inp (t + 2)).clrI = true

/-- The edge that decodes the step from sample `k` to sample `k + 1` clears or adds it. -/
def EdgeRight (inp : Nat → QuadIn) (k : Nat) : Prop :=
  (inp (k + 3)).clrI = false →
    (decoderRun inp (k + 3)).tickVal = BitVec.ofInt 32 ((inp k).phase.steps (inp (k + 1)).phase)

section

variable {inp : Nat → QuadIn} {k t : Nat}

theorem displacement_succ {s : Nat} (h : s ≤ t) :
    displacement inp s (t + 1) = displacement inp s t + (inp t).phase.steps (inp (t + 1)).phase :=
  sum_Ico_succ_top h _

theorem tickAt_sub_tickAt (hedge : ∀ k, 2 ≤ k → EdgeRight inp k) {t₁ : Nat} (h₁ : 4 ≤ t₁) {d : Nat}
    (hclr : ∀ c, t₁ < c → c ≤ t₁ + d → (inp c).clrI = false) :
    tickAt inp (t₁ + d) - tickAt inp t₁ = BitVec.ofInt 32 (displacement inp (t₁ - 2) (t₁ + d - 2)) := by
  induction d with
  | zero => simp [displacement]
  | succ d ih =>
    obtain ⟨k, hk⟩ : ∃ k, t₁ + d = k + 2 := ⟨t₁ + d - 2, by omega⟩
    have hlow : (inp (k + 3)).clrI = false := hclr (k + 3) (by omega) (by omega)
    have hcount : tickAt inp (k + 2 + 1) =
        tickAt inp (k + 2) + BitVec.ofInt 32 ((inp k).phase.steps (inp (k + 1)).phase) := by
      rw [tickAt_succ, show (inp (k + 2 + 1)).clrI = false from hlow, hedge k (by omega) hlow]
      rfl
    have hprev := ih fun c h1 h2 => hclr c h1 (by omega)
    rw [hk, show k + 2 - 2 = k from rfl] at hprev
    rw [← Nat.add_assoc, hk, hcount, show k + 2 + 1 - 2 = k + 1 from rfl, displacement_succ (by omega),
      BitVec.ofInt_add, ← hprev]
    grind

theorem countsRight_iff : CountsRight inp ↔ ∀ k, 2 ≤ k → EdgeRight inp k := by
  constructor
  · intro h k hk hclr
    have hmove := h (k + 2) (k + 3) (by omega) (by omega) fun c h1 h2 => by
      rwa [show c = k + 3 by omega]
    rw [show k + 2 - 2 = k from rfl, show k + 3 - 2 = k + 1 from rfl, displacement_succ (Nat.le_refl k),
      show displacement inp k k = 0 by simp [displacement], Int.zero_add, tickAt_succ,
      show (inp (k + 2 + 1)).clrI = false from hclr] at hmove
    rw [← hmove]
    show (decoderRun inp (k + 2 + 1)).tickVal =
      tickAt inp (k + 2) + (decoderRun inp (k + 2 + 1)).tickVal - tickAt inp (k + 2)
    grind
  · intro h t₁ t₂ h₁ hlt hclr
    obtain ⟨d, rfl⟩ := Nat.exists_eq_add_of_le hlt.le
    exact tickAt_sub_tickAt h h₁ hclr

theorem edgeRight_of_synced (h : Synced inp (k + 1)) (hnear : (inp k).phase.Near (inp (k + 1)).phase) :
    EdgeRight inp k := fun _ => h.tickVal hnear

theorem synced_one (h : (inp 0).phase ≠ (true, true)) : Synced inp 1 := by
  refine synced_zero.step ?_
  show (false = (inp 0).aI) ∨ (false = (inp 0).bI)
  cases ha : (inp 0).aI
  · exact .inl rfl
  · cases hb : (inp 0).bI
    · exact .inr rfl
    · exact absurd (Prod.ext ha hb) h

/-- While the encoder stands at `(1, 1)` the decoder stays in `abZero`. -/
theorem stuck {t : Nat} (h : ∀ j < t, (inp j).phase = (true, true)) :
    (decoderRun inp (t + 2)).state = .abZero := by
  induction t with
  | zero => rfl
  | succ t ih =>
    have hprev := ih fun j hj => h j (by omega)
    have ha : (inp t).aI = true := congrArg Prod.fst (h t (Nat.lt_succ_self t))
    have hb : (inp t).bI = true := congrArg Prod.snd (h t (Nat.lt_succ_self t))
    show ((decoderRun inp (t + 2)).state.decode (inp t).aI (inp t).bI).1 = .abZero
    rw [hprev, ha, hb]
    rfl

theorem exists_firstChange {n : Nat} (h : ¬∀ j < n, (inp j).phase = (inp 0).phase) :
    ∃ t < n, FirstChange inp t := by
  rw [not_forall] at h
  obtain ⟨j, hj⟩ := h
  obtain ⟨hlt, hne⟩ := Classical.not_imp.1 hj
  have hex : ∃ t, (inp t).phase ≠ (inp 0).phase := ⟨j, hne⟩
  exact ⟨Nat.find hex, Nat.lt_of_le_of_lt (Nat.find_min' hex hne) hlt,
    fun i hi => not_not.1 (Nat.find_min hex hi), Nat.find_spec hex⟩

theorem FirstChange.exists_succ (h : FirstChange inp t) : ∃ k, t = k + 1 :=
  ⟨t - 1, by
    have hne : t ≠ 0 := fun h0 => h.2 (by rw [h0])
    omega⟩

/-- The first change out of `(1, 1)` brings the decoder in step, and is counted with the wrong sign. -/
theorem FirstChange.inverted (h : FirstChange inp t) (hone : (inp 0).phase = (true, true))
    (hnear : ∀ t, (inp t).phase.Near (inp (t + 1)).phase) :
    Synced inp (t + 1) ∧
      (decoderRun inp (t + 2)).tickVal ≠ BitVec.ofInt 32 (Phase.steps (true, true) (inp t).phase) := by
  have hdecode : ((decoderRun inp (t + 3)).state, (decoderRun inp (t + 2)).tickVal) =
      QuadState.abZero.decode (inp t).phase.1 (inp t).phase.2 := by
    rw [← stuck fun j hj => (h.1 j hj).trans hone]
    rfl
  have hback : Phase.Near (true, true) (inp t).phase := by
    obtain ⟨k, rfl⟩ := h.exists_succ
    rw [← hone, ← h.1 k (Nat.lt_succ_self k)]
    exact hnear k
  have hne : (inp t).phase ≠ (true, true) := hone ▸ h.2
  obtain ⟨hstate, hval⟩ := Prod.mk.inj hdecode
  show (decoderRun inp (t + 3)).state = .ofPhase (inp t).phase ∧ _
  rw [hstate, hval]
  generalize (inp t).phase = p at hne hback
  rcases p with ⟨_ | _, _ | _⟩
  · exact absurd hback (by decide)
  · decide
  · decide
  · exact absurd rfl hne

end

/-- The counts are right from power-up on iff the encoder does not stand at `(1, 1)` there, or a clear takes
its first step. -/
theorem countsRight_iff_powerUpOk (inp : Nat → QuadIn) (hheld : ∀ t < 4, (inp t).phase = (inp 0).phase)
    (hnear : ∀ t, (inp t).phase.Near (inp (t + 1)).phase) : CountsRight inp ↔ PowerUpOk inp := by
  rw [countsRight_iff]
  constructor
  · intro h hone t hfirst
    obtain ⟨k, rfl⟩ := hfirst.exists_succ
    have hk : 2 ≤ k := by
      by_contra hlt
      exact hfirst.2 (hheld (k + 1) (by omega))
    have hlast : (inp k).phase = (true, true) := (hfirst.1 k (Nat.lt_succ_self k)).trans hone
    by_contra hclr
    have hright := h k hk (Bool.eq_false_iff.2 hclr)
    rw [hlast] at hright
    exact (hfirst.inverted hone hnear).2 hright
  · intro hok k hk hclr
    have hstays {T : Nat} (hle : T ≤ k) (hsync : Synced inp (T + 1)) : Synced inp (k + 1) :=
      hsync.of_le (fun t ht => by
        obtain ⟨u, rfl⟩ : ∃ u, t = u + 1 := ⟨t - 1, by omega⟩
        exact hnear u) (Nat.succ_le_succ hle)
    by_cases hone : (inp 0).phase = (true, true)
    · by_cases hstand : ∀ j < k + 2, (inp j).phase = (inp 0).phase
      · -- still at `(1, 1)`: nothing is counted
        have hval : (decoderRun inp (k + 3)).tickVal =
            ((decoderRun inp (k + 3)).state.decode (inp (k + 1)).phase.1 (inp (k + 1)).phase.2).2 := rfl
        rw [hval, stuck fun j hj => (hstand j (by omega)).trans hone, hstand k (by omega),
          hstand (k + 1) (by omega), hone]
        rfl
      · obtain ⟨t, hlt, hfirst⟩ := exists_firstChange hstand
        rcases (by omega : t = k + 1 ∨ t ≤ k) with rfl | hle
        · have hcleared : (inp (k + 3)).clrI = true := hok hone _ hfirst
          rw [hclr] at hcleared
          cases hcleared
        · exact edgeRight_of_synced (hstays hle (hfirst.inverted hone hnear).1) (hnear k) hclr
    · exact edgeRight_of_synced (hstays (Nat.zero_le k) (synced_one hone)) (hnear k) hclr

/-- The encoder stands at `p` for four clocks and then at `q`, without clears. -/
def turnFrom (p q : Phase) (t : Nat) : QuadIn := if t < 4 then ⟨false, p.1, p.2⟩ else ⟨false, q.1, q.2⟩

theorem turnFrom_held (p q : Phase) (t : Nat) (h : t < 4) : (turnFrom p q t).phase = (turnFrom p q 0).phase := by
  rw [turnFrom, if_pos h]
  rfl

theorem turnFrom_near {p q : Phase} (h : p.Near q) (t : Nat) :
    (turnFrom p q t).phase.Near (turnFrom p q (t + 1)).phase := by
  unfold turnFrom
  split
  next =>
    split
    · exact .inl rfl
    · exact h
  next hge =>
    rw [if_neg (by omega)]
    exact .inl rfl

theorem countsRight_turnFrom : (∀ t < 4, (turnFrom (true, false) (true, true) t).phase =
      (turnFrom (true, false) (true, true) 0).phase) ∧
    (∀ t, (turnFrom (true, false) (true, true) t).phase.Near (turnFrom (true, false) (true, true) (t + 1)).phase) ∧
    CountsRight (turnFrom (true, false) (true, true)) :=
  have hnear := turnFrom_near (p := (true, false)) (q := (true, true)) (by decide)
  ⟨turnFrom_held _ _, hnear, (countsRight_iff_powerUpOk _ (turnFrom_held _ _) hnear).2 nofun⟩

/-- The step forward out of `(1, 1)` counts backward. -/
theorem turnFrom_one_misread : (∀ t < 4, (turnFrom (true, true) (false, true) t).phase =
      (turnFrom (true, true) (false, true) 0).phase) ∧
    (∀ t, (turnFrom (true, true) (false, true) t).phase.Near (turnFrom (true, true) (false, true) (t + 1)).phase) ∧
    displacement (turnFrom (true, true) (false, true)) 3 4 = 1 ∧
    tickAt (turnFrom (true, true) (false, true)) 6 - tickAt (turnFrom (true, true) (false, true)) 5 = -1 ∧
    ¬CountsRight (turnFrom (true, true) (false, true)) := by
  have hsteps : displacement (turnFrom (true, true) (false, true)) 3 4 = 1 := by decide
  have hmove : tickAt (turnFrom (true, true) (false, true)) 6 - tickAt (turnFrom (true, true) (false, true)) 5 =
      -1 := by decide
  refine ⟨turnFrom_held _ _, turnFrom_near (by decide), hsteps, hmove, fun h => ?_⟩
  have hright := h 5 6 (by decide) (by decide) fun c _ _ => by unfold turnFrom; split <;> rfl
  rw [hmove, hsteps] at hright
  exact absurd hright (by decide)

end PenPlotter
