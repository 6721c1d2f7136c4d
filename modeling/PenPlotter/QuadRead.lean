import PenPlotter.Quad

/-!
# What a read of a quadrature count returns

The mirror takes the count of the cycle before (`mirror_step`), less the bits the software writes in that
cycle, and after a clear it keeps its old value for one more cycle. So a read is right unless it is granted
in the cycle after a write to the same register that changes something (`read_iff`).
-/

namespace PenPlotter

namespace ObiQuadState

/-- The readable register of the axis. -/
def mirror (s : ObiQuadState) (a : Axis) : BitVec 32 := s.regs.q a.quadIdx

/-- A write of the register of the axis is accepted. -/
def writes (i : ObiIn) (a : Axis) : Bool := i.swWe quadCfg a.quadIdx

/-- A read of the register of the axis is granted. -/
def reads (i : ObiIn) (a : Axis) : Bool :=
  i.reqI && !i.weI && !i.err quadCfg && i.regIdx quadCfg == a.quadIdx.val

variable {s : ObiQuadState} {i : ObiQuadIn} {a : Axis}

theorem axisOf_quadIdx (a : Axis) : axisOf a.quadIdx = a := by cases a <;> rfl

theorem clrQuad_eq (i : ObiIn) (a : Axis) : clrQuad i a = (writes i a && i.wdataI == 1) := by
  rw [clrQuad, ObiIn.swWd, writes]
  cases i.swWe quadCfg a.quadIdx <;> rfl

theorem mirror_step : (s.step i).mirror a =
    (if clrQuad i.toObiIn a then s.mirror a else s.hwQuad a) &&&
      (if writes i.toObiIn a then ~~~i.wdataI else BitVec.allOnes 32) := by
  have h : (s.regs.step quadCfg (s.regsIn i)).q a.quadIdx = _ := ObiRegState.step_q_w1c rfl
  refine h.trans (congrArg (· &&& _) ?_)
  show (if (!clrQuad i.toObiIn (axisOf a.quadIdx)) = true then s.hwQuad (axisOf a.quadIdx) else _) = _
  rw [axisOf_quadIdx]
  cases clrQuad i.toObiIn a <;> rfl

theorem hwQuad_step : (s.step i).hwQuad a =
    if clrQuad i.toObiIn a then 0 else s.hwQuad a + (s.decoder a).tickVal := rfl

theorem rdataO_step (h : reads i.toObiIn a = true) :
    (s.step i).regs.rdataO = s.mirror a &&& byteMask i.beI := by
  rw [reads, Bool.and_eq_true, Bool.and_eq_true, Bool.and_eq_true, beq_iff_eq] at h
  obtain ⟨⟨⟨hreq, hwe⟩, herr⟩, hidx⟩ := h
  show (if (i.reqI && !i.weI && !i.err quadCfg) = true then s.regs.selected quadCfg (s.regsIn i) &&& _
    else 0) = _
  have hlt : i.regIdx quadCfg < QuadCount := hidx ▸ a.quadIdx.isLt
  have hsel : s.regs.selected quadCfg (s.regsIn i) = s.mirror a :=
    (dif_pos hlt).trans (congrArg s.regs.q (Fin.ext hidx))
  rw [hreq, hwe, herr, hsel]
  rfl

end ObiQuadState

open ObiQuadState

/-- The peripheral before cycle `t`. -/
def quadRun (inp : Nat → ObiQuadIn) : Nat → ObiQuadState := Clocked.run ObiQuadState.step .reset inp

/-- The read of cycle `t` returns a count that the decoder held in cycle `t - 1` or `t`, and after every
clear before `t`. -/
def ReadOk (inp : Nat → ObiQuadIn) (a : Axis) (t : Nat) : Prop :=
  ∃ j ≤ t, t ≤ j + 1 ∧ (∀ c < t, clrQuad (inp c).toObiIn a = true → c < j) ∧
    (quadRun inp (t + 1)).regs.rdataO = (quadRun inp j).hwQuad a &&& byteMask (inp t).beI

/-- A write of the cycle leaves on the lanes `be` of the mirror what the next cycle may read: a clear finds
nothing there, another value takes no bit off the count or happens to give the next one. -/
def ObiQuadState.ReadableAfter (s : ObiQuadState) (i : ObiIn) (a : Axis) (be : BitVec 4) : Prop :=
  writes i a = true →
    if i.wdataI = 1 then s.mirror a &&& ~~~1 &&& byteMask be = 0
    else s.hwQuad a &&& i.wdataI &&& byteMask be = 0 ∨
      s.hwQuad a &&& ~~~i.wdataI &&& byteMask be = (s.hwQuad a + (s.decoder a).tickVal) &&& byteMask be

section

variable {inp : Nat → ObiQuadIn} {a : Axis} {u : Nat}

/-- A masked word is whole iff the mask takes no bit off it. -/
theorem and_not_and_eq_iff (x v m : BitVec 32) : x &&& ~~~v &&& m = x &&& m ↔ x &&& v &&& m = 0 := by
  have hsplit : x &&& ~~~v &&& m = (x &&& m) ^^^ (x &&& v &&& m) := by
    ext k hk
    simp only [BitVec.getElem_and, BitVec.getElem_xor, BitVec.getElem_not]
    cases x[k] <;> cases v[k] <;> cases m[k] <;> rfl
  rw [hsplit]
  constructor <;> intro h
  · exact (BitVec.xor_right_inj _).1 (h.trans BitVec.xor_zero.symm)
  · exact h ▸ BitVec.xor_zero

theorem readOk_zero (hread : reads (inp 0).toObiIn a = true) : ReadOk inp a 0 := by
  refine ⟨0, Nat.le_refl _, Nat.zero_le _, fun c hc => absurd hc (Nat.not_lt_zero _), ?_⟩
  refine (rdataO_step hread).trans (congrArg (· &&& _) ?_)
  cases a <;> rfl

/-- Only the two counts of the cycles around the last access are candidates. -/
theorem readOk_succ_iff (hread : reads (inp (u + 1)).toObiIn a = true) :
    ReadOk inp a (u + 1) ↔
      (clrQuad (inp u).toObiIn a = false ∧ (quadRun inp (u + 1)).mirror a &&& byteMask (inp (u + 1)).beI =
          (quadRun inp u).hwQuad a &&& byteMask (inp (u + 1)).beI) ∨
        (quadRun inp (u + 1)).mirror a &&& byteMask (inp (u + 1)).beI =
          (quadRun inp (u + 1)).hwQuad a &&& byteMask (inp (u + 1)).beI := by
  have hdata : (quadRun inp (u + 1 + 1)).regs.rdataO = _ := rdataO_step hread
  rw [ReadOk, hdata]
  constructor
  · rintro ⟨j, hj, hju, hclr, heq⟩
    rcases (by omega : j = u ∨ j = u + 1) with rfl | rfl
    · refine .inl ⟨Bool.eq_false_iff.2 fun h => ?_, heq⟩
      exact Nat.lt_irrefl j (hclr j (Nat.lt_succ_self j) h)
    · exact .inr heq
  · rintro (⟨hclr, heq⟩ | heq)
    · refine ⟨u, by omega, Nat.le_refl _, fun c hc h => ?_, heq⟩
      have hne : c ≠ u := fun hcu => by rw [hcu, hclr] at h; cases h
      omega
    · exact ⟨u + 1, Nat.le_refl _, by omega, fun c hc _ => hc, heq⟩

end

/-- A read is right iff the cycle before it did not spoil the mirror. -/
theorem read_iff (inp : Nat → ObiQuadIn) (a : Axis) (t : Nat) (hread : reads (inp t).toObiIn a = true) :
    ReadOk inp a t ↔
      ∀ u, t = u + 1 → (quadRun inp u).ReadableAfter (inp u).toObiIn a (inp t).beI := by
  cases t with
  | zero => exact iff_of_true (readOk_zero hread) nofun
  | succ u =>
    have hmirror : (quadRun inp (u + 1)).mirror a = _ := mirror_step (s := quadRun inp u)
    have hcount : (quadRun inp (u + 1)).hwQuad a = _ := hwQuad_step (s := quadRun inp u)
    rw [readOk_succ_iff hread, hmirror, hcount, clrQuad_eq]
    refine Iff.trans ?_ (Iff.symm ⟨fun h => h u rfl, fun h v hv => by cases hv; exact h⟩)
    rw [ReadableAfter]
    cases hw : writes (inp u).toObiIn a with
    | false =>
      refine iff_of_true (.inl ⟨rfl, ?_⟩) nofun
      exact congrArg (· &&& _) (BitVec.and_allOnes (x := (quadRun inp u).hwQuad a))
    | true =>
      by_cases hone : (inp u).wdataI = 1
      · have hzero (m : BitVec 32) : 0 &&& m = 0 := BitVec.zero_and
        simp only [hone, beq_self_eq_true, Bool.and_self, Bool.true_eq_false, if_true, false_and, false_or,
          hzero, true_implies]
      · have hbeq : ((inp u).wdataI == 1) = false := beq_false_of_ne hone
        simp only [hbeq, Bool.and_false, Bool.false_eq_true, if_false, if_true, if_neg hone, true_and,
          true_implies, and_not_and_eq_iff]

/-- The X encoder makes three steps, the bus writes `v` in cycle 7 and reads in cycle 8. -/
def collidingWrite (v : BitVec 32) (t : Nat) : ObiQuadIn where
  toObiIn := if t = 7 then ⟨true, 0, true, 0xF, v⟩ else if t = 8 then ⟨true, 0, false, 0xF, 0⟩ else .idle
  quadI a := if a = .x then if t = 0 then 1 else if t = 1 then 3 else 2 else 0

theorem read_iff_settled : reads (collidingWrite 4 8).toObiIn .x = true ∧ ReadOk (collidingWrite 4) .x 8 := by
  have hread : reads (collidingWrite 4 8).toObiIn .x = true := by decide
  refine ⟨hread, (read_iff _ .x 8 hread).2 fun u hu => ?_⟩
  cases hu
  intro _
  exact if_neg (show (4 : BitVec 32) ≠ 1 by decide) ▸ .inl (by decide +kernel)

/-- A clear leaves the old count to the next read, and a write of 2 leaves a word that was never a count. -/
theorem collidingWrite_misread :
    (reads (collidingWrite 1 8).toObiIn .x = true ∧ clrQuad (collidingWrite 1 7).toObiIn .x = true ∧
      (quadRun (collidingWrite 1) 9).regs.rdataO = 2 ∧ ¬ReadOk (collidingWrite 1) .x 8) ∧
    (reads (collidingWrite 2 8).toObiIn .x = true ∧ (quadRun (collidingWrite 2) 9).regs.rdataO = 1 ∧
      (quadRun (collidingWrite 2) 7).hwQuad .x = 3 ∧ (quadRun (collidingWrite 2) 8).hwQuad .x = 3 ∧
      ¬ReadOk (collidingWrite 2) .x 8) := by
  refine ⟨⟨by decide, by decide, by decide +kernel, ?_⟩, by decide, by decide +kernel, by decide +kernel,
    by decide +kernel, ?_⟩
  · rw [readOk_succ_iff (by decide)]
    decide +kernel
  · rw [readOk_succ_iff (by decide)]
    decide +kernel

end PenPlotter
