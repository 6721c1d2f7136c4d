import Mathlib.Data.BitVec
import Mathlib.Data.List.Basic
import Mathlib.Logic.Function.Basic
import Mathlib.Order.Nat

/-!
# Ring buffers with power-of-two pointers

A memory of `2 ^ k` cells with two `k`-bit pointers: the cells from `start` up to, not including,
`stop` hold the queue, oldest first. Equal pointers mean empty, so one cell always stays free and
`stop + 1 = start` means full.
-/

namespace Ring

variable {α : Type*} {k : Nat}

/-- The queue held between two pointers. -/
def contents (buf : BitVec k → α) (start stop : BitVec k) : List α :=
  (List.range (stop - start).toNat).map fun n => buf (start + BitVec.ofNat k n)

variable {buf : BitVec k → α} {start stop : BitVec k}

theorem length_contents : (contents buf start stop).length = (stop - start).toNat := by
  rw [contents, List.length_map, List.length_range]

theorem one_ne_zero_of_pos (hk : 0 < k) : (1 : BitVec k) ≠ 0 := fun h => by
  have hnat : (1 : BitVec k).toNat = 1 := by
    rw [show (1 : BitVec k) = BitVec.ofNat k 1 from rfl, BitVec.toNat_ofNat,
      Nat.mod_eq_of_lt (Nat.one_lt_two_pow (by omega))]
  rw [h] at hnat
  simp at hnat

theorem toNat_add_one {d : BitVec k} (h : d + 1 ≠ 0) : (d + 1).toNat = d.toNat + 1 := by
  have hmod : (d + 1).toNat = (d.toNat + 1) % 2 ^ k := by
    show (d + BitVec.ofNat k 1).toNat = _
    rw [BitVec.toNat_add, BitVec.toNat_ofNat, Nat.add_mod_mod]
  have hlt := d.isLt
  rcases Nat.lt_or_eq_of_le (show d.toNat + 1 ≤ 2 ^ k from hlt) with hs | hs
  · rw [hmod, Nat.mod_eq_of_lt hs]
  · refine absurd (BitVec.eq_of_toNat_eq ?_) h
    rw [hmod, hs, Nat.mod_self]
    exact (Nat.zero_mod _).symm

theorem add_one_eq_zero_iff {d : BitVec k} : d + 1 = 0 ↔ d.toNat + 1 = 2 ^ k := by
  constructor
  · intro h
    have hmod := congrArg BitVec.toNat h
    rw [show d + 1 = d + BitVec.ofNat k 1 from rfl, BitVec.toNat_add, BitVec.toNat_ofNat, Nat.add_mod_mod,
      show (0 : BitVec k).toNat = 0 from Nat.zero_mod _] at hmod
    have hle := d.isLt
    have hdvd := Nat.dvd_of_mod_eq_zero hmod
    exact Nat.le_antisymm hle (Nat.le_of_dvd (Nat.succ_pos _) hdvd)
  · intro h
    by_contra hne
    have hlt := (d + 1).isLt
    rw [toNat_add_one hne] at hlt
    omega

/-- The pointers are as far apart as they can be. -/
theorem full_iff : stop + 1 = start ↔ (stop - start).toNat + 1 = 2 ^ k := by
  rw [← add_one_eq_zero_iff]
  constructor <;> intro h <;> grind

theorem add_sub_start : start + BitVec.ofNat k (stop - start).toNat = stop := by
  rw [BitVec.ofNat_toNat, BitVec.setWidth_eq, BitVec.add_comm, BitVec.sub_add_cancel]

theorem add_ofNat_ne_stop {n : Nat} (h : n < (stop - start).toNat) :
    start + BitVec.ofNat k n ≠ stop := by
  rintro rfl
  rw [BitVec.add_comm, BitVec.add_sub_cancel, BitVec.toNat_ofNat] at h
  exact absurd h (Nat.not_lt.2 (Nat.mod_le _ _))

theorem contents_eq_nil_iff : contents buf start stop = [] ↔ start = stop := by
  rw [← List.length_eq_zero_iff, length_contents]
  constructor
  · intro h
    have hstop : start + BitVec.ofNat k (stop - start).toNat = stop := add_sub_start
    rw [h] at hstop
    simpa using hstop
  · rintro rfl
    simp

/-- The index lies in `[start, stop)`, around the wrap. -/
def Within (start stop idx : BitVec k) : Prop := (idx - start).toNat < (stop - start).toNat

theorem within_iff {idx : BitVec k} :
    Within start stop idx ↔ ∃ n < (stop - start).toNat, idx = start + BitVec.ofNat k n := by
  constructor
  · intro h
    exact ⟨_, h, add_sub_start.symm⟩
  · rintro ⟨n, hn, rfl⟩
    rw [Within, BitVec.add_comm, BitVec.add_sub_cancel, BitVec.toNat_ofNat]
    exact Nat.lt_of_le_of_lt (Nat.mod_le _ _) hn

/-- Writing at `stop` and advancing it enqueues. -/
theorem contents_push (h : stop + 1 ≠ start) (x : α) :
    contents (Function.update buf stop x) start (stop + 1) = contents buf start stop ++ [x] := by
  have hlen : (stop + 1 - start).toNat = (stop - start).toNat + 1 := by
    rw [show stop + 1 - start = (stop - start) + 1 by grind]
    exact toNat_add_one fun hz => h (by grind)
  rw [contents, hlen, List.range_succ, List.map_append, contents]
  congr 1
  · refine List.map_congr_left fun n hn => ?_
    exact Function.update_of_ne (add_ofNat_ne_stop (List.mem_range.1 hn)) _ _
  · rw [List.map_singleton, add_sub_start, Function.update_self]

/-- Writing at `stop` without advancing it changes no queued element. -/
theorem contents_update_stop (x : α) :
    contents (Function.update buf stop x) start stop = contents buf start stop :=
  List.map_congr_left fun _ hn =>
    Function.update_of_ne (add_ofNat_ne_stop (List.mem_range.1 hn)) _ _

/-- Advancing `start` dequeues. -/
theorem contents_pop (h : start ≠ stop) :
    contents buf start stop = buf start :: contents buf (start + 1) stop := by
  have hlen : (stop - start).toNat = (stop - (start + 1)).toNat + 1 := by
    rw [show stop - start = (stop - (start + 1)) + 1 by grind]
    exact toNat_add_one fun hz => h (by grind)
  rw [contents, hlen, List.range_succ_eq_map, List.map_cons, List.map_map, contents]
  congr 1
  · simp
  · refine List.map_congr_left fun n _ => ?_
    rw [Function.comp_apply, Nat.succ_eq_add_one, Nat.add_comm, BitVec.ofNat_add,
      ← BitVec.add_assoc]
    rfl

end Ring
