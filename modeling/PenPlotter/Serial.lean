import Mathlib.Data.BitVec
import Mathlib.Data.List.Basic
import Mathlib.Data.List.Infix
import Mathlib.Order.Nat

/-!
# 8N1 line waveforms

A frame holds ten symbols of `B` cycles each: a low start bit, the eight data bits, least significant
first, and a high stop bit. A waveform is a list of idle gaps, each followed by the frame of a byte.
-/

namespace Serial

/-- Symbol `q` of the frame of `b`. -/
def symbol (b : BitVec 8) (q : Nat) : Bool :=
  if q = 0 then false else if q ≤ 8 then b.getLsbD (q - 1) else true

/-- The first `m` symbols, of `B` cycles each. -/
def symbols (B : Nat) (b : BitVec 8) (m : Nat) : List Bool :=
  (List.range m).flatMap fun q => List.replicate B (symbol b q)

def frame (B : Nat) (b : BitVec 8) : List Bool := symbols B b 10

/-- Each byte is preceded by a gap of the given number of idle cycles. -/
def wave (B : Nat) (fs : List (Nat × BitVec 8)) : List Bool :=
  fs.flatMap fun f => List.replicate f.1 true ++ frame B f.2

/-- A frame up to cycle `r` of symbol `q`. -/
def partialFrame (B : Nat) (b : BitVec 8) (q r : Nat) : List Bool :=
  symbols B b q ++ List.replicate r (symbol b q)

variable {B : Nat} {b : BitVec 8} {q r : Nat}

theorem symbol_data {j : Nat} (hj : j < 8) : symbol b (j + 1) = b.getLsbD j := by
  rw [symbol, if_neg (by omega), if_pos (by omega), Nat.add_sub_cancel]

theorem symbols_succ (m : Nat) :
    symbols B b (m + 1) = symbols B b m ++ List.replicate B (symbol b m) := by
  simp [symbols, List.range_succ]

@[simp] theorem length_symbols (m : Nat) : (symbols B b m).length = m * B := by
  induction m with
  | zero => simp [symbols]
  | succ m ih => rw [symbols_succ, List.length_append, ih, List.length_replicate, Nat.succ_mul]

@[simp] theorem length_frame : (frame B b).length = 10 * B := length_symbols 10

theorem symbols_mono {m n : Nat} (h : m ≤ n) : symbols B b m <+: symbols B b n := by
  obtain ⟨d, rfl⟩ := Nat.exists_eq_add_of_le h
  induction d with
  | zero => exact List.prefix_rfl
  | succ d ih => exact (ih (by omega)).trans ⟨_, (symbols_succ (m + d)).symm⟩

@[simp] theorem partialFrame_zero : partialFrame B b 0 0 = [] := rfl

theorem partialFrame_succ : partialFrame B b q (r + 1) = partialFrame B b q r ++ [symbol b q] := by
  rw [partialFrame, List.replicate_succ', ← List.append_assoc]
  rfl

theorem partialFrame_full : partialFrame B b q B = partialFrame B b (q + 1) 0 := by
  rw [partialFrame, partialFrame, symbols_succ]
  simp

theorem partialFrame_stop : partialFrame B b 9 B = frame B b := (symbols_succ 9).symm

theorem partialFrame_extends (hq : q < 10) (hr : r ≤ B) : partialFrame B b q r <+: frame B b :=
  calc partialFrame B b q r <+: symbols B b (q + 1) := by
        rw [partialFrame, symbols_succ]
        exact (List.prefix_append_right_inj _).2 ⟨List.replicate (B - r) _, by
          rw [List.replicate_append_replicate, Nat.add_sub_cancel' hr]⟩
    _ <+: frame B b := symbols_mono hq

@[simp] theorem length_partialFrame : (partialFrame B b q r).length = q * B + r := by
  rw [partialFrame, List.length_append, length_symbols, List.length_replicate]

/-- Cycle `r` of symbol `q` shows that symbol. -/
theorem getElem?_frame (hq : q < 10) (hr : r < B) :
    (frame B b)[q * B + r]? = some (symbol b q) := by
  have hpre := partialFrame_extends (b := b) hq (show r + 1 ≤ B from hr)
  obtain ⟨rest, hrest⟩ := hpre
  rw [← hrest, List.getElem?_append_left (by simp), partialFrame_succ,
    List.getElem?_append_right (by simp)]
  simp

theorem wave_append (fs fs' : List (Nat × BitVec 8)) :
    wave B (fs ++ fs') = wave B fs ++ wave B fs' := by
  simp [wave]

theorem wave_singleton (g : Nat) : wave B [(g, b)] = List.replicate g true ++ frame B b := by
  simp [wave]

end Serial
