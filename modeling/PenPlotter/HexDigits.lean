import Mathlib.Data.Nat.Digits.Lemmas
import Mathlib.Tactic.IntervalCases

/-!
# Hexadecimal numerals

Numerals as lists of characters: `value` reads digits of either case and `digits` writes upper-case ones;
`pad` fills up with zeros. A numeral in a text is read up to where the digits end (`Ends`).
-/

namespace Hex

def isDigit (c : Char) : Bool := ('0' ≤ c && c ≤ '9') || ('A' ≤ c && c ≤ 'F') || ('a' ≤ c && c ≤ 'f')

def digitValue (c : Char) : Nat :=
  if c ≤ '9' then c.toNat - '0'.toNat
  else if c ≤ 'F' then c.toNat - 'A'.toNat + 10
  else c.toNat - 'a'.toNat + 10

def value (ds : List Char) : Nat := ds.foldl (fun n c => 16 * n + digitValue c) 0

def digitChar (d : Nat) : Char := "0123456789ABCDEF".toList.getD d '0'

/-- The numeral of `n`, without leading zeros. -/
def digits (n : Nat) : List Char := if n = 0 then ['0'] else ((Nat.digits 16 n).map digitChar).reverse

def pad (w : Nat) (ds : List Char) : List Char := List.replicate (w - ds.length) '0' ++ ds

theorem isDigit_range {c : Char} (h : isDigit c = true) :
    48 ≤ c.toNat ∧ c.toNat ≤ 57 ∨ 65 ≤ c.toNat ∧ c.toNat ≤ 70 ∨ 97 ≤ c.toNat ∧ c.toNat ≤ 102 := by
  simpa [isDigit, Char.le_def, UInt32.le_iff_toNat_le, or_assoc] using h

theorem digitValue_digitChar {d : Nat} (h : d < 16) : digitValue (digitChar d) = d := by
  interval_cases d <;> decide

theorem isDigit_digitChar {d : Nat} (h : d < 16) : isDigit (digitChar d) = true := by
  interval_cases d <;> decide

@[simp] theorem value_concat (ds : List Char) (c : Char) : value (ds ++ [c]) = 16 * value ds + digitValue c := by
  simp [value]

theorem value_map_digitChar {l : List Nat} (h : ∀ d ∈ l, d < 16) :
    value (l.map digitChar).reverse = Nat.ofDigits 16 l := by
  induction l with
  | nil => rfl
  | cons d l ih =>
    have hd : d < 16 := h d List.mem_cons_self
    have hl : ∀ d ∈ l, d < 16 := fun e he => h e (List.mem_cons_of_mem d he)
    rw [List.map_cons, List.reverse_cons, value_concat, ih hl, digitValue_digitChar hd, Nat.ofDigits_cons]
    simp [Nat.add_comm]

theorem value_digits (n : Nat) : value (digits n) = n := by
  unfold digits
  split
  case isTrue h => rw [h]; rfl
  case isFalse h =>
    rw [value_map_digitChar fun d hd => Nat.digits_lt_base (by decide) hd]
    exact Nat.ofDigits_digits 16 n

theorem value_zero_cons (ds : List Char) : value ('0' :: ds) = value ds := rfl

@[simp] theorem value_pad (w : Nat) (ds : List Char) : value (pad w ds) = value ds := by
  unfold pad
  generalize w - ds.length = k
  induction k with
  | zero => rfl
  | succ k ih => rw [List.replicate_succ, List.cons_append, value_zero_cons, ih]

theorem digits_ne_nil (n : Nat) : digits n ≠ [] := by
  unfold digits
  split
  next => exact List.cons_ne_nil _ _
  next h => simpa [Nat.digits_eq_nil_iff_eq_zero] using h

theorem isDigit_of_mem_digits {n : Nat} {c : Char} (h : c ∈ digits n) : isDigit c = true := by
  unfold digits at h
  split at h
  · obtain rfl := List.mem_singleton.1 h
    decide
  · rw [List.mem_reverse] at h
    obtain ⟨d, hd, rfl⟩ := List.mem_map.1 h
    exact isDigit_digitChar (Nat.digits_lt_base (by decide) hd)

theorem isDigit_of_mem_pad {w : Nat} {ds : List Char} (hds : ∀ c ∈ ds, isDigit c = true) :
    ∀ c ∈ pad w ds, isDigit c = true := by
  intro c h
  rcases List.mem_append.1 h with h | h
  · rw [List.eq_of_mem_replicate h]
    decide
  · exact hds c h

theorem length_digits_le {n w : Nat} (hw : 0 < w) (h : n < 16 ^ w) : (digits n).length ≤ w := by
  unfold digits
  split
  · exact hw
  · rw [List.length_reverse, List.length_map]
    exact (Nat.digits_length_le_iff (by decide) n).2 h

theorem length_pad_digits {n w : Nat} (hw : 0 < w) (h : n < 16 ^ w) : (pad w (digits n)).length = w := by
  have hle := length_digits_le hw h
  rw [pad, List.length_append, List.length_replicate]
  omega

/-- The text does not go on with a digit. -/
def Ends (text : List Char) : Prop := ∀ c ∈ text.head?, isDigit c = false

theorem ends_cons {c : Char} (h : isDigit c = false) (text : List Char) : Ends (c :: text) := by
  rintro d hd
  obtain rfl := Option.some.inj hd
  exact h

theorem takeWhile_digits {ds text : List Char} (hds : ∀ c ∈ ds, isDigit c = true) (h : Ends text) :
    (ds ++ text).takeWhile isDigit = ds := by
  rw [List.takeWhile_append_of_pos hds]
  rcases text with _ | ⟨c, text⟩
  · simp
  · rw [List.takeWhile_cons_of_neg (by rw [h c rfl]; decide), List.append_nil]

theorem dropWhile_digits {ds text : List Char} (hds : ∀ c ∈ ds, isDigit c = true) (h : Ends text) :
    (ds ++ text).dropWhile isDigit = text := by
  rw [List.dropWhile_append_of_pos hds]
  rcases text with _ | ⟨c, text⟩
  · rfl
  · exact List.dropWhile_cons_of_neg (by rw [h c rfl]; decide)

end Hex
