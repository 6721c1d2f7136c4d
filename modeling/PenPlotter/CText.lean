import Mathlib

/-!
# Text in C

What programs that read commands from a terminal use of the C library, on lists of characters: `fgets`,
`strtok` and `atoi`. A string ends where its list ends. `decimal` is how an integer is written, and
`atoi` reads it back from whatever follows it (`atoi_decimal`).
-/

namespace CText

def isSpace (c : Char) : Bool := c = ' ' || c = '\t' || c = '\n' || c = '\x0b' || c = '\x0c' || c = '\r'

/-- The digits that a text begins with. -/
def digitsValue (text : List Char) : Nat := Nat.ofDigitChars 10 (text.takeWhile Char.isDigit) 0

/-- The integer that a text begins with, before its conversion to `int`. -/
def atoi (text : List Char) : ℤ :=
  match text.dropWhile isSpace with
  | '-' :: text => -digitsValue text
  | '+' :: text => digitsValue text
  | text => digitsValue text

def decimal (z : ℤ) : List Char := if z < 0 then '-' :: Nat.toDigits 10 z.natAbs else Nat.toDigits 10 z.natAbs

/-- The next token and what the next call goes on with. -/
def strtok (delim : Char → Bool) (text : List Char) : Option (List Char × List Char) :=
  match text.dropWhile delim with
  | [] => none
  | c :: text => some ((c :: text).takeWhile (!delim ·), ((c :: text).dropWhile (!delim ·)).tail)

/-- Up to `n` characters and no further than the end of the line; it waits where the characters end. -/
def fgets : Nat → List Char → Option (List Char × List Char)
  | 0, input => some ([], input)
  | _ + 1, [] => none
  | n + 1, c :: input => if c = '\n' then some ([c], input) else (fgets n input).map fun p => (c :: p.1, p.2)

theorem fgets_line {line : List Char} (hline : '\n' ∉ line) {n : Nat} (hlen : line.length < n) (input : List Char) :
    fgets n (line ++ '\n' :: input) = some (line ++ ['\n'], input) := by
  induction line generalizing n with
  | nil =>
    obtain ⟨m, rfl⟩ : ∃ m, n = m + 1 := ⟨n - 1, by simp at hlen; omega⟩
    rfl
  | cons c line ih =>
    obtain ⟨hc, hline⟩ := List.ne_and_not_mem_of_not_mem_cons hline
    obtain ⟨m, rfl⟩ : ∃ m, n = m + 1 := ⟨n - 1, by simp at hlen; omega⟩
    rw [List.cons_append, fgets, if_neg (Ne.symm hc), ih hline (by simpa using hlen)]
    rfl

theorem fgets_length {n : Nat} {input line rest : List Char} (h : fgets n input = some (line, rest)) :
    line.length + rest.length = input.length ∧ (n ≠ 0 → line ≠ []) := by
  induction n generalizing input line with
  | zero =>
    cases h
    simp
  | succ n ih =>
    cases input with
    | nil => cases h
    | cons c input =>
      rw [fgets] at h
      split at h
      · cases h
        simp [Nat.add_comm]
      · obtain ⟨⟨line', rest'⟩, hp, hcons⟩ := Option.map_eq_some_iff.1 h
        obtain ⟨rfl, rfl⟩ := Prod.mk.inj hcons
        have hlen : line'.length + rest'.length = input.length := (ih hp).1
        refine ⟨?_, fun _ => List.cons_ne_nil _ _⟩
        simp only [List.length_cons]
        omega

section

variable {delim : Char → Bool} {word text : List Char} (hword : ∀ c ∈ word, delim c = false) (hne : word ≠ [])
include hword hne

theorem strtok_word {d : Char} (hd : delim d = true) : strtok delim (word ++ d :: text) = some (word, text) := by
  obtain ⟨c, word, rfl⟩ := List.exists_cons_of_ne_nil hne
  have hall : ∀ x ∈ c :: word, (!delim x) = true := fun x hx => by rw [hword x hx]; rfl
  have hdrop : (c :: word ++ d :: text).dropWhile delim = c :: (word ++ d :: text) := by
    simp [hword c]
  rw [strtok, hdrop]
  simp only
  rw [← List.cons_append, List.takeWhile_append_of_pos hall, List.dropWhile_append_of_pos hall]
  simp [hd]

theorem strtok_last : strtok delim word = some (word, []) := by
  obtain ⟨c, word, rfl⟩ := List.exists_cons_of_ne_nil hne
  have hall : ∀ x ∈ c :: word, (!delim x) = true := fun x hx => by rw [hword x hx]; rfl
  have hdrop : (c :: word).dropWhile delim = c :: word := by simp [hword c]
  rw [strtok, hdrop]
  simp only
  rw [List.takeWhile_eq_self_iff.2 hall, List.dropWhile_eq_nil_iff.2 hall]
  rfl

end

theorem isDigit_of_mem_toDigits {n : Nat} {c : Char} (h : c ∈ Nat.toDigits 10 n) : c.isDigit = true :=
  Nat.isDigit_of_mem_toDigits (by decide) (by decide) h

theorem digitsValue_toDigits (n : Nat) {text : List Char} (htext : ∀ c ∈ text.head?, c.isDigit = false) :
    digitsValue (Nat.toDigits 10 n ++ text) = n := by
  have htake : text.takeWhile Char.isDigit = [] := by
    cases text with
    | nil => rfl
    | cons c text => simp [htext c rfl]
  rw [digitsValue, List.takeWhile_append_of_pos fun c hc => isDigit_of_mem_toDigits hc, htake, List.append_nil,
    Nat.ofDigitChars_ten_toDigits]

theorem toDigits_eq_cons (n : Nat) : ∃ c l, Nat.toDigits 10 n = c :: l ∧ c.isDigit = true := by
  obtain ⟨c, l, hl⟩ := List.exists_cons_of_ne_nil (Nat.toDigits_ne_nil (n := n) (b := 10))
  exact ⟨c, l, hl, isDigit_of_mem_toDigits (n := n) (by simp [hl])⟩

theorem atoi_space {c : Char} (hc : isSpace c = true) (text : List Char) : atoi (c :: text) = atoi text := by
  rw [atoi, List.dropWhile_cons_of_pos hc]
  rfl

/-- Digits are neither blanks nor signs. -/
theorem atoi_digits {c : Char} (hc : c.isDigit = true) (text : List Char) :
    atoi (c :: text) = digitsValue (c :: text) := by
  have hspace : isSpace c = false := by
    by_contra h
    rw [Bool.not_eq_false] at h
    simp only [isSpace, Bool.or_eq_true, decide_eq_true_eq] at h
    rcases h with ((((rfl | rfl) | rfl) | rfl) | rfl) | rfl <;> revert hc <;> decide
  rw [atoi, List.dropWhile_cons_of_neg (by simp [hspace])]
  split
  next h =>
    cases h
    exact absurd hc (by decide)
  next h =>
    cases h
    exact absurd hc (by decide)
  next => rfl

theorem atoi_decimal (z : ℤ) {text : List Char} (htext : ∀ c ∈ text.head?, c.isDigit = false) :
    atoi (decimal z ++ text) = z := by
  have hvalue := digitsValue_toDigits z.natAbs htext
  unfold decimal
  split
  next hz =>
    show -(digitsValue (Nat.toDigits 10 z.natAbs ++ text) : ℤ) = z
    omega
  next hz =>
    obtain ⟨c, l, hl, hc⟩ := toDigits_eq_cons z.natAbs
    rw [hl, List.cons_append] at hvalue ⊢
    rw [atoi_digits hc]
    omega

/-- The characters of a decimal. -/
theorem mem_decimal {z : ℤ} {c : Char} (h : c ∈ decimal z) : c = '-' ∨ c.isDigit = true := by
  unfold decimal at h
  split at h
  · rcases List.mem_cons.1 h with rfl | h
    · exact .inl rfl
    · exact .inr (isDigit_of_mem_toDigits h)
  · exact .inr (isDigit_of_mem_toDigits h)

theorem decimal_ne_nil (z : ℤ) : decimal z ≠ [] := by
  unfold decimal
  split <;> simp

theorem length_decimal_le {z : ℤ} {k : Nat} (hk : 0 < k) (h : z.natAbs < 10 ^ k) : (decimal z).length ≤ k + 1 := by
  have hlen := (Nat.length_toDigits_le_iff (b := 10) (by decide) hk).2 h
  unfold decimal
  split
  · simpa using hlen
  · omega

end CText
