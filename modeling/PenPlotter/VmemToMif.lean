import PenPlotter.VmemParse
import Mathlib.Data.Nat.Size

/-!
# `write_mif` (`sw/vmem_to_mif.py`)

The file is written only when every address lies below the depth. Reading it back gives, at every address
below the depth, the last word assigned to it or 0 (`vmem_to_mif`).
-/

namespace PenPlotter

open Hex (Ends takeWhile_digits dropWhile_digits ends_cons)

/-- `max(1, ceil(bits / 4))` for the bits of the last address. -/
def addressWidth (depth : Nat) : Nat :=
  max 1 (Nat.size (depth - 1) / 4 + if Nat.size (depth - 1) % 4 ≠ 0 then 1 else 0)

def mifHeader (depth : Nat) : List (List Char) :=
  ["WIDTH=32;".toList, "DEPTH=".toList ++ Nat.toDigits 10 depth ++ [';'], "ADDRESS_RADIX=HEX;".toList,
    "DATA_RADIX=HEX;".toList, [], "CONTENT BEGIN".toList]

/-- One line of the content. -/
def mifLine (width address value : Nat) : List Char :=
  [' ', ' ', ' ', ' '] ++ Hex.pad width (Hex.digits address) ++ [' ', ':', ' '] ++
    Hex.pad 8 (Hex.digits value) ++ [';']

def mifLines (words : Words) (depth : Nat) : List (List Char) :=
  mifHeader depth ++
    (List.range depth).map (fun address => mifLine (addressWidth depth) address ((words.lookup address).getD 0)) ++
    ["END;".toList]

/-- Each line ends with a line feed. -/
def mifText (words : Words) (depth : Nat) : List Char := (mifLines words depth).flatMap fun line => line ++ ['\n']

/-- The result, and the output file afterwards. -/
def writeMif (file : Option (List Char)) (words : Words) (depth : Nat) : Except String Unit × Option (List Char) :=
  if words.keys.any fun address => depth ≤ address then
    (.error s!"VMEM address exceeds configured MIF depth ({depth} words)", file)
  else (.ok (), some (mifText words depth))

/-- A line of the content: the digits of the address, and the value. -/
structure MifWord where
  address : List Char
  value : Nat

def readLine (line : List Char) : Option MifWord :=
  let line := line.dropWhile (· == ' ')
  let address := line.takeWhile Hex.isDigit
  match line.dropWhile Hex.isDigit with
  | ' ' :: ':' :: ' ' :: line =>
    if address ≠ [] ∧ line.dropWhile Hex.isDigit = [';'] then
      some ⟨address, Hex.value (line.takeWhile Hex.isDigit)⟩
    else none
  | _ => none

/-- The lines between `CONTENT BEGIN` and `END;`, with both radices hexadecimal. -/
def readMif (text : List Char) : Option (List MifWord) :=
  let lines := text.splitOn '\n'
  let header := lines.takeWhile (· != "CONTENT BEGIN".toList)
  let content := ((lines.dropWhile (· != "CONTENT BEGIN".toList)).drop 1).takeWhile (· != "END;".toList)
  if "ADDRESS_RADIX=HEX;".toList ∈ header ∧ "DATA_RADIX=HEX;".toList ∈ header then content.mapM readLine else none

theorem one_le_addressWidth (depth : Nat) : 0 < addressWidth depth := by
  unfold addressWidth
  omega

theorem lt_addressWidth {depth address : Nat} (h : address < depth) : address < 16 ^ addressWidth depth := by
  have hsize := Nat.lt_size_self (depth - 1)
  have hwidth : Nat.size (depth - 1) ≤ 4 * addressWidth depth := by
    unfold addressWidth
    split <;> omega
  calc address ≤ depth - 1 := by omega
    _ < 2 ^ Nat.size (depth - 1) := hsize
    _ ≤ 2 ^ (4 * addressWidth depth) := Nat.pow_le_pow_right (by decide) hwidth
    _ = 16 ^ addressWidth depth := by rw [Nat.pow_mul]

theorem isDigit_pad {w n : Nat} : ∀ c ∈ Hex.pad w (Hex.digits n), Hex.isDigit c = true :=
  Hex.isDigit_of_mem_pad fun _ => Hex.isDigit_of_mem_digits

theorem pad_ne_nil {w n : Nat} : Hex.pad w (Hex.digits n) ≠ [] := by
  intro h
  exact Hex.digits_ne_nil n (List.append_eq_nil_iff.1 h).2

/-- The blanks end where the digits begin. -/
theorem dropWhile_blank {ds text : List Char} (hne : ds ≠ []) (hds : ∀ c ∈ ds, Hex.isDigit c = true) :
    (ds ++ text).dropWhile (· == ' ') = ds ++ text := by
  rcases ds with _ | ⟨c, ds⟩
  · exact absurd rfl hne
  · refine List.dropWhile_cons_of_neg ?_
    intro hc
    obtain rfl := eq_of_beq hc
    exact absurd (hds ' ' List.mem_cons_self) (by decide)

theorem readLine_mifLine (width address value : Nat) :
    readLine (mifLine width address value) = some ⟨Hex.pad width (Hex.digits address), value⟩ := by
  have hline : (mifLine width address value).dropWhile (· == ' ') =
      Hex.pad width (Hex.digits address) ++ ' ' :: ':' :: ' ' :: (Hex.pad 8 (Hex.digits value) ++ [';']) := by
    have htext : mifLine width address value = [' ', ' ', ' ', ' '] ++
        (Hex.pad width (Hex.digits address) ++ ' ' :: ':' :: ' ' :: (Hex.pad 8 (Hex.digits value) ++ [';'])) := by
      simp [mifLine]
    rw [htext, List.dropWhile_append_of_pos (by simp), dropWhile_blank pad_ne_nil isDigit_pad]
  have hblank : ∀ text, Ends (' ' :: text) := ends_cons (by decide)
  have hsemi : Ends [';'] := ends_cons (by decide) []
  simp only [readLine, hline, dropWhile_digits isDigit_pad (hblank _), takeWhile_digits isDigit_pad (hblank _),
    dropWhile_digits isDigit_pad hsemi, takeWhile_digits isDigit_pad hsemi, Hex.value_pad, Hex.value_digits]
  exact if_pos ⟨pad_ne_nil, trivial⟩

/-- Lines without a line feed come back from the text. -/
theorem splitOn_lines {lines : List (List Char)} (h : ∀ line ∈ lines, '\n' ∉ line) :
    (lines.flatMap fun line => line ++ ['\n']).splitOn '\n' = lines ++ [[]] := by
  have hjoin : (lines.flatMap fun line => line ++ ['\n']) = ['\n'].intercalate (lines ++ [[]]) := by
    clear h
    induction lines with
    | nil => rfl
    | cons line lines ih =>
      rw [List.flatMap_cons, ih, List.cons_append, List.intercalate_cons_of_ne_nil (by simp)]
  rw [hjoin]
  refine List.splitOn_intercalate '\n' ?_ (by simp)
  intro line hline
  rcases List.mem_append.1 hline with hline | hline
  · exact h line hline
  · obtain rfl := List.mem_singleton.1 hline
    exact List.not_mem_nil

theorem mapM_map {α β γ : Type} {f : α → β} {g : β → Option γ} {e : α → γ} (h : ∀ x, g (f x) = some (e x))
    (l : List α) : (l.map f).mapM g = some (l.map e) := by
  induction l with
  | nil => rfl
  | cons x l ih => simp [h, ih]

theorem no_feed (words : Words) (depth : Nat) : ∀ line ∈ mifLines words depth, '\n' ∉ line := by
  have hdigits : ∀ w n, '\n' ∉ Hex.pad w (Hex.digits n) := by
    intro w n h
    exact absurd (isDigit_pad _ h) (by decide)
  have hdepth : '\n' ∉ Nat.toDigits 10 depth := by
    intro h
    exact absurd (Nat.isDigit_of_mem_toDigits (by decide) (by decide) h) (by decide)
  intro line hline
  simp only [mifLines, mifHeader, List.mem_append, List.mem_map, List.mem_cons, List.not_mem_nil, or_false] at hline
  rcases hline with ((rfl | rfl | rfl | rfl | rfl | rfl) | ⟨address, -, rfl⟩) | rfl
  · decide
  · simp [hdepth]
  · decide
  · decide
  · decide
  · decide
  · simp [mifLine, hdigits]
  · decide

theorem takeWhile_lines {before after : List (List Char)} {line : List Char} (h : ∀ l ∈ before, l ≠ line) :
    (before ++ line :: after).takeWhile (· != line) = before ∧
      (before ++ line :: after).dropWhile (· != line) = line :: after := by
  have hpos : ∀ l ∈ before, (l != line) = true := fun l hl => bne_iff_ne.2 (h l hl)
  rw [List.takeWhile_append_of_pos hpos, List.dropWhile_append_of_pos hpos]
  simp

theorem readMif_mifText (words : Words) (depth : Nat) :
    readMif (mifText words depth) = some ((List.range depth).map fun address =>
      ⟨Hex.pad (addressWidth depth) (Hex.digits address), (words.lookup address).getD 0⟩) := by
  have hlines : (mifText words depth).splitOn '\n' = (mifHeader depth).dropLast ++ "CONTENT BEGIN".toList ::
      ((List.range depth).map (fun address => mifLine (addressWidth depth) address ((words.lookup address).getD 0)) ++
        "END;".toList :: [[]]) := by
    rw [mifText, splitOn_lines (no_feed words depth)]
    simp [mifLines, mifHeader]
  have hheader : ∀ l ∈ (mifHeader depth).dropLast, l ≠ "CONTENT BEGIN".toList := by
    simp [mifHeader]
  have hcontent : ∀ l ∈ (List.range depth).map
      (fun address => mifLine (addressWidth depth) address ((words.lookup address).getD 0)), l ≠ "END;".toList := by
    simp [mifLine]
  simp only [readMif, hlines, takeWhile_lines hheader, List.drop_one, List.tail_cons, takeWhile_lines hcontent]
  rw [if_pos (by simp [mifHeader])]
  exact mapM_map (fun address => readLine_mifLine ..) _

/-- A word at or past the depth leaves the file alone. Otherwise the file reads back as the addresses below the
depth in their order, in fields that are wide enough, each with the last word assigned to it or 0. -/
theorem vmem_to_mif (v : Vmem) (depth : Nat) (file : Option (List Char)) :
    ((∃ p ∈ assignments v.tokens, depth ≤ p.1) →
      writeMif file (parseVmem v.text) depth =
        (.error s!"VMEM address exceeds configured MIF depth ({depth} words)", file)) ∧
    ((∀ p ∈ assignments v.tokens, p.1 < depth) →
      ∃ text content, writeMif file (parseVmem v.text) depth = (.ok (), some text) ∧ readMif text = some content ∧
        content.map (fun line => Hex.value line.address) = List.range depth ∧
        depth - 1 < 16 ^ addressWidth depth ∧ (∀ line ∈ content, line.address.length = addressWidth depth) ∧
        ∀ line ∈ content, line.value = (lastWord v.tokens (Hex.value line.address)).getD 0) := by
  obtain ⟨hlookup, hmem⟩ := parsed_parseVmem v
  have hany : ((parseVmem v.text).keys.any fun address => depth ≤ address) = true ↔
      ∃ p ∈ assignments v.tokens, depth ≤ p.1 := by
    rw [List.any_eq_true]
    constructor
    · rintro ⟨a, ha, hle⟩
      obtain ⟨w, hw⟩ := (hmem a).1 (AList.mem_keys.2 ha)
      exact ⟨(a, w), hw, of_decide_eq_true hle⟩
    · rintro ⟨⟨a, w⟩, hw, hle⟩
      exact ⟨a, AList.mem_keys.1 ((hmem a).2 ⟨w, hw⟩), decide_eq_true hle⟩
  constructor
  · intro hout
    exact if_pos (hany.2 hout)
  · intro hin
    have hnone : ¬((parseVmem v.text).keys.any fun address => depth ≤ address) = true := by
      rw [hany]
      rintro ⟨p, hp, hle⟩
      exact absurd (hin p hp) (Nat.not_lt.2 hle)
    refine ⟨_, _, if_neg hnone, readMif_mifText .., ?_, ?_, ?_, ?_⟩
    · simp [Function.comp_def, Hex.value_digits]
    · rcases depth with _ | depth
      · exact Nat.pow_pos (by decide)
      · exact lt_addressWidth (Nat.lt_succ_self depth)
    · intro line hline
      obtain ⟨a, ha, rfl⟩ := List.mem_map.1 hline
      exact Hex.length_pad_digits (one_le_addressWidth depth) (lt_addressWidth (List.mem_range.1 ha))
    · intro line hline
      obtain ⟨a, -, rfl⟩ := List.mem_map.1 hline
      rw [Hex.value_pad, Hex.value_digits, ← hlookup]

end PenPlotter
