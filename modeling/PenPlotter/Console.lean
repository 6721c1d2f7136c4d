import PenPlotter.CText
import PenPlotter.Framing
import PenPlotter.Pairing

/-!
# The console of the demo (`sw/demo.c`, `dv/verilator/sim_main.cpp`)

`uart_putnumber` of the demo prints every `int32_t` but the least one in decimal, and it is only there that
it leaves the range of an `int` (`uart_putnumber_spec`). In each pass of its loop `main` prints the positions, if the
timer has struck, and the byte that it has received, or that there was none. The simulator shows the last 32 of
these lines, without carriage returns, and the positions among them can be read off it (`console_output`).
-/

namespace PenPlotter

open CText

namespace Demo

/-- The loop that looks for the first digit; `none` where the divisor is no `int` any more. -/
def findDivisor (num divisor : Nat) : Option Nat :=
  if 10 ≤ num / divisor then
    if divisor * 10 < 2 ^ 31 then findDivisor num (divisor * 10) else none
  else some divisor
termination_by num / divisor
decreasing_by
  rw [← Nat.div_div_eq_div_mul]
  omega

/-- The loop over the digits. -/
def putDigits (num divisor : Nat) : List Char :=
  if 0 < divisor then Char.ofNat (num / divisor + '0'.toNat) :: putDigits (num % divisor) (divisor / 10) else []
termination_by divisor
decreasing_by omega

/-- The characters that are sent, or `none` where an `int` overflows. -/
def uartPutnumber (num : BitVec 32) : Option (List Char) :=
  if num.toInt < 0 then
    if -num.toInt < 2 ^ 31 then
      (findDivisor num.toInt.natAbs 1).map fun divisor => '-' :: putDigits num.toInt.natAbs divisor
    else none
  else (findDivisor num.toInt.natAbs 1).map fun divisor => putDigits num.toInt.natAbs divisor

variable {num k : Nat}

/-- The divisor is the power of ten of the first digit. -/
theorem findDivisor_spec (hnum : num < 2 ^ 31) (j : Nat) (hj : j = 0 ∨ 10 ^ j ≤ num) :
    ∃ k, findDivisor num (10 ^ j) = some (10 ^ k) ∧ (k = 0 ∨ 10 ^ k ≤ num) ∧ num < 10 ^ (k + 1) := by
  induction hm : num / 10 ^ j using Nat.strong_induction_on generalizing j with
  | _ m ih =>
    have hpos : 0 < 10 ^ j := Nat.pow_pos (by decide)
    rw [findDivisor]
    split
    next hmore =>
      have hle : 10 ^ (j + 1) ≤ num := by
        rw [pow_succ, Nat.mul_comm]
        exact (Nat.le_div_iff_mul_le hpos).1 hmore
      have hdiv : num / 10 ^ (j + 1) < m := by
        rw [pow_succ, ← Nat.div_div_eq_div_mul, hm]
        omega
      rw [← pow_succ, if_pos (Nat.lt_of_le_of_lt hle hnum)]
      exact ih _ hdiv (j + 1) (.inr hle) rfl
    next hlast =>
      refine ⟨j, rfl, hj, ?_⟩
      rw [pow_succ, Nat.mul_comm]
      exact (Nat.div_lt_iff_lt_mul hpos).1 (Nat.not_le.1 hlast)

theorem digit_eq {d : Nat} (hd : d < 10) : Char.ofNat (d + '0'.toNat) = d.digitChar := by
  interval_cases d <;> rfl

theorem putDigits_zero : putDigits num 0 = [] := by
  rw [putDigits]
  rfl

theorem putDigits_pow (hnum : num < 10 ^ (k + 1)) :
    putDigits num (10 ^ k) = (num / 10 ^ k).digitChar :: putDigits (num % 10 ^ k) (10 ^ k / 10) := by
  have hpos : 0 < 10 ^ k := Nat.pow_pos (by decide)
  rw [putDigits, if_pos hpos, digit_eq]
  rw [Nat.div_lt_iff_lt_mul hpos, Nat.mul_comm, ← pow_succ]
  exact hnum

theorem putDigits_one (hnum : num < 10) : putDigits num 1 = [num.digitChar] := by
  have hpow : putDigits num (10 ^ 0) = _ := putDigits_pow hnum
  rwa [pow_zero, Nat.div_one, Nat.div_eq_of_lt (by decide), putDigits_zero] at hpow

/-- The last digit is printed last. -/
theorem putDigits_succ (hnum : num < 10 ^ (k + 2)) :
    putDigits num (10 ^ (k + 1)) = putDigits (num / 10) (10 ^ k) ++ [(num % 10).digitChar] := by
  have htens (j : Nat) : 10 ^ (j + 1) / 10 = 10 ^ j := by
    rw [pow_succ, Nat.mul_div_cancel _ (by decide)]
  induction k generalizing num with
  | zero =>
    rw [putDigits_pow hnum, htens, pow_zero, pow_one, putDigits_one (Nat.mod_lt _ (by decide)),
      putDigits_one (by omega)]
    rfl
  | succ k ih =>
    have hmod : num % 10 ^ (k + 2) < 10 ^ (k + 2) := Nat.mod_lt _ (Nat.pow_pos (by decide))
    have hquot : num / 10 < 10 ^ (k + 2) := by
      rw [Nat.div_lt_iff_lt_mul (by decide), ← pow_succ]
      exact hnum
    have hfirst : num / 10 ^ (k + 2) = num / 10 / 10 ^ (k + 1) := by
      rw [Nat.div_div_eq_div_mul, pow_succ', Nat.mul_comm]
    have hmiddle : num % 10 ^ (k + 2) / 10 = num / 10 % 10 ^ (k + 1) := by
      rw [pow_succ', Nat.mod_mul_right_div_self]
    have hlast : num % 10 ^ (k + 2) % 10 = num % 10 := by
      rw [pow_succ', Nat.mod_mul_right_mod]
    rw [putDigits_pow hnum, htens, ih hmod, hfirst, hmiddle, hlast, putDigits_pow hquot, htens]
    rfl

theorem putDigits_eq (hnum : num < 10 ^ (k + 1)) (hfirst : k = 0 ∨ 10 ^ k ≤ num) :
    putDigits num (10 ^ k) = Nat.toDigits 10 num := by
  induction k generalizing num with
  | zero =>
    rw [pow_zero, putDigits_one (by simpa using hnum), Nat.toDigits_of_lt_base (by simpa using hnum)]
  | succ k ih =>
    have hle : 10 ^ (k + 1) ≤ num := hfirst.resolve_left (Nat.succ_ne_zero k)
    have hten : 10 ≤ num := Nat.le_trans (Nat.le_self_pow (Nat.succ_ne_zero k) 10) hle
    have hquot : num / 10 < 10 ^ (k + 1) := by
      rw [Nat.div_lt_iff_lt_mul (by decide), ← pow_succ]
      exact hnum
    have hquotle : 10 ^ k ≤ num / 10 := by
      rw [Nat.le_div_iff_mul_le (by decide), ← pow_succ]
      exact hle
    rw [putDigits_succ hnum, ih hquot (.inr hquotle), ← Nat.toDigits_of_base_le (by decide) hten]

theorem digits_printed (hnum : num < 2 ^ 31) :
    (findDivisor num 1).map (putDigits num) = some (Nat.toDigits 10 num) := by
  obtain ⟨k, hdivisor, hfirst, hlt⟩ := findDivisor_spec hnum 0 (.inl rfl)
  rw [pow_zero] at hdivisor
  rw [hdivisor, Option.map_some, putDigits_eq hlt hfirst]

theorem uartPutnumber_eq (num : BitVec 32) :
    uartPutnumber num = if num = BitVec.intMin 32 then none else some (decimal num.toInt) := by
  have hlo := BitVec.le_toInt num
  have hhi := BitVec.toInt_lt (x := num)
  have hmin : num = BitVec.intMin 32 ↔ num.toInt = -2 ^ 31 := by
    rw [← BitVec.toInt_inj]
    rfl
  unfold uartPutnumber decimal
  split
  next hneg =>
    by_cases hleast : num.toInt = -2 ^ 31
    · rw [if_pos (hmin.2 hleast), if_neg (by omega)]
    · have hdigits : (findDivisor num.toInt.natAbs 1).map (putDigits num.toInt.natAbs) = _ := digits_printed (by omega)
      rw [if_neg (mt hmin.1 hleast), if_pos (by omega)]
      obtain ⟨divisor, hdivisor, hput⟩ := Option.map_eq_some_iff.1 hdigits
      rw [hdivisor, Option.map_some, hput]
  next hpos =>
    rw [if_neg (fun h => by rw [hmin] at h; omega)]
    exact digits_printed (by omega)

/-- What `main` prints of the positions when its timer has struck. -/
def report (x y : BitVec 32) : Option (List Char) := do
  let xText ← uartPutnumber x
  let yText ← uartPutnumber y
  return ['X', ':', ' '] ++ xText ++ [',', ' ', 'Y', ':', ' '] ++ yText ++ ['\r', '\n']

/-- What `main` finds in a pass of its loop. -/
structure Pass where
  /-- The positions, if `print` is set. -/
  print : Option (BitVec 32 × BitVec 32)
  /-- The byte in RX, if there is one. -/
  rx : Option (BitVec 8)

/-- What `main` prints of the byte in RX. -/
def received : Option (BitVec 8) → List Char
  | some c => [Char.ofNat c.toNat, '\n']
  | none => ['n', 'o', 't', 'h', 'i', 'n', 'g', '\n']

/-- A pass of the loop. -/
def pass (i : Pass) : Option (List Char) := do
  let reported ← i.print.elim (some []) fun p => report p.1 p.2
  return reported ++ received i.rx

/-- `Hello World!`. -/
def hello : List Char := ['H', 'e', 'l', 'l', 'o', ' ', 'W', 'o', 'r', 'l', 'd', '!']

/-- What `main` prints, to the end of a pass. -/
def main (passes : List Pass) : Option (List Char) := do
  let texts ← passes.mapM pass
  return hello ++ ['\r', '\n'] ++ texts.flatten

end Demo

/-- The demo prints every number but the least one in decimal, and there its negation overflows. -/
theorem uart_putnumber_spec (num : BitVec 32) :
    Demo.uartPutnumber num = (if num = BitVec.intMin 32 then none else some (decimal num.toInt)) ∧
      ∀ text ∈ Demo.uartPutnumber num, CText.atoi text = num.toInt := by
  refine ⟨Demo.uartPutnumber_eq num, ?_⟩
  intro text htext
  rw [Demo.uartPutnumber_eq] at htext
  split at htext
  next => cases htext
  next =>
    cases htext
    have hvalue : CText.atoi (decimal num.toInt ++ []) = num.toInt := atoi_decimal _ (by simp)
    rwa [List.append_nil] at hvalue

/-! ### The console -/

/-- The lines and the line in progress, of a simulation that is not piped. -/
structure Console where
  buf : List (List Char)
  uartTmp : List Char

namespace Console

/-- The callback for a character that the UART decoder gives. -/
def output (s : Console) (c : Char) : Console :=
  if c = '\n' then { buf := Pairing.push 32 s.buf s.uartTmp, uartTmp := [] }
  else if c = '\r' then s
  else { s with uartTmp := s.uartTmp ++ [c] }

def shown (text : List Char) : Console := text.foldl output ⟨[], []⟩

/-- A line is complete with its newline. -/
def lineDone (line : List Char) : Bool := line.getLast? = some '\n'

/-- The lines of a text without its carriage returns, and what follows the last. -/
def lines (text : List Char) : List (List Char) × List Char :=
  let framed := Framing.frames lineDone (text.filter (· ≠ '\r'))
  (framed.1.map List.dropLast, framed.2)

theorem lines_concat (text : List Char) (c : Char) : lines (text ++ [c]) =
    if c = '\n' then ((lines text).1 ++ [(lines text).2], [])
    else if c = '\r' then lines text
    else ((lines text).1, (lines text).2 ++ [c]) := by
  unfold lines
  rw [List.filter_append]
  by_cases hreturn : c = '\r'
  · subst hreturn
    simp
  · have hkept : [c].filter (· ≠ '\r') = [c] := by simp [hreturn]
    rw [hkept, Framing.frames_concat, Framing.feed]
    by_cases hnewline : c = '\n'
    · subst hnewline
      simp [lineDone]
    · simp [lineDone, hnewline, hreturn]

theorem shown_eq (text : List Char) : shown text = ⟨Pairing.recent 32 (lines text).1, (lines text).2⟩ := by
  induction text using List.reverseRecOn with
  | nil => rfl
  | append_singleton text c ih =>
    have hstep : shown (text ++ [c]) = (shown text).output c := List.foldl_concat ..
    rw [hstep, ih, lines_concat, output]
    split
    · rw [Pairing.push_recent]
    · split <;> rfl

theorem lines_append {text : List Char} (htext : (lines text).2 = []) (more : List Char) :
    lines (text ++ more) = ((lines text).1 ++ (lines more).1, (lines more).2) := by
  induction more using List.reverseRecOn with
  | nil =>
    rw [List.append_nil]
    exact Prod.ext (List.append_nil _).symm htext
  | append_singleton more c ih =>
    rw [← List.append_assoc, lines_concat, lines_concat, ih]
    split
    · simp
    · split <;> rfl

theorem lines_eq {line : List Char} (hline : ∀ c ∈ line, c ≠ '\n' ∧ c ≠ '\r') : lines line = ([], line) := by
  induction line using List.reverseRecOn with
  | nil => rfl
  | append_singleton line c ih =>
    obtain ⟨hnewline, hreturn⟩ := hline c (by simp)
    rw [lines_concat, if_neg hnewline, if_neg hreturn, ih fun d hd => hline d (by simp [hd])]

theorem lines_line {line : List Char} (hline : ∀ c ∈ line, c ≠ '\n' ∧ c ≠ '\r') :
    lines (line ++ ['\r', '\n']) = ([line], []) := by
  have hsplit : line ++ ['\r', '\n'] = line ++ ['\r'] ++ ['\n'] := by simp
  rw [hsplit, lines_concat, if_pos rfl, lines_concat, if_neg (by decide), if_pos rfl, lines_eq hline]
  rfl

/-- The line of a report. -/
def positionLine (p : BitVec 32 × BitVec 32) : List Char :=
  ['X', ':', ' '] ++ decimal p.1.toInt ++ [',', ' ', 'Y', ':', ' '] ++ decimal p.2.toInt

/-- The numbers behind the labels of a line. -/
def readPosition (line : List Char) : ℤ × ℤ :=
  (CText.atoi (line.drop 2), CText.atoi ((line.dropWhile (· ≠ 'Y')).drop 2))

theorem report_eq {p : BitVec 32 × BitVec 32} (hx : p.1 ≠ BitVec.intMin 32) (hy : p.2 ≠ BitVec.intMin 32) :
    Demo.report p.1 p.2 = some (positionLine p ++ ['\r', '\n']) := by
  simp [Demo.report, Demo.uartPutnumber_eq, hx, hy, positionLine]

theorem of_mem_decimal {z : ℤ} {c d : Char} (h : c ∈ decimal z) (hd : d ≠ '-' ∧ d.isDigit = false) : c ≠ d := by
  rintro rfl
  rcases mem_decimal h with hsign | hdigit
  · exact hd.1 hsign
  · rw [hd.2] at hdigit
    cases hdigit

theorem positionLine_chars (p : BitVec 32 × BitVec 32) : ∀ c ∈ positionLine p, c ≠ '\n' ∧ c ≠ '\r' := by
  intro c hc
  simp only [positionLine, List.mem_append] at hc
  rcases hc with ((hc | hc) | hc) | hc
  · fin_cases hc <;> decide
  · exact ⟨of_mem_decimal hc (by decide), of_mem_decimal hc (by decide)⟩
  · fin_cases hc <;> decide
  · exact ⟨of_mem_decimal hc (by decide), of_mem_decimal hc (by decide)⟩

theorem readPosition_line (p : BitVec 32 × BitVec 32) : readPosition (positionLine p) = (p.1.toInt, p.2.toInt) := by
  have hx : CText.atoi ((positionLine p).drop 2) = p.1.toInt := by
    have hvalue : CText.atoi (decimal p.1.toInt ++ [',', ' ', 'Y', ':', ' '] ++ decimal p.2.toInt) = p.1.toInt := by
      rw [List.append_assoc]
      exact atoi_decimal _ (by simp)
    exact (atoi_space rfl _).trans hvalue
  have hlabel : ∀ c ∈ ['X', ':', ' '] ++ decimal p.1.toInt ++ [',', ' '], decide (c ≠ 'Y') = true := by
    intro c hc
    simp only [List.mem_append] at hc
    rcases hc with (hc | hc) | hc
    · fin_cases hc <;> simp
    · simpa using of_mem_decimal hc (by decide)
    · fin_cases hc <;> simp
  have hdrop : (positionLine p).dropWhile (· ≠ 'Y') = 'Y' :: ':' :: ' ' :: decimal p.2.toInt := by
    have hsplit : positionLine p =
        ['X', ':', ' '] ++ decimal p.1.toInt ++ [',', ' '] ++ 'Y' :: ':' :: ' ' :: decimal p.2.toInt := by
      simp [positionLine]
    rw [hsplit, List.dropWhile_append_of_pos hlabel]
    rfl
  have hy : CText.atoi (((positionLine p).dropWhile (· ≠ 'Y')).drop 2) = p.2.toInt := by
    have hvalue : CText.atoi (decimal p.2.toInt ++ []) = p.2.toInt := atoi_decimal _ (by simp)
    rw [List.append_nil] at hvalue
    rw [hdrop]
    exact (atoi_space rfl _).trans hvalue
  exact Prod.ext hx hy

/-- The lines of the byte in RX. -/
def receivedLines : Option (BitVec 8) → List (List Char)
  | some c =>
    if Char.ofNat c.toNat = '\n' then [[], []]
    else if Char.ofNat c.toNat = '\r' then [[]]
    else [[Char.ofNat c.toNat]]
  | none => [['n', 'o', 't', 'h', 'i', 'n', 'g']]

/-- The lines of a pass of the loop. -/
def passLines (i : Demo.Pass) : List (List Char) := (i.print.map positionLine).toList ++ receivedLines i.rx

theorem lines_received (rx : Option (BitVec 8)) : lines (Demo.received rx) = (receivedLines rx, []) := by
  cases rx with
  | none => decide
  | some c =>
    have hsplit : Demo.received (some c) = [] ++ [Char.ofNat c.toNat] ++ ['\n'] := rfl
    rw [hsplit, lines_concat, if_pos rfl, lines_concat, receivedLines]
    split
    · rfl
    · split <;> rfl

/-- No position of the pass is the least number. -/
def Printable (i : Demo.Pass) : Prop := ∀ p ∈ i.print, p.1 ≠ BitVec.intMin 32 ∧ p.2 ≠ BitVec.intMin 32

theorem pass_eq {i : Demo.Pass} (hi : Printable i) :
    ∃ text, Demo.pass i = some text ∧ lines text = (passLines i, []) := by
  obtain ⟨print, rx⟩ := i
  cases print with
  | none => exact ⟨Demo.received rx, rfl, lines_received rx⟩
  | some p =>
    obtain ⟨hx, hy⟩ := hi p rfl
    have hreport := lines_line (positionLine_chars p)
    refine ⟨positionLine p ++ ['\r', '\n'] ++ Demo.received rx, ?_, ?_⟩
    · rw [Demo.pass, Option.elim, report_eq hx hy]
      rfl
    · rw [lines_append (by rw [hreport]), hreport, lines_received]
      rfl

theorem main_eq {passes : List Demo.Pass} (hpasses : ∀ i ∈ passes, Printable i) :
    ∃ text, Demo.main passes = some text ∧ lines text = (Demo.hello :: passes.flatMap passLines, []) := by
  have htexts : ∃ texts, passes.mapM Demo.pass = some texts ∧
      lines texts.flatten = (passes.flatMap passLines, []) := by
    induction passes with
    | nil => exact ⟨[], rfl, rfl⟩
    | cons i passes ih =>
      obtain ⟨texts, htexts, hlines⟩ := ih fun j hj => hpasses j (by simp [hj])
      obtain ⟨text, htext, hline⟩ := pass_eq (hpasses i (by simp))
      refine ⟨text :: texts, by rw [List.mapM_cons, htext, htexts]; rfl, ?_⟩
      rw [List.flatten_cons, lines_append (by rw [hline]), hline, hlines, List.flatMap_cons]
  obtain ⟨texts, htexts, hlines⟩ := htexts
  have hhello : lines (Demo.hello ++ ['\r', '\n']) = ([Demo.hello], []) := lines_line (by simp [Demo.hello])
  refine ⟨Demo.hello ++ ['\r', '\n'] ++ texts.flatten, by rw [Demo.main, htexts]; rfl, ?_⟩
  rw [lines_append (by rw [hhello]), hhello, hlines]
  rfl

/-- The line begins as a report does. -/
def isReport (line : List Char) : Bool := ['X', ':', ' '].isPrefixOf line

theorem filter_passLines (i : Demo.Pass) : (passLines i).filter isReport = (i.print.map positionLine).toList := by
  have hreceived : (receivedLines i.rx).filter isReport = [] := by
    unfold receivedLines
    split
    · split
      · rfl
      · split
        · rfl
        · simp [isReport]
    · rfl
  rw [passLines, List.filter_append, hreceived, List.append_nil]
  cases i.print <;> rfl

/-- The reports among the lines are the positions that were printed. -/
theorem reports_read (passes : List Demo.Pass) :
    ((Demo.hello :: passes.flatMap passLines).filter isReport).map readPosition =
      (passes.filterMap Demo.Pass.print).map fun p => (p.1.toInt, p.2.toInt) := by
  rw [List.filter_cons_of_neg (by decide)]
  induction passes with
  | nil => rfl
  | cons i passes ih =>
    rw [List.flatMap_cons, List.filter_append, filter_passLines, List.map_append, ih]
    obtain ⟨print, rx⟩ := i
    cases print with
    | none => rfl
    | some p => simp [readPosition_line]

end Console

open Console in
/-- The console shows the last 32 lines that the demo has printed, and the reports among them, read back, are the
last positions that it has reported. -/
theorem console_output (passes : List Demo.Pass) (hpasses : ∀ i ∈ passes, Printable i) :
    ∃ text, Demo.main passes = some text ∧
      shown text = ⟨Pairing.recent 32 (Demo.hello :: passes.flatMap passLines), []⟩ ∧
      ((shown text).buf.filter isReport).map readPosition <:+
        (passes.filterMap Demo.Pass.print).map fun p => (p.1.toInt, p.2.toInt) := by
  obtain ⟨text, htext, hlines⟩ := main_eq hpasses
  have hshown : shown text = ⟨Pairing.recent 32 (Demo.hello :: passes.flatMap passLines), []⟩ := by
    rw [shown_eq, hlines]
  refine ⟨text, htext, hshown, ?_⟩
  rw [← reports_read, hshown]
  exact ((List.drop_suffix _ _).filter isReport).map readPosition

/-- Two reports, a received newline and a received `A`. -/
def fourPasses : List Demo.Pass := [⟨some (5, -7), none⟩, ⟨none, some 0x0A⟩, ⟨some (100, 0), some 0x41⟩, ⟨none, none⟩]

open Console in
theorem console_output_fourPasses : ∃ text, Demo.main fourPasses = some text ∧
    shown text = ⟨Pairing.recent 32 (Demo.hello :: fourPasses.flatMap passLines), []⟩ ∧
      ((shown text).buf.filter isReport).map readPosition <:+ [(5, -7), (100, 0)] := by
  refine console_output fourPasses fun i hi => ?_
  simp only [fourPasses, List.mem_cons, List.not_mem_nil, or_false] at hi
  rcases hi with rfl | rfl | rfl | rfl <;> intro p hp <;> cases hp <;> decide

end PenPlotter
