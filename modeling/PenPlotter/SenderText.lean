import PenPlotter.CText
import PenPlotter.HostSettings

/-!
# The commands typed into `ppcsender.c`

The parent process of `ppcsender.c` reads lines of up to 127 characters from the terminal, which stays open, and
sends a frame for each command it knows. Whatever is typed, and also when a missing word makes the program crash,
what it has sent are whole frames, so the plotter is never left inside one (`sender_in_sync`); and the commands
without a fraction that are typed are the ones that the plotter decodes (`sender_typed`). The values of `atof` are a
parameter.
-/

namespace PenPlotter

open CText

/-- How the program stands when it has read its input: it waits for more, was told to quit, or has passed a null
pointer to the C library. -/
inductive Outcome
  | waiting
  | quit
  | crashed
deriving DecidableEq

namespace PpcSender

inductive Keyword
  | quit
  | sts
  | rst
  | setx
  | sety
  | setKp
  | setKd
  | setRd
  | servo
  | go
  | str
deriving DecidableEq

def Keyword.name : Keyword → List Char
  | quit => ['q', 'u', 'i', 't']
  | sts => ['s', 't', 's']
  | rst => ['r', 's', 't']
  | setx => ['s', 'e', 't', 'x']
  | sety => ['s', 'e', 't', 'y']
  | setKp => ['s', 'e', 't', 'K', 'p']
  | setKd => ['s', 'e', 't', 'K', 'd']
  | setRd => ['s', 'e', 't', 'R', 'd']
  | servo => ['s', 'e', 'r', 'v', 'o']
  | go => ['g', 'o']
  | str => ['s', 't', 'r']

/-- The comparisons of the first word, in order. -/
def keyword (tok : List Char) : Option Keyword :=
  [.quit, .sts, .rst, .setx, .sety, .setKp, .setKd, .setRd, .servo, .go, .str].find? fun k : Keyword => tok = k.name

section

variable (c : Undefined) (atof : List Char → ℚ)

/-- `strtok(NULL, " ")`. -/
def nextWord (rest : List Char) : Option (List Char × List Char) := strtok (· = ' ') rest

def setU32 (loc : BitVec 8) (rest : List Char) : Option (List (BitVec 8) × List Char) :=
  (nextWord rest).map fun t => (sendSetCommandU32 loc (PenPlotter.atoi c (CText.atoi t.1)), t.2)

def setAngle (loc : BitVec 8) (rest : List Char) : Option (List (BitVec 8) × List Char) :=
  (nextWord rest).map fun t => (sendSetCommandAngle c loc (atof t.1), t.2)

def setQ16 (loc : BitVec 8) (rest : List Char) : Option (List (BitVec 8) × List Char) :=
  (nextWord rest).map fun t => (sendSetCommandQ16 c loc (atof t.1), t.2)

/-- A set command crashes without a word, before it has sent anything. -/
def only (r : Option (List (BitVec 8) × List Char)) : List (BitVec 8) × Option Outcome :=
  r.elim ([], some .crashed) fun p => (p.1, none)

/-- Two set commands, the first of which is sent even if the second crashes. -/
def goTo (rest : List Char) : List (BitVec 8) × Option Outcome :=
  match setU32 c 0 rest with
  | none => ([], some .crashed)
  | some (bytes, rest) =>
    match setU32 c 1 rest with
    | none => (bytes, some .crashed)
    | some (bytes', _) => (bytes ++ bytes', none)

/-- The answer to a first word, with the rest of the line. -/
def command (rest : List Char) : Keyword → List (BitVec 8) × Option Outcome
  | .quit => ([], some .quit)
  | .sts => ([0], none)
  | .rst => ([1], none)
  | .setx => only (setU32 c 0 rest)
  | .sety => only (setU32 c 1 rest)
  | .setKp => only (setQ16 c atof 2 rest)
  | .setKd => only (setQ16 c atof 3 rest)
  | .setRd => only (setU32 c 4 rest)
  | .servo => only (setAngle c atof 5 rest)
  | .go => goTo c rest
  | .str => ([4], none)

/-- What is sent for a line, and the end of the program if it ends there. -/
def line (buffer : List Char) : List (BitVec 8) × Option Outcome :=
  match strtok (fun x => x = ' ' || x = '\n') buffer with
  | none => ([], some .crashed)
  | some (tok, rest) => (keyword tok).elim ([], none) (command c atof rest)

/-- What the program sends for what is typed. The string in the buffer ends at a null character. -/
def sender (input : List Char) : List (BitVec 8) × Outcome :=
  match _h : fgets 127 input with
  | none => ([], .waiting)
  | some (buffer, input') =>
    match line c atof (buffer.takeWhile (· ≠ '\x00')) with
    | (bytes, some outcome) => (bytes, outcome)
    | (bytes, none) => (bytes ++ (sender input').1, (sender input').2)
termination_by input.length
decreasing_by
  all_goals
    obtain ⟨hlen, hne⟩ := fgets_length _h
    have hpos := List.length_pos_iff.2 (hne (by decide))
    omega

variable {c atof}

/-- The bytes are the frames of commands. -/
def Framed (bytes : List (BitVec 8)) : Prop := ∃ cmds : List Command, bytes = cmds.flatMap Command.encode

theorem Framed.nil : Framed [] := ⟨[], rfl⟩

theorem Framed.one (cmd : Command) : Framed cmd.encode := ⟨[cmd], (List.flatMap_singleton ..).symm⟩

theorem Framed.append {bytes bytes' : List (BitVec 8)} (h : Framed bytes) (h' : Framed bytes') :
    Framed (bytes ++ bytes') := by
  obtain ⟨cmds, rfl⟩ := h
  obtain ⟨cmds', rfl⟩ := h'
  exact ⟨cmds ++ cmds', List.flatMap_append.symm⟩

theorem setU32_framed {loc : BitVec 8} {rest : List Char} {r : List (BitVec 8) × List Char}
    (h : setU32 c loc rest = some r) : Framed r.1 := by
  obtain ⟨t, -, rfl⟩ := Option.map_eq_some_iff.1 h
  exact .one (.set loc _)

theorem only_framed {r : Option (List (BitVec 8) × List Char)} (h : ∀ p, r = some p → Framed p.1) :
    Framed (only r).1 := by
  cases r with
  | none => exact .nil
  | some p => exact h p rfl

theorem goTo_framed (rest : List Char) : Framed (goTo c rest).1 := by
  unfold goTo
  split
  next => exact .nil
  next bytes rest' hx =>
    have hfirst : Framed bytes := setU32_framed hx
    split
    next => exact hfirst
    next bytes' _ hy => exact hfirst.append (setU32_framed hy)

theorem command_framed (rest : List Char) (k : Keyword) : Framed (command c atof rest k).1 := by
  cases k with
  | quit => exact .nil
  | sts => exact .one .sts
  | rst => exact .one .rst
  | setx | sety | setRd => exact only_framed fun p hp => setU32_framed hp
  | setKp | setKd | servo =>
    refine only_framed fun p hp => ?_
    obtain ⟨t, -, rfl⟩ := Option.map_eq_some_iff.1 hp
    exact .one (.set _ _)
  | go => exact goTo_framed rest
  | str => exact .one .stream

variable (c atof) in
theorem line_framed (buffer : List Char) : Framed (line c atof buffer).1 := by
  unfold line
  split
  next => exact .nil
  next tok rest _ =>
    cases keyword tok with
    | none => exact .nil
    | some k => exact command_framed rest k

variable (c atof) in
theorem sender_framed (input : List Char) : Framed (sender c atof input).1 := by
  fun_induction sender c atof input with
  | case1 => exact .nil
  | case2 input buffer input' _ bytes outcome hline =>
    have hbytes := line_framed c atof (buffer.takeWhile (· ≠ '\x00'))
    rwa [hline] at hbytes
  | case3 input buffer input' _ bytes hline ih =>
    have hbytes := line_framed c atof (buffer.takeWhile (· ≠ '\x00'))
    rw [hline] at hbytes
    exact hbytes.append ih

end

end PpcSender

open PpcSender

/-- Whatever is typed, the plotter decodes the commands that were sent and is between two frames. -/
theorem sender_in_sync (c : Undefined) (atof : List Char → ℚ) (input : List Char) :
    ∃ cmds : List Command, Framing.frames commandDone (sender c atof input).1 = (cmds.map Command.encode, []) ∧
      (cmds.map Command.encode).map decodeFrame = cmds.map some := by
  obtain ⟨cmds, hcmds⟩ := sender_framed c atof input
  rw [hcmds]
  exact ⟨cmds, frames_encode cmds, decodeFrame_map_encode cmds⟩

/-! ### Typed commands -/

/-- The commands without a fraction, as they are typed. -/
inductive Typed
  | sts
  | rst
  | str
  | setx (x : BitVec 32)
  | sety (y : BitVec 32)
  | setRd (rate : BitVec 32)
  | go (x y : BitVec 32)

namespace Typed

/-- The first word and the rest of the line. -/
def words : Typed → Keyword × List (BitVec 32)
  | sts => (.sts, [])
  | rst => (.rst, [])
  | str => (.str, [])
  | setx x => (.setx, [x])
  | sety y => (.sety, [y])
  | setRd rate => (.setRd, [rate])
  | go x y => (.go, [x, y])

/-- A line without its end. -/
def text (t : Typed) : List Char := t.words.1.name ++ t.words.2.flatMap fun w => ' ' :: decimal w.toInt

def commands : Typed → List Command
  | sts => [.sts]
  | rst => [.rst]
  | str => [.stream]
  | setx x => [.set 0 x]
  | sety y => [.set 1 y]
  | setRd rate => [.set 4 rate]
  | go x y => [.set 0 x, .set 1 y]

end Typed

section

variable {c : Undefined} {atof : List Char → ℚ} {w : BitVec 32} {text : List Char}

theorem keyword_name (k : Keyword) : keyword k.name = some k := by
  cases k <;> rfl

theorem blank_of_mem_decimal {z : ℤ} {x : Char} (h : x ∈ decimal z) : x ≠ ' ' ∧ x ≠ '\n' ∧ x ≠ '\x00' := by
  rcases mem_decimal h with rfl | hdigit
  · decide
  · refine ⟨?_, ?_, ?_⟩ <;> (rintro rfl; revert hdigit; decide)

theorem length_decimal_toInt : (decimal w.toInt).length ≤ 11 := by
  have hlo := BitVec.le_toInt w
  have hhi := BitVec.toInt_lt (x := w)
  exact length_decimal_le (by decide) (by omega)

/-- The number that ends a line. -/
theorem setU32_last (loc : BitVec 8) :
    setU32 c loc (decimal w.toInt ++ ['\n']) = some ((Command.set loc w).encode, []) := by
  have htok : nextWord (decimal w.toInt ++ ['\n']) = some (decimal w.toInt ++ ['\n'], []) := by
    refine strtok_last ?_ (by simp)
    intro x hx
    rcases List.mem_append.1 hx with hx | hx
    · simpa using (blank_of_mem_decimal hx).1
    · obtain rfl := List.mem_singleton.1 hx
      rfl
  have hvalue : CText.atoi (decimal w.toInt ++ ['\n']) = w.toInt := atoi_decimal _ (by simp)
  rw [setU32, htok, Option.map_some, hvalue, atoi_toInt]
  rfl

/-- A number with another word behind it. -/
theorem setU32_word (loc : BitVec 8) :
    setU32 c loc (decimal w.toInt ++ ' ' :: text) = some ((Command.set loc w).encode, text) := by
  have htok : nextWord (decimal w.toInt ++ ' ' :: text) = some (decimal w.toInt, text) := by
    refine strtok_word ?_ (decimal_ne_nil _) (by decide)
    intro x hx
    simpa using (blank_of_mem_decimal hx).1
  have hvalue : CText.atoi (decimal w.toInt ++ []) = w.toInt := atoi_decimal _ (by simp)
  rw [List.append_nil] at hvalue
  rw [setU32, htok, Option.map_some, hvalue, atoi_toInt]
  rfl

/-- The first word of a line. -/
theorem line_keyword (k : Keyword) {d : Char} (hd : d = ' ' ∨ d = '\n') :
    line c atof (k.name ++ d :: text) = command c atof text k := by
  have htok : strtok (fun x => x = ' ' || x = '\n') (k.name ++ d :: text) = some (k.name, text) := by
    refine strtok_word ?_ ?_ ?_
    · cases k <;> simp [Keyword.name]
    · cases k <;> simp [Keyword.name]
    · rcases hd with rfl | rfl <;> decide
  rw [line, htok]
  simp only
  rw [keyword_name]
  rfl

theorem sender_line {input buffer input' : List Char} {bytes : List (BitVec 8)}
    (hbuffer : fgets 127 input = some (buffer, input')) (hnull : ∀ x ∈ buffer, x ≠ '\x00')
    (hline : line c atof buffer = (bytes, none)) :
    sender c atof input = (bytes ++ (sender c atof input').1, (sender c atof input').2) := by
  have hwhole : buffer.takeWhile (· ≠ '\x00') = buffer :=
    List.takeWhile_eq_self_iff.2 fun x hx => decide_eq_true (hnull x hx)
  rw [sender]
  split
  next hnone => simp [hnone] at hbuffer
  next hsome =>
    obtain ⟨rfl, rfl⟩ := Prod.mk.inj (Option.some.inj (hsome.symm.trans hbuffer))
    rw [hwhole, hline]

namespace Typed

variable (t : Typed)

theorem line_text : line c atof (t.text ++ ['\n']) = (t.commands.flatMap Command.encode, none) := by
  have hnumber (k : Keyword) (loc w : BitVec _) (hk : ∀ rest, command c atof rest k = only (setU32 c loc rest)) :
      line c atof (k.name ++ ' ' :: (decimal w.toInt ++ ['\n'])) = ((Command.set loc w).encode, none) := by
    rw [line_keyword k (.inl rfl), hk, setU32_last]
    rfl
  cases t with
  | sts => exact line_keyword .sts (.inr rfl)
  | rst => exact line_keyword .rst (.inr rfl)
  | str => exact line_keyword .str (.inr rfl)
  | setx x => simpa [text, words, commands] using hnumber .setx 0 x fun _ => rfl
  | sety y => simpa [text, words, commands] using hnumber .sety 1 y fun _ => rfl
  | setRd rate => simpa [text, words, commands] using hnumber .setRd 4 rate fun _ => rfl
  | go x y =>
    have hgo : line c atof (Keyword.go.name ++ ' ' :: (decimal x.toInt ++ ' ' :: (decimal y.toInt ++ ['\n']))) =
        ((Command.set 0 x).encode ++ (Command.set 1 y).encode, none) := by
      rw [line_keyword .go (.inl rfl), command, goTo, setU32_word]
      simp only
      rw [setU32_last]
    simpa [text, words, commands] using hgo

theorem length_text : t.text.length < 127 := by
  have hnumbers (l : List (BitVec 32)) : (l.flatMap fun w => ' ' :: decimal w.toInt).length ≤ 12 * l.length := by
    induction l with
    | nil => exact Nat.le_refl 0
    | cons w l ih =>
      have hw : (decimal w.toInt).length ≤ 11 := length_decimal_toInt
      rw [List.flatMap_cons, List.length_append, List.length_cons, List.length_cons]
      omega
  have hkeyword (k : Keyword) : k.name.length ≤ 5 := by
    cases k <;> decide
  have hcount : t.words.2.length ≤ 2 := by
    cases t <;> simp [words]
  have := hnumbers t.words.2
  have := hkeyword t.words.1
  rw [text, List.length_append]
  omega

theorem of_mem_text {x : Char} (hx : x ∈ t.text) : x ≠ '\n' ∧ x ≠ '\x00' := by
  rw [text, List.mem_append] at hx
  rcases hx with hname | hnumbers
  · generalize t.words.1 = k at hname
    cases k <;> (simp only [Keyword.name, List.mem_cons, List.not_mem_nil, or_false] at hname
                 rcases hname with rfl | rfl | rfl | rfl | rfl <;> decide)
  · obtain ⟨w, -, hw⟩ := List.mem_flatMap.1 hnumbers
    rcases List.mem_cons.1 hw with rfl | hdigit
    · decide
    · exact (blank_of_mem_decimal hdigit).2

theorem sender_text (input : List Char) :
    sender c atof (t.text ++ '\n' :: input) =
      (t.commands.flatMap Command.encode ++ (sender c atof input).1, (sender c atof input).2) := by
  refine sender_line (fgets_line (fun h => (t.of_mem_text h).1 rfl) t.length_text input) (fun x hx => ?_) t.line_text
  rcases List.mem_append.1 hx with hx | hx
  · exact (t.of_mem_text hx).2
  · obtain rfl := List.mem_singleton.1 hx
    decide

end Typed

end

/-- The plotter decodes the commands that are typed, in order. -/
theorem sender_typed (c : Undefined) (atof : List Char → ℚ) (ts : List Typed) :
    sender c atof (ts.flatMap fun t => t.text ++ ['\n']) =
        ((ts.flatMap Typed.commands).flatMap Command.encode, .waiting) ∧
      Framing.frames commandDone (sender c atof (ts.flatMap fun t => t.text ++ ['\n'])).1 =
        ((ts.flatMap Typed.commands).map Command.encode, []) := by
  have hsent : sender c atof (ts.flatMap fun t => t.text ++ ['\n']) =
      ((ts.flatMap Typed.commands).flatMap Command.encode, .waiting) := by
    induction ts with
    | nil => rw [List.flatMap_nil, sender]; rfl
    | cons t ts ih =>
      rw [List.flatMap_cons, List.append_assoc, List.singleton_append, t.sender_text, ih, List.flatMap_cons,
        List.flatMap_append]
  rw [hsent]
  exact ⟨rfl, frames_encode _⟩

end PenPlotter
