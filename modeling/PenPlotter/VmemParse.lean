import PenPlotter.HexDigits
import Mathlib.Data.List.AList

/-!
# `parse_vmem` (`sw/vmem_to_mif.py`)

The two regular expressions as functions of the text, the dictionary that `parse_vmem` builds, and the texts
it is for: white space, comments, addresses and words, apart from each other (`Vmem`). The dictionary holds
the last word that such a text assigns to an address (`parsed_parseVmem`).
-/

namespace PenPlotter

open Hex (Ends takeWhile_digits)

inductive VmemToken
  | address (ds : List Char)
  | word (ds : List Char)
deriving DecidableEq

/-- The text after the first `*/`. -/
def closeComment : List Char → Option (List Char)
  | '*' :: '/' :: rest => some rest
  | _ :: rest => closeComment rest
  | [] => none

theorem length_closeComment {text rest : List Char} (h : closeComment text = some rest) :
    rest.length < text.length := by
  fun_induction closeComment text with
  | case1 rest' =>
    obtain rfl := Option.some.inj h
    simp only [List.length_cons]
    omega
  | case2 c text _ ih => exact Nat.lt_succ_of_lt (ih h)
  | case3 => cases h

/-- `re.sub(r"/\\*.*?\\*/", "", content, flags=re.DOTALL)`. -/
def stripComments : List Char → List Char
  | '/' :: '*' :: text =>
    match _h : closeComment text with
    | some rest => stripComments rest
    | none => '/' :: stripComments ('*' :: text)
  | c :: text => c :: stripComments text
  | [] => []
termination_by text => text.length
decreasing_by
  · have := length_closeComment _h
    simp only [List.length_cons]
    omega
  · simp
  · simp

/-- `TOKEN_RE` at the head of the text, with what is left of it. -/
def matchToken : List Char → Option (VmemToken × List Char)
  | '@' :: text =>
    let ds := text.takeWhile Hex.isDigit
    if ds = [] then none else some (.address ds, text.drop ds.length)
  | text =>
    let ds := (text.takeWhile Hex.isDigit).take 8
    if ds = [] then none else some (.word ds, text.drop ds.length)

theorem length_matchToken {text rest : List Char} {t : VmemToken} (h : matchToken text = some (t, rest)) :
    rest.length < text.length := by
  unfold matchToken at h
  split at h <;> dsimp only at h <;> split at h
  · cases h
  · cases h
    simp only [List.length_drop, List.length_cons]
    omega
  · cases h
  next hds =>
    cases h
    have hpos := List.length_pos_of_ne_nil hds
    have hle := (List.length_take_le' 8 (text.takeWhile Hex.isDigit)).trans
      (List.takeWhile_prefix Hex.isDigit).length_le
    rw [List.length_drop]
    omega

/-- `TOKEN_RE.finditer`. -/
def finditer : List Char → List VmemToken
  | [] => []
  | c :: text =>
    match _h : matchToken (c :: text) with
    | some (t, rest) => t :: finditer rest
    | none => finditer text
termination_by text => text.length
decreasing_by
  · exact length_matchToken _h
  · simp

/-- `words`; an address is never negative. -/
abbrev Words : Type := AList fun _ : Nat => Nat

/-- One round of the loop, on `address` and `words`. -/
def parseStep (s : Nat × Words) : VmemToken → Nat × Words
  | .address ds => (Hex.value ds, s.2)
  | .word ds => (s.1 + 1, s.2.insert s.1 (Hex.value ds))

def parseTokens (tokens : List VmemToken) : Nat × Words := tokens.foldl parseStep (0, ∅)

def parseVmem (content : List Char) : Words := (parseTokens (finditer (stripComments content))).2

/-- `str.isspace`. -/
def isSpace (c : Char) : Bool :=
  let n := c.toNat
  (9 ≤ n && n ≤ 13) || (28 ≤ n && n ≤ 32) || n == 0x85 || n == 0xA0 || n == 0x1680 || (0x2000 ≤ n && n ≤ 0x200A) ||
    n == 0x2028 || n == 0x2029 || n == 0x202F || n == 0x205F || n == 0x3000

inductive VmemItem
  | space (c : Char)
  | comment (body : List Char)
  | address (ds : List Char)
  | word (ds : List Char)

namespace VmemItem

def text : VmemItem → List Char
  | space c => [c]
  | comment body => '/' :: '*' :: body ++ ['*', '/']
  | address ds => '@' :: ds
  | word ds => ds

def token? : VmemItem → Option VmemToken
  | address ds => some (.address ds)
  | word ds => some (.word ds)
  | _ => none

def isComment : VmemItem → Bool
  | comment _ => true
  | _ => false

def Ok : VmemItem → Prop
  | space c => isSpace c = true
  | comment body => ¬['*', '/'] <:+: body
  | address ds => ds ≠ [] ∧ ∀ c ∈ ds, Hex.isDigit c = true
  | word ds => ds ≠ [] ∧ ds.length ≤ 8 ∧ ∀ c ∈ ds, Hex.isDigit c = true

/-- The digits of a word do not follow on those of another token. -/
def Apart : VmemItem → VmemItem → Prop
  | address _, word _ | word _, word _ => False
  | _, _ => True

end VmemItem

/-- The tokens are apart when the comments are gone. -/
structure Vmem where
  items : List VmemItem
  ok : ∀ i ∈ items, i.Ok
  apart : (items.filter fun i => !i.isComment).IsChain VmemItem.Apart

def Vmem.text (v : Vmem) : List Char := v.items.flatMap VmemItem.text

def Vmem.tokens (v : Vmem) : List VmemToken := v.items.filterMap VmemItem.token?

/-! ### The comments -/

theorem closeComment_cons {c : Char} {text : List Char} (h : c = '*' → text.head? ≠ some '/') :
    closeComment (c :: text) = closeComment text := by
  rcases text with _ | ⟨d, text⟩
  · simp [closeComment]
  · by_cases hc : c = '*'
    · have hd : d ≠ '/' := by simpa using h hc
      simp [closeComment, hd]
    · simp [closeComment, hc]

theorem closeComment_body {body : List Char} (h : ¬['*', '/'] <:+: body) (rest : List Char) :
    closeComment (body ++ '*' :: '/' :: rest) = some rest := by
  induction body with
  | nil => rfl
  | cons c body ih =>
    rw [List.cons_append, closeComment_cons, ih fun hin => h (hin.trans (List.suffix_cons c body).isInfix)]
    rintro rfl hd
    rcases body with _ | ⟨d, body⟩
    · cases hd
    · obtain rfl := Option.some.inj hd
      exact h (List.prefix_append ['*', '/'] body).isInfix

theorem stripComments_append {ds : List Char} (h : ∀ c ∈ ds, c ≠ '/') (text : List Char) :
    stripComments (ds ++ text) = ds ++ stripComments text := by
  induction ds with
  | nil => rfl
  | cons c ds ih =>
    have hc : c ≠ '/' := h c List.mem_cons_self
    rw [List.cons_append, List.cons_append, ← ih fun d hd => h d (List.mem_cons_of_mem c hd)]
    rw [stripComments]
    rintro rest rfl
    exact absurd rfl hc

theorem stripComments_comment {body : List Char} (h : ¬['*', '/'] <:+: body) (text : List Char) :
    stripComments ((VmemItem.comment body).text ++ text) = stripComments text := by
  have hclose := closeComment_body h text
  have htext : (VmemItem.comment body).text ++ text = '/' :: '*' :: (body ++ '*' :: '/' :: text) := by
    simp [VmemItem.text]
  rw [htext, stripComments]
  split
  next rest hrest =>
    obtain rfl := Option.some.inj (hclose.symm.trans hrest)
    rfl
  next hnone =>
    rw [hclose] at hnone
    cases hnone

theorem isDigit_bounds {c : Char} (h : Hex.isDigit c = true) : c ≠ '/' ∧ c ≠ '@' := by
  constructor <;> rintro rfl <;> revert h <;> decide

theorem isSpace_ne {c : Char} (h : isSpace c = true) : c ≠ '/' ∧ c ≠ '@' ∧ Hex.isDigit c = false := by
  refine ⟨by rintro rfl; revert h; decide, by rintro rfl; revert h; decide, ?_⟩
  by_contra hdigit
  have hrange := Hex.isDigit_range (by simpa using hdigit)
  simp [isSpace] at h
  omega

theorem VmemItem.Ok.no_slash {i : VmemItem} (h : i.Ok) (hi : i.isComment = false) : ∀ c ∈ i.text, c ≠ '/' := by
  intro c hc
  cases i with
  | space d =>
    obtain rfl := List.mem_singleton.1 hc
    exact (isSpace_ne h).1
  | comment body => cases hi
  | address ds =>
    rcases List.mem_cons.1 hc with rfl | hc
    · decide
    · exact (isDigit_bounds (h.2 c hc)).1
  | word ds => exact (isDigit_bounds (h.2.2 c hc)).1

theorem stripComments_items {items : List VmemItem} (h : ∀ i ∈ items, i.Ok) :
    stripComments (items.flatMap VmemItem.text) = (items.filter fun i => !i.isComment).flatMap VmemItem.text := by
  induction items with
  | nil => simp [stripComments]
  | cons i items ih =>
    have hi : i.Ok := h i List.mem_cons_self
    have hrest := ih fun j hj => h j (List.mem_cons_of_mem i hj)
    rw [List.flatMap_cons]
    cases hcomment : i.isComment with
    | true =>
      obtain ⟨body, rfl⟩ : ∃ body, i = .comment body := by
        cases i <;> first | exact ⟨_, rfl⟩ | cases hcomment
      rw [stripComments_comment hi, hrest]
      rfl
    | false =>
      rw [stripComments_append (hi.no_slash hcomment), hrest, List.filter_cons_of_pos (by simp [hcomment]),
        List.flatMap_cons]

theorem matchToken_address (text : List Char) :
    matchToken ('@' :: text) = if text.takeWhile Hex.isDigit = [] then none
      else some (.address (text.takeWhile Hex.isDigit), text.drop (text.takeWhile Hex.isDigit).length) := rfl

theorem matchToken_word {text : List Char} (h : text.head? ≠ some '@') :
    matchToken text = if (text.takeWhile Hex.isDigit).take 8 = [] then none
      else some (.word ((text.takeWhile Hex.isDigit).take 8),
        text.drop ((text.takeWhile Hex.isDigit).take 8).length) := by
  unfold matchToken
  split
  · exact absurd rfl h
  · rfl

theorem finditer_match {text rest : List Char} {t : VmemToken} (h : matchToken text = some (t, rest)) :
    finditer text = t :: finditer rest := by
  rcases text with _ | ⟨c, text⟩
  · cases h
  · rw [finditer]
    split
    next t' rest' hsome =>
      cases h.symm.trans hsome
      rfl
    next hnone =>
      rw [h] at hnone
      cases hnone

theorem finditer_space {c : Char} (h : isSpace c = true) (text : List Char) :
    finditer (c :: text) = finditer text := by
  obtain ⟨-, hat, hdigit⟩ := isSpace_ne h
  have hnone : matchToken (c :: text) = none := by
    rw [matchToken_word (by simpa using hat), List.takeWhile_cons_of_neg (by simp [hdigit])]
    rfl
  rw [finditer]
  split
  next t rest hsome =>
    rw [hnone] at hsome
    cases hsome
  next => rfl

theorem finditer_address {ds text : List Char} (hok : (VmemItem.address ds).Ok) (h : Ends text) :
    finditer ('@' :: ds ++ text) = .address ds :: finditer text := by
  refine finditer_match ?_
  rw [List.cons_append, matchToken_address, takeWhile_digits hok.2 h, if_neg hok.1, List.drop_left]

theorem finditer_word {ds text : List Char} (hok : (VmemItem.word ds).Ok) (h : Ends text) :
    finditer (ds ++ text) = .word ds :: finditer text := by
  obtain ⟨hne, hlen, hdigits⟩ := hok
  refine finditer_match ?_
  have hat : (ds ++ text).head? ≠ some '@' := by
    rcases ds with _ | ⟨c, ds⟩
    · exact absurd rfl hne
    · simpa using (isDigit_bounds (hdigits c List.mem_cons_self)).2
  rw [matchToken_word hat, takeWhile_digits hdigits h, List.take_of_length_le hlen, if_neg hne, List.drop_left]

theorem VmemItem.Ok.ends {i : VmemItem} (h : i.Ok) (hcomment : i.isComment = false) (hword : ∀ ds, i ≠ .word ds)
    (text : List Char) : Ends (i.text ++ text) := by
  intro c hc
  cases i with
  | space d =>
    obtain rfl := Option.some.inj hc
    exact (isSpace_ne h).2.2
  | comment body => cases hcomment
  | address ds =>
    obtain rfl := Option.some.inj hc
    decide
  | word ds => exact absurd rfl (hword ds)

theorem ends_items {items : List VmemItem} (hok : ∀ i ∈ items, i.Ok) (hcomment : ∀ i ∈ items, i.isComment = false)
    (hword : ∀ i ∈ items.head?, ∀ ds, i ≠ .word ds) : Ends (items.flatMap VmemItem.text) := by
  rcases items with _ | ⟨i, items⟩
  · intro c hc
    cases hc
  · rw [List.flatMap_cons]
    exact (hok i List.mem_cons_self).ends (hcomment i List.mem_cons_self) (hword i rfl) _

/-- Without comments, the text gives back its tokens. -/
theorem finditer_items {items : List VmemItem} (hok : ∀ i ∈ items, i.Ok) (hcomment : ∀ i ∈ items, i.isComment = false)
    (hapart : items.IsChain VmemItem.Apart) :
    finditer (items.flatMap VmemItem.text) = items.filterMap VmemItem.token? := by
  induction items with
  | nil => simp [finditer]
  | cons i items ih =>
    have hi : i.Ok := hok i List.mem_cons_self
    have hok' : ∀ j ∈ items, j.Ok := fun j hj => hok j (List.mem_cons_of_mem i hj)
    have hcomment' : ∀ j ∈ items, j.isComment = false := fun j hj => hcomment j (List.mem_cons_of_mem i hj)
    have hrest := ih hok' hcomment' hapart.tail
    rw [List.flatMap_cons]
    cases i with
    | space c => exact (finditer_space hi _).trans hrest
    | comment body => cases hcomment _ List.mem_cons_self
    | address ds =>
      refine (finditer_address hi (ends_items hok' hcomment' ?_)).trans (congrArg _ hrest)
      rintro j hj ds' rfl
      exact (List.isChain_cons.1 hapart).1 _ hj
    | word ds =>
      refine (finditer_word hi (ends_items hok' hcomment' ?_)).trans (congrArg _ hrest)
      rintro j hj ds' rfl
      exact (List.isChain_cons.1 hapart).1 _ hj

theorem tokens_text (v : Vmem) : finditer (stripComments v.text) = v.tokens := by
  rw [Vmem.text, stripComments_items v.ok, finditer_items ?_ ?_ v.apart, Vmem.tokens, List.filterMap_filter]
  · congr 1
    funext i
    cases i <;> rfl
  · intro i hi
    exact v.ok i (List.mem_of_mem_filter hi)
  · intro i hi
    simpa using (List.mem_filter.1 hi).2

example : ∃ v : Vmem, v.text = "/* boot */ @2 0Ab".toList ∧ v.tokens = [.address ['2'], .word ['0', 'A', 'b']] := by
  refine ⟨⟨[.comment " boot ".toList, .space ' ', .address ['2'], .space ' ', .word ['0', 'A', 'b']], ?_, ?_⟩,
    rfl, rfl⟩
  · simp [VmemItem.Ok]
    decide
  · simp [VmemItem.isComment, VmemItem.Apart]

/-- The address after the tokens, of which the latest comes first. -/
def addressAfter : List VmemToken → Nat
  | [] => 0
  | .address ds :: _ => Hex.value ds
  | .word _ :: before => addressAfter before + 1

/-- Word `k`, if token `k` is one, with the address it goes to. -/
def assignment (tokens : List VmemToken) (k : Nat) : Option (Nat × Nat) :=
  match tokens[k]? with
  | some (.word ds) => some (addressAfter (tokens.take k).reverse, Hex.value ds)
  | _ => none

/-- All words with their addresses, in the order of the text. -/
def assignments (tokens : List VmemToken) : List (Nat × Nat) :=
  (List.range tokens.length).filterMap (assignment tokens)

/-- The last word that goes to an address. -/
def lastWord (tokens : List VmemToken) (a : Nat) : Option Nat :=
  (((assignments tokens).filter fun p => p.1 == a).getLast?).map Prod.snd

variable {tokens : List VmemToken} {ds : List Char} {a : Nat}

theorem assignments_concat (t : VmemToken) :
    assignments (tokens ++ [t]) = assignments tokens ++ (assignment (tokens ++ [t]) tokens.length).toList := by
  have hold : (List.range tokens.length).filterMap (assignment (tokens ++ [t])) = assignments tokens := by
    refine List.filterMap_congr fun k hk => ?_
    have hlt := List.mem_range.1 hk
    rw [assignment, assignment, List.getElem?_append_left hlt, List.take_append_of_le_length (by omega)]
  rw [assignments, List.length_append, List.length_singleton, List.range_succ, List.filterMap_append, hold]
  cases h : assignment (tokens ++ [t]) tokens.length <;> simp [h]

theorem assignments_address : assignments (tokens ++ [.address ds]) = assignments tokens := by
  rw [assignments_concat]
  simp [assignment]

theorem assignments_word : assignments (tokens ++ [.word ds]) =
    assignments tokens ++ [(addressAfter tokens.reverse, Hex.value ds)] := by
  rw [assignments_concat]
  simp [assignment]

theorem lastWord_word : lastWord (tokens ++ [.word ds]) a =
    if addressAfter tokens.reverse = a then some (Hex.value ds) else lastWord tokens a := by
  rw [lastWord, assignments_word, List.filter_append]
  split
  next h => simp [h]
  next h => simp [h, lastWord]

/-- The loop has gone through the tokens. -/
structure Parsed (tokens : List VmemToken) (s : Nat × Words) : Prop where
  address : s.1 = addressAfter tokens.reverse
  lookup : ∀ a, s.2.lookup a = lastWord tokens a
  mem : ∀ a, a ∈ s.2 ↔ ∃ w, (a, w) ∈ assignments tokens

theorem Parsed.step {s : Nat × Words} (h : Parsed tokens s) (t : VmemToken) :
    Parsed (tokens ++ [t]) (parseStep s t) := by
  obtain ⟨haddr, hlookup, hmem⟩ := h
  cases t with
  | address ds =>
    refine ⟨by simp [parseStep, addressAfter], ?_, ?_⟩
    · intro a
      rw [lastWord, assignments_address]
      exact hlookup a
    · rw [assignments_address]
      exact hmem
  | word ds =>
    refine ⟨by simp [parseStep, addressAfter, haddr], ?_, ?_⟩
    · intro a
      rw [lastWord_word, ← haddr]
      split
      next h =>
        subst h
        exact AList.lookup_insert s.2
      next h => exact (AList.lookup_insert_ne (Ne.symm h)).trans (hlookup a)
    · intro a
      rw [assignments_word, ← haddr]
      show a ∈ s.2.insert s.1 (Hex.value ds) ↔ _
      rw [AList.mem_insert, hmem]
      simp only [List.mem_append, List.mem_singleton, Prod.mk.injEq]
      constructor
      · rintro (rfl | ⟨w, hw⟩)
        · exact ⟨_, .inr ⟨rfl, rfl⟩⟩
        · exact ⟨w, .inl hw⟩
      · rintro ⟨w, hw | ⟨rfl, -⟩⟩
        · exact .inr ⟨w, hw⟩
        · exact .inl rfl

theorem parsed_parseTokens (tokens : List VmemToken) : Parsed tokens (parseTokens tokens) := by
  induction tokens using List.reverseRecOn with
  | nil => exact ⟨rfl, fun _ => rfl, by simp [parseTokens, assignments]⟩
  | append_singleton tokens t ih =>
    rw [parseTokens, List.foldl_append]
    exact ih.step t

theorem parsed_parseVmem (v : Vmem) :
    (∀ a, (parseVmem v.text).lookup a = lastWord v.tokens a) ∧
      ∀ a, a ∈ parseVmem v.text ↔ ∃ w, (a, w) ∈ assignments v.tokens := by
  rw [parseVmem, tokens_text]
  exact ⟨(parsed_parseTokens v.tokens).lookup, (parsed_parseTokens v.tokens).mem⟩

end PenPlotter
