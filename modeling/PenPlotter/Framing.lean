import Mathlib.Data.List.Basic
import Mathlib.Data.List.Infix
import Mathlib.Data.List.TakeDrop

/-!
# Framing a stream of symbols

A decoder collects symbols until the collected word is `done` and then starts over. On a stream of code
words, each of which becomes `done` with its last symbol and not before, it gives back the words
(`frames_flatten`).
-/

namespace Framing

variable {β : Type*} (done : List β → Bool)

/-- Takes one more symbol into the words collected so far and the word in progress. -/
def feed (s : List (List β) × List β) (b : β) : List (List β) × List β :=
  if done (s.2 ++ [b]) then (s.1 ++ [s.2 ++ [b]], []) else (s.1, s.2 ++ [b])

def frames (bs : List β) : List (List β) × List β := bs.foldl (feed done) ([], [])

/-- A word in progress. -/
def Pending (p : List β) : Prop := ∀ q, q ≠ [] → q <+: p → done q = false

/-- A word that is complete with its last symbol and not before. -/
structure CodeWord (w : List β) : Prop where
  complete : done w = true
  pending : Pending done w.dropLast
  ne_nil : w ≠ []

variable {done} {bs p w : List β} {ws : List (List β)}

theorem frames_concat (b : β) : frames done (bs ++ [b]) = feed done (frames done bs) b := by
  rw [frames, List.foldl_append]
  rfl

theorem Pending.mono {q : List β} (h : Pending done p) (hq : q <+: p) : Pending done q :=
  fun r hr hrq => h r hr (hrq.trans hq)

theorem CodeWord.pending_of_part (h : CodeWord done w) (hp : p <+: w) (hne : p ≠ w) :
    Pending done p := by
  obtain ⟨rest, rfl⟩ := hp
  refine h.pending.mono ?_
  obtain ⟨init, last, hinit⟩ := (List.eq_nil_or_concat rest).resolve_left
    fun hnil => hne (by rw [hnil, List.append_nil])
  subst hinit
  rw [List.concat_eq_append, ← List.append_assoc, List.dropLast_concat]
  exact List.prefix_append _ _

theorem frames_append_pending (h : frames done bs = (ws, [])) (hp : Pending done p) :
    frames done (bs ++ p) = (ws, p) := by
  induction p using List.reverseRecOn with
  | nil => rwa [List.append_nil]
  | append_singleton p b ih =>
    have hprev := ih (hp.mono (List.prefix_append _ _))
    rw [← List.append_assoc, frames_concat, hprev, feed, hp _ (by simp) List.prefix_rfl]
    simp

theorem frames_append_word (h : frames done bs = (ws, [])) (hw : CodeWord done w) :
    frames done (bs ++ w) = (ws ++ [w], []) := by
  obtain ⟨p, b, rfl⟩ := (List.eq_nil_or_concat w).resolve_left hw.ne_nil
  rw [List.concat_eq_append] at hw ⊢
  have hpending := hw.pending
  rw [List.dropLast_concat] at hpending
  rw [← List.append_assoc, frames_concat, frames_append_pending h hpending, feed, hw.complete]
  simp

theorem frames_flatten (h : ∀ w ∈ ws, CodeWord done w) (hp : Pending done p) :
    frames done (ws.flatten ++ p) = (ws, p) := by
  refine frames_append_pending ?_ hp
  induction ws using List.reverseRecOn with
  | nil => rfl
  | append_singleton ws w ih =>
    rw [List.flatten_append, List.flatten_singleton]
    exact frames_append_word (ih fun w hw => h w (by simp [hw])) (h w (by simp))

/-- A prefix of a stream of words ends in a part of the next word. -/
theorem prefix_flatten (hbs : bs <+: ws.flatten) :
    ∃ n p, n ≤ ws.length ∧ bs = (ws.take n).flatten ++ p ∧
      (p = [] ∨ ∃ w, ws[n]? = some w ∧ p <+: w ∧ p ≠ w) := by
  induction ws generalizing bs with
  | nil => exact ⟨0, [], Nat.le_refl _, by simpa using hbs, .inl rfl⟩
  | cons w ws ih =>
    rw [List.flatten_cons] at hbs
    rcases List.prefix_or_prefix_of_prefix hbs (List.prefix_append w ws.flatten) with hshort | hlong
    · by_cases heq : bs = w
      · exact ⟨1, [], by simp, by simp [heq], .inl rfl⟩
      · exact ⟨0, bs, by simp, by simp, .inr ⟨w, rfl, hshort, heq⟩⟩
    · obtain ⟨rest, rfl⟩ := hlong
      obtain ⟨n, p, hn, hbs', hp⟩ := ih ((List.prefix_append_right_inj w).1 hbs)
      refine ⟨n + 1, p, by simpa using hn, ?_, hp⟩
      rw [hbs', List.take_succ_cons, List.flatten_cons, List.append_assoc]

theorem pending_nil : Pending done ([] : List β) := fun _ hq hp => absurd (List.prefix_nil.1 hp) hq

/-- The decoder on a prefix of a stream of code words. -/
theorem frames_prefix (h : ∀ w ∈ ws, CodeWord done w) {n : Nat}
    (hp : p = [] ∨ ∃ w, ws[n]? = some w ∧ p <+: w ∧ p ≠ w) :
    frames done ((ws.take n).flatten ++ p) = (ws.take n, p) := by
  refine frames_flatten (fun w hw => h w (List.mem_of_mem_take hw)) ?_
  rcases hp with rfl | ⟨w, hw, hpw, hne⟩
  · exact pending_nil
  · exact (h w (List.mem_of_getElem? hw)).pending_of_part hpw hne

end Framing
