import Mathlib.Data.List.Basic
import Mathlib.Data.List.Infix

/-!
# Objects that take one request after another

An object has contents that requests change, and `due` says what the answer to a request may be on the contents
it finds. A port `Serves` an object when each cycle changes the contents by the request of the cycle, if there is
one, and answers it in the next cycle. Then every answer is due on what the requests before its own have left
(`Serves.answered`). When a request writes single places, what it finds in a place is what was written there last
(`replay_eq_last`). Everything here is about arbitrary objects.
-/

namespace Sequential

variable {C Q A : Type*}

structure Object (C Q A : Type*) where
  next : C → Q → C
  due : C → Q → A → Prop

namespace Object

variable (O : Object C Q A)

/-- The contents after the requests. -/
def replay (c : C) (qs : List Q) : C := qs.foldl O.next c

/-- The answers are due to the first requests, in order. -/
def Answered (c : C) (qs : List Q) (as : List A) : Prop :=
  ∀ k q a, qs[k]? = some q → as[k]? = some a → O.due (O.replay c (qs.take k)) q a

variable {O} {c : C} {qs : List Q}

theorem replay_append (qs' : List Q) : O.replay c (qs ++ qs') = O.replay (O.replay c qs) qs' :=
  List.foldl_append

theorem Answered.append {as : List A} (h : O.Answered c qs as) (hlen : as.length = qs.length) {q : Q} {a : A}
    (hdue : O.due (O.replay c qs) q a) : O.Answered c (qs ++ [q]) (as ++ [a]) := by
  intro k q' a' hq ha
  rcases Nat.lt_trichotomy k qs.length with hlt | rfl | hgt
  · rw [List.getElem?_append_left hlt] at hq
    rw [List.getElem?_append_left (by omega)] at ha
    rw [List.take_append_of_le_length hlt.le]
    exact h k q' a' hq ha
  · rw [List.getElem?_concat_length] at hq
    rw [← hlen, List.getElem?_concat_length] at ha
    cases hq
    cases ha
    rwa [List.take_left]
  · rw [List.getElem?_eq_none (by simp; omega)] at hq
    cases hq

end Object

/-- What happens in the cycles before `t`, in order. -/
def upto {E : Type*} (f : Nat → Option E) : Nat → List E
  | 0 => []
  | t + 1 => upto f t ++ (f t).toList

/-- A port that answers the request of a cycle in the next one. -/
structure Serves (O : Object C Q A) (contents : Nat → C) (request : Nat → Option Q) (answer : Nat → Option A) :
    Prop where
  first : answer 0 = none
  next : ∀ t, contents (t + 1) = (request t).elim (contents t) (O.next (contents t))
  idle : ∀ t, request t = none → answer (t + 1) = none
  due : ∀ t q, request t = some q → ∃ a, answer (t + 1) = some a ∧ O.due (contents t) q a

namespace Serves

variable {O : Object C Q A} {contents : Nat → C} {request : Nat → Option Q} {answer : Nat → Option A}
  (h : Serves O contents request answer)
include h

theorem contents_eq (t : Nat) : contents t = O.replay (contents 0) (upto request t) := by
  induction t with
  | zero => rfl
  | succ t ih =>
    rw [h.next, upto, Object.replay_append, ← ih]
    cases request t <;> rfl

theorem length_eq (t : Nat) : (upto answer (t + 1)).length = (upto request t).length := by
  induction t with
  | zero => simp [upto, h.first]
  | succ t ih =>
    rw [upto, List.length_append, ih, upto, List.length_append]
    cases hq : request t with
    | none =>
      rw [h.idle t hq]
      rfl
    | some q =>
      obtain ⟨a, ha, -⟩ := h.due t q hq
      rw [ha]
      rfl

theorem answered (t : Nat) : O.Answered (contents 0) (upto request t) (upto answer (t + 1)) := by
  induction t with
  | zero =>
    intro k q a hq
    cases hq
  | succ t ih =>
    rw [upto, show upto answer (t + 1 + 1) = upto answer (t + 1) ++ (answer (t + 1)).toList from rfl]
    cases hq : request t with
    | none => simpa [h.idle t hq] using ih
    | some q =>
      obtain ⟨a, ha, hdue⟩ := h.due t q hq
      rw [ha]
      rw [h.contents_eq t] at hdue
      exact ih.append (h.length_eq t) hdue

end Serves

section

variable {X V : Type*} {O : Object (X → V) Q A} {w : Q → X → Option V}
  (hw : ∀ c q x, O.next c q x = (w q x).getD (c x))
include hw

/-- A place holds what was written there last. -/
theorem replay_eq_last (c : X → V) (qs : List Q) (x : X) :
    O.replay c qs x = (qs.filterMap (w · x)).getLast?.getD (c x) := by
  induction qs generalizing c with
  | nil => rfl
  | cons q qs ih =>
    show O.replay (O.next c q) qs x = _
    rw [ih, hw, List.filterMap_cons]
    cases w q x with
    | none => rfl
    | some v => rw [List.getLast?_cons]; rfl

end

end Sequential
