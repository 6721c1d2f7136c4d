import Mathlib.Data.List.Basic

/-!
# Requests that wait for their responses

A monitor sees requests `G` and responses `R` on one port and pairs them by a queue: a request waits at its end, a
response takes the request at its head (`Paired`). As long as there are never more responses than requests the
queue is never found empty, and the pairs are the requests and responses of the same index. `push` is the log that
keeps its last entries. Everything here is about arbitrary requests and responses.
-/

namespace Pairing

variable {P R T : Type*}

structure Paired (f : P → R → T) (G : List P) (rs : List R) (waiting : List P) (done : List T) : Prop where
  waiting : waiting = G.drop rs.length
  done : done = List.zipWith f G rs
  le : rs.length ≤ G.length

theorem zipWith_append_of_le {f : P → R → T} {G : List P} {rs : List R} (hle : rs.length ≤ G.length) (G' : List P) :
    List.zipWith f (G ++ G') rs = List.zipWith f G rs := by
  induction G generalizing rs with
  | nil => rw [List.eq_nil_of_length_eq_zero (Nat.le_zero.1 hle), List.zipWith_nil_right, List.zipWith_nil_right]
  | cons p G ih =>
    cases rs with
    | nil => rfl
    | cons r rs => exact congrArg (f p r :: ·) (ih (Nat.le_of_succ_le_succ hle))

theorem zipWith_concat {f : P → R → T} {G : List P} {rs : List R} (hlt : rs.length < G.length) (r : R) :
    List.zipWith f G (rs ++ [r]) = List.zipWith f G rs ++ [f G[rs.length] r] := by
  induction G generalizing rs with
  | nil => cases hlt
  | cons p G ih =>
    cases rs with
    | nil => simp
    | cons r' rs => exact congrArg (f p r' :: ·) (ih (Nat.lt_of_succ_lt_succ hlt))

namespace Paired

variable {f : P → R → T} {G waiting : List P} {rs : List R} {done : List T} (h : Paired f G rs waiting done)
include h

theorem request (g : P) : Paired f (G ++ [g]) rs (waiting ++ [g]) done where
  waiting := by rw [h.waiting, List.drop_append_of_le_length h.le]
  done := by rw [h.done, zipWith_append_of_le h.le]
  le := by
    rw [List.length_append]
    have := h.le
    omega

theorem respond (hlt : rs.length < G.length) (r : R) :
    ∃ p rest, waiting = p :: rest ∧ Paired f G (rs ++ [r]) rest (done ++ [f p r]) := by
  refine ⟨G[rs.length], G.drop (rs.length + 1), ?_, ?_, ?_, ?_⟩
  · rw [h.waiting, List.drop_eq_getElem_cons hlt]
  · rw [List.length_append]
    rfl
  · rw [h.done, zipWith_concat hlt]
  · rw [List.length_append]
    exact hlt

end Paired

/-- Requests and responses that agree on `p` are paired alike without the others. -/
theorem zipWith_filter {f : P → R → T} {p : P → Bool} {q : R → Bool} {G : List P} {rs : List R}
    (h : ∀ (n : Nat) g r, G[n]? = some g → rs[n]? = some r → p g = q r) (hle : rs.length ≤ G.length) :
    List.zipWith f (G.filter p) (rs.filter q) =
      (List.zip G rs).filterMap fun x => if p x.1 then some (f x.1 x.2) else none := by
  induction G generalizing rs with
  | nil =>
    rw [List.eq_nil_of_length_eq_zero (Nat.le_zero.1 hle)]
    rfl
  | cons g G ih =>
    cases rs with
    | nil => simp
    | cons r rs =>
      have hhead : p g = q r := h 0 g r rfl rfl
      have htail := ih (fun n => h (n + 1)) (Nat.le_of_succ_le_succ hle)
      rw [List.zip_cons_cons, List.filterMap_cons, List.filter_cons, List.filter_cons, ← hhead]
      cases p g with
      | false => exact htail
      | true => exact congrArg (f g r :: ·) htail

theorem length_filter_le {p : P → Bool} {q : R → Bool} {G : List P} {rs : List R}
    (h : ∀ (n : Nat) g r, G[n]? = some g → rs[n]? = some r → p g = q r) (hle : rs.length ≤ G.length) :
    (rs.filter q).length ≤ (G.filter p).length := by
  induction G generalizing rs with
  | nil =>
    rw [List.eq_nil_of_length_eq_zero (Nat.le_zero.1 hle)]
    exact Nat.le_refl 0
  | cons g G ih =>
    cases rs with
    | nil => exact Nat.zero_le _
    | cons r rs =>
      have hhead : p g = q r := h 0 g r rfl rfl
      have htail := ih (fun n => h (n + 1)) (Nat.le_of_succ_le_succ hle)
      rw [List.filter_cons, List.filter_cons, ← hhead]
      cases p g with
      | false => exact htail
      | true => exact Nat.succ_le_succ htail

variable {α : Type*}

/-- The log takes an entry, and drops its oldest one when it has more than `n`. -/
def push (n : Nat) (l : List α) (x : α) : List α := if (l ++ [x]).length > n then (l ++ [x]).tail else l ++ [x]

/-- The last `n` entries. -/
def recent (n : Nat) (l : List α) : List α := l.drop (l.length - n)

theorem push_recent (n : Nat) (l : List α) (x : α) : push n (recent n l) x = recent n (l ++ [x]) := by
  have hlen : (recent n l ++ [x]).length = min n l.length + 1 := by
    rw [List.length_append, recent, List.length_drop]
    simp only [List.length_cons, List.length_nil]
    omega
  have hall : recent n l ++ [x] = (l ++ [x]).drop (l.length - n) :=
    (List.drop_append_of_le_length (Nat.sub_le _ _)).symm
  have hlast : recent n (l ++ [x]) = (l ++ [x]).drop (l.length + 1 - n) := by
    rw [recent, List.length_append, List.length_singleton]
  rw [push, hlen, hlast, hall]
  split
  next h =>
    rw [List.tail_drop]
    exact congrArg (fun k => (l ++ [x]).drop k) (by omega)
  next h => exact congrArg (fun k => (l ++ [x]).drop k) (by omega)

end Pairing
