import Mathlib.Data.List.Basic
import Mathlib.Data.List.TakeDrop
import Mathlib.Data.List.Count
import Mathlib.Order.Nat

/-!
# In-order completion

Requests `G` are issued in one order; each has at most one source (`src`) that answers it, and every
source answers its own requests in order. `reply n` is the answer of request `n` as far as the
answers `A` given so far determine it: the `rank`-th answer of its source, or `miss` at once when it
has no source. A completion queue that hands out `reply 0, reply 1, …` returns to each request its
own answer.
-/

namespace InOrder

variable {ρ δ α : Type*} [DecidableEq δ] (src : ρ → Option δ) (miss : α)

/-- How many of the first `n` requests go to source `d`. -/
def rank (G : List ρ) (d : δ) (n : Nat) : Nat := (G.take n).countP fun r => src r = some d

def reply (G : List ρ) (A : δ → List α) (n : Nat) : Option α :=
  G[n]?.bind fun r =>
    match src r with
    | none => some miss
    | some d => (A d)[rank src G d n]?

variable {src miss} {G : List ρ} {A : δ → List α} {d : δ} {n m : Nat} {r : ρ}

theorem rank_succ (hr : G[n]? = some r) :
    rank src G d (n + 1) = rank src G d n + if src r = some d then 1 else 0 := by
  rw [rank, List.take_add_one, hr, Option.toList_some, List.countP_append, List.countP_singleton]
  simp [rank]

/-- Among the requests to its source a request stands at its rank. -/
theorem getElem?_filter_rank (hr : G[n]? = some r) (hs : src r = some d) :
    (G.filter fun r => src r = some d)[rank src G d n]? = some r := by
  obtain ⟨hlt, hn⟩ := List.getElem?_eq_some_iff.1 hr
  have hsplit : G.filter (fun r => src r = some d) =
      (G.take n).filter (fun r => src r = some d) ++ (r :: G.drop (n + 1)).filter fun r => src r = some d := by
    rw [← List.filter_append, ← hn, ← List.drop_eq_getElem_cons hlt, List.take_append_drop]
  rw [rank, List.countP_eq_length_filter, hsplit, List.getElem?_append_right le_rfl, Nat.sub_self,
    List.filter_cons_of_pos (by simpa using hs)]
  rfl

theorem rank_append (L : List ρ) (h : n ≤ G.length) : rank src (G ++ L) d n = rank src G d n := by
  rw [rank, List.take_append_of_le_length h, rank]

theorem rank_mono (h : m ≤ n) : rank src G d m ≤ rank src G d n :=
  (List.take_sublist_take_left h).countP_le

theorem rank_lt (hr : G[m]? = some r) (hd : src r = some d) (h : m < n) :
    rank src G d m < rank src G d n :=
  calc rank src G d m < rank src G d (m + 1) := by rw [rank_succ hr]; simp [hd]
    _ ≤ rank src G d n := rank_mono h

/-- Every rank below the current one belongs to an earlier request to the same source. -/
theorem exists_rank {j : Nat} (hn : n ≤ G.length) (h : j < rank src G d n) :
    ∃ m r, m < n ∧ G[m]? = some r ∧ src r = some d ∧ rank src G d m = j := by
  induction n with
  | zero => simp [rank] at h
  | succ n ih =>
    have hr : G[n]? = some G[n] := List.getElem?_eq_getElem hn
    rw [rank_succ hr] at h
    by_cases hj : j < rank src G d n
    · obtain ⟨m, r, hm, hr, hd, hk⟩ := ih (by omega) hj
      exact ⟨m, r, by omega, hr, hd, hk⟩
    · by_cases hd : src G[n] = some d
      · simp only [hd, if_true] at h
        exact ⟨n, _, by omega, hr, hd, by omega⟩
      · simp [hd] at h; omega

theorem reply_miss (hr : G[n]? = some r) (hs : src r = none) : reply src miss G A n = some miss := by
  simp [reply, hr, hs]

theorem reply_source (hr : G[n]? = some r) (hs : src r = some d) :
    reply src miss G A n = (A d)[rank src G d n]? := by
  simp [reply, hr, hs]

theorem reply_append (L : List ρ) (h : n < G.length) :
    reply src miss (G ++ L) A n = reply src miss G A n := by
  have hr : G[n]? = some G[n] := List.getElem?_eq_getElem h
  have hr' : (G ++ L)[n]? = some G[n] := by rw [List.getElem?_append_left h, hr]
  cases hs : src G[n] with
  | none => rw [reply_miss hr hs, reply_miss hr' hs]
  | some d => rw [reply_source hr hs, reply_source hr' hs, rank_append _ (by omega)]

theorem reply_isSome_lt (h : (reply src miss G A n).isSome) : n < G.length := by
  by_contra hn
  rw [reply, List.getElem?_eq_none (by omega)] at h
  simp at h

/-- A request that has just been issued to a source has no answer yet. -/
theorem reply_issued (hs : src r = some d) (h : (A d).length ≤ rank src G d G.length) :
    reply src miss (G ++ [r]) A G.length = none := by
  rw [reply_source (r := r) (by simp) hs, rank_append _ le_rfl]
  exact List.getElem?_eq_none h

theorem reply_eq_none_iff (hr : G[n]? = some r) (hs : src r = some d) :
    reply src miss G A n = none ↔ (A d).length ≤ rank src G d n := by
  rw [reply_source hr hs, List.getElem?_eq_none_iff]

/-- An answer already given stays when sources give further ones. -/
theorem reply_mono {A' : δ → List α} {a : α} (hA : ∀ d, A d <+: A' d)
    (h : reply src miss G A n = some a) : reply src miss G A' n = some a := by
  have hn : n < G.length := reply_isSome_lt (by rw [h]; rfl)
  have hr : G[n]? = some G[n] := List.getElem?_eq_getElem hn
  cases hs : src G[n] with
  | none => rwa [reply_miss hr hs] at h ⊢
  | some d =>
    rw [reply_source hr hs] at h ⊢
    obtain ⟨L, hL⟩ := hA d
    have hk := (List.getElem?_eq_some_iff.1 h).1
    rw [← hL, List.getElem?_append_left hk, h]

/-- The answer a source gives next belongs to its request whose rank is the number of its answers. -/
theorem reply_answer (A' : δ → List α) {new : Option α} (hA : A' d = A d ++ new.toList)
    (hr : G[n]? = some r) (hs : src r = some d) (h : reply src miss G A n = none) :
    reply src miss G A' n = if rank src G d n = (A d).length then new else none := by
  have hle := (reply_eq_none_iff hr hs).1 h
  rw [reply_source hr hs, hA, List.getElem?_append_right hle]
  cases new with
  | none => simp
  | some a =>
    by_cases hk : rank src G d n = (A d).length
    · simp [hk]
    · rw [if_neg hk]
      exact List.getElem?_eq_none (by simp; omega)

variable (miss) in
/-- When every request before `nd` is answered, the first unanswered request to `d` from there on is
the one whose rank is the number of answers `d` has given. -/
theorem first_unanswered_iff {nd : Nat} (hr : G[n]? = some r) (hs : src r = some d)
    (hserved : ∀ m < nd, (reply src miss G A m).isSome) :
    (reply src miss G A n = none ∧ ∀ m r', nd ≤ m → m < n → G[m]? = some r' → src r' = some d →
      (reply src miss G A m).isSome) ↔ rank src G d n = (A d).length := by
  rw [reply_eq_none_iff hr hs]
  have hn : n < G.length := (List.getElem?_eq_some_iff.1 hr).1
  constructor
  · rintro ⟨hle, hfirst⟩
    by_contra hne
    obtain ⟨m, r', hm, hr', hs', hk⟩ := exists_rank hn.le
      (show (A d).length < rank src G d n by omega)
    have hnone : reply src miss G A m = none := (reply_eq_none_iff hr' hs').2 hk.ge
    have hsome : (reply src miss G A m).isSome := by
      by_cases hnd : m < nd
      · exact hserved m hnd
      · exact hfirst m r' (by omega) hm hr' hs'
    rw [hnone] at hsome
    exact absurd hsome (by simp)
  · intro hk
    refine ⟨hk.ge, fun m r' _ hm hr' hs' => Option.isSome_iff_ne_none.2 fun hnone => ?_⟩
    have := (reply_eq_none_iff hr' hs').1 hnone
    have := rank_lt hr' hs' hm
    omega

/-- The answers of a source reach to its requests among the first `nd`, if these are answered. -/
theorem rank_le_of_served {nd : Nat} (hserved : ∀ m < nd, (reply src miss G A m).isSome) (hnd : nd ≤ G.length) :
    rank src G d nd ≤ (A d).length := by
  by_contra hlt
  obtain ⟨m, r, hm, hr, hs, hk⟩ := exists_rank hnd (Nat.lt_of_not_le hlt)
  have hnone : reply src miss G A m = none := (reply_eq_none_iff hr hs).2 hk.ge
  have hsome := hserved m hm
  rw [hnone] at hsome
  cases hsome

variable (src miss) in
/-- The open requests to `d` from `nd` on, counted by `P`. -/
theorem countP_open {nd j : Nat} {P : Nat → Bool} (hserved : ∀ m < nd, (reply src miss G A m).isSome)
    (hP : ∀ i r, G[nd + i]? = some r → (P i = true ↔ src r = some d ∧ reply src miss G A (nd + i) = none))
    (hj : nd + j ≤ G.length) :
    (List.range j).countP P + min (rank src G d (nd + j)) (A d).length = rank src G d (nd + j) := by
  induction j with
  | zero =>
    have hle : rank src G d nd ≤ (A d).length := rank_le_of_served hserved hj
    rw [List.range_zero, List.countP_nil, Nat.zero_add]
    exact Nat.min_eq_left hle
  | succ j ih =>
    have hlt : nd + j < G.length := hj
    have hr : G[nd + j]? = some G[nd + j] := List.getElem?_eq_getElem hlt
    have hprev := ih (by omega)
    rw [List.range_succ, List.countP_append, List.countP_singleton, ← Nat.add_assoc nd, rank_succ hr]
    by_cases hs : src G[nd + j] = some d
    · have hopen := (hP j _ hr).trans (and_iff_right hs)
      rw [reply_eq_none_iff hr hs] at hopen
      rw [if_pos hs]
      split
      next h =>
        have := hopen.1 h
        omega
      next h =>
        have := mt hopen.2 h
        omega
    · have hclosed : ¬ P j = true := fun h => hs ((hP j _ hr).1 h).1
      rw [if_neg hs, if_neg hclosed]
      exact hprev

end InOrder
