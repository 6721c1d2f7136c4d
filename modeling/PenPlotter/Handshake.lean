import PenPlotter.Clocked

/-!
# Ports that answer in order

A port of a clocked machine accepts requests, each of which is due something, and gives answers. When what is
pending can be read off the state (`Pending`: it grows by what is accepted and shrinks from the front by what
is answered), the answers are what was due, in order, each in a later cycle than its request. Everything here
is about arbitrary machines.
-/

namespace Handshake

variable {S I E : Type*}

/-- A machine with a port: what the requests accepted in a cycle are due, and what it answers there. -/
structure Port (S I E : Type*) where
  step : S → I → S
  due : S → I → List E
  answer : S → List E

namespace Port

variable (P : Port S I E) (s : S) (inp : Nat → I)

def run (t : Nat) : S := Clocked.run P.step s inp t

/-- Everything due to the requests accepted before cycle `t`. -/
def owed (t : Nat) : List E := Clocked.log P.step P.due s inp t

/-- Everything answered before cycle `t`. -/
def given (t : Nat) : List E := Clocked.log P.step (fun s _ => P.answer s) s inp t

/-- Each answer is the next one due, for a request of an earlier cycle. -/
def InOrder : Prop := ∀ inp t, P.given s inp (t + 1) <+: P.owed s inp t

/-- Each request is answered in the end. -/
def Complete : Prop := ∀ inp t, ∃ t' ≥ t, P.owed s inp t <+: P.given s inp t'

/-- `pending` is what is due and not yet answered, in the states that satisfy `Inv`. -/
structure Pending (Inv : S → Prop) (pending : S → List E) : Prop where
  inv : ∀ {s}, Inv s → ∀ i, Inv (P.step s i)
  step : ∀ {s}, Inv s → ∀ i, pending s ++ P.due s i = P.answer s ++ pending (P.step s i)
  answer : ∀ {s}, Inv s → P.answer s <+: pending s

variable {P s inp} {Inv : S → Prop} {pending : S → List E}

theorem given_add (m n : Nat) :
    P.given s inp (m + n) = P.given s inp m ++ P.given (P.run s inp m) (fun t => inp (m + t)) n :=
  Clocked.log_add m n

theorem given_one : P.given s inp 1 = P.answer s := List.nil_append _

theorem given_one_add (n : Nat) :
    P.given s inp (1 + n) = P.answer s ++ P.given (P.step s (inp 0)) (fun t => inp (1 + t)) n := by
  rw [given_add, given_one]
  rfl

/-- A state that answers nothing in this cycle is served when the next one is. -/
theorem served_of_next (ha : P.answer s = []) (hp : pending (P.step s (inp 0)) = pending s)
    (h : ∃ t, pending (P.step s (inp 0)) <+: P.given (P.step s (inp 0)) (fun t => inp (1 + t)) t) :
    ∃ t, pending s <+: P.given s inp t := by
  obtain ⟨t, ht⟩ := h
  refine ⟨1 + t, ?_⟩
  rwa [given_one_add, ha, List.nil_append, ← hp]

namespace Pending

theorem inv_run (h : P.Pending Inv pending) (hs : Inv s) (t : Nat) : Inv (P.run s inp t) :=
  Clocked.run_inv hs (fun t ht => h.inv ht (inp t)) t

theorem owed_eq (h : P.Pending Inv pending) (hs : Inv s) (h0 : pending s = []) (t : Nat) :
    P.owed s inp t = P.given s inp t ++ pending (P.run s inp t) := by
  induction t with
  | zero => exact h0.symm
  | succ t ih =>
    have hinv : Inv (P.run s inp t) := h.inv_run hs t
    have hstep := h.step hinv (inp t)
    calc P.owed s inp (t + 1) = P.owed s inp t ++ P.due (P.run s inp t) (inp t) := rfl
      _ = P.given s inp t ++ (P.answer (P.run s inp t) ++ pending (P.run s inp (t + 1))) := by
        rw [ih, List.append_assoc, hstep]
        rfl
      _ = P.given s inp (t + 1) ++ pending (P.run s inp (t + 1)) := (List.append_assoc ..).symm

theorem inOrder (h : P.Pending Inv pending) (hs : Inv s) (h0 : pending s = []) : P.InOrder s := by
  intro inp t
  rw [h.owed_eq hs h0]
  exact (List.prefix_append_right_inj _).2 (h.answer (h.inv_run hs t))

/-- When every state answers what it has pending, the port is complete. -/
theorem complete (h : P.Pending Inv pending) (hs : Inv s) (h0 : pending s = [])
    (hlive : ∀ s inp, Inv s → ∃ t, pending s <+: P.given s inp t) : P.Complete s := by
  intro inp t
  obtain ⟨d, hd⟩ := hlive (P.run s inp t) (fun j => inp (t + j)) (h.inv_run hs t)
  refine ⟨t + d, Nat.le_add_right t d, ?_⟩
  rw [h.owed_eq hs h0, given_add]
  exact (List.prefix_append_right_inj _).2 hd

end Pending

theorem pending_of_next (h : ∀ s i, P.answer (P.step s i) = P.due s i) :
    P.Pending (fun _ => True) P.answer where
  inv _ _ := trivial
  step _ i := congrArg _ (h _ i).symm
  answer _ := List.prefix_rfl

theorem complete_of_next (h : ∀ s i, P.answer (P.step s i) = P.due s i) (h0 : P.answer s = []) :
    P.Complete s :=
  (pending_of_next h).complete trivial h0 fun _ _ _ => ⟨1, by rw [given_one]⟩

theorem inOrder_of_next (h : ∀ s i, P.answer (P.step s i) = P.due s i) (h0 : P.answer s = []) :
    P.InOrder s :=
  (pending_of_next h).inOrder trivial h0

end Port

end Handshake
