import Mathlib.Data.List.Basic
import Mathlib.Data.List.Infix

/-!
# Clocked machines

A synchronous machine is a step function `S → I → S`. `run` is its state before each cycle of an
infinite input stream and `log` is what an observation emits in the cycles before a given one; a
finite run is a stream cut off at a time. Everything here is about arbitrary machines.
-/

namespace Clocked

variable {S S' I I' E : Type*}

/-- The state before cycle `t`. -/
def run (step : S → I → S) (s : S) (inp : Nat → I) : Nat → S
  | 0 => s
  | t + 1 => step (run step s inp t) (inp t)

/-- Everything `out` emits in cycles `0, …, t - 1`, in order. -/
def log (step : S → I → S) (out : S → I → List E) (s : S) (inp : Nat → I) : Nat → List E
  | 0 => []
  | t + 1 => log step out s inp t ++ out (run step s inp t) (inp t)

variable {step : S → I → S} {out : S → I → List E} {s : S} {inp : Nat → I}

@[simp] theorem run_zero : run step s inp 0 = s := rfl

theorem run_succ (t : Nat) : run step s inp (t + 1) = step (run step s inp t) (inp t) := rfl

@[simp] theorem log_zero : log step out s inp 0 = [] := rfl

theorem log_succ (t : Nat) :
    log step out s inp (t + 1) = log step out s inp t ++ out (run step s inp t) (inp t) := rfl

theorem run_add (m n : Nat) :
    run step s inp (m + n) = run step (run step s inp m) (fun t => inp (m + t)) n := by
  induction n with
  | zero => rfl
  | succ n ih => rw [← Nat.add_assoc, run_succ, ih]; rfl

theorem log_add (m n : Nat) :
    log step out s inp (m + n) =
      log step out s inp m ++ log step out (run step s inp m) (fun t => inp (m + t)) n := by
  induction n with
  | zero => simp
  | succ n ih => rw [← Nat.add_assoc, log_succ, ih, log_succ, run_add, List.append_assoc]

theorem log_mono {m n : Nat} (h : m ≤ n) : log step out s inp m <+: log step out s inp n := by
  obtain ⟨d, rfl⟩ := Nat.exists_eq_add_of_le h
  rw [log_add]
  exact List.prefix_append _ _

theorem run_congr {inp' : Nat → I} {t : Nat} (h : ∀ j < t, inp j = inp' j) :
    run step s inp t = run step s inp' t := by
  induction t with
  | zero => rfl
  | succ t ih => rw [run_succ, run_succ, ih fun j hj => h j (by omega), h t (by omega)]

theorem log_congr {inp' : Nat → I} {t : Nat} (h : ∀ j < t, inp j = inp' j) :
    log step out s inp t = log step out s inp' t := by
  induction t with
  | zero => rfl
  | succ t ih =>
    rw [log_succ, log_succ, ih fun j hj => h j (by omega), h t (by omega),
      run_congr fun j hj => h j (Nat.lt_succ_of_lt hj)]

/-- What holds at first and is kept by every cycle of the run holds throughout. -/
theorem run_inv {P : S → Prop} (h0 : P s)
    (hstep : ∀ t, P (run step s inp t) → P (run step s inp (t + 1))) (t : Nat) :
    P (run step s inp t) := by
  induction t with
  | zero => exact h0
  | succ t ih => exact hstep t ih

/-- A part `f` of the state that evolves on its own, driven by a part `g` of the inputs (which may
depend on the state), is a run of its own machine. -/
theorem run_map {step' : S' → I' → S'} (f : S → S') (g : Nat → I')
    (h : ∀ t, f (run step s inp (t + 1)) = step' (f (run step s inp t)) (g t)) (t : Nat) :
    f (run step s inp t) = run step' (f s) g t := by
  induction t with
  | zero => rfl
  | succ t ih => rw [h, ih]; rfl

/-- What such a part emits is the log of its own machine. -/
theorem log_map {step' : S' → I' → S'} {out' : S' → I' → List E} (f : S → S') (g : Nat → I')
    (h : ∀ t, f (run step s inp (t + 1)) = step' (f (run step s inp t)) (g t))
    (hout : ∀ t, out (run step s inp t) (inp t) = out' (f (run step s inp t)) (g t)) (t : Nat) :
    log step out s inp t = log step' out' (f s) g t := by
  induction t with
  | zero => rfl
  | succ t ih => rw [log_succ, log_succ, ih, hout, run_map f g h]

/-- A list that grows whenever it is behind another one has it whole in the end. -/
theorem exists_caught_up {done all : Nat → List E} (hmono : ∀ {m n}, m ≤ n → all m <+: all n)
    (hpre : ∀ t, done t <+: all t)
    (hgrow : ∀ t, (done t).length < (all t).length → ∃ t' > t, (done t).length < (done t').length) (t : Nat) :
    ∃ t' ≥ t, all t <+: done t' := by
  have hlen : ∀ n ≤ (all t).length, ∃ t' ≥ t, n ≤ (done t').length := by
    intro n
    induction n with
    | zero => exact fun _ => ⟨t, Nat.le_refl t, Nat.zero_le _⟩
    | succ n ih =>
      intro hn
      obtain ⟨t', ht', hdone⟩ := ih (by omega)
      have hle := (hmono ht').length_le
      by_cases hlt : (done t').length < (all t').length
      · obtain ⟨t'', ht'', hlt'⟩ := hgrow t' hlt
        exact ⟨t'', by omega, by omega⟩
      · exact ⟨t', ht', by omega⟩
  obtain ⟨t', ht', hdone⟩ := hlen _ (Nat.le_refl _)
  exact ⟨t', ht', List.prefix_of_prefix_length_le (hmono ht') (hpre t') hdone⟩

end Clocked
