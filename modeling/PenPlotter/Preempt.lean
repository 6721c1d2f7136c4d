import Mathlib

/-!
# A program and what interrupts it

A program runs on a memory that interrupts change between its steps. What an interrupt changes is either
shared or not live: the program has not stored there, or has given the address up since. `Preempted` is
the program with interrupts anywhere between its steps, `Alone` the program by itself, to which a shared
address answers with any value. A program that reads only what it owns and what is shared goes through
the same states in both (`alone_of_preempted`): interrupts act on it through the shared addresses alone.
An interrupt may need something of the state it finds (`safe`), which the program has to keep by itself.
-/

namespace Preempt

variable {C A V : Type}

/-- What a program does next; a load may read several addresses and a store write several. -/
inductive Act (C A V : Type)
  | next (c : C)
  | load (as : List A) (k : List V → C)
  | store (w : A → Option V) (c : C)

/-- The addresses that the program owns are those whose values it can still rely on. -/
structure Alone (C A V : Type) where
  core : C
  mem : A → V
  own : Set A

def overwrite (w : A → Option V) (m : A → V) (a : A) : V := (w a).getD (m a)

section

variable (prog : C → Act C A V) (shared : Set A) (live : C → Set A) (safe : C → Prop)

inductive AloneStep (s : Alone C A V) : Alone C A V → Prop
  | next {c : C} (h : prog s.core = .next c) : AloneStep s ⟨c, s.mem, s.own ∩ live c⟩
  | load {as : List A} {k : List V → C} (vs : List V) (h : prog s.core = .load as k)
      (hv : List.Forall₂ (fun a v => a ∉ shared → v = s.mem a) as vs) :
    AloneStep s ⟨k vs, s.mem, s.own ∩ live (k vs)⟩
  | store {w : A → Option V} {c : C} (h : prog s.core = .store w c) :
    AloneStep s ⟨c, overwrite w s.mem, (s.own ∪ {a | (w a).isSome}) ∩ live c⟩

/-- The states of the program's core, after each of its steps. -/
inductive AloneRun (s₀ : Alone C A V) : List C → Alone C A V → Prop
  | start : AloneRun s₀ [] s₀
  | step {cs : List C} {s s' : Alone C A V} (h : AloneRun s₀ cs s) (hs : AloneStep prog shared live s s') :
    AloneRun s₀ (cs ++ [s'.core]) s'

/-- A step of the program on a memory. -/
inductive Step (c : C) (m : A → V) : C → (A → V) → Prop
  | next {c' : C} (h : prog c = .next c') : Step c m c' m
  | load {as : List A} {k : List V → C} (h : prog c = .load as k) : Step c m (k (as.map m)) m
  | store {w : A → Option V} {c' : C} (h : prog c = .store w c') : Step c m c' (overwrite w m)

inductive Preempted (c₀ : C) (m₀ : A → V) : List C → C → (A → V) → Prop
  | start : Preempted c₀ m₀ [] c₀ m₀
  | step {cs : List C} {c c' : C} {m m' : A → V} (h : Preempted c₀ m₀ cs c m) (hs : Step prog c m c' m') :
    Preempted c₀ m₀ (cs ++ [c']) c' m'
  | interrupt {cs : List C} {c c' : C} {m m' : A → V} (h : Preempted c₀ m₀ cs c m)
      (hm : safe c → c' = c ∧ ∀ a ∈ live c, a ∉ shared → m' a = m a) : Preempted c₀ m₀ cs c' m'

/-- By itself the program reads only what it owns or shares, and is always safe to interrupt. -/
structure Disciplined (s₀ : Alone C A V) : Prop where
  reads : ∀ cs s, AloneRun prog shared live s₀ cs s →
    ∀ as k, prog s.core = .load as k → ∀ a ∈ as, a ∈ shared ∨ a ∈ s.own
  safe : ∀ cs s, AloneRun prog shared live s₀ cs s → safe s.core

/-- The memories agree on what is owned and not shared, and what is owned is live. -/
structure Agrees (s : Alone C A V) (c : C) (m : A → V) : Prop where
  core : s.core = c
  mem : ∀ a ∈ s.own, a ∉ shared → s.mem a = m a
  live : s.own ⊆ live c

variable {prog shared live safe} {s₀ s : Alone C A V} {cs : List C} {c c' : C} {m m' : A → V}

theorem Agrees.interrupt (h : Agrees shared live s c m) (hm : ∀ a ∈ live c, a ∉ shared → m' a = m a) :
    Agrees shared live s c m' := by
  refine ⟨h.core, ?_, h.live⟩
  intro a ha hshared
  rw [hm a (h.live ha) hshared]
  exact h.mem a ha hshared

theorem Agrees.step (h : Agrees shared live s c m) (hs : Step prog c m c' m')
    (hread : ∀ as k, prog s.core = .load as k → ∀ a ∈ as, a ∈ shared ∨ a ∈ s.own) :
    ∃ s', AloneStep prog shared live s s' ∧ Agrees shared live s' c' m' := by
  obtain ⟨rfl, hmem, -⟩ := h
  cases hs with
  | next hp => exact ⟨_, .next hp, rfl, fun a ha => hmem a ha.1, Set.inter_subset_right⟩
  | @load as k hp =>
    refine ⟨_, .load _ hp ?_, rfl, fun a ha => hmem a ha.1, Set.inter_subset_right⟩
    rw [List.forall₂_map_right_iff, List.forall₂_same]
    intro a ha hshared
    rcases hread _ _ hp a ha with hin | hown
    · exact absurd hin hshared
    · exact (hmem a hown hshared).symm
  | @store w _ hp =>
    refine ⟨_, .store hp, rfl, ?_, Set.inter_subset_right⟩
    rintro a ⟨ha, -⟩ hshared
    show (w a).getD (s.mem a) = (w a).getD (m a)
    cases hw : w a with
    | some v => rfl
    | none =>
      rcases ha with hown | hwritten
      · exact hmem a hown hshared
      · simp [hw] at hwritten

/-- Interrupts act through the shared addresses alone. -/
theorem alone_of_preempted (h₀ : Agrees shared live s₀ c m) (hdisc : Disciplined prog shared live safe s₀)
    (h : Preempted prog shared live safe c m cs c' m') :
    ∃ s, AloneRun prog shared live s₀ cs s ∧ Agrees shared live s c' m' := by
  induction h with
  | start => exact ⟨s₀, .start, h₀⟩
  | step _ hs ih =>
    obtain ⟨s, hrun, hagrees⟩ := ih
    obtain ⟨s', hstep, hagrees'⟩ := hagrees.step hs (hdisc.reads _ s hrun)
    rw [← hagrees'.core]
    exact ⟨s', hrun.step hstep, ⟨rfl, hagrees'.mem, by rw [hagrees'.core]; exact hagrees'.live⟩⟩
  | interrupt _ hm ih =>
    obtain ⟨s, hrun, hagrees⟩ := ih
    have hsafe := hdisc.safe _ s hrun
    rw [hagrees.core] at hsafe
    obtain ⟨rfl, hmem⟩ := hm hsafe
    exact ⟨s, hrun, hagrees.interrupt hmem⟩

end

end Preempt
