import PenPlotter.Clocked

/-!
# Programs that access a device

A program is a tree of accesses, each answered by its environment; `spin` repeats one access until the
answer lets it go on. The loop that runs a body forever is a clocked machine whose inputs are the
answers. `wlp` is the weakest precondition of a program for a ghost state that its accesses update:
every access is allowed in the ghost state it finds, and the result satisfies the postcondition. A body
that keeps a loop invariant keeps `wlp` along the whole run (`wlp_step`, `wlp_run`).
-/

inductive Prog (A R α : Type)
  | ret (a : α)
  | act (a : A) (k : R → Prog A R α)
  | spin (a : A) (again : R → Bool) (k : Prog A R α)

namespace Prog

variable {A R α β G : Type}

def bind : Prog A R α → (α → Prog A R β) → Prog A R β
  | ret a, f => f a
  | act a k, f => act a fun r => (k r).bind f
  | spin a again k, f => spin a again (k.bind f)

instance : Monad (Prog A R) where
  pure := ret
  bind := bind

/-- The access that the program makes next; a finished program makes none. -/
def access : Prog A R α → Option A
  | ret _ => none
  | act a _ => some a
  | spin a _ _ => some a

/-- One step of `while (1) body`: a finished body starts over. -/
def step (body : α → Prog A R α) : Prog A R α → R → Prog A R α
  | ret a, _ => body a
  | act _ k, r => k r
  | spin a again k, r => if again r then spin a again k else k

/-! ### Weakest preconditions -/

section Wlp

variable (upd : G → A → R → G) (ok : G → A → Prop)

/-- Every access is allowed, a repeated one leaves the ghost state alone, and `Q` holds at the end. -/
def wlp (Q : α → G → Prop) : Prog A R α → G → Prop
  | ret a, g => Q a g
  | act a k, g => ok g a ∧ ∀ r, wlp Q (k r) (upd g a r)
  | spin a again k, g =>
    ok g a ∧ ∀ r, (again r = true → upd g a r = g) ∧ (again r = false → wlp Q k (upd g a r))

/-- The ghost state after a step. -/
def ghost (g : G) (p : Prog A R α) (r : R) : G := p.access.elim g fun a => upd g a r

variable {upd ok} {Q : α → G → Prop} {g : G} {p : Prog A R α}

theorem wlp_mono {Q' : α → G → Prop} (hQ : ∀ a g, Q a g → Q' a g) (h : wlp upd ok Q p g) :
    wlp upd ok Q' p g := by
  induction p generalizing g with
  | ret a => exact hQ a g h
  | act a k ih => exact ⟨h.1, fun r => ih r (h.2 r)⟩
  | spin a again k ih => exact ⟨h.1, fun r => ⟨(h.2 r).1, fun hr => ih ((h.2 r).2 hr)⟩⟩

theorem wlp_bind {Q : β → G → Prop} {f : α → Prog A R β} :
    wlp upd ok Q (p >>= f) g ↔ wlp upd ok (fun a g => wlp upd ok Q (f a) g) p g := by
  induction p generalizing g with
  | ret a => exact Iff.rfl
  | act a k ih => exact and_congr_right' (forall_congr' fun r => ih r)
  | spin a again k ih =>
    exact and_congr_right' (forall_congr' fun r => and_congr_right' (imp_congr_right fun _ => ih))

theorem wlp.access_ok (h : wlp upd ok Q p g) {a : A} (ha : p.access = some a) : ok g a := by
  cases p with
  | ret b => cases ha
  | act b k => cases ha; exact h.1
  | spin b again k => cases ha; exact h.1

/-- The rule of the loop: a body that restores `Q` keeps the precondition in every step. -/
theorem wlp_step {body : α → Prog A R α} (hbody : ∀ a g, Q a g → wlp upd ok Q (body a) g)
    (h : wlp upd ok Q p g) (r : R) : wlp upd ok Q (p.step body r) (ghost upd g p r) := by
  cases p with
  | ret a => exact hbody a g h
  | act a k => exact h.2 r
  | spin a again k =>
    obtain ⟨hok, hstep⟩ := h
    show wlp upd ok Q (if again r then spin a again k else k) (upd g a r)
    cases hr : again r with
    | true =>
      rw [if_pos rfl, (hstep r).1 hr]
      exact ⟨hok, hstep⟩
    | false =>
      rw [if_neg (by simp)]
      exact (hstep r).2 hr

end Wlp

/-- Every access of the program is `allowed`, and `P` holds of its result. -/
def Only (allowed : A → Prop) (P : α → Prop) : Prog A R α → Prop
  | ret a => P a
  | act a k => allowed a ∧ ∀ r, (k r).Only allowed P
  | spin a _ k => allowed a ∧ k.Only allowed P

section Only

variable {allowed : A → Prop} {P : α → Prop} {p : Prog A R α}

theorem Only.mono {P' : α → Prop} (h : p.Only allowed P) (hP : ∀ a, P a → P' a) :
    p.Only allowed P' := by
  induction p with
  | ret a => exact hP a h
  | act a k ih => exact ⟨h.1, fun r => ih r (h.2 r)⟩
  | spin a again k ih => exact ⟨h.1, ih h.2⟩

theorem Only.allow {allowed' : A → Prop} (h : p.Only allowed P) (hA : ∀ a, allowed a → allowed' a) :
    p.Only allowed' P := by
  induction p with
  | ret a => exact h
  | act a k ih => exact ⟨hA a h.1, fun r => ih r (h.2 r)⟩
  | spin a again k ih => exact ⟨hA a h.1, ih h.2⟩

theorem Only.bind {P' : β → Prop} {f : α → Prog A R β} (h : p.Only allowed P)
    (hf : ∀ a, P a → (f a).Only allowed P') : (p >>= f).Only allowed P' := by
  induction p with
  | ret a => exact hf a h
  | act a k ih => exact ⟨h.1, fun r => ih r (h.2 r)⟩
  | spin a again k ih => exact ⟨h.1, ih h.2⟩

theorem Only.access (h : p.Only allowed P) {a : A} (ha : p.access = some a) : allowed a := by
  cases p with
  | ret b => cases ha
  | act b k => cases ha; exact h.1
  | spin b again k => cases ha; exact h.1

theorem Only.step {body : α → Prog A R α} (h : p.Only allowed P) (hbody : ∀ a, P a → (body a).Only allowed P)
    (r : R) : (p.step body r).Only allowed P := by
  cases p with
  | ret a => exact hbody a h
  | act a k => exact h.2 r
  | spin a again k =>
    show Prog.Only _ _ (if again r then spin a again k else k)
    split
    · exact h
    · exact h.2

/-- The frame rule: accesses that are fine in `g` and leave it alone. -/
theorem Only.wlp {upd : G → A → R → G} {ok : G → A → Prop} {g : G} (h : p.Only allowed P)
    (hframe : ∀ a, allowed a → ok g a ∧ ∀ r, upd g a r = g) :
    p.wlp upd ok (fun a g' => g' = g ∧ P a) g := by
  induction p with
  | ret a => exact ⟨rfl, h⟩
  | act a k ih =>
    refine ⟨(hframe a h.1).1, fun r => ?_⟩
    rw [(hframe a h.1).2 r]
    exact ih r (h.2 r)
  | spin a again k ih =>
    refine ⟨(hframe a h.1).1, fun r => ⟨fun _ => (hframe a h.1).2 r, fun _ => ?_⟩⟩
    rw [(hframe a h.1).2 r]
    exact ih h.2

end Only

/-- Every repeated access of the program waits for the same condition. -/
def SpinsOn (again : R → Bool) : Prog A R α → Prop
  | ret _ => True
  | act _ k => ∀ r, (k r).SpinsOn again
  | spin _ again' k => again' = again ∧ k.SpinsOn again

variable {again : R → Bool} {p : Prog A R α}

theorem SpinsOn.bind {f : α → Prog A R β} (h : p.SpinsOn again) (hf : ∀ a, (f a).SpinsOn again) :
    (p >>= f).SpinsOn again := by
  induction p with
  | ret a => exact hf a
  | act a k ih => exact fun r => ih r (h r)
  | spin a again' k ih => exact ⟨h.1, ih h.2⟩

theorem SpinsOn.step {body : α → Prog A R α} (hbody : ∀ a, (body a).SpinsOn again)
    (h : p.SpinsOn again) (r : R) : (p.step body r).SpinsOn again := by
  cases p with
  | ret a => exact hbody a
  | act a k => exact h r
  | spin a again' k =>
    show Prog.SpinsOn again (if again' r then spin a again' k else k)
    split
    · exact h
    · exact h.2

/-- Every path of the program comes to an access in `P`, or to an end in `E`. -/
def Leads (P : A → Prop) (E : α → Prop) : Prog A R α → Prop
  | ret a => E a
  | act a k => P a ∨ ∀ r, (k r).Leads P E
  | spin a _ k => P a ∨ k.Leads P E

theorem leads_end (p : Prog A R α) : p.Leads (fun _ => False) fun _ => True := by
  induction p with
  | ret a => trivial
  | act a k ih => exact .inr ih
  | spin a again k ih => exact .inr ih

theorem Only.leads {allowed P : A → Prop} {E : α → Prop} (h : p.Only allowed E) : p.Leads P E := by
  induction p with
  | ret a => exact h
  | act a k ih => exact .inr fun r => ih r (h.2 r)
  | spin a again k ih => exact .inr (ih h.2)

theorem Leads.bind {P : A → Prop} {E : α → Prop} {E' : β → Prop} {f : α → Prog A R β} (h : p.Leads P E)
    (hf : ∀ a, E a → (f a).Leads P E') : (p >>= f).Leads P E' := by
  induction p with
  | ret a => exact hf a h
  | act a k ih => exact h.imp_right fun h r => ih r (h r)
  | spin a again k ih => exact h.imp_right ih

/-- A run of `while (1) body` that moves on in the cycles with `go` only. -/
def Paced (body : α → Prog A R α) (prog : Nat → Prog A R α) (go : Nat → Bool) (resp : Nat → R) : Prop :=
  ∀ t, prog (t + 1) = if go t then (prog t).step body (resp t) else prog t

section Paced

variable {body : α → Prog A R α} {prog : Nat → Prog A R α} {go : Nat → Bool} {resp : Nat → R}

theorem Paced.of_go (hrun : Paced body prog go resp) {t : Nat} (hgo : go t = true) :
    prog (t + 1) = (prog t).step body (resp t) := (hrun t).trans (if_pos hgo)

theorem Paced.of_wait (hrun : Paced body prog go resp) {t : Nat} (hgo : go t = false) : prog (t + 1) = prog t :=
  (hrun t).trans (if_neg (by rw [hgo]; exact Bool.false_ne_true))

theorem Paced.spinsOn (hrun : Paced body prog go resp) (hbody : ∀ a, (body a).SpinsOn again)
    (h0 : (prog 0).SpinsOn again) (t : Nat) : (prog t).SpinsOn again := by
  induction t with
  | zero => exact h0
  | succ t ih =>
    cases hgo : go t with
    | true =>
      rw [hrun.of_go hgo]
      exact ih.step hbody _
    | false => rwa [hrun.of_wait hgo]

/-- A program that only moves on in cycles with `c` is met in such a cycle, if there is one. -/
theorem exists_move {c : Nat → Prop} (hstay : ∀ t, prog t = p → ¬ c t → prog (t + 1) = p) {t u : Nat} (htu : t ≤ u)
    (hu : c u) (hp : prog t = p) : ∃ v ≥ t, prog v = p ∧ c v := by
  induction hd : u - t generalizing t with
  | zero =>
    obtain rfl : u = t := by omega
    exact ⟨u, Nat.le_refl u, hp, hu⟩
  | succ d ih =>
    by_cases hc : c t
    · exact ⟨t, Nat.le_refl t, hp, hc⟩
    · obtain ⟨v, hv, hmove⟩ := ih (by omega) (hstay t hp hc) (by omega)
      exact ⟨v, by omega, hmove⟩

/-- Where every path leads, a run comes whose repeated accesses are let go on again and again. -/
theorem Paced.reached (hrun : Paced body prog go resp) {P : A → Prop} {E : α → Prop}
    (hfair : ∀ t, ∃ t' ≥ t, go t' = true ∧ again (resp t') = false) {t : Nat} (hp : prog t = p)
    (hs : p.SpinsOn again) (hl : p.Leads P E) :
    ∃ t' ≥ t, (∃ a, prog t' = ret a ∧ E a) ∨ go t' = true ∧ ∃ a, (prog t').access = some a ∧ P a := by
  induction p generalizing t with
  | ret a => exact ⟨t, Nat.le_refl t, .inl ⟨a, hp, hl⟩⟩
  | act a k ih =>
    obtain ⟨u, hu, hgo, -⟩ := hfair t
    have hstay (t : Nat) (ht : prog t = act a k) (hgo : ¬ go t = true) : prog (t + 1) = act a k :=
      (hrun.of_wait (Bool.eq_false_iff.2 hgo)).trans ht
    obtain ⟨v, hv, hpv, hgo⟩ := exists_move hstay hu hgo hp
    rcases hl with hP | hl
    · exact ⟨v, hv, .inr ⟨hgo, a, by rw [hpv]; rfl, hP⟩⟩
    · have hnext : prog (v + 1) = k (resp v) := by
        rw [hrun.of_go hgo, hpv]
        rfl
      obtain ⟨t', ht', hreach⟩ := ih (resp v) hnext (hs _) (hl _)
      exact ⟨t', by omega, hreach⟩
  | spin a again' k ih =>
    obtain ⟨rfl, hk⟩ := hs
    obtain ⟨u, hu, hgo⟩ := hfair t
    have hstay (t : Nat) (ht : prog t = spin a again' k) (hgo : ¬ (go t = true ∧ again' (resp t) = false)) :
        prog (t + 1) = spin a again' k := by
      cases hgt : go t with
      | false => exact (hrun.of_wait hgt).trans ht
      | true =>
        have hagain : again' (resp t) = true := eq_true_of_ne_false fun h => hgo ⟨hgt, h⟩
        rw [hrun.of_go hgt, ht]
        exact if_pos hagain
    obtain ⟨v, hv, hpv, hgo, hfree⟩ := exists_move hstay hu hgo hp
    rcases hl with hP | hl
    · exact ⟨v, hv, .inr ⟨hgo, a, by rw [hpv]; rfl, hP⟩⟩
    · have hnext : prog (v + 1) = k := by
        rw [hrun.of_go hgo, hpv]
        exact if_neg (by rw [hfree]; exact Bool.false_ne_true)
      obtain ⟨t', ht', hreach⟩ := ih hnext hk hl
      exact ⟨t', by omega, hreach⟩

theorem Paced.exists_end (hrun : Paced body prog go resp)
    (hfair : ∀ t, ∃ t' ≥ t, go t' = true ∧ again (resp t') = false) {t : Nat} (hs : (prog t).SpinsOn again) :
    ∃ t' ≥ t, ∃ a, prog t' = ret a := by
  obtain ⟨t', ht', hreach⟩ := hrun.reached hfair rfl hs (leads_end _)
  rcases hreach with ⟨a, ha, -⟩ | ⟨-, a, -, hfalse⟩
  · exact ⟨t', ht', a, ha⟩
  · exact hfalse.elim

end Paced

/-- A program whose repeated accesses are let go on again and again comes to its end. -/
theorem exists_ret {body : α → Prog A R α} {start : Prog A R α} {resp : Nat → R}
    (hfair : ∀ t, ∃ t' ≥ t, again (resp t') = false) {t : Nat}
    (hp : Clocked.run (step body) start resp t = p) (hs : p.SpinsOn again) :
    ∃ t' ≥ t, ∃ a, Clocked.run (step body) start resp t' = ret a := by
  have hrun : Paced body (Clocked.run (step body) start resp) (fun _ => true) resp := fun _ => rfl
  refine hrun.exists_end (fun t => ?_) (hp ▸ hs)
  obtain ⟨t', ht', hfree⟩ := hfair t
  exact ⟨t', ht', rfl, hfree⟩

end Prog
