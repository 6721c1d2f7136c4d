import PenPlotter.BusOrder

/-!
# Every granted request gets its response

When the devices keep their discipline and also answer every request that they accept, the response of a
granted request falls due, and the bus drives it in the next cycle.
-/

namespace PenPlotter

open InOrder

variable {H D k : Nat} [NeZero H] [NeZero D] {cfg : AddrMap D} {inp : Nat → BusIn H D}

namespace BusRun

variable (k cfg inp) in
/-- The devices of the run answer every request granted to them. -/
def DevicesComplete : Prop :=
  ∀ d t, ∃ t' ≥ t, (accepts k cfg inp d t).length ≤ (answers k cfg inp t' d).length

theorem grants_mono {t t' : Nat} (h : t ≤ t') : grants k cfg inp t <+: grants k cfg inp t' :=
  Clocked.log_mono h

theorem rank_grants_mono {t t' : Nat} (h : t ≤ t') {n : Nat} (hn : n ≤ (grants k cfg inp t).length) (d : Fin D) :
    cfg.rank (grants k cfg inp t') d n = cfg.rank (grants k cfg inp t) d n := by
  have hpre : grants k cfg inp t <+: grants k cfg inp t' := grants_mono h
  obtain ⟨L, hL⟩ := hpre
  rw [← hL]
  exact rank_append L hn

/-- The response of a granted request falls due. -/
theorem exists_response (hlive : DevicesComplete k cfg inp) {n t : Nat} (hn : n < (grants k cfg inp t).length) :
    ∃ t' ≥ t, ∃ r, cfg.response (grants k cfg inp t') (answers k cfg inp t') n = some r := by
  have hg : (grants k cfg inp t)[n]? = some (grants k cfg inp t)[n] := List.getElem?_eq_getElem hn
  generalize (grants k cfg inp t)[n] = g at hg
  cases hd : cfg.decode g.addr with
  | none =>
    have hmiss : cfg.reply (grants k cfg inp t) (answers k cfg inp t) n = some decodeError :=
      reply_miss hg hd
    exact ⟨t, le_rfl, _, by rw [AddrMap.response, hg, hmiss]; rfl⟩
  | some d =>
    obtain ⟨t', ht', hanswered⟩ := hlive d t
    have hg' : (grants k cfg inp t')[n]? = some g := by
      have hpre : grants k cfg inp t <+: grants k cfg inp t' := grants_mono ht'
      obtain ⟨L, hL⟩ := hpre
      rw [← hL, List.getElem?_append_left hn, hg]
    have hrank : cfg.rank (grants k cfg inp t') d n < (answers k cfg inp t' d).length := by
      rw [rank_grants_mono ht' hn.le]
      rw [length_accepts] at hanswered
      exact lt_of_lt_of_le (rank_lt hg hd hn) hanswered
    have hreply : cfg.reply (grants k cfg inp t') (answers k cfg inp t') n =
        (answers k cfg inp t' d)[cfg.rank (grants k cfg inp t') d n]? := reply_source hg' hd
    rw [List.getElem?_eq_getElem hrank] at hreply
    exact ⟨t', ht', _, by rw [AddrMap.response, hg', hreply]; rfl⟩

theorem served (hdev : DevicesAnswer k cfg inp) (hlive : DevicesComplete k cfg inp) (t : Nat) :
    ∃ t' ≥ t, (grants k cfg inp t).length ≤ (responses k cfg inp t').length := by
  have hprefix : ∀ n ≤ (grants k cfg inp t).length, ∃ t' ≥ t, n ≤ (responses k cfg inp t').length := by
    intro n
    induction n with
    | zero => exact fun _ => ⟨t, le_rfl, Nat.zero_le _⟩
    | succ n ih =>
      intro hn
      obtain ⟨t₁, ht₁, hle⟩ := ih (by omega)
      have hn₁ : n < (grants k cfg inp t₁).length :=
        lt_of_lt_of_le hn (grants_mono ht₁).length_le
      obtain ⟨t₂, ht₂, r, hr⟩ := exists_response hlive hn₁
      have hle₂ : (responses k cfg inp t₁).length ≤ (responses k cfg inp t₂).length :=
        (Clocked.log_mono ht₂).length_le
      rcases Nat.lt_or_eq_of_le (hle.trans hle₂) with hlt | heq
      · exact ⟨t₂, ht₁.trans ht₂, hlt⟩
      · -- request `n` is the next in turn
        rw [heq] at hr
        refine ⟨t₂ + 1, by omega, ?_⟩
        rw [responses_succ hdev, hr, Option.toList_some, List.length_append, ← heq]
        exact le_rfl
  exact hprefix _ le_rfl

end BusRun

end PenPlotter
