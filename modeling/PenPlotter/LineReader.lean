import PenPlotter.Clocked
import PenPlotter.Serial

/-!
# Senders and readers of a line

`F b` is the frame of `b` on the line, of whatever shape. A line that a sender has written is a list of gaps and
frames, up to an idle stretch or a part of a frame (`Sending`). A `Reader` is ready between frames: a gap leaves
it so, and so does a frame, which gives its byte. So a reader gives the bytes of the frames on the line, in order,
and that of the frame in progress at most once (`Reader.emitted`).
-/

namespace Serial

variable {S : Type*} {L : Nat → Bool} {l l' : List Bool} {x : Bool}

/-- The line shows `l` from cycle 0 on. -/
def OnLine (l : List Bool) (L : Nat → Bool) : Prop := ∀ j < l.length, l[j]? = some (L j)

theorem onLine_nil : OnLine [] L := fun _ hj => absurd hj (Nat.not_lt_zero _)

theorem onLine_append : OnLine (l ++ l') L ↔ OnLine l L ∧ OnLine l' fun j => L (l.length + j) := by
  constructor
  · intro h
    refine ⟨fun j hj => ?_, fun j hj => ?_⟩
    · rw [← h j (by rw [List.length_append]; omega), List.getElem?_append_left hj]
    · rw [← h (l.length + j) (by rw [List.length_append]; omega),
        List.getElem?_append_right (Nat.le_add_right _ _), Nat.add_sub_cancel_left]
  · rintro ⟨hl, hl'⟩ j hj
    rcases Nat.lt_or_ge j l.length with hlt | hge
    · rw [List.getElem?_append_left hlt, hl j hlt]
    · rw [List.length_append] at hj
      rw [List.getElem?_append_right hge, hl' (j - l.length) (by omega)]
      exact congrArg (fun j => some (L j)) (Nat.add_sub_cancel' hge)

theorem onLine_replicate {g : Nat} : OnLine (List.replicate g x) L ↔ ∀ j < g, L j = x := by
  have hcycle (j : Nat) (hj : j < g) : (List.replicate g x)[j]? = some (L j) ↔ L j = x := by
    rw [List.getElem?_replicate, if_pos hj, Option.some_inj]
    exact eq_comm
  rw [OnLine, List.length_replicate]
  exact forall_congr' fun j => forall_congr' fun hj => hcycle j hj

theorem onLine_singleton : OnLine [x] L ↔ L 0 = x := by
  rw [← List.replicate_one, onLine_replicate]
  exact Nat.forall_lt_succ_left.trans (and_iff_left fun j hj => absurd hj (Nat.not_lt_zero j))

theorem OnLine.extend (h : OnLine l L) (l' : List Bool) :
    ∃ L', OnLine (l ++ l') L' ∧ ∀ j < l.length, L' j = L j := by
  refine ⟨fun j => (l ++ l')[j]?.getD true, fun j hj => ?_, fun j hj => ?_⟩
  · dsimp only
    rw [List.getElem?_eq_getElem hj]
    rfl
  · dsimp only
    rw [List.getElem?_append_left hj, h j hj]
    rfl

theorem onLine_log {I : Type*} (step : S → I → S) (o : S → I → Bool) (s : S) (inp : Nat → I) (t : Nat) :
    (Clocked.log step (fun s i => [o s i]) s inp t).length = t ∧
      OnLine (Clocked.log step (fun s i => [o s i]) s inp t) fun t => o (Clocked.run step s inp t) (inp t) := by
  induction t with
  | zero => exact ⟨rfl, onLine_nil⟩
  | succ t ih =>
    obtain ⟨hlen, hline⟩ := ih
    rw [Clocked.log_succ]
    refine ⟨by rw [List.length_append, hlen]; rfl, onLine_append.2 ⟨hline, ?_⟩⟩
    rw [hlen]
    exact onLine_singleton.2 rfl

theorem prefix_concat_of_getElem? {part : List Bool} (h : part <+: l) (hx : l[part.length]? = some x) :
    part ++ [x] <+: l := by
  obtain ⟨rest, rfl⟩ := h
  rw [List.getElem?_append_right (Nat.le_refl _), Nat.sub_self] at hx
  cases rest with
  | nil => cases hx
  | cons y rest =>
    cases hx
    exact ⟨rest, by rw [List.append_assoc]; rfl⟩

section Sending

variable (F : BitVec 8 → List Bool)

/-- Each byte is preceded by a gap of the given number of idle cycles. -/
def waveOf (fs : List (Nat × BitVec 8)) : List Bool := fs.flatMap fun f => List.replicate f.1 true ++ F f.2

theorem waveOf_concat (fs : List (Nat × BitVec 8)) (g : Nat) (b : BitVec 8) :
    waveOf F (fs ++ [(g, b)]) = waveOf F fs ++ (List.replicate g true ++ F b) := by
  rw [waveOf, List.flatMap_append, List.flatMap_singleton]
  rfl

/-- `l` carries the frames of `sent`, and then a gap or, with `cur`, a part of the frame of that byte. -/
def Sending (l : List Bool) (sent : List (BitVec 8)) (cur : Option (BitVec 8)) (part : List Bool) : Prop :=
  ∃ (fs : List (Nat × BitVec 8)) (g : Nat), fs.map Prod.snd = sent ∧
    l = waveOf F fs ++ (List.replicate g true ++ part) ∧ cur.elim (part = []) fun b => part <+: F b

variable {F} {sent : List (BitVec 8)} {b : BitVec 8} {part : List Bool}

theorem sending_nil : Sending F [] [] none [] := ⟨[], 0, rfl, rfl, rfl⟩

theorem Sending.gap (h : Sending F l sent none part) : Sending F (l ++ [true]) sent none [] := by
  obtain ⟨fs, g, hfs, rfl, rfl⟩ := h
  refine ⟨fs, g + 1, hfs, ?_, rfl⟩
  rw [List.append_nil, List.append_nil, List.append_assoc, ← List.replicate_succ']

theorem Sending.start (h : Sending F l sent none part) (b : BitVec 8) : Sending F l sent (some b) [] := by
  obtain ⟨fs, g, hfs, hl, rfl⟩ := h
  exact ⟨fs, g, hfs, hl, List.nil_prefix⟩

theorem Sending.cycle (h : Sending F l sent (some b) part) (hpart : part ++ [x] <+: F b) :
    Sending F (l ++ [x]) sent (some b) (part ++ [x]) := by
  obtain ⟨fs, g, hfs, rfl, -⟩ := h
  exact ⟨fs, g, hfs, by simp only [List.append_assoc], hpart⟩

theorem Sending.finish (h : Sending F l sent (some b) part) (hpart : part ++ [x] = F b) :
    Sending F (l ++ [x]) (sent ++ [b]) none [] := by
  obtain ⟨fs, g, hfs, rfl, -⟩ := h
  refine ⟨fs ++ [(g, b)], 0, by rw [List.map_append, hfs]; rfl, ?_, rfl⟩
  rw [waveOf_concat, ← hpart]
  simp only [List.append_assoc, List.replicate_zero, List.append_nil]

end Sending

section Reader

variable {F : BitVec 8 → List Bool} {step : S → Bool → S} {out : S → Bool → List (BitVec 8)} {ready : S → Prop}
  {s : S}

/-- What a high cycle leaves ready, a gap does. -/
theorem gap_of_high (high : ∀ s, ready s → ready (step s true) ∧ out s true = []) (hs : ready s) {g : Nat}
    (hL : ∀ j < g, L j = true) : ready (Clocked.run step s L g) ∧ Clocked.log step out s L g = [] := by
  induction g with
  | zero => exact ⟨hs, rfl⟩
  | succ g ih =>
    obtain ⟨hready, hlog⟩ := ih fun j hj => hL j (by omega)
    obtain ⟨hnext, hquiet⟩ := high _ hready
    rw [Clocked.run_succ, Clocked.log_succ, hL g (by omega), hlog, hquiet]
    exact ⟨hnext, rfl⟩

variable (F step out ready) in
/-- A machine that reads the line and emits bytes, `ready` between the frames. -/
structure Reader : Prop where
  high : ∀ s, ready s → ready (step s true) ∧ out s true = []
  frame : ∀ s b L, ready s → OnLine (F b) L →
    ready (Clocked.run step s L (F b).length) ∧ Clocked.log step out s L (F b).length = [b]

namespace Reader

theorem wave (h : Reader F step out ready) (hs : ready s) {fs : List (Nat × BitVec 8)}
    (hL : OnLine (waveOf F fs) L) : ready (Clocked.run step s L (waveOf F fs).length) ∧
      Clocked.log step out s L (waveOf F fs).length = fs.map Prod.snd := by
  induction fs using List.reverseRecOn with
  | nil => exact ⟨hs, rfl⟩
  | append_singleton fs f ih =>
    obtain ⟨g, b⟩ := f
    rw [waveOf_concat] at hL ⊢
    obtain ⟨hfs, hlast⟩ := onLine_append.1 hL
    obtain ⟨hgap, hframe⟩ := onLine_append.1 hlast
    rw [List.length_replicate] at hframe
    obtain ⟨hready, hlog⟩ := ih hfs
    obtain ⟨hready, hquiet⟩ := gap_of_high h.high hready (onLine_replicate.1 hgap)
    obtain ⟨hready, hone⟩ := h.frame _ b _ hready hframe
    simp only [List.length_append, List.length_replicate, Clocked.run_add, Clocked.log_add]
    refine ⟨hready, ?_⟩
    rw [hlog, hquiet, hone, List.map_append]
    rfl

/-- The bytes of the frames on the line are emitted, that of the frame in progress at most. -/
theorem emitted (h : Reader F step out ready) (hs : ready s) {sent : List (BitVec 8)} {cur : Option (BitVec 8)}
    {part : List Bool} (hsend : Sending F l sent cur part) (hL : OnLine l L) :
    Clocked.log step out s L l.length = sent ∨
      ∃ b, cur = some b ∧ Clocked.log step out s L l.length = sent ++ [b] := by
  obtain ⟨fs, g, rfl, rfl, hpart⟩ := hsend
  obtain ⟨hfs, hrest⟩ := onLine_append.1 hL
  obtain ⟨hready, hbefore⟩ := h.wave hs hfs
  cases cur with
  | none =>
    left
    rw [Option.elim_none] at hpart
    rw [hpart, List.append_nil] at hrest ⊢
    obtain ⟨-, hquiet⟩ := gap_of_high h.high hready (onLine_replicate.1 hrest)
    rw [List.length_append, List.length_replicate, Clocked.log_add, hbefore, hquiet, List.append_nil]
  | some b =>
    -- let the line go on to the end of the frame
    obtain ⟨tail, htail⟩ : part <+: F b := hpart
    obtain ⟨L', hwhole, hsame⟩ := hL.extend tail
    rw [← Clocked.log_congr hsame]
    have hlo : Clocked.log step out s L' (waveOf F fs).length <+: Clocked.log step out s L'
        (waveOf F fs ++ (List.replicate g true ++ part)).length := by
      refine Clocked.log_mono ?_
      rw [List.length_append]
      omega
    have hhi : Clocked.log step out s L' (waveOf F fs ++ (List.replicate g true ++ part)).length <+:
        Clocked.log step out s L' (waveOf F (fs ++ [(g, b)])).length := by
      refine Clocked.log_mono ?_
      rw [waveOf_concat, ← htail]
      simp only [List.length_append]
      omega
    rw [List.append_assoc, List.append_assoc, htail, ← waveOf_concat] at hwhole
    obtain ⟨-, hafter⟩ := h.wave hs hwhole
    rw [waveOf_concat] at hwhole
    obtain ⟨-, hbefore⟩ := h.wave hs (onLine_append.1 hwhole).1
    rw [hbefore] at hlo
    rw [hafter, List.map_append, List.map_singleton] at hhi
    rcases List.prefix_concat_iff.1 hhi with heq | hle
    · exact .inr ⟨b, rfl, heq⟩
    · exact .inl (hle.eq_of_length (Nat.le_antisymm hle.length_le hlo.length_le))

end Reader

end Reader

end Serial
