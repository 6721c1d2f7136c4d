import PenPlotter.TimerCode

/-!
# Reading a running 64-bit counter by halves (`timer_read_mtime`)

Two equal reads of `MTIME_HI` less than 2^63 cycles apart have seen no carry, so the `MTIME_LO` between them
belongs to the same high half. Two iterations that both fail have each seen a carry, and carries are 2^32
cycles apart.
-/

namespace PenPlotter

open Mmio Prog SysTimerState

/-- What `MTIME_HI` holds. -/
def mtimeHigh (v : BitVec 64) : BitVec 32 := v.extractLsb' 32 32

section

variable {v : BitVec 64} {d e e' : Nat}

theorem toNat_mtimeHigh : (mtimeHigh v).toNat = v.toNat / 2 ^ 32 := by
  rw [mtimeHigh, BitVec.extractLsb'_toNat, Nat.shiftRight_eq_div_pow]
  have := v.isLt
  omega

theorem toNat_mtimeHigh_add :
    (mtimeHigh (v + BitVec.ofNat 64 d)).toNat = (v.toNat + d) % 2 ^ 64 / 2 ^ 32 := by
  rw [toNat_mtimeHigh, BitVec.toNat_add, BitVec.toNat_ofNat, Nat.add_mod_mod]

/-- No carry between two equal values of the high half. -/
theorem mtimeHigh_between (hed : e ≤ d) (hd : d < 2 ^ 63) (h : mtimeHigh v = mtimeHigh (v + BitVec.ofNat 64 d)) :
    mtimeHigh (v + BitVec.ofNat 64 e) = mtimeHigh v := by
  have hnat := congrArg BitVec.toNat h
  rw [toNat_mtimeHigh, toNat_mtimeHigh_add] at hnat
  refine BitVec.eq_of_toNat_eq ?_
  rw [toNat_mtimeHigh_add, toNat_mtimeHigh]
  have := v.isLt
  omega

/-- Two carries are 2^32 cycles apart. -/
theorem carries_apart (he : e ≤ e') (hd : e' ≤ d) (h₁ : mtimeHigh v ≠ mtimeHigh (v + BitVec.ofNat 64 e))
    (h₂ : mtimeHigh (v + BitVec.ofNat 64 e') ≠ mtimeHigh (v + BitVec.ofNat 64 d)) : 2 ^ 32 ≤ d := by
  rw [Ne, ← BitVec.toNat_inj, toNat_mtimeHigh, toNat_mtimeHigh_add] at h₁
  rw [Ne, ← BitVec.toNat_inj, toNat_mtimeHigh_add, toNat_mtimeHigh_add] at h₂
  have := v.isLt
  omega

theorem join_halves (hi lo : BitVec 32) : hi.setWidth 64 <<< 32 ||| lo.setWidth 64 = hi ++ lo :=
  (BitVec.setWidth_append_eq_shiftLeft_setWidth_or).symm

end

/-- Before the third load. -/
def afterLo (hi0 lo : BitVec 32) : Firmware (Option (BitVec 64)) :=
  .act (.load mtimeHi) fun hi1 =>
    if hi0 != hi1 then .ret none else .ret (some (hi1.setWidth 64 <<< 32 ||| lo.setWidth 64))

/-- Before the second load. -/
def afterHi (hi0 : BitVec 32) : Firmware (Option (BitVec 64)) := .act (.load mtimeLo) (afterLo hi0)

section

variable (m : Nat → BitVec 64)

/-- The loads of one iteration. -/
def iteration (a b c : Nat) : List (Nat × BitVec 32) := [(a, mtimeHi), (b, mtimeLo), (c, mtimeHi)]

/-- Iterations that each saw a change of the high half of `m`. -/
inductive Retried : List (Nat × BitVec 32) → Prop
  | nil : Retried []
  | snoc {its : List (Nat × BitVec 32)} {a b c : Nat} (h : Retried its)
      (hne : mtimeHigh (m a) ≠ mtimeHigh (m c)) : Retried (its ++ iteration a b c)

/-- The code together with the loads that it has made. -/
inductive Reading : Firmware (Option (BitVec 64)) → List (Nat × BitVec 32) → Prop
  | again {its} (h : Retried m its) : Reading (.ret none) its
  | first {its} (h : Retried m its) : Reading Firmware.readMtime its
  | second {its a} (h : Retried m its) : Reading (afterHi (mtimeHigh (m a))) (its ++ [(a, mtimeHi)])
  | third {its a b} (h : Retried m its) :
    Reading (afterLo (mtimeHigh (m a)) ((m b).setWidth 32)) (its ++ [(a, mtimeHi), (b, mtimeLo)])
  | done {its a b c} (h : Retried m its) (heq : mtimeHigh (m a) = mtimeHigh (m c)) :
    Reading (.ret (some (mtimeHigh (m c) ++ (m b).setWidth 32))) (its ++ iteration a b c)

variable {m} {its : List (Nat × BitVec 32)}

theorem Retried.length (h : Retried m its) : ∃ n, its.length = 3 * n := by
  induction h with
  | nil => exact ⟨0, rfl⟩
  | snoc _ _ ih =>
    obtain ⟨n, hn⟩ := ih
    exact ⟨n + 1, by rw [List.length_append, hn]; rfl⟩

end

section Run

variable (s₀ : SysTimerState) (inp : Nat → TimerCodeIn)

/-- A call of `timer_read_mtime`, before cycle `t`. -/
def readRun : Nat → TimerCode (Option (BitVec 64)) :=
  Clocked.run (TimerCode.step Firmware.timerReadMtime) ⟨.ret none, s₀⟩ inp

/-- `mtime` in cycle `t`. -/
def mtimeAt (t : Nat) : BitVec 64 := (readRun s₀ inp t).timer.mtime

/-- The loads granted before cycle `t`, each with its cycle. -/
def readLoads : Nat → List (Nat × BitVec 32)
  | 0 => []
  | t + 1 => readLoads t ++ match (readRun s₀ inp t).access (inp t) with
    | some (.load addr) => [(t, addr)]
    | _ => []

variable {s₀ inp} {t : Nat}

theorem readRun_succ (t : Nat) :
    readRun s₀ inp (t + 1) = (readRun s₀ inp t).step Firmware.timerReadMtime (inp t) := rfl

theorem readLoads_of_wait (hgo : (inp t).go = false) : readLoads s₀ inp (t + 1) = readLoads s₀ inp t := by
  rw [readLoads, TimerCode.access, hgo]
  exact List.append_nil _

theorem readLoads_of_ret {a : Option (BitVec 64)} (hret : (readRun s₀ inp t).code = .ret a) :
    readLoads s₀ inp (t + 1) = readLoads s₀ inp t := by
  rw [readLoads, TimerCode.access, hret]
  split
  next h => split at h <;> cases h
  next => exact List.append_nil _

theorem readLoads_of_load {addr : BitVec 32} (hgo : (inp t).go = true)
    (hacc : (readRun s₀ inp t).code.access = some (.load addr)) :
    readLoads s₀ inp (t + 1) = readLoads s₀ inp t ++ [(t, addr)] := by
  rw [readLoads, TimerCode.access, if_pos hgo, hacc]

variable (s₀ inp) in
theorem readLoads_sorted (t : Nat) :
    (readLoads s₀ inp t).Pairwise (fun e e' => e.1 < e'.1) ∧ ∀ e ∈ readLoads s₀ inp t, e.1 < t := by
  induction t with
  | zero => exact ⟨.nil, fun e he => by cases he⟩
  | succ t ih =>
    obtain ⟨hsorted, hlt⟩ := ih
    rw [readLoads]
    split
    next addr _ =>
      refine ⟨List.pairwise_append.2 ⟨hsorted, List.pairwise_singleton _ _, fun e he e' he' => ?_⟩, fun e he => ?_⟩
      · rw [List.mem_singleton.1 he']
        exact hlt e he
      · rcases List.mem_append.1 he with he | he
        · exact Nat.lt_succ_of_lt (hlt e he)
        · rw [List.mem_singleton.1 he]
          exact Nat.lt_succ_self t
    next =>
      rw [List.append_nil]
      exact ⟨hsorted, fun e he => Nat.lt_succ_of_lt (hlt e he)⟩

theorem mtimeHigh_mtime (s : SysTimerState) : mtimeHigh s.mtime = s.regs.q mTimeHiLane :=
  BitVec.extractLsb'_append_eq_left

theorem setWidth_mtime (s : SysTimerState) : s.mtime.setWidth 32 = s.regs.q mTimeLoLane :=
  BitVec.setWidth_append_eq_right

/-- A granted load of the code: what it returns, and where the code stands then. -/
theorem readRun_load {addr : BitVec 32} {k : BitVec 32 → Firmware (Option (BitVec 64))} {r : Fin TimerRegCount}
    (hgo : (inp t).go = true) (hcode : (readRun s₀ inp t).code = .act (.load addr) k)
    (hsel : timerSelected addr = true) (hword : (⟨true, addr, false, 0xF, 0⟩ : ObiIn).word timerCfg = r.val) :
    (readRun s₀ inp (t + 1)).code = k ((readRun s₀ inp t).timer.regs.q r) ∧
      readLoads s₀ inp (t + 1) = readLoads s₀ inp t ++ [(t, addr)] := by
  have hacc : (readRun s₀ inp t).code.access = some (.load addr) := by
    rw [hcode]
    rfl
  refine ⟨?_, readLoads_of_load hgo hacc⟩
  rw [readRun_succ, TimerCode.step_code_of_go _ hgo, TimerCode.answer_load hgo hacc hsel hword, hcode]
  rfl

theorem reading_succ (h : Reading (mtimeAt s₀ inp) (readRun s₀ inp t).code (readLoads s₀ inp t)) :
    Reading (mtimeAt s₀ inp) (readRun s₀ inp (t + 1)).code (readLoads s₀ inp (t + 1)) := by
  cases hgo : (inp t).go with
  | false =>
    rw [readLoads_of_wait hgo, readRun_succ, TimerCode.step_code_of_wait _ hgo]
    exact h
  | true =>
    generalize hcode : (readRun s₀ inp t).code = code at h
    generalize hlog : readLoads s₀ inp t = log at h
    have hret {a : Option (BitVec 64)} (ha : code = .ret a) :
        (readRun s₀ inp (t + 1)).code = Firmware.timerReadMtime a ∧ readLoads s₀ inp (t + 1) = log := by
      refine ⟨?_, (readLoads_of_ret (hcode.trans ha)).trans hlog⟩
      rw [readRun_succ, TimerCode.step_code_of_go _ hgo, hcode, ha]
      rfl
    cases h with
    | again h =>
      obtain ⟨hnext, hlog'⟩ := hret rfl
      rw [hnext, hlog']
      exact .first h
    | first h =>
      obtain ⟨hnext, hlog'⟩ := readRun_load (r := mTimeHiLane) hgo hcode (by decide) (by decide)
      rw [hnext, hlog', hlog, ← mtimeHigh_mtime]
      exact .second h
    | second h =>
      obtain ⟨hnext, hlog'⟩ := readRun_load (r := mTimeLoLane) hgo hcode (by decide) (by decide)
      rw [hnext, hlog', hlog, ← setWidth_mtime, List.append_assoc]
      exact .third h
    | third h =>
      obtain ⟨hnext, hlog'⟩ := readRun_load (r := mTimeHiLane) hgo hcode (by decide) (by decide)
      rw [hnext, hlog', hlog, ← mtimeHigh_mtime, List.append_assoc, join_halves]
      split
      next hne => exact .again (h.snoc (bne_iff_ne.1 hne))
      next heq => exact .done (c := t) h (of_not_not fun hne => heq (bne_iff_ne.2 hne))
    | done h heq =>
      obtain ⟨hnext, hlog'⟩ := hret rfl
      rw [hnext, hlog']
      exact .done h heq

theorem Reading.access_load {m : Nat → BitVec 64} {code : Firmware (Option (BitVec 64))}
    {its : List (Nat × BitVec 32)} (h : Reading m code its) {acc : Access} (hacc : code.access = some acc) :
    ∃ addr, acc = .load addr := by
  cases h <;> cases hacc <;> exact ⟨_, rfl⟩

variable (s₀ inp) in
theorem reading (t : Nat) : Reading (mtimeAt s₀ inp) (readRun s₀ inp t).code (readLoads s₀ inp t) := by
  induction t with
  | zero => exact .again .nil
  | succ t ih => exact reading_succ ih

variable (s₀ inp) in
theorem readRun_port (t : Nat) :
    (readRun s₀ inp t).port (inp t) = (inp t).other ∨ ((readRun s₀ inp t).port (inp t)).weI = false := by
  cases hgo : (inp t).go with
  | false => exact .inl (TimerCode.port_of_wait hgo)
  | true =>
    right
    cases hacc : (readRun s₀ inp t).code.access with
    | none =>
      rw [TimerCode.port, if_pos hgo, hacc]
      rfl
    | some acc =>
      obtain ⟨addr, rfl⟩ := (reading s₀ inp t).access_load hacc
      rw [TimerCode.port_of_access hgo hacc, Access.timerRequest]
      split <;> rfl

theorem port_keeps (hkeep : ∀ t, KeepsMtime (inp t).other) (t : Nat) :
    KeepsMtime ((readRun s₀ inp t).port (inp t)) := by
  rcases readRun_port s₀ inp t with hport | hport
  · rw [hport]
    exact hkeep t
  · exact .of_read hport

theorem mtimeAt_add (hen : ∀ t, (readRun s₀ inp t).timer.enable = true) (hkeep : ∀ t, KeepsMtime (inp t).other)
    (t d : Nat) : mtimeAt s₀ inp (t + d) = mtimeAt s₀ inp t + BitVec.ofNat 64 d := by
  induction d with
  | zero => exact (BitVec.add_zero _).symm
  | succ d ih =>
    have hstep : mtimeAt s₀ inp (t + d + 1) = mtimeAt s₀ inp (t + d) + 1 :=
      (mtime_step_of_keeps (port_keeps hkeep (t + d))).trans (if_pos (hen (t + d)))
    rw [← Nat.add_assoc, hstep, ih, BitVec.ofNat_add, BitVec.add_assoc]
    rfl

theorem iteration_sorted {pre rest : List (Nat × BitVec 32)} {a b c : Nat}
    (h : (pre ++ (iteration a b c ++ rest)).Pairwise fun e e' => e.1 < e'.1) :
    a < b ∧ b < c ∧ ∀ e ∈ rest, c < e.1 := by
  have hit := (List.pairwise_append.1 h).2.1
  simp only [iteration, List.cons_append, List.nil_append, List.pairwise_cons, List.forall_mem_cons] at hit
  exact ⟨hit.1.1, hit.2.1.1, hit.2.2.1⟩

/-- Any two consecutive iterations together take fewer than 2^32 cycles. -/
def FastIterations (loads : List (Nat × BitVec 32)) : Prop :=
  ∀ n e e', loads[3 * n]? = some e → loads[3 * n + 5]? = some e' → e'.1 - e.1 < 2 ^ 32

theorem Retried.short {m : Nat → BitVec 64} (hm : ∀ t d, m (t + d) = m t + BitVec.ofNat 64 d)
    {its rest : List (Nat × BitVec 32)} (h : Retried m its)
    (hsorted : (its ++ rest).Pairwise fun e e' => e.1 < e'.1) (hfast : FastIterations (its ++ rest)) :
    its.length ≤ 3 := by
  cases h with
  | nil => exact Nat.zero_le _
  | @snoc its a' b' c' h hne' =>
    cases h with
    | nil => exact Nat.le_refl _
    | @snoc its a b c h hne =>
      exfalso
      obtain ⟨n, hn⟩ := h.length
      have hlt := hfast n (a, mtimeHi) (c', mtimeHi) (by simp [iteration, ← hn]) (by simp [iteration, ← hn])
      simp only [List.append_assoc] at hsorted
      obtain ⟨hab, hbc, hrest⟩ := iteration_sorted hsorted
      rw [← List.append_assoc] at hsorted
      obtain ⟨hab', hbc', -⟩ := iteration_sorted hsorted
      have hca' : c < a' := hrest (a', mtimeHi) (List.mem_cons_self ..)
      have hoff (t : Nat) (ht : a ≤ t) : m t = m a + BitVec.ofNat 64 (t - a) := by
        rw [← hm, Nat.add_sub_cancel' ht]
      rw [hoff c (by omega)] at hne
      rw [hoff a' (by omega), hoff c' (by omega)] at hne'
      exact Nat.not_le.2 hlt (carries_apart (by omega) (by omega) hne hne')

theorem Reading.short {m : Nat → BitVec 64} (hm : ∀ t d, m (t + d) = m t + BitVec.ofNat 64 d)
    {code : Firmware (Option (BitVec 64))} {log : List (Nat × BitVec 32)} (h : Reading m code log)
    (hsorted : log.Pairwise fun e e' => e.1 < e'.1) (hfast : FastIterations log) : log.length ≤ 6 := by
  cases h with
  | again h | first h =>
    rw [← List.append_nil log] at hsorted hfast
    exact (h.short hm hsorted hfast).trans (by decide)
  | second h | third h | done h heq =>
    have := h.short hm hsorted hfast
    simp only [List.length_append, iteration, List.length_cons, List.length_nil]
    omega

/-! ### The call comes to its end -/

/-- A count that grows in the cycles with `go` passes every bound if there are always more of them. -/
theorem exists_le_of_fair {f : Nat → Nat} {go : Nat → Bool}
    (hstep : ∀ t, f t + (go t).toNat ≤ f (t + 1)) (hfair : ∀ t, ∃ t' ≥ t, go t' = true) (k : Nat) :
    ∃ t, k ≤ f t := by
  induction k with
  | zero => exact ⟨0, Nat.zero_le _⟩
  | succ k ih =>
    obtain ⟨t, ht⟩ := ih
    obtain ⟨t', htt', hgo⟩ := hfair t
    have hmono : f t ≤ f t' := monotone_nat_of_le_succ (fun n => Nat.le_of_add_right_le (hstep n)) htt'
    have hnext := hstep t'
    rw [hgo] at hnext
    exact ⟨t' + 1, Nat.le_trans (Nat.succ_le_succ (Nat.le_trans ht hmono)) hnext⟩

/-- Grows with every step of a call that is not done. -/
def readProgress (s : TimerCode (Option (BitVec 64))) (log : List (Nat × BitVec 32)) : Nat :=
  match s.code with
  | .ret _ => 2 * log.length
  | _ => 2 * log.length + 1

theorem le_readProgress (s : TimerCode (Option (BitVec 64))) (log : List (Nat × BitVec 32)) :
    2 * log.length ≤ readProgress s log ∧ readProgress s log ≤ 2 * log.length + 1 := by
  rw [readProgress]
  split <;> omega

theorem readProgress_succ (hrun : ∀ v, (readRun s₀ inp t).code ≠ .ret (some v)) :
    readProgress (readRun s₀ inp t) (readLoads s₀ inp t) + (inp t).go.toNat ≤
      readProgress (readRun s₀ inp (t + 1)) (readLoads s₀ inp (t + 1)) := by
  cases hgo : (inp t).go with
  | false =>
    rw [readLoads_of_wait hgo, readProgress, readProgress, readRun_succ, TimerCode.step_code_of_wait _ hgo]
    exact Nat.le_refl _
  | true =>
    cases hacc : (readRun s₀ inp t).code.access with
    | none =>
      cases hcode : (readRun s₀ inp t).code with
      | act acc k | spin acc again k =>
        rw [hcode] at hacc
        cases hacc
      | ret a =>
        cases a with
        | some v => exact absurd hcode (hrun v)
        | none =>
          have hnext : (readRun s₀ inp (t + 1)).code = Firmware.readMtime := by
            rw [readRun_succ, TimerCode.step_code_of_go _ hgo, hcode]
            rfl
          rw [readLoads_of_ret hcode, readProgress, readProgress, hcode, hnext]
          exact Nat.le_refl _
    | some acc =>
      obtain ⟨addr, rfl⟩ := (reading s₀ inp t).access_load hacc
      rw [readLoads_of_load hgo hacc]
      refine Nat.le_trans ?_ (le_readProgress _ _).1
      rw [List.length_append, List.length_singleton, Nat.mul_add]
      exact Nat.succ_le_succ (le_readProgress _ _).2

/-- `timer_read_mtime` against a timer that keeps counting, with any delay between its loads: it returns
`mtime` as it was in the cycle of its last load of `MTIME_LO`, and it retries at most once if two iterations
take fewer than 2^32 cycles. -/
theorem timer_read_mtime_spec (hen : ∀ t, (readRun s₀ inp t).timer.enable = true)
    (hkeep : ∀ t, KeepsMtime (inp t).other) :
    (∀ t v, (readRun s₀ inp t).code = .ret (some v) → ∃ pre a b c,
      readLoads s₀ inp t = pre ++ [(a, mtimeHi), (b, mtimeLo), (c, mtimeHi)] ∧ a < b ∧ b < c ∧ c < t ∧
        (c - a < 2 ^ 63 → v = mtimeAt s₀ inp b)) ∧
    ((∀ t, FastIterations (readLoads s₀ inp t)) → (∀ t, (readLoads s₀ inp t).length ≤ 6) ∧
      ((∀ t, ∃ t' ≥ t, (inp t').go = true) → ∃ t v, (readRun s₀ inp t).code = .ret (some v))) := by
  have hm := mtimeAt_add hen hkeep
  refine ⟨fun t v hv => ?_, fun hfast => ?_⟩
  · have h := reading s₀ inp t
    obtain ⟨hsorted, hlt⟩ := readLoads_sorted s₀ inp t
    rw [hv] at h
    generalize readLoads s₀ inp t = log at h hsorted hlt
    cases h with
    | @done its a b c h heq =>
      rw [← List.append_nil (iteration a b c)] at hsorted
      obtain ⟨hab, hbc, -⟩ := iteration_sorted hsorted
      refine ⟨its, a, b, c, rfl, hab, hbc, hlt (c, mtimeHi) (by simp [iteration]), fun hd => ?_⟩
      have hoff (t : Nat) (ht : a ≤ t) : mtimeAt s₀ inp t = mtimeAt s₀ inp a + BitVec.ofNat 64 (t - a) := by
        rw [← hm, Nat.add_sub_cancel' ht]
      have hhigh : mtimeHigh (mtimeAt s₀ inp b) = mtimeHigh (mtimeAt s₀ inp a) := by
        rw [hoff b (by omega)]
        exact mtimeHigh_between (by omega) hd (by rw [← hoff c (by omega)]; exact heq)
      rw [← heq, ← hhigh]
      exact hi_append_lo _
  · have hshort (t : Nat) : (readLoads s₀ inp t).length ≤ 6 :=
      (reading s₀ inp t).short hm (readLoads_sorted s₀ inp t).1 (hfast t)
    refine ⟨hshort, fun hfair => ?_⟩
    by_contra hrun
    have hstep (t : Nat) : readProgress (readRun s₀ inp t) (readLoads s₀ inp t) + (inp t).go.toNat ≤
        readProgress (readRun s₀ inp (t + 1)) (readLoads s₀ inp (t + 1)) :=
      readProgress_succ fun v hv => hrun ⟨t, v, hv⟩
    obtain ⟨t, ht⟩ := exists_le_of_fair hstep hfair 14
    have := (le_readProgress (readRun s₀ inp t) (readLoads s₀ inp t)).2
    have := hshort t
    omega

end Run

/-- `MTIME_LO` carries between the first two loads of `MTIME_HI`. -/
def carryTimer : SysTimerState :=
  ⟨{ ObiRegState.reset timerCfg with
    q := fun r => if r = controlLane then 1 else if r = mTimeLoLane then 0xFFFFFFFD else 0 }⟩

def readAlways (_ : Nat) : TimerCodeIn := ⟨true, .idle⟩

theorem carryTimer_enable (t : Nat) : (readRun carryTimer readAlways t).timer.enable = true := by
  induction t with
  | zero => rfl
  | succ t ih =>
    have hport : ((readRun carryTimer readAlways t).port (readAlways t)).weI = false := by
      rcases readRun_port carryTimer readAlways t with hport | hport
      · rw [hport]
        rfl
      · exact hport
    have hkept : ((readRun carryTimer readAlways t).port (readAlways t)).written timerCfg controlLane = none :=
      ObiIn.written_eq_none (by simp [ObiIn.writes, hport])
    rw [readRun_succ, enable, TimerCode.step, q_step_other _ _ (by decide) (by decide), hkept]
    exact ih

/-- The first iteration sees the carry, and the second returns `mtime`. -/
theorem timer_read_mtime_carry : (readRun carryTimer readAlways 4).code = .ret none ∧
    (readRun carryTimer readAlways 8).code = .ret (some 0x100000003) ∧
      ∃ b < 8, mtimeAt carryTimer readAlways b = 0x100000003 := by
  refine ⟨rfl, rfl, ?_⟩
  obtain ⟨pre, a, b, c, -, hab, hbc, hc, hval⟩ :=
    (timer_read_mtime_spec carryTimer_enable fun _ => .of_read rfl).1 8 0x100000003 rfl
  exact ⟨b, by omega, (hval (by omega)).symm⟩

end PenPlotter
