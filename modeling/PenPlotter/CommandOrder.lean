import PenPlotter.Commands

/-!
# The command stream

A run of `main` is answered by `resp`: whatever the devices return and the interrupt handlers leave in
the `volatile` globals, in whatever cycles. Along every run the loop invariant of the assembly holds, so
the commands of a well-formed stream are executed one by one (`commands_executed`).
-/

namespace PenPlotter

open Prog

variable (resp : Nat → BitVec 32) (cmds : List Command) (t : Nat)

/-- `main` from `while (1)` on; `resp t` answers its access `t`. -/
def mainRun : Nat → Firmware Firmware.Locals :=
  Clocked.run (Prog.step Firmware.body) (.ret .initial) resp

/-- What `main` has received and executed before its access `t`. -/
def assembly : Nat → Assembly
  | 0 => ⟨[], []⟩
  | t + 1 => Prog.ghost Assembly.update (assembly t) (mainRun resp t) (resp t)

variable {resp cmds t}

theorem mainRun_wlp : wlp Assembly.update Assembly.Allowed AtHead (mainRun resp t) (assembly resp t) := by
  induction t with
  | zero => exact atHead_initial
  | succ t ih =>
    rw [mainRun, Clocked.run_succ]
    exact wlp_step (fun l g h => body_spec h) ih (resp t)

theorem executed_le_frames :
    (assembly resp t).executed <+: (assembly resp t).frames.1.map decodeFrame := by
  have hwlp : wlp _ _ _ (mainRun resp t) (assembly resp t) := mainRun_wlp
  cases hrun : mainRun resp t with
  | ret l =>
    rw [hrun] at hwlp
    exact hwlp.executed ▸ List.prefix_rfl
  | act a k => exact (hwlp.access_ok (congrArg access hrun)).2.1
  | spin a again k => exact (hwlp.access_ok (congrArg access hrun)).2.1

theorem receive_spinsOn (l : Firmware.Locals) : (Firmware.receive l).SpinsOn Firmware.txFull := by
  rw [receive_eq]
  intro status
  dsimp only
  split
  · exact fun _ _ => trivial
  · trivial

theorem uartPutc_spinsOn (c : BitVec 8) : (Firmware.uartPutc c).SpinsOn Firmware.txFull :=
  ⟨rfl, fun _ => trivial⟩

theorem uartPutw_spinsOn (w : BitVec 32) : (Firmware.uartPutw w).SpinsOn Firmware.txFull :=
  ⟨rfl, fun _ => trivial⟩

theorem report_spinsOn (l : Firmware.Locals) : (Firmware.report l).SpinsOn Firmware.txFull := by
  unfold Firmware.report
  split
  · rw [Firmware.get_bind]
    intro print
    dsimp only
    split
    · refine (uartPutc_spinsOn 1).bind fun _ x => (uartPutw_spinsOn x).bind fun _ => ?_
      exact (uartPutc_spinsOn 2).bind fun _ y => (uartPutw_spinsOn y).bind fun _ _ => trivial
    · trivial
  · trivial

theorem sendStable_spinsOn (l : Firmware.Locals) : (Firmware.sendStable l).SpinsOn Firmware.txFull := by
  unfold Firmware.sendStable
  split
  · rw [Firmware.get_bind]
    intro x
    dsimp only
    split
    · rw [Firmware.get_bind]
      intro y
      dsimp only
      split
      · exact fun _ => (uartPutc_spinsOn 3).bind fun _ => trivial
      · trivial
    · trivial
  · trivial

theorem setPoint_spinsOn (setPointReg value : BitVec 32) (stable : Var) (l : Firmware.Locals) :
    (Firmware.setPoint setPointReg stable value l).SpinsOn Firmware.txFull := by
  rw [Firmware.setPoint, Firmware.load_bind]
  intro old
  dsimp only
  split
  · exact fun _ _ => trivial
  · trivial

theorem Command.perform_spinsOn (c : Command) (l : Firmware.Locals) :
    (c.perform l).SpinsOn Firmware.txFull := by
  cases c with
  | sts => exact (uartPutc_spinsOn 0).bind fun _ => (uartPutc_spinsOn 3).bind fun _ => trivial
  | rst => exact fun _ _ _ _ => trivial
  | stream => trivial
  | set loc value =>
    unfold Command.perform
    dsimp only
    split
    · exact setPoint_spinsOn _ _ _ _
    · exact setPoint_spinsOn _ _ _ _
    · exact fun _ _ => trivial
    · exact fun _ _ => trivial
    · exact fun _ _ => trivial
    · exact fun _ => trivial
    · trivial

theorem execute_spinsOn (l : Firmware.Locals) : (Firmware.execute l).SpinsOn Firmware.txFull := by
  unfold Firmware.execute
  split
  · rw [Firmware.note_bind]
    refine fun _ => SpinsOn.bind ?_ fun _ => trivial
    rw [dispatch_eq]
    cases decodeCommand l.command with
    | none => trivial
    | some c => exact c.perform_spinsOn l
  · trivial

theorem body_spinsOn (l : Firmware.Locals) : (Firmware.body l).SpinsOn Firmware.txFull :=
  (receive_spinsOn l).bind fun l => (report_spinsOn l).bind fun _ =>
    (sendStable_spinsOn l).bind execute_spinsOn

theorem mainRun_spinsOn : (mainRun resp t).SpinsOn Firmware.txFull := by
  induction t with
  | zero => trivial
  | succ t ih =>
    rw [mainRun, Clocked.run_succ]
    exact ih.step body_spinsOn (resp t)

/-- The bytes of the first `n` commands and a part of the next one have been received. -/
structure Received (cmds : List Command) (n : Nat) (part : List (BitVec 8)) (g : Assembly) : Prop where
  le : n ≤ cmds.length
  received : g.received = (cmds.take n).flatMap Command.encode ++ part
  part : part = [] ∨ ∃ c, cmds[n]? = some c ∧ part <+: c.encode ∧ part ≠ c.encode

theorem Received.frames {n : Nat} {part : List (BitVec 8)} {g : Assembly} (h : Received cmds n part g) :
    g.frames = ((cmds.take n).map Command.encode, part) := by
  have hwords : ∀ w ∈ cmds.map Command.encode, Framing.CodeWord commandDone w := by
    intro w hw
    obtain ⟨c, -, rfl⟩ := List.mem_map.1 hw
    exact codeWord_encode c
  have hpart : part = [] ∨ ∃ w, (cmds.map Command.encode)[n]? = some w ∧ part <+: w ∧ part ≠ w := by
    rcases h.part with hnil | ⟨c, hc, hpre, hne⟩
    · exact .inl hnil
    · exact .inr ⟨c.encode, by simp [hc], hpre, hne⟩
  have hframes := Framing.frames_prefix hwords hpart
  rw [← List.map_take, ← List.flatMap_def] at hframes
  rw [Assembly.frames, h.received, hframes]

theorem exists_received {g : Assembly} (h : g.received <+: cmds.flatMap Command.encode) :
    ∃ n part, Received cmds n part g := by
  rw [List.flatMap_def] at h
  obtain ⟨n, part, hn, hrec, hpart⟩ := Framing.prefix_flatten h
  refine ⟨n, part, by simpa using hn, by rw [hrec, ← List.map_take, List.flatMap_def], ?_⟩
  rcases hpart with hnil | ⟨w, hw, hpre, hne⟩
  · exact .inl hnil
  · rw [List.getElem?_map, Option.map_eq_some_iff] at hw
    obtain ⟨c, hc, rfl⟩ := hw
    exact .inr ⟨c, hc, hpre, hne⟩

theorem Received.map_decode {n : Nat} {part : List (BitVec 8)} {g : Assembly}
    (h : Received cmds n part g) : g.frames.1.map decodeFrame = (cmds.take n).map some := by
  rw [h.frames, decodeFrame_map_encode]

theorem Received.all {n : Nat} {part : List (BitVec 8)} {g : Assembly} (h : Received cmds n part g)
    (hall : g.received = cmds.flatMap Command.encode) : n = cmds.length ∧ part = [] := by
  have hframes := h.frames
  have hfull : g.frames = (cmds.map Command.encode, []) := by
    have hend : Received cmds cmds.length [] g := ⟨Nat.le_refl _, by simp [hall], .inl rfl⟩
    simpa using hend.frames
  rw [hfull, Prod.mk.injEq] at hframes
  obtain ⟨hwords, rfl⟩ := hframes
  have hlen := congrArg List.length hwords
  have hle := h.le
  rw [List.length_map, List.length_map, List.length_take, Nat.min_eq_left hle] at hlen
  exact ⟨hlen.symm, rfl⟩

/-- The commanded accesses belong to the command whose last byte came last. -/
theorem commanded_access {n : Nat} {part : List (BitVec 8)}
    (h : Received cmds n part (assembly resp t)) {a : Access} (ha : (mainRun resp t).access = some a)
    (hcmd : a.Commanded) :
    part = [] ∧ (assembly resp t).executed = (cmds.take n).map some ∧
      ∃ k c, n = k + 1 ∧ cmds[k]? = some c ∧ c.Action a := by
  obtain ⟨c, hlast, hact, hexec, hpart⟩ := (mainRun_wlp.access_ok ha).2.2 hcmd
  rw [h.map_decode] at hexec
  rw [h.frames] at hpart
  refine ⟨hpart, hexec, ?_⟩
  rw [hexec, List.getLast?_map] at hlast
  cases n with
  | zero => simp at hlast
  | succ k =>
    refine ⟨k, c, rfl, ?_, hact⟩
    have hle := h.le
    rw [List.getLast?_eq_getElem?, List.length_take, Nat.min_eq_left hle] at hlast
    simpa using hlast

theorem loopHead {n : Nat} {part : List (BitVec 8)} (h : Received cmds n part (assembly resp t))
    {l : Firmware.Locals} (hl : mainRun resp t = .ret l) :
    (assembly resp t).executed = (cmds.take n).map some ∧ l.len.toNat = part.length := by
  have hwlp : wlp _ _ _ (mainRun resp t) (assembly resp t) := mainRun_wlp
  rw [hl] at hwlp
  obtain ⟨-, hexec, hholds, -⟩ := hwlp
  rw [h.map_decode] at hexec
  rw [h.frames] at hholds
  exact ⟨hexec, hholds.length⟩

/-- The commands of a stream are executed in order, each once and none before its last byte, and the six
bytes are never overrun, whatever the bytes are. -/
theorem commands_executed (resp : Nat → BitVec 32) :
    (∀ t idx value, (mainRun resp t).access = some (.storeCommand idx value) → idx ≤ 5) ∧
    (∀ cmds t, (assembly resp t).received <+: cmds.flatMap Command.encode →
      ∃ n part, Received cmds n part (assembly resp t) ∧
        (assembly resp t).executed <+: (cmds.take n).map some ∧
        (∀ a, (mainRun resp t).access = some a → a.Commanded →
          part = [] ∧ (assembly resp t).executed = (cmds.take n).map some ∧
            ∃ k c, n = k + 1 ∧ cmds[k]? = some c ∧ c.Action a) ∧
        (∀ l, mainRun resp t = .ret l →
          (assembly resp t).executed = (cmds.take n).map some ∧ l.len.toNat = part.length ∧
          ((assembly resp t).received = cmds.flatMap Command.encode →
            (assembly resp t).executed = cmds.map some ∧ l.len = 0))) ∧
    (∀ l c, l.finished = true → decodeCommand l.command = some c →
      Firmware.execute l = do
        Firmware.note (.dispatch l.command)
        let l ← c.perform l
        return { l with len := 0, finished := false }) ∧
    ((∀ t, ∃ t' ≥ t, Firmware.txFull (resp t') = false) →
      ∀ t, ∃ t' ≥ t, ∃ l, mainRun resp t' = .ret l) := by
  refine ⟨fun t idx value ha => (mainRun_wlp.access_ok ha).1 idx value rfl, fun cmds t h => ?_,
    fun l c hfin hc => ?_, fun hfair t => Prog.exists_ret hfair rfl mainRun_spinsOn⟩
  · obtain ⟨n, part, hrec⟩ := exists_received h
    refine ⟨n, part, hrec, ?_, fun a => commanded_access hrec, fun l hl => ?_⟩
    · exact hrec.map_decode ▸ executed_le_frames
    · obtain ⟨hexec, hlen⟩ := loopHead hrec hl
      refine ⟨hexec, hlen, fun hall => ?_⟩
      obtain ⟨rfl, rfl⟩ := hrec.all hall
      exact ⟨by rw [hexec, List.take_length], BitVec.eq_of_toNat_eq hlen⟩
  · rw [Firmware.execute, if_pos hfin, dispatch_eq, hc]
    rfl

/-- A set-point, a reset and a change of the streaming, with a byte in every iteration. -/
def respThree (t : Nat) : BitVec 32 :=
  if t < 34 ∧ t % 5 = 2 then ((Command.set 0 5).encode.getD (t / 5) 0).setWidth 32
  else if t = 36 then 1
  else if t = 46 then 4
  else 0

theorem commands_executed_three :
    (assembly respThree 50).executed = [some (.set 0 5), some .rst, some .stream] ∧
      ∃ l, mainRun respThree 50 = .ret l ∧ l.len = 0 ∧ l.streaming = true := by
  have hrec : (assembly respThree 50).received = [Command.set 0 5, .rst, .stream].flatMap Command.encode := by decide
  obtain ⟨n, part, -, -, -, hhead⟩ :=
    (commands_executed respThree).2.1 [.set 0 5, .rst, .stream] 50 (hrec ▸ List.prefix_rfl)
  obtain ⟨l, hl, hstreaming⟩ : ∃ l, mainRun respThree 50 = .ret l ∧ l.streaming = true := ⟨_, rfl, rfl⟩
  obtain ⟨hexec, hlen⟩ := (hhead l hl).2.2 hrec
  exact ⟨hexec, l, hl, hlen, hstreaming⟩

end PenPlotter
