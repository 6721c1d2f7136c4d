import PenPlotter.Firmware
import PenPlotter.Framing

/-!
# The commands that the firmware executes

The command assembly of `main` frames the byte stream: the first byte decides whether a command is one
byte or six bytes long (`commandDone`). At every loop head the commands executed are the frames received
and the buffer holds the frame in progress (`AtHead`), whatever the other accesses answer.
-/

namespace PenPlotter

open Mmio Prog

/-- What a host sends. -/
inductive Command
  | sts
  | rst
  | stream
  | set (loc : BitVec 8) (value : BitVec 32)
deriving DecidableEq

/-- The bytes of a command; a value goes out little-endian. -/
def Command.encode : Command → List (BitVec 8)
  | .sts => [0]
  | .rst => [1]
  | .stream => [4]
  | .set loc value =>
    [2, loc, value.extractLsb' 0 8, value.extractLsb' 8 8, value.extractLsb' 16 8,
      value.extractLsb' 24 8]

def oneByte (b : BitVec 8) : Bool := b == 0 || b == 1 || b == 4

/-- The frame is complete. -/
def commandDone (p : List (BitVec 8)) : Bool :=
  p.length == 6 || p.length == 1 && oneByte (p.getD 0 0)

/-- The command that the six bytes hold, as `switch (command[0])` reads them. -/
def decodeCommand (command : Fin 6 → BitVec 8) : Option Command :=
  match command 0 with
  | 0#8 => some .sts
  | 1#8 => some .rst
  | 2#8 => some (.set (command 1)
      (Firmware.readU32Le (command 2) (command 3) (command 4) (command 5)))
  | 4#8 => some .stream
  | _ => none

def decodeFrame (p : List (BitVec 8)) : Option Command := decodeCommand fun i => p.getD i 0

theorem readU32Le_extract (value : BitVec 32) :
    Firmware.readU32Le (value.extractLsb' 0 8) (value.extractLsb' 8 8) (value.extractLsb' 16 8)
      (value.extractLsb' 24 8) = value := by
  ext i hi
  simp [Firmware.readU32Le]
  grind

theorem decodeFrame_encode (c : Command) : decodeFrame c.encode = some c := by
  cases c with
  | set loc value => exact congrArg (fun v => some (Command.set loc v)) (readU32Le_extract value)
  | _ => rfl

theorem decodeFrame_map_encode (cmds : List Command) :
    (cmds.map Command.encode).map decodeFrame = cmds.map some := by
  rw [List.map_map]
  exact List.map_congr_left fun c _ => decodeFrame_encode c

theorem pending_of_short {p : List (BitVec 8)} (hlen : p.length ≤ 5) (hfirst : oneByte (p.getD 0 0) = false) :
    Framing.Pending commandDone p := by
  rintro q hq ⟨r, rfl⟩
  obtain ⟨b, q, rfl⟩ := List.exists_cons_of_ne_nil hq
  have hlen' : q.length ≠ 5 := by
    simp only [List.length_append, List.length_cons] at hlen
    omega
  have hb : oneByte b = false := by simpa using hfirst
  simp [commandDone, hlen', hb]

theorem codeWord_encode (c : Command) : Framing.CodeWord commandDone c.encode := by
  cases c with
  | set loc value => exact ⟨rfl, pending_of_short (by simp [Command.encode]) rfl, by simp [Command.encode]⟩
  | _ => exact ⟨rfl, Framing.pending_nil, by simp [Command.encode]⟩

theorem frames_encode (cmds : List Command) :
    Framing.frames commandDone (cmds.flatMap Command.encode) = (cmds.map Command.encode, []) := by
  have hflat : cmds.flatMap Command.encode = (cmds.map Command.encode).flatten ++ [] := by
    rw [List.append_nil, List.flatMap_def]
  rw [hflat]
  refine Framing.frames_flatten ?_ Framing.pending_nil
  intro w hw
  obtain ⟨cmd, -, rfl⟩ := List.mem_map.1 hw
  exact codeWord_encode cmd

/-- The bytes that the run has read from the UART and the commands it has executed. -/
structure Assembly where
  received : List (BitVec 8)
  executed : List (Option Command)

namespace Assembly

def update (g : Assembly) : Access → BitVec 32 → Assembly
  | .loadByte _, r => { g with received := g.received ++ [r.setWidth 8] }
  | .note (.dispatch command), _ => { g with executed := g.executed ++ [decodeCommand command] }
  | _, _ => g

/-- The frames received and the frame in progress. -/
def frames (g : Assembly) : List (List (BitVec 8)) × List (BitVec 8) :=
  Framing.frames commandDone g.received

end Assembly

/-- The accesses that carry out a command, other than its answer on the UART. -/
def Command.Action : Command → Access → Prop
  | .rst, a =>
    a = .store quadX 1 ∨ a = .store pidXSetPoint 0 ∨ a = .store quadY 1 ∨ a = .store pidYSetPoint 0
  | .set loc value, a =>
    (loc = 0 ∧ (a = .store pidXSetPoint value ∨ a = .set .stableX 0)) ∨
    (loc = 1 ∧ (a = .store pidYSetPoint value ∨ a = .set .stableY 0)) ∨
    (loc = 2 ∧ (a = .store pidXKp value ∨ a = .store pidYKp value)) ∨
    (loc = 3 ∧ (a = .store pidXKd value ∨ a = .store pidYKd value)) ∨
    (loc = 4 ∧ (a = .store pidXRs value ∨ a = .store pidYRs value)) ∨
    (loc = 5 ∧ a = .store pwmWidth (Firmware.servoWidth value))
  | _, _ => False

/-- What the firmware does for a command. -/
def Command.perform (l : Firmware.Locals) : Command → Firmware Firmware.Locals
  | .sts => do
    Firmware.uartPutc 0
    Firmware.uartPutc 3
    return l
  | .rst => do
    Firmware.store quadX 1
    Firmware.store pidXSetPoint 0
    Firmware.store quadY 1
    Firmware.store pidYSetPoint 0
    return l
  | .stream => return { l with streaming := !l.streaming }
  | .set loc value =>
    match loc with
    | 0#8 => Firmware.setPoint pidXSetPoint .stableX value l
    | 1#8 => Firmware.setPoint pidYSetPoint .stableY value l
    | 2#8 => do
      Firmware.store pidXKp value
      Firmware.store pidYKp value
      return l
    | 3#8 => do
      Firmware.store pidXKd value
      Firmware.store pidYKd value
      return l
    | 4#8 => do
      Firmware.store pidXRs value
      Firmware.store pidYRs value
      return l
    | 5#8 => do
      Firmware.store pwmWidth (Firmware.servoWidth value)
      return l
    | _ => return l

theorem dispatch_eq (l : Firmware.Locals) :
    Firmware.dispatch l = (decodeCommand l.command).elim (pure l) (Command.perform l) := by
  unfold Firmware.dispatch
  dsimp only
  split
  case h_5 h0 h1 h2 h4 =>
    have hnone : decodeCommand l.command = none := by
      unfold decodeCommand
      split
      case h_5 => rfl
      all_goals contradiction
    rw [hnone]
    rfl
  all_goals
    next hop =>
      simp only [decodeCommand, hop]
      rfl

/-- The accesses that only a command makes. -/
def Access.Commanded : Access → Prop
  | .store addr _ => addr ≠ uartTx
  | .set v _ => v ≠ .print
  | _ => False

/-- The six bytes are never overrun, and a commanded access belongs to the last command executed, all of
whose bytes, and none after them, have been received. -/
def Assembly.Allowed (g : Assembly) (a : Access) : Prop :=
  (∀ idx value, a = .storeCommand idx value → idx ≤ 5) ∧
  g.executed <+: g.frames.1.map decodeFrame ∧
  (a.Commanded → ∃ c, g.executed.getLast? = some (some c) ∧ c.Action a ∧
    g.executed = g.frames.1.map decodeFrame ∧ g.frames.2 = [])

/-- An access that neither the assembly nor a command makes. -/
def Access.Quiet : Access → Prop
  | .load _ | .get _ | .storeByte _ _ | .note .stable => True
  | .store addr _ => addr = uartTx
  | .set v _ => v = .print
  | _ => False

/-! ### The loop invariant -/

/-- The buffer holds the bytes `p` of the frame in progress. -/
structure Holds (l : Firmware.Locals) (p : List (BitVec 8)) : Prop where
  length : l.len.toNat = p.length
  bytes : ∀ i : Fin 6, i < p.length → l.command i = p.getD i 0

structure AtHead (l : Firmware.Locals) (g : Assembly) : Prop where
  unfinished : l.finished = false
  executed : g.executed = g.frames.1.map decodeFrame
  holds : Holds l g.frames.2
  short : g.frames.2.length ≤ 5

/-- A command has been assembled and is to be executed. -/
structure Complete (l : Firmware.Locals) (g : Assembly) : Prop where
  finished : l.finished = true
  executed : g.executed ++ [decodeCommand l.command] = g.frames.1.map decodeFrame
  word : g.frames.2 = []

theorem atHead_initial : AtHead .initial ⟨[], []⟩ :=
  ⟨rfl, rfl, ⟨rfl, fun _ h => absurd h (Nat.not_lt_zero _)⟩, Nat.zero_le _⟩

theorem AtHead.allowed {l : Firmware.Locals} {g : Assembly} (h : AtHead l g) {a : Access}
    (hstore : ∀ idx value, a = .storeCommand idx value → idx ≤ 5) (ha : ¬ a.Commanded) : g.Allowed a :=
  ⟨hstore, by rw [h.executed], fun ha' => absurd ha' ha⟩

section Receive

variable {l : Firmware.Locals} {g : Assembly} {p : List (BitVec 8)}

/-- The locals after the byte `b` has been received. -/
def collect (l : Firmware.Locals) (b : BitVec 8) : Firmware.Locals where
  command := Firmware.putCommand l.command l.len b
  len := l.len + 1
  finished :=
    if l.len + 1 = 1 then oneByte (Firmware.putCommand l.command l.len b 0)
    else if l.len + 1 = 6 then true else l.finished
  streaming := l.streaming
  messageSent := l.messageSent

theorem receive_eq (l : Firmware.Locals) :
    Firmware.receive l = .act (Access.load uartStatus) fun status =>
      if status &&& uartRxEmpty != uartRxEmpty then
        .act (Access.loadByte uartRx) fun r => .act (Access.storeCommand l.len (r.setWidth 8)) fun _ =>
          .ret (collect l (r.setWidth 8))
      else .ret l := by
  simp only [Firmware.receive, Firmware.load_bind]
  refine congrArg (Prog.act (Access.load uartStatus)) (funext fun status => ?_)
  split
  · simp only [Firmware.loadByte_bind, Firmware.storeCommand_bind]
    refine congrArg (Prog.act (Access.loadByte uartRx)) (funext fun r => ?_)
    refine congrArg (Prog.act (Access.storeCommand l.len (r.setWidth 8))) (funext fun u => ?_)
    by_cases h1 : l.len + 1 = 1
    · have h6 : l.len + 1 ≠ 6 := by rw [h1]; decide
      simp only [collect, oneByte, if_pos h1, if_neg h6, Firmware.pure_eq_ret]
    · by_cases h6 : l.len + 1 = 6
      · simp only [collect, if_neg h1, if_pos h6, Firmware.pure_eq_ret]
      · simp only [collect, if_neg h1, if_neg h6, Firmware.pure_eq_ret]
  · rfl

theorem Holds.put (h : Holds l p) (hlen : p.length ≤ 5) (b : BitVec 8) : Holds (collect l b) (p ++ [b]) := by
  have hput : (l.len + 1).toNat = p.length + 1 := by
    have := h.length
    bv_omega
  refine ⟨by simpa [collect] using hput, fun i hi => ?_⟩
  rw [List.length_append, List.length_singleton] at hi
  show Firmware.putCommand l.command l.len b i = _
  rw [Firmware.putCommand, h.length]
  split
  · next heq => simp [heq]
  · next hne =>
    have hi' : i.val < p.length := by omega
    rw [h.bytes i hi']
    simp [List.getD, List.getElem?_append, hi']

/-- The decoder looks only at the bytes of the frame. -/
theorem Holds.decode (h : Holds l p) (hdone : commandDone p = true) :
    decodeCommand l.command = decodeFrame p := by
  rcases Bool.or_eq_true_iff.1 hdone with hsix | hone
  · have hlen : p.length = 6 := by simpa using hsix
    exact congrArg decodeCommand (funext fun i => h.bytes i (by omega))
  · obtain ⟨hlen, hfirst⟩ := Bool.and_eq_true_iff.1 hone
    have hlen : p.length = 1 := by simpa using hlen
    have hzero := h.bytes 0 (by simp [hlen])
    unfold decodeFrame decodeCommand
    rw [hzero]
    obtain ⟨b, rfl⟩ := List.length_eq_one_iff.1 hlen
    simp only [oneByte, List.getD_cons_zero, Bool.or_eq_true, beq_iff_eq] at hfirst
    rcases hfirst with (rfl | rfl) | rfl <;> rfl

theorem Holds.finished_collect (h : Holds l p) (hlen : p.length ≤ 5) (hf : l.finished = false)
    (b : BitVec 8) : (collect l b).finished = commandDone (p ++ [b]) := by
  have hput := h.put hlen b
  have hlen' : (l.len + 1).toNat = (p ++ [b]).length := hput.length
  show (if l.len + 1 = 1 then oneByte ((collect l b).command 0) else if l.len + 1 = 6 then true
    else l.finished) = _
  rw [hput.bytes 0 (by simp), commandDone, hf]
  by_cases h1 : (p ++ [b]).length = 1
  · rw [if_pos (by bv_omega), h1]
    rfl
  · rw [if_neg (by bv_omega), beq_false_of_ne h1]
    by_cases h6 : (p ++ [b]).length = 6
    · rw [if_pos (by bv_omega), h6]
      rfl
    · rw [if_neg (by bv_omega), beq_false_of_ne h6]
      rfl

theorem frames_concat {b : BitVec 8} :
    Assembly.frames { g with received := g.received ++ [b] } = Framing.feed commandDone g.frames b :=
  Framing.frames_concat b

/-- One more byte: the frame in progress grows, or it is the next command. -/
theorem collect_spec (h : AtHead l g) (b : BitVec 8) :
    AtHead (collect l b) { g with received := g.received ++ [b] } ∨
      Complete (collect l b) { g with received := g.received ++ [b] } := by
  have hput := h.holds.put h.short b
  have hfin := h.holds.finished_collect h.short h.unfinished b
  have hframes := frames_concat (g := g) (b := b)
  rw [Framing.feed] at hframes
  cases hdone : commandDone (g.frames.2 ++ [b]) with
  | false =>
    rw [hdone, if_neg (by simp)] at hframes
    refine .inl ⟨by rw [hfin, hdone], by rw [hframes]; exact h.executed, by rw [hframes]; exact hput, ?_⟩
    rw [hframes]
    have hshort := h.short
    have hlen : (g.frames.2 ++ [b]).length ≠ 6 := fun heq => by simp [commandDone, heq] at hdone
    rw [List.length_append, List.length_singleton] at hlen ⊢
    omega
  | true =>
    rw [hdone, if_pos rfl] at hframes
    refine .inr ⟨by rw [hfin, hdone], ?_, by rw [hframes]⟩
    rw [hframes, hput.decode hdone, List.map_append, ← h.executed]
    rfl

theorem receive_spec (h : AtHead l g) :
    wlp Assembly.update Assembly.Allowed (fun l' g' => AtHead l' g' ∨ Complete l' g')
      (Firmware.receive l) g := by
  rw [receive_eq]
  refine ⟨h.allowed (by simp) id, fun status => ?_⟩
  dsimp only
  split
  · refine ⟨h.allowed (by simp) id, fun r => ⟨⟨?_, ?_, fun ha => absurd ha id⟩, fun _ => ?_⟩⟩
    · rintro idx value heq
      cases heq
      have hlen := h.holds.length
      have hshort := h.short
      bv_omega
    · show g.executed <+: _
      rcases collect_spec h (r.setWidth 8) with hhead | hdone
      · exact hhead.executed ▸ List.prefix_rfl
      · exact hdone.executed ▸ List.prefix_append _ _
    · exact collect_spec h (r.setWidth 8)
  · exact .inl h

end Receive

/-! ### The accesses of the parts of the loop -/

section Only

variable {allowed : Access → Prop} {l : Firmware.Locals}

theorem receive_only (hload : allowed (.load uartStatus)) (hbyte : allowed (.loadByte uartRx))
    (hput : ∀ idx value, allowed (.storeCommand idx value)) :
    (Firmware.receive l).Only allowed fun l' => l'.streaming = l.streaming := by
  rw [receive_eq]
  refine ⟨hload, fun status => ?_⟩
  dsimp only
  split
  · exact ⟨hbyte, fun _ => ⟨hput _ _, fun _ => rfl⟩⟩
  · rfl

theorem uartPutc_only {c : BitVec 8} (hload : allowed (.load uartStatus)) (hstore : allowed (.storeByte uartTx c)) :
    (Firmware.uartPutc c).Only allowed fun _ => True :=
  ⟨hload, hstore, fun _ => trivial⟩

theorem uartPutw_only {w : BitVec 32} (hload : allowed (.load uartStatus)) (hstore : allowed (.store uartTx w)) :
    (Firmware.uartPutw w).Only allowed fun _ => True :=
  ⟨hload, hstore, fun _ => trivial⟩

theorem report_only (hload : ∀ addr, allowed (.load addr)) (hputc : ∀ c, allowed (.storeByte uartTx c))
    (hputw : ∀ w, allowed (.store uartTx w)) (hget : allowed (.get .print)) (hset : allowed (.set .print 0)) :
    (Firmware.report l).Only allowed fun _ => True := by
  unfold Firmware.report
  split
  · rw [Firmware.get_bind]
    refine ⟨hget, fun print => ?_⟩
    dsimp only
    split
    · refine (uartPutc_only (hload _) (hputc 1)).bind fun _ _ => ⟨hload _, fun x => ?_⟩
      refine (uartPutw_only (hload _) (hputw x)).bind fun _ _ => ?_
      refine (uartPutc_only (hload _) (hputc 2)).bind fun _ _ => ⟨hload _, fun y => ?_⟩
      exact (uartPutw_only (hload _) (hputw y)).bind fun _ _ => ⟨hset, fun _ => trivial⟩
    · trivial
  · trivial

theorem sendStable_only (hload : allowed (.load uartStatus)) (hputc : allowed (.storeByte uartTx 3))
    (hget : ∀ v, v ≠ .print → allowed (.get v)) (hnote : allowed (.note .stable)) :
    (Firmware.sendStable l).Only allowed fun l' => ∃ sent, l' = { l with messageSent := sent } := by
  unfold Firmware.sendStable
  split
  · rw [Firmware.get_bind]
    refine ⟨hget _ (by decide), fun x => ?_⟩
    dsimp only
    split
    · rw [Firmware.get_bind]
      refine ⟨hget _ (by decide), fun y => ?_⟩
      dsimp only
      split
      · exact ⟨hnote, fun _ => (uartPutc_only hload hputc).bind fun _ _ => ⟨true, rfl⟩⟩
      · exact ⟨_, rfl⟩
    · exact ⟨_, rfl⟩
  · exact ⟨_, rfl⟩

end Only

section Body

variable {l : Firmware.Locals} {g : Assembly}

theorem uartPutc_quiet (c : BitVec 8) : (Firmware.uartPutc c).Only Access.Quiet fun _ => True :=
  uartPutc_only trivial trivial

theorem report_quiet (l : Firmware.Locals) : (Firmware.report l).Only Access.Quiet fun _ => True :=
  report_only (fun _ => trivial) (fun _ => trivial) (fun _ => rfl) trivial rfl

/-- The locals agree on the command being assembled. -/
structure SameCommand (l l' : Firmware.Locals) : Prop where
  command : l'.command = l.command
  len : l'.len = l.len
  finished : l'.finished = l.finished

theorem sendStable_quiet (l : Firmware.Locals) :
    (Firmware.sendStable l).Only Access.Quiet (SameCommand l) := by
  refine (sendStable_only trivial trivial (fun _ _ => trivial) trivial).mono ?_
  rintro _ ⟨sent, rfl⟩
  exact ⟨rfl, rfl, rfl⟩

theorem setPoint_only {allowed : Access → Prop} {setPointReg value : BitVec 32} {stable : Var}
    (hload : allowed (.load setPointReg)) (hstore : allowed (.store setPointReg value))
    (hset : allowed (.set stable 0)) :
    (Firmware.setPoint setPointReg stable value l).Only allowed fun _ => True := by
  rw [Firmware.setPoint, Firmware.load_bind]
  refine ⟨hload, fun old => ?_⟩
  dsimp only
  split
  · exact ⟨hstore, fun _ => ⟨hset, fun _ => trivial⟩⟩
  · trivial

/-- A command other than STS keeps to the registers of the controllers and the flags of the axes. -/
theorem Command.perform_registers {allowed : Access → Prop} {c : Command} (hc : c ≠ .sts)
    (hload : ∀ addr, addr = pidXSetPoint ∨ addr = pidYSetPoint → allowed (.load addr))
    (hstore : ∀ addr value, addr ≠ uartTx → allowed (.store addr value))
    (hset : ∀ v, v ≠ .print → allowed (.set v 0)) : (c.perform l).Only allowed fun _ => True := by
  cases c with
  | sts => exact absurd rfl hc
  | rst =>
    refine ⟨hstore _ _ (by decide), fun _ => ⟨hstore _ _ (by decide), fun _ => ?_⟩⟩
    exact ⟨hstore _ _ (by decide), fun _ => ⟨hstore _ _ (by decide), fun _ => trivial⟩⟩
  | stream => trivial
  | set loc value =>
    unfold Command.perform
    dsimp only
    split
    · exact setPoint_only (hload _ (.inl rfl)) (hstore _ _ (by decide)) (hset _ (by decide))
    · exact setPoint_only (hload _ (.inr rfl)) (hstore _ _ (by decide)) (hset _ (by decide))
    · exact ⟨hstore _ _ (by decide), fun _ => ⟨hstore _ _ (by decide), fun _ => trivial⟩⟩
    · exact ⟨hstore _ _ (by decide), fun _ => ⟨hstore _ _ (by decide), fun _ => trivial⟩⟩
    · exact ⟨hstore _ _ (by decide), fun _ => ⟨hstore _ _ (by decide), fun _ => trivial⟩⟩
    · exact ⟨hstore _ _ (by decide), fun _ => trivial⟩
    · trivial

/-- Carrying out a command makes the accesses of the command only. -/
theorem Command.perform_only (c : Command) (l : Firmware.Locals) :
    (c.perform l).Only (fun a => a.Quiet ∨ c.Action a) fun _ => True := by
  cases c with
  | sts =>
    refine Only.allow (?_ : Only Access.Quiet _ _) fun _ => .inl
    exact (uartPutc_quiet 0).bind fun _ _ => (uartPutc_quiet 3).bind fun _ _ => trivial
  | rst =>
    refine ⟨.inr (.inl rfl), fun _ => ⟨.inr (.inr (.inl rfl)), fun _ => ?_⟩⟩
    exact ⟨.inr (.inr (.inr (.inl rfl))), fun _ => ⟨.inr (.inr (.inr (.inr rfl))), fun _ => trivial⟩⟩
  | stream => trivial
  | set loc value =>
    unfold Command.perform Command.Action
    dsimp only
    split
    · exact setPoint_only (.inl trivial) (.inr (by simp)) (.inr (by simp))
    · exact setPoint_only (.inl trivial) (.inr (by simp)) (.inr (by simp))
    · exact ⟨.inr (by simp), fun _ => ⟨.inr (by simp), fun _ => trivial⟩⟩
    · exact ⟨.inr (by simp), fun _ => ⟨.inr (by simp), fun _ => trivial⟩⟩
    · exact ⟨.inr (by simp), fun _ => ⟨.inr (by simp), fun _ => trivial⟩⟩
    · exact ⟨.inr (by simp), fun _ => trivial⟩
    · trivial

/-- An access of `main`: it assembles a command, carries one out, or is quiet. -/
def Access.OfMain (a : Access) : Prop :=
  a.Quiet ∨ (∃ addr, a = .loadByte addr) ∨ (∃ idx value, a = .storeCommand idx value) ∨
    (∃ command, a = .note (.dispatch command)) ∨ ∃ c : Command, c.Action a

theorem body_only (l : Firmware.Locals) : (Firmware.body l).Only Access.OfMain fun _ => True := by
  have hquiet {a : Access} (h : a.Quiet) : a.OfMain := .inl h
  refine (receive_only (hquiet trivial) (.inr (.inl ⟨_, rfl⟩)) fun _ _ => .inr (.inr (.inl ⟨_, _, rfl⟩))).bind
    fun l _ => ?_
  refine ((report_quiet l).allow fun _ => hquiet).bind fun _ _ => ?_
  refine ((sendStable_quiet l).allow fun _ => hquiet).bind fun l _ => ?_
  unfold Firmware.execute
  split
  · rw [Firmware.note_bind]
    refine ⟨.inr (.inr (.inr (.inl ⟨_, rfl⟩))), fun _ => ?_⟩
    change (Firmware.dispatch l >>= _).Only _ _
    have hdispatch : (Firmware.dispatch l).Only Access.OfMain fun _ => True := by
      rw [dispatch_eq]
      cases decodeCommand l.command with
      | none => trivial
      | some c => exact (c.perform_only l).allow fun _ h => h.imp_right fun h => .inr (.inr (.inr ⟨c, h⟩))
    exact hdispatch.bind fun _ _ => trivial
  · trivial

theorem Access.Quiet.allowed {a : Access} (ha : a.Quiet)
    (hg : g.executed <+: g.frames.1.map decodeFrame) : g.Allowed a ∧ ∀ r, g.update a r = g := by
  cases a with
  | note n =>
    cases n with
    | stable => exact ⟨⟨by simp, hg, fun h => h.elim⟩, fun r => rfl⟩
    | dispatch => exact ha.elim
  | load | get | storeByte => exact ⟨⟨by simp, hg, fun h => h.elim⟩, fun r => rfl⟩
  | store addr value => exact ⟨⟨by simp, hg, fun h => absurd ha h⟩, fun r => rfl⟩
  | set v value => exact ⟨⟨by simp, hg, fun h => absurd ha h⟩, fun r => rfl⟩
  | loadByte | storeCommand => exact ha.elim

theorem Command.Action.allowed {a : Access} {c : Command} (ha : c.Action a)
    (hexec : g.executed = g.frames.1.map decodeFrame) (hword : g.frames.2 = [])
    (hlast : g.executed.getLast? = some (some c)) : g.Allowed a ∧ ∀ r, g.update a r = g := by
  have hle : g.executed <+: g.frames.1.map decodeFrame := hexec ▸ List.prefix_rfl
  cases a with
  | store | set => exact ⟨⟨by simp, hle, fun _ => ⟨c, hlast, ha, hexec, hword⟩⟩, fun r => rfl⟩
  | _ => cases c <;> simp [Command.Action] at ha

/-- What holds between the assembly and the execution of a command. -/
def Collected (l : Firmware.Locals) (g : Assembly) : Prop := AtHead l g ∨ Complete l g

theorem Collected.executed_le (h : Collected l g) : g.executed <+: g.frames.1.map decodeFrame := by
  rcases h with h | h
  · exact h.executed ▸ List.prefix_rfl
  · exact h.executed ▸ List.prefix_append _ _

theorem Collected.congr {l' : Firmware.Locals} (h : Collected l g) (hl : SameCommand l l') :
    Collected l' g := by
  rcases h with h | h
  · refine .inl ⟨by rw [hl.finished, h.unfinished], h.executed, ?_, h.short⟩
    exact ⟨by rw [hl.len, h.holds.length], by rw [hl.command]; exact h.holds.bytes⟩
  · exact .inr ⟨by rw [hl.finished, h.finished], by rw [hl.command, h.executed], h.word⟩

theorem report_spec (h : Collected l g) :
    wlp Assembly.update Assembly.Allowed (fun _ g' => Collected l g') (Firmware.report l) g :=
  wlp_mono (by rintro _ _ ⟨rfl, -⟩; exact h)
    ((report_quiet l).wlp fun _ ha => ha.allowed h.executed_le)

theorem sendStable_spec (h : Collected l g) :
    wlp Assembly.update Assembly.Allowed Collected (Firmware.sendStable l) g :=
  wlp_mono (by rintro l' _ ⟨rfl, hl⟩; exact h.congr hl)
    ((sendStable_quiet l).wlp fun _ ha => ha.allowed h.executed_le)

theorem dispatch_spec (hexec : g.executed = g.frames.1.map decodeFrame) (hword : g.frames.2 = [])
    (hlast : g.executed.getLast? = some (decodeCommand l.command)) :
    wlp Assembly.update Assembly.Allowed (fun _ g' => g' = g) (Firmware.dispatch l) g := by
  rw [dispatch_eq]
  cases hc : decodeCommand l.command with
  | none => rfl
  | some c =>
    refine wlp_mono (fun _ _ hg => hg.1) ((c.perform_only l).wlp ?_)
    rintro a (ha | ha)
    · exact ha.allowed (hexec ▸ List.prefix_rfl)
    · exact ha.allowed hexec hword (by rw [hlast, hc])

theorem execute_spec (h : Collected l g) :
    wlp Assembly.update Assembly.Allowed AtHead (Firmware.execute l) g := by
  unfold Firmware.execute
  rcases h with h | h
  · rw [if_neg (by simp [h.unfinished])]
    exact h
  · rw [if_pos h.finished, Firmware.note_bind]
    refine ⟨⟨by simp, h.executed ▸ List.prefix_append _ _, fun ha => ha.elim⟩, fun _ => wlp_bind.2 ?_⟩
    have hexec : (g.update (.note (.dispatch l.command)) 0).executed = g.frames.1.map decodeFrame := h.executed
    refine wlp_mono ?_ (dispatch_spec hexec h.word (List.getLast?_concat ..))
    rintro l' g' rfl
    refine ⟨rfl, hexec, ⟨?_, fun i hi => ?_⟩, ?_⟩
    · exact (congrArg List.length h.word).symm
    · exact absurd (hi.trans_eq (congrArg List.length h.word)) (Nat.not_lt_zero _)
    · exact (congrArg List.length h.word).le.trans (Nat.zero_le _)

theorem body_spec (h : AtHead l g) : wlp Assembly.update Assembly.Allowed AtHead (Firmware.body l) g := by
  refine wlp_bind.2 (wlp_mono (fun l g h => ?_) (receive_spec h))
  refine wlp_bind.2 (wlp_mono (fun _ g h => ?_) (report_spec h))
  exact wlp_bind.2 (wlp_mono (fun l g h => execute_spec h) (sendStable_spec h))

end Body

end PenPlotter
