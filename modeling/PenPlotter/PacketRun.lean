import PenPlotter.CommandOrder
import PenPlotter.HostPackets
import PenPlotter.TimerCode

/-!
# The firmware sends whole packets

At every loop head the writes of the TX register are the writes of packets, one after the other, and their
ticks are the words read from the decoder. No handler writes there, so a packet is never interrupted by
another.
-/

namespace PenPlotter

open Mmio Prog

/-- The writes of the TX register, and the words read from `QUAD->X` and `QUAD->Y`. -/
structure Sent where
  writes : List TxWrite
  xs : List (BitVec 32)
  ys : List (BitVec 32)

namespace Sent

/-- What sending the packets whole leaves. -/
def of (ps : List Packet) : Sent := ⟨ps.flatMap Packet.writes, ps.filterMap Packet.x, ps.filterMap Packet.y⟩

def update (g : Sent) : Access → BitVec 32 → Sent
  | .storeByte addr c, _ => if addr = uartTx then { g with writes := g.writes ++ [.byte c] } else g
  | .store addr w, _ => if addr = uartTx then { g with writes := g.writes ++ [.word w] } else g
  | .load addr, r =>
    if addr = quadX then { g with xs := g.xs ++ [r] }
    else if addr = quadY then { g with ys := g.ys ++ [r] }
    else g
  | _, _ => g

/-- Of the words that have been read at most the last one has not been sent. -/
def Late (sent read : List (BitVec 32)) : Prop := sent <+: read ∧ read.length ≤ sent.length + 1

theorem late_rfl (ws : List (BitVec 32)) : Late ws ws := ⟨List.prefix_rfl, Nat.le_succ _⟩

theorem late_read (ws : List (BitVec 32)) (w : BitVec 32) : Late ws (ws ++ [w]) :=
  ⟨List.prefix_append _ _, List.length_append.le⟩

/-- The packets `ps` have been sent, and `part` of the next one. -/
structure Carries (g : Sent) (ps : List Packet) (part : List TxWrite) : Prop where
  isPart : Packet.IsPart part
  writes : g.writes = ps.flatMap Packet.writes ++ part
  xs : Late (ps.filterMap Packet.x) g.xs
  ys : Late (ps.filterMap Packet.y) g.ys

def Sending (g : Sent) : Prop := ∃ ps part, g.Carries ps part

/-- All that has been written are whole packets. -/
def Whole (g : Sent) : Prop := ∃ ps, g = of ps

theorem carries_of (ps : List Packet) : (of ps).Carries ps [] :=
  ⟨.inl rfl, (List.append_nil _).symm, late_rfl _, late_rfl _⟩

theorem Whole.sending {g : Sent} (h : g.Whole) : g.Sending := by
  obtain ⟨ps, rfl⟩ := h
  exact ⟨ps, [], carries_of ps⟩

theorem of_status (ps : List Packet) :
    of (ps ++ [.status]) = { of ps with writes := (of ps).writes ++ [.byte 0] ++ [.byte 3] } := by
  simp [of, Packet.writes, Packet.x, Packet.y]

theorem of_xTicks (ps : List Packet) (x : BitVec 32) :
    of (ps ++ [.xTicks x]) = ⟨(of ps).writes ++ [.byte 1] ++ [.word x], (of ps).xs ++ [x], (of ps).ys⟩ := by
  simp [of, Packet.writes, Packet.x, Packet.y]

theorem of_yTicks (ps : List Packet) (y : BitVec 32) :
    of (ps ++ [.yTicks y]) = ⟨(of ps).writes ++ [.byte 2] ++ [.word y], (of ps).xs, (of ps).ys ++ [y]⟩ := by
  simp [of, Packet.writes, Packet.x, Packet.y]

theorem of_stable (ps : List Packet) :
    of (ps ++ [.stable]) = { of ps with writes := (of ps).writes ++ [.byte 3] } := by
  simp [of, Packet.writes, Packet.x, Packet.y]

theorem isPart_status : Packet.IsPart [.byte 0] := .inr ⟨.status, ⟨_, rfl⟩, by simp [Packet.writes]⟩

theorem isPart_xTicks : Packet.IsPart [.byte 1] := .inr ⟨.xTicks 0, ⟨_, rfl⟩, by simp [Packet.writes]⟩

theorem isPart_yTicks : Packet.IsPart [.byte 2] := .inr ⟨.yTicks 0, ⟨_, rfl⟩, by simp [Packet.writes]⟩

end Sent

/-- An access that is no write of the TX register and no read of the decoder. -/
def Access.Silent : Access → Prop
  | .storeByte addr _ | .store addr _ => addr ≠ uartTx
  | .load addr => addr ≠ quadX ∧ addr ≠ quadY
  | _ => True

theorem Access.Silent.update {a : Access} (h : a.Silent) (g : Sent) (r : BitVec 32) : g.update a r = g := by
  cases a with
  | load addr => exact (if_neg h.1).trans (if_neg h.2)
  | store addr w => exact if_neg h
  | storeByte addr c => exact if_neg h
  | _ => rfl

section Wlp

variable {g : Sent} {l : Firmware.Locals}

abbrev Sent.wlp {α : Type} (Q : α → Sent → Prop) (p : Firmware α) (g : Sent) : Prop :=
  Prog.wlp Sent.update (fun g _ => g.Sending) Q p g

theorem wlp_putc {Q : Unit → Sent → Prop} {c : BitVec 8} (hg : g.Sending)
    (h : Q () { g with writes := g.writes ++ [.byte c] }) : Sent.wlp Q (Firmware.uartPutc c) g :=
  ⟨hg, fun _ => ⟨fun _ => rfl, fun _ => ⟨hg, fun _ => h⟩⟩⟩

theorem wlp_putw {Q : Unit → Sent → Prop} {w : BitVec 32} (hg : g.Sending)
    (h : Q () { g with writes := g.writes ++ [.word w] }) : Sent.wlp Q (Firmware.uartPutw w) g :=
  ⟨hg, fun _ => ⟨fun _ => rfl, fun _ => ⟨hg, fun _ => h⟩⟩⟩

theorem wlp_silent {α : Type} {p : Firmware α} (h : p.Only Access.Silent fun _ => True) (hg : g.Whole) :
    Sent.wlp (fun _ g => g.Whole) p g := by
  refine wlp_mono (fun _ g' hsame => ?_) (h.wlp fun _ ha => ⟨hg.sending, ha.update g⟩)
  rw [hsame.1]
  exact hg

theorem receive_silent (l : Firmware.Locals) : (Firmware.receive l).Only Access.Silent fun _ => True :=
  (receive_only ⟨by decide, by decide⟩ trivial fun _ _ => trivial).mono fun _ _ => trivial

/-- A report is the two packets of the words that it reads. -/
theorem report_wlp (hg : g.Whole) : Sent.wlp (fun _ g => g.Whole) (Firmware.report l) g := by
  unfold Firmware.report
  split
  · rw [Firmware.get_bind]
    refine ⟨hg.sending, fun print => ?_⟩
    dsimp only
    split
    · obtain ⟨ps, rfl⟩ := hg
      change Sent.wlp _ _ (Sent.of ps)
      refine wlp_bind.2 (wlp_putc ⟨ps, [], Sent.carries_of ps⟩ ?_)
      rw [Firmware.load_bind]
      refine ⟨⟨ps, [.byte 1], Sent.isPart_xTicks, rfl, Sent.late_rfl _, Sent.late_rfl _⟩, fun x => wlp_bind.2
        (wlp_putw ⟨ps, [.byte 1], Sent.isPart_xTicks, rfl, Sent.late_read _ x, Sent.late_rfl _⟩ ?_)⟩
      change Sent.wlp _ _ ⟨(Sent.of ps).writes ++ [.byte 1] ++ [.word x], (Sent.of ps).xs ++ [x], (Sent.of ps).ys⟩
      rw [← Sent.of_xTicks]
      generalize ps ++ [.xTicks x] = ps
      refine wlp_bind.2 (wlp_putc ⟨ps, [], Sent.carries_of ps⟩ ?_)
      rw [Firmware.load_bind]
      refine ⟨⟨ps, [.byte 2], Sent.isPart_yTicks, rfl, Sent.late_rfl _, Sent.late_rfl _⟩, fun y => wlp_bind.2
        (wlp_putw ⟨ps, [.byte 2], Sent.isPart_yTicks, rfl, Sent.late_rfl _, Sent.late_read _ y⟩ ?_)⟩
      have hwhole := (Sent.of_yTicks ps y).symm
      exact ⟨Sent.Whole.sending ⟨_, hwhole⟩, fun _ => ⟨_, hwhole⟩⟩
    · exact hg
  · exact hg

theorem sendStable_wlp (hg : g.Whole) : Sent.wlp (fun _ g => g.Whole) (Firmware.sendStable l) g := by
  unfold Firmware.sendStable
  split
  · rw [Firmware.get_bind]
    refine ⟨hg.sending, fun x => ?_⟩
    dsimp only
    split
    · rw [Firmware.get_bind]
      refine ⟨hg.sending, fun y => ?_⟩
      dsimp only
      split
      · refine ⟨hg.sending, fun _ => ?_⟩
        change Sent.wlp _ (Firmware.uartPutc 3 >>= _) g
        refine wlp_bind.2 (wlp_putc hg.sending ?_)
        obtain ⟨ps, rfl⟩ := hg
        exact ⟨ps ++ [.stable], (Sent.of_stable ps).symm⟩
      · exact hg
    · exact hg
  · exact hg

theorem store_silent {addr : BitVec 32} (w : BitVec 32) (h : addr ≠ uartTx) : (Access.store addr w).Silent := h

theorem perform_silent {c : Command} (hc : c ≠ .sts) (l : Firmware.Locals) :
    (c.perform l).Only Access.Silent fun _ => True := by
  refine Command.perform_registers hc ?_ (fun _ w h => store_silent w h) fun _ _ => trivial
  rintro _ (rfl | rfl) <;> exact ⟨by decide, by decide⟩

theorem perform_wlp (c : Command) (hg : g.Whole) : Sent.wlp (fun _ g => g.Whole) (c.perform l) g := by
  by_cases hc : c = .sts
  · obtain ⟨ps, rfl⟩ := hg
    subst hc
    change Sent.wlp _ (Firmware.uartPutc 0 >>= fun _ => Firmware.uartPutc 3 >>= _) _
    refine wlp_bind.2 (wlp_putc ⟨ps, [], Sent.carries_of ps⟩ (wlp_bind.2 (wlp_putc ?_ ?_)))
    · exact ⟨ps, [.byte 0], Sent.isPart_status, rfl, Sent.late_rfl _, Sent.late_rfl _⟩
    · exact ⟨ps ++ [.status], (Sent.of_status ps).symm⟩
  · exact wlp_silent (perform_silent hc l) hg

theorem execute_wlp (hg : g.Whole) : Sent.wlp (fun _ g => g.Whole) (Firmware.execute l) g := by
  unfold Firmware.execute
  split
  · rw [Firmware.note_bind]
    refine ⟨hg.sending, fun _ => ?_⟩
    change Sent.wlp _ (Firmware.dispatch l >>= _) g
    have hdispatch : Sent.wlp (fun _ g => g.Whole) (Firmware.dispatch l) g := by
      rw [dispatch_eq]
      cases decodeCommand l.command with
      | none => exact hg
      | some c => exact perform_wlp c hg
    exact wlp_bind.2 (wlp_mono (fun _ _ hwhole => hwhole) hdispatch)
  · exact hg

theorem body_wlp (hg : g.Whole) : Sent.wlp (fun _ g => g.Whole) (Firmware.body l) g := by
  refine wlp_bind.2 (wlp_mono (fun l _ hg => ?_) (wlp_silent (receive_silent l) hg))
  refine wlp_bind.2 (wlp_mono (fun _ _ hg => ?_) (report_wlp hg))
  exact wlp_bind.2 (wlp_mono (fun _ _ hg => execute_wlp hg) (sendStable_wlp hg))

end Wlp

theorem pidInterruptHandler_silent : Firmware.pidInterruptHandler.Only Access.Silent fun _ => True := by
  have hack (value : BitVec 32) : (Firmware.store pidStatus value).Only Access.Silent fun _ => True :=
    ⟨store_silent _ (by decide), fun _ => trivial⟩
  unfold Firmware.pidInterruptHandler
  rw [Firmware.load_bind]
  refine ⟨⟨by decide, by decide⟩, fun status => ?_⟩
  dsimp only
  split
  · refine ⟨trivial, fun _ => ?_⟩
    show Only _ _ (if _ then _ else _)
    split
    · refine ⟨trivial, fun _ => ?_⟩
      exact hack _
    · exact hack _
  · split
    · refine ⟨trivial, fun _ => ?_⟩
      exact hack _
    · trivial

theorem machineTimerHandler_silent (h : TimerHandler) :
    (Firmware.machineTimerHandler h).Only Access.Silent fun _ => True := by
  refine machineTimerHandler_only trivial ⟨by decide, by decide⟩ ⟨by decide, by decide⟩ ?_ h
  rintro addr value (rfl | rfl)
  · exact store_silent _ (by decide)
  · exact store_silent _ (by decide)

section Run

variable (resp : Nat → BitVec 32) (t : Nat)

/-- What `main` has sent before its access `t`. -/
def mainSent : Nat → Sent
  | 0 => ⟨[], [], []⟩
  | t + 1 => Prog.ghost Sent.update (mainSent t) (mainRun resp t) (resp t)

variable {resp t}

theorem sent_wlp : Sent.wlp (fun _ g => g.Whole) (mainRun resp t) (mainSent resp t) := by
  induction t with
  | zero => exact ⟨[], rfl⟩
  | succ t ih =>
    rw [mainRun, Clocked.run_succ]
    exact wlp_step (fun _ _ hg => body_wlp hg) ih (resp t)

theorem sent_sending : (mainSent resp t).Sending := by
  have hwlp : Sent.wlp _ (mainRun resp t) (mainSent resp t) := sent_wlp
  cases hacc : (mainRun resp t).access with
  | some a => exact hwlp.access_ok hacc
  | none =>
    cases hrun : mainRun resp t with
    | ret l =>
      rw [hrun] at hwlp
      exact hwlp.sending
    | act a k | spin a again k =>
      rw [hrun] at hacc
      cases hacc

/-- At every point of every run: what the TX register has been written are the packets `ps` and at most the type
byte of the next; their ticks are the words read from the decoder; and both host programs read these packets. -/
theorem host_packets (resp : Nat → BitVec 32) :
    (∀ t, ∃ (ps : List Packet) (part : List TxWrite), Packet.IsPart part ∧
      (mainSent resp t).writes = ps.flatMap Packet.writes ++ part ∧
      Sent.Late (ps.filterMap Packet.x) (mainSent resp t).xs ∧ Sent.Late (ps.filterMap Packet.y) (mainSent resp t).ys ∧
      ((∃ l, mainRun resp t = .ret l) →
        part = [] ∧ ps.filterMap Packet.x = (mainSent resp t).xs ∧ ps.filterMap Packet.y = (mainSent resp t).ys) ∧
      ppcsender ((mainSent resp t).writes.flatMap TxWrite.lanes) = ps.map Packet.printed ∧
      ∀ build, shape build 0 ((mainSent resp t).writes.flatMap TxWrite.lanes) <+: ps.map Packet.shapeRead ∧
        ((∀ n ∈ build.stopAt, ps.count .stable < n) →
          shape build 0 ((mainSent resp t).writes.flatMap TxWrite.lanes) = ps.map Packet.shapeRead)) ∧
    Firmware.pidInterruptHandler.Only Access.Silent (fun _ => True) ∧
    ∀ h, (Firmware.machineTimerHandler h).Only Access.Silent fun _ => True := by
  refine ⟨fun t => ?_, pidInterruptHandler_silent, machineTimerHandler_silent⟩
  have hparse {ps : List Packet} {part : List TxWrite} (hpart : Packet.IsPart part)
      (hwrites : (mainSent resp t).writes = ps.flatMap Packet.writes ++ part) :
      ppcsender ((mainSent resp t).writes.flatMap TxWrite.lanes) = ps.map Packet.printed ∧
      ∀ build, shape build 0 ((mainSent resp t).writes.flatMap TxWrite.lanes) <+: ps.map Packet.shapeRead ∧
        ((∀ n ∈ build.stopAt, ps.count .stable < n) →
          shape build 0 ((mainSent resp t).writes.flatMap TxWrite.lanes) = ps.map Packet.shapeRead) := by
    rw [hwrites]
    refine ⟨ppcsender_stream hpart, fun build => ?_⟩
    have hshape := shape_stream ps build hpart 0
    rwa [Nat.zero_add] at hshape
  by_cases hhead : ∃ l, mainRun resp t = .ret l
  · obtain ⟨l, hl⟩ := hhead
    have hwlp : Sent.wlp _ (mainRun resp t) (mainSent resp t) := sent_wlp
    rw [hl] at hwlp
    obtain ⟨ps, hps⟩ := hwlp
    obtain ⟨hpart, hwrites, hxs, hys⟩ := Sent.carries_of ps
    rw [← hps] at hwrites hxs hys
    exact ⟨ps, [], hpart, hwrites, hxs, hys, fun _ => ⟨rfl, by rw [hps]; rfl, by rw [hps]; rfl⟩, hparse hpart hwrites⟩
  · have hsending : (mainSent resp t).Sending := sent_sending
    obtain ⟨ps, part, hpart, hwrites, hxs, hys⟩ := hsending
    exact ⟨ps, part, hpart, hwrites, hxs, hys, fun h => absurd h hhead, hparse hpart hwrites⟩

end Run

end PenPlotter
