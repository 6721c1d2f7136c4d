import PenPlotter.HostPackets
import PenPlotter.HostSender

/-!
# Drawing a shape (`dv/verilator/shape.c`)

`main` sends its settings and the first point, answers every STABLE packet with the pen and the next point,
and sends the way home after the last. What it sends depends on the packets only through the number of
STABLE packets among them (`shape_answers`), and the registers of the plotter, once it has executed that,
hold the point that the drawing has come to (`rectangle_registers`). The points of a circle, which need
`cosf` and `sinf`, are a parameter.
-/

namespace PenPlotter

open Firmware Mmio

structure Position where
  x : ℤ
  y : ℤ
  down : Bool

def startX : ℤ := 744 * 4
def startY : ℤ := 744 * -2

/-- `744*0.25`, which is a whole number, as `744*4*0.25` is. -/
def smallLength : ℤ := 744 / 4
def bigLength : ℤ := 744 * 4 / 4

def servoDown : ℚ := 150
def servoUp : ℚ := 90

def positions : List Position :=
  [⟨startX, startY, true⟩,
   ⟨startX + bigLength, startY, true⟩,
   ⟨startX + bigLength, startY + bigLength, true⟩,
   ⟨startX, startY + bigLength, true⟩,
   ⟨startX, startY, false⟩,
   ⟨startX + smallLength, startY, true⟩,
   ⟨startX, startY + smallLength, false⟩,
   ⟨startX + smallLength * 2, startY, true⟩,
   ⟨startX, startY + smallLength * 2, false⟩,
   ⟨startX + smallLength * 3, startY, true⟩,
   ⟨startX, startY + smallLength * 3, false⟩,
   ⟨0, 0, false⟩]

/-- The index stays below the number of positions, as the loop ends at the last. -/
def position (index : Nat) : Position := positions.getD index ⟨0, 0, false⟩

/-- What the program is compiled with; `circle n` is the point at the `n`-th sample of the circle. -/
structure ShapeOptions where
  build : ShapeBuild
  dotted : Bool
  centerEveryOther : Bool
  circle : Nat → BitVec 32 × BitVec 32

section

variable (c : Undefined) (o : ShapeOptions)

def sendPoint (x y : BitVec 32) : List (BitVec 8) := sendSetCommandU32 0 x ++ sendSetCommandU32 1 y

def sendStart : List (BitVec 8) := sendPoint (BitVec.ofInt 32 startX) (BitVec.ofInt 32 startY)

/-- Before the loop. -/
def shapeOpening : List (BitVec 8) :=
  sendSetCommandQ16 c 2 (1 / 2) ++ sendSetCommandQ16 c 3 (1 / 2) ++ sendSetCommandQ16 c 4 10 ++ sendStart

/-- After the loop. -/
def shapeClosing : List (BitVec 8) := sendSetCommandAngle c 5 servoUp ++ sendPoint 0 0

namespace ShapeOptions

def penAngle (index : Nat) : ℚ :=
  if o.dotted then if index % 2 = 0 then servoDown else servoUp
  else match o.build with
    | .rectangle => if (position index).down then servoDown else servoUp
    | _ => if 0 < index then servoDown else servoUp

/-- The next point, for the index after its increment. -/
def sendNext (index : Nat) (center : Bool) : List (BitVec 8) :=
  match o.build with
  | .rectangle => sendPoint (BitVec.ofInt 32 (position index).x) (BitVec.ofInt 32 (position index).y)
  | .circle =>
    if o.centerEveryOther then
      if center then sendStart else sendPoint (o.circle index).1 (o.circle index).2
    else sendPoint (o.circle (index - 1)).1 (o.circle (index - 1)).2
  | .plain => []

/-- What is sent for the packets that are read; `center` changes with every STABLE packet. -/
def answers : Nat → Bool → List ShapeRead → List (BitVec 8)
  | _, _, [] => []
  | index, center, .stable :: reads =>
    sendSetCommandAngle c 5 (o.penAngle index) ++ o.sendNext (index + 1) (!center) ++
      answers (index + 1) (!center) reads
  | index, center, _ :: reads => answers index center reads

/-- All that `main` sends when it reads `bytes`. -/
def main (bytes : List (BitVec 8)) : List (BitVec 8) :=
  let reads := shape o.build 0 bytes
  shapeOpening c ++ o.answers c 0 true reads ++
    if o.build.stopAt = some (reads.count .stable) then shapeClosing c else []

/-- What is sent for the STABLE packet that finds `index`. -/
def waypoint (index : Nat) : List (BitVec 8) :=
  sendSetCommandAngle c 5 (o.penAngle index) ++ o.sendNext (index + 1) (index % 2 = 1)

/-- How many of `n` STABLE packets the loop takes from the index `index` on. -/
def taken (index n : Nat) : Nat := o.build.stopAt.elim n fun stop => min n (stop - index)

variable {c o}

theorem answers_stable (index : Nat) (reads : List ShapeRead) :
    o.answers c index (index % 2 = 0) (.stable :: reads) =
      o.waypoint c index ++ o.answers c (index + 1) ((index + 1) % 2 = 0) reads := by
  have hcenter : (!decide (index % 2 = 0)) = decide (index % 2 = 1) := by
    rcases Nat.mod_two_eq_zero_or_one index with h | h <;> simp [h]
  have hnext : decide (index % 2 = 1) = decide ((index + 1) % 2 = 0) := by
    rw [decide_eq_decide]
    omega
  rw [answers, waypoint, hcenter, ← hnext, List.append_assoc]

theorem answers_other {r : ShapeRead} (hr : r ≠ .stable) (index : Nat) (center : Bool) (reads : List ShapeRead) :
    o.answers c index center (r :: reads) = o.answers c index center reads := by
  cases r with
  | stable => exact absurd rfl hr
  | _ => rfl

section

variable {index n : Nat}

theorem taken_zero : o.taken index 0 = 0 := by
  unfold taken
  cases o.build.stopAt <;> simp

theorem taken_stop (hstop : o.build.stopAt = some index) : o.taken index n = 0 := by
  rw [taken, hstop]
  simp

theorem taken_succ (hindex : ∀ stop ∈ o.build.stopAt, index < stop) :
    o.taken index (n + 1) = o.taken (index + 1) n + 1 := by
  unfold taken
  cases hstop : o.build.stopAt with
  | none => rfl
  | some stop =>
    have hlt := hindex stop hstop
    simp only [Option.elim]
    omega

end

/-- The loop on whole packets and a part of one. -/
theorem shape_loop (ps : List Packet) {part : List TxWrite} (hpart : Packet.IsPart part) (index : Nat)
    (hindex : ∀ stop ∈ o.build.stopAt, index < stop) :
    (shape o.build index ((ps.flatMap Packet.writes ++ part).flatMap TxWrite.lanes)).count .stable =
        o.taken index (ps.count .stable) ∧
      o.answers c index (index % 2 = 0)
          (shape o.build index ((ps.flatMap Packet.writes ++ part).flatMap TxWrite.lanes)) =
        (List.range' index (o.taken index (ps.count .stable))).flatMap (o.waypoint c) := by
  rw [List.flatMap_append, flatMap_lanes]
  induction ps generalizing index with
  | nil =>
    have hnil : shape o.build index (part.flatMap TxWrite.lanes) = [] := by
      rcases hpart.cases with rfl | rfl | rfl | rfl <;> rfl
    rw [List.flatMap_nil, List.nil_append, hnil, List.count_nil, List.count_nil, taken_zero]
    exact ⟨rfl, rfl⟩
  | cons p ps ih =>
    rw [List.flatMap_cons, List.append_assoc, shape_append]
    by_cases hp : p = .stable
    · subst hp
      rw [if_pos rfl, List.count_cons_self, Packet.shapeRead, List.count_cons_self, answers_stable,
        taken_succ hindex, List.range'_succ, List.flatMap_cons]
      by_cases hstop : o.build.stopAt = some (index + 1)
      · rw [if_pos hstop, taken_stop hstop]
        exact ⟨rfl, rfl⟩
      · have hnext : ∀ stop ∈ o.build.stopAt, index + 1 < stop := by
          intro stop hmem
          refine Nat.lt_of_le_of_ne (hindex stop hmem) ?_
          rintro rfl
          exact hstop hmem
        obtain ⟨hcount, hanswers⟩ := ih (index + 1) hnext
        rw [if_neg hstop, hcount, hanswers]
        exact ⟨rfl, rfl⟩
    · have hread : p.shapeRead ≠ .stable := by
        cases p <;> simp_all [Packet.shapeRead]
      have hgoes : ¬o.build.stopAt = some index := fun h => absurd (hindex index h) (Nat.lt_irrefl index)
      rw [if_neg hp, Nat.add_zero, if_neg hgoes, List.count_cons_of_ne hread, answers_other hread,
        List.count_cons_of_ne hp]
      exact ih index hindex

theorem start_lt_stop (build : ShapeBuild) : ∀ stop ∈ build.stopAt, 0 < stop := by
  intro stop hstop
  cases build <;> cases hstop <;> decide

theorem main_stream (ps : List Packet) {part : List TxWrite} (hpart : Packet.IsPart part) :
    o.main c ((ps.flatMap Packet.writes ++ part).flatMap TxWrite.lanes) =
      shapeOpening c ++ (List.range (o.taken 0 (ps.count .stable))).flatMap (o.waypoint c) ++
        if o.build.stopAt = some (o.taken 0 (ps.count .stable)) then shapeClosing c else [] := by
  obtain ⟨hcount, hanswers⟩ := shape_loop (c := c) ps hpart 0 (start_lt_stop o.build)
  rw [main, hcount, List.range_eq_range', ← hanswers]
  rfl

end ShapeOptions

/-- What `shape.c` sends depends on the packets only through the number of STABLE packets: the settings and the first
point, a pen and a point for each of them up to the last, and then the way home. -/
theorem shape_answers (c : Undefined) (o : ShapeOptions) (ps : List Packet) (part : List TxWrite)
    (hpart : Packet.IsPart part) :
    o.main c ((ps.flatMap Packet.writes ++ part).flatMap TxWrite.lanes) =
      shapeOpening c ++ (List.range (o.taken 0 (ps.count .stable))).flatMap (o.waypoint c) ++
        if o.build.stopAt = some (o.taken 0 (ps.count .stable)) then shapeClosing c else [] :=
  ShapeOptions.main_stream ps hpart

theorem shape_answers_one :
    ShapeOptions.main ⟨fun _ => 0, fun _ => 0, fun _ => 0⟩ ⟨.circle, false, true, fun _ => (0, 0)⟩
        (([Packet.status, Packet.stable].flatMap Packet.writes ++ []).flatMap TxWrite.lanes) =
      shapeOpening ⟨fun _ => 0, fun _ => 0, fun _ => 0⟩ ++
        (List.range 1).flatMap (ShapeOptions.waypoint ⟨fun _ => 0, fun _ => 0, fun _ => 0⟩
          ⟨.circle, false, true, fun _ => (0, 0)⟩) ++ [] :=
  shape_answers _ _ [.status, .stable] [] (.inl rfl)

end

/-! ### The plotter under the commands -/

/-- The registers after the firmware has executed the frames of a stream of bytes. -/
def Firmware.executedStream (resp : Access → BitVec 32) (l : Locals) (bytes : List (BitVec 8))
    (regs : BitVec 32 → BitVec 32) : BitVec 32 → BitVec 32 :=
  (Framing.frames commandDone bytes).1.foldl (fun r frame => executed resp l frame r) regs

def sends (sets : List (BitVec 8 × BitVec 32)) : List (BitVec 8) := sets.flatMap fun s => sendSetCommandU32 s.1 s.2

def performed (regs : BitVec 32 → BitVec 32) (s : BitVec 8 × BitVec 32) : BitVec 32 → BitVec 32 :=
  (stores s.1 s.2).foldl (fun r s => Function.update r s.1 s.2) regs

theorem executedStream_sends (resp : Access → BitVec 32) (l : Locals) (sets : List (BitVec 8 × BitVec 32))
    (regs : BitVec 32 → BitVec 32) : executedStream resp l (sends sets) regs = sets.foldl performed regs := by
  have hframes := frames_encode (sets.map fun s => Command.set s.1 s.2)
  rw [List.flatMap_map] at hframes
  replace hframes : Framing.frames commandDone (sends sets) = _ := hframes
  rw [executedStream, hframes, List.foldl_map, List.foldl_map]
  congr 1
  funext r s
  exact executed_set s.1 s.2

section

variable (c : Undefined) (o : ShapeOptions)

/-- A pen and a point. -/
def penAndPoint (angle : ℚ) (x y : ℤ) : List (BitVec 8 × BitVec 32) :=
  [(5, floatToUint32 c (angle * (65535 / 180))), (0, BitVec.ofInt 32 x), (1, BitVec.ofInt 32 y)]

def openingSets : List (BitVec 8 × BitVec 32) :=
  [(2, 32768), (3, 32768), (4, 655360), (0, BitVec.ofInt 32 (position 0).x), (1, BitVec.ofInt 32 (position 0).y)]

def waypointSets (index : Nat) : List (BitVec 8 × BitVec 32) :=
  penAndPoint c (o.penAngle index) (position (index + 1)).x (position (index + 1)).y

variable {c o}

theorem shapeOpening_eq : shapeOpening c = sends openingSets := by
  have hhalf : floatToInt32 c (1 / 2 * 65536) = 32768 := by
    have hcast : (1 / 2 * 65536 : ℚ) = (32768 : ℤ) := by norm_num
    rw [hcast, floatToInt32_intCast c (by decide) (by decide)]
    rfl
  have hten : floatToInt32 c (10 * 65536) = 655360 := by
    have hcast : (10 * 65536 : ℚ) = (655360 : ℤ) := by norm_num
    rw [hcast, floatToInt32_intCast c (by decide) (by decide)]
    rfl
  unfold shapeOpening sendSetCommandQ16
  rw [hhalf, hten]
  simp [sends, openingSets, sendStart, sendPoint, sendSetCommandU32, position, positions]

theorem shapeClosing_eq : shapeClosing c = sends (penAndPoint c servoUp 0 0) := by
  simp [shapeClosing, sends, penAndPoint, sendSetCommandAngle, sendPoint, sendSetCommandU32]

theorem waypoint_eq (ho : o.build = .rectangle) (index : Nat) :
    o.waypoint c index = sends (waypointSets c o index) := by
  simp [ShapeOptions.waypoint, ShapeOptions.sendNext, ho, sends, waypointSets, penAndPoint, sendSetCommandAngle,
    sendPoint, sendSetCommandU32]

theorem sends_append (l l' : List (BitVec 8 × BitVec 32)) : sends (l ++ l') = sends l ++ sends l' :=
  List.flatMap_append

/-- Everything that the rectangle sends for `n` STABLE packets. -/
def rectangleSets (c : Undefined) (o : ShapeOptions) (n : Nat) : List (BitVec 8 × BitVec 32) :=
  openingSets ++ (List.range n).flatMap (waypointSets c o) ++ if n = 11 then penAndPoint c servoUp 0 0 else []

theorem main_eq (ho : o.build = .rectangle) (ps : List Packet) {part : List TxWrite} (hpart : Packet.IsPart part) :
    o.main c ((ps.flatMap Packet.writes ++ part).flatMap TxWrite.lanes) =
      sends (rectangleSets c o (min (ps.count .stable) 11)) := by
  have htaken : o.taken 0 (ps.count .stable) = min (ps.count .stable) 11 := by
    rw [ShapeOptions.taken, ho]
    rfl
  have hwaypoints (n : Nat) :
      (List.range n).flatMap (o.waypoint c) = sends ((List.range n).flatMap (waypointSets c o)) := by
    rw [sends, List.flatMap_assoc]
    congr 1
    funext index
    exact waypoint_eq ho index
  have hclosing (n : Nat) : (if o.build.stopAt = some n then shapeClosing c else []) =
      sends (if n = 11 then penAndPoint c servoUp 0 0 else []) := by
    have hstop : o.build.stopAt = some n ↔ n = 11 := by
      rw [ho]
      exact ⟨fun h => (Option.some.inj h).symm, fun h => by rw [h]; rfl⟩
    rw [shapeClosing_eq]
    simp only [hstop]
    split <;> rfl
  rw [ShapeOptions.main_stream ps hpart, htaken, shapeOpening_eq, hwaypoints, hclosing, rectangleSets, sends_append,
    sends_append]

/-- The pulse width that an angle sets. -/
def penWidth (c : Undefined) (angle : ℚ) : BitVec 32 := servoWidth (floatToUint32 c (angle * (65535 / 180)))

/-- The plotter has the settings, is sent to a point and has its pen at a width; nothing else was written. -/
structure AtPoint (x y : ℤ) (pen : BitVec 32) (regs regs' : BitVec 32 → BitVec 32) : Prop where
  x : regs' pidXSetPoint = BitVec.ofInt 32 x
  y : regs' pidYSetPoint = BitVec.ofInt 32 y
  pen : regs' pwmWidth = pen
  gains : ∀ addr ∈ [pidXKp, pidYKp, pidXKd, pidYKd], regs' addr = 32768
  rates : ∀ addr ∈ [pidXRs, pidYRs], regs' addr = 655360
  others : ∀ addr ∉ [pidXSetPoint, pidYSetPoint, pwmWidth, pidXKp, pidYKp, pidXKd, pidYKd, pidXRs, pidYRs],
    regs' addr = regs addr

variable {regs regs' : BitVec 32 → BitVec 32}

theorem AtPoint.opening :
    AtPoint (position 0).x (position 0).y (regs pwmWidth) regs (openingSets.foldl performed regs) := by
  constructor
  · rfl
  · rfl
  · rfl
  · simp only [List.forall_mem_cons]
    exact ⟨rfl, rfl, rfl, rfl, nofun⟩
  · simp only [List.forall_mem_cons]
    exact ⟨rfl, rfl, nofun⟩
  · intro addr haddr
    simp only [List.mem_cons, List.not_mem_nil, or_false, not_or] at haddr
    simp [openingSets, performed, stores, Function.update_of_ne, haddr]

theorem AtPoint.move {x y : ℤ} {pen : BitVec 32} (h : AtPoint x y pen regs regs') (angle : ℚ) (x' y' : ℤ) :
    AtPoint x' y' (penWidth c angle) regs ((penAndPoint c angle x' y').foldl performed regs') := by
  have hkept : ∀ addr, addr ≠ pidXSetPoint → addr ≠ pidYSetPoint → addr ≠ pwmWidth →
      (penAndPoint c angle x' y').foldl performed regs' addr = regs' addr := by
    intro addr hx hy hpen
    simp [penAndPoint, performed, stores, Function.update_of_ne, hx, hy, hpen]
  constructor
  · rfl
  · rfl
  · rfl
  · intro addr haddr
    rw [← h.gains addr haddr]
    refine hkept addr ?_ ?_ ?_ <;> (rintro rfl; revert haddr; decide)
  · intro addr haddr
    rw [← h.rates addr haddr]
    refine hkept addr ?_ ?_ ?_ <;> (rintro rfl; revert haddr; decide)
  · intro addr haddr
    rw [← h.others addr haddr]
    simp only [List.mem_cons, not_or] at haddr
    exact hkept addr haddr.1 haddr.2.1 haddr.2.2.1

variable (c o regs) in
/-- After `n` waypoints. -/
theorem AtPoint.waypoints (n : Nat) :
    AtPoint (position n).x (position n).y (if n = 0 then regs pwmWidth else penWidth c (o.penAngle (n - 1))) regs
      ((openingSets ++ (List.range n).flatMap (waypointSets c o)).foldl performed regs) := by
  induction n with
  | zero => exact AtPoint.opening
  | succ n ih =>
    rw [List.range_succ, List.flatMap_append, ← List.append_assoc, List.foldl_append, List.flatMap_singleton]
    exact ih.move ..

end

/-- However the packets of the plotter come, after `n` STABLE packets the plotter of a rectangle is sent to its `n`-th
point, with the settings of the start, the pen that belongs to the way there and nothing else changed; from the last
point on the packets change nothing. -/
theorem rectangle_registers (c : Undefined) (o : ShapeOptions) (ho : o.build = .rectangle) (ps : List Packet)
    (part : List TxWrite) (hpart : Packet.IsPart part) (resp : Access → BitVec 32) (l : Locals)
    (regs : BitVec 32 → BitVec 32) :
    let n := min (ps.count .stable) 11
    AtPoint (position n).x (position n).y
      (if n = 0 then regs pwmWidth else penWidth c (if n = 11 then servoUp else o.penAngle (n - 1))) regs
      (executedStream resp l (o.main c ((ps.flatMap Packet.writes ++ part).flatMap TxWrite.lanes)) regs) := by
  intro n
  rw [main_eq ho ps hpart, executedStream_sends, rectangleSets, List.foldl_append]
  have hpoint := AtPoint.waypoints c o regs n
  by_cases hlast : n = 11
  · have hhome := hpoint.move (c := c) servoUp 0 0
    have hx : (position n).x = 0 := by rw [hlast]; rfl
    have hy : (position n).y = 0 := by rw [hlast]; rfl
    rw [hx, hy, if_pos hlast, if_neg (by omega), if_pos hlast]
    exact hhome
  · rw [if_neg hlast, if_neg hlast]
    exact hpoint

/-- Two STABLE packets, with a report of the position between them and the first byte of another after them. -/
theorem rectangle_registers_two :
    let c : Undefined := ⟨fun _ => 0, fun _ => 0, fun _ => 0⟩
    let o : ShapeOptions := ⟨.rectangle, false, false, fun _ => (0, 0)⟩
    let ps := [Packet.stable, Packet.xTicks 5, Packet.stable]
    let n := min (ps.count .stable) 11
    AtPoint (position n).x (position n).y
      (if n = 0 then 0 else penWidth c (if n = 11 then servoUp else o.penAngle (n - 1))) (fun _ => 0)
      (executedStream (fun _ => 0) .initial
        (o.main c ((ps.flatMap Packet.writes ++ [TxWrite.byte 1]).flatMap TxWrite.lanes)) fun _ => 0) :=
  rectangle_registers _ _ rfl _ _ (.inr ⟨.xTicks 0, ⟨[.word 0], rfl⟩, by simp [Packet.writes]⟩) _ _ _

end PenPlotter
