import PenPlotter.UartLoopback

/-!
# The RX ring between the receiver and the bus

The receiver writes the cell at `rx_buf_end` even when the ring is full and only withholds the pointer; that
cell never holds an unread byte (`contents_rxNext`). So the ring is a queue of `BufferLength - 1` bytes, with
the bytes that arrive while it is not full on the one side and the reads that find it non-empty on the other.
-/

namespace PenPlotter

variable {k : Nat} {ClockRate : Nat}

namespace UartState

variable (s : UartState k) (i : UartIn)

/-- A read of the RX lane is served in this cycle; its data are on `rdata_o` in the next. -/
def servesRx : Bool := s.deviceState == .read && s.rdataSelector == .rx

/-- A read of the STATUS lane is served in this cycle. -/
def servesStatus : Bool := s.deviceState == .read && s.rdataSelector == .status

variable {s i}

theorem rdataO_servesRx (h : s.servesRx = true) : (s.step ClockRate i).rvalidO = true ∧
    (s.step ClockRate i).rdataO = if s.rxEmpty then 0 else (s.rxBuf s.rxBufStart).setWidth 32 := by
  obtain ⟨hd, hs⟩ : s.deviceState = .read ∧ s.rdataSelector = .rx := by simpa [servesRx] using h
  have hstep : (s.step ClockRate i).toDeviceRegs = s.deviceNext i := rfl
  rw [hstep, deviceNext, hd, hs]
  cases s.rxEmpty <;> exact ⟨rfl, rfl⟩

theorem rdataO_servesStatus (h : s.servesStatus = true) :
    (s.step ClockRate i).rvalidO = true ∧ (s.step ClockRate i).rdataO = (s.status i).setWidth 32 := by
  obtain ⟨hd, hs⟩ : s.deviceState = .read ∧ s.rdataSelector = .status := by simpa [servesStatus] using h
  have hstep : (s.step ClockRate i).toDeviceRegs = s.deviceNext i := rfl
  rw [hstep, deviceNext, hd, hs]
  exact ⟨rfl, rfl⟩

/-- A read of the empty ring pops nothing. -/
theorem rxBufStart_of_rxEmpty (h : s.rxEmpty = true) : (s.step ClockRate i).rxBufStart = s.rxBufStart := by
  have hstep : (s.step ClockRate i).rxBufStart = (s.deviceNext i).rxBufStart := rfl
  rw [hstep, rxBufStart_deviceNext, h, Bool.not_true, Bool.and_false]
  rfl

theorem status_flags : ((s.status i).setWidth 32).getLsbD 7 = s.rxEmpty ∧
    ((s.status i).setWidth 32).getLsbD 6 = s.rxFull := by
  unfold status
  simp only [BitVec.getLsbD_setWidth, BitVec.getLsbD_append, BitVec.getLsbD_ofBool]
  exact ⟨rfl, rfl⟩

theorem rxEmpty_iff : s.rxEmpty = true ↔ s.rxContents.length = 0 := by
  rw [rxEmpty, beq_iff_eq, List.length_eq_zero_iff]
  exact Ring.contents_eq_nil_iff.symm

theorem rxFull_iff : s.rxFull = true ↔ s.rxContents.length + 1 = 2 ^ k := by
  rw [rxFull, beq_iff_eq, rxContents, Ring.length_contents, Ring.full_iff]

end UartState

namespace UartRun

variable (ClockRate) (s₀ : UartState k) (inp : Nat → UartIn)

/-- The bytes that complete in the receiver before cycle `t` while the RX ring is not full. -/
def arrived (t : Nat) : List (BitVec 8) :=
  Clocked.log (UartState.step ClockRate) (fun s _ => if s.rxFull then [] else s.completedByte ClockRate) s₀ inp t

/-- The words returned to the reads of the RX lane served before cycle `t` that find the ring non-empty. -/
def returned (t : Nat) : List (BitVec 32) :=
  Clocked.log (UartState.step ClockRate)
    (fun s i => if s.servesRx && !s.rxEmpty then [(s.step ClockRate i).rdataO] else []) s₀ inp t

/-- The unread bytes: arrived and not returned. -/
def occupancy (t : Nat) : Nat := (arrived ClockRate s₀ inp t).length - (returned ClockRate s₀ inp t).length

variable {ClockRate s₀ inp}

theorem returned_eq (t : Nat) :
    returned ClockRate s₀ inp t = (reads ClockRate s₀ inp t).map (BitVec.setWidth 32) := by
  induction t with
  | zero => rfl
  | succ t ih =>
    rw [returned, Clocked.log_succ, reads, Clocked.log_succ, List.map_append]
    refine congrArg₂ (· ++ ·) ih ?_
    generalize Clocked.run (UartState.step ClockRate) s₀ inp t = s
    show (if (s.servesRx && !s.rxEmpty) = true then _ else _) =
      (if (s.servesRx && !s.rxEmpty) = true then [s.rxBuf s.rxBufStart] else []).map _
    split
    next h =>
      obtain ⟨hserve, hne⟩ := Bool.and_eq_true_iff.1 h
      have hlow : s.rxEmpty = false := by simpa using hne
      rw [(UartState.rdataO_servesRx hserve).2, hlow]
      rfl
    next => rfl

/-- What has arrived has been read or is still in the ring, in order. -/
theorem reads_rxContents_arrived (hempty : s₀.rxEmpty = true) (t : Nat) :
    reads ClockRate s₀ inp t ++ (state ClockRate s₀ inp t).rxContents = arrived ClockRate s₀ inp t := by
  induction t with
  | zero =>
    rw [UartState.rxEmpty, beq_iff_eq] at hempty
    exact Ring.contents_eq_nil_iff.2 hempty
  | succ t ih =>
    show reads ClockRate s₀ inp t ++ (state ClockRate s₀ inp t).readByte ++
        ((state ClockRate s₀ inp t).step ClockRate (inp t)).rxContents =
      arrived ClockRate s₀ inp t ++ _
    rw [List.append_assoc, UartState.rxContents_step, ← List.append_assoc, ih]

theorem length_rxContents (hempty : s₀.rxEmpty = true) (t : Nat) :
    (state ClockRate s₀ inp t).rxContents.length = occupancy ClockRate s₀ inp t := by
  have hall : _ = arrived ClockRate s₀ inp t := reads_rxContents_arrived hempty t
  have hlen := congrArg List.length hall
  rw [List.length_append] at hlen
  rw [occupancy, returned_eq, List.length_map]
  omega

end UartRun

open UartRun in
/-- The reads of the RX lane that find the ring non-empty return the bytes that arrived while it was not full,
each once and in order; an arrival into the full ring leaves the unread bytes alone; a read of the empty ring
returns 0 and pops nothing; and the flags give the occupancy. -/
theorem rx_ring (ClockRate : Nat) (rdata : BitVec 32) (txBuf rxBuf : BitVec k → BitVec 8) (inp : Nat → UartIn)
    (t : Nat) :
    let s₀ := UartState.reset rdata txBuf rxBuf
    let s := state ClockRate s₀ inp
    returned ClockRate s₀ inp t ++ (s t).rxContents.map (BitVec.setWidth 32) =
        (arrived ClockRate s₀ inp t).map (BitVec.setWidth 32) ∧
      ((s t).rxFull = true → (s t).readByte ++ (s (t + 1)).rxContents = (s t).rxContents) ∧
      ((s t).servesRx = true → (s t).rxEmpty = true →
        (s (t + 1)).rvalidO = true ∧ (s (t + 1)).rdataO = 0 ∧ (s (t + 1)).rxBufStart = (s t).rxBufStart) ∧
      ((s t).rxEmpty = true ↔ occupancy ClockRate s₀ inp t = 0) ∧
      ((s t).rxFull = true ↔ occupancy ClockRate s₀ inp t + 1 = 2 ^ k) ∧
      ((s t).servesStatus = true → (s (t + 1)).rvalidO = true ∧
        (s (t + 1)).rdataO.getLsbD 7 = (s t).rxEmpty ∧ (s (t + 1)).rdataO.getLsbD 6 = (s t).rxFull) := by
  intro s₀ s
  have hempty : s₀.rxEmpty = true := beq_self_eq_true _
  have hstep : s (t + 1) = (s t).step ClockRate (inp t) := rfl
  refine ⟨?_, fun hfull => ?_, fun hserve hnone => ?_, ?_, ?_, fun hserve => ?_⟩
  · rw [returned_eq, ← List.map_append, reads_rxContents_arrived hempty]
  · rw [hstep, UartState.rxContents_step, hfull, if_pos rfl, List.append_nil]
  · have hread : (s (t + 1)).rvalidO = true ∧ (s (t + 1)).rdataO = _ := UartState.rdataO_servesRx hserve
    rw [hnone] at hread
    exact ⟨hread.1, hread.2, UartState.rxBufStart_of_rxEmpty hnone⟩
  · rw [UartState.rxEmpty_iff, length_rxContents hempty]
  · rw [UartState.rxFull_iff, length_rxContents hempty]
  · have hread : (s (t + 1)).rvalidO = true ∧ (s (t + 1)).rdataO = ((s t).status (inp t)).setWidth 32 :=
      UartState.rdataO_servesStatus hserve
    refine ⟨hread.1, ?_⟩
    rw [hread.2]
    exact UartState.status_flags

end PenPlotter
