import PenPlotter.Uart

/-!
# The byte walker of the bus side

A write to the TX lane is latched when it is granted and then walked lane by lane: a lane with its
byte enable set is pushed into the TX ring, and the walk waits on a lane while the ring is full.
`lanes_conserved`: what is granted becomes pending, and what is pending is pushed, in lane order.
-/

namespace PenPlotter

variable {k : Nat} {ClockRate : Nat}

/-- The bytes of `wdata` in the lanes from `n` on that `be` enables, lane `n` first. -/
def lanesFrom (wdata : BitVec 32) (be : BitVec 4) (n : Nat) : List (BitVec 8) :=
  ((List.range 4).drop n).filterMap fun j =>
    if be.getLsbD j then some (wdata.extractLsb' (8 * j) 8) else none

theorem lanesFrom_step (wdata : BitVec 32) (be : BitVec 4) {n : Nat} (hn : n < 4) :
    lanesFrom wdata be n =
      (if be.getLsbD n then [wdata.extractLsb' (8 * n) 8] else []) ++ lanesFrom wdata be (n + 1) := by
  have hdrop : (List.range 4).drop n = n :: (List.range 4).drop (n + 1) := by
    rw [List.drop_eq_getElem_cons (by simpa using hn)]
    simp
  rw [lanesFrom, hdrop, List.filterMap_cons, lanesFrom]
  split
  · next h => simp_all
  · next h => simp_all

/-- The request is no write to the baud lane. -/
def UartIn.NoBaudRequest (i : UartIn) : Prop :=
  i.reqI = true → i.weI = true → (i.addrI.setWidth 8).setWidth 32 ≠ baudLane

namespace UartState

variable (s : UartState k) (i : UartIn)

def txContents : List (BitVec 8) := Ring.contents s.txBuf s.txBufStart s.txBufEnd

/-- A write to the TX lane is being walked. -/
def walking : Bool := s.deviceState == .write && s.wdataSelector == .tx

/-- The lanes of the latched write that are still to be pushed. -/
def pendingLanes : List (BitVec 8) :=
  if s.walking then lanesFrom s.wdataLatch s.beLatch s.wdataByteIdx.toNat else []

/-- The enabled lanes of a write to the TX lane granted in this cycle. -/
def writtenLanes : List (BitVec 8) :=
  if s.gntO i && i.weI && (i.addrI.setWidth 8).setWidth 32 == txLane then
    lanesFrom i.wdataI i.beI 0
  else []

/-- The byte pushed into the TX ring in this cycle. -/
def pushedByte : List (BitVec 8) :=
  if s.walking && s.laneEn && !s.txFull then [s.laneByte] else []

/-- Outside a walk the lane index rests at 0. -/
def IdxRests : Prop := s.walking = false → s.wdataByteIdx = 0

variable {s i}

theorem walking_iff : s.walking = true ↔ s.deviceState = .write ∧ s.wdataSelector = .tx := by
  simp [walking]

theorem not_walking_of_ne (h : s.deviceState ≠ .write) : s.walking = false := by
  simp [walking, h]

theorem toNat_succ_idx {n : BitVec 2} (h : n ≠ 3) : (n + 1).toNat = n.toNat + 1 := by
  revert n; decide

/-- A walk over a full ring on an enabled lane stalls. -/
theorem deviceNext_stall (hw : s.walking = true) (he : s.laneEn = true) (hf : s.txFull = true) :
    s.deviceNext i = s.toDeviceRegs := by
  obtain ⟨hd, hs⟩ := walking_iff.1 hw
  simp [deviceNext, hd, hs, he, hf]

theorem deviceNext_lane (hw : s.walking = true) (h : (!s.laneEn || !s.txFull) = true) :
    s.deviceNext i =
      { s.toDeviceRegs with
        txBuf := if s.laneEn then Function.update s.txBuf s.txBufEnd s.laneByte else s.txBuf
        txBufEnd := if s.laneEn then s.txBufEnd + 1 else s.txBufEnd
        wdataByteIdx := s.wdataByteIdx + 1
        rvalidO := if s.wdataByteIdx = 3 then true else s.rvalidO
        deviceState := if s.wdataByteIdx = 3 then .wait else .write } := by
  obtain ⟨hd, hs⟩ := walking_iff.1 hw
  simp only [deviceNext, hd, hs, h, if_true]
  by_cases he : s.laneEn = true <;> by_cases h3 : s.wdataByteIdx = 3 <;>
    simp only [he, h3, hd, if_true, if_false, Bool.false_eq_true]

/-- Outside a walk the TX ring and the lane index are left alone. -/
theorem deviceNext_other (hw : s.walking = false) :
    (s.deviceNext i).txBuf = s.txBuf ∧ (s.deviceNext i).txBufEnd = s.txBufEnd ∧
      (s.deviceNext i).wdataByteIdx = s.wdataByteIdx := by
  unfold deviceNext
  cases hd : s.deviceState with
  | wait => dsimp only; split <;> exact ⟨rfl, rfl, rfl⟩
  | read => dsimp only; split <;> (try split) <;> exact ⟨rfl, rfl, rfl⟩
  | write =>
    have hs : s.wdataSelector ≠ .tx := fun h => by simp [walking, hd, h] at hw
    cases hsel : s.wdataSelector <;> first | exact absurd hsel hs | exact ⟨rfl, rfl, rfl⟩

theorem pushedByte_of_lane (hw : s.walking = true) (h : (!s.laneEn || !s.txFull) = true) :
    s.pushedByte = if s.laneEn then [s.laneByte] else [] := by
  cases he : s.laneEn with
  | false => simp [pushedByte, hw, he]
  | true =>
    have hf : s.txFull = false := by simpa [he] using h
    simp [pushedByte, hw, he, hf]

theorem pushedByte_of_not_walking (hw : s.walking = false) : s.pushedByte = [] := by
  simp [pushedByte, hw]

/-- The ring after the push of the cycle, seen from the old read pointer. -/
theorem contents_deviceNext : Ring.contents (s.deviceNext i).txBuf s.txBufStart
    (s.deviceNext i).txBufEnd = s.txContents ++ s.pushedByte := by
  cases hw : s.walking with
  | false =>
    obtain ⟨h1, h2, -⟩ := deviceNext_other (i := i) hw
    rw [h1, h2, pushedByte_of_not_walking hw, List.append_nil]
    rfl
  | true =>
    by_cases h : (!s.laneEn || !s.txFull) = true
    · rw [deviceNext_lane hw h, pushedByte_of_lane hw h]
      cases he : s.laneEn with
      | false => simp [txContents]
      | true =>
        have hf : s.txFull = false := by simpa [he] using h
        rw [txFull, beq_eq_false_iff_ne] at hf
        exact Ring.contents_push hf _
    · have hst : s.laneEn = true ∧ s.txFull = true := by simpa using h
      rw [deviceNext_stall hw hst.1 hst.2]
      simp [pushedByte, hst.2, txContents]

theorem walking_step_wait (hd : s.deviceState = .wait) : (s.step ClockRate i).walking =
    (i.reqI && i.weI && (i.addrI.setWidth 8).setWidth 32 == txLane) := by
  cases hr : i.reqI with
  | false => simp [walking, step, deviceNext, hd, hr]
  | true =>
    cases hwe : i.weI with
    | false => simp [walking, step, deviceNext, hd, hr, hwe]
    | true =>
      simp only [walking, wdataSelector, step, deviceNext, hd, hr, hwe, if_true, Bool.and_self,
        Bool.true_and, beq_self_eq_true]
      by_cases ha : (i.addrI.setWidth 8).setWidth 32 = txLane
      · simp [ha, txLane, stsLane, baudLane]
      · rw [if_neg ha, beq_eq_false_iff_ne.2 ha]
        split_ifs <;> rfl

theorem deviceState_step_other (hw : s.walking = false) (hd : s.deviceState ≠ .wait) :
    (s.step ClockRate i).deviceState = .wait := by
  show (s.deviceNext i).deviceState = .wait
  unfold deviceNext
  cases hs : s.deviceState with
  | wait => exact absurd hs hd
  | read => rfl
  | write =>
    have hsel : s.wdataSelector ≠ .tx := fun h => by simp [walking, hs, h] at hw
    cases h : s.wdataSelector <;> first | exact absurd h hsel | rfl

/-- What a walk leaves behind after a lane. -/
theorem walking_step_lane (hw : s.walking = true) (h : (!s.laneEn || !s.txFull) = true) :
    (s.step ClockRate i).walking = (s.wdataByteIdx != 3) := by
  obtain ⟨hd, hs⟩ := walking_iff.1 hw
  have hstep : (s.step ClockRate i).toDeviceRegs = s.deviceNext i := rfl
  rw [walking, wdataSelector, hstep, deviceNext_lane hw h]
  by_cases h3 : s.wdataByteIdx = 3
  · simp only [h3, if_true]
    rfl
  · rw [wdataSelector] at hs
    simp only [h3, if_false, hs, bne_iff_ne.2 h3]
    rfl

theorem IdxRests.step (h : s.IdxRests) : (s.step ClockRate i).IdxRests := by
  intro hw'
  show (s.deviceNext i).wdataByteIdx = 0
  cases hw : s.walking with
  | false => rw [(deviceNext_other hw).2.2, h hw]
  | true =>
    by_cases hl : (!s.laneEn || !s.txFull) = true
    · rw [walking_step_lane hw hl, bne_eq_false_iff_eq] at hw'
      rw [deviceNext_lane hw hl]
      dsimp only
      rw [hw']
      rfl
    · have hst : s.laneEn = true ∧ s.txFull = true := by simpa using hl
      have hstep : (s.step ClockRate i).toDeviceRegs = s.toDeviceRegs :=
        deviceNext_stall hw hst.1 hst.2
      rw [walking, wdataSelector, hstep] at hw'
      exact absurd hw (by rw [walking, wdataSelector, hw']; simp)

/-- What is granted becomes pending, and what is pending is pushed, in lane order. -/
theorem lanes_conserved (h : s.IdxRests) : s.pendingLanes ++ s.writtenLanes i =
    s.pushedByte ++ (s.step ClockRate i).pendingLanes := by
  have hstep : (s.step ClockRate i).toDeviceRegs = s.deviceNext i := rfl
  cases hw : s.walking with
  | false =>
    rw [pendingLanes, hw, pushedByte_of_not_walking hw]
    simp only [Bool.false_eq_true, if_false, List.nil_append]
    by_cases hd : s.deviceState = .wait
    · rw [writtenLanes, pendingLanes, walking_step_wait hd, gntO, hd]
      by_cases hg : (i.reqI && i.weI && (i.addrI.setWidth 8).setWidth 32 == txLane) = true
      · have hr : i.reqI = true := by simp at hg; exact hg.1.1
        rw [if_pos hg, if_pos (by simpa using hg), hstep]
        simp [deviceNext, hd, hr, h hw]
      · rw [if_neg hg, if_neg (by simpa using hg)]
    · have hnw : (s.step ClockRate i).walking = false :=
        not_walking_of_ne (by rw [deviceState_step_other hw hd]; decide)
      simp [writtenLanes, gntO, hd, pendingLanes, hnw]
  | true =>
    obtain ⟨hd, -⟩ := walking_iff.1 hw
    have hgnt : s.writtenLanes i = [] := by simp [writtenLanes, gntO, hd]
    rw [hgnt, List.append_nil, pendingLanes, hw, if_pos rfl]
    by_cases hl : (!s.laneEn || !s.txFull) = true
    · rw [pushedByte_of_lane hw hl, lanesFrom_step _ _ s.wdataByteIdx.isLt, pendingLanes,
        walking_step_lane hw hl, hstep, deviceNext_lane hw hl]
      by_cases h3 : s.wdataByteIdx = 3
      · simp only [laneEn, laneByte, h3]
        rfl
      · simp only [bne_iff_ne.2 h3, if_true, toNat_succ_idx h3]
        rfl
    · have hst : s.laneEn = true ∧ s.txFull = true := by simpa using hl
      have hsame : (s.step ClockRate i).toDeviceRegs = s.toDeviceRegs :=
        deviceNext_stall hw hst.1 hst.2
      have hw' : (s.step ClockRate i).walking = true := by
        rw [walking, wdataSelector, hsame]
        exact hw
      rw [pendingLanes, hw', if_pos rfl, hsame]
      simp [pushedByte, hst.2]

/-- No write to the baud lane is under way. -/
def NoBaudWrite (s : UartState k) : Prop := s.deviceState = .write → s.addrLatch ≠ baudLane

theorem wdataSelector_ne_baud (h : s.addrLatch ≠ baudLane) : s.wdataSelector ≠ .baud := by
  unfold wdataSelector
  split_ifs <;> simp_all

/-- Only a write to the baud lane changes the baud register. -/
theorem baudSelector_step (h : ¬(s.deviceState = .write ∧ s.wdataSelector = .baud)) :
    (s.step ClockRate i).baudSelector = s.baudSelector := by
  show (s.deviceNext i).baudSelector = s.baudSelector
  unfold deviceNext
  cases hd : s.deviceState with
  | wait => dsimp only; split <;> rfl
  | read => dsimp only; split <;> (try split) <;> rfl
  | write =>
    cases hs : s.wdataSelector with
    | baud => exact absurd ⟨hd, hs⟩ h
    | tx => dsimp only; split <;> (try split) <;> (try split) <;> rfl
    | _ => rfl

theorem NoBaudWrite.baudSelector_step (h : s.NoBaudWrite) :
    (s.step ClockRate i).baudSelector = s.baudSelector :=
  UartState.baudSelector_step fun hw => wdataSelector_ne_baud (h hw.1) hw.2

theorem NoBaudWrite.step (h : s.NoBaudWrite) (hi : i.NoBaudRequest) :
    (s.step ClockRate i).NoBaudWrite := by
  intro hw
  show (s.deviceNext i).addrLatch ≠ baudLane
  have hw' : (s.deviceNext i).deviceState = .write := hw
  unfold deviceNext at hw' ⊢
  cases hd : s.deviceState with
  | wait =>
    rw [hd] at hw'
    dsimp only at hw' ⊢
    by_cases hr : i.reqI = true
    · rw [if_pos hr] at hw' ⊢
      have hwe : i.weI = true := by
        by_contra hwe
        simp [hwe] at hw'
      exact hi hr hwe
    · rw [if_neg hr] at hw'
      exact absurd (hd.symm.trans hw') (by decide)
  | read =>
    rw [hd] at hw'
    cases hw'
  | write =>
    have ha := h hd
    dsimp only
    split <;> (try split) <;> (try split) <;> (try split) <;> exact ha

end UartState

end PenPlotter
