import PenPlotter.Devices
import PenPlotter.UartTx

/-!
# The port of the UART

A request is latched when it is granted, and its error status is decoded from the latched address for as long
as it is in work, so also in the cycle of its answer, in which the next request may be granted. A read and a
write to another lane take two cycles. A write to the TX lane waits on a full ring; the baud register cannot
change meanwhile, and the transmitter drains the ring even while it is disabled, since the counter then ticks
at its wrap (`drain`).
-/

namespace PenPlotter

variable {k ClockRate : Nat}

/-- The address of the request is no lane of the UART. -/
def uartFaulty (o : ObiIn) : Bool :=
  decide ((o.addrI.setWidth 8).setWidth 32 ∉ [stsLane, baudLane, txLane, rxLane])

/-- The request wires. -/
def UartIn.port (i : UartIn) : ObiIn := ⟨i.reqI, i.addrI, i.weI, i.beI, i.wdataI⟩

/-- The port as a machine that owes error statuses. -/
def UartState.handshake (ClockRate k : Nat) : Handshake.Port (UartState k) UartIn Bool where
  step := UartState.step ClockRate
  due s i := if i.reqI && s.gntO i then [uartFaulty i.port] else []
  answer s := if s.rvalidO then [s.errO] else []

def FrontEnd.uart (ClockRate k : Nat) : FrontEnd where
  State := UartState k
  In := UartIn
  step := UartState.step ClockRate
  port := UartIn.port
  gntO := UartState.gntO
  rvalidO s := s.rvalidO
  rdataO s := s.rdataO
  errO := UartState.errO
  status := uartFaulty

namespace UartState

variable {s : UartState k} {i : UartIn}

/-- `rvalid_o` is only high while the port waits. -/
def RvalidWaits (s : UartState k) : Prop := s.rvalidO = true → s.deviceState = .wait

/-- The error status of the request in work. -/
def pendingErr (s : UartState k) : List Bool :=
  if s.rvalidO || s.deviceState != .wait then [s.errO] else []

theorem errO_eq : s.errO = decide (s.addrLatch ∉ [stsLane, baudLane, txLane, rxLane]) := by
  rw [errO, bne, bne, bne, bne]
  by_cases h0 : s.addrLatch = stsLane <;> by_cases h1 : s.addrLatch = baudLane <;>
    by_cases h2 : s.addrLatch = txLane <;> by_cases h3 : s.addrLatch = rxLane <;> simp [h0, h1, h2, h3]

theorem toDeviceRegs_step : (s.step ClockRate i).toDeviceRegs = s.deviceNext i := rfl

theorem deviceNext_wait (hd : s.deviceState = .wait) : s.deviceNext i =
    if i.reqI then
      { s.toDeviceRegs with
        rvalidO := false
        deviceState := if i.weI then .write else .read
        wdataLatch := i.wdataI
        addrLatch := (i.addrI.setWidth 8).setWidth 32
        weLatch := i.weI
        beLatch := i.beI }
    else { s.toDeviceRegs with rvalidO := false } := by
  simp only [deviceNext, hd]

/-- A request in work keeps its address; it is answered, or a walk goes on. -/
theorem deviceNext_busy (hd : s.deviceState ≠ .wait) :
    (s.deviceNext i).addrLatch = s.addrLatch ∧
      ((s.deviceNext i).rvalidO = true ∧ (s.deviceNext i).deviceState = .wait ∨
        s.walking = true ∧ (s.deviceNext i).rvalidO = s.rvalidO ∧ (s.deviceNext i).deviceState = .write) := by
  cases hw : s.walking with
  | true =>
    by_cases hl : (!s.laneEn || !s.txFull) = true
    · rw [deviceNext_lane hw hl]
      refine ⟨rfl, ?_⟩
      by_cases h3 : s.wdataByteIdx = 3
      · exact .inl ⟨if_pos h3, if_pos h3⟩
      · exact .inr ⟨rfl, if_neg h3, if_neg h3⟩
    · have hst : s.laneEn = true ∧ s.txFull = true := by simpa using hl
      rw [deviceNext_stall hw hst.1 hst.2]
      exact ⟨rfl, .inr ⟨rfl, rfl, (walking_iff.1 hw).1⟩⟩
  | false =>
    unfold deviceNext
    cases hs : s.deviceState with
    | wait => exact absurd hs hd
    | read => dsimp only; split <;> (try split) <;> exact ⟨rfl, .inl ⟨rfl, rfl⟩⟩
    | write =>
      have hsel : s.wdataSelector ≠ .tx := fun h => by simp [walking, hs, h] at hw
      cases hx : s.wdataSelector <;> first | exact absurd hx hsel | exact ⟨rfl, .inl ⟨rfl, rfl⟩⟩

theorem errO_congr {s' : UartState k} (h : s'.addrLatch = s.addrLatch) : s'.errO = s.errO := by
  rw [errO_eq, errO_eq, h]

theorem RvalidWaits.step (h : s.RvalidWaits) : (s.step ClockRate i).RvalidWaits := by
  intro hv
  have hv' : (s.deviceNext i).rvalidO = true := hv
  show (s.deviceNext i).deviceState = .wait
  by_cases hd : s.deviceState = .wait
  · rw [deviceNext_wait hd] at hv' ⊢
    by_cases hr : i.reqI = true
    · rw [if_pos hr] at hv'
      cases hv'
    · rw [if_neg hr]
      exact hd
  · rcases (deviceNext_busy (i := i) hd).2 with ⟨-, hwait⟩ | ⟨-, hkeep, -⟩
    · exact hwait
    · exact absurd (h (hkeep ▸ hv')) hd

/-- What is granted becomes pending with its error status, and what is pending is answered. -/
theorem pendingErr_step (h : s.RvalidWaits) :
    s.pendingErr ++ (if i.reqI && s.gntO i then [uartFaulty i.port] else []) =
      (if s.rvalidO then [s.errO] else []) ++ (s.step ClockRate i).pendingErr := by
  by_cases hd : s.deviceState = .wait
  · have hold : s.pendingErr = if s.rvalidO then [s.errO] else [] := by
      rw [pendingErr, hd, bne_self_eq_false, Bool.or_false]
    rw [hold, pendingErr, errO_eq (s := s.step ClockRate i), toDeviceRegs_step, deviceNext_wait hd, gntO, hd]
    congr 1
    cases i.reqI with
    | false => exact (if_neg (by simp [hd])).symm
    | true => cases i.weI <;> rfl
  · have hlow : s.rvalidO = false := by
      rw [← Bool.not_eq_true]
      exact mt h hd
    obtain ⟨haddr, hnext⟩ := deviceNext_busy (i := i) hd
    have hbusy : ((s.step ClockRate i).rvalidO || (s.step ClockRate i).deviceState != .wait) = true := by
      rw [toDeviceRegs_step]
      rcases hnext with ⟨hv, -⟩ | ⟨-, -, hwrite⟩
      · rw [hv, Bool.true_or]
      · rw [hwrite]
        exact Bool.or_true _
    have herr : (s.step ClockRate i).errO = s.errO := errO_congr haddr
    have hgnt : s.gntO i = false := by rw [gntO, beq_false_of_ne hd, Bool.false_and]
    rw [hgnt, Bool.and_false, hlow, pendingErr, pendingErr, hbusy, herr, bne_iff_ne.2 hd, Bool.or_true]
    rfl

theorem answer_prefix : (if s.rvalidO then [s.errO] else []) <+: s.pendingErr := by
  rw [pendingErr]
  cases s.rvalidO with
  | true => exact List.prefix_rfl
  | false => exact List.nil_prefix

/-- The ticks of the baud counter up to the end of the next stop bit. -/
def ticksLeft (s : UartState k) : Nat :=
  match s.txState with
  | .idle => 11
  | .start => 10
  | .data => 9 - s.txDataCount.toNat
  | .stop => 1

/-- A bound on the cycles up to the end of the next stop bit, while the baud register is left alone. -/
def drain (ClockRate : Nat) (s : UartState k) : Nat :=
  s.ticksLeft * 2 ^ 32 + (s.clks ClockRate - 1 - s.txBaudCounter).toNat

theorem ticksLeft_of_not_tick (ht : s.txBaud ClockRate = false) :
    (s.step ClockRate i).ticksLeft = s.ticksLeft := by
  have hsame : s.txNext ClockRate = s.toTxRegs := by
    unfold txNext
    cases s.txState <;> simp [ht]
  have hregs : (s.step ClockRate i).toTxRegs = s.toTxRegs := hsame
  rw [ticksLeft, ticksLeft, hregs]

theorem ticksLeft_of_tick (hne : s.txEmpty = false) (ht : s.txBaud ClockRate = true)
    (hpop : s.txState ≠ .stop) : (s.step ClockRate i).ticksLeft < s.ticksLeft := by
  have hregs : (s.step ClockRate i).toTxRegs = s.txNext ClockRate := rfl
  rw [ticksLeft, ticksLeft, hregs]
  cases hst : s.txState with
  | idle => simp [txNext, hst, hne, ht]
  | start => simp [txNext, hst, ht]
  | data =>
    by_cases h7 : s.txDataCount = 7
    · simp [txNext, hst, ht, h7]
    · have hlt : s.txDataCount.toNat < 7 := by bv_omega
      have hcount : (s.txDataCount + 1).toNat = s.txDataCount.toNat + 1 := by bv_omega
      simp only [txNext, hst, ht, h7, if_true, if_false, hcount]
      omega
  | stop => exact absurd hst hpop

theorem drain_step (hne : s.txEmpty = false) (hclks : (s.step ClockRate i).clks ClockRate = s.clks ClockRate)
    (hpop : ¬(s.txState = .stop ∧ s.txBaud ClockRate = true)) :
    (s.step ClockRate i).drain ClockRate < s.drain ClockRate := by
  rw [drain, drain, hclks]
  have hcounter : (s.step ClockRate i).txBaudCounter =
      if s.txBaud ClockRate then 0 else s.txBaudCounter + 1 := rfl
  cases ht : s.txBaud ClockRate with
  | true =>
    have hless := ticksLeft_of_tick (i := i) hne ht fun hst => hpop ⟨hst, ht⟩
    have hbound := (s.clks ClockRate - 1 - (s.step ClockRate i).txBaudCounter).isLt
    omega
  | false =>
    have hne' : s.txBaudCounter ≠ s.clks ClockRate - 1 := beq_eq_false_iff_ne.1 ht
    rw [ticksLeft_of_not_tick ht, hcounter, ht, if_neg (by decide)]
    refine Nat.add_lt_add_left ?_ _
    bv_omega

/-- The end of a stop bit makes room for a lane that waits. -/
theorem txFull_of_pop (hk : 0 < k) (hf : s.txFull = true) (hw : s.walking = true) (he : s.laneEn = true)
    (hst : s.txState = .stop) (ht : s.txBaud ClockRate = true) : (s.step ClockRate i).txFull = false := by
  have hstart : (s.txNext ClockRate).txBufStart = s.txBufStart + 1 := by
    simp [txNext, hst, ht, txEmpty_of_txFull hk hf]
  have hend : (s.deviceNext i).txBufEnd = s.txBufEnd := by rw [deviceNext_stall hw he hf]
  show ((s.deviceNext i).txBufEnd + 1 == (s.txNext ClockRate).txBufStart) = false
  rw [txFull, beq_iff_eq] at hf
  rw [hstart, hend, hf, beq_eq_false_iff_ne]
  exact fun h => Ring.one_ne_zero_of_pos hk (by grind)

variable {inp : Nat → UartIn}

theorem handshake_pending : (handshake ClockRate k).Pending RvalidWaits pendingErr where
  inv h _ := h.step
  step h _ := pendingErr_step h
  answer _ := answer_prefix

/-- What is pending in `s` is answered in the end. -/
def Served (ClockRate : Nat) (s : UartState k) (inp : Nat → UartIn) : Prop :=
  ∃ t, s.pendingErr <+: (handshake ClockRate k).given s inp t

theorem served_of_rvalid (hv : s.rvalidO = true) : s.Served ClockRate inp := by
  have hanswer : (handshake ClockRate k).answer s = [s.errO] := if_pos hv
  refine ⟨1, ?_⟩
  rw [Handshake.Port.given_one, hanswer, pendingErr, hv, Bool.true_or, if_pos rfl]

theorem served_of_busy (hd : s.deviceState ≠ .wait) (hv : s.rvalidO = false)
    (h : (s.step ClockRate (inp 0)).Served ClockRate fun t => inp (1 + t)) : s.Served ClockRate inp := by
  have hanswer : (handshake ClockRate k).answer s = [] := if_neg (by rw [hv]; decide)
  have hdue : (handshake ClockRate k).due s (inp 0) = [] :=
    if_neg (by rw [gntO, beq_false_of_ne hd, Bool.false_and, Bool.and_false]; decide)
  have hsame : (s.step ClockRate (inp 0)).pendingErr = s.pendingErr := by
    have hwaits : s.RvalidWaits := fun hv' => absurd hv' (by rw [hv]; decide)
    have hport : (handshake ClockRate k).Pending RvalidWaits pendingErr := handshake_pending
    have hstep := hport.step hwaits (inp 0)
    rw [hanswer, hdue, List.append_nil, List.nil_append] at hstep
    exact hstep.symm
  exact Handshake.Port.served_of_next hanswer hsame h

/-- A walk that can go on at its lane is served when the lanes after it are. -/
theorem served_of_lane (hw : s.walking = true) (hv : s.rvalidO = false)
    (hl : (!s.laneEn || !s.txFull) = true)
    (hnext : (s.step ClockRate (inp 0)).walking = true → (s.step ClockRate (inp 0)).rvalidO = false →
      (s.step ClockRate (inp 0)).wdataByteIdx.toNat = s.wdataByteIdx.toNat + 1 →
      (s.step ClockRate (inp 0)).Served ClockRate fun t => inp (1 + t)) : s.Served ClockRate inp := by
  have hregs : (s.step ClockRate (inp 0)).toDeviceRegs = _ := deviceNext_lane hw hl
  refine served_of_busy (by rw [(walking_iff.1 hw).1]; decide) hv ?_
  by_cases h3 : s.wdataByteIdx = 3
  · refine served_of_rvalid ?_
    rw [hregs]
    exact if_pos h3
  · refine hnext ?_ ?_ ?_
    · rw [walking_step_lane hw hl]
      exact bne_iff_ne.2 h3
    · rw [hregs]
      exact (if_neg h3).trans hv
    · rw [hregs]
      exact toNat_succ_idx h3

/-- A walk is served when it is once it can go on at its lane. -/
theorem served_of_stall (hk : 0 < k) {n : BitVec 2} (hn : s.wdataByteIdx = n) (hw : s.walking = true)
    (hv : s.rvalidO = false)
    (hroom : ∀ (s : UartState k) (inp : Nat → UartIn), s.wdataByteIdx = n → s.walking = true →
      s.rvalidO = false → (!s.laneEn || !s.txFull) = true → s.Served ClockRate inp) :
    s.Served ClockRate inp := by
  induction hm : s.drain ClockRate using Nat.strong_induction_on generalizing s inp with
  | _ m ih =>
    by_cases hl : (!s.laneEn || !s.txFull) = true
    · exact hroom s inp hn hw hv hl
    · obtain ⟨he, hf⟩ : s.laneEn = true ∧ s.txFull = true := by simpa using hl
      have hregs : (s.step ClockRate (inp 0)).toDeviceRegs = s.toDeviceRegs := deviceNext_stall hw he hf
      have hn' : (s.step ClockRate (inp 0)).wdataByteIdx = n := by rwa [hregs]
      have hv' : (s.step ClockRate (inp 0)).rvalidO = false := by rwa [hregs]
      have hw' : (s.step ClockRate (inp 0)).walking = true := by
        rw [walking, wdataSelector, hregs]
        exact hw
      refine served_of_busy (by rw [(walking_iff.1 hw).1]; decide) hv ?_
      by_cases hpop : s.txState = .stop ∧ s.txBaud ClockRate = true
      · refine hroom _ _ hn' hw' hv' ?_
        rw [txFull_of_pop hk hf hw he hpop.1 hpop.2]
        exact Bool.or_true _
      · have hclks : (s.step ClockRate (inp 0)).clks ClockRate = s.clks ClockRate := by
          rw [clks, hregs]
          rfl
        exact ih _ (hm ▸ drain_step (txEmpty_of_txFull hk hf) hclks hpop) hn' hw' hv' rfl

theorem served_of_walking (hk : 0 < k) (m : Nat) (hm : 4 ≤ s.wdataByteIdx.toNat + m)
    (hw : s.walking = true) (hv : s.rvalidO = false) : s.Served ClockRate inp := by
  -- by the lanes left
  induction m generalizing s inp with
  | zero => exact absurd s.wdataByteIdx.isLt (by omega)
  | succ m ih =>
    refine served_of_stall hk rfl hw hv fun s' inp' hn hw' hv' hl => ?_
    refine served_of_lane hw' hv' hl fun hw'' hv'' hidx => ih ?_ hw'' hv''
    rw [hidx, hn]
    omega

theorem served (hk : 0 < k) : s.Served ClockRate inp := by
  cases hv : s.rvalidO with
  | true => exact served_of_rvalid hv
  | false =>
    by_cases hd : s.deviceState = .wait
    · refine ⟨0, ?_⟩
      rw [pendingErr, hv, hd]
      exact List.nil_prefix
    · cases hw : s.walking with
      | true => exact served_of_walking hk 4 (Nat.le_add_left 4 _) hw hv
      | false =>
        refine served_of_busy hd hv (served_of_rvalid ?_)
        rcases (deviceNext_busy (i := inp 0) hd).2 with ⟨hv', -⟩ | ⟨hw', -⟩
        · exact hv'
        · exact absurd hw' (by rw [hw]; decide)

end UartState

theorem FrontEnd.uart_disciplined (ClockRate : Nat) (hk : 0 < k) (rdata : BitVec 32)
    (txBuf rxBuf : BitVec k → BitVec 8) :
    (FrontEnd.uart ClockRate k).Disciplined (UartState.reset rdata txBuf rxBuf) where
  inOrder := UartState.handshake_pending.inOrder nofun rfl
  complete := UartState.handshake_pending.complete nofun rfl fun _ _ _ => UartState.served hk

end PenPlotter
