import PenPlotter.AddrWindow
import PenPlotter.BusStable
import PenPlotter.PpOrder

/-!
# The address map of the simulation harness (`dv/verilator/sim_mmio.hpp`)

`classify_address` tells the devices by ranges, the decoder of the bus by masked bits. Every base of `pp_system` is
a multiple of the size of its window and no window ends at the top of the address space, so the two agree.
-/

namespace PenPlotter

open AddrWindow BusRun PpSystem

inductive Peripheral
  | invalid | ram | uart | gpio | pwm | timer | pid | quad
deriving DecidableEq

namespace SimMmio

def ramStart : BitVec 32 := 0x00100000
def uartStart : BitVec 32 := 0x80000000
def gpioStart : BitVec 32 := 0x80001000
def pwmStart : BitVec 32 := 0x80002000
def timerStart : BitVec 32 := 0x80003000
def pidStart : BitVec 32 := 0x80004000
def quadStart : BitVec 32 := 0x80004400

def ramSize : BitVec 32 := 128 * 1024
def uartSize : BitVec 32 := 4 * 1024
def gpioSize : BitVec 32 := 4 * 1024
def pwmSize : BitVec 32 := 4 * 1024
def timerSize : BitVec 32 := 4 * 1024
def pidSize : BitVec 32 := 1 * 1024
def quadSize : BitVec 32 := 1 * 1024

end SimMmio

open SimMmio

def classifyAddress (addr : BitVec 32) : Peripheral :=
  if ramStart ≤ addr ∧ addr < ramStart + ramSize then .ram
  else if uartStart ≤ addr ∧ addr < uartStart + uartSize then .uart
  else if gpioStart ≤ addr ∧ addr < gpioStart + gpioSize then .gpio
  else if pwmStart ≤ addr ∧ addr < pwmStart + pwmSize then .pwm
  else if timerStart ≤ addr ∧ addr < timerStart + timerSize then .timer
  else if pidStart ≤ addr ∧ addr < pidStart + pidSize then .pid
  else if quadStart ≤ addr ∧ addr < quadStart + quadSize then .quad
  else .invalid

/-- The name of a device, in the order of `bus_device_e`. -/
def peripheralOf : Fin NrDevices → Peripheral := ![.ram, .uart, .gpio, .pwm, .pid, .quad, .timer]

theorem foldl_select {α : Type*} (p : α → Prop) [DecidablePred p] (l : List α) :
    l.foldl (fun sel a => if p a then some a else sel) none = l.reverse.find? fun a => p a := by
  rw [← List.foldr_reverse]
  induction l.reverse with
  | nil => rfl
  | cons a l ih =>
    rw [List.foldr_cons, ih, List.find?_cons]
    by_cases h : p a <;> simp [h]

/-- The address matches the window of device `d`. -/
def AddrMap.Matches {D : Nat} (cfg : AddrMap D) (addr : BitVec 32) (d : Fin D) : Prop :=
  addr &&& cfg.deviceAddrMask d = cfg.deviceAddrBase d

instance {D : Nat} (cfg : AddrMap D) (addr : BitVec 32) : DecidablePred (cfg.Matches addr) :=
  fun _ => inferInstanceAs (Decidable (_ = _))

section Decode

variable {D : Nat} {cfg : AddrMap D} {addr : BitVec 32} {d : Fin D}

theorem AddrMap.decode_matches (h : cfg.decode addr = some d) : cfg.Matches addr d := by
  rw [decode, foldl_select] at h
  have hfound := List.find?_some h
  exact of_decide_eq_true hfound

theorem AddrMap.decode_eq_none_iff : cfg.decode addr = none ↔ ∀ d, ¬ cfg.Matches addr d := by
  rw [decode, foldl_select, List.find?_eq_none]
  simp [Matches]

/-- Where at most one window matches, the order of the devices does not matter. -/
theorem AddrMap.decode_eq_some_iff (hone : ∀ d d', cfg.Matches addr d → cfg.Matches addr d' → d = d') :
    cfg.decode addr = some d ↔ cfg.Matches addr d := by
  refine ⟨decode_matches, fun h => ?_⟩
  cases hd : cfg.decode addr with
  | none => exact absurd h (decode_eq_none_iff.1 hd d)
  | some d' => rw [hone d d' h (decode_matches hd)]

end Decode

/-- The address bits in the window of each device. -/
def windowBits : Fin NrDevices → Nat := ![17, 12, 12, 12, 10, 10, 12]

theorem cfgDevice_keeps (d : Fin NrDevices) : Keeps (cfgDevice.deviceAddrMask d) (windowBits d) := by
  fin_cases d <;> decide

theorem cfgDevice_aligned (d : Fin NrDevices) : 2 ^ windowBits d ∣ (cfgDevice.deviceAddrBase d).toNat := by
  fin_cases d <;> decide

theorem matches_iff {addr : BitVec 32} {d : Fin NrDevices} : cfgDevice.Matches addr d ↔
    (cfgDevice.deviceAddrBase d).toNat ≤ addr.toNat ∧
      addr.toNat < (cfgDevice.deviceAddrBase d).toNat + 2 ^ windowBits d :=
  and_mask_eq_iff (cfgDevice_keeps d) (cfgDevice_aligned d)

theorem windows_apart : ∀ d d' : Fin NrDevices, d ≠ d' →
    (cfgDevice.deviceAddrBase d).toNat + 2 ^ windowBits d ≤ (cfgDevice.deviceAddrBase d').toNat ∨
      (cfgDevice.deviceAddrBase d').toNat + 2 ^ windowBits d' ≤ (cfgDevice.deviceAddrBase d).toNat := by
  decide

theorem matches_unique {addr : BitVec 32} {d d' : Fin NrDevices} (h : cfgDevice.Matches addr d)
    (h' : cfgDevice.Matches addr d') : d = d' := by
  by_contra hne
  rw [matches_iff] at h h'
  rcases windows_apart d d' hne with hle | hle <;> omega

/-- A range of the harness is the window of a device. -/
theorem range_iff {addr : BitVec 32} (start size : BitVec 32) (d : Fin NrDevices)
    (hstart : start = cfgDevice.deviceAddrBase d)
    (hend : (start + size).toNat = (cfgDevice.deviceAddrBase d).toNat + 2 ^ windowBits d) :
    start ≤ addr ∧ addr < start + size ↔ cfgDevice.Matches addr d := by
  rw [matches_iff, BitVec.le_def, BitVec.lt_def, hend, hstart]

theorem classifyAddress_cases (addr : BitVec 32) :
    (∃ d, cfgDevice.Matches addr d ∧ classifyAddress addr = peripheralOf d) ∨
      (∀ d, ¬ cfgDevice.Matches addr d) ∧ classifyAddress addr = .invalid := by
  unfold classifyAddress
  simp only [range_iff ramStart ramSize 0 rfl (by decide), range_iff uartStart uartSize 1 rfl (by decide),
    range_iff gpioStart gpioSize 2 rfl (by decide), range_iff pwmStart pwmSize 3 rfl (by decide),
    range_iff timerStart timerSize 6 rfl (by decide), range_iff pidStart pidSize 4 rfl (by decide),
    range_iff quadStart quadSize 5 rfl (by decide)]
  split_ifs with h0 h1 h2 h3 h6 h4 h5
  · exact .inl ⟨0, h0, rfl⟩
  · exact .inl ⟨1, h1, rfl⟩
  · exact .inl ⟨2, h2, rfl⟩
  · exact .inl ⟨3, h3, rfl⟩
  · exact .inl ⟨6, h6, rfl⟩
  · exact .inl ⟨4, h4, rfl⟩
  · exact .inl ⟨5, h5, rfl⟩
  · refine .inr ⟨fun d => ?_, rfl⟩
    fin_cases d <;> assumption

theorem peripheralOf_injective : Function.Injective peripheralOf := by
  unfold Function.Injective
  decide

theorem peripheralOf_ne_invalid : ∀ d, peripheralOf d ≠ .invalid := by
  decide

theorem classifyAddress_eq_iff {addr : BitVec 32} {d : Fin NrDevices} :
    classifyAddress addr = peripheralOf d ↔ cfgDevice.decode addr = some d := by
  rw [AddrMap.decode_eq_some_iff fun _ _ => matches_unique]
  rcases classifyAddress_cases addr with ⟨d', hmatch, hclass⟩ | ⟨hnone, hclass⟩
  · rw [hclass]
    refine ⟨fun h => peripheralOf_injective h ▸ hmatch, fun h => congrArg peripheralOf (matches_unique hmatch h)⟩
  · rw [hclass]
    exact iff_of_false (fun h => peripheralOf_ne_invalid d h.symm) (hnone d)

theorem classifyAddress_eq_invalid_iff {addr : BitVec 32} :
    classifyAddress addr = .invalid ↔ cfgDevice.decode addr = none := by
  rw [AddrMap.decode_eq_none_iff]
  rcases classifyAddress_cases addr with ⟨d, hmatch, hclass⟩ | ⟨hnone, hclass⟩
  · rw [hclass]
    exact iff_of_false (peripheralOf_ne_invalid d) fun h => h d hmatch
  · exact iff_of_true hclass hnone

section Bus

variable {s : BusState NrHosts NrDevices 2} {i : BusIn NrHosts NrDevices} {h : Fin NrHosts} {d : Fin NrDevices}

theorem deviceReq_iff_classify (hr : s.request i = some h) :
    s.deviceReq cfgDevice i d = true ↔ classifyAddress (i.hostAddr h) = peripheralOf d := by
  rw [classifyAddress_eq_iff, BusState.deviceReq, BusState.driver_of_request hr]
  split
  next hd => exact iff_of_true (BusState.hostReq_of_request hr) hd
  next hd => exact iff_of_false Bool.false_ne_true hd

/-- The device sees the offset in its window. -/
theorem deviceAddr_add_base (hr : s.request i = some h) (hreq : s.deviceReq cfgDevice i d = true) :
    s.deviceAddr cfgDevice i d + cfgDevice.deviceAddrBase d = i.hostAddr h := by
  have hd := classifyAddress_eq_iff.1 ((deviceReq_iff_classify hr).1 hreq)
  rw [BusState.deviceAddr, BusState.driver_of_request hr, if_pos hd]
  exact offset_add_base (AddrMap.decode_matches hd)

end Bus

/-- A response is the decode error where the harness says `INVALID`, and elsewhere the answer of the device that
it names. -/
theorem response_classify {prim : RamPrim MemAw} {M : Nat} {s₀ : PpSystem prim} {inp : Nat → PpSystemIn}
    (h0 : s₀.bus = .reset) (hdisc : ∀ d, (device prim M d).Disciplined (s₀.deviceState M d)) {t n : Nat}
    {r : HostResp NrHosts} (hr : (responses 2 cfgDevice (busTrace M s₀ inp) t)[n]? = some r) :
    ∃ g a, (grants 2 cfgDevice (busTrace M s₀ inp) t)[n]? = some g ∧
      r = ⟨g.host, if a.err then 0 else a.rdata, a.err⟩ ∧
      (classifyAddress g.addr = .invalid ∧ a = decodeError ∨
        ∃ d, classifyAddress g.addr = peripheralOf d ∧ a ∈ answers 2 cfgDevice (busTrace M s₀ inp) t d) := by
  have hlt := (List.getElem?_eq_some_iff.1 hr).1
  have hdue : (responses 2 cfgDevice (busTrace M s₀ inp) t).map some = _ := responses_due (devicesAnswer h0 hdisc) t
  have hnth := congrArg (fun l => l[n]?) hdue
  rw [List.getElem?_map, hr, List.getElem?_map, List.getElem?_range hlt] at hnth
  obtain ⟨g, hg, hmap⟩ := Option.bind_eq_some_iff.1 (Option.some.inj hnth).symm
  obtain ⟨a, ha, rfl⟩ := Option.map_eq_some_iff.1 hmap
  refine ⟨g, a, hg, rfl, ?_⟩
  cases hd : cfgDevice.decode g.addr with
  | none =>
    exact .inl ⟨classifyAddress_eq_invalid_iff.2 hd, Option.some.inj (ha.symm.trans (InOrder.reply_miss hg hd))⟩
  | some d =>
    have hanswer : (answers 2 cfgDevice (busTrace M s₀ inp) t d)[cfgDevice.rank _ d n]? = some a :=
      (InOrder.reply_source hg hd).symm.trans ha
    exact .inr ⟨d, classifyAddress_eq_iff.2 hd, List.mem_of_getElem? hanswer⟩

/-- `classify_address` names the device that the bus of `pp_system` selects for an address, and `INVALID` exactly
where the bus finds none and answers with an error; at most one window matches, and the device sees the offset in
it. -/
theorem classify_address_agrees :
    (∀ addr d, classifyAddress addr = peripheralOf d ↔ cfgDevice.decode addr = some d) ∧
    (∀ addr, classifyAddress addr = .invalid ↔ cfgDevice.decode addr = none) ∧
    (∀ addr d d', cfgDevice.Matches addr d → cfgDevice.Matches addr d' → d = d') ∧
    (∀ (s : BusState NrHosts NrDevices 2) i h d, s.request i = some h →
      (s.deviceReq cfgDevice i d = true ↔ classifyAddress (i.hostAddr h) = peripheralOf d) ∧
      (s.deviceReq cfgDevice i d = true →
        s.deviceAddr cfgDevice i d + cfgDevice.deviceAddrBase d = i.hostAddr h)) ∧
    ∀ (prim : RamPrim MemAw) (M : Nat) (ram : prim.State) (rdata : BitVec 32) (txBuf rxBuf : BitVec 5 → BitVec 8)
      (inp : Nat → PpSystemIn) (t n : Nat) (r : HostResp NrHosts),
      let trace := busTrace M (PpSystem.reset ram rdata txBuf rxBuf) inp
      (responses 2 cfgDevice trace t)[n]? = some r → ∃ g a, (grants 2 cfgDevice trace t)[n]? = some g ∧
        r = ⟨g.host, if a.err then 0 else a.rdata, a.err⟩ ∧
        (classifyAddress g.addr = .invalid ∧ a = decodeError ∨
          ∃ d, classifyAddress g.addr = peripheralOf d ∧ a ∈ answers 2 cfgDevice trace t d) :=
  ⟨fun _ _ => classifyAddress_eq_iff, fun _ => classifyAddress_eq_invalid_iff, fun _ _ _ => matches_unique,
    fun _ _ _ _ hr => ⟨deviceReq_iff_classify hr, deviceAddr_add_base hr⟩,
    fun _ _ ram rdata txBuf rxBuf _ _ _ _ hr => response_classify rfl (reset_disciplined ram rdata txBuf rxBuf) hr⟩

end PenPlotter
