import PenPlotter.PpObject
import PenPlotter.RamPrims

/-!
# The RAM as the core sees it (`rtl/core/mem/ram_2p.sv`, `rtl/core/bus.sv`, `rtl/core/pp_system.sv`)

With `prim_ram_2p` behind port A the RAM serves an object of bytes. So a byte that the core reads is the one that
the last store before the read put there, by the order of the grants and whatever goes on in between, and so is
a byte of a fetched word (`ram_coherent`).
-/

namespace PenPlotter

open BusRun Sequential

/-- `Ram` of `bus_device_e`. -/
def ramDevice : Fin NrDevices := ⟨0, Nat.succ_pos 6⟩

/-- `addr[Aw-1+2:2]`. -/
def ramWord (addr : BitVec 32) : BitVec MemAw := addr.extractLsb' 2 MemAw

/-- The bytes of the words. -/
def ramBytes (mem : BitVec MemAw → BitVec 32) (x : BitVec MemAw × Fin 4) : BitVec 8 := byteOf (mem x.1) x.2

/-- What a request stores in a byte. -/
def DevReq.storesByte (q : DevReq) (x : BitVec MemAw × Fin 4) : Option (BitVec 8) :=
  if q.we && ramWord q.addr == x.1 && q.be.getLsbD x.2 then some (byteOf q.wdata x.2) else none

/-- What the granted requests have left in a byte of the RAM. -/
def lastStored (mem : BitVec MemAw → BitVec 32) (G : List (Granted NrHosts)) (w : BitVec MemAw) (k : Fin 4) :
    BitVec 8 :=
  ((PpSystem.requestsTo ramDevice G).filterMap fun q => q.storesByte (w, k)).getLast?.getD (byteOf (mem w) k)

def ramObject : Object (BitVec MemAw × Fin 4 → BitVec 8) DevReq Answer where
  next c q x := (q.storesByte x).getD (c x)
  due c q a := a.err = false ∧ (q.we = false → ∀ k : Fin 4, byteOf a.rdata k = c (ramWord q.addr, k))

theorem maskBits_byteMask (be : BitVec 4) : maskBits (byteMask be) = be := by
  revert be
  decide

theorem byteOf_append (b : Fin 4 → BitVec 8) (k : Fin 4) : byteOf (b 3 ++ b 2 ++ b 1 ++ b 0) k = b k := by
  unfold byteOf
  fin_cases k
  · exact BitVec.extractLsb'_append_eq_right
  · exact (BitVec.extractLsb'_append_eq_of_le (by decide)).trans BitVec.extractLsb'_append_eq_right
  · refine (BitVec.extractLsb'_append_eq_of_le (by decide)).trans ?_
    exact (BitVec.extractLsb'_append_eq_of_le (by decide)).trans BitVec.extractLsb'_append_eq_right
  · refine (BitVec.extractLsb'_append_eq_of_le (by decide)).trans ?_
    exact (BitVec.extractLsb'_append_eq_of_le (by decide)).trans BitVec.extractLsb'_append_eq_left

theorem byteOf_writeBytes (en : BitVec 4) (data old : BitVec 32) (k : Fin 4) :
    byteOf (writeBytes en data old) k = if en.getLsbD k then byteOf data k else byteOf old k :=
  byteOf_append (fun k : Fin 4 => if en.getLsbD k then byteOf data k else byteOf old k) k

theorem ramWord_localise (g : Granted NrHosts) : ramWord (cfgDevice.localise ramDevice g).addr = ramWord g.addr := by
  show ramWord (g.addr &&& ~~~(~~~(128 * 1024 - 1))) = ramWord g.addr
  refine BitVec.eq_of_getLsbD_eq fun j hj => ?_
  rw [ramWord, ramWord, BitVec.getLsbD_extractLsb', BitVec.getLsbD_extractLsb', BitVec.getLsbD_and]
  have hones : ∀ j < MemAw, (~~~(~~~(128 * 1024 - 1)) : BitVec 32).getLsbD (2 + j) = true := by decide
  rw [hones j hj, Bool.and_true]

namespace PpSystem

variable {M : Nat} {s : PpSystem (primRam2p MemAw)} {i : PpSystemIn}

/-- A fetch changes nothing, and a store on port A its bytes. -/
theorem ramBytes_step (x : BitVec MemAw × Fin 4) : ramBytes (s.step M i).ram.ram.mem x =
    ((s.devicePort i ramDevice).request.elim (ramBytes s.ram.ram.mem)
      (ramObject.next (ramBytes s.ram.ram.mem))) x := by
  have hmem : (s.step M i).ram.ram.mem =
      PrimRam2p.write (Ram2p.primIn (instrPort i))
        (PrimRam2p.write (Ram2p.primIn (s.devicePort i ramDevice)) s.ram.ram.mem) :=
    rfl
  have hfetch (mem : BitVec MemAw → BitVec 32) : PrimRam2p.write (Ram2p.primIn (instrPort i)) mem = mem :=
    if_neg (by rw [Bool.and_eq_true]; exact fun h => Bool.false_ne_true h.2)
  rw [hmem, hfetch, ObiIn.request]
  obtain ⟨w, k⟩ := x
  rcases s.devicePort i ramDevice with ⟨reqI, addrI, weI, beI, wdataI⟩
  show ramBytes (if reqI && weI then Function.update s.ram.ram.mem (ramWord addrI)
      (writeBytes (maskBits (byteMask beI)) wdataI (s.ram.ram.mem (ramWord addrI))) else s.ram.ram.mem) (w, k) = _
  rw [maskBits_byteMask]
  cases reqI with
  | false => rfl
  | true =>
    show _ = ((DevReq.storesByte ⟨addrI, weI, beI, wdataI⟩ (w, k)).getD (ramBytes s.ram.ram.mem (w, k)))
    rw [DevReq.storesByte]
    cases weI with
    | false => rfl
    | true =>
      by_cases hw : ramWord addrI = w
      · subst hw
        rw [if_pos (by rfl), ramBytes, Function.update_self, byteOf_writeBytes]
        simp only [Bool.true_and, beq_self_eq_true]
        split <;> rfl
      · have hno : (ramWord addrI == w) = false := beq_false_of_ne hw
        rw [if_pos (by rfl), ramBytes, Function.update_of_ne (Ne.symm hw)]
        simp only [hno, Bool.and_false, Bool.false_and, Bool.false_eq_true, if_false]
        rfl

variable (M) (s₀ : PpSystem (primRam2p MemAw)) (inp : Nat → PpSystemIn)

/-- Port A serves the bytes of the RAM. -/
theorem ram_serves (h0 : s₀.ram.aRvalidO = false) :
    Serves ramObject (fun t => ramBytes (run M s₀ inp t).ram.ram.mem) (requestAt M s₀ inp ramDevice)
      (answerAt M s₀ inp ramDevice) where
  first := if_neg (by show ¬s₀.ram.aRvalidO = true; rw [h0]; exact Bool.false_ne_true)
  next t := by
    funext x
    exact ramBytes_step x
  idle t h := by
    have hreq : ((run M s₀ inp t).devicePort (inp t) ramDevice).reqI = false := ObiIn.reqI_of_request h
    refine if_neg ?_
    show ¬((run M s₀ inp t).devicePort (inp t) ramDevice).reqI = true
    rw [hreq]
    exact Bool.false_ne_true
  due t q h := by
    have hport : (run M s₀ inp t).devicePort (inp t) ramDevice = q.port := ObiIn.eq_port h
    refine ⟨_, if_pos (congrArg ObiIn.reqI hport), rfl, fun hwe k => ?_⟩
    have hread : (device (primRam2p MemAw) M ramDevice).rdataO
        ((run M s₀ inp (t + 1)).deviceState M ramDevice) = (run M s₀ inp t).ram.ram.mem (ramWord q.addr) := by
      show (if ((run M s₀ inp t).devicePort (inp t) ramDevice).reqI &&
        !((run M s₀ inp t).devicePort (inp t) ramDevice).weI then
          (run M s₀ inp t).ram.ram.mem (ramWord ((run M s₀ inp t).devicePort (inp t) ramDevice).addrI) else _) = _
      rw [hport]
      exact if_pos (by rw [show q.port.weI = q.we from rfl, hwe]; rfl)
    show byteOf ((device (primRam2p MemAw) M ramDevice).rdataO _) k = _
    rw [hread]
    rfl

variable {M s₀ inp}

theorem ramBytes_eq (h0 : s₀.bus = .reset) (hrv : s₀.ram.aRvalidO = false) (t : Nat) (w : BitVec MemAw) (k : Fin 4) :
    byteOf ((run M s₀ inp t).ram.ram.mem w) k =
      lastStored s₀.ram.ram.mem (grants 2 cfgDevice (busTrace M s₀ inp) t) w k := by
  have hcontents := contents_eq h0 (fun _ _ => rfl) (ram_serves M s₀ inp hrv) t
  refine (congrFun hcontents (w, k)).trans ?_
  exact replay_eq_last (fun _ _ _ => rfl) _ _ _

end PpSystem

open PpSystem in
/-- A read of the RAM returns the bytes that the stores granted before it have left, or the initial ones, without
an error; and a fetch returns those of all stores granted in earlier cycles. -/
theorem ram_coherent (M : Nat) (ram : PrimRam2p MemAw) (rdata : BitVec 32) (txBuf rxBuf : BitVec 5 → BitVec 8)
    (inp : Nat → PpSystemIn) (t : Nat) :
    let s₀ : PpSystem (primRam2p MemAw) := .reset ram rdata txBuf rxBuf
    let granted := grants 2 cfgDevice (busTrace M s₀ inp) t
    (∀ n g r, granted[n]? = some g → cfgDevice.decode g.addr = some ramDevice → g.we = false →
      (responses 2 cfgDevice (busTrace M s₀ inp) t)[n]? = some r →
        r.err = false ∧ ∀ k : Fin 4, byteOf r.rdata k = lastStored ram.mem (granted.take n) (ramWord g.addr) k) ∧
    ((instrPort (inp t)).reqI = true → ∀ k : Fin 4,
      byteOf (run M s₀ inp (t + 1)).ram.ram.bRdataO k = lastStored ram.mem granted (ramWord (inp t).instrAddrO) k) := by
  intro s₀ granted
  have hdisc := @reset_disciplined (primRam2p MemAw) M ram rdata txBuf rxBuf
  refine ⟨fun n g r hg hd hwe hr => ?_, fun hreq k => ?_⟩
  · obtain ⟨a, ⟨herr, hread⟩, hrdata, hrerr⟩ :=
      response_due rfl (fun _ _ => rfl) (ram_serves M s₀ inp rfl) hdisc hg hd hr
    rw [herr] at hrdata hrerr
    refine ⟨hrerr, fun k => ?_⟩
    rw [hrdata, if_neg Bool.false_ne_true, hread hwe k, ramWord_localise]
    exact replay_eq_last (fun _ _ _ => rfl) _ _ _
  · have hfetch : (run M s₀ inp (t + 1)).ram.ram.bRdataO =
        (run M s₀ inp t).ram.ram.mem (ramWord (inp t).instrAddrO) :=
      if_pos (by rw [Bool.and_eq_true]; exact ⟨hreq, rfl⟩)
    rw [hfetch]
    exact ramBytes_eq rfl rfl t _ k

end PenPlotter
