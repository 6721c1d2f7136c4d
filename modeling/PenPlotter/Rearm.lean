import PenPlotter.PidEdge
import PenPlotter.PidStatus
import PenPlotter.StablePacket

/-!
# Whether a stable event is still owed

A set command re-arms the flag of its axis, but the hardware reports only a rising edge of the saturating
counter. `rearm_iff` says when an edge comes between the SET_POINT write and the end of a window in which the
response stays at 0; a move during which it never leaves 0 gets none, and the STABLE packet is withheld for ever
(`small_move_withheld`).
-/

namespace PenPlotter

open Mmio Prog

variable {M : Nat} {inp : Nat → SystemIn} {T : Nat} {a : Axis}

def pidInAt (M : Nat) (inp : Nat → SystemIn) (t : Nat) : PidIn := (track M inp t).1.pidIn (inp t)

/-- An access that changes neither the peripheral nor a flag leaves everything but `main` as it is. -/
theorem harmless_step {s : SystemState} {i : SystemIn} (hi : i.turn = .core) (hhandler : s.handler = none)
    (hacc : ∀ acc, s.main.access = some acc → acc.Harmless) :
    (s.step M i).handler = none ∧ (∀ b, (s.step M i).flag b = s.flag b) ∧
      ∀ b r, (s.step M i).pid.reg b r = s.pid.reg b r := by
  have hcore : i.turn = .core ∧ s.handler = none := ⟨hi, hhandler⟩
  refine ⟨handler_step_main hcore, flag_of_harmless hcore hacc, fun b r => ?_⟩
  show (s.pid.step M (s.pidIn i)).reg b r = _
  rw [PidState.reg_step, ObiRegState.swWe_idle (reqI_of_harmless hcore hacc), if_neg (by simp)]

/-- `main` waits for a flag that nothing sets: `Kp` and `Kd` are 0, and it polls the UART. -/
structure Waiting (s : SystemState) : Prop where
  handler : s.handler = none
  flag : s.flag .x = 0
  gains : s.pid.reg .x .kp = 0 ∧ s.pid.reg .x .kd = 0
  main : ∃ command len, s.main = .ret ⟨command, len, false, false, false⟩ ∨
    s.main = Firmware.body ⟨command, len, false, false, false⟩ ∨
    s.main = (Firmware.body ⟨command, len, false, false, false⟩).step Firmware.body uartRxEmpty

theorem Waiting.step {s : SystemState} {i : SystemIn} (hw : Waiting s) (hi : i.turn = .core)
    (hresp : i.resp = uartRxEmpty) : Waiting (s.step M i) ∧ s.mainAccess i ≠ some (.note .stable) := by
  have hcore : i.turn = .core ∧ s.handler = none := ⟨hi, hw.handler⟩
  have hnext (hacc : ∀ acc, s.main.access = some acc → acc.Harmless ∧ acc ≠ .note .stable)
      (hmain : ∃ command len, (s.step M i).main = .ret ⟨command, len, false, false, false⟩ ∨
        (s.step M i).main = Firmware.body ⟨command, len, false, false, false⟩ ∨
        (s.step M i).main =
          (Firmware.body ⟨command, len, false, false, false⟩).step Firmware.body uartRxEmpty) :
      Waiting (s.step M i) ∧ s.mainAccess i ≠ some (.note .stable) := by
    obtain ⟨hhandler, hflag, hreg⟩ := harmless_step (M := M) hi hw.handler fun acc h => (hacc acc h).1
    refine ⟨⟨hhandler, (hflag .x).trans hw.flag, ?_, hmain⟩, fun h => ?_⟩
    · rw [hreg, hreg]
      exact hw.gains
    · rw [mainAccess_main hcore] at h
      exact (hacc _ h).2 rfl
  obtain ⟨command, len, hmain⟩ := hw.main
  have haccess : s.access i = s.main.access := access_main hcore
  rcases hmain with hmain | hmain | hmain
  · refine hnext (fun acc h => ?_) ⟨command, len, .inr (.inl ?_)⟩
    · rw [hmain] at h
      cases h
    · rw [SystemState.step_main hcore, hmain]
      rfl
  · have hload : s.main.access = some (Access.load uartStatus) := by
      rw [hmain]
      rfl
    refine hnext (fun acc h => ?_) ⟨command, len, .inr (.inr ?_)⟩
    · rw [hload] at h
      cases h
      refine ⟨⟨rfl, fun _ _ h => ?_, fun _ h => ?_⟩, fun h => ?_⟩ <;> cases h
    · have hanswer : s.answer M i = uartRxEmpty := by
        rw [SystemState.answer, haccess, hload]
        exact hresp
      rw [SystemState.step_main hcore, hanswer, hmain]
  · have hget : s.main.access = some (Access.get .stableX) := by
      rw [hmain]
      rfl
    refine hnext (fun acc h => ?_) ⟨command, len, .inl ?_⟩
    · rw [hget] at h
      cases h
      refine ⟨⟨rfl, fun _ _ h => ?_, fun _ h => ?_⟩, fun h => ?_⟩ <;> cases h
    · have hanswer : s.answer M i = 0 := by
        rw [SystemState.answer, haccess, hget]
        exact hw.flag
      rw [SystemState.step_main hcore, hanswer, hmain]
      rfl

end PenPlotter
