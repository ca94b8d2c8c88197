import Chip8.Machine.Event
import Chip8.Proofs.Step
import Mathlib.Data.List.Chain
import Mathlib.Logic.Function.Iterate

namespace Chip8.Machine

variable {m : Machine} {x y : Register} {e : Event} {es : List Event}

def Quiet (p : Keypad) (es : List Event) : Prop :=
  (p :: snapshots es).IsChain fun before now => ∀ k, ¬ before.Fresh now k

def idleAnswer (f : Screen) : Event → Answer
  | .step => .stepped .waiting
  | .interrupt => .frame f
  | .sense _ => .sensed none

theorem step_waiting (hm : m.mode = .awaitingKey x) : m.step = (.waiting, m) := by
  simp only [step, hm]

theorem sense_waiting {now : Keypad} {k : Key} (hm : m.mode = .awaitingKey x)
    (hk : m.keypad.freshKey? now = some k) :
    m.sense now = (some k, { m.setV x (UInt8.ofNat k.val) with
      keypad := now, pc := m.pc + 2, mode := .running }) := by
  simp only [sense, hm, hk]

theorem sense_stale {now : Keypad} (hk : m.keypad.freshKey? now = none) :
    m.sense now = (none, { m with keypad := now }) := by
  unfold sense
  split
  · next h =>
      rw [hk] at h
      cases h
  · rfl

theorem awaiting_of_step (h : m.step.2.mode = .awaitingKey y) :
    m.mode = .awaitingKey y ∨ m.step.1 = .executed (.waitKey y) := by
  obtain ⟨x, hm, hs⟩ | ⟨hm, e, -, hs⟩ | ⟨hm, w, c, -, -, hs⟩ | ⟨hm, w, flow, s, -, he, hs⟩ := m.step_cases
  · exact .inl (by rwa [hs] at h)
  · exact .inl (by rwa [hs] at h)
  · exact .inl (by rwa [hs] at h)
  · obtain ⟨hmode, hwait⟩ := execute_ok he
    rw [hs] at h ⊢
    cases flow with
    | wait z =>
        cases h
        exact .inr (by rw [hwait y rfl])
    | next | skip | jump => exact .inl (hmode ▸ h)

theorem idle_run (hm : m.mode = .awaitingKey x) (hq : Quiet m.keypad es) :
    m.answers es = es.map (idleAnswer m.screen) ∧
      m.after es = { m with timers := Timers.tick^[ticks es] m.timers, keypad := latest m.keypad es } := by
  induction es generalizing m with
  | nil => exact ⟨rfl, rfl⟩
  | cons e es ih =>
      cases e with
      | step =>
          have hr : m.respond .step = (.stepped .waiting, m) := by rw [respond, step_waiting hm]
          obtain ⟨ha, hs⟩ := ih hm hq
          rw [answers, after, hr]
          exact ⟨congrArg _ ha, hs⟩
      | interrupt =>
          obtain ⟨ha, hs⟩ := ih (m := m.interrupt) hm hq
          have ht : ticks (.interrupt :: es) = ticks es + 1 := List.count_cons_self
          refine ⟨congrArg _ ha, ?_⟩
          rw [ht, Function.iterate_succ_apply]
          exact hs
      | sense now =>
          obtain ⟨hnow, hrest⟩ := List.isChain_cons_cons.1 hq
          have hr : m.respond (.sense now) = (.sensed none, { m with keypad := now }) := by
            rw [respond, sense_stale (Keypad.freshKey?_eq_none_iff.2 hnow)]
          obtain ⟨ha, hs⟩ := ih (m := { m with keypad := now }) hm hrest
          have hl : latest m.keypad (.sense now :: es) = latest now es := List.getLastD_cons
          rw [answers, after, hr, hl]
          exact ⟨congrArg _ ha, hs⟩

end Chip8.Machine
