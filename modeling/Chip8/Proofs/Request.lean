import Chip8.Machine.Request
import Chip8.Proofs.Step

namespace Chip8.Machine

inductive Change : Machine → Option Visit → Machine → Prop
  | none {m} : Change m none m
  | loaded {m : Machine} {program : List UInt8} : m.memory.hasProgram = false → program ≠ [] →
      m.memory.origin.toNat + program.length ≤ 4096 →
      Change m none
        { m with
          memory :=
            { m.memory with
              bytes := Memory.patch m.memory.bytes m.memory.origin.toNat program
              stop := UInt16.ofNat (m.memory.origin.toNat + program.length) } }
  | ticked {m} : Change m none m.interrupt
  | sensed {m now} : Change m none { m with keypad := now }
  | woken {m : Machine} {x now} {k : Key} : m.mode = .awaitingKey x →
      Change m none { m.setV x (UInt8.ofNat k.val) with keypad := now, pc := m.pc + 2, mode := .running }
  | executed {m s : Machine} {w flow} : m.mode = .running → m.memory.fetch m.pc = .ok w →
      m.execute (.decode w) = (.ok flow, s) → Change m (some ⟨m.pc, .decode w⟩) (s.follow m.pc flow)

theorem change_load (m : Machine) (program : List UInt8) : Change m none (m.load program).2 := by
  unfold load
  obtain ⟨e, he⟩ | ⟨hfree, hne, hfit, he⟩ := m.memory.load_cases program
  · rw [he]
    exact .none
  · rw [he]
    exact .loaded hfree hne hfit

theorem change_loadFrom (m : Machine) (source : ByteSource) : Change m none (m.loadFrom source).2 := by
  unfold loadFrom
  obtain ⟨e, he⟩ | he := m.memory.loadFrom_cases source
  · rw [he]
    exact .none
  · rw [he]
    exact m.change_load source.chunks.flatten

theorem change_sense (m : Machine) (now : Keypad) : Change m none (m.sense now).2 := by
  unfold sense
  split
  · exact .woken ‹_›
  · exact .sensed

theorem change_step (m : Machine) : Change m (m.visit? (.event .step)) m.step.2 := by
  unfold visit?
  obtain ⟨x, -, hs⟩ | ⟨-, e, -, hs⟩ | ⟨-, w, c, -, -, hs⟩ | ⟨hm, w, flow, s, hf, he, hs⟩ := m.step_cases
  · rw [hs]
    exact .none
  · rw [hs]
    exact .none
  · rw [hs]
    exact .none
  · rw [hs]
    exact .executed hm hf he

theorem change_perform (m : Machine) (r : Request) : Change m (m.visit? r) (m.perform r).2 := by
  cases r with
  | load program => exact m.change_load program
  | loadFrom source => exact m.change_loadFrom source
  | event e =>
      cases e with
      | step => exact m.change_step
      | interrupt => exact .ticked
      | sense now => exact m.change_sense now
  | dump | disassemble => exact .none

theorem afterAll_induction {P : Machine → Prop} (hP : ∀ {m v s}, Change m v s → P m → P s) {m : Machine}
    (hm : P m) (rs : List Request) : P (m.afterAll rs) := by
  induction rs generalizing m with
  | nil => exact hm
  | cons r rs ih => exact ih (hP (m.change_perform r) hm)

theorem boot_eq {s : Settings} (hs : s.validate = .ok ()) (hfits : Screen.Fits s.width s.height)
    (fallback : RandomSource) : boot s fallback = .ok (ofSettings s hfits (s.seed.elim fallback .ofSeed)) := by
  simp only [boot, hs, dif_pos hfits]

theorem boot_of_not_fits {s : Settings} (hs : s.validate = .ok ()) (hwide : ¬ Screen.Fits s.width s.height)
    (fallback : RandomSource) : boot s fallback = .error .tooManyCells := by
  simp only [boot, hs, dif_neg hwide]

theorem eq_of_boot {s : Settings} {fallback : RandomSource} {m : Machine} (h : boot s fallback = .ok m) :
    ∃ hfits, m = ofSettings s hfits (s.seed.elim fallback .ofSeed) := by
  unfold boot at h
  split at h
  · cases h
  · split at h
    · next hfits => exact ⟨hfits, (Except.ok.inj h).symm⟩
    · cases h

theorem exists_boot {s : Settings} (hs : s.validate = .ok ()) (fallback : RandomSource)
    (hfits : Screen.Fits s.width s.height) : ∃ fresh, boot s fallback = .ok fresh :=
  ⟨_, boot_eq hs hfits fallback⟩

end Chip8.Machine
