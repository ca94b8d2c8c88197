import Chip8.Proofs.Awaiting

namespace Chip8.Machine

variable {m s : Machine} {c : FaultCause} {f : Fault} {v : Option Visit} {i : Instruction} {origin : UInt16}

theorem write_error_with {data : List UInt8} (h : (m.write data).1 = .error c) (timers : Timers)
    (keypad : Keypad) : ({ m with timers, keypad }.write data).1 = .error c := by
  unfold write at h ⊢
  split at h
  · cases h
  · next hw =>
      rw [hw]
      exact h

theorem execute_error_with (h : (m.execute i).1 = .error c) (timers : Timers) (keypad : Keypad) :
    ({ m with timers, keypad }.execute i).1 = .error c := by
  cases i with
  | ret | call =>
      simp only [execute] at h ⊢
      split at h
      · cases h
      · exact h
  | draw | loadRegisters =>
      simp only [execute] at h ⊢
      split at h
      · exact h
      · cases h
  | storeDecimal | storeRegisters => exact write_error_with h timers keypad
  | _ => cases h

theorem step_faulted_iff :
    m.step.1 = .faulted f ↔ m.mode = .running ∧
      ((∃ e, m.memory.fetch m.pc = .error e ∧ f = ⟨.fetchOutOfBounds, m.pc, none⟩) ∨
        ∃ w c, m.memory.fetch m.pc = .ok w ∧ (m.execute (.decode w)).1 = .error c ∧ f = ⟨c, m.pc, some w⟩) := by
  constructor
  · intro h
    obtain ⟨x, -, hs⟩ | ⟨hm, e, hf, hs⟩ | ⟨hm, w, c, hf, he, hs⟩ | ⟨-, w, flow, s, -, -, hs⟩ := m.step_cases
    all_goals
      rw [hs] at h
      cases h
    · exact ⟨hm, .inl ⟨e, hf, rfl⟩⟩
    · exact ⟨hm, .inr ⟨w, c, hf, congrArg Prod.fst he, rfl⟩⟩
  · rintro ⟨hm, ⟨e, hf, rfl⟩ | ⟨w, c, hf, he, rfl⟩⟩
    · simp only [step, hm, hf]
    · rcases hx : m.execute (.decode w) with ⟨answer, after⟩
      rw [hx] at he
      obtain rfl : answer = .error c := he
      simp only [step, hm, hf, hx]

theorem step_of_faulted (h : m.step.1 = .faulted f) : m.step = (.faulted f, m) := by
  obtain ⟨x, -, hs⟩ | ⟨-, e, -, hs⟩ | ⟨-, w, c, -, -, hs⟩ | ⟨-, w, flow, s, -, -, hs⟩ := m.step_cases
  all_goals
    rw [hs] at h
    cases h
  all_goals exact hs

theorem step_faulted_with (h : m.step.1 = .faulted f) (timers : Timers) (keypad : Keypad) :
    { m with timers, keypad }.step.1 = .faulted f := by
  obtain ⟨hm, hfetch | ⟨w, c, hf, he, hc⟩⟩ := step_faulted_iff.1 h
  · exact step_faulted_iff.2 ⟨hm, .inl hfetch⟩
  · exact step_faulted_iff.2 ⟨hm, .inr ⟨w, c, hf, execute_error_with he timers keypad, hc⟩⟩

structure Stuck (f : Fault) (m : Machine) : Prop where
  fault : m.step.1 = .faulted f
  above : m.memory.hasProgram = false → 4096 ≤ m.pc.toNat + 1

theorem Stuck.running (hs : Stuck f m) : m.mode = .running := (step_faulted_iff.1 hs.fault).1

theorem Stuck.aside (hs : Stuck f m) (timers : Timers) (keypad : Keypad) :
    Stuck f { m with timers, keypad } :=
  ⟨step_faulted_with hs.fault timers keypad, hs.above⟩

theorem Stuck.loaded (hs : Stuck f m) (hfree : m.memory.hasProgram = false) (memory : Memory) :
    Stuck f { m with memory } := by
  have habove := hs.above hfree
  have hf : f = ⟨.fetchOutOfBounds, m.pc, none⟩ := by
    have := step_above hs.running habove
    rw [hs.fault] at this
    exact Outcome.faulted.inj this
  exact ⟨hf ▸ step_above hs.running habove, fun _ => habove⟩

theorem stuck_change (h : Change m v s) (hs : Stuck f m) :
    Stuck f s ∧ s = { m with memory := s.memory, timers := s.timers, keypad := s.keypad } := by
  cases h with
  | none => exact ⟨hs, rfl⟩
  | loaded hfree => exact ⟨hs.loaded hfree _, rfl⟩
  | ticked => exact ⟨hs.aside m.timers.tick m.keypad, rfl⟩
  | @sensed now => exact ⟨hs.aside m.timers now, rfl⟩
  | woken hm =>
      rw [hs.running] at hm
      cases hm
  | executed hm hf he =>
      obtain ⟨-, ⟨e, hf', -⟩ | ⟨w, c, hf', he', -⟩⟩ := step_faulted_iff.1 hs.fault
      · rw [hf] at hf'
        cases hf'
      · obtain rfl := Except.ok.inj (hf.symm.trans hf')
        rw [he] at he'
        cases he'

theorem stuck_afterAll (hs : Stuck f m) (rs : List Request) :
    Stuck f (m.afterAll rs) ∧
      m.afterAll rs =
        { m with
          memory := (m.afterAll rs).memory
          timers := (m.afterAll rs).timers
          keypad := (m.afterAll rs).keypad } := by
  refine afterAll_induction
    (P := fun s => Stuck f s ∧ s = { m with memory := s.memory, timers := s.timers, keypad := s.keypad })
    ?_ ⟨hs, rfl⟩ rs
  intro n v s hc ⟨hn, heq⟩
  obtain ⟨hs, hnext⟩ := stuck_change hc hn
  refine ⟨hs, hnext.trans ?_⟩
  rw [heq]

theorem stuck_of_parked (ho : 0xa0 ≤ origin.toNat) (hp : Parked origin m) (h : m.step.1 = .faulted f) :
    Stuck f m := by
  refine ⟨h, ?_⟩
  intro hfree
  obtain ⟨hblank, -, hpc⟩ := hp.unloaded hfree
  refine Nat.not_lt.1 ?_
  intro hlt
  have hf := Memory.fetch_eq_ok_iff (m := m.memory).2 ⟨hlt, rfl⟩
  obtain ⟨-, ⟨e, hf', -⟩ | ⟨w, c, hf', he, -⟩⟩ := step_faulted_iff.1 h
  · rw [hf] at hf'
    cases hf'
  · rw [hblank] at hf'
    obtain rfl := fetch_blank (Nat.le_trans ho hpc) hf'
    cases he

theorem memory_load (m : Machine) (program : List UInt8) :
    (m.load program).2.memory = m.memory ∨
      m.memory.hasProgram = false ∧ ∃ size, (m.load program).1 = .ok size := by
  unfold load
  obtain ⟨e, he⟩ | ⟨hfree, -, -, he⟩ := m.memory.load_cases program
  · rw [he]
    exact .inl rfl
  · rw [he]
    exact .inr ⟨hfree, _, rfl⟩

theorem memory_loadFrom (m : Machine) (source : ByteSource) :
    (m.loadFrom source).2.memory = m.memory ∨
      m.memory.hasProgram = false ∧ ∃ size, (m.loadFrom source).1 = .ok size := by
  unfold loadFrom
  obtain ⟨e, he⟩ | he := m.memory.loadFrom_cases source
  · rw [he]
    exact .inl rfl
  · rw [he]
    exact m.memory_load source.chunks.flatten

theorem memory_sense (m : Machine) (now : Keypad) : (m.sense now).2.memory = m.memory := by
  unfold sense
  split <;> rfl

theorem Stuck.memory_perform (hs : Stuck f m) (r : Request) :
    (m.perform r).2.memory = m.memory ∨
      m.memory.hasProgram = false ∧ ∃ size, (m.perform r).1 = .loaded (.ok size) := by
  cases r with
  | load program =>
      obtain hsame | ⟨hfree, size, hok⟩ := m.memory_load program
      · exact .inl hsame
      · exact .inr ⟨hfree, size, congrArg Response.loaded hok⟩
  | loadFrom source =>
      obtain hsame | ⟨hfree, size, hok⟩ := m.memory_loadFrom source
      · exact .inl hsame
      · exact .inr ⟨hfree, size, congrArg Response.loaded hok⟩
  | event e =>
      cases e with
      | step => exact .inl (by rw [perform, respond, step_of_faulted hs.fault])
      | interrupt => exact .inl rfl
      | sense now => exact .inl (m.memory_sense now)
  | dump | disassemble => exact .inl rfl

theorem fault_is_permanent {s : Settings} (hs : s.validate = .ok ()) (fallback : RandomSource) :
    (Screen.Fits s.width s.height → ∃ fresh, boot s fallback = .ok fresh) ∧
    ∀ fresh, boot s fallback = .ok fresh → ∀ (past : List Request) (f : Fault),
      (fresh.afterAll past).step.1 = .faulted f → ∀ later : List Request,
        let m := fresh.afterAll past
        let n := m.afterAll later
        n.step = (.faulted f, n) ∧
          n = { m with memory := n.memory, timers := n.timers, keypad := n.keypad } ∧
          ∀ r, (n.perform r).2.memory = n.memory ∨
            n.memory.hasProgram = false ∧ ∃ size, (n.perform r).1 = .loaded (.ok size) := by
  refine ⟨exists_boot hs fallback, fun fresh hboot => ?_⟩
  obtain ⟨hfits, rfl⟩ := eq_of_boot hboot
  intro past f hfault later m n
  obtain ⟨ho, -⟩ := Settings.validate_ok hs
  have hp := afterAll_induction (parked_change ho) (parked_ofSettings s hfits (s.seed.elim fallback .ofSeed)) past
  obtain ⟨hn, hsame⟩ := stuck_afterAll (stuck_of_parked ho hp hfault) later
  exact ⟨step_of_faulted hn.fault, hsame, hn.memory_perform⟩

theorem fault_is_permanent_late_load :
    let fresh := ofSettings { origin := 0xffe } (by decide) (.ofSeed 0)
    let m := fresh.afterAll [.event .step]
    let n := m.afterAll [.load [0x12, 0x00], .event .interrupt, .event (.sense (.ofKeys [3]))]
    m.memory.hasProgram = false ∧ n.memory.hasProgram = true ∧
      n.step = (.faulted ⟨.fetchOutOfBounds, 0x1000, none⟩, n) := by
  intro fresh m n
  obtain ⟨-, hm⟩ := fault_is_permanent (s := { origin := 0xffe }) rfl (.ofSeed 0)
  have hrun : m.step.1 = .faulted ⟨.fetchOutOfBounds, 0x1000, none⟩ ∧ m.memory.hasProgram = false ∧
      n.memory.hasProgram = true := by
    decide +kernel
  obtain ⟨hfault, hfree, hloaded⟩ := hrun
  obtain ⟨hstep, -⟩ := hm fresh (boot_eq rfl _ _) [.event .step] _ hfault _
  exact ⟨hfree, hloaded, hstep⟩

end Chip8.Machine
