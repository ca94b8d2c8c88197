import Chip8.Machine.Step

namespace Chip8

def Instruction.keepsStack : Instruction → Bool
  | .ret | .call _ => false
  | _ => true

theorem Address.toNat_toWord (a : Address) : a.toWord.toNat = a.val := by
  simp only [Address.toWord, UInt16.toNat_ofNat']
  omega

namespace Machine

structure Frame (m s : Machine) : Prop where
  origin : s.memory.origin = m.memory.origin
  stop : s.memory.stop = m.memory.stop
  width : s.screen.width = m.screen.width
  height : s.screen.height = m.screen.height
  keypad : s.keypad = m.keypad
  mode : s.mode = m.mode

inductive Leads (m s : Machine) : Instruction → Transfer → Prop
  | ret {target} : m.stack.entries = target :: s.stack.entries → Leads m s .ret (.jump target)
  | call {target} : m.stack.depth < 16 → s.stack.entries = (m.pc + 2) :: m.stack.entries →
      Leads m s (.call target) (.jump target.toWord)
  | wait {x} : s = m → Leads m s (.waitKey x) (.wait x)
  | jump {i target} : i.keepsStack = true → s.stack = m.stack → target.toNat ≤ 0x10fe →
      Leads m s i (.jump target)
  | next {i} : i.keepsStack = true → s.stack = m.stack → Leads m s i .next
  | skip {i} : i.keepsStack = true → s.stack = m.stack → Leads m s i .skip

variable {m s : Machine} {c : FaultCause} {x y : Register}

theorem write_error {data : List UInt8} (h : m.write data = (.error c, s)) :
    s = m ∧ c ≠ .fetchOutOfBounds := by
  unfold write at h
  split at h
  · cases h
  · next c' memory hw =>
      obtain ⟨rfl, rfl⟩ := Memory.write_error hw
      cases h
      exact ⟨rfl, nofun⟩

theorem write_ok {data : List UInt8} {flow : Transfer} (h : m.write data = (.ok flow, s)) :
    flow = .next ∧ m.index.toNat + data.length ≤ 4096 ∧
      s = { m with memory := { m.memory with bytes := Memory.patch m.memory.bytes m.index.toNat data } } := by
  unfold write Memory.write at h
  split at h
  · next hw =>
      split at hw
      · next hfit =>
          cases hw
          cases h
          exact ⟨rfl, hfit, rfl⟩
      · cases hw
  · cases h

theorem length_registersTo (m : Machine) (x : Register) : (m.registersTo x).length = x.val + 1 := by
  rw [registersTo, List.length_take, Vector.length_toList]
  omega

theorem execute_error {i : Instruction} (h : m.execute i = (.error c, s)) :
    s = m ∧ c ≠ .fetchOutOfBounds := by
  cases i with
  | ret =>
      simp only [execute] at h
      split at h
      · cases h
      · next c' stack hp =>
          obtain ⟨rfl, -, rfl⟩ := ReturnStack.pop_error hp
          cases h
          exact ⟨rfl, nofun⟩
  | call target =>
      simp only [execute] at h
      split at h
      · cases h
      · next c' stack hp =>
          obtain ⟨rfl, -, rfl⟩ := ReturnStack.push_error hp
          cases h
          exact ⟨rfl, nofun⟩
  | draw | loadRegisters =>
      simp only [execute] at h
      split at h
      · next c' hs =>
          obtain rfl := Memory.slice_error hs
          cases h
          exact ⟨rfl, nofun⟩
      · cases h
  | storeDecimal x => exact write_error h
  | storeRegisters x => exact write_error h
  | _ => cases h

theorem runAlu_eq (m : Machine) (op : AluOp) (x y : Register) :
    ∃ registers, m.runAlu op x y = { m with registers } := by
  unfold runAlu
  split <;> exact ⟨_, rfl⟩

theorem withRegisters_eq (m : Machine) (bytes : List UInt8) :
    ∃ registers, m.withRegisters bytes = { m with registers } :=
  ⟨_, rfl⟩

theorem frame_execute {i : Instruction} {flow : Transfer} (h : m.execute i = (.ok flow, s)) : Frame m s := by
  cases i with
  | alu op x y =>
      cases h
      obtain ⟨registers, hr⟩ := m.runAlu_eq op x y
      rw [hr]
      exact ⟨rfl, rfl, rfl, rfl, rfl, rfl⟩
  | ret | call =>
      simp only [execute] at h
      split at h <;> cases h
      exact ⟨rfl, rfl, rfl, rfl, rfl, rfl⟩
  | loadRegisters =>
      simp only [execute] at h
      split at h <;> cases h
      obtain ⟨registers, hr⟩ := m.withRegisters_eq _
      rw [hr]
      exact ⟨rfl, rfl, rfl, rfl, rfl, rfl⟩
  | draw x y rows =>
      simp only [execute] at h
      split at h <;> cases h
      exact ⟨rfl, rfl, Screen.draw_width .., Screen.draw_height .., rfl, rfl⟩
  | storeDecimal | storeRegisters =>
      obtain ⟨rfl, -, rfl⟩ := write_ok h
      exact ⟨rfl, rfl, rfl, rfl, rfl, rfl⟩
  | _ =>
      cases h
      exact ⟨rfl, rfl, rfl, rfl, rfl, rfl⟩

theorem leads_execute {i : Instruction} {flow : Transfer} (h : m.execute i = (.ok flow, s)) :
    Leads m s i flow := by
  cases i with
  | ret =>
      simp only [execute] at h
      split at h <;> cases h
      exact .ret (ReturnStack.pop_ok ‹_›)
  | call target =>
      simp only [execute] at h
      split at h <;> cases h
      obtain ⟨hroom, hpush⟩ := ReturnStack.push_ok ‹_›
      exact .call hroom hpush
  | waitKey x =>
      cases h
      exact .wait rfl
  | jump target =>
      cases h
      exact .jump rfl rfl (by rw [Address.toNat_toWord]; omega)
  | jumpFromV0 base =>
      cases h
      refine .jump rfl rfl ?_
      have := (m.v .zero).toNat_lt
      rw [UInt16.toNat_add, Address.toNat_toWord, UInt8.toNat_toUInt16]
      omega
  | skip condition =>
      cases h
      unfold Transfer.skipIf
      split
      · exact .skip rfl rfl
      · exact .next rfl rfl
  | alu op x y =>
      cases h
      obtain ⟨registers, hr⟩ := m.runAlu_eq op x y
      rw [hr]
      exact .next rfl rfl
  | draw =>
      simp only [execute] at h
      split at h <;> cases h
      exact .next rfl rfl
  | loadRegisters =>
      simp only [execute] at h
      split at h <;> cases h
      obtain ⟨registers, hr⟩ := m.withRegisters_eq _
      rw [hr]
      exact .next rfl rfl
  | storeDecimal | storeRegisters =>
      obtain ⟨rfl, -, rfl⟩ := write_ok h
      exact .next rfl rfl
  | _ =>
      cases h
      exact .next rfl rfl

theorem execute_ok {i : Instruction} {flow : Transfer} (h : m.execute i = (.ok flow, s)) :
    s.mode = m.mode ∧ ∀ x, flow = .wait x → i = .waitKey x := by
  refine ⟨(frame_execute h).mode, ?_⟩
  rintro x rfl
  cases leads_execute h with
  | wait => rfl

theorem step_cases (m : Machine) :
    (∃ x, m.mode = .awaitingKey x ∧ m.step = (.waiting, m)) ∨
      (m.mode = .running ∧ ∃ e, m.memory.fetch m.pc = .error e ∧
        m.step = (.faulted ⟨.fetchOutOfBounds, m.pc, none⟩, m)) ∨
      (m.mode = .running ∧ ∃ w c, m.memory.fetch m.pc = .ok w ∧ m.execute (.decode w) = (.error c, m) ∧
        m.step = (.faulted ⟨c, m.pc, some w⟩, m)) ∨
      (m.mode = .running ∧ ∃ w flow s, m.memory.fetch m.pc = .ok w ∧
        m.execute (.decode w) = (.ok flow, s) ∧
        m.step = (.executed (.decode w), s.follow m.pc flow)) := by
  cases hm : m.mode with
  | awaitingKey x => exact .inl ⟨x, rfl, by simp only [step, hm]⟩
  | running =>
      refine .inr ?_
      cases hf : m.memory.fetch m.pc with
      | error e => exact .inl ⟨rfl, e, rfl, by simp only [step, hm, hf]⟩
      | ok w =>
          refine .inr ?_
          rcases he : m.execute (.decode w) with ⟨c | flow, s⟩
          · obtain ⟨rfl, -⟩ := execute_error he
            exact .inl ⟨rfl, w, c, rfl, he, by simp only [step, hm, hf, he]⟩
          · exact .inr ⟨rfl, w, flow, s, rfl, he, by simp only [step, hm, hf, he]⟩

theorem step_fetched {w : Word} (hm : m.mode = .running) (hf : m.memory.fetch m.pc = .ok w) :
    (∃ c, m.execute (.decode w) = (.error c, m) ∧ m.step = (.faulted ⟨c, m.pc, some w⟩, m)) ∨
      ∃ flow s, m.execute (.decode w) = (.ok flow, s) ∧
        m.step = (.executed (.decode w), s.follow m.pc flow) := by
  rcases he : m.execute (.decode w) with ⟨c | flow, s⟩
  · obtain ⟨rfl, -⟩ := execute_error he
    exact .inl ⟨c, rfl, by simp only [step, hm, hf, he]⟩
  · exact .inr ⟨flow, s, rfl, by simp only [step, hm, hf, he]⟩

theorem step_of_execute {w : Word} {i : Instruction} {flow : Transfer} (hm : m.mode = .running)
    (hf : m.memory.fetch m.pc = .ok w) (hw : Instruction.decode w = i) (he : m.execute i = (.ok flow, s)) :
    m.step = (.executed i, s.follow m.pc flow) := by
  simp only [step, hm, hf, hw, he]

theorem toNat_next {w : Word} (hf : m.memory.fetch m.pc = .ok w) : (m.pc + 2).toNat = m.pc.toNat + 2 := by
  have := (Memory.fetch_eq_ok_iff.1 hf).1
  exact Word.toNat_add_ofNat (k := 2) (by omega)

theorem step_executed {i : Instruction} (h : m.step.1 = .executed i) :
    ∃ w flow s, m.mode = .running ∧ m.memory.fetch m.pc = .ok w ∧ i = .decode w ∧
      m.execute i = (.ok flow, s) ∧ m.step.2 = s.follow m.pc flow := by
  obtain ⟨x, -, hs⟩ | ⟨-, e, -, hs⟩ | ⟨-, w, c, -, -, hs⟩ | ⟨hm, w, flow, s, hf, he, hs⟩ := m.step_cases
  · rw [hs] at h
    cases h
  · rw [hs] at h
    cases h
  · rw [hs] at h
    cases h
  · rw [hs] at h ⊢
    cases h
    exact ⟨w, flow, s, hm, hf, rfl, he, rfl⟩

theorem stack_of_executed_ret (h : m.step.1 = .executed .ret) :
    m.stack.entries = m.step.2.pc :: m.step.2.stack.entries := by
  obtain ⟨w, flow, s, -, -, -, he, hs⟩ := step_executed h
  rw [hs]
  cases leads_execute he with
  | ret hpop => exact hpop
  | jump hi | next hi | skip hi => cases hi

theorem step_above (hm : m.mode = .running) (h : 4096 ≤ m.pc.toNat + 1) :
    m.step.1 = .faulted ⟨.fetchOutOfBounds, m.pc, none⟩ := by
  have hnone : ∀ w, m.memory.fetch m.pc ≠ .ok w := by
    intro w hw
    exact Nat.not_lt.2 h (Memory.fetch_eq_ok_iff.1 hw).1
  obtain ⟨x, hx, -⟩ | ⟨-, e, -, hs⟩ | ⟨-, w, c, hw, -⟩ | ⟨-, w, flow, s, hw, -⟩ := m.step_cases
  · rw [hm] at hx
    cases hx
  · rw [hs]
  · exact absurd hw (hnone w)
  · exact absurd hw (hnone w)

theorem step_faulted_atomic {m : Machine} {f : Fault} (h : m.step.1 = .faulted f) :
    m.step.2 = m ∧ f.pc = m.pc ∧
      (m.pc.toNat + 1 < 4096 → f.cause ≠ .fetchOutOfBounds ∧ ∃ w : Word, f.word = some w ∧
        w.toNat = (m.memory.peek m.pc.toNat).toNat * 256 + (m.memory.peek (m.pc.toNat + 1)).toNat) ∧
      (4096 ≤ m.pc.toNat + 1 → f.cause = .fetchOutOfBounds ∧ f.word = none) := by
  obtain ⟨x, -, hs⟩ | ⟨-, e, hf, hs⟩ | ⟨-, w, c, hf, he, hs⟩ | ⟨-, w, flow, s, -, -, hs⟩ := m.step_cases
  · rw [hs] at h
    cases h
  · rw [hs] at h ⊢
    cases h
    have hpc : ¬ m.pc.toNat + 1 < 4096 := by
      intro hlt
      rw [Memory.fetch_eq_ok_iff.2 ⟨hlt, rfl⟩] at hf
      cases hf
    refine ⟨rfl, rfl, ?_, ?_⟩
    · intro hlt
      exact absurd hlt hpc
    · intro _
      exact ⟨rfl, rfl⟩
  · rw [hs] at h ⊢
    cases h
    obtain ⟨hlt, hw⟩ := Memory.fetch_eq_ok_iff.1 hf
    obtain ⟨-, hcause⟩ := execute_error he
    refine ⟨rfl, rfl, ?_, ?_⟩
    · intro _
      refine ⟨hcause, w, rfl, ?_⟩
      rw [hw, Word.toNat_ofBytes]
    · intro hge
      exact absurd hlt (Nat.not_lt.2 hge)
  · rw [hs] at h
    cases h

theorem step_faulted_atomic_ret :
    let m := ((ofSettings {} (by decide) (.ofSeed 0)).load [0x00, 0xee]).2
    m.step.1 = .faulted ⟨.stackUnderflow, 0x200, some 0x00ee⟩ ∧ m.step.2 = m :=
  have h : ((ofSettings {} (by decide) (.ofSeed 0)).load [0x00, 0xee]).2.step.1 =
      .faulted ⟨.stackUnderflow, 0x200, some 0x00ee⟩ := by decide +kernel
  ⟨h, (step_faulted_atomic h).1⟩

end Machine

end Chip8
