import Chip8.Instruction.Pattern
import Chip8.Proofs.Step
import Mathlib.Data.List.Basic

namespace Chip8

inductive Word.Accesses (w : Word) : Nat → Prop
  | draw : w.family = 0xd → Accesses w w.n.val
  | storeDecimal : w.family = 0xf → w.kk = 0x33 → Accesses w 3
  | storeRegisters : w.family = 0xf → w.kk = 0x55 → Accesses w (w.x.val + 1)
  | loadRegisters : w.family = 0xf → w.kk = 0x65 → Accesses w (w.x.val + 1)

namespace Machine

def Reaches (m : Machine) (w : Word) (a : Nat) : Prop :=
  ∃ n, w.Accesses n ∧ m.index.toNat ≤ a ∧ a < m.index.toNat + n

def accessed (m : Machine) (n : Nat) : Except FaultCause Transfer :=
  if m.index.toNat + n ≤ 4096 then .ok .next else .error (.memoryOutOfBounds m.index (UInt64.ofNat n))

variable {m : Machine} {w : Word} {n : Nat}

theorem accesses_le (h : w.Accesses n) : n ≤ 16 := by
  cases h <;> omega

theorem accesses_zero (h : w.Accesses n) (hn : n = 0) : w.family = 0xd ∧ w.n.val = 0 := by
  cases h with
  | draw hf => exact ⟨hf, hn⟩
  | storeDecimal | storeRegisters | loadRegisters => cases hn

theorem accessed_eq_error_iff {c : FaultCause} :
    m.accessed n = .error c ↔
      4096 < m.index.toNat + n ∧ c = .memoryOutOfBounds m.index (UInt64.ofNat n) := by
  unfold accessed
  split
  · next h => exact iff_of_false nofun fun hc => Nat.not_lt.2 h hc.1
  · next h => rw [Except.error.injEq, eq_comm, and_iff_right (Nat.not_le.1 h)]

theorem fst_write (m : Machine) (data : List UInt8) : (m.write data).1 = m.accessed data.length := by
  by_cases h : m.index.toNat + data.length ≤ 4096
  · simp only [write, Memory.write, accessed, if_pos h]
  · simp only [write, Memory.write, accessed, if_neg h]

theorem slice_accessed (m : Machine) (hn : n ≤ 16) :
    (∃ bytes, m.memory.slice m.index (UInt64.ofNat n) = .ok bytes ∧ m.accessed n = .ok .next) ∨
      ∃ c, m.memory.slice m.index (UInt64.ofNat n) = .error c ∧ m.accessed n = .error c := by
  have hlen : (UInt64.ofNat n).toNat = n := by
    rw [UInt64.toNat_ofNat']
    omega
  simp only [accessed, Memory.slice, Memory.accessible_iff, hlen]
  split
  · exact .inl ⟨_, rfl, rfl⟩
  · exact .inr ⟨_, rfl, rfl⟩

theorem execute_accesses (h : w.Accesses n) : (m.execute (.decode w)).1 = m.accessed n := by
  cases h with
  | draw hf =>
      rw [(Word.Fits.draw hf).decode_eq, execute]
      obtain ⟨bytes, hs, ha⟩ | ⟨c, hs, ha⟩ := m.slice_accessed (Nat.le_of_lt w.n.isLt)
      · rw [hs, ha]
      · rw [hs, ha]
  | storeDecimal hf hk =>
      rw [(Word.Fits.storeDecimal hf hk).decode_eq]
      exact m.fst_write _
  | storeRegisters hf hk =>
      rw [(Word.Fits.storeRegisters hf hk).decode_eq, ← m.length_registersTo]
      exact m.fst_write _
  | loadRegisters hf hk =>
      rw [(Word.Fits.loadRegisters hf hk).decode_eq, execute]
      obtain ⟨bytes, hs, ha⟩ | ⟨c, hs, ha⟩ := m.slice_accessed w.x.isLt
      · rw [hs, ha]
      · rw [hs, ha]

theorem exists_accesses {addr : UInt16} {len : UInt64}
    (h : (m.execute (.decode w)).1 = .error (.memoryOutOfBounds addr len)) : ∃ n, w.Accesses n := by
  rcases w.fits_decode with hw | hw
  · generalize Instruction.decode w = i at h hw
    cases hw with
    | draw hf => exact ⟨_, .draw hf⟩
    | storeDecimal hf hk => exact ⟨_, .storeDecimal hf hk⟩
    | storeRegisters hf hk => exact ⟨_, .storeRegisters hf hk⟩
    | loadRegisters hf hk => exact ⟨_, .loadRegisters hf hk⟩
    | ret =>
        simp only [execute] at h
        split at h
        · cases h
        · next hp =>
            obtain ⟨-, -, rfl⟩ := ReturnStack.pop_error hp
            cases h
    | call =>
        simp only [execute] at h
        split at h
        · cases h
        · next hp =>
            obtain ⟨-, -, rfl⟩ := ReturnStack.push_error hp
            cases h
    | _ => cases h
  · rw [hw] at h
    cases h

theorem execute_error_iff {addr : UInt16} {len : UInt64} :
    (m.execute (.decode w)).1 = .error (.memoryOutOfBounds addr len) ↔
      ∃ n, w.Accesses n ∧ 4096 < m.index.toNat + n ∧ addr = m.index ∧ len = UInt64.ofNat n := by
  constructor
  · intro h
    obtain ⟨n, hn⟩ := exists_accesses h
    rw [execute_accesses hn, accessed_eq_error_iff] at h
    obtain ⟨hpast, hc⟩ := h
    cases hc
    exact ⟨n, hn, hpast, rfl, rfl⟩
  · rintro ⟨n, hn, hpast, rfl, rfl⟩
    rw [execute_accesses hn, accessed_eq_error_iff]
    exact ⟨hpast, rfl⟩

theorem accesses_of_fault {addr : UInt16} {len : UInt64} (hn : w.Accesses n)
    (he : (m.execute (.decode w)).1 = .error (.memoryOutOfBounds addr len)) : n = len.toNat := by
  have hle := accesses_le hn
  rw [execute_accesses hn, accessed_eq_error_iff] at he
  obtain ⟨-, hc⟩ := he
  cases hc
  rw [UInt64.toNat_ofNat']
  omega

theorem exists_past_iff : (∃ n, w.Accesses n ∧ 4096 < m.index.toNat + n) ↔
    (∃ a, m.Reaches w a ∧ 4096 ≤ a) ∨ (w.family = 0xd ∧ w.n.val = 0 ∧ 4096 < m.index.toNat) := by
  constructor
  · rintro ⟨n, hn, hpast⟩
    cases n with
    | zero =>
        obtain ⟨hf, hzero⟩ := accesses_zero hn rfl
        exact .inr ⟨hf, hzero, hpast⟩
    | succ n => exact .inl ⟨m.index.toNat + n, ⟨n + 1, hn, by omega, by omega⟩, by omega⟩
  · rintro (⟨a, ⟨n, hn, -, hlt⟩, ha⟩ | ⟨hf, hzero, hpast⟩)
    · exact ⟨n, hn, by omega⟩
    · exact ⟨w.n.val, .draw hf, by omega⟩

theorem faulted_iff {c : FaultCause} (hm : m.mode = .running) (hf : m.memory.fetch m.pc = .ok w) :
    (∃ f, m.step.1 = .faulted f ∧ f.cause = c) ↔ (m.execute (.decode w)).1 = .error c := by
  obtain ⟨c', he, hs⟩ | ⟨flow, s, he, hs⟩ := step_fetched hm hf
  · rw [he, hs, Except.error.injEq]
    constructor
    · rintro ⟨f, hfault, rfl⟩
      cases hfault
      rfl
    · rintro rfl
      exact ⟨_, rfl, rfl⟩
  · rw [he, hs]
    exact iff_of_false nofun nofun

theorem access_fault_iff (hm : m.mode = .running) (hf : m.memory.fetch m.pc = .ok w) :
    let past := (∃ a, m.Reaches w a ∧ 4096 ≤ a) ∨ (w.family = 0xd ∧ w.n.val = 0 ∧ 4096 < m.index.toNat)
    ((∃ f addr len, m.step.1 = .faulted f ∧ f.cause = .memoryOutOfBounds addr len) ↔ past) ∧
      (∀ f addr len, m.step.1 = .faulted f → f.cause = .memoryOutOfBounds addr len →
        addr = m.index ∧ ∀ n, w.Accesses n ↔ n = len.toNat) ∧
      ∀ n, w.Accesses n → ¬ past → m.step.1 = .executed (.decode w) := by
  intro past
  refine ⟨⟨?_, ?_⟩, ?_, ?_⟩
  · rintro ⟨f, addr, len, hs, hc⟩
    obtain ⟨n, hn, hpast, -⟩ := execute_error_iff.1 ((faulted_iff hm hf).1 ⟨f, hs, hc⟩)
    exact exists_past_iff.1 ⟨n, hn, hpast⟩
  · intro h
    obtain ⟨n, hn, hpast⟩ := exists_past_iff.2 h
    obtain ⟨f, hs, hc⟩ := (faulted_iff hm hf).2 (execute_error_iff.2 ⟨n, hn, hpast, rfl, rfl⟩)
    exact ⟨f, _, _, hs, hc⟩
  · intro f addr len hs hc
    have he := (faulted_iff hm hf).1 ⟨f, hs, hc⟩
    obtain ⟨n, hn, -, rfl, -⟩ := execute_error_iff.1 he
    obtain rfl := accesses_of_fault hn he
    refine ⟨rfl, fun k => ⟨fun hk => accesses_of_fault hk he, ?_⟩⟩
    rintro rfl
    exact hn
  · intro n hn hnot
    obtain ⟨c, he, -⟩ | ⟨flow, s, -, hs⟩ := step_fetched hm hf
    · have hc := congrArg Prod.fst he
      rw [execute_accesses hn, accessed_eq_error_iff] at hc
      exact absurd (exists_past_iff.1 ⟨n, hn, hc.1⟩) hnot
    · rw [hs]

theorem access_fault_iff_last_byte :
    let m := ((ofSettings {} (by decide) (.ofSeed 0)).load [0xaf, 0xf1, 0xff, 0x55]).2.step.2
    m.Reaches 0xff55 4096 ∧
      ∃ f len, m.step.1 = .faulted f ∧ f.cause = .memoryOutOfBounds 0xff1 len ∧ len.toNat = 16 := by
  intro m
  have hstart : m.mode = .running ∧ m.memory.fetch m.pc = .ok 0xff55 ∧ m.index = 0xff1 := by decide +kernel
  clear_value m
  obtain ⟨hm, hf, hindex⟩ := hstart
  have haccess : Word.Accesses 0xff55 16 := .storeRegisters (by decide) (by decide)
  have hreach : m.Reaches 0xff55 4096 := ⟨16, haccess, by rw [hindex]; decide, by rw [hindex]; decide⟩
  obtain ⟨hiff, hnames, -⟩ := access_fault_iff hm hf
  obtain ⟨f, addr, len, hs, hc⟩ := hiff.2 (.inl ⟨4096, hreach, Nat.le_refl _⟩)
  obtain ⟨rfl, hlen⟩ := hnames f addr len hs hc
  exact ⟨hreach, f, len, hs, hindex ▸ hc, ((hlen 16).1 haccess).symm⟩

theorem draw_without_rows_faults :
    let fresh := ofSettings {} (by decide) (.ofSeed 0)
    let m := (fresh.load [0xaf, 0xff, 0x60, 0x02, 0xf0, 0x1e, 0xd1, 0x20]).2.step.2.step.2.step.2
    (∀ a, ¬ m.Reaches 0xd120 a) ∧ m.mode = .running ∧ m.memory.fetch m.pc = .ok 0xd120 ∧
      m.step.1 = .faulted ⟨.memoryOutOfBounds 0x1001 0, 0x206, some 0xd120⟩ := by
  intro fresh m
  refine ⟨?_, by decide +kernel⟩
  rintro a ⟨n, hn, hle, hlt⟩
  cases hn with
  | draw => exact Nat.not_lt.2 hle hlt
  | storeDecimal hf | storeRegisters hf | loadRegisters hf => cases hf

end Machine

end Chip8
