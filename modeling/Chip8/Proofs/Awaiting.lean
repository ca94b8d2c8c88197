import Chip8.Proofs.Request

namespace Chip8.Machine

variable {m s : Machine} {v : Option Visit} {origin : UInt16} {w : Word}

theorem fetch_blank (h : 0xa0 ≤ m.pc.toNat) (hf : (Memory.blank origin).fetch m.pc = .ok w) : w = 0 := by
  obtain ⟨-, rfl⟩ := Memory.fetch_eq_ok_iff.1 hf
  rw [Memory.peek_blank origin h, Memory.peek_blank origin (Nat.le_succ_of_le h)]
  rfl

structure Parked (origin : UInt16) (m : Machine) : Prop where
  unloaded : m.memory.hasProgram = false →
    m.memory = .blank origin ∧ m.mode = .running ∧ origin.toNat ≤ m.pc.toNat
  awaiting : ∀ x, m.mode = .awaitingKey x →
    ∃ w, m.memory.fetch m.pc = .ok w ∧ Instruction.decode w = .waitKey x

theorem Parked.loaded (hp : Parked origin m) {x : Register} (hm : m.mode = .awaitingKey x) :
    m.memory.hasProgram = true := by
  rw [← Bool.not_eq_false]
  intro h
  obtain ⟨-, hr, -⟩ := hp.unloaded h
  rw [hm] at hr
  cases hr

theorem hasProgram_follow {i : Instruction} {flow : Transfer} (he : m.execute i = (.ok flow, s)) :
    (s.follow m.pc flow).memory.hasProgram = m.memory.hasProgram := by
  have hk := frame_execute he
  have hm : (s.follow m.pc flow).memory = s.memory := by cases flow <;> rfl
  rw [hm, Memory.hasProgram, hk.origin, hk.stop, Memory.hasProgram]

theorem awaiting_follow {i : Instruction} {flow : Transfer} {x : Register}
    (he : m.execute i = (.ok flow, s)) (hm : m.mode = .running)
    (hx : (s.follow m.pc flow).mode = .awaitingKey x) :
    i = .waitKey x ∧ s.follow m.pc flow = { m with mode := .awaitingKey x } := by
  have hmode := (frame_execute he).mode
  cases leads_execute he with
  | wait hs =>
      cases hx
      rw [hs]
      exact ⟨rfl, rfl⟩
  | ret | call | jump | next | skip =>
      have : s.mode = .awaitingKey x := hx
      rw [hmode, hm] at this
      cases this

theorem parked_executed (ho : 0xa0 ≤ origin.toNat) {flow : Transfer} (hm : m.mode = .running)
    (hf : m.memory.fetch m.pc = .ok w) (he : m.execute (.decode w) = (.ok flow, s)) (hp : Parked origin m) :
    Parked origin (s.follow m.pc flow) where
  unloaded := by
    intro hfree
    rw [hasProgram_follow he] at hfree
    obtain ⟨hblank, -, hpc⟩ := hp.unloaded hfree
    have hnext := toNat_next hf
    rw [hblank] at hf
    obtain rfl := fetch_blank (Nat.le_trans ho hpc) hf
    cases he
    refine ⟨hblank, hm, Nat.le_trans hpc ?_⟩
    show m.pc.toNat ≤ (m.pc + 2).toNat
    omega
  awaiting := by
    intro x hx
    obtain ⟨hw, hs⟩ := awaiting_follow he hm hx
    rw [hs]
    exact ⟨w, hf, hw⟩

theorem parked_change (ho : 0xa0 ≤ origin.toNat) (h : Change m v s) (hp : Parked origin m) :
    Parked origin s := by
  cases h with
  | none => exact hp
  | @loaded program hfree hne hfit =>
      obtain ⟨-, hrun, -⟩ := hp.unloaded hfree
      have hpos := List.length_pos_iff.2 hne
      refine ⟨?_, ?_⟩
      · intro hstill
        simp only [Memory.hasProgram, decide_eq_false_iff_not, gt_iff_lt, UInt16.lt_iff_toNat_lt,
          UInt16.toNat_ofNat'] at hstill
        omega
      · intro x hx
        have : m.mode = .awaitingKey x := hx
        rw [hrun] at this
        cases this
  | ticked => exact ⟨hp.unloaded, hp.awaiting⟩
  | sensed => exact ⟨hp.unloaded, hp.awaiting⟩
  | woken hm =>
      refine ⟨?_, nofun⟩
      intro hfree
      have : m.memory.hasProgram = false := hfree
      rw [hp.loaded hm] at this
      cases this
  | executed hm hf he => exact parked_executed ho hm hf he hp

theorem parked_ofSettings (s : Settings) (hfits : Screen.Fits s.width s.height) (random : RandomSource) :
    Parked s.origin (ofSettings s hfits random) where
  unloaded := fun _ => ⟨rfl, rfl, Nat.le_refl _⟩
  awaiting := nofun

theorem awaiting_on_waitKey {s : Settings} (hs : s.validate = .ok ()) (fallback : RandomSource) :
    (Screen.Fits s.width s.height → ∃ fresh, boot s fallback = .ok fresh) ∧
    ∀ fresh, boot s fallback = .ok fresh → ∀ rs x, (fresh.afterAll rs).mode = .awaitingKey x →
      x.val < 16 ∧ (fresh.afterAll rs).memory.hasProgram = true ∧ (fresh.afterAll rs).pc.toNat ≤ 0xffe ∧
        ∃ w, (fresh.afterAll rs).memory.fetch (fresh.afterAll rs).pc = .ok w ∧
          Instruction.decode w = .waitKey x := by
  refine ⟨exists_boot hs fallback, fun fresh hboot => ?_⟩
  obtain ⟨hfits, rfl⟩ := eq_of_boot hboot
  intro rs x hx
  obtain ⟨ho, -⟩ := Settings.validate_ok hs
  have hp := afterAll_induction (parked_change ho) (parked_ofSettings s hfits (s.seed.elim fallback .ofSeed)) rs
  obtain ⟨w, hf, hw⟩ := hp.awaiting x hx
  obtain ⟨hpc, -⟩ := Memory.fetch_eq_ok_iff.1 hf
  exact ⟨x.isLt, hp.loaded hx, by omega, w, hf, hw⟩

theorem awaiting_on_waitKey_late :
    let fresh := ofSettings {} (by decide) (.ofSeed 0)
    let rs : List Request :=
      [.event .step, .load [0x00, 0xe0, 0xf5, 0x0a], .event .step, .load [0x12, 0x00], .event .interrupt]
    (fresh.afterAll rs).pc = 0x202 ∧ ∃ w, (fresh.afterAll rs).memory.fetch 0x202 = .ok w ∧
      Instruction.decode w = .waitKey ⟨5, by decide⟩ := by
  intro fresh rs
  obtain ⟨-, hm⟩ := awaiting_on_waitKey (s := {}) rfl (.ofSeed 0)
  have hend : (fresh.afterAll rs).pc = 0x202 ∧ (fresh.afterAll rs).mode = .awaitingKey ⟨5, by decide⟩ := by
    decide +kernel
  obtain ⟨hpc, hwait⟩ := hend
  obtain ⟨-, -, -, w, hf, hw⟩ := hm fresh (boot_eq rfl _ _) rs _ hwait
  exact ⟨hpc, w, hpc ▸ hf, hw⟩

end Chip8.Machine
