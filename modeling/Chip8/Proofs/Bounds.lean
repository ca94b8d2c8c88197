import Chip8.Proofs.Checked
import Chip8.Proofs.Request

namespace Chip8.Machine

variable {settings : Settings} {m s : Machine} {v : Option Visit}

structure Bounded (settings : Settings) (m : Machine) : Prop where
  pc : m.pc.toNat ≤ 0x10fe
  awaiting : ∀ x, m.mode = .awaitingKey x → m.pc.toNat ≤ 0xffe
  returns : ∀ a ∈ m.stack.entries, a.toNat ≤ 0x1000
  origin : m.memory.origin = settings.origin
  program : m.memory.origin.toNat ≤ m.memory.stop.toNat
  top : m.memory.stop.toNat ≤ 4096
  width : m.screen.width = settings.width
  height : m.screen.height = settings.height

theorem bounded_follow {i : Instruction} {flow : Transfer} (hpc : m.pc.toNat + 1 < 4096)
    (hm : m.mode = .running) (he : m.execute i = (.ok flow, s)) (hb : Bounded settings m) :
    Bounded settings (s.follow m.pc flow) := by
  obtain ⟨horigin, hstop, hwidth, hheight, -, hmode⟩ := frame_execute he
  have hback : (m.pc + 2).toNat = m.pc.toNat + 2 := Word.toNat_add_ofNat (k := 2) (by omega)
  have hover : (m.pc + 4).toNat = m.pc.toNat + 4 := Word.toNat_add_ofNat (k := 4) (by omega)
  have hkeep : ∀ pc : UInt16, pc.toNat ≤ 0x10fe → (∀ a ∈ s.stack.entries, a.toNat ≤ 0x1000) →
      Bounded settings { s with pc := pc } := by
    intro pc hle hreturns
    refine ⟨hle, ?_, hreturns, ?_, ?_, ?_, ?_, ?_⟩
    · intro x hx
      have : s.mode = .awaitingKey x := hx
      rw [hmode, hm] at this
      cases this
    · exact horigin.trans hb.origin
    · exact horigin ▸ hstop ▸ hb.program
    · exact hstop ▸ hb.top
    · exact hwidth.trans hb.width
    · exact hheight.trans hb.height
  cases leads_execute he with
  | ret hpop =>
      have hin := hb.returns
      rw [hpop] at hin
      have := hin _ List.mem_cons_self
      exact hkeep _ (by omega) fun a ha => hin a (List.mem_cons_of_mem _ ha)
  | @call target hroom hpush =>
      refine hkeep _ (by rw [Address.toNat_toWord]; omega) ?_
      intro a ha
      rw [hpush] at ha
      rcases List.mem_cons.1 ha with rfl | ha
      · omega
      · exact hb.returns a ha
  | wait hs =>
      rw [hs]
      exact ⟨hb.pc, fun _ _ => show m.pc.toNat ≤ 0xffe by omega, hb.returns, hb.origin, hb.program, hb.top,
        hb.width, hb.height⟩
  | jump hi hs hle => exact hkeep _ hle (hs ▸ hb.returns)
  | next hi hs => exact hkeep _ (by omega) (hs ▸ hb.returns)
  | skip hi hs => exact hkeep _ (by omega) (hs ▸ hb.returns)

theorem bounded_change (h : Change m v s) (hb : Bounded settings m) : Bounded settings s := by
  cases h with
  | none => exact hb
  | @loaded program hfree hne hfit =>
      have hstop : (UInt16.ofNat (m.memory.origin.toNat + program.length)).toNat =
          m.memory.origin.toNat + program.length := by
        rw [UInt16.toNat_ofNat']
        omega
      refine ⟨hb.pc, hb.awaiting, hb.returns, hb.origin, ?_, ?_, hb.width, hb.height⟩
      · show m.memory.origin.toNat ≤ (UInt16.ofNat _).toNat
        omega
      · show (UInt16.ofNat _).toNat ≤ _
        omega
  | ticked => exact ⟨hb.pc, hb.awaiting, hb.returns, hb.origin, hb.program, hb.top, hb.width, hb.height⟩
  | sensed => exact ⟨hb.pc, hb.awaiting, hb.returns, hb.origin, hb.program, hb.top, hb.width, hb.height⟩
  | woken hm =>
      have hpc := hb.awaiting _ hm
      have hnext : (m.pc + 2).toNat = m.pc.toNat + 2 := Word.toNat_add_ofNat (k := 2) (by omega)
      refine ⟨?_, nofun, hb.returns, hb.origin, hb.program, hb.top, hb.width, hb.height⟩
      show (m.pc + 2).toNat ≤ _
      omega
  | executed hm hf he => exact bounded_follow (Memory.fetch_eq_ok_iff.1 hf).1 hm he hb

theorem bounded_ofSettings (hs : settings.validate = .ok ()) (hfits : Screen.Fits settings.width settings.height)
    (random : RandomSource) : Bounded settings (ofSettings settings hfits random) := by
  obtain ⟨-, ho, -⟩ := Settings.validate_ok hs
  refine ⟨?_, nofun, nofun, rfl, Nat.le_refl _, ?_, rfl, rfl⟩
  · show settings.origin.toNat ≤ _
    omega
  · show settings.origin.toNat ≤ _
    omega

theorem perform_checked (hb : Bounded settings m) (r : Request) : Checked.perform m r = some (m.perform r) := by
  cases r with
  | load program =>
      rw [Checked.perform, Checked.load_eq]
      rfl
  | loadFrom source =>
      rw [Checked.perform, Checked.loadFrom_eq]
      rfl
  | event e =>
      cases e with
      | step =>
          rw [Checked.perform, Checked.step_eq]
          rfl
      | interrupt => rfl
      | sense now =>
          rw [Checked.perform, Checked.sense_eq hb.awaiting]
          rfl
  | dump =>
      rw [Checked.perform, Checked.dump_eq]
      rfl
  | disassemble =>
      rw [Checked.perform, Checked.items_eq (show m.memory.stop.toNat ≤ 4096 from hb.top)]
      rfl

theorem performAll_checked (hb : Bounded settings m) (rs : List Request) :
    Checked.performAll m rs = some (m.responses rs, m.afterAll rs) := by
  induction rs generalizing m with
  | nil => rfl
  | cons r rs ih =>
      rw [Checked.performAll, perform_checked hb r]
      show (Checked.performAll (m.perform r).2 rs).bind _ = _
      rw [ih (bounded_change (m.change_perform r) hb)]
      rfl

theorem bounds_and_checked_run {s : Settings} (hs : s.validate = .ok ()) (fallback : RandomSource) :
    (Screen.Fits s.width s.height → ∃ fresh, boot s fallback = .ok fresh) ∧
    ∀ fresh, boot s fallback = .ok fresh → ∀ rs : List Request,
      let m := fresh.afterAll rs
      Checked.performAll fresh rs = some (fresh.responses rs, m) ∧
      (∀ x y, Checked.getPixel m.screen x y = some (m.screen.get x y)) ∧
      m.pc.toNat ≤ 0x10fe ∧ (∀ x, m.mode = .awaitingKey x → m.pc.toNat ≤ 0xffe) ∧
      m.stack.depth ≤ 16 ∧ (∀ a ∈ m.stack.entries, a.toNat ≤ 0x1000) ∧
      m.memory.bytes.toList.length = 4096 ∧
      m.screen.pixels.size = s.width.toNat * s.height.toNat ∧
      m.memory.origin = s.origin ∧ s.origin.toNat ≤ m.memory.stop.toNat ∧
      m.memory.stop.toNat ≤ 4096 := by
  refine ⟨exists_boot hs fallback, fun fresh hboot => ?_⟩
  obtain ⟨hfits, rfl⟩ := eq_of_boot hboot
  intro rs m
  have hfresh := bounded_ofSettings hs hfits (s.seed.elim fallback .ofSeed)
  have hb : Bounded s m := afterAll_induction bounded_change hfresh rs
  refine ⟨performAll_checked hfresh rs, Checked.getPixel_eq m.screen, hb.pc, hb.awaiting,
    m.stack.depth_le, hb.returns, Vector.length_toList, ?_, hb.origin, hb.origin ▸ hb.program, hb.top⟩
  rw [m.screen.size_eq, hb.width, hb.height]

theorem bounds_and_checked_run_past_memory :
    let fresh := ofSettings {} (by decide) (.ofSeed 0)
    let rs : List Request := [.load [0x60, 0xff, 0xbf, 0xff, 0x00], .event .step, .event .step, .disassemble,
      .event .step]
    (fresh.afterAll rs).pc = 0x10fe ∧ (fresh.afterAll rs).screen.pixels.size = 2048 ∧
      Checked.performAll fresh rs = some (fresh.responses rs, fresh.afterAll rs) := by
  intro fresh rs
  obtain ⟨-, hm⟩ := bounds_and_checked_run (s := {}) rfl (.ofSeed 0)
  obtain ⟨hrun, -, -, -, -, -, -, hsize, -⟩ := hm fresh (boot_eq rfl _ _) rs
  exact ⟨by decide +kernel, hsize, hrun⟩

end Chip8.Machine
