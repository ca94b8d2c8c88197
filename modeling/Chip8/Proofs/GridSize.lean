import Chip8.Proofs.Bounds
import Chip8.Proofs.DoubleDraw

namespace Chip8.Machine

variable {m : Machine} {x y : Register} {rows : Fin 16}

def sprite (m : Machine) (rows : Nat) : List UInt8 :=
  (List.range rows).map fun k => m.memory.peek (m.index.toNat + k)

theorem step_of_executed_draw (h : m.step.1 = .executed (.draw x y rows)) :
    m.step.2 = m.drawn x y (m.sprite rows.val) := by
  obtain ⟨w, -, -, hm, hf, hw, -, -⟩ := step_executed h
  exact congrArg Prod.snd (step_draw hm hf hw.symm (sprite_of_executed h))

theorem get_of_executed_draw (hw : 0 < m.screen.width) (hh : 0 < m.screen.height)
    (h : m.step.1 = .executed (.draw x y rows)) {column line : UInt64} (hc : column < m.screen.width)
    (hl : line < m.screen.height) :
    m.step.2.screen.get column line = (m.screen.get column line ^^
      decide (m.screen.hits (m.v x).toUInt64 (m.v y).toUInt64 (m.sprite rows.val) column line % 2 = 1)) := by
  have hlength : (m.sprite rows.val).length ≤ 16 := by
    rw [sprite, List.length_map, List.length_range]
    omega
  rw [step_of_executed_draw h]
  exact Screen.get_draw hw hh (byte_add_lt (m.v x) (by decide : 7 ≤ 16)) (byte_add_lt (m.v y) hlength) hc hl

theorem grid_of_accepted_settings {s : Settings} (hs : s.validate = .ok ()) (fallback : RandomSource) :
    ((∃ fresh, boot s fallback = .ok fresh) ↔ s.width.toNat * s.height.toNat < 9223372036854775808) ∧
    ∀ fresh, boot s fallback = .ok fresh → ∀ rs : List Request,
      let m := fresh.afterAll rs
      m.screen.pixels.size = s.width.toNat * s.height.toNat ∧
      (∀ column < s.width, ∀ line < s.height,
        Checked.getPixel m.screen column line = some (m.screen.get column line)) ∧
      ∀ x y rows, m.step.1 = .executed (.draw x y rows) →
        Checked.step m = some m.step ∧
        ∀ column < s.width, ∀ line < s.height,
          m.step.2.screen.get column line = (m.screen.get column line ^^ decide
            (m.screen.hits (m.v x).toUInt64 (m.v y).toUInt64 (m.sprite rows.val) column line % 2 = 1)) := by
  obtain ⟨-, -, hwidth, hheight, -⟩ := Settings.validate_ok hs
  refine ⟨⟨?_, fun hlt => exists_boot hs fallback (Nat.le_of_lt_succ hlt)⟩, fun fresh hboot => ?_⟩
  · rintro ⟨fresh, hboot⟩
    obtain ⟨hfits, -⟩ := eq_of_boot hboot
    exact Nat.lt_succ_of_le hfits
  · obtain ⟨hfits, rfl⟩ := eq_of_boot hboot
    intro rs m
    have hb : Bounded s m := afterAll_induction bounded_change (bounded_ofSettings hs hfits _) rs
    have hw : 0 < m.screen.width := UInt64.pos_iff_ne_zero.2 (hb.width ▸ hwidth)
    have hh : 0 < m.screen.height := UInt64.pos_iff_ne_zero.2 (hb.height ▸ hheight)
    refine ⟨?_, fun column _ line _ => Checked.getPixel_eq m.screen column line, fun x y rows hexec => ?_⟩
    · rw [m.screen.size_eq, hb.width, hb.height]
    · refine ⟨Checked.step_eq m, fun column hc line hl => ?_⟩
      exact get_of_executed_draw hw hh hexec (hb.width ▸ hc) (hb.height ▸ hl)

theorem grid_of_accepted_settings_narrow :
    let s : Settings := { width := 3, height := 5 }
    let fresh := ofSettings s (by decide) (.ofSeed 0)
    let m := fresh.afterAll [.load [0xa0, 0x50, 0xd0, 0x05], .event .step]
    m.screen.pixels.size = 15 ∧ m.step.2.screen.get 0 0 = false ∧ m.step.2.screen.get 1 0 = true := by
  intro s fresh m
  obtain ⟨-, hgrid⟩ := grid_of_accepted_settings (s := s) rfl (.ofSeed 0)
  obtain ⟨hsize, -, hdraw⟩ :=
    hgrid fresh (boot_eq rfl _ _) [.load [0xa0, 0x50, 0xd0, 0x05], .event .step]
  have hrun : m.step.1 = .executed (.draw .zero .zero ⟨5, by decide⟩) ∧
      (m.screen.get 0 0 ^^ decide
        (m.screen.hits (m.v .zero).toUInt64 (m.v .zero).toUInt64 (m.sprite 5) 0 0 % 2 = 1)) = false ∧
      (m.screen.get 1 0 ^^ decide
        (m.screen.hits (m.v .zero).toUInt64 (m.v .zero).toUInt64 (m.sprite 5) 1 0 % 2 = 1)) = true := by
    decide +kernel
  obtain ⟨hexec, hfirst, hsecond⟩ := hrun
  obtain ⟨-, hcell⟩ := hdraw .zero .zero ⟨5, by decide⟩ hexec
  exact ⟨hsize, (hcell 0 (by decide) 0 (by decide)).trans hfirst,
    (hcell 1 (by decide) 0 (by decide)).trans hsecond⟩

theorem boot_of_wide_sides :
    let s : Settings := { width := 4294967296, height := 4294967296 }
    s.validate = .ok () ∧ boot s (.ofSeed 1) = .error .tooManyCells ∧
      ¬ ∃ fresh, boot s (.ofSeed 1) = .ok fresh ∧
        fresh.screen.pixels.size = s.width.toNat * s.height.toNat := by
  intro s
  have hboot : boot s (.ofSeed 1) = .error .tooManyCells := boot_of_not_fits rfl (by decide) _
  refine ⟨rfl, hboot, ?_⟩
  rintro ⟨fresh, hfresh, -⟩
  rw [hboot] at hfresh
  cases hfresh

end Chip8.Machine
