import Chip8.Proofs.Drawing
import Chip8.Proofs.Step

namespace Chip8

namespace Screen

variable {f : Screen} {x y : UInt64} {sprite : List UInt8} (hw : 8 ≤ f.width) (hh : 0 < f.height)
  (hx : x.toNat + 7 < 18446744073709551616)
  (hy : y.toNat + sprite.length < 18446744073709551616) (hrows : sprite.length ≤ f.height.toNat)

include hw hh hx hy hrows

theorem draw_draw_hit_iff_unlit :
    ((f.draw x y sprite).2.draw x y sprite).1 = true ↔
      ∃ column line, column < f.width ∧ line < f.height ∧
        1 ≤ f.hits x y sprite column line ∧ f.get column line = false := by
  have hw0 : 0 < f.width := UInt64.lt_of_lt_of_le (by decide) hw
  have hiff := draw_hit_iff_lit (f := (f.draw x y sprite).2) (by rwa [draw_width]) (by rwa [draw_height])
    hx hy (by rwa [draw_width]) (by rwa [draw_height])
  simp only [draw_width, draw_height, hits_draw] at hiff
  rw [hiff]
  apply exists_congr
  intro column
  apply exists_congr
  intro line
  apply and_congr_right
  intro hc
  apply and_congr_right
  intro hl
  apply and_congr_right
  intro hpos
  rw [get_draw_of_hit hw0 hh hx hy hw hrows hc hl hpos, Bool.not_eq_true']

theorem hit_or_hit (hbits : setBits sprite ≠ []) :
    (f.draw x y sprite).1 = true ∨ ((f.draw x y sprite).2.draw x y sprite).1 = true := by
  have hw0 : 0 < f.width := UInt64.lt_of_lt_of_le (by decide) hw
  obtain ⟨bit, hbit⟩ := List.exists_mem_of_ne_nil _ hbits
  obtain ⟨column, line, hc, hl, hpos⟩ := exists_hits hw0 hh hx hy hbit
  rw [draw_hit_iff_lit hw0 hh hx hy hw hrows, draw_draw_hit_iff_unlit hw hh hx hy hrows]
  cases hlit : f.get column line with
  | true => exact .inl ⟨column, line, hc, hl, hpos, hlit⟩
  | false => exact .inr ⟨column, line, hc, hl, hpos, hlit⟩

end Screen

namespace Machine

variable {m : Machine} {w : Word} {x y : Register} {rows : Fin 16} {sprite : List UInt8}

def drawn (m : Machine) (x y : Register) (sprite : List UInt8) : Machine :=
  let (hit, screen) := m.screen.draw (m.v x).toUInt64 (m.v y).toUInt64 sprite
  { m.setV .flag (if hit then 1 else 0) with
    screen
    pc := m.pc + 2 }

theorem v_flag_drawn (m : Machine) (x y : Register) (sprite : List UInt8) :
    (m.drawn x y sprite).v .flag =
      if (m.screen.draw (m.v x).toUInt64 (m.v y).toUInt64 sprite).1 then 1 else 0 :=
  m.v_setV .flag _

theorem v_flag_drawn_eq_one_iff : (m.drawn x y sprite).v .flag = 1 ↔
    (m.screen.draw (m.v x).toUInt64 (m.v y).toUInt64 sprite).1 = true := by
  rw [v_flag_drawn]
  split
  · next h => simp only [h]
  · next h => simp [h]

theorem v_drawn (hx : x ≠ .flag) (z y : Register) : (m.drawn z y sprite).v x = m.v x :=
  m.v_setV_of_ne hx.symm _

theorem drawn_drawn (hx : x ≠ .flag) (hy : y ≠ .flag) (m : Machine) (sprite : List UInt8) :
    (m.drawn x y sprite).drawn x y sprite =
      { m.setV .flag (((m.drawn x y sprite).drawn x y sprite).v .flag) with pc := m.pc + 4 } := by
  have hscreen : ((m.drawn x y sprite).drawn x y sprite).screen = m.screen := by
    show ((m.drawn x y sprite).screen.draw ((m.drawn x y sprite).v x).toUInt64
      ((m.drawn x y sprite).v y).toUInt64 sprite).2 = m.screen
    rw [v_drawn hx, v_drawn hy]
    exact m.screen.draw_draw ..
  have hpc : m.pc + 2 + 2 = m.pc + 4 := UInt16.add_assoc ..
  have hregisters : ((m.drawn x y sprite).drawn x y sprite).registers =
      (m.setV .flag (((m.drawn x y sprite).drawn x y sprite).v .flag)).registers := by
    rw [v_flag_drawn, ← m.setV_setV .flag ((m.drawn x y sprite).v .flag), v_flag_drawn m]
    rfl
  calc
    (m.drawn x y sprite).drawn x y sprite =
        { m with
          registers := ((m.drawn x y sprite).drawn x y sprite).registers
          screen := ((m.drawn x y sprite).drawn x y sprite).screen
          pc := m.pc + 2 + 2 } := rfl
    _ = { m.setV .flag (((m.drawn x y sprite).drawn x y sprite).v .flag) with pc := m.pc + 4 } := by
      rw [hscreen, hpc, hregisters]
      rfl

theorem byte_add_lt (b : UInt8) {n : Nat} (hn : n ≤ 16) : b.toUInt64.toNat + n < 18446744073709551616 := by
  have := b.toNat_lt
  rw [UInt8.toNat_toUInt64]
  omega

theorem flags_drawn (hw : 8 ≤ m.screen.width) (hh : 0 < m.screen.height)
    (hx : x ≠ .flag) (hy : y ≠ .flag) (hlength : sprite.length ≤ 16)
    (hrows : sprite.length ≤ m.screen.height.toNat) :
    let hits := m.screen.hits (m.v x).toUInt64 (m.v y).toUInt64 sprite
    ((m.drawn x y sprite).v .flag = 1 ↔
      ∃ column line, column < m.screen.width ∧ line < m.screen.height ∧
        1 ≤ hits column line ∧ m.screen.get column line = true) ∧
    (((m.drawn x y sprite).drawn x y sprite).v .flag = 1 ↔
      ∃ column line, column < m.screen.width ∧ line < m.screen.height ∧
        1 ≤ hits column line ∧ m.screen.get column line = false) ∧
    (Screen.setBits sprite ≠ [] →
      (m.drawn x y sprite).v .flag = 1 ∨ ((m.drawn x y sprite).drawn x y sprite).v .flag = 1) := by
  have hcolumn := byte_add_lt (m.v x) (by decide : 7 ≤ 16)
  have hline := byte_add_lt (m.v y) hlength
  have hsecond : ((m.drawn x y sprite).drawn x y sprite).v .flag = 1 ↔
      ((m.screen.draw (m.v x).toUInt64 (m.v y).toUInt64 sprite).2.draw (m.v x).toUInt64 (m.v y).toUInt64
        sprite).1 = true := by
    rw [v_flag_drawn_eq_one_iff, v_drawn hx, v_drawn hy]
    rfl
  have hw0 : 0 < m.screen.width := UInt64.lt_of_lt_of_le (by decide) hw
  rw [hsecond, v_flag_drawn_eq_one_iff]
  exact ⟨Screen.draw_hit_iff_lit hw0 hh hcolumn hline hw hrows,
    Screen.draw_draw_hit_iff_unlit hw hh hcolumn hline hrows,
    Screen.hit_or_hit hw hh hcolumn hline hrows⟩

theorem sprite_of_executed (h : m.step.1 = .executed (.draw x y rows)) :
    m.memory.slice m.index (UInt64.ofNat rows.val) =
      .ok ((List.range rows.val).map fun k => m.memory.peek (m.index.toNat + k)) := by
  obtain ⟨w, flow, s, -, -, -, he, -⟩ := step_executed h
  have hrows : (UInt64.ofNat rows.val).toNat = rows.val := by
    rw [UInt64.toNat_ofNat']
    omega
  simp only [execute] at he
  split at he
  · cases he
  · next bytes hs =>
      unfold Memory.slice at hs ⊢
      split at hs
      · next hacc => rw [if_pos hacc, hrows]
      · cases hs

theorem step_draw (hm : m.mode = .running) (hf : m.memory.fetch m.pc = .ok w)
    (hw : Instruction.decode w = .draw x y rows)
    (hs : m.memory.slice m.index (UInt64.ofNat rows.val) = .ok sprite) :
    m.step = (.executed (.draw x y rows), m.drawn x y sprite) := by
  simp only [step, hm, hf, hw]
  simp only [execute, hs]
  rfl

theorem draw_twice (hm : m.mode = .running) (hfirst : m.memory.fetch m.pc = .ok w)
    (hsecond : m.memory.fetch (m.pc + 2) = .ok w) (hw : Instruction.decode w = .draw x y rows)
    (hx : x ≠ .flag) (hy : y ≠ .flag) (hexec : m.step.1 = .executed (.draw x y rows)) :
    let f := m.screen
    let once := m.step.2
    let twice := once.step.2
    let sprite := (List.range rows.val).map fun k => m.memory.peek (m.index.toNat + k)
    let hits := f.hits (m.v x).toUInt64 (m.v y).toUInt64 sprite
    once.step.1 = .executed (.draw x y rows) ∧ twice.screen = f ∧
      twice = { m.setV .flag (twice.v .flag) with pc := m.pc + 4 } ∧
      (m.pc + 4).toNat = m.pc.toNat + 4 ∧
      (8 ≤ f.width → 0 < f.height → rows.val ≤ f.height.toNat →
        (once.v .flag = 1 ↔ ∃ column line, column < f.width ∧ line < f.height ∧
          1 ≤ hits column line ∧ f.get column line = true) ∧
        (twice.v .flag = 1 ↔ ∃ column line, column < f.width ∧ line < f.height ∧
          1 ≤ hits column line ∧ f.get column line = false) ∧
        (Screen.setBits sprite ≠ [] → once.v .flag = 1 ∨ twice.v .flag = 1)) := by
  intro f once twice sprite hits
  have hslice := sprite_of_executed hexec
  have hstep := step_draw hm hfirst hw hslice
  have honce : once = m.drawn x y sprite := congrArg Prod.snd hstep
  have hstep' : once.step = (.executed (.draw x y rows), once.drawn x y sprite) := by
    rw [honce]
    exact step_draw hm hsecond hw hslice
  have htwice : twice = (m.drawn x y sprite).drawn x y sprite := by
    rw [← honce]
    exact congrArg Prod.snd hstep'
  have hback := drawn_drawn hx hy m sprite
  rw [← htwice] at hback
  refine ⟨congrArg Prod.fst hstep', ?_, hback, ?_, ?_⟩
  · rw [hback]
    rfl
  · have hpc := (Memory.fetch_eq_ok_iff.1 hfirst).1
    exact Word.toNat_add_ofNat (k := 4) (by omega)
  · intro hw8 hh hrows
    have hlength : sprite.length = rows.val := by rw [List.length_map, List.length_range]
    rw [honce, htwice]
    exact flags_drawn hw8 hh hx hy (by omega) (hlength.le.trans hrows)

theorem draw_twice_glyph :
    let fresh := ofSettings { width := 8, height := 5 } (by decide) (.ofSeed 0)
    let m := (fresh.load [0xa0, 0x50, 0xd0, 0x15, 0xd0, 0x15]).2.step.2
    m.step.2.screen ≠ m.screen ∧ m.step.2.step.2.screen = m.screen ∧ m.step.2.step.2.v .flag = 1 := by
  intro fresh m
  have hstart : m.mode = .running ∧ m.memory.fetch m.pc = .ok 0xd015 ∧
      m.memory.fetch (m.pc + 2) = .ok 0xd015 ∧
      m.step.1 = .executed (.draw .zero ⟨1, by decide⟩ ⟨5, by decide⟩) ∧
      m.step.2.screen ≠ m.screen ∧ m.step.2.v .flag = 0 := by
    decide +kernel
  have hpicture : 8 ≤ m.screen.width ∧ 0 < m.screen.height ∧
      5 ≤ m.screen.height.toNat ∧
      Screen.setBits ((List.range 5).map fun k => m.memory.peek (m.index.toNat + k)) ≠ [] := by
    decide +kernel
  have hw : Instruction.decode 0xd015 = .draw .zero ⟨1, by decide⟩ ⟨5, by decide⟩ := by decide
  clear_value m
  obtain ⟨hm, hfirst, hsecond, hexec, hchanged, hflag⟩ := hstart
  obtain ⟨hwidth, hheight, hrows, hbits⟩ := hpicture
  obtain ⟨-, hback, -, -, hflags⟩ := draw_twice hm hfirst hsecond hw (by decide) (by decide) hexec
  obtain ⟨-, -, heither⟩ := hflags hwidth hheight hrows
  refine ⟨hchanged, hback, (heither hbits).resolve_left ?_⟩
  rw [hflag]
  decide

end Machine

end Chip8
