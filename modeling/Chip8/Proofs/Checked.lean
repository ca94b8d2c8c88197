import Chip8.Machine.Checked
import Chip8.Proofs.Step

namespace Chip8.Checked

theorem add16_eq {a b : UInt16} (h : a.toNat + b.toNat < 65536) : add16 a b = some (a + b) := if_pos h

theorem add64_eq {a b : UInt64} (h : a.toNat + b.toNat < 18446744073709551616) :
    add64 a b = some (a + b) := if_pos h

theorem mod64_eq {a b : UInt64} (h : 0 < b) : mod64 a b = some (a % b) :=
  if_neg (UInt64.ne_of_lt h).symm

theorem mapM_eq_some {α β : Type} {f : α → Option β} {g : α → β} {l : List α}
    (h : ∀ a ∈ l, f a = some (g a)) : l.mapM f = some (l.map g) := by
  induction l with
  | nil => rfl
  | cons a l ih =>
      rw [List.mapM_cons, h a List.mem_cons_self, ih fun b hb => h b (List.mem_cons_of_mem a hb)]
      rfl

section Memory

variable {m : Memory} {addr : UInt16} {len : UInt64}

theorem getElem?_bytes {a : Nat} (h : a < 4096) : m.bytes[a]? = some (m.peek a) := by
  rw [Memory.peek, Vector.getElem?_eq_getElem h, Option.getD_some]

theorem read_eq {start n : Nat} (h : start + n ≤ 4096) :
    read m.bytes start n = some ((List.range n).map fun k => m.peek (start + k)) := by
  apply mapM_eq_some
  intro k hk
  have := List.mem_range.1 hk
  exact getElem?_bytes (by omega)

theorem overwrite_eq (bytes : Vector UInt8 4096) {start : Nat} {data : List UInt8}
    (h : start + data.length ≤ 4096) : overwrite bytes start data = some (Memory.patch bytes start data) := by
  induction data generalizing bytes start with
  | nil => rfl
  | cons b data ih =>
      rw [List.length_cons] at h
      rw [overwrite, Memory.patch, if_pos (by omega)]
      exact ih _ (by omega)

theorem stop_fits (addr : UInt16) (hlen : len.toNat ≤ 4096) :
    add64 addr.toUInt64 len = some (addr.toUInt64 + len) ∧
      (addr.toUInt64 + len ≤ 4096 ↔ addr.toNat + len.toNat ≤ 4096) := by
  have := addr.toNat_lt
  refine ⟨add64_eq ?_, ?_⟩
  · rw [UInt16.toNat_toUInt64]
    omega
  · simp only [UInt64.le_iff_toNat_le, UInt64.toNat_add, UInt16.toNat_toUInt64, UInt64.reduceToNat]
    omega

theorem slice_eq (m : Memory) (addr : UInt16) (hlen : len.toNat ≤ 4096) :
    slice m addr len = some (m.slice addr len) := by
  obtain ⟨hstop, hfit⟩ := stop_fits addr hlen
  simp only [slice, hstop, Option.bind_eq_bind, Option.bind_some]
  by_cases h : addr.toNat + len.toNat ≤ 4096
  · rw [if_pos (hfit.2 h), read_eq h, Memory.slice, if_pos (Memory.accessible_iff.2 h)]
    rfl
  · rw [if_neg (mt hfit.1 h), Memory.slice, if_neg (mt Memory.accessible_iff.1 h)]
    rfl

theorem byte_eq (m : Memory) (addr : UInt16) : byte m addr = some (m.byte addr) := by
  simp only [byte, slice_eq m addr (by decide : (1 : UInt64).toNat ≤ 4096), Memory.slice, Memory.byte,
    Option.bind_eq_bind, Option.bind_some]
  by_cases h : Memory.Accessible addr 1
  · simp only [if_pos h]
    rfl
  · simp only [if_neg h]
    rfl

theorem fetch_eq (m : Memory) (addr : UInt16) : fetch m addr = some (m.fetch addr) := by
  simp only [fetch, slice_eq m addr (by decide : (2 : UInt64).toNat ≤ 4096), Memory.slice, Memory.fetch,
    Option.bind_eq_bind, Option.bind_some]
  by_cases h : Memory.Accessible addr 2
  · simp only [if_pos h]
    rfl
  · simp only [if_neg h]
    rfl

theorem write_eq (m : Memory) (addr : UInt16) {data : List UInt8} (h : data.length ≤ 4096) :
    write m addr data = some (m.write addr data) := by
  have hlen : (UInt64.ofNat data.length).toNat = data.length := by
    rw [UInt64.toNat_ofNat']
    omega
  obtain ⟨hstop, hfit⟩ := stop_fits addr (hlen ▸ h)
  rw [hlen] at hfit
  simp only [write, hstop, Option.bind_eq_bind, Option.bind_some]
  by_cases hw : addr.toNat + data.length ≤ 4096
  · rw [if_pos (hfit.2 hw), overwrite_eq m.bytes hw, Memory.write, if_pos hw]
    rfl
  · rw [if_neg (mt hfit.1 hw), Memory.write, if_neg hw]
    rfl

theorem load_eq (m : Memory) (program : List UInt8) : load m program = some (m.load program) := by
  unfold load Memory.load
  split
  · rfl
  · split
    · rfl
    · next hne =>
        split
        · rfl
        · next hfit =>
            rw [List.isEmpty_iff] at hne
            have hpos := List.length_pos_iff.2 hne
            rw [Memory.capacity] at hfit
            rw [overwrite_eq m.bytes (by omega), narrow16, if_pos (by omega)]
            rfl

theorem loadFrom_eq (m : Memory) (source : ByteSource) : loadFrom m source = some (m.loadFrom source) := by
  unfold loadFrom Memory.loadFrom
  cases source.failure with
  | none => exact load_eq m source.chunks.flatten
  | some reason => rfl

theorem glyph_eq (digit : UInt8) : glyph digit = some (Memory.glyph digit) := by
  have hd : (digit &&& 0xf).toUInt16.toNat ≤ 15 := by
    rw [UInt8.toNat_toUInt16, UInt8.toNat_and]
    exact Nat.and_le_right
  have hs : Memory.glyphSize.toNat = 5 := rfl
  have hm : ((digit &&& 0xf).toUInt16 * Memory.glyphSize).toNat ≤ 75 := by
    rw [UInt16.toNat_mul, hs, Nat.mod_eq_of_lt (by omega)]
    omega
  have hstart : Memory.fontStart.toNat = 80 := rfl
  simp only [glyph, mul16, Option.bind_eq_bind]
  rw [if_pos (by rw [hs]; omega), Option.bind_some, add16_eq (by rw [hstart]; omega)]
  rfl

end Memory

theorem pop_eq (s : ReturnStack) : pop s = some s.pop := by
  obtain ⟨frames, depth, hle⟩ := s
  cases depth with
  | zero => rfl
  | succ depth =>
      unfold pop
      rw [if_neg (Nat.succ_ne_zero depth), Nat.add_sub_cancel, Vector.getElem?_eq_getElem hle]
      rfl

section Screen

variable {f : Screen}

theorem cell_eq {line column : UInt64} (hl : line < f.height) (hc : column < f.width) :
    cell f.width line column = some (line * f.width + column).toNat ∧
      (line * f.width + column).toNat < f.width.toNat * f.height.toNat := by
  obtain ⟨hmul, hadd, hlt⟩ := Screen.toNat_cell f.fits hl hc
  have hstart := (line * f.width).toNat_lt
  have hend := (line * f.width + column).toNat_lt
  refine ⟨?_, hlt⟩
  simp only [cell, mul64, Option.bind_eq_bind]
  rw [if_pos (by omega), Option.bind_some, add64_eq (by omega)]
  rfl

theorem getPixel_eq (f : Screen) (x y : UInt64) : getPixel f x y = some (f.get x y) := by
  unfold getPixel Screen.get
  by_cases hx : x < f.width
  · by_cases hy : y < f.height
    · obtain ⟨hcell, hlt⟩ := cell_eq hy hx
      rw [← f.size_eq] at hlt
      simp only [hx, hy, and_self, if_true, hcell, Option.bind_eq_bind, Option.bind_some, decide_true,
        Bool.true_and, Screen.pixel, Array.getElem?_eq_getElem hlt, Option.getD_some]
    · simp only [hy, and_false, if_false, decide_false, Bool.and_false, Bool.false_and]
  · simp only [hx, false_and, if_false, decide_false, Bool.false_and]

theorem toggleAll_eq {is : List Nat} {pixels : Array Bool} (h : ∀ i ∈ is, i < pixels.size) :
    toggleAll is pixels = some (Screen.toggleAll is pixels) := by
  induction is generalizing pixels with
  | nil => rfl
  | cons i rest ih =>
      have hi := h i List.mem_cons_self
      have hrest : toggleAll rest (pixels.modify i not) =
          some (Screen.toggleAll rest (pixels.modify i not)) := by
        apply ih
        intro j hj
        rw [Array.size_modify]
        exact h j (List.mem_cons_of_mem i hj)
      simp only [toggleAll, Screen.toggleAll, hrest, Screen.pixel, Array.getElem?_eq_getElem hi,
        Option.bind_eq_bind, Option.bind_some, Option.getD_some, Option.pure_def]

variable (hw : 0 < f.width) (hh : 0 < f.height) {x y : UInt64} {sprite : List UInt8}

include hw hh

theorem rowSpots_eq (hx : x.toNat < 256) (hy : y.toNat < 256) (bits : UInt8) {row : Nat}
    (hrow : row < 4096) :
    rowSpots f x y bits row = some ((Screen.columns bits).map fun col =>
      ((y + UInt64.ofNat row) % f.height * f.width + (x + UInt64.ofNat col) % f.width).toNat) := by
  have hsum : ∀ {a : UInt64} {n : Nat}, a.toNat < 256 → n < 4096 →
      add64 a (UInt64.ofNat n) = some (a + UInt64.ofNat n) := by
    intro a n ha hn
    apply add64_eq
    rw [UInt64.toNat_ofNat']
    omega
  have hline := mod64_eq (a := y + UInt64.ofNat row) hh
  simp only [rowSpots, hsum hy hrow, hline, Option.bind_eq_bind, Option.bind_some]
  apply mapM_eq_some
  intro col hcol
  have hcol8 := List.mem_range.1 (List.mem_filter.1 hcol).1
  have hcolumn := mod64_eq (a := x + UInt64.ofNat col) hw
  have hcell := cell_eq (UInt64.mod_lt (y + UInt64.ofNat row) hh) (UInt64.mod_lt (x + UInt64.ofNat col) hw)
  simp only [hsum hx (by omega : col < 4096), hcolumn, Option.bind_some, hcell.1]

theorem spots_lt {i : Nat} (hi : i ∈ Screen.spots f.width f.height x y sprite) :
    i < f.width.toNat * f.height.toNat := by
  obtain ⟨⟨bits, row⟩, -, hmem⟩ := List.mem_flatMap.1 hi
  obtain ⟨col, -, rfl⟩ := List.mem_map.1 hmem
  exact (cell_eq (UInt64.mod_lt _ hh) (UInt64.mod_lt _ hw)).2

omit hw hh in
theorem draw_eq (hx : x.toNat < 256) (hy : y.toNat < 256) (hsprite : sprite.length ≤ 4096) :
    draw f x y sprite = some (f.draw x y sprite) := by
  unfold draw Screen.draw
  split
  · rfl
  · next hne =>
      have hpos : 0 < f.width.toNat * f.height.toNat := by
        rw [← f.size_eq]
        exact Array.size_pos_iff.2 (mt Array.isEmpty_iff.2 hne)
      have hw : 0 < f.width := UInt64.lt_iff_toNat_lt.2 (Nat.pos_of_mul_pos_right hpos)
      have hh : 0 < f.height := UInt64.lt_iff_toNat_lt.2 (Nat.pos_of_mul_pos_left hpos)
      have hrows := mapM_eq_some (l := sprite.zipIdx) fun p hp =>
        rowSpots_eq hw hh hx hy p.1
          (show p.2 < 4096 from Nat.lt_of_lt_of_le (List.snd_lt_of_mem_zipIdx hp) hsprite)
      have htoggle : toggleAll (Screen.spots f.width f.height x y sprite) f.pixels =
          some (Screen.toggleAll (Screen.spots f.width f.height x y sprite) f.pixels) :=
        toggleAll_eq fun i hi => f.size_eq ▸ spots_lt hw hh hi
      have hspots : (sprite.zipIdx.map fun p => (Screen.columns p.1).map fun col =>
          ((y + UInt64.ofNat p.2) % f.height * f.width + (x + UInt64.ofNat col) % f.width).toNat).flatten =
          Screen.spots f.width f.height x y sprite := rfl
      simp only [hrows, hspots, htoggle, Option.bind_eq_bind, Option.bind_some]
      rw [dif_pos (by rw [Screen.size_toggleAll, f.size_eq])]
      rfl

end Screen

section Disassembly

variable {d : Disassembly}

theorem next_eq (h : d.stop.toNat ≤ 4096) : next d = some d.next? := by
  unfold next Disassembly.next?
  split
  · rfl
  · next hlt =>
      rw [UInt16.le_iff_toNat_le] at hlt
      have hsum : add16 d.cursor 1 = some (d.cursor + 1) :=
        add16_eq (by rw [UInt16.toNat_one]; omega)
      simp only [byte_eq, hsum, Option.bind_eq_bind, Option.bind_some]
      cases d.memory.byte d.cursor <;> rfl

theorem next?_stop {e : Disassembly} {item : UInt16 × Instruction} (h : d.next? = some (item, e)) :
    e.stop = d.stop := by
  unfold Disassembly.next? at h
  split at h
  · cases h
  · split at h
    · cases h
    · cases h
      rfl

theorem items_eq (h : d.stop.toNat ≤ 4096) : items d = some d.toList := by
  fun_induction Disassembly.toList d with
  | case1 d hn =>
      rw [items]
      split <;> simp_all [next_eq h]
  | case2 d item e hn ih =>
      have he := ih (next?_stop hn ▸ h)
      rw [items]
      split <;> simp_all [next_eq h]

end Disassembly

section Machine

variable {m : Machine}

theorem store_eq (m : Machine) {data : List UInt8} (h : data.length ≤ 4096) :
    store m data = some (m.write data) := by
  simp only [store, Machine.write, write_eq m.memory m.index h, Option.bind_eq_bind, Option.bind_some]
  rcases m.memory.write m.index data with ⟨c | -, memory⟩ <;> rfl

theorem execute_eq (hpc : m.pc.toNat + 1 < 4096) (i : Instruction) : execute m i = some (m.execute i) := by
  cases i with
  | ret =>
      simp only [execute, Machine.execute, pop_eq, Option.bind_eq_bind, Option.bind_some]
      rcases m.stack.pop with ⟨c | target, stack⟩ <;> rfl
  | call target =>
      have hback : add16 m.pc 2 = some (m.pc + 2) := add16_eq (by show m.pc.toNat + 2 < 65536; omega)
      simp only [execute, Machine.execute, hback, Option.bind_eq_bind, Option.bind_some]
      rcases m.stack.push (m.pc + 2) with ⟨c | -, stack⟩ <;> rfl
  | jumpFromV0 base =>
      have := (m.v .zero).toNat_lt
      have hsum : add16 base.toWord (m.v .zero).toUInt16 = some (base.toWord + (m.v .zero).toUInt16) :=
        add16_eq (by rw [Address.toNat_toWord, UInt8.toNat_toUInt16]; omega)
      simp only [execute, Machine.execute, hsum, Option.bind_eq_bind, Option.bind_some]
      rfl
  | loadGlyph x =>
      simp only [execute, Machine.execute, glyph_eq, Option.bind_eq_bind, Option.bind_some]
      rfl
  | draw x y rows =>
      have hlen : (UInt64.ofNat rows.val).toNat ≤ 4096 := by
        rw [UInt64.toNat_ofNat']
        omega
      have hbyte : ∀ b : UInt8, b.toUInt64.toNat < 256 := fun b => by
        rw [UInt8.toNat_toUInt64]
        exact b.toNat_lt
      simp only [execute, Machine.execute, slice_eq m.memory m.index hlen, Option.bind_eq_bind,
        Option.bind_some]
      cases hs : m.memory.slice m.index (UInt64.ofNat rows.val) with
      | error c => rfl
      | ok sprite =>
          have hsprite := (Memory.slice_ok hs).2
          simp only [draw_eq (hbyte _) (hbyte _) (by omega : sprite.length ≤ 4096), Option.bind_some]
          rfl
  | storeDecimal x => exact store_eq m (by decide : 3 ≤ 4096)
  | storeRegisters x =>
      refine store_eq m ?_
      rw [Machine.length_registersTo]
      omega
  | loadRegisters x =>
      have hlen : (UInt64.ofNat (x.val + 1)).toNat = x.val + 1 := by
        rw [UInt64.toNat_ofNat']
        omega
      have hslice := slice_eq m.memory m.index
        (show (UInt64.ofNat (x.val + 1)).toNat ≤ 4096 by rw [hlen]; omega)
      simp only [execute, Machine.execute, hslice, Option.bind_eq_bind, Option.bind_some]
      cases hs : m.memory.slice m.index (UInt64.ofNat (x.val + 1)) with
      | error c => rfl
      | ok bytes =>
          simp only [if_pos ((Memory.slice_ok hs).2.trans hlen)]
          rfl
  | _ => rfl

theorem follow_eq (m : Machine) {pc : UInt16} (hpc : pc.toNat + 1 < 4096) (flow : Transfer) :
    follow m pc flow = some (m.follow pc flow) := by
  cases flow with
  | next =>
      rw [follow, add16_eq (by show pc.toNat + 2 < 65536; omega)]
      rfl
  | skip =>
      rw [follow, add16_eq (by show pc.toNat + 4 < 65536; omega)]
      rfl
  | jump | wait => rfl

example (m : Machine) : follow m 0xfffe .next = none := rfl

theorem step_eq (m : Machine) : step m = some m.step := by
  unfold step Machine.step
  cases m.mode with
  | awaitingKey x => rfl
  | running =>
      simp only [fetch_eq, Option.bind_eq_bind, Option.bind_some]
      cases hf : m.memory.fetch m.pc with
      | error c => rfl
      | ok word =>
          obtain ⟨hpc, -⟩ := Memory.fetch_eq_ok_iff.1 hf
          simp only [execute_eq hpc, Option.bind_some]
          rcases m.execute (.decode word) with ⟨c | flow, after⟩
          · rfl
          · simp only [follow_eq after hpc, Option.bind_some]
            rfl

theorem sense_eq (hpc : ∀ x, m.mode = .awaitingKey x → m.pc.toNat ≤ 0xffe) (now : Keypad) :
    sense m now = some (m.sense now) := by
  unfold sense Machine.sense
  cases hm : m.mode with
  | running => rfl
  | awaitingKey x =>
      have := hpc x hm
      have hsum : add16 m.pc 2 = some (m.pc + 2) := add16_eq (by show m.pc.toNat + 2 < 65536; omega)
      cases m.keypad.freshKey? now with
      | none => rfl
      | some k =>
          simp only [hsum, Option.bind_eq_bind, Option.bind_some]
          rfl

theorem dump_eq (m : Machine) : dump m = some m.dump := by
  have hlen : (UInt64.ofNat (min Dump.window (4096 - m.index.toNat))).toNat ≤ 4096 := by
    rw [UInt64.toNat_ofNat']
    omega
  simp only [dump, slice_eq m.memory m.index hlen, Option.bind_eq_bind, Option.bind_some]
  rfl

end Machine

end Chip8.Checked
