import Chip8.Proofs.Drawing

namespace Chip8.Screen

inductive Stroke
  | sprite (x y : UInt64) (rows : List UInt8)
  | wipe

def Stroke.on (f : Screen) : Stroke → Screen
  | .sprite x y rows => (f.draw x y rows).2
  | .wipe => f.clear

def painted (f : Screen) (strokes : List Stroke) : Screen := strokes.foldl Stroke.on f

def packedBit (f : Screen) (i : Nat) : Bool := (f.packed[i / 8]?.getD 0).toNat.testBit (7 - i % 8)

def ones (byte : UInt8) : Nat := (List.range 8).countP byte.toNat.testBit

theorem size_painted (f : Screen) (strokes : List Stroke) :
    (f.painted strokes).width = f.width ∧ (f.painted strokes).height = f.height := by
  induction strokes generalizing f with
  | nil => exact ⟨rfl, rfl⟩
  | cons stroke rest ih =>
      obtain ⟨hw, hh⟩ := ih (stroke.on f)
      rw [painted, List.foldl_cons, ← painted, hw, hh]
      cases stroke with
      | sprite x y rows => exact ⟨draw_width .., draw_height ..⟩
      | wipe => exact ⟨rfl, rfl⟩

theorem range_mul (height width : Nat) :
    List.range (height * width) =
      (List.range height).flatMap fun y => (List.range width).map fun x => y * width + x := by
  induction height with
  | zero => simp
  | succ height ih =>
      rw [Nat.succ_mul, List.range_add, ih, List.range_succ, List.flatMap_append, List.flatMap_singleton]

theorem pixel_of_le {pixels : Array Bool} {i : Nat} (h : pixels.size ≤ i) : pixel pixels i = false := by
  rw [pixel, Array.getElem?_eq_none h, Option.getD_none]

theorem zipIdx_pixels (pixels : Array Bool) :
    pixels.toList.zipIdx = (List.range pixels.size).map fun i => (pixel pixels i, i) := by
  rw [zipIdx_eq_map _ false, Array.length_toList]
  simp only [Array.getElem?_toList, pixel]

theorem toList_eq_map (pixels : Array Bool) : pixels.toList = (List.range pixels.size).map (pixel pixels) := by
  have hfst := congrArg (List.map Prod.fst) (zipIdx_pixels pixels)
  rwa [List.zipIdx_map_fst, List.map_map] at hfst

theorem count_pixels {pixels : Array Bool} {n : Nat} (h : pixels.size ≤ n) :
    pixels.count true = (List.range n).countP (pixel pixels) := by
  obtain ⟨extra, rfl⟩ := Nat.exists_eq_add_of_le h
  have hpast : (List.range extra).countP (pixel pixels ∘ (pixels.size + ·)) = 0 := by
    rw [List.countP_eq_zero]
    intro k _
    rw [Function.comp_apply, pixel_of_le (Nat.le_add_right ..)]
    exact Bool.false_ne_true
  rw [List.range_add, List.countP_append, List.countP_map, hpast, ← Array.count_toList, toList_eq_map, List.count,
    List.countP_map]
  simp [Function.comp_def]

theorem testBit_foldl_bits (bits : Nat → Bool) (n j : Nat) :
    ((List.range n).foldl (fun acc k => acc * 2 + (bits k).toNat) 0).testBit j =
      (decide (j < n) && bits (n - 1 - j)) := by
  induction n generalizing j with
  | zero => simp
  | succ n ih =>
      rw [List.range_succ, List.foldl_append, List.foldl_cons, List.foldl_nil]
      cases j with
      | zero => cases h : bits n <;> simp [h]
      | succ j =>
          have hhalf (v : Nat) (b : Bool) : (v * 2 + b.toNat) / 2 = v := by
            cases b <;> simp
            omega
          rw [Nat.testBit_succ, hhalf, ih, Nat.add_sub_cancel, Nat.sub_sub, Nat.add_comm 1 j]
          simp only [Nat.add_lt_add_iff_right]

section Packed

variable {f g : Screen} {pixels : Array Bool}

theorem testBit_packedByte {start k : Nat} (hk : k < 8) :
    (packedByte pixels start).toNat.testBit (7 - k) = pixel pixels (start + k) := by
  have hplace : 7 - k < 8 := by omega
  have hback : 8 - 1 - (7 - k) = k := by omega
  rw [packedByte, UInt8.toNat_ofNat', Nat.testBit_mod_two_pow, testBit_foldl_bits, hback]
  simp only [hplace, decide_true, Bool.true_and]

theorem ones_packedByte {start : Nat} :
    ones (packedByte pixels start) = (List.range 8).countP fun k => pixel pixels (start + k) := by
  have hback : (List.range 8).map (7 - ·) = (List.range 8).reverse := by decide
  rw [ones, ← List.countP_reverse, ← hback, List.countP_map]
  apply List.countP_congr
  intro k hk
  rw [Function.comp_apply, testBit_packedByte (List.mem_range.1 hk)]

theorem length_packed : f.packed.length = (f.pixels.size + 7) / 8 := by
  rw [packed, List.length_map, List.length_range]

theorem packedBit_eq_pixel (i : Nat) : f.packedBit i = pixel f.pixels i := by
  by_cases hi : i / 8 < (f.pixels.size + 7) / 8
  · have hplace : 8 * (i / 8) + i % 8 = i := Nat.div_add_mod i 8
    rw [packedBit, packed, List.getElem?_map, List.getElem?_range hi, Option.map_some, Option.getD_some,
      testBit_packedByte (Nat.mod_lt i (by decide)), hplace]
  · rw [packedBit, List.getElem?_eq_none (by rw [length_packed]; omega), Option.getD_none, pixel_of_le (by omega)]
    exact Nat.zero_testBit _

theorem packed_inj (hw : g.width = f.width) (hh : g.height = f.height) : g = f ↔ g.packed = f.packed := by
  constructor
  · rintro rfl
    rfl
  · intro h
    apply eq_of_pixels_eq hw hh
    apply eq_of_pixel_eq
    · rw [f.size_eq, g.size_eq, hw, hh]
    · intro j _
      rw [← packedBit_eq_pixel, ← packedBit_eq_pixel, packedBit, packedBit, h]

theorem countLit_eq_sum : f.countLit = (f.packed.map ones).sum := by
  have hcover : f.pixels.size ≤ (f.pixels.size + 7) / 8 * 8 := by omega
  rw [countLit, count_pixels hcover, range_mul, List.countP_flatMap, packed, List.map_map]
  congr 1
  apply List.map_congr_left
  intro k _
  rw [Function.comp_apply, Function.comp_apply, ones_packedByte, List.countP_map, Nat.mul_comm k 8]
  rfl

end Packed

section Cells

variable {f : Screen}

theorem cells_eq_map :
    f.cells = (List.range f.pixels.size).map fun i =>
      (i % f.width.toNat, i / f.width.toNat, pixel f.pixels i) := by
  rw [cells, zipIdx_pixels, List.map_map]
  rfl

theorem countLit_eq_countP : f.countLit = f.cells.countP fun cell => cell.2.2 := by
  rw [countLit, count_pixels (Nat.le_refl _), cells_eq_map, List.countP_map]
  rfl

theorem nodup_cells : (f.cells.map fun cell => (cell.1, cell.2.1)).Nodup := by
  rw [cells_eq_map, List.map_map]
  apply List.Nodup.map_on ?_ List.nodup_range
  intro i _ j _ h
  obtain ⟨hcolumn, hline⟩ : i % f.width.toNat = j % f.width.toNat ∧ i / f.width.toNat = j / f.width.toNat :=
    Prod.mk.inj h
  rw [← Nat.div_add_mod i f.width.toNat, ← Nat.div_add_mod j f.width.toNat, hcolumn, hline]

theorem get_ofNat {x y : Nat} (hx : x < f.width.toNat) (hy : y < f.height.toNat) :
    f.get (UInt64.ofNat x) (UInt64.ofNat y) = pixel f.pixels (y * f.width.toNat + x) := by
  have hx' : (UInt64.ofNat x).toNat = x := UInt64.toNat_ofNat_of_lt' (hx.trans f.width.toNat_lt)
  have hy' : (UInt64.ofNat y).toNat = y := UInt64.toNat_ofNat_of_lt' (hy.trans f.height.toNat_lt)
  rw [get_eq_pixel (UInt64.lt_iff_toNat_lt.2 (by rwa [hx'])) (UInt64.lt_iff_toNat_lt.2 (by rwa [hy'])), number,
    hx', hy']

theorem cells_eq_rows :
    f.cells = (List.range f.height.toNat).flatMap fun y =>
      (List.range f.width.toNat).map fun x => (x, y, f.get (UInt64.ofNat x) (UInt64.ofNat y)) := by
  rw [cells_eq_map, f.size_eq, Nat.mul_comm, range_mul, List.map_flatMap]
  apply List.flatMap_congr
  intro y hy
  rw [List.map_map]
  apply List.map_congr_left
  intro x hx
  rw [List.mem_range] at hx hy
  have hpos : 0 < f.width.toNat := by omega
  rw [Function.comp_apply, get_ofNat hx hy, Nat.mul_add_mod_self_right, Nat.mod_eq_of_lt hx,
    Nat.mul_comm, Nat.mul_add_div hpos, Nat.div_eq_of_lt hx, Nat.add_zero]

theorem packedBit_eq_get {i : Nat} (hi : i < f.width.toNat * f.height.toNat) :
    f.packedBit i = f.get (UInt64.ofNat (i % f.width.toNat)) (UInt64.ofNat (i / f.width.toNat)) := by
  have hpos : 0 < f.width.toNat := Nat.pos_of_mul_pos_right (Nat.zero_lt_of_lt hi)
  rw [packedBit_eq_pixel, get_ofNat (Nat.mod_lt i hpos) (Nat.div_lt_of_lt_mul hi), Nat.mul_comm,
    Nat.div_add_mod]

end Cells

theorem views_agree {width height : UInt64} {start : Screen} (hstart : blank? width height = some start)
    (strokes : List Stroke) :
    let f := start.painted strokes
    f.cells.length = width.toNat * height.toNat ∧
    f.cells = ((List.range height.toNat).flatMap fun y =>
      (List.range width.toNat).map fun x => (x, y, f.get (UInt64.ofNat x) (UInt64.ofNat y))) ∧
    (f.cells.map fun cell => (cell.1, cell.2.1)).Nodup ∧
    (∀ x y, ¬ (x < width ∧ y < height) → f.get x y = false) ∧
    f.packed.length = (width.toNat * height.toNat + 7) / 8 ∧
    (∀ i < width.toNat * height.toNat,
      f.packedBit i = f.get (UInt64.ofNat (i % width.toNat)) (UInt64.ofNat (i / width.toNat))) ∧
    (∀ i, width.toNat * height.toNat ≤ i → f.packedBit i = false) ∧
    f.countLit = (f.cells.countP fun cell => cell.2.2) ∧
    f.countLit = (f.packed.map ones).sum ∧
    ∀ g : Screen, g.width = width → g.height = height → (g = f ↔ g.packed = f.packed) := by
  intro f
  obtain ⟨hfits, rfl⟩ := blank?_eq_some_iff.1 hstart
  obtain ⟨hw, hh⟩ : f.width = width ∧ f.height = height := size_painted (blank width height hfits) strokes
  clear_value f
  subst hw hh
  refine ⟨?_, cells_eq_rows, nodup_cells, fun x y hoff => ?_, ?_, fun i => packedBit_eq_get, fun i hi => ?_,
    countLit_eq_countP, countLit_eq_sum, fun g => packed_inj⟩
  · rw [cells_eq_map, List.length_map, List.length_range, f.size_eq]
  · exact Bool.eq_false_iff.2 fun hlit => hoff (of_get hlit)
  · rw [length_packed, f.size_eq]
  · rw [packedBit_eq_pixel, pixel_of_le (f.size_eq.trans_le hi)]

theorem views_agree_straddling :
    ∃ start, blank? 5 3 = some start ∧
      let f := start.painted [.wipe, .sprite 3 1 [0xc0]]
      f.get 3 1 = true ∧ f.packedBit 8 = true ∧ f.packedBit 15 = false ∧ f.countLit = 2 ∧
        (f.packed.map ones).sum = 2 := by
  have hstart : blank? 5 3 = some (blank 5 3 (by decide)) := by decide
  refine ⟨_, hstart, ?_⟩
  intro f
  have hlit : f.get 3 1 = true ∧ f.countLit = 2 := by decide +kernel
  obtain ⟨-, -, -, -, -, hbit, hpad, -, hsum, -⟩ := views_agree hstart [.wipe, .sprite 3 1 [0xc0]]
  exact ⟨hlit.1, (hbit 8 (by decide)).trans hlit.1, hpad 15 (by decide), hlit.2, hsum.symm.trans hlit.2⟩

end Chip8.Screen
