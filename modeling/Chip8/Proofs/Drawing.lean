import Chip8.Screen
import Mathlib.Data.List.ProdSigma
import Mathlib.Data.List.Nodup
import Mathlib.Data.Nat.ModEq

namespace Chip8.Screen

theorem pixel_modify {pixels : Array Bool} {i j : Nat} (hj : j < pixels.size) :
    pixel (pixels.modify i not) j = (pixel pixels j ^^ decide (i = j)) := by
  have hj' : j < (pixels.modify i not).size := by rwa [Array.size_modify]
  rw [pixel, pixel, Array.getElem?_eq_getElem hj', Array.getElem?_eq_getElem hj, Array.getElem_modify]
  by_cases h : i = j
  · simp [h]
  · simp [h]

theorem pixel_toggleAll {is : List Nat} {pixels : Array Bool} {j : Nat} (hj : j < pixels.size) :
    pixel (toggleAll is pixels).2 j = (pixel pixels j ^^ decide (is.count j % 2 = 1)) := by
  induction is generalizing pixels with
  | nil => simp [toggleAll]
  | cons i rest ih =>
      have hrest : pixel (toggleAll rest (pixels.modify i not)).2 j =
          (pixel (pixels.modify i not) j ^^ decide (rest.count j % 2 = 1)) :=
        ih (by rwa [Array.size_modify])
      rw [pixel_modify hj] at hrest
      simp only [toggleAll, hrest, List.count_cons, beq_iff_eq]
      by_cases h : i = j
      · simp only [h, decide_true, if_true]
        rcases Nat.mod_two_eq_zero_or_one (rest.count j) with hr | hr
        · simp [Nat.add_mod, hr]
        · simp [Nat.add_mod, hr]
      · simp [h]

theorem toggleAll_hit_iff {is : List Nat} {pixels : Array Bool} (h : ∀ i ∈ is, i < pixels.size) :
    (toggleAll is pixels).1 = true ↔ ∃ i ∈ is, pixel pixels i = true ∨ 2 ≤ is.count i := by
  induction is generalizing pixels with
  | nil => simp [toggleAll]
  | cons i rest ih =>
      have hi := h i List.mem_cons_self
      have hrest : ∀ j ∈ rest, j < pixels.size := fun j hj => h j (List.mem_cons_of_mem i hj)
      have hrest' : ∀ j ∈ rest, j < (pixels.modify i not).size := by
        simpa only [Array.size_modify] using hrest
      simp only [toggleAll, Bool.or_eq_true, ih hrest']
      constructor
      · rintro (hlit | ⟨j, hj, hhit⟩)
        · exact ⟨i, List.mem_cons_self, .inl hlit⟩
        · refine ⟨j, List.mem_cons_of_mem i hj, ?_⟩
          have := List.count_pos_iff.2 hj
          rw [pixel_modify (hrest j hj)] at hhit
          rw [List.count_cons]
          by_cases hij : i = j
          · simp only [hij, beq_self_eq_true, if_true]
            omega
          · simpa [hij] using hhit
      · rintro ⟨j, hj, hhit⟩
        by_cases hlit : pixel pixels i = true
        · exact .inl hlit
        · refine .inr ⟨j, ?_⟩
          by_cases hij : i = j
          · -- The toggle at hand lights the cell, so a later one switches it off.
            subst hij
            have htwice := hhit.resolve_left hlit
            rw [List.count_cons_self] at htwice
            have hmem := List.count_pos_iff.1 (by omega : 0 < rest.count i)
            refine ⟨hmem, .inl ?_⟩
            simp [pixel_modify hi, hlit]
          · have hmem := (List.mem_cons.1 hj).resolve_left (Ne.symm hij)
            rw [List.count_cons_of_ne hij] at hhit
            refine ⟨hmem, ?_⟩
            simpa [pixel_modify (hrest j hmem), hij] using hhit

def setBits (sprite : List UInt8) : List (Nat × Nat) :=
  (List.product (List.range sprite.length) (List.range 8)).filter fun bit =>
    (sprite[bit.1]?.getD 0).toNat.testBit (7 - bit.2)

theorem mem_setBits {sprite : List UInt8} {bit : Nat × Nat} (h : bit ∈ setBits sprite) :
    bit.1 < sprite.length ∧ bit.2 < 8 := by
  obtain ⟨hrow, hcol⟩ := List.mem_product.1 (List.mem_filter.1 h).1
  exact ⟨List.mem_range.1 hrow, List.mem_range.1 hcol⟩

theorem nodup_setBits (sprite : List UInt8) : (setBits sprite).Nodup :=
  (List.nodup_range.product List.nodup_range).filter _

theorem zipIdx_eq_map {α : Type} (l : List α) (d : α) :
    l.zipIdx = (List.range l.length).map fun i => (l[i]?.getD d, i) := by
  apply List.ext_getElem
  · simp
  · intro i hleft hright
    have hi : i < l.length := by simpa using hleft
    simp [hi]

theorem spots_eq_map (width height x y : UInt64) (sprite : List UInt8) :
    spots width height x y sprite = (setBits sprite).map fun bit =>
      ((y + UInt64.ofNat bit.1) % height * width + (x + UInt64.ofNat bit.2) % width).toNat := by
  simp only [spots, setBits, columns, zipIdx_eq_map sprite 0, List.product, List.flatMap_map, List.filter_flatMap,
    List.filter_map, List.map_flatMap, List.map_map]
  rfl

theorem toggleAll_empty (is : List Nat) : toggleAll is #[] = (false, #[]) := by
  induction is with
  | nil => rfl
  | cons i rest ih =>
      have hsame : (#[] : Array Bool).modify i not = #[] := Array.eq_empty_of_size_eq_zero (Array.size_modify ..)
      rw [toggleAll, hsame, ih]
      rfl

theorem draw_eq_toggleAll (f : Screen) (x y : UInt64) (sprite : List UInt8) :
    (f.draw x y sprite).1 = (toggleAll (spots f.width f.height x y sprite) f.pixels).1 ∧
      (f.draw x y sprite).2.pixels = (toggleAll (spots f.width f.height x y sprite) f.pixels).2 := by
  unfold draw
  split
  · next h =>
      rw [Array.isEmpty_iff] at h
      simp only [h, toggleAll_empty, and_self]
  · exact ⟨rfl, rfl⟩

theorem eq_of_pixel_eq {p q : Array Bool} (hsize : p.size = q.size)
    (h : ∀ j < p.size, pixel p j = pixel q j) : p = q := by
  apply Array.ext hsize
  intro j hj hj'
  have hsame := h j hj
  rwa [pixel, pixel, Array.getElem?_eq_getElem hj, Array.getElem?_eq_getElem hj'] at hsame

theorem toggleAll_twice (is : List Nat) (pixels : Array Bool) :
    (toggleAll is (toggleAll is pixels).2).2 = pixels := by
  have hsize : (toggleAll is (toggleAll is pixels).2).2.size = pixels.size := by
    rw [size_toggleAll, size_toggleAll]
  apply eq_of_pixel_eq hsize
  intro j hj
  rw [hsize] at hj
  rw [pixel_toggleAll (by rwa [size_toggleAll]), pixel_toggleAll hj, Bool.xor_assoc, Bool.xor_self,
    Bool.xor_false]

theorem draw_draw (f : Screen) (x y : UInt64) (sprite : List UInt8) :
    ((f.draw x y sprite).2.draw x y sprite).2 = f := by
  apply eq_of_pixels_eq
  · rw [draw_width, draw_width]
  · rw [draw_height, draw_height]
  · rw [(draw_eq_toggleAll _ x y sprite).2, draw_width, draw_height, (draw_eq_toggleAll f x y sprite).2,
      toggleAll_twice]

def target (f : Screen) (x y : UInt64) (bit : Nat × Nat) : Nat × Nat :=
  ((x.toNat + bit.2) % f.width.toNat, (y.toNat + bit.1) % f.height.toNat)

def hits (f : Screen) (x y : UInt64) (sprite : List UInt8) (column line : UInt64) : Nat :=
  ((setBits sprite).map (f.target x y)).count (column.toNat, line.toNat)

def number (f : Screen) (cell : Nat × Nat) : Nat := cell.2 * f.width.toNat + cell.1

theorem number_inj {f : Screen} {c d : Nat × Nat} (hc : c.1 < f.width.toNat) (hd : d.1 < f.width.toNat) :
    f.number c = f.number d ↔ c = d := by
  constructor
  · intro h
    have hmod := congrArg (· % f.width.toNat) h
    have hdiv := congrArg (· / f.width.toNat) h
    have hpos : 0 < f.width.toNat := by omega
    simp only [number, Nat.mul_add_mod_self_right, Nat.mod_eq_of_lt hc, Nat.mod_eq_of_lt hd] at hmod
    simp only [number, Nat.mul_comm _ f.width.toNat, Nat.mul_add_div hpos, Nat.div_eq_of_lt hc,
      Nat.div_eq_of_lt hd, Nat.add_zero] at hdiv
    exact Prod.ext hmod hdiv
  · rintro rfl
    rfl

theorem of_get {f : Screen} {column line : UInt64} (h : f.get column line = true) :
    column < f.width ∧ line < f.height := by
  simp only [get, Bool.and_eq_true, decide_eq_true_eq] at h
  exact h.1

section Grid

variable {f : Screen} {x y column line : UInt64} {sprite : List UInt8}

theorem hits_draw : (f.draw x y sprite).2.hits x y sprite column line = f.hits x y sprite column line := by
  have htarget : (f.draw x y sprite).2.target x y = f.target x y := by
    funext bit
    rw [target, target, draw_width, draw_height]
  rw [hits, hits, htarget]

theorem hits_le_one (hw8 : 8 ≤ f.width) (hrows : sprite.length ≤ f.height.toNat) :
    f.hits x y sprite column line ≤ 1 := by
  apply List.nodup_iff_count_le_one.1
  apply List.Nodup.map_on ?_ (nodup_setBits sprite)
  intro a ha b hb h
  obtain ⟨harow, hacol⟩ := mem_setBits ha
  obtain ⟨hbrow, hbcol⟩ := mem_setBits hb
  have hw8' : 8 ≤ f.width.toNat := UInt64.le_iff_toNat_le.1 hw8
  rw [target, target, Prod.mk.injEq] at h
  have hcol := Nat.ModEq.add_left_cancel' x.toNat h.1
  have hrow := Nat.ModEq.add_left_cancel' y.toNat h.2
  exact Prod.ext (hrow.eq_of_lt_of_lt (by omega) (by omega)) (hcol.eq_of_lt_of_lt (by omega) (by omega))

theorem number_lt (hc : column < f.width) (hl : line < f.height) :
    f.number (column.toNat, line.toNat) < f.pixels.size := by
  obtain ⟨-, hcell, hlt⟩ := toNat_cell f.fits hl hc
  rwa [hcell, ← f.size_eq] at hlt

theorem get_eq_pixel (hc : column < f.width) (hl : line < f.height) :
    f.get column line = pixel f.pixels (f.number (column.toNat, line.toNat)) := by
  obtain ⟨-, hcell, -⟩ := toNat_cell f.fits hl hc
  simp only [get, hc, hl, decide_true, Bool.true_and, hcell]
  rfl

variable (hw : 0 < f.width) (hh : 0 < f.height)

include hw hh

theorem exists_cell {i : Nat} (hi : i ∈ spots f.width f.height x y sprite) :
    ∃ column line, column < f.width ∧ line < f.height ∧ i = f.number (column.toNat, line.toNat) := by
  rw [spots_eq_map] at hi
  obtain ⟨bit, -, rfl⟩ := List.mem_map.1 hi
  have hl := UInt64.mod_lt (y + UInt64.ofNat bit.1) hh
  have hc := UInt64.mod_lt (x + UInt64.ofNat bit.2) hw
  exact ⟨_, _, hc, hl, (toNat_cell f.fits hl hc).2.1⟩

variable (hx : x.toNat + 7 < 18446744073709551616) (hy : y.toNat + sprite.length < 18446744073709551616)

include hx hy

theorem spots_eq_numbers :
    spots f.width f.height x y sprite = ((setBits sprite).map (f.target x y)).map f.number := by
  rw [spots_eq_map, List.map_map]
  apply List.map_congr_left
  intro bit hbit
  obtain ⟨hrow, hcol⟩ := mem_setBits hbit
  obtain ⟨-, hcell, -⟩ := toNat_cell f.fits (UInt64.mod_lt (y + UInt64.ofNat bit.1) hh)
    (UInt64.mod_lt (x + UInt64.ofNat bit.2) hw)
  rw [hcell, UInt64.toNat_mod, UInt64.toNat_mod, UInt64.toNat_add, UInt64.toNat_add, UInt64.toNat_ofNat',
    UInt64.toNat_ofNat', Nat.mod_eq_of_lt (by omega : bit.1 < _), Nat.mod_eq_of_lt (by omega : bit.2 < _),
    Nat.mod_eq_of_lt (by omega : y.toNat + _ < _), Nat.mod_eq_of_lt (by omega : x.toNat + _ < _)]
  rfl

theorem count_spots (hc : column < f.width) :
    (spots f.width f.height x y sprite).count (f.number (column.toNat, line.toNat)) =
      f.hits x y sprite column line := by
  rw [spots_eq_numbers hw hh hx hy, hits, List.count, List.count, List.countP_map]
  apply List.countP_congr
  intro cell hcell
  obtain ⟨bit, -, rfl⟩ := List.mem_map.1 hcell
  have htarget : (f.target x y bit).1 < f.width.toNat := Nat.mod_lt _ (UInt64.lt_iff_toNat_lt.1 hw)
  simp only [Function.comp_apply, beq_iff_eq]
  exact number_inj htarget (UInt64.lt_iff_toNat_lt.1 hc)

theorem exists_hits {bit : Nat × Nat} (hbit : bit ∈ setBits sprite) :
    ∃ column line, column < f.width ∧ line < f.height ∧ 1 ≤ f.hits x y sprite column line := by
  have hi : f.number (f.target x y bit) ∈ spots f.width f.height x y sprite := by
    rw [spots_eq_numbers hw hh hx hy]
    exact List.mem_map_of_mem (List.mem_map_of_mem hbit)
  obtain ⟨column, line, hc, hl, hcell⟩ := exists_cell hw hh hi
  refine ⟨column, line, hc, hl, ?_⟩
  rw [← count_spots hw hh hx hy hc, ← hcell]
  exact List.count_pos_iff.2 hi

theorem get_draw (hc : column < f.width) (hl : line < f.height) :
    (f.draw x y sprite).2.get column line =
      (f.get column line ^^ decide (f.hits x y sprite column line % 2 = 1)) := by
  have hnumber : (f.draw x y sprite).2.number = f.number := by
    funext cell
    rw [number, number, draw_width]
  rw [get_eq_pixel (by rwa [draw_width]) (by rwa [draw_height]), hnumber,
    (draw_eq_toggleAll f x y sprite).2, pixel_toggleAll (number_lt hc hl),
    count_spots hw hh hx hy hc, get_eq_pixel hc hl]

theorem draw_hit_iff :
    (f.draw x y sprite).1 = true ↔ ∃ column line, column < f.width ∧ line < f.height ∧
      (1 ≤ f.hits x y sprite column line ∧ f.get column line = true ∨
        2 ≤ f.hits x y sprite column line) := by
  have hlt : ∀ i ∈ spots f.width f.height x y sprite, i < f.pixels.size := by
    intro i hi
    obtain ⟨column, line, hc, hl, rfl⟩ := exists_cell hw hh hi
    exact number_lt hc hl
  rw [(draw_eq_toggleAll f x y sprite).1, toggleAll_hit_iff hlt]
  constructor
  · rintro ⟨i, hi, hhit⟩
    obtain ⟨column, line, hc, hl, rfl⟩ := exists_cell hw hh hi
    have hpos := List.count_pos_iff.2 hi
    rw [count_spots hw hh hx hy hc] at hpos hhit
    rw [← get_eq_pixel hc hl] at hhit
    exact ⟨column, line, hc, hl, hhit.imp_left fun hlit => ⟨hpos, hlit⟩⟩
  · rintro ⟨column, line, hc, hl, hhit⟩
    rw [← count_spots hw hh hx hy hc, get_eq_pixel hc hl] at hhit
    refine ⟨_, List.count_pos_iff.1 ?_, hhit.imp_left And.right⟩
    omega

theorem draw_hit_iff_lit (hw8 : 8 ≤ f.width) (hrows : sprite.length ≤ f.height.toNat) :
    (f.draw x y sprite).1 = true ↔ ∃ column line, column < f.width ∧ line < f.height ∧
      1 ≤ f.hits x y sprite column line ∧ f.get column line = true := by
  rw [draw_hit_iff hw hh hx hy]
  constructor
  · rintro ⟨column, line, hc, hl, hhit⟩
    have hle : f.hits x y sprite column line ≤ 1 := hits_le_one hw8 hrows
    exact ⟨column, line, hc, hl, hhit.resolve_right (by omega)⟩
  · rintro ⟨column, line, hc, hl, hhit⟩
    exact ⟨column, line, hc, hl, .inl hhit⟩

theorem get_draw_of_hit (hw8 : 8 ≤ f.width) (hrows : sprite.length ≤ f.height.toNat) (hc : column < f.width)
    (hl : line < f.height) (hpos : 1 ≤ f.hits x y sprite column line) :
    (f.draw x y sprite).2.get column line = !f.get column line := by
  have hone : f.hits x y sprite column line = 1 := Nat.le_antisymm (hits_le_one hw8 hrows) hpos
  rw [get_draw hw hh hx hy hc hl, hone]
  exact Bool.xor_true _

end Grid

theorem draw_exact (f : Screen) (hw : 0 < f.width) (hh : 0 < f.height) (x y : UInt64)
    (sprite : List UInt8) (hx : x.toNat + 7 < 18446744073709551616)
    (hy : y.toNat + sprite.length < 18446744073709551616) :
    (∀ column line, column < f.width → line < f.height →
      (f.draw x y sprite).2.get column line =
        (f.get column line ^^ decide (f.hits x y sprite column line % 2 = 1))) ∧
    (f.draw x y sprite).2.width = f.width ∧ (f.draw x y sprite).2.height = f.height ∧
    (f.draw x y sprite).2.pixels.size = f.pixels.size ∧
    ((f.draw x y sprite).1 = true ↔ ∃ column line, column < f.width ∧ line < f.height ∧
      (1 ≤ f.hits x y sprite column line ∧ f.get column line = true ∨
        2 ≤ f.hits x y sprite column line)) ∧
    (8 ≤ f.width → sprite.length ≤ f.height.toNat →
      ((f.draw x y sprite).1 = true ↔ ∃ column line,
        f.get column line = true ∧ (f.draw x y sprite).2.get column line = false)) := by
  refine ⟨fun column line => get_draw hw hh hx hy, draw_width .., draw_height .., ?_,
    draw_hit_iff hw hh hx hy, ?_⟩
  · rw [(draw_eq_toggleAll f x y sprite).2, size_toggleAll]
  · intro hw8 hrows
    rw [draw_hit_iff_lit hw hh hx hy hw8 hrows]
    constructor
    · rintro ⟨column, line, hc, hl, hpos, hlit⟩
      refine ⟨column, line, hlit, ?_⟩
      rw [get_draw_of_hit hw hh hx hy hw8 hrows hc hl hpos, hlit]
      rfl
    · rintro ⟨column, line, hlit, hoff⟩
      obtain ⟨hc, hl⟩ := of_get hlit
      rw [get_draw hw hh hx hy hc hl, hlit, Bool.true_xor, Bool.not_eq_false',
        decide_eq_true_eq] at hoff
      exact ⟨column, line, hc, hl, by omega, hlit⟩

theorem draw_exact_self_overlap :
    let f := blank 3 1 (by decide)
    f.hits 0 0 [0xe8] 1 0 = 2 ∧ (f.draw 0 0 [0xe8]).1 = true ∧ (f.draw 0 0 [0xe8]).2.get 1 0 = false ∧
      (f.draw 0 0 [0xe8]).2.get 2 0 = true := by
  intro f
  have htwice : f.hits 0 0 [0xe8] 1 0 = 2 := by decide
  have honce : f.hits 0 0 [0xe8] 2 0 = 1 := by decide
  obtain ⟨hcells, -, -, -, hhit, -⟩ :=
    draw_exact f (by decide) (by decide) 0 0 [0xe8] (by decide) (by decide)
  refine ⟨htwice, hhit.2 ⟨1, 0, by decide, by decide, .inr (by omega)⟩, ?_, ?_⟩
  · rw [hcells 1 0 (by decide) (by decide), htwice]
    decide
  · rw [hcells 2 0 (by decide) (by decide), honce]
    decide

end Chip8.Screen
