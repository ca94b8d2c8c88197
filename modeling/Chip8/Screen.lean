namespace Chip8

namespace Screen

def maxCells : Nat := 9223372036854775807

def Fits (width height : UInt64) : Prop := width.toNat * height.toNat ≤ maxCells

instance (width height : UInt64) : Decidable (Fits width height) := inferInstanceAs (Decidable (_ ≤ _))

end Screen

structure Screen where
  width : UInt64
  height : UInt64
  pixels : Array Bool
  size_eq : pixels.size = width.toNat * height.toNat
  fits : Screen.Fits width height
deriving DecidableEq, Repr

namespace Screen

def defaultWidth : UInt64 := 64

def defaultHeight : UInt64 := 32

def blank (width height : UInt64) (hfits : Fits width height) : Screen where
  width := width
  height := height
  pixels := Array.replicate (width.toNat * height.toNat) false
  size_eq := Array.size_replicate
  fits := hfits

def blank? (width height : UInt64) : Option Screen :=
  if hfits : Fits width height then some (blank width height hfits) else none

def clear (f : Screen) : Screen := blank f.width f.height f.fits

def pixel (pixels : Array Bool) (i : Nat) : Bool := pixels[i]?.getD false

def get (f : Screen) (x y : UInt64) : Bool :=
  x < f.width && y < f.height && pixel f.pixels (y * f.width + x).toNat

def columns (bits : UInt8) : List Nat :=
  (List.range 8).filter fun col => bits.toNat.testBit (7 - col)

def spots (width height x y : UInt64) (sprite : List UInt8) : List Nat :=
  sprite.zipIdx.flatMap fun (bits, row) =>
    (columns bits).map fun col =>
      ((y + UInt64.ofNat row) % height * width + (x + UInt64.ofNat col) % width).toNat

def toggleAll : List Nat → Array Bool → Bool × Array Bool
  | [], pixels => (false, pixels)
  | i :: rest, pixels =>
    let wasLit := pixel pixels i
    let (hit, after) := toggleAll rest (pixels.modify i not)
    (wasLit || hit, after)

theorem size_toggleAll (is : List Nat) (pixels : Array Bool) :
    (toggleAll is pixels).2.size = pixels.size := by
  induction is generalizing pixels with
  | nil => rfl
  | cons i rest ih => simp [toggleAll, ih]

def draw (f : Screen) (x y : UInt64) (sprite : List UInt8) : Bool × Screen :=
  if f.pixels.isEmpty then (false, f)
  else
    let is := spots f.width f.height x y sprite
    ((toggleAll is f.pixels).1,
      { f with
        pixels := (toggleAll is f.pixels).2
        size_eq := by rw [size_toggleAll, f.size_eq] })

def countLit (f : Screen) : Nat := f.pixels.count true

def cells (f : Screen) : List (Nat × Nat × Bool) :=
  f.pixels.toList.zipIdx.map fun (lit, i) => (i % f.width.toNat, i / f.width.toNat, lit)

def packedByte (pixels : Array Bool) (start : Nat) : UInt8 :=
  UInt8.ofNat ((List.range 8).foldl (fun acc k => acc * 2 + (pixel pixels (start + k)).toNat) 0)

def packed (f : Screen) : List UInt8 :=
  (List.range ((f.pixels.size + 7) / 8)).map fun k => packedByte f.pixels (8 * k)

theorem eq_of_pixels_eq {f g : Screen} (hw : f.width = g.width) (hh : f.height = g.height)
    (hp : f.pixels = g.pixels) : f = g := by
  cases f
  cases g
  simp_all

@[simp] theorem draw_width (f : Screen) (x y : UInt64) (sprite : List UInt8) :
    (f.draw x y sprite).2.width = f.width := by
  unfold draw
  split <;> rfl

@[simp] theorem draw_height (f : Screen) (x y : UInt64) (sprite : List UInt8) :
    (f.draw x y sprite).2.height = f.height := by
  unfold draw
  split <;> rfl

theorem blank?_eq_some_iff {width height : UInt64} {f : Screen} :
    blank? width height = some f ↔ ∃ hfits, f = blank width height hfits := by
  unfold blank?
  split
  · next hfits => exact ⟨fun h => ⟨hfits, (Option.some.inj h).symm⟩, fun ⟨_, h⟩ => h ▸ rfl⟩
  · next hwide => exact ⟨nofun, fun ⟨hfits, _⟩ => absurd hfits hwide⟩

theorem toNat_cell {width height line column : UInt64} (hfits : Fits width height) (hl : line < height)
    (hc : column < width) :
    (line * width).toNat = line.toNat * width.toNat ∧
      (line * width + column).toNat = line.toNat * width.toNat + column.toNat ∧
      (line * width + column).toNat < width.toNat * height.toNat := by
  rw [UInt64.lt_iff_toNat_lt] at hl hc
  simp only [Fits, maxCells] at hfits
  have hlast : line.toNat * width.toNat + width.toNat ≤ width.toNat * height.toNat := by
    rw [← Nat.succ_mul, Nat.mul_comm width.toNat]
    exact Nat.mul_le_mul_right _ hl
  have hmul : (line * width).toNat = line.toNat * width.toNat := by
    rw [UInt64.toNat_mul, Nat.mod_eq_of_lt (by omega)]
  have hadd : (line * width + column).toNat = line.toNat * width.toNat + column.toNat := by
    rw [UInt64.toNat_add, hmul, Nat.mod_eq_of_lt (by omega)]
  exact ⟨hmul, hadd, by omega⟩

end Screen

end Chip8
