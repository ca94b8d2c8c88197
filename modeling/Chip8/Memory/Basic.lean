import Chip8.Diagnostics
import Chip8.Word

namespace Chip8

structure Memory where
  bytes : Vector UInt8 4096
  origin : UInt16
  stop : UInt16
deriving DecidableEq, Repr

namespace Memory

def fontStart : UInt16 := 0x50

def glyphSize : UInt16 := 5

def font : List UInt8 :=
  [0xF0, 0x90, 0x90, 0x90, 0xF0,
   0x20, 0x60, 0x20, 0x20, 0x70,
   0xF0, 0x10, 0xF0, 0x80, 0xF0,
   0xF0, 0x10, 0xF0, 0x10, 0xF0,
   0x90, 0x90, 0xF0, 0x10, 0x10,
   0xF0, 0x80, 0xF0, 0x10, 0xF0,
   0xF0, 0x80, 0xF0, 0x90, 0xF0,
   0xF0, 0x10, 0x20, 0x40, 0x40,
   0xF0, 0x90, 0xF0, 0x90, 0xF0,
   0xF0, 0x90, 0xF0, 0x10, 0xF0,
   0xF0, 0x90, 0xF0, 0x90, 0x90,
   0xE0, 0x90, 0xE0, 0x90, 0xE0,
   0xF0, 0x80, 0x80, 0x80, 0xF0,
   0xE0, 0x90, 0x90, 0x90, 0xE0,
   0xF0, 0x80, 0xF0, 0x80, 0xF0,
   0xF0, 0x80, 0xF0, 0x80, 0x80]

def fontEnd : UInt16 := fontStart + UInt16.ofNat font.length

def glyph (digit : UInt8) : UInt16 := fontStart + (digit &&& 0xf).toUInt16 * glyphSize

def patch (bytes : Vector UInt8 4096) (start : Nat) : List UInt8 → Vector UInt8 4096
  | [] => bytes
  | b :: data => patch (bytes.setIfInBounds start b) (start + 1) data

theorem getElem_patch (bytes : Vector UInt8 4096) (start : Nat) (data : List UInt8) (i : Nat)
    (hi : i < 4096) :
    (patch bytes start data)[i] = (if start ≤ i then data[i - start]? else none).getD bytes[i] := by
  induction data generalizing bytes start with
  | nil => simp [patch]
  | cons b data ih =>
      rw [patch, ih]
      by_cases h : start = i
      · subst h
        rw [if_neg (Nat.not_succ_le_self _), if_pos (Nat.le_refl _), Nat.sub_self]
        simp
      · rw [Vector.getElem_setIfInBounds_ne hi h]
        by_cases hs : start ≤ i
        · rw [if_pos hs, if_pos (by omega), show i - start = (i - (start + 1)) + 1 by omega,
            List.getElem?_cons_succ]
        · rw [if_neg hs, if_neg (by omega)]

def blank (origin : UInt16) : Memory where
  bytes := patch (Vector.replicate 4096 0) fontStart.toNat font
  origin := origin
  stop := origin

def Accessible (addr : UInt16) (len : UInt64) : Prop :=
  addr.toUInt64 ≤ addr.toUInt64 + len ∧ addr.toUInt64 + len ≤ 4096

instance (addr : UInt16) (len : UInt64) : Decidable (Accessible addr len) :=
  inferInstanceAs (Decidable (_ ∧ _))

theorem accessible_iff {addr : UInt16} {len : UInt64} :
    Accessible addr len ↔ addr.toNat + len.toNat ≤ 4096 := by
  have := addr.toNat_lt
  have := len.toNat_lt
  simp only [Accessible, UInt64.le_iff_toNat_le, UInt64.toNat_add, UInt16.toNat_toUInt64,
    UInt64.reduceToNat]
  omega

def peek (m : Memory) (a : Nat) : UInt8 := m.bytes[a]?.getD 0

def slice (m : Memory) (addr : UInt16) (len : UInt64) : Except FaultCause (List UInt8) :=
  if Accessible addr len then
    .ok ((List.range len.toNat).map fun k => m.peek (addr.toNat + k))
  else
    .error (.memoryOutOfBounds addr len)

def byte (m : Memory) (addr : UInt16) : Except FaultCause UInt8 :=
  if Accessible addr 1 then .ok (m.peek addr.toNat) else .error (.memoryOutOfBounds addr 1)

def fetch (m : Memory) (addr : UInt16) : Except FaultCause Word :=
  if Accessible addr 2 then
    .ok (Word.ofBytes (m.peek addr.toNat) (m.peek (addr.toNat + 1)))
  else
    .error (.memoryOutOfBounds addr 2)

def write (m : Memory) (addr : UInt16) (data : List UInt8) : Except FaultCause Unit × Memory :=
  if addr.toNat + data.length ≤ 4096 then
    (.ok (), { m with bytes := patch m.bytes addr.toNat data })
  else
    (.error (.memoryOutOfBounds addr (UInt64.ofNat data.length)), m)

def fill (m : Memory) (addr : UInt16) (len : UInt64) (b : UInt8) : Except FaultCause Unit × Memory :=
  if Accessible addr len then
    (.ok (), { m with bytes := patch m.bytes addr.toNat (List.replicate len.toNat b) })
  else
    (.error (.memoryOutOfBounds addr len), m)

theorem peek_blank (origin : UInt16) {a : Nat} (h : 0xa0 ≤ a) : (blank origin).peek a = 0 := by
  have hfont : font.length = 80 := rfl
  have hstart : fontStart.toNat = 0x50 := rfl
  unfold peek blank
  by_cases ha : a < 4096
  · rw [Vector.getElem?_eq_getElem ha, Option.getD_some, getElem_patch, hstart, if_pos (by omega),
      List.getElem?_eq_none (by omega), Option.getD_none, Vector.getElem_replicate]
  · rw [Vector.getElem?_eq_none (Nat.not_lt.1 ha), Option.getD_none]

theorem peek_patch {m m' : Memory} {start : Nat} {data : List UInt8} (hfit : start + data.length ≤ 4096)
    (hb : m'.bytes = patch m.bytes start data) (a : Nat) :
    m'.peek a = (if start ≤ a then data[a - start]? else none).getD (m.peek a) := by
  unfold peek
  rw [hb]
  by_cases ha : a < 4096
  · rw [Vector.getElem?_eq_getElem ha, Vector.getElem?_eq_getElem ha, getElem_patch]
    rfl
  · rw [Vector.getElem?_eq_none (Nat.not_lt.1 ha), Vector.getElem?_eq_none (Nat.not_lt.1 ha),
      if_pos (by omega), List.getElem?_eq_none (by omega)]
    rfl

theorem write_error {m m' : Memory} {addr : UInt16} {data : List UInt8} {c : FaultCause}
    (h : m.write addr data = (.error c, m')) :
    m' = m ∧ c = .memoryOutOfBounds addr (UInt64.ofNat data.length) := by
  unfold write at h
  split at h
  · cases h
  · cases h
    exact ⟨rfl, rfl⟩

theorem slice_ok {m : Memory} {addr : UInt16} {len : UInt64} {bytes : List UInt8}
    (h : m.slice addr len = .ok bytes) :
    addr.toNat + len.toNat ≤ 4096 ∧ bytes.length = len.toNat := by
  unfold slice at h
  split at h
  · next hacc =>
      cases h
      refine ⟨accessible_iff.1 hacc, ?_⟩
      rw [List.length_map, List.length_range]
  · cases h

theorem slice_error {m : Memory} {addr : UInt16} {len : UInt64} {c : FaultCause}
    (h : m.slice addr len = .error c) : c = .memoryOutOfBounds addr len := by
  unfold slice at h
  split at h
  · cases h
  · cases h
    rfl

theorem fetch_eq_ok_iff {m : Memory} {addr : UInt16} {w : Word} :
    m.fetch addr = .ok w ↔
      addr.toNat + 1 < 4096 ∧ w = .ofBytes (m.peek addr.toNat) (m.peek (addr.toNat + 1)) := by
  have hacc : Accessible addr 2 ↔ addr.toNat + 1 < 4096 := by
    simp only [accessible_iff, UInt64.reduceToNat]
    omega
  unfold fetch
  split
  · next h => simp only [hacc.1 h, true_and, Except.ok.injEq, eq_comm]
  · next h => simp only [mt hacc.2 h, false_and, reduceCtorEq]

end Memory

end Chip8
