namespace Chip8

abbrev Register := Fin 16

abbrev Address := Fin 4096

abbrev Word := UInt16

def Address.toWord (a : Address) : Word := UInt16.ofNat a.val

def Register.zero : Register := ⟨0, by decide⟩

def Register.flag : Register := ⟨15, by decide⟩

namespace Word

def family (w : Word) : Nat := w.toNat / 4096

def x (w : Word) : Register := ⟨w.toNat / 256 % 16, by omega⟩

def y (w : Word) : Register := ⟨w.toNat / 16 % 16, by omega⟩

def n (w : Word) : Fin 16 := ⟨w.toNat % 16, by omega⟩

def kk (w : Word) : UInt8 := UInt8.ofNat (w.toNat % 256)

def nnn (w : Word) : Address := ⟨w.toNat % 4096, by omega⟩

def ofBytes (high low : UInt8) : Word := UInt16.ofNat (high.toNat * 256 + low.toNat)

def high (w : Word) : UInt8 := UInt8.ofNat (w.toNat / 256)

def low (w : Word) : UInt8 := w.kk

def ofFields (family : Nat) (x y : Register) (n : Nat) : Word :=
  UInt16.ofNat (family * 4096 + x.val * 256 + y.val * 16 + n)

def ofByteFields (family : Nat) (x : Register) (kk : UInt8) : Word :=
  UInt16.ofNat (family * 4096 + x.val * 256 + kk.toNat)

def ofAddressFields (family : Nat) (nnn : Address) : Word :=
  UInt16.ofNat (family * 4096 + nnn.val)

theorem family_lt (w : Word) : w.family < 16 := by
  have := w.toNat_lt
  simp only [family]
  omega

theorem toNat_kk (w : Word) : w.kk.toNat = w.toNat % 256 := by
  simp only [kk, UInt8.toNat_ofNat']
  omega

theorem toNat_high (w : Word) : w.high.toNat = w.toNat / 256 := by
  have := w.toNat_lt
  simp only [high, UInt8.toNat_ofNat']
  omega

theorem toNat_ofBytes (a b : UInt8) : (ofBytes a b).toNat = a.toNat * 256 + b.toNat := by
  have := a.toNat_lt
  have := b.toNat_lt
  simp only [ofBytes, UInt16.toNat_ofNat']
  omega

theorem ofBytes_high_low (w : Word) : ofBytes w.high w.low = w := by
  apply UInt16.toNat_inj.1
  rw [toNat_ofBytes, toNat_high, low, toNat_kk]
  omega

theorem toNat_add_ofNat {a : Word} {k : Nat} (h : a.toNat + k < 65536) :
    (a + OfNat.ofNat k).toNat = a.toNat + k := by
  have hk : (OfNat.ofNat k : Word).toNat = k := by
    rw [UInt16.toNat_ofNat]
    omega
  rw [UInt16.toNat_add, hk, Nat.mod_eq_of_lt h]

section Fields

variable {f c : Nat} (hf : f < 16) (hc : c < 16) (a b : Register) (k : UInt8) (t : Address)

include hf

theorem toNat_ofByteFields : (ofByteFields f a k).toNat = f * 4096 + a.val * 256 + k.toNat := by
  have := k.toNat_lt
  simp only [ofByteFields, UInt16.toNat_ofNat']
  omega

theorem toNat_ofAddressFields : (ofAddressFields f t).toNat = f * 4096 + t.val := by
  simp only [ofAddressFields, UInt16.toNat_ofNat']
  omega

theorem family_ofByteFields : (ofByteFields f a k).family = f := by
  have := k.toNat_lt
  simp only [family, toNat_ofByteFields hf]
  omega

theorem x_ofByteFields : (ofByteFields f a k).x = a := by
  have := k.toNat_lt
  apply Fin.ext
  simp only [x, toNat_ofByteFields hf]
  omega

theorem kk_ofByteFields : (ofByteFields f a k).kk = k := by
  have := k.toNat_lt
  apply UInt8.toNat_inj.1
  rw [toNat_kk, toNat_ofByteFields hf]
  omega

theorem family_ofAddressFields : (ofAddressFields f t).family = f := by
  simp only [family, toNat_ofAddressFields hf]
  omega

theorem nnn_ofAddressFields : (ofAddressFields f t).nnn = t := by
  apply Fin.ext
  simp only [nnn, toNat_ofAddressFields hf]
  omega

include hc

theorem toNat_ofFields : (ofFields f a b c).toNat = f * 4096 + a.val * 256 + b.val * 16 + c := by
  simp only [ofFields, UInt16.toNat_ofNat']
  omega

theorem family_ofFields : (ofFields f a b c).family = f := by
  simp only [family, toNat_ofFields hf hc]
  omega

theorem x_ofFields : (ofFields f a b c).x = a := by
  apply Fin.ext
  simp only [x, toNat_ofFields hf hc]
  omega

theorem y_ofFields : (ofFields f a b c).y = b := by
  apply Fin.ext
  simp only [y, toNat_ofFields hf hc]
  omega

theorem n_ofFields : (ofFields f a b c).n.val = c := by
  simp only [n, toNat_ofFields hf hc]
  omega

end Fields

theorem ofFields_eq (w : Word) : ofFields w.family w.x w.y w.n.val = w := by
  apply UInt16.toNat_inj.1
  rw [toNat_ofFields w.family_lt w.n.isLt]
  simp only [family, x, y, n]
  omega

theorem ofByteFields_eq (w : Word) : ofByteFields w.family w.x w.kk = w := by
  apply UInt16.toNat_inj.1
  rw [toNat_ofByteFields w.family_lt, toNat_kk]
  simp only [family, x]
  omega

theorem ofAddressFields_eq (w : Word) : ofAddressFields w.family w.nnn = w := by
  apply UInt16.toNat_inj.1
  rw [toNat_ofAddressFields w.family_lt]
  simp only [family, nnn]
  omega

end Word

end Chip8
