import Chip8.Screen
import Chip8.Memory.Basic

namespace Chip8

structure Settings where
  origin : UInt16 := 0x200
  speed : UInt32 := 10
  width : UInt64 := Screen.defaultWidth
  height : UInt64 := Screen.defaultHeight
  seed : Option UInt64 := none
deriving DecidableEq, Repr

inductive SettingsError where
  | badOrigin (origin min max : UInt16)
  | badResolution (width height : UInt64)
  | zeroSpeed
  | unreadable (reason : String)
  | malformed
deriving DecidableEq, Repr

def SettingsError.text? : SettingsError → Option String
  | .badOrigin origin min max =>
    some ("load origin " ++ Hex.tagged 3 origin.toNat ++ " must lie in " ++ Hex.tagged 3 min.toNat ++
      ".." ++ Hex.tagged 4 max.toNat)
  | .badResolution width height =>
    some ("display must be at least 1x1, got " ++ toString width.toNat ++ "x" ++ toString height.toNat)
  | .zeroSpeed => some "instructions per frame must be non-zero"
  | .unreadable reason => some ("failed to read config file: " ++ reason)
  | .malformed => none

namespace Settings

def minOrigin : UInt16 := Memory.fontEnd

def maxOrigin : UInt16 := 0xffe

def validate (s : Settings) : Except SettingsError Unit :=
  if s.origin < minOrigin ∨ maxOrigin < s.origin then
    .error (.badOrigin s.origin minOrigin maxOrigin)
  else if s.width = 0 ∨ s.height = 0 then
    .error (.badResolution s.width s.height)
  else if s.speed = 0 then .error .zeroSpeed
  else .ok ()

theorem validate_ok {s : Settings} (h : s.validate = .ok ()) :
    0xa0 ≤ s.origin.toNat ∧ s.origin.toNat ≤ 0xffe ∧ s.width ≠ 0 ∧ s.height ≠ 0 ∧ s.speed ≠ 0 := by
  have hmin : minOrigin.toNat = 0xa0 := rfl
  have hmax : maxOrigin.toNat = 0xffe := rfl
  unfold validate at h
  split at h
  · cases h
  · next ho =>
      rw [UInt16.lt_iff_toNat_lt, UInt16.lt_iff_toNat_lt, hmin, hmax] at ho
      split at h
      · cases h
      · next hr =>
          split at h
          · cases h
          · next hs =>
              obtain ⟨hw, hh⟩ := not_or.1 hr
              exact ⟨by omega, by omega, hw, hh, hs⟩

end Settings

end Chip8
