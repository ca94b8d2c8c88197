import Chip8.Memory.Basic

namespace Chip8

inductive LoadError where
  | empty
  | tooLarge (size max : Nat)
  | alreadyLoaded (origin : UInt16)
  | unreadable (reason : String)
deriving DecidableEq, Repr

def LoadError.text : LoadError → String
  | .empty => "refusing to load a zero-length ROM"
  | .tooLarge size max =>
    "ROM is too large (" ++ toString size ++ " bytes), max size is " ++ toString max ++ " bytes"
  | .alreadyLoaded origin => "a ROM is already loaded at " ++ Hex.tagged 3 origin.toNat
  | .unreadable reason => "failed to read ROM: " ++ reason

structure ByteSource where
  chunks : List (List UInt8)
  failure : Option String
deriving DecidableEq, Repr

namespace Memory

def hasProgram (m : Memory) : Bool := m.stop > m.origin

def capacity (m : Memory) : Nat := 4096 - m.origin.toNat

def load (m : Memory) (program : List UInt8) : Except LoadError Nat × Memory :=
  if m.hasProgram then (.error (.alreadyLoaded m.origin), m)
  else if program.isEmpty then (.error .empty, m)
  else if m.capacity < program.length then (.error (.tooLarge program.length m.capacity), m)
  else
    (.ok program.length,
      { m with
        bytes := patch m.bytes m.origin.toNat program
        stop := UInt16.ofNat (m.origin.toNat + program.length) })

def loadFrom (m : Memory) (source : ByteSource) : Except LoadError Nat × Memory :=
  match source.failure with
  | some reason => (.error (.unreadable reason), m)
  | none => m.load source.chunks.flatten

def loadLog (answer : Except LoadError Nat) (after : Memory) : List Log.Message :=
  match answer with
  | .ok size =>
    [⟨.debug, "loaded " ++ toString size ++ " bytes at " ++ Hex.tagged 3 after.origin.toNat ++ ".." ++
      Hex.tagged 3 after.stop.toNat⟩]
  | .error _ => []

theorem load_error {m m' : Memory} {program : List UInt8} {e : LoadError}
    (h : m.load program = (.error e, m')) : m' = m := by
  unfold load at h
  split at h
  · simp_all
  · split at h
    · simp_all
    · split at h <;> simp_all

theorem load_cases (m : Memory) (program : List UInt8) :
    (∃ e, m.load program = (.error e, m)) ∨
      (m.hasProgram = false ∧ program ≠ [] ∧ m.origin.toNat + program.length ≤ 4096 ∧
        m.load program = (.ok program.length,
          { m with
            bytes := patch m.bytes m.origin.toNat program
            stop := UInt16.ofNat (m.origin.toNat + program.length) })) := by
  unfold load
  split
  · exact .inl ⟨_, rfl⟩
  · next hfree =>
      split
      · exact .inl ⟨_, rfl⟩
      · next hne =>
          split
          · exact .inl ⟨_, rfl⟩
          · next hfit =>
              rw [List.isEmpty_iff] at hne
              have hpos := List.length_pos_iff.2 hne
              rw [capacity] at hfit
              exact .inr ⟨Bool.not_eq_true _ ▸ hfree, hne, by omega, rfl⟩

theorem loadFrom_cases (m : Memory) (source : ByteSource) :
    (∃ e, m.loadFrom source = (.error e, m)) ∨ m.loadFrom source = m.load source.chunks.flatten := by
  unfold loadFrom
  split
  · exact .inl ⟨_, rfl⟩
  · exact .inr rfl

end Memory

end Chip8
