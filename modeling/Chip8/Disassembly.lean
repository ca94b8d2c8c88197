import Chip8.Instruction.Mnemonic
import Chip8.Memory.Basic

namespace Chip8

structure Disassembly where
  memory : Memory
  cursor : UInt16
  stop : UInt16
deriving DecidableEq, Repr

def Memory.disassembly (m : Memory) : Disassembly := ⟨m, m.origin, m.stop⟩

namespace Disassembly

def advance (a : UInt16) : UInt16 := UInt16.ofNat (min (a.toNat + 2) 65535)

def next? (d : Disassembly) : Option ((UInt16 × Instruction) × Disassembly) :=
  if d.stop ≤ d.cursor then none
  else
    match d.memory.byte d.cursor with
    | .error _ => none
    | .ok high =>
      let low := (d.memory.byte (d.cursor + 1)).toOption.getD 0
      some ((d.cursor, .decode (.ofBytes high low)), { d with cursor := advance d.cursor })

def remaining (d : Disassembly) : Nat := (d.stop.toNat - d.cursor.toNat + 1) / 2

def call (d : Disassembly) : Option (UInt16 × Instruction) × Disassembly :=
  match d.next? with
  | none => (none, d)
  | some (item, e) => (some item, e)

def afterCalls (d : Disassembly) : Nat → Disassembly
  | 0 => d
  | k + 1 => d.call.2.afterCalls k

def sizeHint (d : Disassembly) : Nat × Option Nat := (d.remaining, some d.remaining)

inductive Copy where
  | original | clone
deriving DecidableEq, Repr

def answers (d e : Disassembly) :
    List Copy → List (Option (UInt16 × Instruction)) × List (Option (UInt16 × Instruction))
  | [] => ([], [])
  | .original :: calls => (d.call.1 :: (d.call.2.answers e calls).1, (d.call.2.answers e calls).2)
  | .clone :: calls => ((d.answers e.call.2 calls).1, e.call.1 :: (d.answers e.call.2 calls).2)

theorem next?_lt {d e : Disassembly} {item : UInt16 × Instruction} (h : d.next? = some (item, e)) :
    e.stop.toNat - e.cursor.toNat < d.stop.toNat - d.cursor.toNat := by
  have := d.stop.toNat_lt
  unfold next? at h
  split at h
  · simp at h
  · next hlt =>
      rw [UInt16.le_iff_toNat_le] at hlt
      split at h
      · simp at h
      · obtain ⟨-, rfl⟩ : _ ∧ _ = e := by simpa using h
        simp only [advance, UInt16.toNat_ofNat']
        omega

def toList (d : Disassembly) : List (UInt16 × Instruction) :=
  match _ : d.next? with
  | none => []
  | some (item, e) => item :: e.toList
termination_by d.stop.toNat - d.cursor.toNat
decreasing_by exact next?_lt ‹_›

def line (item : UInt16 × Instruction) : String :=
  Hex.tagged 3 item.1.toNat ++ ": " ++ item.2.text

def listing (d : Disassembly) : List String := d.toList.map line

def mnemonics (d : Disassembly) : List String := d.toList.map fun item => item.2.text

end Disassembly

end Chip8
