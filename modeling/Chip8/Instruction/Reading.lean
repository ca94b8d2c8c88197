import Chip8.Instruction.Mnemonic
import Chip8.Numeral

namespace Chip8

namespace Operand

def ofNumber (n : Nat) : Nat → Operand
  | 2 => .byte (UInt8.ofNat n)
  | 3 => .address (Word.nnn (UInt16.ofNat n))
  | _ => .word (UInt16.ofNat n)

def ofText? : List Char → Option Operand
  | ['I'] => some .index
  | ['[', 'I', ']'] => some .atIndex
  | ['D', 'T'] => some .delay
  | ['S', 'T'] => some .sound
  | ['K'] => some .key
  | ['F'] => some .glyph
  | ['B'] => some .decimal
  | ['V', c] => (Numeral.digit? 16 c).map fun n => .register (Word.n (UInt16.ofNat n))
  | '0' :: 'x' :: digits => (Numeral.ofDigits? 16 digits).map fun n => ofNumber n digits.length
  | digits => (Numeral.ofDigits? 10 digits).map fun n => .count (Word.n (UInt16.ofNat n))

end Operand

namespace Instruction

def ofMnemonic? : String × List Operand → Option Instruction
  | ("CLS", []) => some .clear
  | ("RET", []) => some .ret
  | ("JP", [.address a]) => some (.jump a)
  | ("CALL", [.address a]) => some (.call a)
  | ("JP", [.register x, .address a]) => if x = .zero then some (.jumpFromV0 a) else none
  | ("SE", [.register x, .byte kk]) => some (.skip (.equalByte x kk))
  | ("SNE", [.register x, .byte kk]) => some (.skip (.notEqualByte x kk))
  | ("SE", [.register x, .register y]) => some (.skip (.equal x y))
  | ("SNE", [.register x, .register y]) => some (.skip (.notEqual x y))
  | ("SKP", [.register x]) => some (.skip (.pressed x))
  | ("SKNP", [.register x]) => some (.skip (.released x))
  | ("LD", [.register x, .byte kk]) => some (.loadByte x kk)
  | ("ADD", [.register x, .byte kk]) => some (.addByte x kk)
  | ("LD", [.register x, .register y]) => some (.alu .load x y)
  | ("OR", [.register x, .register y]) => some (.alu .or x y)
  | ("AND", [.register x, .register y]) => some (.alu .and x y)
  | ("XOR", [.register x, .register y]) => some (.alu .xor x y)
  | ("ADD", [.register x, .register y]) => some (.alu .add x y)
  | ("SUB", [.register x, .register y]) => some (.alu .sub x y)
  | ("SHR", [.register x]) => some (.alu .shr x x)
  | ("SUBN", [.register x, .register y]) => some (.alu .subn x y)
  | ("SHL", [.register x]) => some (.alu .shl x x)
  | ("RND", [.register x, .byte mask]) => some (.random x mask)
  | ("LD", [.index, .address a]) => some (.loadIndex a)
  | ("ADD", [.index, .register x]) => some (.addIndex x)
  | ("LD", [.glyph, .register x]) => some (.loadGlyph x)
  | ("DRW", [.register x, .register y, .count rows]) => some (.draw x y rows)
  | ("LD", [.register x, .delay]) => some (.readDelay x)
  | ("LD", [.delay, .register x]) => some (.setDelay x)
  | ("LD", [.sound, .register x]) => some (.setSound x)
  | ("LD", [.register x, .key]) => some (.waitKey x)
  | ("LD", [.decimal, .register x]) => some (.storeDecimal x)
  | ("LD", [.atIndex, .register x]) => some (.storeRegisters x)
  | ("LD", [.register x, .atIndex]) => some (.loadRegisters x)
  | ("RAW", [.word w]) => some (.unknown w)
  | _ => none

def shown : Instruction → Instruction
  | .alu .shr x _ => .alu .shr x x
  | .alu .shl x _ => .alu .shl x x
  | i => i

theorem ofMnemonic?_mnemonic (i : Instruction) : ofMnemonic? i.mnemonic = some i.shown := by
  cases i with
  | skip c => cases c <;> rfl
  | alu op x y => cases op <;> rfl
  | _ => rfl

end Instruction

end Chip8
