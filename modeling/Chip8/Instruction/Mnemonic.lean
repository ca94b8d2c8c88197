import Chip8.Instruction.Basic
import Chip8.Numeral

namespace Chip8

inductive Operand where
  | register (x : Register)
  | byte (b : UInt8)
  | address (a : Address)
  | count (n : Fin 16)
  | word (w : Word)
  | index
  | atIndex
  | delay
  | sound
  | key
  | glyph
  | decimal
deriving DecidableEq, Repr

def Register.text (x : Register) : String :=
  String.ofList ['V', Hex.upper x]

def Operand.text : Operand → String
  | .register x => x.text
  | .byte b => Hex.tagged 2 b.toNat
  | .address a => Hex.tagged 3 a.val
  | .count n => toString n.val
  | .word w => Hex.tagged 4 w.toNat
  | .index => "I"
  | .atIndex => "[I]"
  | .delay => "DT"
  | .sound => "ST"
  | .key => "K"
  | .glyph => "F"
  | .decimal => "B"

def Condition.mnemonic : Condition → String × List Operand
  | .equalByte x kk => ("SE", [.register x, .byte kk])
  | .notEqualByte x kk => ("SNE", [.register x, .byte kk])
  | .equal x y => ("SE", [.register x, .register y])
  | .notEqual x y => ("SNE", [.register x, .register y])
  | .pressed x => ("SKP", [.register x])
  | .released x => ("SKNP", [.register x])

def AluOp.mnemonic (x y : Register) : AluOp → String × List Operand
  | .load => ("LD", [.register x, .register y])
  | .or => ("OR", [.register x, .register y])
  | .and => ("AND", [.register x, .register y])
  | .xor => ("XOR", [.register x, .register y])
  | .add => ("ADD", [.register x, .register y])
  | .sub => ("SUB", [.register x, .register y])
  | .shr => ("SHR", [.register x])
  | .subn => ("SUBN", [.register x, .register y])
  | .shl => ("SHL", [.register x])

namespace Instruction

def mnemonic : Instruction → String × List Operand
  | .clear => ("CLS", [])
  | .ret => ("RET", [])
  | .jump a => ("JP", [.address a])
  | .call a => ("CALL", [.address a])
  | .jumpFromV0 a => ("JP", [.register .zero, .address a])
  | .skip c => c.mnemonic
  | .loadByte x kk => ("LD", [.register x, .byte kk])
  | .addByte x kk => ("ADD", [.register x, .byte kk])
  | .alu op x y => op.mnemonic x y
  | .random x mask => ("RND", [.register x, .byte mask])
  | .loadIndex a => ("LD", [.index, .address a])
  | .addIndex x => ("ADD", [.index, .register x])
  | .loadGlyph x => ("LD", [.glyph, .register x])
  | .draw x y rows => ("DRW", [.register x, .register y, .count rows])
  | .readDelay x => ("LD", [.register x, .delay])
  | .setDelay x => ("LD", [.delay, .register x])
  | .setSound x => ("LD", [.sound, .register x])
  | .waitKey x => ("LD", [.register x, .key])
  | .storeDecimal x => ("LD", [.decimal, .register x])
  | .storeRegisters x => ("LD", [.atIndex, .register x])
  | .loadRegisters x => ("LD", [.register x, .atIndex])
  | .unknown w => ("RAW", [.word w])

def operandText : List Operand → String
  | [] => ""
  | o :: os => " " ++ ", ".intercalate ((o :: os).map Operand.text)

def text (i : Instruction) : String :=
  i.mnemonic.1 ++ operandText i.mnemonic.2

end Instruction

end Chip8
