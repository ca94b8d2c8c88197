import Chip8.Word

namespace Chip8

inductive Condition where
  | equalByte (x : Register) (kk : UInt8)
  | notEqualByte (x : Register) (kk : UInt8)
  | equal (x y : Register)
  | notEqual (x y : Register)
  | pressed (x : Register)
  | released (x : Register)
deriving DecidableEq, Repr

inductive AluOp where
  | load | or | and | xor | add | sub | shr | subn | shl
deriving DecidableEq, Repr

inductive Instruction where
  | clear
  | ret
  | jump (target : Address)
  | call (target : Address)
  | jumpFromV0 (base : Address)
  | skip (condition : Condition)
  | loadByte (x : Register) (kk : UInt8)
  | addByte (x : Register) (kk : UInt8)
  | alu (op : AluOp) (x y : Register)
  | random (x : Register) (mask : UInt8)
  | loadIndex (a : Address)
  | addIndex (x : Register)
  | loadGlyph (x : Register)
  | draw (x y : Register) (rows : Fin 16)
  | readDelay (x : Register)
  | setDelay (x : Register)
  | setSound (x : Register)
  | waitKey (x : Register)
  | storeDecimal (x : Register)
  | storeRegisters (x : Register)
  | loadRegisters (x : Register)
  | unknown (w : Word)
deriving DecidableEq, Repr

def AluOp.code : AluOp → Nat
  | .load => 0x0
  | .or => 0x1
  | .and => 0x2
  | .xor => 0x3
  | .add => 0x4
  | .sub => 0x5
  | .shr => 0x6
  | .subn => 0x7
  | .shl => 0xe

def AluOp.ofCode? : Nat → Option AluOp
  | 0x0 => some .load
  | 0x1 => some .or
  | 0x2 => some .and
  | 0x3 => some .xor
  | 0x4 => some .add
  | 0x5 => some .sub
  | 0x6 => some .shr
  | 0x7 => some .subn
  | 0xe => some .shl
  | _ => none

theorem AluOp.ofCode?_code (op : AluOp) : ofCode? op.code = some op := by
  cases op <;> rfl

theorem AluOp.code_of_ofCode? {n : Nat} {op : AluOp} (h : ofCode? n = some op) : op.code = n := by
  unfold ofCode? at h
  split at h <;> cases h <;> rfl

theorem AluOp.code_range (op : AluOp) : op.code < 8 ∨ op.code = 0xe := by
  cases op <;> decide

theorem AluOp.code_lt (op : AluOp) : op.code < 16 := by
  cases op <;> decide

namespace Instruction

def decode (w : Word) : Instruction :=
  match w.family with
  | 0x0 => if w = 0x00e0 then .clear else if w = 0x00ee then .ret else .unknown w
  | 0x1 => .jump w.nnn
  | 0x2 => .call w.nnn
  | 0x3 => .skip (.equalByte w.x w.kk)
  | 0x4 => .skip (.notEqualByte w.x w.kk)
  | 0x5 => if w.n.val = 0 then .skip (.equal w.x w.y) else .unknown w
  | 0x6 => .loadByte w.x w.kk
  | 0x7 => .addByte w.x w.kk
  | 0x8 =>
    match AluOp.ofCode? w.n.val with
    | some op => .alu op w.x w.y
    | none => .unknown w
  | 0x9 => if w.n.val = 0 then .skip (.notEqual w.x w.y) else .unknown w
  | 0xa => .loadIndex w.nnn
  | 0xb => .jumpFromV0 w.nnn
  | 0xc => .random w.x w.kk
  | 0xd => .draw w.x w.y w.n
  | 0xe =>
    match w.kk.toNat with
    | 0x9e => .skip (.pressed w.x)
    | 0xa1 => .skip (.released w.x)
    | _ => .unknown w
  | _ =>
    match w.kk.toNat with
    | 0x07 => .readDelay w.x
    | 0x0a => .waitKey w.x
    | 0x15 => .setDelay w.x
    | 0x18 => .setSound w.x
    | 0x1e => .addIndex w.x
    | 0x29 => .loadGlyph w.x
    | 0x33 => .storeDecimal w.x
    | 0x55 => .storeRegisters w.x
    | 0x65 => .loadRegisters w.x
    | _ => .unknown w

def isKnown : Instruction → Bool
  | .unknown _ => false
  | _ => true

end Instruction

end Chip8
