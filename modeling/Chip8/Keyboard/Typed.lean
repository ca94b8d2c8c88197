import Chip8.Keyboard.Basic

namespace Chip8.KeyPress

inductive Reading where
  | ground
  | escape
  | single
  | control
  | function
  | mouse (left : Nat)
  | untilMouse
  | untilFinal
  | character (left : Nat)
deriving DecidableEq, Repr

def plain (c : Char) : KeyPress := ⟨.character c, false⟩

def controlled (b : UInt8) : KeyPress :=
  if b = 0 then ⟨.character ' ', true⟩
  else if b ≤ 0x1a then ⟨.character (Char.ofNat ('a'.toNat + b.toNat - 1)), true⟩
  else ⟨.character (Char.ofNat ('4'.toNat + b.toNat - 0x1c)), true⟩

def readPlain (b : UInt8) : List KeyPress × Reading :=
  if b = 0x1b then ([], .escape)
  else if b = 0x09 ∨ b = 0x0d ∨ b = 0x7f then ([⟨.other, false⟩], .ground)
  else if b < 0x20 then ([controlled b], .ground)
  else if b < 0x80 then ([plain (Char.ofNat b.toNat)], .ground)
  else if b < 0xc0 ∨ 0xf8 ≤ b then ([], .ground)
  else if b < 0xe0 then ([], .character 1)
  else if b < 0xf0 then ([], .character 2)
  else ([], .character 3)

def readControl (b : UInt8) : List KeyPress × Reading :=
  match Char.ofNat b.toNat with
  | 'A' | 'B' | 'C' | 'D' | 'F' | 'H' | 'Z' => ([⟨.other, false⟩], .ground)
  | '[' => ([], .function)
  | 'M' => ([], .mouse 3)
  | '<' => ([], .untilMouse)
  | c => if c.isDigit then ([], .untilFinal) else ([], .ground)

def isContinuation (b : UInt8) : Bool := 0x80 ≤ b && b < 0xc0

def read (b : UInt8) : Reading → List KeyPress × Reading
  | .ground => readPlain b
  | .escape =>
    if b = 0x1b then ([⟨.escape, false⟩], .ground)
    else if b = 0x4f then ([], .single)
    else if b = 0x5b then ([], .control)
    else readPlain b
  | .single => (if 0x50 ≤ b && b ≤ 0x53 then [⟨.other, false⟩] else [], .ground)
  | .control => readControl b
  | .function => (if 0x41 ≤ b && b ≤ 0x45 then [⟨.other, false⟩] else [], .ground)
  | .mouse left => ([], if left ≤ 1 then .ground else .mouse (left - 1))
  | .untilMouse => ([], if b = 0x4d ∨ b = 0x6d then .ground else .untilMouse)
  | .untilFinal => if 0x40 ≤ b && b ≤ 0x7e then ([⟨.other, false⟩], .ground) else ([], .untilFinal)
  | .character left =>
    if !isContinuation b then ([], .ground)
    else if left ≤ 1 then ([⟨.other, false⟩], .ground)
    else ([], .character (left - 1))

def atEnd : Reading → List KeyPress
  | .escape => [⟨.escape, false⟩]
  | _ => []

def readFrom (r : Reading) : List UInt8 → List KeyPress
  | [] => atEnd r
  | b :: bytes => (read b r).1 ++ readFrom (read b r).2 bytes

def ofBytes (bytes : List UInt8) : List KeyPress := readFrom .ground bytes

end Chip8.KeyPress
