import Chip8.Machine.Basic

namespace Chip8

structure Dump where
  registers : Vector UInt8 16
  index : UInt16
  pc : UInt16
  depth : Nat
  timers : Timers
  mode : Mode
  memory : List UInt8
deriving DecidableEq, Repr

namespace Dump

def window : Nat := 16

def registerText (d : Dump) (x : Register) : String :=
  x.text ++ "=" ++ Hex.padded 2 (d.registers.get x).toNat ++ " "

def registerLine (d : Dump) (xs : List Register) : String := String.join (xs.map d.registerText)

def memoryLine (d : Dump) : String :=
  "[I]" ++ String.join (d.memory.map fun b => " " ++ Hex.padded 2 b.toNat)

def modeText : Mode → String
  | .running => "running"
  | .awaitingKey x => "waiting for key -> " ++ x.text

def stateLine (d : Dump) : String :=
  "I=" ++ Hex.tagged 3 d.index.toNat ++ " PC=" ++ Hex.tagged 3 d.pc.toNat ++ " SP=" ++ toString d.depth ++
    " DT=" ++ toString d.timers.delay.toNat ++ " ST=" ++ toString d.timers.sound.toNat ++
    " (" ++ modeText d.mode ++ ")"

def lines (d : Dump) : List String :=
  [d.registerLine ((List.finRange 16).take 8), d.registerLine ((List.finRange 16).drop 8), d.memoryLine,
    d.stateLine]

end Dump

def Machine.dump (m : Machine) : Dump where
  registers := m.registers
  index := m.index
  pc := m.pc
  depth := m.stack.depth
  timers := m.timers
  mode := m.mode
  memory :=
    (m.memory.slice m.index (UInt64.ofNat (min Dump.window (4096 - m.index.toNat)))).toOption.getD []

end Chip8
