import Chip8.Disassembly
import Chip8.Machine.Dump
import Chip8.Machine.Event

namespace Chip8.Machine

inductive Request where
  | load (program : List UInt8)
  | loadFrom (source : ByteSource)
  | event (e : Event)
  | dump
  | disassemble
deriving DecidableEq, Repr

inductive Response where
  | loaded (answer : Except LoadError Nat)
  | answered (a : Answer)
  | dumped (d : Dump)
  | listed (items : List (UInt16 × Instruction))

def perform (m : Machine) : Request → Response × Machine
  | .load program => (.loaded (m.load program).1, (m.load program).2)
  | .loadFrom source => (.loaded (m.loadFrom source).1, (m.loadFrom source).2)
  | .event e => (.answered (m.respond e).1, (m.respond e).2)
  | .dump => (.dumped m.dump, m)
  | .disassemble => (.listed m.memory.disassembly.toList, m)

def afterAll (m : Machine) : List Request → Machine
  | [] => m
  | r :: rs => (m.perform r).2.afterAll rs

def responses (m : Machine) : List Request → List Response
  | [] => []
  | r :: rs => (m.perform r).1 :: (m.perform r).2.responses rs

structure Visit where
  pc : UInt16
  instruction : Instruction
deriving DecidableEq, Repr

def visit? (m : Machine) : Request → Option Visit
  | .event .step =>
    match m.step.1 with
    | .executed i => some ⟨m.pc, i⟩
    | _ => none
  | _ => none

def visits (m : Machine) : List Request → List Visit
  | [] => []
  | r :: rs => (m.visit? r).toList ++ (m.perform r).2.visits rs

end Chip8.Machine
