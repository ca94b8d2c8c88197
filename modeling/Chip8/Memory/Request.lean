import Chip8.Memory.Load

namespace Chip8.Memory

inductive Request where
  | load (program : List UInt8)
  | loadFrom (source : ByteSource)
  | write (addr : UInt16) (data : List UInt8)
  | fill (addr : UInt16) (len : UInt64) (b : UInt8)
  | slice (addr : UInt16) (len : UInt64)
  | byte (addr : UInt16)
  | fetch (addr : UInt16)
deriving DecidableEq, Repr

inductive Response where
  | loaded (answer : Except LoadError Nat)
  | written (answer : Except FaultCause Unit)
  | slice (answer : Except FaultCause (List UInt8))
  | byte (answer : Except FaultCause UInt8)
  | word (answer : Except FaultCause Word)

def Request.program : Request → List UInt8
  | .load program => program
  | .loadFrom source => source.chunks.flatten
  | _ => []

def Response.isLoad : Response → Bool
  | .loaded (.ok _) => true
  | _ => false

def perform (m : Memory) : Request → Response × Memory
  | .load program => (.loaded (m.load program).1, (m.load program).2)
  | .loadFrom source => (.loaded (m.loadFrom source).1, (m.loadFrom source).2)
  | .write addr data => (.written (m.write addr data).1, (m.write addr data).2)
  | .fill addr len b => (.written (m.fill addr len b).1, (m.fill addr len b).2)
  | .slice addr len => (.slice (m.slice addr len), m)
  | .byte addr => (.byte (m.byte addr), m)
  | .fetch addr => (.word (m.fetch addr), m)

def afterAll (m : Memory) : List Request → Memory
  | [] => m
  | r :: rs => (m.perform r).2.afterAll rs

def responses (m : Memory) : List Request → List Response
  | [] => []
  | r :: rs => (m.perform r).1 :: (m.perform r).2.responses rs

def loadedBy (m : Memory) : List Request → List UInt8
  | [] => []
  | r :: rs => if (m.perform r).1.isLoad then r.program else (m.perform r).2.loadedBy rs

structure Store where
  start : Nat
  data : List UInt8
deriving DecidableEq, Repr

namespace Store

end Store

def initial (a : Nat) : UInt8 := if 0x50 ≤ a ∧ a ≤ 0x9f then font.getD (a - 0x50) 0 else 0

end Chip8.Memory
