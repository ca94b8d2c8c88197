import Chip8.Numeral
import Chip8.Word

namespace Chip8

inductive FaultCause where
  | stackOverflow
  | stackUnderflow
  | fetchOutOfBounds
  | memoryOutOfBounds (addr : UInt16) (len : UInt64)
deriving DecidableEq, Repr

def FaultCause.text : FaultCause → String
  | .stackOverflow => "stack overflow"
  | .stackUnderflow => "stack underflow: return with an empty call stack"
  | .fetchOutOfBounds => "instruction fetch outside of memory"
  | .memoryOutOfBounds addr len =>
    "memory access out of bounds at " ++ Hex.tagged 4 addr.toNat ++ " (+" ++ toString len.toNat ++ ")"

structure Fault where
  cause : FaultCause
  pc : UInt16
  word : Option Word
deriving DecidableEq, Repr

def Fault.text (f : Fault) : String :=
  f.cause.text ++ " at pc " ++ Hex.tagged 3 f.pc.toNat ++
    match f.word with
    | none => ""
    | some w => " (opcode " ++ Hex.tagged 4 w.toNat ++ ")"

namespace Log

inductive Level where
  | error | warn | info | debug | trace
deriving DecidableEq, Repr

def Level.rank : Level → Nat
  | .error => 1
  | .warn => 2
  | .info => 3
  | .debug => 4
  | .trace => 5

def Level.text : Level → String
  | .error => "ERROR"
  | .warn => "WARN"
  | .info => "INFO"
  | .debug => "DEBUG"
  | .trace => "TRACE"

structure Message where
  level : Level
  text : String
deriving DecidableEq, Repr

inductive Filter where
  | off
  | upTo (level : Level)
deriving DecidableEq, Repr

def Filter.admits (m : Message) : Filter → Bool
  | .off => false
  | .upTo l => m.level.rank ≤ l.rank

def Filter.ofName? : String → Option Filter
  | "off" => some .off
  | "error" => some (.upTo .error)
  | "warn" => some (.upTo .warn)
  | "info" => some (.upTo .info)
  | "debug" => some (.upTo .debug)
  | "trace" => some (.upTo .trace)
  | _ => none

def Message.line (m : Message) : String :=
  m.level.text ++ " " ++ m.text

end Log

end Chip8
