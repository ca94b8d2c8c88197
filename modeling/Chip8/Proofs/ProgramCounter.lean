import Chip8.Instruction.Pattern
import Chip8.Proofs.Step
import Mathlib.Data.List.Basic

namespace Chip8

namespace Machine

variable {m s : Machine} {w : Word} {i : Instruction} {c : Condition} {flow : Transfer}

end Machine

end Chip8
