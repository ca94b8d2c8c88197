import Chip8.Memory.Request

namespace Chip8.Memory

variable {m m' : Memory} {s : Store} {addr : UInt16} {len : UInt64} {data : List UInt8} {b : UInt8}

inductive Outcome : Memory → Option Store → Memory → Prop
  | kept {m : Memory} : Outcome m none m
  | stored {m m' : Memory} {s : Store} : s.start + s.data.length ≤ 4096 →
      m'.bytes = patch m.bytes s.start s.data → Outcome m (some s) m'

end Chip8.Memory
