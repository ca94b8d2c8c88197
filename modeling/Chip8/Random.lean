import Chip8.ChaCha

namespace Chip8

namespace ChaCha

def Row.xorRotate (r s : Row) (k : UInt32) : Row :=
  ⟨rotateLeft (r.w ^^^ s.w) k, rotateLeft (r.x ^^^ s.x) k, rotateLeft (r.y ^^^ s.y) k, rotateLeft (r.z ^^^ s.z) k⟩

def Row.turn (r : Row) : Row := ⟨r.x, r.y, r.z, r.w⟩

def State.round (s : State) : State :=
  let a := s.a.add s.b
  let d := s.d.xorRotate a 16
  let c := s.c.add d
  let b := s.b.xorRotate c 12
  let a := a.add b
  let d := d.xorRotate a 8
  let c := c.add d
  let b := b.xorRotate c 7
  ⟨a, b, c, d⟩

def State.diagonalize (s : State) : State := ⟨s.a, s.b.turn, s.c.turn.turn, s.d.turn.turn.turn⟩

def State.undiagonalize (s : State) : State := ⟨s.a, s.b.turn.turn.turn, s.c.turn.turn, s.d.turn⟩

def State.rounds : Nat → State → State
  | 0, s => s
  | k + 1, s => rounds k s.round.diagonalize.round.undiagonalize

def generate (key : Vector UInt32 8) (number : UInt64) : Vector UInt32 16 :=
  let s := initial key number
  ((s.rounds 6).add s).words

end ChaCha

structure RandomSource where
  key : Vector UInt32 8
  counter : UInt64
  buffer : Vector UInt32 64
  index : Nat
deriving DecidableEq, Repr

namespace RandomSource

def refill (r : RandomSource) : RandomSource :=
  { r with
    counter := r.counter + 4
    buffer := (Vector.ofFn fun k : Fin 4 => ChaCha.generate r.key (r.counter + UInt64.ofNat k.val)).flatten
    index := 0 }

def ready (r : RandomSource) : RandomSource := if r.index < 64 then r else r.refill

theorem index_ready_lt (r : RandomSource) : r.ready.index < 64 := by
  unfold ready
  split
  · assumption
  · exact Nat.zero_lt_succ 63

def next (r : RandomSource) : UInt8 × RandomSource :=
  let s := r.ready
  ((s.buffer.get ⟨s.index, r.index_ready_lt⟩).toUInt8, { s with index := s.index + 1 })

def rotateRight (w k : UInt32) : UInt32 := (w >>> k) ||| (w <<< ((32 - k) % 32))

def congruentialStep (s : UInt64) : UInt64 := s * 6364136223846793005 + 11634580027462260723

def permuted (s : UInt64) : UInt32 :=
  rotateRight (((s >>> 18) ^^^ s) >>> 27).toUInt32 (s >>> 59).toUInt32

def expand (seed : UInt64) : (k : Nat) → UInt64 × Vector UInt32 k
  | 0 => (seed, #v[])
  | k + 1 =>
    let (s, key) := expand seed k
    (congruentialStep s, key.push (permuted (congruentialStep s)))

def ofKey (key : Vector UInt32 8) : RandomSource := ⟨key, 0, Vector.replicate 64 0, 64⟩

def ofSeed (seed : UInt64) : RandomSource := ofKey (expand seed 8).2

end RandomSource

end Chip8
