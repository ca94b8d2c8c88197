namespace Chip8.ChaCha

structure Row where
  w : UInt32
  x : UInt32
  y : UInt32
  z : UInt32
deriving DecidableEq, Repr

structure State where
  a : Row
  b : Row
  c : Row
  d : Row
deriving DecidableEq, Repr

def rotateLeft (w k : UInt32) : UInt32 := (w <<< k) ||| (w >>> (32 - k))

def quarterRound (q : Row) : Row :=
  let a := q.w + q.x
  let d := rotateLeft (q.z ^^^ a) 16
  let c := q.y + d
  let b := rotateLeft (q.x ^^^ c) 12
  let a := a + b
  let d := rotateLeft (d ^^^ a) 8
  let c := c + d
  let b := rotateLeft (b ^^^ c) 7
  ⟨a, b, c, d⟩

def columnRound (s : State) : State :=
  let p := quarterRound ⟨s.a.w, s.b.w, s.c.w, s.d.w⟩
  let q := quarterRound ⟨s.a.x, s.b.x, s.c.x, s.d.x⟩
  let r := quarterRound ⟨s.a.y, s.b.y, s.c.y, s.d.y⟩
  let t := quarterRound ⟨s.a.z, s.b.z, s.c.z, s.d.z⟩
  ⟨⟨p.w, q.w, r.w, t.w⟩, ⟨p.x, q.x, r.x, t.x⟩, ⟨p.y, q.y, r.y, t.y⟩, ⟨p.z, q.z, r.z, t.z⟩⟩

def diagonalRound (s : State) : State :=
  let p := quarterRound ⟨s.a.w, s.b.x, s.c.y, s.d.z⟩
  let q := quarterRound ⟨s.a.x, s.b.y, s.c.z, s.d.w⟩
  let r := quarterRound ⟨s.a.y, s.b.z, s.c.w, s.d.x⟩
  let t := quarterRound ⟨s.a.z, s.b.w, s.c.x, s.d.y⟩
  ⟨⟨p.w, q.w, r.w, t.w⟩, ⟨t.x, p.x, q.x, r.x⟩, ⟨r.y, t.y, p.y, q.y⟩, ⟨q.z, r.z, t.z, p.z⟩⟩

def doubleRounds : Nat → State → State
  | 0, s => s
  | k + 1, s => doubleRounds k (diagonalRound (columnRound s))

def Row.add (r s : Row) : Row := ⟨r.w + s.w, r.x + s.x, r.y + s.y, r.z + s.z⟩

def State.add (s t : State) : State := ⟨s.a.add t.a, s.b.add t.b, s.c.add t.c, s.d.add t.d⟩

def State.words (s : State) : Vector UInt32 16 :=
  #v[s.a.w, s.a.x, s.a.y, s.a.z, s.b.w, s.b.x, s.b.y, s.b.z,
    s.c.w, s.c.x, s.c.y, s.c.z, s.d.w, s.d.x, s.d.y, s.d.z]

def initial (key : Vector UInt32 8) (number : UInt64) : State :=
  ⟨⟨0x61707865, 0x3320646e, 0x79622d32, 0x6b206574⟩, ⟨key[0], key[1], key[2], key[3]⟩,
    ⟨key[4], key[5], key[6], key[7]⟩, ⟨number.toUInt32, (number >>> 32).toUInt32, 0, 0⟩⟩

def block (key : Vector UInt32 8) (number : UInt64) : Vector UInt32 16 :=
  ((doubleRounds 6 (initial key number)).add (initial key number)).words

end Chip8.ChaCha
