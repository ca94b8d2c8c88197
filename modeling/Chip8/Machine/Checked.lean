import Chip8.Machine.Request

namespace Chip8.Checked

def add16 (a b : UInt16) : Option UInt16 := if a.toNat + b.toNat < 65536 then some (a + b) else none

def mul16 (a b : UInt16) : Option UInt16 := if a.toNat * b.toNat < 65536 then some (a * b) else none

def narrow16 (n : Nat) : Option UInt16 := if n < 65536 then some (UInt16.ofNat n) else none

def add64 (a b : UInt64) : Option UInt64 :=
  if a.toNat + b.toNat < 18446744073709551616 then some (a + b) else none

def mul64 (a b : UInt64) : Option UInt64 :=
  if a.toNat * b.toNat < 18446744073709551616 then some (a * b) else none

def mod64 (a b : UInt64) : Option UInt64 := if b = 0 then none else some (a % b)

def read (bytes : Vector UInt8 4096) (start len : Nat) : Option (List UInt8) :=
  (List.range len).mapM fun k => bytes[start + k]?

def overwrite (bytes : Vector UInt8 4096) (start : Nat) : List UInt8 → Option (Vector UInt8 4096)
  | [] => some bytes
  | b :: data => if start < 4096 then overwrite (bytes.setIfInBounds start b) (start + 1) data else none

def slice (m : Memory) (addr : UInt16) (len : UInt64) : Option (Except FaultCause (List UInt8)) := do
  let stop ← add64 addr.toUInt64 len
  if stop ≤ 4096 then
    let bytes ← read m.bytes addr.toNat len.toNat
    return .ok bytes
  else return .error (.memoryOutOfBounds addr len)

def byte (m : Memory) (addr : UInt16) : Option (Except FaultCause UInt8) := do
  match ← slice m addr 1 with
  | .error c => return .error c
  | .ok bytes =>
    let b ← bytes[0]?
    return .ok b

def fetch (m : Memory) (addr : UInt16) : Option (Except FaultCause Word) := do
  match ← slice m addr 2 with
  | .error c => return .error c
  | .ok bytes =>
    let high ← bytes[0]?
    let low ← bytes[1]?
    return .ok (.ofBytes high low)

def write (m : Memory) (addr : UInt16) (data : List UInt8) : Option (Except FaultCause Unit × Memory) := do
  let stop ← add64 addr.toUInt64 (UInt64.ofNat data.length)
  if stop ≤ 4096 then
    let bytes ← overwrite m.bytes addr.toNat data
    return (.ok (), { m with bytes })
  else return (.error (.memoryOutOfBounds addr (UInt64.ofNat data.length)), m)

def load (m : Memory) (program : List UInt8) : Option (Except LoadError Nat × Memory) :=
  if m.hasProgram then some (.error (.alreadyLoaded m.origin), m)
  else if program.isEmpty then some (.error .empty, m)
  else if m.capacity < program.length then some (.error (.tooLarge program.length m.capacity), m)
  else do
    let bytes ← overwrite m.bytes m.origin.toNat program
    let stop ← narrow16 (m.origin.toNat + program.length)
    return (.ok program.length, { m with bytes, stop })

def loadFrom (m : Memory) (source : ByteSource) : Option (Except LoadError Nat × Memory) :=
  match source.failure with
  | some reason => some (.error (.unreadable reason), m)
  | none => load m source.chunks.flatten

def pop (s : ReturnStack) : Option (Except FaultCause UInt16 × ReturnStack) :=
  if s.depth = 0 then some (.error .stackUnderflow, s)
  else do
    let target ← s.frames[s.depth - 1]?
    return (.ok target, s.pop.2)

def glyph (digit : UInt8) : Option UInt16 := do
  let offset ← mul16 (digit &&& 0xf).toUInt16 Memory.glyphSize
  add16 Memory.fontStart offset

def cell (width line column : UInt64) : Option Nat := do
  let start ← mul64 line width
  let i ← add64 start column
  return i.toNat

def getPixel (f : Screen) (x y : UInt64) : Option Bool :=
  if x < f.width ∧ y < f.height then do
    let i ← cell f.width y x
    f.pixels[i]?
  else some false

def rowSpots (f : Screen) (x y : UInt64) (bits : UInt8) (row : Nat) : Option (List Nat) := do
  let below ← add64 y (UInt64.ofNat row)
  let line ← mod64 below f.height
  (Screen.columns bits).mapM fun col => do
    let right ← add64 x (UInt64.ofNat col)
    let column ← mod64 right f.width
    cell f.width line column

def toggleAll : List Nat → Array Bool → Option (Bool × Array Bool)
  | [], pixels => some (false, pixels)
  | i :: rest, pixels => do
    let wasLit ← pixels[i]?
    let (hit, after) ← toggleAll rest (pixels.modify i not)
    return (wasLit || hit, after)

def draw (f : Screen) (x y : UInt64) (sprite : List UInt8) : Option (Bool × Screen) :=
  if f.pixels.isEmpty then some (false, f)
  else do
    let rows ← sprite.zipIdx.mapM fun (bits, row) => rowSpots f x y bits row
    let (hit, pixels) ← toggleAll rows.flatten f.pixels
    if h : pixels.size = f.width.toNat * f.height.toNat then return (hit, { f with pixels, size_eq := h })
    else none

def store (m : Machine) (data : List UInt8) : Option (Except FaultCause Transfer × Machine) := do
  match ← write m.memory m.index data with
  | (.ok (), memory) => return (.ok .next, { m with memory })
  | (.error c, memory) => return (.error c, { m with memory })

def execute (m : Machine) : Instruction → Option (Except FaultCause Transfer × Machine)
  | .ret => do
    match ← pop m.stack with
    | (.ok target, stack) => return (.ok (.jump target), { m with stack })
    | (.error c, stack) => return (.error c, { m with stack })
  | .call target => do
    let back ← add16 m.pc 2
    match m.stack.push back with
    | (.ok (), stack) => return (.ok (.jump target.toWord), { m with stack })
    | (.error c, stack) => return (.error c, { m with stack })
  | .jumpFromV0 base => do
    let target ← add16 base.toWord (m.v .zero).toUInt16
    return (.ok (.jump target), m)
  | .loadGlyph x => do
    let index ← glyph (m.v x)
    return (.ok .next, { m with index })
  | .draw x y rows => do
    match ← slice m.memory m.index (UInt64.ofNat rows.val) with
    | .error c => return (.error c, m)
    | .ok sprite =>
      let (hit, screen) ← draw m.screen (m.v x).toUInt64 (m.v y).toUInt64 sprite
      return (.ok .next, { m with screen }.setV .flag (if hit then 1 else 0))
  | .storeDecimal x => store m (Machine.decimalDigits (m.v x))
  | .storeRegisters x => store m (m.registersTo x)
  | .loadRegisters x => do
    match ← slice m.memory m.index (UInt64.ofNat (x.val + 1)) with
    | .error c => return (.error c, m)
    | .ok bytes => if bytes.length = x.val + 1 then return (.ok .next, m.withRegisters bytes) else none
  | i => some (m.execute i)

def follow (m : Machine) (pc : UInt16) : Transfer → Option Machine
  | .next => (add16 pc 2).map fun pc => { m with pc }
  | .skip => (add16 pc 4).map fun pc => { m with pc }
  | .jump target => some { m with pc := target }
  | .wait x => some { m with mode := .awaitingKey x }

def step (m : Machine) : Option (Outcome × Machine) :=
  match m.mode with
  | .awaitingKey _ => some (.waiting, m)
  | .running => do
    match ← fetch m.memory m.pc with
    | .error _ => return (.faulted ⟨.fetchOutOfBounds, m.pc, none⟩, m)
    | .ok word =>
      match ← execute m (.decode word) with
      | (.error c, after) => return (.faulted ⟨c, m.pc, some word⟩, after)
      | (.ok flow, after) =>
        let after ← follow after m.pc flow
        return (.executed (.decode word), after)

def sense (m : Machine) (now : Keypad) : Option (Option Key × Machine) :=
  match m.mode, m.keypad.freshKey? now with
  | .awaitingKey x, some k => do
    let pc ← add16 m.pc 2
    return (some k, { m.setV x (UInt8.ofNat k.val) with keypad := now, pc, mode := .running })
  | _, _ => some (none, { m with keypad := now })

def dump (m : Machine) : Option Dump := do
  let window ← slice m.memory m.index (UInt64.ofNat (min Dump.window (4096 - m.index.toNat)))
  return { m.dump with memory := window.toOption.getD [] }

def next (d : Disassembly) : Option (Option ((UInt16 × Instruction) × Disassembly)) :=
  if d.stop ≤ d.cursor then some none
  else do
    match ← byte d.memory d.cursor with
    | .error _ => return none
    | .ok high =>
      let after ← add16 d.cursor 1
      let low ← byte d.memory after
      return some ((d.cursor, .decode (.ofBytes high (low.toOption.getD 0))),
        { d with cursor := Disassembly.advance d.cursor })

theorem next_lt {d e : Disassembly} {item : UInt16 × Instruction} (h : next d = some (some (item, e))) :
    e.stop.toNat - e.cursor.toNat < d.stop.toNat - d.cursor.toNat := by
  have := d.stop.toNat_lt
  unfold next at h
  split at h
  · cases h
  · next hlt =>
      rw [UInt16.le_iff_toNat_le] at hlt
      simp only [Option.bind_eq_bind, Option.bind_eq_some_iff] at h
      obtain ⟨high, -, h⟩ := h
      split at h
      · cases h
      · simp only [Option.bind_eq_some_iff] at h
        obtain ⟨after, -, low, -, h⟩ := h
        cases h
        simp only [Disassembly.advance, UInt16.toNat_ofNat']
        omega

def items (d : Disassembly) : Option (List (UInt16 × Instruction)) :=
  match _ : next d with
  | none => none
  | some none => some []
  | some (some (item, e)) => (items e).map (item :: ·)
termination_by d.stop.toNat - d.cursor.toNat
decreasing_by exact next_lt ‹_›

def perform (m : Machine) : Machine.Request → Option (Machine.Response × Machine)
  | .load program => do
    let (answer, memory) ← load m.memory program
    return (.loaded answer, { m with memory })
  | .loadFrom source => do
    let (answer, memory) ← loadFrom m.memory source
    return (.loaded answer, { m with memory })
  | .event .step => do
    let (outcome, after) ← step m
    return (.answered (.stepped outcome), after)
  | .event .interrupt => some (.answered (.frame m.interrupt.screen), m.interrupt)
  | .event (.sense now) => do
    let (woke, after) ← sense m now
    return (.answered (.sensed woke), after)
  | .dump => do
    let d ← dump m
    return (.dumped d, m)
  | .disassemble => do
    let listing ← items m.memory.disassembly
    return (.listed listing, m)

def performAll (m : Machine) : List Machine.Request → Option (List Machine.Response × Machine)
  | [] => some ([], m)
  | r :: rs => do
    let (answer, after) ← perform m r
    let (answers, last) ← performAll after rs
    return (answer :: answers, last)

end Chip8.Checked
