import Chip8.Machine.Basic

namespace Chip8

inductive Transfer where
  | next
  | skip
  | jump (target : UInt16)
  | wait (x : Register)
deriving DecidableEq, Repr

def Transfer.skipIf (taken : Bool) : Transfer := if taken then .skip else .next

inductive Outcome where
  | executed (i : Instruction)
  | waiting
  | faulted (f : Fault)
deriving DecidableEq, Repr

def AluOp.eval (a b : UInt8) : AluOp → UInt8 × Option UInt8
  | .load => (b, none)
  | .or => (a ||| b, none)
  | .and => (a &&& b, none)
  | .xor => (a ^^^ b, none)
  | .add => (a + b, some (if a.toNat + b.toNat < 256 then 0 else 1))
  | .sub => (a - b, some (if b ≤ a then 1 else 0))
  | .shr => (a >>> 1, some (a &&& 1))
  | .subn => (b - a, some (if a ≤ b then 1 else 0))
  | .shl => (a <<< 1, some (a >>> 7))

namespace Machine

def runAlu (m : Machine) (op : AluOp) (x y : Register) : Machine :=
  match op.eval (m.v x) (m.v y) with
  | (result, none) => m.setV x result
  | (result, some flag) => (m.setV x result).setV .flag flag

def keyDown (m : Machine) (x : Register) : Bool :=
  (m.keypad.isDown? (m.v x)).getD false

def holds (m : Machine) : Condition → Bool
  | .equalByte x kk => m.v x == kk
  | .notEqualByte x kk => m.v x != kk
  | .equal x y => m.v x == m.v y
  | .notEqual x y => m.v x != m.v y
  | .pressed x => m.keyDown x
  | .released x => !m.keyDown x

def decimalDigits (b : UInt8) : List UInt8 := [b / 100, b / 10 % 10, b % 10]

def registersTo (m : Machine) (x : Register) : List UInt8 := m.registers.toList.take (x.val + 1)

def withRegisters (m : Machine) (bytes : List UInt8) : Machine :=
  { m with registers := Vector.ofFn fun k => bytes[k.val]?.getD (m.v k) }

def write (m : Machine) (data : List UInt8) : Except FaultCause Transfer × Machine :=
  match m.memory.write m.index data with
  | (.ok (), memory) => (.ok .next, { m with memory })
  | (.error c, memory) => (.error c, { m with memory })

def execute (m : Machine) : Instruction → Except FaultCause Transfer × Machine
  | .clear => (.ok .next, { m with screen := m.screen.clear })
  | .ret =>
    match m.stack.pop with
    | (.ok target, stack) => (.ok (.jump target), { m with stack })
    | (.error c, stack) => (.error c, { m with stack })
  | .jump target => (.ok (.jump target.toWord), m)
  | .call target =>
    match m.stack.push (m.pc + 2) with
    | (.ok (), stack) => (.ok (.jump target.toWord), { m with stack })
    | (.error c, stack) => (.error c, { m with stack })
  | .jumpFromV0 base => (.ok (.jump (base.toWord + (m.v .zero).toUInt16)), m)
  | .skip condition => (.ok (.skipIf (m.holds condition)), m)
  | .loadByte x kk => (.ok .next, m.setV x kk)
  | .addByte x kk => (.ok .next, m.setV x (m.v x + kk))
  | .alu op x y => (.ok .next, m.runAlu op x y)
  | .random x mask =>
    let (b, random) := m.random.next
    (.ok .next, { m with random }.setV x (b &&& mask))
  | .loadIndex a => (.ok .next, { m with index := a.toWord })
  | .addIndex x => (.ok .next, { m with index := m.index + (m.v x).toUInt16 })
  | .loadGlyph x => (.ok .next, { m with index := Memory.glyph (m.v x) })
  | .draw x y rows =>
    match m.memory.slice m.index (UInt64.ofNat rows.val) with
    | .error c => (.error c, m)
    | .ok sprite =>
      let (hit, screen) := m.screen.draw (m.v x).toUInt64 (m.v y).toUInt64 sprite
      (.ok .next, { m with screen }.setV .flag (if hit then 1 else 0))
  | .readDelay x => (.ok .next, m.setV x m.timers.delay)
  | .setDelay x => (.ok .next, { m with timers := { m.timers with delay := m.v x } })
  | .setSound x => (.ok .next, { m with timers := { m.timers with sound := m.v x } })
  | .waitKey x => (.ok (.wait x), m)
  | .storeDecimal x => m.write (decimalDigits (m.v x))
  | .storeRegisters x => m.write (m.registersTo x)
  | .loadRegisters x =>
    match m.memory.slice m.index (UInt64.ofNat (x.val + 1)) with
    | .error c => (.error c, m)
    | .ok bytes => (.ok .next, m.withRegisters bytes)
  | .unknown _ => (.ok .next, m)

def follow (m : Machine) (pc : UInt16) : Transfer → Machine
  | .next => { m with pc := pc + 2 }
  | .skip => { m with pc := pc + 4 }
  | .jump target => { m with pc := target }
  | .wait x => { m with mode := .awaitingKey x }

def step (m : Machine) : Outcome × Machine :=
  match m.mode with
  | .awaitingKey _ => (.waiting, m)
  | .running =>
    match m.memory.fetch m.pc with
    | .error _ => (.faulted ⟨.fetchOutOfBounds, m.pc, none⟩, m)
    | .ok word =>
      match m.execute (.decode word) with
      | (.error c, after) => (.faulted ⟨c, m.pc, some word⟩, after)
      | (.ok flow, after) => (.executed (.decode word), after.follow m.pc flow)

inductive Stop where
  | limit
  | waiting
  | faulted (f : Fault)
deriving DecidableEq, Repr

def run (n : Nat) (m : Machine) : (Nat × Stop) × Machine :=
  go 0 n m
where
  go (count : Nat) : Nat → Machine → (Nat × Stop) × Machine
    | 0, m => ((count, .limit), m)
    | left + 1, m =>
      match m.step with
      | (.executed _, after) => go (count + 1) left after
      | (.waiting, after) => ((count, .waiting), after)
      | (.faulted f, after) => ((count, .faulted f), after)

end Machine

end Chip8
