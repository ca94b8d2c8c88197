import Chip8.ReturnStack
import Chip8.Settings.Basic
import Chip8.Disassembly
import Chip8.Keypad
import Chip8.Memory.Load
import Chip8.Random
import Chip8.Timers

namespace Chip8

inductive Mode where
  | running
  | awaitingKey (x : Register)
deriving DecidableEq, Repr

structure Machine where
  memory : Memory
  registers : Vector UInt8 16
  index : UInt16
  pc : UInt16
  stack : ReturnStack
  timers : Timers
  screen : Screen
  keypad : Keypad
  mode : Mode
  random : RandomSource
deriving DecidableEq, Repr

inductive BootError where
  | settings (e : SettingsError)
  | tooManyCells
deriving DecidableEq, Repr

namespace Machine

def ofSettings (s : Settings) (hfits : Screen.Fits s.width s.height) (random : RandomSource) : Machine where
  memory := .blank s.origin
  registers := Vector.replicate 16 0
  index := 0
  pc := s.origin
  stack := .empty
  timers := .stopped
  screen := .blank s.width s.height hfits
  keypad := .released
  mode := .running
  random := random

def boot (s : Settings) (fallback : RandomSource) : Except BootError Machine :=
  match s.validate with
  | .error e => .error (.settings e)
  | .ok () =>
    if hfits : Screen.Fits s.width s.height then .ok (ofSettings s hfits (s.seed.elim fallback .ofSeed))
    else .error .tooManyCells

def load (m : Machine) (program : List UInt8) : Except LoadError Nat × Machine :=
  let (answer, memory) := m.memory.load program
  (answer, { m with memory })

def loadFrom (m : Machine) (source : ByteSource) : Except LoadError Nat × Machine :=
  let (answer, memory) := m.memory.loadFrom source
  (answer, { m with memory })

def v (m : Machine) (x : Register) : UInt8 := m.registers.get x

def setV (m : Machine) (x : Register) (b : UInt8) : Machine :=
  { m with registers := m.registers.set x.val b x.isLt }

@[simp] theorem v_setV (m : Machine) (x : Register) (b : UInt8) : (m.setV x b).v x = b :=
  Vector.getElem_set_self x.isLt

theorem v_setV_of_ne (m : Machine) {x y : Register} (h : x ≠ y) (b : UInt8) : (m.setV x b).v y = m.v y :=
  Vector.getElem_set_ne x.isLt y.isLt fun hv => h (Fin.ext hv)

theorem setV_setV (m : Machine) (x : Register) (a b : UInt8) : (m.setV x a).setV x b = m.setV x b := by
  simp only [setV, Vector.set_set]

def interrupt (m : Machine) : Machine := { m with timers := m.timers.tick }

def sense (m : Machine) (now : Keypad) : Option Key × Machine :=
  match m.mode, m.keypad.freshKey? now with
  | .awaitingKey x, some k =>
    (some k,
      { m.setV x (UInt8.ofNat k.val) with
        keypad := now
        pc := m.pc + 2
        mode := .running })
  | _, _ => (none, { m with keypad := now })

def listing (m : Machine) : List String := m.memory.disassembly.listing

end Machine

end Chip8
