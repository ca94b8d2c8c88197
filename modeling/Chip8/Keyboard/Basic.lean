import Chip8.FrontEnd.Device

namespace Chip8

inductive KeyCode where
  | escape
  | character (c : Char)
  | other
deriving DecidableEq, Repr

structure KeyPress where
  code : KeyCode
  control : Bool := false
deriving DecidableEq, Repr

namespace KeyPress

def letters : Vector Char 16 :=
  #v['x', '1', '2', '3', 'q', 'w', 'e', 'a', 's', 'd', 'z', 'c', '4', 'r', 'f', 'v']

def quits (p : KeyPress) : Bool :=
  match p.code with
  | .escape => true
  | .character c => c == 'c' && p.control
  | .other => false

def key? (p : KeyPress) : Option Key :=
  match p.code with
  | .character c =>
    if p.quits then none else (List.finRange 16).find? fun k => letters.get k == c.toLower
  | _ => none

theorem letters_injective {j k : Key} (h : letters.get j = letters.get k) : j = k := by
  revert j k
  decide

end KeyPress

structure Keyboard where
  held : Vector Nat 16
  quit : Bool
  waiting : List KeyPress
deriving DecidableEq, Repr

namespace Keyboard

def holdScans : Nat := 6

def idle : Keyboard := ⟨Vector.replicate 16 0, false, []⟩

def feed (k : Keyboard) (presses : List KeyPress) : Keyboard :=
  { k with waiting := k.waiting ++ presses }

def press (k : Keyboard) (p : KeyPress) : Keyboard :=
  { k with
    quit := k.quit || p.quits
    held := Vector.ofFn fun key => if p.key? = some key then holdScans else k.held.get key }

def release (k : Keyboard) : Keyboard := { k with held := k.held.map (· - 1) }

def scan (k : Keyboard) : Keypad × Keyboard :=
  let after := { k.waiting.foldl press k.release with waiting := [] }
  (⟨after.held.map fun n => 0 < n⟩, after)

end Keyboard

instance : Input Keyboard where
  scan k := .ok k.scan
  wantsQuit k := k.quit

end Chip8
