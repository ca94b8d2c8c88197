import Chip8.Screen
import Chip8.Keypad

namespace Chip8

class Display (δ : Type) where
  draw : δ → Screen → Except String δ

class Input (ι : Type) where
  scan : ι → Except String (Keypad × ι)
  wantsQuit : ι → Bool

structure Recorder where
  frames : Nat := 0
  last : Option Screen := none
deriving DecidableEq, Repr

instance : Display Recorder where
  draw r f := .ok ⟨r.frames + 1, some f⟩

structure Playback where
  current : Keypad
  script : List Keypad
  scans : Nat := 0
  quitAfter : Option Nat := none
deriving DecidableEq, Repr

namespace Playback

def scan (p : Playback) : Keypad × Playback :=
  match p.script with
  | [] => (p.current, { p with scans := p.scans + 1 })
  | next :: rest => (p.current, { p with current := next, script := rest, scans := p.scans + 1 })

def wantsQuit (p : Playback) : Bool := p.quitAfter.any fun n => n ≤ p.scans

end Playback

instance : Input Playback where
  scan p := .ok p.scan
  wantsQuit := Playback.wantsQuit

structure Breaking (α : Type) where
  device : α
  failsAt : Option Nat
  reason : String
  uses : Nat := 0
deriving DecidableEq, Repr

def Breaking.fails {α : Type} (b : Breaking α) : Bool := b.failsAt == some (b.uses + 1)

instance {δ : Type} [Display δ] : Display (Breaking δ) where
  draw b f :=
    if b.fails then .error b.reason
    else (Display.draw b.device f).map fun device => { b with device, uses := b.uses + 1 }

instance {ι : Type} [Input ι] : Input (Breaking ι) where
  scan b :=
    if b.fails then .error b.reason
    else (Input.scan b.device).map fun (keys, device) => (keys, { b with device, uses := b.uses + 1 })
  wantsQuit b := Input.wantsQuit b.device

end Chip8
