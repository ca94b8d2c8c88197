import Chip8.FrontEnd.Basic
import Chip8.Session.Trace

namespace Chip8.FrontEnd

variable {δ ι : Type}

def attach (session : Session) (display : δ) (input : ι) (limit : Option Nat) : FrontEnd δ ι :=
  { session, display, input, limit }

namespace Event

def session? : Event → Option Session.Event
  | .session e => some e
  | _ => none

def isDraw : Event → Bool
  | .drew _ => true
  | _ => false

def isFailure : Event → Bool
  | .drawFailed _ | .scanFailed _ => true
  | _ => false

def failure? : Event → Option String
  | .drawFailed reason | .scanFailed reason => some reason
  | _ => none

def isCall : Event → Bool
  | .session _ => false
  | _ => true

def scanned? : Event → Option Keypad
  | .scanned keys => some keys
  | _ => none

def told? (x : Event) : Option Command := x.session?.bind Session.Event.told?

end Event

def toldKeypads (events : List Event) : List Keypad :=
  (events.filterMap Event.told?).filterMap Command.snapshot?

def handledKeypads (events : List Event) : List Keypad :=
  ((events.filterMap Event.session?).filterMap Session.Event.handled?).filterMap Command.snapshot?

inductive Played [Display δ] [Input ι] (display : δ) (input : ι) : List Event → δ → ι → Option Screen → Prop
  | nil : Played display input [] display input none
  | session {past d i held e} : Played display input past d i held → (∀ f, e ≠ .received (.frame f)) →
      Played display input (past ++ [.session e]) d i held
  | frame {past d i f} : Played display input past d i none →
      Played display input (past ++ [.session (.received (.frame f))]) d i (some f)
  | drew {past d i f d'} : Played display input past d i (some f) → Display.draw d f = .ok d' →
      Played display input (past ++ [.drew f]) d' i none
  | drawFailed {past d i f reason} : Played display input past d i (some f) → Display.draw d f = .error reason →
      Played display input (past ++ [.drawFailed reason]) d i none
  | scanned {past d i keys i'} : Played display input past d i none → Input.scan i = .ok (keys, i') →
      Played display input (past ++ [.scanned keys]) d i' none
  | scanFailed {past d i reason} : Played display input past d i none → Input.scan i = .error reason →
      Played display input (past ++ [.scanFailed reason]) d i none

def Phase.held : Phase → Option Screen
  | .drawing f => some f
  | _ => none

def Phase.pending : Phase → List Keypad
  | .sending keys => [keys]
  | _ => []

end Chip8.FrontEnd
