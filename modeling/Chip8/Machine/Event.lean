import Chip8.Machine.Step

namespace Chip8

def Keypad.changes (last : Keypad) : List Keypad → List Keypad
  | [] => []
  | now :: rest => if now = last then changes last rest else now :: changes now rest

namespace Machine

inductive Event where
  | step
  | interrupt
  | sense (now : Keypad)
deriving DecidableEq, Repr

inductive Answer where
  | stepped (outcome : Outcome)
  | frame (f : Screen)
  | sensed (woke : Option Key)
deriving DecidableEq, Repr

def respond (m : Machine) : Event → Answer × Machine
  | .step => (.stepped m.step.1, m.step.2)
  | .interrupt => (.frame m.interrupt.screen, m.interrupt)
  | .sense now => (.sensed (m.sense now).1, (m.sense now).2)

def after (m : Machine) : List Event → Machine
  | [] => m
  | e :: es => (m.respond e).2.after es

def answers (m : Machine) : List Event → List Answer
  | [] => []
  | e :: es => (m.respond e).1 :: (m.respond e).2.answers es

def Event.snapshot? : Event → Option Keypad
  | .sense now => some now
  | _ => none

def snapshots (es : List Event) : List Keypad := es.filterMap Event.snapshot?

def latest (p : Keypad) (es : List Event) : Keypad := (snapshots es).getLastD p

def ticks (es : List Event) : Nat := es.count .interrupt

def Answer.outcome? : Answer → Option Outcome
  | .stepped outcome => some outcome
  | _ => none

def Answer.frame? : Answer → Option Screen
  | .frame f => some f
  | _ => none

theorem after_append (m : Machine) (es fs : List Event) : m.after (es ++ fs) = (m.after es).after fs := by
  induction es generalizing m with
  | nil => rfl
  | cons e es ih => exact ih _

theorem answers_append (m : Machine) (es fs : List Event) :
    m.answers (es ++ fs) = m.answers es ++ (m.after es).answers fs := by
  induction es generalizing m with
  | nil => rfl
  | cons e es ih => exact congrArg _ (ih _)

def withoutRepeats (last : Keypad) : List Event → List Event
  | [] => []
  | .step :: es => .step :: withoutRepeats last es
  | .interrupt :: es => .interrupt :: withoutRepeats last es
  | .sense now :: es => if now = last then withoutRepeats last es else .sense now :: withoutRepeats now es

end Machine

end Chip8
