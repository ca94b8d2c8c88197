import Chip8.Machine.Event
import Chip8.Session.Basic
import Chip8.Timers

namespace Chip8

def Output.isFrame : Output → Bool
  | .frame _ => true
  | .halted _ => false

def Command.snapshot? : Command → Option Keypad
  | .keypad now => some now
  | _ => none

def Command.acts : Command → Bool
  | .keypad _ | .halt => true
  | .disassemble | .dump => false

def Command.answer (m : Machine) : Command → Option Reply
  | .dump => some (.dump m.dump)
  | .disassemble => some (.listing m.listing)
  | .keypad _ | .halt => none

def Command.effect (m : Machine) : Command → Machine
  | .keypad now => (m.sense now).2
  | .dump | .disassemble | .halt => m

inductive Pacer.Ticks : Nat → Pacer → List Nat → Prop
  | nil {now c} : Ticks now c []
  | cons {now c tick ticks} (resumed reading : Nat) : now ≤ tick → tick ≤ resumed → c.deadline ≤ resumed →
      resumed ≤ reading → Ticks reading (c.advance reading) ticks → Ticks now c (tick :: ticks)

namespace Session

namespace Event

def sent? : Event → Option Command
  | .sent c => some c
  | _ => none

def told? : Event → Option Command
  | .sent c | .undelivered c => some c
  | _ => none

def handled? : Event → Option Command
  | .handled c _ => some c
  | _ => none

def dumped? : Event → Option Dump
  | .handled .dump (some (.dump d)) => some d
  | _ => none

def produced? : Event → Option Screen
  | .produced f => some f
  | _ => none

def published? : Event → Option Output
  | .published o => some o
  | _ => none

def dropped? : Event → Option Screen
  | .dropped _ f => some f
  | _ => none

def received? : Event → Option Output
  | .received o => some o
  | _ => none

def isTurn : Event → Bool
  | .handled _ _ => true
  | .produced _ => true
  | _ => false

def outcome? : Event → Option Outcome
  | .stepped outcome => some outcome
  | _ => none

def call? : Event → Option Machine.Event
  | .stepped _ => some .step
  | .produced _ => some .interrupt
  | .handled (.keypad now) _ => some (.sense now)
  | _ => none

end Event

def calls (events : List Event) : List Machine.Event := events.filterMap Event.call?

inductive Turn where
  | command (c : Command)
  | frame
deriving DecidableEq, Repr

structure Course where
  events : List Event
  fault : Option Fault
  machine : Machine
deriving DecidableEq, Repr

def Turn.course (speed : UInt32) (m : Machine) : Turn → Course
  | .command c => ⟨[.handled c (c.answer m)], none, c.effect m⟩
  | .frame =>
    match m.run speed.toNat with
    | ((_, .faulted f), m') => ⟨[], some f, m'⟩
    | (_, m') => ⟨[.produced m'.interrupt.screen], none, m'.interrupt⟩

def Course.precede (past : List Event) (c : Course) : Course := { c with events := past ++ c.events }

def course? (speed : UInt32) (m : Machine) : List Turn → Option Course
  | [] => some ⟨[], none, m⟩
  | t :: rest =>
    match (t.course speed m).fault with
    | none => (course? speed (t.course speed m).machine rest).map (.precede (t.course speed m).events)
    | some _ => if rest.isEmpty then some (t.course speed m) else none

def Turn.acts : Turn → Bool
  | .command c => c.acts
  | .frame => true

def Turn.command? : Turn → Option Command
  | .command c => some c
  | .frame => none

def Event.turn? : Event → Option Turn
  | .handled c _ => some (.command c)
  | .produced _ => some .frame
  | _ => none

def turns (events : List Event) : List Turn := events.filterMap Event.turn?

def numbered (k : Nat) : List Turn → List (Nat × Command)
  | [] => []
  | .frame :: ts => numbered (k + 1) ts
  | .command c :: ts => (k, c) :: numbered k ts

def stimuli (events : List Event) : List (Nat × Command) :=
  (numbered 0 (turns events)).filter fun p => p.2.acts

def desertion? (events : List Event) (s : Session) : Option Nat :=
  if s.fault = none ∧ .halt ∉ events.filterMap Event.handled? then some s.frames else none

def machines (s : Session) : List Action → List Machine
  | [] => []
  | a :: rest =>
    match s.act a with
    | none => []
    | some (events, s') => (events.filterMap Event.produced?).map (fun _ => s'.machine) ++ s'.machines rest

inductive Clocked : Nat → Pacer → Session → List (Nat × Event) → Prop
  | nil {now c s} : Clocked now c s []
  | act {now c s events s' later} (time : Nat) (a : Action) : now ≤ time → a ≠ .timeout →
      s.act a = some (events, s') → Clocked time c s' later → Clocked now c s (events.map (time, ·) ++ later)
  | timeout {now c s events s' later} (resumed reading : Nat) : now ≤ resumed → c.deadline ≤ resumed →
      resumed ≤ reading → s.act .timeout = some (events, s') → Clocked reading (c.advance reading) s' later →
      Clocked now c s (events.map (reading, ·) ++ later)

def tick? (entry : Nat × Event) : Option Nat := entry.2.produced?.map fun _ => entry.1

def tickTimes (log : List (Nat × Event)) : List Nat := log.filterMap tick?

end Session

end Chip8
