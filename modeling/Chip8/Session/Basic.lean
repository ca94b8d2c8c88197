import Chip8.Machine.Dump
import Chip8.Machine.Step

namespace Chip8

inductive Command where
  | keypad (now : Keypad)
  | disassemble
  | dump
  | halt
deriving DecidableEq, Repr

inductive Reply where
  | listing (lines : List String)
  | dump (d : Dump)
deriving DecidableEq, Repr

inductive Output where
  | frame (f : Screen)
  | halted (fault : Option Fault)
deriving DecidableEq, Repr

namespace Session

inductive Phase where
  | draining
  | stepping (left : Nat)
  | interrupting
  | offering (f : Screen)
  | publishing (f : Screen)
  | pacing
  | stopping
  | stopped
deriving DecidableEq, Repr

inductive Event where
  | started (pc : UInt16) (speed : UInt32)
  | sent (c : Command)
  | undelivered (c : Command)
  | handled (c : Command) (reply : Option Reply)
  | stepped (outcome : Outcome)
  | produced (f : Screen)
  | published (o : Output)
  | dropped (number : Nat) (f : Screen)
  | refused (o : Output)
  | stopped (frames : Nat)
  | received (o : Output)
deriving DecidableEq, Repr

inductive Action where
  | execute
  | timeout
  | send (c : Command)
  | hangUp
  | receive
  | abandon
deriving DecidableEq, Repr

def backlog : Nat := 4

def capacity : Nat := backlog + 1

end Session

structure Session where
  machine : Machine
  speed : UInt32
  phase : Session.Phase
  -- below 2^64 in every run of fewer actions than that (FrontEnd.counters_fit), and so is FrontEnd.shown
  frames : Nat
  fault : Option Fault
  inbox : List Command
  clientsGone : Bool
  outbox : List Output
  consumerGone : Bool
deriving DecidableEq, Repr

namespace Session

def start (machine : Machine) (speed : UInt32) : List Event × Session :=
  ([.started machine.pc speed],
    { machine, speed, phase := .draining, frames := 0, fault := none, inbox := [], clientsGone := false,
      outbox := [], consumerGone := false })

def handle (m : Machine) : Command → Option Reply × Machine
  | .keypad now => (none, (m.sense now).2)
  | .disassemble => (some (.listing m.listing), m)
  | .dump => (some (.dump m.dump), m)
  | .halt => (none, m)

def take (s : Session) (c : Command) (rest : List Command) : List Event × Session :=
  ([.handled c (handle s.machine c).1],
    { s with
      machine := (handle s.machine c).2
      inbox := rest
      phase := if c = .halt then .stopping else s.phase })

def publish (s : Session) (o : Output) : Event × Session :=
  if s.consumerGone ∨ capacity ≤ s.outbox.length then (.refused o, s)
  else (.published o, { s with outbox := s.outbox ++ [o] })

def isRefusal : Event → Bool
  | .refused _ => true
  | _ => false

def execute (s : Session) : Option (List Event × Session) :=
  match s.phase with
  | .draining =>
    match s.inbox with
    | c :: rest => some (s.take c rest)
    | [] => some ([], { s with phase := if s.clientsGone then .stopping else .stepping s.speed.toNat })
  | .stepping 0 => some ([], { s with phase := .interrupting })
  | .stepping (left + 1) =>
    match s.machine.step with
    | (.executed i, machine) => some ([.stepped (.executed i)], { s with machine, phase := .stepping left })
    | (.waiting, machine) => some ([.stepped .waiting], { s with machine, phase := .interrupting })
    | (.faulted f, machine) =>
      some ([.stepped (.faulted f)], { s with machine, fault := some f, phase := .stopping })
  | .interrupting =>
    let machine := s.machine.interrupt
    some ([.produced machine.screen],
      { s with machine, frames := s.frames + 1, phase := .offering machine.screen })
  | .offering f =>
    if s.outbox.length < backlog then some ([], { s with phase := .publishing f })
    else some ([.dropped s.frames f], { s with phase := .pacing })
  | .publishing f =>
    let r := s.publish (.frame f)
    some ([r.1], { r.2 with phase := if isRefusal r.1 then .stopping else .pacing })
  | .pacing =>
    match s.inbox with
    | c :: rest => some (s.take c rest)
    | [] => if s.clientsGone then some ([], { s with phase := .stopping }) else none
  | .stopping =>
    let r := s.publish (.halted s.fault)
    some ([.stopped s.frames, r.1], { r.2 with phase := .stopped })
  | .stopped => none

def hasStopped (s : Session) : Bool := s.phase == .stopped

def canTimeOut (s : Session) : Bool := s.phase == .pacing && s.inbox.isEmpty && !s.clientsGone

def send (s : Session) (c : Command) : List Event × Session :=
  if s.hasStopped then ([.undelivered c], s) else ([.sent c], { s with inbox := s.inbox ++ [c] })

def receive? (s : Session) : Option (Output × Session) :=
  match s.outbox with
  | o :: rest => if s.consumerGone then none else some (o, { s with outbox := rest })
  | [] => none

def hangUp (s : Session) : Session := { s with clientsGone := true }

def act (s : Session) : Action → Option (List Event × Session)
  | .execute => s.execute
  | .timeout => if s.canTimeOut then some ([], { s with phase := .draining }) else none
  | .send c => if s.clientsGone then none else some (s.send c)
  | .hangUp => some ([], s.hangUp)
  | .receive => s.receive?.map fun (o, s') => ([.received o], s')
  | .abandon => some ([], { s with consumerGone := true })

def perform (s : Session) : List Action → Option (List Event × Session)
  | [] => some ([], s)
  | a :: rest =>
    (s.act a).bind fun (events, s') => (s'.perform rest).map fun (more, s'') => (events ++ more, s'')

def isClosed (s : Session) : Bool := s.outbox.isEmpty && s.hasStopped

structure Summary where
  machine : Machine
  fault : Option Fault
  frames : Nat
deriving DecidableEq, Repr

def summary (s : Session) : Summary := ⟨s.machine, s.fault, s.frames⟩

end Session

end Chip8
