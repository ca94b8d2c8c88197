import Chip8.Machine.Step
import Chip8.Session.Basic

namespace Chip8.Machine

def traceMessage (m : Machine) (w : Word) : Log.Message :=
  ⟨.trace, Hex.tagged 3 m.pc.toNat ++ "  " ++ Hex.padded 4 w.toNat ++ "  " ++
    (Instruction.decode w).text⟩

def noKeyMessage (m : Machine) (x : Register) : Log.Message :=
  ⟨.warn, x.text ++ " holds " ++ Hex.tagged 2 (m.v x).toNat ++ ", which isn't a key (at " ++
    Hex.tagged 3 m.pc.toNat ++ "); treating as not pressed"⟩

def warnings (m : Machine) : Instruction → List Log.Message
  | .unknown w =>
    [⟨.warn, "unknown opcode " ++ Hex.tagged 4 w.toNat ++ " at " ++ Hex.tagged 3 m.pc.toNat ++
      ", skipping"⟩]
  | .skip (.pressed x) | .skip (.released x) =>
    if (m.keypad.isDown? (m.v x)).isSome then [] else [m.noKeyMessage x]
  | _ => []

def stepLog (m : Machine) : List Log.Message :=
  match m.mode, m.memory.fetch m.pc with
  | .running, .ok w => m.traceMessage w :: m.warnings (.decode w)
  | _, _ => []

def runLog : Nat → Machine → List Log.Message
  | 0, _ => []
  | left + 1, m =>
    m.stepLog ++
      match m.step with
      | (.executed _, after) => runLog left after
      | _ => []

def keypadLog (m : Machine) (now : Keypad) : List Log.Message :=
  match m.mode, m.keypad.freshKey? now with
  | .awaitingKey x, some k =>
    [⟨.debug, "key " ++ String.singleton (Hex.upper k) ++ " pressed, " ++ x.text ++ " set, resuming"⟩]
  | _, _ => []

end Chip8.Machine

namespace Chip8.Session

def Event.messages : Event → List Log.Message
  | .started pc speed =>
    [⟨.info, "executor started at " ++ Hex.tagged 3 pc.toNat ++ ", " ++ toString speed.toNat ++
      " instructions per frame"⟩]
  | .handled .halt _ => [⟨.debug, "halt requested"⟩]
  | .stepped (.faulted f) => [⟨.error, f.text⟩]
  | .refused (.frame _) => [⟨.debug, "frame consumer went away"⟩]
  | .dropped number _ => [⟨.trace, "consumer behind, dropped frame " ++ toString number⟩]
  | .stopped frames => [⟨.info, "executor stopped after " ++ toString frames ++ " frames"⟩]
  | _ => []

def messages (events : List Event) : List Log.Message := events.flatMap Event.messages

def machineMessages (s : Session) : List Log.Message :=
  match s.phase, s.inbox with
  | .stepping (_ + 1), _ => s.machine.stepLog
  | .draining, .keypad now :: _ | .pacing, .keypad now :: _ => s.machine.keypadLog now
  | _, _ => []

end Chip8.Session
