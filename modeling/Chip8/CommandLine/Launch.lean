import Chip8.CommandLine.Options
import Chip8.FrontEnd.Basic
import Chip8.Machine.Dump

namespace Chip8.CommandLine

structure Files (m : Type → Type) where
  create : String → m (Except String Unit)
  text : String → m (Except String String)
  openBytes : String → m (Except String ByteSource)

inductive LaunchError where
  | system (reason : String)
  | settings (e : SettingsError)
  | tooManyCells
  | load (e : LoadError)
deriving DecidableEq, Repr

def LaunchError.text : LaunchError → String
  | .system reason => reason
  | .settings e => e.text?.getD "failed to parse config"
  | .tooManyCells => "the display has too many cells"
  | .load e => e.text

structure Ready where
  settings : Settings
  machine : Machine

namespace Options

def createLog {m : Type → Type} [Monad m] (files : Files m) (o : Options) :
    m (Except LaunchError Unit) := do
  match o.logFile with
  | none => pure (.ok ())
  | some path => return (← files.create path).mapError .system

def readDocument {m : Type → Type} [Monad m] (files : Files m) (o : Options) :
    m (Except LaunchError (Option String)) := do
  match o.config with
  | none => pure (.ok none)
  | some path =>
    match ← files.text path with
    | .ok text => pure (.ok (some text))
    | .error reason => pure (.error (.settings (.unreadable reason)))

def openProgram {m : Type → Type} [Monad m] (files : Files m) (o : Options) :
    m (Except LaunchError ByteSource) := do
  return (← files.openBytes (o.rom.getD "")).mapError .system

def boot (o : Options) (fallback : RandomSource) (document : Option String) : Except LaunchError Ready :=
  match o.configure document with
  | .error e => .error (.settings e)
  | .ok settings =>
    match Machine.boot settings fallback with
    | .error (.settings e) => .error (.settings e)
    | .error .tooManyCells => .error .tooManyCells
    | .ok machine => .ok ⟨settings, machine⟩

def launch {m : Type → Type} [Monad m] (files : Files m) (fallback : RandomSource) (o : Options) :
    m (Except LaunchError Ready) := do
  match ← o.createLog files with
  | .error e => pure (.error e)
  | .ok () =>
    match ← o.readDocument files with
    | .error e => pure (.error e)
    | .ok document =>
      match o.boot fallback document with
      | .error e => pure (.error e)
      | .ok ready =>
        match ← o.openProgram files with
        | .error e => pure (.error e)
        | .ok source =>
          match ready.machine.loadFrom source with
          | (.error e, _) => pure (.error (.load e))
          | (.ok _, machine) => pure (.ok { ready with machine })

end Options

namespace Ready

def frontEnd {δ ι : Type} (r : Ready) (o : Options) (display : δ) (input : ι) : FrontEnd δ ι where
  session := (Session.start r.machine r.settings.speed).2
  display := display
  input := input
  limit := o.frames.map UInt64.toNat

end Ready

inductive Refused where
  | options (r : Refusal)
  | launch (e : LaunchError)
  | run (e : FrontEnd.Failure)
  | fault (f : Fault) (dump : Dump)

def conclude (result : Except FrontEnd.Failure Session.Summary) : Except Refused Unit :=
  match result with
  | .error e => .error (.run e)
  | .ok summary =>
    match summary.fault with
    | none => .ok ()
    | some f => .error (.fault f summary.machine.dump)

def Refused.exitCode : Refused → UInt32
  | .options .help => 0
  | .options .usage => 2
  | .launch .tooManyCells => 101
  | _ => 1

def Refused.lines : Refused → List String
  | .options .help => []
  | .options .usage => ["usage: chip8vm [OPTIONS] <ROM>"]
  | .launch e => [e.text]
  | .run e => [e.text]
  | .fault f dump => dump.lines ++ [f.text]

end Chip8.CommandLine
