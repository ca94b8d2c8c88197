import Chip8.CommandLine.Launch
import Chip8.Timers
import Chip8.FrontEnd.Basic
import Chip8.Keyboard.Typed
import Chip8.Session.Log

namespace Chip8.CommandLine

def attempt {α : Type} (act : IO α) : IO (Except String α) := do
  match ← act.toBaseIO with
  | .ok a => pure (.ok a)
  | .error e => pure (.error (toString e))

def openBytes (path : String) : IO (Except String ByteSource) := do
  match ← attempt (IO.FS.Handle.mk path .read) with
  | .error reason => pure (.error reason)
  | .ok handle =>
    match ← attempt handle.readBinToEnd with
    | .error reason => pure (.ok ⟨[], some reason⟩)
    | .ok bytes => pure (.ok ⟨[bytes.toList], none⟩)

def diskFiles : Files IO where
  create path := attempt (IO.FS.writeFile path "")
  text path := attempt (IO.FS.readFile path)
  openBytes := openBytes

def freshRandom : IO RandomSource := do
  let bytes ← IO.getRandomBytes 32
  let word (k : Nat) : UInt32 :=
    (List.range 4).foldl (fun w i => w * 256 + (bytes.data[4 * k + i]?.getD 0).toUInt32) 0
  pure (.ofKey (Vector.ofFn fun k => word k.val))

structure LogFile where
  handle : Option IO.FS.Handle

def LogFile.note (l : LogFile) (messages : List Log.Message) : IO Unit := do
  match l.handle with
  | none => pure ()
  | some handle =>
    for m in messages.filter (Log.Filter.upTo .debug).admits do
      handle.putStrLn m.line
    handle.flush

def rowText (f : Screen) (y : Nat) : String :=
  String.ofList ((List.range f.width.toNat).map fun x =>
    if f.get (UInt64.ofNat x) (UInt64.ofNat y) then '█' else ' ')

def paint (f : Screen) : IO Unit := do
  let out ← IO.getStdout
  let edge := "+" ++ String.ofList (List.replicate f.width.toNat '-') ++ "+"
  let rows := (List.range f.height.toNat).map fun y => "|" ++ rowText f y ++ "|"
  out.putStr ("\x1b[H" ++ "\r\n".intercalate ([edge] ++ rows ++ [edge]) ++ "\r\n")
  out.flush

partial def listen (typed : IO.Ref (List UInt8)) : IO Unit := do
  let bytes ← (← IO.getStdin).read 1
  if bytes.isEmpty then pure ()
  else
    typed.modify (· ++ bytes.toList)
    listen typed

def waitUntil (deadline : Nat) : IO Unit := do
  let now ← IO.monoNanosNow
  if now < deadline then IO.sleep (UInt32.ofNat ((deadline - now) / 1000000))

def withTyped (typed : IO.Ref (List UInt8)) (e : FrontEnd Recorder Keyboard) :
    IO (FrontEnd Recorder Keyboard) := do
  match e.phase with
  | .scanning =>
    let bytes ← typed.swap []
    pure { e with input := e.input.feed (KeyPress.ofBytes bytes) }
  | _ => pure e

def sessionMessages (events : List FrontEnd.Event) : List Log.Message :=
  events.flatMap fun
    | .session event => event.messages
    | _ => []

partial def play (log : LogFile) (typed : IO.Ref (List UInt8)) (clock : Pacer)
    (e : FrontEnd Recorder Keyboard) : IO (FrontEnd Recorder Keyboard) := do
  let e ← withTyped typed e
  match e.next? with
  | none => pure e
  | some (action, events, after) =>
    match action, e.phase with
    | .execute, _ => log.note e.session.machineMessages
    | .pump, .drawing f => paint f
    | _, _ => pure ()
    log.note (sessionMessages events)
    match action with
    | .timeout =>
      waitUntil clock.deadline
      play log typed (clock.advance (← IO.monoNanosNow)) after
    | _ => play log typed clock after

def runSession (log : LogFile) (o : Options) (ready : Ready) : IO (Except Refused Unit) := do
  let typed ← IO.mkRef []
  let _ ← IO.asTask (listen typed) .dedicated
  (← IO.getStdout).putStr "\x1b[2J"
  log.note (Session.messages (Session.start ready.machine ready.settings.speed).1)
  let clock := Pacer.start Pacer.defaultRate (← IO.monoNanosNow)
  let ended ← play log typed clock (ready.frontEnd o {} .idle)
  IO.println ""
  IO.println ""
  pure ((ended.result?.map conclude).getD (.ok ()))

def runOptions (o : Options) : IO (Except Refused Unit) := do
  match ← o.launch diskFiles (← freshRandom) with
  | .error e => pure (.error (.launch e))
  | .ok ready =>
    if o.listing then
      ready.machine.listing.forM (IO.println ·)
      pure (.ok ())
    else
      let handle ← o.logFile.mapM fun path => IO.FS.Handle.mk path .append
      runSession ⟨handle⟩ o ready

end Chip8.CommandLine

open Chip8.CommandLine in
def main (args : List String) : IO UInt32 := do
  let result ← match Options.ofArguments args with
    | .error r => pure (.error (.options r))
    | .ok o => runOptions o
  match result with
  | .ok () => pure 0
  | .error refused =>
    if refused.exitCode = 0 then helpText.forM (IO.println ·)
    refused.lines.forM (IO.eprintln ·)
    pure refused.exitCode
