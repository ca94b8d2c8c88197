import Chip8.Settings.Document
import Chip8.Numeral

namespace Chip8.CommandLine

def origin? (s : List Char) : Option UInt16 :=
  let number := match s with
    | '0' :: 'x' :: digits | '0' :: 'X' :: digits => Numeral.unsigned? 16 digits
    | digits => Numeral.unsigned? 10 digits
  (number.filter (· < UInt16.size)).map UInt16.ofNat

def count32? (s : List Char) : Option UInt32 :=
  (Numeral.signed? 10 s).bind fun n =>
    if 0 ≤ n ∧ n.toNat < UInt32.size then some (UInt32.ofNat n.toNat) else none

def count64? (s : List Char) : Option UInt64 :=
  ((Numeral.unsigned? 10 s).filter (· < UInt64.size)).map UInt64.ofNat

def path? (s : List Char) : Option String := if s.isEmpty then none else some (String.ofList s)

structure Options where
  rom : Option String := none
  config : Option String := none
  origin : Option UInt16 := none
  speed : Option UInt32 := none
  seed : Option UInt64 := none
  listing : Bool := false
  logFile : Option String := none
  frames : Option UInt64 := none
deriving DecidableEq, Repr

inductive Refusal where
  | help
  | usage
deriving DecidableEq, Repr

inductive Valued where
  | config | origin | speed | seed | logFile | frames
deriving DecidableEq, Repr

def Valued.name : Valued → String
  | .config => "config"
  | .origin => "origin"
  | .speed => "ipf"
  | .seed => "seed"
  | .logFile => "log-file"
  | .frames => "frames"

def Valued.ofName? (s : List Char) : Option Valued :=
  [.config, .origin, .speed, .seed, .logFile, .frames].find? fun v => v.name.toList == s

namespace Options

def once {α : Type} (place value : Option α) (fill : α → Options) : Except Refusal Options :=
  match place, value with
  | none, some a => .ok (fill a)
  | _, _ => .error .usage

def give (o : Options) (value : List Char) : Valued → Except Refusal Options
  | .config => once o.config (path? value) fun v => { o with config := some v }
  | .origin => once o.origin (origin? value) fun v => { o with origin := some v }
  | .speed => once o.speed (count32? value) fun v => { o with speed := some v }
  | .seed => once o.seed (count64? value) fun v => { o with seed := some v }
  | .logFile => once o.logFile (path? value) fun v => { o with logFile := some v }
  | .frames => once o.frames (count64? value) fun v => { o with frames := some v }

def positional (o : Options) (value : List Char) : Except Refusal Options :=
  once o.rom (path? value) fun v => { o with rom := some v }

def mark (o : Options) (name : List Char) : Except Refusal Options :=
  if name = "help".toList then .error .help
  else if name = "disasm".toList ∧ !o.listing then .ok { o with listing := true }
  else .error .usage

def looksLikeOption : List Char → Bool
  | '-' :: _ :: _ => true
  | _ => false

def readRest (o : Options) : List (List Char) → Except Refusal Options
  | [] => .ok o
  | arg :: rest => (o.positional arg).bind fun o => o.readRest rest

def read (o : Options) : List (List Char) → Except Refusal Options
  | [] => .ok o
  | ['-', '-'] :: rest => o.readRest rest
  | ('-' :: '-' :: text) :: rest =>
    match text.dropWhile (· != '='), Valued.ofName? (text.takeWhile (· != '=')) with
    | _ :: value, some v => (o.give value v).bind fun o => o.read rest
    | _ :: _, none => .error .usage
    | [], none => (o.mark text).bind fun o => o.read rest
    | [], some v =>
      match rest with
      | value :: rest =>
        if looksLikeOption value then .error .usage
        else (o.give value v).bind fun o => o.read rest
      | [] => .error .usage
  | ('-' :: c :: _) :: _ => .error (if c = 'h' then .help else .usage)
  | arg :: rest => (o.positional arg).bind fun o => o.read rest

def ofArguments (args : List String) : Except Refusal Options :=
  (read {} (args.map String.toList)).bind fun o => if o.rom.isSome then .ok o else .error .usage

def overlay (o : Options) (s : Settings) : Settings :=
  { s with
    origin := o.origin.getD s.origin
    speed := o.speed.getD s.speed
    seed := o.seed <|> s.seed }

def configure (o : Options) (document : Option String) : Except SettingsError Settings :=
  match document.elim (.ok {}) Settings.ofDocument with
  | .error e => .error e
  | .ok s =>
    match (o.overlay s).validate with
    | .error e => .error e
    | .ok () => .ok (o.overlay s)

end Options

def helpText : List String :=
  ["A CHIP-8 virtual machine for the terminal",
   "",
   "Usage: chip8vm [OPTIONS] <ROM>",
   "",
   "Arguments:",
   "  <ROM>  ROM file to load",
   "",
   "Options:",
   "      --config <CONFIG>      TOML config file",
   "      --origin <ORIGIN>      load origin, e.g. 0x200",
   "      --ipf <IPF>            instructions per 60Hz frame",
   "      --seed <SEED>          seed for RND",
   "      --disasm               print a disassembly of the ROM and exit",
   "      --log-file <LOG_FILE>  write logs here (RUST_LOG picks the level)",
   "      --frames <FRAMES>      stop after this many frames",
   "  -h, --help                 Print help"]

end Chip8.CommandLine
