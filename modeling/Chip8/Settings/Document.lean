import Chip8.Settings.Basic
import Chip8.Numeral

namespace Chip8

inductive Setting where
  | origin | speed | width | height | seed
deriving DecidableEq, Repr

namespace Setting

def name : Setting → String
  | .origin => "load_origin"
  | .speed => "instructions_per_frame"
  | .width => "display_width"
  | .height => "display_height"
  | .seed => "seed"

def all : List Setting := [.origin, .speed, .width, .height, .seed]

def ofName? (s : List Char) : Option Setting := all.find? fun k => k.name.toList == s

def max : Setting → Nat
  | .origin => UInt16.size - 1
  | .speed => UInt32.size - 1
  | .width | .height | .seed => UInt64.size / 2 - 1

end Setting

namespace Settings

def set (s : Settings) (value : Nat) : Setting → Settings
  | .origin => { s with origin := UInt16.ofNat value }
  | .speed => { s with speed := UInt32.ofNat value }
  | .width => { s with width := UInt64.ofNat value }
  | .height => { s with height := UInt64.ofNat value }
  | .seed => { s with seed := some (UInt64.ofNat value) }

end Settings

namespace Document

def isBlank (c : Char) : Bool := c == ' ' || c == '\t'

def inComment (c : Char) : Bool := c == '\t' || (' ' ≤ c && c != '\x7f')

def isBare (c : Char) : Bool :=
  ('A' ≤ c && c ≤ 'Z') || ('a' ≤ c && c ≤ 'z') || ('0' ≤ c && c ≤ '9') || c == '_' || c == '-'

def lines : List Char → List (List Char)
  | [] => [[]]
  | '\r' :: '\n' :: cs => [] :: lines cs
  | '\n' :: cs => [] :: lines cs
  | c :: cs =>
    match lines cs with
    | [] => [[c]]
    | l :: ls => (c :: l) :: ls

def moreDigits? (radix : Nat) : Nat → List Char → Option Nat
  | n, [] => some n
  | n, '_' :: c :: cs => (Numeral.digit? radix c).bind fun d => moreDigits? radix (n * radix + d) cs
  | n, c :: cs => (Numeral.digit? radix c).bind fun d => moreDigits? radix (n * radix + d) cs

def digits? (radix : Nat) : List Char → Option Nat
  | [] => none
  | c :: cs => (Numeral.digit? radix c).bind fun d => moreDigits? radix d cs

def decimal? : List Char → Option Nat
  | ['0'] => some 0
  | '0' :: _ => none
  | cs => digits? 10 cs

def integer? : List Char → Option Int
  | '0' :: 'x' :: cs => (digits? 16 cs).map Int.ofNat
  | '0' :: 'o' :: cs => (digits? 8 cs).map Int.ofNat
  | '0' :: 'b' :: cs => (digits? 2 cs).map Int.ofNat
  | '-' :: cs => (decimal? cs).map fun n => -(n : Int)
  | '+' :: cs => (decimal? cs).map Int.ofNat
  | cs => (decimal? cs).map Int.ofNat

def scalar? (digits : List Char) : Option Char :=
  (Numeral.ofDigits? 16 digits).bind fun n => if n.isValidChar then some (Char.ofNat n) else none

def quoted? : List Char → Option (List Char × List Char)
  | '"' :: rest => some ([], rest)
  | '\\' :: 'u' :: a :: b :: c :: d :: rest => more (scalar? [a, b, c, d]) (quoted? rest)
  | '\\' :: 'U' :: a :: b :: c :: d :: e :: f :: g :: h :: rest =>
    more (scalar? [a, b, c, d, e, f, g, h]) (quoted? rest)
  | '\\' :: 'b' :: rest => more (some '\x08') (quoted? rest)
  | '\\' :: 't' :: rest => more (some '\t') (quoted? rest)
  | '\\' :: 'n' :: rest => more (some '\n') (quoted? rest)
  | '\\' :: 'f' :: rest => more (some '\x0c') (quoted? rest)
  | '\\' :: 'r' :: rest => more (some '\r') (quoted? rest)
  | '\\' :: '"' :: rest => more (some '"') (quoted? rest)
  | '\\' :: '\\' :: rest => more (some '\\') (quoted? rest)
  | '\\' :: _ => none
  | c :: rest => more (if inComment c then some c else none) (quoted? rest)
  | [] => none
where
  more (c : Option Char) (r : Option (List Char × List Char)) : Option (List Char × List Char) :=
    c.bind fun c => r.map fun (key, rest) => (c :: key, rest)

def key? : List Char → Option (List Char × List Char)
  | '"' :: cs => quoted? cs
  | '\'' :: cs =>
    match cs.dropWhile (· != '\'') with
    | _ :: rest => some (cs.takeWhile (· != '\''), rest)
    | [] => none
  | cs =>
    match cs.takeWhile isBare with
    | [] => none
    | key => some (key, cs.dropWhile isBare)

def isEnd (cs : List Char) : Bool :=
  match cs.dropWhile isBlank with
  | [] => true
  | '#' :: comment => comment.all inComment
  | _ => false

def inValue (c : Char) : Bool := !isBlank c && c != '#'

def value? (k : Setting) (cs : List Char) : Option Nat :=
  let cs := cs.dropWhile isBlank
  (integer? (cs.takeWhile inValue)).bind fun v =>
    if 0 ≤ v ∧ v ≤ k.max ∧ isEnd (cs.dropWhile inValue) then some v.toNat else none

def assignment? (cs : List Char) : Option (Setting × Nat) :=
  (key? (cs.dropWhile isBlank)).bind fun (key, rest) =>
    match rest.dropWhile isBlank with
    | '=' :: rest => (Setting.ofName? key).bind fun k => (value? k rest).map fun v => (k, v)
    | _ => none

def line? (cs : List Char) : Option (List (Setting × Nat)) :=
  if isEnd cs then some [] else (assignment? cs).map fun a => [a]

def collect? : List (List Char) → Option (List (Setting × Nat))
  | [] => some []
  | l :: ls => (line? l).bind fun a => (collect? ls).map fun as => a ++ as

def dropMark : List Char → List Char
  | '\ufeff' :: cs => cs
  | cs => cs

def assignments? (cs : List Char) : Option (List (Setting × Nat)) :=
  (collect? (lines (dropMark cs))).bind fun as =>
    if (as.map Prod.fst).Nodup then some as else none

end Document

namespace Settings

def ofAssignments (as : List (Setting × Nat)) : Settings :=
  as.foldl (fun s a => s.set a.2 a.1) {}

def ofDocument (text : String) : Except SettingsError Settings :=
  match Document.assignments? text.toList with
  | none => .error .malformed
  | some as =>
    match (ofAssignments as).validate with
    | .error e => .error e
    | .ok () => .ok (ofAssignments as)

end Settings

end Chip8
