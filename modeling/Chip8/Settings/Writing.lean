import Chip8.Settings.Document

namespace Chip8

namespace Document

inductive Laid : List (List Char) → List Char → Prop
  | last {l} : Laid [l] l
  | feed {l ls text} : Laid ls text → Laid (l :: ls) (l ++ '\n' :: text)
  | returned {l ls text} : Laid ls text → Laid (l :: ls) (l ++ '\r' :: '\n' :: text)

def entry (a : Setting × Nat) : List Char := a.1.name.toList ++ ' ' :: '=' :: ' ' :: Nat.toDigits 10 a.2

def escapes : List (Char × Char) :=
  [('b', '\x08'), ('t', '\t'), ('n', '\n'), ('f', '\x0c'), ('r', '\r'), ('"', '"'), ('\\', '\\')]

inductive Quoted : List Char → List Char → Prop
  | nil : Quoted [] []
  | plain {c written key} : c ≠ '"' → c ≠ '\\' → inComment c = true → Quoted written key →
      Quoted (c :: written) (c :: key)
  | escaped {e c written key} : (e, c) ∈ escapes → Quoted written key → Quoted ('\\' :: e :: written) (c :: key)
  | four {a b c d ch written key} : scalar? [a, b, c, d] = some ch → Quoted written key →
      Quoted ('\\' :: 'u' :: a :: b :: c :: d :: written) (ch :: key)
  | eight {a b c d e f g h ch written key} : scalar? [a, b, c, d, e, f, g, h] = some ch → Quoted written key →
      Quoted ('\\' :: 'U' :: a :: b :: c :: d :: e :: f :: g :: h :: written) (ch :: key)

inductive Spelled : List Char → List Char → Prop
  | bare {key} : key ≠ [] → (∀ c ∈ key, isBare c = true) → Spelled key key
  | literal {key} : '\'' ∉ key → Spelled ('\'' :: (key ++ ['\''])) key
  | basic {written key} : Quoted written key → Spelled ('"' :: (written ++ ['"'])) key

inductive Names (key : List Char) : List Char → Prop
  | value {indent written gap rest mark} : (∀ c ∈ indent, isBlank c = true) → Spelled written key →
      (∀ c ∈ gap, isBlank c = true) → mark = '=' ∨ mark = '.' →
      Names key (indent ++ (written ++ (gap ++ mark :: rest)))
  | table {indent gap written rest brackets} : (∀ c ∈ indent, isBlank c = true) →
      brackets = [] ∨ brackets = ['['] → (∀ c ∈ gap, isBlank c = true) → Spelled written key →
      Names key (indent ++ '[' :: (brackets ++ (gap ++ (written ++ rest))))

end Document

namespace Settings

structure Gives (before : Settings) (as : List (Setting × Nat)) (s : Settings) : Prop where
  origin : s.origin.toNat = (as.lookup .origin).getD before.origin.toNat
  speed : s.speed.toNat = (as.lookup .speed).getD before.speed.toNat
  width : s.width.toNat = (as.lookup .width).getD before.width.toNat
  height : s.height.toNat = (as.lookup .height).getD before.height.toNat
  seed : s.seed.map UInt64.toNat = (as.lookup .seed).or (before.seed.map UInt64.toNat)

end Settings

end Chip8
