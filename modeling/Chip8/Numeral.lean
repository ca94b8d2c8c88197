namespace Chip8.Hex

def digits (width n : Nat) : List Char :=
  (Nat.toDigits 16 n).leftpad width '0'

def padded (width n : Nat) : String :=
  String.ofList (digits width n)

def tagged (width n : Nat) : String :=
  "0x" ++ padded width n

def upper (d : Fin 16) : Char :=
  (Nat.digitChar d).toUpper

end Chip8.Hex

namespace Chip8.Numeral

def digit? (radix : Nat) (c : Char) : Option Nat :=
  let value :=
    if '0' ≤ c ∧ c ≤ '9' then some (c.toNat - '0'.toNat)
    else if 'a' ≤ c ∧ c ≤ 'f' then some (c.toNat - 'a'.toNat + 10)
    else if 'A' ≤ c ∧ c ≤ 'F' then some (c.toNat - 'A'.toNat + 10)
    else none
  value.filter (· < radix)

def extend? (radix : Nat) : Nat → List Char → Option Nat
  | n, [] => some n
  | n, c :: cs => (digit? radix c).bind fun d => extend? radix (n * radix + d) cs

def ofDigits? (radix : Nat) : List Char → Option Nat
  | [] => none
  | cs => extend? radix 0 cs

def unsigned? (radix : Nat) : List Char → Option Nat
  | '+' :: cs => ofDigits? radix cs
  | cs => ofDigits? radix cs

def signed? (radix : Nat) : List Char → Option Int
  | '-' :: cs => (ofDigits? radix cs).map fun n => -(n : Int)
  | cs => (unsigned? radix cs).map Int.ofNat

theorem digit?_lt {radix d : Nat} {c : Char} (h : digit? radix c = some d) : d < radix := by
  simpa using (Option.filter_eq_some_iff.1 h).2

theorem extend?_append (radix n : Nat) (cs ds : List Char) :
    extend? radix n (cs ++ ds) = (extend? radix n cs).bind fun m => extend? radix m ds := by
  induction cs generalizing n with
  | nil => rfl
  | cons c cs ih =>
      cases h : digit? radix c with
      | none => simp [extend?, h]
      | some d => simp [extend?, h, ih]

end Chip8.Numeral
