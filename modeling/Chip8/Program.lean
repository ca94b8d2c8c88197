import Chip8.Instruction.Encode

namespace Chip8

def Word.bytes (w : Word) : List UInt8 := [w.high, w.low]

namespace Program

def words : List UInt8 → List Word
  | [] => []
  | [a] => [.ofBytes a 0]
  | a :: b :: program => .ofBytes a b :: words program

def assemble (is : List Instruction) : List UInt8 := is.flatMap fun i => i.encode.bytes

def padding (program : List UInt8) : List UInt8 := if program.length % 2 = 1 then [0] else []

theorem padding_cons_cons (a b : UInt8) (program : List UInt8) :
    padding (a :: b :: program) = padding program := by
  rw [padding, padding, List.length_cons, List.length_cons, Nat.add_assoc, Nat.add_mod_right]

theorem bytes_ofBytes (a b : UInt8) : (Word.ofBytes a b).bytes = [a, b] := by
  have ha := a.toNat_lt
  have hb := b.toNat_lt
  have hhigh : (Word.ofBytes a b).high = a := by
    apply UInt8.toNat_inj.1
    rw [Word.toNat_high, Word.toNat_ofBytes]
    omega
  have hlow : (Word.ofBytes a b).low = b := by
    apply UInt8.toNat_inj.1
    rw [Word.low, Word.toNat_kk, Word.toNat_ofBytes]
    omega
  rw [Word.bytes, hhigh, hlow]

theorem bytes_words (program : List UInt8) : (words program).flatMap Word.bytes = program ++ padding program := by
  fun_induction words program with
  | case1 => rfl
  | case2 a => exact congrArg (· ++ []) (bytes_ofBytes a 0)
  | case3 a b program ih =>
      rw [List.flatMap_cons, ih, bytes_ofBytes, padding_cons_cons]
      rfl

theorem length_assemble (is : List Instruction) : (assemble is).length = 2 * is.length := by
  induction is with
  | nil => rfl
  | cons i is ih =>
      rw [assemble, List.flatMap_cons, List.length_append, ← assemble, ih, List.length_cons, Word.bytes]
      simp only [List.length_cons, List.length_nil]
      omega

theorem words_flatMap_bytes (ws : List Word) : words (ws.flatMap Word.bytes) = ws := by
  induction ws with
  | nil => rfl
  | cons w ws ih =>
      rw [List.flatMap_cons]
      show Word.ofBytes w.high w.low :: words (ws.flatMap Word.bytes) = w :: ws
      rw [Word.ofBytes_high_low, ih]

theorem words_assemble (is : List Instruction) : words (assemble is) = is.map Instruction.encode := by
  rw [← words_flatMap_bytes (is.map Instruction.encode), List.flatMap_map]
  rfl

theorem assemble_decode (ws : List Word) : assemble (ws.map .decode) = ws.flatMap Word.bytes := by
  simp only [assemble, List.flatMap_map, Instruction.encode_decode]

theorem length_words (program : List UInt8) : (words program).length = (program.length + 1) / 2 := by
  fun_induction words program with
  | case1 => rfl
  | case2 => rw [List.length_singleton, List.length_singleton]
  | case3 a b program ih =>
      simp only [List.length_cons, ih]
      omega

theorem getElem_words (program : List UInt8) {k : Nat} (hk : k < (words program).length) :
    (words program)[k] = .ofBytes (program[2 * k]?.getD 0) (program[2 * k + 1]?.getD 0) := by
  fun_induction words program generalizing k with
  | case1 => cases hk
  | case2 a =>
      obtain rfl := Nat.lt_one_iff.1 hk
      rfl
  | case3 a b program ih =>
      cases k with
      | zero => rfl
      | succ k => exact ih (Nat.lt_of_succ_lt_succ hk)

end Program

end Chip8
