import Chip8.Numeral

namespace Chip8

namespace Numeral

variable {radix n m : Nat} {cs : List Char}

theorem digit?_digitChar (hr : radix ≤ 16) {d : Nat} (hd : d < radix) :
    digit? radix (Nat.digitChar d) = some d := by
  have hall : ∀ r : Fin 17, ∀ k : Fin 16, k.val < r.val → digit? r.val (Nat.digitChar k.val) = some k.val := by
    decide +kernel
  exact hall ⟨radix, by omega⟩ ⟨d, by omega⟩ hd

theorem extend?_digitChar (hr : radix ≤ 16) {d : Nat} (hd : d < radix) :
    extend? radix n [Nat.digitChar d] = some (n * radix + d) := by
  rw [extend?, digit?_digitChar hr hd]
  rfl

theorem extend?_toDigits (hone : 1 < radix) (hr : radix ≤ 16) (n : Nat) :
    extend? radix 0 (Nat.toDigits radix n) = some n := by
  induction n using Nat.strongRecOn with
  | ind n ih =>
      rw [Nat.toDigits_eq_if hone]
      split
      · next hn => rw [extend?_digitChar hr hn, Nat.zero_mul, Nat.zero_add]
      · next hn =>
          have hless : n / radix < n := Nat.div_lt_self (by omega) hone
          have hdigit : n % radix < radix := Nat.mod_lt n (by omega)
          rw [extend?_append, ih _ hless, Option.bind_some, extend?_digitChar hr hdigit, Nat.mul_comm,
            Nat.div_add_mod]

theorem extend?_zeros (hone : 1 < radix) (hr : radix ≤ 16) (k : Nat) :
    extend? radix 0 (List.replicate k '0' ++ cs) = extend? radix 0 cs := by
  induction k with
  | zero => rfl
  | succ k ih =>
      have hzero : digit? radix '0' = some 0 := digit?_digitChar (d := 0) hr (by omega)
      rw [List.replicate_succ, List.cons_append, extend?, hzero, Option.bind_some, Nat.zero_mul, ih]

theorem ofDigits?_of_ne_nil (h : cs ≠ []) : ofDigits? radix cs = extend? radix 0 cs := by
  cases cs with
  | nil => exact absurd rfl h
  | cons c cs => rfl

theorem ofDigits?_digits (width n : Nat) : ofDigits? 16 (Hex.digits width n) = some n := by
  have hne : Hex.digits width n ≠ [] := List.append_ne_nil_of_right_ne_nil _ Nat.toDigits_ne_nil
  rw [ofDigits?_of_ne_nil hne, Hex.digits, List.leftpad, extend?_zeros (by decide) (Nat.le_refl _),
    extend?_toDigits (by decide) (Nat.le_refl _)]

theorem isSome_digit?_of_extend? (h : extend? radix n cs = some m) {c : Char} (hc : c ∈ cs) :
    (digit? radix c).isSome = true := by
  induction cs generalizing n with
  | nil => cases hc
  | cons d cs ih =>
      obtain ⟨k, hk, hrest⟩ := Option.bind_eq_some_iff.1 h
      rcases List.mem_cons.1 hc with rfl | hc
      · rw [hk, Option.isSome_some]
      · exact ih hrest hc

end Numeral

theorem Hex.length_digits {width n : Nat} (h : (Nat.toDigits 16 n).length ≤ width) :
    (Hex.digits width n).length = width := by
  rw [Hex.digits, List.leftpad, List.length_append, List.length_replicate]
  omega

end Chip8
