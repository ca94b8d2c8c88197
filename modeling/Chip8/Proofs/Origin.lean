import Chip8.CommandLine.Options
import Chip8.Proofs.Numeral
import Mathlib.Algebra.Group.Nat.Defs

namespace Chip8

namespace Numeral

def Digit (radix : Nat) (c : Char) (d : Nat) : Prop :=
  d < radix ∧ (c = Nat.digitChar d ∨ c = (Nat.digitChar d).toUpper)

inductive Digits (radix : Nat) : List Char → Nat → Prop
  | nil : Digits radix [] 0
  | cons {c d cs n} : Digit radix c d → Digits radix cs n → Digits radix (c :: cs) (d * radix ^ cs.length + n)

inductive Unsigned (radix : Nat) : List Char → Nat → Prop
  | bare {cs n} : cs ≠ [] → Digits radix cs n → Unsigned radix cs n
  | plus {cs n} : cs ≠ [] → Digits radix cs n → Unsigned radix ('+' :: cs) n

end Numeral

namespace CommandLine

def tags : List (List Char) := [['0', 'x'], ['0', 'X']]

inductive Origin : List Char → Nat → Prop
  | hexadecimal {tag cs n} : tag ∈ tags → Numeral.Unsigned 16 cs n → Origin (tag ++ cs) n
  | decimal {s n} : (∀ tag ∈ tags, ¬ tag <+: s) → Numeral.Unsigned 10 s n → Origin s n

end CommandLine

namespace Numeral

variable {radix n m : Nat} {c : Char} {cs : List Char}

theorem toNat_of_digit? {d : Nat} (h : digit? radix c = some d) :
    c.toNat = 0x30 + d ∧ d < 10 ∨ (c.toNat = 0x61 + (d - 10) ∨ c.toNat = 0x41 + (d - 10)) ∧ 10 ≤ d ∧ d < 16 := by
  obtain ⟨hvalue, -⟩ := Option.filter_eq_some_iff.1 h
  simp only [Char.le_def, UInt32.le_iff_toNat_le, Char.toNat] at hvalue ⊢
  split at hvalue
  · next hc =>
      obtain rfl := Option.some.inj hvalue
      simp only [Char.reduceVal, UInt32.reduceToNat] at hc ⊢
      omega
  · split at hvalue
    · next hc =>
        obtain rfl := Option.some.inj hvalue
        simp only [Char.reduceVal, UInt32.reduceToNat] at hc ⊢
        omega
    · split at hvalue
      · next hc =>
          obtain rfl := Option.some.inj hvalue
          simp only [Char.reduceVal, UInt32.reduceToNat] at hc ⊢
          omega
      · cases hvalue

theorem digit?_toUpper (hr : radix ≤ 16) {d : Nat} (hd : d < radix) :
    digit? radix (Nat.digitChar d).toUpper = some d := by
  have hall : ∀ r : Fin 17, ∀ k : Fin 16, k.val < r.val →
      digit? r.val (Nat.digitChar k.val).toUpper = some k.val := by
    decide +kernel
  exact hall ⟨radix, by omega⟩ ⟨d, by omega⟩ hd

theorem digit?_eq_some_iff (hr : radix ≤ 16) {d : Nat} : digit? radix c = some d ↔ Digit radix c d := by
  constructor
  · intro h
    refine ⟨digit?_lt h, ?_⟩
    rw [← Char.ofNat_toNat c]
    obtain ⟨hc, hd⟩ | ⟨hc | hc, hle, hlt⟩ := toNat_of_digit? h
    · left
      have hall : ∀ k : Fin 10, Char.ofNat (0x30 + k.val) = Nat.digitChar k.val := by decide
      rw [hc]
      exact hall ⟨d, hd⟩
    · left
      have hall : ∀ k : Fin 16, 10 ≤ k.val → Char.ofNat (0x61 + (k.val - 10)) = Nat.digitChar k.val := by decide
      rw [hc]
      exact hall ⟨d, hlt⟩ hle
    · right
      have hall : ∀ k : Fin 16, 10 ≤ k.val → Char.ofNat (0x41 + (k.val - 10)) = (Nat.digitChar k.val).toUpper := by
        decide
      rw [hc]
      exact hall ⟨d, hlt⟩ hle
  · rintro ⟨hd, rfl | rfl⟩
    · exact digit?_digitChar hr hd
    · exact digit?_toUpper hr hd

theorem extend?_eq_some_iff (hr : radix ≤ 16) :
    extend? radix n cs = some m ↔ ∃ k, Digits radix cs k ∧ m = n * radix ^ cs.length + k := by
  induction cs generalizing n with
  | nil =>
      rw [extend?, List.length_nil, Nat.pow_zero, Nat.mul_one, Option.some.injEq]
      constructor
      · rintro rfl
        exact ⟨0, .nil, rfl⟩
      · rintro ⟨k, hk, rfl⟩
        cases hk
        rfl
  | cons c cs ih =>
      have hplace (d k : Nat) : (n * radix + d) * radix ^ cs.length + k =
          n * radix ^ (c :: cs).length + (d * radix ^ cs.length + k) := by
        rw [List.length_cons, Nat.pow_succ', Nat.add_mul, Nat.mul_assoc, Nat.add_assoc]
      rw [extend?, Option.bind_eq_some_iff]
      constructor
      · rintro ⟨d, hd, hrest⟩
        obtain ⟨k, hk, rfl⟩ := ih.1 hrest
        exact ⟨_, .cons ((digit?_eq_some_iff hr).1 hd) hk, hplace d k⟩
      · rintro ⟨k, hk, rfl⟩
        cases hk with
        | @cons _ d _ k hd hk => exact ⟨d, (digit?_eq_some_iff hr).2 hd, ih.2 ⟨k, hk, (hplace d k).symm⟩⟩

theorem ofDigits?_eq_some_iff (hr : radix ≤ 16) :
    ofDigits? radix cs = some n ↔ cs ≠ [] ∧ Digits radix cs n := by
  by_cases hcs : cs = []
  · rw [hcs]
    simp [ofDigits?]
  · rw [ofDigits?_of_ne_nil hcs, extend?_eq_some_iff hr]
    simp [hcs]

theorem not_digits_plus (hr : radix ≤ 16) : ¬ Digits radix ('+' :: cs) n := by
  intro h
  cases h with
  | cons hd =>
      have hplus := (digit?_eq_some_iff hr).2 hd
      cases hplus

theorem unsigned?_eq_some_iff (hr : radix ≤ 16) : unsigned? radix cs = some n ↔ Unsigned radix cs n := by
  constructor
  · intro h
    unfold unsigned? at h
    split at h
    · obtain ⟨hne, hcs⟩ := (ofDigits?_eq_some_iff hr).1 h
      exact .plus hne hcs
    · obtain ⟨hne, hcs⟩ := (ofDigits?_eq_some_iff hr).1 h
      exact .bare hne hcs
  · intro h
    cases h with
    | bare hne hcs =>
        rw [unsigned?]
        · exact (ofDigits?_eq_some_iff hr).2 ⟨hne, hcs⟩
        · rintro cs rfl
          exact not_digits_plus hr hcs
    | plus hne hcs => exact (ofDigits?_eq_some_iff hr).2 ⟨hne, hcs⟩

end Numeral

namespace CommandLine

variable {tag cs s : List Char} {n : Nat}

theorem origin?_tagged (ht : tag ∈ tags) (cs : List Char) :
    origin? (tag ++ cs) = ((Numeral.unsigned? 16 cs).filter (· < UInt16.size)).map UInt16.ofNat := by
  obtain rfl | rfl : tag = ['0', 'x'] ∨ tag = ['0', 'X'] := by simpa [tags] using ht
  · rfl
  · rfl

theorem origin?_untagged (h : ∀ tag ∈ tags, ¬ tag <+: s) :
    origin? s = ((Numeral.unsigned? 10 s).filter (· < UInt16.size)).map UInt16.ofNat := by
  rw [origin?]
  · rintro digits rfl
    exact h ['0', 'x'] (by decide) (List.prefix_append _ digits)
  · rintro digits rfl
    exact h ['0', 'X'] (by decide) (List.prefix_append _ digits)

theorem origin_tagged_iff (ht : tag ∈ tags) : Origin (tag ++ cs) n ↔ Numeral.Unsigned 16 cs n := by
  have hlength : ∀ tag ∈ tags, tag.length = 2 := by decide
  constructor
  · intro h
    generalize hs : tag ++ cs = s at h
    cases h with
    | hexadecimal ht' hn =>
        obtain ⟨-, rfl⟩ := List.append_inj hs ((hlength _ ht).trans (hlength _ ht').symm)
        exact hn
    | decimal h => exact absurd (hs ▸ List.prefix_append tag cs) (h tag ht)
  · exact .hexadecimal ht

theorem origin_untagged_iff (h : ∀ tag ∈ tags, ¬ tag <+: s) : Origin s n ↔ Numeral.Unsigned 10 s n := by
  constructor
  · intro hn
    cases hn with
    | hexadecimal ht => exact absurd (List.prefix_append _ _) (h _ ht)
    | decimal _ hn => exact hn
  · exact .decimal h

theorem exists_number (s : List Char) :
    ∃ number : Option Nat, (∀ n, number = some n ↔ Origin s n) ∧
      origin? s = (number.filter (· < UInt16.size)).map UInt16.ofNat := by
  by_cases h : ∃ tag ∈ tags, tag <+: s
  · obtain ⟨tag, ht, cs, rfl⟩ := h
    refine ⟨_, fun n => ?_, origin?_tagged ht cs⟩
    rw [origin_tagged_iff ht, Numeral.unsigned?_eq_some_iff (by decide)]
  · have h : ∀ tag ∈ tags, ¬ tag <+: s := fun tag ht hs => h ⟨tag, ht, hs⟩
    refine ⟨_, fun n => ?_, origin?_untagged h⟩
    rw [origin_untagged_iff h, Numeral.unsigned?_eq_some_iff (by decide)]

theorem origin_accepted_iff (s : List Char) :
    (∀ v, origin? s = some v ↔ Origin s v.toNat) ∧ (origin? s = none ↔ ∀ n, Origin s n → 65535 < n) := by
  obtain ⟨number, hnumber, hs⟩ := exists_number s
  simp only [← hnumber, hs]
  cases number with
  | none => simp
  | some n =>
      rw [Option.filter_some]
      rcases Nat.lt_or_ge n UInt16.size with hn | hn
      · have hword : (UInt16.ofNat n).toNat = n := UInt16.toNat_ofNat_of_lt hn
        rw [if_pos (decide_eq_true hn), Option.map_some]
        constructor
        · intro v
          rw [Option.some.injEq, Option.some.injEq, ← UInt16.toNat_inj, hword]
        · refine iff_of_false (by simp) ?_
          intro hall
          exact absurd (hall n rfl) (Nat.not_lt.2 (Nat.le_of_lt_succ hn))
      · rw [if_neg (mt of_decide_eq_true (Nat.not_lt.2 hn)), Option.map_none]
        constructor
        · intro v
          refine iff_of_false (by simp) ?_
          rintro ⟨rfl⟩
          exact absurd v.toNat_lt (Nat.not_lt.2 hn)
        · refine iff_of_true rfl ?_
          rintro _ ⟨rfl⟩
          exact hn

example : ["", "0x", "+", "-", "0x-1", "++1", "0x0x1", "+0x1", "1 0", "1_0", "ff", "65536", "0x10000"].map
    (fun s => origin? s.toList) = List.replicate 13 none := by
  decide

theorem origin_accepted_iff_mixed :
    Origin ['0', 'X', '+', '0', 'f', 'E'] 0xfe ∧ origin? ['0', 'X', '+', '0', 'f', 'E'] = some 0xfe ∧
      ∀ n, Origin ['6', '5', '5', '3', '6'] n → 65535 < n := by
  have hzero : Numeral.Digit 16 '0' 0 := ⟨by decide, .inl rfl⟩
  have hlower : Numeral.Digit 16 'f' 15 := ⟨by decide, .inl rfl⟩
  have hupper : Numeral.Digit 16 'E' 14 := ⟨by decide, .inr rfl⟩
  have hdigits : Numeral.Digits 16 ['0', 'f', 'E'] 0xfe := .cons hzero (.cons hlower (.cons hupper .nil))
  have htag : ['0', 'X'] ∈ tags := by decide
  have hwritten : Origin ['0', 'X', '+', '0', 'f', 'E'] 0xfe := .hexadecimal htag (.plus (by decide) hdigits)
  refine ⟨hwritten, ((origin_accepted_iff _).1 0xfe).2 hwritten, ?_⟩
  exact (origin_accepted_iff ['6', '5', '5', '3', '6']).2.1 (by decide)

end CommandLine

end Chip8
