import Chip8.Proofs.Numeral
import Chip8.Settings.Writing

namespace Chip8.Document

theorem moreDigits?_eq_extend? {radix n : Nat} {cs : List Char} (h : '_' ∉ cs) :
    moreDigits? radix n cs = Numeral.extend? radix n cs := by
  induction cs generalizing n with
  | nil => rfl
  | cons c cs ih =>
      rw [List.mem_cons, not_or] at h
      have hc : c ≠ '_' := Ne.symm h.1
      rw [moreDigits?, Numeral.extend?]
      · apply Option.bind_congr
        intro d _
        exact ih h.2
      · intro _ _ heq
        exact absurd heq hc

theorem digits?_eq_extend? {radix : Nat} {cs : List Char} (hne : cs ≠ []) (h : '_' ∉ cs) :
    digits? radix cs = Numeral.extend? radix 0 cs := by
  cases cs with
  | nil => exact absurd rfl hne
  | cons c cs =>
      rw [digits?, Numeral.extend?]
      apply Option.bind_congr
      intro d _
      rw [Nat.zero_mul, Nat.zero_add, moreDigits?_eq_extend? fun hmem => h (List.mem_cons_of_mem c hmem)]

theorem toDigits_cons_zero {n : Nat} {cs : List Char} (h : Nat.toDigits 10 n = '0' :: cs) : n = 0 := by
  induction n using Nat.strongRecOn generalizing cs with
  | ind n ih =>
      rw [Nat.toDigits_eq_if (by decide)] at h
      split at h
      · next hn =>
          have hdigit : ∀ k < 10, Nat.digitChar k = '0' → k = 0 := by decide
          exact hdigit n hn (List.cons.inj h).1
      · next hn =>
          have hne : Nat.toDigits 10 (n / 10) ≠ [] := Nat.toDigits_ne_nil
          obtain ⟨c, ds, hds⟩ := List.exists_cons_of_ne_nil hne
          rw [hds, List.cons_append, List.cons.injEq] at h
          have := ih (n / 10) (by omega) (h.1 ▸ hds)
          omega

theorem decimal?_toDigits (n : Nat) : decimal? (Nat.toDigits 10 n) = some n := by
  by_cases hn : n = 0
  · rw [hn]
    rfl
  · have hzero : ∀ cs, Nat.toDigits 10 n = '0' :: cs → False := fun cs h => hn (toDigits_cons_zero h)
    rw [decimal?.eq_3 _ (hzero []) hzero, digits?_eq_extend? Nat.toDigits_ne_nil Nat.underscore_not_in_toDigits,
      Numeral.extend?_toDigits (by decide) (by decide)]

theorem integer?_toDigits (n : Nat) : integer? (Nat.toDigits 10 n) = some (n : Int) := by
  have hdigit : ∀ c ∈ Nat.toDigits 10 n, c.isDigit = true := fun c =>
    Nat.isDigit_of_mem_toDigits (by decide) (by decide)
  unfold integer?
  split
  · next heq => simp [heq] at hdigit
  · next heq => simp [heq] at hdigit
  · next heq => simp [heq] at hdigit
  · next heq => simp [heq] at hdigit
  · next heq => simp [heq] at hdigit
  · rw [decimal?_toDigits]
    rfl

variable {written key rest line indent : List Char} {k : Setting} {n : Nat}

theorem quoted?_quoted (h : Quoted written key) : quoted? (written ++ '"' :: rest) = some (key, rest) := by
  induction h with
  | nil => rfl
  | @plain c _ _ hquote hslash hc _ ih =>
      have hread : ∀ cs, quoted? (c :: cs) = quoted?.more (some c) (quoted? cs) := by
        intro cs
        simp [quoted?, hslash, hc]
      rw [List.cons_append, hread, ih]
      rfl
  | @escaped e c written _ he _ ih =>
      have hread : quoted? ('\\' :: e :: (written ++ '"' :: rest)) =
          quoted?.more (some c) (quoted? (written ++ '"' :: rest)) := by
        simp only [escapes, List.mem_cons, Prod.mk.injEq, List.not_mem_nil, or_false] at he
        rcases he with ⟨rfl, rfl⟩ | ⟨rfl, rfl⟩ | ⟨rfl, rfl⟩ | ⟨rfl, rfl⟩ | ⟨rfl, rfl⟩ | ⟨rfl, rfl⟩ |
          ⟨rfl, rfl⟩ <;> rfl
      rw [List.cons_append, List.cons_append, hread, ih]
      rfl
  | four hscalar _ ih =>
      simp only [List.cons_append]
      rw [quoted?.eq_2, hscalar, ih]
      rfl
  | eight hscalar _ ih =>
      simp only [List.cons_append]
      rw [quoted?.eq_3, hscalar, ih]
      rfl

theorem takeWhile_dropWhile_of_head? {p : Char → Bool} (hwritten : ∀ c ∈ written, p c = true)
    (hrest : ∀ c ∈ rest.head?, p c = false) :
    (written ++ rest).takeWhile p = written ∧ (written ++ rest).dropWhile p = rest := by
  rw [List.takeWhile_append_of_pos hwritten, List.dropWhile_append_of_pos hwritten]
  cases rest with
  | nil => exact ⟨List.append_nil _, rfl⟩
  | cons c rest =>
      have hc := hrest c rfl
      rw [List.takeWhile_cons, List.dropWhile_cons, hc]
      exact ⟨List.append_nil _, rfl⟩

theorem key?_spelled (h : Spelled written key) (hrest : ∀ c ∈ rest.head?, isBare c = false) :
    key? (written ++ rest) = some (key, rest) := by
  cases h with
  | bare hne hbare =>
      obtain ⟨htake, hdrop⟩ := takeWhile_dropWhile_of_head? hbare hrest
      obtain ⟨c, cs, rfl⟩ := List.exists_cons_of_ne_nil hne
      have hc := hbare c List.mem_cons_self
      rw [key?, htake, hdrop]
      · intro _ heq
        obtain ⟨rfl, -⟩ := List.cons.inj heq
        cases hc
      · intro _ heq
        obtain ⟨rfl, -⟩ := List.cons.inj heq
        cases hc
  | literal hquote =>
      have hkey : ∀ c ∈ key, (c != '\'') = true := by
        intro c hc
        rw [bne_iff_ne]
        rintro rfl
        exact hquote hc
      have hhead : ∀ c ∈ ('\'' :: rest).head?, (c != '\'') = false := by simp
      obtain ⟨htake, hdrop⟩ := takeWhile_dropWhile_of_head? hkey hhead
      rw [List.cons_append, List.append_assoc, key?]
      simp only [List.singleton_append, htake, hdrop]
  | basic hq =>
      rw [List.cons_append, List.append_assoc]
      exact quoted?_quoted hq

theorem dropWhile_indent (hindent : ∀ c ∈ indent, isBlank c = true)
    (hrest : ∀ c ∈ rest.head?, isBlank c = false) : (indent ++ rest).dropWhile isBlank = rest :=
  (takeWhile_dropWhile_of_head? hindent hrest).2

theorem isBare_of_isBlank {c : Char} (h : isBlank c = true) : isBare c = false := by
  rw [isBlank, Bool.or_eq_true, beq_iff_eq, beq_iff_eq] at h
  rcases h with rfl | rfl <;> rfl

theorem isEnd_indent {c : Char} (hindent : ∀ c ∈ indent, isBlank c = true) (hblank : isBlank c = false)
    (hhash : c ≠ '#') : isEnd (indent ++ c :: rest) = false := by
  rw [isEnd, dropWhile_indent hindent (by simpa using hblank)]
  split
  · next heq => cases heq
  · next heq => exact absurd (List.cons.inj heq).1 hhash
  · rfl

theorem Spelled.head (h : Spelled written key) :
    ∃ c cs, written = c :: cs ∧ isBlank c = false ∧ c ≠ '#' := by
  cases h with
  | bare hne hbare =>
      obtain ⟨c, cs, rfl⟩ := List.exists_cons_of_ne_nil hne
      have hc := hbare c List.mem_cons_self
      refine ⟨c, cs, rfl, ?_, ?_⟩
      · rw [← Bool.not_eq_true]
        intro hblank
        rw [isBare_of_isBlank hblank] at hc
        cases hc
      · rintro rfl
        cases hc
  | literal => exact ⟨_, _, rfl, rfl, by decide⟩
  | basic => exact ⟨_, _, rfl, rfl, by decide⟩

variable {gap : List Char}

theorem assignment?_spelled {mark : Char} (hindent : ∀ c ∈ indent, isBlank c = true) (hs : Spelled written key)
    (hgap : ∀ c ∈ gap, isBlank c = true) (hmark : mark = '=' ∨ mark = '.') :
    assignment? (indent ++ (written ++ (gap ++ mark :: rest))) =
      if mark = '=' then (Setting.ofName? key).bind fun k => (value? k rest).map fun v => (k, v) else none := by
  obtain ⟨c, cs, hwritten, hblank, -⟩ := hs.head
  have hmark' : isBlank mark = false ∧ isBare mark = false := by
    rcases hmark with rfl | rfl <;> decide
  have hhead : ∀ c ∈ (gap ++ mark :: rest).head?, isBare c = false := by
    cases gap with
    | nil => simpa using hmark'.2
    | cons g gap => simpa using isBare_of_isBlank (hgap g List.mem_cons_self)
  rw [assignment?, dropWhile_indent hindent (by simpa [hwritten] using hblank), key?_spelled hs hhead,
    Option.bind_some]
  have hstart : ∀ c ∈ (mark :: rest).head?, isBlank c = false := by simpa using hmark'.1
  simp only [dropWhile_indent hgap hstart]
  rcases hmark with rfl | rfl <;> rfl

theorem line?_spelled {mark : Char} (hindent : ∀ c ∈ indent, isBlank c = true) (hs : Spelled written key)
    (hgap : ∀ c ∈ gap, isBlank c = true) (hmark : mark = '=' ∨ mark = '.') :
    line? (indent ++ (written ++ (gap ++ mark :: rest))) =
      if mark = '=' then
        (Setting.ofName? key).bind fun k => (value? k rest).map fun v => [(k, v)]
      else none := by
  obtain ⟨c, cs, hwritten, hblank, hhash⟩ := hs.head
  have hend : isEnd (indent ++ (written ++ (gap ++ mark :: rest))) = false := by
    rw [hwritten]
    exact isEnd_indent hindent hblank hhash
  rw [line?, hend, assignment?_spelled hindent hs hgap hmark]
  rcases hmark with rfl | rfl
  · show (((Setting.ofName? key).bind _).map _) = _
    rw [Option.map_bind]
    apply Option.bind_congr
    intro k _
    exact Option.map_map ..
  · rfl

theorem line?_names (h : Names key line) :
    line? line = none ∨ ∃ k v, Setting.ofName? key = some k ∧ line? line = some [(k, v)] := by
  cases h with
  | @value _ _ _ rest _ hindent hs hgap hmark =>
      rw [line?_spelled hindent hs hgap hmark]
      split
      · cases hk : Setting.ofName? key with
        | none => exact .inl rfl
        | some k =>
            cases hv : value? k rest with
            | none => exact .inl (by simp [hv])
            | some v => exact .inr ⟨k, v, rfl, by simp [hv]⟩
      · exact .inl rfl
  -- A bracket begins no key, so the line of a table cannot be read.
  | table hindent hbrackets hgap hs =>
      left
      rw [line?, isEnd_indent hindent rfl (by decide), assignment?, dropWhile_indent hindent (by simp [isBlank])]
      rfl

theorem of_isDigit {c : Char} (h : c.isDigit = true) : isBlank c = false ∧ inValue c = true := by
  have hblank : isBlank c = false := by
    rw [isBlank, Bool.or_eq_false_iff, beq_eq_false_iff_ne, beq_eq_false_iff_ne]
    constructor <;> rintro rfl <;> cases h
  have hhash : c ≠ '#' := by
    rintro rfl
    cases h
  rw [inValue, hblank]
  exact ⟨rfl, by simpa using hhash⟩

theorem value?_toDigits (k : Setting) (n : Nat) :
    value? k (' ' :: Nat.toDigits 10 n) = if n ≤ k.max then some n else none := by
  have hdigit : ∀ c ∈ Nat.toDigits 10 n, c.isDigit = true := fun c =>
    Nat.isDigit_of_mem_toDigits (by decide) (by decide)
  have hspace : ∀ c ∈ [' '], isBlank c = true := List.all_eq_true.1 rfl
  have hdrop : (' ' :: Nat.toDigits 10 n).dropWhile isBlank = Nat.toDigits 10 n :=
    dropWhile_indent hspace fun c hc => (of_isDigit (hdigit c (List.mem_of_mem_head? hc))).1
  have hend : ∀ c ∈ ([] : List Char).head?, inValue c = false := nofun
  obtain ⟨htake, hrest⟩ := takeWhile_dropWhile_of_head? (fun c hc => (of_isDigit (hdigit c hc)).2) hend
  rw [List.append_nil] at htake hrest
  simp only [value?, hdrop, htake, hrest, integer?_toDigits, Option.bind_some]
  by_cases hn : n ≤ k.max
  · rw [if_pos ⟨by omega, by omega, rfl⟩, if_pos hn]
    rfl
  · rw [if_neg (by omega), if_neg hn]

theorem line?_entry : line? (entry (k, n)) = if n ≤ k.max then some [(k, n)] else none := by
  have hname : k.name.toList ≠ [] ∧ k.name.toList.all isBare = true := by
    cases k <;> decide
  have hk : Setting.ofName? k.name.toList = some k := by
    cases k <;> rfl
  have hindent : ∀ c ∈ ([] : List Char), isBlank c = true := nofun
  have hspace : ∀ c ∈ [' '], isBlank c = true := List.all_eq_true.1 rfl
  have hspelled : Spelled k.name.toList k.name.toList := .bare hname.1 (List.all_eq_true.1 hname.2)
  have hline : line? (entry (k, n)) = _ := line?_spelled hindent hspelled hspace (.inl rfl)
  rw [hline, if_pos rfl, hk, Option.bind_some, value?_toDigits]
  split <;> rfl

end Chip8.Document
