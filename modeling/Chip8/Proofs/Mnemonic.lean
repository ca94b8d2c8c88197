import Chip8.Instruction.Encode
import Chip8.Instruction.Reading
import Chip8.Proofs.Assembly
import Chip8.Proofs.Numeral

namespace Chip8

namespace Operand

theorem toList_tagged (width n : Nat) : (Hex.tagged width n).toList = '0' :: 'x' :: Hex.digits width n := by
  rw [Hex.tagged, Hex.padded, String.toList_append, String.toList_ofList, String.toList_ofList]
  rfl

theorem ofText?_tagged {width n : Nat} (h : (Nat.toDigits 16 n).length ≤ width) :
    ofText? (Hex.tagged width n).toList = some (ofNumber n width) := by
  rw [toList_tagged]
  show (Numeral.ofDigits? 16 (Hex.digits width n)).map _ = _
  rw [Numeral.ofDigits?_digits, Option.map_some, Hex.length_digits h]

theorem ofText?_text (o : Operand) : ofText? o.text.toList = some o := by
  cases o with
  | register x =>
      revert x
      decide +kernel
  | count n =>
      revert n
      decide +kernel
  | byte b =>
      have hlen := (Nat.length_toDigits_le_iff (b := 16) (k := 2) (by decide) (by decide)).2 b.toNat_lt
      rw [text, ofText?_tagged hlen, ofNumber, UInt8.ofNat_toNat]
  | address a =>
      have hlen := (Nat.length_toDigits_le_iff (b := 16) (k := 3) (by decide) (by decide)).2 a.isLt
      have hread : Word.nnn (UInt16.ofNat a.val) = a := by
        apply Fin.ext
        show (UInt16.ofNat a.val).toNat % 4096 = a.val
        rw [UInt16.toNat_ofNat']
        omega
      rw [text, ofText?_tagged hlen, ofNumber, hread]
  | word w =>
      have hlen := (Nat.length_toDigits_le_iff (b := 16) (k := 4) (by decide) (by decide)).2 w.toNat_lt
      rw [text, ofText?_tagged hlen]
      show some (word (UInt16.ofNat w.toNat)) = _
      rw [UInt16.ofNat_toNat]
  | _ => rfl

theorem text_injective {o p : Operand} (h : o.text.toList = p.text.toList) : o = p := by
  have ho := ofText?_text o
  rw [h, ofText?_text] at ho
  exact (Option.some.inj ho).symm

theorem notMem_digits {width n : Nat} {c : Char} (hc : Numeral.digit? 16 c = none) :
    c ∉ Hex.digits width n := by
  intro hmem
  have hread := Numeral.ofDigits?_digits width n
  rw [Numeral.ofDigits?_of_ne_nil (List.ne_nil_of_mem hmem)] at hread
  have hsome := Numeral.isSome_digit?_of_extend? hread hmem
  rw [hc] at hsome
  cases hsome

theorem notMem_text {c : Char} (hc : c = ',' ∨ c = ' ') (o : Operand) : c ∉ o.text.toList := by
  have htagged : ∀ width n, c ∉ (Hex.tagged width n).toList := by
    intro width n
    have hnone : Numeral.digit? 16 c = none := by rcases hc with rfl | rfl <;> rfl
    have hx : c ≠ 'x' := by rcases hc with rfl | rfl <;> decide
    have hzero : c ≠ '0' := by rcases hc with rfl | rfl <;> decide
    rw [toList_tagged, List.mem_cons, List.mem_cons, not_or, not_or]
    exact ⟨hzero, hx, notMem_digits hnone⟩
  cases o with
  | register x => rcases hc with rfl | rfl <;> revert x <;> decide +kernel
  | count n => rcases hc with rfl | rfl <;> revert n <;> decide +kernel
  | byte | address | word => exact htagged _ _
  | _ => rcases hc with rfl | rfl <;> decide +kernel

end Operand

namespace Instruction

variable {i j : Instruction}

theorem all_isUpper_name (i : Instruction) : i.mnemonic.1.toList.all Char.isUpper = true := by
  cases i with
  | skip c => cases c <;> simp only [mnemonic, Condition.mnemonic] <;> decide +kernel
  | alu op x y => cases op <;> simp only [mnemonic, AluOp.mnemonic] <;> decide +kernel
  | _ =>
      simp only [mnemonic]
      decide +kernel

theorem notMem_name {c : Char} (hc : c = ',' ∨ c = ' ') (i : Instruction) : c ∉ i.mnemonic.1.toList := by
  intro hmem
  have hupper := List.all_eq_true.1 i.all_isUpper_name c hmem
  rcases hc with rfl | rfl <;> cases hupper

theorem filter_of_notMem {c : Char} {l : List Char} (h : c ∉ l) : l.filter (· ≠ c) = l := by
  refine List.filter_eq_self.2 ?_
  intro d hd
  rw [decide_eq_true_eq]
  rintro rfl
  exact h hd

theorem filter_intercalate {ls : List (List Char)} (h : ∀ l ∈ ls, ',' ∉ l) :
    ([',', ' '].intercalate ls).filter (· ≠ ',') = [' '].intercalate ls := by
  induction ls with
  | nil => rfl
  | cons l ls ih =>
      have hl := filter_of_notMem (h l List.mem_cons_self)
      cases ls with
      | nil => rw [List.intercalate_singleton, List.intercalate_singleton, hl]
      | cons k ls =>
          rw [List.intercalate_cons_cons, List.intercalate_cons_cons, List.filter_append, List.filter_append, hl,
            ih fun p hp => h p (List.mem_cons_of_mem l hp)]
          rfl

theorem filter_operandText (o : Operand) (os : List Operand) :
    (operandText (o :: os)).toList.filter (· ≠ ',') =
      ' ' :: [' '].intercalate ((o :: os).map fun p => p.text.toList) := by
  have hno : ∀ l ∈ (o :: os).map fun p => p.text.toList, ',' ∉ l := by
    intro l hl
    obtain ⟨p, -, rfl⟩ := List.mem_map.1 hl
    exact p.notMem_text (.inl rfl)
  rw [operandText, String.toList_append, String.toList_intercalate, List.map_map, List.filter_append]
  exact congrArg (' ' :: ·) (filter_intercalate hno)

def pieces (i : Instruction) : List (List Char) :=
  i.mnemonic.1.toList :: i.mnemonic.2.map fun o => o.text.toList

theorem notMem_pieces {l : List Char} (hl : l ∈ i.pieces) : ' ' ∉ l := by
  rcases List.mem_cons.1 hl with rfl | hl
  · exact notMem_name (.inr rfl) i
  · obtain ⟨o, -, rfl⟩ := List.mem_map.1 hl
    exact o.notMem_text (.inr rfl)

theorem filter_text (i : Instruction) : i.text.toList.filter (· ≠ ',') = [' '].intercalate i.pieces := by
  have hname := filter_of_notMem (notMem_name (.inl rfl) i)
  rw [text, String.toList_append, List.filter_append, hname, pieces]
  cases i.mnemonic.2 with
  | nil =>
      rw [List.map_nil, List.intercalate_singleton]
      exact List.append_nil _
  | cons o os =>
      rw [filter_operandText, List.map_cons, List.intercalate_cons_cons, List.append_assoc]
      rfl

theorem splitOn_text (i : Instruction) : (i.text.toList.filter (· ≠ ',')).splitOn ' ' = i.pieces := by
  rw [filter_text]
  exact List.splitOn_intercalate ' ' (fun l => notMem_pieces) (List.cons_ne_nil _ _)

theorem mnemonic_of_text (h : i.text = j.text) : i.mnemonic = j.mnemonic := by
  have hpieces := splitOn_text i
  rw [h, splitOn_text] at hpieces
  obtain ⟨hname, hoperands⟩ := List.cons.inj hpieces
  have hinj : ∀ o p : Operand, o.text.toList = p.text.toList → o = p := fun o p => Operand.text_injective
  exact Prod.ext (String.toList_inj.1 hname).symm ((List.map_inj_right hinj).1 hoperands).symm

theorem mnemonic_shown (i : Instruction) : i.shown.mnemonic = i.mnemonic := by
  cases i with
  | alu op x y => cases op <;> rfl
  | _ => rfl

theorem text_eq_iff_shown : i.text = j.text ↔ i.shown = j.shown := by
  constructor
  · intro h
    have hread := ofMnemonic?_mnemonic i
    rw [mnemonic_of_text h, ofMnemonic?_mnemonic] at hread
    exact (Option.some.inj hread).symm
  · intro h
    rw [text, text, ← mnemonic_shown i, h, mnemonic_shown]

theorem shown_eq_iff :
    i.shown = j.shown ↔ i = j ∨ (∃ x y z, i = .alu .shr x y ∧ j = .alu .shr x z) ∨
      ∃ x y z, i = .alu .shl x y ∧ j = .alu .shl x z := by
  constructor
  · intro h
    unfold shown at h
    split at h
    · next x y =>
        split at h
        · cases h
          exact .inr (.inl ⟨x, y, _, rfl, rfl⟩)
        · cases h
        · next hshr hshl => exact absurd h.symm (hshr x x)
    · next x y =>
        split at h
        · cases h
        · cases h
          exact .inr (.inr ⟨x, y, _, rfl, rfl⟩)
        · next hshr hshl => exact absurd h.symm (hshl x x)
    · next hshr hshl =>
        split at h
        · next x y => exact absurd h (hshr x x)
        · next x y => exact absurd h (hshl x x)
        · exact .inl h
  · rintro (rfl | ⟨x, y, z, rfl, rfl⟩ | ⟨x, y, z, rfl, rfl⟩)
    · rfl
    · rfl
    · rfl

theorem text_eq_iff :
    i.text = j.text ↔ i = j ∨ (∃ x y z, i = .alu .shr x y ∧ j = .alu .shr x z) ∨
      ∃ x y z, i = .alu .shl x y ∧ j = .alu .shl x z :=
  text_eq_iff_shown.trans shown_eq_iff

theorem decode_eq_iff {w : Word} (hi : i.Canonical) : decode w = i ↔ w = i.encode := by
  constructor
  · rintro rfl
    exact (encode_decode w).symm
  · rintro rfl
    exact decode_encode hi

theorem decode_inj {v w : Word} : decode v = decode w ↔ v = w := by
  rw [decode_eq_iff (canonical_decode w), encode_decode]

end Instruction

def Word.Alike (v w : Word) : Prop :=
  v = w ∨ (∃ x y z, v = .ofFields 0x8 x y 0x6 ∧ w = .ofFields 0x8 x z 0x6) ∨
    ∃ x y z, v = .ofFields 0x8 x y 0xe ∧ w = .ofFields 0x8 x z 0xe

theorem Word.text_decode_eq_iff {v w : Word} :
    (Instruction.decode v).text = (Instruction.decode w).text ↔ v.Alike w := by
  have halu : ∀ (u : Word) op x y, Instruction.decode u = .alu op x y ↔ u = .ofFields 0x8 x y op.code :=
    fun u op x y => Instruction.decode_eq_iff trivial
  simp only [Instruction.text_eq_iff, Instruction.decode_inj, halu]
  rfl

namespace Program

variable {origin : UInt16} {program : List UInt8} {size : Nat} {m : Memory}

theorem words_append_padding (program : List UInt8) : words (program ++ padding program) = words program := by
  fun_induction words program with
  | case1 => rfl
  | case2 a => rfl
  | case3 a b program ih => rw [padding_cons_cons, List.cons_append, List.cons_append, words, ih]

theorem listing_of_fresh_load (ho : 0xa0 ≤ origin.toNat)
    (h : (Memory.blank origin).load program = (.ok size, m)) :
    m.disassembly.listing =
      (words program).mapIdx fun k w =>
        Hex.tagged 3 (origin.toNat + 2 * k) ++ ": " ++ (Instruction.decode w).text := by
  have hlines := congrArg (List.map fun item : Nat × Instruction => Hex.tagged 3 item.1 ++ ": " ++ item.2.text)
    (toList_of_fresh_load ho h)
  rw [List.map_map] at hlines
  refine hlines.trans (List.ext_getElem (by simp) ?_)
  intro k _ _
  rw [List.getElem_map, List.getElem_mapIdx, List.getElem_mapIdx]

theorem mapIdx_text_eq_iff (v w : List Word) :
    (v.mapIdx fun k u => Hex.tagged 3 (origin.toNat + 2 * k) ++ ": " ++ (Instruction.decode u).text) =
        (w.mapIdx fun k u => Hex.tagged 3 (origin.toNat + 2 * k) ++ ": " ++ (Instruction.decode u).text) ↔
      v.length = w.length ∧ ∀ k (hv : k < v.length) (hw : k < w.length), v[k].Alike w[k] := by
  simp only [List.ext_getElem_iff, List.length_mapIdx, List.getElem_mapIdx, String.append_right_inj,
    Word.text_decode_eq_iff]

theorem listing_eq_iff {s : Settings} (hs : s.validate = .ok ()) :
    (∀ p q size size' m n, (Memory.blank s.origin).load p = (.ok size, m) →
      (Memory.blank s.origin).load q = (.ok size', n) →
        let v := words (p ++ padding p)
        let w := words (q ++ padding q)
        (m.disassembly.listing = n.disassembly.listing ↔
          v.length = w.length ∧ ∀ k (hv : k < v.length) (hw : k < w.length), v[k].Alike w[k])) ∧
      ∀ i j : Instruction, i.text = j.text ↔
        i = j ∨ (∃ x y z, i = .alu .shr x y ∧ j = .alu .shr x z) ∨
          ∃ x y z, i = .alu .shl x y ∧ j = .alu .shl x z := by
  obtain ⟨ho, -⟩ := Settings.validate_ok hs
  refine ⟨?_, fun i j => Instruction.text_eq_iff⟩
  intro p q size size' m n hp hq v w
  rw [listing_of_fresh_load ho hp, listing_of_fresh_load ho hq, mapIdx_text_eq_iff, ← words_append_padding p,
    ← words_append_padding q]

theorem listing_eq_iff_shift :
    let p : List UInt8 := [0x81, 0x26, 0x00, 0xe0, 0xd1]
    let q : List UInt8 := [0x81, 0x36, 0x00, 0xe0, 0xd1, 0x00]
    let m := ((Memory.blank 0xffa).load p).2
    let n := ((Memory.blank 0xffa).load q).2
    m.disassembly.listing = n.disassembly.listing := by
  intro p q m n
  obtain ⟨hlisting, -⟩ := listing_eq_iff (s := { origin := 0xffa }) rfl
  have hp : words (p ++ padding p) = [0x8126, 0x00e0, 0xd100] := by decide +kernel
  have hq : words (q ++ padding q) = [0x8136, 0x00e0, 0xd100] := by decide +kernel
  have hshift : Word.Alike 0x8126 0x8136 :=
    .inr (.inl ⟨⟨1, by decide⟩, ⟨2, by decide⟩, ⟨3, by decide⟩, by decide, by decide⟩)
  refine (hlisting p q 5 6 m n rfl rfl).2 ?_
  rw [hp, hq]
  refine ⟨rfl, ?_⟩
  intro k hv _
  match k, hv with
  | 0, _ => exact hshift
  | 1, _ => exact .inl rfl
  | 2, _ => exact .inl rfl

end Program

end Chip8
