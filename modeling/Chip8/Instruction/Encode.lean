import Chip8.Instruction.Basic

namespace Chip8

def Condition.encode : Condition → Word
  | .equalByte x kk => .ofByteFields 0x3 x kk
  | .notEqualByte x kk => .ofByteFields 0x4 x kk
  | .equal x y => .ofFields 0x5 x y 0x0
  | .notEqual x y => .ofFields 0x9 x y 0x0
  | .pressed x => .ofByteFields 0xe x 0x9e
  | .released x => .ofByteFields 0xe x 0xa1

namespace Instruction

def encode : Instruction → Word
  | .clear => 0x00e0
  | .ret => 0x00ee
  | .jump a => .ofAddressFields 0x1 a
  | .call a => .ofAddressFields 0x2 a
  | .jumpFromV0 a => .ofAddressFields 0xb a
  | .skip c => c.encode
  | .loadByte x kk => .ofByteFields 0x6 x kk
  | .addByte x kk => .ofByteFields 0x7 x kk
  | .alu op x y => .ofFields 0x8 x y op.code
  | .random x mask => .ofByteFields 0xc x mask
  | .loadIndex a => .ofAddressFields 0xa a
  | .addIndex x => .ofByteFields 0xf x 0x1e
  | .loadGlyph x => .ofByteFields 0xf x 0x29
  | .draw x y rows => .ofFields 0xd x y rows.val
  | .readDelay x => .ofByteFields 0xf x 0x07
  | .setDelay x => .ofByteFields 0xf x 0x15
  | .setSound x => .ofByteFields 0xf x 0x18
  | .waitKey x => .ofByteFields 0xf x 0x0a
  | .storeDecimal x => .ofByteFields 0xf x 0x33
  | .storeRegisters x => .ofByteFields 0xf x 0x55
  | .loadRegisters x => .ofByteFields 0xf x 0x65
  | .unknown w => w

def Canonical : Instruction → Prop
  | .unknown w => decode w = .unknown w
  | _ => True

instance (i : Instruction) : Decidable i.Canonical :=
  match i with
  | .unknown w => inferInstanceAs (Decidable (decode w = .unknown w))
  | .clear | .ret | .jump _ | .call _ | .jumpFromV0 _ | .skip _ | .loadByte _ _ | .addByte _ _
  | .alu _ _ _ | .random _ _ | .loadIndex _ | .addIndex _ | .loadGlyph _ | .draw _ _ _
  | .readDelay _ | .setDelay _ | .setSound _ | .waitKey _ | .storeDecimal _ | .storeRegisters _
  | .loadRegisters _ => .isTrue trivial

theorem encode_decode (w : Word) : (decode w).encode = w := by
  have hk : ∀ k : UInt8, w.kk.toNat = k.toNat → w.kk = k := fun k h => UInt8.toNat_inj.1 h
  unfold decode
  split
  · split
    · simp [encode, *]
    · split <;> simp [encode, *]
  · next h => rw [encode, ← h, Word.ofAddressFields_eq]
  · next h => rw [encode, ← h, Word.ofAddressFields_eq]
  · next h => rw [encode, Condition.encode, ← h, Word.ofByteFields_eq]
  · next h => rw [encode, Condition.encode, ← h, Word.ofByteFields_eq]
  · next h =>
      split
      · next hn => rw [encode, Condition.encode, ← h, ← hn, Word.ofFields_eq]
      · rfl
  · next h => rw [encode, ← h, Word.ofByteFields_eq]
  · next h => rw [encode, ← h, Word.ofByteFields_eq]
  · next h =>
      split
      · next op hop => rw [encode, AluOp.code_of_ofCode? hop, ← h, Word.ofFields_eq]
      · rfl
  · next h =>
      split
      · next hn => rw [encode, Condition.encode, ← h, ← hn, Word.ofFields_eq]
      · rfl
  · next h => rw [encode, ← h, Word.ofAddressFields_eq]
  · next h => rw [encode, ← h, Word.ofAddressFields_eq]
  · next h => rw [encode, ← h, Word.ofByteFields_eq]
  · next h => rw [encode, ← h, Word.ofFields_eq]
  · next h =>
      split
      · next hn => rw [encode, Condition.encode, ← h, ← hk 0x9e hn, Word.ofByteFields_eq]
      · next hn => rw [encode, Condition.encode, ← h, ← hk 0xa1 hn, Word.ofByteFields_eq]
      · rfl
  · have h : w.family = 0xf := by
      have := w.family_lt
      simp_all
      omega
    split
    · next hn => rw [encode, ← h, ← hk 0x07 hn, Word.ofByteFields_eq]
    · next hn => rw [encode, ← h, ← hk 0x0a hn, Word.ofByteFields_eq]
    · next hn => rw [encode, ← h, ← hk 0x15 hn, Word.ofByteFields_eq]
    · next hn => rw [encode, ← h, ← hk 0x18 hn, Word.ofByteFields_eq]
    · next hn => rw [encode, ← h, ← hk 0x1e hn, Word.ofByteFields_eq]
    · next hn => rw [encode, ← h, ← hk 0x29 hn, Word.ofByteFields_eq]
    · next hn => rw [encode, ← h, ← hk 0x33 hn, Word.ofByteFields_eq]
    · next hn => rw [encode, ← h, ← hk 0x55 hn, Word.ofByteFields_eq]
    · next hn => rw [encode, ← h, ← hk 0x65 hn, Word.ofByteFields_eq]
    · rfl

theorem decode_encode {i : Instruction} (h : i.Canonical) : decode i.encode = i := by
  cases i with
  | unknown w => exact h
  | clear => rfl
  | ret => rfl
  | skip c =>
      cases c <;>
        simp only [encode, Condition.encode, decode, Word.family_ofByteFields, Word.x_ofByteFields,
          Word.kk_ofByteFields, Word.family_ofFields, Word.x_ofFields, Word.y_ofFields, Word.n_ofFields,
          Nat.reduceLT, UInt8.reduceToNat, if_true]
  | alu op x y =>
      simp only [encode, decode, Word.family_ofFields, Word.x_ofFields, Word.y_ofFields, Word.n_ofFields,
        Nat.reduceLT, op.code_lt, AluOp.ofCode?_code]
  | draw x y rows =>
      simp only [encode, decode, Word.family_ofFields, Word.x_ofFields, Word.y_ofFields, Nat.reduceLT,
        rows.isLt]
      rw [draw.injEq]
      exact ⟨rfl, rfl, Fin.ext (Word.n_ofFields (by decide) rows.isLt x y)⟩
  | jump a | call a | jumpFromV0 a | loadIndex a =>
      simp only [encode, decode, Word.family_ofAddressFields, Word.nnn_ofAddressFields, Nat.reduceLT]
  | _ =>
      simp only [encode, decode, Word.family_ofByteFields, Word.x_ofByteFields, Word.kk_ofByteFields,
        Nat.reduceLT, UInt8.reduceToNat]

theorem canonical_decode (w : Word) : (decode w).Canonical := by
  cases h : decode w with
  | unknown v =>
      have := encode_decode w
      rw [h] at this
      simpa [Canonical, ← this, encode] using h
  | _ => trivial

end Instruction

end Chip8
