import Chip8.Instruction.Basic

namespace Chip8

namespace Word

inductive Fits (w : Word) : Instruction → Prop
  | clear : w = 0x00e0 → Fits w .clear
  | ret : w = 0x00ee → Fits w .ret
  | jump : w.family = 0x1 → Fits w (.jump w.nnn)
  | call : w.family = 0x2 → Fits w (.call w.nnn)
  | equalByte : w.family = 0x3 → Fits w (.skip (.equalByte w.x w.kk))
  | notEqualByte : w.family = 0x4 → Fits w (.skip (.notEqualByte w.x w.kk))
  | equal : w.family = 0x5 → w.n.val = 0x0 → Fits w (.skip (.equal w.x w.y))
  | loadByte : w.family = 0x6 → Fits w (.loadByte w.x w.kk)
  | addByte : w.family = 0x7 → Fits w (.addByte w.x w.kk)
  | alu {op : AluOp} : w.family = 0x8 → w.n.val = op.code → Fits w (.alu op w.x w.y)
  | notEqual : w.family = 0x9 → w.n.val = 0x0 → Fits w (.skip (.notEqual w.x w.y))
  | loadIndex : w.family = 0xa → Fits w (.loadIndex w.nnn)
  | jumpFromV0 : w.family = 0xb → Fits w (.jumpFromV0 w.nnn)
  | random : w.family = 0xc → Fits w (.random w.x w.kk)
  | draw : w.family = 0xd → Fits w (.draw w.x w.y w.n)
  | pressed : w.family = 0xe → w.kk = 0x9e → Fits w (.skip (.pressed w.x))
  | released : w.family = 0xe → w.kk = 0xa1 → Fits w (.skip (.released w.x))
  | readDelay : w.family = 0xf → w.kk = 0x07 → Fits w (.readDelay w.x)
  | waitKey : w.family = 0xf → w.kk = 0x0a → Fits w (.waitKey w.x)
  | setDelay : w.family = 0xf → w.kk = 0x15 → Fits w (.setDelay w.x)
  | setSound : w.family = 0xf → w.kk = 0x18 → Fits w (.setSound w.x)
  | addIndex : w.family = 0xf → w.kk = 0x1e → Fits w (.addIndex w.x)
  | loadGlyph : w.family = 0xf → w.kk = 0x29 → Fits w (.loadGlyph w.x)
  | storeDecimal : w.family = 0xf → w.kk = 0x33 → Fits w (.storeDecimal w.x)
  | storeRegisters : w.family = 0xf → w.kk = 0x55 → Fits w (.storeRegisters w.x)
  | loadRegisters : w.family = 0xf → w.kk = 0x65 → Fits w (.loadRegisters w.x)

variable {w : Word} {i : Instruction}

theorem Fits.isKnown (h : w.Fits i) : i.isKnown = true := by
  cases h <;> rfl

theorem Fits.decode_eq (h : w.Fits i) : Instruction.decode w = i := by
  cases h with
  | clear h | ret h =>
      subst h
      rfl
  | alu hf hn => simp only [Instruction.decode, hf, hn, AluOp.ofCode?_code]
  | equal hf hn | notEqual hf hn => simp only [Instruction.decode, hf, hn, if_true]
  | pressed hf hk | released hf hk | readDelay hf hk | waitKey hf hk | setDelay hf hk | setSound hf hk
  | addIndex hf hk | loadGlyph hf hk | storeDecimal hf hk | storeRegisters hf hk | loadRegisters hf hk =>
      simp only [Instruction.decode, hf, hk, UInt8.reduceToNat]
  | _ => simp only [Instruction.decode, *]

theorem kk_eq_of_toNat {k : UInt8} (h : w.kk.toNat = k.toNat) : w.kk = k := UInt8.toNat_inj.1 h

theorem fits_decode (w : Word) : w.Fits (.decode w) ∨ Instruction.decode w = .unknown w := by
  unfold Instruction.decode
  split
  · split
    · next h => exact .inl (.clear h)
    · split
      · next h => exact .inl (.ret h)
      · exact .inr rfl
  · next hf => exact .inl (.jump hf)
  · next hf => exact .inl (.call hf)
  · next hf => exact .inl (.equalByte hf)
  · next hf => exact .inl (.notEqualByte hf)
  · next hf =>
      split
      · next hn => exact .inl (.equal hf hn)
      · exact .inr rfl
  · next hf => exact .inl (.loadByte hf)
  · next hf => exact .inl (.addByte hf)
  · next hf =>
      split
      · next op hop => exact .inl (.alu hf (AluOp.code_of_ofCode? hop).symm)
      · exact .inr rfl
  · next hf =>
      split
      · next hn => exact .inl (.notEqual hf hn)
      · exact .inr rfl
  · next hf => exact .inl (.loadIndex hf)
  · next hf => exact .inl (.jumpFromV0 hf)
  · next hf => exact .inl (.random hf)
  · next hf => exact .inl (.draw hf)
  · next hf =>
      split
      · next hk => exact .inl (.pressed hf (kk_eq_of_toNat hk))
      · next hk => exact .inl (.released hf (kk_eq_of_toNat hk))
      · exact .inr rfl
  · have hf : w.family = 0xf := by
      have := w.family_lt
      simp_all
      omega
    split
    · next hk => exact .inl (.readDelay hf (kk_eq_of_toNat hk))
    · next hk => exact .inl (.waitKey hf (kk_eq_of_toNat hk))
    · next hk => exact .inl (.setDelay hf (kk_eq_of_toNat hk))
    · next hk => exact .inl (.setSound hf (kk_eq_of_toNat hk))
    · next hk => exact .inl (.addIndex hf (kk_eq_of_toNat hk))
    · next hk => exact .inl (.loadGlyph hf (kk_eq_of_toNat hk))
    · next hk => exact .inl (.storeDecimal hf (kk_eq_of_toNat hk))
    · next hk => exact .inl (.storeRegisters hf (kk_eq_of_toNat hk))
    · next hk => exact .inl (.loadRegisters hf (kk_eq_of_toNat hk))
    · exact .inr rfl

theorem fits_iff : w.Fits i ↔ Instruction.decode w = i ∧ i.isKnown = true := by
  constructor
  · intro h
    exact ⟨h.decode_eq, h.isKnown⟩
  · rintro ⟨rfl, hknown⟩
    rcases w.fits_decode with h | h
    · exact h
    · rw [h] at hknown
      cases hknown

end Word

end Chip8
