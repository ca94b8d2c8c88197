import Chip8.Instruction.Pattern
import Chip8.Proofs.Step
import Mathlib.Data.List.Basic

namespace Chip8

def Word.arithmetic? (w : Word) (a b : Nat) : Option (Nat × Option Nat) :=
  if w.family = 0x7 then some ((a + w.kk.toNat) % 256, none)
  else if w.family = 0x8 then
    match w.n.val with
    | 0x0 => some (b, none)
    | 0x1 => some (a ||| b, none)
    | 0x2 => some (a &&& b, none)
    | 0x3 => some (a ^^^ b, none)
    | 0x4 => some ((a + b) % 256, some (if 255 < a + b then 1 else 0))
    | 0x5 => some ((((a : Int) - b) % 256).toNat, some (if b ≤ a then 1 else 0))
    | 0x6 => some (a / 2, some (a % 2))
    | 0x7 => some ((((b : Int) - a) % 256).toNat, some (if a ≤ b then 1 else 0))
    | 0xe => some (2 * a % 256, some (a / 128))
    | _ => none
  else none

section Bytes

variable (a b : UInt8)

theorem toNat_difference : (a - b).toNat = (((a.toNat : Int) - b.toNat) % 256).toNat := by
  have := b.toNat_lt
  rw [UInt8.toNat_sub]
  omega

theorem toNat_double : (a <<< 1).toNat = 2 * a.toNat % 256 := by
  rw [UInt8.toNat_shiftLeft, UInt8.toNat_one, Nat.shiftLeft_eq]
  simp only [Nat.reduceMod, Nat.reducePow, Nat.mul_comm]

theorem toNat_half : (a >>> 1).toNat = a.toNat / 2 := by
  rw [UInt8.toNat_shiftRight]
  exact Nat.shiftRight_eq_div_pow _ _

theorem toNat_top : (a >>> 7).toNat = a.toNat / 128 := by
  rw [UInt8.toNat_shiftRight]
  exact Nat.shiftRight_eq_div_pow _ _

theorem toNat_bottom : (a &&& 1).toNat = a.toNat % 2 := by
  rw [UInt8.toNat_and, UInt8.toNat_one, Nat.and_one_is_mod]

theorem toNat_carry :
    (if a.toNat + b.toNat < 256 then 0 else 1 : UInt8).toNat = if 255 < a.toNat + b.toNat then 1 else 0 := by
  split
  · rw [if_neg (by omega)]
    rfl
  · rw [if_pos (by omega)]
    rfl

theorem toNat_at_least : (if b ≤ a then 1 else 0 : UInt8).toNat = if b.toNat ≤ a.toNat then 1 else 0 := by
  simp only [UInt8.le_iff_toNat_le]
  split <;> rfl

theorem some_pair {r r' f f' : Nat} (hr : r = r') (hf : f = f') : some (r, some f) = some (r', some f') := by
  rw [hr, hf]

theorem AluOp.arithmetic?_eval {w : Word} {op : AluOp} (hf : w.family = 0x8) (hn : w.n.val = op.code) :
    w.arithmetic? a.toNat b.toNat = some ((op.eval a b).1.toNat, (op.eval a b).2.map UInt8.toNat) := by
  rw [Word.arithmetic?, hf, hn]
  cases op with
  | load => rfl
  | or => exact congrArg (fun r => some (r, none)) (UInt8.toNat_or a b).symm
  | and => exact congrArg (fun r => some (r, none)) (UInt8.toNat_and a b).symm
  | xor => exact congrArg (fun r => some (r, none)) (UInt8.toNat_xor a b).symm
  | add => exact some_pair (UInt8.toNat_add a b).symm (toNat_carry a b).symm
  | sub => exact some_pair (toNat_difference a b).symm (toNat_at_least a b).symm
  | shr => exact some_pair (toNat_half a).symm (toNat_bottom a).symm
  | subn => exact some_pair (toNat_difference b a).symm (toNat_at_least b a).symm
  | shl => exact some_pair (toNat_double a).symm (toNat_top a).symm

end Bytes

theorem Word.exists_op {w : Word} {a b : Nat} {r} (hf : w.family ≠ 0x7) (h : w.arithmetic? a b = some r) :
    w.family = 0x8 ∧ ∃ op : AluOp, w.n.val = op.code := by
  rw [arithmetic?, if_neg hf] at h
  split at h
  · next h8 =>
      refine ⟨h8, ?_⟩
      split at h
      · next hn => exact ⟨.load, hn⟩
      · next hn => exact ⟨.or, hn⟩
      · next hn => exact ⟨.and, hn⟩
      · next hn => exact ⟨.xor, hn⟩
      · next hn => exact ⟨.add, hn⟩
      · next hn => exact ⟨.sub, hn⟩
      · next hn => exact ⟨.shr, hn⟩
      · next hn => exact ⟨.subn, hn⟩
      · next hn => exact ⟨.shl, hn⟩
      · cases h
  · cases h

namespace Machine

variable {m s : Machine} {w : Word} {x : Register}

structure Stores (m s : Machine) (x : Register) (r : Nat) (f : Option Nat) : Prop where
  flag : ∀ k, f = some k → (s.v .flag).toNat = k
  result : f = none ∨ x ≠ .flag → (s.v x).toNat = r
  others : ∀ z, z ≠ x → f = none ∨ z ≠ .flag → s.v z = m.v z

theorem stores_setV (m : Machine) (x : Register) (b : UInt8) : Stores m (m.setV x b) x b.toNat none where
  flag := nofun
  result _ := by rw [v_setV]
  others z hz _ := m.v_setV_of_ne hz.symm b

theorem stores_flag (m : Machine) (x : Register) (b f : UInt8) :
    Stores m ((m.setV x b).setV .flag f) x b.toNat (some f.toNat) where
  flag k hk := by
    rw [v_setV]
    exact Option.some.inj hk
  result hx := by
    rw [v_setV_of_ne _ (hx.resolve_left nofun).symm, v_setV]
  others z hz hflag := by
    rw [v_setV_of_ne _ (hflag.resolve_left nofun).symm, v_setV_of_ne _ hz.symm]

theorem stores_runAlu (m : Machine) (op : AluOp) (x y : Register) :
    Stores m (m.runAlu op x y) x (op.eval (m.v x) (m.v y)).1.toNat
      ((op.eval (m.v x) (m.v y)).2.map UInt8.toNat) := by
  unfold runAlu
  split
  · next result h =>
      rw [h]
      exact m.stores_setV x result
  · next result flag h =>
      rw [h]
      exact m.stores_flag x result flag

theorem execute_arithmetic {r : Nat} {flag : Option Nat}
    (h : w.arithmetic? (m.v w.x).toNat (m.v w.y).toNat = some (r, flag)) :
    ∃ s, m.execute (.decode w) = (.ok .next, s) ∧ s = { m with registers := s.registers } ∧
      Stores m s w.x r flag := by
  by_cases hf : w.family = 0x7
  · rw [Word.arithmetic?, if_pos hf] at h
    cases h
    rw [(Word.Fits.addByte hf).decode_eq]
    refine ⟨_, rfl, rfl, ?_⟩
    have := m.stores_setV w.x (m.v w.x + w.kk)
    rwa [UInt8.toNat_add] at this
  · obtain ⟨h8, op, hn⟩ := Word.exists_op hf h
    rw [AluOp.arithmetic?_eval _ _ h8 hn] at h
    cases h
    rw [(Word.Fits.alu h8 hn).decode_eq]
    obtain ⟨registers, hr⟩ := m.runAlu_eq op w.x w.y
    refine ⟨_, rfl, ?_, m.stores_runAlu op w.x w.y⟩
    rw [hr]

theorem register_arithmetic (hm : m.mode = .running) (hf : m.memory.fetch m.pc = .ok w) {r : Nat}
    {flag : Option Nat} (h : w.arithmetic? (m.v w.x).toNat (m.v w.y).toNat = some (r, flag)) :
    let s := m.step.2
    m.step.1 = .executed (.decode w) ∧
      s = { m with registers := s.registers, pc := m.pc + 2 } ∧ (m.pc + 2).toNat = m.pc.toNat + 2 ∧
      (∀ f, flag = some f → (s.v .flag).toNat = f) ∧
      (flag = none ∨ w.x ≠ .flag → (s.v w.x).toNat = r) ∧
      ∀ z, z ≠ w.x → flag = none ∨ z ≠ .flag → s.v z = m.v z := by
  obtain ⟨s, he, hrest, hflag, hresult, hothers⟩ := execute_arithmetic h
  have hs := step_of_execute hm hf rfl he
  rw [hs]
  refine ⟨rfl, ?_, toNat_next hf, hflag, hresult, hothers⟩
  rw [hrest]
  rfl

theorem register_arithmetic_flag_operands :
    let m := ((ofSettings {} (by decide) (.ofSeed 0)).load [0x6f, 0xc8, 0x8f, 0xf4]).2.step.2
    Word.arithmetic? 0x8ff4 (m.v .flag).toNat (m.v .flag).toNat = some (144, some 1) ∧
      (m.step.2.v .flag).toNat = 1 ∧ m.step.2.pc = 0x204 := by
  intro m
  have hstart : m.mode = .running ∧ m.memory.fetch m.pc = .ok 0x8ff4 ∧ m.v .flag = 0xc8 ∧ m.pc = 0x202 := by
    decide +kernel
  clear_value m
  obtain ⟨hm, hf, hv, hpc⟩ := hstart
  have hsum : Word.arithmetic? 0x8ff4 (m.v .flag).toNat (m.v .flag).toNat = some (144, some 1) := by
    rw [hv]
    rfl
  obtain ⟨-, hrest, -, hflag, -⟩ := register_arithmetic hm hf hsum
  refine ⟨hsum, hflag 1 rfl, ?_⟩
  rw [hrest, hpc]
  rfl

end Machine

end Chip8
