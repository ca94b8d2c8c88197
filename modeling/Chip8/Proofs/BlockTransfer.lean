import Chip8.Proofs.Step

namespace Chip8

theorem Memory.fetch_congr {m s : Memory} {addr : UInt16} (h : s.peek addr.toNat = m.peek addr.toNat)
    (h' : s.peek (addr.toNat + 1) = m.peek (addr.toNat + 1)) : s.fetch addr = m.fetch addr := by
  rw [fetch, fetch, h, h']

namespace Machine

variable {m t : Machine} {i : Instruction} {x y : Register} {data : List UInt8}

def overlaid (m : Machine) (data : List UInt8) (a : Nat) : UInt8 :=
  (if m.index.toNat ≤ a then data[a - m.index.toNat]? else none).getD (m.memory.peek a)

theorem overlaid_at (m : Machine) (data : List UInt8) (k : Nat) :
    m.overlaid data (m.index.toNat + k) = data[k]?.getD (m.memory.peek (m.index.toNat + k)) := by
  rw [overlaid, if_pos (Nat.le_add_right _ _), Nat.add_sub_cancel_left]

theorem overlaid_around {a : Nat} (h : a < m.index.toNat ∨ m.index.toNat + data.length ≤ a) :
    m.overlaid data a = m.memory.peek a := by
  rw [overlaid]
  split
  · rw [List.getElem?_eq_none (by omega), Option.getD_none]
  · rfl

theorem v_follow (m : Machine) (pc : UInt16) (flow : Transfer) (k : Register) : (m.follow pc flow).v k = m.v k := by
  cases flow <;> rfl

theorem index_follow (m : Machine) (pc : UInt16) (flow : Transfer) : (m.follow pc flow).index = m.index := by
  cases flow <;> rfl

theorem step_store (hs : m.step.1 = .executed i) (hi : m.execute i = m.write data) :
    m.step.2.index = m.index ∧ ∀ a, m.step.2.memory.peek a = m.overlaid data a := by
  obtain ⟨w, flow, s, -, -, -, he, hs⟩ := step_executed hs
  rw [hi] at he
  obtain ⟨rfl, hfit, rfl⟩ := write_ok he
  rw [hs, index_follow]
  exact ⟨rfl, fun a => Memory.peek_patch hfit rfl a⟩

theorem v_withRegisters (m : Machine) (bytes : List UInt8) (k : Register) :
    (m.withRegisters bytes).v k = bytes[k.val]?.getD (m.v k) :=
  Vector.getElem_ofFn k.isLt

theorem index_withRegisters (m : Machine) (bytes : List UInt8) : (m.withRegisters bytes).index = m.index := by
  obtain ⟨registers, hr⟩ := m.withRegisters_eq bytes
  rw [hr]

theorem getElem?_peeks (m : Memory) (start : Nat) {n k : Nat} (hk : k < n) :
    ((List.range n).map fun j => m.peek (start + j))[k]? = some (m.peek (start + k)) := by
  rw [List.getElem?_map, List.getElem?_range hk]
  rfl

theorem step_load (hs : t.step.1 = .executed (.loadRegisters y)) :
    t.step.2.index = t.index ∧
      ∀ k, t.step.2.v k = if k ≤ y then t.memory.peek (t.index.toNat + k.val) else t.v k := by
  obtain ⟨w, flow, s, -, -, -, he, hs⟩ := step_executed hs
  have hlen : (UInt64.ofNat (y.val + 1)).toNat = y.val + 1 := by
    rw [UInt64.toNat_ofNat']
    omega
  simp only [execute] at he
  split at he
  · cases he
  · next bytes hb =>
      cases he
      have hbytes : bytes = (List.range (y.val + 1)).map fun j => t.memory.peek (t.index.toNat + j) := by
        unfold Memory.slice at hb
        split at hb
        · rw [← Except.ok.inj hb, hlen]
        · cases hb
      rw [hs, index_follow, index_withRegisters]
      refine ⟨rfl, fun k => ?_⟩
      rw [v_follow, v_withRegisters, hbytes]
      split
      · next hk => rw [getElem?_peeks _ _ (Nat.lt_succ_of_le hk), Option.getD_some]
      · next hk =>
          rw [List.getElem?_eq_none, Option.getD_none]
          rw [List.length_map, List.length_range]
          exact Nat.lt_of_not_le hk

section Pair

variable (hs : m.step.1 = .executed i) (hi : m.execute i = m.write data) (hmemory : t.memory = m.step.2.memory)
  (hindex : t.index = m.step.2.index)

include hs hi hmemory

theorem fetch_after_store
    (hout : t.pc.toNat + 1 < m.index.toNat ∨ m.index.toNat + data.length ≤ t.pc.toNat) :
    t.memory.fetch t.pc = m.memory.fetch t.pc := by
  obtain ⟨-, hpeek⟩ := step_store hs hi
  rw [hmemory]
  apply Memory.fetch_congr
  · rw [hpeek, overlaid_around (by omega)]
  · rw [hpeek, overlaid_around (by omega)]

include hindex

theorem load_after_store (hload : t.step.1 = .executed (.loadRegisters y)) :
    t.step.2.index = m.index ∧ ∀ k, t.step.2.v k =
      if k ≤ y then data[k.val]?.getD (m.memory.peek (m.index.toNat + k.val)) else t.v k := by
  obtain ⟨hkeep, hpeek⟩ := step_store hs hi
  obtain ⟨hkeep', hv⟩ := step_load hload
  rw [hkeep', hindex, hkeep]
  refine ⟨rfl, fun k => ?_⟩
  rw [hv, hmemory, hindex, hkeep, hpeek, overlaid_at]

end Pair

theorem getElem?_registersTo (m : Machine) (x k : Register) :
    (m.registersTo x)[k.val]? = if k ≤ x then some (m.v k) else none := by
  rw [registersTo, List.getElem?_take]
  by_cases h : k ≤ x
  · rw [if_pos h, if_pos (Nat.lt_succ_of_le h), Vector.getElem?_toList, Vector.getElem?_eq_getElem k.isLt]
    rfl
  · rw [if_neg h, if_neg fun hlt => h (Nat.le_of_lt_succ hlt)]

theorem decimalDigits_value (b : UInt8) :
    ∃ c d u, decimalDigits b = [c, d, u] ∧ c.toNat < 10 ∧ d.toNat < 10 ∧ u.toNat < 10 ∧
      100 * c.toNat + 10 * d.toNat + u.toNat = b.toNat := by
  have := b.toNat_lt
  refine ⟨b / 100, b / 10 % 10, b % 10, rfl, ?_⟩
  simp only [UInt8.toNat_div, UInt8.toNat_mod, UInt8.reduceToNat]
  omega

theorem stores_are_loaded_back (m : Machine) (x : Register) :
    (m.step.1 = .executed (.storeRegisters x) →
      m.step.2.index = m.index ∧ ∀ t : Machine, t.memory = m.step.2.memory → t.index = m.step.2.index →
        (t.pc.toNat + 1 < m.index.toNat ∨ m.index.toNat + x.val < t.pc.toNat →
          t.memory.fetch t.pc = m.memory.fetch t.pc) ∧
        ∀ y, t.step.1 = .executed (.loadRegisters y) →
          t.step.2.index = m.index ∧ ∀ k,
            (k ≤ x → k ≤ y → t.step.2.v k = m.v k) ∧
            (x < k → k ≤ y → t.step.2.v k = m.memory.peek (m.index.toNat + k.val)) ∧
            (y < k → t.step.2.v k = t.v k)) ∧
    (m.step.1 = .executed (.storeDecimal x) →
      m.step.2.index = m.index ∧ ∀ t : Machine, t.memory = m.step.2.memory → t.index = m.step.2.index →
        (t.pc.toNat + 1 < m.index.toNat ∨ m.index.toNat + 2 < t.pc.toNat →
          t.memory.fetch t.pc = m.memory.fetch t.pc) ∧
        (t.step.1 = .executed (.loadRegisters 2) →
          t.step.2.index = m.index ∧
            (t.step.2.v 0).toNat < 10 ∧ (t.step.2.v 1).toNat < 10 ∧ (t.step.2.v 2).toNat < 10 ∧
            100 * (t.step.2.v 0).toNat + 10 * (t.step.2.v 1).toNat + (t.step.2.v 2).toNat = (m.v x).toNat)) := by
  constructor
  · intro hs
    refine ⟨(step_store hs rfl).1, fun t hmemory hindex => ⟨fun hout => ?_, fun y hload => ?_⟩⟩
    · refine fetch_after_store hs rfl hmemory ?_
      rwa [length_registersTo]
    · obtain ⟨hkeep, hv⟩ := load_after_store hs rfl hmemory hindex hload
      refine ⟨hkeep, fun k => ⟨fun hx hy => ?_, fun hx hy => ?_, fun hy => ?_⟩⟩
      · rw [hv, if_pos hy, getElem?_registersTo, if_pos hx, Option.getD_some]
      · rw [hv, if_pos hy, getElem?_registersTo, if_neg (Fin.not_le.2 hx), Option.getD_none]
      · rw [hv, if_neg (Fin.not_le.2 hy)]
  · intro hs
    refine ⟨(step_store hs rfl).1, fun t hmemory hindex => ⟨fetch_after_store hs rfl hmemory, fun hload => ?_⟩⟩
    obtain ⟨hkeep, hv⟩ := load_after_store hs rfl hmemory hindex hload
    obtain ⟨c, d, u, hdigits, hvalue⟩ := decimalDigits_value (m.v x)
    rw [hdigits] at hv
    rw [hv 0, hv 1, hv 2]
    exact ⟨hkeep, hvalue⟩

theorem stores_are_loaded_back_font :
    let fresh := (ofSettings {} (by decide) (.ofSeed 0)).setV 1 254
    let m := { (fresh.load [0xf1, 0x55, 0xf3, 0x65]).2 with index := 0x50 }
    let t := m.step.2.setV 1 3
    let n := (fresh.load [0xf1, 0x33, 0xf2, 0x65]).2
    let u := n.step.2.step.2
    t.step.2.v 1 = 254 ∧ t.step.2.v 2 = 0x90 ∧
      100 * (u.v 0).toNat + 10 * (u.v 1).toNat + (u.v 2).toNat = 254 := by
  intro fresh m t n u
  have hfirst : m.step.1 = .executed (.storeRegisters 1) ∧ t.step.1 = .executed (.loadRegisters 3) ∧
      m.v 1 = 254 ∧ m.memory.peek (m.index.toNat + 2) = 0x90 := by
    decide +kernel
  have hsecond : n.step.1 = .executed (.storeDecimal 1) ∧ n.step.2.step.1 = .executed (.loadRegisters 2) ∧
      (n.v 1).toNat = 254 := by
    decide +kernel
  have hsame : t.memory = m.step.2.memory ∧ t.index = m.step.2.index := ⟨rfl, rfl⟩
  clear_value m t n
  obtain ⟨hmemory, hindex⟩ := hsame
  obtain ⟨hstore, hload, hone, hfont⟩ := hfirst
  obtain ⟨hstore', hload', hvalue⟩ := hsecond
  obtain ⟨-, hback⟩ := (stores_are_loaded_back m 1).1 hstore
  obtain ⟨-, hregisters⟩ := (hback t hmemory hindex).2 3 hload
  obtain ⟨-, hdigits⟩ := (stores_are_loaded_back n 1).2 hstore'
  obtain ⟨-, -, -, -, hsum⟩ := (hdigits n.step.2 rfl rfl).2 hload'
  refine ⟨?_, ?_, hsum.trans hvalue⟩
  · exact ((hregisters 1).1 (by decide) (by decide)).trans hone
  · exact ((hregisters 2).2.1 (by decide) (by decide)).trans hfont

end Machine

end Chip8
