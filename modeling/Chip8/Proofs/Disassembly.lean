import Chip8.Disassembly

namespace Chip8

namespace Memory

variable (m : Memory)

def item (a : Nat) : UInt16 × Instruction := (UInt16.ofNat a, .decode (.ofBytes (m.peek a) (m.peek (a + 1))))

theorem peek_above {a : Nat} (h : 4096 ≤ a) : m.peek a = 0 := by
  rw [peek, Vector.getElem?_eq_none h, Option.getD_none]

theorem byte_of_lt {addr : UInt16} (h : addr.toNat < 4096) : m.byte addr = .ok (m.peek addr.toNat) := by
  have hacc : Accessible addr 1 := accessible_iff.2 h
  rw [byte, if_pos hacc]

theorem byte_getD (addr : UInt16) : (m.byte addr).toOption.getD 0 = m.peek addr.toNat := by
  by_cases h : addr.toNat < 4096
  · rw [m.byte_of_lt h]
    rfl
  · have hacc : ¬ Accessible addr 1 := mt accessible_iff.1 h
    rw [byte, if_neg hacc, m.peek_above (Nat.not_lt.1 h)]
    rfl

end Memory

namespace Disassembly

variable {d : Disassembly}

theorem next?_of_le (h : d.stop.toNat ≤ d.cursor.toNat) : d.next? = none := by
  rw [next?, if_pos (UInt16.le_iff_toNat_le.2 h)]

theorem next?_of_lt (hstop : d.stop.toNat ≤ 4096) (h : d.cursor.toNat < d.stop.toNat) :
    d.next? = some (d.memory.item d.cursor.toNat, { d with cursor := advance d.cursor }) := by
  have hlow : (d.cursor + 1).toNat = d.cursor.toNat + 1 := Word.toNat_add_ofNat (k := 1) (by omega)
  have hmore : ¬ d.stop ≤ d.cursor := by
    rw [UInt16.le_iff_toNat_le]
    omega
  rw [next?, if_neg hmore, d.memory.byte_of_lt (by omega), d.memory.byte_getD, hlow, Memory.item,
    UInt16.ofNat_toNat]

theorem toNat_advance {a : UInt16} (h : a.toNat < 4096) : (advance a).toNat = a.toNat + 2 := by
  simp only [advance, UInt16.toNat_ofNat']
  omega

theorem toList_eq (hstop : d.stop.toNat ≤ 4096) :
    d.toList = (List.range d.remaining).map fun k => d.memory.item (d.cursor.toNat + 2 * k) := by
  fun_induction toList d with
  | case1 d hn =>
      have hdone : d.stop.toNat ≤ d.cursor.toNat := by
        refine Nat.not_lt.1 ?_
        intro hlt
        rw [next?_of_lt hstop hlt] at hn
        cases hn
      have hnone : d.remaining = 0 := by
        rw [remaining]
        omega
      rw [hnone]
      rfl
  | case2 d item e hn ih =>
      have hlt : d.cursor.toNat < d.stop.toNat := by
        refine Nat.not_le.1 ?_
        intro hle
        rw [next?_of_le hle] at hn
        cases hn
      rw [next?_of_lt hstop hlt] at hn
      cases hn
      have hnext := toNat_advance (Nat.lt_of_lt_of_le hlt hstop)
      have hmore : d.remaining = { d with cursor := advance d.cursor }.remaining + 1 := by
        simp only [remaining, hnext]
        omega
      rw [ih hstop, hmore, List.range_succ_eq_map, List.map_cons, List.map_map]
      refine congrArg _ (List.map_congr_left ?_)
      intro k _
      show d.memory.item ((advance d.cursor).toNat + 2 * k) = d.memory.item (d.cursor.toNat + 2 * (k + 1))
      rw [hnext]
      congr 1
      omega

theorem mem_toList_iff (hstop : d.stop.toNat ≤ 4096) {a : UInt16} {i : Instruction} :
    (a, i) ∈ d.toList ↔
      (d.cursor.toNat ≤ a.toNat ∧ a.toNat < d.stop.toNat ∧ (a.toNat - d.cursor.toNat) % 2 = 0) ∧
        i = .decode (.ofBytes (d.memory.peek a.toNat) (d.memory.peek (a.toNat + 1))) := by
  rw [toList_eq hstop, List.mem_map]
  constructor
  · rintro ⟨k, hk, hitem⟩
    rw [List.mem_range, remaining] at hk
    rw [Memory.item] at hitem
    cases hitem
    rw [UInt16.toNat_ofNat', Nat.mod_eq_of_lt (by omega)]
    exact ⟨by omega, rfl⟩
  · rintro ⟨⟨hle, hlt, heven⟩, rfl⟩
    refine ⟨(a.toNat - d.cursor.toNat) / 2, ?_, ?_⟩
    · rw [List.mem_range, remaining]
      omega
    · rw [show d.cursor.toNat + 2 * ((a.toNat - d.cursor.toNat) / 2) = a.toNat by omega, Memory.item,
        UInt16.ofNat_toNat]

end Disassembly

end Chip8
