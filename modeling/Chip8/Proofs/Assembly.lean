import Chip8.Program
import Chip8.Proofs.Disassembly
import Chip8.Proofs.Loading
import Chip8.Settings.Basic

namespace Chip8.Program

variable {origin : UInt16} {program : List UInt8} {size : Nat} {m : Memory}

theorem peek_of_fresh_load (ho : 0xa0 ≤ origin.toNat) (h : (Memory.blank origin).load program = (.ok size, m))
    (k : Nat) : m.peek (origin.toNat + k) = program[k]?.getD 0 := by
  have hblank := Memory.peek_blank origin (Nat.le_add_right_of_le (k := k) ho)
  have horigin : (Memory.blank origin).origin = origin := rfl
  rw [Memory.peek_of_load h, horigin, if_pos (Nat.le_add_right _ _), Nat.add_sub_cancel_left, hblank]

theorem toList_of_fresh_load (ho : 0xa0 ≤ origin.toNat)
    (h : (Memory.blank origin).load program = (.ok size, m)) :
    m.disassembly.toList.map (fun item => (item.1.toNat, item.2)) =
      (words program).mapIdx fun k w => (origin.toNat + 2 * k, .decode w) := by
  obtain ⟨-, -, hfit, -, hm⟩ := Memory.load_ok h
  have hfit : origin.toNat + program.length ≤ 4096 := hfit
  have hstart : m.disassembly.cursor = origin := by rw [hm]; rfl
  have hstop : m.disassembly.stop.toNat = origin.toNat + program.length := Memory.stop_of_load h
  have hremaining : m.disassembly.remaining = (words program).length := by
    rw [Disassembly.remaining, hstop, hstart, length_words, Nat.add_sub_cancel_left]
  rw [Disassembly.toList_eq (hstop ▸ hfit), List.map_map, hremaining, hstart]
  refine List.ext_getElem ?_ ?_
  · rw [List.length_map, List.length_range, List.length_mapIdx]
  · intro k hk _
    rw [List.length_map, List.length_range, length_words] at hk
    rw [List.getElem_map, List.getElem_range, List.getElem_mapIdx, getElem_words]
    show ((UInt16.ofNat (origin.toNat + 2 * k)).toNat,
      Instruction.decode (.ofBytes (m.peek (origin.toNat + 2 * k)) (m.peek (origin.toNat + 2 * k + 1)))) = _
    rw [UInt16.toNat_ofNat', Nat.mod_eq_of_lt (by omega), Nat.add_assoc, peek_of_fresh_load ho h,
      peek_of_fresh_load ho h]

theorem assembly_round_trip {s : Settings} (hs : s.validate = .ok ()) :
    (∀ is : List Instruction, is ≠ [] → (∀ i ∈ is, i.Canonical) → s.origin.toNat + 2 * is.length ≤ 4096 →
      ∃ m, (Memory.blank s.origin).load (assemble is) = (.ok (2 * is.length), m) ∧
        m.disassembly.toList.map (fun item => (item.1.toNat, item.2)) =
          is.mapIdx fun k i => (s.origin.toNat + 2 * k, i)) ∧
      ∀ program size m, (Memory.blank s.origin).load program = (.ok size, m) →
        assemble (m.disassembly.toList.map Prod.snd) = program ++ padding program := by
  obtain ⟨ho, -⟩ := Settings.validate_ok hs
  constructor
  · intro is hne hcanonical hfit
    have hbytes : assemble is ≠ [] := by
      rw [← List.length_pos_iff] at hne ⊢
      rw [length_assemble]
      omega
    have hload := Memory.load_fits (Memory.hasProgram_blank s.origin) hbytes (by rwa [length_assemble])
    rw [length_assemble] at hload
    refine ⟨_, hload, ?_⟩
    rw [toList_of_fresh_load ho hload, words_assemble]
    refine List.ext_getElem (by simp) ?_
    intro k _ hk
    rw [List.length_mapIdx] at hk
    have hi : is[k].Canonical := hcanonical _ (List.getElem_mem hk)
    rw [List.getElem_mapIdx, List.getElem_mapIdx, List.getElem_map, Instruction.decode_encode hi]
  · intro program size m hload
    have hitems := congrArg (List.map Prod.snd) (toList_of_fresh_load ho hload)
    have his : m.disassembly.toList.map Prod.snd = (words program).map .decode := by
      rw [List.map_map] at hitems
      refine hitems.trans (List.ext_getElem (by simp) ?_)
      intro k _ _
      rw [List.getElem_map, List.getElem_mapIdx, List.getElem_map]
    rw [his, assemble_decode, bytes_words]

theorem assembly_round_trip_odd :
    let m := ((Memory.blank 0xffd).load [0x00, 0xe0, 0xd1]).2
    let is : List Instruction := [.unknown 0xffff, .draw ⟨1, by decide⟩ ⟨2, by decide⟩ ⟨4, by decide⟩]
    assemble (m.disassembly.toList.map Prod.snd) = [0x00, 0xe0, 0xd1, 0x00] ∧
      ∃ n, (Memory.blank 0xffc).load (assemble is) = (.ok 4, n) ∧
        n.disassembly.toList.map (fun item => (item.1.toNat, item.2)) =
          is.mapIdx fun k i => (0xffc + 2 * k, i) := by
  intro m is
  obtain ⟨-, hback⟩ := assembly_round_trip (s := { origin := 0xffd }) rfl
  obtain ⟨hthere, -⟩ := assembly_round_trip (s := { origin := 0xffc }) rfl
  have hcanonical : ∀ i ∈ is, i.Canonical := by decide
  exact ⟨hback [0x00, 0xe0, 0xd1] 3 m rfl, hthere is (by decide) hcanonical (by decide)⟩

end Chip8.Program
