import Chip8.Proofs.Bounds
import Chip8.Proofs.Disassembly

namespace Chip8.Machine

variable {n : Machine}

theorem step_of_fetch {w : Word} (hm : n.mode = .running) (hf : n.memory.fetch n.pc = .ok w) :
    n.step.1 = .executed (.decode w) ∨ ∃ c, n.step.1 = .faulted ⟨c, n.pc, some w⟩ := by
  obtain ⟨c, -, hs⟩ | ⟨flow, s, -, hs⟩ := step_fetched hm hf
  · exact .inr ⟨c, by rw [hs]⟩
  · exact .inl (by rw [hs])

variable {i : Instruction}

theorem step_of_listed (hstop : n.memory.stop.toNat ≤ 4096) (hm : n.mode = .running)
    (hlist : (n.pc, i) ∈ n.memory.disassembly.toList) (hpc : n.pc ≤ 0xffe) :
    n.step.1 = .executed i ∨ ∃ f w, n.step.1 = .faulted f ∧ f.word = some w ∧ Instruction.decode w = i := by
  obtain ⟨-, hi⟩ := (Disassembly.mem_toList_iff (d := n.memory.disassembly) hstop).1 hlist
  have hlt : n.pc.toNat + 1 < 4096 := Nat.succ_le_succ (Nat.succ_le_succ (UInt16.le_iff_toNat_le.1 hpc))
  rcases step_of_fetch hm (Memory.fetch_eq_ok_iff.2 ⟨hlt, rfl⟩) with hs | ⟨c, hs⟩
  · exact .inl (hi ▸ hs)
  · exact .inr ⟨_, _, hs, rfl, hi.symm⟩

theorem step_of_listed_top (hstop : n.memory.stop.toNat ≤ 4096) (hm : n.mode = .running)
    (hlist : (n.pc, i) ∈ n.memory.disassembly.toList) (hpc : n.pc = 0xfff) :
    i = .decode (.ofBytes (n.memory.peek 0xfff) 0) ∧
      n.step.1 = .faulted ⟨.fetchOutOfBounds, 0xfff, none⟩ := by
  obtain ⟨-, hi⟩ := (Disassembly.mem_toList_iff (d := n.memory.disassembly) hstop).1 hlist
  have htop : n.pc.toNat = 0xfff := congrArg UInt16.toNat hpc
  have hs := step_above hm (Nat.le_of_eq (congrArg Nat.succ htop.symm))
  have hpad : n.memory.peek (0xfff + 1) = 0 := n.memory.peek_above (Nat.le_refl _)
  refine ⟨?_, hpc ▸ hs⟩
  have hi : i = .decode (.ofBytes (n.memory.peek n.pc.toNat) (n.memory.peek (n.pc.toNat + 1))) := hi
  rwa [htop, hpad] at hi

theorem listed_of_executed (hstop : n.memory.stop.toNat ≤ 4096) (hs : n.step.1 = .executed i)
    (hle : n.memory.origin ≤ n.pc) (hlt : n.pc < n.memory.stop)
    (heven : (n.pc.toNat - n.memory.origin.toNat) % 2 = 0) (j : Instruction) :
    (n.pc, j) ∈ n.memory.disassembly.toList ↔ j = i := by
  obtain ⟨w, -, -, -, hf, rfl, -, -⟩ := step_executed hs
  obtain ⟨-, rfl⟩ := Memory.fetch_eq_ok_iff.1 hf
  rw [Disassembly.mem_toList_iff (d := n.memory.disassembly) hstop]
  exact and_iff_right ⟨UInt16.le_iff_toNat_le.1 hle, UInt16.lt_iff_toNat_lt.1 hlt, heven⟩

theorem step_agrees_with_listing {s : Settings} (hs : s.validate = .ok ()) (fallback : RandomSource) :
    (Screen.Fits s.width s.height → ∃ fresh, boot s fallback = .ok fresh) ∧
    ∀ fresh, boot s fallback = .ok fresh → ∀ (rs : List Request) (n : Machine),
      n.memory = (fresh.afterAll rs).memory →
      let items := n.memory.disassembly.toList
      (∀ addr i, (addr, i) ∈ items → addr ≤ 0xfff ∧ (n.mode = .running → n.pc = addr →
        (addr ≤ 0xffe →
          n.step.1 = .executed i ∨
            ∃ f w, n.step.1 = .faulted f ∧ f.word = some w ∧ Instruction.decode w = i) ∧
        (addr = 0xfff →
          i = .decode (.ofBytes (n.memory.peek 0xfff) 0) ∧
            n.step.1 = .faulted ⟨.fetchOutOfBounds, 0xfff, none⟩))) ∧
      ∀ i, n.step.1 = .executed i → n.memory.origin ≤ n.pc → n.pc < n.memory.stop →
        (n.pc.toNat - n.memory.origin.toNat) % 2 = 0 → ∀ j, (n.pc, j) ∈ items ↔ j = i := by
  refine ⟨exists_boot hs fallback, fun fresh hboot => ?_⟩
  obtain ⟨hfits, rfl⟩ := eq_of_boot hboot
  intro rs n hn items
  have hfresh := bounded_ofSettings hs hfits (s.seed.elim fallback .ofSeed)
  have hstop : n.memory.stop.toNat ≤ 4096 := by
    rw [hn]
    exact (afterAll_induction bounded_change hfresh rs).top
  refine ⟨?_, fun i => listed_of_executed hstop⟩
  intro addr i hlist
  obtain ⟨⟨-, hlt, -⟩, -⟩ := (Disassembly.mem_toList_iff (d := n.memory.disassembly) hstop).1 hlist
  refine ⟨UInt16.le_iff_toNat_le.2 (Nat.le_of_lt_succ (Nat.lt_of_lt_of_le hlt hstop)), ?_⟩
  rintro hm rfl
  exact ⟨step_of_listed hstop hm hlist, step_of_listed_top hstop hm hlist⟩

theorem step_agrees_with_listing_rewritten :
    let fresh := ofSettings { origin := 0xa1 } (by decide) (.ofSeed 0)
    let m := fresh.afterAll [.load [0xa0, 0xa5, 0xf0, 0x55, 0x60, 0xe0], .event .step, .event .step]
    let full := ofSettings { origin := 0xffd } (by decide) (.ofSeed 0)
    let top := { full.afterAll [.load [0x60, 0xe0, 0xab]] with pc := 0xfff }
    (m.pc = 0xa5 ∧ m.step.1 = .executed .clear ∧
        ∀ j, (0xa5, j) ∈ m.memory.disassembly.toList ↔ j = .clear) ∧
      ∃ i, (0xfff, i) ∈ top.memory.disassembly.toList ∧
        i = .decode (.ofBytes (top.memory.peek 0xfff) 0) ∧
        top.step.1 = .faulted ⟨.fetchOutOfBounds, 0xfff, none⟩ := by
  intro fresh m full top
  constructor
  · obtain ⟨-, hm⟩ := step_agrees_with_listing (s := { origin := 0xa1 }) rfl (.ofSeed 0)
    have hend : m.pc = 0xa5 ∧ m.step.1 = .executed .clear ∧ m.memory.origin ≤ m.pc ∧
        m.pc < m.memory.stop ∧ (m.pc.toNat - m.memory.origin.toNat) % 2 = 0 := by
      decide +kernel
    obtain ⟨hpc, hstep, hle, hlt, heven⟩ := hend
    obtain ⟨-, hshown⟩ :=
      hm fresh (boot_eq rfl _ _) [.load [0xa0, 0xa5, 0xf0, 0x55, 0x60, 0xe0], .event .step, .event .step] m rfl
    exact ⟨hpc, hstep, hpc ▸ hshown _ hstep hle hlt heven⟩
  · obtain ⟨-, hm⟩ := step_agrees_with_listing (s := { origin := 0xffd }) rfl (.ofSeed 0)
    obtain ⟨i, hi⟩ : ∃ i, (top.pc, i) ∈ top.memory.disassembly.toList :=
      ⟨_, Disassembly.mem_toList_iff (d := top.memory.disassembly) (by decide +kernel) |>.2
        ⟨by decide +kernel, rfl⟩⟩
    obtain ⟨hlisted, -⟩ := hm full (boot_eq rfl _ _) [.load [0x60, 0xe0, 0xab]] top rfl
    obtain ⟨-, hstep⟩ := hlisted _ i hi
    obtain ⟨hpad, hfault⟩ := (hstep rfl rfl).2 rfl
    exact ⟨i, hi, hpad, hfault⟩

end Chip8.Machine
