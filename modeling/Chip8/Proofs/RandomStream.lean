import Chip8.Proofs.Request

namespace Chip8

namespace ChaCha

theorem State.round_eq (s : State) : s.round = columnRound s := rfl

theorem State.diagonal_eq (s : State) : s.diagonalize.round.undiagonalize = diagonalRound s := rfl

theorem State.rounds_eq (n : Nat) (s : State) : s.rounds n = doubleRounds n s := by
  induction n generalizing s with
  | zero => rfl
  | succ n ih => rw [rounds, diagonal_eq, round_eq, ih, doubleRounds]

theorem generate_eq (key : Vector UInt32 8) (number : UInt64) : generate key number = block key number := by
  simp only [generate, State.rounds_eq, block]

def word (key : Vector UInt32 8) (n : Nat) : UInt32 :=
  (block key (UInt64.ofNat (n / 16))).get ⟨n % 16, Nat.mod_lt n (by decide)⟩

end ChaCha

namespace RandomSource

def spread (seed : UInt64) : Nat → UInt64
  | 0 => seed
  | k + 1 => congruentialStep (spread seed k)

def keyOfSeed (seed : UInt64) : Vector UInt32 8 := Vector.ofFn fun k => permuted (spread seed (k.val + 1))

theorem expand_eq (seed : UInt64) (k : Nat) :
    expand seed k = (spread seed k, Vector.ofFn fun i : Fin k => permuted (spread seed (i.val + 1))) := by
  induction k with
  | zero => rfl
  | succ k ih =>
      rw [expand, ih, Vector.ofFn_succ]
      rfl

theorem ofSeed_eq (seed : UInt64) : ofSeed seed = ofKey (keyOfSeed seed) := by
  rw [ofSeed, expand_eq]
  rfl

def dropped (r : RandomSource) : Nat → RandomSource
  | 0 => r
  | n + 1 => (r.dropped n).next.2

theorem dropped_dropped (r : RandomSource) (a b : Nat) : (r.dropped a).dropped b = r.dropped (a + b) := by
  induction b with
  | zero => rfl
  | succ b ih => rw [dropped, ih, Nat.add_succ, dropped]

structure Delivers (key : Vector UInt32 8) (n : Nat) (r : RandomSource) : Prop where
  key_eq : r.key = key
  counter_eq : ∃ c, r.counter = UInt64.ofNat c ∧ n + (64 - r.index) = 16 * c
  buffer_eq : ∀ i : Fin 64, r.index ≤ i.val → r.buffer.get i = ChaCha.word key (n + (i.val - r.index))

variable {key : Vector UInt32 8} {n : Nat} {r : RandomSource}

theorem delivers_ofKey (key : Vector UInt32 8) : Delivers key 0 (ofKey key) where
  key_eq := rfl
  counter_eq := ⟨0, rfl, rfl⟩
  buffer_eq i hi := absurd i.isLt (Nat.not_lt.2 hi)

theorem get_refill (r : RandomSource) (i : Fin 64) :
    r.refill.buffer.get i =
      (ChaCha.block r.key (r.counter + UInt64.ofNat (i.val / 16))).get ⟨i.val % 16, Nat.mod_lt _ (by decide)⟩ := by
  obtain ⟨i, hi⟩ := i
  have hin : i < 4 * 16 := hi
  show (Vector.flatten _)[i] = _
  rw [Vector.getElem_flatten, Vector.getElem_ofFn, ChaCha.generate_eq]
  rfl

theorem Delivers.refill (h : Delivers key n r) (hempty : 64 ≤ r.index) : Delivers key n r.refill := by
  obtain ⟨c, hcounter, hn⟩ := h.counter_eq
  refine ⟨h.key_eq, ⟨c + 4, ?_, ?_⟩, ?_⟩
  · rw [UInt64.ofNat_add, ← hcounter]
    rfl
  · show n + 64 = 16 * (c + 4)
    omega
  · intro i _
    have hblock : (n + i.val) / 16 = c + i.val / 16 := by omega
    have hplace : (n + i.val) % 16 = i.val % 16 := by omega
    show _ = ChaCha.word key (n + i.val)
    simp only [get_refill, ChaCha.word, h.key_eq, hcounter, hblock, hplace, UInt64.ofNat_add]

theorem Delivers.ready (h : Delivers key n r) : Delivers key n r.ready := by
  unfold RandomSource.ready
  split
  · exact h
  · next hempty => exact h.refill (Nat.not_lt.1 hempty)

theorem Delivers.next (h : Delivers key n r) :
    r.next.1 = (ChaCha.word key n).toUInt8 ∧ Delivers key (n + 1) r.next.2 := by
  have hready := h.ready
  have hlt := r.index_ready_lt
  obtain ⟨c, hcounter, hn⟩ := hready.counter_eq
  refine ⟨?_, hready.key_eq, ⟨c, hcounter, ?_⟩, ?_⟩
  · have hfirst := hready.buffer_eq ⟨r.ready.index, hlt⟩ (Nat.le_refl _)
    rw [Nat.sub_self, Nat.add_zero] at hfirst
    exact congrArg UInt32.toUInt8 hfirst
  · show n + 1 + (64 - (r.ready.index + 1)) = 16 * c
    omega
  · intro i hi
    have hlater : r.ready.index + 1 ≤ i.val := hi
    have hplace : n + 1 + (i.val - (r.ready.index + 1)) = n + (i.val - r.ready.index) := by omega
    show r.ready.buffer.get i = ChaCha.word key (n + 1 + (i.val - (r.ready.index + 1)))
    rw [hready.buffer_eq i (by omega), hplace]

theorem delivers_dropped (seed : UInt64) (n : Nat) : Delivers (keyOfSeed seed) n ((ofSeed seed).dropped n) := by
  induction n with
  | zero => exact ofSeed_eq seed ▸ delivers_ofKey (keyOfSeed seed)
  | succ n ih => exact ih.next.2

end RandomSource

def Instruction.isRandom : Instruction → Bool
  | .random _ _ => true
  | _ => false

def Machine.draws (history : List Machine.Visit) : Nat := history.countP fun v => v.instruction.isRandom

namespace Machine

variable {m s : Machine} {v : Option Visit}

theorem draws_append (history later : List Visit) : draws (history ++ later) = draws history + draws later :=
  List.countP_append

theorem draws_singleton (v : Visit) : draws [v] = if v.instruction.isRandom then 1 else 0 :=
  List.countP_singleton

theorem random_execute {i : Instruction} {flow : Transfer} (h : m.execute i = (.ok flow, s)) :
    s.random = if i.isRandom then m.random.next.2 else m.random := by
  cases i with
  | random x mask =>
      cases h
      rfl
  | alu op x y =>
      cases h
      obtain ⟨registers, hr⟩ := m.runAlu_eq op x y
      rw [hr]
      rfl
  | ret | call | draw =>
      simp only [execute] at h
      split at h <;> cases h
      rfl
  | loadRegisters =>
      simp only [execute] at h
      split at h <;> cases h
      obtain ⟨registers, hr⟩ := m.withRegisters_eq _
      rw [hr]
      rfl
  | storeDecimal | storeRegisters =>
      obtain ⟨rfl, -, rfl⟩ := write_ok h
      rfl
  | _ =>
      cases h
      rfl

theorem random_follow (pc : UInt16) (flow : Transfer) : (m.follow pc flow).random = m.random := by
  cases flow with
  | next | skip | jump | wait => rfl

theorem random_change (h : Change m v s) : s.random = m.random.dropped (draws v.toList) := by
  cases h with
  | @executed s w flow hm hf he =>
      rw [random_follow, random_execute he, Option.toList_some, draws_singleton]
      split <;> rfl
  | none | loaded | ticked | sensed | woken => rfl

theorem random_afterAll (m : Machine) (rs : List Request) :
    (m.afterAll rs).random = m.random.dropped (draws (m.visits rs)) := by
  induction rs generalizing m with
  | nil => rfl
  | cons r rs ih =>
      rw [afterAll, ih, random_change (m.change_perform r), RandomSource.dropped_dropped, visits, draws_append]

theorem v_of_executed_random {x : Register} {mask : UInt8} (h : m.step.1 = .executed (.random x mask)) :
    m.step.2.v x = m.random.next.1 &&& mask ∧ m.step.2.random = m.random.next.2 := by
  obtain ⟨w, flow, s, -, -, -, he, hs⟩ := step_executed h
  cases he
  rw [hs]
  exact ⟨v_setV _ x _, rfl⟩

theorem random_bytes_in_order {s : Settings} {seed : UInt64} (hs : s.validate = .ok ())
    (hseed : s.seed = some seed) (fallback : RandomSource) :
    (Screen.Fits s.width s.height → ∃ fresh, boot s fallback = .ok fresh) ∧
    ∀ fresh, boot s fallback = .ok fresh → ∀ rs : List Request,
      let m := fresh.afterAll rs
      let n := draws (fresh.visits rs)
      let block := ChaCha.block (RandomSource.keyOfSeed seed) (UInt64.ofNat (n / 16))
      let word := block.get ⟨n % 16, Nat.mod_lt n (by decide)⟩
      m.random = (RandomSource.ofSeed seed).dropped n ∧ m.random.next.1 = word.toUInt8 ∧
        (∀ x mask, m.step.1 = .executed (.random x mask) →
          m.step.2.v x = word.toUInt8 &&& mask ∧ m.step.2.random = m.random.next.2) ∧
        ∀ r, (∀ v, m.visit? r = some v → v.instruction.isRandom = false) →
          (m.perform r).2.random = m.random := by
  refine ⟨exists_boot hs fallback, fun fresh hboot => ?_⟩
  obtain ⟨hfits, rfl⟩ := eq_of_boot hboot
  intro rs m n block word
  have hstart : (ofSettings s hfits (s.seed.elim fallback .ofSeed)).random = .ofSeed seed := by
    rw [hseed]
    rfl
  have hrandom : m.random = (RandomSource.ofSeed seed).dropped n := by
    rw [random_afterAll, hstart]
  have hnext : m.random.next.1 = word.toUInt8 := by
    rw [hrandom]
    exact (RandomSource.delivers_dropped seed n).next.1
  refine ⟨hrandom, hnext, ?_, ?_⟩
  · intro x mask hx
    rw [← hnext]
    exact v_of_executed_random hx
  · intro r hr
    rw [random_change (m.change_perform r)]
    cases hv : m.visit? r with
    | none => rfl
    | some v =>
        rw [Option.toList_some, draws_singleton, hr v hv]
        rfl

theorem random_bytes_in_order_next_block :
    let fresh := ofSettings { seed := some 7 } (by decide) (.ofSeed 7)
    let rs := .load (List.replicate 17 [0xc3, 0xff]).flatten :: List.replicate 16 (.event .step)
    draws (fresh.visits rs) = 16 ∧ (fresh.afterAll rs).step.2.v ⟨3, by decide⟩ = 0xa7 := by
  intro fresh rs
  obtain ⟨-, hm⟩ := random_bytes_in_order (s := { seed := some 7 }) rfl rfl (.ofSeed 7)
  obtain ⟨-, -, hdrawn, -⟩ := hm fresh (boot_eq rfl _ _) rs
  have hend : draws (fresh.visits rs) = 16 ∧
      (fresh.afterAll rs).step.1 = .executed (.random ⟨3, by decide⟩ 0xff) := by
    decide +kernel
  obtain ⟨hcount, hstep⟩ := hend
  obtain ⟨hv, -⟩ := hdrawn _ _ hstep
  rw [hcount] at hv
  refine ⟨hcount, hv.trans ?_⟩
  decide +kernel

end Machine

end Chip8
