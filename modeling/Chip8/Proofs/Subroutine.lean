import Chip8.Proofs.Request

namespace Chip8.Machine

inductive Balanced : List Visit → Prop
  | nil : Balanced []
  | plain {history v} : Balanced history → v.instruction.keepsStack = true → Balanced (history ++ [v])
  | nest {history body pc back target} : Balanced history → Balanced body →
      Balanced (history ++ ⟨pc, .call target⟩ :: (body ++ [⟨back, .ret⟩]))

inductive Pending : List Visit → List UInt16 → Prop
  | none {history} : Balanced history → Pending history []
  | call {history calls pc target body} : Pending history calls → Balanced body →
      Pending (history ++ ⟨pc, .call target⟩ :: body) (calls ++ [pc])

variable {m s : Machine} {v : Option Visit} {history body : List Visit} {calls : List UInt16}

theorem Balanced.append (hh : Balanced history) (hb : Balanced body) : Balanced (history ++ body) := by
  induction hb with
  | nil => rwa [List.append_nil]
  | plain _ hv ih =>
      rw [← List.append_assoc]
      exact .plain ih hv
  | nest _ hbody ih =>
      rw [← List.append_assoc]
      exact .nest ih hbody

theorem Pending.append (hh : Pending history calls) (hb : Balanced body) :
    Pending (history ++ body) calls := by
  cases hh with
  | none hh => exact .none (hh.append hb)
  | call hh hbody =>
      rw [List.append_assoc, List.cons_append]
      exact .call hh (hbody.append hb)

theorem Pending.last {pc : UInt16} (h : Pending history (calls ++ [pc])) :
    ∃ before target body, history = before ++ ⟨pc, .call target⟩ :: body ∧ Pending before calls ∧
      Balanced body := by
  generalize hc : calls ++ [pc] = all at h
  cases h with
  | none => exact absurd hc (List.append_ne_nil_of_right_ne_nil _ (List.cons_ne_nil _ _))
  | call hbefore hbody =>
      obtain ⟨rfl, hpc⟩ := List.append_inj' hc rfl
      cases hpc
      exact ⟨_, _, _, rfl, hbefore, hbody⟩

def settle (waiting : List UInt16) (v : Visit) : List UInt16 :=
  match v.instruction with
  | .call _ => v.pc :: waiting
  | .ret => waiting.tail
  | _ => waiting

theorem settle_plain {v : Visit} (hv : v.instruction.keepsStack = true) (waiting : List UInt16) :
    settle waiting v = waiting := by
  obtain ⟨pc, i⟩ := v
  cases i with
  | call | ret => cases hv
  | _ => rfl

theorem foldl_settle_of_balanced (h : Balanced history) (waiting : List UInt16) :
    history.foldl settle waiting = waiting := by
  induction h generalizing waiting with
  | nil => rfl
  | plain _ hv ih =>
      rw [List.foldl_append, ih]
      exact settle_plain hv waiting
  | nest _ _ ihh ihb =>
      rw [List.foldl_append, ihh, List.foldl_cons, List.foldl_append, ihb]
      rfl

theorem foldl_settle_of_pending (h : Pending history calls) : history.foldl settle [] = calls.reverse := by
  induction h with
  | none hb => exact foldl_settle_of_balanced hb []
  | call _ hb ih =>
      rw [List.foldl_append, ih, List.foldl_cons, foldl_settle_of_balanced hb, List.reverse_append]
      rfl

theorem Pending.unique {others : List UInt16} (h : Pending history calls) (ho : Pending history others) :
    others = calls :=
  List.reverse_inj.1 ((foldl_settle_of_pending ho).symm.trans (foldl_settle_of_pending h))

structure Tracks (history : List Visit) (calls : List UInt16) (m : Machine) : Prop where
  pending : Pending history calls
  inside : ∀ pc ∈ calls, pc.toNat + 1 < 4096
  stack : m.stack.entries = (calls.map (· + 2)).reverse

theorem Tracks.plain {i : Instruction} {pc : UInt16} (ht : Tracks history calls m)
    (hi : i.keepsStack = true) (hs : s.stack = m.stack) : Tracks (history ++ [⟨pc, i⟩]) calls s :=
  ⟨ht.pending.append (.plain .nil hi), ht.inside, hs ▸ ht.stack⟩

theorem Tracks.call {pc : UInt16} {target : Address} (ht : Tracks history calls m)
    (hpc : pc.toNat + 1 < 4096) (hs : s.stack.entries = (pc + 2) :: m.stack.entries) :
    Tracks (history ++ [⟨pc, .call target⟩]) (calls ++ [pc]) s where
  pending := .call ht.pending .nil
  inside := by
    intro a ha
    rcases List.mem_append.1 ha with ha | ha
    · exact ht.inside a ha
    · exact List.mem_singleton.1 ha ▸ hpc
  stack := by
    rw [hs, ht.stack, List.map_append, List.reverse_append]
    rfl

theorem Tracks.ret {target : UInt16} (ht : Tracks history calls m)
    (hpop : m.stack.entries = target :: s.stack.entries) :
    ∃ front pc, calls = front ++ [pc] ∧ target = pc + 2 ∧
      ∀ back, Tracks (history ++ [⟨back, .ret⟩]) front s := by
  have hstack := ht.stack
  rcases List.eq_nil_or_concat calls with rfl | ⟨front, pc, rfl⟩
  · rw [hpop] at hstack
    cases hstack
  · -- The newest entry belongs to the last pending call, and the return closes that call's body.
    rw [List.concat_eq_append] at ht hstack ⊢
    rw [hpop, List.map_append, List.reverse_append] at hstack
    obtain ⟨htarget, hrest⟩ := List.cons.inj hstack
    refine ⟨front, pc, rfl, htarget, fun back => ⟨?_, ?_, hrest⟩⟩
    · obtain ⟨before, entry, body, rfl, hbefore, hbody⟩ := ht.pending.last
      rw [List.append_assoc]
      exact hbefore.append (.nest .nil hbody)
    · exact fun a ha => ht.inside a (List.mem_append_left _ ha)

theorem tracks_follow {i : Instruction} {flow : Transfer} (ht : Tracks history calls m)
    (hpc : m.pc.toNat + 1 < 4096) (he : m.execute i = (.ok flow, s)) :
    ∃ calls', Tracks (history ++ [⟨m.pc, i⟩]) calls' (s.follow m.pc flow) := by
  cases leads_execute he with
  | ret hpop =>
      obtain ⟨front, -, -, -, hfront⟩ := ht.ret hpop
      obtain ⟨hpending, hinside, hstack⟩ := hfront m.pc
      exact ⟨front, hpending, hinside, hstack⟩
  | call hroom hpush =>
      obtain ⟨hpending, hinside, hstack⟩ := ht.call hpc hpush
      exact ⟨_, hpending, hinside, hstack⟩
  | wait hs =>
      rw [hs]
      exact ⟨calls, ht.plain rfl rfl⟩
  | jump hi hs | next hi hs | skip hi hs => exact ⟨calls, ht.plain hi hs⟩

theorem tracks_change (h : Change m v s) (ht : Tracks history calls m) :
    ∃ calls', Tracks (history ++ v.toList) calls' s := by
  cases h with
  | executed hm hf he => exact tracks_follow ht (Memory.fetch_eq_ok_iff.1 hf).1 he
  | none | loaded | ticked | sensed | woken =>
      rw [Option.toList_none, List.append_nil]
      exact ⟨calls, ht.pending, ht.inside, ht.stack⟩

theorem tracks_afterAll (ht : Tracks history calls m) (rs : List Request) :
    ∃ calls', Tracks (history ++ m.visits rs) calls' (m.afterAll rs) := by
  induction rs generalizing m history calls with
  | nil =>
      rw [visits, List.append_nil]
      exact ⟨calls, ht⟩
  | cons r rs ih =>
      obtain ⟨calls', ht'⟩ := tracks_change (m.change_perform r) ht
      rw [visits, ← List.append_assoc]
      exact ih ht'

theorem step_call {w : Word} {target : Address} (hm : m.mode = .running) (hf : m.memory.fetch m.pc = .ok w)
    (hw : Instruction.decode w = .call target) :
    (m.stack.depth = 16 ∧ m.step.1 = .faulted ⟨.stackOverflow, m.pc, some w⟩) ∨
      (m.stack.depth < 16 ∧ m.step.1 = .executed (.call target)) := by
  rcases hp : m.stack.push (m.pc + 2) with ⟨c | u, stack⟩
  · obtain ⟨-, hfull, rfl⟩ := ReturnStack.push_error hp
    exact .inl ⟨hfull, by simp only [step, hm, hf, hw, execute, hp]⟩
  · exact .inr ⟨(ReturnStack.push_ok hp).1, by simp only [step, hm, hf, hw, execute, hp]⟩

theorem step_ret {w : Word} (hm : m.mode = .running) (hf : m.memory.fetch m.pc = .ok w)
    (hw : Instruction.decode w = .ret) :
    (m.stack.depth = 0 ∧ m.step.1 = .faulted ⟨.stackUnderflow, m.pc, some w⟩) ∨
      (0 < m.stack.depth ∧ m.step.1 = .executed .ret) := by
  rcases hp : m.stack.pop with ⟨c | target, stack⟩
  · obtain ⟨-, hempty, rfl⟩ := ReturnStack.pop_error hp
    exact .inl ⟨hempty, by simp only [step, hm, hf, hw, execute, hp]⟩
  · have hdepth : 0 < m.stack.depth := by
      rw [← ReturnStack.length_entries, ReturnStack.pop_ok hp]
      exact Nat.succ_pos _
    exact .inr ⟨hdepth, by simp only [step, hm, hf, hw, execute, hp]⟩

theorem stack_change (h : Change m v s) (hv : ∀ a, v = some a → a.instruction.keepsStack = true) :
    s.stack = m.stack := by
  cases h with
  | @executed s w flow hm hf he =>
      have hkeep := hv _ rfl
      generalize Instruction.decode w = i at he hkeep
      cases leads_execute he with
      | ret | call => cases hkeep
      | wait hs => rw [hs]; rfl
      | jump _ hs | next _ hs | skip _ hs => exact hs
  | none | loaded | ticked | sensed | woken => rfl

theorem tracks_ofSettings (s : Settings) (hfits : Screen.Fits s.width s.height) (random : RandomSource) :
    Tracks [] [] (ofSettings s hfits random) where
  pending := .none .nil
  inside := nofun
  stack := rfl

theorem Tracks.depth_eq (ht : Tracks history calls m) : m.stack.depth = calls.length := by
  rw [← ReturnStack.length_entries, ht.stack, List.length_reverse, List.length_map]

theorem Tracks.live_eq (ht : Tracks history calls m) :
    (m.stack.frames.toList.take m.stack.depth).map UInt16.toNat = calls.map (fun pc => pc.toNat + 2) := by
  have hlive : m.stack.frames.toList.take m.stack.depth = calls.map (· + 2) :=
    List.reverse_inj.1 ht.stack
  rw [hlive, List.map_map]
  refine List.map_congr_left ?_
  intro pc hpc
  have := ht.inside pc hpc
  exact Word.toNat_add_ofNat (k := 2) (by omega)

theorem Tracks.returns (ht : Tracks history calls m) (hret : m.step.1 = .executed .ret) :
    ∃ before pc target body front, history = before ++ ⟨pc, .call target⟩ :: body ∧ Balanced body ∧
      Pending before front ∧ calls = front ++ [pc] ∧ m.step.2.pc.toNat = pc.toNat + 2 ∧
      m.stack.entries = m.step.2.pc :: m.step.2.stack.entries := by
  have hpop := stack_of_executed_ret hret
  obtain ⟨front, pc, rfl, hback, -⟩ := ht.ret hpop
  obtain ⟨before, target, body, hhistory, hbefore, hbody⟩ := ht.pending.last
  have hpc := ht.inside pc (List.mem_append_right _ List.mem_cons_self)
  refine ⟨before, pc, target, body, front, hhistory, hbody, hbefore, rfl, ?_, hpop⟩
  rw [hback]
  exact Word.toNat_add_ofNat (k := 2) (by omega)

theorem Tracks.call_iff {w : Word} {target : Address} (ht : Tracks history calls m)
    (hm : m.mode = .running) (hf : m.memory.fetch m.pc = .ok w)
    (hw : Instruction.decode w = .call target) :
    (m.step.1 = .faulted ⟨.stackOverflow, m.pc, some w⟩ ↔ calls.length = 16) ∧
      (m.step.1 = .executed (.call target) ↔ calls.length < 16) := by
  rw [← ht.depth_eq]
  obtain ⟨hdepth, hstep⟩ | ⟨hdepth, hstep⟩ := step_call hm hf hw
  · rw [hstep]
    exact ⟨iff_of_true rfl hdepth, iff_of_false nofun (by omega)⟩
  · rw [hstep]
    exact ⟨iff_of_false nofun (by omega), iff_of_true rfl hdepth⟩

theorem Tracks.ret_iff {w : Word} (ht : Tracks history calls m) (hm : m.mode = .running)
    (hf : m.memory.fetch m.pc = .ok w) (hw : Instruction.decode w = .ret) :
    (m.step.1 = .faulted ⟨.stackUnderflow, m.pc, some w⟩ ↔ calls = []) ∧
      (m.step.1 = .executed .ret ↔ calls ≠ []) := by
  have hempty : calls = [] ↔ m.stack.depth = 0 := by rw [ht.depth_eq, List.length_eq_zero_iff]
  rw [ne_eq, hempty]
  obtain ⟨hdepth, hstep⟩ | ⟨hdepth, hstep⟩ := step_ret hm hf hw
  · rw [hstep]
    exact ⟨iff_of_true rfl hdepth, iff_of_false nofun (not_not_intro hdepth)⟩
  · rw [hstep]
    exact ⟨iff_of_false nofun (by omega), iff_of_true rfl (by omega)⟩

theorem returns_match_calls {s : Settings} (hs : s.validate = .ok ()) (fallback : RandomSource) :
    (Screen.Fits s.width s.height → ∃ fresh, boot s fallback = .ok fresh) ∧
    ∀ fresh, boot s fallback = .ok fresh → ∀ rs : List Request,
      let m := fresh.afterAll rs
      let history := fresh.visits rs
      ∃ calls, Pending history calls ∧ (∀ others, Pending history others → others = calls) ∧
        (m.stack.frames.toList.take m.stack.depth).map UInt16.toNat = calls.map (fun pc => pc.toNat + 2) ∧
        (m.step.1 = .executed .ret →
          ∃ before pc target body front, history = before ++ ⟨pc, .call target⟩ :: body ∧ Balanced body ∧
            Pending before front ∧ calls = front ++ [pc] ∧ m.step.2.pc.toNat = pc.toNat + 2 ∧
            m.stack.entries = m.step.2.pc :: m.step.2.stack.entries) ∧
        (∀ w, m.mode = .running → m.memory.fetch m.pc = .ok w →
          (∀ target, Instruction.decode w = .call target →
            (m.step.1 = .faulted ⟨.stackOverflow, m.pc, some w⟩ ↔ calls.length = 16) ∧
              (m.step.1 = .executed (.call target) ↔ calls.length < 16)) ∧
          (Instruction.decode w = .ret →
            (m.step.1 = .faulted ⟨.stackUnderflow, m.pc, some w⟩ ↔ calls = []) ∧
              (m.step.1 = .executed .ret ↔ calls ≠ []))) ∧
        ∀ r, (∀ v, m.visit? r = some v → v.instruction.keepsStack = true) →
          (m.perform r).2.stack = m.stack := by
  refine ⟨exists_boot hs fallback, fun fresh hboot => ?_⟩
  obtain ⟨hfits, rfl⟩ := eq_of_boot hboot
  intro rs m history
  obtain ⟨calls, ht⟩ := tracks_afterAll (tracks_ofSettings s hfits (s.seed.elim fallback .ofSeed)) rs
  refine ⟨calls, ht.pending, fun others => ht.pending.unique, ht.live_eq, ht.returns, ?_, ?_⟩
  · intro w hm hf
    exact ⟨fun target => ht.call_iff hm hf, ht.ret_iff hm hf⟩
  · intro r hr
    exact stack_change (m.change_perform r) hr

theorem returns_match_calls_full :
    let fresh := ofSettings {} (by decide) (.ofSeed 0)
    let rs := .load [0x22, 0x00] :: .event .interrupt :: List.replicate 16 (.event .step)
    (fresh.afterAll rs).step.1 = .faulted ⟨.stackOverflow, 0x200, some 0x2200⟩ ∧
      ∃ calls, Pending (fresh.visits rs) calls ∧ calls.length = 16 := by
  intro fresh rs
  obtain ⟨-, hm⟩ := returns_match_calls (s := {}) rfl (.ofSeed 0)
  obtain ⟨calls, hpending, -, hlive, -, hfull, -⟩ := hm fresh (boot_eq rfl _ _) rs
  have hend : (fresh.afterAll rs).pc = 0x200 ∧ (fresh.afterAll rs).mode = .running ∧
      (fresh.afterAll rs).memory.peek 0x200 = 0x22 ∧ (fresh.afterAll rs).memory.peek 0x201 = 0x00 ∧
      ((fresh.afterAll rs).stack.frames.toList.take (fresh.afterAll rs).stack.depth).length = 16 := by
    decide +kernel
  obtain ⟨hpc, hrun, hhigh, hlow, hdepth⟩ := hend
  have hlength : calls.length = 16 := by
    have hsame := congrArg List.length hlive
    rw [List.length_map, List.length_map, hdepth] at hsame
    exact hsame.symm
  have hf : (fresh.afterAll rs).memory.fetch (fresh.afterAll rs).pc = .ok 0x2200 := by
    rw [hpc, Memory.fetch_eq_ok_iff, UInt16.toNat_ofNat]
    exact ⟨by decide, by rw [hhigh, hlow]; rfl⟩
  obtain ⟨hcall, -⟩ := hfull 0x2200 hrun hf
  obtain ⟨hover, -⟩ := hcall ⟨0x200, by decide⟩ rfl
  exact ⟨hpc ▸ hover.2 hlength, calls, hpending, hlength⟩

end Chip8.Machine
