import Chip8.Keyboard.Basic
import Mathlib.Data.List.Forall2
import Mathlib.Data.List.Induction
import Mathlib.Data.List.Perm.Basic

namespace Chip8

namespace KeyPress

variable {p : KeyPress} {c : Char} {key : Key}

def Names (p : KeyPress) (key : Key) : Prop :=
  ∃ c, p.code = .character c ∧ letters.get key = c.toLower ∧ ¬ (c = 'c' ∧ p.control = true)

def Quits (p : KeyPress) : Prop := p.code = .escape ∨ p.code = .character 'c' ∧ p.control = true

theorem quits_iff : p.quits = true ↔ p.Quits := by
  obtain ⟨code, control⟩ := p
  cases code <;> simp [quits, Quits]

theorem find?_letters_eq_some_iff :
    ((List.finRange 16).find? fun k => letters.get k == c) = some key ↔ letters.get key = c := by
  constructor
  · intro h
    have := List.find?_some h
    simpa only [beq_iff_eq] using this
  · rintro rfl
    cases h : (List.finRange 16).find? fun k => letters.get k == letters.get key with
    | none => exact absurd (beq_self_eq_true _) (List.find?_eq_none.1 h key (List.mem_finRange key))
    | some j =>
        have := List.find?_some h
        rw [beq_iff_eq] at this
        rw [letters_injective this]

theorem key?_eq_some_iff : p.key? = some key ↔ p.Names key := by
  obtain ⟨code, control⟩ := p
  cases code with
  | escape => simp [key?, Names]
  | other => simp [key?, Names]
  | character c =>
      have hnames : Names ⟨.character c, control⟩ key ↔
          letters.get key = c.toLower ∧ ¬ (c = 'c' ∧ control = true) := by
        simp [Names]
      rw [hnames, ← find?_letters_eq_some_iff]
      by_cases hq : c = 'c' ∧ control = true
      · simp [key?, quits, hq]
      · simp [key?, quits, hq]

instance (p : KeyPress) (key : Key) : Decidable (p.Names key) := decidable_of_iff _ key?_eq_some_iff

instance (p : KeyPress) : Decidable p.Quits := decidable_of_iff _ quits_iff

end KeyPress

namespace Keyboard

variable {k : Keyboard} {presses batch : List KeyPress} {batches : List (List KeyPress)} {key : Key}

def drain (k : Keyboard) (batch : List KeyPress) : Keypad × Keyboard := (k.feed batch).scan

def drainAll (k : Keyboard) (batches : List (List KeyPress)) : Keyboard :=
  batches.foldl (fun k batch => (k.drain batch).2) k

def reports (k : Keyboard) : List (List KeyPress) → List (Keypad × Bool)
  | [] => []
  | batch :: rest => ((k.drain batch).1, (k.drain batch).2.quit) :: (k.drain batch).2.reports rest

theorem held_press (p : KeyPress) :
    (k.press p).held.get key = if p.Names key then holdScans else k.held.get key := by
  have hget : (k.press p).held.get key = if p.key? = some key then holdScans else k.held.get key :=
    Vector.getElem_ofFn key.isLt
  rw [hget]
  exact if_congr KeyPress.key?_eq_some_iff rfl rfl

theorem held_foldl_press : (presses.foldl press k).held.get key =
    if ∃ p ∈ presses, p.Names key then holdScans else k.held.get key := by
  induction presses generalizing k with
  | nil => simp
  | cons p rest ih =>
      rw [List.foldl_cons, ih, held_press]
      by_cases hrest : ∃ q ∈ rest, q.Names key
      · simp [hrest]
      · simp [hrest]

theorem quit_foldl_press : (presses.foldl press k).quit = true ↔ k.quit = true ∨ ∃ p ∈ presses, p.Quits := by
  induction presses generalizing k with
  | nil => simp
  | cons p rest ih =>
      have hquit : (k.press p).quit = true ↔ k.quit = true ∨ p.Quits := by
        rw [← KeyPress.quits_iff]
        exact Bool.or_eq_true_iff
      rw [List.foldl_cons, ih, hquit, or_assoc]
      simp

theorem foldl_press_waiting (k : Keyboard) (presses waiting : List KeyPress) :
    presses.foldl press { k with waiting } = { presses.foldl press k with waiting } := by
  induction presses generalizing k with
  | nil => rfl
  | cons p rest ih => exact ih (k.press p)

theorem drain_eq (k : Keyboard) (batch : List KeyPress) :
    k.drain batch =
      let after := (k.waiting ++ batch).foldl press { k.release with waiting := [] }
      (⟨after.held.map fun n => 0 < n⟩, after) := by
  rw [foldl_press_waiting k.release]
  show (let after := { (k.waiting ++ batch).foldl press { k.release with waiting := k.waiting ++ batch } with
    waiting := [] }; (Keypad.mk (after.held.map fun n => 0 < n), after)) = _
  rw [foldl_press_waiting k.release]

theorem held_drain (hk : k.waiting = []) : (k.drain batch).2.held.get key =
    if ∃ p ∈ batch, p.Names key then holdScans else k.held.get key - 1 := by
  have hrelease : k.release.held.get key = k.held.get key - 1 := Vector.getElem_map _ key.isLt
  rw [drain_eq, hk, List.nil_append, held_foldl_press, ← hrelease]

theorem quit_drain (hk : k.waiting = []) :
    (k.drain batch).2.quit = true ↔ k.quit = true ∨ ∃ p ∈ batch, p.Quits := by
  rw [drain_eq, hk, List.nil_append, quit_foldl_press]
  rfl

theorem drainAll_concat (k : Keyboard) (batches : List (List KeyPress)) (batch : List KeyPress) :
    k.drainAll (batches ++ [batch]) = ((k.drainAll batches).drain batch).2 :=
  List.foldl_concat ..

theorem waiting_drainAll (batches : List (List KeyPress)) : (idle.drainAll batches).waiting = [] := by
  induction batches using List.reverseRecOn with
  | nil => rfl
  | append_singleton batches batch _ =>
      rw [drainAll_concat]
      rfl

theorem exists_scan_concat {P : Nat → List KeyPress → Prop} :
    (∃ s ≤ batches.length, P s ((batches ++ [batch])[s]?.getD [])) ↔
      P batches.length batch ∨ ∃ s < batches.length, P s (batches[s]?.getD []) := by
  constructor
  · rintro ⟨s, hs, hP⟩
    rcases Nat.lt_or_eq_of_le hs with hlt | rfl
    · rw [List.getElem?_append_left hlt] at hP
      exact .inr ⟨s, hlt, hP⟩
    · rw [List.getElem?_concat_length] at hP
      exact .inl hP
  · rintro (hP | ⟨s, hs, hP⟩)
    · exact ⟨_, Nat.le_refl _, by rwa [List.getElem?_concat_length]⟩
    · exact ⟨s, Nat.le_of_lt hs, by rwa [List.getElem?_append_left hs]⟩

theorem lt_held_iff (i : Nat) : i < (idle.drainAll batches).held.get key ↔
    ∃ s < batches.length, batches.length + i ≤ s + holdScans ∧
      ∃ p ∈ batches[s]?.getD [], p.Names key := by
  induction batches using List.reverseRecOn generalizing i with
  | nil =>
      have hzero : idle.held.get key = 0 := Vector.getElem_replicate key.isLt
      show i < idle.held.get key ↔ _
      simp [hzero]
  | append_singleton batches batch ih =>
      rw [drainAll_concat, held_drain (waiting_drainAll batches), List.length_append, List.length_singleton]
      simp only [Nat.lt_succ_iff]
      rw [exists_scan_concat (P := fun s b => batches.length + 1 + i ≤ s + holdScans ∧ ∃ p ∈ b, p.Names key)]
      -- A press in the last scan outlasts every earlier one, so the earlier scans only matter without it.
      by_cases hnow : ∃ p ∈ batch, p.Names key
      · rw [if_pos hnow]
        constructor
        · intro hi
          exact .inl ⟨by omega, hnow⟩
        · rintro (⟨hi, -⟩ | ⟨s, hs, hi, -⟩)
          · omega
          · omega
      · have hshift : batches.length + (i + 1) = batches.length + 1 + i := by omega
        rw [if_neg hnow, Nat.lt_sub_iff_add_lt, ih, hshift]
        simp only [hnow, and_false, false_or]

theorem quit_drainAll_iff : (idle.drainAll batches).quit = true ↔
    ∃ s < batches.length, ∃ p ∈ batches[s]?.getD [], p.Quits := by
  induction batches using List.reverseRecOn with
  | nil => simp [drainAll, idle]
  | append_singleton batches batch ih =>
      rw [drainAll_concat, quit_drain (waiting_drainAll batches), ih, List.length_append, List.length_singleton]
      simp only [Nat.lt_succ_iff]
      rw [exists_scan_concat (P := fun _ b => ∃ p ∈ b, p.Quits), or_comm]

theorem getElem?_reports {t : Nat} (ht : t < batches.length) :
    (k.reports batches)[t]? =
      let after := k.drainAll (batches.take (t + 1))
      some (⟨after.held.map fun n => 0 < n⟩, after.quit) := by
  induction batches generalizing k t with
  | nil => cases ht
  | cons batch rest ih =>
      cases t with
      | zero => rfl
      | succ t => exact ih (Nat.lt_of_succ_lt_succ ht)

theorem press_press_comm (k : Keyboard) (p q : KeyPress) : (k.press p).press q = (k.press q).press p := by
  have hquit : ((k.press p).press q).quit = ((k.press q).press p).quit := Bool.or_right_comm ..
  have hheld : ((k.press p).press q).held = ((k.press q).press p).held := by
    apply Vector.ext
    intro i hi
    show ((k.press p).press q).held.get ⟨i, hi⟩ = ((k.press q).press p).held.get ⟨i, hi⟩
    simp only [held_press]
    split <;> split <;> rfl
  show Keyboard.mk _ _ _ = Keyboard.mk _ _ _
  rw [Keyboard.mk.injEq]
  exact ⟨hheld, hquit, rfl⟩

instance : RightCommutative press := ⟨press_press_comm⟩

theorem drain_perm {batch' : List KeyPress} (h : batch.Perm batch') (k : Keyboard) :
    k.drain batch = k.drain batch' := by
  rw [drain_eq, drain_eq, (h.append_left k.waiting).foldl_eq]

theorem reports_perm {batches' : List (List KeyPress)} (h : List.Forall₂ List.Perm batches batches')
    (k : Keyboard) : k.reports batches = k.reports batches' := by
  induction h generalizing k with
  | nil => rfl
  | cons hbatch _ ih => rw [reports, reports, drain_perm hbatch, ih]

theorem length_reports (k : Keyboard) (batches : List (List KeyPress)) :
    (k.reports batches).length = batches.length := by
  induction batches generalizing k with
  | nil => rfl
  | cons batch rest ih => rw [reports, List.length_cons, ih, List.length_cons]

theorem held_for_six_scans (batches : List (List KeyPress)) :
    (idle.reports batches).length = batches.length ∧
    (∀ t pad quit, (idle.reports batches)[t]? = some (pad, quit) →
      (∀ key, pad.down.get key = true ↔
        ∃ s ≤ t, t ≤ s + 5 ∧ ∃ p ∈ batches[s]?.getD [], p.Names key) ∧
      (quit = true ↔ ∃ s ≤ t, ∃ p ∈ batches[s]?.getD [], p.Quits)) ∧
    ∀ batches', List.Forall₂ List.Perm batches batches' → idle.reports batches' = idle.reports batches := by
  refine ⟨length_reports .., fun t pad quit hreport => ?_, fun _ hperm => (reports_perm hperm idle).symm⟩
  have ht : t < batches.length := by
    rw [← length_reports idle]
    exact (List.getElem?_eq_some_iff.1 hreport).1
  have hlen : (batches.take (t + 1)).length = t + 1 := List.length_take_of_le ht
  have hscan : ∀ s, s < t + 1 → (batches.take (t + 1))[s]? = batches[s]? := fun s hs =>
    List.getElem?_take_of_lt hs
  rw [getElem?_reports ht] at hreport
  obtain ⟨rfl, rfl⟩ := Prod.mk.inj (Option.some.inj hreport)
  constructor
  · intro key
    have hdown : ((idle.drainAll (batches.take (t + 1))).held.map fun n => decide (0 < n)).get key =
        decide (0 < (idle.drainAll (batches.take (t + 1))).held.get key) := Vector.getElem_map _ key.isLt
    rw [hdown, decide_eq_true_iff, lt_held_iff, hlen]
    apply exists_congr
    intro s
    have hwindow : t + 1 + 0 ≤ s + holdScans ↔ t ≤ s + 5 := Nat.succ_le_succ_iff
    rw [Nat.lt_succ_iff, hwindow]
    apply and_congr_right
    intro hs
    rw [hscan s (Nat.lt_succ_of_le hs)]
  · rw [quit_drainAll_iff, hlen]
    apply exists_congr
    intro s
    rw [Nat.lt_succ_iff]
    apply and_congr_right
    intro hs
    rw [hscan s (Nat.lt_succ_of_le hs)]

theorem held_for_six_scans_capital :
    let batches := [[⟨.character 'C', false⟩], [], [], [], [], [], [⟨.character 'c', true⟩]]
    ∃ pad quit pad' quit', (idle.reports batches)[5]? = some (pad, quit) ∧
      (idle.reports batches)[6]? = some (pad', quit') ∧
      pad.down.get ⟨11, by decide⟩ = true ∧ quit = false ∧
      pad'.down.get ⟨11, by decide⟩ = false ∧ quit' = true := by
  intro batches
  obtain ⟨hlen, hscan, -⟩ := held_for_six_scans batches
  have hfive : (idle.reports batches)[5]? = some _ := List.getElem?_eq_getElem (by rw [hlen]; decide)
  have hsix : (idle.reports batches)[6]? = some _ := List.getElem?_eq_getElem (by rw [hlen]; decide)
  obtain ⟨hkeys, hquit⟩ := hscan 5 _ _ hfive
  obtain ⟨hkeys', hquit'⟩ := hscan 6 _ _ hsix
  refine ⟨_, _, _, _, hfive, hsix, (hkeys _).2 (by decide), ?_, ?_, hquit'.2 (by decide)⟩
  · exact Bool.eq_false_iff.2 fun h => absurd (hquit.1 h) (by decide)
  · exact Bool.eq_false_iff.2 fun h => absurd ((hkeys' _).1 h) (by decide)

end Keyboard

end Chip8
