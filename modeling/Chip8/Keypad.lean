import Chip8.Word

namespace Chip8

abbrev Key := Fin 16

structure Keypad where
  down : Vector Bool 16
deriving DecidableEq, Repr

namespace Keypad

def released : Keypad := ⟨Vector.replicate 16 false⟩

def ofKeys (keys : List Nat) : Keypad := ⟨Vector.ofFn fun k => keys.contains k.val⟩

def keys (p : Keypad) : List Key := (List.finRange 16).filter p.down.get

def isDown? (p : Keypad) (k : UInt8) : Option Bool := p.down[k.toNat]?

def freshKey? (before after : Keypad) : Option Key :=
  (List.finRange 16).find? fun k => !before.down.get k && after.down.get k

theorem freshKey?_self (p : Keypad) : p.freshKey? p = none := by
  simp [freshKey?]

def Fresh (before after : Keypad) (k : Key) : Prop :=
  before.down.get k = false ∧ after.down.get k = true

instance (before after : Keypad) (k : Key) : Decidable (Fresh before after k) :=
  inferInstanceAs (Decidable (_ ∧ _))

theorem not_and_eq_true_iff {before after : Keypad} {k : Key} :
    (!before.down.get k && after.down.get k) = true ↔ Fresh before after k := by
  rw [Bool.and_eq_true, Bool.not_eq_true']
  rfl

theorem freshKey?_eq_none_iff {before after : Keypad} :
    before.freshKey? after = none ↔ ∀ k, ¬ Fresh before after k := by
  rw [freshKey?, List.find?_eq_none]
  exact ⟨fun h k hk => h k (List.mem_finRange k) (not_and_eq_true_iff.2 hk),
    fun h k _ hk => h k (not_and_eq_true_iff.1 hk)⟩

end Keypad

end Chip8
