import Chip8.Diagnostics

namespace Chip8

structure ReturnStack where
  frames : Vector UInt16 16
  depth : Nat
  depth_le : depth ≤ 16 := by decide
deriving DecidableEq, Repr

namespace ReturnStack

def empty : ReturnStack := { frames := .replicate 16 0, depth := 0 }

def entries (s : ReturnStack) : List UInt16 := (s.frames.toList.take s.depth).reverse

def push (s : ReturnStack) (addr : UInt16) : Except FaultCause Unit × ReturnStack :=
  if h : s.depth < 16 then (.ok (), ⟨s.frames.set s.depth addr, s.depth + 1, h⟩)
  else (.error .stackOverflow, s)

def pop (s : ReturnStack) : Except FaultCause UInt16 × ReturnStack :=
  match s with
  | ⟨_, 0, _⟩ => (.error .stackUnderflow, s)
  | ⟨frames, depth + 1, h⟩ => (.ok frames[depth], ⟨frames, depth, Nat.le_of_succ_le h⟩)

theorem length_entries (s : ReturnStack) : s.entries.length = s.depth := by
  rw [entries, List.length_reverse, List.length_take, Vector.length_toList, Nat.min_eq_left s.depth_le]

theorem entries_succ {frames : Vector UInt16 16} {depth : Nat} (h : depth + 1 ≤ 16) :
    entries ⟨frames, depth + 1, h⟩ = frames[depth] :: entries ⟨frames, depth, Nat.le_of_succ_le h⟩ := by
  have hlen : depth < frames.toList.length := by
    rw [Vector.length_toList]
    exact h
  show (frames.toList.take (depth + 1)).reverse = _ :: (frames.toList.take depth).reverse
  rw [List.take_succ_eq_append_getElem hlen, List.reverse_append, Vector.getElem_toList]
  rfl

theorem entries_set {frames : Vector UInt16 16} {depth : Nat} (h : depth < 16) (addr : UInt16) :
    entries ⟨frames.set depth addr, depth, Nat.le_of_lt h⟩ = entries ⟨frames, depth, Nat.le_of_lt h⟩ := by
  show ((frames.set depth addr).toList.take depth).reverse = (frames.toList.take depth).reverse
  rw [Vector.toList_set, List.take_set_of_le (Nat.le_refl _)]

theorem push_ok {s s' : ReturnStack} {addr : UInt16} (h : s.push addr = (.ok (), s')) :
    s.depth < 16 ∧ s'.entries = addr :: s.entries := by
  unfold push at h
  split at h
  · next hlt =>
      cases h
      refine ⟨hlt, ?_⟩
      rw [entries_succ, entries_set hlt, Vector.getElem_set_self]
  · cases h

theorem pop_ok {s s' : ReturnStack} {addr : UInt16} (h : s.pop = (.ok addr, s')) :
    s.entries = addr :: s'.entries := by
  unfold pop at h
  split at h
  · cases h
  · cases h
    exact entries_succ _

theorem push_error {s s' : ReturnStack} {addr : UInt16} {c : FaultCause}
    (h : s.push addr = (.error c, s')) : s' = s ∧ s.depth = 16 ∧ c = .stackOverflow := by
  have := s.depth_le
  unfold push at h
  split at h
  · simp at h
  · simp only [Prod.mk.injEq, Except.error.injEq] at h
    exact ⟨h.2.symm, by omega, h.1.symm⟩

theorem pop_error {s s' : ReturnStack} {c : FaultCause}
    (h : s.pop = (.error c, s')) : s' = s ∧ s.depth = 0 ∧ c = .stackUnderflow := by
  unfold pop at h
  split at h
  · simp only [Prod.mk.injEq, Except.error.injEq] at h
    exact ⟨h.2.symm, rfl, h.1.symm⟩
  · simp at h

end ReturnStack

end Chip8
