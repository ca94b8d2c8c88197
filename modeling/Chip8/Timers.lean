namespace Chip8

structure Timers where
  delay : UInt8
  sound : UInt8
deriving DecidableEq, Repr

namespace Timers

def stopped : Timers := ⟨0, 0⟩

def countDown (t : UInt8) : UInt8 := if t = 0 then 0 else t - 1

def tick (t : Timers) : Timers := ⟨countDown t.delay, countDown t.sound⟩

def audible (t : Timers) : Bool := t.sound > 0

end Timers

structure Pacer where
  period : Nat
  deadline : Nat
deriving DecidableEq, Repr

namespace Pacer

def nanosPerSecond : Nat := 1000000000

def defaultRate : UInt32 := 60

def margin : Nat := 1000000

def start (rate : UInt32) (now : Nat) : Pacer :=
  let period := nanosPerSecond / max rate.toNat 1
  ⟨period, now + period⟩

def wakeTime (c : Pacer) : Nat :=
  if margin ≤ c.deadline then c.deadline - margin else c.deadline

def remaining (c : Pacer) (now : Nat) : Nat := c.deadline - now

def advance (c : Pacer) (now : Nat) : Pacer :=
  let next := c.deadline + c.period
  { c with deadline := if next < now then now + c.period else next }

theorem deadline_advance_ge (c : Pacer) (now : Nat) :
    c.deadline + c.period ≤ (c.advance now).deadline ∧ now ≤ (c.advance now).deadline := by
  simp only [advance]
  split <;> omega

theorem deadline_advance_eq_iff (c : Pacer) (now : Nat) :
    (c.advance now).deadline = c.deadline + c.period ↔ now ≤ c.deadline + c.period := by
  simp only [advance]
  split <;> omega

theorem period_advance (c : Pacer) (now : Nat) : (c.advance now).period = c.period := rfl

end Pacer

end Chip8
