import Chip8.Session.Basic

namespace Chip8.Session

def Phase.rank (speed : Nat) : Phase → Nat
  | .draining => speed + 7
  | .stepping left => left + 6
  | .interrupting => 5
  | .offering _ => 4
  | .publishing _ => 3
  | .pacing => 2
  | .stopping => 1
  | .stopped => 0

def work (s : Session) : Nat := s.phase.rank s.speed.toNat + s.inbox.length

theorem work_take {s : Session} {c : Command} {rest : List Command} (h : s.inbox = c :: rest)
    (hp : 1 ≤ s.phase.rank s.speed.toNat) : (s.take c rest).2.work < s.work := by
  simp only [take, work, h, List.length_cons]
  by_cases hc : c = .halt
  · have : Phase.rank s.speed.toNat .stopping = 1 := rfl
    simp only [hc, if_true]
    omega
  · simp only [hc, if_false]
    omega

theorem publish_work (s : Session) (o : Output) :
    (s.publish o).2.speed = s.speed ∧ (s.publish o).2.inbox = s.inbox := by
  unfold publish
  split <;> exact ⟨rfl, rfl⟩

theorem work_execute {s s' : Session} {events : List Event} (h : s.execute = some (events, s')) :
    s'.work < s.work := by
  unfold execute at h
  split at h
  · next hp =>
      split at h
      · next hi =>
          have := work_take hi (by simp [hp, Phase.rank])
          simp_all
      · simp only [Option.some.injEq, Prod.mk.injEq] at h
        obtain ⟨-, rfl⟩ := h
        simp only [work, hp]
        split <;> simp only [Phase.rank] <;> omega
  · next hp =>
      simp only [Option.some.injEq, Prod.mk.injEq] at h
      obtain ⟨-, rfl⟩ := h
      simp only [work, hp, Phase.rank]
      omega
  · next left hp =>
      split at h <;>
        · simp only [Option.some.injEq, Prod.mk.injEq] at h
          obtain ⟨-, rfl⟩ := h
          simp only [work, hp, Phase.rank]
          omega
  · next hp =>
      simp only [Option.some.injEq, Prod.mk.injEq] at h
      obtain ⟨-, rfl⟩ := h
      simp only [work, hp, Phase.rank]
      omega
  · next hp =>
      split at h <;>
        · simp only [Option.some.injEq, Prod.mk.injEq] at h
          obtain ⟨-, rfl⟩ := h
          simp only [work, hp, Phase.rank]
          omega
  · next f hp =>
      simp only [Option.some.injEq, Prod.mk.injEq] at h
      obtain ⟨-, rfl⟩ := h
      obtain ⟨hs, hi⟩ := s.publish_work (.frame f)
      simp only [work, hp, hs, hi]
      split <;> simp only [Phase.rank] <;> omega
  · next hp =>
      split at h
      · next hi =>
          have := work_take hi (by simp [hp, Phase.rank])
          simp_all
      · split at h
        · simp only [Option.some.injEq, Prod.mk.injEq] at h
          obtain ⟨-, rfl⟩ := h
          simp only [work, hp, Phase.rank]
          omega
        · simp at h
  · next hp =>
      simp only [Option.some.injEq, Prod.mk.injEq] at h
      obtain ⟨-, rfl⟩ := h
      obtain ⟨-, hi⟩ := s.publish_work (.halted s.fault)
      simp only [work, hp, hi, Phase.rank]
      omega
  · simp at h

def settle (s : Session) (past : List Event) : List Event × Session :=
  match _ : s.execute with
  | none => (past, s)
  | some (events, s') => s'.settle (events.reverse ++ past)
termination_by s.work
decreasing_by exact work_execute ‹_›

def settled (s : Session) : List Event × Session :=
  let (past, s') := s.settle []
  (past.reverse, s')

def produce (s : Session) : List Event × Session :=
  let (events, s') := s.settled
  if s'.outbox.isEmpty then
    match s'.act .timeout with
    | some (_, s'') =>
      let (more, s''') := s''.settled
      (events ++ more, s''')
    | none => (events, s')
  else (events, s')

def nextOutput (s : Session) : Option Output × List Event × Session :=
  let (events, s') := s.produce
  match s'.receive? with
  | some (o, s'') => (some o, events, s'')
  | none => (none, events, s')

def request (s : Session) (c : Command) : List Event × Session :=
  let (sent, s') := s.send c
  let (events, s'') := s'.settled
  (sent ++ events, s'')

def reply? (events : List Event) : Option Reply :=
  events.findSome? fun
    | .handled _ reply => reply
    | _ => none

def join (s : Session) : List Event × Session := s.hangUp.settled

end Chip8.Session
