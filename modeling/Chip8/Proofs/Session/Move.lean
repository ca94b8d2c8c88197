import Chip8.Session.Trace

namespace Chip8.Session

inductive Move : Session → Action → List Event → Session → Prop
  | take {s c rest} : s.phase = .draining ∨ s.phase = .pacing → s.inbox = c :: rest → c ≠ .halt →
      Move s .execute [.handled c (handle s.machine c).1]
        { s with machine := (handle s.machine c).2, inbox := rest }
  | halt {s rest} : s.phase = .draining ∨ s.phase = .pacing → s.inbox = .halt :: rest →
      Move s .execute [.handled .halt none] { s with inbox := rest, phase := .stopping }
  | drained {s} : s.phase = .draining → s.inbox = [] → s.clientsGone = false →
      Move s .execute [] { s with phase := .stepping s.speed.toNat }
  | deserted {s} : s.phase = .draining ∨ s.phase = .pacing → s.inbox = [] → s.clientsGone = true →
      Move s .execute [] { s with phase := .stopping }
  | spent {s} : s.phase = .stepping 0 → Move s .execute [] { s with phase := .interrupting }
  | executed {s left i m} : s.phase = .stepping (left + 1) → s.machine.step = (.executed i, m) →
      Move s .execute [.stepped (.executed i)] { s with machine := m, phase := .stepping left }
  | waiting {s left m} : s.phase = .stepping (left + 1) → s.machine.step = (.waiting, m) →
      Move s .execute [.stepped .waiting] { s with machine := m, phase := .interrupting }
  | faulted {s left f m} : s.phase = .stepping (left + 1) → s.machine.step = (.faulted f, m) →
      Move s .execute [.stepped (.faulted f)]
        { s with machine := m, fault := some f, phase := .stopping }
  | interrupted {s} : s.phase = .interrupting →
      Move s .execute [.produced s.machine.interrupt.screen]
        { s with
          machine := s.machine.interrupt
          frames := s.frames + 1
          phase := .offering s.machine.interrupt.screen }
  | offered {s f} : s.phase = .offering f → s.outbox.length < backlog →
      Move s .execute [] { s with phase := .publishing f }
  | dropped {s f} : s.phase = .offering f → backlog ≤ s.outbox.length →
      Move s .execute [.dropped s.frames f] { s with phase := .pacing }
  | published {s f} : s.phase = .publishing f → s.consumerGone = false → s.outbox.length < capacity →
      Move s .execute [.published (.frame f)] { s with outbox := s.outbox ++ [.frame f], phase := .pacing }
  | refused {s f} : s.phase = .publishing f → s.consumerGone = true ∨ capacity ≤ s.outbox.length →
      Move s .execute [.refused (.frame f)] { s with phase := .stopping }
  | halted {s} : s.phase = .stopping → s.consumerGone = false → s.outbox.length < capacity →
      Move s .execute [.stopped s.frames, .published (.halted s.fault)]
        { s with outbox := s.outbox ++ [.halted s.fault], phase := .stopped }
  | unheard {s} : s.phase = .stopping → s.consumerGone = true ∨ capacity ≤ s.outbox.length →
      Move s .execute [.stopped s.frames, .refused (.halted s.fault)] { s with phase := .stopped }
  | timeout {s} : s.phase = .pacing → s.inbox = [] → s.clientsGone = false →
      Move s .timeout [] { s with phase := .draining }
  | send {s c} : s.phase ≠ .stopped → s.clientsGone = false →
      Move s (.send c) [.sent c] { s with inbox := s.inbox ++ [c] }
  | lose {s c} : s.phase = .stopped → Move s (.send c) [.undelivered c] s
  | hangUp {s} : Move s .hangUp [] { s with clientsGone := true }
  | receive {s o rest} : s.outbox = o :: rest → s.consumerGone = false →
      Move s .receive [.received o] { s with outbox := rest }
  | abandon {s} : Move s .abandon [] { s with consumerGone := true }

variable {s s' : Session} {a : Action} {events : List Event}

theorem move_take {c : Command} {rest : List Command} (hp : s.phase = .draining ∨ s.phase = .pacing)
    (hi : s.inbox = c :: rest) : Move s .execute (s.take c rest).1 (s.take c rest).2 := by
  by_cases hc : c = .halt
  · subst hc
    exact .halt hp hi
  · unfold take
    rw [if_neg hc]
    exact .take hp hi hc

theorem publish_cases (s : Session) (o : Output) :
    (s.consumerGone = false ∧ s.outbox.length < capacity ∧
        s.publish o = (.published o, { s with outbox := s.outbox ++ [o] })) ∨
      ((s.consumerGone = true ∨ capacity ≤ s.outbox.length) ∧ s.publish o = (.refused o, s)) := by
  unfold publish
  split
  · next h => exact .inr ⟨h, rfl⟩
  · next h =>
      obtain ⟨hc, hl⟩ := not_or.1 h
      exact .inl ⟨Bool.not_eq_true _ ▸ hc, Nat.not_le.1 hl, rfl⟩

theorem move_of_execute (h : s.execute = some (events, s')) : Move s .execute events s' := by
  unfold execute at h
  split at h
  · next hp =>
      split at h
      · next c rest hi =>
          cases h
          exact move_take (.inl hp) hi
      · next hi =>
          cases h
          by_cases hc : s.clientsGone = true
          · rw [if_pos hc]
            exact .deserted (.inl hp) hi hc
          · rw [if_neg hc]
            exact .drained hp hi (Bool.not_eq_true _ ▸ hc)
  · next hp =>
      cases h
      exact .spent hp
  · next left hp =>
      split at h
      · next hs =>
          cases h
          exact .executed hp hs
      · next hs =>
          cases h
          exact .waiting hp hs
      · next hs =>
          cases h
          exact .faulted hp hs
  · next hp =>
      cases h
      exact .interrupted hp
  · next f hp =>
      split at h
      · next hr =>
          cases h
          exact .offered hp hr
      · next hr =>
          cases h
          exact .dropped hp (Nat.not_lt.1 hr)
  · next f hp =>
      rcases s.publish_cases (.frame f) with ⟨hc, hl, he⟩ | ⟨hr, he⟩ <;> rw [he] at h <;> cases h
      · exact .published hp hc hl
      · exact .refused hp hr
  · next hp =>
      split at h
      · next c rest hi =>
          cases h
          exact move_take (.inr hp) hi
      · next hi =>
          split at h
          · next hc =>
              cases h
              exact .deserted (.inr hp) hi hc
          · cases h
  · next hp =>
      rcases s.publish_cases (.halted s.fault) with ⟨hc, hl, he⟩ | ⟨hr, he⟩ <;> rw [he] at h <;> cases h
      · exact .halted hp hc hl
      · exact .unheard hp hr
  · cases h

theorem move_of_act (h : s.act a = some (events, s')) : Move s a events s' := by
  cases a with
  | execute => exact move_of_execute h
  | timeout =>
      simp only [act] at h
      split at h
      · next hc =>
          cases h
          simp only [canTimeOut, Bool.and_eq_true, beq_iff_eq, List.isEmpty_iff, Bool.not_eq_true'] at hc
          exact .timeout hc.1.1 hc.1.2 hc.2
      · cases h
  | send c =>
      simp only [act, send, hasStopped, beq_iff_eq] at h
      split at h
      · cases h
      · next hc =>
          split at h
          · next hp =>
              cases h
              exact .lose hp
          · next hp =>
              cases h
              exact .send hp (Bool.not_eq_true _ ▸ hc)
  | hangUp =>
      cases h
      exact .hangUp
  | receive =>
      obtain ⟨⟨o, r⟩, hr, he⟩ := Option.map_eq_some_iff.1 h
      cases he
      unfold receive? at hr
      split at hr
      · next o' rest ho =>
          split at hr
          · cases hr
          · next hc =>
              cases hr
              exact .receive ho (Bool.not_eq_true _ ▸ hc)
      · cases hr
  | abandon =>
      cases h
      exact .abandon

theorem clientsGone_move (h : Move s a events s') (ha : a ≠ .hangUp) : s'.clientsGone = s.clientsGone := by
  cases h with
  | hangUp => exact absurd rfl ha
  | _ => rfl

theorem stopped_move (h : Move s a events s') (hs : s.phase = .stopped) :
    s'.phase = .stopped ∧ s'.summary = s.summary ∧ events.filterMap Event.sent? = [] := by
  cases h with
  | take hp | halt hp | deserted hp =>
      rw [hs] at hp
      rcases hp with hp | hp <;> cases hp
  | send hp => exact absurd hs hp
  | lose | hangUp | receive | abandon => exact ⟨hs, rfl, rfl⟩
  | drained hp | spent hp | executed hp | waiting hp | faulted hp | interrupted hp | offered hp | dropped hp
  | published hp | refused hp | halted hp | unheard hp | timeout hp =>
      rw [hs] at hp
      cases hp

theorem exists_of_perform_cons {actions : List Action} (h : s.perform (a :: actions) = some (events, s')) :
    ∃ first t more, s.act a = some (first, t) ∧ t.perform actions = some (more, s') ∧ events = first ++ more := by
  obtain ⟨⟨first, t⟩, ha, hrest⟩ := Option.bind_eq_some_iff.1 h
  obtain ⟨⟨more, u⟩, hp, he⟩ := Option.map_eq_some_iff.1 hrest
  cases he
  exact ⟨first, t, more, ha, hp, rfl⟩

theorem perform_induction {P : List Event → Session → Prop} {actions : List Action} {past : List Event}
    (hmove : ∀ {past s a events s'}, a ∈ actions → P past s → Move s a events s' → P (past ++ events) s')
    (h0 : P past s) (h : s.perform actions = some (events, s')) : P (past ++ events) s' := by
  -- the first action leaves a longer past behind, so the past is not fixed
  induction actions generalizing past s events with
  | nil =>
      cases h
      rwa [List.append_nil]
  | cons a actions ih =>
      obtain ⟨first, t, more, ha, hp, rfl⟩ := exists_of_perform_cons h
      have hnext := hmove List.mem_cons_self h0 (move_of_act ha)
      rw [← List.append_assoc]
      exact ih (fun hmem => hmove (List.mem_cons_of_mem _ hmem)) hnext hp

theorem perform_cons {more : List Event} {actions : List Action} {t : Session} (ha : s.act a = some (events, s'))
    (h : s'.perform actions = some (more, t)) : s.perform (a :: actions) = some (events ++ more, t) := by
  simp only [perform, ha, Option.bind_some, h, Option.map_some]

theorem perform_append {more : List Event} {actions rest : List Action} {t : Session}
    (h : s.perform actions = some (events, s')) (hr : s'.perform rest = some (more, t)) :
    s.perform (actions ++ rest) = some (events ++ more, t) := by
  induction actions generalizing s events with
  | nil =>
      cases h
      exact hr
  | cons a actions ih =>
      obtain ⟨first, u, middle, ha, hp, rfl⟩ := exists_of_perform_cons h
      rw [List.append_assoc]
      exact perform_cons ha (ih hp)

theorem run_induction {P : List Event → Session → Prop} {machine : Machine} {speed : UInt32}
    {actions : List Action} (h : (start machine speed).2.perform actions = some (events, s))
    (h0 : P [] (start machine speed).2)
    (hmove : ∀ {past s a events s'}, a ∈ actions → P past s → Move s a events s' → P (past ++ events) s') :
    P events s :=
  perform_induction hmove h0 h

theorem clientsGone_run {machine : Machine} {speed : UInt32} {actions : List Action}
    (h : (start machine speed).2.perform actions = some (events, s)) (hstay : .hangUp ∉ actions) :
    s.clientsGone = false := by
  refine run_induction (P := fun _ s => s.clientsGone = false) h rfl ?_
  intro _ _ _ _ _ hmem hs hm
  exact (clientsGone_move hm fun he => hstay (he ▸ hmem)).trans hs

section Calls

variable {actions : List Action} {past : List Event} {m m' m'' : Machine}

structure Called (m : Machine) (events : List Event) (m' : Machine) : Prop where
  machine : m' = m.after (calls events)
  outcomes : events.filterMap Event.outcome? = (m.answers (calls events)).filterMap Machine.Answer.outcome?
  frames : events.filterMap Event.produced? = (m.answers (calls events)).filterMap Machine.Answer.frame?

theorem calls_append (past events : List Event) : calls (past ++ events) = calls past ++ calls events :=
  List.filterMap_append

theorem Called.append (hp : Called m past m') (he : Called m' events m'') : Called m (past ++ events) m'' := by
  obtain ⟨rfl, hpo, hpf⟩ := hp
  obtain ⟨rfl, heo, hef⟩ := he
  refine ⟨?_, ?_, ?_⟩
  · rw [calls_append, Machine.after_append]
  · rw [List.filterMap_append, calls_append, Machine.answers_append, List.filterMap_append, hpo, heo]
  · rw [List.filterMap_append, calls_append, Machine.answers_append, List.filterMap_append, hpf, hef]

theorem called_move (h : Move s a events s') : Called s.machine events s'.machine := by
  cases h with
  | @take c =>
      cases c <;> exact ⟨rfl, rfl, rfl⟩
  | executed _ hs | waiting _ hs | faulted _ hs =>
      refine ⟨?_, ?_, rfl⟩
      · exact (congrArg Prod.snd hs).symm
      · exact congrArg (fun r => [r.1]) hs.symm
  | _ => exact ⟨rfl, rfl, rfl⟩

theorem called_perform (h : s.perform actions = some (events, s')) : Called s.machine events s'.machine := by
  have h0 : Called s.machine [] s.machine := ⟨rfl, rfl, rfl⟩
  exact perform_induction (P := fun past t => Called s.machine past t.machine)
    (fun _ hp hm => hp.append (called_move hm)) h0 h

end Calls

end Chip8.Session
