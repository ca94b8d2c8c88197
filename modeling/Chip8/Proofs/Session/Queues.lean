import Chip8.Proofs.Session.Move

namespace Chip8.Session

variable {s s' : Session} {a : Action} {past events : List Event}

theorem inbox_move (h : Move s a events s') :
    s.inbox ++ events.filterMap Event.sent? = events.filterMap Event.handled? ++ s'.inbox := by
  cases h with
  | take _ hi => rw [hi]; exact List.append_nil _
  | halt _ hi => rw [hi]; exact List.append_nil _
  | send => rfl
  | _ => exact List.append_nil _

theorem outbox_move (h : Move s a events s') :
    s.outbox ++ events.filterMap Event.published? = events.filterMap Event.received? ++ s'.outbox := by
  cases h with
  | receive ho => rw [ho]; exact List.append_nil _
  | published | halted => rfl
  | _ => exact List.append_nil _

theorem sent_eq_handled_append_inbox {machine : Machine} {speed : UInt32} {actions : List Action}
    (h : (start machine speed).2.perform actions = some (events, s)) :
    events.filterMap Event.sent? = events.filterMap Event.handled? ++ s.inbox := by
  refine run_induction (P := fun past s =>
    past.filterMap Event.sent? = past.filterMap Event.handled? ++ s.inbox) h rfl ?_
  intro past s a events s' _ hp hm
  rw [List.filterMap_append, List.filterMap_append, hp, List.append_assoc, inbox_move hm, List.append_assoc]

theorem published_eq_received_append_outbox {machine : Machine} {speed : UInt32} {actions : List Action}
    (h : (start machine speed).2.perform actions = some (events, s)) :
    events.filterMap Event.published? = events.filterMap Event.received? ++ s.outbox := by
  refine run_induction (P := fun past s =>
    past.filterMap Event.published? = past.filterMap Event.received? ++ s.outbox) h rfl ?_
  intro past s a events s' _ hp hm
  rw [List.filterMap_append, List.filterMap_append, hp, List.append_assoc, outbox_move hm, List.append_assoc]

theorem frames_eq_length_produced {machine : Machine} {speed : UInt32} {actions : List Action}
    (h : (start machine speed).2.perform actions = some (events, s)) :
    s.frames = (events.filterMap Event.produced?).length := by
  refine run_induction (P := fun past s =>
    s.frames = (past.filterMap Event.produced?).length) h rfl ?_
  intro past s a events s' _ hp hm
  rw [List.filterMap_append, List.length_append, ← hp]
  cases hm <;> rfl

theorem frames_move_le (h : Move s a events s') : s'.frames ≤ s.frames + 1 := by
  cases h with
  | interrupted => exact Nat.le_refl _
  | _ => exact Nat.le_succ _

theorem frames_le_actions {actions : List Action} (h : s.perform actions = some (events, s')) :
    s'.frames ≤ s.frames + actions.length := by
  induction actions generalizing s events with
  | nil =>
      cases h
      exact Nat.le_refl _
  | cons a actions ih =>
      obtain ⟨first, t, more, ha, hp, rfl⟩ := exists_of_perform_cons h
      have hone := frames_move_le (move_of_act ha)
      have hmore := ih hp
      rw [List.length_cons]
      omega

def StopCause (past : List Event) (s : Session) : Prop :=
  s.fault.isSome = true ∨ .handled .halt none ∈ past ∨ (∃ f, .refused (.frame f) ∈ past) ∨
    (s.clientsGone = true ∧ s.inbox = [])

def Ending : Phase → Prop
  | .stopping => True
  | .stopped => True
  | _ => False

theorem StopCause.mono (hc : StopCause past s) (hf : s'.fault = s.fault)
    (hg : s.clientsGone = true → s'.clientsGone = true ∧ s'.inbox = s.inbox) :
    StopCause (past ++ events) s' := by
  rcases hc with hfault | hhalt | ⟨f, href⟩ | ⟨hgone, hi⟩
  · exact .inl (hf ▸ hfault)
  · exact .inr (.inl (List.mem_append_left _ hhalt))
  · exact .inr (.inr (.inl ⟨f, List.mem_append_left _ href⟩))
  · exact .inr (.inr (.inr ⟨(hg hgone).1, (hg hgone).2.trans hi⟩))

theorem stopCause_move (hc : Ending s.phase → StopCause past s) (h : Move s a events s')
    (he : Ending s'.phase) : StopCause (past ++ events) s' := by
  cases h with
  | take hp => rcases hp with hp | hp <;> rw [hp] at he <;> cases he
  | halt => exact .inr (.inl (List.mem_append_right _ List.mem_cons_self))
  | deserted _ hi hgone => exact .inr (.inr (.inr ⟨hgone, hi⟩))
  | faulted => exact .inl rfl
  | refused => exact .inr (.inr (.inl ⟨_, List.mem_append_right _ List.mem_cons_self⟩))
  | halted hp | unheard hp => exact (hc (hp ▸ trivial)).mono rfl fun hg => ⟨hg, rfl⟩
  | send _ hgone => exact (hc he).mono rfl fun hg => absurd (hgone.symm.trans hg) nofun
  | lose | receive | abandon => exact (hc he).mono rfl fun hg => ⟨hg, rfl⟩
  | hangUp => exact (hc he).mono rfl fun _ => ⟨rfl, rfl⟩
  | _ => cases he

theorem stopCause {machine : Machine} {speed : UInt32} {actions : List Action}
    (h : (start machine speed).2.perform actions = some (events, s)) (hs : s.hasStopped = true) :
    StopCause events s := by
  have hrun := run_induction (P := fun past s => Ending s.phase → StopCause past s) h False.elim
    fun _ hc hm he => stopCause_move hc hm he
  exact hrun (beq_iff_eq.1 hs ▸ trivial)

end Chip8.Session
