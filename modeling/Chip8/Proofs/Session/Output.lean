import Chip8.Proofs.Session.Queues
import Mathlib.Data.List.Basic

namespace Chip8.Session

variable {s s' : Session} {a : Action} {past events : List Event} {fates : List (Screen × Bool)}

def limit : Phase → Nat
  | .publishing _ => backlog - 1
  | .stopped => capacity
  | _ => backlog

structure Roomy (s : Session) : Prop where
  alive : s.consumerGone = false
  queued : s.outbox.countP Output.isFrame ≤ backlog
  fits : s.outbox.length ≤ limit s.phase

theorem roomy_move (hr : Roomy s) (h : Move s a events s') (ha : a ≠ .abandon) : Roomy s' := by
  obtain ⟨halive, hqueued, hfits⟩ := hr
  cases h with
  | take | send | lose | hangUp => exact ⟨halive, hqueued, hfits⟩
  | halt hp | deserted hp =>
      rcases hp with hp | hp <;> rw [hp] at hfits <;> exact ⟨halive, hqueued, hfits⟩
  | drained hp | spent hp | executed hp | waiting hp | faulted hp | interrupted hp | dropped hp
  | timeout hp =>
      rw [hp] at hfits
      exact ⟨halive, hqueued, hfits⟩
  | refused hp | unheard hp =>
      rw [hp] at hfits
      exact ⟨halive, hqueued, Nat.le_succ_of_le hfits⟩
  | offered hp hl => exact ⟨halive, hqueued, Nat.le_sub_one_of_lt hl⟩
  | published hp hc hl =>
      rw [hp] at hfits
      have hlen : s.outbox.length + 1 ≤ backlog := Nat.add_le_of_le_sub (by decide) hfits
      refine ⟨halive, ?_, ?_⟩
      · rw [List.countP_append]
        exact Nat.le_trans (Nat.add_le_add List.countP_le_length List.countP_le_length) hlen
      · rwa [List.length_append]
  | halted hp hc hl =>
      refine ⟨halive, ?_, ?_⟩
      · rw [List.countP_append]
        exact hqueued
      · rwa [List.length_append]
  | receive ho hc =>
      rw [ho] at hqueued hfits
      exact ⟨halive, Nat.le_trans (List.sublist_cons_self _ _).countP_le hqueued, Nat.le_of_succ_le hfits⟩
  | abandon => exact absurd rfl ha

theorem unrefused_move (hr : Roomy s) (h : Move s a events s') (o : Output) : .refused o ∉ events := by
  obtain ⟨halive, -, hfits⟩ := hr
  cases h with
  | refused hp hc | unheard hp hc =>
      rw [hp] at hfits
      rcases hc with hgone | hfull
      · exact absurd (halive.symm.trans hgone) nofun
      · exact absurd (Nat.le_trans hfull hfits) (by simp only [limit]; decide)
  | _ => simp

def inFlight : Phase → List Screen
  | .offering f => [f]
  | .publishing f => [f]
  | _ => []

def farewell (fault : Option Fault) : Phase → List Output
  | .stopped => [.halted fault]
  | _ => []

def publishedOf (fates : List (Screen × Bool)) : List Output :=
  (fates.filter Prod.snd).map fun p => .frame p.1

def droppedOf (fates : List (Screen × Bool)) : List Screen :=
  (fates.filter fun p => !p.2).map Prod.fst

structure Fates (past : List Event) (s : Session) (fates : List (Screen × Bool)) : Prop where
  produced : past.filterMap Event.produced? = fates.map Prod.fst ++ inFlight s.phase
  published : past.filterMap Event.published? = publishedOf fates ++ farewell s.fault s.phase
  dropped : past.filterMap Event.dropped? = droppedOf fates
  frames : s.frames = fates.length + (inFlight s.phase).length

theorem Fates.extend (hf : Fates past s fates) (new : List (Screen × Bool))
    (hpro : inFlight s.phase ++ events.filterMap Event.produced? = new.map Prod.fst ++ inFlight s'.phase)
    (hpub : farewell s.fault s.phase ++ events.filterMap Event.published? =
      publishedOf new ++ farewell s'.fault s'.phase)
    (hdro : events.filterMap Event.dropped? = droppedOf new)
    (hfra : s'.frames + (inFlight s.phase).length = s.frames + new.length + (inFlight s'.phase).length) :
    Fates (past ++ events) s' (fates ++ new) := by
  refine ⟨?_, ?_, ?_, ?_⟩
  · rw [List.filterMap_append, hf.produced, List.append_assoc, hpro, List.map_append, List.append_assoc]
  · rw [List.filterMap_append, hf.published, List.append_assoc, hpub, publishedOf, publishedOf, publishedOf,
      List.filter_append, List.map_append, List.append_assoc]
  · rw [List.filterMap_append, hf.dropped, hdro, droppedOf, droppedOf, droppedOf, List.filter_append,
      List.map_append]
  · have := hf.frames
    rw [List.length_append]
    omega

theorem fates_move (hr : Roomy s) (hf : Fates past s fates) (h : Move s a events s') :
    ∃ fates', Fates (past ++ events) s' fates' := by
  have hno := unrefused_move hr h
  cases h with
  | take | send | lose | hangUp | receive | abandon =>
      exact ⟨_, hf.extend [] (List.append_nil _) (List.append_nil _) rfl rfl⟩
  | halt hp | deserted hp =>
      rcases hp with hp | hp <;> refine ⟨_, hf.extend [] ?_ ?_ rfl ?_⟩ <;> rw [hp] <;> rfl
  | drained hp | spent hp | executed hp | waiting hp | faulted hp | offered hp | timeout hp
  | interrupted hp | halted hp =>
      refine ⟨_, hf.extend [] ?_ ?_ rfl ?_⟩ <;> rw [hp] <;> rfl
  | @dropped f hp =>
      refine ⟨_, hf.extend [(f, false)] ?_ ?_ rfl ?_⟩ <;> rw [hp] <;> rfl
  | @published f hp =>
      refine ⟨_, hf.extend [(f, true)] ?_ ?_ rfl ?_⟩ <;> rw [hp] <;> rfl
  | refused => exact absurd List.mem_cons_self (hno _)
  | unheard => exact absurd (List.mem_cons_of_mem _ List.mem_cons_self) (hno _)

theorem orderly {machine : Machine} {speed : UInt32} {actions : List Action}
    (h : (start machine speed).2.perform actions = some (events, s)) (ha : .abandon ∉ actions) :
    Roomy s ∧ (∀ o, .refused o ∉ events) ∧ ∃ fates, Fates events s fates := by
  refine run_induction (P := fun past s =>
    Roomy s ∧ (∀ o, .refused o ∉ past) ∧ ∃ fates, Fates past s fates) h ?_ ?_
  · exact ⟨⟨rfl, Nat.zero_le _, Nat.zero_le _⟩, fun _ => List.not_mem_nil, [], ⟨rfl, rfl, rfl, rfl⟩⟩
  · intro past s a events s' hmem ⟨hr, hno, fates, hf⟩ hm
    refine ⟨roomy_move hr hm ?_, ?_, fates_move hr hf hm⟩
    · intro he
      exact ha (he ▸ hmem)
    · intro o ho
      rcases List.mem_append.1 ho with hpast | hnew
      · exact hno o hpast
      · exact unrefused_move hr hm o hnew

theorem output_protocol {machine : Machine} {speed : UInt32} {actions : List Action}
    (h : (start machine speed).2.perform actions = some (events, s)) (ha : .abandon ∉ actions) :
    s.outbox.countP Output.isFrame ≤ backlog ∧
      (∀ o, .refused o ∉ events) ∧
      events.filterMap Event.published? = events.filterMap Event.received? ++ s.outbox ∧
      (s.hasStopped = true →
        (∃ fates : List (Screen × Bool),
          events.filterMap Event.produced? = fates.map Prod.fst ∧
          events.filterMap Event.published? =
            ((fates.filter Prod.snd).map fun p => .frame p.1) ++ [.halted s.summary.fault] ∧
          events.filterMap Event.dropped? = (fates.filter fun p => !p.2).map Prod.fst ∧
          s.summary.frames = (fates.filter Prod.snd).length + (fates.filter fun p => !p.2).length) ∧
        (s.summary.fault.isSome = true ∨ .handled .halt none ∈ events ∨ s.clientsGone = true)) := by
  obtain ⟨hr, hno, fates, hf⟩ := orderly h ha
  refine ⟨hr.queued, hno, published_eq_received_append_outbox h, ?_⟩
  intro hs
  have hp : s.phase = .stopped := beq_iff_eq.1 hs
  refine ⟨⟨fates, ?_, ?_, hf.dropped, ?_⟩, ?_⟩
  · rw [hf.produced, hp]
    exact List.append_nil _
  · rw [hf.published, hp]
    rfl
  · have hlen := hf.frames
    rw [hp] at hlen
    exact hlen.trans (List.length_eq_length_filter_add Prod.snd)
  · rcases stopCause h hs with hfault | hhalt | ⟨f, href⟩ | ⟨hgone, -⟩
    · exact .inl hfault
    · exact .inr (.inl hhalt)
    · exact absurd href (hno _)
    · exact .inr (.inr hgone)

theorem output_protocol_slow_consumer :
    let m := { Machine.ofSettings {} (by decide) (.ofSeed 0) with mode := .awaitingKey ⟨5, by decide⟩ }
    let round : List Action := [.execute, .execute, .execute, .execute, .execute, .timeout]
    let late : List Action := [.execute, .execute, .execute, .execute, .send .halt, .execute, .execute]
    ∃ events s, (start m 1).2.perform (round ++ round ++ round ++ round ++ late) = some (events, s) ∧
      s.hasStopped = true ∧ s.outbox.length = capacity ∧ s.summary.frames = 5 ∧
      s.outbox.countP Output.isFrame ≤ backlog ∧ (∀ o, .refused o ∉ events) ∧
      ∃ frames, events.filterMap Event.published? = frames ++ [.halted s.summary.fault] := by
  intro m round late
  have hrun : ((start m 1).2.perform (round ++ round ++ round ++ round ++ late)).map
      (fun r => (r.2.hasStopped, r.2.outbox.length, r.2.summary.frames)) = some (true, capacity, 5) := by
    decide +kernel
  obtain ⟨⟨events, s⟩, h, hs⟩ := Option.map_eq_some_iff.1 hrun
  obtain ⟨hstopped, hrest⟩ := Prod.mk.inj hs
  obtain ⟨hlen, hframes⟩ := Prod.mk.inj hrest
  obtain ⟨hqueued, hno, -, hend⟩ := output_protocol h (by decide)
  obtain ⟨⟨fates, -, hpub, -, -⟩, -⟩ := hend hstopped
  exact ⟨events, s, h, hstopped, hlen, hframes, hqueued, hno, _, hpub⟩

end Chip8.Session
