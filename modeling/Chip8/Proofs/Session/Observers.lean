import Chip8.Proofs.Session.Halting
import Chip8.Proofs.Session.Refinement
import Chip8.Session.Trace

namespace Chip8.Session

variable {s s' : Session} {a : Action} {actions : List Action} {past events : List Event} {speed : UInt32}
  {m m' machine : Machine} {ms : List Machine} {ts us : List Turn} {k : Nat}

def trajectory? (speed : UInt32) (m : Machine) : List Turn → Option (List Machine × Machine)
  | [] => some ([], m)
  | .command c :: ts => trajectory? speed (c.effect m) ts
  | .frame :: ts =>
    match Turn.frame.course speed m with
    | ⟨_, none, after⟩ => (trajectory? speed after ts).map fun r => (after :: r.1, r.2)
    | ⟨_, some _, _⟩ => none

theorem trajectory?_append (ts us : List Turn) :
    trajectory? speed m (ts ++ us) = (trajectory? speed m ts).bind fun r =>
      (trajectory? speed r.2 us).map fun q => (r.1 ++ q.1, q.2) := by
  induction ts generalizing m with
  | nil =>
      rw [List.nil_append, trajectory?, Option.bind_some]
      exact Option.map_id'.symm
  | cons t ts ih =>
      cases t with
      | command c => exact ih
      | frame =>
          rw [List.cons_append, trajectory?, trajectory?]
          split
          · rw [ih, Option.map_bind, Option.bind_map]
            simp only [Function.comp_def, Option.map_map, List.cons_append]
          · rfl

theorem trajectory?_filter (ts : List Turn) :
    trajectory? speed m (ts.filter Turn.acts) = trajectory? speed m ts := by
  induction ts generalizing m with
  | nil => rfl
  | cons t ts ih =>
      cases t with
      | command c =>
          cases c with
          | keypad | halt => exact ih
          | disassemble | dump => exact ih
      | frame =>
          have hf : (Turn.frame :: ts).filter Turn.acts = .frame :: ts.filter Turn.acts := rfl
          rw [hf, trajectory?, trajectory?]
          split
          · rw [ih]
          · rfl

theorem turns_append (past events : List Event) : turns (past ++ events) = turns past ++ turns events :=
  List.filterMap_append

theorem turns_filter (events : List Event) : turns (events.filter Event.isTurn) = turns events := by
  induction events with
  | nil => rfl
  | cons e events ih =>
      cases e with
      | handled | produced => exact congrArg (List.cons _) ih
      | _ => exact ih

theorem handled_eq (events : List Event) :
    events.filterMap Event.handled? = (turns events).filterMap Turn.command? := by
  induction events with
  | nil => rfl
  | cons e events ih =>
      cases e with
      | handled => exact congrArg (List.cons _) ih
      | _ => exact ih

theorem trajectory?_of_course? (h : course? speed m ts = some ⟨events, none, m'⟩) :
    ts = turns events ∧ ∃ ms, trajectory? speed m ts = some (ms, m') := by
  induction ts generalizing m events with
  | nil =>
      cases h
      exact ⟨rfl, _, rfl⟩
  | cons t ts ih =>
      obtain ⟨rest, ht, hc, he⟩ | ⟨ht, he⟩ := course?_cons_cases h
      · obtain ⟨es, fault, last⟩ := rest
        cases he
        obtain ⟨rfl, ms, htr⟩ := ih hc
        cases t with
        | command c => exact ⟨rfl, ms, htr⟩
        | frame =>
            obtain ⟨f, after, hcourse⟩ | ⟨f, after, hcourse⟩ := frame_course_cases speed m
            · rw [hcourse] at htr ⊢
              refine ⟨rfl, after :: ms, ?_⟩
              rw [trajectory?, hcourse]
              simp only [htr, Option.map_some]
            · rw [hcourse] at ht
              cases ht
      · exact absurd (congrArg Course.fault he).symm ht

theorem turns_move (h : Move s a events s') :
    (turns events = [] ∧ events.filterMap Event.produced? = []) ∨
      (¬ Ending s.phase ∧ ∃ c, turns events = [.command c] ∧ events.filterMap Event.produced? = []) ∨
      ∃ f, turns events = [.frame] ∧ events.filterMap Event.produced? = [f] ∧ s.phase = .interrupting ∧
        s'.phase = .offering f ∧ s'.machine.screen = f := by
  cases h with
  | take hp | halt hp =>
      have he : ¬ Ending s.phase := by rcases hp with hp | hp <;> rw [hp] <;> exact id
      exact .inr (.inl ⟨he, _, rfl, rfl⟩)
  | interrupted hp => exact .inr (.inr ⟨_, rfl, rfl, hp, rfl, rfl⟩)
  | _ => exact .inl ⟨rfl, rfl⟩

structure Tracked (machine : Machine) (past : List Event) (s : Session) (ms : List Machine) (m : Machine) :
    Prop where
  refines : Refines machine past s (turns past) m
  trajectory : trajectory? s.speed machine (turns past) = some (ms, m)

theorem tracked_of_refines (hr : Refines machine past s ts m) :
    Refines machine past s (turns past) m ∧ ∃ ms, trajectory? s.speed machine (turns past) = some (ms, m) := by
  obtain ⟨hts, ms, htr⟩ := trajectory?_of_course? hr.course
  rw [turns_filter] at hts
  subst hts
  exact ⟨hr, ms, htr⟩

theorem shown_move (hc : Continues s' m') (h : Move s a events s')
    (htr : trajectory? s.speed m (turns events) = some (ms, m')) :
    ms = (events.filterMap Event.produced?).map fun _ => s'.machine := by
  obtain ⟨hturns, hp⟩ | ⟨-, c, hturns, hp⟩ | ⟨f, hturns, hp, -, hphase, -⟩ := turns_move h <;>
    rw [hturns] at htr <;> rw [hp]
  · cases htr
    rfl
  · cases htr
    rfl
  · rw [Continues, hphase] at hc
    rw [trajectory?] at htr
    split at htr
    · cases htr
      exact congrArg (fun x => [x]) hc.2
    · cases htr

theorem tracked_move (ht : Tracked machine past s ms m) (h : Move s a events s') :
    ∃ m', Tracked machine (past ++ events) s'
      (ms ++ (events.filterMap Event.produced?).map fun _ => s'.machine) m' := by
  obtain ⟨ts, m', hr⟩ := refines_move ht.refines h
  obtain ⟨hr, ns, htr⟩ := tracked_of_refines hr
  have hspeed : s'.speed = s.speed := by cases h <;> rfl
  refine ⟨m', hr, ?_⟩
  have hwhole := htr
  rw [turns_append, hspeed, trajectory?_append, ht.trajectory, Option.bind_some] at hwhole
  obtain ⟨⟨new, last⟩, hnew, he⟩ := Option.map_eq_some_iff.1 hwhole
  obtain ⟨rfl, rfl⟩ := Prod.mk.inj he
  rw [htr, ← shown_move hr.continues h hnew]

theorem tracked_perform (ht : Tracked machine past s ms m) (h : s.perform actions = some (events, s')) :
    ∃ m', Tracked machine (past ++ events) s' (ms ++ s.machines actions) m' := by
  induction actions generalizing past s ms m events with
  | nil =>
      cases h
      rw [List.append_nil, machines, List.append_nil]
      exact ⟨m, ht⟩
  | cons a actions ih =>
      obtain ⟨first, t, more, ha, hp, rfl⟩ := exists_of_perform_cons h
      obtain ⟨m', ht'⟩ := tracked_move ht (move_of_act ha)
      obtain ⟨m'', hlast⟩ := ih ht' hp
      refine ⟨m'', ?_⟩
      simp only [machines, ha]
      rw [← List.append_assoc, ← List.append_assoc]
      exact hlast

theorem tracked (h : (start machine speed).2.perform actions = some (events, s)) :
    s.speed = speed ∧ ∃ m, Tracked machine events s ((start machine speed).2.machines actions) m := by
  have h0 : Tracked machine [] (start machine speed).2 [] machine := ⟨⟨rfl, rfl, rfl, rfl⟩, rfl⟩
  exact ⟨(left_le_speed h).1, tracked_perform h0 h⟩

theorem screens_machines (h : s.perform actions = some (events, s')) :
    (s.machines actions).map Machine.screen = events.filterMap Event.produced? := by
  induction actions generalizing s events with
  | nil =>
      cases h
      rfl
  | cons a actions ih =>
      obtain ⟨first, t, more, ha, hp, rfl⟩ := exists_of_perform_cons h
      simp only [machines, ha]
      rw [List.map_append, ih hp, List.filterMap_append]
      obtain ⟨-, hnone⟩ | ⟨-, c, -, hnone⟩ | ⟨f, -, hf, -, -, hscreen⟩ := turns_move (move_of_act ha)
      · rw [hnone]
        rfl
      · rw [hnone]
        rfl
      · rw [hf, List.map_singleton, List.map_singleton, hscreen]

theorem halt_mem_turns (events : List Event) :
    .command .halt ∈ turns events ↔ .halt ∈ events.filterMap Event.handled? := by
  rw [handled_eq, List.mem_filterMap]
  constructor
  · intro h
    exact ⟨_, h, rfl⟩
  · rintro ⟨t, ht, hc⟩
    cases t with
    | command c =>
        cases hc
        exact ht
    | frame => cases hc

theorem halt_last_turn (h : (start machine speed).2.perform actions = some (events, s))
    (hhalt : .command .halt ∈ turns events) :
    s.fault = none ∧ ∃ before, turns events = before ++ [.command .halt] := by
  have hrun := run_induction (P := fun past s => Attentive past s ∧
    (.command .halt ∈ turns past → ∃ before, turns past = before ++ [.command .halt])) h
    ⟨⟨fun _ => ⟨List.not_mem_nil, rfl⟩, List.not_mem_nil, nofun⟩, nofun⟩ ?_
  · exact ⟨hrun.1.calm ((halt_mem_turns _).1 hhalt), hrun.2 hhalt⟩
  · intro past s a events s' _ ⟨ha, hlast⟩ hm
    refine ⟨attentive_move ha hm, ?_⟩
    rw [turns_append]
    intro hin
    obtain ⟨hturns, -⟩ | ⟨he, c, hturns, -⟩ | ⟨f, hturns, -, hp, -⟩ := turns_move hm <;> rw [hturns] at hin ⊢
    · rw [List.append_nil] at hin ⊢
      exact hlast hin
    · have hno := (ha.running he).1
      rcases List.mem_append.1 hin with hpast | hnew
      · exact absurd ((halt_mem_turns _).1 hpast) hno
      · rw [List.mem_singleton.1 hnew]
        exact ⟨_, rfl⟩
    · have hno := (ha.running (hp ▸ id)).1
      rcases List.mem_append.1 hin with hpast | hnew
      · exact absurd ((halt_mem_turns _).1 hpast) hno
      · cases List.mem_singleton.1 hnew

theorem le_of_mem_numbered {p : Nat × Command} (h : p ∈ numbered k ts) : k ≤ p.1 := by
  induction ts generalizing k with
  | nil => cases h
  | cons t ts ih =>
      cases t with
      | frame => exact Nat.le_of_succ_le (ih h)
      | command c =>
          rcases List.mem_cons.1 h with rfl | h
          · exact Nat.le_refl _
          · exact ih h

theorem numbered_filter (k : Nat) (ts : List Turn) :
    (numbered k ts).filter (fun p => p.2.acts) = numbered k (ts.filter Turn.acts) := by
  induction ts generalizing k with
  | nil => rfl
  | cons t ts ih =>
      cases t with
      | frame => exact ih _
      | command c =>
          cases c with
          | keypad | halt => exact congrArg (List.cons _) (ih k)
          | disassemble | dump => exact ih k

theorem numbered_succ_ne {c : Command} {rest : List (Nat × Command)} : numbered (k + 1) ts ≠ (k, c) :: rest := by
  intro he
  have hle := le_of_mem_numbered (he ▸ List.mem_cons_self : (k, c) ∈ numbered (k + 1) ts)
  exact absurd hle (Nat.not_succ_le_self k)

theorem eq_frames (h : numbered k ts = []) : ∃ n, ts = List.replicate n .frame := by
  induction ts generalizing k with
  | nil => exact ⟨0, rfl⟩
  | cons t ts ih =>
      cases t with
      | command c => cases h
      | frame =>
          obtain ⟨n, rfl⟩ := ih h
          exact ⟨n + 1, rfl⟩

-- behind a frame the boundary has passed, so the two sides have their frames and their commands at the same places
theorem eq_append_frames (h : numbered k ts = numbered k us) (hc : ts.count .frame ≤ us.count .frame) :
    ∃ n, us = ts ++ List.replicate n .frame := by
  induction ts generalizing us k with
  | nil => exact eq_frames h.symm
  | cons t ts ih =>
      cases us with
      | nil =>
          cases t with
          | command c => cases h
          | frame =>
              rw [List.count_cons_self] at hc
              cases hc
      | cons u us =>
          cases t with
          | command c =>
              cases u with
              | command d =>
                  obtain ⟨hcd, hrest⟩ := List.cons.inj h
                  cases hcd
                  obtain ⟨n, rfl⟩ := ih hrest hc
                  exact ⟨n, rfl⟩
              | frame => exact absurd h.symm numbered_succ_ne
          | frame =>
              cases u with
              | command d => exact absurd h numbered_succ_ne
              | frame =>
                  rw [List.count_cons_self, List.count_cons_self] at hc
                  obtain ⟨n, rfl⟩ := ih h (Nat.le_of_succ_le_succ hc)
                  exact ⟨n, rfl⟩

def acting (events : List Event) : List Turn := (turns events).filter Turn.acts

theorem halt_mem_acting (events : List Event) : .command .halt ∈ acting events ↔ .command .halt ∈ turns events := by
  rw [acting, List.mem_filter]
  exact and_iff_left rfl

theorem desertion?_eq {n : Nat} (h : desertion? events s = some n) : s.fault = none ∧ n = s.frames := by
  unfold desertion? at h
  split at h
  · next hd => exact ⟨hd.1, (Option.some.inj h).symm⟩
  · cases h

structure Run (machine : Machine) (speed : UInt32) (actions : List Action) (events : List Event) (s : Session)
    (m : Machine) : Prop where
  performed : (start machine speed).2.perform actions = some (events, s)
  speed_eq : s.speed = speed
  trajectory : trajectory? speed machine (acting events) = some ((start machine speed).2.machines actions, m)
  frames : (acting events).count .frame = s.frames
  continues : Continues s m

theorem run_of_perform (h : (start machine speed).2.perform actions = some (events, s)) :
    ∃ m, Run machine speed actions events s m := by
  obtain ⟨rfl, m, ht⟩ := tracked h
  refine ⟨m, h, rfl, ?_, ?_, ht.refines.continues⟩
  · rw [acting, trajectory?_filter]
    exact ht.trajectory
  · rw [acting, List.count_filter rfl]
    exact ht.refines.frames

theorem Run.stopped (hr : Run machine speed actions events s m) (hs : s.hasStopped = true) :
    (∃ f, s.fault = some f ∧ Turn.frame.course speed m = ⟨[], some f, s.machine⟩) ∨
      (s.fault = none ∧ m = s.machine ∧
        (.command .halt ∈ acting events ∨ desertion? events s = some s.frames)) := by
  have hc := hr.continues
  rw [Continues, beq_iff_eq.1 hs, hr.speed_eq] at hc
  rcases hc with ⟨hnone, hm⟩ | hfault
  · refine .inr ⟨hnone, hm, ?_⟩
    rw [halt_mem_acting, halt_mem_turns]
    by_cases hhalt : .halt ∈ events.filterMap Event.handled?
    · exact .inl hhalt
    · exact .inr (if_pos ⟨hnone, hhalt⟩)
  · exact .inl hfault

theorem Run.fault_eq_none (hr : Run machine speed actions events s m)
    (h : .command .halt ∈ acting events ∨ ∃ n, desertion? events s = some n) : s.fault = none := by
  rcases h with hhalt | ⟨n, hn⟩
  · exact (halt_last_turn hr.performed ((halt_mem_acting _).1 hhalt)).1
  · exact (desertion?_eq hn).1

section Pair

variable {actions₁ actions₂ : List Action} {events₁ events₂ : List Event} {s₁ s₂ : Session} {m₁ m₂ : Machine}

theorem Run.acting_eq (hr₁ : Run machine speed actions₁ events₁ s₁ m₁)
    (hr₂ : Run machine speed actions₂ events₂ s₂ m₂) (hsame : stimuli events₁ = stimuli events₂)
    (hle : s₁.frames ≤ s₂.frames) :
    ∃ n, acting events₂ = acting events₁ ++ List.replicate n .frame ∧ s₂.frames = s₁.frames + n := by
  rw [stimuli, stimuli, numbered_filter, numbered_filter] at hsame
  rw [← hr₁.frames, ← hr₂.frames] at hle ⊢
  obtain ⟨n, hn⟩ := eq_append_frames hsame hle
  refine ⟨n, hn, ?_⟩
  rw [acting, acting, hn, List.count_append, List.count_replicate_self]

theorem Run.machines_prefix (hr₁ : Run machine speed actions₁ events₁ s₁ m₁)
    (hr₂ : Run machine speed actions₂ events₂ s₂ m₂) (hsame : stimuli events₁ = stimuli events₂)
    (hle : s₁.frames ≤ s₂.frames) :
    (start machine speed).2.machines actions₁ <+: (start machine speed).2.machines actions₂ := by
  obtain ⟨n, hn, -⟩ := hr₁.acting_eq hr₂ hsame hle
  have htr := hr₂.trajectory
  rw [hn, trajectory?_append, hr₁.trajectory, Option.bind_some] at htr
  obtain ⟨⟨more, last⟩, -, he⟩ := Option.map_eq_some_iff.1 htr
  exact ⟨more, (Prod.mk.inj he).1⟩

theorem Run.acting_eq_of_stopped (hr₁ : Run machine speed actions₁ events₁ s₁ m₁)
    (hr₂ : Run machine speed actions₂ events₂ s₂ m₂) (hsame : stimuli events₁ = stimuli events₂)
    (hle : s₁.frames ≤ s₂.frames) (hs₁ : s₁.hasStopped = true)
    (hleft : desertion? events₁ s₁ = desertion? events₂ s₂) : acting events₁ = acting events₂ := by
  obtain ⟨n, hn, hframes⟩ := hr₁.acting_eq hr₂ hsame hle
  cases n with
  | zero => exact (hn.trans (List.append_nil _)).symm
  | succ n =>
      exfalso
      -- the other run has a frame more, which a fault, a halt or a desertion rules out
      rcases hr₁.stopped hs₁ with ⟨f, hf, hcourse⟩ | ⟨hf, -, hhalt | hdes⟩
      · have htr := hr₂.trajectory
        rw [hn, trajectory?_append, hr₁.trajectory, Option.bind_some, List.replicate_succ, trajectory?,
          hcourse] at htr
        cases htr
      · have hhalt₂ : .command .halt ∈ turns events₂ := by
          rw [← halt_mem_acting, hn]
          exact List.mem_append_left _ hhalt
        obtain ⟨-, before, hlast⟩ := halt_last_turn hr₂.performed hhalt₂
        have hl : (acting events₂).getLast? = some (.command .halt) := by
          rw [acting, hlast, List.filter_append]
          exact List.getLast?_concat
        rw [hn, List.replicate_succ', ← List.append_assoc, List.getLast?_concat] at hl
        cases hl
      · have hdes₂ := (desertion?_eq (hleft.symm.trans hdes)).2
        omega

theorem Run.ending_eq (hr₁ : Run machine speed actions₁ events₁ s₁ m₁)
    (hr₂ : Run machine speed actions₂ events₂ s₂ m₂) (hacting : acting events₁ = acting events₂)
    (hm : m₁ = m₂) (hs₁ : s₁.hasStopped = true) (hs₂ : s₂.hasStopped = true)
    (hleft : desertion? events₁ s₁ = desertion? events₂ s₂) :
    s₁.fault = s₂.fault ∧ s₁.frames = s₂.frames ∧ s₁.machine = s₂.machine := by
  have hframes : s₁.frames = s₂.frames := by rw [← hr₁.frames, ← hr₂.frames, hacting]
  subst hm
  rcases hr₁.stopped hs₁ with ⟨f, hf, hcourse⟩ | ⟨hf, hm, hcalm⟩ <;>
    rcases hr₂.stopped hs₂ with ⟨g, hg, hcourse₂⟩ | ⟨hg, hm₂, hcalm₂⟩
  · rw [hcourse] at hcourse₂
    obtain ⟨-, hfg, hmachine⟩ := Course.mk.inj hcourse₂
    exact ⟨by rw [hf, hg, hfg], hframes, hmachine⟩
  · rw [← hacting, ← hleft] at hcalm₂
    have hnone := hr₁.fault_eq_none (hcalm₂.imp id fun hd => ⟨_, hd⟩)
    rw [hnone] at hf
    cases hf
  · rw [hacting, hleft] at hcalm
    have hnone := hr₂.fault_eq_none (hcalm.imp id fun hd => ⟨_, hd⟩)
    rw [hnone] at hg
    cases hg
  · exact ⟨hf.trans hg.symm, hframes, hm.symm.trans hm₂⟩

theorem observers_do_not_influence
    (h₁ : (start machine speed).2.perform actions₁ = some (events₁, s₁))
    (h₂ : (start machine speed).2.perform actions₂ = some (events₂, s₂))
    (hsame : stimuli events₁ = stimuli events₂) :
    (s₁.frames ≤ s₂.frames →
        (start machine speed).2.machines actions₁ <+: (start machine speed).2.machines actions₂ ∧
        events₁.filterMap Event.produced? <+: events₂.filterMap Event.produced?) ∧
      (s₁.hasStopped = true → s₂.hasStopped = true → desertion? events₁ s₁ = desertion? events₂ s₂ →
        (start machine speed).2.machines actions₁ = (start machine speed).2.machines actions₂ ∧
        events₁.filterMap Event.produced? = events₂.filterMap Event.produced? ∧
        s₁.fault = s₂.fault ∧ s₁.frames = s₂.frames ∧ s₁.machine = s₂.machine) := by
  obtain ⟨m₁, hr₁⟩ := run_of_perform h₁
  obtain ⟨m₂, hr₂⟩ := run_of_perform h₂
  rw [← screens_machines h₁, ← screens_machines h₂]
  refine ⟨?_, ?_⟩
  · intro hle
    have hpre := hr₁.machines_prefix hr₂ hsame hle
    exact ⟨hpre, hpre.map _⟩
  · intro hs₁ hs₂ hleft
    have hacting : acting events₁ = acting events₂ := by
      rcases Nat.le_total s₁.frames s₂.frames with hle | hle
      · exact hr₁.acting_eq_of_stopped hr₂ hsame hle hs₁ hleft
      · exact (hr₂.acting_eq_of_stopped hr₁ hsame.symm hle hs₂ hleft.symm).symm
    have htr := hr₁.trajectory
    rw [hacting, hr₂.trajectory] at htr
    obtain ⟨hmachines, hm⟩ := Prod.mk.inj (Option.some.inj htr)
    rw [← hmachines]
    exact ⟨rfl, rfl, hr₁.ending_eq hr₂ hacting hm.symm hs₁ hs₂ hleft⟩

end Pair

theorem observers_do_not_influence_slow_consumer :
    let m := { Machine.ofSettings {} (by decide) (.ofSeed 0) with mode := .awaitingKey ⟨5, by decide⟩ }
    let frame : List Action := [.execute, .execute, .execute, .execute, .execute]
    let shown : List Action := frame ++ [.receive, .timeout]
    let unseen : List Action := [.execute, .execute, .execute, .execute]
    let look : List Action := [.send .dump, .send .disassemble, .execute, .execute]
    let press : List Action := [.send (.keypad (.ofKeys [11])), .execute]
    let stop : List Action := [.send .halt, .execute, .execute]
    ∃ events₁ s₁ events₂ s₂,
      (start m 1).2.perform (shown ++ shown ++ shown ++ shown ++ frame ++ press ++ stop) = some (events₁, s₁) ∧
      (start m 1).2.perform (frame ++ [.timeout] ++ frame ++ [.timeout] ++ frame ++ [.timeout] ++ frame ++ look ++
        [.timeout] ++ unseen ++ press ++ look ++ stop) = some (events₂, s₂) ∧
      (events₁.filterMap Event.dropped?).length = 0 ∧ (events₂.filterMap Event.dropped?).length = 1 ∧
      s₂.frames = 5 ∧ s₁.fault = s₂.fault ∧ s₁.frames = s₂.frames ∧ s₁.machine = s₂.machine := by
  intro m frame shown unseen look press stop
  have hrun₁ : ((start m 1).2.perform (shown ++ shown ++ shown ++ shown ++ frame ++ press ++ stop)).map
      (fun r => (stimuli r.1, desertion? r.1 r.2, r.2.hasStopped, (r.1.filterMap Event.dropped?).length)) =
      some ([(5, .keypad (.ofKeys [11])), (5, .halt)], none, true, 0) := by
    decide +kernel
  have hrun₂ : ((start m 1).2.perform (frame ++ [.timeout] ++ frame ++ [.timeout] ++ frame ++ [.timeout] ++ frame ++
        look ++ [.timeout] ++ unseen ++ press ++ look ++ stop)).map
      (fun r => (stimuli r.1, desertion? r.1 r.2, r.2.hasStopped, (r.1.filterMap Event.dropped?).length,
        r.2.frames)) =
      some ([(5, .keypad (.ofKeys [11])), (5, .halt)], none, true, 1, 5) := by
    decide +kernel
  obtain ⟨⟨events₁, s₁⟩, h₁, he₁⟩ := Option.map_eq_some_iff.1 hrun₁
  obtain ⟨⟨events₂, s₂⟩, h₂, he₂⟩ := Option.map_eq_some_iff.1 hrun₂
  simp only [Prod.mk.injEq] at he₁ he₂
  obtain ⟨hsame₁, hleft₁, hs₁, hdropped₁⟩ := he₁
  obtain ⟨hsame₂, hleft₂, hs₂, hdropped₂, hframes⟩ := he₂
  obtain ⟨-, hend⟩ := observers_do_not_influence h₁ h₂ (hsame₁.trans hsame₂.symm)
  obtain ⟨-, -, hending⟩ := hend hs₁ hs₂ (hleft₁.trans hleft₂.symm)
  exact ⟨events₁, s₁, events₂, s₂, h₁, h₂, hdropped₁, hdropped₂, hframes, hending⟩

theorem departures_end_runs_apart :
    let m := ((Machine.ofSettings {} (by decide) (.ofSeed 0)).load [0x70, 0x01, 0x70, 0x01, 0x00, 0xee]).2
    let frame : List Action := [.execute, .execute, .execute, .execute, .execute, .execute, .receive]
    let leave : List Action := [.hangUp, .execute, .execute]
    let stay : List Action := [.timeout, .execute, .execute, .execute]
    let ending (actions : List Action) : Option (List (Nat × Command) × Bool × Bool × Nat × Option Fault) :=
      ((start m 1).2.perform actions).map fun r =>
        (stimuli r.1, r.2.consumerGone, r.2.hasStopped, r.2.frames, r.2.fault)
    ending (frame ++ leave) = some ([], false, true, 1, none) ∧
      ending (frame ++ [.timeout] ++ frame ++ leave) = some ([], false, true, 2, none) ∧
      ending (frame ++ [.timeout] ++ frame ++ stay) =
        some ([], false, true, 2, some ⟨.stackUnderflow, 0x204, some 0x00ee⟩) := by
  intro m frame leave stay ending
  refine ⟨?_, ?_, ?_⟩ <;> decide +kernel

end Chip8.Session
