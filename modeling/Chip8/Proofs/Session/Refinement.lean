import Chip8.Proofs.Session.Queues
import Chip8.Session.Trace

namespace Chip8.Session

variable {s s' : Session} {a : Action} {past events : List Event} {m m' machine : Machine} {speed : UInt32}
  {turns : List Turn} {before after : List Event} {c : Command} {reply : Option Reply} {fault : Option Fault}

theorem handle_eq (m : Machine) (c : Command) : handle m c = (c.answer m, c.effect m) := by
  cases c <;> rfl

theorem Course.precede_precede (first second : List Event) (c : Course) :
    (c.precede second).precede first = c.precede (first ++ second) := by
  rw [precede, precede, precede, List.append_assoc]

theorem course?_singleton (speed : UInt32) (m : Machine) (t : Turn) :
    course? speed m [t] = some (t.course speed m) := by
  rw [course?]
  split
  · next h =>
      rw [course?, Option.map_some, Course.precede, List.append_nil, ← h]
  · rfl

theorem course?_cons_cases {t : Turn} {ended : Course} (h : course? speed m (t :: turns) = some ended) :
    (∃ rest, (t.course speed m).fault = none ∧ course? speed (t.course speed m).machine turns = some rest ∧
      ended = rest.precede (t.course speed m).events) ∨
      ((t.course speed m).fault ≠ none ∧ ended = t.course speed m) := by
  rw [course?] at h
  split at h
  · next ht =>
      obtain ⟨rest, hrest, he⟩ := Option.map_eq_some_iff.1 h
      exact .inl ⟨rest, ht, hrest, he.symm⟩
  · next f ht =>
      split at h
      · exact .inr ⟨ht ▸ Option.some_ne_none f, (Option.some.inj h).symm⟩
      · cases h

theorem course?_concat (h : course? speed m turns = some ⟨past, none, m'⟩) (t : Turn) :
    course? speed m (turns ++ [t]) = some ((t.course speed m').precede past) := by
  induction turns generalizing m past with
  | nil =>
      cases h
      exact course?_singleton speed m' t
  | cons u turns ih =>
      obtain ⟨rest, hu, hrest, he⟩ | ⟨hu, he⟩ := course?_cons_cases h
      · obtain ⟨es, fault, last⟩ := rest
        cases he
        rw [List.cons_append, course?, hu]
        simp only [ih hrest, Option.map_some, Course.precede_precede]
      · exact absurd (congrArg Course.fault he).symm hu

theorem frame_course_cases (speed : UInt32) (m : Machine) :
    (∃ f after, Turn.frame.course speed m = ⟨[.produced f], none, after⟩) ∨
      ∃ f after, Turn.frame.course speed m = ⟨[], some f, after⟩ := by
  rcases hr : m.run speed.toNat with ⟨⟨n, stop⟩, after⟩
  cases stop with
  | faulted f =>
      simp only [Turn.course, hr]
      exact .inr ⟨_, _, rfl⟩
  | limit | waiting =>
      simp only [Turn.course, hr]
      exact .inl ⟨_, _, rfl⟩

theorem handled_of_course {t : Turn} (h : (t.course speed m).events = before ++ .handled c reply :: after) :
    before = [] ∧ reply = c.answer m := by
  cases t with
  | command d =>
      cases before with
      | nil =>
          cases h
          exact ⟨rfl, rfl⟩
      | cons e before => simp [Turn.course] at h
  | frame =>
      obtain ⟨f, after, hf⟩ | ⟨f, after, hf⟩ := frame_course_cases speed m <;> rw [hf] at h
      · cases before <;> simp at h
      · simp at h

theorem course?_handled
    (h : course? speed m turns = some ⟨before ++ .handled c reply :: after, fault, m'⟩) :
    ∃ earlier k, earlier <+: turns ∧ course? speed m earlier = some ⟨before, none, k⟩ ∧ reply = c.answer k := by
  induction turns generalizing m before with
  | nil =>
      have hnil := congrArg Course.events (Option.some.inj h)
      exact absurd hnil.symm (List.append_ne_nil_of_right_ne_nil before (List.cons_ne_nil _ _))
  | cons t turns ih =>
      obtain ⟨rest, ht, hc, he⟩ | ⟨-, he⟩ := course?_cons_cases h
      · obtain ⟨es, fault', last⟩ := rest
        obtain ⟨hes, rfl, rfl⟩ := Course.mk.inj he
        have hlater : ∀ later, before = (t.course speed m).events ++ later →
            es = later ++ .handled c reply :: after → ∃ earlier k, earlier <+: t :: turns ∧
              course? speed m earlier = some ⟨before, none, k⟩ ∧ reply = c.answer k := by
          rintro later rfl rfl
          obtain ⟨earlier, k, hprefix, hearlier, hreply⟩ := ih hc
          refine ⟨t :: earlier, k, List.cons_prefix_cons.2 ⟨rfl, hprefix⟩, ?_, hreply⟩
          simp only [course?, ht, hearlier, Option.map_some, Course.precede]
        rcases List.append_eq_append_iff.1 hes.symm with ⟨later, hbefore, hes⟩ | ⟨own, hown, hrest⟩
        · exact hlater later hbefore hes
        · cases own with
          | nil => exact hlater [] (by rw [hown, List.append_nil, List.append_nil]) hrest.symm
          | cons e own =>
              obtain ⟨rfl, -⟩ := List.cons.inj hrest
              obtain ⟨rfl, hreply⟩ := handled_of_course hown
              exact ⟨[], m, List.nil_prefix, rfl, hreply⟩
      · obtain ⟨rfl, hreply⟩ := handled_of_course (congrArg Course.events he).symm
        exact ⟨[], m, List.nil_prefix, rfl, hreply⟩

def Continues (s : Session) (m : Machine) : Prop :=
  match s.phase with
  | .stepping left => s.fault = none ∧ ∃ k, m.run s.speed.toNat = Machine.run.go k left s.machine
  | .interrupting =>
    s.fault = none ∧ Turn.frame.course s.speed m =
      ⟨[.produced s.machine.interrupt.screen], none, s.machine.interrupt⟩
  | .stopping | .stopped =>
    (s.fault = none ∧ m = s.machine) ∨
      ∃ f, s.fault = some f ∧ Turn.frame.course s.speed m = ⟨[], some f, s.machine⟩
  | _ => s.fault = none ∧ m = s.machine

theorem continues_between (hp : s.phase = .draining ∨ s.phase = .pacing) :
    Continues s m ↔ s.fault = none ∧ m = s.machine := by
  rcases hp with hp | hp <;> rw [Continues, hp]

structure Refines (machine : Machine) (past : List Event) (s : Session) (turns : List Turn) (m : Machine) :
    Prop where
  course : course? s.speed machine turns = some ⟨past.filter Event.isTurn, none, m⟩
  frames : turns.count .frame = s.frames
  continues : Continues s m

theorem Refines.stay (hr : Refines machine past s turns m) (hspeed : s'.speed = s.speed)
    (hturn : events.filter Event.isTurn = []) (hframes : s'.frames = s.frames) (hc : Continues s' m) :
    Refines machine (past ++ events) s' turns m := by
  refine ⟨?_, ?_, hc⟩
  · rw [List.filter_append, hturn, List.append_nil, hspeed, hr.course]
  · rw [hframes, hr.frames]

theorem Refines.turn (hr : Refines machine past s turns m) (t : Turn) (hspeed : s'.speed = s.speed)
    (hturn : t.course s.speed m = ⟨events.filter Event.isTurn, none, m'⟩)
    (hframes : s'.frames = s.frames + [t].count .frame) (hc : Continues s' m') :
    Refines machine (past ++ events) s' (turns ++ [t]) m' := by
  refine ⟨?_, ?_, hc⟩
  · rw [hspeed, course?_concat hr.course, hturn, List.filter_append]
    rfl
  · rw [hframes, List.count_append, hr.frames]

theorem refines_move (hr : Refines machine past s turns m) (h : Move s a events s') :
    ∃ turns' m', Refines machine (past ++ events) s' turns' m' := by
  have hc := hr.continues
  cases h with
  | @take c rest hp hi hne =>
      obtain ⟨hf, rfl⟩ := (continues_between hp).1 hc
      let next : Session := { s with machine := (handle s.machine c).2, inbox := rest }
      have hnext : Continues next next.machine := (continues_between (s := next) hp).2 ⟨hf, rfl⟩
      have hcourse : (Turn.command c).course s.speed s.machine =
          ⟨[.handled c (handle s.machine c).1], none, (handle s.machine c).2⟩ := by
        rw [handle_eq]
        rfl
      refine ⟨turns ++ [.command c], next.machine, ?_⟩
      exact hr.turn (.command c) rfl hcourse rfl hnext
  | halt hp hi =>
      obtain ⟨hf, rfl⟩ := (continues_between hp).1 hc
      refine ⟨turns ++ [.command .halt], s.machine, ?_⟩
      exact hr.turn (.command .halt) rfl rfl rfl (.inl ⟨hf, rfl⟩)
  | drained hp =>
      obtain ⟨hf, rfl⟩ := (continues_between (.inl hp)).1 hc
      exact ⟨turns, s.machine, hr.stay rfl rfl rfl ⟨hf, 0, rfl⟩⟩
  | deserted hp =>
      have hend := (continues_between hp).1 hc
      exact ⟨turns, m, hr.stay rfl rfl rfl (.inl hend)⟩
  | spent hp =>
      rw [Continues, hp] at hc
      obtain ⟨hf, k, hk⟩ := hc
      have hframe : Turn.frame.course s.speed m =
          ⟨[.produced s.machine.interrupt.screen], none, s.machine.interrupt⟩ := by
        rw [Turn.course, hk]
        rfl
      exact ⟨turns, m, hr.stay rfl rfl rfl ⟨hf, hframe⟩⟩
  | @executed left i next hp hs =>
      rw [Continues, hp] at hc
      obtain ⟨hf, k, hk⟩ := hc
      have hrun : m.run s.speed.toNat = Machine.run.go (k + 1) left next := by
        rw [hk, Machine.run.go, hs]
      exact ⟨turns, m, hr.stay rfl rfl rfl ⟨hf, k + 1, hrun⟩⟩
  | @waiting left next hp hs =>
      rw [Continues, hp] at hc
      obtain ⟨hf, k, hk⟩ := hc
      have hframe : Turn.frame.course s.speed m =
          ⟨[.produced next.interrupt.screen], none, next.interrupt⟩ := by
        rw [Turn.course, hk, Machine.run.go, hs]
      exact ⟨turns, m, hr.stay rfl rfl rfl ⟨hf, hframe⟩⟩
  | @faulted left f next hp hs =>
      rw [Continues, hp] at hc
      obtain ⟨-, k, hk⟩ := hc
      have hframe : Turn.frame.course s.speed m = ⟨[], some f, next⟩ := by
        rw [Turn.course, hk, Machine.run.go, hs]
      exact ⟨turns, m, hr.stay rfl rfl rfl (.inr ⟨f, rfl, hframe⟩)⟩
  | interrupted hp =>
      rw [Continues, hp] at hc
      obtain ⟨hf, hframe⟩ := hc
      refine ⟨turns ++ [.frame], s.machine.interrupt, ?_⟩
      exact hr.turn .frame rfl hframe rfl ⟨hf, rfl⟩
  | offered hp | dropped hp | published hp | timeout hp | halted hp | unheard hp =>
      rw [Continues, hp] at hc
      exact ⟨turns, m, hr.stay rfl rfl rfl hc⟩
  | refused hp =>
      rw [Continues, hp] at hc
      exact ⟨turns, m, hr.stay rfl rfl rfl (.inl hc)⟩
  | send | lose | hangUp | receive | abandon => exact ⟨turns, m, hr.stay rfl rfl rfl hc⟩

theorem refines {actions : List Action} (h : (start machine speed).2.perform actions = some (events, s)) :
    s.speed = speed ∧ ∃ turns m, Refines machine events s turns m := by
  refine run_induction (P := fun past s =>
    s.speed = speed ∧ ∃ turns m, Refines machine past s turns m) h ?_ ?_
  · exact ⟨rfl, [], machine, rfl, rfl, rfl, rfl⟩
  · intro past s a events s' _ ⟨hspeed, turns, m, hr⟩ hm
    refine ⟨?_, refines_move hr hm⟩
    rw [← hspeed]
    cases hm <;> rfl

theorem session_refines_machine {actions : List Action}
    (h : (start machine speed).2.perform actions = some (events, s)) :
    events.filterMap Event.handled? <+: events.filterMap Event.sent? ∧
      (s.hasStopped = true →
        (s.summary.fault.isSome = true ∨ .handled .halt none ∈ events ∨ (∃ f, .refused (.frame f) ∈ events) ∨
          (s.clientsGone = true ∧ events.filterMap Event.handled? = events.filterMap Event.sent?)) ∧
        s.summary.frames = (events.filterMap Event.produced?).length ∧
        ∃ turns, turns.count .frame = s.summary.frames + s.summary.fault.toList.length ∧
          course? speed machine turns =
            some ⟨events.filter Event.isTurn, s.summary.fault, s.summary.machine⟩ ∧
          ∀ before c reply after, events.filter Event.isTurn = before ++ .handled c reply :: after →
            ∃ earlier m, earlier <+: turns ∧ course? speed machine earlier = some ⟨before, none, m⟩ ∧
              (c = .dump → reply = some (.dump m.dump)) ∧
              (c = .disassemble → reply = some (.listing m.listing))) := by
  have hsent := sent_eq_handled_append_inbox h
  refine ⟨⟨s.inbox, hsent.symm⟩, ?_⟩
  intro hs
  refine ⟨?_, frames_eq_length_produced h, ?_⟩
  · rcases stopCause h hs with hfault | hhalt | href | ⟨hgone, hi⟩
    · exact .inl hfault
    · exact .inr (.inl hhalt)
    · exact .inr (.inr (.inl href))
    · rw [hi, List.append_nil] at hsent
      exact .inr (.inr (.inr ⟨hgone, hsent.symm⟩))
  · obtain ⟨hspeed, turns, m, hr⟩ := refines h
    have hc := hr.continues
    have hcourse := hr.course
    rw [Continues, beq_iff_eq.1 hs] at hc
    rw [hspeed] at hcourse hc
    have hturns : ∃ turns, turns.count .frame = s.summary.frames + s.summary.fault.toList.length ∧
        course? speed machine turns =
          some ⟨events.filter Event.isTurn, s.summary.fault, s.summary.machine⟩ := by
      rcases hc with ⟨hf, rfl⟩ | ⟨f, hf, hframe⟩
      · refine ⟨turns, ?_, ?_⟩
        · rw [summary, hf, hr.frames]
          rfl
        · rw [hcourse, summary, hf]
      · refine ⟨turns ++ [.frame], ?_, ?_⟩
        · rw [summary, hf, List.count_append, hr.frames]
          rfl
        · rw [course?_concat hcourse, hframe, Course.precede, List.append_nil, summary, hf]
    obtain ⟨turns, hcount, hwhole⟩ := hturns
    refine ⟨turns, hcount, hwhole, ?_⟩
    intro before c reply after hsplit
    rw [hsplit] at hwhole
    obtain ⟨earlier, k, hprefix, hearlier, rfl⟩ := course?_handled hwhole
    exact ⟨earlier, k, hprefix, hearlier, fun hc => hc ▸ rfl, fun hc => hc ▸ rfl⟩

theorem session_refines_machine_woken :
    let m := { Machine.ofSettings {} (by decide) (.ofSeed 0) with mode := .awaitingKey ⟨5, by decide⟩ }
    let frame : List Action := [.execute, .execute, .execute, .execute, .execute]
    let requests : List Action := [.send (.keypad (.ofKeys [11])), .send .dump, .execute, .execute]
    let departure : List Action := [.hangUp, .execute, .execute]
    ∃ events s turns, (start m 1).2.perform (frame ++ requests ++ departure) = some (events, s) ∧
      s.hasStopped = true ∧ s.summary.frames = 1 ∧
      events.filterMap Event.handled? <+: events.filterMap Event.sent? ∧
      course? 1 m turns = some ⟨events.filter Event.isTurn, s.summary.fault, s.summary.machine⟩ ∧
      ∃ (earlier : List Turn) (k : Machine), earlier <+: turns ∧
        .handled .dump (some (.dump k.dump)) ∈ events ∧ k.pc = 0x202 ∧ k.v ⟨5, by decide⟩ = 0x0b := by
  intro m frame requests departure
  have hrun : ((start m 1).2.perform (frame ++ requests ++ departure)).map
      (fun r => (r.2.hasStopped, r.2.summary.frames,
        ((r.1.filter Event.isTurn).getLast?.bind Event.dumped?).map fun d =>
          (d.pc, d.registers.get ⟨5, by decide⟩))) = some (true, 1, some (0x202, 0x0b)) := by
    decide +kernel
  obtain ⟨⟨events, s⟩, h, hs⟩ := Option.map_eq_some_iff.1 hrun
  obtain ⟨hstopped, hrest⟩ := Prod.mk.inj hs
  obtain ⟨hframes, hlast⟩ := Prod.mk.inj hrest
  obtain ⟨d, hd, hkey⟩ := Option.map_eq_some_iff.1 hlast
  obtain ⟨e, he, hreply⟩ := Option.bind_eq_some_iff.1 hd
  obtain ⟨before, hsplit⟩ := List.getLast?_eq_some_iff.1 he
  obtain rfl : e = .handled .dump (some (.dump d)) := by
    unfold Event.dumped? at hreply
    split at hreply
    · rw [Option.some.inj hreply]
    · cases hreply
  obtain ⟨hhandled, hend⟩ := session_refines_machine h
  obtain ⟨-, -, turns, -, hcourse, hreplies⟩ := hend hstopped
  obtain ⟨earlier, k, hprefix, -, hdump, -⟩ := hreplies before .dump _ [] hsplit
  obtain rfl := Reply.dump.inj (Option.some.inj (hdump rfl))
  obtain ⟨hpc, hv⟩ := Prod.mk.inj hkey
  have hmem : .handled .dump (some (.dump k.dump)) ∈ events := (List.mem_filter.1 (List.mem_of_getLast? he)).1
  exact ⟨events, s, turns, h, hstopped, hframes, hhandled, hcourse, earlier, k, hprefix, hmem, hpc, hv⟩

end Chip8.Session
