import Chip8.Proofs.Session.Move
import Chip8.Proofs.Session.Output
import Chip8.Proofs.Waiting
import Chip8.Session.Schedule

namespace Chip8.Session

variable {s s' t u : Session} {a : Action} {actions before : List Action} {past events : List Event} {p q r : Phase}

def Halting (s : Session) : Prop := Ending s.phase ∨ .halt ∈ s.inbox

def Phase.stepsLeft : Phase → Nat
  | .stepping left => left
  | _ => 0

def Phase.interruptsLeft : Phase → Nat
  | .stepping _ | .interrupting => 1
  | _ => 0

def Phase.framesLeft : Phase → Nat
  | .stepping _ | .interrupting | .offering _ | .publishing _ => 1
  | _ => 0

theorem Phase.interruptsLeft_le (p : Phase) : p.interruptsLeft ≤ 1 := by
  cases p <;> simp only [interruptsLeft] <;> decide

theorem Phase.framesLeft_le (p : Phase) : p.framesLeft ≤ 1 := by
  cases p <;> simp only [framesLeft] <;> decide

structure Spent (p : Phase) (events : List Event) (q : Phase) : Prop where
  steps : (events.filterMap Event.outcome?).length + q.stepsLeft ≤ p.stepsLeft
  interrupts : (events.filterMap Event.produced?).length + q.interruptsLeft ≤ p.interruptsLeft
  frames : (events.filterMap Event.published?).countP Output.isFrame + q.framesLeft ≤ p.framesLeft

theorem Spent.append (hp : Spent p past q) (he : Spent q events r) : Spent p (past ++ events) r := by
  obtain ⟨hps, hpi, hpf⟩ := hp
  obtain ⟨hes, hei, hef⟩ := he
  refine ⟨?_, ?_, ?_⟩
  · rw [List.filterMap_append, List.length_append]
    omega
  · rw [List.filterMap_append, List.length_append]
    omega
  · rw [List.filterMap_append, List.countP_append]
    omega

theorem not_halting (hp : s.phase = .draining ∨ s.phase = .pacing) (hi : s.inbox = []) : ¬ Halting s := by
  rintro (he | hm)
  · rcases hp with hp | hp <;> rw [hp] at he <;> cases he
  · rw [hi] at hm
    cases hm

theorem Halting.mem (hh : Halting s) (hp : s.phase = .draining ∨ s.phase = .pacing) : .halt ∈ s.inbox := by
  rcases hh with he | hm
  · rcases hp with hp | hp <;> rw [hp] at he <;> cases he
  · exact hm

theorem halting_move (hh : Halting s) (h : Move s a events s') : Halting s' := by
  cases h with
  | take hp hi hc =>
      have hm := hh.mem hp
      rw [hi] at hm
      exact .inr ((List.mem_cons.1 hm).resolve_left (Ne.symm hc))
  | halt | deserted | faulted | refused | halted | unheard => exact .inl trivial
  | drained hp hi => exact absurd hh (not_halting (.inl hp) hi)
  | timeout hp hi => exact absurd hh (not_halting (.inr hp) hi)
  | spent hp | executed hp | waiting hp | interrupted hp | offered hp | dropped hp | published hp =>
      rw [Halting, hp] at hh
      exact .inr (hh.resolve_left id)
  | send => exact hh.imp id (List.mem_append_left _)
  | lose | hangUp | receive | abandon => exact hh

theorem halting_send (h : Move s (.send .halt) events s') : Halting s' := by
  cases h with
  | send => exact .inr (List.mem_append_right _ List.mem_cons_self)
  | lose hp =>
      left
      rw [hp]
      trivial

theorem halting_of_stopped (hs : s.phase = .stopped) : Halting s := by
  left
  rw [hs]
  trivial

theorem spent_move (hh : Halting s) (h : Move s a events s') : Spent s.phase events s'.phase := by
  cases h with
  | drained hp hi => exact absurd hh (not_halting (.inl hp) hi)
  | timeout hp hi => exact absurd hh (not_halting (.inr hp) hi)
  | take | send | lose | hangUp | receive | abandon =>
      exact ⟨(Nat.zero_add _).le, (Nat.zero_add _).le, (Nat.zero_add _).le⟩
  | halt | deserted => exact ⟨Nat.zero_le _, Nat.zero_le _, Nat.zero_le _⟩
  | executed hp =>
      rw [hp]
      exact ⟨(Nat.add_comm _ _).le, Nat.le_refl _, Nat.le_refl _⟩
  | waiting hp =>
      rw [hp]
      exact ⟨Nat.le_add_left _ _, Nat.le_refl _, Nat.le_refl _⟩
  | faulted hp =>
      rw [hp]
      exact ⟨Nat.le_add_left _ _, Nat.zero_le _, Nat.zero_le _⟩
  | dropped hp | refused hp =>
      rw [hp]
      exact ⟨Nat.le_refl _, Nat.le_refl _, Nat.zero_le _⟩
  | spent hp | interrupted hp | offered hp | published hp | halted hp | unheard hp =>
      rw [hp]
      exact ⟨Nat.le_refl _, Nat.le_refl _, Nat.le_refl _⟩

theorem halting_perform (hh : Halting t) (h : t.perform actions = some (events, u)) :
    Halting u ∧ Spent t.phase events u.phase := by
  have h0 : Halting t ∧ Spent t.phase [] t.phase :=
    ⟨hh, (Nat.zero_add _).le, (Nat.zero_add _).le, (Nat.zero_add _).le⟩
  refine perform_induction (P := fun past s => Halting s ∧ Spent t.phase past s.phase) ?_ h0 h
  intro past s a events s' _ ⟨hs, hp⟩ hm
  exact ⟨halting_move hs hm, hp.append (spent_move hs hm)⟩

def delay (s : Session) : Nat :=
  match s.phase with
  | .stopping => 1
  | .stopped => 0
  | p => p.rank s.speed.toNat + s.inbox.idxOf .halt

theorem delay_move (hh : Halting s) (h : Move s a events s') : [a].count .execute + s'.delay ≤ s.delay := by
  cases h with
  | @take c rest hp hi hc =>
      have hidx : (c :: rest).idxOf .halt = rest.idxOf .halt + 1 := List.idxOf_cons_ne _ hc
      rcases hp with hp | hp <;> simp only [delay, hp, hi, hidx, List.count_singleton_self] <;> omega
  | halt hp hi =>
      rcases hp with hp | hp <;> simp only [delay, hp, Phase.rank, List.count_singleton_self] <;> omega
  | drained hp hi => exact absurd hh (not_halting (.inl hp) hi)
  | timeout hp hi => exact absurd hh (not_halting (.inr hp) hi)
  | deserted hp hi => exact absurd hh (not_halting hp hi)
  | spent hp | executed hp | waiting hp | faulted hp | interrupted hp | offered hp | dropped hp | published hp
  | refused hp | halted hp | unheard hp =>
      simp only [delay, hp, Phase.rank, List.count_singleton_self]
      omega
  | @send c =>
      cases hp : s.phase with
      | stopping | stopped =>
          simp only [delay, hp]
          exact Nat.le_refl _
      | _ =>
          rw [Halting, hp] at hh
          have hidx : (s.inbox ++ [c]).idxOf .halt = s.inbox.idxOf .halt :=
            List.idxOf_append_of_mem (hh.resolve_left id)
          simp only [delay, hp, hidx]
          exact (Nat.zero_add _).le
  | lose | hangUp | receive | abandon => exact (Nat.zero_add _).le

theorem count_execute_le_delay (hh : Halting t) (h : t.perform actions = some (events, u)) :
    actions.count .execute ≤ t.delay := by
  induction actions generalizing t events with
  | nil => exact Nat.zero_le _
  | cons a actions ih =>
      obtain ⟨first, s, more, ha, hp, rfl⟩ := exists_of_perform_cons h
      have hm := move_of_act ha
      have hfirst := delay_move hh hm
      have hmore := ih (halting_move hh hm) hp
      rw [List.count_cons]
      rw [List.count_singleton] at hfirst
      omega

theorem delay_lt (hm : .halt ∈ s.inbox) (hleft : s.phase.stepsLeft ≤ s.speed.toNat) :
    s.delay < s.speed.toNat + s.inbox.length + 7 := by
  have hidx : s.inbox.idxOf .halt < s.inbox.length := List.idxOf_lt_length_of_mem hm
  unfold delay
  split
  · omega
  · omega
  · cases hp : s.phase with
    | stepping left =>
        rw [hp] at hleft
        simp only [Phase.stepsLeft] at hleft
        simp only [Phase.rank]
        omega
    | _ =>
        simp only [Phase.rank]
        omega

theorem isSome_execute (hh : Halting s) (hs : s.phase ≠ .stopped) : s.execute.isSome = true := by
  unfold execute
  split
  · split <;> rfl
  · rfl
  · split <;> rfl
  · rfl
  · split <;> rfl
  · rfl
  · next hp =>
      split
      · rfl
      · next hi => exact absurd hh (not_halting (.inr hp) hi)
  · rfl
  · next hp => exact absurd hp hs

theorem left_move (hleft : s.phase.stepsLeft ≤ s.speed.toNat) (h : Move s a events s') :
    s'.speed = s.speed ∧ s'.phase.stepsLeft ≤ s.speed.toNat := by
  cases h with
  | drained => exact ⟨rfl, Nat.le_refl _⟩
  | executed hp =>
      rw [hp] at hleft
      exact ⟨rfl, Nat.le_of_succ_le hleft⟩
  | take | send | lose | hangUp | receive | abandon => exact ⟨rfl, hleft⟩
  | _ => exact ⟨rfl, Nat.zero_le _⟩

theorem left_le_speed {machine : Machine} {speed : UInt32}
    (h : (start machine speed).2.perform actions = some (events, s)) :
    s.speed = speed ∧ s.phase.stepsLeft ≤ speed.toNat := by
  refine run_induction (P := fun _ s => s.speed = speed ∧ s.phase.stepsLeft ≤ speed.toNat) h
    ⟨rfl, Nat.zero_le _⟩ ?_
  rintro past s a events s' - ⟨rfl, hleft⟩ hm
  exact left_move hleft hm

structure Attentive (past : List Event) (s : Session) : Prop where
  running : ¬ Ending s.phase → .halt ∉ past.filterMap Event.handled? ∧ s.fault = none
  last : .halt ∉ (past.filterMap Event.handled?).dropLast
  calm : .halt ∈ past.filterMap Event.handled? → s.fault = none

theorem Attentive.stay (ha : Attentive past s) (hhandled : events.filterMap Event.handled? = [])
    (hphase : ¬ Ending s'.phase → ¬ Ending s.phase)
    (hfault : s'.fault = s.fault ∨ (Ending s'.phase ∧ ¬ Ending s.phase)) : Attentive (past ++ events) s' := by
  have heq : (past ++ events).filterMap Event.handled? = past.filterMap Event.handled? := by
    rw [List.filterMap_append, hhandled, List.append_nil]
  refine ⟨?_, ?_, ?_⟩
  · intro he
    rw [heq, hfault.resolve_right fun hf => he hf.1]
    exact ha.running (hphase he)
  · rw [heq]
    exact ha.last
  · rw [heq]
    intro hmem
    rcases hfault with hf | ⟨-, he⟩
    · exact hf.trans (ha.calm hmem)
    · exact absurd hmem (ha.running he).1

theorem Attentive.handle {c : Command} {reply : Option Reply} (ha : Attentive past s) (he : ¬ Ending s.phase)
    (hc : c = .halt → Ending s'.phase) (hfault : s'.fault = s.fault) :
    Attentive (past ++ [Event.handled c reply]) s' := by
  obtain ⟨hno, hnone⟩ := ha.running he
  have heq : (past ++ [Event.handled c reply]).filterMap Event.handled? =
      past.filterMap Event.handled? ++ [c] := List.filterMap_append
  refine ⟨?_, ?_, fun _ => hfault.trans hnone⟩
  · intro he'
    rw [heq, List.mem_append, List.mem_singleton]
    refine ⟨?_, hfault.trans hnone⟩
    rintro (hmem | rfl)
    · exact hno hmem
    · exact he' (hc rfl)
  · rw [heq, List.dropLast_concat]
    exact hno

theorem attentive_move (ha : Attentive past s) (h : Move s a events s') : Attentive (past ++ events) s' := by
  have hopen (hp : s.phase = .draining ∨ s.phase = .pacing) : ¬ Ending s.phase := by
    rcases hp with hp | hp <;> rw [hp] <;> exact id
  cases h with
  | take hp _ hc => exact ha.handle (hopen hp) (absurd · hc) rfl
  | halt hp => exact ha.handle (hopen hp) (fun _ => trivial) rfl
  | deserted | refused | halted | unheard => exact ha.stay rfl (fun he => absurd trivial he) (.inl rfl)
  | faulted hp => exact ha.stay rfl (fun he => absurd trivial he) (.inr ⟨trivial, hp ▸ id⟩)
  | drained hp | timeout hp | spent hp | executed hp | waiting hp | interrupted hp | offered hp | dropped hp
  | published hp => exact ha.stay rfl (fun _ => hp ▸ id) (.inl rfl)
  | send | lose | hangUp | receive | abandon => exact ha.stay rfl id (.inl rfl)

theorem attentive {machine : Machine} {speed : UInt32}
    (h : (start machine speed).2.perform actions = some (events, s)) : Attentive events s :=
  run_induction (P := Attentive) h ⟨fun _ => ⟨List.not_mem_nil, rfl⟩, List.not_mem_nil, nofun⟩
    fun _ ha hm => attentive_move ha hm

theorem consumerGone_of_refused {machine : Machine} {speed : UInt32} {o : Output}
    (h : (start machine speed).2.perform actions = some (events, s)) (ho : .refused o ∈ events) :
    s.consumerGone = true := by
  have hrun := run_induction (P := fun past s =>
    s.consumerGone = true ∨ Roomy s ∧ ∀ o, .refused o ∉ past) h
    (.inr ⟨⟨rfl, Nat.zero_le _, Nat.zero_le _⟩, fun _ => List.not_mem_nil⟩) ?_
  · exact hrun.resolve_right fun hr => hr.2 o ho
  · rintro past s a events s' - (hgone | ⟨hr, hno⟩) hm
    · left
      cases hm with
      | abandon => rfl
      | _ => exact hgone
    · by_cases ha : a = .abandon
      · subst ha
        cases hm
        exact .inl rfl
      · refine .inr ⟨roomy_move hr hm ha, fun o ho => ?_⟩
        rcases List.mem_append.1 ho with hpast | hnew
        · exact hno o hpast
        · exact unrefused_move hr hm o hnew

theorem prefix_of_notMem {α : Type} {l xs ys : List α} {x : α} (h : l <+: xs ++ x :: ys) (hx : x ∉ l) :
    l <+: xs := by
  induction xs generalizing l with
  | nil =>
      cases l with
      | nil => exact List.nil_prefix
      | cons y l =>
          obtain ⟨rfl, -⟩ := List.cons_prefix_cons.1 h
          exact absurd List.mem_cons_self hx
  | cons y xs ih =>
      cases l with
      | nil => exact List.nil_prefix
      | cons z l =>
          obtain ⟨rfl, hl⟩ := List.cons_prefix_cons.1 h
          exact List.cons_prefix_cons.2 ⟨rfl, ih hl fun hmem => hx (List.mem_cons_of_mem _ hmem)⟩

theorem done_of_halt {sent more : List Command} {handled : List Command}
    (hsent : handled <+: sent ++ .halt :: more) (hmem : .halt ∈ handled) (hlast : .halt ∉ handled.dropLast) :
    ∃ done, handled = done ++ [.halt] ∧ .halt ∉ done ∧ done <+: sent ∧ (.halt ∉ sent → done = sent) := by
  have hne : handled ≠ [] := List.ne_nil_of_mem hmem
  have hcat := List.dropLast_concat_getLast hne
  have hhalt : handled.getLast hne = .halt := by
    rw [← hcat, List.mem_append, List.mem_singleton] at hmem
    exact (hmem.resolve_left hlast).symm
  rw [hhalt] at hcat
  have hpre : handled.dropLast <+: sent := prefix_of_notMem ((List.dropLast_prefix _).trans hsent) hlast
  refine ⟨handled.dropLast, hcat.symm, hlast, hpre, ?_⟩
  intro hno
  refine hpre.eq_of_length_le (Nat.le_of_not_lt fun hlt => hno ?_)
  have hin : handled <+: sent := by
    refine List.prefix_of_prefix_length_le hsent (List.prefix_append _ _) ?_
    rw [← hcat, List.length_append]
    exact hlt
  exact hin.subset hmem

theorem handled_prefix {queue more handled : List Command} (h : handled <+: queue ++ .halt :: more)
    (hlast : .halt ∉ handled.dropLast) : handled <+: queue ++ [.halt] := by
  by_cases hmem : .halt ∈ handled
  · obtain ⟨done, rfl, -, hpre, -⟩ := done_of_halt h hmem hlast
    refine List.prefix_of_prefix_length_le h ⟨more, by rw [List.append_assoc]; rfl⟩ ?_
    rw [List.length_append, List.length_append]
    exact Nat.add_le_add_right hpre.length_le _
  · exact (prefix_of_notMem h hmem).trans (List.prefix_append _ _)

theorem send_cases {c : Command} (h : s.act (.send c) = some ([.sent c], t)) :
    s.phase ≠ .stopped ∧ t = { s with inbox := s.inbox ++ [c] } := by
  have hm := move_of_act h
  cases hm with
  | send hp => exact ⟨hp, rfl⟩

section

variable {machine : Machine} {speed : UInt32}

theorem halt_in_queue (hall : (start machine speed).2.perform actions = some (past ++ ([.sent .halt] ++ events), u)) :
    past.filterMap Event.handled? ++ events.filterMap Event.handled? ++ u.inbox =
        past.filterMap Event.sent? ++ .halt :: events.filterMap Event.sent? ∧
      .halt ∉ (past.filterMap Event.handled? ++ events.filterMap Event.handled?).dropLast := by
  have hhandled : (past ++ ([Event.sent .halt] ++ events)).filterMap Event.handled? =
      past.filterMap Event.handled? ++ events.filterMap Event.handled? := by
    rw [List.filterMap_append, List.filterMap_append]
    rfl
  have hsent : (past ++ ([Event.sent .halt] ++ events)).filterMap Event.sent? =
      past.filterMap Event.sent? ++ .halt :: events.filterMap Event.sent? := by
    rw [List.filterMap_append, List.filterMap_append]
    rfl
  rw [← hhandled, ← hsent]
  exact ⟨(sent_eq_handled_append_inbox hall).symm, (attentive hall).last⟩

theorem handled_after_halt (hs : (start machine speed).2.perform before = some (past, s))
    (hall : (start machine speed).2.perform actions = some (past ++ ([.sent .halt] ++ events), u)) :
    events.filterMap Event.handled? <+: s.inbox ++ [.halt] := by
  obtain ⟨hqueue, hlast⟩ := halt_in_queue hall
  rw [sent_eq_handled_append_inbox hs, List.append_assoc, List.append_assoc, List.append_cancel_left_eq] at hqueue
  refine handled_prefix ⟨u.inbox, hqueue⟩ fun hmem => hlast ?_
  have hne : events.filterMap Event.handled? ≠ [] := by
    intro he
    rw [he] at hmem
    cases hmem
  rw [List.dropLast_append_of_ne_nil hne]
  exact List.mem_append_right _ hmem

theorem stopCause_after_halt
    (hall : (start machine speed).2.perform actions = some (past ++ ([.sent .halt] ++ events), u))
    (hstopped : u.hasStopped = true) :
    u.fault.isSome = true ∨
      (u.consumerGone = true ∧ ∃ f, .refused (.frame f) ∈ past ++ events) ∨
      ∃ done, (past ++ events).filterMap Event.handled? = done ++ [.halt] ∧ .halt ∉ done ∧
        done <+: past.filterMap Event.sent? ∧
        (.halt ∉ past.filterMap Event.sent? → done = past.filterMap Event.sent?) := by
  obtain ⟨hqueue, hlast⟩ := halt_in_queue hall
  have hother {x : Event} (hx : x ∈ past ++ ([.sent .halt] ++ events)) (hne : x ≠ .sent .halt) :
      x ∈ past ++ events := by
    rw [List.mem_append, List.mem_append, List.mem_singleton] at hx
    exact List.mem_append.2 (hx.imp_right (·.resolve_left hne))
  rw [List.filterMap_append]
  have hdone (hmem : .halt ∈ past.filterMap Event.handled? ++ events.filterMap Event.handled?) :=
    done_of_halt ⟨u.inbox, hqueue⟩ hmem hlast
  rcases stopCause hall hstopped with hfault | hhalt | ⟨f, href⟩ | ⟨-, hi⟩
  · exact .inl hfault
  · refine .inr (.inr (hdone ?_))
    rw [← List.filterMap_append]
    exact List.mem_filterMap.2 ⟨.handled .halt none, hother hhalt nofun, rfl⟩
  · exact .inr (.inl ⟨consumerGone_of_refused hall href, f, hother href nofun⟩)
  · -- the clients left an empty inbox behind, so the halt has been handled
    refine .inr (.inr (hdone ?_))
    rw [hi, List.append_nil] at hqueue
    rw [hqueue]
    exact List.mem_append_right _ List.mem_cons_self

end

theorem halt_within_frame {machine : Machine} {speed : UInt32} {before after : List Action}
    (hs : (start machine speed).2.perform before = some (past, s))
    (ht : s.act (.send .halt) = some ([.sent .halt], t)) (hu : t.perform after = some (events, u)) :
    ((events.filterMap Event.outcome?).length ≤ speed.toNat ∧
        (events.filterMap Event.produced?).length ≤ 1 ∧
        (events.filterMap Event.published?).countP Output.isFrame ≤ 1 ∧
        (s.phase = .draining ∨ s.phase = .pacing →
          events.filterMap Event.outcome? = [] ∧ events.filterMap Event.produced? = [])) ∧
      (after.count .execute ≤ speed.toNat + s.inbox.length + 7 ∧
        (u.hasStopped = true ∨ u.execute.isSome = true)) ∧
      events.filterMap Event.handled? <+: s.inbox ++ [.halt] ∧
      (u.hasStopped = true →
        u.summary.fault.isSome = true ∨
          (u.consumerGone = true ∧ ∃ f, .refused (.frame f) ∈ past ++ events) ∨
          ∃ done, (past ++ events).filterMap Event.handled? = done ++ [.halt] ∧ .halt ∉ done ∧
            done <+: past.filterMap Event.sent? ∧
            (.halt ∉ past.filterMap Event.sent? → done = past.filterMap Event.sent?)) ∧
      Called s.machine events u.summary.machine ∧
      ∀ x, s.machine.mode = .awaitingKey x → Machine.Quiet s.machine.keypad (calls events) →
        u.summary.machine =
          { s.machine with
            timers := Timers.tick^[Machine.ticks (calls events)] s.machine.timers
            keypad := Machine.latest s.machine.keypad (calls events) } := by
  obtain ⟨-, rfl⟩ := send_cases ht
  have hall := perform_append hs (perform_cons ht hu)
  obtain ⟨hspeed, hleft⟩ := left_le_speed hs
  have hh : Halting { s with inbox := s.inbox ++ [.halt] } := .inr (List.mem_append_right _ List.mem_cons_self)
  obtain ⟨hhu, hsteps, hinterrupts, hframes⟩ := halting_perform hh hu
  have hcalled := called_perform hu
  refine ⟨⟨?_, ?_, ?_, ?_⟩, ⟨?_, ?_⟩, ?_, ?_, hcalled, ?_⟩
  · exact Nat.le_trans (Nat.le_of_add_right_le hsteps) hleft
  · exact Nat.le_trans (Nat.le_of_add_right_le hinterrupts) (Phase.interruptsLeft_le _)
  · exact Nat.le_trans (Nat.le_of_add_right_le hframes) (Phase.framesLeft_le _)
  · intro hp
    have hnone : s.phase.stepsLeft = 0 ∧ s.phase.interruptsLeft = 0 := by
      rcases hp with hp | hp <;> rw [hp] <;> exact ⟨rfl, rfl⟩
    exact ⟨List.eq_nil_of_length_eq_zero (Nat.le_zero.1 (hnone.1 ▸ Nat.le_of_add_right_le hsteps)),
      List.eq_nil_of_length_eq_zero (Nat.le_zero.1 (hnone.2 ▸ Nat.le_of_add_right_le hinterrupts))⟩
  · have hlt := Nat.lt_of_le_of_lt (count_execute_le_delay hh hu)
      (delay_lt (List.mem_append_right _ List.mem_cons_self) (hspeed ▸ hleft))
    simp only [List.length_append, List.length_singleton, hspeed] at hlt
    omega
  · by_cases hp : u.phase = .stopped
    · exact .inl (beq_iff_eq.2 hp)
    · exact .inr (isSome_execute hhu hp)
  · exact handled_after_halt hs hall
  · exact stopCause_after_halt hall
  · intro x hx hq
    rw [summary, hcalled.machine]
    exact (Machine.idle_run hx hq).2

theorem halt_within_frame_waiting :
    let m := { Machine.ofSettings {} (by decide) (.ofSeed 0) with mode := .awaitingKey ⟨5, by decide⟩ }
    let before : List Action := [.execute, .send (.keypad .released), .send .dump]
    let after : List Action := [.send .dump, .execute, .execute, .execute, .execute, .execute, .execute,
      .execute, .execute]
    ∃ past s t events u, (start m 1).2.perform before = some (past, s) ∧
      s.act (.send .halt) = some ([.sent .halt], t) ∧ t.perform after = some (events, u) ∧
      u.hasStopped = true ∧ u.summary.frames = 1 ∧
      events.filterMap Event.handled? = [.keypad .released, .dump, .halt] ∧
      (events.filterMap Event.outcome?).length ≤ 1 ∧ u.summary.machine = m := by
  intro m before after
  have hrun : ((start m 1).2.perform before).bind (fun b =>
      ((b.2.act (.send .halt)).filter (·.1 = [.sent .halt])).bind fun c => (c.2.perform after).map fun r =>
        (calls b.1, calls r.1, r.1.filterMap Event.handled?, r.2.hasStopped, r.2.frames)) =
      some ([], [.step, .interrupt, .sense .released], [.keypad .released, .dump, .halt], true, 1) := by
    decide +kernel
  obtain ⟨⟨past, s⟩, hs, hrest⟩ := Option.bind_eq_some_iff.1 hrun
  obtain ⟨⟨sent, t⟩, hsent, hlast⟩ := Option.bind_eq_some_iff.1 hrest
  obtain ⟨⟨events, u⟩, hu, hseen⟩ := Option.map_eq_some_iff.1 hlast
  obtain ⟨ht, hfilter⟩ := Option.filter_eq_some_iff.1 hsent
  obtain rfl : sent = [.sent .halt] := of_decide_eq_true hfilter
  simp only [Prod.mk.injEq] at hseen
  obtain ⟨hpast, hcalls, hhandled, hstopped, hframes⟩ := hseen
  obtain ⟨⟨hsteps, -⟩, -, -, -, -, hwait⟩ := halt_within_frame hs ht hu
  have hm : s.machine = m := by
    rw [(called_perform hs).machine, hpast]
    rfl
  have hq : Machine.Quiet s.machine.keypad (calls events) := by
    rw [hm, hcalls]
    exact .cons_cons (by decide) (.singleton _)
  have hx : s.machine.mode = .awaitingKey ⟨5, by decide⟩ := by rw [hm]
  refine ⟨past, s, t, events, u, hs, ht, hu, hstopped, hframes, hhandled, hsteps, ?_⟩
  rw [hwait _ hx hq, hm, hcalls]
  rfl

end Chip8.Session
