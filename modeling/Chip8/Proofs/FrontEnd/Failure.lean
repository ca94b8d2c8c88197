import Chip8.Proofs.FrontEnd.Move
import Chip8.Proofs.Session.Halting

namespace Chip8.Session

variable {s s' : Session} {a : Action} {events : List Event}

def Announced (s : Session) : Prop := ∀ fault, .halted fault ∈ s.outbox → s.phase = .stopped ∧ s.fault = fault

theorem announced_move (ha : Announced s) (h : Move s a events s') : Announced s' := by
  intro fault hmem
  by_cases hold : .halted fault ∈ s.outbox
  · obtain ⟨hs, hfault⟩ := ha fault hold
    obtain ⟨hs', hsummary, -⟩ := stopped_move h hs
    exact ⟨hs', (congrArg Summary.fault hsummary).trans hfault⟩
  · cases h with
    | halted =>
        obtain ⟨⟩ := List.mem_singleton.1 ((List.mem_append.1 hmem).resolve_left hold)
        exact ⟨rfl, rfl⟩
    | published => exact absurd (List.mem_singleton.1 ((List.mem_append.1 hmem).resolve_left hold)) nofun
    | receive ho => exact absurd (ho ▸ List.mem_cons_of_mem _ hmem) hold
    | _ => exact absurd hmem hold

theorem delay_le (hh : Halting s) (hleft : s.phase.stepsLeft ≤ s.speed.toNat) :
    s.delay ≤ s.speed.toNat + s.inbox.length + 7 := by
  rcases hh with he | hm
  · unfold delay
    split
    · omega
    · omega
    · next hstopping hstopped =>
        cases hp : s.phase with
        | stopping => exact absurd hp hstopping
        | stopped => exact absurd hp hstopped
        | _ =>
            rw [hp] at he
            cases he
  · exact Nat.le_of_lt (delay_lt hm hleft)

end Chip8.Session

namespace Chip8.FrontEnd

open Session (Halting Announced)

variable {δ ι : Type} {e e' u : FrontEnd δ ι} {past events : List Event} {actions : List Action}

def Phase.leaving? : Phase → Option (Option String)
  | .joining failure | .waiting failure | .done failure => some failure
  | _ => none

def Phase.outcome? : Phase → Option (Option String)
  | .failing reason => some (some reason)
  | p => p.leaving?

def Phase.parting (p : Phase) : List Command :=
  match p.leaving? with
  | some (some _) => [.halt]
  | _ => []

theorem Phase.outcome_cases {p : Phase} {o : Option String} (h : p.outcome? = some o) :
    (∃ reason, o = some reason ∧ p = .failing reason ∧ p.parting = []) ∨
      p.leaving? = some o ∧ p.parting = (o.map fun _ => Command.halt).toList := by
  cases p with
  | failing reason => exact .inl ⟨reason, (Option.some.inj h).symm, rfl, rfl⟩
  | joining failure | waiting failure | done failure =>
      obtain rfl : failure = o := Option.some.inj h
      cases failure <;> exact .inr ⟨rfl, rfl⟩
  | _ => cases h

def Event.ending? : Event → Option (Option String)
  | .drawFailed reason | .scanFailed reason => some (some reason)
  | .session (.received (.halted _)) => some none
  | _ => none

theorem ending_of_failure {x : Event} {reason : String} (h : x.failure? = some reason) :
    x.ending? = some (some reason) := by
  cases x with
  | drawFailed | scanFailed => exact congrArg some h
  | _ => cases h

theorem failure_of_ending {x : Event} {reason : String} (h : x.ending? = some (some reason)) :
    x.failure? = some reason := by
  unfold Event.ending? at h
  split at h
  · exact Option.some.inj h
  · exact Option.some.inj h
  · cases h
  · cases h

theorem split_left {l m before after : List Event} {x : Event} (h : l ++ m = before ++ x :: after) (hx : x ∉ m) :
    ∃ kept, l = before ++ x :: kept ∧ after = kept ++ m := by
  rcases List.append_eq_append_iff.1 h with ⟨rest, -, hm⟩ | ⟨rest, hl, hm⟩
  · exact absurd (hm ▸ List.mem_append_right _ List.mem_cons_self) hx
  · cases rest with
    | nil =>
        rw [List.nil_append] at hm
        exact absurd (hm ▸ List.mem_cons_self) hx
    | cons y kept =>
        obtain ⟨rfl, rfl⟩ := List.cons.inj hm
        exact ⟨kept, hl, rfl⟩

theorem split_last {l before after : List Event} {x y : Event} (h : l ++ [y] = before ++ x :: after) (hx : x ∉ l) :
    before = l ∧ x = y ∧ after = [] := by
  rcases List.eq_nil_or_concat after with rfl | ⟨kept, z, rfl⟩
  · obtain ⟨hl, hxy⟩ := List.append_inj' h rfl
    exact ⟨hl.symm, (List.cons.inj hxy).1.symm, rfl⟩
  · rw [List.concat_eq_append, ← List.cons_append, ← List.append_assoc] at h
    obtain ⟨hl, -⟩ := List.append_inj' h rfl
    exact absurd (hl ▸ List.mem_append_right _ List.mem_cons_self) hx

theorem unheard {s s' : Session} {b : Session.Action} {es : List Session.Event} (h : Session.Move s b es s')
    (hb : b ≠ .receive) : ∀ y ∈ es, y.received? = none := by
  apply List.filterMap_eq_nil_iff.1
  cases h with
  | receive => exact absurd rfl hb
  | _ => rfl

theorem quiet_session {s s' : Session} {b : Session.Action} {es : List Session.Event} (h : Session.Move s b es s')
    (hb : b ≠ .receive) : ∀ x ∈ es.map Event.session, x.ending? = none ∧ x.isCall = false := by
  intro x hx
  obtain ⟨y, hy, rfl⟩ := List.mem_map.1 hx
  have hnone := unheard h hb y hy
  cases y with
  | received => cases hnone
  | _ => exact ⟨rfl, rfl⟩

theorem not_receive {b : Session.Action} (hb : b = .execute ∨ b = .timeout) : b ≠ .receive := by
  rcases hb with rfl | rfl <;> nofun

structure Settled (past : List Event) (e : FrontEnd δ ι) : Prop where
  ongoing : e.phase.outcome? = none → ∀ x ∈ past, x.ending? = none
  ended : ∀ before x after o, past = before ++ x :: after → x.ending? = some o →
    e.phase.outcome? = some o ∧ (∀ y ∈ before, y.ending? = none) ∧ (∀ y ∈ after, y.isCall = false) ∧
      after.filterMap Event.told? = e.phase.parting
  failed : ∀ reason, e.phase.outcome? = some (some reason) → ∃ x ∈ past, x.ending? = some (some reason)

theorem Settled.firstFailure {o : Option String} (hs : Settled past e) (ho : e.phase.outcome? = some o) :
    past.findSome? Event.failure? = o := by
  cases o with
  | none =>
      refine List.findSome?_eq_none_iff.2 fun x hx => ?_
      cases hf : x.failure? with
      | none => rfl
      | some reason =>
          obtain ⟨before, after, hsplit⟩ := List.append_of_mem hx
          obtain ⟨hout, -⟩ := hs.ended before x after _ hsplit (ending_of_failure hf)
          rw [ho] at hout
          cases hout
  | some reason =>
      obtain ⟨x, hx, hend⟩ := hs.failed reason ho
      obtain ⟨before, after, hsplit⟩ := List.append_of_mem hx
      obtain ⟨-, hbefore, -⟩ := hs.ended before x after _ hsplit hend
      refine List.findSome?_eq_some_iff.2 ⟨before, x, after, hsplit, failure_of_ending hend, fun y hy => ?_⟩
      cases hf : y.failure? with
      | none => rfl
      | some why => exact absurd ((hbefore y hy).symm.trans (ending_of_failure hf)) nofun

variable [Display δ] [Input ι]

theorem outcome_move (h : Move e events e') :
    (e'.phase.outcome? = e.phase.outcome? ∧ (∀ x ∈ events, x.ending? = none) ∧
      ∀ o, e.phase.outcome? = some o → (∀ x ∈ events, x.isCall = false) ∧
        e'.phase.parting = e.phase.parting ++ events.filterMap Event.told?) ∨
    (e.phase.outcome? = none ∧ ∃ o, e'.phase.outcome? = some o ∧ e'.phase.parting = [] ∧
      ((∃ x, events = [x] ∧ x.ending? = some o) ∨ events = [] ∧ o = none)) := by
  cases h with
  | farewell hp =>
      rw [hp]
      exact .inr ⟨rfl, none, rfl, rfl, .inl ⟨_, rfl, rfl⟩⟩
  | closed hp =>
      rw [hp]
      exact .inr ⟨rfl, none, rfl, rfl, .inr ⟨rfl, rfl⟩⟩
  | undrawn hp | unscanned hp =>
      rw [hp]
      exact .inr ⟨rfl, _, rfl, rfl, .inl ⟨_, rfl, rfl⟩⟩
  | frame hp | drawn hp | unchanged hp | changed hp =>
      rw [hp]
      exact .inl ⟨rfl, List.forall_mem_singleton.2 rfl, nofun⟩
  | resumed hp | gaveUp hp =>
      rw [hp]
      exact .inl ⟨rfl, List.forall_mem_nil _, nofun⟩
  | sent hp hm | asked hp _ _ hm =>
      rw [hp]
      exact .inl ⟨rfl, fun x hx => (quiet_session hm nofun x hx).1, nofun⟩
  | failed hp hm =>
      rw [hp]
      have hquiet := quiet_session hm nofun
      exact .inl ⟨rfl, fun x hx => (hquiet x hx).1, fun _ _ => ⟨fun x hx => (hquiet x hx).2, (told_send hm).symm⟩⟩
  | joined hp | left hp =>
      rw [hp]
      exact .inl ⟨rfl, List.forall_mem_nil _, fun _ _ => ⟨List.forall_mem_nil _, (List.append_nil _).symm⟩⟩
  | ran hb hm =>
      have hquiet := quiet_session hm (not_receive hb)
      refine .inl ⟨rfl, fun x hx => (hquiet x hx).1, fun _ _ => ⟨fun x hx => (hquiet x hx).2, ?_⟩⟩
      rw [told_ran hb hm, List.append_nil]

theorem settled_move (hs : Settled past e) (h : Move e events e') : Settled (past ++ events) e' := by
  obtain ⟨hongoing, hended, hfailed⟩ := hs
  obtain ⟨ho, hnone, hafter⟩ | ⟨ho, o, ho', hparting, hnew⟩ := outcome_move h
  · refine ⟨fun hn => ?_, fun before x after o hsplit hx => ?_, fun reason hr => ?_⟩
    · exact List.forall_mem_append.2 ⟨hongoing (ho ▸ hn), hnone⟩
    · have hold : x ∉ events := fun hmem => by
        rw [hnone x hmem] at hx
        cases hx
      obtain ⟨kept, hpast, rfl⟩ := split_left hsplit hold
      obtain ⟨hout, hbefore, hcalls, htold⟩ := hended before x kept o hpast hx
      obtain ⟨hcalls', htold'⟩ := hafter o hout
      refine ⟨ho.trans hout, hbefore, List.forall_mem_append.2 ⟨hcalls, hcalls'⟩, ?_⟩
      rw [List.filterMap_append, htold, htold']
    · obtain ⟨x, hmem, hx⟩ := hfailed reason (ho ▸ hr)
      exact ⟨x, List.mem_append_left _ hmem, hx⟩
  · have hpast := hongoing ho
    have hfresh {x : Event} {o : Option String} (hx : x.ending? = some o) : x ∉ past := fun hmem => by
      rw [hpast x hmem] at hx
      cases hx
    obtain ⟨x, rfl, hx⟩ | ⟨rfl, rfl⟩ := hnew
    · refine ⟨fun hn => ?_, fun before y after p hsplit hy => ?_, fun reason hr => ?_⟩
      · rw [hn] at ho'
        cases ho'
      · obtain ⟨rfl, rfl, rfl⟩ := split_last hsplit (hfresh hy)
        exact ⟨ho'.trans (hx.symm.trans hy), hpast, List.forall_mem_nil _, hparting.symm⟩
      · rw [ho'] at hr
        exact ⟨x, List.mem_append_right _ List.mem_cons_self, hr ▸ hx⟩
    · rw [List.append_nil]
      refine ⟨fun _ => hpast, fun before y after p hsplit hy => ?_, fun reason hr => ?_⟩
      · exact absurd (hsplit ▸ List.mem_append_right _ List.mem_cons_self) (hfresh hy)
      · rw [ho'] at hr
        cases hr

structure Bound (past : List Event) (e : FrontEnd δ ι) : Prop where
  announced : Announced e.session
  within : e.session.phase.stepsLeft ≤ e.session.speed.toNat
  heard : ∀ fault, .session (.received (.halted fault)) ∈ past → e.session.phase = .stopped ∧ e.session.fault = fault
  closed : e.phase.outcome? = some none → e.session.phase = .stopped
  halting : ∀ o, e.phase.leaving? = some o → Halting e.session
  joined : ∀ o, e.phase = .done o → e.session.phase = .stopped

theorem stopped_move (hs : e.session.phase = .stopped) (h : Move e events e') :
    e'.session.phase = .stopped ∧ e'.session.summary = e.session.summary := by
  refine session_keep (P := fun s => s.phase = .stopped ∧ s.summary = e.session.summary) ?_ ⟨hs, rfl⟩ h
  intro s b es s' _ ⟨hs, hsummary⟩ hm
  obtain ⟨hs', hsummary', -⟩ := Session.stopped_move hm hs
  exact ⟨hs', hsummary'.trans hsummary⟩

theorem farewell_move {fault : Option Fault} (ha : Announced e.session) (h : Move e events e')
    (hmem : .session (.received (.halted fault)) ∈ events) :
    e'.session.phase = .stopped ∧ e'.session.fault = fault := by
  cases h with
  | farewell hp hm =>
      obtain ⟨⟩ := List.mem_singleton.1 hmem
      cases hm with
      | receive ho => exact ha fault (ho ▸ List.mem_cons_self)
  | frame | drawn | undrawn | unchanged | changed | unscanned => exact absurd (List.mem_singleton.1 hmem) nofun
  | sent _ hm | asked _ _ _ hm | failed _ hm => exact absurd ((quiet_session hm nofun _ hmem).1) nofun
  | ran hb hm => exact absurd ((quiet_session hm (not_receive hb) _ hmem).1) nofun
  | closed | resumed | joined | left | gaveUp => exact absurd hmem List.not_mem_nil

theorem bound_move (hb : Bound past e) (h : Move e events e') : Bound (past ++ events) e' := by
  obtain ⟨hannounced, hwithin, hheard, hclosed, hhalting, hjoined⟩ := hb
  have hstill (hs : e.session.phase = .stopped) := stopped_move hs h
  refine ⟨session_keep (fun _ => Session.announced_move) hannounced h, ?_, ?_, ?_, ?_, ?_⟩
  · refine session_keep (P := fun s => s.phase.stepsLeft ≤ s.speed.toNat) (fun _ hleft hm => ?_) hwithin h
    obtain ⟨hspeed, hleft'⟩ := Session.left_move hleft hm
    rwa [hspeed]
  · intro fault hmem
    rcases List.mem_append.1 hmem with hold | hnew
    · obtain ⟨hs, hfault⟩ := hheard fault hold
      obtain ⟨hs', hsummary⟩ := hstill hs
      exact ⟨hs', (congrArg Session.Summary.fault hsummary).trans hfault⟩
    · exact farewell_move hannounced h hnew
  · intro ho
    cases h with
    | farewell hp hm => exact (farewell_move hannounced (.farewell hp hm) List.mem_cons_self).1
    | closed _ hc => exact beq_iff_eq.1 (Bool.and_eq_true_iff.1 hc).2
    | joined hp | left hp =>
        rw [hp] at hclosed
        exact hclosed ho
    | ran => exact (hstill (hclosed ho)).1
    | _ => cases ho
  · intro o ho
    cases h with
    | farewell hp hm =>
        exact Session.halting_of_stopped (farewell_move hannounced (.farewell hp hm) List.mem_cons_self).1
    | closed _ hc => exact Session.halting_of_stopped (beq_iff_eq.1 (Bool.and_eq_true_iff.1 hc).2)
    | failed _ hm => exact Session.halting_send hm
    | joined hp | left hp =>
        rw [hp] at hhalting
        exact hhalting o ho
    | ran _ hm => exact Session.halting_move (hhalting o ho) hm
    | _ => cases ho
  · intro o hp'
    cases h with
    | left _ hc => exact beq_iff_eq.1 hc
    | ran => exact (hstill (hjoined o hp')).1
    | _ => cases hp'

theorem Played.sessions {display d : δ} {input i : ι} {held : Option Screen} {es : List Session.Event}
    (hp : Played display input past d i held) (hes : ∀ y ∈ es, y.received? = none) :
    Played display input (past ++ es.map .session) d i held := by
  induction es generalizing past with
  | nil => rwa [List.map_nil, List.append_nil]
  | cons y es ih =>
      obtain ⟨hy, hes⟩ := List.forall_mem_cons.1 hes
      have hfirst : Played display input (past ++ [.session y]) d i held := by
        refine hp.session fun f he => ?_
        rw [he] at hy
        cases hy
      rw [List.map_cons, List.append_cons]
      exact ih hfirst hes

theorem played_move {display : δ} {input : ι} (hp : Played display input past e.display e.input e.phase.held)
    (h : Move e events e') : Played display input (past ++ events) e'.display e'.input e'.phase.held := by
  cases h with
  | ran hb hm => exact hp.sessions (unheard hm (not_receive hb))
  | frame he =>
      rw [he] at hp
      exact hp.frame
  | farewell he =>
      rw [he] at hp
      exact hp.session nofun
  | drawn he hd =>
      rw [he] at hp
      exact hp.drew hd
  | undrawn he hd =>
      rw [he] at hp
      exact hp.drawFailed hd
  | unchanged he hi | changed he hi =>
      rw [he] at hp
      exact hp.scanned hi
  | unscanned he hi =>
      rw [he] at hp
      exact hp.scanFailed hi
  | sent he hm | asked he _ _ hm | failed he hm =>
      rw [he] at hp
      exact hp.sessions (unheard hm nofun)
  | closed he | resumed he | joined he | left he | gaveUp he =>
      rw [he] at hp
      rwa [List.append_nil]

def Phase.movesLeft : Phase → Nat
  | .joining _ => 2
  | .waiting _ => 1
  | _ => 0

def movesLeft (e : FrontEnd δ ι) : Nat := e.session.delay + e.phase.movesLeft

section Leaving

variable {o : Option String}

theorem leaving_move (ho : e.phase.leaving? = some o) (hh : Halting e.session) (h : Move e events e') :
    e'.phase.leaving? = some o ∧ Halting e'.session ∧ e'.movesLeft + 1 ≤ e.movesLeft ∧
      ∀ x ∈ events, x.isCall = false ∧ x.told? = none := by
  cases h with
  | joined hp =>
      have hsame : e.session.hangUp.delay = e.session.delay := rfl
      rw [hp] at ho
      refine ⟨ho, Session.halting_move hh .hangUp, ?_, List.forall_mem_nil _⟩
      simp only [movesLeft, hp, Phase.movesLeft]
      omega
  | left hp =>
      rw [hp] at ho
      refine ⟨ho, hh, ?_, List.forall_mem_nil _⟩
      simp only [movesLeft, hp, Phase.movesLeft]
      omega
  | @ran b es s hb hm =>
      have hle := Session.delay_move hh hm
      have htold := List.filterMap_eq_nil_iff.1 (told_ran hb hm)
      have hquiet := quiet_session hm (not_receive hb)
      refine ⟨ho, Session.halting_move hh hm, ?_, fun x hx => ⟨(hquiet x hx).2, htold x hx⟩⟩
      rcases hb with rfl | rfl
      · rw [List.count_singleton_self] at hle
        simp only [movesLeft]
        omega
      · cases hm with
        | timeout hp hi => exact absurd hh (Session.not_halting (.inr hp) hi)
  | frame hp | farewell hp | closed hp | drawn hp | undrawn hp | unchanged hp | changed hp | unscanned hp | sent hp
  | asked hp | resumed hp | failed hp | gaveUp hp =>
      rw [hp] at ho
      cases ho

theorem leaving_perform (ha : Attached e) (ho : e.phase.leaving? = some o) (hh : Halting e.session)
    (h : e.perform actions = some (events, u)) :
    u.phase.leaving? = some o ∧ Halting u.session ∧ u.movesLeft + actions.length ≤ e.movesLeft ∧
      ∀ x ∈ events, x.isCall = false ∧ x.told? = none := by
  induction actions generalizing e events with
  | nil =>
      cases h
      exact ⟨ho, hh, Nat.le_refl _, List.forall_mem_nil _⟩
  | cons a actions ih =>
      obtain ⟨first, t, more, hact, hp, rfl⟩ := exists_of_perform_cons h
      have hm := move_of_act ha hact
      obtain ⟨ho', hh', hless, hfirst⟩ := leaving_move ho hh hm
      obtain ⟨hov, hhv, hmoves, hmore⟩ := ih (attached_move ha hm) ho' hh' hp
      refine ⟨hov, hhv, ?_, List.forall_mem_append.2 ⟨hfirst, hmore⟩⟩
      rw [List.length_cons]
      omega

theorem result_or_act (ho : e.phase.leaving? = some o) (hh : Halting e.session) :
    e.result?.isSome = true ∨ ∃ a r, e.act a = some r := by
  cases hp : e.phase with
  | joining failure => exact .inr ⟨.pump, _, by rw [act, pump, hp]⟩
  | waiting failure =>
      by_cases hs : e.session.phase = .stopped
      · have hstopped : e.session.hasStopped = true := beq_iff_eq.2 hs
        exact .inr ⟨.pump, ([], { e with phase := .done failure }), by simp only [act, pump, hp, hstopped, if_true]⟩
      · obtain ⟨⟨events, s⟩, hx⟩ := Option.isSome_iff_exists.1 (Session.isSome_execute hh hs)
        exact .inr ⟨.execute, _, congrArg (Option.map _) hx⟩
  | done failure =>
      left
      cases failure <;> simp only [result?, hp] <;> rfl
  | _ =>
      rw [hp] at ho
      cases ho

end Leaving

theorem failure_ends_run {machine : Machine} {speed : UInt32} {prior : List Session.Action}
    {earlier : List Session.Event} {session : Session} {display : δ} {input : ι} {limit : Option Nat}
    (hs : (Session.start machine speed).2.perform prior = some (earlier, session)) (hstay : .hangUp ∉ prior)
    (h : (attach session display input limit).perform actions = some (events, e)) :
    Played display input events e.display e.input e.phase.held ∧
    (∀ before x after reason, events = before ++ x :: after → x.failure? = some reason →
      (∀ y ∈ before, y.ending? = none) ∧ (∀ y ∈ after, y.isCall = false) ∧
      (after.filterMap Event.told? = [] ∧ e.phase = .failing reason ∧ (e.act .pump).isSome = true ∨
        after.filterMap Event.told? = [.halt] ∧ e.phase.leaving? = some (some reason))) ∧
    (∀ before after fault, events = before ++ .session (.received (.halted fault)) :: after →
      (∀ y ∈ before, y.ending? = none) ∧ (∀ y ∈ after, y.isCall = false ∧ y.told? = none) ∧
      e.phase.leaving? = some none ∧ e.session.hasStopped = true ∧ e.session.fault = fault) ∧
    (∀ outcome later more u, e.phase.leaving? = some outcome → e.perform later = some (more, u) →
      later.length ≤ e.session.speed.toNat + e.session.inbox.length + 9 ∧
      (∀ y ∈ more, y.isCall = false ∧ y.told? = none) ∧ u.phase.leaving? = some outcome ∧
      (u.result?.isSome = true ∨ ∃ a r, u.act a = some r)) ∧
    ∀ result, e.result? = some result → e.session.hasStopped = true ∧
      result = match events.findSome? Event.failure? with
        | some reason => .error (.device reason)
        | none => .ok ⟨e.session.machine, e.session.fault, e.session.frames⟩ := by
  have hgone := Session.clientsGone_run hs hstay
  have hannounced : Announced session :=
    Session.run_induction (P := fun _ s => Announced s) hs nofun fun _ ha hm => Session.announced_move ha hm
  obtain ⟨hspeed, hleft⟩ := Session.left_le_speed hs
  obtain ⟨hatt, hsettled, hbound, hplayed⟩ := run_induction
    (P := fun past e => Settled past e ∧ Bound past e ∧ Played display input past e.display e.input e.phase.held)
    hgone h ⟨⟨fun _ => List.forall_mem_nil _, fun before _ _ _ hsplit => absurd hsplit (by simp), nofun⟩,
      ⟨hannounced, hspeed ▸ hleft, fun _ hmem => absurd hmem List.not_mem_nil, nofun, nofun, nofun⟩, .nil⟩
    fun ⟨hs, hb, hp⟩ hm => ⟨settled_move hs hm, bound_move hb hm, played_move hp hm⟩
  refine ⟨hplayed, ?_, ?_, ?_, ?_⟩
  · intro before x after reason hsplit hx
    obtain ⟨ho, hbefore, hcalls, htold⟩ := hsettled.ended before x after _ hsplit (ending_of_failure hx)
    refine ⟨hbefore, hcalls, ?_⟩
    obtain ⟨why, hwhy, hp, hparting⟩ | ⟨hl, hparting⟩ := Phase.outcome_cases ho
    · obtain rfl := Option.some.inj hwhy
      exact .inl ⟨htold.trans hparting, hp, by rw [act, pump, hp]; rfl⟩
    · exact .inr ⟨htold.trans hparting, hl⟩
  · intro before after fault hsplit
    obtain ⟨ho, hbefore, hcalls, htold⟩ := hsettled.ended before _ after _ hsplit rfl
    obtain ⟨hstopped, hfault⟩ := hbound.heard fault (hsplit ▸ List.mem_append_right _ List.mem_cons_self)
    obtain ⟨why, hwhy, -⟩ | ⟨hl, hparting⟩ := Phase.outcome_cases ho
    · cases hwhy
    · have hsilent := List.filterMap_eq_nil_iff.1 (htold.trans hparting)
      exact ⟨hbefore, fun y hy => ⟨hcalls y hy, hsilent y hy⟩, hl, beq_iff_eq.2 hstopped, hfault⟩
  · intro outcome later more u ho hu
    have hh := hbound.halting outcome ho
    obtain ⟨hou, hhu, hmoves, hmore⟩ := leaving_perform hatt ho hh hu
    refine ⟨?_, hmore, hou, result_or_act hou hhu⟩
    have hdelay := Session.delay_le hh hbound.within
    have htwo : e.phase.movesLeft ≤ 2 := by
      cases e.phase <;> simp only [Phase.movesLeft] <;> omega
    simp only [movesLeft] at hmoves
    omega
  · intro result hr
    unfold result? at hr
    split at hr
    · next hp =>
        obtain rfl := Option.some.inj hr
        refine ⟨beq_iff_eq.2 (hbound.joined _ hp), ?_⟩
        rw [hsettled.firstFailure (congrArg Phase.outcome? hp)]
        rfl
    · next reason hp =>
        obtain rfl := Option.some.inj hr
        refine ⟨beq_iff_eq.2 (hbound.joined _ hp), ?_⟩
        rw [hsettled.firstFailure (congrArg Phase.outcome? hp)]
    · cases hr

theorem failure_ends_run_gone_or_faulted :
    let waiting := { Machine.ofSettings {} (by decide) (.ofSeed 0) with mode := .awaitingKey ⟨5, by decide⟩ }
    let returning := ((Machine.ofSettings {} (by decide) (.ofSeed 0)).load [0x70, 0x01, 0x00, 0xee]).2
    let front (s : Session) (failsAt : Option Nat) : FrontEnd (Breaking Recorder) Playback :=
      attach s ⟨{}, failsAt, "gone", 0⟩ ⟨.released, [], 0, none⟩ none
    let framed : List Session.Action := [.execute, .execute, .execute, .execute, .execute]
    let shown : List Action := [.execute, .pump, .pump, .pump, .pump, .timeout]
    (∃ earlier s events e before x after, (Session.start waiting 1).2.perform framed = some (earlier, s) ∧
      (front s (some 1)).perform [.pump, .pump, .pump, .execute, .pump, .execute, .pump] = some (events, e) ∧
      events = before ++ x :: after ∧ x.failure? = some "gone" ∧ (∀ y ∈ after, y.isCall = false) ∧
      after.filterMap Event.told? = [.halt] ∧ e.result? = some (.error (.device "gone")) ∧
      e.session.hasStopped = true) ∧
    ∃ earlier s events e, (Session.start returning 1).2.perform framed = some (earlier, s) ∧
      (front s none).perform (shown ++ [.execute, .execute, .execute, .pump, .pump, .pump]) = some (events, e) ∧
      e.result? = some (.ok ⟨e.session.machine, some ⟨.stackUnderflow, 0x202, some 0x00ee⟩, 1⟩) ∧
      e.session.hasStopped = true := by
  intro waiting returning front framed shown
  constructor
  · have hrun : ((Session.start waiting 1).2.perform framed).bind (fun p =>
        ((front p.2 (some 1)).perform [.pump, .pump, .pump, .execute, .pump, .execute, .pump]).map fun r =>
          (r.1.findSome? Event.failure?, r.2.phase)) = some (some "gone", .done (some "gone")) := by
      decide +kernel
    obtain ⟨⟨earlier, s⟩, hs, hfront⟩ := Option.bind_eq_some_iff.1 hrun
    obtain ⟨⟨events, e⟩, h, hseen⟩ := Option.map_eq_some_iff.1 hfront
    simp only [Prod.mk.injEq] at hseen
    obtain ⟨hfirst, hp⟩ := hseen
    have hr : e.result? = some (.error (.device "gone")) := by rw [result?, hp]
    obtain ⟨before, x, after, hsplit, hx, -⟩ := List.findSome?_eq_some_iff.1 hfirst
    obtain ⟨-, hfailed, -, -, hresult⟩ := failure_ends_run hs (by decide) h
    obtain ⟨-, hcalls, ⟨-, hfailing, -⟩ | ⟨htold, -⟩⟩ := hfailed before x after "gone" hsplit hx
    · rw [hp] at hfailing
      cases hfailing
    · exact ⟨earlier, s, events, e, before, x, after, hs, h, hsplit, hx, hcalls, htold, hr, (hresult _ hr).1⟩
  · have hrun : ((Session.start returning 1).2.perform framed).bind (fun p =>
        ((front p.2 none).perform (shown ++ [.execute, .execute, .execute, .pump, .pump, .pump])).map fun r =>
          (r.1.findSome? Event.failure?, r.2.phase, r.2.session.fault, r.2.session.frames)) =
        some (none, .done none, some ⟨.stackUnderflow, 0x202, some 0x00ee⟩, 1) := by
      decide +kernel
    obtain ⟨⟨earlier, s⟩, hs, hfront⟩ := Option.bind_eq_some_iff.1 hrun
    obtain ⟨⟨events, e⟩, h, hseen⟩ := Option.map_eq_some_iff.1 hfront
    simp only [Prod.mk.injEq] at hseen
    obtain ⟨hfirst, hp, hfault, hframes⟩ := hseen
    have hr : e.result? = some (.ok e.session.summary) := by rw [result?, hp]
    obtain ⟨-, -, -, -, hresult⟩ := failure_ends_run hs (by decide) h
    obtain ⟨hstopped, heq⟩ := hresult _ hr
    rw [hfirst, hfault, hframes] at heq
    exact ⟨earlier, s, events, e, hs, h, hr.trans (congrArg some heq), hstopped⟩

end Chip8.FrontEnd
