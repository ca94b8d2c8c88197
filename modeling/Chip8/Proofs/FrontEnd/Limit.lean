import Chip8.Proofs.FrontEnd.Move
import Chip8.Proofs.Session.Halting

namespace Chip8.Session

variable {s s' : Session} {a : Action} {events : List Event}

def coming (s : Session) : Nat := s.outbox.countP Output.isFrame + s.phase.framesLeft

theorem coming_move (hh : Halting s) (h : Move s a events s') :
    (events.filterMap Event.received?).countP Output.isFrame + s'.coming ≤ s.coming := by
  have hframes := (spent_move hh h).frames
  have hqueue := congrArg (List.countP Output.isFrame) (outbox_move h)
  rw [List.countP_append, List.countP_append] at hqueue
  unfold coming
  omega

theorem coming_le (hr : Roomy s) : s.coming ≤ backlog + 1 :=
  Nat.add_le_add hr.queued s.phase.framesLeft_le

end Chip8.Session

namespace Chip8.FrontEnd

open Session (Halting Roomy backlog)

variable {δ ι : Type} [Display δ] [Input ι] {e e' : FrontEnd δ ι} {actions : List Action} {past events : List Event}

def Phase.drawsLeft : Phase → Nat
  | .drawing _ => 1
  | _ => 0

def coming (e : FrontEnd δ ι) : Nat := e.session.coming + e.phase.drawsLeft

theorem countP_session (es : List Session.Event) : (es.map Event.session).countP Event.isDraw = 0 := by
  rw [List.countP_map]
  exact List.countP_eq_zero.2 fun _ _ => nofun

theorem halting_move (hh : Halting e.session) (h : Move e events e') : Halting e'.session :=
  session_keep (fun _ => Session.halting_move) hh h

theorem coming_move (hh : Halting e.session) (h : Move e events e') :
    events.countP Event.isDraw + e'.coming ≤ e.coming := by
  unfold coming
  cases h with
  | frame hp hm =>
      have hle := Session.coming_move hh hm
      rw [hp]
      exact (Nat.zero_add _).trans_le ((Nat.add_comm _ _).trans_le hle)
  | farewell hp hm =>
      have hle := Session.coming_move hh hm
      rw [hp]
      exact (Nat.zero_add _).trans_le ((Nat.zero_add _).symm.trans_le hle)
  | sent hp hm | asked hp _ _ hm | failed hp hm =>
      have hle := Nat.le_of_add_left_le (Session.coming_move hh hm)
      rw [countP_session, Nat.zero_add, hp]
      exact hle
  | ran _ hm =>
      rw [countP_session, Nat.zero_add]
      exact Nat.add_le_add_right (Nat.le_of_add_left_le (Session.coming_move hh hm)) _
  | drawn hp =>
      rw [hp]
      exact Nat.le_of_eq (Nat.add_comm _ _)
  | undrawn hp =>
      rw [hp]
      exact (Nat.zero_add _).trans_le (Nat.le_add_right _ 1)
  | closed hp | unchanged hp | changed hp | unscanned hp | resumed hp | joined hp | left hp | gaveUp hp =>
      rw [hp]
      exact Nat.le_of_eq (Nat.zero_add _)

theorem coming_perform (ha : Attached e) (hh : Halting e.session) (h : e.perform actions = some (events, e')) :
    events.countP Event.isDraw + e'.coming ≤ e.coming := by
  have h0 : Halting e.session ∧ ([] : List Event).countP Event.isDraw + e.coming ≤ e.coming :=
    ⟨hh, Nat.le_of_eq (Nat.zero_add _)⟩
  refine (perform_induction (P := fun past t => Halting t.session ∧ past.countP Event.isDraw + t.coming ≤ e.coming)
    ?_ ha h0 h).2.2
  rintro past t events t' ⟨ht, hle⟩ hm
  refine ⟨halting_move ht hm, ?_⟩
  have hmove := coming_move ht hm
  rw [List.countP_append]
  omega

theorem limit_move (h : Move e events e') : e'.limit = e.limit := by
  cases h <;> rfl

theorem shown_move (h : Move e events e') : e'.shown = e.shown + events.countP Event.isDraw := by
  cases h with
  | sent | asked | failed | ran =>
      rw [countP_session]
      rfl
  | _ => rfl

theorem counters_move (h : Move e events e') :
    e'.session.frames ≤ e.session.frames + 1 ∧ e'.shown ≤ e.shown + 1 := by
  cases h with
  | frame _ hm | farewell _ hm | sent _ hm | asked _ _ _ hm | failed _ hm | ran _ hm =>
      exact ⟨Session.frames_move_le hm, Nat.le_succ _⟩
  | drawn => exact ⟨Nat.le_succ _, Nat.le_refl _⟩
  | _ => exact ⟨Nat.le_succ _, Nat.le_succ _⟩

theorem counters_le_actions (ha : Attached e) (h : e.perform actions = some (events, e')) :
    e'.session.frames ≤ e.session.frames + actions.length ∧ e'.shown ≤ e.shown + actions.length := by
  induction actions generalizing e events with
  | nil =>
      cases h
      exact ⟨Nat.le_refl _, Nat.le_refl _⟩
  | cons a actions ih =>
      obtain ⟨first, t, more, hact, hp, rfl⟩ := exists_of_perform_cons h
      have hm := move_of_act ha hact
      obtain ⟨hframes, hshown⟩ := counters_move hm
      obtain ⟨hmoreFrames, hmoreShown⟩ := ih (attached_move ha hm) hp
      rw [List.length_cons]
      constructor <;> omega

theorem counters_fit {machine : Machine} {speed : UInt32} {prior : List Session.Action}
    {earlier : List Session.Event} {session : Session} {display : δ} {input : ι} {limit : Option Nat}
    (hs : (Session.start machine speed).2.perform prior = some (earlier, session)) (hstay : .hangUp ∉ prior)
    (h : (attach session display input limit).perform actions = some (events, e))
    (hlength : prior.length + actions.length < UInt64.size) :
    e.session.frames < UInt64.size ∧ e.shown < UInt64.size := by
  have hprior : session.frames ≤ 0 + prior.length := Session.frames_le_actions hs
  have ha : Attached (attach session display input limit) := Session.clientsGone_run hs hstay
  obtain ⟨hframes, hshown⟩ := counters_le_actions ha h
  simp only [attach] at hframes hshown
  constructor <;> omega

structure Orderly (past : List Event) (e : FrontEnd δ ι) : Prop where
  roomy : Roomy e.session
  running : ∀ reason, e.phase ≠ .failing reason
  shown : e.shown = past.countP Event.isDraw
  halts : (past.filterMap Event.told?).count .halt = e.halting.toNat
  halting : e.halting = true → Halting e.session

theorem roomy_move (hr : Roomy e.session) (h : Move e events e') : Roomy e'.session :=
  session_keep (fun hb hr hm => Session.roomy_move hr hm hb) hr h

theorem orderly_move (ho : Orderly past e) (hok : ∀ x ∈ events, x.isFailure = false) (h : Move e events e') :
    Orderly (past ++ events) e' := by
  obtain ⟨hroomy, hrunning, hshown, hhalts, hhalting⟩ := ho
  have hkept (ht : e.halting = true) : Halting e'.session := halting_move (hhalting ht) h
  refine ⟨roomy_move hroomy h, ?_, ?_, ?_, ?_⟩
  · cases h with
    | undrawn | unscanned => exact absurd (hok _ List.mem_cons_self) nofun
    | ran => exact hrunning
    | _ => exact nofun
  · rw [shown_move h, hshown, List.countP_append]
  · rw [List.filterMap_append, List.count_append, hhalts]
    cases h with
    | sent _ hm =>
        rw [told_send hm]
        rfl
    | asked _ hf _ hm =>
        rw [told_send hm, hf]
        rfl
    | failed hp => exact absurd hp (hrunning _)
    | ran hb hm =>
        rw [told_ran hb hm]
        rfl
    | _ => rfl
  · cases h with
    | asked _ _ _ hm => exact fun _ => Session.halting_send hm
    | _ => exact hkept

def Phase.drawsAhead : Phase → Nat
  | .receiving | .drawing _ => 1
  | _ => 0

structure Capped (n : Nat) (e : FrontEnd δ ι) : Prop where
  before : e.halting = false → e.shown + e.phase.drawsAhead ≤ max n 1
  after : e.halting = true → e.shown + e.coming ≤ max n 1 + (backlog + 1)

theorem capped_move {n : Nat} (hn : e.limit = some n) (ho : Orderly past e) (hc : Capped n e)
    (h : Move e events e') : Capped n e' := by
  obtain ⟨hbefore, hafter⟩ := hc
  have hshown := shown_move h
  have hroomy := roomy_move ho.roomy h
  have hkept (ht : e.halting = true) : e'.shown + e'.coming ≤ max n 1 + (backlog + 1) := by
    have hle := coming_move (ho.halting ht) h
    have := hafter ht
    omega
  cases h with
  | asked hp hf _ hm =>
      have hdrawn := hbefore hf
      rw [hp] at hdrawn
      exact ⟨nofun, fun _ => Nat.add_le_add hdrawn (Session.coming_le hroomy)⟩
  | resumed hp hl =>
      refine ⟨fun hf => ?_, hkept⟩
      have hlt : e.shown < n := by
        refine Nat.lt_of_not_le fun hle => ?_
        exact absurd (hl hf) (ne_false_of_eq_true (limitReached_iff.2 ⟨n, hn, hle⟩))
      exact Nat.le_trans hlt (Nat.le_max_left n 1)
  | ran => exact ⟨hbefore, hkept⟩
  | frame hp | drawn hp =>
      refine ⟨fun hf => ?_, hkept⟩
      have hdrawn := hbefore hf
      rw [hp] at hdrawn
      exact hdrawn
  | farewell hp | closed hp | undrawn hp | unchanged hp | changed hp | unscanned hp | sent hp | failed hp | joined hp
  | left hp | gaveUp hp => exact ⟨fun hf => Nat.le_of_add_right_le (hbefore hf), hkept⟩

def Counted (limit : Option Nat) (past : List Event) (e : FrontEnd δ ι) : Prop :=
  (∀ x ∈ past, x.isFailure = false) → Orderly past e ∧ e.limit = limit ∧ ∀ n, limit = some n → Capped n e

theorem counted_move {limit : Option Nat} (hc : Counted limit past e) (h : Move e events e') :
    Counted limit (past ++ events) e' := by
  intro hok
  obtain ⟨horderly, hlimit, hcapped⟩ := hc fun x hx => hok x (List.mem_append_left _ hx)
  refine ⟨orderly_move horderly (fun x hx => hok x (List.mem_append_right _ hx)) h, (limit_move h).trans hlimit, ?_⟩
  intro n hn
  exact capped_move (hlimit.trans hn) horderly (hcapped n hn) h

theorem asked_of_told (hr : ∀ reason, e.phase ≠ .failing reason) (h : Move e events e')
    (ht : .halt ∈ events.filterMap Event.told?) :
    (Input.wantsQuit e.input = true ∨ e.limitReached = true) ∧ e'.phase = .receiving ∧ Halting e'.session := by
  cases h with
  | asked _ _ hc hm => exact ⟨hc, rfl, Session.halting_send hm⟩
  | failed hp => exact absurd hp (hr _)
  | sent _ hm =>
      rw [told_send hm, List.mem_singleton] at ht
      cases ht
  | ran hb hm =>
      rw [told_ran hb hm] at ht
      cases ht
  | _ => cases ht

theorem frame_limit {machine : Machine} {speed : UInt32} {prior : List Session.Action} {earlier : List Session.Event}
    {session : Session} {display : δ} {input : ι} {limit : Option Nat} {before after : List Action} {a : Action}
    {past asked later : List Event} {e t u : FrontEnd δ ι}
    (hs : (Session.start machine speed).2.perform prior = some (earlier, session))
    (hkeep : .abandon ∉ prior) (hstay : .hangUp ∉ prior)
    (he : (attach session display input limit).perform before = some (past, e))
    (ha : e.act a = some (asked, t)) (hu : t.perform after = some (later, u))
    (hok : ∀ x ∈ past ++ asked ++ later, x.isFailure = false) :
    ((past ++ asked ++ later).filterMap Event.told?).count .halt ≤ 1 ∧
      (∀ n, limit = some n → (past ++ asked ++ later).countP Event.isDraw ≤ max n 1 + backlog + 1) ∧
      (.halt ∈ asked.filterMap Event.told? →
        (Input.wantsQuit e.input = true ∨ ∃ n, limit = some n ∧ n ≤ past.countP Event.isDraw) ∧
        later.countP Event.isDraw ≤ backlog + 1) := by
  have hgone := Session.clientsGone_run hs hstay
  have hroomy := (Session.orderly hs hkeep).1
  have hpast (x : Event) (hx : x ∈ past) : x.isFailure = false :=
    hok x (List.mem_append_left _ (List.mem_append_left _ hx))
  have h0 : Counted limit [] (attach session display input limit) := by
    refine fun _ => ⟨⟨hroomy, nofun, rfl, rfl, nofun⟩, rfl, fun n hn => ⟨fun _ => ?_, nofun⟩⟩
    exact (Nat.zero_add 1).trans_le (Nat.le_max_right n 1)
  obtain ⟨hatt, hbefore⟩ := run_induction hgone he h0 counted_move
  have hm := move_of_act hatt ha
  have hatt' := attached_move hatt hm
  obtain ⟨-, hafter⟩ := perform_induction counted_move hatt' (counted_move hbefore hm) hu
  obtain ⟨horderly, hlimit, -⟩ := hbefore hpast
  obtain ⟨hend, -, hcapped⟩ := hafter hok
  refine ⟨?_, ?_, ?_⟩
  · rw [hend.halts]
    exact Bool.toNat_le _
  · intro n hn
    rw [← hend.shown]
    obtain ⟨hwaiting, hhalting⟩ := hcapped n hn
    by_cases hh : u.halting = true
    · exact Nat.le_of_add_right_le (hhalting hh)
    · have := hwaiting (Bool.eq_false_iff.2 hh)
      omega
  · intro htold
    obtain ⟨hcause, hp, hhalting⟩ := asked_of_told horderly.running hm htold
    refine ⟨hcause.imp_right fun hl => ?_, ?_⟩
    · rw [← hlimit, ← horderly.shown]
      exact limitReached_iff.1 hl
    · have hcoming : t.coming ≤ backlog + 1 := by
        rw [coming, hp]
        exact Session.coming_le (roomy_move horderly.roomy hm)
      exact Nat.le_trans (Nat.le_of_add_right_le (coming_perform hatt' hhalting hu)) hcoming

theorem frame_limit_attained :
    let m := { Machine.ofSettings {} (by decide) (.ofSeed 0) with mode := .awaitingKey ⟨5, by decide⟩ }
    let prior : List Session.Action := [.execute, .execute, .execute, .execute, .execute, .timeout]
    let front (s : Session) : FrontEnd Recorder Playback := attach s {} ⟨.released, [], 0, none⟩ (some 1)
    let round : List Action := [.execute, .execute, .execute, .execute, .execute, .timeout]
    let shown : List Action := [.pump, .pump, .pump, .pump]
    let before := [.pump, .pump, .pump] ++ round ++ round ++ round ++ round ++ [.execute]
    let after := [.pump, .pump, .pump, .execute, .execute, .execute, .execute, .pump, .execute, .execute] ++
      shown ++ shown ++ shown ++ shown
    ∃ earlier s past e asked t later u, (Session.start m 1).2.perform prior = some (earlier, s) ∧
      (front s).perform before = some (past, e) ∧ e.act .pump = some (asked, t) ∧ t.perform after = some (later, u) ∧
      .halt ∈ asked.filterMap Event.told? ∧ 1 ≤ past.countP Event.isDraw ∧
      (past ++ asked ++ later).countP Event.isDraw = max 1 1 + backlog + 1 ∧
      ((past ++ asked ++ later).filterMap Event.told?).count .halt ≤ 1 ∧
      later.countP Event.isDraw ≤ backlog + 1 := by
  intro m prior front round shown before after
  have hrun : ((Session.start m 1).2.perform prior).bind (fun p => ((front p.2).perform before).bind fun b =>
      (b.2.act .pump).bind fun c => (c.2.perform after).map fun d =>
        ((b.1 ++ c.1 ++ d.1).all fun x => !x.isFailure, c.1.filterMap Event.told?, b.2.input.wantsQuit,
          (b.1 ++ c.1 ++ d.1).countP Event.isDraw)) = some (true, [.halt], false, 6) := by
    decide +kernel
  obtain ⟨⟨earlier, s⟩, hs, hfront⟩ := Option.bind_eq_some_iff.1 hrun
  obtain ⟨⟨past, e⟩, he, hpump⟩ := Option.bind_eq_some_iff.1 hfront
  obtain ⟨⟨asked, t⟩, ha, hrest⟩ := Option.bind_eq_some_iff.1 hpump
  obtain ⟨⟨later, u⟩, hu, hseen⟩ := Option.map_eq_some_iff.1 hrest
  simp only [Prod.mk.injEq] at hseen
  obtain ⟨hok, hasked, hquit, hdrawn⟩ := hseen
  have hnone (x : Event) (hx : x ∈ past ++ asked ++ later) : x.isFailure = false := by
    have := List.all_eq_true.1 hok x hx
    rwa [Bool.not_eq_true'] at this
  have htold : .halt ∈ asked.filterMap Event.told? := hasked ▸ List.mem_cons_self
  obtain ⟨hone, -, hhalt⟩ := frame_limit hs (by decide) (by decide) he ha hu hnone
  obtain ⟨hcause, hfew⟩ := hhalt htold
  obtain ⟨n, hn, hle⟩ := hcause.resolve_left (ne_true_of_eq_false hquit)
  obtain rfl := Option.some.inj hn
  exact ⟨earlier, s, past, e, asked, t, later, u, hs, he, ha, hu, htold, hle, hdrawn, hone, hfew⟩

end Chip8.FrontEnd
