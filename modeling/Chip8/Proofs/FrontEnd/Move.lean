import Chip8.FrontEnd.Trace
import Chip8.Proofs.Session.Move

namespace Chip8.FrontEnd

variable {δ ι : Type} [Display δ] [Input ι]

def Phase.hasLeft : Phase → Bool
  | .waiting _ | .done _ => true
  | _ => false

def Attached (e : FrontEnd δ ι) : Prop := e.session.clientsGone = e.phase.hasLeft

inductive Move : FrontEnd δ ι → List Event → FrontEnd δ ι → Prop
  | frame {e s f} : e.phase = .receiving → Session.Move e.session .receive [.received (.frame f)] s →
      Move e [.session (.received (.frame f))] { e with session := s, phase := .drawing f }
  | farewell {e s fault} : e.phase = .receiving →
      Session.Move e.session .receive [.received (.halted fault)] s →
      Move e [.session (.received (.halted fault))] { e with session := s, phase := .joining none }
  | closed {e} : e.phase = .receiving → e.session.isClosed = true → Move e [] { e with phase := .joining none }
  | drawn {e f display} : e.phase = .drawing f → Display.draw e.display f = .ok display →
      Move e [.drew f] { e with display, shown := e.shown + 1, phase := .scanning }
  | undrawn {e f reason} : e.phase = .drawing f → Display.draw e.display f = .error reason →
      Move e [.drawFailed reason] { e with phase := .failing reason }
  | unchanged {e input} : e.phase = .scanning → Input.scan e.input = .ok (e.lastKeys, input) →
      Move e [.scanned e.lastKeys] { e with input, phase := .deciding }
  | changed {e keys input} : e.phase = .scanning → Input.scan e.input = .ok (keys, input) → keys ≠ e.lastKeys →
      Move e [.scanned keys] { e with input, phase := .sending keys }
  | unscanned {e reason} : e.phase = .scanning → Input.scan e.input = .error reason →
      Move e [.scanFailed reason] { e with phase := .failing reason }
  | sent {e keys events s} : e.phase = .sending keys →
      Session.Move e.session (.send (.keypad keys)) events s →
      Move e (events.map .session) { e with lastKeys := keys, session := s, phase := .deciding }
  | asked {e events s} : e.phase = .deciding → e.halting = false →
      Input.wantsQuit e.input = true ∨ e.limitReached = true → Session.Move e.session (.send .halt) events s →
      Move e (events.map .session) { e with halting := true, session := s, phase := .receiving }
  | resumed {e} : e.phase = .deciding → (e.halting = false → e.limitReached = false) →
      Move e [] { e with phase := .receiving }
  | failed {e reason events s} : e.phase = .failing reason → Session.Move e.session (.send .halt) events s →
      Move e (events.map .session) { e with session := s, phase := .joining (some reason) }
  | joined {e failure} : e.phase = .joining failure →
      Move e [] { e with session := e.session.hangUp, phase := .waiting failure }
  | left {e failure} : e.phase = .waiting failure → e.session.hasStopped = true →
      Move e [] { e with phase := .done failure }
  | gaveUp {e} : e.phase = .receiving → Move e [] { e with phase := .scanning }
  | ran {e b events s} : b = .execute ∨ b = .timeout → Session.Move e.session b events s →
      Move e (events.map .session) { e with session := s }

variable {e e' : FrontEnd δ ι} {a : Action} {past events : List Event}

theorem move_send {s : Session} (hs : s.clientsGone = false) (c : Command) :
    Session.Move s (.send c) (s.send c).1 (s.send c).2 := by
  refine Session.move_of_act ?_
  simp only [Session.act, hs, Bool.false_eq_true, if_false]

theorem move_of_pump (ha : Attached e) (h : e.pump = some (events, e')) : Move e events e' := by
  unfold pump at h
  split at h
  · next hp =>
      split at h
      · next f s hr =>
          cases h
          exact .frame hp (Session.move_of_act (congrArg (Option.map _) hr))
      · next fault s hr =>
          cases h
          exact .farewell hp (Session.move_of_act (congrArg (Option.map _) hr))
      · split at h
        · next hc =>
            cases h
            exact .closed hp hc
        · cases h
  · next f hp =>
      split at h
      · next reason hd =>
          cases h
          exact .undrawn hp hd
      · next display hd =>
          cases h
          exact .drawn hp hd
  · next hp =>
      split at h
      · next reason hs =>
          cases h
          exact .unscanned hp hs
      · next keys input hs =>
          cases h
          by_cases hk : keys = e.lastKeys
          · subst hk
            rw [if_pos rfl]
            exact .unchanged hp hs
          · rw [if_neg hk]
            exact .changed hp hs hk
  · next keys hp =>
      cases h
      refine .sent hp (move_send ?_ _)
      rw [Attached, hp] at ha
      exact ha
  · next hp =>
      rw [Attached, hp] at ha
      split at h
      · next hc =>
          cases h
          rw [Bool.and_eq_true, Bool.not_eq_true', Bool.or_eq_true] at hc
          exact .asked hp hc.1 hc.2 (move_send ha _)
      · next hc =>
          cases h
          refine .resumed hp fun hh => ?_
          rw [hh, Bool.not_false, Bool.true_and, Bool.or_eq_true, not_or] at hc
          exact Bool.eq_false_iff.2 hc.2
  · next reason hp =>
      cases h
      refine .failed hp (move_send ?_ _)
      rw [Attached, hp] at ha
      exact ha
  · next failure hp =>
      cases h
      exact .joined hp
  · next failure hp =>
      split at h
      · next hc =>
          cases h
          exact .left hp hc
      · cases h
  · cases h

theorem move_of_inSession {b : Session.Action} (hb : b = .execute ∨ b = .timeout)
    (h : e.inSession b = some (events, e')) : Move e events e' := by
  obtain ⟨⟨es, s⟩, hact, he⟩ := Option.map_eq_some_iff.1 h
  cases he
  exact .ran hb (Session.move_of_act hact)

theorem move_of_act (ha : Attached e) (h : e.act a = some (events, e')) : Move e events e' := by
  cases a with
  | pump => exact move_of_pump ha h
  | giveUp =>
      simp only [act] at h
      split at h
      · next hc =>
          cases h
          simp only [canGiveUp, Bool.and_eq_true, beq_iff_eq] at hc
          exact .gaveUp hc.1.1
      · cases h
  | execute => exact move_of_inSession (.inl rfl) h
  | timeout => exact move_of_inSession (.inr rfl) h

theorem attached_move (ha : Attached e) (h : Move e events e') : Attached e' := by
  cases h with
  | frame hp hm | farewell hp hm | sent hp hm | asked hp _ _ hm | failed hp hm =>
      rw [Attached, hp] at ha
      exact (Session.clientsGone_move hm nofun).trans ha
  | ran hb hm => exact (Session.clientsGone_move hm (by rcases hb with rfl | rfl <;> nofun)).trans ha
  | joined => rfl
  | closed hp | drawn hp | undrawn hp | unchanged hp | changed hp | unscanned hp | resumed hp | left hp
  | gaveUp hp =>
      rw [Attached, hp] at ha
      exact ha

theorem filterMap_session (es : List Session.Event) : (es.map Event.session).filterMap Event.session? = es := by
  rw [List.filterMap_map]
  exact List.filterMap_some

theorem session_move (h : Move e events e') :
    (events.filterMap Event.session? = [] ∧ e'.session = e.session) ∨
      ∃ b, b ≠ .abandon ∧ Session.Move e.session b (events.filterMap Event.session?) e'.session := by
  cases h with
  | frame _ hm | farewell _ hm => exact .inr ⟨.receive, nofun, hm⟩
  | sent _ hm | asked _ _ _ hm | failed _ hm =>
      rw [filterMap_session]
      exact .inr ⟨.send _, nofun, hm⟩
  | @ran b _ _ hb hm =>
      rw [filterMap_session]
      exact .inr ⟨b, by rcases hb with rfl | rfl <;> nofun, hm⟩
  | joined => exact .inr ⟨.hangUp, nofun, .hangUp⟩
  | _ => exact .inl ⟨rfl, rfl⟩

theorem lift_move {P : List Session.Event → Session → Prop}
    (hmove : ∀ {past s b events s'}, b ≠ .abandon → P past s → Session.Move s b events s' → P (past ++ events) s')
    (hp : P (past.filterMap Event.session?) e.session) (h : Move e events e') :
    P ((past ++ events).filterMap Event.session?) e'.session := by
  rw [List.filterMap_append]
  obtain ⟨hnone, hs⟩ | ⟨b, hb, hm⟩ := session_move h
  · rw [hnone, hs, List.append_nil]
    exact hp
  · exact hmove hb hp hm

theorem session_keep {P : Session → Prop}
    (hmove : ∀ {s b es s'}, b ≠ .abandon → P s → Session.Move s b es s' → P s') (hp : P e.session)
    (h : Move e events e') : P e'.session := by
  obtain ⟨-, hs⟩ | ⟨b, hb, hm⟩ := session_move h
  · rw [hs]
    exact hp
  · exact hmove hb hp hm

theorem told_send {s s' : Session} {c : Command} {es : List Session.Event} (h : Session.Move s (.send c) es s') :
    (es.map Event.session).filterMap Event.told? = [c] := by
  cases h <;> rfl

theorem told_ran {s s' : Session} {b : Session.Action} {es : List Session.Event} (hb : b = .execute ∨ b = .timeout)
    (h : Session.Move s b es s') : (es.map Event.session).filterMap Event.told? = [] := by
  rcases hb with rfl | rfl <;> cases h <;> rfl

theorem exists_of_perform_cons {actions : List Action} (h : e.perform (a :: actions) = some (events, e')) :
    ∃ first t more, e.act a = some (first, t) ∧ t.perform actions = some (more, e') ∧ events = first ++ more := by
  obtain ⟨⟨first, t⟩, ha, hrest⟩ := Option.bind_eq_some_iff.1 h
  obtain ⟨⟨more, u⟩, hp, he⟩ := Option.map_eq_some_iff.1 hrest
  cases he
  exact ⟨first, t, more, ha, hp, rfl⟩

theorem perform_induction {P : List Event → FrontEnd δ ι → Prop} {actions : List Action}
    (hmove : ∀ {past e events e'}, P past e → Move e events e' → P (past ++ events) e')
    (ha : Attached e) (h0 : P past e) (h : e.perform actions = some (events, e')) :
    Attached e' ∧ P (past ++ events) e' := by
  induction actions generalizing past e events with
  | nil =>
      cases h
      rw [List.append_nil]
      exact ⟨ha, h0⟩
  | cons a actions ih =>
      obtain ⟨first, t, more, hact, hp, rfl⟩ := exists_of_perform_cons h
      have hm := move_of_act ha hact
      rw [← List.append_assoc]
      exact ih (attached_move ha hm) (hmove h0 hm) hp

theorem run_induction {P : List Event → FrontEnd δ ι → Prop} {session : Session} {display : δ} {input : ι}
    {limit : Option Nat} {actions : List Action} (hs : session.clientsGone = false)
    (h : (attach session display input limit).perform actions = some (events, e))
    (h0 : P [] (attach session display input limit))
    (hmove : ∀ {past e events e'}, P past e → Move e events e' → P (past ++ events) e') :
    Attached e ∧ P events e := by
  have ha : Attached (attach session display input limit) := hs
  exact perform_induction hmove ha h0 h

end Chip8.FrontEnd
