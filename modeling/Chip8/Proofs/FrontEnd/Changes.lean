import Chip8.Proofs.FrontEnd.Move
import Chip8.Proofs.Repeats
import Chip8.Proofs.Session.Move
import Chip8.Proofs.Session.Queues

namespace Chip8.Session

variable {s s' : Session} {a : Action} {told : List Command} {past events : List Event}

theorem told_running (h : Move s a events s') (hs : s.phase ≠ .stopped) :
    events.filterMap Event.told? = events.filterMap Event.sent? := by
  cases h with
  | lose hp => exact absurd hp hs
  | _ => rfl

structure Queued (past : List Event) (s : Session) : Prop where
  taken : past.filterMap Event.handled? ++ s.inbox <+: past.filterMap Event.told?
  all : s.phase ≠ .stopped → past.filterMap Event.handled? ++ s.inbox = past.filterMap Event.told?

theorem queued_move (hq : Queued past s) (h : Move s a events s') : Queued (past ++ events) s' := by
  obtain ⟨htaken, hall⟩ := hq
  have hinbox : (past ++ events).filterMap Event.handled? ++ s'.inbox =
      past.filterMap Event.handled? ++ s.inbox ++ events.filterMap Event.sent? := by
    rw [List.filterMap_append, List.append_assoc, ← inbox_move h, List.append_assoc]
  by_cases hs : s.phase = .stopped
  · obtain ⟨hstopped, -, hnone⟩ := stopped_move h hs
    refine ⟨?_, fun hr => absurd hstopped hr⟩
    rw [hinbox, hnone, List.append_nil, List.filterMap_append]
    exact htaken.trans (List.prefix_append _ _)
  · have heq : (past ++ events).filterMap Event.handled? ++ s'.inbox = (past ++ events).filterMap Event.told? := by
      rw [hinbox, hall hs, List.filterMap_append, told_running h hs]
    exact ⟨heq ▸ List.prefix_rfl, fun _ => heq⟩

theorem snapshots_calls (events : List Event) :
    Machine.snapshots (calls events) = (events.filterMap Event.handled?).filterMap Command.snapshot? := by
  rw [Machine.snapshots, calls, List.filterMap_filterMap, List.filterMap_filterMap]
  refine List.filterMap_congr fun x _ => ?_
  cases x with
  | handled c => cases c <;> rfl
  | _ => rfl

end Chip8.Session

namespace Chip8.FrontEnd

variable {δ ι : Type} {e e' : FrontEnd δ ι} {past events : List Event}

theorem toldKeypads_append (past events : List Event) :
    toldKeypads (past ++ events) = toldKeypads past ++ toldKeypads events := by
  rw [toldKeypads, List.filterMap_append, List.filterMap_append]
  rfl

theorem toldKeypads_send {s s' : Session} {c : Command} {es : List Session.Event}
    (h : Session.Move s (.send c) es s') : toldKeypads (es.map .session) = c.snapshot?.toList := by
  rw [toldKeypads, told_send h]
  cases c <;> rfl

theorem toldKeypads_ran {s s' : Session} {b : Session.Action} {es : List Session.Event}
    (hb : b = .execute ∨ b = .timeout) (h : Session.Move s b es s') : toldKeypads (es.map .session) = [] := by
  rw [toldKeypads, told_ran hb h]
  rfl

theorem filterMap_scanned_session (es : List Session.Event) :
    (es.map Event.session).filterMap Event.scanned? = [] := by
  rw [List.filterMap_map]
  exact List.filterMap_eq_nil_iff.2 fun _ _ => rfl

structure Compared (past : List Event) (e : FrontEnd δ ι) : Prop where
  told : toldKeypads past ++ e.phase.pending = Keypad.released.changes (past.filterMap Event.scanned?)
  last : e.phase.pending.getLastD e.lastKeys = (past.filterMap Event.scanned?).getLastD .released

theorem Compared.keep (hc : Compared past e) (htold : toldKeypads events = [])
    (hscanned : events.filterMap Event.scanned? = []) (hp : e'.phase.pending = e.phase.pending)
    (hl : e'.lastKeys = e.lastKeys) : Compared (past ++ events) e' := by
  obtain ⟨ht, hlast⟩ := hc
  refine ⟨?_, ?_⟩
  · rw [toldKeypads_append, htold, List.append_nil, hp, ht, List.filterMap_append, hscanned, List.append_nil]
  · rw [hp, hl, hlast, List.filterMap_append, hscanned, List.append_nil]

theorem Compared.scan {keys : Keypad} (hc : Compared past e) (hp : e.phase.pending = [])
    (hp' : e'.phase.pending = if keys = e.lastKeys then [] else [keys]) (hl : e'.lastKeys = e.lastKeys) :
    Compared (past ++ [.scanned keys]) e' := by
  obtain ⟨ht, hlast⟩ := hc
  rw [hp] at ht hlast
  rw [List.append_nil] at ht
  have htold : toldKeypads (past ++ [.scanned keys]) = toldKeypads past :=
    (toldKeypads_append ..).trans (List.append_nil _)
  have hscans : (past ++ [Event.scanned keys]).filterMap Event.scanned? = past.filterMap Event.scanned? ++ [keys] :=
    List.filterMap_append
  have hlast' : e.lastKeys = (past.filterMap Event.scanned?).getLastD .released := hlast
  refine ⟨?_, ?_⟩
  · rw [htold, hp', hscans, Keypad.changes_concat, hlast', ht]
  · rw [hp', hl, hscans, List.getLastD_concat]
    split
    · next hk => exact hk.symm
    · rfl

theorem handledKeypads_le (hq : Session.Queued (events.filterMap Event.session?) e.session) :
    handledKeypads events <+: toldKeypads events := by
  have htold : (events.filterMap Event.session?).filterMap Session.Event.told? = events.filterMap Event.told? :=
    List.filterMap_filterMap
  have htaken := (List.prefix_append _ _).trans hq.taken
  rw [htold] at htaken
  exact htaken.filterMap _

variable [Display δ] [Input ι]

theorem compared_move (hc : Compared past e) (h : Move e events e') : Compared (past ++ events) e' := by
  cases h with
  | unchanged hp =>
      refine hc.scan ?_ (if_pos rfl).symm rfl
      rw [hp]
      rfl
  | changed hp _ hne =>
      refine hc.scan ?_ (if_neg hne).symm rfl
      rw [hp]
      rfl
  | sent hp hm =>
      obtain ⟨ht, hlast⟩ := hc
      rw [hp] at ht hlast
      refine ⟨?_, ?_⟩
      · rw [toldKeypads_append, toldKeypads_send hm, List.filterMap_append, filterMap_scanned_session,
          List.append_nil, ← ht]
        exact List.append_nil _
      · rw [List.filterMap_append, filterMap_scanned_session, List.append_nil, ← hlast]
        rfl
  | asked hp _ _ hm | failed hp hm =>
      refine hc.keep (toldKeypads_send hm) (filterMap_scanned_session _) ?_ rfl
      rw [hp]
      rfl
  | ran hb hm => exact hc.keep (toldKeypads_ran hb hm) (filterMap_scanned_session _) rfl rfl
  | frame hp | farewell hp | closed hp | drawn hp | undrawn hp | unscanned hp | resumed hp | joined hp | left hp
  | gaveUp hp =>
      refine hc.keep rfl rfl ?_ rfl
      rw [hp]
      rfl

structure Relayed (machine : Machine) (past : List Event) (e : FrontEnd δ ι) : Prop where
  called : Session.Called machine (past.filterMap Event.session?) e.session.machine
  queued : Session.Queued (past.filterMap Event.session?) e.session
  compared : Compared past e

theorem relayed_move {machine : Machine} (hr : Relayed machine past e) (h : Move e events e') :
    Relayed machine (past ++ events) e' := by
  obtain ⟨hcalled, hqueued, hcompared⟩ := hr
  refine ⟨?_, ?_, compared_move hcompared h⟩
  · exact lift_move (P := fun past s => Session.Called machine past s.machine)
      (fun _ hp hm => hp.append (Session.called_move hm)) hcalled h
  · exact lift_move (fun _ hp hm => Session.queued_move hp hm) hqueued h

theorem changed_keypads_lose_nothing {machine : Machine} {speed : UInt32} {display : δ} {input : ι}
    {limit : Option Nat} {actions : List Action} (hm : machine.keypad = .released)
    (h : (attach (Session.start machine speed).2 display input limit).perform actions = some (events, e)) :
    (∀ es : List Machine.Event,
      (∀ fs, fs <+: es →
        Machine.withoutRepeats .released fs <+: Machine.withoutRepeats .released es ∧
          machine.after (Machine.withoutRepeats .released fs) = machine.after fs) ∧
      Machine.snapshots (Machine.withoutRepeats .released es) = Keypad.released.changes (Machine.snapshots es) ∧
      (machine.answers (Machine.withoutRepeats .released es)).filter (· ≠ .sensed none) =
        (machine.answers es).filter (· ≠ .sensed none)) ∧
    toldKeypads events ++ e.phase.pending = Keypad.released.changes (events.filterMap Event.scanned?) ∧
    ∃ es : List Machine.Event,
      Session.calls (events.filterMap Event.session?) = Machine.withoutRepeats .released es ∧
      Machine.snapshots es <+: events.filterMap Event.scanned? ∧
      e.session.machine = machine.after es ∧
      (events.filterMap Event.session?).filterMap Session.Event.produced? =
        (machine.answers es).filterMap Machine.Answer.frame? ∧
      (handledKeypads events = toldKeypads events → e.phase.pending = [] →
        Machine.snapshots es = events.filterMap Event.scanned? ∧
        e.session.machine.keypad = (events.filterMap Event.scanned?).getLastD .released) := by
  have h0 : Relayed machine [] (attach (Session.start machine speed).2 display input limit) :=
    ⟨⟨rfl, rfl, rfl⟩, ⟨List.prefix_rfl, fun _ => rfl⟩, ⟨rfl, rfl⟩⟩
  obtain ⟨-, hcalled, hqueued, hcompared⟩ := run_induction rfl h h0 relayed_move
  have hseen : Machine.snapshots (Session.calls (events.filterMap Event.session?)) <+:
      Keypad.released.changes (events.filterMap Event.scanned?) := by
    rw [← hcompared.told, Session.snapshots_calls]
    exact (handledKeypads_le hqueued).trans (List.prefix_append _ _)
  refine ⟨fun es => ⟨fun fs hfs => ⟨Machine.withoutRepeats_mono _ hfs, ?_⟩, ?_, ?_⟩, hcompared.told, ?_⟩
  · rw [← hm, Machine.after_withoutRepeats]
  · exact Machine.snapshots_withoutRepeats _ es
  · rw [← hm, ← List.filterMap_eq_filter, Machine.answers_withoutRepeats rfl]
  · -- what the executor has taken may be short of the scans, so the repeats go back in only as far as it has come
    obtain ⟨es, hthinned, hsnapshots, hall⟩ := Machine.exists_restores hseen
    have hafter : e.session.machine = machine.after es := by
      rw [hcalled.machine, ← hthinned, ← hm, Machine.after_withoutRepeats]
    refine ⟨es, hthinned.symm, hsnapshots, hafter, ?_, fun hhandled hp => ?_⟩
    · rw [hcalled.frames, ← hthinned, ← hm, Machine.answers_withoutRepeats rfl]
    · have hscans : Machine.snapshots es = events.filterMap Event.scanned? := by
        refine hall ?_
        rw [Session.snapshots_calls, ← hcompared.told, hp, List.append_nil]
        exact hhandled
      refine ⟨hscans, ?_⟩
      rw [hafter, Machine.keypad_after, hm, Machine.latest, hscans]

theorem changed_keypads_lose_nothing_repeated :
    let m := { Machine.ofSettings {} (by decide) (.ofSeed 0) with mode := .awaitingKey ⟨5, by decide⟩ }
    let held := Keypad.ofKeys [3]
    let front : FrontEnd Recorder Playback := attach (Session.start m 1).2 {} ⟨.released, [held, held], 0, none⟩ none
    let look : List Action := [.giveUp, .pump, .pump]
    ∃ events e, front.perform (look ++ look ++ [.pump] ++ look ++ [.execute]) = some (events, e) ∧
      events.filterMap Event.scanned? = [.released, held, held] ∧ toldKeypads events = [held] ∧
      (∃ es, Machine.snapshots es = [.released, held, held] ∧ e.session.machine = m.after es) ∧
      e.session.machine.keypad = held := by
  intro m held front look
  have hrun : (front.perform (look ++ look ++ [.pump] ++ look ++ [.execute])).map (fun r =>
      (r.1.filterMap Event.scanned?, toldKeypads r.1, handledKeypads r.1, r.2.phase.pending)) =
      some ([.released, held, held], [held], [held], []) := by
    decide +kernel
  obtain ⟨⟨events, e⟩, h, hseen⟩ := Option.map_eq_some_iff.1 hrun
  simp only [Prod.mk.injEq] at hseen
  obtain ⟨hscanned, htold, hhandled, hp⟩ := hseen
  obtain ⟨-, -, es, -, -, hafter, -, hall⟩ := changed_keypads_lose_nothing rfl h
  obtain ⟨hes, hkeypad⟩ := hall (hhandled.trans htold.symm) hp
  rw [hscanned] at hes hkeypad
  exact ⟨events, e, h, hscanned, htold, ⟨es, hes, hafter⟩, hkeypad⟩

end Chip8.FrontEnd
