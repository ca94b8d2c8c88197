import Chip8.Machine.Event
import Chip8.Proofs.Waiting

namespace Chip8

namespace Keypad

variable {p q : Keypad} {ps : List Keypad}

theorem changes_self (p : Keypad) (ps : List Keypad) : p.changes (p :: ps) = p.changes ps := if_pos rfl

theorem changes_cons (h : q ≠ p) (ps : List Keypad) : p.changes (q :: ps) = q :: q.changes ps := if_neg h

theorem changes_concat (p : Keypad) (ps : List Keypad) (q : Keypad) :
    p.changes (ps ++ [q]) = p.changes ps ++ if q = ps.getLastD p then [] else [q] := by
  induction ps generalizing p with
  | nil => rfl
  | cons r ps ih =>
      rw [List.cons_append, List.getLastD_cons]
      by_cases hr : r = p
      · subst hr
        rw [changes_self, changes_self, ih]
      · rw [changes_cons hr, changes_cons hr, ih, List.cons_append]

end Keypad

namespace Machine

variable {m : Machine} {p : Keypad} {ps : List Keypad} {e : Event} {es fs : List Event}

theorem keypad_step (m : Machine) : m.step.2.keypad = m.keypad := by
  obtain ⟨x, -, hs⟩ | ⟨-, e, -, hs⟩ | ⟨-, w, c, -, -, hs⟩ | ⟨-, w, flow, s, -, he, hs⟩ := m.step_cases
  · rw [hs]
  · rw [hs]
  · rw [hs]
  · rw [hs]
    cases flow <;> exact (frame_execute he).keypad

theorem keypad_sense (m : Machine) (now : Keypad) : (m.sense now).2.keypad = now := by
  unfold sense
  split <;> rfl

theorem sense_self (m : Machine) : m.sense m.keypad = (none, m) := sense_stale m.keypad.freshKey?_self

theorem keypad_after (m : Machine) (es : List Event) : (m.after es).keypad = latest m.keypad es := by
  induction es generalizing m with
  | nil => rfl
  | cons e es ih =>
      cases e with
      | step => exact (ih _).trans (congrArg (latest · es) m.keypad_step)
      | interrupt => exact ih _
      | sense now =>
          refine (ih _).trans ?_
          rw [respond, keypad_sense]
          exact (List.getLastD_cons).symm

theorem withoutRepeats_self (p : Keypad) (es : List Event) :
    withoutRepeats p (.sense p :: es) = withoutRepeats p es := if_pos rfl

theorem withoutRepeats_sense {now : Keypad} (h : now ≠ p) (es : List Event) :
    withoutRepeats p (.sense now :: es) = .sense now :: withoutRepeats now es := if_neg h

theorem withoutRepeats_append (p : Keypad) (es fs : List Event) :
    withoutRepeats p (es ++ fs) = withoutRepeats p es ++ withoutRepeats (latest p es) fs := by
  induction es generalizing p with
  | nil => rfl
  | cons e es ih =>
      cases e with
      | step | interrupt => exact congrArg _ (ih p)
      | sense now =>
          have hl : latest p (.sense now :: es) = latest now es := List.getLastD_cons
          rw [List.cons_append, hl]
          by_cases hn : now = p
          · subst hn
            rw [withoutRepeats_self, withoutRepeats_self, ih]
          · rw [withoutRepeats_sense hn, withoutRepeats_sense hn, ih, List.cons_append]

theorem withoutRepeats_mono (p : Keypad) (h : es <+: fs) : withoutRepeats p es <+: withoutRepeats p fs := by
  obtain ⟨more, rfl⟩ := h
  rw [withoutRepeats_append]
  exact List.prefix_append _ _

theorem snapshots_withoutRepeats (p : Keypad) (es : List Event) :
    snapshots (withoutRepeats p es) = p.changes (snapshots es) := by
  induction es generalizing p with
  | nil => rfl
  | cons e es ih =>
      cases e with
      | step | interrupt => exact ih p
      | sense now =>
          have hs : snapshots (.sense now :: es) = now :: snapshots es := rfl
          rw [hs]
          by_cases hn : now = p
          · subst hn
            rw [withoutRepeats_self, Keypad.changes_self, ih]
          · rw [withoutRepeats_sense hn, Keypad.changes_cons hn, ← ih now]
            rfl

theorem withoutRepeats_respond (he : e ≠ .sense m.keypad) (es : List Event) :
    withoutRepeats m.keypad (e :: es) = e :: withoutRepeats (m.respond e).2.keypad es := by
  cases e with
  | step => exact congrArg (.step :: withoutRepeats · es) m.keypad_step.symm
  | interrupt => rfl
  | sense now =>
      have hn : now ≠ m.keypad := fun h => he (congrArg _ h)
      rw [withoutRepeats_sense hn, respond, keypad_sense]

theorem after_withoutRepeats (m : Machine) (es : List Event) :
    m.after (withoutRepeats m.keypad es) = m.after es := by
  induction es generalizing m with
  | nil => rfl
  | cons e es ih =>
      by_cases he : e = .sense m.keypad
      · subst he
        rw [withoutRepeats_self, ih, after, respond, sense_self]
      · rw [withoutRepeats_respond he]
        exact ih _

theorem answers_withoutRepeats {α : Type} {g : Answer → Option α} (hg : g (.sensed none) = none) (m : Machine)
    (es : List Event) :
    (m.answers (withoutRepeats m.keypad es)).filterMap g = (m.answers es).filterMap g := by
  induction es generalizing m with
  | nil => rfl
  | cons e es ih =>
      by_cases he : e = .sense m.keypad
      · subst he
        rw [withoutRepeats_self, ih, answers, respond, sense_self, List.filterMap_cons_none hg]
      · rw [withoutRepeats_respond he, answers, answers, List.filterMap_cons, List.filterMap_cons, ih]

structure Restores (p : Keypad) (ps : List Keypad) (fs es : List Event) : Prop where
  thinned : withoutRepeats p es = fs
  seen : snapshots es <+: ps
  all : snapshots fs = p.changes ps → snapshots es = ps

theorem Restores.cons_self (h : Restores p ps fs es) : Restores p (p :: ps) fs (.sense p :: es) := by
  obtain ⟨hthinned, hseen, hall⟩ := h
  refine ⟨(withoutRepeats_self p es).trans hthinned, List.cons_prefix_cons.2 ⟨rfl, hseen⟩, ?_⟩
  rw [Keypad.changes_self]
  exact fun hf => congrArg _ (hall hf)

theorem Restores.cons_sense {now : Keypad} (hn : now ≠ p) (h : Restores now ps fs es) :
    Restores p (now :: ps) (.sense now :: fs) (.sense now :: es) := by
  obtain ⟨hthinned, hseen, hall⟩ := h
  refine ⟨?_, List.cons_prefix_cons.2 ⟨rfl, hseen⟩, ?_⟩
  · rw [withoutRepeats_sense hn, hthinned]
  · rw [Keypad.changes_cons hn]
    exact fun hf => congrArg _ (hall (List.cons.inj hf).2)

theorem exists_restores (h : snapshots fs <+: p.changes ps) : ∃ es, Restores p ps fs es := by
  induction fs generalizing p ps with
  | nil =>
      induction ps with
      | nil => exact ⟨[], rfl, List.prefix_rfl, fun _ => rfl⟩
      | cons q ps ih =>
          by_cases hq : q = p
          · subst hq
            obtain ⟨es, hes⟩ := ih (List.nil_prefix)
            exact ⟨_, hes.cons_self⟩
          · refine ⟨[], rfl, List.nil_prefix, fun hf => ?_⟩
            rw [Keypad.changes_cons hq] at hf
            cases hf
  | cons f fs ih =>
      cases f with
      | step =>
          obtain ⟨es, hthinned, hseen, hall⟩ := ih h
          exact ⟨.step :: es, congrArg _ hthinned, hseen, hall⟩
      | interrupt =>
          obtain ⟨es, hthinned, hseen, hall⟩ := ih h
          exact ⟨.interrupt :: es, congrArg _ hthinned, hseen, hall⟩
      | sense now =>
          induction ps with
          | nil => cases List.prefix_nil.1 h
          | cons q ps ihq =>
              by_cases hq : q = p
              · subst hq
                rw [Keypad.changes_self] at h
                obtain ⟨es, hes⟩ := ihq h
                exact ⟨_, hes.cons_self⟩
              · rw [Keypad.changes_cons hq] at h
                obtain ⟨rfl, hrest⟩ := List.cons_prefix_cons.1 h
                obtain ⟨es, hes⟩ := ih hrest
                exact ⟨_, hes.cons_sense hq⟩

end Machine

end Chip8
