import Chip8.Proofs.Session.Move
import Chip8.Session.Trace
import Mathlib.Order.Monotone.Basic
import Mathlib.Data.List.NodupEquivFin

namespace Chip8

namespace Pacer

variable {now time start k i j : Nat} {c : Pacer} {ticks : List Nat}

theorem Ticks.le_of_mem (h : Ticks now c ticks) : ∀ t ∈ ticks, now ≤ t := by
  induction h with
  | nil => nofun
  | cons resumed reading htick hresumed _ hreading _ ih =>
      intro t ht
      rcases List.mem_cons.1 ht with rfl | ht
      · exact htick
      · have := ih t ht
        omega

theorem Ticks.of_le (h : Ticks time c ticks) (hle : now ≤ time) : Ticks now c ticks := by
  cases h with
  | nil => exact .nil
  | cons resumed reading htick hresumed hdeadline hreading hrest =>
      exact .cons resumed reading (Nat.le_trans hle htick) hresumed hdeadline hreading hrest

theorem Ticks.deadline_le (h : Ticks now c ticks) (hk : k + 1 < ticks.length) :
    c.deadline + k * c.period ≤ ticks[k + 1] := by
  induction h generalizing k with
  | nil => cases hk
  | @cons now c tick ticks resumed reading _ _ hdeadline hreading hrest ih =>
      have hk : k < ticks.length := Nat.lt_of_succ_lt_succ hk
      show c.deadline + k * c.period ≤ ticks[k]
      cases k with
      | zero =>
          have := hrest.le_of_mem _ (List.getElem_mem hk)
          omega
      | succ k =>
          have hlater := ih hk
          obtain ⟨hstep, -⟩ := c.deadline_advance_ge reading
          rw [period_advance] at hlater
          rw [Nat.succ_mul]
          omega

theorem Ticks.start_le (h : Ticks start (.mk c.period (start + c.period)) ticks) (hk : k < ticks.length) :
    start + k * c.period ≤ ticks[k] := by
  cases k with
  | zero =>
      rw [Nat.zero_mul]
      exact h.le_of_mem _ (List.getElem_mem hk)
  | succ k =>
      have : start + c.period + k * c.period ≤ ticks[k + 1] := h.deadline_le hk
      rw [Nat.succ_mul]
      omega

theorem Ticks.apart (h : Ticks now c ticks) (hij : i < j) (hj : j < ticks.length) :
    ticks[i] ≤ ticks[j] ∧ ticks[i] + (j - i - 2) * c.period ≤ ticks[j] := by
  induction h generalizing i j with
  | nil => cases hj
  | @cons now c tick ticks resumed reading _ hresumed _ hreading hrest ih =>
      obtain ⟨j, rfl⟩ := Nat.exists_eq_succ_of_ne_zero (Nat.ne_zero_of_lt hij)
      have hj : j < ticks.length := Nat.lt_of_succ_lt_succ hj
      cases i with
      | succ i =>
          obtain ⟨hle, hapart⟩ := ih (Nat.lt_of_succ_lt_succ hij) hj
          rw [Nat.succ_sub_succ]
          exact ⟨hle, hapart⟩
      | zero =>
          -- The next tick may follow at once; those after it wait for a deadline that this round has set.
          have hnext : reading ≤ ticks[j] := hrest.le_of_mem _ (List.getElem_mem hj)
          show tick ≤ ticks[j] ∧ tick + (j + 1 - 0 - 2) * c.period ≤ ticks[j]
          cases j with
          | zero =>
              rw [Nat.zero_mul]
              omega
          | succ j =>
              have hlater := hrest.deadline_le hj
              obtain ⟨-, hset⟩ := c.deadline_advance_ge reading
              rw [period_advance] at hlater
              rw [Nat.sub_zero, show j + 1 + 1 - 2 = j by omega]
              omega

theorem countP_window_le {P : Nat} (hP : 0 < P)
    (hapart : ∀ i j (_ : i < j) (hj : j < ticks.length), ticks[i] + (j - i - 2) * P ≤ ticks[j]) (low len : Nat) :
    ticks.countP (fun t => low ≤ t ∧ t ≤ low + len) ≤ len / P + 3 := by
  rw [List.countP_eq_length_filter]
  generalize hinside : ticks.filter (fun t => low ≤ t ∧ t ≤ low + len) = inside
  have hwindow : ∀ t ∈ inside, low ≤ t ∧ t ≤ low + len := by
    intro t ht
    rw [← hinside, List.mem_filter, decide_eq_true_iff] at ht
    exact ht.2
  by_cases hfew : inside.length ≤ 3
  · exact Nat.le_trans hfew (Nat.le_add_left _ _)
  · have hfirst : 0 < inside.length := by omega
    have hlast : inside.length - 1 < inside.length := by omega
    obtain ⟨place, hplace⟩ := List.sublist_iff_exists_orderEmbedding_getElem?_eq.1 (hinside ▸ List.filter_sublist)
    obtain ⟨hi, hti⟩ := List.getElem?_eq_some_iff.1 ((hplace 0).symm.trans (List.getElem?_eq_getElem hfirst))
    obtain ⟨hj, htj⟩ := List.getElem?_eq_some_iff.1 ((hplace _).symm.trans (List.getElem?_eq_getElem hlast))
    have hspread : inside.length - 1 + place 0 ≤ place (inside.length - 1) :=
      place.strictMono.add_le_nat (inside.length - 1) 0
    have hfar := hapart (place 0) (place (inside.length - 1)) (by omega) hj
    rw [hti, htj] at hfar
    obtain ⟨hlow, -⟩ := hwindow _ (List.getElem_mem hfirst)
    obtain ⟨-, hhigh⟩ := hwindow _ (List.getElem_mem hlast)
    have hperiods : (inside.length - 3) * P ≤ (place (inside.length - 1) - place 0 - 2) * P :=
      Nat.mul_le_mul_right P (by omega)
    have : inside.length - 3 ≤ len / P := (Nat.le_div_iff_mul_le hP).2 (by omega)
    omega

end Pacer

namespace Session

open Pacer

variable {now time : Nat} {c : Pacer} {ticks : List Nat} {s : Session} {events : List Event} {log : List (Nat × Event)}

def Phase.Paced (now : Nat) (c : Pacer) (ticks : List Nat) : Phase → Prop
  | .draining | .stepping _ | .interrupting => Ticks now c ticks
  | .offering _ | .publishing _ | .pacing => ∀ tick ≤ now, Ticks tick c (tick :: ticks)
  | .stopping | .stopped => ticks = []

theorem Phase.paced_nil (now : Nat) (c : Pacer) (p : Phase) : p.Paced now c [] := by
  have hlast : ∀ tick, Ticks tick c [tick] := fun tick =>
    .cons _ _ (Nat.le_refl _) (Nat.le_max_left _ _) (Nat.le_max_right _ c.deadline) (Nat.le_refl _) .nil
  cases p with
  | draining | stepping | interrupting => exact .nil
  | offering | publishing | pacing => exact fun tick _ => hlast tick
  | stopping | stopped => rfl

theorem Phase.Paced.of_le {p : Phase} (h : p.Paced time c ticks) (hle : now ≤ time) : p.Paced now c ticks := by
  cases p with
  | draining | stepping | interrupting => exact Ticks.of_le h hle
  | offering | publishing | pacing => exact fun tick ht => h tick (Nat.le_trans ht hle)
  | stopping | stopped => exact h

theorem tickTimes_append (time : Nat) (events : List Event) (later : List (Nat × Event)) :
    tickTimes (events.map (time, ·) ++ later) =
      (events.filterMap Event.produced?).map (fun _ => time) ++ tickTimes later := by
  rw [tickTimes, List.filterMap_append, List.filterMap_map, List.map_filterMap]
  rfl

theorem paced_of_clocked (h : Clocked now c s log) : s.phase.Paced now c (tickTimes log) := by
  induction h with
  | nil => exact Phase.paced_nil _ _ _
  | @act now c s events s' later time a hle ha hact _ ih =>
      rw [tickTimes_append]
      cases move_of_act hact with
      | timeout => exact absurd rfl ha
      | take | send | lose | hangUp | receive | abandon => exact ih.of_le hle
      | halt | deserted | faulted | refused =>
          have hnone : tickTimes later = [] := ih
          rw [hnone]
          exact Phase.paced_nil _ _ _
      | drained hp | spent hp | executed hp | waiting hp | offered hp | dropped hp | published hp =>
          rw [hp]
          exact ih.of_le hle
      | interrupted hp =>
          rw [hp]
          exact Ticks.of_le (ih time (Nat.le_refl _)) hle
      | halted hp | unheard hp =>
          rw [hp]
          exact ih
  | @timeout now c s events s' later resumed reading hle hdeadline hreading hact _ ih =>
      rw [tickTimes_append]
      cases move_of_act hact with
      | timeout hp =>
          rw [hp]
          exact fun tick ht => .cons resumed reading (Nat.le_refl _) (Nat.le_trans ht hle) hdeadline hreading ih

theorem ticks_never_burst (rate : UInt32) (start : Nat) (hp : 0 < (Pacer.start rate start).period) :
    let c := Pacer.start rate start
    (∀ (d : Pacer) (reading : Nat),
        d.deadline + d.period ≤ (d.advance reading).deadline ∧ reading ≤ (d.advance reading).deadline ∧
          ((d.advance reading).deadline = d.deadline + d.period ↔ reading ≤ d.deadline + d.period)) ∧
      (∀ ticks, Ticks start c ticks →
        (∀ k (hk : k < ticks.length), start + k * c.period ≤ ticks[k]) ∧
          (∀ i j (_ : i < j) (hj : j < ticks.length),
            ticks[i] ≤ ticks[j] ∧ ticks[i] + (j - i - 2) * c.period ≤ ticks[j]) ∧
          ∀ low len, ticks.countP (fun t => low ≤ t ∧ t ≤ low + len) ≤ len / c.period + 3) ∧
      ∀ machine speed log, Clocked start c (Session.start machine speed).2 log → Ticks start c (tickTimes log) := by
  intro c
  refine ⟨?_, ?_, ?_⟩
  · intro d reading
    obtain ⟨hstep, hset⟩ := d.deadline_advance_ge reading
    exact ⟨hstep, hset, d.deadline_advance_eq_iff reading⟩
  · intro ticks h
    refine ⟨fun k hk => h.start_le hk, fun i j hij hj => h.apart hij hj, ?_⟩
    exact countP_window_le hp fun i j hij hj => (h.apart hij hj).2
  · intro machine speed log h
    exact paced_of_clocked h

theorem ticks_never_burst_three_at_once :
    let c := Pacer.start 60 0
    let ticks := [33333332, 33333332, 33333332, 50000000]
    let m := { Machine.ofSettings {} (by decide) (.ofSeed 0) with mode := .awaitingKey .zero }
    let log : List (Nat × Event) :=
      [(1, .stepped .waiting), (5, .produced m.screen), (7, .published (.frame m.screen)),
        (18000000, .stepped .waiting), (20000000, .produced m.screen)]
    (Ticks 0 c ticks ∧ ticks[0] + (3 - 0 - 2) * c.period ≤ ticks[3]) ∧
      Clocked 0 c (Session.start m 1).2 log ∧ Ticks 0 c [5, 20000000] := by
  intro c ticks m log
  obtain ⟨-, hspaced, hclocked⟩ := ticks_never_burst 60 0 (by decide)
  constructor
  · have hticks : Ticks 0 c ticks := by
      refine .cons 33333332 33333332 (by decide) (by decide) (by decide) (by decide) ?_
      refine .cons 33333332 33333332 (by decide) (by decide) (by decide) (by decide) ?_
      refine .cons 49999998 49999998 (by decide) (by decide) (by decide) (by decide) ?_
      exact .cons 66666664 66666664 (by decide) (by decide) (by decide) (by decide) .nil
    obtain ⟨-, hapart, -⟩ := hspaced ticks hticks
    exact ⟨hticks, (hapart 0 3 (by decide) (by decide)).2⟩
  · let s (p : Phase) (frames : Nat) (outbox : List Output) : Session :=
      { (Session.start m 1).2 with phase := p, frames, outbox }
    let sent : List Output := [.frame m.screen]
    let late := 18000000
    have hrun : Clocked 0 c (s .draining 0 []) log := by
      refine @Clocked.act 0 c _ [] (s (.stepping 1) 0 []) _ 1 .execute (by decide) nofun rfl ?_
      refine @Clocked.act 1 c _ [.stepped .waiting] (s .interrupting 0 []) _ 1 .execute (by decide) nofun rfl ?_
      refine @Clocked.act 1 c _ [.produced m.screen] (s (.offering m.screen) 1 []) _ 5 .execute (by decide) nofun rfl ?_
      refine @Clocked.act 5 c _ [] (s (.publishing m.screen) 1 []) _ 5 .execute (by decide) nofun rfl ?_
      refine @Clocked.act 5 c _ [.published (.frame m.screen)] (s .pacing 1 sent) _ 7 .execute (by decide) nofun rfl ?_
      refine @Clocked.timeout 7 c _ [] (s .draining 1 sent) _ 17000000 late (by decide) (by decide) (by decide) rfl ?_
      refine @Clocked.act late _ _ [] (s (.stepping 1) 1 sent) _ late .execute (by decide) nofun rfl ?_
      refine @Clocked.act late _ _ [.stepped .waiting] (s .interrupting 1 sent) _ late .execute (by decide) nofun rfl ?_
      exact @Clocked.act late _ _ [.produced m.screen] (s (.offering m.screen) 2 sent) _ 20000000 .execute (by decide)
        nofun rfl .nil
    exact ⟨hrun, hclocked m 1 log hrun⟩

end Session

end Chip8
