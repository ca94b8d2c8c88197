import Chip8.Instruction.Pattern
import Chip8.Proofs.Waiting

namespace Chip8

inductive Word.UsesTimers (w : Word) : Prop
  | readDelay : w.family = 0xf → w.kk = 0x07 → UsesTimers w
  | setDelay : w.family = 0xf → w.kk = 0x15 → UsesTimers w
  | setSound : w.family = 0xf → w.kk = 0x18 → UsesTimers w

inductive Word.UsesKeys (w : Word) : Prop
  | pressed : w.family = 0xe → w.kk = 0x9e → UsesKeys w
  | released : w.family = 0xe → w.kk = 0xa1 → UsesKeys w
  | waitKey : w.family = 0xf → w.kk = 0x0a → UsesKeys w

namespace Machine

def Event.isTick : Event → Bool
  | .interrupt => true
  | _ => false

def Event.isSnapshot : Event → Bool
  | .sense _ => true
  | _ => false

def others (late : Event → Bool) (es : List Event) : List Event := es.filter fun e => !late e

structure Reordered (late : Event → Bool) (es fs : List Event) : Prop where
  moved : es.filter late = fs.filter late
  kept : others late es = others late fs

def Avoids (barred : Word → Prop) (m : Machine) : Event → Prop
  | .step => m.mode = .running → ∀ w, m.memory.fetch m.pc = .ok w → ¬ barred w
  | _ => True

def Clear (barred : Word → Prop) (m : Machine) : List Event → Prop
  | [] => True
  | e :: es => Avoids barred m e ∧ Clear barred (m.respond e).2 es

def answersTo (kind : Event → Bool) (m : Machine) : List Event → List Answer
  | [] => []
  | e :: es =>
    if kind e then (m.respond e).1 :: answersTo kind (m.respond e).2 es else answersTo kind (m.respond e).2 es

variable {m : Machine} {w : Word}

theorem write_aside (m : Machine) (data : List UInt8) (timers : Timers) (keypad : Keypad) :
    { m with timers, keypad }.write data = ((m.write data).1, { (m.write data).2 with timers, keypad }) := by
  unfold write
  rcases m.memory.write m.index data with ⟨_ | _, _⟩ <;> rfl

theorem runAlu_aside (m : Machine) (op : AluOp) (x y : Register) (timers : Timers) (keypad : Keypad) :
    { m with timers, keypad }.runAlu op x y = { m.runAlu op x y with timers, keypad } := by
  have hv (z : Register) : v { m with timers, keypad } z = m.v z := rfl
  unfold runAlu
  simp only [hv]
  rcases op.eval (m.v x) (m.v y) with ⟨_, _ | _⟩ <;> rfl

theorem execute_aside (ht : ¬ w.UsesTimers) (hk : ¬ w.UsesKeys) (timers : Timers) (keypad : Keypad) :
    { m with timers, keypad }.execute (.decode w) =
      ((m.execute (.decode w)).1, { (m.execute (.decode w)).2 with timers, keypad }) := by
  rcases w.fits_decode with hw | hw
  · generalize Instruction.decode w = i at hw ⊢
    cases hw with
    | readDelay hf h => exact absurd (.readDelay hf h) ht
    | setDelay hf h => exact absurd (.setDelay hf h) ht
    | setSound hf h => exact absurd (.setSound hf h) ht
    | pressed hf h => exact absurd (.pressed hf h) hk
    | released hf h => exact absurd (.released hf h) hk
    | waitKey hf h => exact absurd (.waitKey hf h) hk
    | ret =>
        simp only [execute]
        rcases m.stack.pop with ⟨_ | _, _⟩ <;> rfl
    | call =>
        simp only [execute]
        rcases m.stack.push (m.pc + 2) with ⟨_ | _, _⟩ <;> rfl
    | draw =>
        simp only [execute]
        rcases m.memory.slice m.index (UInt64.ofNat w.n.val) with _ | _ <;> rfl
    | loadRegisters =>
        simp only [execute]
        rcases m.memory.slice m.index (UInt64.ofNat (w.x.val + 1)) with _ | _ <;> rfl
    | alu => exact congrArg _ (m.runAlu_aside ..)
    | storeDecimal | storeRegisters => exact m.write_aside ..
    | _ => rfl
  · rw [hw]
    rfl

theorem untouched (ht : ¬ w.UsesTimers) (hk : ¬ w.UsesKeys) :
    (m.execute (.decode w)).2.timers = m.timers ∧ (m.execute (.decode w)).2.keypad = m.keypad := by
  have h := execute_aside (m := m) ht hk m.timers m.keypad
  exact ⟨congrArg (·.2.timers) h, congrArg (·.2.keypad) h⟩

theorem execute_interrupt (h : ¬ w.UsesTimers) (m : Machine) :
    m.interrupt.execute (.decode w) = ((m.execute (.decode w)).1, (m.execute (.decode w)).2.interrupt) := by
  by_cases hk : w.UsesKeys
  · cases hk with
    | pressed hf hb =>
        rw [(Word.Fits.pressed hf hb).decode_eq]
        rfl
    | released hf hb =>
        rw [(Word.Fits.released hf hb).decode_eq]
        rfl
    | waitKey hf hb =>
        rw [(Word.Fits.waitKey hf hb).decode_eq]
        rfl
  · obtain ⟨htimers, hkeypad⟩ := untouched (m := m) h hk
    refine (execute_aside h hk m.timers.tick m.keypad).trans ?_
    rw [← htimers, ← hkeypad]
    rfl

theorem execute_keypad (h : ¬ w.UsesKeys) (m : Machine) (keypad : Keypad) :
    { m with keypad }.execute (.decode w) =
      ((m.execute (.decode w)).1, { (m.execute (.decode w)).2 with keypad }) := by
  by_cases ht : w.UsesTimers
  · cases ht with
    | readDelay hf hb =>
        rw [(Word.Fits.readDelay hf hb).decode_eq]
        rfl
    | setDelay hf hb =>
        rw [(Word.Fits.setDelay hf hb).decode_eq]
        rfl
    | setSound hf hb =>
        rw [(Word.Fits.setSound hf hb).decode_eq]
        rfl
  · obtain ⟨htimers, -⟩ := untouched (m := m) ht h
    refine (execute_aside ht h m.timers keypad).trans ?_
    rw [← htimers]

theorem step_of_aside {f : Machine → Machine} (hf : ∀ s, ∃ timers keypad, f s = { s with timers, keypad })
    (hfollow : ∀ s flow, (f s).follow m.pc flow = f (s.follow m.pc flow))
    (he : m.mode = .running → ∀ w, m.memory.fetch m.pc = .ok w →
      (f m).execute (.decode w) = ((m.execute (.decode w)).1, f (m.execute (.decode w)).2)) :
    (f m).step = (m.step.1, f m.step.2) := by
  obtain ⟨timers, keypad, hfm⟩ := hf m
  have hmode : (f m).mode = m.mode := by rw [hfm]
  have hmemory : (f m).memory = m.memory := by rw [hfm]
  have hpc : (f m).pc = m.pc := by rw [hfm]
  obtain ⟨x, hm, hs⟩ | ⟨hm, e, hw, hs⟩ | ⟨hm, w, c, hw, hx, hs⟩ | ⟨hm, w, flow, s, hw, hx, hs⟩ := m.step_cases
  · rw [hs]
    simp only [step, hmode, hm]
  · rw [hs]
    simp only [step, hmode, hm, hmemory, hpc, hw]
  · have hexec := he hm w hw
    rw [hx] at hexec
    rw [hs]
    simp only [step, hmode, hm, hmemory, hpc, hw, hexec]
  · have hexec := he hm w hw
    rw [hx] at hexec
    rw [hs]
    simp only [step, hmode, hm, hmemory, hpc, hw, hexec, hfollow]

theorem avoids_of_fetch {barred : Word → Prop} (hf : m.memory.fetch m.pc = .ok w) (hw : ¬ barred w) :
    Avoids barred m .step := by
  intro _ w' hf'
  exact Except.ok.inj (hf.symm.trans hf') ▸ hw

theorem step_interrupt (h : Avoids Word.UsesTimers m .step) :
    m.interrupt.step = (m.step.1, m.step.2.interrupt) := by
  refine step_of_aside (f := interrupt) (fun s => ⟨_, _, rfl⟩) ?_ fun hm w hw => execute_interrupt (h hm w hw) m
  rintro s (_ | _ | _ | _) <;> rfl

theorem step_keypad (h : Avoids Word.UsesKeys m .step) (keypad : Keypad) :
    { m with keypad }.step = (m.step.1, { m.step.2 with keypad }) := by
  refine step_of_aside (f := fun s => { s with keypad }) (fun s => ⟨_, _, rfl⟩) ?_
    fun hm w hw => execute_keypad (h hm w hw) m keypad
  rintro s (_ | _ | _ | _) <;> rfl

theorem sense_running (hm : m.mode = .running) (now : Keypad) : m.sense now = (none, { m with keypad := now }) := by
  simp only [sense, hm]

theorem running_step (hm : m.mode = .running) (h : Avoids Word.UsesKeys m .step) :
    m.step.2.mode = .running := by
  cases hmode : m.step.2.mode with
  | running => rfl
  | awaitingKey y =>
      rcases awaiting_of_step hmode with hy | hy
      · rw [hm] at hy
        cases hy
      · obtain ⟨w, -, -, -, hw, hi, -⟩ := step_executed hy
        have hfits := w.fits_decode
        rw [← hi] at hfits
        cases hfits.resolve_right nofun with
        | waitKey hf hb => exact absurd (.waitKey hf hb) (h hm w hw)

structure Yields (late : Event → Bool) (barred : Word → Prop) (ready : Machine → Prop) : Prop where
  not_step : late .step = false
  keeps {m : Machine} {e : Event} : ready m → Avoids barred m e → ready (m.respond e).2
  avoids_iff {m : Machine} {d : Event} (e : Event) : ready m → late d = true →
    (Avoids barred (m.respond d).2 e ↔ Avoids barred m e)
  swap {m : Machine} {d e : Event} : ready m → late d = true → late e = false → Avoids barred m e →
    (m.respond d).2.respond e = ((m.respond e).1, ((m.respond e).2.respond d).2)

section Yields

variable {late : Event → Bool} {barred : Word → Prop} {ready : Machine → Prop} {d : Event} {es fs : List Event}

theorem Yields.avoids_late (hy : Yields late barred ready) (hd : late d = true) (m : Machine) :
    Avoids barred m d := by
  cases d with
  | step =>
      rw [hy.not_step] at hd
      cases hd
  | interrupt | sense => trivial

theorem Yields.keeps_late (hy : Yields late barred ready) (hr : ready m) (hd : late d = true) :
    ready (m.respond d).2 :=
  hy.keeps hr (hy.avoids_late hd m)

theorem Yields.clear_past (hy : Yields late barred ready) (hr : ready m) (hd : late d = true)
    (hes : ∀ e ∈ es, late e = false) : Clear barred (m.respond d).2 es ↔ Clear barred m es := by
  induction es generalizing m with
  | nil => exact Iff.rfl
  | cons e es ih =>
      rw [Clear, Clear, hy.avoids_iff e hr hd]
      refine and_congr_right fun hw => ?_
      rw [hy.swap hr hd (hes e List.mem_cons_self) hw]
      exact ih (hy.keeps hr hw) fun f hf => hes f (List.mem_cons_of_mem e hf)

theorem Yields.run_past (hy : Yields late barred ready) (hr : ready m) (hd : late d = true)
    (hes : ∀ e ∈ es, late e = false) (hc : Clear barred m es) :
    (m.respond d).2.after es = ((m.after es).respond d).2 ∧ (m.respond d).2.answers es = m.answers es := by
  induction es generalizing m with
  | nil => exact ⟨rfl, rfl⟩
  | cons e es ih =>
      obtain ⟨hw, hrest⟩ := hc
      obtain ⟨hafter, hanswers⟩ := ih (hy.keeps hr hw) (fun f hf => hes f (List.mem_cons_of_mem e hf)) hrest
      rw [after, answers, hy.swap hr hd (hes e List.mem_cons_self) hw]
      exact ⟨hafter, congrArg _ hanswers⟩

theorem others_cons_late (hd : late d = true) (es : List Event) : others late (d :: es) = others late es := by
  simp only [others, List.filter_cons, hd, Bool.not_true, Bool.false_eq_true, if_false]

theorem others_cons_other {e : Event} (he : late e = false) (es : List Event) :
    others late (e :: es) = e :: others late es := by
  simp only [others, List.filter_cons, he, Bool.not_false, if_true]

theorem late_of_mem_others {e : Event} (he : e ∈ others late es) : late e = false := by
  have := (List.mem_filter.1 he).2
  rwa [Bool.not_eq_true'] at this

theorem Yields.clear_others (hy : Yields late barred ready) (hr : ready m) (es : List Event) :
    Clear barred m es ↔ Clear barred m (others late es) := by
  induction es generalizing m with
  | nil => exact Iff.rfl
  | cons e es ih =>
      cases he : late e with
      | true =>
          rw [others_cons_late he, Clear, and_iff_right (hy.avoids_late he m), ih (hy.keeps_late hr he),
            hy.clear_past hr he fun f hf => late_of_mem_others hf]
      | false =>
          rw [others_cons_other he, Clear, Clear]
          exact and_congr_right fun hw => ih (hy.keeps hr hw)

theorem Yields.run_others (hy : Yields late barred ready) (hr : ready m) (hc : Clear barred m es) :
    m.after es = (m.after (others late es)).after (es.filter late) ∧
      m.answersTo (fun e => !late e) es = m.answers (others late es) := by
  induction es generalizing m with
  | nil => exact ⟨rfl, rfl⟩
  | cons e es ih =>
      cases he : late e with
      | true =>
          obtain ⟨-, hrest⟩ := hc
          have hclear := (hy.clear_others (hy.keeps_late hr he) es).1 hrest
          obtain ⟨hafter, hanswers⟩ := ih (hy.keeps_late hr he) hrest
          obtain ⟨hpast, hsame⟩ := hy.run_past hr he (fun f hf => late_of_mem_others hf)
            ((hy.clear_past hr he fun f hf => late_of_mem_others hf).1 hclear)
          rw [others_cons_late he, List.filter_cons_of_pos he, after, after, answersTo, he, hafter, hanswers, hpast,
            hsame]
          exact ⟨rfl, rfl⟩
      | false =>
          obtain ⟨hw, hrest⟩ := hc
          obtain ⟨hafter, hanswers⟩ := ih (hy.keeps hr hw) hrest
          have hskip : (e :: es).filter late = es.filter late :=
            List.filter_cons_of_neg (Bool.eq_false_iff.1 he)
          rw [others_cons_other he, hskip, after, after, answersTo, answers, he, hafter, hanswers]
          exact ⟨rfl, rfl⟩

theorem Yields.run_reordered (hy : Yields late barred ready) (hr : ready m) (hes : Reordered late es fs)
    (hc : Clear barred m es) :
    Clear barred m fs ∧ m.after es = m.after fs ∧
      m.answersTo (fun e => !late e) es = m.answersTo (fun e => !late e) fs := by
  obtain ⟨hlate, hothers⟩ := hes
  have hclear : Clear barred m fs := by
    rw [hy.clear_others hr, ← hothers, ← hy.clear_others hr]
    exact hc
  obtain ⟨hafter, hanswers⟩ := hy.run_others hr hc
  obtain ⟨hafter', hanswers'⟩ := hy.run_others hr hclear
  rw [hafter, hafter', hanswers, hanswers', hlate, hothers]
  exact ⟨hclear, rfl, rfl⟩

end Yields

theorem sense_interrupt (m : Machine) (now : Keypad) :
    m.interrupt.sense now = ((m.sense now).1, (m.sense now).2.interrupt) := by
  cases hk : m.keypad.freshKey? now with
  | none =>
      rw [sense_stale hk, sense_stale (m := m.interrupt) hk]
      rfl
  | some k =>
      cases hm : m.mode with
      | running =>
          rw [sense_running hm, sense_running (m := m.interrupt) hm]
          rfl
      | awaitingKey x =>
          rw [sense_waiting hm hk, sense_waiting (m := m.interrupt) hm hk]
          rfl

theorem ticks_yield : Yields Event.isTick Word.UsesTimers fun _ => True where
  not_step := rfl
  keeps _ _ := trivial
  avoids_iff {m d} e _ hd := by
    cases d with
    | interrupt => cases e <;> exact Iff.rfl
    | step | sense => cases hd
  swap {m d e} _ hd he hw := by
    cases d with
    | step | sense => cases hd
    | interrupt =>
        cases e with
        | interrupt => cases he
        | step =>
            show (Answer.stepped m.interrupt.step.1, m.interrupt.step.2) = _
            rw [step_interrupt hw]
            rfl
        | sense now =>
            show (Answer.sensed (m.interrupt.sense now).1, (m.interrupt.sense now).2) = _
            rw [sense_interrupt]
            rfl

theorem running_respond {e : Event} (hm : m.mode = .running) (h : Avoids Word.UsesKeys m e) :
    (m.respond e).2.mode = .running := by
  cases e with
  | step => exact running_step hm h
  | interrupt => exact hm
  | sense now =>
      rw [respond, sense_running hm]
      exact hm

theorem snapshots_yield : Yields Event.isSnapshot Word.UsesKeys fun m => m.mode = .running where
  not_step := rfl
  keeps := running_respond
  avoids_iff {m d} e hm hd := by
    cases d with
    | step | interrupt => cases hd
    | sense now =>
        rw [respond, sense_running hm]
        cases e <;> exact Iff.rfl
  swap {m d e} hm hd he hw := by
    cases d with
    | step | interrupt => cases hd
    | sense now =>
        have hkeep : (m.respond (.sense now)).2 = { m with keypad := now } := by rw [respond, sense_running hm]
        rw [hkeep]
        cases e with
        | sense => cases he
        | interrupt =>
            show _ = (_, (m.interrupt.sense now).2)
            rw [sense_running (m := m.interrupt) hm]
            rfl
        | step =>
            show (Answer.stepped { m with keypad := now }.step.1, { m with keypad := now }.step.2) =
              (_, (m.step.2.sense now).2)
            rw [step_keypad hw, sense_running (running_step hm hw)]
            rfl

theorem answersTo_snapshots {es : List Event} (hm : m.mode = .running) (hc : Clear Word.UsesKeys m es) :
    m.answersTo Event.isSnapshot es = (es.filter Event.isSnapshot).map fun _ => .sensed none := by
  induction es generalizing m with
  | nil => rfl
  | cons e es ih =>
      obtain ⟨hw, hrest⟩ := hc
      have := ih (running_respond hm hw) hrest
      cases e with
      | step | interrupt => exact this
      | sense now =>
          have hnone : (m.respond (.sense now)).1 = .sensed none := by rw [respond, sense_running hm]
          exact congrArg₂ _ hnone this

theorem steps_let_ticks_and_snapshots_pass (hm : m.mode = .running) :
    ((∀ w, m.memory.fetch m.pc = .ok w → ¬ w.UsesTimers) → m.interrupt.step = (m.step.1, m.step.2.interrupt)) ∧
      ((∀ w, m.memory.fetch m.pc = .ok w → ¬ w.UsesKeys) → ∀ now,
        (m.sense now).2.step = (m.step.1, (m.step.2.sense now).2) ∧ (m.sense now).1 = (m.step.2.sense now).1) ∧
      (∀ es fs, Reordered Event.isTick es fs → Clear Word.UsesTimers m es →
        m.after es = m.after fs ∧
          m.answersTo (fun e => !e.isTick) es = m.answersTo (fun e => !e.isTick) fs) ∧
      ∀ es fs, Reordered Event.isSnapshot es fs → Clear Word.UsesKeys m es →
        m.after es = m.after fs ∧
          m.answersTo (fun e => !e.isSnapshot) es = m.answersTo (fun e => !e.isSnapshot) fs ∧
          m.answersTo Event.isSnapshot es = m.answersTo Event.isSnapshot fs := by
  refine ⟨fun h => step_interrupt fun _ => h, fun h now => ?_, fun es fs hes hc => ?_, fun es fs hes hc => ?_⟩
  · rw [sense_running hm, sense_running (running_step hm fun _ => h)]
    exact ⟨step_keypad (fun _ => h) now, rfl⟩
  · exact (ticks_yield.run_reordered trivial hes hc).2
  · obtain ⟨hclear, hafter, hanswers⟩ := snapshots_yield.run_reordered hm hes hc
    rw [answersTo_snapshots hm hc, answersTo_snapshots hm hclear, hes.moved]
    exact ⟨hafter, hanswers, rfl⟩

theorem steps_let_ticks_and_snapshots_pass_key_skip :
    let m := { ((ofSettings {} (by decide) (.ofSeed 0)).load [0x62, 0x05, 0xe2, 0x9e]).2 with timers := ⟨2, 1⟩ }
    let five : Event := .sense (.ofKeys [5])
    m.after [.interrupt, .step, five, .step] = m.after [.step, five, .step, .interrupt] ∧
      (m.after [.step, five, .step, .interrupt]).pc = 0x206 ∧
      m.after [five, .step, .interrupt] = m.after [.step, .interrupt, five] := by
  intro m five
  have hstart : m.mode = .running ∧ m.memory.fetch m.pc = .ok 0x6205 ∧
      (m.after [.interrupt, .step, five]).memory.fetch (m.after [.interrupt, .step, five]).pc = .ok 0xe29e ∧
      (m.after [.step, five, .step, .interrupt]).pc = 0x206 := by
    decide +kernel
  clear_value m
  obtain ⟨hm, hfirst, hsecond, hpc⟩ := hstart
  obtain ⟨-, -, hticks, hsnapshots⟩ := steps_let_ticks_and_snapshots_pass hm
  have hclear : Clear Word.UsesTimers m [.interrupt, .step, five, .step] :=
    ⟨trivial, avoids_of_fetch (m := m.interrupt) hfirst nofun, trivial, avoids_of_fetch hsecond nofun, trivial⟩
  have hclear' : Clear Word.UsesKeys m [.step, .interrupt, five] :=
    ⟨avoids_of_fetch hfirst nofun, trivial, trivial, trivial⟩
  have htick : Reordered Event.isTick [.interrupt, .step, five, .step] [.step, five, .step, .interrupt] := ⟨rfl, rfl⟩
  have hkeys : Reordered Event.isSnapshot [.step, .interrupt, five] [five, .step, .interrupt] := ⟨rfl, rfl⟩
  exact ⟨(hticks _ _ htick hclear).1, hpc, (hsnapshots _ _ hkeys hclear').1.symm⟩

end Machine

end Chip8
