import Chip8.Instruction.Pattern
import Chip8.Proofs.Waiting

namespace Chip8.Machine

inductive Part where
  | byte (a : Nat)
  | origin
  | stop
  | register (x : Register)
  | index
  | pc
  | stack
  | delay
  | sound
  | width
  | height
  | pixels
  | keypad
  | mode
  | random

def Part.Same (m s : Machine) : Part → Prop
  | byte a => s.memory.peek a = m.memory.peek a
  | origin => s.memory.origin = m.memory.origin
  | stop => s.memory.stop = m.memory.stop
  | register x => s.v x = m.v x
  | index => s.index = m.index
  | pc => s.pc = m.pc
  | stack => s.stack = m.stack
  | delay => s.timers.delay = m.timers.delay
  | sound => s.timers.sound = m.timers.sound
  | width => s.screen.width = m.screen.width
  | height => s.screen.height = m.screen.height
  | pixels => s.screen.pixels = m.screen.pixels
  | keypad => s.keypad = m.keypad
  | mode => s.mode = m.mode
  | random => s.random = m.random

inductive May (m : Machine) (w : Word) : Part → Prop
  | pc : May m w .pc
  | clear : w = 0x00e0 → May m w .pixels
  | draw : w.family = 0xd → May m w .pixels
  | hit : w.family = 0xd → May m w (.register .flag)
  | ret : w = 0x00ee → May m w .stack
  | call : w.family = 0x2 → May m w .stack
  | loadByte : w.family = 0x6 → May m w (.register w.x)
  | addByte : w.family = 0x7 → May m w (.register w.x)
  | result : w.family = 0x8 → w.n.val < 8 ∨ w.n.val = 0xe → May m w (.register w.x)
  | flag : w.family = 0x8 → 4 ≤ w.n.val ∧ w.n.val < 8 ∨ w.n.val = 0xe → May m w (.register .flag)
  | loadIndex : w.family = 0xa → May m w .index
  | draws : w.family = 0xc → May m w .random
  | drawn : w.family = 0xc → May m w (.register w.x)
  | readDelay : w.family = 0xf → w.kk = 0x07 → May m w (.register w.x)
  | waitKey : w.family = 0xf → w.kk = 0x0a → May m w .mode
  | setDelay : w.family = 0xf → w.kk = 0x15 → May m w .delay
  | setSound : w.family = 0xf → w.kk = 0x18 → May m w .sound
  | addIndex : w.family = 0xf → w.kk = 0x1e → May m w .index
  | loadGlyph : w.family = 0xf → w.kk = 0x29 → May m w .index
  | storeDecimal {a} : w.family = 0xf → w.kk = 0x33 →
      m.index.toNat ≤ a → a ≤ m.index.toNat + 2 → May m w (.byte a)
  | storeRegisters {a} : w.family = 0xf → w.kk = 0x55 →
      m.index.toNat ≤ a → a ≤ m.index.toNat + w.x.val → May m w (.byte a)
  | loadRegisters {x} : w.family = 0xf → w.kk = 0x65 → x ≤ w.x → May m w (.register x)

inductive Touches (m : Machine) : Event → Part → Prop
  | step {w part} : m.mode = .running → m.memory.fetch m.pc = .ok w → May m w part → Touches m .step part
  | delay : Touches m .interrupt .delay
  | sound : Touches m .interrupt .sound
  | sense {now} : Touches m (.sense now) .keypad
  | wake {now x part} : m.mode = .awaitingKey x → m.keypad.freshKey? now ≠ none →
      part = .register x ∨ part = .pc ∨ part = .mode → Touches m (.sense now) part

def Confined (m s : Machine) (allowed : Part → Prop) : Prop := ∀ part, part.Same m s ∨ allowed part

variable {m s : Machine} {w : Word} {allowed : Part → Prop} {x : Register} {flow : Transfer}

theorem Part.same_self (m : Machine) (part : Part) : part.Same m m := by
  cases part <;> rfl

theorem Part.Same.trans {t : Machine} {part : Part} (h : part.Same m s) (h' : part.Same s t) :
    part.Same m t := by
  cases part <;> exact Eq.trans h' h

theorem confined_self (m : Machine) (allowed : Part → Prop) : Confined m m allowed :=
  fun part => .inl (part.same_self m)

theorem Confined.setV (h : Confined m s allowed) (hx : allowed (.register x)) (b : UInt8) :
    Confined m (s.setV x b) allowed := by
  intro part
  have hpart := h part
  cases part with
  | register y =>
      by_cases hxy : x = y
      · subst hxy
        exact .inr hx
      · rwa [Part.Same, v_setV_of_ne _ hxy]
  | _ => exact hpart

theorem Confined.follow (h : Confined m s allowed) (hpc : allowed .pc)
    (hmode : ∀ x, flow = .wait x → allowed .mode) : Confined m (s.follow m.pc flow) allowed := by
  intro part
  have hpart := h part
  cases flow with
  | wait x =>
      cases part with
      | mode => exact .inr (hmode x rfl)
      | _ => exact hpart
  | _ =>
      cases part with
      | pc => exact .inr hpc
      | _ => exact hpart

theorem Confined.runAlu (h : Confined m m allowed) {op : AluOp} (y : Register) (hx : allowed (.register x))
    (hflag : 4 ≤ op.code → allowed (.register .flag)) : Confined m (m.runAlu op x y) allowed := by
  unfold Machine.runAlu
  split
  · exact h.setV hx _
  · next heval =>
      refine (h.setV hx _).setV (hflag ?_) _
      cases op with
      | load | or | and | xor => cases heval
      | _ => decide

theorem confined_write {data : List UInt8} (h : m.write data = (.ok flow, s))
    (hdata : ∀ a, m.index.toNat ≤ a → a < m.index.toNat + data.length → allowed (.byte a)) :
    Confined m s allowed := by
  obtain ⟨-, hfit, rfl⟩ := write_ok h
  intro part
  cases part with
  | byte a =>
      by_cases ha : m.index.toNat ≤ a ∧ a < m.index.toNat + data.length
      · exact .inr (hdata a ha.1 ha.2)
      · refine .inl ((Memory.peek_patch hfit rfl a).trans ?_)
        split
        · rw [List.getElem?_eq_none (by omega)]
          rfl
        · rfl
  | _ => exact .inl rfl

theorem confined_registers {registers : Vector UInt8 16}
    (h : ∀ y, registers.get y = m.v y ∨ allowed (.register y)) : Confined m { m with registers } allowed := by
  intro part
  cases part with
  | register y => exact h y
  | _ => exact .inl rfl

theorem confined_withRegisters {bytes : List UInt8}
    (h : ∀ y : Register, y.val < bytes.length → allowed (.register y)) :
    Confined m (m.withRegisters bytes) allowed := by
  refine confined_registers fun y => ?_
  by_cases hy : y.val < bytes.length
  · exact .inr (h y hy)
  · refine .inl ((Vector.getElem_ofFn y.isLt).trans ?_)
    rw [List.getElem?_eq_none (Nat.not_lt.1 hy)]
    rfl

theorem confined_index (index : UInt16) (h : allowed .index) : Confined m { m with index } allowed := by
  intro part
  cases part with
  | index => exact .inr h
  | _ => exact .inl rfl

theorem confined_stack (stack : ReturnStack) (h : allowed .stack) : Confined m { m with stack } allowed := by
  intro part
  cases part with
  | stack => exact .inr h
  | _ => exact .inl rfl

theorem confined_screen {screen : Screen} (hwidth : screen.width = m.screen.width)
    (hheight : screen.height = m.screen.height) (h : allowed .pixels) :
    Confined m { m with screen } allowed := by
  intro part
  cases part with
  | width => exact .inl hwidth
  | height => exact .inl hheight
  | pixels => exact .inr h
  | _ => exact .inl rfl

theorem confined_execute (he : m.execute (.decode w) = (.ok flow, s)) : Confined m s (m.May w) := by
  rcases w.fits_decode with hw | hw
  · generalize Instruction.decode w = i at he hw
    cases hw with
    | clear h =>
        cases he
        exact confined_screen rfl rfl (.clear h)
    | ret h =>
        simp only [execute] at he
        split at he <;> cases he
        exact confined_stack _ (.ret h)
    | call h =>
        simp only [execute] at he
        split at he <;> cases he
        exact confined_stack _ (.call h)
    | loadByte h =>
        cases he
        exact (confined_self m _).setV (.loadByte h) _
    | addByte h =>
        cases he
        exact (confined_self m _).setV (.addByte h) _
    | alu hf hn =>
        cases he
        refine (confined_self m _).runAlu _ (.result hf ?_) fun hcode => .flag hf ?_
        · rw [hn]
          exact AluOp.code_range _
        · have := AluOp.code_range ‹_›
          omega
    | loadIndex h =>
        cases he
        exact confined_index _ (.loadIndex h)
    | random h =>
        cases he
        refine Confined.setV ?_ (.drawn h) _
        intro part
        cases part with
        | random => exact .inr (.draws h)
        | _ => exact .inl rfl
    | draw h =>
        simp only [execute] at he
        split at he <;> cases he
        exact (confined_screen (Screen.draw_width ..) (Screen.draw_height ..) (.draw h)).setV (.hit h) _
    | readDelay hf hk =>
        cases he
        exact (confined_self m _).setV (.readDelay hf hk) _
    | setDelay hf hk =>
        cases he
        intro part
        cases part with
        | delay => exact .inr (.setDelay hf hk)
        | _ => exact .inl rfl
    | setSound hf hk =>
        cases he
        intro part
        cases part with
        | sound => exact .inr (.setSound hf hk)
        | _ => exact .inl rfl
    | addIndex hf hk =>
        cases he
        exact confined_index _ (.addIndex hf hk)
    | loadGlyph hf hk =>
        cases he
        exact confined_index _ (.loadGlyph hf hk)
    | storeDecimal hf hk =>
        exact confined_write he fun a ha hlt => .storeDecimal hf hk ha (Nat.le_of_lt_succ hlt)
    | storeRegisters hf hk =>
        refine confined_write he fun a ha hlt => .storeRegisters hf hk ha ?_
        rw [length_registersTo] at hlt
        omega
    | loadRegisters hf hk =>
        simp only [execute] at he
        split at he <;> cases he
        next bytes hs =>
          refine confined_withRegisters fun y hy => .loadRegisters hf hk ?_
          rw [(Memory.slice_ok hs).2, UInt64.toNat_ofNat'] at hy
          exact Fin.le_def.2 (by omega)
    | _ =>
        cases he
        exact confined_self m _
  · rw [hw] at he
    cases he
    exact confined_self m _

theorem may_wait {x : Register} (he : m.execute (.decode w) = (.ok (.wait x), s)) : m.May w .mode := by
  have hi := (execute_ok he).2 x rfl
  have hw := w.fits_decode
  rw [hi] at hw
  cases hw.resolve_right nofun with
  | waitKey hf hk => exact .waitKey hf hk

theorem confined_step (m : Machine) :
    m.step.2 = m ∨ ∃ w, m.mode = .running ∧ m.memory.fetch m.pc = .ok w ∧
      m.step.1 = .executed (.decode w) ∧ Confined m m.step.2 (m.May w) := by
  obtain ⟨x, -, hs⟩ | ⟨-, e, -, hs⟩ | ⟨-, w, c, -, -, hs⟩ | ⟨hm, w, flow, s, hf, he, hs⟩ := m.step_cases
  · exact .inl (by rw [hs])
  · exact .inl (by rw [hs])
  · exact .inl (by rw [hs])
  · refine .inr ⟨w, hm, hf, by rw [hs], ?_⟩
    rw [hs]
    refine (confined_execute he).follow .pc ?_
    rintro x rfl
    exact may_wait he

theorem confined_interrupt (m : Machine) : Confined m m.interrupt fun part => part = .delay ∨ part = .sound := by
  intro part
  cases part with
  | delay => exact .inr (.inl rfl)
  | sound => exact .inr (.inr rfl)
  | _ => exact .inl rfl

theorem confined_sense {now : Keypad} (h : (m.sense now).1 = none) :
    Confined m (m.sense now).2 fun part => part = .keypad := by
  intro part
  unfold sense at h ⊢
  split at h
  · cases h
  · cases part with
    | keypad => exact .inr rfl
    | _ => exact .inl rfl

theorem confined_wake {k : Key} {now : Keypad} (hm : m.mode = .awaitingKey x)
    (hk : m.keypad.freshKey? now = some k) : Confined m (m.sense now).2 (m.Touches (.sense now)) := by
  have hfresh : m.keypad.freshKey? now ≠ none := by
    rw [hk]
    nofun
  rw [sense_waiting hm hk]
  intro part
  have hset := (confined_self m (m.Touches (.sense now))).setV (.wake hm hfresh (.inl rfl)) (UInt8.ofNat k.val)
  have hpart := hset part
  cases part with
  | keypad => exact .inr .sense
  | pc => exact .inr (.wake hm hfresh (.inr (.inl rfl)))
  | mode => exact .inr (.wake hm hfresh (.inr (.inr rfl)))
  | _ => exact hpart

theorem confined_respond (m : Machine) (e : Event) : Confined m (m.respond e).2 (m.Touches e) := by
  intro part
  cases e with
  | step =>
      show part.Same m m.step.2 ∨ _
      obtain hs | ⟨w, hm, hf, -, hconfined⟩ := m.confined_step
      · rw [hs]
        exact .inl (part.same_self m)
      · exact (hconfined part).imp_right (.step hm hf)
  | interrupt =>
      obtain hsame | rfl | rfl := m.confined_interrupt part
      · exact .inl hsame
      · exact .inr .delay
      · exact .inr .sound
  | sense now =>
      by_cases hnone : (m.sense now).1 = none
      · obtain hsame | rfl := confined_sense hnone part
        · exact .inl hsame
        · exact .inr .sense
      · unfold sense at hnone
        split at hnone
        · next hm hk => exact confined_wake hm hk part
        · exact absurd rfl hnone

theorem confined_after (m : Machine) (es : List Event) : Confined m (m.after es) fun part =>
    ∃ before e rest, es = before ++ e :: rest ∧ (m.after before).Touches e part := by
  induction es generalizing m with
  | nil => exact confined_self m _
  | cons e es ih =>
      intro part
      obtain hfirst | hfirst := m.confined_respond e part
      · obtain hrest | ⟨before, e', rest, rfl, htouches⟩ := ih (m.respond e).2 part
        · exact .inl (hfirst.trans hrest)
        · exact .inr ⟨e :: before, e', rest, rfl, htouches⟩
      · exact .inr ⟨[], e, es, rfl, hfirst⟩

theorem eq_of_same (h : ∀ part : Part, part.Same m s) : s = m := by
  have hbytes : s.memory.bytes = m.memory.bytes := by
    apply Vector.ext
    intro a ha
    have := h (.byte a)
    simpa only [Part.Same, Memory.peek, Vector.getElem?_eq_getElem ha, Option.getD_some] using this
  have hregisters : s.registers = m.registers := by
    apply Vector.ext
    intro x hx
    exact h (.register ⟨x, hx⟩)
  have hmemory : s.memory = m.memory := by
    show Memory.mk s.memory.bytes s.memory.origin s.memory.stop = m.memory
    rw [hbytes, h .origin, h .stop]
  have htimers : s.timers = m.timers := by
    show Timers.mk s.timers.delay s.timers.sound = m.timers
    rw [h .delay, h .sound]
  have hscreen : s.screen = m.screen := Screen.eq_of_pixels_eq (h .width) (h .height) (h .pixels)
  show Machine.mk s.memory s.registers s.index s.pc s.stack s.timers s.screen s.keypad s.mode s.random = m
  rw [hmemory, hregisters, h .index, h .pc, h .stack, htimers, hscreen, h .keypad, h .mode, h .random]

theorem changes_only (m : Machine) :
    (m.step.2 = m ∨ ∃ w, m.mode = .running ∧ m.memory.fetch m.pc = .ok w ∧
      m.step.1 = .executed (.decode w) ∧ Confined m m.step.2 (m.May w)) ∧
      Confined m m.interrupt (fun part => part = .delay ∨ part = .sound) ∧
      (∀ now, (m.sense now).1 = none → Confined m (m.sense now).2 fun part => part = .keypad) ∧
      ∀ s, (∀ part : Part, part.Same m s) → s = m :=
  ⟨m.confined_step, m.confined_interrupt, fun _ => confined_sense, fun _ => eq_of_same⟩

theorem changes_only_store_registers :
    let m := ((ofSettings {} (by decide) (.ofSeed 0)).load [0xf1, 0x55]).2
    m.step.2.memory.peek 2 = m.memory.peek 2 ∧
      (m.sense (.ofKeys [3])).1 = none ∧ (m.sense (.ofKeys [3])).2.pc = m.pc := by
  intro m
  have hstart : m.memory.fetch m.pc = .ok 0xf155 ∧ m.index = 0 ∧ (m.sense (.ofKeys [3])).1 = none := by
    decide +kernel
  clear_value m
  obtain ⟨hf, hindex, hnone⟩ := hstart
  obtain ⟨hstep, -, hsense, -⟩ := m.changes_only
  refine ⟨?_, hnone, (hsense _ hnone .pc).resolve_right nofun⟩
  obtain hsame | ⟨w, -, hw, -, hconfined⟩ := hstep
  · rw [hsame]
  · obtain rfl := Except.ok.inj (hf.symm.trans hw)
    refine (hconfined (.byte 2)).resolve_right ?_
    intro hmay
    cases hmay with
    | storeDecimal _ hk => cases hk
    | storeRegisters _ _ _ hle =>
        rw [hindex] at hle
        exact absurd hle (by decide)

end Chip8.Machine
