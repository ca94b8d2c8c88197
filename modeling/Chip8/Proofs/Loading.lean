import Chip8.Memory.Request

namespace Chip8.Memory

variable {m m' : Memory} {program : List UInt8} {size : Nat}

theorem load_ok (h : m.load program = (.ok size, m')) :
    program ≠ [] ∧ m.hasProgram = false ∧ m.origin.toNat + program.length ≤ 4096 ∧ size = program.length ∧
      m' =
        { m with
          bytes := patch m.bytes m.origin.toNat program
          stop := UInt16.ofNat (m.origin.toNat + program.length) } := by
  obtain ⟨e, he⟩ | ⟨hfree, hne, hfit, he⟩ := m.load_cases program
  · rw [he] at h
    cases h
  · rw [he] at h
    cases h
    exact ⟨hne, hfree, hfit, rfl, rfl⟩

theorem stop_of_load (h : m.load program = (.ok size, m')) :
    m'.stop.toNat = m.origin.toNat + program.length := by
  obtain ⟨-, -, hfit, -, rfl⟩ := load_ok h
  rw [UInt16.toNat_ofNat']
  omega

theorem peek_of_load (h : m.load program = (.ok size, m')) (a : Nat) :
    m'.peek a = (if m.origin.toNat ≤ a then program[a - m.origin.toNat]? else none).getD (m.peek a) := by
  obtain ⟨-, -, hfit, -, rfl⟩ := load_ok h
  exact peek_patch hfit rfl a

theorem peek_program (h : m.load program = (.ok size, m')) {k : Nat} (hk : k < program.length) :
    m'.peek (m.origin.toNat + k) = program[k] := by
  rw [peek_of_load h, if_pos (Nat.le_add_right _ _), Nat.add_sub_cancel_left, List.getElem?_eq_getElem hk,
    Option.getD_some]

theorem peek_around (h : m.load program = (.ok size, m')) {a : Nat}
    (ha : a < m.origin.toNat ∨ m.origin.toNat + program.length ≤ a) : m'.peek a = m.peek a := by
  rw [peek_of_load h]
  rcases ha with hbelow | habove
  · rw [if_neg (Nat.not_le.2 hbelow), Option.getD_none]
  · rw [if_pos (by omega), List.getElem?_eq_none (by omega), Option.getD_none]

theorem hasProgram_of_load (h : m.load program = (.ok size, m')) : m'.hasProgram = true := by
  obtain ⟨hne, -, -, -, hm⟩ := load_ok h
  have hstop := stop_of_load h
  have hpos := List.length_pos_iff.2 hne
  have horigin : m'.origin = m.origin := by rw [hm]
  rw [hasProgram, decide_eq_true_iff, gt_iff_lt, UInt16.lt_iff_toNat_lt, hstop, horigin]
  omega

theorem load_answer (m : Memory) (program : List UInt8) :
    (m.load program).1 =
      if m.hasProgram then .error (.alreadyLoaded m.origin)
      else if program = [] then .error .empty
      else if 4096 < m.origin.toNat + program.length then
        .error (.tooLarge program.length (4096 - m.origin.toNat))
      else .ok program.length := by
  unfold load
  split
  · rfl
  · split
    · next hnil => rw [if_pos (List.isEmpty_iff.1 hnil)]
    · next hne =>
        rw [List.isEmpty_iff] at hne
        have hpos := List.length_pos_iff.2 hne
        have hfit : m.capacity < program.length ↔ 4096 < m.origin.toNat + program.length := by
          rw [capacity]
          omega
        rw [if_neg hne]
        by_cases hbig : m.capacity < program.length
        · rw [if_pos hbig, if_pos (hfit.1 hbig), capacity]
        · rw [if_neg hbig, if_neg (mt hfit.2 hbig)]

inductive Change : Memory → Response → Memory → Prop
  | loaded {m m' : Memory} {program size} : m.load program = (.ok size, m') → Change m (.loaded (.ok size)) m'
  | kept {m : Memory} {response bytes} : response.isLoad = false → Change m response { m with bytes }

theorem change_load (m : Memory) (program : List UInt8) :
    Change m (.loaded (m.load program).1) (m.load program).2 := by
  obtain ⟨e, he⟩ | ⟨-, -, -, he⟩ := m.load_cases program
  · rw [he]
    exact .kept rfl
  · rw [he]
    exact .loaded he

theorem change_perform (m : Memory) (r : Request) : Change m (m.perform r).1 (m.perform r).2 := by
  cases r with
  | load program => exact m.change_load program
  | loadFrom source =>
      obtain ⟨e, he⟩ | he := m.loadFrom_cases source
      · rw [perform, he]
        exact .kept rfl
      · rw [perform, he]
        exact m.change_load source.chunks.flatten
  | write addr data =>
      rw [perform, write]
      split <;> exact .kept rfl
  | fill addr len b =>
      rw [perform, fill]
      split <;> exact .kept rfl
  | slice | byte | fetch => exact .kept rfl

theorem Change.origin_eq {response : Response} (h : Change m response m') : m'.origin = m.origin := by
  cases h with
  | loaded hl => rw [(load_ok hl).2.2.2.2]
  | kept => rfl

theorem Change.hasProgram_eq {response : Response} (h : Change m response m') :
    m'.hasProgram = (m.hasProgram || response.isLoad) := by
  cases h with
  | loaded hl => rw [hasProgram_of_load hl, Response.isLoad, Bool.or_true]
  | kept hr => rw [hr, Bool.or_false, hasProgram, hasProgram]

theorem Change.isLoad_eq {response : Response} (h : Change m response m') (hm : m.hasProgram = true) :
    response.isLoad = false := by
  cases h with
  | loaded hl =>
      obtain ⟨-, hfree, -⟩ := load_ok hl
      rw [hm] at hfree
      cases hfree
  | kept hr => exact hr

theorem origin_afterAll (m : Memory) (rs : List Request) : (m.afterAll rs).origin = m.origin := by
  induction rs generalizing m with
  | nil => rfl
  | cons r rs ih => exact (ih _).trans (m.change_perform r).origin_eq

theorem hasProgram_afterAll (m : Memory) (rs : List Request) :
    (m.afterAll rs).hasProgram = (m.hasProgram || (m.responses rs).any Response.isLoad) := by
  induction rs generalizing m with
  | nil => exact (Bool.or_false _).symm
  | cons r rs ih =>
      rw [afterAll, ih, (m.change_perform r).hasProgram_eq, Bool.or_assoc]
      rfl

theorem countP_isLoad_le (m : Memory) (rs : List Request) :
    (m.responses rs).countP Response.isLoad ≤ if m.hasProgram then 0 else 1 := by
  induction rs generalizing m with
  | nil => exact Nat.zero_le _
  | cons r rs ih =>
      have hc := m.change_perform r
      have hrest := ih (m.perform r).2
      rw [hc.hasProgram_eq] at hrest
      rw [responses, List.countP_cons]
      cases hm : m.hasProgram with
      | true =>
          simp only [hm, hc.isLoad_eq hm, Bool.or_false, if_true] at hrest
          simp only [hc.isLoad_eq hm, if_true, Bool.false_eq_true, if_false]
          omega
      | false =>
          simp only [hm, Bool.false_or] at hrest
          cases hr : (m.perform r).1.isLoad with
          | true | false =>
              simp only [hr, if_true, Bool.false_eq_true, if_false] at hrest ⊢
              omega

theorem hasProgram_blank (origin : UInt16) : (blank origin).hasProgram = false :=
  decide_eq_false (UInt16.lt_irrefl origin)

theorem load_fits (hfree : m.hasProgram = false) (hne : program ≠ [])
    (hfit : m.origin.toNat + program.length ≤ 4096) :
    m.load program = (.ok program.length, (m.load program).2) := by
  refine Prod.ext ?_ rfl
  rw [load_answer, hfree, if_neg Bool.false_ne_true, if_neg hne, if_neg (Nat.not_lt.2 hfit)]

theorem load_over_history (origin : UInt16) (past : List Request) :
    let m := (blank origin).afterAll past
    let taken := ((blank origin).responses past).any Response.isLoad
    (∀ source reason, source.failure = some reason → m.loadFrom source = (.error (.unreadable reason), m)) ∧
      (∀ source, source.failure = none → m.loadFrom source = m.load source.chunks.flatten) ∧
      (∀ program,
        (m.load program).1 =
            (if taken then .error (.alreadyLoaded origin)
            else if program = [] then .error .empty
            else if 4096 < origin.toNat + program.length then
              .error (.tooLarge program.length (4096 - origin.toNat))
            else .ok program.length) ∧
          (∀ e, (m.load program).1 = .error e → (m.load program).2 = m) ∧
          ∀ size, (m.load program).1 = .ok size →
            (m.load program).2.origin = origin ∧
              (m.load program).2.stop.toNat = origin.toNat + program.length ∧
              (∀ k (hk : k < program.length), (m.load program).2.peek (origin.toNat + k) = program[k]) ∧
              ∀ a, a < origin.toNat ∨ origin.toNat + program.length ≤ a →
                (m.load program).2.peek a = m.peek a) ∧
      ((blank origin).responses past).countP Response.isLoad ≤ 1 := by
  intro m taken
  have horigin : m.origin = origin := (blank origin).origin_afterAll past
  have htaken : m.hasProgram = taken := by
    rw [hasProgram_afterAll, hasProgram_blank, Bool.false_or]
  refine ⟨?_, ?_, ?_, ?_⟩
  · intro source reason hfail
    simp only [loadFrom, hfail]
  · intro source hok
    simp only [loadFrom, hok]
  · intro program
    refine ⟨?_, ?_, ?_⟩
    · rw [load_answer, htaken, horigin]
    · intro e he
      exact load_error (Prod.ext he rfl)
    · intro size hsize
      have hload : m.load program = (.ok size, (m.load program).2) := Prod.ext hsize rfl
      have hnew := (m.change_load program).origin_eq
      have hstop := stop_of_load hload
      have hin := fun k hk => peek_program (k := k) hload hk
      have hout := fun a ha => peek_around (a := a) hload ha
      rw [horigin] at hnew hstop hin hout
      exact ⟨hnew, hstop, hin, hout⟩
  · have := (blank origin).countP_isLoad_le past
    rwa [hasProgram_blank] at this

theorem load_over_history_exact_fit :
    let past : List Request :=
      [.write 0x50 [7], .load [1, 2, 3, 4], .loadFrom ⟨[[1]], some "lost"⟩, .load []]
    let m := (blank 0xffd).afterAll past
    ∃ m', m.loadFrom ⟨[[0xaa], [0xbb, 0xcc]], none⟩ = (.ok 3, m') ∧ m'.stop.toNat = 4096 ∧
      m'.peek 0xfff = 0xcc ∧ m'.peek 0x50 = 7 := by
  intro past m
  obtain ⟨-, hsplit, hload, -⟩ := load_over_history 0xffd past
  obtain ⟨hanswer, -, hok⟩ := hload [0xaa, 0xbb, 0xcc]
  have hstart : ((blank 0xffd).responses past).any Response.isLoad = false ∧ m.peek 0x50 = 7 := by
    decide +kernel
  rw [hstart.1] at hanswer
  obtain ⟨-, hstop, hin, hout⟩ := hok 3 hanswer
  refine ⟨_, (hsplit _ rfl).trans (Prod.ext hanswer rfl), hstop, hin 2 (by decide), ?_⟩
  exact (hout 0x50 (by decide)).trans hstart.2

end Chip8.Memory
