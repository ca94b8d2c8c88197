import Chip8.Proofs.Disassembly
import Chip8.Proofs.Loading

namespace Chip8

namespace Memory

variable {m : Memory} {r : Request}

theorem load_of_isLoad (h : (m.perform r).1.isLoad = true) :
    m.load r.program = (.ok r.program.length, (m.perform r).2) := by
  have hload (program : List UInt8) (h : (Response.loaded (m.load program).1).isLoad = true) :
      m.load program = (.ok program.length, (m.load program).2) := by
    obtain ⟨e, he⟩ | ⟨-, -, -, he⟩ := m.load_cases program
    · rw [he] at h
      cases h
    · rw [he]
  cases r with
  | load program => exact hload program h
  | loadFrom source =>
      obtain ⟨e, he⟩ | he := m.loadFrom_cases source
      · rw [perform, he] at h
        cases h
      · rw [perform, he] at h ⊢
        exact hload source.chunks.flatten h
  | write | fill | slice | byte | fetch => cases h

theorem Change.stop_eq {response : Response} {m' : Memory} (h : Change m response m')
    (hr : response.isLoad = false) : m'.stop = m.stop := by
  cases h with
  | loaded => cases hr
  | kept => rfl

theorem stop_afterAll_of_hasProgram (hm : m.hasProgram = true) (rs : List Request) :
    (m.afterAll rs).stop = m.stop := by
  induction rs generalizing m with
  | nil => rfl
  | cons r rs ih =>
      have hc := m.change_perform r
      have hr := hc.isLoad_eq hm
      have hm' : (m.perform r).2.hasProgram = true := by rw [hc.hasProgram_eq, hm, Bool.true_or]
      exact (ih hm').trans (hc.stop_eq hr)

theorem stop_afterAll (hm : m.stop = m.origin) (rs : List Request) :
    (m.afterAll rs).stop.toNat = m.origin.toNat + (m.loadedBy rs).length := by
  induction rs generalizing m with
  | nil => exact congrArg UInt16.toNat hm
  | cons r rs ih =>
      rw [afterAll, loadedBy]
      have hc := m.change_perform r
      cases hr : (m.perform r).1.isLoad with
      | true =>
          have hload := load_of_isLoad hr
          rw [if_pos rfl, stop_afterAll_of_hasProgram (hasProgram_of_load hload), stop_of_load hload]
      | false =>
          have hm' : (m.perform r).2.stop = (m.perform r).2.origin := by rw [hc.stop_eq hr, hm, hc.origin_eq]
          rw [if_neg Bool.false_ne_true, ih hm', hc.origin_eq]

theorem loadedBy_fits (m : Memory) (rs : List Request) :
    m.loadedBy rs = [] ∨ m.origin.toNat + (m.loadedBy rs).length ≤ 4096 := by
  induction rs generalizing m with
  | nil => exact .inl rfl
  | cons r rs ih =>
      rw [loadedBy]
      cases hr : (m.perform r).1.isLoad with
      | true =>
          obtain ⟨-, -, hfit, -⟩ := load_ok (load_of_isLoad hr)
          exact .inr hfit
      | false =>
          rw [if_neg Bool.false_ne_true, ← (m.change_perform r).origin_eq]
          exact ih _

end Memory

namespace Disassembly

variable {d e : Disassembly}

theorem toList_of_none (h : d.next? = none) : d.toList = [] := by
  rw [toList]
  split
  · rfl
  · next heq =>
      rw [h] at heq
      cases heq

theorem toList_of_some {item : UInt16 × Instruction} (h : d.next? = some (item, e)) : d.toList = item :: e.toList := by
  rw [toList]
  split
  · next heq =>
      rw [h] at heq
      cases heq
  · next heq =>
      rw [h] at heq
      cases heq
      rfl

theorem fst_call (d : Disassembly) : d.call.1 = d.toList.head? := by
  rw [call]
  split
  · next h => rw [toList_of_none h, List.head?_nil]
  · next h => rw [toList_of_some h, List.head?_cons]

theorem toList_call (d : Disassembly) : d.call.2.toList = d.toList.tail := by
  rw [call]
  split
  · next h => rw [toList_of_none h, List.tail_nil]
  · next h => rw [toList_of_some h, List.tail_cons]

theorem toList_afterCalls (d : Disassembly) (k : Nat) : (d.afterCalls k).toList = d.toList.drop k := by
  induction k generalizing d with
  | zero => rfl
  | succ k ih => rw [afterCalls, ih, toList_call, List.drop_tail]

theorem call_of_nil (h : d.toList = []) : d.call = (none, d) := by
  rw [call]
  split
  · rfl
  · next heq =>
      rw [toList_of_some heq] at h
      cases h

theorem map_range_succ (items : List (UInt16 × Instruction)) (n : Nat) :
    ((List.range (n + 1)).map fun j => items[j]?) =
      items.head? :: (List.range n).map fun j => items.tail[j]? := by
  rw [List.range_succ_eq_map, List.map_cons, List.map_map, List.head?_eq_getElem?]
  simp only [List.getElem?_tail]
  rfl

theorem answers_eq (d e : Disassembly) (calls : List Copy) :
    d.answers e calls =
      ((List.range (calls.count .original)).map fun j => d.toList[j]?,
        (List.range (calls.count .clone)).map fun j => e.toList[j]?) := by
  induction calls generalizing d e with
  | nil => rfl
  | cons c calls ih =>
      cases c with
      | original =>
          rw [answers, ih, toList_call, List.count_cons_self, List.count_cons_of_ne (by decide), fst_call,
            map_range_succ]
      | clone =>
          rw [answers, ih, toList_call, List.count_cons_self, List.count_cons_of_ne (by decide), fst_call,
            map_range_succ]

def Within (d : Disassembly) : Prop := d.stop.toNat ≤ 4096 ∨ d.stop.toNat ≤ d.cursor.toNat

theorem Within.call (h : d.Within) : d.call.2.Within := by
  rw [Disassembly.call]
  rcases Nat.lt_or_ge d.cursor.toNat d.stop.toNat with hlt | hle
  · rcases h with hstop | hpast
    · rw [next?_of_lt hstop hlt]
      exact .inl hstop
    · exact absurd hpast (Nat.not_le.2 hlt)
  · rw [next?_of_le hle]
    exact h

theorem Within.afterCalls (h : d.Within) (k : Nat) : (d.afterCalls k).Within := by
  induction k generalizing d with
  | zero => exact h
  | succ k ih => exact ih h.call

theorem Within.remaining_eq (h : d.Within) : d.remaining = d.toList.length := by
  rcases h with hstop | hpast
  · rw [toList_eq hstop, List.length_map, List.length_range]
  · rw [toList_of_none (next?_of_le hpast), remaining, Nat.sub_eq_zero_of_le hpast]
    rfl

theorem Within.getElem?_toList (h : d.Within) {k : Nat} (hk : k < d.toList.length) :
    d.cursor.toNat + 2 * k < d.stop.toNat ∧ d.stop.toNat ≤ 4096 ∧
      d.toList[k]? = some (d.memory.item (d.cursor.toNat + 2 * k)) := by
  rcases h with hstop | hpast
  · rw [toList_eq hstop] at hk ⊢
    rw [List.length_map, List.length_range] at hk
    refine ⟨?_, hstop, ?_⟩
    · rw [remaining] at hk
      omega
    · rw [List.getElem?_map, List.getElem?_range hk]
      rfl
  · rw [toList_of_none (next?_of_le hpast)] at hk
    cases hk

theorem within_disassembly (origin : UInt16) (past : List Memory.Request) (bytes : Vector UInt8 4096) :
    let loaded := (Memory.blank origin).afterAll past
    ({ loaded with bytes } : Memory).disassembly.Within := by
  intro loaded
  have hstop := Memory.stop_afterAll (m := Memory.blank origin) rfl past
  rcases (Memory.blank origin).loadedBy_fits past with hnone | hfit
  · right
    rw [hnone, ← (Memory.blank origin).origin_afterAll past] at hstop
    exact Nat.le_of_eq hstop
  · left
    exact Nat.le_trans (Nat.le_of_eq hstop) hfit

theorem iteration_exact (origin : UInt16) (past : List Memory.Request) (bytes : Vector UInt8 4096) :
    let loaded := (Memory.blank origin).afterAll past
    let m : Memory := { loaded with bytes }
    let length := ((Memory.blank origin).loadedBy past).length
    let items := m.disassembly.toList
    m.stop.toNat = origin.toNat + length ∧ items.length = (length + 1) / 2 ∧
      (∀ k < items.length, ∃ a : UInt16, a.toNat = origin.toNat + 2 * k ∧ a < m.stop ∧ a.toNat < 4096 ∧
        items[k]? = some (a, .decode (.ofBytes (m.peek a.toNat)
          (if a.toNat + 1 = 4096 then 0 else m.peek (a.toNat + 1))))) ∧
      ∀ k,
        let d := m.disassembly.afterCalls k
        d.toList = items.drop k ∧ d.call.1 = items[k]? ∧ d.sizeHint = (d.toList.length, some d.toList.length) ∧
          (items.length ≤ k → d.call = (none, d) ∧ d.sizeHint = (0, some 0)) ∧
          ∀ calls,
            d.answers d calls =
              ((List.range (calls.count .original)).map fun j => items[k + j]?,
                (List.range (calls.count .clone)).map fun j => items[k + j]?) := by
  intro loaded m length items
  have hwithin : m.disassembly.Within := within_disassembly origin past bytes
  have hstop : m.stop.toNat = origin.toNat + length := Memory.stop_afterAll (m := Memory.blank origin) rfl past
  have horigin : m.origin = origin := (Memory.blank origin).origin_afterAll past
  have hlength : items.length = (length + 1) / 2 := by
    rw [← hwithin.remaining_eq, remaining]
    show (m.stop.toNat - m.origin.toNat + 1) / 2 = _
    rw [hstop, horigin, Nat.add_sub_cancel_left]
  refine ⟨hstop, hlength, ?_, ?_⟩
  · intro k hk
    obtain ⟨hlt, htop, hitem⟩ := hwithin.getElem?_toList hk
    have hcursor : m.disassembly.cursor.toNat = origin.toNat := congrArg UInt16.toNat horigin
    have hlt : origin.toNat + 2 * k < m.stop.toNat := hcursor ▸ hlt
    have ha : (UInt16.ofNat (origin.toNat + 2 * k)).toNat = origin.toNat + 2 * k := by
      rw [UInt16.toNat_ofNat', Nat.mod_eq_of_lt (Nat.lt_trans hlt m.stop.toNat_lt)]
    refine ⟨_, ha, UInt16.lt_iff_toNat_lt.2 (ha.symm ▸ hlt), ?_, ?_⟩
    · rw [ha]
      exact Nat.lt_of_lt_of_le hlt htop
    · rw [hitem, hcursor, Memory.item, ha]
      split
      · next hedge =>
          rw [hedge, Memory.peek_above _ (Nat.le_refl _)]
          rfl
      · rfl
  · intro k d
    have hrest : d.toList = items.drop k := m.disassembly.toList_afterCalls k
    have hd : d.Within := hwithin.afterCalls k
    have hhint : d.sizeHint = (d.toList.length, some d.toList.length) := by rw [sizeHint, hd.remaining_eq]
    refine ⟨hrest, ?_, hhint, ?_, ?_⟩
    · rw [fst_call, hrest, List.head?_drop]
    · intro hk
      have hnil : d.toList = [] := by rw [hrest, List.drop_of_length_le hk]
      rw [hhint, hnil]
      exact ⟨call_of_nil hnil, rfl⟩
    · intro calls
      rw [answers_eq, hrest]
      simp only [List.getElem?_drop]

theorem iteration_exact_odd_at_top :
    let past : List Memory.Request := [.load [0x00, 0xe0, 0xd1], .load [0x12, 0x34]]
    let loaded := (Memory.blank 0xffd).afterAll past
    let m : Memory := { loaded with bytes := Vector.replicate 4096 0x61 }
    let d := m.disassembly
    let last : UInt16 × Instruction := (0xfff, .decode 0x6100)
    d.toList[0]? = some (0xffd, .decode 0x6161) ∧ d.toList[1]? = some last ∧
      (d.afterCalls 1).sizeHint = (1, some 1) ∧ (d.afterCalls 5).sizeHint = (0, some 0) ∧
      (d.afterCalls 1).answers (d.afterCalls 1) [.original, .clone, .original] = ([some last, none], [some last]) := by
  intro past loaded m d last
  obtain ⟨-, hlength, hitems, hcalls⟩ := iteration_exact 0xffd past (Vector.replicate 4096 0x61)
  have hprogram : ((Memory.blank 0xffd).loadedBy past).length = 3 := by decide +kernel
  have hlength : d.toList.length = 2 := hlength.trans (by rw [hprogram])
  have hpeek (a : Nat) (ha : a < 4096) : m.peek a = 0x61 := by
    rw [Memory.peek, Vector.getElem?_replicate, if_pos ha]
    rfl
  have hfirst : d.toList[0]? = some (0xffd, .decode 0x6161) := by
    obtain ⟨a, ha, -, -, hitem⟩ := hitems 0 (by rw [hlength]; decide)
    obtain rfl : a = 0xffd := UInt16.toNat_inj.1 ha
    have hitem : d.toList[0]? = some (0xffd, .decode (.ofBytes (m.peek 0xffd) (m.peek 0xffe))) := hitem
    rw [hitem, hpeek 0xffd (by decide), hpeek 0xffe (by decide)]
    decide
  have hsecond : d.toList[1]? = some last := by
    obtain ⟨a, ha, -, -, hitem⟩ := hitems 1 (by rw [hlength]; decide)
    obtain rfl : a = 0xfff := UInt16.toNat_inj.1 ha
    have hitem : d.toList[1]? = some (0xfff, .decode (.ofBytes (m.peek 0xfff) 0)) := hitem
    rw [hitem, hpeek 0xfff (by decide)]
    decide
  obtain ⟨hrest, -, hhint, -, hanswers⟩ := hcalls 1
  obtain ⟨-, -, -, hend, -⟩ := hcalls 5
  refine ⟨hfirst, hsecond, ?_, ?_, ?_⟩
  · have hone : (d.afterCalls 1).toList.length = 1 := by
      rw [hrest, List.length_drop]
      exact congrArg (· - 1) hlength
    exact hhint.trans (by rw [hone])
  · have hle : d.toList.length ≤ 5 := by rw [hlength]; decide
    exact (hend hle).2
  · have hnone : d.toList[2]? = none := List.getElem?_eq_none (Nat.le_of_eq hlength)
    have hboth := hanswers [.original, .clone, .original]
    have hboth : (d.afterCalls 1).answers (d.afterCalls 1) [.original, .clone, .original] =
        ([d.toList[1]?, d.toList[2]?], [d.toList[1]?]) := hboth
    rw [hboth, hsecond, hnone]

end Disassembly

end Chip8
