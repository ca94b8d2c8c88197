import Chip8.Proofs.DocumentLine

namespace Chip8

namespace Document

section Lines

variable {l first : List Char} {rest ls : List (List Char)} {text : List Char}

def Whole (l : List Char) : Prop := '\n' ∉ l ∧ '\r' ∉ l

theorem lines_append (hl : Whole l) (h : lines text = first :: rest) :
    lines (l ++ text) = (l ++ first) :: rest := by
  induction l with
  | nil => exact h
  | cons c l ih =>
      obtain ⟨hfeed, hreturn⟩ := hl
      rw [List.mem_cons, not_or] at hfeed hreturn
      have htail := ih ⟨hfeed.2, hreturn.2⟩
      rw [List.cons_append, lines, htail]
      · rfl
      · intro _ hc _
        exact hreturn.1 hc.symm
      · intro hc
        exact hfeed.1 hc.symm

theorem lines_of_laid (h : Laid ls text) (hls : ∀ l ∈ ls, Whole l) : lines text = ls := by
  induction h with
  | @last l =>
      have := lines_append (hls l List.mem_cons_self) lines.eq_1
      rwa [List.append_nil] at this
  | @feed l ls text _ ih =>
      have htext := ih fun k hk => hls k (List.mem_cons_of_mem l hk)
      rw [lines_append (hls l List.mem_cons_self) (lines.eq_3 text), List.append_nil, htext]
  | @returned l ls text _ ih =>
      have htext := ih fun k hk => hls k (List.mem_cons_of_mem l hk)
      rw [lines_append (hls l List.mem_cons_self) (lines.eq_2 text), List.append_nil, htext]

end Lines

section Collected

variable {ks ls : List (List Char)} {as : List (Setting × Nat)} {l l' key text : List Char}

theorem collect?_entries (as : List (Setting × Nat)) :
    collect? (as.map entry) = if ∀ a ∈ as, a.2 ≤ a.1.max then some as else none := by
  induction as with
  | nil => rfl
  | cons a as ih =>
      rw [List.map_cons, collect?, line?_entry, ih]
      by_cases hall : ∀ b ∈ a :: as, b.2 ≤ b.1.max
      · obtain ⟨ha, has⟩ := List.forall_mem_cons.1 hall
        rw [if_pos hall, if_pos ha, if_pos has]
        rfl
      · rw [if_neg hall]
        by_cases ha : a.2 ≤ a.1.max
        · rw [if_pos ha, if_neg fun has => hall (List.forall_mem_cons.2 ⟨ha, has⟩)]
          rfl
        · rw [if_neg ha, Option.bind_none]

theorem collect?_blank (ls : List (List Char)) : collect? (ls ++ [[]]) = collect? ls := by
  induction ls with
  | nil => rfl
  | cons l ls ih => rw [List.cons_append, collect?, ih, collect?]

theorem collect?_sublist (h : ks.Sublist ls) (hls : collect? ls = some as) :
    ∃ bs, collect? ks = some bs ∧ bs.Sublist as := by
  induction h generalizing as with
  | slnil => exact ⟨as, hls, .refl as⟩
  | cons l _ ih =>
      obtain ⟨a, -, hrest⟩ := Option.bind_eq_some_iff.1 hls
      obtain ⟨bs, hbs, rfl⟩ := Option.map_eq_some_iff.1 hrest
      obtain ⟨cs, hcs, hsub⟩ := ih hbs
      exact ⟨cs, hcs, hsub.trans (List.sublist_append_right a bs)⟩
  | cons_cons l _ ih =>
      obtain ⟨a, ha, hrest⟩ := Option.bind_eq_some_iff.1 hls
      obtain ⟨bs, hbs, rfl⟩ := Option.map_eq_some_iff.1 hrest
      obtain ⟨cs, hcs, hsub⟩ := ih hbs
      exact ⟨a ++ cs, by rw [collect?, ha, hcs]; rfl, hsub.append_left a⟩

theorem le_max_of_value? {k : Setting} {n : Nat} (h : value? k l = some n) : n ≤ k.max := by
  obtain ⟨v, -, hv⟩ := Option.bind_eq_some_iff.1 h
  split at hv
  · next hrange =>
      obtain rfl := Option.some.inj hv
      omega
  · cases hv

theorem le_max_of_line? (h : line? l = some as) : ∀ a ∈ as, a.2 ≤ a.1.max := by
  rw [line?] at h
  split at h
  · obtain rfl := Option.some.inj h
    exact List.forall_mem_nil _
  · obtain ⟨a, ha, rfl⟩ := Option.map_eq_some_iff.1 h
    obtain ⟨⟨key, rest⟩, -, hrest⟩ := Option.bind_eq_some_iff.1 ha
    dsimp only at hrest
    split at hrest
    · obtain ⟨k, -, hk⟩ := Option.bind_eq_some_iff.1 hrest
      obtain ⟨v, hv, rfl⟩ := Option.map_eq_some_iff.1 hk
      exact List.forall_mem_singleton.2 (le_max_of_value? hv)
    · cases hrest

theorem le_max_of_collect? (h : collect? ls = some as) : ∀ a ∈ as, a.2 ≤ a.1.max := by
  induction ls generalizing as with
  | nil =>
      obtain rfl := Option.some.inj h
      exact List.forall_mem_nil _
  | cons l ls ih =>
      obtain ⟨bs, hbs, hrest⟩ := Option.bind_eq_some_iff.1 h
      obtain ⟨cs, hcs, rfl⟩ := Option.map_eq_some_iff.1 hrest
      exact List.forall_mem_append.2 ⟨le_max_of_line? hbs, ih hcs⟩

theorem assignments?_eq_some_iff :
    assignments? text = some as ↔ collect? (lines (dropMark text)) = some as ∧ (as.map Prod.fst).Nodup := by
  rw [assignments?, Option.bind_eq_some_iff]
  constructor
  · rintro ⟨bs, hbs, h⟩
    split at h
    · next hnodup =>
        obtain rfl := Option.some.inj h
        exact ⟨hbs, hnodup⟩
    · cases h
  · rintro ⟨hcollect, hnodup⟩
    exact ⟨as, hcollect, if_pos hnodup⟩

theorem isBare_of_isDigit {c : Char} (h : c.isDigit = true) : isBare c = true := by
  rw [Char.isDigit, Bool.and_eq_true, decide_eq_true_iff, decide_eq_true_iff] at h
  have hdigit : '0' ≤ c ∧ c ≤ '9' := h
  simp [isBare, hdigit]

theorem mem_entry {a : Setting × Nat} {c : Char} (h : c ∈ entry a) : isBare c = true ∨ c = ' ' ∨ c = '=' := by
  have hname : a.1.name.toList.all isBare = true := by
    cases a.1 <;> decide
  simp only [entry, List.mem_append, List.mem_cons] at h
  rcases h with hc | rfl | rfl | rfl | hc
  · exact .inl (List.all_eq_true.1 hname c hc)
  · exact .inr (.inl rfl)
  · exact .inr (.inr rfl)
  · exact .inr (.inl rfl)
  · exact .inl (isBare_of_isDigit (Nat.isDigit_of_mem_toDigits (by decide) (by decide) hc))

theorem Laid.mem (h : Laid ls text) {c : Char} (hc : c ∈ text) : c = '\n' ∨ c = '\r' ∨ ∃ l ∈ ls, c ∈ l := by
  induction h with
  | last => exact .inr (.inr ⟨_, List.mem_cons_self, hc⟩)
  | feed _ ih =>
      rw [List.mem_append, List.mem_cons] at hc
      rcases hc with hl | rfl | hc
      · exact .inr (.inr ⟨_, List.mem_cons_self, hl⟩)
      · exact .inl rfl
      · exact (ih hc).imp_right (.imp_right fun ⟨l, hl, hmem⟩ => ⟨l, List.mem_cons_of_mem _ hl, hmem⟩)
  | returned _ ih =>
      rw [List.mem_append, List.mem_cons, List.mem_cons] at hc
      rcases hc with hl | rfl | rfl | hc
      · exact .inr (.inr ⟨_, List.mem_cons_self, hl⟩)
      · exact .inr (.inl rfl)
      · exact .inl rfl
      · exact (ih hc).imp_right (.imp_right fun ⟨l, hl, hmem⟩ => ⟨l, List.mem_cons_of_mem _ hl, hmem⟩)

theorem lines_entries (hls : ∀ l ∈ ls, l = [] ∨ ∃ a, l = entry a) (h : Laid ls text) :
    lines (dropMark text) = ls := by
  have hno : ∀ c : Char, isBare c = false → c ≠ ' ' → c ≠ '=' → ∀ l ∈ ls, c ∉ l := by
    intro c hbare hblank hequals l hl hc
    rcases hls l hl with rfl | ⟨a, rfl⟩
    · cases hc
    · rcases mem_entry hc with hc | rfl | rfl
      · rw [hbare] at hc
        cases hc
      · exact hblank rfl
      · exact hequals rfl
  have hmark : '\ufeff' ∉ text := by
    intro hc
    obtain hc | hc | ⟨l, hl, hc⟩ := h.mem hc
    · cases hc
    · cases hc
    · exact hno _ rfl (by decide) (by decide) l hl hc
  have hdrop : dropMark text = text := by
    unfold dropMark
    split
    · exact absurd List.mem_cons_self hmark
    · rfl
  rw [hdrop]
  exact lines_of_laid h fun l hl => ⟨hno _ rfl (by decide) (by decide) l hl, hno _ rfl (by decide) (by decide) l hl⟩

theorem assignments?_laid (hnodup : (as.map Prod.fst).Nodup)
    (h : Laid (as.map entry) text ∨ Laid (as.map entry ++ [[]]) text) :
    assignments? text = if ∀ a ∈ as, a.2 ≤ a.1.max then some as else none := by
  have hentry : ∀ l ∈ as.map entry, l = [] ∨ ∃ a, l = entry a := by
    intro l hl
    obtain ⟨a, -, rfl⟩ := List.mem_map.1 hl
    exact .inr ⟨a, rfl⟩
  have hcollect : collect? (lines (dropMark text)) = collect? (as.map entry) := by
    rcases h with h | h
    · rw [lines_entries hentry h]
    · rw [lines_entries ?_ h, collect?_blank]
      intro l hl
      rcases List.mem_append.1 hl with hl | hl
      · exact hentry l hl
      · exact .inl (List.mem_singleton.1 hl)
  rw [assignments?, hcollect, collect?_entries]
  split
  · rw [Option.bind_some, if_pos hnodup]
  · rfl

theorem assignments?_other (hl : l ∈ lines (dropMark text)) (h : Names key l) (hkey : Setting.ofName? key = none) :
    assignments? text = none := by
  rw [Option.eq_none_iff_forall_ne_some]
  intro as has
  obtain ⟨bs, hbs, -⟩ := collect?_sublist (List.singleton_sublist.2 hl) (assignments?_eq_some_iff.1 has).1
  obtain hnone | ⟨k, v, hk, -⟩ := line?_names h
  · simp [collect?, hnone] at hbs
  · rw [hkey] at hk
    cases hk

theorem assignments?_repeated (hl : [l, l'].Sublist (lines (dropMark text))) (h : Names key l)
    (h' : Names key l') : assignments? text = none := by
  rw [Option.eq_none_iff_forall_ne_some]
  intro as has
  obtain ⟨hcollect, hnodup⟩ := assignments?_eq_some_iff.1 has
  obtain ⟨bs, hbs, hsub⟩ := collect?_sublist hl hcollect
  obtain hnone | ⟨k, v, hk, hv⟩ := line?_names h
  · simp [collect?, hnone] at hbs
  obtain hnone | ⟨k', v', hk', hv'⟩ := line?_names h'
  · simp [collect?, hnone] at hbs
  obtain rfl := Option.some.inj (hk.symm.trans hk')
  have htwice : (bs.map Prod.fst).Nodup := (hsub.map Prod.fst).nodup hnodup
  simp only [collect?, hv, hv', Option.bind_some, Option.map_some, Option.some.injEq] at hbs
  rw [← hbs] at htwice
  simp at htwice

end Collected

end Document

namespace Settings

variable {before s s' : Settings} {as : List (Setting × Nat)}

theorem Gives.unique (h : Gives before as s) (h' : Gives before as s') : s = s' := by
  obtain ⟨origin, speed, width, height, seed⟩ := s
  obtain ⟨origin', speed', width', height', seed'⟩ := s'
  obtain rfl : origin = origin' := UInt16.toNat_inj.1 (h.origin.trans h'.origin.symm)
  obtain rfl : speed = speed' := UInt32.toNat_inj.1 (h.speed.trans h'.speed.symm)
  obtain rfl : width = width' := UInt64.toNat_inj.1 (h.width.trans h'.width.symm)
  obtain rfl : height = height' := UInt64.toNat_inj.1 (h.height.trans h'.height.symm)
  obtain rfl : seed = seed' := Option.map_injective (fun _ _ => UInt64.toNat_inj.1) (h.seed.trans h'.seed.symm)
  rfl

theorem gives_foldl (hnodup : (as.map Prod.fst).Nodup) (hmax : ∀ a ∈ as, a.2 ≤ a.1.max) :
    Gives before as (as.foldl (fun s a => s.set a.2 a.1) before) := by
  induction as generalizing before with
  | nil => exact ⟨rfl, rfl, rfl, rfl, rfl⟩
  | cons a as ih =>
      obtain ⟨k, n⟩ := a
      rw [List.map_cons, List.nodup_cons] at hnodup
      have hn : n ≤ k.max := hmax (k, n) List.mem_cons_self
      have hnone : as.lookup k = none := by
        rw [List.lookup_eq_none_iff]
        intro b hb
        rw [bne_iff_ne]
        rintro rfl
        exact hnodup.1 (List.mem_map.2 ⟨b, hb, rfl⟩)
      -- The later assignments start from the settings after this one, and none of them is to the same setting.
      have h := @ih (before.set n k) hnodup.2 fun b hb => hmax b (List.mem_cons_of_mem _ hb)
      rw [List.foldl_cons]
      cases k with
      | origin =>
          refine ⟨?_, h.speed, h.width, h.height, h.seed⟩
          rw [h.origin, hnone]
          exact UInt16.toNat_ofNat_of_lt' (Nat.lt_succ_of_le hn)
      | speed =>
          refine ⟨h.origin, ?_, h.width, h.height, h.seed⟩
          rw [h.speed, hnone]
          exact UInt32.toNat_ofNat_of_lt' (Nat.lt_succ_of_le hn)
      | width =>
          refine ⟨h.origin, h.speed, ?_, h.height, h.seed⟩
          rw [h.width, hnone]
          exact UInt64.toNat_ofNat_of_lt' (Nat.lt_of_le_of_lt hn (by decide))
      | height =>
          refine ⟨h.origin, h.speed, h.width, ?_, h.seed⟩
          rw [h.height, hnone]
          exact UInt64.toNat_ofNat_of_lt' (Nat.lt_of_le_of_lt hn (by decide))
      | seed =>
          refine ⟨h.origin, h.speed, h.width, h.height, ?_⟩
          rw [h.seed, hnone]
          exact congrArg some (UInt64.toNat_ofNat_of_lt' (Nat.lt_of_le_of_lt hn (by decide)))

theorem gives_ofAssignments {text : List Char} (h : Document.assignments? text = some as) :
    Gives {} as (ofAssignments as) := by
  obtain ⟨hcollect, hnodup⟩ := Document.assignments?_eq_some_iff.1 h
  exact gives_foldl hnodup (Document.le_max_of_collect? hcollect)

theorem ofDocument_of_none {text : String} (h : Document.assignments? text.toList = none) :
    ofDocument text = .error .malformed := by
  rw [ofDocument, h]

theorem ofDocument_of_some {text : String} (h : Document.assignments? text.toList = some as) :
    ofDocument text = (ofAssignments as).validate.map fun _ => ofAssignments as := by
  rw [ofDocument, h]
  dsimp only
  split
  · next he => rw [he]; rfl
  · next he => rw [he]; rfl

theorem exceeds_iff (hlt : ∀ a ∈ as, a.2 < 9223372036854775808) :
    (¬ ∀ a ∈ as, a.2 ≤ a.1.max) ↔
      (∃ n, (Setting.origin, n) ∈ as ∧ 65535 < n) ∨ ∃ n, (Setting.speed, n) ∈ as ∧ 4294967296 ≤ n := by
  constructor
  · intro h
    simp only [Classical.not_forall, Nat.not_le] at h
    obtain ⟨⟨k, n⟩, hmem, hn⟩ := h
    have hlt := hlt _ hmem
    cases k with
    | origin => exact .inl ⟨n, hmem, hn⟩
    | speed => exact .inr ⟨n, hmem, hn⟩
    | width | height | seed => exact absurd hn (Nat.not_lt.2 (Nat.le_of_lt_succ hlt))
  · rintro (⟨n, hmem, hn⟩ | ⟨n, hmem, hn⟩) hall
    · exact Nat.not_lt.2 (hall _ hmem) hn
    · exact Nat.not_lt.2 (hall _ hmem) hn

theorem partial_documents :
    (∀ (as : List (Setting × Nat)) (text : String), (as.map Prod.fst).Nodup →
      (∀ a ∈ as, a.2 < 9223372036854775808) →
      Document.Laid (as.map Document.entry) text.toList ∨
        Document.Laid (as.map Document.entry ++ [[]]) text.toList →
      let exceeds :=
        (∃ n, (Setting.origin, n) ∈ as ∧ 65535 < n) ∨ ∃ n, (Setting.speed, n) ∈ as ∧ 4294967296 ≤ n
      (exceeds → ofDocument text = .error .malformed) ∧
      (¬ exceeds → ∃ s, Gives {} as s ∧ ofDocument text =
        if s.origin < 0xa0 ∨ 0xffe < s.origin then .error (.badOrigin s.origin 0xa0 0xffe)
        else if s.width = 0 ∨ s.height = 0 then .error (.badResolution s.width s.height)
        else if s.speed = 0 then .error .zeroSpeed
        else .ok s)) ∧
    ∀ (text : String) (key : List Char),
      (∃ l ∈ Document.lines (Document.dropMark text.toList), Document.Names key l ∧
        ∀ k : Setting, k.name.toList ≠ key) ∨
      (∃ l l', [l, l'].Sublist (Document.lines (Document.dropMark text.toList)) ∧
        Document.Names key l ∧ Document.Names key l') →
      ofDocument text = .error .malformed := by
  constructor
  · intro as text hnodup hlt hlaid exceeds
    have hread := Document.assignments?_laid hnodup hlaid
    constructor
    · intro hlarge
      rw [if_neg ((exceeds_iff hlt).2 hlarge)] at hread
      exact ofDocument_of_none hread
    · intro hsmall
      have hmax := Decidable.not_not.1 (mt (exceeds_iff hlt).1 hsmall)
      rw [if_pos hmax] at hread
      refine ⟨_, gives_foldl hnodup hmax, ?_⟩
      rw [ofDocument_of_some hread, validate]
      simp only [apply_ite (Except.map _)]
      rfl
  · intro text key h
    apply ofDocument_of_none
    rcases h with ⟨l, hl, hnames, hkey⟩ | ⟨l, l', hl, hnames, hnames'⟩
    · refine Document.assignments?_other hl hnames ?_
      rw [Setting.ofName?, List.find?_eq_none]
      intro k _
      simpa using hkey k
    · exact Document.assignments?_repeated hl hnames hnames'

theorem partial_documents_two_faults :
    ofDocument "instructions_per_frame = 0\r\nload_origin = 96\n" = .error (.badOrigin 96 0xa0 0xffe) ∧
      ofDocument "seed = 1\n\"s\\u0065ed\" = 2" = .error .malformed := by
  obtain ⟨hwritten, hmalformed⟩ := partial_documents
  constructor
  · have htext : "instructions_per_frame = 0\r\nload_origin = 96\n".toList =
        Document.entry (.speed, 0) ++ '\r' :: '\n' :: (Document.entry (.origin, 96) ++ '\n' :: []) := by decide
    have hlaid : Document.Laid ([(.speed, 0), (.origin, 96)].map Document.entry ++ [[]])
        "instructions_per_frame = 0\r\nload_origin = 96\n".toList := by
      rw [htext]
      exact .returned (.feed .last)
    obtain ⟨s, hs, hread⟩ := (hwritten _ _ (by decide) (by decide) (.inr hlaid)).2 (by simp)
    have horigin : s.origin = 96 := UInt16.toNat_inj.1 hs.origin
    rw [hread, horigin]
    rfl
  · have hlines : Document.lines (Document.dropMark "seed = 1\n\"s\\u0065ed\" = 2".toList) =
        ["seed = 1".toList, "\"s\\u0065ed\" = 2".toList] := by decide
    refine hmalformed _ "seed".toList (.inr ⟨"seed = 1".toList, "\"s\\u0065ed\" = 2".toList, ?_, ?_, ?_⟩)
    · exact hlines ▸ List.Sublist.refl _
    · exact @Document.Names.value _ [] "seed".toList [' '] " 1".toList '=' nofun
        (.bare (by decide) (List.all_eq_true.1 rfl)) (List.all_eq_true.1 rfl) (.inl rfl)
    · exact @Document.Names.value _ [] "\"s\\u0065ed\"".toList [' '] " 2".toList '=' nofun
        (@Document.Spelled.basic "s\\u0065ed".toList _
          (.plain (by decide) (by decide) (by decide) (.four (by decide)
            (.plain (by decide) (by decide) (by decide) (.plain (by decide) (by decide) (by decide) .nil)))))
        (List.all_eq_true.1 rfl) (.inl rfl)

end Settings

end Chip8
