import AmmarServer.StringRecognizer.WordLists

/-! What an emitted scanner answers, against a search through the word list. -/

namespace AmmarServer.StringRecognizer
open CString HeaderAnalysis

/-- `w` is a prefix of `s`, in any spelling. -/
def Matches (w s : List UInt8) : Prop := EqIgnoreCase (s.take w.length) w

instance (w s : List UInt8) : Decidable (Matches w s) :=
  inferInstanceAs (Decidable (EqIgnoreCase _ _))

theorem Matches.length_le {w s : List UInt8} (h : Matches w s) : w.length ≤ s.length := by
  have hlen := congrArg List.length h
  rw [List.length_map, List.length_map, List.length_take] at hlen
  omega

theorem Matches.toUpper_charAt {w s : List UInt8} (h : Matches w s) (hw : IsWord w) {k : ℕ}
    (hk : k < w.length) : toUpper (charAt s k) = charAt w k := by
  have hks : k < s.length := hk.trans_le h.length_le
  have hat := congrArg (fun l => l[k]?) h
  simp only [List.getElem?_map, List.getElem?_take_of_lt hk, List.getElem?_eq_getElem hk,
    List.getElem?_eq_getElem hks, Option.map_some, Option.some.injEq] at hat
  rw [charAt_eq hks, charAt_eq hk]
  exact toUpper_of_toLower (hw.mem (List.getElem_mem hk)) hat

theorem isPrefix_of_charAt {w w' : List UInt8} (hle : w.length ≤ w'.length)
    (h : ∀ k < w.length, charAt w k = charAt w' k) : w <+: w' := by
  rw [List.prefix_iff_getElem?]
  intro k hk
  have hk' : k < w'.length := hk.trans_le hle
  have hat := h k hk
  rw [charAt_eq hk, charAt_eq hk'] at hat
  rw [List.getElem?_eq_getElem hk', hat]

/-- No input matches two words. -/
theorem WordList.eq_of_matches {words : List (List UInt8)} (hwords : WordList words)
    {w w' s : List UInt8} (hw : w ∈ words) (hw' : w' ∈ words) (hm : Matches w s)
    (hm' : Matches w' s) : w = w' := by
  have hat {k : ℕ} (hk : k < w.length) (hk' : k < w'.length) : charAt w k = charAt w' k := by
    rw [← hm.toUpper_charAt (hwords.isWord w hw) hk,
      ← hm'.toUpper_charAt (hwords.isWord w' hw') hk']
  rcases Nat.le_total w.length w'.length with hle | hle
  · apply hwords.prefix_free w hw w' hw'
    exact isPrefix_of_charAt hle fun k hk => hat hk (hk.trans_le hle)
  · apply Eq.symm
    apply hwords.prefix_free w' hw' w hw
    exact isPrefix_of_charAt hle fun k hk => (hat (hk.trans_le hle) hk).symm

theorem strncasecmpEq_word {w s : List UInt8} (hw : IsWord w) :
    strncasecmpEq s w w.length = true ↔ Matches w s :=
  strncasecmpEq_iff fun _ hc h => hw.zero_notMem (h ▸ hc)

/-- Several words are counted behind `p`. -/
def Crowded (words : List (List UInt8)) (p : List UInt8) : Prop :=
  ∃ w ∈ words, ∃ w' ∈ words, w ≠ w' ∧ Counted w p ∧ Counted w' p

/-- The switches that ask for more bytes than `p` lead on to `w`. -/
def Reached (words : List (List UInt8)) (w : List UInt8) : ℕ → List UInt8 → Prop
  | 0, _ => True
  | levels + 1, p =>
    Counted w p ∧ (Crowded words p → Reached words w levels (p ++ [charAt w p.length]))

theorem Counted.isPrefix {w p : List UInt8} (h : Counted w p) (hp : 0 ∉ p) : p <+: w := by
  obtain ⟨_, -, hpre⟩ := h
  have hpw : p <+: w ++ [0] := (List.prefix_append p _).trans hpre
  rcases List.prefix_concat_iff.mp hpw with rfl | hpw
  · exact absurd (List.mem_append_right _ (List.mem_singleton_self _)) hp
  · exact hpw

theorem crowded_iff {words : List (List UInt8)} (hwords : WordList words) (p : List UInt8) :
    1 < (counted words p).length ↔ Crowded words p := by
  constructor
  · intro h
    obtain ⟨i, j, rest, heq⟩ : ∃ i j rest, counted words p = i :: j :: rest := by
      cases hc : counted words p with
      | nil => simp [hc] at h
      | cons i rest =>
        cases rest with
        | nil => simp [hc] at h
        | cons j rest => exact ⟨i, j, rest, rfl⟩
    have hij : i ≠ j := by
      have hnodup := nodup_counted words p
      rw [heq] at hnodup
      rintro rfl
      simp at hnodup
    obtain ⟨w, hw, hcw⟩ := mem_counted.mp (heq ▸ List.mem_cons_self .. : i ∈ counted words p)
    obtain ⟨w', hw', hcw'⟩ := mem_counted.mp
      (heq ▸ List.mem_cons_of_mem _ (List.mem_cons_self ..) : j ∈ counted words p)
    refine ⟨w, List.mem_of_getElem? hw, w', List.mem_of_getElem? hw', ?_, hcw, hcw'⟩
    rintro rfl
    exact hij ((List.getElem?_inj (List.getElem?_eq_some_iff.mp hw).1 hwords.distinct).mp
      (hw.trans hw'.symm))
  · rintro ⟨w, hw, w', hw', hne, hc, hc'⟩
    obtain ⟨i, hi⟩ := List.mem_iff_getElem?.mp hw
    obtain ⟨j, hj⟩ := List.mem_iff_getElem?.mp hw'
    have hmi : i ∈ counted words p := mem_counted.mpr ⟨w, hi, hc⟩
    have hmj : j ∈ counted words p := mem_counted.mpr ⟨w', hj, hc'⟩
    by_contra hle
    have hij : i = j := by
      cases hcounted : counted words p with
      | nil => simp [hcounted] at hmi
      | cons k rest =>
        obtain rfl : rest = [] := by
          rw [hcounted] at hle
          simpa using hle
        rw [hcounted] at hmi hmj
        rw [List.mem_singleton.mp hmi, List.mem_singleton.mp hmj]
    subst hij
    exact hne (Option.some.inj (hi.symm.trans hj))

/-- A word that is all of `p` is alone behind it. -/
theorem Crowded.notMem {words : List (List UInt8)} (hwords : WordList words) {p : List UInt8}
    (hp : 0 ∉ p) (h : Crowded words p) : p ∉ words := by
  intro hin
  obtain ⟨w, hw, w', hw', hne, hc, hc'⟩ := h
  apply hne
  rw [← hwords.prefix_free p hin w hw (hc.isPrefix hp),
    ← hwords.prefix_free p hin w' hw' (hc'.isPrefix hp)]

/-- The answers of a block that stands behind the bytes `p` with some levels left. -/
structure Answers (words : List (List UInt8)) (value : List UInt8 → ℕ) (block : Block)
    (levels : ℕ) (p : List UInt8) : Prop where
  sound : ∀ s v, block.exec value s = some v →
    v = 0 ∨ ∃ i w, words[i]? = some w ∧ Matches w s ∧ v = i + 1
  complete : ∀ s i w, words[i]? = some w → Matches w s → p <+: w →
    (block.exec value s = some (i + 1) ↔ Reached words w levels p)

section Traversal

variable {fsp : FastStringParser} {words : List (List UInt8)} {functionName : List UInt8}
  {value : List UInt8 → ℕ}

/-- The enumerator of every word has the number of the word as its value. -/
def Numbered (words : List (List UInt8)) (functionName : List UInt8) (value : List UInt8 → ℕ) :
    Prop :=
  ∀ i w, words[i]? = some w → value (functionName ++ [95] ++ convertToEnumID w) = i + 1

theorem exec_printIfAllPossibleStrings (hwords : ∀ w ∈ words, IsWord w) {p : List UInt8}
    {c : UInt8} (hp : 0 ∉ p) (s : List UInt8) :
    (printIfAllPossibleStrings functionName (p ++ [c])
        (words.map fun w => { str := w, strIDFriendly := convertToEnumID w })).exec value s =
      (words.find? fun w => p ++ [c] <+: w ++ [0] ∧ Matches w s).map
        fun w => value (functionName ++ [95] ++ convertToEnumID w) := by
  have hseq : (p ++ [c]).length = p.length + 1 := by simp
  induction words with
  | nil => rfl
  | cons w words ih =>
    have ih := ih fun w hw => hwords w (List.mem_cons_of_mem _ hw)
    have hw := hwords w (List.mem_cons_self ..)
    rw [List.map_cons, printIfAllPossibleStrings, hseq]
    by_cases hbegins : p ++ [c] <+: w ++ [0]
    · rw [if_pos ((beginsWith_iff hp).mpr hbegins), Block.exec, ih]
      by_cases hmatches : Matches w s
      · rw [if_pos ⟨hmatches.length_le, (strncasecmpEq_word hw).mpr hmatches⟩,
          List.find?_cons_of_pos (by simp [hbegins, hmatches])]
        rfl
      · rw [if_neg fun h => hmatches ((strncasecmpEq_word hw).mp h.2),
          List.find?_cons_of_neg (by simp [hmatches])]
    · rw [if_neg fun h => hbegins ((beginsWith_iff hp).mp h), ih,
        List.find?_cons_of_neg (by simp [hbegins])]

theorem answers_printIfAllPossibleStrings (hwords : WordList words)
    (hvalue : Numbered words functionName value) {p : List UInt8} {c : UInt8} (hp : 0 ∉ p) :
    Answers words value
      (printIfAllPossibleStrings functionName (p ++ [c])
        (words.map fun w => { str := w, strIDFriendly := convertToEnumID w })) 0 (p ++ [c]) := by
  have hexec := @exec_printIfAllPossibleStrings words functionName value hwords.isWord p c hp
  constructor
  · intro s v hv
    rw [hexec, Option.map_eq_some_iff] at hv
    obtain ⟨w, hfound, rfl⟩ := hv
    obtain ⟨i, hi⟩ := List.mem_iff_getElem?.mp (List.mem_of_find?_eq_some hfound)
    have hmatches := List.find?_some hfound
    simp only [decide_eq_true_eq] at hmatches
    exact Or.inr ⟨i, w, hi, hmatches.2, hvalue i w hi⟩
  · intro s i w hw hmatches hpre
    refine iff_of_true ?_ trivial
    have hin : w ∈ words := List.mem_of_getElem? hw
    have hcond : p ++ [c] <+: w ++ [0] ∧ Matches w s :=
      ⟨hpre.trans (List.prefix_append ..), hmatches⟩
    rw [hexec]
    cases hfound : words.find? fun w => p ++ [c] <+: w ++ [0] ∧ Matches w s with
    | none =>
      have hnot := List.find?_eq_none.mp hfound w hin
      simp only [decide_eq_true_eq] at hnot
      exact absurd hcond hnot
    | some w' =>
      have hmatches' := List.find?_some hfound
      simp only [decide_eq_true_eq] at hmatches'
      obtain rfl :=
        hwords.eq_of_matches hin (List.mem_of_find?_eq_some hfound) hmatches hmatches'.2
      rw [Option.map_some, hvalue i w hw]

theorem exec_printCases (hloaded : Loaded fsp words) {levels : ℕ} {p : List UInt8} (hp : 0 ∉ p)
    (body : UInt8 → Option Block) (chars : List UInt8)
    (hbody : ∀ c ∈ chars, matching words (p ++ [c]) ≠ [] →
      ∃ block, body c = some block ∧ Answers words value block levels (p ++ [c])) :
    ∃ cases, printCases fsp p body chars = some cases ∧ ∀ x,
      (x ∈ chars → matching words (p ++ [x]) ≠ [] →
        ∃ block, Answers words value block levels (p ++ [x]) ∧
          ∀ s, cases.exec value s x = block.exec value s) ∧
      (¬(x ∈ chars ∧ matching words (p ++ [x]) ≠ []) → ∀ s, cases.exec value s x = none) := by
  induction chars with
  | nil =>
    refine ⟨.nil, rfl, fun x => ⟨fun hx => absurd hx List.not_mem_nil, fun _ s => rfl⟩⟩
  | cons c chars ih =>
    obtain ⟨rest, hrest, hexec⟩ := ih fun d hd => hbody d (List.mem_cons_of_mem _ hd)
    have hcount : (hasStringsWithNConsecutiveChars fsp 0 (p ++ [c]) (p.length + 1)).1 ≠ 0 ↔
        matching words (p ++ [c]) ≠ [] := by
      rw [hasStrings_eq hloaded hp, ne_eq, List.length_eq_zero_iff]
    rw [printCases]
    by_cases hne : matching words (p ++ [c]) = []
    · rw [if_neg fun h => hcount.mp h hne]
      refine ⟨rest, hrest, fun x => ⟨fun hx hx' => ?_, fun hx => ?_⟩⟩
      · rcases List.mem_cons.mp hx with rfl | hx
        · exact absurd hne hx'
        · exact (hexec x).1 hx hx'
      · exact (hexec x).2 fun h => hx ⟨List.mem_cons_of_mem _ h.1, h.2⟩
    · obtain ⟨block, hblock, hanswers⟩ := hbody c (List.mem_cons_self ..) hne
      rw [if_pos (hcount.mpr hne), hblock, hrest]
      refine ⟨.case c block rest, rfl, fun x => ?_⟩
      by_cases hxc : x = c
      · subst hxc
        refine ⟨fun _ _ => ⟨block, hanswers, fun s => ?_⟩, fun hx => ?_⟩
        · rw [Cases.exec, if_pos rfl]
        · exact absurd ⟨List.mem_cons_self .., hne⟩ hx
      · refine ⟨fun hx hx' => ?_, fun hx s => ?_⟩
        · obtain ⟨block, hanswers, hsame⟩ :=
            (hexec x).1 ((List.mem_cons.mp hx).resolve_left hxc) hx'
          refine ⟨block, hanswers, fun s => ?_⟩
          rw [Cases.exec, if_neg hxc, hsame]
        · rw [Cases.exec, if_neg hxc]
          exact (hexec x).2 (fun h => hx ⟨List.mem_cons_of_mem _ h.1, h.2⟩) s

/-- A `switch` answers one level further on. -/
theorem answers_switch (hwords : WordList words) {levels : ℕ} {p : List UInt8} (hp : 0 ∉ p)
    (hcrowded : Crowded words p) {cases : Cases}
    (hexec : ∀ x,
      (x ∈ nextChars → matching words (p ++ [x]) ≠ [] →
        ∃ block, Answers words value block levels (p ++ [x]) ∧
          ∀ s, cases.exec value s x = block.exec value s) ∧
      (¬(x ∈ nextChars ∧ matching words (p ++ [x]) ≠ []) → ∀ s, cases.exec value s x = none)) :
    Answers words value (.switch p.length cases .done) (levels + 1) p := by
  have hswitch (s : List UInt8) : (Block.switch p.length cases .done).exec value s =
      cases.exec value s (toUpper (charAt s p.length)) := by
    rw [Block.exec, Block.exec, Option.or_none]
  constructor
  · intro s v hv
    rw [hswitch] at hv
    by_cases hlabel : toUpper (charAt s p.length) ∈ nextChars ∧
        matching words (p ++ [toUpper (charAt s p.length)]) ≠ []
    · obtain ⟨block, hanswers, hsame⟩ := (hexec _).1 hlabel.1 hlabel.2
      exact hanswers.sound s v (hsame s ▸ hv)
    · rw [(hexec _).2 hlabel s] at hv
      exact absurd hv (by simp)
  · intro s i w hw hmatches hpre
    have hin : w ∈ words := List.mem_of_getElem? hw
    have hlt : p.length < w.length := by
      rcases Nat.eq_or_lt_of_le hpre.length_le with heq | hlt
      · exact absurd (hpre.eq_of_length heq ▸ hin) (hcrowded.notMem hwords hp)
      · exact hlt
    have hnext : p ++ [charAt w p.length] <+: w := by
      rw [charAt_eq hlt]
      exact List.concat_get_prefix hpre hlt
    rw [hswitch, hmatches.toUpper_charAt (hwords.isWord w hin) hlt, Reached]
    by_cases hlabel : charAt w p.length ∈ nextChars
    · have hfound : matching words (p ++ [charAt w p.length]) ≠ [] :=
        List.ne_nil_of_mem (mem_matching.mpr ⟨w, hw, hnext.trans (List.prefix_append ..)⟩)
      obtain ⟨block, hanswers, hsame⟩ := (hexec _).1 hlabel hfound
      rw [hsame, hanswers.complete s i w hw hmatches hnext]
      constructor
      · intro h
        exact ⟨⟨_, hlabel, hnext.trans (List.prefix_append ..)⟩, fun _ => h⟩
      · exact fun h => h.2 hcrowded
    · rw [(hexec _).2 (fun h => hlabel h.1) s]
      refine iff_of_false (by simp) fun h => hlabel ?_
      obtain ⟨c, hc, hcw⟩ := h.1
      have heq : p ++ [c] = p ++ [charAt w p.length] :=
        (List.prefix_of_prefix_length_le hcw (hnext.trans (List.prefix_append ..))
          (by simp)).eq_of_length (by simp)
      have hsame : c = charAt w p.length := by simpa using heq
      exact hsame ▸ hc

theorem answers_single (hwords : WordList words) (hvalue : Numbered words functionName value)
    {levels : ℕ} {p w : List UInt8} {j : ℕ} (hcounted : counted words p = [j])
    (hj : words[j]? = some w) :
    Answers words value
      (.ifShorter w.length (.ifWord w w.length (functionName ++ [95] ++ convertToEnumID w) .done))
      (levels + 1) p := by
  have hword : IsWord w := hwords.isWord w (List.mem_of_getElem? hj)
  have hexec (s : List UInt8) : Block.exec value s (.ifShorter w.length
      (.ifWord w w.length (functionName ++ [95] ++ convertToEnumID w) .done)) =
      if s.length < w.length then some 0 else if Matches w s then some (j + 1) else none := by
    rw [Block.exec, Block.exec, Block.exec, hvalue j w hj]
    simp only [strncasecmpEq_word hword]
  constructor
  · intro s v hv
    rw [hexec] at hv
    split at hv
    · exact Or.inl (Option.some.inj hv).symm
    split at hv
    · rename_i hmatches
      exact Or.inr ⟨j, w, hj, hmatches, (Option.some.inj hv).symm⟩
    · exact absurd hv (by simp)
  · intro s i w' hw' hmatches _
    rw [hexec, Reached]
    by_cases hc : Counted w' p
    · have hi : i ∈ counted words p := mem_counted.mpr ⟨w', hw', hc⟩
      rw [hcounted, List.mem_singleton] at hi
      subst hi
      obtain rfl := Option.some.inj (hj.symm.trans hw')
      rw [if_neg (Nat.not_lt.mpr hmatches.length_le), if_pos hmatches]
      refine iff_of_true rfl ⟨hc, fun hcrowded => ?_⟩
      have hmany := (crowded_iff hwords p).mpr hcrowded
      simp [hcounted] at hmany
    · refine iff_of_false (fun h => hc ?_) (fun h => hc h.1)
      have hi : i = j := by
        split at h
        · simp at h
        split at h
        · simpa using h.symm
        · exact absurd h (by simp)
      subst hi
      obtain ⟨w'', hw'', hcw⟩ := mem_counted.mp (hcounted ▸ List.mem_singleton_self i)
      obtain rfl := Option.some.inj (hw''.symm.trans hw')
      exact hcw

theorem answers_error (p w : List UInt8) (levels : ℕ) (hcounted : counted words p = []) :
    Answers words value (.error w .done) (levels + 1) p := by
  constructor
  · intro s v hv
    exact absurd hv (by simp [Block.exec])
  · intro s i w hw hmatches _
    refine iff_of_false (by simp [Block.exec]) fun h => ?_
    have hi : i ∈ counted words p := mem_counted.mpr ⟨w, hw, h.1⟩
    rw [hcounted] at hi
    exact absurd hi List.not_mem_nil

/-- One level of the traversal, whatever stands behind its labels. -/
theorem recursiveTraverser_step (hloaded : Loaded fsp words) (hwords : WordList words)
    (hvalue : Numbered words functionName value) (hne : words ≠ []) (levels : ℕ)
    {p : List UInt8} (hp : 0 ∉ p)
    (hbody : ∀ c, 0 ∉ p ++ [c] → ∃ block,
      (if 0 < levels then recursiveTraverser fsp functionName levels (p ++ [c])
        else some (printIfAllPossibleStrings functionName (p ++ [c]) fsp.contents)) = some block ∧
        Answers words value block levels (p ++ [c])) :
    ∃ block, recursiveTraverser fsp functionName (levels + 1) p = some block ∧
      Answers words value block (levels + 1) p := by
  rw [recursiveTraverser, countStrings_eq hloaded hp]
  by_cases hmany : 1 < (counted words p).length
  · have hcrowded := (crowded_iff hwords p).mp hmany
    obtain ⟨cases, hcases, hexec⟩ := @exec_printCases fsp words value hloaded levels p hp
      (fun c => if 0 < levels then recursiveTraverser fsp functionName levels (p ++ [c])
        else some (printIfAllPossibleStrings functionName (p ++ [c]) fsp.contents)) nextChars
      fun c _ hfound => by
        apply hbody
        intro hzero
        -- the label of the NUL would be for a word that is all of `p`
        obtain rfl : 0 = c := by simpa [hp] using hzero
        obtain ⟨i, hi⟩ := List.exists_mem_of_ne_nil _ hfound
        obtain ⟨w, hw, hpre⟩ := mem_matching.mp hi
        have hpw : p = w :=
          eq_of_nul_isPrefix (hwords.isWord w (List.mem_of_getElem? hw)).zero_notMem hpre
        exact hcrowded.notMem hwords hp (hpw ▸ List.mem_of_getElem? hw)
    simp only [if_pos hmany, hcases]
    exact ⟨_, rfl, answers_switch hwords hp hcrowded hexec⟩
  · simp only [if_neg hmany, hloaded.contents, List.getElem?_map]
    cases hcounted : counted words p with
    | nil =>
      obtain ⟨w, rest, rfl⟩ := List.exists_cons_of_ne_nil hne
      exact ⟨_, rfl, answers_error p w levels hcounted⟩
    | cons j rest =>
      obtain rfl : rest = [] := by
        rw [hcounted] at hmany
        simpa using hmany
      obtain ⟨w, hj, -⟩ := mem_counted.mp (hcounted ▸ List.mem_singleton_self j)
      refine ⟨_, ?_, answers_single hwords hvalue hcounted hj⟩
      rw [show [j].getLastD 0 = j from rfl, hj]
      rfl

theorem recursiveTraverser_answers (hloaded : Loaded fsp words) (hwords : WordList words)
    (hvalue : Numbered words functionName value) (hne : words ≠ []) (levels : ℕ)
    {p : List UInt8} (hp : 0 ∉ p) :
    ∃ block, recursiveTraverser fsp functionName (levels + 1) p = some block ∧
      Answers words value block (levels + 1) p := by
  induction levels generalizing p with
  | zero =>
    apply recursiveTraverser_step hloaded hwords hvalue hne 0 hp
    intro c _
    refine ⟨_, if_neg (lt_irrefl 0), ?_⟩
    rw [hloaded.contents]
    exact answers_printIfAllPossibleStrings hwords hvalue hp
  | succ levels ih =>
    apply recursiveTraverser_step hloaded hwords hvalue hne (levels + 1) hp
    intro c hc
    rw [if_pos (Nat.succ_pos levels)]
    exact ih hc

end Traversal

/-! When every word is reached and the enumerator is one. -/

theorem counted_iff {w p : List UInt8} (hw : IsWord w) (hpre : p <+: w) :
    Counted w p ↔ w ≠ p ++ [58] := by
  obtain ⟨rest, rfl⟩ := hpre
  constructor
  · rintro ⟨c, hc, hcw⟩ heq
    obtain rfl : rest = [58] := List.append_cancel_left heq
    rw [List.append_assoc, List.prefix_append_right_inj, List.singleton_append] at hcw
    obtain rfl := (List.cons_prefix_cons.mp hcw).1
    exact absurd hc (by decide)
  · intro hne
    cases rest with
    | nil => exact ⟨0, by decide, by simp⟩
    | cons c rest =>
      refine ⟨c, ?_, by simp⟩
      rcases List.mem_append.mp (hw.mem (List.mem_append_right p (List.mem_cons_self ..))) with
        hc | hc
      · exact List.mem_append_left _ hc
      · obtain rfl := List.mem_singleton.mp hc
        cases rest with
        | nil => exact absurd rfl hne
        | cons d rest => exact List.mem_append_left _ hw.accepted

/-- The words do not keep each other from being reached. -/
structure Reachable (words : List (List UInt8)) : Prop where
  sentinel : [58] ∉ words
  letter : ∀ c, [c, 58] ∈ words → words.length = 1
  letters : ∀ c d, [c, d, 58] ∈ words → ∀ w ∈ words, w.head? = some c → w = [c, d, 58]

theorem reachable_of_reached {words : List (List UInt8)} (hwords : WordList words)
    (hreached : ∀ w ∈ words, Reached words w ACTIVATED_LEVELS []) : Reachable words := by
  have hcounted (w : List UInt8) (hw : w ∈ words) : Counted w [] := (hreached w hw).1
  have hcrowded {w w' : List UInt8} (hw : w ∈ words) (hw' : w' ∈ words) (hne : w ≠ w') :
      Crowded words [] := ⟨w, hw, w', hw', hne, hcounted w hw, hcounted w' hw'⟩
  refine ⟨fun hin => ?_, fun c hin => ?_, fun c d hin w hw hhead => ?_⟩
  · exact (counted_iff (hwords.isWord _ hin) (List.nil_prefix)).mp (hcounted _ hin) rfl
  · by_contra hlength
    obtain ⟨w, hw, hne⟩ : ∃ w ∈ words, w ≠ [c, 58] := by
      by_contra hall
      push Not at hall
      apply hlength
      have hrep := List.eq_replicate_of_mem hall
      have hle := List.nodup_replicate.mp (hrep ▸ hwords.distinct)
      have hpos := List.length_pos_of_mem hin
      omega
    have hnext := (hreached _ hin).2 (hcrowded hin hw hne.symm)
    exact (counted_iff (hwords.isWord _ hin) (by exact ⟨[58], rfl⟩)).mp hnext.1 rfl
  · by_contra hne
    have hmany := hcrowded hin hw (Ne.symm hne)
    have hnext := (hreached _ hin).2 hmany
    have hother := ((hreached w hw).2 hmany).1
    have hc : charAt w 0 = c := by
      cases w with
      | nil => simp at hhead
      | cons c' w => simpa [charAt] using hhead
    have hsecond : Crowded words [c] :=
      ⟨_, hin, w, hw, Ne.symm hne, hnext.1, hc ▸ hother⟩
    have hthird := (hnext.2 hsecond).1
    exact (counted_iff (hwords.isWord _ hin) (by exact ⟨[58], rfl⟩)).mp hthird rfl

theorem Reachable.reached {words : List (List UInt8)} (hreachable : Reachable words)
    (hwords : WordList words) : ∀ w ∈ words, Reached words w ACTIVATED_LEVELS [] := by
  intro w hw
  have hword := hwords.isWord w hw
  refine ⟨(counted_iff hword List.nil_prefix).mpr ?_, ?_⟩
  · rintro rfl
    exact hreachable.sentinel hw
  intro hfirst
  obtain ⟨c, rest, rfl⟩ : ∃ c rest, w = c :: rest := by
    apply List.exists_cons_of_ne_nil
    rintro rfl
    exact hfirst.notMem hwords List.not_mem_nil hw
  have hc : (0 : UInt8) ∉ [c] := fun h =>
    hword.zero_notMem (List.mem_singleton.mp h ▸ List.mem_cons_self ..)
  refine ⟨(counted_iff hword ⟨rest, rfl⟩).mpr fun heq => ?_, ?_⟩
  · obtain ⟨u, hu, u', hu', hne, -, -⟩ := hfirst
    have heq : c :: rest = [c, 58] := heq
    obtain ⟨v, hv⟩ := List.length_eq_one_iff.mp (hreachable.letter c (heq ▸ hw))
    rw [hv, List.mem_singleton] at hu hu'
    exact hne (hu.trans hu'.symm)
  intro hsecond
  obtain ⟨d, rest, rfl⟩ : ∃ d rest', rest = d :: rest' := by
    apply List.exists_cons_of_ne_nil
    rintro rfl
    exact hsecond.notMem hwords hc hw
  refine ⟨(counted_iff hword ⟨rest, rfl⟩).mpr fun heq => ?_, fun _ => trivial⟩
  obtain ⟨u, hu, u', hu', hne, hcu, hcu'⟩ := hsecond
  have heq : c :: d :: rest = [c, d, 58] := heq
  have hall {v : List UInt8} (hv : v ∈ words) (hcv : Counted v [c]) : v = [c, d, 58] := by
    apply hreachable.letters c d (heq ▸ hw) v hv
    obtain ⟨tail, rfl⟩ := hcv.isPrefix hc
    rfl
  exact hne ((hall hu hcu).trans (hall hu' hcu').symm)

/-- The scanner of the list takes an input for the word that is a prefix of it. -/
def Recognises (functionName : List UInt8) (words : List (List UInt8)) : Prop :=
  ∃ scanner, generate functionName words = some scanner ∧ scanner.Compiles ∧ ∀ s, 0 ∉ s →
    (∀ i w, words[i]? = some w → Matches w s → scanner.scanFor s = i + 1) ∧
    ((∀ w ∈ words, ¬Matches w s) → scanner.scanFor s = 0)

/-- The identifiers make an enumerator. -/
structure Enumerable (words : List (List UInt8)) : Prop where
  distinct : (words.map identifier).Nodup
  unreserved : ∀ w ∈ words,
    identifier w ∉ [ascii "EMPTY", ascii "END_OF_ITEMS", ascii "H_INCLUDED"]

theorem enumerators_eq {fsp : FastStringParser} {words : List (List UInt8)}
    (hloaded : Loaded fsp words) (hwords : WordList words) (functionName : List UInt8) :
    printAllEnumeratorItems fsp functionName =
      (ascii "EMPTY" :: (words.map identifier ++ [ascii "END_OF_ITEMS"])).map
        fun id => functionName ++ 95 :: id := by
  have hids : words.map convertToEnumID = words.map identifier :=
    List.map_congr_left fun w hw => convertToEnumID_eq (hwords.isWord w hw)
  have hmap : fsp.contents.map (fun s => functionName ++ [95] ++ s.strIDFriendly) =
      (words.map identifier).map fun id => functionName ++ 95 :: id := by
    rw [← hids, hloaded.contents, List.map_map, List.map_map]
    apply List.map_congr_left
    intro w _
    simp
  rw [printAllEnumeratorItems, hmap, List.map_cons, List.map_append]
  rfl

theorem compiles_iff {scanner : Scanner} {fsp : FastStringParser} {words : List (List UInt8)}
    (hloaded : Loaded fsp words) (hwords : WordList words) {functionName : List UInt8}
    (hguard : scanner.includeGuard = functionName ++ ascii "_H_INCLUDED")
    (henumerators : scanner.enumerators = printAllEnumeratorItems fsp functionName) :
    scanner.Compiles ↔ Enumerable words := by
  have hinjective : Function.Injective fun id => functionName ++ 95 :: id := by
    intro id id' h
    simpa using h
  have hguard : scanner.includeGuard = (fun id => functionName ++ 95 :: id) (ascii "H_INCLUDED") :=
    hguard
  rw [Scanner.Compiles, henumerators, enumerators_eq hloaded hwords, hguard,
    List.nodup_map_iff hinjective, List.mem_map_of_injective hinjective]
  have hne : ascii "EMPTY" ≠ ascii "END_OF_ITEMS" := by decide
  have hne' : ascii "H_INCLUDED" ≠ ascii "EMPTY" := by decide
  have hne'' : ascii "H_INCLUDED" ≠ ascii "END_OF_ITEMS" := by decide
  rw [List.nodup_cons, List.nodup_append]
  simp only [List.mem_append, List.mem_cons, List.not_mem_nil, or_false, hne, hne', hne'', false_or]
  constructor
  · rintro ⟨⟨hempty, hnodup, -, hend⟩, hguard⟩
    refine ⟨hnodup, fun w hw h => ?_⟩
    have hin : identifier w ∈ words.map identifier := List.mem_map_of_mem hw
    simp only [List.mem_cons, List.not_mem_nil, or_false] at h
    rcases h with h | h | h
    · exact hempty (h ▸ hin)
    · exact hend _ hin _ rfl h
    · exact hguard (h ▸ hin)
  · rintro ⟨hnodup, hfree⟩
    have hnot {id : List UInt8}
        (hid : id ∈ [ascii "EMPTY", ascii "END_OF_ITEMS", ascii "H_INCLUDED"]) :
        id ∉ words.map identifier := by
      intro hin
      obtain ⟨w, hw, rfl⟩ := List.mem_map.mp hin
      exact hfree w hw hid
    refine ⟨⟨hnot (by simp), hnodup, List.nodup_singleton _, ?_⟩, hnot (by simp)⟩
    rintro id hid _ rfl rfl
    exact hnot (by simp) hid

theorem numbered_of_nodup {fsp : FastStringParser} {words : List (List UInt8)}
    (hloaded : Loaded fsp words) (functionName : List UInt8)
    (hnodup : (printAllEnumeratorItems fsp functionName).Nodup) :
    Numbered words functionName fun id => (printAllEnumeratorItems fsp functionName).idxOf id := by
  intro i w hw
  have hat : (printAllEnumeratorItems fsp functionName)[i + 1]? =
      some (functionName ++ [95] ++ convertToEnumID w) := by
    have hlt : i < words.length := (List.getElem?_eq_some_iff.mp hw).1
    rw [printAllEnumeratorItems, hloaded.contents, List.map_map, List.append_assoc,
      List.singleton_append, List.getElem?_cons_succ,
      List.getElem?_append_left (by rwa [List.length_map]), List.getElem?_map, hw]
    rfl
  obtain ⟨hlt, hget⟩ := List.getElem?_eq_some_iff.mp hat
  rw [← hget]
  exact hnodup.idxOf_getElem _ hlt

theorem generate_eq_some_iff {functionName : List UInt8} {words : List (List UInt8)}
    {scanner : Scanner} :
    generate functionName words = some scanner ↔
      ∃ block, recursiveTraverser (words.foldl addString initialFsp) (convertToEnumID functionName)
          ACTIVATED_LEVELS [] = some block ∧
        scanner = {
          includeGuard := convertToEnumID functionName ++ ascii "_H_INCLUDED"
          enumerators := printAllEnumeratorItems (words.foldl addString initialFsp)
            (convertToEnumID functionName)
          shortestStringLength := (words.foldl addString initialFsp).shortestStringLength
          body := block } := by
  simp only [generate, exportCScanner, Option.bind_eq_bind, Option.bind_eq_some_iff,
    Option.pure_def, Option.some.injEq]
  exact exists_congr fun block => and_congr_right fun _ => eq_comm

theorem generate_nil (functionName : List UInt8) : generate functionName [] = none := by
  have hloaded : Loaded initialFsp [] := loaded_foldl []
  have htraverser : recursiveTraverser initialFsp (convertToEnumID functionName) ACTIVATED_LEVELS
      [] = none := by
    rw [ACTIVATED_LEVELS, recursiveTraverser, countStrings_eq hloaded List.not_mem_nil]
    rfl
  rw [generate, List.foldl_nil, exportCScanner, htraverser]
  rfl

theorem matches_self (w : List UInt8) : Matches w w := by
  rw [Matches, List.take_length]
  rfl

theorem Answers.scanFor {words : List (List UInt8)} {scanner : Scanner} {s : List UInt8}
    (hanswers : Answers words scanner.value scanner.body ACTIVATED_LEVELS [])
    (hshortest : ∀ w ∈ words, scanner.shortestStringLength ≤ w.length) {i : ℕ} {w : List UInt8}
    (hw : words[i]? = some w) (hmatches : Matches w s) :
    scanner.scanFor s = i + 1 ↔ Reached words w ACTIVATED_LEVELS [] := by
  have hle : ¬s.length < scanner.shortestStringLength := by
    have h1 := hshortest w (List.mem_of_getElem? hw)
    have h2 := hmatches.length_le
    omega
  rw [Scanner.scanFor, if_neg hle, ← hanswers.complete s i w hw hmatches List.nil_prefix]
  cases scanner.body.exec scanner.value s <;> simp

theorem Answers.scanFor_eq_zero {words : List (List UInt8)} {scanner : Scanner} {s : List UInt8}
    (hanswers : Answers words scanner.value scanner.body ACTIVATED_LEVELS [])
    (hnone : ∀ w ∈ words, ¬Matches w s) : scanner.scanFor s = 0 := by
  rw [Scanner.scanFor]
  split
  · rfl
  cases hexec : scanner.body.exec scanner.value s with
  | none => rfl
  | some v =>
    rcases hanswers.sound s v hexec with rfl | ⟨i, w, hw, hmatches, -⟩
    · rfl
    · exact absurd hmatches (hnone w (List.mem_of_getElem? hw))

theorem wordList_of_sentinels {words : List (List UInt8)}
    (hwords : ∀ w ∈ words, (∀ c ∈ w.dropLast, c ∈ acceptedChars) ∧ w.getLast? = some 58)
    (hdistinct : words.Nodup) (hfree : ∀ w ∈ words, ∀ w' ∈ words, w <+: w' → w = w') :
    WordList words := by
  refine ⟨fun w hw => ⟨w.dropLast, (hwords w hw).1, Or.inr ?_⟩, hdistinct, hfree⟩
  exact (List.dropLast_append_getLast? 58 (hwords w hw).2).symm

end AmmarServer.StringRecognizer
