import AmmarServer.Lib.Bytes
import AmmarServer.StringRecognizer.FastStringParser

/-! What the generator reads off a list of words: identifiers, and the words that begin with a
sequence. -/

namespace AmmarServer.StringRecognizer
open CString HeaderAnalysis

/-- A word over the accepted characters, with or without the sentinel `:`. -/
def IsWord (w : List UInt8) : Prop :=
  ∃ body, (∀ c ∈ body, c ∈ acceptedChars) ∧ (w = body ∨ w = body ++ [58])

structure WordList (words : List (List UInt8)) : Prop where
  isWord : ∀ w ∈ words, IsWord w
  distinct : words.Nodup
  prefix_free : ∀ w ∈ words, ∀ w' ∈ words, w <+: w' → w = w'

/-- The word in C: no sentinel, and `_` for `-`. -/
def identifier (w : List UInt8) : List UInt8 :=
  (w.filter (· ≠ 58)).map fun c => if c = 45 then 95 else c

theorem accepted_facts : ∀ c ∈ acceptedChars, c ≠ 0 ∧ c ≠ 58 ∧ c ≠ 46 ∧ toUpper c = c ∧
    (c ≠ 95 → c ≠ 45 → (65 ≤ c ∧ c ≤ 90) ∨ (48 ≤ c ∧ c ≤ 57)) := by
  decide +kernel

/-- The label that is looked for is the word's byte, in whatever spelling the input has it. -/
theorem toUpper_of_toLower {x c : UInt8} (hc : c ∈ acceptedChars ++ [58])
    (h : toLower x = toLower c) : toUpper x = c := by
  have hlower : ∀ y : UInt8, toUpper (toLower y) = toUpper y := by
    apply Bytes.forall_byte
    decide +kernel
  have hupper : toUpper c = c := by
    rcases List.mem_append.mp hc with hc | hc
    · exact (accepted_facts c hc).2.2.2.1
    · rw [List.mem_singleton.mp hc]
      decide
  calc toUpper x = toUpper (toLower x) := (hlower x).symm
    _ = toUpper (toLower c) := congrArg toUpper h
    _ = c := (hlower c).trans hupper

theorem IsWord.zero_notMem {w : List UInt8} (hw : IsWord w) : 0 ∉ w := by
  obtain ⟨body, hbody, rfl | rfl⟩ := hw
  · exact fun h => (accepted_facts 0 (hbody 0 h)).1 rfl
  · intro h
    rcases List.mem_append.mp h with h | h
    · exact (accepted_facts 0 (hbody 0 h)).1 rfl
    · exact absurd (List.mem_singleton.mp h) (by decide)

theorem IsWord.mem {w : List UInt8} (hw : IsWord w) {c : UInt8} (hc : c ∈ w) :
    c ∈ acceptedChars ++ [58] := by
  obtain ⟨body, hbody, rfl | rfl⟩ := hw
  · exact List.mem_append_left _ (hbody c hc)
  · rcases List.mem_append.mp hc with hc | hc
    · exact List.mem_append_left _ (hbody c hc)
    · exact List.mem_append_right _ hc

theorem IsWord.accepted {p rest : List UInt8} {c d : UInt8} (hw : IsWord (p ++ c :: d :: rest)) :
    c ∈ acceptedChars := by
  obtain ⟨body, hbody, h | h⟩ := hw
  · apply hbody
    rw [← h]
    simp
  · have hlast : p ++ c :: d :: rest =
        (p ++ c :: (d :: rest).dropLast) ++ [(d :: rest).getLast (by simp)] := by
      rw [List.append_assoc, List.cons_append, List.dropLast_append_getLast]
    rw [hlast] at h
    have hbodyEq := (List.append_inj' h rfl).1
    apply hbody
    rw [← hbodyEq]
    simp

/-! The identifiers. -/

theorem convertToEnumIDLoop_accepted {body : List UInt8} (hbody : ∀ c ∈ body, c ∈ acceptedChars)
    (done rest : List UInt8) {fuel : ℕ} (hfuel : body.length ≤ fuel) :
    convertToEnumIDLoop fuel (done ++ body ++ rest) done.length done.length =
      convertToEnumIDLoop (fuel - body.length)
        (done ++ body.map (fun c => if c = 45 then 95 else c) ++ rest)
        (done.length + body.length) (done.length + body.length) := by
  induction body generalizing done fuel with
  | nil => simp
  | cons c body ih =>
    obtain ⟨fuel, rfl⟩ : ∃ n, fuel = n + 1 := ⟨fuel - 1, by simp at hfuel; omega⟩
    obtain ⟨h0, -, h46, hupper, hrange⟩ := accepted_facts c (hbody c (List.mem_cons_self ..))
    have hat : charAt (done ++ c :: body ++ rest) done.length = c := by simp [charAt]
    have hset (d : UInt8) :
        (done ++ c :: body ++ rest).set done.length d = (done ++ [d]) ++ body ++ rest := by
      simp
    have hfuel : body.length ≤ fuel := by simpa using hfuel
    have hrest (d : UInt8) := ih (fun c hc => hbody c (List.mem_cons_of_mem _ hc)) (done ++ [d]) hfuel
    have hsame : (done ++ [c]) ++ body ++ rest = done ++ c :: body ++ rest := by simp
    rw [convertToEnumIDLoop]
    simp only [hat, h0, or_self, if_false, hupper, hset]
    rw [hsame, hat]
    have hstep (d : UInt8) : convertToEnumIDLoop fuel (done ++ [d] ++ body ++ rest)
          (done.length + 1) (done.length + 1) =
        convertToEnumIDLoop (fuel + 1 - (c :: body).length)
          (done ++ d :: body.map (fun c => if c = 45 then 95 else c) ++ rest)
          (done.length + (c :: body).length) (done.length + (c :: body).length) := by
      have := hrest d
      simp only [List.length_append, List.length_cons, List.length_nil, zero_add] at this
      have hlen : done.length + 1 + body.length = done.length + (c :: body).length := by
        simp only [List.length_cons]
        omega
      rw [this, hlen]
      simp
    by_cases h95 : c = 95
    · rw [if_pos h95, ← hsame, hstep, List.map_cons, if_neg (by rw [h95]; decide)]
    rw [if_neg h95]
    by_cases h45 : c = 45
    · rw [if_pos (Or.inl h45), hset, hstep, List.map_cons, if_pos h45]
    · rw [if_neg (by simp [h45, h46]), if_pos (hrange h95 h45), ← hsame, hstep, List.map_cons,
        if_neg h45]

theorem identifier_accepted {body : List UInt8} (hbody : ∀ c ∈ body, c ∈ acceptedChars) :
    identifier body = body.map fun c => if c = 45 then 95 else c := by
  have hall : body.filter (· ≠ 58) = body := by
    apply List.filter_eq_self.mpr
    intro c hc
    simpa using (accepted_facts c (hbody c hc)).2.1
  rw [identifier, hall]

theorem cstring_identifier {body : List UInt8} (hbody : ∀ c ∈ body, c ∈ acceptedChars) :
    cstring (identifier body) = identifier body := by
  apply cstring_of_notMem
  rw [identifier_accepted hbody]
  intro h
  obtain ⟨c, hc, hzero⟩ := List.mem_map.mp h
  have hne : c ≠ 0 := (accepted_facts c (hbody c hc)).1
  split at hzero
  · exact absurd hzero (by decide)
  · exact hne hzero

/-- The sentinel is overwritten by the NUL behind it. -/
theorem convertToEnumID_eq {w : List UInt8} (hw : IsWord w) :
    convertToEnumID w = identifier w := by
  obtain ⟨body, hbody, rfl | rfl⟩ := hw
  · have hloop := convertToEnumIDLoop_accepted hbody [] [] (Nat.le_succ w.length)
    have hend (s : List UInt8) :
        convertToEnumIDLoop 1 s s.length s.length = s := by
      simp [convertToEnumIDLoop, charAt]
    simp only [List.nil_append, List.append_nil, List.length_nil, zero_add,
      Nat.succ_eq_add_one, Nat.add_sub_cancel_left] at hloop
    rw [convertToEnumID, hloop, ← cstring_identifier hbody, identifier_accepted hbody]
    have hlast := hend (w.map fun c => if c = 45 then 95 else c)
    rw [List.length_map] at hlast
    rw [hlast]
  · have hloop := @convertToEnumIDLoop_accepted body hbody [] [58] (body.length + 2) (by omega)
    have hend (s : List UInt8) :
        convertToEnumIDLoop 2 (s ++ [58]) s.length s.length = s ++ [0] := by
      have hupper : toUpper 58 = 58 := by decide
      simp [convertToEnumIDLoop, charAt, hupper]
    have hlast := hend (body.map fun c => if c = 45 then 95 else c)
    simp only [List.nil_append, List.length_nil, zero_add, Nat.add_sub_cancel_left] at hloop
    rw [List.length_map] at hlast
    rw [convertToEnumID, List.length_append, List.length_singleton, hloop, hlast,
      ← identifier_accepted hbody, show identifier (body ++ [58]) = identifier body by
        simp [identifier]]
    have hzero : 0 ∉ identifier body := by
      rw [← cstring_identifier hbody]
      exact zero_notMem_cstring _
    exact cstring_append hzero []

/-! The words that begin with a sequence. The NUL behind a word is one of its bytes here. -/

theorem beginsWith_iff {w p : List UInt8} {c : UInt8} (hp : 0 ∉ p) :
    beginsWith w (p ++ [c]) (p.length + 1) = true ↔ p ++ [c] <+: w ++ [0] := by
  have hlen : (p ++ [c]).length = p.length + 1 := by simp
  have hcount : beginsWith w (p ++ [c]) (p.length + 1) = true ↔
      ∀ k < p.length + 1, charAt w k = charAt (p ++ [c]) k := by
    rw [beginsWith, beq_iff_eq]
    have h := @List.countP_eq_length ℕ (List.range (p.length + 1))
      (fun count => charAt w count == charAt (p ++ [c]) count)
    simpa only [List.length_range, List.mem_range, beq_iff_eq] using h
  have hnul (k : ℕ) (hk : k < w.length + 1) : (w ++ [0])[k]? = some (charAt w k) := by
    rcases Nat.lt_or_ge k w.length with h | h
    · rw [List.getElem?_append_left h, charAt_eq h, List.getElem?_eq_getElem h]
    · obtain rfl : k = w.length := by omega
      simp [charAt]
  rw [hcount, List.prefix_iff_getElem?]
  constructor
  · intro h
    have hle : p.length ≤ w.length := by
      by_contra hgt
      -- a byte of `p` stands where the word has its NUL
      have hat := h w.length (by omega)
      have hin : w.length < (p ++ [c]).length := by omega
      rw [charAt_eq hin, List.getElem_append_left (by omega)] at hat
      apply hp
      rw [show (0 : UInt8) = charAt w w.length by simp [charAt], hat]
      exact List.getElem_mem _
    intro k hk
    rw [hnul k (by omega), h k (by omega), charAt_eq hk]
  · intro h k hk
    have hat := h k (by omega)
    have hkw : k < w.length + 1 := by
      have := (List.getElem?_eq_some_iff.mp hat).1
      simpa using this
    rw [hnul k hkw] at hat
    have hin : k < (p ++ [c]).length := by omega
    rw [charAt_eq hin]
    exact Option.some.inj hat

/-- A word that ends where the sequence has its NUL is all of it. -/
theorem eq_of_nul_isPrefix {w p : List UInt8} (hw : 0 ∉ w) (h : p ++ [0] <+: w ++ [0]) : p = w := by
  rcases List.prefix_concat_iff.mp h with heq | hpre
  · exact List.append_cancel_right heq
  · exact absurd (hpre.subset (List.mem_append_right _ (List.mem_singleton_self 0))) hw

/-- The indices of the words that begin with a sequence. -/
def matching (words : List (List UInt8)) (sequence : List UInt8) : List ℕ :=
  (words.zipIdx.filter fun s => sequence <+: s.1 ++ [0]).map Prod.snd

/-- The indices that `countStringsForNextChar` comes by. -/
def counted (words : List (List UInt8)) (p : List UInt8) : List ℕ :=
  nextChars.flatMap fun c => matching words (p ++ [c])

/-- A word that is counted behind `p`. -/
def Counted (w p : List UInt8) : Prop := ∃ c ∈ nextChars, p ++ [c] <+: w ++ [0]

theorem mem_matching {words : List (List UInt8)} {sequence : List UInt8} {i : ℕ} :
    i ∈ matching words sequence ↔ ∃ w, words[i]? = some w ∧ sequence <+: w ++ [0] := by
  simp [matching, List.mem_zipIdx_iff_getElem?]

theorem mem_counted {words : List (List UInt8)} {p : List UInt8} {i : ℕ} :
    i ∈ counted words p ↔ ∃ w, words[i]? = some w ∧ Counted w p := by
  simp only [counted, List.mem_flatMap, mem_matching, Counted]
  constructor
  · rintro ⟨c, hc, w, hw, hpre⟩
    exact ⟨w, hw, c, hc, hpre⟩
  · rintro ⟨w, hw, c, hc, hpre⟩
    exact ⟨c, hc, w, hw, hpre⟩

theorem nodup_matching (words : List (List UInt8)) (sequence : List UInt8) :
    (matching words sequence).Nodup := by
  apply List.Nodup.sublist (List.Sublist.map _ List.filter_sublist)
  rw [List.zipIdx_map_snd]
  exact List.nodup_range'

theorem nodup_counted (words : List (List UInt8)) (p : List UInt8) : (counted words p).Nodup := by
  apply List.nodup_flatMap.mpr
  refine ⟨fun c _ => nodup_matching words _, ?_⟩
  have hdistinct : nextChars.Pairwise (· ≠ ·) := by decide
  refine hdistinct.imp fun {c d} hne i hc hd => hne ?_
  obtain ⟨w, hw, hc⟩ := mem_matching.mp hc
  obtain ⟨w', hw', hd⟩ := mem_matching.mp hd
  obtain rfl : w = w' := Option.some.inj (hw.symm.trans hw')
  have heq : p ++ [c] = p ++ [d] :=
    (List.prefix_of_prefix_length_le hc hd (by simp)).eq_of_length (by simp)
  simpa using heq

/-- The parser that holds the words. -/
structure Loaded (fsp : FastStringParser) (words : List (List UInt8)) : Prop where
  contents : fsp.contents = words.map fun w => { str := w, strIDFriendly := convertToEnumID w }
  shortest : ∀ w ∈ words, fsp.shortestStringLength ≤ w.length

theorem Loaded.addString {fsp : FastStringParser} {words : List (List UInt8)}
    (hloaded : Loaded fsp words) (w : List UInt8) : Loaded (addString fsp w) (words ++ [w]) := by
  have hlength : fsp.contents.length = words.length := by rw [hloaded.contents, List.length_map]
  constructor
  · simp [StringRecognizer.addString, hloaded.contents]
  · intro w' hw'
    show (if _ then _ else _) ≤ _
    rcases List.mem_append.mp hw' with hw' | hw'
    · have hle := hloaded.shortest w' hw'
      have hpos : fsp.contents.length ≠ 0 := by
        rw [hlength]
        exact (List.length_pos_of_mem hw').ne'
      split <;> omega
    · obtain rfl := List.mem_singleton.mp hw'
      split <;> omega

theorem loaded_foldl (words : List (List UInt8)) :
    Loaded (words.foldl addString initialFsp) words := by
  induction words using List.reverseRecOn with
  | nil => exact ⟨rfl, fun w hw => absurd hw List.not_mem_nil⟩
  | append_singleton words w ih =>
    rw [List.foldl_append]
    exact ih.addString w

theorem foldl_matching (sequence : List UInt8) (seqLength : ℕ) {p : List UInt8 → Bool}
    (words : List (List UInt8)) (hp : ∀ w ∈ words, beginsWith w sequence seqLength = p w)
    (start count last : ℕ) :
    ((words.map fun w => ({ str := w, strIDFriendly := convertToEnumID w } : FspString)).zipIdx
        start).foldl
      (fun res s => if beginsWith s.1.str sequence seqLength then (res.1 + 1, s.2) else res)
      (count, last) =
    (count + (((words.zipIdx start).filter fun s => p s.1).map Prod.snd).length,
      (((words.zipIdx start).filter fun s => p s.1).map Prod.snd).getLastD last) := by
  induction words generalizing start count last with
  | nil => rfl
  | cons w words ih =>
    have ih := ih fun w hw => hp w (List.mem_cons_of_mem _ hw)
    rw [List.map_cons, List.zipIdx_cons, List.foldl_cons, List.zipIdx_cons]
    simp only [hp w (List.mem_cons_self ..)]
    cases h : p w with
    | false =>
      rw [if_neg Bool.false_ne_true, ih, List.filter_cons_of_neg (by simp [h])]
    | true =>
      rw [if_pos rfl, ih, List.filter_cons_of_pos (by simpa using h), List.map_cons,
        List.length_cons, List.getLastD_cons]
      congr 1
      omega

theorem hasStrings_eq {fsp : FastStringParser} {words : List (List UInt8)}
    (hloaded : Loaded fsp words) {p : List UInt8} (hp : 0 ∉ p) (c : UInt8) (last : ℕ) :
    hasStringsWithNConsecutiveChars fsp last (p ++ [c]) (p.length + 1) =
      ((matching words (p ++ [c])).length, (matching words (p ++ [c])).getLastD last) := by
  rw [hasStringsWithNConsecutiveChars, hloaded.contents,
    @foldl_matching (p ++ [c]) (p.length + 1) (fun w => decide (p ++ [c] <+: w ++ [0])) words
      (fun w _ => by
        rw [Bool.eq_iff_iff, decide_eq_true_iff]
        exact beginsWith_iff hp) 0 0 last, Nat.zero_add]
  rfl

theorem getLastD_append (l m : List ℕ) (last : ℕ) :
    m.getLastD (l.getLastD last) = (l ++ m).getLastD last := by
  induction l generalizing last with
  | nil => rfl
  | cons a l ih => rw [List.cons_append, List.getLastD_cons, List.getLastD_cons, ih]

theorem countStrings_eq {fsp : FastStringParser} {words : List (List UInt8)}
    (hloaded : Loaded fsp words) {p : List UInt8} (hp : 0 ∉ p) (last : ℕ) :
    countStringsForNextChar fsp last p =
      ((counted words p).length, (counted words p).getLastD last) := by
  have hloop (chars : List UInt8) (count last : ℕ) :
      chars.foldl
        (fun res c =>
          let found := hasStringsWithNConsecutiveChars fsp res.2 (p ++ [c]) (p.length + 1)
          (res.1 + found.1, found.2))
        (count, last) =
      (count + (chars.flatMap fun c => matching words (p ++ [c])).length,
        (chars.flatMap fun c => matching words (p ++ [c])).getLastD last) := by
    induction chars generalizing count last with
    | nil => rfl
    | cons c chars ih =>
      rw [List.foldl_cons, hasStrings_eq hloaded hp, ih, List.flatMap_cons,
        List.length_append, getLastD_append, Nat.add_assoc]
  rw [countStringsForNextChar, hloop nextChars 0 last, Nat.zero_add]
  rfl

end AmmarServer.StringRecognizer
