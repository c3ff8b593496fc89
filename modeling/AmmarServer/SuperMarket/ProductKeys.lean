import AmmarServer.Lib.Utf8
import AmmarServer.SuperMarket.State

/-! The keys of `normGreeklish` as texts. The rules on bytes are rules on letters, each letter is folded by
itself, and what is left is written in Latin letters. -/

namespace AmmarServer.SuperMarket
open Rewriting

/-! The rules on letters. -/

/-- A rule for one letter. -/
def letter (needle replacement : Char) : Rule Char := ([needle], [replacement])

def casefold : List (Rule Char) :=
  [letter 'Α' 'α', letter 'Β' 'β', letter 'Γ' 'γ', letter 'Δ' 'δ', letter 'Ε' 'ε', letter 'Ζ' 'ζ',
    letter 'Η' 'η', letter 'Θ' 'θ', letter 'Ι' 'ι', letter 'Κ' 'κ', letter 'Λ' 'λ', letter 'Μ' 'μ',
    letter 'Ν' 'ν', letter 'Ξ' 'ξ', letter 'Ο' 'ο', letter 'Π' 'π', letter 'Ρ' 'ρ', letter 'Σ' 'σ',
    letter 'Τ' 'τ', letter 'Υ' 'υ', letter 'Φ' 'φ', letter 'Χ' 'χ', letter 'Ψ' 'ψ', letter 'Ω' 'ω',
    letter 'Ά' 'ά', letter 'Έ' 'έ', letter 'Ή' 'ή', letter 'Ί' 'ί', letter 'Ό' 'ό', letter 'Ύ' 'ύ',
    letter 'Ώ' 'ώ', letter 'Ϊ' 'ϊ', letter 'Ϋ' 'ϋ']

def stripAccents : List (Rule Char) :=
  [letter 'ά' 'α', letter 'έ' 'ε', letter 'ή' 'η', letter 'ί' 'ι', letter 'ό' 'ο', letter 'ύ' 'υ',
    letter 'ώ' 'ω', letter 'ϊ' 'ι', letter 'ϋ' 'υ', letter 'ΐ' 'ι', letter 'ΰ' 'υ', letter 'ς' 'σ']

def greeklish : List (Rule Char) :=
  [(['ο', 'υ'], ['u']), (['ε', 'ι'], ['i']), (['ο', 'ι'], ['i']), (['υ', 'ι'], ['i']),
    (['α', 'ι'], ['e']), letter 'α' 'a', letter 'β' 'v', letter 'γ' 'g', letter 'δ' 'd',
    letter 'ε' 'e', letter 'ζ' 'z', letter 'η' 'i', (['θ'], ['t', 'h']), letter 'ι' 'i',
    letter 'κ' 'k', letter 'λ' 'l', letter 'μ' 'm', letter 'ν' 'n', (['ξ'], ['k', 's']),
    letter 'ο' 'o', letter 'π' 'p', letter 'ρ' 'r', letter 'σ' 's', letter 'τ' 't', letter 'υ' 'i',
    letter 'φ' 'f', letter 'χ' 'x', (['ψ'], ['p', 's']), letter 'ω' 'o']

def ByteRule.pair (rule : ByteRule) : Rule UInt8 := (rule.needle, rule.replacement)

/-- The bytes of rules on letters. -/
def encoded (rules : List (Rule Char)) : List ByteRule :=
  rules.map fun rule => ⟨Utf8.encode rule.1, Utf8.encode rule.2⟩

theorem pair_encoded (rules : List (Rule Char)) :
    (encoded rules).map ByteRule.pair = rules.map Utf8.coding.encodeRule := List.map_map ..

theorem casefold_eq : GREEK_CASEFOLD = encoded casefold := by
  unfold GREEK_CASEFOLD encoded casefold byteRules
  rfl

theorem stripAccents_eq : GREEK_STRIP_ACCENTS = encoded stripAccents := by
  unfold GREEK_STRIP_ACCENTS encoded stripAccents byteRules
  rfl

theorem greeklish_eq : GREEKLISH = encoded greeklish := by
  unfold GREEKLISH encoded greeklish byteRules
  rfl

section ByteRules
variable {rules : List ByteRule} {s t : List UInt8}

theorem firstRule_pair (rules : List ByteRule) (s : List UInt8) :
    firstRule (rules.map ByteRule.pair) s =
      (rules.find? fun rule => !rule.needle.isEmpty && rule.needle.isPrefixOf s).map
        ByteRule.pair := by
  unfold firstRule
  rw [List.find?_map]
  congr 2
  funext rule
  rw [Function.comp_apply, Bool.eq_iff_iff, decide_eq_true_eq, Bool.and_eq_true,
    List.isPrefixOf_iff_prefix, Bool.not_eq_true', List.isEmpty_eq_false_iff]
  rfl

theorem applyByteRules_eq (h : Rewrites (rules.map ByteRule.pair) s t)
    (hshrinks : ∀ rule ∈ rules, rule.replacement.length ≤ rule.needle.length) {fuel room : ℕ}
    (hfuel : s.length ≤ fuel) (hroom : s.length < room) :
    applyByteRules rules fuel room s = t ∧ t.length ≤ s.length := by
  induction h generalizing fuel room with
  | nil =>
    refine ⟨?_, Nat.le_refl 0⟩
    cases fuel with
    | zero => rfl
    | succ fuel => rfl
  | @rule needle replacement s t hne hrule _ ih =>
    obtain ⟨c, rest, rfl⟩ := List.exists_cons_of_ne_nil hne
    rw [firstRule_pair, Option.map_eq_some_iff] at hrule
    obtain ⟨⟨needle, written⟩, hfind, hpair⟩ := hrule
    cases hpair
    have hle := hshrinks _ (List.mem_of_find?_eq_some hfind)
    simp only [List.length_append, List.length_cons] at hfuel hroom hle ⊢
    obtain ⟨fuel, rfl⟩ := Nat.exists_eq_succ_of_ne_zero (show fuel ≠ 0 by omega)
    have hwhole : written.take (room - 1) = written := List.take_of_length_le (by omega)
    have hdrop : (c :: rest ++ s).drop (c :: rest).length = s := List.drop_left ..
    obtain ⟨hrest, hcount⟩ := @ih fuel (room - written.length) (by omega) (by omega)
    refine ⟨?_, by omega⟩
    rw [List.cons_append, applyByteRules, if_neg (by omega), ← List.cons_append, hfind]
    dsimp only
    rw [hwhole, hdrop, hrest]
  | @keep c s t hnone _ ih =>
    rw [firstRule_pair, Option.map_eq_none_iff] at hnone
    simp only [List.length_cons] at hfuel hroom ⊢
    obtain ⟨fuel, rfl⟩ := Nat.exists_eq_succ_of_ne_zero (show fuel ≠ 0 by omega)
    obtain ⟨hrest, hcount⟩ := @ih fuel (room - 1) (by omega) (by omega)
    refine ⟨?_, by omega⟩
    rw [applyByteRules, if_neg (by omega), hnone]
    dsimp only
    rw [hrest]

theorem applyByteRules_encoded {rules : List (Rule Char)} {s t : List Char} (h : Rewrites rules s t)
    (hshrinks : ∀ rule ∈ encoded rules, rule.replacement.length ≤ rule.needle.length) {room : ℕ}
    (hroom : (Utf8.encode s).length < room) :
    applyByteRules (encoded rules) (Utf8.encode s).length room (Utf8.encode s) = Utf8.encode t ∧
      (Utf8.encode t).length ≤ (Utf8.encode s).length := by
  have hbytes := Utf8.coding.rewrites_encode h
  rw [← pair_encoded] at hbytes
  exact applyByteRules_eq hbytes hshrinks (Nat.le_refl _) hroom

theorem casefold_shrinks :
    ∀ rule ∈ encoded casefold, rule.replacement.length ≤ rule.needle.length := by decide

theorem stripAccents_shrinks :
    ∀ rule ∈ encoded stripAccents, rule.replacement.length ≤ rule.needle.length := by decide

theorem greeklish_shrinks :
    ∀ rule ∈ encoded greeklish, rule.replacement.length ≤ rule.needle.length := by decide

end ByteRules

/-! Letters. -/

/-- What rules for single letters make of one. -/
def fold (rules : List (Rule Char)) (c : Char) : Char :=
  match rules.find? fun rule => rule.1 == [c] with
  | some rule => rule.2.headD c
  | none => c

/-- The letter that is written in Latin letters. -/
def folded (c : Char) : Char := fold stripAccents (fold casefold c.toLower)

def Single (rules : List (Rule Char)) : Prop :=
  ∀ rule ∈ rules, rule.1.length = 1 ∧ rule.2.length = 1

section Fold
variable {rules : List (Rule Char)} {s t : List Char}

theorem Single.eq_letter (hsingle : Single rules) {rule : Rule Char} (h : rule ∈ rules) :
    ∃ c d, rule = letter c d := by
  obtain ⟨needle, replacement⟩ := rule
  obtain ⟨hneedle, hreplacement⟩ := hsingle _ h
  obtain ⟨c, rfl⟩ := List.length_eq_one_iff.mp hneedle
  obtain ⟨d, rfl⟩ := List.length_eq_one_iff.mp hreplacement
  exact ⟨c, d, rfl⟩

theorem find?_congr {α : Type} {p q : α → Bool} {l : List α} (h : ∀ x ∈ l, p x = q x) :
    l.find? p = l.find? q := by
  induction l with
  | nil => rfl
  | cons x l ih =>
    obtain ⟨hx, hl⟩ := List.forall_mem_cons.mp h
    rw [List.find?_cons, List.find?_cons, hx, ih hl]

theorem firstRule_single (hsingle : Single rules) (c : Char) (s : List Char) :
    firstRule rules (c :: s) = rules.find? fun rule => rule.1 == [c] := by
  unfold firstRule
  refine find?_congr fun rule hrule => ?_
  obtain ⟨d, e, rfl⟩ := hsingle.eq_letter hrule
  unfold letter
  rw [Bool.eq_iff_iff, decide_eq_true_eq, beq_iff_eq, List.cons_prefix_cons]
  refine ⟨fun h => by rw [h.2.1], fun h => ⟨List.cons_ne_nil _ _, (List.cons.inj h).1, List.nil_prefix⟩⟩

theorem rewrites_fold (hsingle : Single rules) (s : List Char) :
    Rewrites rules s (s.map (fold rules)) := by
  obtain ⟨t, ht⟩ := exists_rewrites rules s
  have hmap := ht.map_eq (f := fold rules) (fun c s rule hrule => ?_) fun c s hnone => ?_
  · rwa [← hmap]
  · rw [firstRule_single hsingle] at hrule
    obtain ⟨d, e, rfl⟩ := hsingle.eq_letter (List.mem_of_find?_eq_some hrule)
    have hd := List.find?_some hrule
    cases beq_iff_eq.mp hd
    unfold fold
    rw [hrule]
    rfl
  · rw [firstRule_single hsingle] at hnone
    unfold fold
    rw [hnone]

theorem fold_cases (hsingle : Single rules) (c : Char) :
    fold rules c ∈ rules.flatMap Prod.snd ∨ fold rules c = c ∧ [c] ∉ rules.map Prod.fst := by
  unfold fold
  cases hfind : rules.find? fun rule => rule.1 == [c] with
  | none =>
    refine .inr ⟨rfl, fun hmem => ?_⟩
    obtain ⟨rule, hrule, hneedle⟩ := List.mem_map.mp hmem
    exact List.find?_eq_none.mp hfind rule hrule (beq_iff_eq.mpr hneedle)
  | some rule =>
    have hmem := List.mem_of_find?_eq_some hfind
    obtain ⟨d, e, rfl⟩ := hsingle.eq_letter hmem
    exact .inl (List.mem_flatMap.mpr ⟨_, hmem, List.mem_singleton_self e⟩)

theorem fold_eq_self {c : Char} (hc : c ∉ rules.flatMap Prod.fst) : fold rules c = c := by
  unfold fold
  cases hfind : rules.find? fun rule => rule.1 == [c] with
  | none => rfl
  | some rule =>
    have hneedle := List.find?_some hfind
    refine absurd (List.mem_flatMap.mpr ⟨rule, List.mem_of_find?_eq_some hfind, ?_⟩) hc
    rw [beq_iff_eq.mp hneedle]
    exact List.mem_singleton_self c

end Fold

theorem casefold_single : Single casefold := by unfold Single; decide

theorem stripAccents_single : Single stripAccents := by unfold Single; decide

/-- The letters that the tables have rules for. -/
def covered : List Char := (casefold ++ stripAccents ++ greeklish).flatMap Prod.fst

/-- The letters that differ in their case, their accents or their place in a word only. -/
def variants : List (List Char) :=
  [['α', 'Α', 'ά', 'Ά'], ['β', 'Β'], ['γ', 'Γ'], ['δ', 'Δ'], ['ε', 'Ε', 'έ', 'Έ'], ['ζ', 'Ζ'],
    ['η', 'Η', 'ή', 'Ή'], ['θ', 'Θ'], ['ι', 'Ι', 'ί', 'Ί', 'ϊ', 'Ϊ', 'ΐ'], ['κ', 'Κ'], ['λ', 'Λ'],
    ['μ', 'Μ'], ['ν', 'Ν'], ['ξ', 'Ξ'], ['ο', 'Ο', 'ό', 'Ό'], ['π', 'Π'], ['ρ', 'Ρ'],
    ['σ', 'Σ', 'ς'], ['τ', 'Τ'], ['υ', 'Υ', 'ύ', 'Ύ', 'ϋ', 'Ϋ', 'ΰ'], ['φ', 'Φ'], ['χ', 'Χ'],
    ['ψ', 'Ψ'], ['ω', 'Ω', 'ώ', 'Ώ'], ['a', 'A'], ['b', 'B'], ['c', 'C'], ['d', 'D'], ['e', 'E'],
    ['f', 'F'], ['g', 'G'], ['h', 'H'], ['i', 'I'], ['j', 'J'], ['k', 'K'], ['l', 'L'], ['m', 'M'],
    ['n', 'N'], ['o', 'O'], ['p', 'P'], ['q', 'Q'], ['r', 'R'], ['s', 'S'], ['t', 'T'], ['u', 'U'],
    ['v', 'V'], ['w', 'W'], ['x', 'X'], ['y', 'Y'], ['z', 'Z']]

def SameLetter (c d : Char) : Prop := c = d ∨ ∃ letters ∈ variants, c ∈ letters ∧ d ∈ letters

-- A check of the letters of a list one by one, not of every letter there is.
theorem forall_of_all {p : Char → Prop} [DecidablePred p] {letters : List Char}
    (h : (letters.all fun c => decide (p c)) = true) : ∀ c ∈ letters, p c :=
  fun c hc => of_decide_eq_true (List.all_eq_true.mp h c hc)

theorem folded_variants :
    ∀ letters ∈ variants, ∀ c ∈ letters, ∀ d ∈ letters, folded c = folded d := by
  have hall : ∀ letters ∈ variants,
      (letters.all fun c => letters.all fun d => decide (folded c = folded d)) = true := by decide
  intro letters hletters c hc
  exact forall_of_all (List.all_eq_true.mp (hall letters hletters) c hc)

theorem SameLetter.folded_eq {c d : Char} (h : SameLetter c d) : folded c = folded d := by
  rcases h with rfl | ⟨letters, hletters, hc, hd⟩
  · rfl
  · exact folded_variants letters hletters c hc d hd

/-! Folded letters. -/

theorem toLower_toLower (c : Char) : c.toLower.toLower = c.toLower := by
  have hlower := Utf8.toLower_toNat c
  refine Char.toNat_inj.mp ?_
  rw [Utf8.toLower_toNat c.toLower]
  split at hlower
  · rw [if_neg (by omega)]
  · rw [hlower]
    rename_i hnot
    rw [if_neg hnot]

theorem isSpaceChar_toLower (c : Char) :
    Utf8.isSpaceChar c.toLower = Utf8.isSpaceChar c := by
  have hlower := Utf8.toLower_toNat c
  unfold Utf8.isSpaceChar
  rw [decide_eq_decide]
  split at hlower
  · omega
  · rw [hlower]

/-- A letter that was folded is a plain one, or the same in another case that no rule folds. -/
theorem folded_cases (c : Char) :
    (folded c ∈ (casefold ++ stripAccents).flatMap Prod.snd ∨ folded c = c.toLower) ∧
      [folded c] ∉ (casefold ++ stripAccents).map Prod.fst := by
  have hstrip : ∀ d ∈ stripAccents.flatMap Prod.snd,
      [d] ∉ (casefold ++ stripAccents).map Prod.fst := forall_of_all (by decide)
  have hcase : ∀ d ∈ casefold.flatMap Prod.snd, [d] ∉ casefold.map Prod.fst :=
    forall_of_all (by decide)
  unfold folded
  rw [List.flatMap_append, List.map_append]
  rcases fold_cases stripAccents_single (fold casefold c.toLower) with hmem | ⟨hsame, hnot⟩
  · refine ⟨.inl (List.mem_append_right _ hmem), ?_⟩
    rw [← List.map_append]
    exact hstrip _ hmem
  · rw [hsame]
    rcases fold_cases casefold_single c.toLower with hmem | ⟨hlower, hnotLower⟩
    · exact ⟨.inl (List.mem_append_left _ hmem),
        fun hin => (List.mem_append.mp hin).elim (hcase _ hmem) hnot⟩
    · rw [hlower] at hnot ⊢
      exact ⟨.inr rfl, fun hin => (List.mem_append.mp hin).elim hnotLower hnot⟩

theorem not_covered {c : Char} (hrest : [c] ∉ greeklish.map Prod.fst)
    (hfirst : [c] ∉ (casefold ++ stripAccents).map Prod.fst) : c ∉ covered := by
  have hall : ∀ d ∈ covered, [d] ∈ greeklish.map Prod.fst ∨
      [d] ∈ (casefold ++ stripAccents).map Prod.fst := forall_of_all (by decide)
  exact fun hc => (hall c hc).elim hrest hfirst

theorem folded_eq_self {c : Char} (hlower : c.toLower = c) (hc : c ∉ covered) : folded c = c := by
  have hsplit : covered = casefold.flatMap Prod.fst ++ stripAccents.flatMap Prod.fst ++
      greeklish.flatMap Prod.fst := by
    unfold covered
    rw [List.flatMap_append, List.flatMap_append]
  rw [hsplit, List.mem_append, List.mem_append, not_or, not_or] at hc
  unfold folded
  rw [hlower, fold_eq_self hc.1.1, fold_eq_self hc.1.2]

theorem toLower_folded (c : Char) : (folded c).toLower = folded c := by
  have hplain : ∀ d ∈ (casefold ++ stripAccents).flatMap Prod.snd, d.toLower = d :=
    forall_of_all (by decide)
  rcases (folded_cases c).1 with hmem | hsame
  · exact hplain _ hmem
  · rw [hsame, toLower_toLower]

theorem isSpaceChar_folded {c : Char} (hc : Utf8.isSpaceChar c = false) :
    Utf8.isSpaceChar (folded c) = false := by
  have hplain : ∀ d ∈ (casefold ++ stripAccents).flatMap Prod.snd,
      Utf8.isSpaceChar d = false := forall_of_all (by decide)
  rcases (folded_cases c).1 with hmem | hsame
  · exact hplain _ hmem
  · rw [hsame, isSpaceChar_toLower, hc]

/-! Keys. -/

/-- The text that is left between the white space at both ends has room in the buffers. -/
def Fits (s : List Char) : Prop := (Utf8.encode (Utf8.trim s)).length < NORM_BUF_SIZE

instance decidableFits (s : List Char) : Decidable (Fits s) := inferInstanceAs (Decidable (_ < _))

def key (s : List Char) : List UInt8 := normGreeklish (Utf8.encode s) NORM_BUF_SIZE

/-- Two texts without the white space at both ends, letter by letter. -/
def Alike (s t : List Char) : Prop := List.Forall₂ SameLetter (Utf8.trim s) (Utf8.trim t)

/-- The passes behind the buffer that the text is copied to. -/
def passes (stage : List UInt8) : List UInt8 :=
  let stage2 := applyByteRules GREEK_CASEFOLD stage.length NORM_BUF_SIZE stage
  let stage3 := applyByteRules GREEK_STRIP_ACCENTS stage2.length NORM_BUF_SIZE stage2
  applyByteRules GREEKLISH stage3.length NORM_BUF_SIZE stage3

theorem passes_eq {s t : List Char} (hfits : (Utf8.encode s).length < NORM_BUF_SIZE)
    (h : Rewrites greeklish (s.map folded) t) :
    passes ((Utf8.encode s).map CString.toLower) = Utf8.encode t ∧
      (Utf8.encode t).length ≤ (Utf8.encode s).length := by
  have hlength : ((Utf8.encode s).map CString.toLower).length = (Utf8.encode s).length :=
    List.length_map ..
  rw [Utf8.map_toLower_encode] at hlength ⊢
  obtain ⟨hcase, hshort⟩ := applyByteRules_encoded
    (rewrites_fold casefold_single (s.map Char.toLower)) casefold_shrinks (hlength.trans_lt hfits)
  have hroom := hshort.trans_lt (hlength.trans_lt hfits)
  obtain ⟨hstrip, hshort'⟩ := applyByteRules_encoded
    (rewrites_fold stripAccents_single ((s.map Char.toLower).map (fold casefold)))
    stripAccents_shrinks hroom
  have hroom' := hshort'.trans_lt hroom
  have hfolded : ((s.map Char.toLower).map (fold casefold)).map (fold stripAccents) =
      s.map folded := by
    rw [List.map_map, List.map_map]
    rfl
  rw [hfolded] at hstrip hshort' hroom'
  obtain ⟨hlatin, hshort''⟩ := applyByteRules_encoded h greeklish_shrinks hroom'
  unfold passes
  dsimp only
  rw [casefold_eq, hcase, stripAccents_eq, hstrip, greeklish_eq]
  exact ⟨hlatin, hshort''.trans (hshort'.trans (hshort.trans hlength.le))⟩

theorem key_eq {s t : List Char} (hfits : Fits s)
    (h : Rewrites greeklish ((Utf8.trim s).map folded) t) :
    key s = Utf8.encode t ∧ (Utf8.encode t).length < NORM_BUF_SIZE := by
  obtain ⟨hpasses, hshort⟩ := passes_eq hfits h
  refine ⟨?_, hshort.trans_lt hfits⟩
  have htrim : trim (Utf8.encode s) = Utf8.encode (Utf8.trim s) := Utf8.trim_encode s
  have hwhole : ((trim (Utf8.encode s)).map CString.toLower).take (NORM_BUF_SIZE - 1) =
      (Utf8.encode (Utf8.trim s)).map CString.toLower := by
    rw [htrim]
    refine List.take_of_length_le ?_
    rw [List.length_map]
    exact Nat.le_sub_one_of_lt hfits
  change passes (((trim (Utf8.encode s)).map CString.toLower).take (NORM_BUF_SIZE - 1)) = _
  rw [hwhole, hpasses]

/-- A text that normGreeklish leaves as it is. -/
structure Plain (t : List Char) : Prop where
  lower : ∀ c ∈ t, c.toLower = c
  latin : ∀ c ∈ t, c ∉ covered
  trimmed : Utf8.trim t = t

theorem plain_of_rewrites {s t : List Char}
    (h : Rewrites greeklish ((Utf8.trim s).map folded) t) : Plain t := by
  have hblank : ∀ rule ∈ greeklish, rule.2 ≠ [] ∧
      (rule.2.all fun c => decide (Utf8.isSpaceChar c = false)) = true := by decide
  have hwritten : ∀ rule ∈ greeklish, rule.2 ≠ [] ∧ ∀ c ∈ rule.2, Utf8.isSpaceChar c = false :=
    fun rule hrule => ⟨(hblank rule hrule).1, forall_of_all (hblank rule hrule).2⟩
  have hall : ∀ rule ∈ greeklish,
      (rule.2.all fun c => decide (c.toLower = c ∧ c ∉ covered)) = true := by decide
  have hlatin : ∀ rule ∈ greeklish, ∀ c ∈ rule.2, c.toLower = c ∧ c ∉ covered :=
    fun rule hrule => forall_of_all (hall rule hrule)
  have hmem : ∀ c ∈ t, c.toLower = c ∧ c ∉ covered := by
    intro c hc
    rcases h.mem hc with ⟨rule, hrule, hin⟩ | ⟨hin, hrest⟩
    · exact hlatin rule hrule c hin
    · obtain ⟨d, -, rfl⟩ := List.mem_map.mp hin
      exact ⟨toLower_folded d, not_covered hrest (folded_cases d).2⟩
  obtain ⟨hhead, hlast⟩ := Utf8.trim_ends s
  refine ⟨fun c hc => (hmem c hc).1, fun c hc => (hmem c hc).2, Utf8.trim_eq_self ?_ ?_⟩
  · refine h.head hwritten fun c hc => ?_
    rw [List.head?_map] at hc
    obtain ⟨d, hd, rfl⟩ := Option.map_eq_some_iff.mp hc
    exact isSpaceChar_folded (hhead d hd)
  · refine h.getLast hwritten fun c hc => ?_
    rw [List.getLast?_map] at hc
    obtain ⟨d, hd, rfl⟩ := Option.map_eq_some_iff.mp hc
    exact isSpaceChar_folded (hlast d hd)

theorem Plain.rewrites {t : List Char} (h : Plain t) :
    Rewrites greeklish ((Utf8.trim t).map folded) t := by
  have hsame : (Utf8.trim t).map folded = t := by
    rw [h.trimmed]
    exact (List.map_congr_left fun c hc => folded_eq_self (h.lower c hc) (h.latin c hc)).trans
      (List.map_id t)
  rw [hsame]
  refine rewrites_self fun rule hrule c hc hin => h.latin c hin ?_
  exact List.mem_flatMap.mpr ⟨rule, List.mem_append_right _ hrule, hc⟩

theorem Alike.map_folded {s t : List Char} (h : Alike s t) :
    (Utf8.trim s).map folded = (Utf8.trim t).map folded := by
  unfold Alike at h
  generalize Utf8.trim s = a at h ⊢
  generalize Utf8.trim t = b at h ⊢
  induction h with
  | nil => rfl
  | cons hletter _ ih => rw [List.map_cons, List.map_cons, hletter.folded_eq, ih]

/-- The key of a key is the key. It is written in letters that no table covers, texts whose letters differ
in case and accents have one key, and no rule is found but where its letters stand. -/
theorem key_normal {s : List Char} (hfits : Fits s) :
    normGreeklish (key s) NORM_BUF_SIZE = key s ∧
      (∃ t, key s = Utf8.encode t ∧ ∀ c ∈ t, c ∉ covered) ∧
      (∀ t, Fits t → Alike s t → key s = key t) ∧
      ∀ rule ∈ GREEK_CASEFOLD ++ GREEK_STRIP_ACCENTS ++ GREEKLISH, ∀ text i,
        rule.needle <+: (Utf8.encode text).drop i →
          ∃ a letters b, text = a ++ letters ++ b ∧ Utf8.encode letters = rule.needle ∧
            (Utf8.encode a).length = i := by
  obtain ⟨t, ht⟩ := exists_rewrites greeklish ((Utf8.trim s).map folded)
  obtain ⟨hkey, hshort⟩ := key_eq hfits ht
  have hplain := plain_of_rewrites ht
  refine ⟨?_, ⟨t, hkey, hplain.latin⟩, fun other hother halike => ?_, fun rule hrule text i hfound => ?_⟩
  · have hagain : Fits t := by
      unfold Fits
      rwa [hplain.trimmed]
    rw [hkey]
    exact (key_eq hagain hplain.rewrites).1
  · rw [halike.map_folded] at ht
    rw [hkey, (key_eq hother ht).1]
  · have hne : ∀ rule ∈ casefold ++ stripAccents ++ greeklish, rule.1 ≠ [] := by decide
    have htables : GREEK_CASEFOLD ++ GREEK_STRIP_ACCENTS ++ GREEKLISH =
        encoded (casefold ++ stripAccents ++ greeklish) := by
      rw [casefold_eq, stripAccents_eq, greeklish_eq]
      unfold encoded
      rw [List.map_append, List.map_append]
    rw [htables] at hrule
    obtain ⟨letters, hletters, rfl⟩ := List.mem_map.mp hrule
    obtain ⟨a, b, htext, hlength⟩ := Utf8.coding.exists_of_prefix_drop (hne letters hletters) hfound
    exact ⟨a, letters.1, b, htext, rfl, hlength⟩

theorem psomi_normal :
    Fits [' ', 'Ψ', 'Ω', 'Μ', 'Ί'] ∧
      normGreeklish (key [' ', 'Ψ', 'Ω', 'Μ', 'Ί']) NORM_BUF_SIZE = key [' ', 'Ψ', 'Ω', 'Μ', 'Ί'] :=
  ⟨by decide, (key_normal (by decide)).1⟩

/-! Texts that are longer than the buffer, though their key is not, and letters that no table covers. -/

/-- Letters `a` in front of a text that is rewritten. -/
theorem rewrites_replicate (n : ℕ) {s t : List Char} (h : Rewrites greeklish s t) :
    Rewrites greeklish (List.replicate n 'a' ++ s) (List.replicate n 'a' ++ t) := by
  induction n with
  | zero => exact h
  | succ n ih =>
    refine .keep (firstRule_eq_none_iff.mpr fun rule hrule hne hleading => ?_) ih
    have hgreek : ∀ rule ∈ greeklish, rule.1.head? ≠ some 'a' := by decide
    obtain ⟨d, needle, hneedle⟩ := List.exists_cons_of_ne_nil hne
    refine hgreek rule hrule ?_
    rw [hneedle] at hleading ⊢
    rw [(List.cons_prefix_cons.mp hleading).1]
    rfl

theorem length_replicate_append (n : ℕ) (s : List Char) :
    (Utf8.encode (List.replicate n 'a' ++ s)).length = n + (Utf8.encode s).length := by
  induction n with
  | zero => exact (Nat.zero_add _).symm
  | succ n ih =>
    rw [List.replicate_succ, List.cons_append, Utf8.encode_cons, List.length_append, ih]
    exact (Nat.add_assoc 1 n _).symm.trans (congrArg (· + _) (Nat.add_comm 1 n))

def longText : List Char := List.replicate 508 'a' ++ ['α', ' ', 'x']

theorem map_folded_replicate (n : ℕ) (s : List Char) :
    (List.replicate n 'a' ++ s).map folded = List.replicate n 'a' ++ s.map folded := by
  have hfolded : folded 'a' = 'a' := by decide
  rw [List.map_append, List.map_replicate, hfolded]

theorem trim_longText : Utf8.trim longText = longText := by
  refine Utf8.trim_eq_self ?_ ?_
  · rintro c ⟨⟩
    decide
  · have hlast : longText.getLast? = some 'x' := List.getLast?_append_cons ..
    rw [hlast]
    rintro c ⟨⟩
    decide

/-- The text is cut behind its space. -/
theorem key_longText : key longText = Utf8.encode (List.replicate 508 'a' ++ ['a', ' ']) := by
  have hfolded : ['α', ' '].map folded = ['α', ' '] := by decide
  have htail : Rewrites greeklish (['α', ' '].map folded) ['a', ' '] := by
    rw [hfolded]
    exact @Rewrites.rule _ _ greeklish ['α'] ['a'] [' '] [' '] (List.cons_ne_nil _ _) (by decide)
      (.keep (by decide) .nil)
  have hrewrites := rewrites_replicate 508 htail
  rw [← map_folded_replicate] at hrewrites
  have hlength : (Utf8.encode (List.replicate 508 'a' ++ ['α', ' '])).length = 511 :=
    length_replicate_append ..
  have hcut : (Utf8.encode longText).take (NORM_BUF_SIZE - 1) =
      Utf8.encode (List.replicate 508 'a' ++ ['α', ' ']) := by
    have hsplit : longText = (List.replicate 508 'a' ++ ['α', ' ']) ++ ['x'] := by
      rw [List.append_assoc]
      rfl
    rw [hsplit, Utf8.encode_concat]
    exact List.take_left' hlength
  have htrim : trim (Utf8.encode longText) = Utf8.encode longText :=
    (Utf8.trim_encode longText).trans (congrArg Utf8.encode trim_longText)
  change passes (((trim (Utf8.encode longText)).map CString.toLower).take (NORM_BUF_SIZE - 1)) = _
  rw [htrim, ← List.map_take, hcut]
  exact (passes_eq (by rw [hlength]; decide) hrewrites).1

/-- A text whose key has room is cut in the first buffer, so that its key is none of a key, and the case of
a letter with an accent stays in the key. -/
theorem longText_notNormal :
    (∃ t, Rewrites greeklish ((Utf8.trim longText).map folded) t ∧
        (Utf8.encode t).length < NORM_BUF_SIZE) ∧
      normGreeklish (key longText) NORM_BUF_SIZE ≠ key longText ∧ key ['É'] ≠ key ['é'] := by
  refine ⟨⟨List.replicate 508 'a' ++ ['a', ' ', 'x'], ?_, ?_⟩, fun hsame => ?_, by decide⟩
  · have hfolded : ['α', ' ', 'x'].map folded = ['α', ' ', 'x'] := by decide
    rw [trim_longText, longText, map_folded_replicate, hfolded]
    exact rewrites_replicate 508 (@Rewrites.rule _ _ greeklish ['α'] ['a'] [' ', 'x'] [' ', 'x']
      (List.cons_ne_nil _ _) (by decide) (.keep (by decide) (.keep (by decide) .nil)))
  · rw [length_replicate_append]
    decide
  · have hsplit : List.replicate 508 'a' ++ ['a', ' '] = (List.replicate 508 'a' ++ ['a']) ++ [' '] := by
      rw [List.append_assoc]
      rfl
    have htrim : Utf8.trim (List.replicate 508 'a' ++ ['a', ' ']) =
        List.replicate 508 'a' ++ ['a'] := by
      unfold Utf8.trim
      rw [hsplit, List.replicate_succ, List.cons_append, List.cons_append,
        List.dropWhile_cons_of_neg (by decide), ← List.cons_append,
        List.rdropWhile_concat_pos _ _ _ (by decide), ← List.cons_append,
        List.rdropWhile_concat_neg _ _ _ (by decide)]
    have hfits : Fits (List.replicate 508 'a' ++ ['a', ' ']) := by
      unfold Fits
      rw [htrim, length_replicate_append]
      decide
    have hfolded : ['a'].map folded = ['a'] := by decide
    have htail : Rewrites greeklish (['a'].map folded) ['a'] := by
      rw [hfolded]
      exact .keep (by decide) .nil
    have hrewrites := rewrites_replicate 508 htail
    rw [← map_folded_replicate] at hrewrites
    have hkey : key (List.replicate 508 'a' ++ ['a', ' ']) =
        Utf8.encode (List.replicate 508 'a' ++ ['a']) := (key_eq hfits (by rwa [htrim])).1
    rw [key_longText] at hsame
    have hcount := congrArg List.length (hkey.symm.trans hsame)
    rw [length_replicate_append, length_replicate_append] at hcount
    exact absurd hcount (by decide)

end AmmarServer.SuperMarket
