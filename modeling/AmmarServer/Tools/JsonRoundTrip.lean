import AmmarServer.Tools.JsonFields
import AmmarServer.Tools.JsonScans

/-! What the escaper writes, against the escaping byte by byte, and how the reader gives it back. -/

namespace AmmarServer.Json
open JsonText

variable {s done plain rest done' plain' rest' bytes written : List UInt8}
  {block outSize length fuel n : ℕ} {sse2 : Bool}

/-! ## Byte by byte -/

def escapedByByte (c : UInt8) : List UInt8 := if needsEscape c then escapeOf c else [c]

def escaped (s : List UInt8) : List UInt8 := s.flatMap escapedByByte

theorem escaped_append (s t : List UInt8) : escaped (s ++ t) = escaped s ++ escaped t :=
  List.flatMap_append

theorem escaped_plain (h : ∀ c ∈ plain, needsEscape c = false) : escaped plain = plain := by
  induction plain with
  | nil => rfl
  | cons c plain ih =>
    obtain ⟨hc, hplain⟩ := List.forall_mem_cons.mp h
    have hbyte : escapedByByte c = [c] := by
      unfold escapedByByte
      rw [hc]
      rfl
    show escapedByByte c ++ escaped plain = _
    rw [hbyte, ih hplain]
    rfl

theorem escaped_singleton {c : UInt8} (hc : needsEscape c = true) : escaped [c] = escapeOf c := by
  show escapedByByte c ++ [] = _
  unfold escapedByByte
  rw [if_pos hc, List.append_nil]

theorem length_escaped_le (h : s <+: bytes) : (escaped s).length ≤ (escaped bytes).length := by
  obtain ⟨t, rfl⟩ := h
  rw [escaped_append, List.length_append]
  exact Nat.le_add_right _ _

theorem hexDigit_lowerHex : ∀ c : UInt8,
    hexDigit (lowerHex (c >>> 4 &&& 0xF)) = some (c.toNat / 16) ∧
      hexDigit (lowerHex (c &&& 0xF)) = some (c.toNat % 16) := by
  have hall : ∀ n : Fin 256,
      hexDigit (lowerHex (UInt8.ofFin n >>> 4 &&& 0xF)) = some (n.val / 16) ∧
        hexDigit (lowerHex (UInt8.ofFin n &&& 0xF)) = some (n.val % 16) := by
    decide +kernel
  exact fun c => hall c.toFin

theorem chars_escapeOf {c : UInt8} {raw decoded : List UInt8} (hc : needsEscape c = true)
    (h : Chars raw decoded) : Chars (escapeOf c ++ raw) (c :: decoded) := by
  unfold escapeOf
  by_cases h₁ : c = 34
  · rw [if_pos h₁, h₁]
    exact .escape (by decide) h
  rw [if_neg h₁]
  by_cases h₂ : c = 92
  · rw [if_pos h₂, h₂]
    exact .escape (by decide) h
  rw [if_neg h₂]
  by_cases h₃ : c = 8
  · rw [if_pos h₃, h₃]
    exact .escape (by decide) h
  rw [if_neg h₃]
  by_cases h₄ : c = 12
  · rw [if_pos h₄, h₄]
    exact .escape (by decide) h
  rw [if_neg h₄]
  by_cases h₅ : c = 10
  · rw [if_pos h₅, h₅]
    exact .escape (by decide) h
  rw [if_neg h₅]
  by_cases h₆ : c = 13
  · rw [if_pos h₆, h₆]
    exact .escape (by decide) h
  rw [if_neg h₆]
  by_cases h₇ : c = 9
  · rw [if_pos h₇, h₇]
    exact .escape (by decide) h
  rw [if_neg h₇]
  have hlow : c.toNat < 32 := by
    unfold needsEscape at hc
    rw [Bool.or_eq_true, Bool.or_eq_true, beq_iff_eq, beq_iff_eq, decide_eq_true_eq] at hc
    exact hc.resolve_left (not_or.mpr ⟨h₁, h₂⟩)
  obtain ⟨hfirst, hsecond⟩ := hexDigit_lowerHex c
  have hhex : Hex4 [48, 48, lowerHex (c >>> 4 &&& 0xF), lowerHex (c &&& 0xF)] c.toNat := by
    refine ⟨_, _, _, _, 0, 0, _, _, rfl, rfl, rfl, hfirst, hsecond, ?_⟩
    omega
  have hhigh : ¬ IsHighSurrogate c.toNat := by
    unfold IsHighSurrogate
    omega
  have hlow' : ¬ IsLowSurrogate c.toNat := by
    unfold IsLowSurrogate
    omega
  have hencode : String.utf8EncodeChar (Char.ofNat c.toNat) = [c] := by
    rw [← utf8Bytes_eq hhigh hlow' (by omega)]
    unfold utf8Bytes
    rw [if_pos (by omega), UInt8.ofNat_toNat]
  have hchars := Chars.unicode hhex hhigh hlow' h
  rw [hencode] at hchars
  exact hchars

theorem chars_escaped (s : List UInt8) : Chars (escaped s) s := by
  induction s with
  | nil => exact .nil
  | cons c s ih =>
    show Chars (escapedByByte c ++ escaped s) (c :: s)
    unfold escapedByByte
    split
    · rename_i hc
      exact chars_escapeOf hc ih
    · rename_i hc
      unfold needsEscape at hc
      rw [Bool.or_eq_true, Bool.or_eq_true, beq_iff_eq, beq_iff_eq, decide_eq_true_eq, not_or,
        not_or] at hc
      exact .plain (UInt8.not_lt.mp hc.2) hc.1.1 hc.1.2 ih

/-! ## Pieces -/

/-- A text up to one of its pieces, the plain bytes of the piece and what is behind them: a piece
begins the text or stands behind an escaped byte, and ends the text or stands before one. -/
structure PieceAt (s done plain rest : List UInt8) : Prop where
  split : s = done ++ (plain ++ rest)
  more : plain ++ rest ≠ []
  begins : ∀ c ∈ done.getLast?, needsEscape c = true
  plain : ∀ c ∈ plain, needsEscape c = false
  ends : ∀ c ∈ rest.head?, needsEscape c = true

/-- No sum wraps at a piece: its plain bytes do not reach the last block below 2^32, and neither
they nor the escaped byte behind them bring the escaped text there. -/
def PieceFits (block outSize : ℕ) (done plain rest : List UInt8) : Prop :=
  plain.length < blocksBelow block done.length ∧
    (escaped (done ++ plain)).length < 2 ^ 32 ∧
    ((escaped (done ++ plain)).length ≤ outSize →
      (escaped (done ++ (plain ++ rest.take 1))).length < 2 ^ 32)

/-- It holds of the pieces behind the first bytes that begin in the buffer. -/
def NoWrapFrom (block outSize : ℕ) (s : List UInt8) (n : ℕ) : Prop :=
  ∀ done plain rest, PieceAt s done plain rest → n ≤ done.length →
    (escaped done).length ≤ outSize → PieceFits block outSize done plain rest

def NoWrap (block outSize : ℕ) (s : List UInt8) : Prop := NoWrapFrom block outSize s 0

theorem isPlain_iff {c : UInt8} : isPlain c = true ↔ needsEscape c = false := by
  unfold isPlain
  rw [Bool.not_eq_true']

theorem pieceAt_scan (hs : s = done ++ rest) (hrest : rest ≠ [])
    (hbegins : ∀ c ∈ done.getLast?, needsEscape c = true) :
    PieceAt s done (rest.takeWhile isPlain) (rest.dropWhile isPlain) where
  split := by rw [List.takeWhile_append_dropWhile, hs]
  more := by rwa [List.takeWhile_append_dropWhile]
  begins := hbegins
  plain := fun c hc => isPlain_iff.mp (List.mem_takeWhile_imp hc)
  ends := by
    intro c hc
    have hstop := List.head?_dropWhile_not isPlain rest
    rw [Option.mem_def.mp hc] at hstop
    unfold isPlain at hstop
    simpa using hstop

theorem PieceAt.takeWhile (h : PieceAt s done plain rest) :
    (plain ++ rest).takeWhile isPlain = plain := by
  rw [List.takeWhile_append_of_pos fun c hc => isPlain_iff.mpr (h.plain c hc)]
  cases rest with
  | nil => rw [List.takeWhile_nil, List.append_nil]
  | cons c rest =>
    rw [List.takeWhile_cons_of_neg, List.append_nil]
    unfold isPlain
    rw [h.ends c rfl]
    decide

theorem PieceAt.next (h : PieceAt s done plain rest) (h' : PieceAt s done' plain' rest')
    (hle : done.length ≤ done'.length) :
    (done' = done ∧ plain' = plain ∧ rest' = rest) ∨
      ∃ c behind, rest = c :: behind ∧ done ++ (plain ++ [c]) <+: done' := by
  have hleading : done <+: s := ⟨_, h.split.symm⟩
  have hleading' : done' <+: s := ⟨_, h'.split.symm⟩
  obtain ⟨t, rfl⟩ := List.prefix_of_prefix_length_le hleading hleading' hle
  have hsame : plain ++ rest = t ++ (plain' ++ rest') := by
    have hsplit := h.split.symm.trans h'.split
    rw [List.append_assoc] at hsplit
    exact List.append_cancel_left hsplit
  rcases List.eq_nil_or_concat t with rfl | ⟨u, c, rfl⟩
  · rw [List.nil_append] at hsame
    have hplain : plain' = plain := by
      rw [← h.takeWhile, ← h'.takeWhile, hsame]
    subst hplain
    exact .inl ⟨List.append_nil _, rfl, (List.append_cancel_left hsame).symm⟩
  · rw [List.concat_eq_append] at hsame h' ⊢
    have hc : needsEscape c = true := by
      refine h'.begins c ?_
      rw [← List.append_assoc, List.getLast?_append]
      rfl
    have hlong : plain.length ≤ u.length := by
      by_contra hlt
      have hmem : c ∈ plain := by
        have hpre : u ++ [c] <+: plain := by
          refine List.prefix_of_prefix_length_le ⟨plain' ++ rest', hsame.symm⟩ ⟨rest, rfl⟩ ?_
          rw [List.length_append, List.length_singleton]
          omega
        exact hpre.subset (List.mem_append_right _ (List.mem_singleton_self c))
      rw [h.plain c hmem] at hc
      cases hc
    have hpre : plain <+: u := by
      refine List.prefix_of_prefix_length_le ⟨rest, rfl⟩ ?_ hlong
      exact ⟨[c] ++ (plain' ++ rest'), by rw [hsame, List.append_assoc]⟩
    obtain ⟨v, rfl⟩ := hpre
    simp only [List.append_assoc] at hsame
    have hrest := List.append_cancel_left hsame
    cases v with
    | nil =>
      refine .inr ⟨c, plain' ++ rest', hrest, ?_⟩
      rw [List.append_nil]
    | cons b v =>
      refine .inr ⟨b, v ++ ([c] ++ (plain' ++ rest')), hrest, v ++ [c], ?_⟩
      simp

/-! ## The loop -/

theorem putEscaped_cases (hout : outSize < 2 ^ 32) (hwritten : written.length ≤ outSize)
    (hbytes : bytes.length < 2 ^ 32) :
    (2 ^ 32 ≤ written.length + bytes.length ∧
        putEscaped outSize bytes written = .error .outOfBounds) ∨
      (written.length + bytes.length < 2 ^ 32 ∧ outSize < written.length + bytes.length ∧
        putEscaped outSize bytes written = .ok none) ∨
      written.length + bytes.length ≤ outSize ∧
        putEscaped outSize bytes written = .ok (some (written ++ bytes)) := by
  unfold putEscaped
  rcases Nat.lt_or_ge (written.length + bytes.length) (2 ^ 32) with hroom | hwrap
  · rw [Nat.mod_eq_of_lt hroom]
    rcases Nat.lt_or_ge outSize (written.length + bytes.length) with hfull | hfits
    · exact .inr (.inl ⟨hroom, hfull, if_pos hfull⟩)
    · exact .inr (.inr ⟨hfits, (if_neg (not_lt.mpr hfits)).trans (if_neg (not_lt.mpr hfits))⟩)
  · refine .inl ⟨hwrap, ?_⟩
    rw [if_neg (by omega), if_pos (by omega)]

theorem length_escapeOf_le (c : UInt8) : (escapeOf c).length ≤ 6 := by
  unfold escapeOf
  repeat' split
  all_goals simp

theorem take_plain (rest : List UInt8) :
    rest.take (rest.length - (rest.dropWhile isPlain).length) = rest.takeWhile isPlain := by
  have hparts : rest.takeWhile isPlain ++ rest.dropWhile isPlain = rest :=
    List.takeWhile_append_dropWhile
  generalize rest.takeWhile isPlain = plain at hparts ⊢
  generalize rest.dropWhile isPlain = behind at hparts ⊢
  rw [← hparts, List.length_append, Nat.add_sub_cancel, List.take_left]

/-- A piece behind which nothing begins in the buffer. -/
theorem noWrapFrom_of_piece (h : PieceAt s done plain rest)
    (hfits : PieceFits block outSize done plain rest)
    (hnext : ∀ c behind, rest = c :: behind →
      outSize < (escaped (done ++ (plain ++ [c]))).length ∨
        NoWrapFrom block outSize s (done ++ (plain ++ [c])).length) :
    NoWrapFrom block outSize s done.length := by
  intro done' plain' rest' h' hle hsmall
  rcases h.next h' hle with ⟨rfl, rfl, rfl⟩ | ⟨c, behind, hrest, hleading⟩
  · exact hfits
  · rcases hnext c behind hrest with hfull | hbehind
    · have hmono := length_escaped_le hleading
      omega
    · exact hbehind done' plain' rest' h' hleading.length_le hsmall

/-- The loop from the beginning of a piece on: where no sum wraps it writes what the text is
escaped to or finds that it does not fit, and otherwise it leaves the input or the buffer. -/
theorem jsonEscapeLoop_cases (hs : s.length < 2 ^ 32) (hout : outSize < 2 ^ 32)
    (hsplit : s = done ++ rest) (hbegins : ∀ c ∈ done.getLast?, needsEscape c = true)
    (hdone : (escaped done).length ≤ outSize) (hfuel : rest.length < fuel) :
    (NoWrapFrom (blockSize sse2) outSize s done.length ∧
        jsonEscapeLoop s.length sse2 outSize fuel rest (escaped done) =
          .ok (if (escaped s).length ≤ outSize then some (escaped s) else none)) ∨
      ¬ NoWrapFrom (blockSize sse2) outSize s done.length ∧
        jsonEscapeLoop s.length sse2 outSize fuel rest (escaped done) = .error .outOfBounds := by
  induction fuel generalizing done rest with
  | zero => exact absurd hfuel (Nat.not_lt_zero _)
  | succ fuel ih =>
    unfold jsonEscapeLoop
    by_cases hrest : rest = []
    · subst hrest
      rw [List.append_nil] at hsplit
      subst hsplit
      refine .inl ⟨?_, ?_⟩
      · intro done' plain' rest' h' hle _
        have hlengths := congrArg List.length h'.split
        simp only [List.length_append] at hlengths
        have hmore := List.length_pos_of_ne_nil h'.more
        rw [List.length_append] at hmore
        omega
      · rw [if_pos rfl, if_pos hdone]
    rw [if_neg hrest]
    have hpiece := pieceAt_scan hsplit hrest hbegins
    have hi : s.length - rest.length = done.length := by
      rw [hsplit, List.length_append]
      omega
    have hle : rest.length ≤ s.length := by
      rw [hsplit, List.length_append]
      omega
    have hscan := findEscape_cases sse2 hs hle
    have hparts : rest.takeWhile isPlain ++ rest.dropWhile isPlain = rest :=
      List.takeWhile_append_dropWhile
    have htake := take_plain rest
    rw [hi] at hscan
    unfold plainRun at hscan
    generalize rest.takeWhile isPlain = plain at *
    generalize rest.dropWhile isPlain = behind at *
    have hplain : escaped (done ++ plain) = escaped done ++ plain := by
      rw [escaped_append, escaped_plain hpiece.plain]
    have hgrow : (escaped (done ++ plain)).length ≤ (escaped s).length :=
      length_escaped_le ⟨behind, by rw [List.append_assoc]; exact hpiece.split.symm⟩
    rcases hscan with ⟨hwrap, hscan⟩ | ⟨hroom, hscan⟩
    · rw [hscan]
      exact .inr ⟨fun h => absurd (h done plain behind hpiece le_rfl hdone).1 (not_lt.mpr hwrap),
        rfl⟩
    rw [hscan]
    dsimp only [Except.bind]
    rw [htake]
    have hshort : plain.length < 2 ^ 32 := by
      have hlengths := congrArg List.length hparts
      rw [List.length_append] at hlengths
      omega
    rcases putEscaped_cases hout hdone hshort with
      ⟨hwrap, hput⟩ | ⟨hlow, hfull, hput⟩ | ⟨hfits, hput⟩
    · rw [hput]
      refine .inr ⟨fun h => ?_, rfl⟩
      have hlow := (h done plain behind hpiece le_rfl hdone).2.1
      rw [hplain, List.length_append] at hlow
      omega
    · rw [hput]
      rw [← List.length_append, ← hplain] at hlow hfull
      refine .inl ⟨noWrapFrom_of_piece hpiece ⟨hroom, hlow, fun h => by omega⟩ ?_, ?_⟩
      · intro c behind' _
        left
        refine hfull.trans_le (length_escaped_le ⟨[c], ?_⟩)
        rw [List.append_assoc]
      · rw [if_neg (by omega)]
    rw [hput]
    rw [← List.length_append, ← hplain] at hfits
    have hlow : (escaped (done ++ plain)).length < 2 ^ 32 := by omega
    cases behind with
    | nil =>
      refine .inl ⟨noWrapFrom_of_piece hpiece ⟨hroom, hlow, fun _ => ?_⟩ ?_, ?_⟩
      · rw [List.take_nil, List.append_nil]
        exact hlow
      · intro c behind hcon
        cases hcon
      · rw [List.append_nil] at hparts
        rw [hsplit, ← hparts, if_pos hfits, hplain]
    | cons c behind =>
      have hc : needsEscape c = true := hpiece.ends c rfl
      have hone : escaped (done ++ (plain ++ [c])) = escaped (done ++ plain) ++ escapeOf c := by
        rw [← List.append_assoc, escaped_append, escaped_singleton hc]
      have hgrow' : (escaped (done ++ (plain ++ [c]))).length ≤ (escaped s).length := by
        refine length_escaped_le ⟨behind, ?_⟩
        rw [hpiece.split]
        simp
      have hsix := length_escapeOf_le c
      dsimp only
      rw [← hplain]
      rcases putEscaped_cases hout hfits (show (escapeOf c).length < 2 ^ 32 by omega) with
        ⟨hwrap, hput'⟩ | ⟨hlow', hfull, hput'⟩ | ⟨hfits', hput'⟩
      · rw [hput']
        refine .inr ⟨fun h => ?_, rfl⟩
        have hlow' := (h done plain (c :: behind) hpiece le_rfl hdone).2.2 hfits
        rw [show (c :: behind).take 1 = [c] from rfl, hone, List.length_append] at hlow'
        omega
      · rw [hput']
        rw [← List.length_append, ← hone] at hlow' hfull
        refine .inl ⟨noWrapFrom_of_piece hpiece ⟨hroom, hlow, fun _ => hlow'⟩ ?_, ?_⟩
        · intro c' behind' hbehind
          obtain ⟨rfl, -⟩ := List.cons.inj hbehind
          exact .inl hfull
        · rw [if_neg (by omega)]
      · rw [hput']
        rw [← List.length_append, ← hone] at hfits'
        dsimp only
        rw [← hone]
        have hsplit' : s = done ++ (plain ++ [c]) ++ behind := by
          rw [hpiece.split]
          simp
        have hlast : ∀ b ∈ (done ++ (plain ++ [c])).getLast?, needsEscape b = true := by
          intro b hb
          rw [← List.append_assoc, List.getLast?_append] at hb
          obtain rfl := Option.some.inj hb
          exact hc
        have hfuel' : behind.length < fuel := by
          have hlengths := congrArg List.length hparts
          rw [List.length_append, List.length_cons] at hlengths
          omega
        rcases ih hsplit' hlast hfits' hfuel' with ⟨hnext, hloop⟩ | ⟨hnext, hloop⟩
        · refine .inl ⟨noWrapFrom_of_piece hpiece ⟨hroom, hlow, fun _ => ?_⟩ ?_, hloop⟩
          · rw [show (c :: behind).take 1 = [c] from rfl]
            omega
          · intro c' behind' hbehind
            obtain ⟨rfl, -⟩ := List.cons.inj hbehind
            exact .inr hnext
        · refine .inr ⟨fun h => hnext ?_, hloop⟩
          intro done' plain' rest' h' hle' hsmall
          refine h done' plain' rest' h' ?_ hsmall
          rw [List.length_append] at hle'
          omega

/-- What the escaper writes for a text: all of it, where that fits. -/
def escapedIn (outSize : ℕ) (s : List UInt8) : List UInt8 :=
  if (escaped s).length ≤ outSize then escaped s else []

theorem jsonEscape_cases (hs : s.length < 2 ^ 32) (hout : outSize < 2 ^ 32) :
    (NoWrap (blockSize sse2) outSize s ∧ jsonEscape sse2 s outSize = .ok (escapedIn outSize s)) ∨
      ¬ NoWrap (blockSize sse2) outSize s ∧ jsonEscape sse2 s outSize = .error .outOfBounds := by
  have hempty : ∀ c ∈ ([] : List UInt8).getLast?, needsEscape c = true := by
    intro c hc
    cases hc
  unfold jsonEscape escapedIn
  rcases @jsonEscapeLoop_cases s [] s outSize (s.length + 1) sse2 hs hout rfl hempty
      (Nat.zero_le _) (Nat.lt_succ_self _) with ⟨hroom, hloop⟩ | ⟨hwrap, hloop⟩
  · refine .inl ⟨hroom, ?_⟩
    change jsonEscapeLoop s.length sse2 outSize (s.length + 1) s [] = _ at hloop
    rw [hloop]
    split
    · rfl
    · rfl
  · refine .inr ⟨hwrap, ?_⟩
    change jsonEscapeLoop s.length sse2 outSize (s.length + 1) s [] = _ at hloop
    rw [hloop]
    rfl

theorem jsonEscape_eq_iff (hs : s.length < 2 ^ 32) (hout : outSize < 2 ^ 32) :
    jsonEscape sse2 s outSize = .ok (escapedIn outSize s) ↔ NoWrap (blockSize sse2) outSize s := by
  rcases @jsonEscape_cases s outSize sse2 hs hout with ⟨hroom, heq⟩ | ⟨hwrap, heq⟩
  · exact iff_of_true heq hroom
  · refine iff_of_false (fun hcon => ?_) hwrap
    rw [heq] at hcon
    cases hcon

theorem length_escaped_le_six (s : List UInt8) : (escaped s).length ≤ 6 * s.length := by
  induction s with
  | nil => exact le_rfl
  | cons c s ih =>
    have hbyte : (escapedByByte c).length ≤ 6 := by
      unfold escapedByByte
      split
      · exact length_escapeOf_le c
      · exact Nat.le_add_left 1 5
    show (escapedByByte c ++ escaped s).length ≤ _
    rw [List.length_append, List.length_cons]
    omega

theorem noWrap_of_short (sse2 : Bool) (hs : 6 * s.length < 2 ^ 32) :
    NoWrap (blockSize sse2) outSize s := by
  intro done plain rest hpiece _ _
  have hlengths := congrArg List.length hpiece.split
  simp only [List.length_append] at hlengths
  have hsix := length_escaped_le_six (done ++ plain)
  have hsix' := length_escaped_le_six (done ++ (plain ++ rest.take 1))
  simp only [List.length_append, List.length_take] at hsix hsix'
  refine ⟨?_, by omega, fun _ => by omega⟩
  unfold blocksBelow blockSize
  cases sse2 with
  | false =>
    rw [if_neg Bool.false_ne_true]
    omega
  | true =>
    rw [if_pos rfl]
    omega

/-- Plain bytes up to the last block below 2^32. -/
theorem not_noWrap_replicate (h : blocksBelow block 0 ≤ n) (hn : 0 < n) :
    ¬ NoWrap block outSize (List.replicate n 97) := by
  intro hroom
  have hpiece : PieceAt (List.replicate n 97) [] (List.replicate n 97) [] := by
    refine ⟨by simp, ?_, fun c hc => (by cases hc), ?_, fun c hc => (by cases hc)⟩
    · rw [List.append_nil]
      exact List.ne_nil_of_length_pos (by rw [List.length_replicate]; exact hn)
    · intro c hc
      rw [List.eq_of_mem_replicate hc]
      rfl
  have hlt := (hroom _ _ _ hpiece le_rfl (Nat.zero_le _)).1
  rw [List.length_replicate] at hlt
  exact absurd h (not_le.mpr hlt)

/-! ## The round trip -/

/-- An object with one field, its value between the quotes. -/
def fieldDocument (field text : List UInt8) : List UInt8 :=
  123 :: 34 :: (field ++ 34 :: 58 :: 34 :: (text ++ [34, 125]))

theorem document_fieldDocument {field text value : List UInt8}
    (hfield : ∀ c ∈ field, needsEscape c = false) (htext : Chars text value) :
    Document 32 (fieldDocument field text) (.object [(field, some value)]) := by
  have hkey : Chars field field := by
    have hchars := chars_escaped field
    rwa [escaped_plain hfield] at hchars
  have hblank : Blank [] := by
    intro c hc
    cases hc
  have hmember := Derives.lastMember hblank hkey hblank hblank
    (@Derives.string 31 _ _ htext) hblank
  refine ⟨[], fieldDocument field text, [], by simp, hblank, ?_, hblank⟩
  have hobject := Derives.object hmember
  simp only [List.nil_append, List.append_nil, List.cons_append, List.append_assoc] at hobject
  exact hobject

theorem terminated_of_lt {value out : List UInt8} (h : value.length < out.length) :
    terminated value out = value ++ 0 :: out.drop (value.length + 1) := by
  unfold terminated overwritten
  rw [List.take_of_length_le (show value.length ≤ out.length - 1 by omega),
    List.take_of_length_le (by rw [List.length_append, List.length_singleton]; exact h),
    List.length_append, List.length_singleton, List.append_assoc]
  rfl

/-- The reader gives back what has been escaped. -/
theorem jsonGetStringField_escaped {field out : List UInt8}
    (hfield : ∀ c ∈ field, needsEscape c = false) (hout : s.length < out.length)
    (hlength : (fieldDocument field (escaped s)).length < 2 ^ 32) :
    jsonGetStringField (fieldDocument field (escaped s)) field out =
      .ok (.fieldOk (s ++ 0 :: out.drop (s.length + 1)) s.length) := by
  have hne : out ≠ [] := List.ne_nil_of_length_pos (by omega)
  rw [jsonGetStringField_document (document_fieldDocument hfield (chars_escaped s)) hlength hne]
  unfold answerFor
  dsimp only
  rw [List.find?_cons_of_pos (by exact decide_eq_true rfl)]
  dsimp only
  rw [terminated_of_lt hout]

/-- The escaper writes a text whole or not at all, as it stands between quotes for the text, and the
reader gives the text back. -/
def RoundTrips (sse2 : Bool) (s : List UInt8) (outSize : ℕ) : Prop :=
  jsonEscape sse2 s outSize = .ok (escapedIn outSize s) ∧ Chars (escaped s) s ∧
    ∀ field out, (∀ c ∈ field, needsEscape c = false) → s.length < out.length →
      (fieldDocument field (escaped s)).length < 2 ^ 32 →
      jsonGetStringField (fieldDocument field (escaped s)) field out =
        .ok (.fieldOk (s ++ 0 :: out.drop (s.length + 1)) s.length)

/-- Exactly where no sum of the escaper wraps. -/
theorem roundTrips_iff (sse2 : Bool) (s : List UInt8) (outSize : ℕ) (hs : s.length < 2 ^ 32)
    (hout : outSize < 2 ^ 32) : RoundTrips sse2 s outSize ↔ NoWrap (blockSize sse2) outSize s := by
  rw [← jsonEscape_eq_iff hs hout]
  constructor
  · exact fun h => h.1
  · intro hescape
    exact ⟨hescape, chars_escaped s,
      fun field out hfield hlong hlength => jsonGetStringField_escaped hfield hlong hlength⟩

theorem roundTrips_quote : RoundTrips true [97, 34, 1] 9 :=
  (roundTrips_iff true [97, 34, 1] 9 (by decide) (by decide)).mpr (noWrap_of_short true (by decide))

/-- Eight bytes less than 2^32, all plain, into a buffer that has room for them. -/
theorem replicate_not_roundTrips :
    ¬ RoundTrips true (List.replicate (2 ^ 32 - 8) 97) (2 ^ 32 - 1) ∧
      ¬ RoundTrips false (List.replicate (2 ^ 32 - 8) 97) (2 ^ 32 - 1) := by
  have hlength : (List.replicate (2 ^ 32 - 8) (97 : UInt8)).length < 2 ^ 32 := by
    rw [List.length_replicate]
    decide
  have hwraps : ∀ sse2, ¬ RoundTrips sse2 (List.replicate (2 ^ 32 - 8) 97) (2 ^ 32 - 1) := by
    intro sse2 h
    refine not_noWrap_replicate ?_ (by decide) ((jsonEscape_eq_iff hlength (by decide)).mp h.1)
    cases sse2 with
    | false => decide
    | true => decide
  exact ⟨hwraps true, hwraps false⟩

end AmmarServer.Json
