import AmmarServer.Tools.JsonEscape
import Mathlib.Data.List.TakeWhile

/-! The scans for the next byte to escape: the tests of a word and of a vector are exact, and where
no sum wraps all of them together stop at that byte. -/

namespace AmmarServer.Json
open WordBytes

variable {bytes rest : List UInt8} {length block fuel : ℕ} {needed : List UInt8 → Bool}

/-- The bytes that are copied as they are. -/
def isPlain (c : UInt8) : Bool := !needsEscape c

/-! ## One word -/

theorem testBit_high (i : ℕ) :
    (0x8080808080808080 : ℕ).testBit i = true ↔ ∃ j < 8, i = 8 * j + 7 := by
  constructor
  · intro hbit
    have hi : i < 64 := by
      by_contra hge
      rw [not_lt] at hge
      rw [Nat.testBit_lt_two_pow (Nat.lt_of_lt_of_le (by decide)
        (Nat.pow_le_pow_right (by decide) hge))] at hbit
      cases hbit
    have hall : ∀ i : Fin 64, (0x8080808080808080 : ℕ).testBit i.val = true → i.val % 8 = 7 := by
      decide
    have hseven := hall ⟨i, hi⟩ hbit
    dsimp only at hseven
    exact ⟨i / 8, by omega, by omega⟩
  · rintro ⟨j, hj, rfl⟩
    have hall : ∀ j : Fin 8, (0x8080808080808080 : ℕ).testBit (8 * j.val + 7) = true := by decide
    exact hall ⟨j, hj⟩

theorem and_high (x : UInt64) : x &&& 0x8080808080808080 ≠ 0 ↔ Marked 8 x.toNat := by
  have hzero : x &&& 0x8080808080808080 = 0 ↔ x.toNat &&& 0x8080808080808080 = 0 := by
    rw [← UInt64.toNat_inj, UInt64.toNat_and]
    rfl
  rw [ne_eq, hzero]
  constructor
  · intro hne
    obtain ⟨i, hbit⟩ := Nat.exists_testBit_of_ne_zero hne
    rw [Nat.testBit_and, Bool.and_eq_true] at hbit
    obtain ⟨j, hj, rfl⟩ := (testBit_high i).mp hbit.2
    exact ⟨j, hj, hbit.1⟩
  · rintro ⟨j, hj, hbit⟩ hcon
    have hbit' : (x.toNat &&& 0x8080808080808080).testBit (8 * j + 7) = true := by
      rw [Nat.testBit_and, hbit, (testBit_high _).mpr ⟨j, hj, rfl⟩]
      rfl
    rw [hcon, Nat.zero_testBit] at hbit'
    cases hbit'

theorem toNat_word (h : bytes.length = 8) : (UInt64.ofNat (word bytes)).toNat = word bytes := by
  have hlt := word_lt bytes
  rw [h] at hlt
  exact UInt64.toNat_ofNat_of_lt' hlt

theorem marked_below {n : UInt8} (hn : n ≤ 128) (h : bytes.length = 8) {m : UInt64}
    (hm : m.toNat = splat n 8) :
    Marked 8 ((UInt64.ofNat (word bytes) - m) &&& ~~~UInt64.ofNat (word bytes)).toNat ↔
      ∃ c ∈ bytes, c < n := by
  have hless : (UInt64.ofNat (word bytes) - m).toNat = less n bytes := by
    rw [UInt64.toNat_sub, toNat_word h, hm, less, h]
  rw [← marked_less hn bytes, h]
  refine exists_congr fun i => and_congr_right fun hi => ?_
  have hnot : (~~~UInt64.ofNat (word bytes)).toNat.testBit (8 * i + 7) =
      !(word bytes).testBit (8 * i + 7) := by
    have hroom : 8 * i + 7 < 64 := by omega
    rw [UInt64.toNat_not, toNat_word h]
    have hlt := word_lt bytes
    rw [h] at hlt
    show (2 ^ 64 - 1 - word bytes).testBit _ = _
    rw [Nat.sub_sub, Nat.add_comm, Nat.testBit_two_pow_sub_succ hlt, decide_eq_true hroom]
    rfl
  rw [UInt64.toNat_and, Nat.testBit_and, hless, hnot, Bool.and_eq_true, Bool.not_eq_true']

theorem xor_word (h : bytes.length = 8) {n : UInt8} {m : UInt64} (hm : m.toNat = splat n 8) :
    UInt64.ofNat (word bytes) ^^^ m = UInt64.ofNat (word (bytes.map (· ^^^ n))) := by
  have hlength : (bytes.map (· ^^^ n)).length = 8 := by rw [List.length_map, h]
  rw [← UInt64.toNat_inj, UInt64.toNat_xor, toNat_word h, toNat_word hlength, hm, word_xor, h]

theorem marked_equal (n : UInt8) (h : bytes.length = 8) {m : UInt64} (hm : m.toNat = splat n 8) :
    Marked 8 (((UInt64.ofNat (word bytes) ^^^ m) - 0x0101010101010101) &&&
        ~~~(UInt64.ofNat (word bytes) ^^^ m)).toNat ↔ n ∈ bytes := by
  have hlength : (bytes.map (· ^^^ n)).length = 8 := by rw [List.length_map, h]
  rw [xor_word h hm, marked_below (n := 1) (by decide) hlength (by rfl)]
  constructor
  · rintro ⟨c, hc, hlt⟩
    obtain ⟨d, hd, rfl⟩ := List.mem_map.mp hc
    have hzero : d ^^^ n = 0 := UInt8.lt_one_iff.mp hlt
    rwa [← UInt8.xor_eq_zero_iff.mp hzero]
  · intro hmem
    exact ⟨n ^^^ n, List.mem_map.mpr ⟨n, hmem, rfl⟩, by rw [UInt8.xor_self]; decide⟩

theorem jsonEscapeNeededIn8_eq (h : bytes.length = 8) :
    jsonEscapeNeededIn8 (UInt64.ofNat (word bytes)) = bytes.any needsEscape := by
  rw [Bool.eq_iff_iff]
  unfold jsonEscapeNeededIn8
  dsimp only
  rw [bne_iff_ne, and_high, UInt64.toNat_or, UInt64.toNat_or, marked_or, marked_or,
    marked_below (n := 0x20) (by decide) h (by rfl), marked_equal 0x22 h (by rfl),
    marked_equal 0x5C h (by rfl), List.any_eq_true]
  constructor
  · rintro ((⟨c, hc, hlt⟩ | hmem) | hmem)
    · refine ⟨c, hc, ?_⟩
      unfold needsEscape
      rw [decide_eq_true hlt, Bool.or_true]
    · exact ⟨_, hmem, rfl⟩
    · exact ⟨_, hmem, rfl⟩
  · rintro ⟨c, hc, hneeds⟩
    unfold needsEscape at hneeds
    rw [Bool.or_eq_true, Bool.or_eq_true, beq_iff_eq, beq_iff_eq, decide_eq_true_eq] at hneeds
    rcases hneeds with (rfl | rfl) | hlt
    · exact .inl (.inr hc)
    · exact .inr hc
    · exact .inl (.inl ⟨c, hc, hlt⟩)

/-! ## One vector -/

theorem hit_eq : ∀ c : UInt8, (c == 34 || c == 92 || max c 0x1F == 0x1F) = needsEscape c := by
  have hall : ∀ n : Fin 256, (UInt8.ofFin n == 34 || UInt8.ofFin n == 92 ||
      max (UInt8.ofFin n) 0x1F == 0x1F) = needsEscape (UInt8.ofFin n) := by
    decide +kernel
  exact fun c => hall c.toFin

theorem escapeMask_cons (c : UInt8) (bytes : List UInt8) :
    escapeMask (c :: bytes) = 2 * escapeMask bytes + (needsEscape c).toNat := by
  rw [← hit_eq]
  rfl

/-- The mask tells whether there is a hit. -/
theorem escapeMask_ne_zero (bytes : List UInt8) :
    (escapeMask bytes != 0) = bytes.any needsEscape := by
  induction bytes with
  | nil => rfl
  | cons c bytes ih =>
    rw [List.any_cons, ← ih, escapeMask_cons, Bool.eq_iff_iff, Bool.or_eq_true, bne_iff_ne,
      bne_iff_ne]
    cases needsEscape c with
    | false => simp
    | true => simp

theorem drop_ctz (bits : ℕ) (hbits : bytes.length ≤ bits) (hany : bytes.any needsEscape = true)
    (more : List UInt8) :
    (bytes ++ more).drop (ctz bits (escapeMask bytes)) = (bytes ++ more).dropWhile isPlain := by
  induction bytes generalizing bits with
  | nil => cases hany
  | cons c bytes ih =>
    obtain ⟨bits, rfl⟩ := Nat.exists_eq_succ_of_ne_zero (Nat.ne_zero_of_lt hbits)
    rw [escapeMask_cons, ctz]
    cases hc : needsEscape c with
    | true =>
      rw [if_pos (by rw [Bool.toNat_true]; omega), List.cons_append,
        List.dropWhile_cons_of_neg (by unfold isPlain; rw [hc]; decide)]
      rfl
    | false =>
      rw [List.any_cons, hc, Bool.false_or] at hany
      have hhalf : (2 * escapeMask bytes + 0) / 2 = escapeMask bytes := by omega
      rw [if_neg (by rw [Bool.toNat_false]; omega), Bool.toNat_false, hhalf, List.cons_append,
        List.dropWhile_cons_of_pos (by unfold isPlain; rw [hc]; rfl), List.drop_succ_cons]
      exact ih bits (Nat.le_of_succ_le_succ hbits) hany

/-! ## Blocks -/

/-- The plain bytes that the input goes on with. -/
def plainRun (rest : List UInt8) : ℕ := (rest.takeWhile isPlain).length

/-- How many of the bytes behind the first `i` whole blocks below 2^32 take. -/
def blocksBelow (block i : ℕ) : ℕ := block * ((2 ^ 32 - 1 - i) / block)

theorem blocksBelow_eq_zero {i : ℕ} (hwrap : 2 ^ 32 ≤ i + block) (hi : i < 2 ^ 32) :
    blocksBelow block i = 0 := by
  unfold blocksBelow
  rw [Nat.div_eq_of_lt (by omega)]
  rfl

theorem blocksBelow_add {i : ℕ} (hroom : i + block < 2 ^ 32) (hblock : 0 < block) :
    blocksBelow block i = block + blocksBelow block (i + block) := by
  unfold blocksBelow
  rw [show 2 ^ 32 - 1 - i = (2 ^ 32 - 1 - (i + block)) + block by omega,
    Nat.add_div_right _ hblock, Nat.mul_succ, Nat.add_comm]

theorem plainRun_le (rest : List UInt8) : plainRun rest ≤ rest.length :=
  (List.takeWhile_prefix isPlain).length_le

theorem plain_of_any {bytes : List UInt8} (h : bytes.any needsEscape = false) :
    ∀ c ∈ bytes, isPlain c = true := by
  intro c hc
  have hplain := List.any_eq_false.mp h c hc
  rw [Bool.not_eq_true] at hplain
  unfold isPlain
  rw [hplain]
  rfl

theorem plainRun_append {bytes : List UInt8} (h : bytes.any needsEscape = false)
    (more : List UInt8) : plainRun (bytes ++ more) = bytes.length + plainRun more := by
  unfold plainRun
  rw [List.takeWhile_append_of_pos (plain_of_any h), List.length_append]

theorem plainRun_lt {bytes : List UInt8} (h : bytes.any needsEscape = true) (more : List UInt8) :
    plainRun (bytes ++ more) < bytes.length := by
  induction bytes with
  | nil => cases h
  | cons c bytes ih =>
    unfold plainRun
    rw [List.cons_append, List.length_cons]
    cases hc : needsEscape c with
    | true =>
      rw [List.takeWhile_cons_of_neg (by unfold isPlain; rw [hc]; decide)]
      exact Nat.succ_pos _
    | false =>
      rw [List.any_cons, hc, Bool.false_or] at h
      rw [List.takeWhile_cons_of_pos (by unfold isPlain; rw [hc]; rfl)]
      exact Nat.succ_lt_succ (ih h)

/-- The loop over whole blocks reads behind the input where so many plain bytes come that its sum
wraps; elsewhere it stops before the next byte to escape. -/
theorem skipBlocks_cases (hblock : 0 < block) (hsmall : block ≤ 16)
    (hneeded : ∀ bytes, bytes.length = block → needed bytes = bytes.any needsEscape)
    (hlength : length < 2 ^ 32) (hle : rest.length ≤ length) (hfuel : rest.length < fuel) :
    (blocksBelow block (length - rest.length) ≤ plainRun rest ∧
        skipBlocks length block needed fuel rest = .error .outOfBounds) ∨
      plainRun rest < blocksBelow block (length - rest.length) ∧
        ∃ hit rest', skipBlocks length block needed fuel rest = .ok (hit, rest') ∧
          rest'.dropWhile isPlain = rest.dropWhile isPlain ∧ rest'.length ≤ length ∧
          if hit then block ≤ rest'.length ∧ (rest'.take block).any needsEscape = true
          else rest'.length < block ∧ length - rest'.length + block < 2 ^ 32 := by
  induction fuel generalizing rest with
  | zero => exact absurd hfuel (Nat.not_lt_zero _)
  | succ fuel ih =>
    have hrun := plainRun_le rest
    unfold skipBlocks
    by_cases hwrap : 2 ^ 32 ≤ length - rest.length + block
    · refine .inl ⟨?_, ?_⟩
      · rw [blocksBelow_eq_zero hwrap (by omega)]
        exact Nat.zero_le _
      · rw [if_neg (by omega), if_pos (by omega)]
    rw [not_le] at hwrap
    rw [Nat.mod_eq_of_lt hwrap, blocksBelow_add hwrap hblock]
    by_cases hshort : rest.length < block
    · refine .inr ⟨by omega, false, rest, if_pos (by omega), rfl, hle, ?_⟩
      exact ⟨hshort, hwrap⟩
    rw [if_neg (by omega), if_neg hshort]
    rw [not_lt] at hshort
    have htake : (rest.take block).length = block := by
      rw [List.length_take, Nat.min_eq_left hshort]
    rw [hneeded _ htake]
    cases hany : (rest.take block).any needsEscape with
    | true =>
      have hlt := plainRun_lt hany (rest.drop block)
      rw [List.take_append_drop, htake] at hlt
      refine .inr ⟨by omega, true, rest, if_pos rfl, rfl, hle, ?_⟩
      exact ⟨hshort, hany⟩
    | false =>
      have hrun' := plainRun_append hany (rest.drop block)
      rw [List.take_append_drop, htake] at hrun'
      have hdrop : (rest.drop block).length = rest.length - block := List.length_drop ..
      have hi : length - (rest.drop block).length = length - rest.length + block := by omega
      have hwhile : (rest.drop block).dropWhile isPlain = rest.dropWhile isPlain := by
        conv_rhs => rw [← List.take_append_drop block rest]
        rw [List.dropWhile_append_of_pos (plain_of_any hany)]
      have hnext := @ih (rest.drop block) (by omega) (by omega)
      rw [hi, hwhile] at hnext
      rw [hrun', Nat.add_le_add_iff_left, Nat.add_lt_add_iff_left, if_neg Bool.false_ne_true]
      exact hnext

theorem skipWords_of_lt (hlength : length < 2 ^ 32) (hle : rest.length ≤ length)
    (h : plainRun rest < blocksBelow 8 (length - rest.length)) :
    skipWords length rest = .ok (rest.dropWhile isPlain) := by
  have hneeded : ∀ bytes : List UInt8, bytes.length = 8 →
      jsonEscapeNeededIn8 (UInt64.ofNat (word bytes)) = bytes.any needsEscape :=
    fun _ => jsonEscapeNeededIn8_eq
  unfold skipWords
  rcases skipBlocks_cases (by decide) (by decide) hneeded hlength hle (Nat.lt_succ_self _) with
    ⟨hwrap, -⟩ | ⟨-, hit, rest', hscan, hwhile, -⟩
  · exact absurd h (not_lt.mpr hwrap)
  · rw [hscan]
    exact congrArg Except.ok hwhile

/-- The blocks that the scan goes over first. -/
def blockSize (sse2 : Bool) : ℕ := if sse2 then 16 else 8

theorem findEscape_cases (sse2 : Bool) (hlength : length < 2 ^ 32) (hle : rest.length ≤ length) :
    (blocksBelow (blockSize sse2) (length - rest.length) ≤ plainRun rest ∧
        findEscape length sse2 rest = .error .outOfBounds) ∨
      plainRun rest < blocksBelow (blockSize sse2) (length - rest.length) ∧
        findEscape length sse2 rest = .ok (rest.dropWhile isPlain) := by
  cases sse2 with
  | false =>
    rcases Nat.lt_or_ge (plainRun rest) (blocksBelow 8 (length - rest.length)) with hlt | hge
    · exact .inr ⟨hlt, skipWords_of_lt hlength hle hlt⟩
    · have hneeded : ∀ bytes : List UInt8, bytes.length = 8 →
          jsonEscapeNeededIn8 (UInt64.ofNat (word bytes)) = bytes.any needsEscape :=
        fun _ => jsonEscapeNeededIn8_eq
      rcases skipBlocks_cases (by decide) (by decide) hneeded hlength hle (Nat.lt_succ_self _) with
        ⟨-, hscan⟩ | ⟨hlt, -⟩
      · refine .inl ⟨hge, ?_⟩
        show skipWords length rest = _
        unfold skipWords
        rw [hscan]
        rfl
      · exact absurd hge (not_le.mpr hlt)
  | true =>
    have hneeded : ∀ bytes : List UInt8, bytes.length = 16 →
        (escapeMask bytes != 0) = bytes.any needsEscape := fun bytes _ => escapeMask_ne_zero bytes
    unfold findEscape
    rw [if_pos rfl]
    rcases skipBlocks_cases (by decide) (by decide) hneeded hlength hle (Nat.lt_succ_self _) with
      ⟨hge, hscan⟩ | ⟨hlt, hit, rest', hscan, hwhile, hle', hstop⟩
    · rw [hscan]
      exact .inl ⟨hge, rfl⟩
    · refine .inr ⟨hlt, ?_⟩
      rw [hscan]
      cases hit with
      | true =>
        obtain ⟨hfull, hany⟩ := hstop
        have hdrop := drop_ctz 32 (by rw [List.length_take]; omega) hany (rest'.drop 16)
        rw [List.take_append_drop, hwhile] at hdrop
        exact congrArg Except.ok hdrop
      | false =>
        obtain ⟨hshort, hroom⟩ := hstop
        have hrun := plainRun_le rest'
        have hblocks : plainRun rest' < blocksBelow 8 (length - rest'.length) := by
          unfold blocksBelow
          omega
        rw [← hwhile]
        exact skipWords_of_lt hlength hle' hblocks

end AmmarServer.Json
