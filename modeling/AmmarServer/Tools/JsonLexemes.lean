import AmmarServer.Lib.JsonText
import AmmarServer.Tools.JsonReader

/-! What the reader takes for strings, numbers and literals, against the grammar. -/

namespace AmmarServer.Json
open JsonText

variable {length : ℕ} {capture : Bool} {rest rest' raw decoded text : List UInt8} {w w' : Wanted}
  {p q : JsonParser}

theorem isWhitespace_eq : isWhitespace = isBlank := rfl

theorem isDigit_eq : isDigit = JsonText.isDigit := rfl

theorem escapedByte_eq : escapedByte = simpleEscape := rfl

theorem hexDigitValue_eq : hexDigitValue = hexDigit := rfl

/-! ## What is put out -/

theorem emitDecodedBytes_append (bytes bytes' : List UInt8) :
    emitDecodedBytes capture (bytes ++ bytes') w =
      emitDecodedBytes capture bytes' (emitDecodedBytes capture bytes w) :=
  List.foldl_append ..

theorem emitDecodedBytes_false (bytes : List UInt8) : emitDecodedBytes false bytes w = w := by
  induction bytes with
  | nil => rfl
  | cons byte bytes ih => exact ih

/-- The first bytes of a buffer overwritten, as far as it reaches. -/
def overwritten (bytes out : List UInt8) : List UInt8 :=
  bytes.take out.length ++ out.drop bytes.length

theorem length_overwritten (bytes out : List UInt8) :
    (overwritten bytes out).length = out.length := by
  unfold overwritten
  rw [List.length_append, List.length_take, List.length_drop]
  omega

theorem overwritten_append_singleton (bytes : List UInt8) (byte : UInt8) (out : List UInt8) :
    overwritten (bytes ++ [byte]) out =
      if bytes.length < out.length then (overwritten bytes out).set bytes.length byte
      else overwritten bytes out := by
  unfold overwritten
  split
  · rename_i hlt
    have hfits : bytes.take out.length = bytes := List.take_of_length_le hlt.le
    have hfits' : (bytes ++ [byte]).take out.length = bytes ++ [byte] :=
      List.take_of_length_le (by rw [List.length_append, List.length_singleton]; exact hlt)
    rw [hfits, hfits', List.set_append_right _ _ le_rfl, Nat.sub_self, List.append_assoc,
      List.length_append, List.length_singleton, List.drop_eq_getElem_cons hlt]
    rfl
  · rename_i hge
    rw [not_lt] at hge
    rw [List.take_append_of_le_length hge, List.drop_of_length_le hge, List.drop_of_length_le]
    rw [List.length_append]
    exact hge.trans (Nat.le_add_right _ _)

theorem emitDecodedBytes_true (bytes : List UInt8) (hstart : w.outLength = 0) :
    emitDecodedBytes true bytes w =
      { w with out := overwritten bytes w.out, outLength := bytes.length } := by
  induction bytes using List.reverseRecOn with
  | nil =>
    unfold overwritten
    rw [List.take_nil, List.length_nil, List.drop_zero, List.nil_append, ← hstart]
    rfl
  | append_singleton bytes byte ih =>
    rw [emitDecodedBytes_append, ih]
    unfold emitDecodedBytes emitDecodedByte
    simp only [List.foldl_cons, List.foldl_nil, Bool.not_true, Bool.false_eq_true, if_false,
      length_overwritten, overwritten_append_singleton, List.length_append, List.length_singleton]

/-! ## Escapes -/

theorem continuation_eq (n : ℕ) : 0x80 ||| n &&& 0x3F = n % 64 + 0x80 := by
  rw [show (0x3F : ℕ) = 2 ^ 6 - 1 from rfl, Nat.and_two_pow_sub_one_eq_mod,
    show (0x80 : ℕ) = 2 ^ 6 * 2 from rfl, ← Nat.two_pow_add_eq_or_of_lt (Nat.mod_lt _ (by decide))]
  exact Nat.add_comm ..

theorem utf8Bytes_eq {n : ℕ} (hhigh : ¬ IsHighSurrogate n) (hlow : ¬ IsLowSurrogate n)
    (hn : n < 0x110000) : utf8Bytes n = String.utf8EncodeChar (Char.ofNat n) := by
  have hvalid : n.isValidChar := by
    unfold IsHighSurrogate at hhigh
    unfold IsLowSurrogate at hlow
    unfold Nat.isValidChar
    omega
  have hval : (Char.ofNat n).val.toNat = n := by
    unfold Char.ofNat
    rw [dif_pos hvalid]
    rfl
  have hlead₂ : n < 0x800 → 0xC0 ||| n >>> 6 = n / 64 % 0x20 + 0xC0 := by
    intro hlt
    rw [Nat.shiftRight_eq_div_pow, show (0xC0 : ℕ) = 2 ^ 5 * 6 from rfl,
      ← Nat.two_pow_add_eq_or_of_lt (by omega)]
    omega
  have hlead₃ : n < 0x10000 → 0xE0 ||| n >>> 12 = n / 4096 % 0x10 + 0xE0 := by
    intro hlt
    rw [Nat.shiftRight_eq_div_pow, show (0xE0 : ℕ) = 2 ^ 4 * 14 from rfl,
      ← Nat.two_pow_add_eq_or_of_lt (by omega)]
    omega
  have hlead₄ : 0xF0 ||| n >>> 18 = n / 262144 % 0x08 + 0xF0 := by
    rw [Nat.shiftRight_eq_div_pow, show (0xF0 : ℕ) = 2 ^ 3 * 30 from rfl,
      ← Nat.two_pow_add_eq_or_of_lt (by omega)]
    omega
  unfold utf8Bytes String.utf8EncodeChar
  simp only [hval, continuation_eq]
  rcases Nat.lt_or_ge n 0x80 with h₁ | h₁
  · rw [if_pos h₁, if_pos (show n ≤ 0x7F by omega)]
  rw [if_neg (show ¬ n < 0x80 by omega), if_neg (show ¬ n ≤ 0x7F by omega)]
  rcases Nat.lt_or_ge n 0x800 with h₂ | h₂
  · rw [if_pos h₂, if_pos (show n ≤ 0x7FF by omega), hlead₂ h₂]
  rw [if_neg (show ¬ n < 0x800 by omega), if_neg (show ¬ n ≤ 0x7FF by omega)]
  rcases Nat.lt_or_ge n 0x10000 with h₃ | h₃
  · rw [if_pos h₃, if_pos (show n ≤ 0xFFFF by omega), hlead₃ h₃, Nat.shiftRight_eq_div_pow]
  rw [if_neg (show ¬ n < 0x10000 by omega), if_neg (show ¬ n ≤ 0xFFFF by omega), hlead₄,
    Nat.shiftRight_eq_div_pow, Nat.shiftRight_eq_div_pow]

theorem hexDigits_of_hex4 {n : ℕ} (h : Hex4 text n) (rest : List UInt8) :
    hexDigits 4 (text ++ rest) 0 = .ok (n, rest) := by
  obtain ⟨a, b, c, d, i, j, k, l, rfl, ha, hb, hc, hd, rfl⟩ := h
  rw [← hexDigitValue_eq] at ha hb hc hd
  simp only [List.cons_append, List.nil_append, hexDigits, ha, hb, hc, hd, Nat.zero_mul,
    Nat.zero_add]

theorem hexDigits_cases (h : 4 ≤ rest.length) :
    hexDigits 4 rest 0 = .error .malformed ∨
      ∃ text n rest', rest = text ++ rest' ∧ Hex4 text n ∧ hexDigits 4 rest 0 = .ok (n, rest') := by
  match rest, h with
  | a :: b :: c :: d :: rest, _ =>
    cases ha : hexDigitValue a with
    | none => exact .inl (by simp only [hexDigits, ha])
    | some i =>
      cases hb : hexDigitValue b with
      | none => exact .inl (by simp only [hexDigits, ha, hb])
      | some j =>
        cases hc : hexDigitValue c with
        | none => exact .inl (by simp only [hexDigits, ha, hb, hc])
        | some k =>
          cases hd : hexDigitValue d with
          | none => exact .inl (by simp only [hexDigits, ha, hb, hc, hd])
          | some l =>
            have hhex : Hex4 [a, b, c, d] (((i * 16 + j) * 16 + k) * 16 + l) :=
              ⟨a, b, c, d, i, j, k, l, rfl, ha, hb, hc, hd, rfl⟩
            exact .inr ⟨[a, b, c, d], _, rest, rfl, hhex, hexDigits_of_hex4 hhex rest⟩

theorem hexDigit_lt {c : UInt8} {i : ℕ} (h : hexDigit c = some i) : i < 16 := by
  have hdecide : ∀ c : UInt8, (hexDigit c).all (· < 16) = true := by
    have hall : ∀ n : Fin 256, (hexDigit (UInt8.ofFin n)).all (· < 16) = true := by
      decide +kernel
    exact fun c => hall c.toFin
  have hc := hdecide c
  rw [h] at hc
  simpa using hc

theorem Hex4.lt {n : ℕ} (h : Hex4 text n) : n < 0x10000 := by
  obtain ⟨a, b, c, d, i, j, k, l, rfl, ha, hb, hc, hd, rfl⟩ := h
  have hi := hexDigit_lt ha
  have hj := hexDigit_lt hb
  have hk := hexDigit_lt hc
  have hl := hexDigit_lt hd
  omega

theorem Hex4.length_eq {n : ℕ} (h : Hex4 text n) : text.length = 4 := by
  obtain ⟨a, b, c, d, i, j, k, l, rfl, -⟩ := h
  rfl

/-- The text of an escape behind its `u`, and the code point that it stands for. -/
def Escapes (text : List UInt8) (codepoint : ℕ) : Prop :=
  (Hex4 text codepoint ∧ ¬ IsHighSurrogate codepoint ∧ ¬ IsLowSurrogate codepoint) ∨
    ∃ first high second low, text = first ++ 92 :: 117 :: second ∧ Hex4 first high ∧
      IsHighSurrogate high ∧ Hex4 second low ∧ IsLowSurrogate low ∧ codepoint = joined high low

theorem joinLowSurrogate_of_hex4 {high low : ℕ} (hhex : Hex4 text low) (hlow : IsLowSurrogate low)
    (hlength : length < 2 ^ 32) (hle : (92 :: 117 :: (text ++ rest)).length ≤ length) :
    joinLowSurrogate length high (92 :: 117 :: (text ++ rest)) = .ok (joined high low, rest) := by
  have hfour := Hex4.length_eq hhex
  rw [List.length_cons, List.length_cons, List.length_append] at hle
  unfold IsLowSurrogate at hlow
  unfold joinLowSurrogate
  rw [List.length_cons, List.length_cons, List.length_append, if_pos (by omega)]
  simp only [and_self, if_true, hexDigits_of_hex4 hhex, Except.bind]
  rw [if_neg (by omega)]
  rfl

theorem joinLowSurrogate_cases (high : ℕ) (hlength : length + 6 < 2 ^ 32)
    (hle : rest.length ≤ length) :
    joinLowSurrogate length high rest = .error .malformed ∨
      ∃ second low rest', rest = 92 :: 117 :: (second ++ rest') ∧ Hex4 second low ∧
        IsLowSurrogate low ∧ joinLowSurrogate length high rest = .ok (joined high low, rest') := by
  by_cases hsix : 6 ≤ rest.length
  · match rest, hsix with
    | c :: d :: behind, hsix =>
      have hroom : ¬ ¬ (length - (c :: d :: behind).length + 6) % 2 ^ 32 ≤ length := by omega
      by_cases hu : c = 92 ∧ d = 117
      · obtain ⟨rfl, rfl⟩ := hu
        have hfour : 4 ≤ behind.length := by
          rw [List.length_cons, List.length_cons] at hsix
          omega
        rcases hexDigits_cases hfour with hbad | ⟨second, low, behind, rfl, hhex, hdigits⟩
        · refine .inl ?_
          unfold joinLowSurrogate
          rw [if_pos (not_not.mp hroom)]
          simp only [and_self, if_true, hbad, Except.bind]
        · by_cases hlow : IsLowSurrogate low
          · exact .inr ⟨second, low, behind, rfl, hhex, hlow,
              joinLowSurrogate_of_hex4 hhex hlow (by omega) hle⟩
          · refine .inl ?_
            unfold IsLowSurrogate at hlow
            unfold joinLowSurrogate
            rw [if_pos (not_not.mp hroom)]
            simp only [and_self, if_true, hdigits, Except.bind]
            exact if_pos (by omega)
      · refine .inl ?_
        unfold joinLowSurrogate
        rw [if_pos (not_not.mp hroom)]
        exact if_neg hu
  · exact .inl (if_neg (by omega))

theorem unicodeEscape_of_escapes {n : ℕ} (h : Escapes text n) (hlength : length < 2 ^ 32)
    (hle : (text ++ rest).length ≤ length) :
    unicodeEscape length (text ++ rest) = .ok (n, rest) := by
  rw [List.length_append] at hle
  rcases h with
    ⟨hhex, hhigh, hlow⟩ | ⟨first, high, second, low, rfl, hfirst, hhigh, hsecond, hlow, hn⟩
  · have hfour := Hex4.length_eq hhex
    unfold unicodeEscape
    rw [hexDigits_of_hex4 hhex, List.length_append, if_neg (by omega)]
    simp only [Except.bind]
    rw [if_neg (show ¬ (n ≥ 0xD800 ∧ n ≤ 0xDBFF) from hhigh),
      if_neg (show ¬ (n ≥ 0xDC00 ∧ n ≤ 0xDFFF) from hlow)]
  · have hfour := Hex4.length_eq hfirst
    rw [List.length_append, List.length_cons, List.length_cons] at hle
    have hbehind : (92 :: 117 :: (second ++ rest)).length ≤ length := by
      rw [List.length_cons, List.length_cons, List.length_append]
      omega
    unfold unicodeEscape
    rw [List.append_assoc, hexDigits_of_hex4 hfirst, List.length_append, if_neg (by
      simp only [List.cons_append, List.length_cons, List.length_append]
      omega)]
    simp only [Except.bind, List.cons_append]
    rw [if_pos (show high ≥ 0xD800 ∧ high ≤ 0xDBFF from hhigh), hn]
    exact joinLowSurrogate_of_hex4 hsecond hlow hlength hbehind

theorem unicodeEscape_cases (hlength : length + 6 < 2 ^ 32) (hle : rest.length ≤ length) :
    unicodeEscape length rest = .error .malformed ∨
      ∃ text n rest', rest = text ++ rest' ∧ Escapes text n ∧
        unicodeEscape length rest = .ok (n, rest') := by
  by_cases hfour : 4 ≤ rest.length
  swap
  · refine .inl (if_pos ?_)
    rw [Nat.mod_eq_of_lt (by omega)]
    omega
  have hroom : ¬ (length - rest.length + 4) % 2 ^ 32 > length := by omega
  have hread : ∀ {n : ℕ} {behind : List UInt8}, hexDigits 4 rest 0 = .ok (n, behind) →
      unicodeEscape length rest =
        if n ≥ 0xD800 ∧ n ≤ 0xDBFF then joinLowSurrogate length n behind
        else if n ≥ 0xDC00 ∧ n ≤ 0xDFFF then .error .malformed
        else .ok (n, behind) := by
    intro n behind hdigits
    unfold unicodeEscape
    rw [if_neg hroom, hdigits]
    rfl
  rcases hexDigits_cases hfour with hbad | ⟨first, n, behind, rfl, hhex, hdigits⟩
  · refine .inl ?_
    unfold unicodeEscape
    rw [if_neg hroom, hbad]
    rfl
  rw [hread hdigits]
  by_cases hhigh : IsHighSurrogate n
  · rw [if_pos (show n ≥ 0xD800 ∧ n ≤ 0xDBFF from hhigh)]
    rw [List.length_append] at hle
    rcases joinLowSurrogate_cases n hlength (show behind.length ≤ length by omega) with
      hbad | ⟨second, low, rest', rfl, hhex', hlow, hjoined⟩
    · exact .inl hbad
    · have hescapes : Escapes (first ++ 92 :: 117 :: second) (joined n low) :=
        .inr ⟨first, n, second, low, rfl, hhex, hhigh, hhex', hlow, rfl⟩
      refine .inr ⟨_, _, rest', ?_, hescapes, hjoined⟩
      rw [List.append_assoc]
      rfl
  · rw [if_neg (show ¬ (n ≥ 0xD800 ∧ n ≤ 0xDBFF) from hhigh)]
    by_cases hlow : IsLowSurrogate n
    · exact .inl (if_pos (show n ≥ 0xDC00 ∧ n ≤ 0xDFFF from hlow))
    · exact .inr ⟨first, n, behind, rfl, .inl ⟨hhex, hhigh, hlow⟩,
        if_neg (show ¬ (n ≥ 0xDC00 ∧ n ≤ 0xDFFF) from hlow)⟩

theorem Escapes.utf8 {n : ℕ} (h : Escapes text n) :
    utf8Bytes n = String.utf8EncodeChar (Char.ofNat n) := by
  rcases h with ⟨hhex, hhigh, hlow⟩ | ⟨first, high, second, low, -, -, hhigh, -, hlow, hn⟩
  · exact utf8Bytes_eq hhigh hlow ((Hex4.lt hhex).trans (by decide))
  · unfold IsHighSurrogate at hhigh
    unfold IsLowSurrogate at hlow
    unfold joined at hn
    apply utf8Bytes_eq
    · unfold IsHighSurrogate
      omega
    · unfold IsLowSurrogate
      omega
    · omega

theorem chars_escape {n : ℕ} (h : Escapes text n) (hraw : Chars raw decoded) :
    Chars (92 :: 117 :: (text ++ raw)) (utf8Bytes n ++ decoded) := by
  rw [h.utf8]
  rcases h with
    ⟨hhex, hhigh, hlow⟩ | ⟨first, high, second, low, rfl, hfirst, hhigh, hsecond, hlow, hn⟩
  · exact .unicode hhex hhigh hlow hraw
  · rw [hn, List.append_assoc]
    exact .pair hfirst hhigh hsecond hlow hraw

/-! ## Strings -/

theorem parseUnicodeEscape_ok {n : ℕ} (h : unicodeEscape length p.rest = .ok (n, rest)) :
    parseUnicodeEscape length capture p =
      .ok { p with rest, wanted := emitDecodedBytes capture (utf8Bytes n) p.wanted } := by
  unfold parseUnicodeEscape
  rw [h]
  rfl

theorem parseStringLoop_escape {c d : UInt8} (h : simpleEscape c = some d) {fuel depth : ℕ} :
    parseStringLoop length capture (fuel + 1) ⟨92 :: c :: rest, depth, w⟩ =
      parseStringLoop length capture fuel ⟨rest, depth, emitDecodedByte capture d w⟩ := by
  rw [← escapedByte_eq] at h
  rw [parseStringLoop]
  simp only [h]
  rfl

theorem parseStringLoop_unicode {n : ℕ} (h : unicodeEscape length (text ++ rest) = .ok (n, rest))
    {fuel depth : ℕ} :
    parseStringLoop length capture (fuel + 1) ⟨92 :: 117 :: (text ++ rest), depth, w⟩ =
      parseStringLoop length capture fuel
        ⟨rest, depth, emitDecodedBytes capture (utf8Bytes n) w⟩ := by
  show (parseUnicodeEscape length capture ⟨text ++ rest, depth, w⟩).bind _ = _
  rw [parseUnicodeEscape_ok (p := ⟨text ++ rest, depth, w⟩) h]
  rfl

theorem parseStringLoop_plain {c : UInt8} (hlow : 32 ≤ c) (hquote : c ≠ 34) (hslash : c ≠ 92)
    {fuel depth : ℕ} :
    parseStringLoop length capture (fuel + 1) ⟨c :: rest, depth, w⟩ =
      parseStringLoop length capture fuel ⟨rest, depth, emitDecodedByte capture c w⟩ := by
  show (if c = 34 then _ else if c = 92 then _ else if c < 32 then _ else _) = _
  rw [if_neg hquote, if_neg hslash, if_neg (UInt8.not_lt.mpr hlow)]

theorem parseStringLoop_chars (h : Chars raw decoded) (hlength : length < 2 ^ 32)
    (hle : (raw ++ 34 :: rest).length ≤ length) {fuel depth : ℕ} (hfuel : raw.length < fuel) :
    parseStringLoop length capture fuel ⟨raw ++ 34 :: rest, depth, w⟩ =
      .ok ⟨34 :: rest, depth, emitDecodedBytes capture decoded w⟩ := by
  have hunicode : ∀ {text raw decoded : List UInt8} {n : ℕ}, Escapes text n →
      (∀ {fuel : ℕ} {w : Wanted}, (raw ++ 34 :: rest).length ≤ length → raw.length < fuel →
        parseStringLoop length capture fuel ⟨raw ++ 34 :: rest, depth, w⟩ =
          .ok ⟨34 :: rest, depth, emitDecodedBytes capture decoded w⟩) →
      ∀ {fuel : ℕ} {w : Wanted}, (92 :: 117 :: (text ++ raw) ++ 34 :: rest).length ≤ length →
        (92 :: 117 :: (text ++ raw)).length < fuel →
        parseStringLoop length capture fuel ⟨92 :: 117 :: (text ++ raw) ++ 34 :: rest, depth, w⟩ =
          .ok ⟨34 :: rest, depth,
            emitDecodedBytes capture (String.utf8EncodeChar (Char.ofNat n) ++ decoded) w⟩ := by
    intro text raw decoded n hescapes hnext fuel w hle hfuel
    obtain ⟨fuel, rfl⟩ := Nat.exists_eq_succ_of_ne_zero (Nat.ne_zero_of_lt hfuel)
    simp only [List.cons_append, List.append_assoc, List.length_cons, List.length_append]
      at hle hfuel hnext ⊢
    have hread := @unicodeEscape_of_escapes _ (raw ++ 34 :: rest) _ _ hescapes hlength (by
      simp only [List.length_cons, List.length_append]
      omega)
    rw [parseStringLoop_unicode hread, hnext (by omega) (by omega), ← hescapes.utf8,
      emitDecodedBytes_append]
  induction h generalizing fuel w with
  | nil =>
    obtain ⟨fuel, rfl⟩ := Nat.exists_eq_succ_of_ne_zero (Nat.ne_zero_of_lt hfuel)
    rfl
  | plain hlow hquote hslash _ ih =>
    obtain ⟨fuel, rfl⟩ := Nat.exists_eq_succ_of_ne_zero (Nat.ne_zero_of_lt hfuel)
    rw [List.cons_append] at hle ⊢
    rw [parseStringLoop_plain hlow hquote hslash,
      ih ((Nat.le_succ _).trans hle) (Nat.lt_of_succ_lt_succ hfuel)]
    rfl
  | escape hc _ ih =>
    obtain ⟨fuel, rfl⟩ := Nat.exists_eq_succ_of_ne_zero (Nat.ne_zero_of_lt hfuel)
    rw [List.cons_append, List.cons_append] at hle ⊢
    rw [List.length_cons, List.length_cons] at hle hfuel
    rw [parseStringLoop_escape hc, ih (by omega) (by omega)]
    rfl
  | unicode hhex hhigh hlow _ ih =>
    exact hunicode (.inl ⟨hhex, hhigh, hlow⟩) (fun hle hfuel => ih hle hfuel) hle hfuel
  | pair hfirst hhigh hsecond hlow _ ih =>
    have hpair : ∀ {fuel : ℕ} {w : Wanted}, _ → _ → _ := fun {fuel} {w} =>
      @hunicode _ _ _ _ (.inr ⟨_, _, _, _, rfl, hfirst, hhigh, hsecond, hlow, rfl⟩)
        (fun hle hfuel => ih hle hfuel) fuel w
    simp only [List.append_assoc, List.cons_append] at hpair hle hfuel ⊢
    exact hpair hle hfuel

theorem parseStringLoop_cases (hlength : length + 6 < 2 ^ 32) (fuel depth : ℕ)
    (hle : rest.length ≤ length) :
    parseStringLoop length capture fuel ⟨rest, depth, w⟩ = .error .malformed ∨
      ∃ raw decoded rest', rest = raw ++ 34 :: rest' ∧ Chars raw decoded ∧
        parseStringLoop length capture fuel ⟨rest, depth, w⟩ =
          .ok ⟨34 :: rest', depth, emitDecodedBytes capture decoded w⟩ := by
  induction fuel generalizing rest w with
  | zero => exact .inl rfl
  | succ fuel ih =>
    cases rest with
    | nil => exact .inl rfl
    | cons c rest =>
      by_cases hquote : c = 34
      · subst hquote
        exact .inr ⟨[], [], rest, rfl, .nil, rfl⟩
      by_cases hslash : c = 92
      · subst hslash
        cases rest with
        | nil => exact .inl rfl
        | cons c rest =>
          rw [List.length_cons, List.length_cons] at hle
          cases hescape : simpleEscape c with
          | some d =>
            rw [parseStringLoop_escape hescape]
            rcases ih (show rest.length ≤ length by omega) with
              hbad | ⟨raw, decoded, rest', rfl, hchars, hread⟩
            · exact .inl hbad
            · exact .inr ⟨92 :: c :: raw, d :: decoded, rest', rfl, .escape hescape hchars, hread⟩
          | none =>
            by_cases hu : c = 117
            · subst hu
              rcases unicodeEscape_cases hlength (show rest.length ≤ length by omega) with
                hbad | ⟨text, n, behind, rfl, hescapes, hread⟩
              · refine .inl ?_
                show (parseUnicodeEscape length capture ⟨rest, depth, w⟩).bind _ = _
                unfold parseUnicodeEscape
                rw [hbad]
                rfl
              · rw [List.length_append] at hle
                rw [parseStringLoop_unicode hread]
                rcases ih (show behind.length ≤ length by omega) with
                  hbad | ⟨raw, decoded, rest', rfl, hchars, hread'⟩
                · exact .inl hbad
                · refine .inr ⟨92 :: 117 :: (text ++ raw), utf8Bytes n ++ decoded, rest', ?_,
                    chars_escape hescapes hchars, ?_⟩
                  · simp
                  · rw [hread', emitDecodedBytes_append]
            · refine .inl ?_
              rw [← escapedByte_eq] at hescape
              rw [parseStringLoop]
              simp only [hescape, if_neg hu]
              rfl
      by_cases hlow : c < 32
      · refine .inl ?_
        show (if c = 34 then _ else if c = 92 then _ else if c < 32 then _ else _) = _
        rw [if_neg hquote, if_neg hslash, if_pos hlow]
      · have hplain := UInt8.not_lt.mp hlow
        rw [parseStringLoop_plain hplain hquote hslash]
        rcases ih ((Nat.le_succ _).trans hle) with hbad | ⟨raw, decoded, rest', rfl, hchars, hread⟩
        · exact .inl hbad
        · exact .inr ⟨c :: raw, c :: decoded, rest', rfl, .plain hplain hquote hslash hchars, hread⟩

/-- What a captured string is put out to. -/
def started (capture : Bool) (w : Wanted) : Wanted :=
  if capture then { w with outLength := 0 } else w

theorem parseString_quote (capture : Bool) (rest : List UInt8) (depth : ℕ) (w : Wanted) :
    parseString length capture ⟨34 :: rest, depth, w⟩ =
      (parseStringLoop length capture (rest.length + 1) ⟨rest, depth, started capture w⟩).map
        fun q => (rest.take (rest.length - q.rest.length), { q with rest := q.rest.tail }) := rfl

theorem parseString_chars (h : Chars raw decoded) (hlength : length < 2 ^ 32)
    (hle : (34 :: (raw ++ 34 :: rest)).length ≤ length) (depth : ℕ) :
    parseString length capture ⟨34 :: (raw ++ 34 :: rest), depth, w⟩ =
      .ok (raw, ⟨rest, depth, emitDecodedBytes capture decoded (started capture w)⟩) := by
  rw [parseString_quote, parseStringLoop_chars h hlength ((Nat.le_succ _).trans hle) (by
    rw [List.length_append]
    omega)]
  simp [Except.map]

theorem parseString_cases (hlength : length + 6 < 2 ^ 32) (depth : ℕ) (hle : rest.length ≤ length) :
    parseString length capture ⟨rest, depth, w⟩ = .error .malformed ∨
      ∃ raw decoded rest', rest = 34 :: (raw ++ 34 :: rest') ∧ Chars raw decoded ∧
        parseString length capture ⟨rest, depth, w⟩ =
          .ok (raw, ⟨rest', depth, emitDecodedBytes capture decoded (started capture w)⟩) := by
  cases rest with
  | nil => exact .inl rfl
  | cons c rest =>
    by_cases hquote : c = 34
    · subst hquote
      rcases @parseStringLoop_cases length capture _ (started capture w) hlength
          (rest.length + 1) depth ((Nat.le_succ _).trans hle) with
        hbad | ⟨raw, decoded, rest', rfl, hchars, -⟩
      · refine .inl ?_
        rw [parseString_quote, hbad]
        rfl
      · exact .inr ⟨raw, decoded, rest', rfl, hchars,
          parseString_chars hchars (by omega) hle depth⟩
    · exact .inl (if_pos hquote)

/-! ## Literals -/

theorem parseLiteral_append (literal rest : List UInt8) (hlength : length < 2 ^ 32)
    (hle : (literal ++ rest).length ≤ length) (depth : ℕ) (w : Wanted) :
    parseLiteral length literal ⟨literal ++ rest, depth, w⟩ = .ok ⟨rest, depth, w⟩ := by
  rw [List.length_append] at hle
  unfold parseLiteral
  simp only [List.length_append]
  rw [if_neg (by omega), if_neg (by omega), List.take_left, if_neg (fun hcon => hcon rfl),
    List.drop_left]

theorem parseLiteral_cases (literal : List UInt8) (hliteral : literal.length ≤ 5)
    (hlength : length + 6 < 2 ^ 32) (hle : p.rest.length ≤ length) :
    parseLiteral length literal p = .error .malformed ∨
      ∃ rest, p.rest = literal ++ rest ∧ parseLiteral length literal p = .ok { p with rest } := by
  unfold parseLiteral
  split
  · exact .inl rfl
  · rename_i hroom
    rw [if_neg (by omega)]
    split
    · exact .inl rfl
    · rename_i hsame
      refine .inr ⟨p.rest.drop literal.length, ?_, rfl⟩
      conv_lhs => rw [← List.take_append_drop literal.length p.rest, not_not.mp hsame]

/-! ## Numbers -/

/-- What may stand behind a number: nothing that would be read as part of it. -/
def Stops (rest : List UInt8) : Prop :=
  ∀ c ∈ rest.head?, isDigit c = false ∧ c ≠ 46 ∧ c ≠ 101 ∧ c ≠ 69

theorem dropWhile_digits {ds : List UInt8} (hds : ∀ c ∈ ds, isDigit c = true)
    (hrest : ∀ c ∈ rest.head?, isDigit c = false) : (ds ++ rest).dropWhile isDigit = rest := by
  rw [List.dropWhile_append_of_pos hds]
  cases rest with
  | nil => rfl
  | cons c rest => exact List.dropWhile_cons_of_neg (by rw [hrest c rfl]; decide)

theorem requireDigits_append {ds : List UInt8} (hds : Digits ds)
    (hrest : ∀ c ∈ rest.head?, isDigit c = false) : requireDigits (ds ++ rest) = .ok rest := by
  obtain ⟨hne, hall⟩ := hds
  obtain ⟨c, ds, rfl⟩ := List.exists_cons_of_ne_nil hne
  have hc : isDigit c = true := hall c (List.mem_cons_self ..)
  refine (if_pos hc).trans ?_
  exact congrArg _ (dropWhile_digits hall hrest)

theorem requireDigits_cases (rest : List UInt8) :
    requireDigits rest = .error .malformed ∨
      ∃ ds rest', rest = ds ++ rest' ∧ Digits ds ∧ requireDigits rest = .ok rest' := by
  cases rest with
  | nil => exact .inl rfl
  | cons c rest =>
    by_cases hdigit : isDigit c = true
    · refine .inr ⟨(c :: rest).takeWhile isDigit, _, List.takeWhile_append_dropWhile.symm,
        ⟨?_, fun d hd => List.mem_takeWhile_imp hd⟩, if_pos hdigit⟩
      rw [List.takeWhile_cons_of_pos hdigit]
      exact List.cons_ne_nil _ _
    · exact .inl (if_neg hdigit)

theorem parseInteger_append {int : List UInt8} (hint : IsInt int)
    (hrest : ∀ c ∈ rest.head?, isDigit c = false) : parseInteger (int ++ rest) = .ok rest := by
  rcases hint with rfl | ⟨c, ds, rfl, hc, hzero, hds⟩
  · rfl
  · have hplain : ¬ (!isDigit c) = true := by
      rw [isDigit_eq, hc]
      decide
    have hall : ∀ d ∈ c :: ds, isDigit d = true := List.forall_mem_cons.mpr ⟨hc, hds⟩
    refine (if_neg hplain).trans ((if_neg hzero).trans ?_)
    exact congrArg _ (dropWhile_digits hall hrest)

theorem parseInteger_cases (rest : List UInt8) :
    parseInteger rest = .error .malformed ∨
      ∃ int rest', rest = int ++ rest' ∧ IsInt int ∧ parseInteger rest = .ok rest' := by
  cases rest with
  | nil => exact .inl rfl
  | cons c rest =>
    unfold parseInteger
    by_cases hdigit : isDigit c = true
    · dsimp only
      rw [hdigit, if_neg (by decide)]
      by_cases hzero : c = 48
      · rw [if_pos hzero]
        exact .inr ⟨[48], rest, by rw [hzero]; rfl, .inl rfl, rfl⟩
      · rw [if_neg hzero, List.dropWhile_cons_of_pos hdigit]
        refine .inr ⟨c :: rest.takeWhile isDigit, _, ?_,
          .inr ⟨c, _, rfl, hdigit, hzero, fun d hd => List.mem_takeWhile_imp hd⟩, rfl⟩
        rw [List.cons_append, List.takeWhile_append_dropWhile]
    · refine .inl (if_pos ?_)
      rw [Bool.not_eq_true] at hdigit
      rw [hdigit]
      rfl

theorem parseFraction_append {frac : List UInt8} (hfrac : IsFrac frac)
    (hdigit : ∀ c ∈ rest.head?, isDigit c = false) (hdot : ∀ c ∈ rest.head?, c ≠ 46) :
    parseFraction (frac ++ rest) = .ok rest := by
  rcases hfrac with rfl | ⟨ds, hds, rfl⟩
  · cases rest with
    | nil => rfl
    | cons c rest => exact if_neg (hdot c rfl)
  · exact requireDigits_append hds hdigit

theorem parseFraction_cases (rest : List UInt8) :
    parseFraction rest = .error .malformed ∨
      ∃ frac rest', rest = frac ++ rest' ∧ IsFrac frac ∧ parseFraction rest = .ok rest' := by
  cases rest with
  | nil => exact .inr ⟨[], [], rfl, .inl rfl, rfl⟩
  | cons c rest =>
    unfold parseFraction
    dsimp only
    split
    · rename_i hdot
      rcases requireDigits_cases rest with hbad | ⟨ds, rest', rfl, hds, hread⟩
      · exact .inl hbad
      · exact .inr ⟨46 :: ds, rest', by rw [hdot]; rfl, .inr ⟨ds, hds, rfl⟩, hread⟩
    · exact .inr ⟨[], c :: rest, rfl, .inl rfl, rfl⟩

theorem digit_ne_sign {c : UInt8} (h : isDigit c = true) : c ≠ 43 ∧ c ≠ 45 := by
  constructor
  · rintro rfl
    exact absurd h (by decide)
  · rintro rfl
    exact absurd h (by decide)

theorem parseExponent_append {exp : List UInt8} (hexp : IsExp exp)
    (hdigit : ∀ c ∈ rest.head?, isDigit c = false)
    (hletter : ∀ c ∈ rest.head?, c ≠ 101 ∧ c ≠ 69) : parseExponent (exp ++ rest) = .ok rest := by
  rcases hexp with rfl | ⟨e, sign, ds, he, hsign, hds, rfl⟩
  · cases rest with
    | nil => rfl
    | cons c rest => exact if_neg (not_or.mpr (hletter c rfl))
  · have hread := requireDigits_append hds hdigit
    have hopen : ∀ d digits, parseExponent (e :: d :: digits) =
        requireDigits (if d = 43 ∨ d = 45 then digits else d :: digits) := fun _ _ => if_pos he
    rcases hsign with rfl | rfl | rfl
    · obtain ⟨d, ds, rfl⟩ := List.exists_cons_of_ne_nil hds.1
      have hplain := digit_ne_sign (hds.2 d (List.mem_cons_self ..))
      rw [List.nil_append, List.cons_append, List.cons_append, hopen, if_neg (not_or.mpr hplain)]
      exact hread
    · exact (hopen _ _).trans hread
    · exact (hopen _ _).trans hread

theorem parseExponent_cases (rest : List UInt8) :
    parseExponent rest = .error .malformed ∨
      ∃ exp rest', rest = exp ++ rest' ∧ IsExp exp ∧ parseExponent rest = .ok rest' := by
  cases rest with
  | nil => exact .inr ⟨[], [], rfl, .inl rfl, rfl⟩
  | cons e rest =>
    unfold parseExponent
    dsimp only
    split
    · rename_i he
      cases rest with
      | nil => exact .inl rfl
      | cons d rest =>
        dsimp only
        by_cases hsign : d = 43 ∨ d = 45
        · rw [if_pos hsign]
          rcases requireDigits_cases rest with hbad | ⟨ds, rest', rfl, hds, hread⟩
          · exact .inl hbad
          · refine .inr ⟨e :: ([d] ++ ds), rest', rfl, .inr ⟨e, [d], ds, he, ?_, hds, rfl⟩, hread⟩
            rcases hsign with rfl | rfl
            · exact .inr (.inl rfl)
            · exact .inr (.inr rfl)
        · rw [if_neg hsign]
          rcases requireDigits_cases (d :: rest) with hbad | ⟨ds, rest', hds', hds, hread⟩
          · exact .inl hbad
          · refine .inr ⟨e :: ([] ++ ds), rest', ?_, .inr ⟨e, [], ds, he, .inl rfl, hds, rfl⟩,
              hread⟩
            rw [hds']
            rfl
    · exact .inr ⟨[], e :: rest, rfl, .inl rfl, rfl⟩

theorem head_exponent {exp : List UInt8} (hexp : IsExp exp) (hrest : Stops rest) :
    ∀ c ∈ (exp ++ rest).head?, isDigit c = false ∧ c ≠ 46 := by
  rcases hexp with rfl | ⟨e, sign, ds, he, -, -, rfl⟩
  · exact fun c hc => ⟨(hrest c hc).1, (hrest c hc).2.1⟩
  · intro c hc
    obtain rfl := Option.some.inj hc
    rcases he with rfl | rfl
    · decide
    · decide

theorem head_fraction {frac : List UInt8} (hfrac : IsFrac frac)
    (hrest : ∀ c ∈ rest.head?, isDigit c = false) :
    ∀ c ∈ (frac ++ rest).head?, isDigit c = false := by
  rcases hfrac with rfl | ⟨ds, -, rfl⟩
  · exact hrest
  · intro c hc
    obtain rfl := Option.some.inj hc
    rfl

theorem parseNumber_append (h : IsNumber text) (hrest : Stops rest) (depth : ℕ) (w : Wanted) :
    parseNumber ⟨text ++ rest, depth, w⟩ = .ok ⟨rest, depth, w⟩ := by
  obtain ⟨minus, int, frac, exp, hminus, hint, hfrac, hexp, rfl⟩ := h
  have hbehind := head_exponent hexp hrest
  have hstart : (if (minus ++ (int ++ (frac ++ exp)) ++ rest).head? = some 45 then
      (minus ++ (int ++ (frac ++ exp)) ++ rest).tail
      else minus ++ (int ++ (frac ++ exp)) ++ rest) = int ++ (frac ++ (exp ++ rest)) := by
    rcases hminus with rfl | rfl
    · have hhead : (([] : List UInt8) ++ (int ++ (frac ++ exp)) ++ rest).head? ≠ some 45 := by
        rcases hint with rfl | ⟨c, ds, rfl, hc, -, -⟩
        · intro hcon
          cases hcon
        · exact fun hcon => (digit_ne_sign hc).2 (Option.some.inj hcon)
      rw [if_neg hhead]
      simp
    · have hhead : ([45] ++ (int ++ (frac ++ exp)) ++ rest).head? = some 45 := rfl
      rw [if_pos hhead]
      simp
  unfold parseNumber
  simp only [hstart]
  rw [parseInteger_append hint (head_fraction hfrac fun c hc => (hbehind c hc).1)]
  simp only [Except.bind]
  rw [parseFraction_append hfrac (fun c hc => (hbehind c hc).1) fun c hc => (hbehind c hc).2]
  simp only
  rw [parseExponent_append hexp (fun c hc => (hrest c hc).1) fun c hc => (hrest c hc).2.2]
  rfl

theorem parseNumber_cases (p : JsonParser) :
    parseNumber p = .error .malformed ∨
      ∃ text rest, p.rest = text ++ rest ∧ IsNumber text ∧ parseNumber p = .ok { p with rest } := by
  have hminus : ∃ minus, (minus = [] ∨ minus = [45]) ∧
      p.rest = minus ++ (if p.rest.head? = some 45 then p.rest.tail else p.rest) := by
    split
    · rename_i hhead
      refine ⟨[45], .inr rfl, ?_⟩
      exact (List.cons_head?_tail hhead).symm
    · exact ⟨[], .inl rfl, rfl⟩
  obtain ⟨minus, hminus, hsplit⟩ := hminus
  unfold parseNumber
  dsimp only
  generalize (if p.rest.head? = some 45 then p.rest.tail else p.rest) = start at hsplit ⊢
  rcases parseInteger_cases start with hbad | ⟨int, rest₁, rfl, hint, hread⟩
  · refine .inl ?_
    rw [hbad]
    rfl
  rw [hread]
  rcases parseFraction_cases rest₁ with hbad | ⟨frac, rest₂, rfl, hfrac, hread₂⟩
  · refine .inl ?_
    simp only [Except.bind, hbad]
  simp only [Except.bind, hread₂]
  rcases parseExponent_cases rest₂ with hbad | ⟨exp, rest₃, rfl, hexp, hread₃⟩
  · refine .inl ?_
    rw [hbad]
    rfl
  rw [hread₃]
  refine .inr ⟨minus ++ (int ++ (frac ++ exp)), rest₃, ?_,
    ⟨minus, int, frac, exp, hminus, hint, hfrac, hexp, rfl⟩, rfl⟩
  rw [hsplit]
  simp

end AmmarServer.Json
