import AmmarServer.Tools.JsonLexemes
import Mathlib.Data.List.DropRight

/-! What the reader takes for values, against the grammar: what the grammar derives is read, with
the wanted field set from the members of the object at the top, and what is read is derived. -/

namespace AmmarServer.Json
open JsonText

variable {length depth d calls fuel : ℕ} {field rest rest' ws text : List UInt8} {m : Meaning}
  {w : Wanted} {p q : JsonParser} {members : List (List UInt8 × Option (List UInt8))}

/-! ## The wanted field -/

/-- What a member of an object leaves of the wanted field, `d` brackets deep. -/
def memberEffect (field : List UInt8) (d : ℕ) (w : Wanted)
    (member : List UInt8 × Option (List UInt8)) : Wanted :=
  if d = 1 ∧ !w.found ∧ member.1 = field then
    match member.2 with
    | some decoded =>
      emitDecodedBytes true decoded
        { w with found := true, foundIsString := true, outLength := 0 }
    | none => { w with found := true, foundIsString := false }
  else w

/-- What a value does. -/
def effect (field : List UInt8) (d : ℕ) (m : Meaning) (w : Wanted) : Wanted :=
  match m with
  | .object members => members.foldl (memberEffect field (d + 1)) w
  | _ => w

theorem foldl_memberEffect_deep (hd : d ≠ 1) : members.foldl (memberEffect field d) w = w := by
  induction members with
  | nil => rfl
  | cons member members ih =>
    rw [List.foldl_cons, memberEffect, if_neg (fun h => hd h.1)]
    exact ih

theorem effect_deep (hd : 0 < d) : effect field d m w = w := by
  cases m with
  | other => rfl
  | string decoded => rfl
  | object members => exact foldl_memberEffect_deep (by omega)

theorem foldl_memberEffect_found (hfound : w.found = true) :
    members.foldl (memberEffect field d) w = w := by
  induction members with
  | nil => rfl
  | cons member members ih =>
    rw [List.foldl_cons, memberEffect, if_neg (fun h => by simp [hfound] at h)]
    exact ih

theorem found_memberEffect {member : List UInt8 × Option (List UInt8)}
    (hfound : w.found = false) (hkey : member.1 = field) :
    (memberEffect field 1 w member).found = true := by
  rw [memberEffect, if_pos ⟨rfl, by rw [hfound]; rfl, hkey⟩]
  cases member.2 with
  | none => rfl
  | some decoded => exact congrArg Wanted.found (emitDecodedBytes_true decoded rfl)

theorem foldl_memberEffect (hfound : w.found = false) :
    members.foldl (memberEffect field 1) w =
      match members.find? fun member => decide (member.1 = field) with
      | none => w
      | some member => memberEffect field 1 w member := by
  induction members with
  | nil => rfl
  | cons member members ih =>
    rw [List.foldl_cons]
    by_cases hkey : member.1 = field
    · rw [List.find?_cons_of_pos (by exact decide_eq_true hkey)]
      exact foldl_memberEffect_found (found_memberEffect hfound hkey)
    · rw [List.find?_cons_of_neg (by simpa using hkey), memberEffect,
        if_neg (fun h => hkey h.2.2)]
      exact ih

/-! ## Blanks -/

theorem skipWhitespace_append (hws : Blank ws) :
    skipWhitespace ⟨ws ++ rest, d, w⟩ = skipWhitespace ⟨rest, d, w⟩ := by
  unfold skipWhitespace
  rw [show (JsonParser.mk (ws ++ rest) d w).rest.dropWhile isWhitespace = _ from
    List.dropWhile_append_of_pos hws]

theorem skipWhitespace_cons {c : UInt8} (hc : isBlank c = false) :
    skipWhitespace ⟨c :: rest, d, w⟩ = ⟨c :: rest, d, w⟩ := by
  unfold skipWhitespace
  rw [show (JsonParser.mk (c :: rest) d w).rest.dropWhile isWhitespace = c :: rest from
    List.dropWhile_cons_of_neg (by rw [isWhitespace_eq, hc]; decide)]

theorem skipWhitespace_cases (p : JsonParser) :
    ∃ ws rest, p.rest = ws ++ rest ∧ Blank ws ∧ skipWhitespace p = { p with rest } :=
  ⟨p.rest.takeWhile isWhitespace, _, List.takeWhile_append_dropWhile.symm,
    fun _ hc => List.mem_takeWhile_imp hc, rfl⟩

theorem skipWhitespace_skipWhitespace (p : JsonParser) :
    skipWhitespace (skipWhitespace p) = skipWhitespace p := by
  unfold skipWhitespace
  exact congrArg (JsonParser.mk · p.depth p.wanted) (List.dropWhile_idempotent ..)

theorem parseValue_skipWhitespace (p : JsonParser) :
    parseValue length field calls (skipWhitespace p) = parseValue length field calls p := by
  cases calls with
  | zero => rfl
  | succ calls =>
    unfold parseValue
    rw [skipWhitespace_skipWhitespace]

theorem parseElements_skipWhitespace (p : JsonParser) :
    parseElements (parseValue length field calls) fuel (skipWhitespace p) =
      parseElements (parseValue length field calls) fuel p := by
  cases fuel with
  | zero => rfl
  | succ fuel =>
    unfold parseElements
    rw [parseValue_skipWhitespace]

theorem parseMembers_skipWhitespace (p : JsonParser) :
    parseMembers length (parseValue length field calls) field fuel (skipWhitespace p) =
      parseMembers length (parseValue length field calls) field fuel p := by
  cases fuel with
  | zero => rfl
  | succ fuel =>
    unfold parseMembers
    rw [skipWhitespace_skipWhitespace]

theorem count_dropWhile (text : List UInt8) :
    (text.dropWhile isWhitespace).count 44 = text.count 44 := by
  induction text with
  | nil => rfl
  | cons c text ih =>
    by_cases hc : isWhitespace c = true
    · have hcomma : c ≠ 44 := by
        rintro rfl
        exact absurd hc (by decide)
      rw [List.dropWhile_cons_of_pos hc, ih, List.count_cons_of_ne hcomma]
    · rw [List.dropWhile_cons_of_neg hc]

/-! ## How the parts begin -/

/-- How the values begin: with no blank, and with no closing bracket. -/
def Begins (text : List UInt8) : Prop :=
  ∃ c behind, text = c :: behind ∧ isBlank c = false ∧ c ≠ 93 ∧ c ≠ 125

theorem number_head (h : IsNumber text) :
    ∃ c behind, text = c :: behind ∧ (c = 45 ∨ isDigit c = true) := by
  obtain ⟨minus, int, frac, exp, hminus, hint, -, -, rfl⟩ := h
  rcases hminus with rfl | rfl
  · rcases hint with rfl | ⟨c, ds, rfl, hc, -, -⟩
    · exact ⟨48, _, rfl, .inr rfl⟩
    · exact ⟨c, _, rfl, .inr hc⟩
  · exact ⟨45, _, rfl, .inl rfl⟩

theorem digit_plain : ∀ c : UInt8, (c = 45 ∨ isDigit c = true) →
    isBlank c = false ∧ c ≠ 93 ∧ c ≠ 125 ∧ c ≠ 123 ∧ c ≠ 91 ∧ c ≠ 34 ∧ c ≠ 116 ∧ c ≠ 102 ∧
      c ≠ 110 := by
  have hall : ∀ n : Fin 256, (UInt8.ofFin n = 45 ∨ isDigit (UInt8.ofFin n) = true) →
      isBlank (UInt8.ofFin n) = false ∧ UInt8.ofFin n ≠ 93 ∧ UInt8.ofFin n ≠ 125 ∧
        UInt8.ofFin n ≠ 123 ∧ UInt8.ofFin n ≠ 91 ∧ UInt8.ofFin n ≠ 34 ∧ UInt8.ofFin n ≠ 116 ∧
        UInt8.ofFin n ≠ 102 ∧ UInt8.ofFin n ≠ 110 := by
    decide +kernel
  exact fun c => hall c.toFin

theorem value_begins (h : Derives .value depth text m) : Begins text := by
  cases h with
  | literal hliteral =>
    unfold literals at hliteral
    simp only [List.mem_cons, List.not_mem_nil, or_false] at hliteral
    rcases hliteral with rfl | rfl | rfl
    · exact ⟨_, _, rfl, by decide, by decide, by decide⟩
    · exact ⟨_, _, rfl, by decide, by decide, by decide⟩
    · exact ⟨_, _, rfl, by decide, by decide, by decide⟩
  | number hnumber =>
    obtain ⟨c, behind, rfl, hc⟩ := number_head hnumber
    obtain ⟨hblank, hsquare, hcurly, -⟩ := digit_plain c hc
    exact ⟨c, behind, rfl, hblank, hsquare, hcurly⟩
  | string => exact ⟨_, _, rfl, by decide, by decide, by decide⟩
  | emptyArray => exact ⟨_, _, rfl, by decide, by decide, by decide⟩
  | array => exact ⟨_, _, rfl, by decide, by decide, by decide⟩
  | emptyObject => exact ⟨_, _, rfl, by decide, by decide, by decide⟩
  | object => exact ⟨_, _, rfl, by decide, by decide, by decide⟩

theorem skipWhitespace_begins (hws : Blank ws) (h : Begins text) :
    skipWhitespace ⟨ws ++ (text ++ rest), d, w⟩ = ⟨text ++ rest, d, w⟩ := by
  obtain ⟨c, behind, rfl, hc, -, -⟩ := h
  rw [skipWhitespace_append hws]
  exact skipWhitespace_cons hc

theorem head_begins (hws : Blank ws) (h : Begins text) :
    (skipWhitespace ⟨ws ++ (text ++ rest), d, w⟩).rest.head? ≠ some 93 ∧
      (skipWhitespace ⟨ws ++ (text ++ rest), d, w⟩).rest.head? ≠ some 125 := by
  rw [skipWhitespace_begins hws h]
  obtain ⟨c, behind, rfl, -, hsquare, hcurly⟩ := h
  exact ⟨fun hcon => hsquare (Option.some.inj hcon), fun hcon => hcurly (Option.some.inj hcon)⟩

theorem elements_begin (h : Derives .elements depth text m) :
    ∃ ws text' behind, text = ws ++ (text' ++ behind) ∧ Blank ws ∧ Begins text' := by
  cases h with
  | lastElement hws hvalue _ => exact ⟨_, _, _, rfl, hws, value_begins hvalue⟩
  | element hws hvalue _ _ => exact ⟨_, _, _, rfl, hws, value_begins hvalue⟩

theorem members_begin (h : Derives .members depth text m) :
    ∃ ws text' behind, text = ws ++ (text' ++ behind) ∧ Blank ws ∧ Begins text' := by
  cases h with
  | lastMember hws _ _ _ _ _ =>
    exact ⟨_, [34], _, rfl, hws, 34, [], rfl, by decide, by decide, by decide⟩
  | member hws _ _ _ _ _ _ =>
    exact ⟨_, [34], _, rfl, hws, 34, [], rfl, by decide, by decide, by decide⟩

theorem blank_stops : ∀ c : UInt8, isBlank c = true →
    isDigit c = false ∧ c ≠ 46 ∧ c ≠ 101 ∧ c ≠ 69 := by
  have hall : ∀ n : Fin 256, isBlank (UInt8.ofFin n) = true →
      isDigit (UInt8.ofFin n) = false ∧ UInt8.ofFin n ≠ 46 ∧ UInt8.ofFin n ≠ 101 ∧
        UInt8.ofFin n ≠ 69 := by
    decide +kernel
  exact fun c => hall c.toFin

theorem stops_blank {c : UInt8} (hws : Blank ws) (hc : c = 44 ∨ c = 93 ∨ c = 125) :
    Stops (ws ++ c :: rest) := by
  intro b hb
  cases ws with
  | nil =>
    obtain rfl := Option.some.inj hb
    rcases hc with rfl | rfl | rfl
    · decide
    · decide
    · decide
  | cons b' ws =>
    obtain rfl := Option.some.inj hb
    exact blank_stops _ (hws _ (List.mem_cons_self ..))

theorem stops_blanks (hws : Blank ws) : Stops ws := by
  intro b hb
  exact blank_stops b (hws b (List.mem_of_mem_head? hb))

/-! ## What the grammar derives is read -/

/-- What the reader does with a part of a text, `d` brackets deep. -/
def Reads (length : ℕ) (field : List UInt8) : Part → ℕ → List UInt8 → Meaning → Prop
  | .value, depth, text, m => ∀ calls d rest w, d + depth = 32 → depth < calls → Stops rest →
      (text ++ rest).length ≤ length →
      parseValue length field calls ⟨text ++ rest, d, w⟩ = .ok ⟨rest, d, effect field d m w⟩
  | .elements, depth, text, _ => ∀ calls d rest w fuel, d + depth = 32 → 0 < d → depth < calls →
      text.count 44 < fuel → (text ++ 93 :: rest).length ≤ length →
      parseElements (parseValue length field calls) fuel ⟨text ++ 93 :: rest, d, w⟩ =
        .ok ⟨rest, d - 1, w⟩
  | .members, depth, text, m => ∀ calls d rest w fuel members, m = .object members →
      d + depth = 32 → 0 < d → depth < calls → text.count 44 < fuel →
      (text ++ 125 :: rest).length ≤ length →
      parseMembers length (parseValue length field calls) field fuel ⟨text ++ 125 :: rest, d, w⟩ =
        .ok ⟨rest, d - 1, members.foldl (memberEffect field d) w⟩

theorem parseValue_cons {c : UInt8} (hc : isBlank c = false) (hd : d ≤ 32) :
    parseValue length field (calls + 1) ⟨c :: rest, d, w⟩ =
      if c = 123 then
        parseObject length (parseValue length field calls) field ⟨c :: rest, d, w⟩
      else if c = 91 then parseArray (parseValue length field calls) ⟨c :: rest, d, w⟩
      else if c = 34 then (parseString length false ⟨c :: rest, d, w⟩).map (·.2)
      else if c = 116 then parseLiteral length [116, 114, 117, 101] ⟨c :: rest, d, w⟩
      else if c = 102 then parseLiteral length [102, 97, 108, 115, 101] ⟨c :: rest, d, w⟩
      else if c = 110 then parseLiteral length [110, 117, 108, 108] ⟨c :: rest, d, w⟩
      else parseNumber ⟨c :: rest, d, w⟩ := by
  unfold parseValue
  rw [skipWhitespace_cons hc]
  exact if_neg (not_lt.mpr hd)

theorem reads_literal (htext : text ∈ literals) (hlength : length < 2 ^ 32) :
    Reads length field .value depth text .other := by
  intro calls d rest w hd hcalls _ hle
  obtain ⟨calls, rfl⟩ := Nat.exists_eq_succ_of_ne_zero (Nat.ne_zero_of_lt hcalls)
  have hread := parseLiteral_append text rest hlength hle d w
  unfold literals at htext
  simp only [List.mem_cons, List.not_mem_nil, or_false] at htext
  rcases htext with rfl | rfl | rfl
  · exact (parseValue_cons (by decide) (by omega)).trans hread
  · exact (parseValue_cons (by decide) (by omega)).trans hread
  · exact (parseValue_cons (by decide) (by omega)).trans hread

theorem reads_number (htext : IsNumber text) : Reads length field .value depth text .other := by
  intro calls d rest w hd hcalls hstops hle
  obtain ⟨calls, rfl⟩ := Nat.exists_eq_succ_of_ne_zero (Nat.ne_zero_of_lt hcalls)
  have hread := parseNumber_append htext hstops d w
  obtain ⟨c, behind, rfl, hc⟩ := number_head htext
  obtain ⟨hblank, -, -, hcurly, hsquare, hquote, ht, hf, hn⟩ := digit_plain c hc
  rw [List.cons_append] at hread ⊢
  rw [parseValue_cons hblank (by omega), if_neg hcurly, if_neg hsquare, if_neg hquote, if_neg ht,
    if_neg hf, if_neg hn]
  exact hread

theorem reads_string {raw decoded : List UInt8} (hraw : Chars raw decoded)
    (hlength : length < 2 ^ 32) :
    Reads length field .value depth (34 :: (raw ++ [34])) (.string decoded) := by
  intro calls d rest w hd hcalls _ hle
  obtain ⟨calls, rfl⟩ := Nat.exists_eq_succ_of_ne_zero (Nat.ne_zero_of_lt hcalls)
  rw [List.cons_append, List.append_assoc, List.singleton_append] at hle ⊢
  refine (parseValue_cons (by decide) (by omega)).trans ?_
  show (parseString length false ⟨34 :: (raw ++ 34 :: rest), d, w⟩).map (·.2) = _
  rw [parseString_chars hraw hlength hle]
  exact congrArg (fun w => Except.ok (JsonParser.mk rest d w)) (emitDecodedBytes_false decoded)

theorem reads_emptyArray (hws : Blank ws) :
    Reads length field .value depth (91 :: (ws ++ [93])) .other := by
  intro calls d rest w hd hcalls _ _
  obtain ⟨calls, rfl⟩ := Nat.exists_eq_succ_of_ne_zero (Nat.ne_zero_of_lt hcalls)
  rw [List.cons_append, List.append_assoc, List.singleton_append]
  refine (parseValue_cons (by decide) (by omega)).trans ?_
  have hskip : skipWhitespace ⟨ws ++ 93 :: rest, d + 1, w⟩ = ⟨93 :: rest, d + 1, w⟩ := by
    rw [skipWhitespace_append hws]
    exact skipWhitespace_cons (by decide)
  show parseArray _ ⟨91 :: (ws ++ 93 :: rest), d, w⟩ = _
  unfold parseArray
  simp only [List.tail_cons, hskip]
  rfl

theorem reads_emptyObject (hws : Blank ws) :
    Reads length field .value depth (123 :: (ws ++ [125])) (.object []) := by
  intro calls d rest w hd hcalls _ _
  obtain ⟨calls, rfl⟩ := Nat.exists_eq_succ_of_ne_zero (Nat.ne_zero_of_lt hcalls)
  rw [List.cons_append, List.append_assoc, List.singleton_append]
  refine (parseValue_cons (by decide) (by omega)).trans ?_
  have hskip : skipWhitespace ⟨ws ++ 125 :: rest, d + 1, w⟩ = ⟨125 :: rest, d + 1, w⟩ := by
    rw [skipWhitespace_append hws]
    exact skipWhitespace_cons (by decide)
  show parseObject _ _ _ ⟨123 :: (ws ++ 125 :: rest), d, w⟩ = _
  unfold parseObject
  simp only [List.tail_cons, hskip]
  rfl

theorem count_lt_fuel (text : List UInt8) (c : UInt8) (rest : List UInt8) :
    text.count 44 <
      (skipWhitespace ⟨text ++ c :: rest, d, w⟩).rest.length + 1 := by
  have hcount := count_dropWhile (text ++ c :: rest)
  have hle := List.count_le_length (a := 44) (l := (text ++ c :: rest).dropWhile isWhitespace)
  rw [hcount, List.count_append] at hle
  exact Nat.lt_succ_of_le ((Nat.le_add_right _ _).trans hle)

theorem reads_array (h : Derives .elements depth text m)
    (ih : Reads length field .elements depth text m) :
    Reads length field .value (depth + 1) (91 :: (text ++ [93])) .other := by
  intro calls d rest w hd hcalls _ hle
  obtain ⟨calls, rfl⟩ := Nat.exists_eq_succ_of_ne_zero (Nat.ne_zero_of_lt hcalls)
  rw [List.cons_append, List.append_assoc, List.singleton_append] at hle ⊢
  refine (parseValue_cons (by decide) (by omega)).trans ?_
  show parseArray _ ⟨91 :: (text ++ 93 :: rest), d, w⟩ = _
  have hhead : (skipWhitespace ⟨text ++ 93 :: rest, d + 1, w⟩).rest.head? ≠ some 93 := by
    obtain ⟨ws, text', behind, rfl, hws, hbegins⟩ := elements_begin h
    rw [List.append_assoc, List.append_assoc]
    exact (head_begins hws hbegins).1
  have hfuel := count_lt_fuel (d := d + 1) (w := w) text 93 rest
  refine (if_neg hhead).trans ?_
  rw [parseElements_skipWhitespace]
  exact ih calls (d + 1) rest w _ (by omega) (Nat.succ_pos d) (by omega) hfuel
    ((Nat.le_succ _).trans hle)

theorem reads_object (h : Derives .members depth text (.object members))
    (ih : Reads length field .members depth text (.object members)) :
    Reads length field .value (depth + 1) (123 :: (text ++ [125])) (.object members) := by
  intro calls d rest w hd hcalls _ hle
  obtain ⟨calls, rfl⟩ := Nat.exists_eq_succ_of_ne_zero (Nat.ne_zero_of_lt hcalls)
  rw [List.cons_append, List.append_assoc, List.singleton_append] at hle ⊢
  refine (parseValue_cons (by decide) (by omega)).trans ?_
  show parseObject _ _ _ ⟨123 :: (text ++ 125 :: rest), d, w⟩ = _
  have hhead : (skipWhitespace ⟨text ++ 125 :: rest, d + 1, w⟩).rest.head? ≠ some 125 := by
    obtain ⟨ws, text', behind, rfl, hws, hbegins⟩ := members_begin h
    rw [List.append_assoc, List.append_assoc]
    exact (head_begins hws hbegins).2
  have hfuel := count_lt_fuel (d := d + 1) (w := w) text 125 rest
  refine (if_neg hhead).trans ?_
  rw [parseMembers_skipWhitespace]
  exact ih calls (d + 1) rest w _ members rfl (by omega) (Nat.succ_pos d) (by omega) hfuel
    ((Nat.le_succ _).trans hle)

theorem parseElements_value {c : UInt8} {ws' behind : List UInt8} (hws : Blank ws)
    (hvalue : Derives .value depth text m) (hws' : Blank ws') (hc : c = 44 ∨ c = 93)
    (ih : Reads length field .value depth text m) (hd : d + depth = 32) (hpos : 0 < d)
    (hcalls : depth < calls) (hle : (ws ++ (text ++ (ws' ++ c :: behind))).length ≤ length) :
    parseElements (parseValue length field calls) (fuel + 1)
        ⟨ws ++ (text ++ (ws' ++ c :: behind)), d, w⟩ =
      if c = 44 then parseElements (parseValue length field calls) fuel ⟨behind, d, w⟩
      else if c = 93 then .ok ⟨behind, d - 1, w⟩ else .error .malformed := by
  rw [List.length_append] at hle
  have hread := ih calls d (ws' ++ c :: behind) w hd hcalls
    (stops_blank hws' (hc.imp_right .inl)) (by omega)
  rw [effect_deep hpos] at hread
  have hblank : isBlank c = false := by
    rcases hc with rfl | rfl
    · decide
    · decide
  have hskip : skipWhitespace ⟨ws' ++ c :: behind, d, w⟩ = ⟨c :: behind, d, w⟩ := by
    rw [skipWhitespace_append hws']
    exact skipWhitespace_cons hblank
  rw [← parseElements_skipWhitespace, skipWhitespace_begins hws (value_begins hvalue),
    parseElements, hread]
  simp only [Except.bind, hskip]
  rw [parseElements_skipWhitespace]

theorem reads_lastElement {ws' : List UInt8} (hws : Blank ws) (hvalue : Derives .value depth text m)
    (hws' : Blank ws') (ih : Reads length field .value depth text m) :
    Reads length field .elements depth (ws ++ (text ++ ws')) .other := by
  intro calls d rest w fuel hd hpos hcalls hfuel hle
  obtain ⟨fuel, rfl⟩ := Nat.exists_eq_succ_of_ne_zero (Nat.ne_zero_of_lt hfuel)
  simp only [List.append_assoc] at hle ⊢
  exact parseElements_value hws hvalue hws' (.inr rfl) ih hd hpos hcalls hle

theorem reads_element {ws' behind : List UInt8} {m' : Meaning} (hws : Blank ws)
    (hvalue : Derives .value depth text m) (hws' : Blank ws')
    (ih : Reads length field .value depth text m)
    (ih' : Reads length field .elements depth behind m') :
    Reads length field .elements depth (ws ++ (text ++ (ws' ++ 44 :: behind))) .other := by
  intro calls d rest w fuel hd hpos hcalls hfuel hle
  obtain ⟨fuel, rfl⟩ := Nat.exists_eq_succ_of_ne_zero (Nat.ne_zero_of_lt hfuel)
  simp only [List.append_assoc, List.cons_append] at hle ⊢
  refine (parseElements_value hws hvalue hws' (.inl rfl) ih hd hpos hcalls hle).trans ?_
  refine (if_pos rfl).trans ?_
  simp only [List.count_append, List.count_cons_self] at hfuel
  simp only [List.length_append, List.length_cons] at hle
  refine ih' calls d rest w fuel hd hpos hcalls (by omega) ?_
  rw [List.length_append, List.length_cons]
  omega

theorem reads_memberValue {key : List UInt8} (hvalue : Derives .value depth text m)
    (ih : Reads length field .value depth text m) (hlength : length < 2 ^ 32)
    (hd : d + depth = 32) (hpos : 0 < d) (hcalls : depth < calls) (hstops : Stops rest)
    (hle : (text ++ rest).length ≤ length) :
    parseMemberValue length (parseValue length field calls) field key ⟨text ++ rest, d, w⟩ =
      .ok ⟨rest, d, memberEffect field d w (key, m.decoded)⟩ := by
  have hread : ∀ w, parseValue length field calls ⟨text ++ rest, d, w⟩ = .ok ⟨rest, d, w⟩ := by
    intro w
    have hread := ih calls d rest w hd hcalls hstops hle
    rwa [effect_deep hpos] at hread
  unfold parseMemberValue memberEffect
  by_cases hwanted : d = 1 ∧ !w.found ∧ key = field
  · rw [if_pos hwanted, if_pos hwanted]
    by_cases hstring : ∃ raw decoded, text = 34 :: (raw ++ [34]) ∧ m = .string decoded ∧
        Chars raw decoded
    · obtain ⟨raw, decoded, rfl, rfl, hraw⟩ := hstring
      rw [List.cons_append, List.append_assoc, List.singleton_append] at hle ⊢
      refine (if_pos rfl).trans ?_
      rw [parseString_chars hraw hlength hle]
      rfl
    · have hother : m.decoded = none ∧ (text ++ rest).head? ≠ some 34 := by
        cases hvalue with
        | literal hliteral =>
          unfold literals at hliteral
          simp only [List.mem_cons, List.not_mem_nil, or_false] at hliteral
          rcases hliteral with rfl | rfl | rfl
          · exact ⟨rfl, fun h => by cases h⟩
          · exact ⟨rfl, fun h => by cases h⟩
          · exact ⟨rfl, fun h => by cases h⟩
        | number hnumber =>
          obtain ⟨c, behind, rfl, hc⟩ := number_head hnumber
          obtain ⟨-, -, -, -, -, hquote, -⟩ := digit_plain c hc
          exact ⟨rfl, fun h => hquote (Option.some.inj h)⟩
        | string hraw => exact absurd ⟨_, _, rfl, rfl, hraw⟩ hstring
        | emptyArray => exact ⟨rfl, fun h => by cases h⟩
        | array => exact ⟨rfl, fun h => by cases h⟩
        | emptyObject => exact ⟨rfl, fun h => by cases h⟩
        | object => exact ⟨rfl, fun h => by cases h⟩
      obtain ⟨hnone, hhead⟩ := hother
      rw [if_neg hhead, hread, hnone]
  · rw [if_neg hwanted, if_neg hwanted]
    exact hread w

theorem parseMembers_member {c : UInt8} {w₁ key decoded w₂ w₃ w₄ behind : List UInt8}
    (hw₁ : Blank w₁) (hkey : Chars key decoded) (hw₂ : Blank w₂) (hw₃ : Blank w₃)
    (hvalue : Derives .value depth text m) (hw₄ : Blank w₄) (hc : c = 44 ∨ c = 125)
    (ih : Reads length field .value depth text m) (hlength : length < 2 ^ 32)
    (hd : d + depth = 32) (hpos : 0 < d) (hcalls : depth < calls)
    (hle : (w₁ ++ 34 :: (key ++ 34 :: (w₂ ++ 58 :: (w₃ ++ (text ++ (w₄ ++ c :: behind)))))).length ≤
      length) :
    parseMembers length (parseValue length field calls) field (fuel + 1)
        ⟨w₁ ++ 34 :: (key ++ 34 :: (w₂ ++ 58 :: (w₃ ++ (text ++ (w₄ ++ c :: behind))))), d, w⟩ =
      if c = 44 then
        parseMembers length (parseValue length field calls) field fuel
          ⟨behind, d, memberEffect field d w (key, m.decoded)⟩
      else if c = 125 then .ok ⟨behind, d - 1, memberEffect field d w (key, m.decoded)⟩
      else .error .malformed := by
  have hblank : isBlank c = false := by
    rcases hc with rfl | rfl
    · decide
    · decide
  have hopen : skipWhitespace
      ⟨w₁ ++ 34 :: (key ++ 34 :: (w₂ ++ 58 :: (w₃ ++ (text ++ (w₄ ++ c :: behind))))), d, w⟩ =
        ⟨34 :: (key ++ 34 :: (w₂ ++ 58 :: (w₃ ++ (text ++ (w₄ ++ c :: behind))))), d, w⟩ := by
    rw [skipWhitespace_append hw₁]
    exact skipWhitespace_cons (by decide)
  have hcolon : skipWhitespace ⟨w₂ ++ 58 :: (w₃ ++ (text ++ (w₄ ++ c :: behind))), d, w⟩ =
      ⟨58 :: (w₃ ++ (text ++ (w₄ ++ c :: behind))), d, w⟩ := by
    rw [skipWhitespace_append hw₂]
    exact skipWhitespace_cons (by decide)
  have hbehind : ∀ w, skipWhitespace ⟨w₄ ++ c :: behind, d, w⟩ = ⟨c :: behind, d, w⟩ := by
    intro w
    rw [skipWhitespace_append hw₄]
    exact skipWhitespace_cons hblank
  rw [List.length_append] at hle
  have hname := @parseString_chars length false
    (w₂ ++ 58 :: (w₃ ++ (text ++ (w₄ ++ c :: behind)))) key decoded w hkey hlength (by omega) d
  rw [emitDecodedBytes_false] at hname
  simp only [List.length_append, List.length_cons] at hle
  have hread := @reads_memberValue length depth d calls field (w₄ ++ c :: behind) text m w key
    hvalue ih hlength hd hpos hcalls (stops_blank hw₄ (hc.imp_right .inr)) (by
      simp only [List.length_append, List.length_cons]
      omega)
  rw [parseMembers, hopen, hname]
  simp only [Except.bind]
  rw [show started false w = w from rfl, hcolon]
  simp only [ne_eq, not_true_eq_false, if_false]
  rw [skipWhitespace_begins hw₃ (value_begins hvalue), hread]
  simp only [hbehind]

theorem reads_lastMember {w₁ key decoded w₂ w₃ w₄ : List UInt8} (hw₁ : Blank w₁)
    (hkey : Chars key decoded) (hw₂ : Blank w₂) (hw₃ : Blank w₃)
    (hvalue : Derives .value depth text m) (hw₄ : Blank w₄)
    (ih : Reads length field .value depth text m) (hlength : length < 2 ^ 32) :
    Reads length field .members depth
      (w₁ ++ 34 :: (key ++ 34 :: (w₂ ++ 58 :: (w₃ ++ (text ++ w₄)))))
      (.object [(key, m.decoded)]) := by
  intro calls d rest w fuel members hmembers hd hpos hcalls hfuel hle
  obtain ⟨fuel, rfl⟩ := Nat.exists_eq_succ_of_ne_zero (Nat.ne_zero_of_lt hfuel)
  obtain rfl := Meaning.object.inj hmembers
  simp only [List.append_assoc, List.cons_append] at hle ⊢
  exact parseMembers_member hw₁ hkey hw₂ hw₃ hvalue hw₄ (.inr rfl) ih hlength hd hpos hcalls hle

theorem reads_member {w₁ key decoded w₂ w₃ w₄ behind : List UInt8} (hw₁ : Blank w₁)
    (hkey : Chars key decoded) (hw₂ : Blank w₂) (hw₃ : Blank w₃)
    (hvalue : Derives .value depth text m) (hw₄ : Blank w₄)
    (ih : Reads length field .value depth text m)
    (ih' : Reads length field .members depth behind (.object members)) (hlength : length < 2 ^ 32) :
    Reads length field .members depth
      (w₁ ++ 34 :: (key ++ 34 :: (w₂ ++ 58 :: (w₃ ++ (text ++ (w₄ ++ 44 :: behind))))))
      (.object ((key, m.decoded) :: members)) := by
  intro calls d rest w fuel members' hmembers hd hpos hcalls hfuel hle
  obtain ⟨fuel, rfl⟩ := Nat.exists_eq_succ_of_ne_zero (Nat.ne_zero_of_lt hfuel)
  obtain rfl := Meaning.object.inj hmembers
  simp only [List.append_assoc, List.cons_append] at hle ⊢
  refine (parseMembers_member hw₁ hkey hw₂ hw₃ hvalue hw₄ (.inl rfl) ih hlength hd hpos hcalls
    hle).trans ?_
  refine (if_pos rfl).trans ?_
  have hsuffix : 44 :: behind <:+
      w₁ ++ 34 :: (key ++ 34 :: (w₂ ++ 58 :: (w₃ ++ (text ++ (w₄ ++ 44 :: behind))))) :=
    ⟨w₁ ++ 34 :: (key ++ 34 :: (w₂ ++ 58 :: (w₃ ++ (text ++ w₄)))), by simp⟩
  have hcount := hsuffix.sublist.count_le 44
  rw [List.count_cons_self] at hcount
  simp only [List.length_append, List.length_cons] at hle
  refine ih' calls d rest _ fuel members rfl hd hpos hcalls (by omega) ?_
  rw [List.length_append, List.length_cons]
  omega

/-- What the grammar derives is read. -/
theorem reads_derives {part : Part} (h : Derives part depth text m) (hlength : length < 2 ^ 32) :
    Reads length field part depth text m := by
  induction h with
  | literal htext => exact reads_literal htext hlength
  | number htext => exact reads_number htext
  | string hraw => exact reads_string hraw hlength
  | emptyArray hws => exact reads_emptyArray hws
  | array h ih => exact reads_array h ih
  | emptyObject hws => exact reads_emptyObject hws
  | object h ih => exact reads_object h ih
  | lastElement hws hvalue hws' ih => exact reads_lastElement hws hvalue hws' ih
  | element hws hvalue hws' _ ih ih' => exact reads_element hws hvalue hws' ih ih'
  | lastMember hw₁ hkey hw₂ hw₃ hvalue hw₄ ih =>
    exact reads_lastMember hw₁ hkey hw₂ hw₃ hvalue hw₄ ih hlength
  | member hw₁ hkey hw₂ hw₃ hvalue hw₄ _ ih ih' =>
    exact reads_member hw₁ hkey hw₂ hw₃ hvalue hw₄ ih ih' hlength

end AmmarServer.Json
