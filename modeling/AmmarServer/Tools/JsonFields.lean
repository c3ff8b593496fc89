import AmmarServer.Tools.JsonDocuments

/-! What is read is derived by the grammar, so that the reader takes the documents of the grammar
and no others, and what it answers for a field. -/

namespace AmmarServer.Json
open JsonText

variable {length depth d calls fuel : ℕ} {field rest ws text doc out : List UInt8} {m : Meaning}
  {w : Wanted} {p q : JsonParser}

/-! ## What is read is derived -/

/-- A value of the text is read, or it is refused. -/
def Sound (length : ℕ) (read : JsonParser → Except Fault JsonParser) : Prop :=
  ∀ p, p.rest.length ≤ length → read p = .error .malformed ∨
    ∃ ws text rest m w, p.rest = ws ++ (text ++ rest) ∧ Blank ws ∧ p.depth ≤ 32 ∧
      Derives .value (32 - p.depth) text m ∧ read p = .ok ⟨rest, p.depth, w⟩

theorem parseElements_sound (h : Sound length (parseValue length field calls)) (fuel : ℕ)
    (hle : p.rest.length ≤ length) :
    parseElements (parseValue length field calls) fuel p = .error .malformed ∨
      ∃ text rest w, p.rest = text ++ 93 :: rest ∧ p.depth ≤ 32 ∧
        Derives .elements (32 - p.depth) text .other ∧
        parseElements (parseValue length field calls) fuel p = .ok ⟨rest, p.depth - 1, w⟩ := by
  induction fuel generalizing p with
  | zero => exact .inl rfl
  | succ fuel ih =>
    unfold parseElements
    rcases h p hle with hbad | ⟨ws, text, behind, m, w, hsplit, hws, hdeep, hvalue, hread⟩
    · refine .inl ?_
      rw [hbad]
      rfl
    obtain ⟨ws', rest, hsplit', hws', hskip⟩ := skipWhitespace_cases ⟨behind, p.depth, w⟩
    rw [show (JsonParser.mk behind p.depth w).rest = behind from rfl] at hsplit'
    rw [hread]
    simp only [Except.bind, hskip]
    cases rest with
    | nil => exact .inl rfl
    | cons c rest =>
      rw [hsplit'] at hsplit
      dsimp only
      by_cases hcomma : c = 44
      · rw [if_pos hcomma, parseElements_skipWhitespace]
        have hle' : (JsonParser.mk rest p.depth w).rest.length ≤ length := by
          rw [hsplit] at hle
          simp only [List.length_append, List.length_cons] at hle
          show rest.length ≤ length
          omega
        rcases ih hle' with hbad | ⟨text', rest', w', hsplit'', -, hvalue', hread'⟩
        · exact .inl hbad
        · rw [show (JsonParser.mk rest p.depth w).rest = rest from rfl] at hsplit''
          refine .inr ⟨_, rest', w', ?_, hdeep, .element hws hvalue hws' hvalue', hread'⟩
          rw [hsplit, hcomma, hsplit'']
          simp
      rw [if_neg hcomma]
      by_cases hclose : c = 93
      · rw [if_pos hclose]
        refine .inr ⟨_, rest, w, ?_, hdeep, .lastElement hws hvalue hws', rfl⟩
        rw [hsplit, hclose]
        simp
      · exact .inl (if_neg hclose)

theorem parseMemberValue_sound (h : Sound length (parseValue length field calls))
    (hlength : length + 6 < 2 ^ 32) (key : List UInt8) :
    Sound length (fun p =>
      parseMemberValue length (parseValue length field calls) field key (skipWhitespace p)) := by
  intro p hle
  obtain ⟨ws, behind, hsplit, hws, hskip⟩ := skipWhitespace_cases p
  have hbehind : behind.length ≤ length := by
    rw [hsplit, List.length_append] at hle
    omega
  have hplain : ∀ w, parseValue length field calls ⟨behind, p.depth, w⟩ = .error .malformed ∨
      ∃ ws text rest m w', p.rest = ws ++ (text ++ rest) ∧ Blank ws ∧ p.depth ≤ 32 ∧
        Derives .value (32 - p.depth) text m ∧
        parseValue length field calls ⟨behind, p.depth, w⟩ = .ok ⟨rest, p.depth, w'⟩ := by
    intro w
    refine (h ⟨behind, p.depth, w⟩ hbehind).imp_right ?_
    rintro ⟨ws', text, rest, m, w', hsplit', hws', hdeep, hvalue, hread⟩
    rw [show (JsonParser.mk behind p.depth w).rest = behind from rfl] at hsplit'
    refine ⟨ws ++ ws', text, rest, m, w', ?_, ?_, hdeep, hvalue, hread⟩
    · rw [hsplit, hsplit', List.append_assoc]
    · exact List.forall_mem_append.mpr ⟨hws, hws'⟩
  dsimp only
  rw [hskip]
  unfold parseMemberValue
  by_cases hwanted : p.depth = 1 ∧ !p.wanted.found ∧ key = field
  · rw [if_pos hwanted]
    by_cases hquote : behind.head? = some 34
    · refine (Or.imp (fun hbad => ?_) ?_ (@parseString_cases length true behind
        { p.wanted with found := true, foundIsString := true } hlength p.depth hbehind))
      · refine (if_pos hquote).trans ?_
        dsimp only
        rw [hbad]
        rfl
      · rintro ⟨raw, decoded, rest, hbehind', hraw, hread⟩
        refine ⟨ws, 34 :: (raw ++ [34]), rest, .string decoded,
          emitDecodedBytes true decoded
            (started true { p.wanted with found := true, foundIsString := true }),
          ?_, hws, ?_, .string hraw, ?_⟩
        · rw [hsplit, hbehind']
          simp
        · omega
        · exact (if_pos hquote).trans (congrArg (Except.map (·.2)) hread)
    · have hread := hplain { p.wanted with found := true, foundIsString := false }
      simp only [if_neg hquote]
      exact hread
  · simp only [if_neg hwanted]
    exact hplain p.wanted

theorem parseMembers_sound (h : Sound length (parseValue length field calls))
    (hlength : length + 6 < 2 ^ 32) (fuel : ℕ) (hle : p.rest.length ≤ length) :
    parseMembers length (parseValue length field calls) field fuel p = .error .malformed ∨
      ∃ text rest members w, p.rest = text ++ 125 :: rest ∧ p.depth ≤ 32 ∧
        Derives .members (32 - p.depth) text (.object members) ∧
        parseMembers length (parseValue length field calls) field fuel p =
          .ok ⟨rest, p.depth - 1, w⟩ := by
  induction fuel generalizing p with
  | zero => exact .inl rfl
  | succ fuel ih =>
    unfold parseMembers
    obtain ⟨w₁, behind, hsplit, hw₁, hskip⟩ := skipWhitespace_cases p
    have hbehind : behind.length ≤ length := by
      rw [hsplit, List.length_append] at hle
      omega
    rw [hskip]
    rcases @parseString_cases length false behind p.wanted hlength p.depth hbehind with
      hbad | ⟨key, decoded, behind₂, hsplit₂, hkey, hread⟩
    · refine .inl ?_
      rw [hbad]
      rfl
    rw [hread]
    simp only [Except.bind]
    generalize emitDecodedBytes false decoded (started false p.wanted) = w at *
    obtain ⟨w₂, behind₃, hsplit₃, hw₂, hskip₂⟩ := skipWhitespace_cases ⟨behind₂, p.depth, w⟩
    rw [show (JsonParser.mk behind₂ p.depth w).rest = behind₂ from rfl] at hsplit₃
    rw [hskip₂]
    cases behind₃ with
    | nil => exact .inl rfl
    | cons c behind₃ =>
      dsimp only
      by_cases hcolon : c = 58
      swap
      · exact .inl (if_pos hcolon)
      rw [if_neg (not_not.mpr hcolon)]
      rw [hsplit₂, hsplit₃, hcolon] at hsplit
      have hlengths := congrArg List.length hsplit
      simp only [List.length_append, List.length_cons] at hlengths
      have hle₃ : (JsonParser.mk behind₃ p.depth w).rest.length ≤ length := by
        show behind₃.length ≤ length
        omega
      rcases parseMemberValue_sound h hlength key ⟨behind₃, p.depth, w⟩ hle₃ with
        hbad | ⟨w₃, text, behind₄, m, w', hsplit₄, hw₃, hdeep, hvalue, hread'⟩
      · refine .inl ?_
        dsimp only at hbad
        rw [hbad]
      rw [show (JsonParser.mk behind₃ p.depth w).rest = behind₃ from rfl] at hsplit₄
      obtain ⟨w₄, behind₅, hsplit₅, hw₄, hskip₃⟩ := skipWhitespace_cases ⟨behind₄, p.depth, w'⟩
      rw [show (JsonParser.mk behind₄ p.depth w').rest = behind₄ from rfl] at hsplit₅
      rw [hsplit₄, hsplit₅] at hsplit
      dsimp only at hread'
      rw [hread']
      dsimp only
      rw [hskip₃]
      cases behind₅ with
      | nil => exact .inl rfl
      | cons c rest =>
        dsimp only
        by_cases hcomma : c = 44
        · rw [if_pos hcomma]
          have hle' : (JsonParser.mk rest p.depth w').rest.length ≤ length := by
            have hlengths := congrArg List.length hsplit
            simp only [List.length_append, List.length_cons] at hlengths
            show rest.length ≤ length
            omega
          rcases ih hle' with hbad | ⟨text', rest', members, w'', hsplit', -, hmembers, hread''⟩
          · exact .inl hbad
          · rw [show (JsonParser.mk rest p.depth w').rest = rest from rfl] at hsplit'
            refine .inr ⟨_, rest', _, w'', ?_, hdeep,
              .member hw₁ hkey hw₂ hw₃ hvalue hw₄ hmembers, hread''⟩
            rw [hsplit, hcomma, hsplit']
            simp
        rw [if_neg hcomma]
        by_cases hclose : c = 125
        · rw [if_pos hclose]
          refine .inr ⟨_, rest, _, w', ?_, hdeep, .lastMember hw₁ hkey hw₂ hw₃ hvalue hw₄, rfl⟩
          rw [hsplit, hclose]
          simp
        · exact .inl (if_neg hclose)

theorem parseArray_sound {behind : List UInt8} (h : Sound length (parseValue length field calls))
    (hle : behind.length ≤ length) (hdeep : d ≤ 32) :
    parseArray (parseValue length field calls) ⟨91 :: behind, d, w⟩ = .error .malformed ∨
      ∃ text rest w', 91 :: behind = text ++ rest ∧ Derives .value (32 - d) text .other ∧
        parseArray (parseValue length field calls) ⟨91 :: behind, d, w⟩ = .ok ⟨rest, d, w'⟩ := by
  obtain ⟨ws, rest, hsplit, hws, hskip⟩ := skipWhitespace_cases ⟨behind, d + 1, w⟩
  rw [show (JsonParser.mk behind (d + 1) w).rest = behind from rfl] at hsplit
  unfold parseArray
  dsimp only [List.tail_cons]
  by_cases hclose : (skipWhitespace ⟨behind, d + 1, w⟩).rest.head? = some 93
  · rw [if_pos hclose]
    rw [hskip] at hclose ⊢
    obtain ⟨rest, rfl⟩ : ∃ rest', rest = 93 :: rest' := ⟨_, (List.cons_head?_tail hclose).symm⟩
    refine .inr ⟨91 :: (ws ++ [93]), rest, w, ?_, .emptyArray hws, rfl⟩
    rw [hsplit]
    simp
  · rw [if_neg hclose, parseElements_skipWhitespace]
    rcases @parseElements_sound length calls field ⟨behind, d + 1, w⟩ h _ hle with
      hbad | ⟨text, rest', w', hsplit', hroom, helements, hread⟩
    · exact .inl hbad
    · rw [show (JsonParser.mk behind (d + 1) w).rest = behind from rfl] at hsplit'
      rw [show (JsonParser.mk behind (d + 1) w).depth = d + 1 from rfl] at hroom helements
      have hvalue := Derives.array helements
      rw [show 32 - (d + 1) + 1 = 32 - d by omega] at hvalue
      refine .inr ⟨91 :: (text ++ [93]), rest', w', ?_, hvalue, hread⟩
      rw [hsplit']
      simp

theorem parseObject_sound {behind : List UInt8} (h : Sound length (parseValue length field calls))
    (hlength : length + 6 < 2 ^ 32) (hle : behind.length ≤ length) (hdeep : d ≤ 32) :
    parseObject length (parseValue length field calls) field ⟨123 :: behind, d, w⟩ =
        .error .malformed ∨
      ∃ text rest m w', 123 :: behind = text ++ rest ∧ Derives .value (32 - d) text m ∧
        parseObject length (parseValue length field calls) field ⟨123 :: behind, d, w⟩ =
          .ok ⟨rest, d, w'⟩ := by
  obtain ⟨ws, rest, hsplit, hws, hskip⟩ := skipWhitespace_cases ⟨behind, d + 1, w⟩
  rw [show (JsonParser.mk behind (d + 1) w).rest = behind from rfl] at hsplit
  unfold parseObject
  dsimp only [List.tail_cons]
  by_cases hclose : (skipWhitespace ⟨behind, d + 1, w⟩).rest.head? = some 125
  · rw [if_pos hclose]
    rw [hskip] at hclose ⊢
    obtain ⟨rest, rfl⟩ : ∃ rest', rest = 125 :: rest' := ⟨_, (List.cons_head?_tail hclose).symm⟩
    refine .inr ⟨123 :: (ws ++ [125]), rest, _, w, ?_, .emptyObject hws, rfl⟩
    rw [hsplit]
    simp
  · rw [if_neg hclose, parseMembers_skipWhitespace]
    rcases @parseMembers_sound length calls field ⟨behind, d + 1, w⟩ h hlength _ hle with
      hbad | ⟨text, rest', members, w', hsplit', hroom, hmembers, hread⟩
    · exact .inl hbad
    · rw [show (JsonParser.mk behind (d + 1) w).rest = behind from rfl] at hsplit'
      rw [show (JsonParser.mk behind (d + 1) w).depth = d + 1 from rfl] at hroom hmembers
      have hvalue := Derives.object hmembers
      rw [show 32 - (d + 1) + 1 = 32 - d by omega] at hvalue
      refine .inr ⟨123 :: (text ++ [125]), rest', _, w', ?_, hvalue, hread⟩
      rw [hsplit']
      simp

theorem sound_skipped {read : Except Fault JsonParser} {behind : List UInt8}
    (hsplit : p.rest = ws ++ behind) (hws : Blank ws) (hdeep : p.depth ≤ 32)
    (h : read = .error .malformed ∨
      ∃ text rest m w, behind = text ++ rest ∧ Derives .value (32 - p.depth) text m ∧
        read = .ok ⟨rest, p.depth, w⟩) :
    read = .error .malformed ∨
      ∃ ws text rest m w, p.rest = ws ++ (text ++ rest) ∧ Blank ws ∧ p.depth ≤ 32 ∧
        Derives .value (32 - p.depth) text m ∧ read = .ok ⟨rest, p.depth, w⟩ := by
  refine h.imp_right ?_
  rintro ⟨text, rest, m, w, rfl, hvalue, hread⟩
  exact ⟨ws, text, rest, m, w, hsplit, hws, hdeep, hvalue, hread⟩

theorem parseValue_sound (field : List UInt8) (hlength : length + 6 < 2 ^ 32) (calls : ℕ) :
    Sound length (parseValue length field calls) := by
  induction calls with
  | zero => exact fun p _ => .inl rfl
  | succ calls ih =>
    intro p hle
    obtain ⟨ws, behind, hsplit, hws, hskip⟩ := skipWhitespace_cases p
    have hbehind : behind.length ≤ length := by
      rw [hsplit, List.length_append] at hle
      omega
    unfold parseValue
    rw [hskip]
    cases behind with
    | nil => exact .inl rfl
    | cons c behind =>
      dsimp only
      by_cases hdeep : p.depth > 32
      · rw [if_pos hdeep]
        exact .inl rfl
      rw [if_neg hdeep]
      rw [not_lt] at hdeep
      have hbehind' : behind.length ≤ length := (Nat.le_succ _).trans hbehind
      have hliteral : ∀ literal ∈ literals,
          parseLiteral length literal ⟨c :: behind, p.depth, p.wanted⟩ = .error .malformed ∨
            ∃ text rest m w, c :: behind = text ++ rest ∧ Derives .value (32 - p.depth) text m ∧
              parseLiteral length literal ⟨c :: behind, p.depth, p.wanted⟩ =
                .ok ⟨rest, p.depth, w⟩ := by
        intro literal hliteral
        have hshort : ∀ literal ∈ literals, literal.length ≤ 5 := by decide
        refine (@parseLiteral_cases length ⟨c :: behind, p.depth, p.wanted⟩ literal
          (hshort literal hliteral) hlength hbehind).imp_right ?_
        rintro ⟨rest, hsplit, hread⟩
        exact ⟨literal, rest, .other, p.wanted, hsplit, .literal hliteral, hread⟩
      apply sound_skipped hsplit hws hdeep
      by_cases hcurly : c = 123
      · rw [if_pos hcurly, hcurly]
        exact parseObject_sound ih hlength hbehind' hdeep
      rw [if_neg hcurly]
      by_cases hsquare : c = 91
      · rw [if_pos hsquare, hsquare]
        refine (parseArray_sound ih hbehind' hdeep).imp_right ?_
        rintro ⟨text, rest, w, hsplit, hvalue, hread⟩
        exact ⟨text, rest, .other, w, hsplit, hvalue, hread⟩
      rw [if_neg hsquare]
      by_cases hquote : c = 34
      · rw [if_pos hquote]
        rcases @parseString_cases length false (c :: behind) p.wanted hlength p.depth hbehind with
          hbad | ⟨raw, decoded, rest, hsplit, hraw, hread⟩
        · refine .inl ?_
          rw [hbad]
          rfl
        · refine .inr ⟨34 :: (raw ++ [34]), rest, .string decoded, _, ?_, .string hraw,
            congrArg (Except.map (·.2)) hread⟩
          rw [hsplit]
          simp
      rw [if_neg hquote]
      by_cases ht : c = 116
      · rw [if_pos ht]
        exact hliteral _ (by decide)
      rw [if_neg ht]
      by_cases hf : c = 102
      · rw [if_pos hf]
        exact hliteral _ (by decide)
      rw [if_neg hf]
      by_cases hn : c = 110
      · rw [if_pos hn]
        exact hliteral _ (by decide)
      rw [if_neg hn]
      refine (parseNumber_cases ⟨c :: behind, p.depth, p.wanted⟩).imp_right ?_
      rintro ⟨text, rest, hsplit, hnumber, hread⟩
      exact ⟨text, rest, .other, p.wanted, hsplit, .number hnumber, hread⟩

/-! ## Documents -/

/-- What a value leaves in a buffer: as much of it as leaves room for a NUL. -/
def terminated (value out : List UInt8) : List UInt8 :=
  overwritten (value.take (out.length - 1) ++ [0]) out

/-- The answer for a field of a document. -/
def answerFor (field : List UInt8) (m : Meaning) (out : List UInt8) : FieldResult :=
  match m with
  | .object members =>
    match members.find? fun member => decide (member.1 = field) with
    | some (_, some value) => .fieldOk (terminated value out) value.length
    | _ => .fieldNotAString
  | _ => .fieldNotAString

theorem overwritten_set {bytes : List UInt8} (hne : bytes ≠ []) (out : List UInt8) :
    overwritten bytes (out.set 0 0) = overwritten bytes out := by
  unfold overwritten
  rw [List.length_set, List.drop_set, if_pos (List.length_pos_of_ne_nil hne)]

theorem set_last (bytes : List UInt8) (c : UInt8) :
    (bytes ++ [c]).set bytes.length 0 = bytes ++ [0] := by
  rw [List.set_append_right _ _ le_rfl, Nat.sub_self]
  rfl

theorem terminated_eq (value : List UInt8) (hout : out ≠ []) :
    (overwritten value (out.set 0 0)).set
        (if value.length < out.length then value.length else out.length - 1) 0 =
      terminated value out := by
  unfold terminated
  split
  · rename_i hlt
    rw [List.take_of_length_le (show value.length ≤ out.length - 1 by omega),
      ← overwritten_set (List.append_ne_nil_of_right_ne_nil _ (by decide)),
      overwritten_append_singleton, List.length_set, if_pos hlt]
  · rename_i hge
    rw [not_lt] at hge
    obtain ⟨k, hk⟩ := Nat.exists_eq_succ_of_ne_zero (List.length_pos_of_ne_nil hout).ne'
    have hk' : k < value.length := by omega
    have hshort : (value.take k).length = k := by
      rw [List.length_take]
      omega
    have hlast := set_last (value.take k) value[k]
    rw [hshort] at hlast
    have hdrop : (out.set 0 0).drop value.length = [] :=
      List.drop_of_length_le (by rw [List.length_set]; exact hge)
    have hfull : (value.take k ++ [0]).length = k + 1 := by
      rw [List.length_append, hshort, List.length_singleton]
    have hdrop' : out.drop (value.take k ++ [0]).length = [] :=
      List.drop_of_length_le (by rw [hfull]; exact hk.le)
    have htake : (value.take k ++ [0]).take (k + 1) = value.take k ++ [0] :=
      List.take_of_length_le hfull.le
    unfold overwritten
    rw [hdrop, List.append_nil, List.length_set, hk, Nat.succ_sub_one, hdrop', List.append_nil,
      List.take_succ_eq_append_getElem hk', hlast, Nat.succ_eq_add_one, htake]

theorem document_ne_nil (h : Document depth doc m) : doc ≠ [] := by
  obtain ⟨ws, text, ws', rfl, -, hvalue, -⟩ := h
  obtain ⟨c, behind, rfl, -⟩ := value_begins hvalue
  simp

theorem jsonGetStringField_read (hne : doc ≠ []) (hws : Blank ws)
    (hread : parseValue doc.length field 34 ⟨doc, 0, ⟨out.set 0 0, 0, false, false⟩⟩ =
      .ok ⟨ws, 0, w⟩) :
    jsonGetStringField doc field out =
      .ok (if !w.found || !w.foundIsString then .fieldNotAString
        else .fieldOk
          (w.out.set (if w.outLength < out.length then w.outLength else out.length - 1) 0)
          w.outLength) := by
  have hskip : (skipWhitespace ⟨ws, 0, w⟩).rest = [] := List.dropWhile_eq_nil_iff.mpr hws
  unfold jsonGetStringField
  rw [if_neg hne]
  dsimp only
  rw [hread]
  dsimp only
  rw [hskip, if_neg (fun hcon => hcon rfl)]
  split
  · rfl
  · rfl

/-- A document of the grammar is read for what it means. -/
theorem jsonGetStringField_document (h : Document 32 doc m) (hlength : doc.length < 2 ^ 32)
    (hout : out ≠ []) : jsonGetStringField doc field out = .ok (answerFor field m out) := by
  have hne := document_ne_nil h
  obtain ⟨ws, text, ws', hdoc, hws, hvalue, hws'⟩ := h
  have hread : ∀ w, parseValue doc.length field 34 ⟨doc, 0, w⟩ =
      .ok ⟨ws', 0, effect field 0 m w⟩ := by
    intro w
    have hle : (text ++ ws').length ≤ doc.length := by
      rw [hdoc]
      simp only [List.length_append]
      omega
    have hreads : Reads doc.length field .value 32 text m := reads_derives hvalue hlength
    have hread := hreads 34 0 ws' w rfl (by decide) (stops_blanks hws') hle
    rw [← skipWhitespace_begins hws (value_begins hvalue), parseValue_skipWhitespace, ← hdoc]
      at hread
    exact hread
  cases m with
  | other => exact jsonGetStringField_read hne hws' (hread _)
  | string decoded => exact jsonGetStringField_read hne hws' (hread _)
  | object members =>
    have hread := hread ⟨out.set 0 0, 0, false, false⟩
    unfold effect at hread
    dsimp only at hread
    rw [foldl_memberEffect rfl] at hread
    unfold answerFor
    dsimp only
    cases hfind : members.find? fun member => decide (member.1 = field) with
    | none =>
      rw [hfind] at hread
      exact jsonGetStringField_read hne hws' hread
    | some member =>
      obtain ⟨key, value⟩ := member
      have hkey : key = field := by simpa using List.find?_some hfind
      rw [hfind] at hread
      dsimp only at hread
      rw [memberEffect, if_pos ⟨rfl, rfl, hkey⟩] at hread
      cases value with
      | none => exact jsonGetStringField_read hne hws' hread
      | some value =>
        dsimp only at hread
        rw [emitDecodedBytes_true value rfl] at hread
        rw [jsonGetStringField_read hne hws' hread]
        exact congrArg (fun out => Except.ok (FieldResult.fieldOk out value.length))
          (terminated_eq value hout)

/-- And any other one is refused, where no position wraps. -/
theorem jsonGetStringField_malformed (h : ¬ ∃ m, Document 32 doc m)
    (hlength : doc.length + 6 < 2 ^ 32) : jsonGetStringField doc field out = .ok .malformed := by
  unfold jsonGetStringField
  by_cases hne : doc = []
  · rw [if_pos hne]
  rw [if_neg hne]
  dsimp only
  generalize (⟨out.set 0 0, 0, false, false⟩ : Wanted) = w
  rcases parseValue_sound field hlength 34 ⟨doc, 0, w⟩ le_rfl with
    hbad | ⟨ws, text, rest, m, w', hsplit, hws, -, hvalue, hread⟩
  · rw [hbad]
  · rw [hread]
    refine if_pos ?_
    intro hrest
    have hblank : Blank rest := List.dropWhile_eq_nil_iff.mp hrest
    exact h ⟨m, ws, text, rest, hsplit, hws, hvalue, hblank⟩

/-- The reader takes the documents of the grammar, and answers what they say. -/
def ReadsExactly (doc field out : List UInt8) : Prop :=
  ∃ answer, jsonGetStringField doc field out = .ok answer ∧
    (answer ≠ .malformed ↔ ∃ m, Document 32 doc m) ∧
    ∀ m, Document 32 doc m → answer = answerFor field m out

theorem answerFor_ne_malformed (field : List UInt8) (m : Meaning) (out : List UInt8) :
    answerFor field m out ≠ .malformed := by
  unfold answerFor
  intro hcon
  split at hcon
  · split at hcon
    · cases hcon
    · cases hcon
  · cases hcon

theorem readsExactly_of_lt (hlength : doc.length + 6 < 2 ^ 32) (hout : out ≠ []) :
    ReadsExactly doc field out := by
  by_cases hdoc : ∃ m, Document 32 doc m
  · obtain ⟨m, hm⟩ := hdoc
    have hread : ∀ {m}, Document 32 doc m →
        jsonGetStringField doc field out = .ok (answerFor field m out) :=
      fun h => jsonGetStringField_document h (by omega) hout
    refine ⟨_, hread hm, ⟨fun _ => ⟨m, hm⟩, fun _ => answerFor_ne_malformed field m out⟩, ?_⟩
    intro m' hm'
    exact Except.ok.inj ((hread hm).symm.trans (hread hm'))
  · refine ⟨_, jsonGetStringField_malformed hdoc hlength,
      ⟨fun hcon => absurd rfl hcon, fun hcon => absurd hcon hdoc⟩, ?_⟩
    exact fun m hm => absurd ⟨m, hm⟩ hdoc

/-- Blanks and a string that ends behind the digits of a high surrogate. -/
def halfPair (n : ℕ) : List UInt8 := List.replicate (n - 7) 32 ++ [34, 92, 117, 100, 56, 48, 48]

theorem length_halfPair {n : ℕ} (hn : 7 ≤ n) : (halfPair n).length = n := by
  unfold halfPair
  rw [List.length_append, List.length_replicate]
  exact Nat.sub_add_cancel hn

/-- The escape ends the document; `at + 6` is small again, and what is behind is looked at. -/
theorem unicodeEscape_wraps (hlength : length < 2 ^ 32) (hwrap : 2 ^ 32 ≤ length + 6) :
    unicodeEscape length [100, 56, 48, 48] = .error .outOfBounds := by
  have hdigits : hexDigits 4 [100, 56, 48, 48] 0 = .ok (0xD800, []) := by rfl
  have hroom : (length - ([] : List UInt8).length + 6) % 2 ^ 32 ≤ length := by
    rw [List.length_nil]
    omega
  have hroom' : ¬ (length - ([100, 56, 48, 48] : List UInt8).length + 4) % 2 ^ 32 > length := by
    show ¬ (length - 4 + 4) % 2 ^ 32 > length
    omega
  unfold unicodeEscape
  rw [if_neg hroom', hdigits]
  exact if_pos hroom

theorem jsonGetStringField_halfPair {n : ℕ} (hn : n < 2 ^ 32) (hwrap : 2 ^ 32 ≤ n + 6)
    (field out : List UInt8) :
    jsonGetStringField (halfPair n) field out = .error .outOfBounds := by
  have hblanks : Blank (List.replicate (n - 7) 32) := by
    intro c hc
    rw [List.eq_of_mem_replicate hc]
    rfl
  have hread : ∀ w, parseValue n field 34 ⟨halfPair n, 0, w⟩ = .error .outOfBounds := by
    intro w
    unfold halfPair
    rw [← parseValue_skipWhitespace, skipWhitespace_append hblanks, parseValue_skipWhitespace]
    refine (parseValue_cons (by decide) (by decide)).trans ?_
    show (parseString n false ⟨[34, 92, 117, 100, 56, 48, 48], 0, w⟩).map (·.2) = _
    rw [parseString_quote]
    show (((parseUnicodeEscape n false ⟨[100, 56, 48, 48], 0, w⟩).bind
      (parseStringLoop n false 6)).map _).map _ = _
    unfold parseUnicodeEscape
    dsimp only
    rw [unicodeEscape_wraps hn hwrap]
    rfl
  have hne : halfPair n ≠ [] := List.append_ne_nil_of_right_ne_nil _ (by decide)
  unfold jsonGetStringField
  rw [if_neg hne, length_halfPair (by omega)]
  dsimp only
  rw [hread]

/-- The member of an inner object does not count. -/
example : jsonGetStringField
    "\x7b\"b\":\x7b\"a\":\"x\"\x7d,\"a\":\"y\\u0041\"\x7d".toUTF8.data.toList [97] [1, 2, 3, 4] =
      .ok (.fieldOk [121, 65, 0, 4] 2) := by
  decide

end AmmarServer.Json
