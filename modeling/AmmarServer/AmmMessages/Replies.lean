import AmmarServer.AmmMessages.Transport

/-! Which messages arrive whole when the query that was printed for them is the body of a reply. -/

namespace AmmarServer.AmmMessages
open Bytes CString TextFile InputParser

/-- Every member has been set to the value that was printed. -/
def Carried (m : Message) (reply : List UInt8) : Prop :=
  ∀ e ∈ m.entries,
    unpackFromHTTPGETRequest m.fields reply (fun _ => none) e.name = some e.value

/-- The lines of a header, in front of the blank one. -/
structure HeaderLines (lines : List UInt8) : Prop where
  ended : ∃ s, lines = s ++ [LF]
  noNul : 0 ∉ lines
  single : NoDoubleNewline lines

/-- An entry that the query carries. -/
structure Entry.Carriable (rand : ℕ) (e : Entry) : Prop where
  name : e.name.length < ARGUMENT_SIZE
  word : ∀ s, e.value = .string s →
    s ≠ [] ∧ s.length < ARGUMENT_SIZE ∧ ∀ c ∈ s, c ∉ delimeters
  long : ∀ v, e.value = .int64 v → ReadAsInt v
  stamp : e.name = ascii "t" → e.value = convert e.value.type (stamp rand).print

variable {m : Message} {rand : ℕ} {lines reply : List UInt8}

/-! The words that the loop goes over. -/

/-- The words behind the first. -/
def argumentWords (reply : List UInt8) : List (List UInt8) :=
  (inputParserSeperateWords argumentParser (strstrDoubleNewline reply)).drop 1

def received (m : Message) (ws : List (List UInt8)) : Members :=
  (pairs ws).foldl (fun s p => assignWords m.fields s p.1 p.2) fun _ => none

theorem carried_iff_received (m : Message) (reply : List UInt8) :
    Carried m reply ↔ ∀ e ∈ m.entries, received m (argumentWords reply) e.name = some e.value := by
  unfold Carried unpackFromHTTPGETRequest
  simp only [unpackWords_pairs]
  exact Iff.rfl

theorem page_oneWord (m : Message) : OneWord m.page := by
  have hhtml : ∀ c ∈ ascii ".html", c ∉ delimeters := by decide +kernel
  refine ⟨List.cons_ne_nil _ _, fun c hc => ?_⟩
  rcases List.mem_cons.mp hc with rfl | hc
  · decide
  · rcases List.mem_append.mp hc with hc | hc
    · exact (identifierByte_facts (m.function.bytes c hc)).1
    · exact hhtml c hc

theorem page_plain (m : Message) : ∀ c ∈ m.page, c ≠ LF ∧ c ≠ 0 := by
  have hhtml : ∀ c ∈ ascii ".html", c ≠ LF ∧ c ≠ 0 := by decide +kernel
  intro c hc
  rcases List.mem_cons.mp hc with rfl | hc
  · decide
  · rcases List.mem_append.mp hc with hc | hc
    · obtain ⟨-, -, hLF, hne, -⟩ := identifierByte_facts (m.function.bytes c hc)
      exact ⟨hLF, hne⟩
    · exact hhtml c hc

theorem seperateWords_pieces {body : List UInt8} (h : body.length ≤ HTTP_MESSAGE_SIZE) :
    inputParserSeperateWords argumentParser body = pieces delimeters body :=
  inputParserSeperateWords_eq h

/-! Where the body is found. -/

theorem findDoubleNewline_body {s : List UInt8} (hnul : 0 ∉ s)
    (hsingle : findDoubleNewline (s ++ [LF]) = none) (body : List UInt8) :
    findDoubleNewline (s ++ LF :: LF :: body) = some body := by
  induction s with
  | nil => rw [List.nil_append, findDoubleNewline, if_pos (.inl ⟨rfl, rfl⟩)]
  | cons c s ih =>
    rw [List.mem_cons, not_or] at hnul
    obtain ⟨d, rest, hrest⟩ : ∃ d rest, s ++ [LF] = d :: rest :=
      List.exists_cons_of_ne_nil (by simp)
    have hnext : ∃ rest', s ++ LF :: LF :: body = d :: rest' := by
      have happend : s ++ LF :: LF :: body = (s ++ [LF]) ++ LF :: body := by simp
      rw [happend, hrest]
      exact ⟨_, rfl⟩
    obtain ⟨rest', hrest'⟩ := hnext
    rw [List.cons_append, hrest, findDoubleNewline] at hsingle
    split at hsingle
    · cases hsingle
    · rename_i hcd
      rw [List.cons_append, hrest', findDoubleNewline, if_neg hcd, ← hrest']
      rw [← hrest] at hsingle
      exact ih hnul.2 hsingle

theorem HeaderLines.body (h : HeaderLines lines) (body : List UInt8) :
    strstrDoubleNewline (lines ++ LF :: body) = body := by
  obtain ⟨s, rfl⟩ := h.ended
  have hnul : 0 ∉ s := fun hcon => h.noNul (List.mem_append_left _ hcon)
  have hfound := findDoubleNewline_body hnul h.single body
  rw [strstrDoubleNewline, List.append_assoc, List.singleton_append, hfound]
  rfl

theorem HeaderLines.findDoubleNewline_crlf (h : HeaderLines lines) (m : Message) (rand : ℕ) :
    findDoubleNewline (lines ++ CR :: LF :: packToHTTPGETRequest m rand) =
      findDoubleNewline (m.query rand) := by
  have hpage : findDoubleNewline (m.page ++ 63 :: m.query rand) =
      findDoubleNewline (m.query rand) := by
    rw [findDoubleNewline_append (page_plain m), findDoubleNewline_cons (by decide) (by decide)]
  rw [findDoubleNewline_text h.noNul (by decide), h.single]
  show findDoubleNewline (CR :: LF :: packToHTTPGETRequest m rand) = _
  rw [findDoubleNewline_cons (by decide) (by decide), packToHTTPGETRequest_eq, ← hpage]
  show findDoubleNewline (LF :: 47 :: _) = findDoubleNewline (47 :: _)
  rw [findDoubleNewline, if_neg]
  decide

theorem print_noNul (e : Entry) : 0 ∉ e.value.print := by
  have hdigits : ∀ n : ℕ, 0 ∉ decimal n := fun n hcon =>
    (digitByte_facts (isDigit_decimal 0 hcon)).2.2.1 rfl
  have hstorable := e.storable
  cases hvalue : e.value with
  | string s =>
    rw [hvalue] at hstorable
    exact hstorable.2
  | _ => exact hdigits _

theorem findDoubleNewline_fields (es : List Entry) {rest : List UInt8}
    (hrest : findDoubleNewline rest = none) :
    (∀ e ∈ es, NoDoubleNewline e.value.print) ∧
        findDoubleNewline (es.flatMap Entry.text ++ rest) = none ∨
      ∃ es₁ e es₂ tail, es = es₁ ++ e :: es₂ ∧ findDoubleNewline e.value.print = some tail ∧
        findDoubleNewline (es.flatMap Entry.text ++ rest) =
          some (tail ++ 38 :: (es₂.flatMap Entry.text ++ rest)) := by
  induction es with
  | nil => exact .inl ⟨fun _ hcon => (by cases hcon), hrest⟩
  | cons e es ih =>
    have hname : ∀ c ∈ e.name, c ≠ LF ∧ c ≠ 0 := fun c hc =>
      ⟨(identifierByte_facts (e.identifier.bytes c hc)).2.2.1,
        (identifierByte_facts (e.identifier.bytes c hc)).2.2.2.1⟩
    have htext : findDoubleNewline ((e :: es).flatMap Entry.text ++ rest) =
        findDoubleNewline (e.value.print ++ 38 :: (es.flatMap Entry.text ++ rest)) := by
      rw [List.flatMap_cons, Entry.text]
      simp only [List.append_assoc, List.cons_append, List.nil_append]
      rw [findDoubleNewline_append hname, findDoubleNewline_cons (by decide) (by decide)]
    have hvalue := findDoubleNewline_text (print_noNul e) (by decide : (38 : UInt8) ≠ LF)
      (es.flatMap Entry.text ++ rest)
    rw [htext, hvalue]
    cases hfind : findDoubleNewline e.value.print with
    | some tail => exact .inr ⟨[], e, es, tail, rfl, hfind, rfl⟩
    | none =>
      dsimp only
      rw [findDoubleNewline_cons (by decide) (by decide)]
      rcases ih with ⟨hall, hnone⟩ | ⟨es₁, e', es₂, tail, rfl, hfind', hsome⟩
      · exact .inl ⟨List.forall_mem_cons.mpr ⟨hfind, hall⟩, hnone⟩
      · exact .inr ⟨e :: es₁, e', es₂, tail, rfl, hfind', hsome⟩

theorem trailer_single (m : Message) (rand : ℕ) : findDoubleNewline (m.trailer rand) = none := by
  have hdigits : ∀ n : ℕ, ∀ c ∈ decimal n, c ≠ LF ∧ c ≠ 0 := fun n c hc =>
    ⟨(digitByte_facts (isDigit_decimal c hc)).2.1, (digitByte_facts (isDigit_decimal c hc)).2.2.1⟩
  have hserial : ∀ c ∈ ascii "serialNumber", c ≠ LF ∧ c ≠ 0 := by decide +kernel
  have ht : ∀ c ∈ ascii "t", c ≠ LF ∧ c ≠ 0 := by decide +kernel
  have hstamp := findDoubleNewline_append (hdigits (UInt32.ofNat (rand % 10000)).toNat) []
  rw [List.append_nil] at hstamp
  rw [Message.trailer, findDoubleNewline_append hserial,
    findDoubleNewline_cons (by decide) (by decide), findDoubleNewline_append (hdigits _),
    findDoubleNewline_cons (by decide) (by decide), findDoubleNewline_append ht,
    findDoubleNewline_cons (by decide) (by decide), AmmMessages.stamp, Value.print, hstamp]
  rfl

/-! What is assigned. -/

theorem mem_pairs {p : List UInt8 × List UInt8} {ws : List (List UInt8)} (h : p ∈ pairs ws) :
    p.1 ∈ ws ∧ p.2 ∈ ws := by
  induction ws using pairs.induct with
  | case1 word word' ws ih =>
    rcases List.mem_cons.mp h with rfl | h
    · exact ⟨List.mem_cons_self .., List.mem_cons_of_mem _ (List.mem_cons_self ..)⟩
    · obtain ⟨h₁, h₂⟩ := ih h
      exact ⟨List.mem_cons_of_mem _ (List.mem_cons_of_mem _ h₁),
        List.mem_cons_of_mem _ (List.mem_cons_of_mem _ h₂)⟩
  | case2 ws hws =>
    rcases ws with _ | ⟨w, _ | ⟨w', ws⟩⟩
    · cases h
    · cases h
    · exact absurd rfl (hws w w' ws)

/-- Words that are even in number keep the pairs behind them together. -/
theorem pairs_append {ws : List (List UInt8)} (h : ws.length % 2 = 0) (rest : List (List UInt8)) :
    pairs (ws ++ rest) = pairs ws ++ pairs rest := by
  induction ws using pairs.induct with
  | case1 word word' ws ih =>
    have heven : ws.length % 2 = 0 := by
      rw [List.length_cons, List.length_cons] at h
      omega
    show (word, word') :: pairs (ws ++ rest) = (word, word') :: (pairs ws ++ pairs rest)
    rw [ih heven]
  | case2 ws hws =>
    rcases ws with _ | ⟨w, _ | ⟨w', ws⟩⟩
    · rfl
    · cases h
    · exact absurd rfl (hws w w' ws)

theorem pairs_queryWords (es : List Entry) (m : Message) (rand : ℕ) :
    pairs (queryWords es (m.trailerWords rand)) =
      es.map (fun e => (e.name, e.value.print)) ++
        [(ascii "serialNumber", decimal m.serialNumber.toNat),
          (ascii "t", (stamp rand).print)] := by
  induction es with
  | nil => rfl
  | cons e es ih => exact congrArg ((e.name, e.value.print) :: ·) ih

theorem find?_field {e : Entry} (h : e ∈ m.entries) :
    m.fields.find? (fun f => f.variableID == e.name) = some e.field := by
  have hall : ∀ es : List Entry, (es.map Entry.name).Nodup → e ∈ es →
      (es.map Entry.field).find? (fun f => f.variableID == e.name) = some e.field := by
    intro es hdistinct he
    induction es with
    | nil => cases he
    | cons e' es ih =>
      obtain ⟨hnew, hdistinct⟩ := List.nodup_cons.mp hdistinct
      rw [List.map_cons]
      rcases List.mem_cons.mp he with rfl | he
      · exact List.find?_cons_of_pos (beq_self_eq_true e.name)
      · have hne : e'.name ≠ e.name := fun hcon => hnew (hcon ▸ List.mem_map_of_mem he)
        have hskip : (e'.field.variableID == e.name) = false := beq_false_of_ne hne
        rw [List.find?_cons, hskip]
        exact ih hdistinct he
  exact hall m.entries m.distinct h

theorem received_some {ws : List (List UInt8)} {e : Entry} (he : e ∈ m.entries)
    (h : received m ws e.name = some e.value) :
    ∃ p ∈ pairs ws, p.1 = e.name ∧ e.name.length < ARGUMENT_SIZE ∧ p.2.length < ARGUMENT_SIZE ∧
      e.value = convert e.value.type p.2 := by
  obtain ⟨p, hp, hname, hlength, hlength', -, f, hf, hvalue⟩ := foldl_assignWords_some rfl h
  rw [find?_field he] at hf
  cases hf
  exact ⟨p, hp, hname, hlength, hlength', hvalue⟩

theorem convert_string_eq {s word : List UInt8} (hword : word.length < ARGUMENT_SIZE)
    (h : Value.string s = convert (Value.string s).type word) : s = word := by
  have htake : word.take (STRING_SIZE - 1) = word :=
    List.take_of_length_le ((Nat.le_of_lt hword).trans (by decide))
  have hvalue := Value.string.inj h
  rw [htake] at hvalue
  exact hvalue

theorem stamp_print_length (rand : ℕ) : (stamp rand).print.length < ARGUMENT_SIZE := by
  have hlength := decimal_length (n := (UInt32.ofNat (rand % 10000)).toNat) (e := 10) (by decide)
    (lt_trans (UInt32.toNat_lt _) (by decide))
  exact hlength.trans_lt (by decide)

theorem print_length {e : Entry}
    (h : ∀ s, e.value = .string s → s.length < ARGUMENT_SIZE) :
    e.value.print.length < ARGUMENT_SIZE := by
  have hword : ∀ n : UInt32, (decimal n.toNat).length < ARGUMENT_SIZE := fun n =>
    (decimal_length (by decide) (lt_trans n.toNat_lt (by decide : 2 ^ 32 < 10 ^ 10))).trans_lt
      (by decide)
  have hlong : ∀ n : UInt64, (decimal n.toNat).length < ARGUMENT_SIZE := fun n =>
    (decimal_length (by decide) (lt_trans n.toNat_lt (by decide : 2 ^ 64 < 10 ^ 20))).trans_lt
      (by decide)
  cases hvalue : e.value with
  | int64 v => exact hlong v
  | int32 v => exact hword v
  | int v => exact hword v
  | bool v => exact hword v
  | string s => exact h s hvalue

theorem oneWord_print {e : Entry}
    (h : ∀ s, e.value = .string s → s ≠ [] ∧ ∀ c ∈ s, c ∉ delimeters) : OneWord e.value.print := by
  cases hvalue : e.value with
  | string s => exact ⟨(h s hvalue).1, (h s hvalue).2⟩
  | _ => exact oneWord_decimal _

theorem received_queryWords {e : Entry} (he : e ∈ m.entries) {front : List (List UInt8)}
    (hfront : front.length % 2 = 0) (hname : e.name.length < ARGUMENT_SIZE)
    (hvalue : OneWord e.value.print) (hlength : e.value.print.length < ARGUMENT_SIZE) :
    received m (front ++ queryWords m.entries (m.trailerWords rand)) e.name =
      some (convert e.value.type
        (if e.name = ascii "t" then (stamp rand).print else e.value.print)) := by
  have hnonempty := e.identifier.oneWord.nonempty
  have hserial : ascii "serialNumber" ≠ e.name := fun hcon =>
    m.serial (hcon ▸ List.mem_map_of_mem he)
  unfold received
  rw [pairs_append hfront, pairs_queryWords]
  by_cases ht : e.name = ascii "t"
  · rw [if_pos ht, ← ht]
    have hlast : ∀ (a : List UInt8 × List UInt8) (b : List UInt8), [a, (e.name, b)] =
        [a] ++ [(e.name, b)] := fun _ _ => rfl
    rw [hlast, ← List.append_assoc, ← List.append_assoc, List.foldl_append]
    exact assignWords_field (find?_field he) hnonempty hname (stamp_print_length rand)
      (oneWord_decimal _).nonempty
  · rw [if_neg ht]
    obtain ⟨es₁, es₂, hentries⟩ := List.append_of_mem he
    have hlater : ∀ p ∈ es₂.map (fun e => (e.name, e.value.print)) ++
        [(ascii "serialNumber", decimal m.serialNumber.toNat), (ascii "t", (stamp rand).print)],
        p.1 ≠ e.name := by
      intro p hp hcon
      rcases List.mem_append.mp hp with hp | hp
      · obtain ⟨e', he', rfl⟩ := List.mem_map.mp hp
        have hdistinct := m.distinct
        rw [hentries, List.map_append, List.map_cons] at hdistinct
        exact (List.nodup_cons.mp hdistinct.of_append_right).1 (hcon ▸ List.mem_map_of_mem he')
      · simp only [List.mem_cons, List.not_mem_nil, or_false] at hp
        rcases hp with rfl | rfl
        · exact hserial hcon
        · exact ht hcon.symm
    have hsplit : m.entries.map (fun e => (e.name, e.value.print)) =
        es₁.map (fun e => (e.name, e.value.print)) ++ (e.name, e.value.print) ::
          es₂.map (fun e => (e.name, e.value.print)) := by
      rw [hentries, List.map_append, List.map_cons]
    rw [hsplit, List.append_assoc, List.cons_append, ← List.append_assoc, List.foldl_append,
      List.foldl_cons, foldl_assignWords_of_not_named hlater]
    exact assignWords_field (find?_field he) hnonempty hname hlength hvalue.nonempty

/-! Which entries arrive. -/

theorem stamp_readAsInt (rand : ℕ) : ReadAsInt (signExtend (atoi (stamp rand).print)) := by
  have hsmall : (UInt32.ofNat (rand % 10000)).toNat < 2 ^ 31 := by
    rw [UInt32.toNat_ofNat']
    omega
  refine .inl ?_
  show signExtend (atoi (decimal (UInt32.ofNat (rand % 10000)).toNat)) < _
  rw [atoi_decimal, UInt64.lt_iff_toNat_lt, signExtend_toNat, if_pos hsmall]
  exact hsmall

/-- A printed value that is read back. -/
theorem Entry.Carriable.convert {e : Entry} (h : e.Carriable rand) :
    convert e.value.type e.value.print = e.value := by
  have hword := h.word
  have hlong := h.long
  cases hvalue : e.value with
  | int64 v => exact congrArg Value.int64 ((convert_long_iff v).mpr (hlong v hvalue))
  | int32 v => exact congrArg Value.int32 (atoi_decimal v)
  | int v => exact congrArg Value.int (atoi_decimal v)
  | bool v => exact congrArg Value.bool (atoi_decimal v)
  | string s =>
    obtain ⟨-, hlength, -⟩ := hword s hvalue
    exact congrArg Value.string
      (List.take_of_length_le ((Nat.le_of_lt hlength).trans (by decide)))

/-- The words of a text that was cut at the delimeters. -/
def Words (ws : List (List UInt8)) : Prop := ∀ w ∈ ws, OneWord w

theorem words_pieces (s : List UInt8) : Words (pieces delimeters s) := fun _ hw =>
  ⟨(piece_no_delimeter hw).1, (piece_no_delimeter hw).2⟩

theorem Words.drop {ws : List (List UInt8)} (h : Words ws) (n : ℕ) : Words (ws.drop n) :=
  fun w hw => h w (List.mem_of_mem_drop hw)

theorem Words.append {ws ws' : List (List UInt8)} (h : Words ws) (h' : Words ws') :
    Words (ws ++ ws') := by
  intro w hw
  rcases List.mem_append.mp hw with hw | hw
  · exact h w hw
  · exact h' w hw

/-- Whatever the words are: a string that arrives is one of them. -/
theorem string_word {ws : List (List UInt8)} (hws : Words ws) {e : Entry} (he : e ∈ m.entries)
    (h : received m ws e.name = some e.value) {s : List UInt8} (hs : e.value = .string s) :
    s ≠ [] ∧ s.length < ARGUMENT_SIZE ∧ ∀ c ∈ s, c ∉ delimeters := by
  obtain ⟨p, hp, -, -, hlength, hvalue⟩ := received_some he h
  rw [hs] at hvalue
  rw [convert_string_eq hlength hvalue]
  have hword := hws p.2 (mem_pairs hp).2
  exact ⟨hword.nonempty, hlength, hword.plain⟩

/-- Behind words that are even in number the query arrives exactly where each of its entries can be
carried. -/
theorem received_iff {front : List (List UInt8)} (hfront : front.length % 2 = 0)
    (hwords : Words front) :
    (∀ e ∈ m.entries, received m (front ++ pieces delimeters (m.query rand)) e.name =
        some e.value) ↔ ∀ e ∈ m.entries, e.Carriable rand := by
  constructor
  · intro h
    have hstring : ∀ e ∈ m.entries, ∀ s, e.value = .string s →
        s ≠ [] ∧ s.length < ARGUMENT_SIZE ∧ ∀ c ∈ s, c ∉ delimeters := fun e he s hs =>
      string_word (hwords.append (words_pieces _)) he (h e he) hs
    have hone : ∀ e ∈ m.entries, OneWord e.value.print := fun e he =>
      oneWord_print fun s hs => ⟨(hstring e he s hs).1, (hstring e he s hs).2.2⟩
    intro e he
    obtain ⟨-, -, -, hname, -, -⟩ := received_some he (h e he)
    have hreceived := h e he
    rw [Message.query, pieces_fields hone, pieces_trailer,
      received_queryWords he hfront hname (hone e he)
        (print_length fun s hs => (hstring e he s hs).2.1)] at hreceived
    have hvalue := Option.some.inj hreceived
    refine ⟨hname, hstring e he, fun v hv => ?_, fun ht => ?_⟩
    · rw [hv] at hvalue
      split at hvalue
      · rw [← Value.int64.inj hvalue]
        exact stamp_readAsInt rand
      · exact (convert_long_iff v).mp (Value.int64.inj hvalue)
    · rw [if_pos ht] at hvalue
      exact hvalue.symm
  · intro h e he
    have hone : ∀ e ∈ m.entries, OneWord e.value.print := fun e he =>
      oneWord_print fun s hs => ⟨((h e he).word s hs).1, ((h e he).word s hs).2.2⟩
    rw [Message.query, pieces_fields hone, pieces_trailer,
      received_queryWords he hfront (h e he).name (hone e he)
        (print_length fun s hs => ((h e he).word s hs).2.1)]
    split
    · rename_i ht
      exact congrArg some ((h e he).stamp ht).symm
    · exact congrArg some (h e he).convert

/-! Replies whose blank line is a line feed. -/

theorem HeaderLines.argumentWords_body (h : HeaderLines lines)
    (hroom : (lines ++ LF :: packToHTTPGETRequest m rand).length ≤ HTTP_MESSAGE_SIZE) :
    argumentWords (lines ++ LF :: packToHTTPGETRequest m rand) =
      pieces delimeters (m.query rand) := by
  have hbody : (packToHTTPGETRequest m rand).length ≤ HTTP_MESSAGE_SIZE := by
    rw [List.length_append, List.length_cons] at hroom
    omega
  rw [argumentWords, h.body, seperateWords_pieces hbody, packToHTTPGETRequest_eq,
    pieces_oneWord_cons (page_oneWord m) (by decide)]
  rfl

theorem HeaderLines.carried_body (h : HeaderLines lines)
    (hroom : (lines ++ LF :: packToHTTPGETRequest m rand).length ≤ HTTP_MESSAGE_SIZE) :
    Carried m (lines ++ LF :: packToHTTPGETRequest m rand) ↔
      ∀ e ∈ m.entries, e.Carriable rand := by
  rw [carried_iff_received, h.argumentWords_body hroom]
  have hnil : Words [] := fun _ hw => absurd hw List.not_mem_nil
  exact @received_iff m rand [] rfl hnil

/-! Replies whose blank line has a carriage return. -/

/-- The words of a header that the parser takes for the start of the query. -/
def headerWords (m : Message) (lines : List UInt8) : List (List UInt8) :=
  pieces delimeters (lines ++ CR :: LF :: m.page)

theorem headerWords_ne_nil (m : Message) (lines : List UInt8) : headerWords m lines ≠ [] := by
  have htext : lines ++ CR :: LF :: m.page =
      (lines ++ [CR, LF]) ++ 47 :: (m.functionName ++ ascii ".html") := by
    rw [List.append_assoc]
    rfl
  rw [headerWords, htext]
  exact pieces_ne_nil _ _ (by decide)

theorem HeaderLines.argumentWords_crlf (h : HeaderLines lines)
    (hroom : (lines ++ CR :: LF :: packToHTTPGETRequest m rand).length ≤ HTTP_MESSAGE_SIZE)
    (hsingle : findDoubleNewline (m.query rand) = none) :
    argumentWords (lines ++ CR :: LF :: packToHTTPGETRequest m rand) =
      (headerWords m lines).drop 1 ++ pieces delimeters (m.query rand) := by
  have hwhole : strstrDoubleNewline (lines ++ CR :: LF :: packToHTTPGETRequest m rand) =
      lines ++ CR :: LF :: packToHTTPGETRequest m rand := by
    rw [strstrDoubleNewline, h.findDoubleNewline_crlf, hsingle]
    rfl
  have htext : lines ++ CR :: LF :: packToHTTPGETRequest m rand =
      (lines ++ CR :: LF :: m.page) ++ 63 :: m.query rand := by
    rw [packToHTTPGETRequest_eq]
    simp
  rw [argumentWords, hwhole, seperateWords_pieces hroom, htext,
    pieces_append_cons _ _ (by decide)]
  obtain ⟨w, ws, hwords⟩ := List.exists_cons_of_ne_nil (headerWords_ne_nil m lines)
  rw [headerWords] at hwords
  rw [headerWords, hwords]
  rfl

theorem findDoubleNewline_suffix {s tail : List UInt8} (hnul : 0 ∉ s)
    (h : findDoubleNewline s = some tail) : LF ∈ s ∧ tail <:+ s := by
  induction s with
  | nil => cases h
  | cons c s ih =>
    rw [List.mem_cons, not_or] at hnul
    cases s with
    | nil => cases h
    | cons d s =>
      rw [findDoubleNewline] at h
      split at h
      · rename_i hfound
        cases h
        obtain ⟨rfl, -⟩ := hfound.resolve_right fun hcon => hnul.1 hcon.symm
        exact ⟨List.mem_cons_self .., (List.suffix_cons d tail).trans (List.suffix_cons LF _)⟩
      · obtain ⟨hmem, hsuffix⟩ := ih hnul.2 h
        exact ⟨List.mem_cons_of_mem _ hmem, hsuffix.trans (List.suffix_cons c _)⟩

theorem findDoubleNewline_length {s tail : List UInt8} (h : findDoubleNewline s = some tail) :
    tail.length ≤ s.length := by
  induction s using findDoubleNewline.induct with
  | case1 a b rest hfound =>
    rw [findDoubleNewline, if_pos hfound] at h
    cases h
    exact Nat.le_add_right _ 2
  | case2 a b rest hmissed ih =>
    rw [findDoubleNewline, if_neg hmissed] at h
    exact Nat.le_succ_of_le (ih h)
  | case3 s hshort =>
    rw [findDoubleNewline.eq_def] at h
    split at h
    · exact absurd rfl (hshort _ _ _)
    · cases h

/-- What is paired out of step is paired with a name. -/
theorem mem_pairs_shifted {es : List Entry} {word : List UInt8} {p : List UInt8 × List UInt8}
    (h : p ∈ pairs (word :: queryWords es (m.trailerWords rand))) :
    p.2 ∈ es.map Entry.name ∨ p.2 = ascii "serialNumber" ∨ p.2 = ascii "t" := by
  induction es generalizing word with
  | nil =>
    rcases List.mem_cons.mp h with rfl | h
    · exact .inr (.inl rfl)
    · rcases List.mem_cons.mp h with rfl | h
      · exact .inr (.inr rfl)
      · cases h
  | cons e es ih =>
    rcases List.mem_cons.mp h with rfl | h
    · exact .inl (List.mem_cons_self ..)
    · exact (ih h).imp_left (List.mem_cons_of_mem _)

theorem mem_pairs_drop {es : List Entry} {p : List UInt8 × List UInt8}
    (h : p ∈ pairs ((queryWords es (m.trailerWords rand)).drop 1)) :
    p.2 ∈ es.map Entry.name ∨ p.2 = ascii "serialNumber" ∨ p.2 = ascii "t" := by
  cases es with
  | nil =>
    rcases List.mem_cons.mp h with rfl | h
    · exact .inr (.inr rfl)
    · cases h
  | cons e es => exact (mem_pairs_shifted h).imp_left (List.mem_cons_of_mem _)

theorem noLF_name {es : List Entry} {w : List UInt8}
    (h : w ∈ es.map Entry.name ∨ w = ascii "serialNumber" ∨ w = ascii "t") : LF ∉ w := by
  rcases h with h | rfl | rfl
  · obtain ⟨e, -, rfl⟩ := List.mem_map.mp h
    exact fun hcon => (identifierByte_facts (e.identifier.bytes LF hcon)).2.2.1 rfl
  · decide
  · decide

theorem noLF_decimal (n : ℕ) : LF ∉ decimal n := fun hcon =>
  (digitByte_facts (isDigit_decimal LF hcon)).2.1 rfl

theorem not_received_of_cut {es₁ es₂ : List Entry} {e : Entry} {tail : List UInt8}
    (hentries : m.entries = es₁ ++ e :: es₂)
    (hfind : findDoubleNewline e.value.print = some tail) :
    ¬ ∀ e ∈ m.entries, received m
      ((pieces delimeters (tail ++ 38 :: (es₂.flatMap Entry.text ++ m.trailer rand))).drop 1)
      e.name = some e.value := by
  intro h
  obtain ⟨hLF, hsuffix⟩ := findDoubleNewline_suffix (print_noNul e) hfind
  have he : e ∈ m.entries := by
    rw [hentries]
    exact List.mem_append_right _ (List.mem_cons_self ..)
  have hwords := (words_pieces (tail ++ 38 :: (es₂.flatMap Entry.text ++ m.trailer rand))).drop 1
  have hstring : ∀ e ∈ m.entries, ∀ s, e.value = .string s →
      s ≠ [] ∧ s.length < ARGUMENT_SIZE ∧ ∀ c ∈ s, c ∉ delimeters := fun e he _ hs =>
    string_word hwords he (h e he) hs
  have hone : ∀ e ∈ m.entries, OneWord e.value.print := fun e he =>
    oneWord_print fun s hs => ⟨(hstring e he s hs).1, (hstring e he s hs).2.2⟩
  obtain ⟨s, hs⟩ : ∃ s, e.value = .string s := by
    cases hvalue : e.value with
    | string s => exact ⟨s, rfl⟩
    | _ =>
      rw [hvalue] at hLF
      exact absurd hLF (noLF_decimal _)
  obtain ⟨p, hp, hname, -, hlength, hvalue⟩ := received_some he (h e he)
  rw [hs] at hvalue hLF
  have hword : LF ∈ p.2 := convert_string_eq hlength hvalue ▸ hLF
  have hrest : ∀ e ∈ es₂, OneWord e.value.print := fun e he => hone e (by
    rw [hentries]
    exact List.mem_append_right _ (List.mem_cons_of_mem _ he))
  rw [pieces_append_cons _ _ (by decide), pieces_fields hrest, pieces_trailer] at hp
  by_cases htail : tail = []
  · rw [htail, pieces_nil, List.nil_append] at hp
    exact noLF_name (mem_pairs_drop hp) hword
  · -- the rest of the value is the first word, and the entries behind it are read in step
    have hplain : ∀ c ∈ tail, c ∉ delimeters := fun c hc =>
      (hone e he).plain c (hsuffix.subset hc)
    rw [pieces_word htail hplain, List.singleton_append, List.drop_one, List.tail_cons,
      pairs_queryWords] at hp
    rcases List.mem_append.mp hp with hp | hp
    · obtain ⟨e', he', rfl⟩ := List.mem_map.mp hp
      have hdistinct := m.distinct
      rw [hentries, List.map_append, List.map_cons] at hdistinct
      exact (List.nodup_cons.mp hdistinct.of_append_right).1 (hname ▸ List.mem_map_of_mem he')
    · simp only [List.mem_cons, List.not_mem_nil, or_false] at hp
      rcases hp with rfl | rfl
      · have hcon : ascii "serialNumber" = e.name := hname
        exact m.serial (hcon ▸ List.mem_map_of_mem he)
      · exact noLF_decimal _ hword

/-- Every entry has its value in one line, or in several with text between them. -/
def SingleNewlines (m : Message) : Prop := ∀ e ∈ m.entries, NoDoubleNewline e.value.print

theorem pairs_shifted (es : List Entry) (word : List UInt8) (m : Message) (rand : ℕ) :
    pairs (word :: queryWords es (m.trailerWords rand)) =
      (word :: es.map fun e => e.value.print).zip (es.map Entry.name ++ [ascii "serialNumber"]) ++
        [(decimal m.serialNumber.toNat, ascii "t")] := by
  induction es generalizing word with
  | nil => rfl
  | cons e es ih =>
    show (word, e.name) :: pairs (e.value.print :: queryWords es (m.trailerWords rand)) = _
    rw [ih e.value.print]
    rfl

theorem decimal_not_name {e : Entry} (n : ℕ) : decimal n ≠ e.name := by
  intro hcon
  obtain ⟨c, hc, hdigit⟩ := e.identifier.first
  rw [← hcon] at hc
  rw [isDigit_decimal c (List.mem_of_mem_head? hc)] at hdigit
  cases hdigit

/-- Out of step the fields would have to be named by their values, and the last of them by none. -/
theorem not_received_of_shifted {front : List (List UInt8)} (hodd : front.length % 2 = 1)
    (hwords : Words front) (hforeign : ∀ e ∈ m.entries, e.name ∉ front) (hne : m.entries ≠ []) :
    ¬ ∀ e ∈ m.entries, received m (front ++ pieces delimeters (m.query rand)) e.name =
      some e.value := by
  intro h
  have hone : ∀ e ∈ m.entries, OneWord e.value.print := fun e he =>
    oneWord_print fun s hs =>
      have hword := string_word (hwords.append (words_pieces _)) he (h e he) hs
      ⟨hword.1, hword.2.2⟩
  obtain ⟨before, word, rfl⟩ : ∃ before word, front = before ++ [word] := by
    rcases List.eq_nil_or_concat front with rfl | ⟨before, word, rfl⟩
    · cases hodd
    · exact ⟨before, word, List.concat_eq_append⟩
  have heven : before.length % 2 = 0 := by
    rw [List.length_append, List.length_singleton] at hodd
    omega
  have hword : ∀ e ∈ m.entries, word ≠ e.name := fun e he hcon =>
    hforeign e he (hcon ▸ List.mem_append_right _ (List.mem_singleton_self word))
  -- what assigns a field stands behind the header
  have hpair : ∀ e ∈ m.entries, ∃ p ∈ (word :: m.entries.map fun e => e.value.print).zip
      (m.entries.map Entry.name ++ [ascii "serialNumber"]),
      p.1 = e.name ∧ p.2.length < ARGUMENT_SIZE ∧ e.value = convert e.value.type p.2 := by
    intro e he
    obtain ⟨p, hp, hname, -, hlength, hvalue⟩ := received_some he (h e he)
    rw [Message.query, pieces_fields hone, pieces_trailer, List.append_assoc,
      List.singleton_append, pairs_append heven, pairs_shifted] at hp
    rcases List.mem_append.mp hp with hp | hp
    · exact absurd (List.mem_append_left _ (hname ▸ (mem_pairs hp).1)) (hforeign e he)
    · rcases List.mem_append.mp hp with hp | hp
      · exact ⟨p, hp, hname, hlength, hvalue⟩
      · rw [List.mem_singleton.mp hp] at hname
        exact absurd hname (decimal_not_name _)
  have hnames : m.entries.map Entry.name ⊆ m.entries.map fun e => e.value.print := by
    intro name hname
    obtain ⟨e, he, rfl⟩ := List.mem_map.mp hname
    obtain ⟨p, hp, hname, -, -⟩ := hpair e he
    rcases List.mem_cons.mp (List.of_mem_zip hp).1 with hcon | hp
    · exact absurd (hcon.symm.trans hname) (hword e he)
    · exact hname ▸ hp
  have hperm : (m.entries.map Entry.name).Perm (m.entries.map fun e => e.value.print) :=
    (List.subperm_of_subset m.distinct hnames).perm_of_length_le (by
      rw [List.length_map, List.length_map])
  have hprints := hperm.nodup_iff.mp m.distinct
  -- the last value is the name of a field, which is given the name of the serial number
  obtain ⟨es, last, hentries⟩ : ∃ es last, m.entries = es ++ [last] := by
    rcases List.eq_nil_or_concat m.entries with hcon | ⟨es, last, hentries⟩
    · exact absurd hcon hne
    · exact ⟨es, last, hentries.trans List.concat_eq_append⟩
  have hlast : last ∈ m.entries := by
    rw [hentries]
    exact List.mem_append_right _ (List.mem_singleton_self last)
  obtain ⟨e, he, hname⟩ := List.mem_map.mp
    (hperm.mem_iff.mpr (List.mem_map_of_mem (f := fun e => e.value.print) hlast))
  obtain ⟨p, hp, hfirst, hlength, hvalue⟩ := hpair e he
  have hserial : p.2 = ascii "serialNumber" := by
    rw [hentries, List.map_append, List.map_singleton, ← List.cons_append] at hp
    rw [List.zip_append (by rw [← hentries, List.length_cons, List.length_map, List.length_map,
      hentries, List.length_append, List.length_singleton])] at hp
    rcases List.mem_append.mp hp with hp | hp
    · have hmem := (List.of_mem_zip hp).1
      rw [hfirst] at hmem
      rcases List.mem_cons.mp hmem with hcon | hcon
      · exact absurd hcon.symm (hword e he)
      · rw [hentries, List.map_append, List.map_singleton] at hprints
        exact absurd hname
          ((List.nodup_append.mp hprints).2.2 e.name hcon _ (List.mem_singleton_self _))
    · exact List.mem_singleton.mp (List.of_mem_zip hp).2
  have hprint : e.value.print ∈ m.entries.map Entry.name :=
    hperm.mem_iff.mpr (List.mem_map_of_mem (f := fun e => e.value.print) he)
  obtain ⟨e', -, hname'⟩ := List.mem_map.mp hprint
  cases htype : e.value with
  | string s =>
    rw [htype] at hvalue hprint
    have hs : s = p.2 := convert_string_eq hlength hvalue
    rw [hserial] at hs
    exact m.serial (hs ▸ hprint)
  | _ =>
    rw [htype] at hname'
    exact decimal_not_name _ hname'.symm

theorem HeaderLines.carried_crlf_iff (h : HeaderLines lines)
    (hroom : (lines ++ CR :: LF :: packToHTTPGETRequest m rand).length ≤ HTTP_MESSAGE_SIZE) :
    Carried m (lines ++ CR :: LF :: packToHTTPGETRequest m rand) ↔
      SingleNewlines m ∧ ∀ e ∈ m.entries, received m
        ((headerWords m lines).drop 1 ++ pieces delimeters (m.query rand)) e.name =
          some e.value := by
  rw [carried_iff_received]
  rcases findDoubleNewline_fields m.entries (trailer_single m rand) with
    ⟨hall, hnone⟩ | ⟨es₁, e, es₂, tail, hentries, hfind, hsome⟩
  · rw [h.argumentWords_crlf hroom hnone]
    exact ⟨fun hreceived => ⟨hall, hreceived⟩, fun hreceived => hreceived.2⟩
  · have hbody : strstrDoubleNewline (lines ++ CR :: LF :: packToHTTPGETRequest m rand) =
        tail ++ 38 :: (es₂.flatMap Entry.text ++ m.trailer rand) := by
      rw [strstrDoubleNewline, h.findDoubleNewline_crlf, Message.query, hsome]
      rfl
    have hshort : (tail ++ 38 :: (es₂.flatMap Entry.text ++ m.trailer rand)).length ≤
        HTTP_MESSAGE_SIZE := by
      have hcut := h.findDoubleNewline_crlf m rand
      rw [Message.query, hsome] at hcut
      exact (findDoubleNewline_length hcut).trans hroom
    refine iff_of_false ?_ fun hcon => ?_
    · rw [argumentWords, hbody, seperateWords_pieces hshort]
      exact not_received_of_cut hentries hfind
    · have hnone := hcon.1 e (by
        rw [hentries]
        exact List.mem_append_right _ (List.mem_cons_self ..))
      rw [hnone] at hfind
      cases hfind

theorem isIdentifier_visits :
    ∀ s ∈ [ascii "visits", ascii "user", ascii "count"], IsIdentifier s := by
  have hall : ∀ s ∈ [ascii "visits", ascii "user", ascii "count"],
      (∀ c ∈ s, isIdentifierByte c = true) ∧ s.head?.map isDigit = some false := by
    decide +kernel
  intro s hs
  obtain ⟨hbytes, hfirst⟩ := hall s hs
  exact ⟨hbytes, Option.map_eq_some_iff.mp hfirst⟩

theorem names_visits : [ascii "user", ascii "count"].Nodup ∧
    ascii "serialNumber" ∉ [ascii "user", ascii "count"] := by decide

theorem storable_visits : ∀ s ∈ [[], ascii "ann"], (Value.string s).Storable := by
  unfold Value.Storable
  decide

/-- A visitor who is counted. -/
def visits (user : List UInt8) (h : (Value.string user).Storable) : Message where
  functionName := ascii "visits"
  entries := [⟨ascii "user", .string user, isIdentifier_visits _ (.tail _ (.head _)), h⟩,
    ⟨ascii "count", .int64 7, isIdentifier_visits _ (.tail _ (.tail _ (.head _))), trivial⟩]
  serialNumber := 1
  function := isIdentifier_visits _ (.head _)
  distinct := names_visits.1
  serial := names_visits.2

/-- The message of a visitor with a name. -/
def namedVisits : Message := visits (ascii "ann") (storable_visits _ (.tail _ (.head _)))

/-- The message of a visitor without one. -/
def nobodyVisits : Message := visits [] (storable_visits _ (.head _))

/-- The head of a reply without `=`. -/
def plainLines : List UInt8 := ascii "HTTP/1.1 200 OK\n"

/-- The head that the library writes for a dynamic page. -/
def pageLines : List UInt8 :=
  ["HTTP/1.1 200 OK\n", "Server: ", "Ammarserver/", "0.42.962.4954\n", "Content-type: ",
    "text/html\n", "Cache-Control: ", "max-age=3600\n", "Accept-Ranges: ", "bytes\n", "Date: ",
    "Sat, 29 May ", "2010 12:31:35 ", "GMT\n", "Connection: ", "close\n", "Content-Length: ",
    "48\r\n"].flatMap ascii

theorem heads_evaluated : ∀ lines ∈ [plainLines, pageLines],
    lines.getLast? = some LF ∧ 0 ∉ lines ∧ findDoubleNewline lines = none := by decide

theorem headerLines_of_mem {lines : List UInt8} (h : lines ∈ [plainLines, pageLines]) :
    HeaderLines lines := by
  obtain ⟨hlast, hnul, hsingle⟩ := heads_evaluated lines h
  exact ⟨List.getLast?_eq_some_iff.mp hlast, hnul, hsingle⟩

theorem headerLines_plain : HeaderLines plainLines := headerLines_of_mem (.head _)

theorem headerLines_page : HeaderLines pageLines := headerLines_of_mem (.tail _ (.head _))

/-- What is short enough, and the words of the two heads: the sign of `max-age` makes a second word
of the longer one. -/
theorem visits_evaluated :
    (∀ e ∈ namedVisits.entries, e.name.length < ARGUMENT_SIZE ∧ e.name ≠ ascii "t" ∧
      findDoubleNewline e.value.print = none) ∧
    (ascii "ann" ≠ [] ∧ (ascii "ann").length < ARGUMENT_SIZE ∧
      ∀ c ∈ ascii "ann", c ∉ delimeters) ∧
    ((plainLines ++ CR :: LF :: packToHTTPGETRequest namedVisits 5).length ≤ HTTP_MESSAGE_SIZE ∧
      (headerWords namedVisits plainLines).length % 2 = 1 ∧
      (plainLines ++ LF :: packToHTTPGETRequest nobodyVisits 5).length ≤ HTTP_MESSAGE_SIZE) ∧
    ((headerWords namedVisits pageLines).length = 2 ∧
      (∀ e ∈ namedVisits.entries, e.name ∉ (headerWords namedVisits pageLines).drop 1) ∧
      (pageLines ++ CR :: LF :: packToHTTPGETRequest namedVisits 5).length ≤
        HTTP_MESSAGE_SIZE) := by
  decide +kernel

theorem carriable_namedVisits : ∀ e ∈ namedVisits.entries, e.Carriable 5 := by
  obtain ⟨hnames, hword, -⟩ := visits_evaluated
  intro e he
  obtain ⟨hshort, hstamp, -⟩ := hnames e he
  refine ⟨hshort, fun s hs => ?_, fun v hv => ?_, fun ht => absurd ht hstamp⟩
  · rcases List.mem_cons.mp he with rfl | he
    · rw [← Value.string.inj hs]
      exact hword
    · rw [List.mem_singleton.mp he] at hs
      cases hs
  · rcases List.mem_cons.mp he with rfl | he
    · cases hv
    · rw [List.mem_singleton.mp he] at hv
      rw [← Value.int64.inj hv]
      exact .inl (by decide)

end AmmarServer.AmmMessages
