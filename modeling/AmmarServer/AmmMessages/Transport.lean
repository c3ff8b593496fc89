import AmmarServer.AmmMessages.Generator

/-! What becomes of a message between the two functions that are generated for it. -/

namespace AmmarServer.AmmMessages
open Bytes CString TextFile InputParser

/-! The text that is printed. -/

/-- The path of the query. -/
def Message.page (m : Message) : List UInt8 := 47 :: (m.functionName ++ ascii ".html")

def Entry.text (e : Entry) : List UInt8 := e.name ++ 61 :: (e.value.print ++ [38])

/-- What follows the fields of a message. -/
def Message.trailer (m : Message) (rand : ℕ) : List UInt8 :=
  ascii "serialNumber" ++ 61 :: (decimal m.serialNumber.toNat ++ 38 :: (ascii "t" ++ 61 ::
    (stamp rand).print))

def Message.query (m : Message) (rand : ℕ) : List UInt8 :=
  m.entries.flatMap Entry.text ++ m.trailer rand

theorem printf_cons {c : UInt8} (hc : c ≠ 37) (format : List UInt8) (arguments : List Value) :
    printf (c :: format) arguments = c :: printf format arguments := by
  rw [printf.eq_def]
  split
  · rename_i heq
    exact absurd (List.cons.inj heq).1 hc
  · rename_i heq
    exact absurd (List.cons.inj heq).1 hc
  · rename_i heq
    exact absurd (List.cons.inj heq).1 hc
  · rename_i heq _ _ _
    obtain ⟨rfl, rfl⟩ := List.cons.inj heq
    rfl
  · rename_i heq
    cases heq

theorem printf_append {s : List UInt8} (hs : ∀ c ∈ s, c ≠ 37) (format : List UInt8)
    (arguments : List Value) : printf (s ++ format) arguments = s ++ printf format arguments := by
  induction s with
  | nil => rfl
  | cons c s ih =>
    obtain ⟨hc, hs⟩ := List.forall_mem_cons.mp hs
    rw [List.cons_append, printf_cons hc, ih hs, List.cons_append]

theorem printf_printfType (type : VarType) (v : Value) (format : List UInt8)
    (arguments : List Value) :
    printf (type.printfType ++ format) (v :: arguments) = v.print ++ printf format arguments := by
  have hlong : ascii "%lu" = [37, 108, 117] := by decide
  have hword : ascii "%u" = [37, 117] := by decide
  have htext : ascii "%s" = [37, 115] := by decide
  cases type with
  | int64 =>
    rw [VarType.printfType, hlong]
    rfl
  | string =>
    rw [VarType.printfType, htext]
    rfl
  | _ =>
    rw [VarType.printfType, hword]
    rfl

theorem identifierByte_facts {c : UInt8} (h : isIdentifierByte c = true) :
    c ∉ delimeters ∧ c ≠ 37 ∧ c ≠ LF ∧ c ≠ 0 ∧ c ≠ 47 := by
  revert c
  apply forall_byte
  decide +kernel

theorem digitByte_facts {c : UInt8} (h : isDigit c = true) :
    c ∉ delimeters ∧ c ≠ LF ∧ c ≠ 0 ∧ isSpace c = false ∧ c ≠ 43 ∧ c ≠ 45 := by
  revert c
  apply forall_byte
  decide +kernel

theorem printf_fields (es : List Entry) (format : List UInt8) (arguments : List Value) :
    printf ((es.map Entry.field).flatMap
        (fun f => f.variableID ++ 61 :: (f.type.printfType ++ [38])) ++ format)
      (es.map Entry.value ++ arguments) =
        es.flatMap Entry.text ++ printf format arguments := by
  induction es with
  | nil => rfl
  | cons e es ih =>
    have hname : ∀ c ∈ e.name, c ≠ 37 := fun c hc =>
      (identifierByte_facts (e.identifier.bytes c hc)).2.1
    rw [List.map_cons, List.map_cons, List.flatMap_cons, List.flatMap_cons, Entry.text]
    simp only [Entry.field, List.append_assoc, List.cons_append, List.nil_append]
    rw [printf_append hname, printf_cons (by decide), printf_printfType, printf_cons (by decide),
      ih]

theorem packToHTTPGETRequest_eq (m : Message) (rand : ℕ) :
    packToHTTPGETRequest m rand = m.page ++ 63 :: m.query rand := by
  have hname : ∀ c ∈ m.functionName, c ≠ 37 := fun c hc =>
    (identifierByte_facts (m.function.bytes c hc)).2.1
  have hhtml : ascii ".html?" = ascii ".html" ++ [63] := by decide
  have hserial : ascii "serialNumber=%lu&t=%u" =
      ascii "serialNumber" ++ 61 :: (VarType.int64.printfType ++ 38 :: (ascii "t" ++ 61 ::
        (VarType.int32.printfType ++ []))) := by decide
  have hpage : ∀ c ∈ ascii ".html" ++ [63], c ≠ 37 := by decide +kernel
  have hword : ∀ c ∈ ascii "serialNumber", c ≠ 37 := by decide +kernel
  have ht : ∀ c ∈ ascii "t", c ≠ 37 := by decide +kernel
  unfold packToHTTPGETRequest writeGETPrintf
  rw [hhtml, hserial, List.cons_append, List.cons_append, printf_cons (by decide),
    List.append_assoc, List.append_assoc, printf_append hname, printf_append hpage]
  unfold Message.fields Message.values
  rw [printf_fields, printf_append hword, printf_cons (by decide), printf_printfType,
    printf_cons (by decide), printf_append ht, printf_cons (by decide), printf_printfType]
  simp [Message.page, Message.query, Message.trailer, Value.print, printf]

/-- A long that `atoi` does not change. -/
def ReadAsInt (v : UInt64) : Prop := v < 2147483648 ∨ v = 18446744073709551615

theorem signExtend_toNat (n : UInt32) :
    (signExtend n).toNat =
      if n.toNat < 2 ^ 31 then n.toNat else n.toNat + (2 ^ 64 - 2 ^ 32) := by
  have hlow := n.toNat_lt
  unfold signExtend
  by_cases hn : n < 2147483648
  · have hlt : n.toNat < 2 ^ 31 := UInt32.lt_iff_toNat_lt.mp hn
    rw [if_pos hn, if_pos hlt, UInt32.toNat_toUInt64]
  · have hge : ¬ n.toNat < 2 ^ 31 := UInt32.lt_iff_toNat_lt.not.mp hn
    rw [if_neg hn, if_neg hge, UInt64.toNat_sub, UInt32.toNat_toUInt64]
    show (2 ^ 64 - 4294967296 + n.toNat) % 2 ^ 64 = _
    omega

theorem convert_long_iff (v : UInt64) :
    signExtend (atoi (decimal v.toNat)) = v ↔ ReadAsInt v := by
  have hv := v.toNat_lt
  have hlow : (atoi (decimal v.toNat)).toNat = min v.toNat (2 ^ 63 - 1) % 2 ^ 32 := by
    have hfits : min v.toNat (2 ^ 63 - 1) < 2 ^ 64 := by omega
    rw [atoi, strtol_decimal, UInt64.toNat_toUInt32, UInt64.toNat_ofNat',
      Nat.mod_eq_of_lt hfits]
  have hsigned : signExtend (atoi (decimal v.toNat)) = v ↔
      v.toNat < 2147483648 ∨ v.toNat = 18446744073709551615 := by
    rw [← UInt64.toNat_inj, signExtend_toNat, hlow]
    split <;> omega
  rw [hsigned, ReadAsInt, UInt64.lt_iff_toNat_lt, ← UInt64.toNat_inj]
  exact Iff.rfl

/-! The body of a reply. -/

/-- No two line feeds stand next to each other. -/
def NoDoubleNewline (s : List UInt8) : Prop := findDoubleNewline s = none

theorem findDoubleNewline_cons {c : UInt8} (hc : c ≠ LF) (hne : c ≠ 0) (s : List UInt8) :
    findDoubleNewline (c :: s) = findDoubleNewline s := by
  cases s with
  | nil => rfl
  | cons d s =>
    rw [findDoubleNewline, if_neg]
    rintro (⟨hcon, -⟩ | hcon)
    · exact hc hcon
    · exact hne hcon

theorem findDoubleNewline_append {s : List UInt8} (hs : ∀ c ∈ s, c ≠ LF ∧ c ≠ 0)
    (rest : List UInt8) : findDoubleNewline (s ++ rest) = findDoubleNewline rest := by
  induction s with
  | nil => rfl
  | cons c s ih =>
    obtain ⟨⟨hc, hne⟩, hs⟩ := List.forall_mem_cons.mp hs
    rw [List.cons_append, findDoubleNewline_cons hc hne, ih hs]

theorem findDoubleNewline_text {s : List UInt8} (hs : 0 ∉ s) {d : UInt8} (hd : d ≠ LF)
    (rest : List UInt8) :
    findDoubleNewline (s ++ d :: rest) =
      match findDoubleNewline s with
      | some tail => some (tail ++ d :: rest)
      | none => findDoubleNewline (d :: rest) := by
  induction s with
  | nil => rfl
  | cons c s ih =>
    rw [List.mem_cons, not_or] at hs
    cases s with
    | nil =>
      show findDoubleNewline (c :: d :: rest) = findDoubleNewline (d :: rest)
      rw [findDoubleNewline, if_neg]
      rintro (⟨-, hcon⟩ | hcon)
      · exact hd hcon
      · exact hs.1 hcon.symm
    | cons c' s =>
      rw [List.cons_append, List.cons_append, findDoubleNewline, findDoubleNewline]
      split
      · rfl
      · exact ih hs.2

/-! The words of a query. -/

/-- A printed value that is one word of the parser. -/
structure OneWord (s : List UInt8) : Prop where
  nonempty : s ≠ []
  plain : ∀ c ∈ s, c ∉ delimeters

theorem oneWord_decimal (n : ℕ) : OneWord (decimal n) :=
  ⟨decimal_ne_nil n, fun c hc => (digitByte_facts (isDigit_decimal c hc)).1⟩

theorem IsIdentifier.oneWord {s : List UInt8} (h : IsIdentifier s) : OneWord s := by
  refine ⟨fun hcon => ?_, fun c hc => (identifierByte_facts (h.bytes c hc)).1⟩
  obtain ⟨c, hc, -⟩ := h.first
  rw [hcon] at hc
  cases hc

theorem pieces_oneWord {s : List UInt8} (h : OneWord s) : pieces delimeters s = [s] :=
  pieces_word h.nonempty h.plain

theorem pieces_oneWord_cons {s : List UInt8} (h : OneWord s) {d : UInt8} (hd : d ∈ delimeters)
    (rest : List UInt8) :
    pieces delimeters (s ++ d :: rest) = s :: pieces delimeters rest := by
  rw [pieces_append_cons s rest hd, pieces_oneWord h]
  rfl

/-- The words of the fields and of what follows them. -/
def queryWords (es : List Entry) (rest : List (List UInt8)) : List (List UInt8) :=
  es.flatMap (fun e => [e.name, e.value.print]) ++ rest

/-- The words of the trailer. -/
def Message.trailerWords (m : Message) (rand : ℕ) : List (List UInt8) :=
  [ascii "serialNumber", decimal m.serialNumber.toNat, ascii "t", (stamp rand).print]

theorem pieces_trailer (m : Message) (rand : ℕ) :
    pieces delimeters (m.trailer rand) = m.trailerWords rand := by
  have hserial : OneWord (ascii "serialNumber") := by
    constructor <;> decide +kernel
  have ht : OneWord (ascii "t") := by
    constructor <;> decide +kernel
  rw [Message.trailer, pieces_oneWord_cons hserial (by decide),
    pieces_oneWord_cons (oneWord_decimal _) (by decide), pieces_oneWord_cons ht (by decide),
    stamp, Value.print, pieces_oneWord (oneWord_decimal _)]
  rfl

theorem pieces_fields {es : List Entry} (hes : ∀ e ∈ es, OneWord e.value.print)
    (rest : List UInt8) :
    pieces delimeters (es.flatMap Entry.text ++ rest) = queryWords es (pieces delimeters rest) := by
  induction es with
  | nil => rfl
  | cons e es ih =>
    obtain ⟨he, hes⟩ := List.forall_mem_cons.mp hes
    rw [List.flatMap_cons, Entry.text]
    simp only [List.append_assoc, List.cons_append, List.nil_append]
    rw [pieces_oneWord_cons e.identifier.oneWord (by decide), pieces_oneWord_cons he (by decide),
      ih hes]
    rfl

/-! What the loop assigns. -/

section Loop

variable {fields : List Field} {s : Members} {ws : List (List UInt8)} {name : List UInt8}

/-- The words, two at a time. -/
def pairs : List (List UInt8) → List (List UInt8 × List UInt8)
  | word :: word' :: ws => (word, word') :: pairs ws
  | _ => []

theorem unpackWords_pairs (fields : List Field) (s : Members) (ws : List (List UInt8)) :
    unpackWords fields s ws = (pairs ws).foldl (fun s p => assignWords fields s p.1 p.2) s := by
  induction ws using pairs.induct generalizing s with
  | case1 word word' ws ih => exact ih _
  | case2 ws h =>
    rcases ws with _ | ⟨w, _ | ⟨w', ws⟩⟩
    · rfl
    · rfl
    · exact absurd rfl (h w w' ws)

theorem getArgument_eq_some {word w : List UInt8} :
    getArgument word = some w ↔ w = word ∧ word.length < ARGUMENT_SIZE ∧ word ≠ [] := by
  unfold getArgument
  split
  · rename_i hlong
    exact ⟨fun h => (by cases h), fun h => absurd hlong (Nat.not_lt.mpr h.2.1)⟩
  · rename_i hshort
    split
    · rename_i hnil
      exact ⟨fun h => (by cases h), fun h => absurd hnil h.2.2⟩
    · rename_i hne
      exact ⟨fun h => ⟨(Option.some.inj h).symm, Nat.not_lt.mp hshort, hne⟩,
        fun h => congrArg some h.1.symm⟩

theorem assignWords_field {f : Field} {word' : List UInt8}
    (hf : fields.find? (fun f => f.variableID == name) = some f) (hname : name ≠ [])
    (hlength : name.length < ARGUMENT_SIZE) (hlength' : word'.length < ARGUMENT_SIZE)
    (hne : word' ≠ []) :
    assignWords fields s name word' name = some (convert f.type word') := by
  unfold assignWords
  rw [getArgument_eq_some.mpr ⟨rfl, hlength, hname⟩, getArgument_eq_some.mpr ⟨rfl, hlength', hne⟩]
  dsimp only
  rw [assign, hf]
  exact Function.update_self ..

theorem assignWords_apply (fields : List Field) (s : Members) (word word' name : List UInt8) :
    assignWords fields s word word' name = s name ∨
      word = name ∧ name.length < ARGUMENT_SIZE ∧ word'.length < ARGUMENT_SIZE ∧ word' ≠ [] ∧
        ∃ f, fields.find? (fun f => f.variableID == name) = some f ∧
          assignWords fields s word word' name = some (convert f.type word') := by
  cases hid : getArgument word with
  | none =>
    refine .inl ?_
    rw [assignWords, hid]
  | some id =>
    cases hv : getArgument word' with
    | none =>
      refine .inl ?_
      rw [assignWords, hid, hv]
    | some v =>
      obtain ⟨rfl, hlength, hname⟩ := getArgument_eq_some.mp hid
      obtain ⟨rfl, hlength', hne⟩ := getArgument_eq_some.mp hv
      have hassign : assignWords fields s id v = assign fields s id v := by
        rw [assignWords, hid, hv]
      cases hf : fields.find? fun f => f.variableID == id with
      | none =>
        refine .inl ?_
        rw [hassign, assign, hf]
      | some f =>
        by_cases hsame : name = id
        · subst hsame
          exact .inr ⟨rfl, hlength, hlength', hne, f, hf,
            assignWords_field hf hname hlength hlength' hne⟩
        · refine .inl ?_
          rw [hassign, assign, hf]
          exact Function.update_of_ne hsame ..

theorem foldl_assignWords_of_not_named {ps : List (List UInt8 × List UInt8)}
    (h : ∀ p ∈ ps, p.1 ≠ name) :
    ps.foldl (fun s p => assignWords fields s p.1 p.2) s name = s name := by
  induction ps generalizing s with
  | nil => rfl
  | cons p ps ih =>
    obtain ⟨hp, hps⟩ := List.forall_mem_cons.mp h
    rw [List.foldl_cons, ih hps]
    exact (assignWords_apply fields s p.1 p.2 name).resolve_right fun hcon => hp hcon.1

theorem foldl_assignWords_some {ps : List (List UInt8 × List UInt8)} {v : Value}
    (hs : s name = none)
    (h : ps.foldl (fun s p => assignWords fields s p.1 p.2) s name = some v) :
    ∃ p ∈ ps, p.1 = name ∧ name.length < ARGUMENT_SIZE ∧ p.2.length < ARGUMENT_SIZE ∧ p.2 ≠ [] ∧
      ∃ f, fields.find? (fun f => f.variableID == name) = some f ∧ v = convert f.type p.2 := by
  induction ps using List.reverseRecOn with
  | nil =>
    rw [List.foldl_nil, hs] at h
    cases h
  | append_singleton ps p ih =>
    rw [List.foldl_append, List.foldl_cons, List.foldl_nil] at h
    rcases assignWords_apply fields (ps.foldl (fun s p => assignWords fields s p.1 p.2) s) p.1 p.2
      name with hsame | ⟨hname, hlength, hlength', hne, f, hf, hassigned⟩
    · rw [hsame] at h
      obtain ⟨q, hq, hrest⟩ := ih h
      exact ⟨q, List.mem_append_left _ hq, hrest⟩
    · rw [hassigned] at h
      exact ⟨p, List.mem_append_right _ (List.mem_singleton_self p), hname, hlength, hlength', hne,
        f, hf, (Option.some.inj h).symm⟩

end Loop

end AmmarServer.AmmMessages
