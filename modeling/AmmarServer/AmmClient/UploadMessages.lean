import AmmarServer.AmmClient.Uploads

/-! That the texts of an upload make one message that carries the file. -/

namespace AmmarServer.AmmClient
open Bytes CString TextFile HeaderFields Multipart

/-! The header. -/

section Header
variable {ip URI boundary : List UInt8} {draws : Draws} {contentLength : ℕ} {keepAlive : Bool}

/-- The lines that the caller's strings stand on, without the end of the last. -/
def requestLines (ip URI : List UInt8) : List UInt8 :=
  ascii "POST " ++ cstring URI ++ ascii " HTTP/1.1\r\nHost: " ++ cstring ip ++ [CR]

def lengthLine (contentLength : ℕ) : List UInt8 :=
  ascii "Content-Length: " ++ decimal contentLength ++ [CR]

def typeLine (boundary : List UInt8) : List UInt8 :=
  ascii "Content-Type: multipart/form-data; boundary=" ++ boundary ++ [CR]

def connectionLine (keepAlive : Bool) : List UInt8 :=
  if keepAlive then ascii "Connection: keep-alive\r" else ascii "Connection: close\r"

theorem headerText_eq (ip URI boundary : List UInt8) (contentLength : ℕ) (keepAlive : Bool) :
    headerText ip URI contentLength boundary keepAlive =
      requestLines ip URI ++ LF :: (ascii "User-Agent: AmmClient/0.66\r" ++ LF ::
        (ascii "Accept: */*\r" ++ LF :: (lengthLine contentLength ++ LF :: (typeLine boundary ++ LF ::
          (connectionLine keepAlive ++ LF :: ([CR] ++ LF :: [])))))) := by
  have hagent : ascii "\r\nUser-Agent: AmmClient/0.66\r\nAccept: */*\r\nContent-Length: " =
      [CR] ++ LF :: (ascii "User-Agent: AmmClient/0.66\r" ++ LF :: (ascii "Accept: */*\r" ++ LF ::
        ascii "Content-Length: ")) := by decide
  have htype : ascii "\r\nContent-Type: multipart/form-data; boundary=" =
      [CR] ++ LF :: ascii "Content-Type: multipart/form-data; boundary=" := by decide
  have hconnection : ascii "\r\nConnection: " ++
      ((if keepAlive then ascii "keep-alive" else ascii "close") ++ ascii "\r\n\r\n") =
        [CR] ++ LF :: (connectionLine keepAlive ++ LF :: ([CR] ++ LF :: [])) := by
    cases keepAlive <;> decide
  rw [headerText, hagent, htype, requestLines, lengthLine, typeLine]
  simp only [List.append_assoc, List.cons_append, List.nil_append] at hconnection ⊢
  rw [hconnection]

theorem visible_of_isDigit {c : UInt8} (h : isDigit c = true) :
    c ≠ LF ∧ isBlank c = false ∧ isTrailing c = false := by
  have hblank : isBlank c = false := by
    rw [Bool.eq_false_iff]
    intro hblank
    rcases Bool.or_eq_true_iff.mp hblank with hspace | htab
    · rw [eq_of_beq hspace] at h
      cases h
    · rw [eq_of_beq htab] at h
      cases h
  obtain ⟨-, -, -, hLF, hCR, -⟩ := plain_of_isDigit h
  exact ⟨hLF, hblank, by rw [isTrailing, hblank, beq_false_of_ne hCR]; rfl⟩

theorem lengthLine_notMem (contentLength : ℕ) : LF ∉ lengthLine contentLength := by
  intro hmem
  simp only [lengthLine, List.mem_append] at hmem
  rcases hmem with (hmem | hmem) | hmem
  · exact absurd hmem (by decide)
  · exact (visible_of_isDigit (isDigit_decimal _ hmem)).1 rfl
  · exact absurd hmem (by decide)

theorem typeLine_notMem (h : LF ∉ boundary) : LF ∉ typeLine boundary := by
  intro hmem
  simp only [typeLine, List.mem_append] at hmem
  rcases hmem with (hmem | hmem) | hmem
  · exact absurd hmem (by decide)
  · exact h hmem
  · exact absurd hmem (by decide)

theorem connectionLine_notMem (keepAlive : Bool) : LF ∉ connectionLine keepAlive := by
  cases keepAlive <;> decide

theorem lines_headerText (hboundary : LF ∉ boundary) :
    lines (headerText ip URI contentLength boundary keepAlive) =
      (lines (requestLines ip URI) ++ [ascii "User-Agent: AmmClient/0.66\r", ascii "Accept: */*\r",
        lengthLine contentLength, typeLine boundary, connectionLine keepAlive]) ++ [[CR], []] := by
  rw [headerText_eq, lines_append, lines_append_LF (by decide), lines_append_LF (by decide),
    lines_append_LF (lengthLine_notMem _), lines_append_LF (typeLine_notMem hboundary),
    lines_append_LF (connectionLine_notMem _), lines_append_LF (by decide), List.append_assoc]
  rfl

theorem fieldValues_headerText (hboundary : LF ∉ boundary) (name : List UInt8) :
    fieldValues (headerText ip URI contentLength boundary keepAlive) name =
      fieldValues (requestLines ip URI) name ++
        ((fieldValue name (ascii "User-Agent: AmmClient/0.66\r")).toList ++
          ((fieldValue name (ascii "Accept: */*\r")).toList ++
            ((fieldValue name (lengthLine contentLength)).toList ++
              ((fieldValue name (typeLine boundary)).toList ++
                ((fieldValue name (connectionLine keepAlive)).toList ++
                  ((fieldValue name [CR]).toList ++ fieldValues [] name)))))) := by
  rw [headerText_eq, fieldValues_append, fieldValues_line (by decide), fieldValues_line (by decide),
    fieldValues_line (lengthLine_notMem _), fieldValues_line (typeLine_notMem hboundary),
    fieldValues_line (connectionLine_notMem _), fieldValues_line (by decide)]

theorem fieldValue_lengthLine (contentLength : ℕ) :
    fieldValue (ascii "Content-Length") (lengthLine contentLength) = some (decimal contentLength) := by
  have hdigit : ∀ c ∈ decimal contentLength, isBlank c = false ∧ isTrailing c = false :=
    fun c hc => (visible_of_isDigit (isDigit_decimal c hc)).2
  have hline : lengthLine contentLength =
      ascii "Content-Length" ++ COLON :: (32 :: (decimal contentLength ++ [CR])) := by
    have hname : ascii "Content-Length: " = ascii "Content-Length" ++ [COLON, 32] := by decide
    rw [lengthLine, hname, List.append_assoc, List.append_assoc]
    rfl
  rw [hline, fieldValue_self, trim_value]
  · exact fun c hc => (hdigit c (List.mem_of_mem_head? hc)).1
  · exact fun c hc => (hdigit c (List.mem_of_mem_getLast? hc)).2

theorem fieldValue_typeLine (draws : Draws) :
    fieldValue (ascii "Content-Type") (typeLine (boundaryText draws)) =
      some (ascii "multipart/form-data; boundary=" ++ boundaryText draws) := by
  have hline : typeLine (boundaryText draws) = ascii "Content-Type" ++ COLON ::
      (32 :: ((ascii "multipart/form-data; boundary=" ++ boundaryText draws) ++ [CR])) := by
    have hname : ascii "Content-Type: multipart/form-data; boundary=" =
        ascii "Content-Type" ++ COLON :: 32 :: ascii "multipart/form-data; boundary=" := by decide
    rw [typeLine, hname, List.append_assoc, List.append_assoc]
    rfl
  rw [hline, fieldValue_self, trim_value]
  · intro c hc
    obtain rfl : 109 = c := Option.some.inj hc
    decide
  · intro c hc
    have hne : boundaryText draws ≠ [] := by
      intro hnil
      have hlength := boundaryText_length draws
      rw [hnil] at hlength
      cases hlength
    rw [List.getLast?_append_of_ne_nil _ hne] at hc
    rcases mem_boundaryText (List.mem_of_mem_getLast? hc) with rfl | hdigit
    · decide
    · exact (visible_of_isDigit hdigit).2.2

theorem boundaryText_notMem (draws : Draws) : LF ∉ boundaryText draws :=
  notMem_boundaryText (by decide) (by decide)

theorem declared_length (h : fieldValues (requestLines ip URI) (ascii "Content-Length") = []) :
    fieldValues (headerText ip URI contentLength (boundaryText draws) keepAlive)
      (ascii "Content-Length") = [decimal contentLength] := by
  have htype : fieldValue (ascii "Content-Length") (typeLine (boundaryText draws)) = none := by
    apply fieldValue_eq_none
    rw [typeLine, List.append_assoc, List.getElem?_append_left (by decide)]
    decide
  have hconnection : fieldValue (ascii "Content-Length") (connectionLine keepAlive) = none := by
    cases keepAlive <;> exact fieldValue_eq_none (by decide)
  rw [fieldValues_headerText (boundaryText_notMem draws), h, fieldValue_eq_none (by decide),
    fieldValue_eq_none (by decide), fieldValue_lengthLine, htype, hconnection,
    fieldValue_eq_none (by decide)]
  rfl

theorem declared_type (h : fieldValues (requestLines ip URI) (ascii "Content-Type") = []) :
    fieldValues (headerText ip URI contentLength (boundaryText draws) keepAlive)
      (ascii "Content-Type") = [ascii "multipart/form-data; boundary=" ++ boundaryText draws] := by
  have hlength : fieldValue (ascii "Content-Type") (lengthLine contentLength) = none := by
    apply fieldValue_eq_none
    rw [lengthLine, List.append_assoc, List.getElem?_append_left (by decide)]
    decide
  have hconnection : fieldValue (ascii "Content-Type") (connectionLine keepAlive) = none := by
    cases keepAlive <;> exact fieldValue_eq_none (by decide)
  rw [fieldValues_headerText (boundaryText_notMem draws), h, fieldValue_eq_none (by decide),
    fieldValue_eq_none (by decide), hlength, fieldValue_typeLine, hconnection,
    fieldValue_eq_none (by decide)]
  rfl

theorem isHeader_headerText (h : ∀ line ∈ lines (requestLines ip URI), line ≠ [] ∧ line ≠ [CR]) :
    IsHeader (headerText ip URI contentLength (boundaryText draws) keepAlive) := by
  refine ⟨_, ?_, lines_headerText (boundaryText_notMem draws)⟩
  have hmore : ∀ c d : UInt8, ∀ s : List UInt8, c :: d :: s ≠ [] ∧ c :: d :: s ≠ [CR] := by
    intro c d s
    exact ⟨List.cons_ne_nil _ _, fun h => by cases h⟩
  intro line hline
  rcases List.mem_append.mp hline with hline | hline
  · exact h line hline
  · simp only [List.mem_cons, List.not_mem_nil, or_false] at hline
    rcases hline with rfl | rfl | rfl | rfl | rfl
    · decide
    · decide
    · exact hmore 67 111 _
    · exact hmore 67 111 _
    · cases keepAlive <;> decide

end Header

/-! The body. -/

section Body
variable {ip : List UInt8} {upload : Upload} {draws : Draws} {keepAlive : Bool} {boundary : List UInt8}

/-- The bytes behind the header, which it declares. -/
def bodySize (upload : Upload) : ℕ :=
  44 + (bufferBeforeText upload).length + upload.filecontent.length + 46 + bufferAfterText.length + 48

def bodyText (upload : Upload) (boundary : List UInt8) : List UInt8 :=
  transmissionText boundary true false false ++ (bufferBeforeText upload ++ (upload.filecontent ++
    (transmissionText boundary false true false ++ (bufferAfterText ++
      transmissionText boundary false false true))))

theorem bodyText_length (h : boundary.length = 40) : (bodyText upload boundary).length = bodySize upload := by
  have hfirst : (transmissionText boundary true false false).length = 44 := by
    simp [transmissionText, dashes, newLine, h]
  have hafter : (transmissionText boundary false true false).length = 46 := by
    simp [transmissionText, dashes, newLine, h]
  have hlast : (transmissionText boundary false false true).length = 48 := by
    simp [transmissionText, dashes, newLine, h]
  simp only [bodyText, bodySize, List.length_append, hfirst, hafter, hlast]
  omega

/-- What an upload must be like for its part to be read as the file. -/
structure Upload.Plain (upload : Upload) (boundary : List UInt8) : Prop where
  formname : Quotable (cstring upload.formname)
  filename : Quotable (cstring upload.filename)
  contentType : LF ∉ cstring upload.contentType
  filecontent : ¬delimiter boundary <:+: crlf ++ upload.filecontent

def dispositionLine (upload : Upload) : List UInt8 :=
  ascii "Content-Disposition: form-data; name=\"" ++ cstring upload.formname ++
    ascii "\"; filename=\"" ++ cstring upload.filename ++ ascii "\""

theorem dispositionLine_notMem (h : upload.Plain boundary) : LF ∉ dispositionLine upload := by
  intro hmem
  simp only [dispositionLine, List.mem_append] at hmem
  rcases hmem with (((hmem | hmem) | hmem) | hmem) | hmem
  · exact absurd hmem (by decide)
  · exact h.formname.2 hmem
  · exact absurd hmem (by decide)
  · exact h.filename.2 hmem
  · exact absurd hmem (by decide)

theorem bufferBeforeText_eq (upload : Upload) (rest : List UInt8) :
    bufferBeforeText upload ++ rest = dispositionLine upload ++ CR :: (LF :: (ascii "Content-Type: " ++
      cstring upload.contentType) ++ CR :: ([LF] ++ CR :: LF :: rest)) := by
  have htype : ascii "\"\r\nContent-Type: " = ascii "\"" ++ CR :: LF :: ascii "Content-Type: " := by decide
  have hblank : ascii "\r\n\r\n" = [CR, LF, CR, LF] := by decide
  rw [bufferBeforeText, dispositionLine, htype, hblank]
  simp only [List.append_assoc, List.cons_append, List.nil_append]

/-- No line of the part begins as the delimiter does, but for what the content itself has. -/
theorem first_part (h : upload.Plain boundary) (hboundary : CR ∉ boundary) :
    ¬delimiter boundary <:+: crlf ++ (bufferBeforeText upload ++ upload.filecontent) := by
  intro hwithin
  have htype : LF ∉ ascii "Content-Type: " ++ cstring upload.contentType := by
    intro hmem
    rcases List.mem_append.mp hmem with hmem | hmem
    · exact absurd hmem (by decide)
    · exact h.contentType hmem
  rw [bufferBeforeText_eq, ← List.append_assoc] at hwithin
  rcases delimiter_append hwithin hboundary with hline | hwithin
  · exact not_delimiter_line (c := 67) (by decide) (dispositionLine_notMem h) hline
  rw [← List.cons_append] at hwithin
  rcases delimiter_append hwithin hboundary with hline | hwithin
  · exact not_delimiter_line (c := 67) (by decide) htype hline
  rw [← List.cons_append] at hwithin
  rcases delimiter_append hwithin hboundary with hline | hwithin
  · exact absurd hline.length_le (by simp [delimiter])
  · exact h.filecontent hwithin

theorem second_part (hboundary : CR ∉ boundary) :
    ¬delimiter boundary <:+: crlf ++ bufferAfterText := by
  intro hwithin
  have htext : crlf ++ bufferAfterText =
      (crlf ++ 67 :: ascii "ontent-Disposition: form-data; name=\"submit\"") ++
        CR :: ([LF] ++ CR :: [LF, 49]) := by decide
  rw [htext] at hwithin
  rcases delimiter_append hwithin hboundary with hline | hwithin
  · exact not_delimiter_line (by decide) (by decide) hline
  rw [← List.cons_append] at hwithin
  rcases delimiter_append hwithin hboundary with hline | hwithin
  · exact absurd hline.length_le (by simp [delimiter])
  · exact absurd hwithin.length_le (by simp [delimiter])

theorem twoParts_bodyText (h : upload.Plain boundary) (hboundary : CR ∉ boundary) :
    TwoParts boundary (bufferBeforeText upload ++ upload.filecontent) bufferAfterText
      (bodyText upload boundary) := by
  refine ⟨?_, first_part h hboundary, second_part hboundary⟩
  simp [bodyText, transmissionText, delimiter, dashes, newLine, crlf]

theorem isFile_bufferBeforeText (h : upload.Plain boundary) :
    IsFile (cstring upload.formname) (cstring upload.filename) (cstring upload.contentType)
      upload.filecontent (bufferBeforeText upload ++ upload.filecontent) :=
  ⟨rfl, h.formname, h.filename, h.contentType⟩

def uploadHeader (ip : List UInt8) (upload : Upload) (draws : Draws) (keepAlive : Bool) : List UInt8 :=
  headerText ip upload.URI (bodySize upload % 2 ^ 32) (boundaryText draws) keepAlive

/-- What an upload that is sent must be like for the message to be what it declares. -/
structure Upload.Declared (ip : List UInt8) (upload : Upload) (draws : Draws) (keepAlive : Bool)
    (deliveries : Fin 7 → Delivery) : Prop where
  request_lines : ∀ line ∈ lines (requestLines ip upload.URI), line ≠ [] ∧ line ≠ [CR]
  request_length : fieldValues (requestLines ip upload.URI) (ascii "Content-Length") = []
  request_type : fieldValues (requestLines ip upload.URI) (ascii "Content-Type") = []
  plain : upload.Plain (boundaryText draws)
  body_size : bodySize upload < 2 ^ 32
  whole : ∀ i, (deliveries i).Whole (uploadParts (boundaryText draws)
    (uploadHeader ip upload draws keepAlive) (bufferBeforeText upload) upload.filecontent i).length ∧
      (i ≠ 0 → (deliveries i).AtOnce)

/-- The two texts have room in their buffers, and what is sent is declared. -/
structure Upload.Fits (ip : List UInt8) (upload : Upload) (draws : Draws) (keepAlive : Bool)
    (deliveries : Fin 7 → Delivery) : Prop where
  before_size : (bufferBeforeText upload).length < BUFFERSIZE
  header_size : (uploadHeader ip upload draws keepAlive).length < BUFFERSIZE
  declared : (∀ i, (deliveries i).taken.isSome) → upload.Declared ip draws keepAlive deliveries

/-- An upload that says that it succeeded has sent the file, and it stays inside its buffers. -/
def UploadConforms (ip : List UInt8) (upload : Upload) (draws : Draws) (keepAlive : Bool)
    (deliveries : Fin 7 → Delivery) : Prop :=
  ∃ answer wire, sendFileInternal ip upload draws keepAlive deliveries = .ok (answer, wire) ∧
    (answer = true → Carries (cstring upload.formname) (cstring upload.filename)
      (cstring upload.contentType) upload.filecontent wire)

theorem uploadConforms {deliveries : Fin 7 → Delivery} (h : upload.Fits ip draws keepAlive deliveries) :
    UploadConforms ip upload draws keepAlive deliveries := by
  have hboundary := boundaryText_length draws
  have hCR : CR ∉ boundaryText draws := notMem_boundaryText (by decide) (by decide)
  have hzero : 0 ∉ boundaryText draws := notMem_boundaryText (by decide) (by decide)
  have hbefore := h.before_size
  have hheader := h.header_size
  obtain ⟨rest, hprinted⟩ := @snprintf_fits (List.replicate 128 0) (boundaryText draws) 128
    (by rw [hboundary]; decide) (by decide)
  obtain ⟨rest0, hprinted0⟩ := @snprintf_fits zeros _ BUFFERSIZE hheader (by decide)
  obtain ⟨rest1, hprinted1⟩ := @snprintf_fits zeros _ BUFFERSIZE hbefore (by decide)
  obtain ⟨rest2, hprinted2⟩ := @snprintf_fits zeros bufferAfterText BUFFERSIZE (by decide) (by decide)
  have hsize : (bufferBeforeText upload).length + 40 + 4 + upload.filecontent.length + 40 + 6 +
      bufferAfterText.length + 40 + 8 = bodySize upload := by
    rw [bodySize]
    omega
  obtain ⟨answers, wire, hrun, hsome, hwire⟩ := @sendParts_ok deliveries (boundaryText draws) _ _ _
    hboundary (Nat.lt_trans hheader (by decide)) (0 :: rest0) (0 :: rest1) (0 :: rest2)
  refine ⟨answers.all id, wire, ?_, fun hall => ?_⟩
  · unfold sendFileInternal
    rw [hprinted, hprinted1, hprinted2]
    dsimp only
    rw [cstring_append hzero, hboundary, @toUnsigned_natCast 40 (by decide),
      @toUnsigned_natCast (bufferBeforeText upload).length (Nat.lt_trans hbefore (by decide)),
      @toUnsigned_natCast bufferAfterText.length (by decide), hsize]
    change (sendParts _ _ (snprintf zeros BUFFERSIZE (uploadHeader ip upload draws keepAlive)).2
      (snprintf zeros BUFFERSIZE (uploadHeader ip upload draws keepAlive)).1 _ _ _ _ _).map _ = _
    rw [hprinted0, hrun]
    rfl
  · have hdeclared := h.declared (hsome hall)
    have hmod : bodySize upload % 2 ^ 32 = bodySize upload := Nat.mod_eq_of_lt hdeclared.body_size
    rw [hwire hall hdeclared.whole]
    refine ⟨uploadHeader ip upload draws keepAlive, bodyText upload (boundaryText draws),
      boundaryText draws, _, _, ?_, isHeader_headerText hdeclared.request_lines, ?_,
      declared_type hdeclared.request_type, twoParts_bodyText hdeclared.plain hCR,
      isFile_bufferBeforeText hdeclared.plain⟩
    · simp [uploadParts, List.ofFn_succ, bodyText]
    · rw [bodyText_length hboundary, uploadHeader, hmod]
      exact declared_length hdeclared.request_length

end Body

end AmmarServer.AmmClient
