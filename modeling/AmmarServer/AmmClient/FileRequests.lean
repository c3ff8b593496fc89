import AmmarServer.AmmClient.UploadMessages

/-! The requests for files, and what both kinds of requests declare. -/

namespace AmmarServer.AmmClient
open Bytes CString TextFile HeaderFields Multipart

section Requests
variable {ip URI filecontent : List UInt8} {keepAlive : Bool}

/-- The lines that the caller's strings stand on, without the end of the last. -/
def fileLines (ip URI : List UInt8) : List UInt8 :=
  ascii "GET " ++ cstring URI ++ ascii " HTTP/1.1\r\nHost: " ++ cstring ip ++ [CR]

theorem requestText_append (ip URI rest : List UInt8) :
    requestText ip URI ++ rest =
      fileLines ip URI ++ LF :: (ascii "Accept: */*\r" ++ LF :: rest) := by
  have haccept : ascii "\r\nAccept: */*\r\n" = [CR] ++ LF :: (ascii "Accept: */*\r" ++ [LF]) := by decide
  rw [requestText, haccept, fileLines]
  simp only [List.append_assoc, List.cons_append, List.nil_append]

theorem isHeader_keepAlive :
    IsHeader (requestText ip URI ++ ascii "Connection: keep-alive\r\n\r\n") ↔
      ∀ line ∈ lines (fileLines ip URI), line ≠ [] ∧ line ≠ [CR] := by
  have hlines : lines (requestText ip URI ++ ascii "Connection: keep-alive\r\n\r\n") =
      (lines (fileLines ip URI) ++ [ascii "Accept: */*\r", ascii "Connection: keep-alive\r"]) ++
        [[CR], []] := by
    have hending : ascii "Connection: keep-alive\r\n\r\n" =
        ascii "Connection: keep-alive\r" ++ LF :: ([CR] ++ LF :: []) := by decide
    rw [requestText_append, lines_append, lines_append_LF (by decide), hending,
      lines_append_LF (by decide), lines_append_LF (by decide), List.append_assoc]
    rfl
  constructor
  · rintro ⟨fields, hfields, heq⟩ line hline
    rw [hlines, List.append_left_inj] at heq
    exact hfields line (heq ▸ List.mem_append_left _ hline)
  · intro h
    refine ⟨_, ?_, hlines⟩
    intro line hline
    rcases List.mem_append.mp hline with hline | hline
    · exact h line hline
    · simp only [List.mem_cons, List.not_mem_nil, or_false] at hline
      rcases hline with rfl | rfl <;> decide

/-- The other request has a blank line behind its blank line. -/
theorem not_isHeader_close : ¬IsHeader (requestText ip URI ++ ascii "\r\n\r\n") := by
  rintro ⟨fields, hfields, heq⟩
  have hending : ascii "\r\n\r\n" = [CR] ++ LF :: ([CR] ++ LF :: []) := by decide
  have hlines : lines (requestText ip URI ++ ascii "\r\n\r\n") =
      (lines (fileLines ip URI) ++ [ascii "Accept: */*\r", [CR]]) ++ [[CR], []] := by
    rw [requestText_append, lines_append, lines_append_LF (by decide), hending,
      lines_append_LF (by decide), lines_append_LF (by decide), List.append_assoc]
    rfl
  rw [hlines, List.append_left_inj] at heq
  have hblank : [CR] ∈ fields := by
    rw [← heq]
    exact List.mem_append_right _ (by decide)
  exact (hfields _ hblank).2 rfl

theorem zero_notMem_requestText (ip URI : List UInt8) : 0 ∉ requestText ip URI := by
  intro hmem
  simp only [requestText, List.mem_append] at hmem
  rcases hmem with (((hmem | hmem) | hmem) | hmem) | hmem
  · exact absurd hmem (by decide)
  · exact zero_notMem_cstring URI hmem
  · exact absurd hmem (by decide)
  · exact zero_notMem_cstring ip hmem
  · exact absurd hmem (by decide)

theorem strncat_eq {text rest ending : List UInt8} {n : ℕ} (htext : 0 ∉ text) (hending : 0 ∉ ending)
    (hn : ending.length ≤ n) :
    (strncat (text ++ 0 :: rest) ending n).map (fun buffer => some (cstring buffer)) =
      if (text ++ ending).length < (text ++ 0 :: rest).length then .ok (some (text ++ ending))
      else .error .outOfBounds := by
  rw [strncat, cstring_append htext, List.take_of_length_le hn]
  split
  · have hzero : 0 ∉ text ++ ending := by
      intro hmem
      exact (List.mem_append.mp hmem).elim htext hending
    rw [Except.map, cstring_append hzero]
  · rfl

theorem snprintf_room {buffer text : List UInt8} (h : text.length < buffer.length)
    (hint : text.length < 2 ^ 31) :
    ∃ rest, snprintf buffer buffer.length text = ((text.length : ℤ), text ++ 0 :: rest) ∧
      (text ++ 0 :: rest).length = buffer.length := by
  have htake : text.take (buffer.length - 1) = text := List.take_of_length_le (by omega)
  refine ⟨buffer.drop (text.length + 1), ?_, ?_⟩
  · rw [snprintf, printedSize_eq hint, if_neg (by omega)]
    dsimp only
    rw [htake]
  · rw [List.length_append, List.length_cons, List.length_drop]
    omega

theorem recvFileRequest_eq (hlength : (requestText ip URI).length < 2 ^ 31)
    (hroom : (requestText ip URI).length + 4 ≤ filecontent.length)
    (hint : filecontent.length < (requestText ip URI).length + 2 ^ 31) :
    recvFileRequest ip URI filecontent keepAlive =
      if keepAlive ∧ (requestText ip URI).length + 27 < filecontent.length then
        .ok (some (requestText ip URI ++ ascii "Connection: keep-alive\r\n\r\n"))
      else if (requestText ip URI).length + 4 < filecontent.length then
        .ok (some (requestText ip URI ++ ascii "\r\n\r\n"))
      else .error .outOfBounds := by
  have htext := zero_notMem_requestText ip URI
  unfold recvFileRequest
  generalize requestText ip URI = text at *
  obtain ⟨rest, hprinted, hbuffer⟩ := @snprintf_room filecontent text (by omega) hlength
  have hremaining : toInt (filecontent.length - text.length) =
      ((filecontent.length - text.length : ℕ) : ℤ) := by
    unfold toInt
    omega
  have hkeep : (27 : ℤ) < (filecontent.length - text.length : ℕ) ↔
      text.length + 27 < filecontent.length := by omega
  rw [hprinted]
  dsimp only
  rw [hremaining, if_neg (by omega), Int.toNat_natCast]
  simp only [hkeep]
  by_cases hending : keepAlive = true ∧ text.length + 27 < filecontent.length
  · have hsize : (text ++ ascii "Connection: keep-alive\r\n\r\n").length < filecontent.length := by
      rw [List.length_append]
      exact Nat.lt_trans (Nat.add_lt_add_left (by decide) _) hending.2
    rw [if_pos hending, if_pos hending, strncat_eq htext (by decide) ?_, hbuffer, if_pos hsize]
    have hlong : (ascii "Connection: keep-alive\r\n\r\n").length = 26 := by decide
    omega
  · rw [if_neg hending, if_neg hending, strncat_eq htext (by decide) ?_, hbuffer, List.length_append]
    · rfl
    · have hlong : (ascii "\r\n\r\n").length = 4 := by decide
      omega

/-- The call hands over one request or none, and stays inside the buffer. -/
def RequestConforms (ip URI filecontent : List UInt8) (keepAlive : Bool) : Prop :=
  ∃ handed, recvFileRequest ip URI filecontent keepAlive = .ok handed ∧
    ∀ request ∈ handed, IsHeader request

/-- A buffer that is too small for the request, or so large that its size is taken as negative. -/
def Refused (textLength size : ℕ) : Prop :=
  if textLength < 2 ^ 31 then size < textLength + 4 ∨ textLength + 2 ^ 31 ≤ size
  else size < 3 ∨ 2 ^ 31 - 1 ≤ size

/-- A request that asks for its connection to be kept, in a buffer with room for it. -/
structure RequestFits (ip URI filecontent : List UInt8) (keepAlive : Bool) : Prop where
  keepAlive : keepAlive = true
  length : (requestText ip URI).length < 2 ^ 31
  room : (requestText ip URI).length + 27 < filecontent.length
  request_lines : ∀ line ∈ lines (fileLines ip URI), line ≠ [] ∧ line ≠ [CR]

theorem recvFileRequest_none (hsize : filecontent.length < 2 ^ 32)
    (h : Refused (requestText ip URI).length filecontent.length) :
    recvFileRequest ip URI filecontent keepAlive = .ok none := by
  have hremaining : toInt (filecontent.length - printedSize (requestText ip URI)) < 4 := by
    unfold Refused at h
    split at h
    · rename_i hint
      rw [printedSize_eq hint]
      unfold toInt
      omega
    · rename_i hint
      rw [printedSize, if_neg hint]
      unfold toInt
      omega
  unfold recvFileRequest
  rw [snprintf]
  dsimp only
  rw [if_pos hremaining]

/-- A text whose length is no `int` fills the buffer. -/
theorem recvFileRequest_overflow (hlong : 2 ^ 31 ≤ (requestText ip URI).length)
    (h : ¬Refused (requestText ip URI).length filecontent.length) :
    recvFileRequest ip URI filecontent keepAlive = .error .outOfBounds := by
  have htext := zero_notMem_requestText ip URI
  unfold recvFileRequest
  generalize requestText ip URI = text at *
  rw [Refused, if_neg (Nat.not_lt_of_le hlong)] at h
  have hstored : (text.take (filecontent.length - 1)).length = filecontent.length - 1 :=
    List.length_take_of_le (by omega)
  have hzero : 0 ∉ text.take (filecontent.length - 1) := fun hmem => htext (List.mem_of_mem_take hmem)
  have hremaining : toInt (filecontent.length - -1) = ((filecontent.length + 1 : ℕ) : ℤ) := by
    unfold toInt
    omega
  have hfull : ∀ ending rest : List UInt8, 0 < ending.length → rest = [] →
      ¬(text.take (filecontent.length - 1) ++ ending).length <
        (text.take (filecontent.length - 1) ++ 0 :: rest).length := by
    rintro ending rest hending rfl
    rw [List.length_append, List.length_append, List.length_singleton]
    omega
  have hrest : filecontent.drop ((text.take (filecontent.length - 1)).length + 1) = [] := by
    rw [hstored]
    exact List.drop_eq_nil_of_le (by omega)
  rw [snprintf, printedSize, if_neg (Nat.not_lt_of_le hlong), if_neg (by omega)]
  dsimp only
  rw [hremaining, if_neg (by omega), Int.toNat_natCast]
  split
  · rename_i hending
    have hlength : (ascii "Connection: keep-alive\r\n\r\n").length = 26 := by decide
    rw [strncat_eq hzero (by decide) (by omega), if_neg (hfull _ _ (by decide) hrest)]
  · have hlength : (ascii "\r\n\r\n").length = 4 := by decide
    rw [strncat_eq hzero (by decide) (by omega), if_neg (hfull _ _ (by decide) hrest)]

theorem requestConforms_iff (hsize : filecontent.length < 2 ^ 32) :
    RequestConforms ip URI filecontent keepAlive ↔
      Refused (requestText ip URI).length filecontent.length ∨
        RequestFits ip URI filecontent keepAlive := by
  by_cases hrefused : Refused (requestText ip URI).length filecontent.length
  · exact ⟨fun _ => .inl hrefused, fun _ => ⟨none, recvFileRequest_none hsize hrefused,
      fun _ hrequest => by cases hrequest⟩⟩
  by_cases hlength : (requestText ip URI).length < 2 ^ 31
  · have hsmall := hrefused
    rw [Refused, if_pos hlength, not_or] at hsmall
    have hrun := @recvFileRequest_eq ip URI filecontent keepAlive hlength (by omega) (by omega)
    constructor
    · rintro ⟨handed, hhanded, hheader⟩
      rw [hrun] at hhanded
      split at hhanded
      · rename_i hkeep
        cases hhanded
        exact .inr ⟨hkeep.1, hlength, hkeep.2, isHeader_keepAlive.mp (hheader _ rfl)⟩
      · split at hhanded
        · cases hhanded
          exact absurd (hheader _ rfl) not_isHeader_close
        · cases hhanded
    · rintro (h | h)
      · exact absurd h hrefused
      · refine ⟨_, hrun.trans (if_pos ⟨h.keepAlive, h.room⟩), ?_⟩
        rintro request hrequest
        cases hrequest
        exact isHeader_keepAlive.mpr h.request_lines
  · constructor
    · rintro ⟨handed, hhanded, -⟩
      rw [recvFileRequest_overflow (Nat.le_of_not_lt hlength) hrefused] at hhanded
      cases hhanded
    · rintro (h | h)
      · exact absurd h hrefused
      · exact absurd h.length hlength

end Requests

def noteUpload : Upload :=
  ⟨ascii "/notes", ascii "file", ascii "note.txt", ascii "text/plain", ascii "hello\r\n"⟩

set_option maxRecDepth 4000 in
theorem note_fits : noteUpload.Fits (ascii "127.0.0.1") ⟨1, 22, 333, 4444⟩ true
    fun _ => ⟨true, [some 5000]⟩ where
  before_size := by decide
  header_size := by decide
  declared := fun _ =>
    { request_lines := by decide
      request_length := by decide
      request_type := by decide
      plain :=
        { formname := ⟨by decide, by decide⟩
          filename := ⟨by decide, by decide⟩
          contentType := by decide
          filecontent := by decide }
      body_size := by decide
      whole := by
        intro i
        refine ⟨fun k hk => ?_, fun _ hnone => by cases hnone⟩
        obtain rfl : 5000 = k := Option.some.inj hk
        revert i
        decide }

end AmmarServer.AmmClient
