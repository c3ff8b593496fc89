import AmmarServer.HeaderAnalysis.ChunkedTransfer

/-! Well-formed chunked bodies, and what the scanner and the decoder say about them and about each
of their prefixes. -/

namespace AmmarServer
open Bytes

/-! ## The grammar -/

/-- The number a list of hexadecimal digits denotes, read behind `acc`. -/
def hexNumber (acc : Nat) : List UInt8 → Nat
  | [] => acc
  | c :: rest => hexNumber (acc * 16 + (hexValue c).getD 0) rest

/-- `chunk-size [ chunk-ext ] EOL`. -/
structure SizeLine where
  digits : List UInt8
  ext : List UInt8
  eol : Eol
  digits_hex : ∀ c ∈ digits, (hexValue c).isSome
  digits_ne_nil : digits ≠ []
  ext_head : ∀ c ∈ ext.head?, hexValue c = none
  ext_noNewline : NoNewline ext

def SizeLine.bytes (l : SizeLine) : List UInt8 := l.digits ++ (l.ext ++ l.eol.bytes)

def SizeLine.value (l : SizeLine) : Nat := hexNumber 0 l.digits

structure Chunk where
  line : SizeLine
  data : List UInt8
  eol : Eol
  line_value : line.value = data.length
  data_ne_nil : data ≠ []

def Chunk.bytes (c : Chunk) : List UInt8 := c.line.bytes ++ (c.data ++ c.eol.bytes)

structure TrailerLine where
  text : List UInt8
  eol : Eol
  text_ne_nil : text ≠ []
  text_noNewline : NoNewline text

def TrailerLine.bytes (l : TrailerLine) : List UInt8 := l.text ++ l.eol.bytes

/-- The lines of a trailer section and the blank line behind them. -/
def trailerBytes (lines : List TrailerLine) (eol : Eol) : List UInt8 :=
  lines.flatMap TrailerLine.bytes ++ eol.bytes

structure ChunkedBody where
  chunks : List Chunk
  last : SizeLine
  last_value : last.value = 0
  trailer : List TrailerLine
  eol : Eol

/-- The zero chunk and the trailer section. -/
def ChunkedBody.tail (b : ChunkedBody) : List UInt8 := b.last.bytes ++ trailerBytes b.trailer b.eol

def chunkBytes (chunks : List Chunk) : List UInt8 := chunks.flatMap Chunk.bytes

def ChunkedBody.bytes (b : ChunkedBody) : List UInt8 := chunkBytes b.chunks ++ b.tail

def chunkData (chunks : List Chunk) : List UInt8 := chunks.flatMap Chunk.data

def ChunkedBody.decoded (b : ChunkedBody) : List UInt8 := chunkData b.chunks

@[simp] theorem chunkBytes_nil : chunkBytes [] = [] := rfl

@[simp] theorem chunkBytes_cons (c : Chunk) (cs : List Chunk) :
    chunkBytes (c :: cs) = c.bytes ++ chunkBytes cs := by simp [chunkBytes]

@[simp] theorem chunkData_nil : chunkData [] = [] := rfl

@[simp] theorem chunkData_cons (c : Chunk) (cs : List Chunk) :
    chunkData (c :: cs) = c.data ++ chunkData cs := by simp [chunkData]

theorem SizeLine.bytes_ne_nil (l : SizeLine) : l.bytes ≠ [] := by
  simp [SizeLine.bytes, l.digits_ne_nil]

theorem Chunk.bytes_ne_nil (c : Chunk) : c.bytes ≠ [] := by
  simp [Chunk.bytes, c.line.bytes_ne_nil]

/-! ## Lines -/

theorem hexValue_isNewline {c : UInt8} (h : isNewline c = true) : hexValue c = none := by
  rcases isNewline_iff.mp h with rfl | rfl <;> rfl

theorem hexNumber_ge (acc : Nat) (l : List UInt8) : acc ≤ hexNumber acc l := by
  induction l generalizing acc with
  | nil => exact le_rfl
  | cons c l ih =>
    rw [hexNumber]
    exact le_trans (by omega) (ih _)

theorem hexNumber_append (acc : Nat) (l m : List UInt8) :
    hexNumber acc (l ++ m) = hexNumber (hexNumber acc l) m := by
  induction l generalizing acc with
  | nil => rfl
  | cons c l ih => simp only [List.cons_append, hexNumber, ih]

theorem chunkSizeDigits_append (l rest : List UInt8) (size digits : Nat)
    (hl : ∀ c ∈ l, (hexValue c).isSome) (hrest : ∀ c ∈ rest.head?, hexValue c = none)
    (hmax : hexNumber size l ≤ ulongMax) :
    chunkSizeDigits (l ++ rest) size digits = some (hexNumber size l, digits + l.length) := by
  induction l generalizing size digits with
  | nil =>
    cases rest with
    | nil => rfl
    | cons c rest =>
      have hc : hexValue c = none := hrest c (by simp)
      simp [chunkSizeDigits, hexNumber, hc]
  | cons c l ih =>
    obtain ⟨v, hv⟩ := Option.isSome_iff_exists.mp (hl c (List.mem_cons_self ..))
    have hstep : size * 16 + v ≤ ulongMax := by
      refine le_trans (hexNumber_ge _ l) ?_
      simpa [hexNumber, hv] using hmax
    have hsize : ¬ size > (ulongMax - 15) / 16 := by
      simp only [ulongMax] at hstep ⊢
      omega
    rw [List.cons_append, chunkSizeDigits]
    simp only [hv, hsize, if_false]
    rw [ih _ _ (fun d hd => hl d (List.mem_cons_of_mem _ hd)) (by simpa [hexNumber, hv] using hmax)]
    simp [hexNumber, hv, Nat.add_comm, Nat.add_left_comm]

theorem endOfLine_bytes (e : Eol) (rest : List UInt8) :
    endOfLine (e.bytes ++ rest) = .ok e.bytes.length 0 := by
  cases e <;> rfl

theorem endOfLine_strict {e : Eol} {p : List UInt8} (h : p <+: e.bytes) (hne : p ≠ e.bytes) :
    endOfLine p = .more := by
  cases e
  · rcases p with _ | ⟨a, _ | ⟨b, p⟩⟩
    · rfl
    · obtain ⟨t, ht⟩ := h
      simp only [Eol.bytes, List.cons_append, List.cons.injEq] at ht
      simp [endOfLine, ht.1]
    · obtain ⟨t, ht⟩ := h
      simp_all [Eol.bytes]
  · rcases p with _ | ⟨a, p⟩
    · rfl
    · obtain ⟨t, ht⟩ := h
      simp_all [Eol.bytes]

/-- A prefix of `l ++ m` ends inside `l` or behind it. -/
theorem isPrefix_append_cases {p l m : List UInt8} (h : p <+: l ++ m) :
    (p <+: l ∧ p ≠ l) ∨ ∃ q, p = l ++ q ∧ q <+: m := by
  rcases List.prefix_or_prefix_of_prefix h (List.prefix_append l m) with h1 | ⟨q, rfl⟩
  · by_cases hp : p = l
    · exact .inr ⟨[], by simp [hp], List.nil_prefix⟩
    · exact .inl ⟨h1, hp⟩
  · exact .inr ⟨q, rfl, (List.prefix_append_right_inj l).mp h⟩

theorem untilNewline_of_noNewline {l : List UInt8} (h : NoNewline l) : untilNewline l = l.length := by
  simpa using untilNewline_append (r := []) h (by simp)

theorem eol_head_isNewline (e : Eol) (rest : List UInt8) :
    ∀ c ∈ (e.bytes ++ rest).head?, isNewline c = true := by
  cases e <;> simp [Eol.bytes]

theorem endOfLine_untilNewline_strict {text p : List UInt8} {e : Eol} (htext : NoNewline text)
    (h : p <+: text ++ e.bytes) (hne : p ≠ text ++ e.bytes) :
    endOfLine (p.drop (untilNewline p)) = .more := by
  rcases isPrefix_append_cases h with ⟨h1, _⟩ | ⟨q, rfl, hq⟩
  · rw [untilNewline_of_noNewline (htext.of_isPrefix h1), List.drop_length]
    rfl
  · have hhead : ∀ c ∈ q.head?, isNewline c = true := by
      intro c hc
      obtain ⟨t, ht⟩ := hq
      refine eol_head_isNewline e [] c ?_
      cases q with
      | nil => cases hc
      | cons d q => simpa [← ht] using hc
    rw [untilNewline_append htext hhead, List.drop_left]
    exact endOfLine_strict hq (fun hqe => hne (by rw [hqe]))

theorem SizeLine.ext_eol_head (l : SizeLine) (rest : List UInt8) :
    ∀ c ∈ (l.ext ++ (l.eol.bytes ++ rest)).head?, hexValue c = none := by
  intro c hc
  cases hext : l.ext with
  | nil =>
    rw [hext, List.nil_append] at hc
    exact hexValue_isNewline (eol_head_isNewline _ _ c hc)
  | cons d ext =>
    rw [hext, List.cons_append] at hc
    exact l.ext_head c (by simpa [hext] using hc)

theorem parseChunkSizeLine_bytes (l : SizeLine) (rest : List UInt8) {maxDecodedSize decoded : Nat}
    (hmax : maxDecodedSize ≤ ulongMax) (hsize : decoded + l.value ≤ maxDecodedSize) :
    parseChunkSizeLine (l.bytes ++ rest) maxDecodedSize decoded = .ok l.bytes.length l.value := by
  have hdigits := chunkSizeDigits_append l.digits (l.ext ++ (l.eol.bytes ++ rest)) 0 0 l.digits_hex
    (l.ext_eol_head rest) (by rw [← SizeLine.value]; omega)
  have hlen : 0 + l.digits.length ≠ 0 := by simp [l.digits_ne_nil]
  have htoo : ¬ (hexNumber 0 l.digits > maxDecodedSize ∨
      decoded > maxDecodedSize - hexNumber 0 l.digits) := by
    rw [← SizeLine.value]
    omega
  unfold parseChunkSizeLine
  simp only [SizeLine.bytes, List.append_assoc, hdigits, hlen, if_false]
  rw [Nat.zero_add, List.drop_left, untilNewline_append l.ext_noNewline (eol_head_isNewline _ _),
    ← List.drop_drop, List.drop_left, List.drop_left, endOfLine_bytes]
  simp only [htoo, if_false, SizeLine.value, List.length_append, Nat.add_assoc]

theorem parseChunkSizeLine_strict (l : SizeLine) {p : List UInt8} {maxDecodedSize decoded : Nat}
    (hvalue : l.value ≤ ulongMax) (h : p <+: l.bytes) (hne : p ≠ l.bytes) :
    parseChunkSizeLine p maxDecodedSize decoded = if p = [] then .malformed else .more := by
  by_cases hp : p = []
  · subst hp
    rfl
  rw [if_neg hp]
  rcases isPrefix_append_cases h with ⟨⟨t, ht⟩, _⟩ | ⟨q, rfl, hq⟩
  · have hhex : ∀ c ∈ p, (hexValue c).isSome := fun c hc =>
      l.digits_hex c (by rw [← ht]; exact List.mem_append_left _ hc)
    have hle : hexNumber 0 p ≤ ulongMax := by
      refine le_trans (le_trans (hexNumber_ge _ t) ?_) hvalue
      rw [SizeLine.value, ← ht, hexNumber_append]
    have hdigits := chunkSizeDigits_append p [] 0 0 hhex (by simp) hle
    rw [List.append_nil, Nat.zero_add] at hdigits
    unfold parseChunkSizeLine
    simp [hdigits, hp, List.drop_of_length_le, endOfLine]
  · have hhead : ∀ c ∈ q.head?, hexValue c = none := by
      intro c hc
      obtain ⟨t, ht⟩ := hq
      refine l.ext_eol_head [] c ?_
      cases q with
      | nil => cases hc
      | cons d q => simpa [← ht] using hc
    have hdigits := chunkSizeDigits_append l.digits q 0 0 l.digits_hex hhead hvalue
    have hlen : 0 + l.digits.length ≠ 0 := by simp [l.digits_ne_nil]
    have hmore := endOfLine_untilNewline_strict l.ext_noNewline hq
      (fun hqe => hne (by rw [hqe, SizeLine.bytes]))
    unfold parseChunkSizeLine
    simp only [hdigits, hlen, if_false]
    rw [Nat.zero_add, List.drop_left, ← List.drop_drop, List.drop_left, hmore]

/-! ## The trailer section -/

theorem trailerLines_bytes (lines : List TrailerLine) (eol : Eol) (body rest : List UInt8)
    (pos fuel : Nat) (hdrop : body.drop pos = trailerBytes lines eol ++ rest)
    (hfuel : (trailerBytes lines eol).length ≤ fuel) :
    ∃ n, trailerLines fuel body pos = .ok n 0 := by
  induction lines generalizing pos fuel with
  | nil =>
    obtain ⟨c, l, hcl, hc⟩ := eol.head_isNewline
    have hb : trailerBytes [] eol = eol.bytes := by simp [trailerBytes]
    rw [hb] at hdrop hfuel
    cases fuel with
    | zero => simp [hcl] at hfuel
    | succ fuel =>
      have hpos : ¬ pos ≥ body.length := by
        intro hge
        rw [List.drop_of_length_le hge, hcl] at hdrop
        cases hdrop
      have hzero : untilNewline (eol.bytes ++ rest) = 0 := by
        simpa using untilNewline_append (l := []) noNewline_nil (eol_head_isNewline eol rest)
      refine ⟨pos + eol.bytes.length, ?_⟩
      simp only [trailerLines, hpos, if_false, hdrop, hzero, Nat.add_zero, endOfLine_bytes, if_true]
  | cons line lines ih =>
    have hb : trailerBytes (line :: lines) eol = line.text ++ (line.eol.bytes ++ trailerBytes lines eol) := by
      simp [trailerBytes, TrailerLine.bytes]
    have hlen : 0 < line.text.length := List.length_pos_iff.mpr line.text_ne_nil
    rw [hb] at hdrop hfuel
    cases fuel with
    | zero => simp [line.text_ne_nil] at hfuel
    | succ fuel =>
      have hpos : ¬ pos ≥ body.length := by
        intro hge
        rw [List.drop_of_length_le hge] at hdrop
        simp [line.text_ne_nil] at hdrop
      simp only [List.append_assoc] at hdrop
      have huntil := untilNewline_append line.text_noNewline
        (eol_head_isNewline line.eol (trailerBytes lines eol ++ rest))
      have hnext : body.drop (pos + line.text.length) =
          line.eol.bytes ++ (trailerBytes lines eol ++ rest) := by
        rw [← List.drop_drop, hdrop, List.drop_left]
      have hafter : body.drop (pos + line.text.length + line.eol.bytes.length) =
          trailerBytes lines eol ++ rest := by
        rw [← List.drop_drop, hnext, List.drop_left]
      simp only [trailerLines, hpos, if_false, hdrop, huntil, hnext, endOfLine_bytes, hlen.ne', if_false]
      refine ih _ _ hafter ?_
      simp only [List.length_append] at hfuel
      omega

theorem trailerLines_strict (lines : List TrailerLine) (eol : Eol) (body p : List UInt8)
    (pos fuel : Nat) (hdrop : body.drop pos = p) (h : p <+: trailerBytes lines eol)
    (hne : p ≠ trailerBytes lines eol) :
    trailerLines fuel body pos = .more := by
  induction lines generalizing pos fuel p with
  | nil =>
    have hb : trailerBytes [] eol = [] ++ eol.bytes := by simp [trailerBytes]
    rw [hb] at h hne
    cases fuel with
    | zero => rfl
    | succ fuel =>
      rw [trailerLines]
      split
      · rfl
      · have hmore := endOfLine_untilNewline_strict noNewline_nil h hne
        rw [← hdrop, List.drop_drop] at hmore
        simp only [hmore]
  | cons line lines ih =>
    have hb : trailerBytes (line :: lines) eol =
        (line.text ++ line.eol.bytes) ++ trailerBytes lines eol := by
      simp [trailerBytes, TrailerLine.bytes]
    rw [hb] at h hne
    cases fuel with
    | zero => rfl
    | succ fuel =>
      rw [trailerLines]
      split
      · rfl
      · rcases isPrefix_append_cases h with ⟨h1, h2⟩ | ⟨q, rfl, hq⟩
        · have hmore := endOfLine_untilNewline_strict line.text_noNewline h1 h2
          rw [← hdrop, List.drop_drop] at hmore
          simp only [hmore]
        · have hlen : line.text.length ≠ 0 := by simp [line.text_ne_nil]
          have huntil := untilNewline_append line.text_noNewline (eol_head_isNewline line.eol q)
          rw [List.append_assoc] at hdrop
          have hnext : body.drop (pos + line.text.length) = line.eol.bytes ++ q := by
            rw [← List.drop_drop, hdrop, List.drop_left]
          simp only [hdrop, huntil, hnext, endOfLine_bytes, hlen, if_false]
          refine ih _ _ _ ?_ hq (fun hqe => hne (by rw [hqe]))
          rw [← List.drop_drop, hnext, List.drop_left]

theorem parseTrailerSection_bytes (lines : List TrailerLine) (eol : Eol) (rest : List UInt8) :
    ∃ n, parseTrailerSection (trailerBytes lines eol ++ rest) = .ok n 0 := by
  obtain ⟨n, hn⟩ := trailerLines_bytes lines eol (trailerBytes lines eol ++ rest) rest 0
    (trailerBytes lines eol ++ rest).length rfl (by simp)
  cases hb : trailerBytes lines eol ++ rest with
  | nil => rw [hb] at hn; simp [trailerLines] at hn
  | cons c l =>
    cases hc : isNewline c with
    | false => exact ⟨n, by simp only [parseTrailerSection, hc]; rw [← hb]; simpa using hn⟩
    | true =>
      -- no line has an empty text, so the section is the blank line alone
      cases lines with
      | nil =>
        refine ⟨eol.bytes.length, ?_⟩
        have : endOfLine (c :: l) = .ok eol.bytes.length 0 := by
          rw [← hb]
          simpa [trailerBytes] using endOfLine_bytes eol rest
        simpa [parseTrailerSection, hc] using this
      | cons line lines =>
        obtain ⟨d, t, ht⟩ := List.exists_cons_of_ne_nil line.text_ne_nil
        have hd : isNewline d = false := line.text_noNewline d (by simp [ht])
        simp [trailerBytes, TrailerLine.bytes, ht] at hb
        rw [hb.1, hc] at hd
        cases hd

theorem parseTrailerSection_strict (lines : List TrailerLine) (eol : Eol) {p : List UInt8}
    (h : p <+: trailerBytes lines eol) (hne : p ≠ trailerBytes lines eol) :
    parseTrailerSection p = .more := by
  cases p with
  | nil => rfl
  | cons c l =>
    cases hc : isNewline c with
    | false =>
      simpa [parseTrailerSection, hc] using
        trailerLines_strict lines eol (c :: l) (c :: l) 0 (c :: l).length rfl h hne
    | true =>
      cases lines with
      | nil =>
        have hb : trailerBytes [] eol = eol.bytes := by simp [trailerBytes]
        rw [hb] at h hne
        simpa [parseTrailerSection, hc] using endOfLine_strict h hne
      | cons line lines =>
        obtain ⟨d, t, ht⟩ := List.exists_cons_of_ne_nil line.text_ne_nil
        have hd : isNewline d = false := line.text_noNewline d (by simp [ht])
        obtain ⟨u, hu⟩ := h
        simp [trailerBytes, TrailerLine.bytes, ht] at hu
        rw [← hu.1, hc] at hd
        cases hd

/-! ## The walker -/

theorem memmove_length {buf : List UInt8} {dst src n : Nat} (hds : dst ≤ src)
    (hn : src + n ≤ buf.length) : (memmove buf dst src n).length = buf.length := by
  simp only [memmove, List.length_append, List.length_take, List.length_drop]
  omega

/-- The write pointer never overtakes the read pointer. -/
theorem memmove_drop {buf : List UInt8} {dst src n : Nat} (hds : dst ≤ src)
    (hn : src + n ≤ buf.length) : (memmove buf dst src n).drop (src + n) = buf.drop (src + n) := by
  have hlen : (buf.take dst ++ (buf.drop src).take n).length = dst + n := by
    simp only [List.length_append, List.length_take, List.length_drop]
    omega
  rw [memmove, show src + n = dst + n + (src - dst) by omega, ← hlen, List.drop_length_add_append,
    List.drop_drop, hlen]

theorem memmove_take {buf : List UInt8} {dst src n : Nat} (hds : dst ≤ src)
    (hn : src + n ≤ buf.length) :
    (memmove buf dst src n).take (dst + n) = buf.take dst ++ (buf.drop src).take n := by
  have hlen : (buf.take dst ++ (buf.drop src).take n).length = dst + n := by
    simp only [List.length_append, List.length_take, List.length_drop]
    omega
  rw [memmove, ← hlen, List.take_left]

/-- The buffer after one chunk's data has been copied down. -/
def copyDown (writeBody : Bool) (body : List UInt8) (writePos readPos n : Nat) : List UInt8 :=
  if writeBody ∧ writePos ≠ readPos then memmove body writePos readPos n else body

theorem copyDown_length {writeBody : Bool} {body : List UInt8} {writePos readPos n : Nat}
    (hwr : writePos ≤ readPos) (hn : readPos + n ≤ body.length) :
    (copyDown writeBody body writePos readPos n).length = body.length := by
  unfold copyDown
  split
  · exact memmove_length hwr hn
  · rfl

theorem copyDown_drop (writeBody : Bool) {body : List UInt8} {writePos readPos n : Nat}
    (hwr : writePos ≤ readPos) (hn : readPos + n ≤ body.length) :
    (copyDown writeBody body writePos readPos n).drop (readPos + n) = body.drop (readPos + n) := by
  unfold copyDown
  split
  · exact memmove_drop hwr hn
  · rfl

theorem copyDown_take {body : List UInt8} {writePos readPos n : Nat}
    (hwr : writePos ≤ readPos) (hn : readPos + n ≤ body.length) :
    (copyDown true body writePos readPos n).take (writePos + n) =
      body.take writePos ++ (body.drop readPos).take n := by
  unfold copyDown
  split_ifs with h
  · exact memmove_take hwr hn
  · have : writePos = readPos := by simpa using h
    rw [this, List.take_add]

theorem length_of_drop_eq {body p : List UInt8} {pos : Nat} (h : body.drop pos = p) (hp : p ≠ []) :
    body.length = pos + p.length := by
  have hlen := congrArg List.length h
  have : p.length ≠ 0 := by simpa using hp
  rw [List.length_drop] at hlen
  omega

/-- One round of the walker over a chunk that is here in full. -/
theorem walkChunks_chunk (c : Chunk) (writeBody : Bool) (fuel writePos decoded : Nat)
    {body rest : List UInt8} {readPos maxDecodedSize : Nat}
    (hdrop : body.drop readPos = c.bytes ++ rest) (hwr : writePos ≤ readPos)
    (hmax : maxDecodedSize ≤ ulongMax) (hsize : decoded + c.data.length ≤ maxDecodedSize) :
    walkChunks writeBody maxDecodedSize (fuel + 1) body readPos writePos decoded =
      walkChunks writeBody maxDecodedSize fuel
        (copyDown writeBody body writePos (readPos + c.line.bytes.length) c.data.length)
        (readPos + c.bytes.length) (writePos + c.data.length) (decoded + c.data.length) := by
  have hdata : c.data.length ≠ 0 := by simp [c.data_ne_nil]
  have hlen := length_of_drop_eq hdrop (by simp [c.bytes_ne_nil])
  simp only [Chunk.bytes, List.append_assoc] at hdrop
  simp only [Chunk.bytes, List.length_append] at hlen
  rw [← c.line_value] at hsize
  have hline := parseChunkSizeLine_bytes c.line (c.data ++ (c.eol.bytes ++ rest)) hmax hsize
  have hroom : ¬ body.length - (readPos + c.line.bytes.length) < c.data.length := by omega
  have hn : readPos + c.line.bytes.length + c.data.length ≤ body.length := by omega
  have hend : (copyDown writeBody body writePos (readPos + c.line.bytes.length)
      c.data.length).drop (readPos + c.line.bytes.length + c.data.length) = c.eol.bytes ++ rest := by
    rw [copyDown_drop _ (by omega) hn, ← List.drop_drop, ← List.drop_drop, hdrop, List.drop_left,
      List.drop_left]
  obtain ⟨d, l, hdl, hd⟩ := c.eol.head_isNewline
  have heol := endOfLine_bytes c.eol rest
  have htotal : readPos + c.line.bytes.length + c.data.length + c.eol.bytes.length =
      readPos + c.bytes.length := by
    simp only [Chunk.bytes, List.length_append]
    omega
  rw [walkChunks, hdrop, hline]
  simp only [c.line_value, hdata, if_false, hroom]
  rw [← copyDown, hend]
  simp only [heol, htotal]
  simp [hdl, hd]

/-- A chunk that has not arrived in full. -/
theorem walkChunks_chunk_strict (c : Chunk) {writeBody : Bool} {maxDecodedSize fuel : Nat}
    {body p : List UInt8} {readPos writePos decoded : Nat}
    (hdrop : body.drop readPos = p) (hwr : writePos ≤ readPos) (hmax : maxDecodedSize ≤ ulongMax)
    (hsize : decoded + c.data.length ≤ maxDecodedSize) (h : p <+: c.bytes) (hne : p ≠ c.bytes) :
    (walkChunks writeBody maxDecodedSize (fuel + 1) body readPos writePos decoded).result =
      if p = [] then .errorBad else .incomplete := by
  have hvalue : c.line.value ≤ ulongMax := by rw [c.line_value]; omega
  have hdata : c.data.length ≠ 0 := by simp [c.data_ne_nil]
  rcases isPrefix_append_cases h with ⟨h1, h2⟩ | ⟨q, rfl, hq⟩
  · rw [walkChunks, hdrop, parseChunkSizeLine_strict c.line hvalue h1 h2]
    by_cases hp : p = [] <;> simp [hp]
  · have hp : c.line.bytes ++ q ≠ [] := by simp [c.line.bytes_ne_nil]
    have hlen := length_of_drop_eq hdrop hp
    rw [← c.line_value] at hsize
    have hline := parseChunkSizeLine_bytes c.line q hmax hsize
    rw [if_neg hp, walkChunks, hdrop, hline]
    simp only [c.line_value, hdata, if_false]
    rw [List.length_append] at hlen
    by_cases hroom : body.length - (readPos + c.line.bytes.length) < c.data.length
    · rw [if_pos hroom]
    rw [if_neg hroom]
    rcases isPrefix_append_cases hq with ⟨h1, h2⟩ | ⟨r, rfl, hr⟩
    · have hlt : q.length < c.data.length :=
        lt_of_le_of_ne h1.length_le fun heq => h2 (h1.eq_of_length heq)
      omega
    · rw [List.length_append] at hlen
      have hn : readPos + c.line.bytes.length + c.data.length ≤ body.length := by omega
      have hend : (copyDown writeBody body writePos (readPos + c.line.bytes.length)
          c.data.length).drop (readPos + c.line.bytes.length + c.data.length) = r := by
        rw [copyDown_drop _ (by omega) hn, ← List.drop_drop, ← List.drop_drop, hdrop,
          List.drop_left, List.drop_left]
      have hmore := endOfLine_strict hr (fun hre => hne (by rw [hre, Chunk.bytes]))
      rw [← copyDown, hend]
      cases r with
      | nil => rfl
      | cons d l =>
        have hd : isNewline d = true := by
          obtain ⟨t, ht⟩ := hr
          exact eol_head_isNewline c.eol [] d (by simp [← ht])
        simp [hd, hmore]

theorem walkChunks_tail (b : ChunkedBody) {writeBody : Bool} {maxDecodedSize fuel : Nat}
    {body rest : List UInt8} {readPos writePos decoded : Nat}
    (hdrop : body.drop readPos = b.tail ++ rest) (hmax : maxDecodedSize ≤ ulongMax)
    (hsize : decoded ≤ maxDecodedSize) :
    walkChunks writeBody maxDecodedSize (fuel + 1) body readPos writePos decoded =
      ⟨.complete, body, uint decoded⟩ := by
  simp only [ChunkedBody.tail, List.append_assoc] at hdrop
  have hlast : decoded + b.last.value ≤ maxDecodedSize := by rw [b.last_value]; exact hsize
  have hline := parseChunkSizeLine_bytes b.last (trailerBytes b.trailer b.eol ++ rest) hmax hlast
  obtain ⟨n, hn⟩ := parseTrailerSection_bytes b.trailer b.eol rest
  rw [walkChunks, hdrop, hline]
  simp only [b.last_value, if_true]
  rw [← List.drop_drop, hdrop, List.drop_left, hn]

theorem walkChunks_tail_strict (b : ChunkedBody) {writeBody : Bool} {maxDecodedSize fuel : Nat}
    {body p : List UInt8} {readPos writePos decoded : Nat}
    (hdrop : body.drop readPos = p) (hmax : maxDecodedSize ≤ ulongMax)
    (hsize : decoded ≤ maxDecodedSize) (h : p <+: b.tail) (hne : p ≠ b.tail) :
    (walkChunks writeBody maxDecodedSize (fuel + 1) body readPos writePos decoded).result =
      if p = [] then .errorBad else .incomplete := by
  have hvalue : b.last.value ≤ ulongMax := by rw [b.last_value]; omega
  rcases isPrefix_append_cases h with ⟨h1, h2⟩ | ⟨q, rfl, hq⟩
  · rw [walkChunks, hdrop, parseChunkSizeLine_strict b.last hvalue h1 h2]
    by_cases hp : p = [] <;> simp [hp]
  · have hlast : decoded + b.last.value ≤ maxDecodedSize := by rw [b.last_value]; exact hsize
    have hline := parseChunkSizeLine_bytes b.last q hmax hlast
    have hmore := parseTrailerSection_strict b.trailer b.eol hq
      (fun hqe => hne (by rw [hqe, ChunkedBody.tail]))
    rw [walkChunks, hdrop, hline]
    simp only [b.last_value, if_true]
    rw [← List.drop_drop, hdrop, List.drop_left, hmore]
    simp [b.last.bytes_ne_nil]

theorem walkChunks_chunks (chunks : List Chunk) (writeBody : Bool) (fuel writePos decoded : Nat)
    {body rest : List UInt8} {readPos maxDecodedSize : Nat}
    (hdrop : body.drop readPos = chunkBytes chunks ++ rest) (hwr : writePos ≤ readPos)
    (hpos : readPos ≤ body.length) (hmax : maxDecodedSize ≤ ulongMax)
    (hsize : decoded + (chunkData chunks).length ≤ maxDecodedSize) :
    ∃ body', body'.length = body.length ∧
      body'.drop (readPos + (chunkBytes chunks).length) = rest ∧
      (writeBody = true → body'.take (writePos + (chunkData chunks).length) =
        body.take writePos ++ chunkData chunks) ∧
      walkChunks writeBody maxDecodedSize (fuel + chunks.length) body readPos writePos decoded =
        walkChunks writeBody maxDecodedSize fuel body' (readPos + (chunkBytes chunks).length)
          (writePos + (chunkData chunks).length) (decoded + (chunkData chunks).length) := by
  induction chunks generalizing body readPos writePos decoded with
  | nil => exact ⟨body, rfl, by simpa using hdrop, fun _ => by simp, rfl⟩
  | cons c cs ih =>
    rw [chunkData_cons, List.length_append] at hsize
    rw [chunkBytes_cons, List.append_assoc] at hdrop
    have hlen := length_of_drop_eq hdrop (by simp [c.bytes_ne_nil])
    have hbytes : c.bytes.length = c.line.bytes.length + (c.data.length + c.eol.bytes.length) := by
      simp only [Chunk.bytes, List.length_append]
    rw [List.length_append, hbytes] at hlen
    have hn : readPos + c.line.bytes.length + c.data.length ≤ body.length := by omega
    have hstep := walkChunks_chunk c writeBody (fuel + cs.length) writePos decoded hdrop hwr hmax
      (by omega)
    set body₁ := copyDown writeBody body writePos (readPos + c.line.bytes.length) c.data.length
      with hbody₁
    have hwr₁ : writePos ≤ readPos + c.line.bytes.length := by omega
    have hlen₁ : body₁.length = body.length := copyDown_length hwr₁ hn
    have hdrop₁ : body₁.drop (readPos + c.bytes.length) = chunkBytes cs ++ rest := by
      have h2 := congrArg (List.drop c.eol.bytes.length)
        (copyDown_drop writeBody hwr₁ hn)
      rw [← hbody₁, List.drop_drop, List.drop_drop, Nat.add_assoc, Nat.add_assoc,
        ← hbytes, ← List.drop_drop (l := body), hdrop, List.drop_left] at h2
      exact h2
    obtain ⟨body₂, hlen₂, hdrop₂, htake₂, hwalk₂⟩ := ih (writePos + c.data.length)
      (decoded + c.data.length) hdrop₁ (by omega) (by omega) (by omega)
    refine ⟨body₂, hlen₂.trans hlen₁, ?_, ?_, ?_⟩
    · simpa [Nat.add_assoc] using hdrop₂
    · intro hw
      have h1 := htake₂ hw
      have h2 : body₁.take (writePos + c.data.length) = body.take writePos ++ c.data := by
        rw [hbody₁, hw, copyDown_take (by omega) hn, ← List.drop_drop, hdrop, Chunk.bytes,
          List.append_assoc, List.drop_left, List.append_assoc, List.take_left]
      rw [h2] at h1
      simpa [Nat.add_assoc] using h1
    · rw [List.length_cons, ← Nat.add_assoc, hstep, hwalk₂]
      simp [Nat.add_assoc]

theorem length_chunks_le (chunks : List Chunk) : chunks.length ≤ (chunkBytes chunks).length := by
  induction chunks with
  | nil => simp
  | cons c cs ih =>
    have : 0 < c.bytes.length := List.length_pos_iff.mpr c.bytes_ne_nil
    simp only [List.length_cons, chunkBytes_cons, List.length_append]
    omega

theorem chunkData_length_le (chunks : List Chunk) :
    (chunkData chunks).length ≤ (chunkBytes chunks).length := by
  induction chunks with
  | nil => simp
  | cons c cs ih =>
    simp only [chunkData_cons, chunkBytes_cons, Chunk.bytes, List.length_append]
    omega

/-- `q` is a strict prefix of what comes next: a chunk of `rest`, or the tail. -/
def ChunkedBody.Unfinished (b : ChunkedBody) : List Chunk → List UInt8 → Prop
  | [], q => q <+: b.tail ∧ q ≠ b.tail
  | c :: _, q => q <+: c.bytes ∧ q ≠ c.bytes

/-- A strict prefix of a well-formed body is some of its chunks followed by a strict prefix of
the next chunk, or of the tail. -/
theorem ChunkedBody.isPrefix_cases (b : ChunkedBody) {p : List UInt8} (h : p <+: b.bytes)
    (hne : p ≠ b.bytes) :
    ∃ done rest q, b.chunks = done ++ rest ∧ p = chunkBytes done ++ q ∧ b.Unfinished rest q := by
  unfold ChunkedBody.bytes at h hne
  generalize b.chunks = chunks at h hne ⊢
  induction chunks generalizing p with
  | nil => exact ⟨[], [], p, rfl, rfl, by simpa using h, by simpa using hne⟩
  | cons c cs ih =>
    rw [chunkBytes_cons, List.append_assoc] at h hne
    rcases isPrefix_append_cases h with ⟨h1, h2⟩ | ⟨q, rfl, hq⟩
    · exact ⟨[], c :: cs, p, rfl, rfl, h1, h2⟩
    · obtain ⟨done, rest, r, rfl, rfl, hr⟩ := ih hq (fun hqe => hne (by rw [hqe]))
      exact ⟨c :: done, rest, r, rfl, by simp, hr⟩

theorem chunkBytes_append (cs ds : List Chunk) :
    chunkBytes (cs ++ ds) = chunkBytes cs ++ chunkBytes ds := by simp [chunkBytes]

theorem chunkData_append (cs ds : List Chunk) :
    chunkData (cs ++ ds) = chunkData cs ++ chunkData ds := by simp [chunkData]

/-- `p` ends right behind the line end of a chunk that carries data. -/
def ChunkedBody.EndsAfterChunk (b : ChunkedBody) (p : List UInt8) : Prop :=
  ∃ done rest, b.chunks = done ++ rest ∧ p = chunkBytes done

theorem ChunkedBody.drop_zero_bytes (b : ChunkedBody) :
    b.bytes.drop 0 = chunkBytes b.chunks ++ b.tail := List.drop_zero

theorem httpChunkedBodyScan_bytes (b : ChunkedBody) {maxDecodedSize : Nat}
    (hmax : maxDecodedSize ≤ ulongMax) (hsize : b.decoded.length ≤ maxDecodedSize) :
    httpChunkedBodyScan b.bytes maxDecodedSize = .complete := by
  have hfuel : b.bytes.length + 1 = (b.bytes.length - b.chunks.length) + 1 + b.chunks.length := by
    have := length_chunks_le b.chunks
    simp only [ChunkedBody.bytes, List.length_append]
    omega
  obtain ⟨body', _, hdrop, _, hwalk⟩ := walkChunks_chunks b.chunks false
    (b.bytes.length - b.chunks.length + 1) 0 0 b.drop_zero_bytes le_rfl
    (Nat.zero_le _) hmax (by simpa [ChunkedBody.decoded] using hsize)
  rw [← List.append_nil b.tail] at hdrop
  rw [httpChunkedBodyScan, walkChunkedBody, hfuel, hwalk, walkChunks_tail b hdrop hmax
    (by simpa [ChunkedBody.decoded] using hsize)]

theorem ChunkedBody.decoded_length_le (b : ChunkedBody) : b.decoded.length ≤ b.bytes.length := by
  have hdata := chunkData_length_le b.chunks
  rw [ChunkedBody.decoded, ChunkedBody.bytes, List.length_append]
  omega

/-- The decoder leaves the concatenated chunk data at the start of the buffer. Where `bodyLength` is
an `unsigned int`, so is the size. -/
theorem httpChunkedBodyDecode_bytes (b : ChunkedBody) {maxDecodedSize : Nat}
    (hlong : maxDecodedSize ≤ ulongMax) (hint : b.bytes.length < 2 ^ 32)
    (hsize : b.decoded.length ≤ maxDecodedSize) :
    ∃ body', body'.length = b.bytes.length ∧ body'.take b.decoded.length = b.decoded ∧
      httpChunkedBodyDecode b.bytes maxDecodedSize = ⟨.complete, body', b.decoded.length⟩ := by
  have hfuel : b.bytes.length + 1 = (b.bytes.length - b.chunks.length) + 1 + b.chunks.length := by
    have := length_chunks_le b.chunks
    simp only [ChunkedBody.bytes, List.length_append]
    omega
  have huint : uint b.decoded.length = b.decoded.length :=
    Nat.mod_eq_of_lt (lt_of_le_of_lt b.decoded_length_le hint)
  obtain ⟨body', hlen, hdrop, htake, hwalk⟩ := walkChunks_chunks b.chunks true
    (b.bytes.length - b.chunks.length + 1) 0 0 b.drop_zero_bytes le_rfl
    (Nat.zero_le _) hlong (by simpa [ChunkedBody.decoded] using hsize)
  rw [← List.append_nil b.tail] at hdrop
  refine ⟨body', hlen, by simpa [ChunkedBody.decoded] using htake rfl, ?_⟩
  rw [httpChunkedBodyDecode, walkChunkedBody, hfuel, hwalk, walkChunks_tail b hdrop hlong
    (by simpa [ChunkedBody.decoded] using hsize), Nat.zero_add, ← ChunkedBody.decoded, huint]

/-- Behind whole chunks and a strict prefix of what follows them, only the empty remainder is a
chunk's end. -/
theorem ChunkedBody.endsAfterChunk_iff (b : ChunkedBody) {done rest : List Chunk} {q : List UInt8}
    (hchunks : b.chunks = done ++ rest) (hq : b.Unfinished rest q) :
    b.EndsAfterChunk (chunkBytes done ++ q) ↔ q = [] := by
  refine ⟨?_, fun h => ⟨done, rest, hchunks, by rw [h, List.append_nil]⟩⟩
  rintro ⟨done', rest', hchunks', hp⟩
  rw [hchunks] at hchunks'
  rcases List.append_eq_append_iff.mp hchunks' with ⟨m, rfl, rfl⟩ | ⟨m, rfl, rfl⟩
  · rw [chunkBytes_append, List.append_cancel_left_eq] at hp
    cases m with
    | nil => simpa using hp
    | cons c m =>
      refine absurd (hq.1.length_le) ?_
      have hlt : q.length < c.bytes.length :=
        lt_of_le_of_ne hq.1.length_le fun heq => hq.2 (hq.1.eq_of_length heq)
      rw [chunkBytes_cons] at hp
      have := congrArg List.length hp
      rw [List.length_append] at this
      omega
  · rw [chunkBytes_append, List.append_assoc] at hp
    have hnil : chunkBytes m ++ q = [] := List.append_right_eq_self.mp hp
    exact (List.append_eq_nil_iff.mp hnil).2

/-- What the scanner says of a strict prefix. The digit test of `ParseChunkSizeLine` takes a chunk
header that has not begun to arrive for one without a size. -/
theorem httpChunkedBodyScan_strict (b : ChunkedBody) {p : List UInt8} {maxDecodedSize : Nat}
    (hmax : maxDecodedSize ≤ ulongMax) (hsize : b.decoded.length ≤ maxDecodedSize)
    (h : p <+: b.bytes) (hne : p ≠ b.bytes) [Decidable (b.EndsAfterChunk p)] :
    httpChunkedBodyScan p maxDecodedSize =
      if b.EndsAfterChunk p then .errorBad else .incomplete := by
  obtain ⟨done, rest, q, hchunks, rfl, hq⟩ := b.isPrefix_cases h hne
  have hdecoded : b.decoded.length = (chunkData done).length + (chunkData rest).length := by
    rw [ChunkedBody.decoded, hchunks, chunkData_append, List.length_append]
  have hlast : (walkChunks false maxDecodedSize
      ((chunkBytes done ++ q).length + 1) (chunkBytes done ++ q) 0 0 0).result =
      if q = [] then .errorBad else .incomplete := by
    have hfuel : (chunkBytes done ++ q).length + 1 =
        ((chunkBytes done ++ q).length - done.length) + 1 + done.length := by
      have := length_chunks_le done
      simp only [List.length_append]
      omega
    have hstart : (chunkBytes done ++ q).drop 0 = chunkBytes done ++ q := List.drop_zero
    obtain ⟨body', _, hdrop, _, hwalk⟩ := walkChunks_chunks done false
      ((chunkBytes done ++ q).length - done.length + 1) 0 0 hstart le_rfl (Nat.zero_le _) hmax
      (by omega)
    rw [hfuel, hwalk]
    cases rest with
    | nil => exact walkChunks_tail_strict b hdrop hmax (by omega) hq.1 hq.2
    | cons c cs =>
      rw [chunkData_cons, List.length_append] at hdecoded
      have hwr := chunkData_length_le done
      exact walkChunks_chunk_strict c hdrop (by omega) hmax (by omega) hq.1 hq.2
  rw [httpChunkedBodyScan, walkChunkedBody, hlast]
  simp only [b.endsAfterChunk_iff hchunks hq]

end AmmarServer
