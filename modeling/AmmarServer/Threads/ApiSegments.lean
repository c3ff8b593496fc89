import AmmarServer.Lib.Frames
import AmmarServer.Threads.ApiServe
import AmmarServer.Threads.ApiStream

/-! The frames found in a byte stream that arrives in pieces. Requests are served out of the buffer
until none is complete, and what is left of it is kept for the next read to be appended to. -/

namespace AmmarServer.ApiProtocol
open Bytes CString Frames

inductive Framed
  | ready (headerEnd bodyLength : Nat) (keepAlive : Bool)
  | refused (headerEnd refuseStatus : Nat)
  /-- the buffer took no more: the connection is closed, or answered 413 and closed -/
  | unkept
  deriving DecidableEq, Repr

/-- The NULs that `ApiProtocol_Prepare` writes over the request line of a frame. -/
def nulTerminated (buf : List UInt8) (frame : ApiFrame) : List UInt8 :=
  let block := (buf.drop frame.request).take frame.headerEnd
  if LF ∈ block then
    let line := block.takeWhile (· ≠ LF)
    let methodLength := (methodFromRequestLine line).2
    let targetStart := if methodLength > 0 then methodLength + 1 else 0
    if targetStart > line.length then buf
    else
      let behind := line.drop targetStart
      let target := if 32 ∈ behind then behind.takeWhile (· ≠ 32)
        else behind.rdropWhile (fun c => c == CR || c == 32)
      let ended := buf.set (frame.request + (targetStart + target.length)) 0
      if 63 ∈ target then
        ended.set (frame.request + (targetStart + (target.takeWhile (· ≠ 63)).length)) 0
      else ended
  else buf

/-- What serving a buffer leaves: the frames found, the buffer, `*consumed`, and whether the last
frame was refused. -/
structure Served where
  frames : List Framed := []
  buf : List UInt8
  consumed : Nat
  refused : Bool := false

/-- The loop of `ServeBufferedApiRequests` over the frames of a buffer. -/
def serveBuffered : Nat → List UInt8 → Nat → Served
  | 0, buf, offset => { buf := buf, consumed := offset }
  | fuel + 1, buf, offset =>
    match nextFrame buf offset with
    | (.incomplete, _) => { buf := buf, consumed := offset }
    | (.refused, frame) => {
        frames := [.refused frame.headerEnd frame.refuseStatus]
        buf := buf
        consumed := offset
        refused := true }
    | (.ready, frame) =>
      let served := serveBuffered fuel (nulTerminated buf frame) (offset + frame.totalLength)
      { served with
        frames := .ready frame.headerEnd frame.bodyLength frame.keepAlive :: served.frames }

/-- The frames found in a buffer that holds a whole stream. -/
def framesOf (stream : List UInt8) : List Framed := (serveBuffered stream.length stream 0).frames

/-- A connection whose requests are framed as its bytes arrive. -/
structure Framer where
  inBuf : ApiPartialRequest := {}
  frames : List Framed := []
  stopped : Bool := false
  deriving DecidableEq, Repr

/-- A read into a buffer: with nothing kept it is framed where it is, otherwise behind what is
kept. Memory is taken to be had. -/
def Framer.receive (c : Framer) (data : List UInt8) : Framer :=
  if c.stopped then c
  else
    let appended :=
      if c.inBuf.used > 0 then (partialAppend c.inBuf data true).map fun p => (p, p.data)
      else some (c.inBuf, data)
    match appended with
    | none => { c with frames := c.frames ++ [.unkept], stopped := true }
    | some (p, buf) =>
      let served := serveBuffered buf.length buf 0
      if served.refused then
        { inBuf := partialFree p, frames := c.frames ++ served.frames, stopped := true }
      else
        match partialKeepTail p served.buf served.consumed true with
        | none => { c with frames := c.frames ++ served.frames ++ [.unkept], stopped := true }
        | some p => { inBuf := p, frames := c.frames ++ served.frames }

def Framer.run (reads : List (List UInt8)) : Framer := reads.foldl Framer.receive {}

/-! ## The frames of a buffer are read off its front -/

def requestAt (buf : List UInt8) : Option (Item Framed) :=
  match nextFrame buf 0 with
  | (.incomplete, _) => none
  | (.ready, frame) => some {
      value := .ready frame.headerEnd frame.bodyLength frame.keepAlive
      extent := frame.totalLength
      ends := false }
  | (.refused, frame) => some {
      value := .refused frame.headerEnd frame.refuseStatus
      extent := frame.headerEnd
      ends := true }

theorem requestAt_eq_none_iff {buf : List UInt8} :
    requestAt buf = none ↔ (nextFrame buf 0).1 = .incomplete := by
  unfold requestAt
  rcases nextFrame buf 0 with ⟨_ | _ | _, frame⟩ <;> simp

theorem requestAt_congr {buf buf' : List UInt8} (h : nextFrame buf 0 = nextFrame buf' 0) :
    requestAt buf = requestAt buf' := by
  rw [requestAt, requestAt, h]

theorem requestAt_extent {buf : List UInt8} {i : Item Framed} (h : requestAt buf = some i) :
    ∃ headerEnd, findRequestHeaderEnd buf = some headerEnd ∧ headerEnd ≤ i.extent ∧
      i.extent ≤ buf.length ∧ ∀ bodyLength,
        bodyLengthOf (buf.take headerEnd) = .ok bodyLength → headerEnd + bodyLength = i.extent := by
  have hsaid : (nextFrame buf 0).1 ≠ .incomplete := by
    intro hcon
    rw [requestAt_eq_none_iff.mpr hcon] at h
    cases h
  have hend := nextFrame_headerEnd hsaid
  unfold requestAt at h
  rcases hframe : nextFrame buf 0 with ⟨_ | _ | _, frame⟩
  · rw [hframe] at hsaid
    exact absurd rfl hsaid
  · rw [hframe] at h hend
    obtain rfl := Option.some.inj h
    obtain ⟨hbody, htotal, hle⟩ := nextFrame_sized hframe
    refine ⟨frame.headerEnd, hend, ?_, hle, ?_⟩
    · simp only
      omega
    · intro bodyLength hlength
      rw [hbody] at hlength
      rw [← Except.ok.inj hlength]
      exact htotal.symm
  · rw [hframe] at h hend
    obtain rfl := Option.some.inj h
    refine ⟨frame.headerEnd, hend, le_rfl, findRequestHeaderEnd_le hend, ?_⟩
    intro bodyLength hlength
    rw [nextFrame_refusal hframe] at hlength
    cases hlength

theorem requests : Fronts requestAt where
  pos h := by
    obtain ⟨headerEnd, hend, hle, _⟩ := requestAt_extent h
    have hpos := findRequestHeaderEnd_pos hend
    omega
  le h := by
    obtain ⟨_, _, _, hle, _⟩ := requestAt_extent h
    exact hle
  append more h := by
    rw [← h]
    apply requestAt_congr
    apply nextFrame_append
    intro hcon
    rw [requestAt_eq_none_iff.mpr hcon] at h
    cases h
  cut {buf more i} h hle := by
    obtain ⟨headerEnd, hend, hheader, _, hbody⟩ := requestAt_extent h
    rw [← h]
    apply requestAt_congr
    apply nextFrame_cut hend (by omega)
    intro bodyLength hlength
    have hblock : (buf ++ more).take headerEnd = buf.take headerEnd :=
      List.take_append_of_le_length (by omega)
    have hsize := hbody bodyLength (by rw [hblock]; exact hlength)
    omega

/-! ## Serving a buffer reads its frames -/

theorem nulTerminated_length (buf : List UInt8) (frame : ApiFrame) :
    (nulTerminated buf frame).length = buf.length := by
  simp only [nulTerminated]
  split_ifs <;> simp only [List.length_set]

theorem nulTerminated_drop {buf : List UInt8} {frame : ApiFrame} {n : Nat}
    (h : frame.request + frame.headerEnd ≤ n) : (nulTerminated buf frame).drop n = buf.drop n := by
  set block := (buf.drop frame.request).take frame.headerEnd with hblock
  set line := block.takeWhile (· ≠ LF) with hline
  have hroom : block.length ≤ frame.headerEnd := List.length_take_le ..
  have hend : LF ∈ block → line.length < block.length := by
    intro hlf
    refine lt_of_le_of_ne (List.takeWhile_prefix _).length_le fun hall => ?_
    have hsame : line = block := (List.takeWhile_prefix _).eq_of_length hall
    have hcon := List.mem_takeWhile_imp (hline ▸ hsame ▸ hlf : LF ∈ block.takeWhile (· ≠ LF))
    simp at hcon
  have hset : ∀ (l : List UInt8) (i : Nat), i ≤ line.length → LF ∈ block →
      (l.set (frame.request + i) 0).drop n = l.drop n := by
    intro l i hi hlf
    have := hend hlf
    exact List.drop_set_of_lt (by omega)
  simp only [nulTerminated]
  rw [← hblock, ← hline]
  split
  · rename_i hlf
    set targetStart := if (methodFromRequestLine line).2 > 0 then
      (methodFromRequestLine line).2 + 1 else 0 with htarget
    split
    · rfl
    · rename_i hstart
      set behind := line.drop targetStart with hbehind
      set target := if 32 ∈ behind then behind.takeWhile (· ≠ 32)
        else behind.rdropWhile (fun c => c == CR || c == 32) with htargetEnd
      have hlength : target.length ≤ behind.length := by
        rw [htargetEnd]
        split
        · exact (List.takeWhile_prefix _).length_le
        · exact (List.rdropWhile_prefix _ _).length_le
      have hquery : (target.takeWhile (· ≠ 63)).length ≤ target.length :=
        (List.takeWhile_prefix _).length_le
      rw [hbehind, List.length_drop] at hlength
      split
      · rw [hset _ _ (by omega) hlf, hset _ _ (by omega) hlf]
      · rw [hset _ _ (by omega) hlf]
  · rfl

theorem serveBuffered_eq (fuel : Nat) (buf : List UInt8) (offset : Nat) :
    (serveBuffered fuel buf offset).frames =
        (readFrom requestAt fuel (buf.drop offset)).items.map Item.value ∧
      (serveBuffered fuel buf offset).refused =
        (readFrom requestAt fuel (buf.drop offset)).ended ∧
      (serveBuffered fuel buf offset).buf.drop (serveBuffered fuel buf offset).consumed =
        (readFrom requestAt fuel (buf.drop offset)).rest ∧
      (serveBuffered fuel buf offset).buf.length = buf.length := by
  induction fuel generalizing buf offset with
  | zero => exact ⟨rfl, rfl, rfl, rfl⟩
  | succ fuel ih =>
    obtain ⟨hresult, hframe⟩ := @nextFrame_drop buf offset
    unfold serveBuffered readFrom requestAt
    rcases hhere : nextFrame buf offset with ⟨result, frame⟩
    rcases hthere : nextFrame (buf.drop offset) 0 with ⟨result', frame'⟩
    rw [hhere, hthere] at hresult hframe
    obtain rfl : result = result' := hresult
    cases result with
    | incomplete => exact ⟨rfl, rfl, rfl, rfl⟩
    | refused =>
      obtain rfl : frame = { frame' with request := offset } := hframe (fun hcon => by cases hcon)
      exact ⟨rfl, rfl, rfl, rfl⟩
    | ready =>
      obtain rfl : frame = { frame' with request := offset } := hframe (fun hcon => by cases hcon)
      obtain ⟨_, htotal, _⟩ := nextFrame_sized hthere
      -- what serving the request wrote lies in front of the next one
      have hdrop := @nulTerminated_drop buf { frame' with request := offset }
        (offset + frame'.totalLength) (by simp only; omega)
      obtain ⟨hframes, hrefused, hrest, hlength⟩ :=
        ih (nulTerminated buf { frame' with request := offset }) (offset + frame'.totalLength)
      rw [hdrop] at hframes hrefused hrest
      simp only [Bool.false_eq_true, if_false, Found.behind, List.drop_drop, List.singleton_append,
        List.map_cons]
      rw [hframes, hlength, nulTerminated_length]
      exact ⟨rfl, hrefused, hrest, rfl⟩

/-- Serving a whole buffer finds the frames at its front, and consumes what is in front of the
rest. -/
theorem serveBuffered_found (buf : List UInt8) :
    (serveBuffered buf.length buf 0).frames = (readAll requestAt buf).items.map Item.value ∧
      (serveBuffered buf.length buf 0).refused = (readAll requestAt buf).ended ∧
      (serveBuffered buf.length buf 0).buf.drop (serveBuffered buf.length buf 0).consumed =
        (readAll requestAt buf).rest :=
  have h := serveBuffered_eq buf.length buf 0
  ⟨h.1, h.2.1, h.2.2.1⟩

theorem framesOf_eq (stream : List UInt8) :
    framesOf stream = (readAll requestAt stream).items.map Item.value :=
  (serveBuffered_found stream).1

theorem unkept_notMem_framesOf (stream : List UInt8) : Framed.unkept ∉ framesOf stream := by
  unfold framesOf
  suffices ∀ fuel buf offset, Framed.unkept ∉ (serveBuffered fuel buf offset).frames from
    this _ _ _
  intro fuel
  induction fuel with
  | zero => exact fun _ _ => List.not_mem_nil
  | succ fuel ih =>
    intro buf offset
    rw [serveBuffered]
    rcases nextFrame buf offset with ⟨_ | _ | _, frame⟩
    · exact List.not_mem_nil
    · have htail := ih (nulTerminated buf frame) (offset + frame.totalLength)
      simpa using htail
    · simp

/-! ## What a read does -/

theorem ensurePartialCapacity_isSome {p : ApiPartialRequest} {needed : Nat} :
    (ensurePartialCapacity p needed true).isSome ↔ needed ≤ API_MAX_REQUEST_SIZE := by
  unfold ensurePartialCapacity
  split
  · rename_i hcap
    simpa using hcap
  · rename_i hcap
    simp only [if_true]
    split <;> simpa using hcap

theorem partialAppend_isSome {p : ApiPartialRequest} {data : List UInt8} :
    (partialAppend p data true).isSome ↔
      data = [] ∨ p.used + data.length ≤ API_MAX_REQUEST_SIZE := by
  unfold partialAppend
  split
  · rename_i hnil
    simp [hnil]
  · rename_i hdata
    rw [Option.isSome_map, ensurePartialCapacity_isSome]
    simp [hdata]

theorem partialKeepTail_isSome {p : ApiPartialRequest} {buf : List UInt8} {consumed : Nat}
    (h : (buf.drop consumed).length ≤ API_MAX_REQUEST_SIZE) :
    (partialKeepTail p buf consumed true).isSome := by
  rw [List.length_drop] at h
  unfold partialKeepTail
  split
  · rfl
  · rw [Option.isSome_map, ensurePartialCapacity_isSome]
    exact h

/-- No request of the stream is larger than the cap, the one that is not complete included. -/
def RequestsFit (stream : List UInt8) : Prop :=
  (∀ i ∈ (readAll requestAt stream).items, i.extent ≤ API_MAX_REQUEST_SIZE) ∧
    ((readAll requestAt stream).ended = false →
      (readAll requestAt stream).rest.length ≤ API_MAX_REQUEST_SIZE)

instance (stream : List UInt8) : Decidable (RequestsFit stream) := by
  unfold RequestsFit
  infer_instance

/-- How many bytes of a request that is not complete are at the end of the bytes received. -/
def unfinished (received : List UInt8) : Nat :=
  if (readAll requestAt received).ended then 0 else (readAll requestAt received).rest.length

/-- A read is no larger than the room behind the bytes that are kept for it. -/
def FitsBehind (received read : List UInt8) : Prop :=
  unfinished received = 0 ∨ unfinished received + read.length ≤ API_MAX_REQUEST_SIZE

/-- The connection has found what is in the bytes received, and keeps the rest of them. -/
structure Follows (c : Framer) (received : List UInt8) : Prop where
  frames : c.frames = framesOf received
  stopped : c.stopped = (readAll requestAt received).ended
  kept : c.stopped = false → c.inBuf.data = (readAll requestAt received).rest

theorem Follows.unfinished {c : Framer} {received : List UInt8} (h : Follows c received)
    (hgoes : c.stopped = false) : unfinished received = c.inBuf.used := by
  rw [ApiProtocol.unfinished, ← h.stopped, hgoes, ← h.kept hgoes]
  rfl

/-- What `receive` frames: the bytes kept and the bytes read, where there is room for them. -/
theorem receive_appended {c : Framer} {data : List UInt8}
    (hroom : c.inBuf.used = 0 ∨ c.inBuf.used + data.length ≤ API_MAX_REQUEST_SIZE) :
    ∃ p, (if c.inBuf.used > 0 then (partialAppend c.inBuf data true).map fun p => (p, p.data)
      else some (c.inBuf, data)) = some (p, c.inBuf.data ++ data) := by
  by_cases hkept : c.inBuf.used > 0
  · have happend : (partialAppend c.inBuf data true).isSome :=
      partialAppend_isSome.mpr (.inr (by omega))
    obtain ⟨p, hp⟩ := Option.isSome_iff_exists.mp happend
    refine ⟨p, ?_⟩
    rw [if_pos hkept, hp, Option.map_some, partialAppend_data hp]
  · have hnil : c.inBuf.data = [] := List.length_eq_zero_iff.mp (Nat.eq_zero_of_not_pos hkept)
    refine ⟨c.inBuf, ?_⟩
    rw [if_neg hkept, hnil, List.nil_append]

theorem receive_follows {c : Framer} {received data more : List UInt8}
    (h : Follows c received) (hfit : RequestsFit (received ++ data ++ more))
    (hroom : FitsBehind received data) : Follows (c.receive data) (received ++ data) := by
  have happend := requests.readAll_append received data
  cases hstopped : c.stopped with
  | true =>
    rw [← h.stopped, hstopped, if_pos rfl] at happend
    rw [Framer.receive, if_pos hstopped]
    refine ⟨?_, ?_, fun hgoes => ?_⟩
    · rw [h.frames, framesOf_eq, framesOf_eq, happend]
    · rw [happend]
      exact h.stopped
    · rw [hgoes] at hstopped
      cases hstopped
  | false =>
    rw [← h.stopped, hstopped, if_neg (by decide), ← h.kept hstopped] at happend
    rw [FitsBehind, h.unfinished hstopped] at hroom
    obtain ⟨p, hp⟩ := receive_appended hroom
    obtain ⟨hframes, hrefused, hrest⟩ := serveBuffered_found (c.inBuf.data ++ data)
    have hall : c.frames ++ (serveBuffered (c.inBuf.data ++ data).length
        (c.inBuf.data ++ data) 0).frames = framesOf (received ++ data) := by
      rw [h.frames, framesOf_eq, framesOf_eq, hframes, happend, Found.behind, List.map_append]
    rw [Framer.receive, if_neg (by rw [hstopped]; decide)]
    simp only
    rw [hp]
    simp only
    cases hended : (readAll requestAt (c.inBuf.data ++ data)).ended with
    | true =>
      rw [hended] at hrefused
      rw [if_pos hrefused]
      refine ⟨hall, ?_, fun hgoes => by cases hgoes⟩
      rw [happend]
      exact hended.symm
    | false =>
      have hended' : (readAll requestAt (received ++ data)).ended = false := by
        rw [happend]
        exact hended
      have hsmall := requests.length_rest_le hfit.1 hfit.2 hended'
      rw [happend] at hsmall
      rw [hended] at hrefused
      rw [if_neg (by rw [hrefused]; decide)]
      have hkept : (partialKeepTail p
          (serveBuffered (c.inBuf.data ++ data).length (c.inBuf.data ++ data) 0).buf
          (serveBuffered (c.inBuf.data ++ data).length (c.inBuf.data ++ data) 0).consumed
          true).isSome := by
        apply partialKeepTail_isSome
        rw [hrest]
        exact hsmall
      obtain ⟨q, hq⟩ := Option.isSome_iff_exists.mp hkept
      rw [hq]
      refine ⟨hall, hended'.symm, fun _ => ?_⟩
      rw [partialKeepTail_data hq, hrest, happend]
      rfl

/-- A read with no room for it behind what is kept ends the connection. -/
theorem receive_unkept {c : Framer} {received data more : List UInt8} (h : Follows c received)
    (hfit : RequestsFit (received ++ more)) (hroom : ¬ FitsBehind received data) : .unkept ∈ (c.receive data).frames := by
  rw [FitsBehind, not_or] at hroom
  obtain ⟨hkept, hover⟩ := hroom
  have hended : (readAll requestAt received).ended = false := by
    by_contra hcon
    rw [unfinished, if_pos (Bool.not_eq_false _ ▸ hcon)] at hkept
    exact hkept rfl
  have hgoes : c.stopped = false := h.stopped.trans hended
  have hsmall := requests.length_rest_le hfit.1 hfit.2 hended
  rw [← h.kept hgoes] at hsmall
  rw [h.unfinished hgoes] at hkept hover
  have hfull : partialAppend c.inBuf data true = none := by
    rw [← Option.not_isSome_iff_eq_none, partialAppend_isSome]
    rintro (hnil | hfits)
    · rw [hnil] at hover
      exact hover hsmall
    · exact hover hfits
  rw [Framer.receive, if_neg (by rw [hgoes]; decide)]
  simp only
  rw [if_pos (Nat.pos_of_ne_zero hkept), hfull]
  simp

/-! ## A stream cut into reads -/

theorem receive_frames_mono {c : Framer} {data : List UInt8} {frame : Framed}
    (h : frame ∈ c.frames) : frame ∈ (c.receive data).frames := by
  unfold Framer.receive
  split
  · exact h
  · simp only
    split
    · exact List.mem_append_left _ h
    · split
      · exact List.mem_append_left _ h
      · split
        · rw [List.append_assoc]
          exact List.mem_append_left _ h
        · exact List.mem_append_left _ h

/-- Every read of the stream has room behind what is kept of the bytes in front of it. -/
def ReadsFit (reads : List (List UInt8)) : Prop :=
  ∀ before read, before ++ [read] <+: reads → FitsBehind before.flatten read

theorem readsFit_concat {reads : List (List UInt8)} {read : List UInt8} :
    ReadsFit (reads ++ [read]) ↔ ReadsFit reads ∧ FitsBehind reads.flatten read := by
  constructor
  · intro h
    exact ⟨fun before r hr => h before r (hr.trans (List.prefix_append _ _)),
      h reads read (List.prefix_refl _)⟩
  · rintro ⟨hreads, hread⟩ before r hr
    rcases List.prefix_concat_iff.mp hr with heq | hr
    · obtain ⟨rfl, hsame⟩ := List.append_inj' heq rfl
      obtain rfl := List.singleton_inj.mp hsame
      exact hread
    · exact hreads before r hr

theorem follows_start : Follows {} [] where
  frames := rfl
  stopped := rfl
  kept _ := rfl

theorem run_follows {reads : List (List UInt8)} {more : List UInt8}
    (hfit : RequestsFit (reads.flatten ++ more)) :
    (ReadsFit reads → Follows (Framer.run reads) reads.flatten) ∧
      (¬ ReadsFit reads → .unkept ∈ (Framer.run reads).frames) := by
  induction reads using List.reverseRecOn generalizing more with
  | nil =>
    refine ⟨fun _ => follows_start, fun hcon => absurd ?_ hcon⟩
    intro before read hread
    simp at hread
  | append_singleton reads read ih =>
    rw [List.flatten_append, List.flatten_singleton] at hfit ⊢
    have ih := @ih (read ++ more) (by rwa [← List.append_assoc])
    rw [readsFit_concat, Framer.run, List.foldl_append, List.foldl_cons, List.foldl_nil]
    refine ⟨fun ⟨hreads, hread⟩ => receive_follows (ih.1 hreads) hfit hread, fun hover => ?_⟩
    by_cases hreads : ReadsFit reads
    · rw [List.append_assoc] at hfit
      exact receive_unkept (ih.1 hreads) hfit fun hread => hover ⟨hreads, hread⟩
    · exact receive_frames_mono (ih.2 hreads)

/-- What is found in a stream that arrives in reads is what is found in it as a whole, exactly where
every read fits behind what is kept; and what is said of a prefix stays said. -/
theorem run_frames_iff (reads : List (List UInt8)) (hfit : RequestsFit reads.flatten) :
    ((Framer.run reads).frames = framesOf reads.flatten ∧
      ∀ buf offset more, (nextFrame buf offset).1 ≠ .incomplete →
        nextFrame (buf ++ more) offset = nextFrame buf offset) ↔ ReadsFit reads := by
  rw [← List.append_nil reads.flatten] at hfit
  obtain ⟨hfollows, hunkept⟩ := run_follows hfit
  constructor
  · rintro ⟨hframes, _⟩
    by_contra hover
    have hmem := hunkept hover
    rw [hframes] at hmem
    exact unkept_notMem_framesOf _ hmem
  · intro hreads
    exact ⟨(hfollows hreads).frames, fun buf offset more h => nextFrame_append h more⟩

theorem run_frames_two :
    ((Framer.run [ascii "GET / HT", ascii "TP/1.1\r\n\r\nGET"]).frames =
        framesOf [ascii "GET / HT", ascii "TP/1.1\r\n\r\nGET"].flatten ∧
      ∀ buf offset more, (nextFrame buf offset).1 ≠ .incomplete →
        nextFrame (buf ++ more) offset = nextFrame buf offset) ↔
      ReadsFit [ascii "GET / HT", ascii "TP/1.1\r\n\r\nGET"] :=
  run_frames_iff [ascii "GET / HT", ascii "TP/1.1\r\n\r\nGET"] (by decide)

/-! ## A request of most of the cap with one behind it -/

theorem requestAt_header {header body : List UInt8} {bodyLength : Nat}
    (hend : findRequestHeaderEnd header = some header.length)
    (hbody : bodyLengthOf header = .ok bodyLength) :
    requestAt (header ++ body) =
      if body.length < bodyLength then none
      else some {
        value := .ready header.length bodyLength (frameKeepAlive header)
        extent := header.length + bodyLength
        ends := false } := by
  rw [requestAt, nextFrame_eq]
  simp only [List.drop_zero]
  rw [findRequestHeaderEnd_append hend]
  simp only [List.take_left, hbody, List.length_append, Nat.add_lt_add_iff_left]
  by_cases hshort : body.length < bodyLength
  · rw [if_pos hshort, if_pos hshort]
  · rw [if_neg hshort, if_neg hshort]

def longHeader : List UInt8 := ascii "PUT / HTTP/1.1\r\nContent-Length: 32000\r\n\r\n"

def shortHeader : List UInt8 := ascii "PUT / HTTP/1.1\r\nContent-Length: 1000\r\n\r\n"

/-- Receives of at most 2048 bytes: the one that ends the first request brings the second one. -/
def pipelinedReads : List (List UInt8) :=
  (longHeader ++ List.replicate 59 120) :: List.replicate 15 (List.replicate 2048 120) ++
    [List.replicate 1221 120 ++ (shortHeader ++ List.replicate 787 120), List.replicate 213 120]

theorem longHeader_end : findRequestHeaderEnd longHeader = some longHeader.length := by
  decide

theorem shortHeader_end : findRequestHeaderEnd shortHeader = some shortHeader.length := by
  decide

theorem longHeader_body : bodyLengthOf longHeader = .ok 32000 := by
  decide

theorem shortHeader_body : bodyLengthOf shortHeader = .ok 1000 := by
  decide

theorem pipelinedReads_flatten :
    pipelinedReads.flatten =
      longHeader ++ List.replicate 32000 120 ++ (shortHeader ++ List.replicate 1000 120) := by
  have hbody : List.replicate 32000 (120 : UInt8) =
      List.replicate 59 120 ++ (List.replicate 15 (List.replicate 2048 120)).flatten ++
        List.replicate 1221 120 := by
    rw [List.flatten_replicate_replicate, List.replicate_append_replicate,
      List.replicate_append_replicate]
  have hnext : List.replicate 1000 (120 : UInt8) =
      List.replicate 787 120 ++ List.replicate 213 120 := by
    rw [List.replicate_append_replicate]
  rw [hbody, hnext]
  simp only [pipelinedReads, List.flatten_append, List.flatten_cons, List.flatten_nil,
    List.append_nil, List.append_assoc]

theorem pipelinedReads_fit : RequestsFit pipelinedReads.flatten := by
  have hlong := @requestAt_header _ (List.replicate 32000 120) _ longHeader_end longHeader_body
  have hshort := @requestAt_header _ (List.replicate 1000 120) _ shortHeader_end shortHeader_body
  rw [List.length_replicate, if_neg (by decide)] at hlong hshort
  have hfirst := requests.append (shortHeader ++ List.replicate 1000 120) hlong
  have hdone : readAll requestAt ([] : List UInt8) = { rest := [] } := rfl
  have hdrop : (shortHeader ++ List.replicate 1000 (120 : UInt8)).drop
      (shortHeader.length + 1000) = [] := by
    apply List.drop_of_length_le
    rw [List.length_append, List.length_replicate]
  have hdropLong : (longHeader ++ List.replicate 32000 120 ++
      (shortHeader ++ List.replicate 1000 (120 : UInt8))).drop (longHeader.length + 32000) =
      shortHeader ++ List.replicate 1000 120 := by
    apply List.drop_left'
    rw [List.length_append, List.length_replicate]
  have hlengths : longHeader.length = 41 ∧ shortHeader.length = 40 := by decide
  rw [RequestsFit, pipelinedReads_flatten, requests.readAll_some hfirst]
  simp only [Bool.false_eq_true, if_false]
  rw [hdropLong, requests.readAll_some hshort]
  simp only [Bool.false_eq_true, if_false]
  rw [hdrop, hdone]
  refine ⟨fun i hi => ?_, fun _ => Nat.zero_le _⟩
  simp only [Found.behind, List.append_nil, List.singleton_append, List.mem_cons,
    List.not_mem_nil, or_false] at hi
  rcases hi with rfl | rfl
  · simp only [hlengths]
    decide
  · simp only [hlengths]
    decide

theorem pipelinedReads_over : ¬ ReadsFit pipelinedReads := by
  intro hfit
  set before := (longHeader ++ List.replicate 59 120) ::
    List.replicate 15 (List.replicate 2048 (120 : UInt8)) with hbefore
  have hreceived : before.flatten = longHeader ++ List.replicate 30779 120 := by
    rw [hbefore, List.flatten_cons, List.flatten_replicate_replicate, List.append_assoc,
      List.replicate_append_replicate]
  have hpart : requestAt before.flatten = none := by
    rw [hreceived, requestAt_header longHeader_end longHeader_body, if_pos]
    rw [List.length_replicate]
    decide
  have hlengths : longHeader.length = 41 ∧ shortHeader.length = 40 := by decide
  have hread := hfit before (List.replicate 1221 120 ++ (shortHeader ++ List.replicate 787 120))
    ⟨[List.replicate 213 120], by
      rw [List.append_assoc]
      rfl⟩
  rw [FitsBehind, unfinished, readAll, readFrom_none hpart, hreceived, if_neg (by decide)] at hread
  simp only [List.length_append, List.length_replicate, hlengths] at hread
  revert hread
  decide

theorem pipelinedReads_unkept :
    (∀ read ∈ pipelinedReads, read.length ≤ 2048) ∧ RequestsFit pipelinedReads.flatten ∧
      (Framer.run pipelinedReads).frames ≠ framesOf pipelinedReads.flatten := by
  have hlengths : longHeader.length = 41 ∧ shortHeader.length = 40 := by decide
  refine ⟨?_, pipelinedReads_fit, fun hframes => ?_⟩
  · intro read hread
    simp only [pipelinedReads, List.cons_append, List.mem_cons, List.mem_append,
      List.mem_replicate, List.not_mem_nil, or_false] at hread
    rcases hread with rfl | ⟨_, rfl⟩ | rfl | rfl
    all_goals simp only [List.length_append, List.length_replicate, hlengths]
    all_goals decide
  · have hfit := pipelinedReads_fit
    rw [← List.append_nil pipelinedReads.flatten] at hfit
    have hmem := (run_follows hfit).2 pipelinedReads_over
    rw [hframes] at hmem
    exact unkept_notMem_framesOf _ hmem

end AmmarServer.ApiProtocol
