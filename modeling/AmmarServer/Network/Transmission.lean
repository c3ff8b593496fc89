import Mathlib.Data.Nat.ModEq
import Mathlib.Tactic.Linarith

/-! Sending in `network/networkAbstraction.c` and `network/file_server.c`. A `send` takes as much of
what it is offered as the socket has room for, and fails where there is none. -/

namespace AmmarServer.Network

/-- How much each call of `send` finds room for. What it took is kept in an `int`. -/
structure Socket where
  room : ℕ → ℤ
  room_lt : ∀ i, room i < 2 ^ 31

/-- What a call of `ASRV_Send` is for. -/
inductive Part
  | header (text : List UInt8)
  | contentLength (text : List UInt8) (length : ℕ) (range : Option (ℕ × ℕ × ℕ))
  | body (bytes : List UInt8)
deriving DecidableEq, Repr

def Part.text : Part → List UInt8
  | .header text => text
  | .contentLength text _ _ => text
  | .body bytes => bytes

/-- What went out of a response: the calls made, the length and the range that were sent whole, and
the bytes of the body. -/
structure Transaction where
  calls : ℕ
  contentLength : Option ℕ
  contentRange : Option (ℕ × ℕ × ℕ)
  body : List UInt8
  keepalive : Bool
deriving DecidableEq, Repr

def Transaction.sent (t : Transaction) (part : Part) (taken : ℕ) : Transaction :=
  let t := { t with calls := t.calls + 1 }
  match part with
  | .header _ => t
  | .contentLength text length range =>
    if text.length ≤ taken then { t with contentLength := some length, contentRange := range }
    else t
  | .body bytes => { t with body := t.body ++ bytes.take taken }

variable (socket : Socket)

def asrvSend (t : Transaction) (part : Part) : ℤ × Transaction :=
  let opres := min (socket.room t.calls) part.text.length
  (opres, t.sent part opres.toNat)

def sendPart (t : Transaction) (part : Part) : Bool × Transaction :=
  let (opres, t) := asrvSend socket t part
  if opres ≤ 0 then (false, t)
  else if opres ≠ part.text.length then (false, t)
  else (true, t)

/-- The parts of a header one behind the other, up to the first that does not go out whole. -/
def sendParts (t : Transaction) : List Part → Bool × Transaction
  | [] => (true, t)
  | part :: parts =>
    match sendPart socket t part with
    | (false, t) => (false, t)
    | (true, t) => sendParts t parts

def MAX_TRANSMISSION_STALL : ℕ := 1
def MAX_FILE_READ_BLOCK_KB : ℕ := 1024

/-- Subtraction of `unsigned long` values. -/
def subULong (a b : ℕ) : ℕ := (a + 2 ^ 64 - b) % 2 ^ 64

/-- The inner loop, over what was read into the buffer. It answers whether the transmission stops,
and what is left of `bytesToSend`. -/
def sendChunk : ℕ → ℕ → List UInt8 → ℕ → Transaction → Bool × ℕ × Transaction
  | 0, _, _, bytesToSend, t => (false, bytesToSend, t)
  | fuel + 1, currentStalling, chunkToSend, bytesToSend, t =>
    if chunkToSend = [] then (false, bytesToSend, t)
    else
      let (opres, t) := asrvSend socket t (.body chunkToSend)
      if opres < 0 then (true, bytesToSend, t)
      else if opres = 0 then
        if MAX_TRANSMISSION_STALL ≤ currentStalling + 1 then (true, bytesToSend, t)
        else sendChunk fuel (currentStalling + 1) chunkToSend bytesToSend t
      else
        sendChunk fuel currentStalling (chunkToSend.drop opres.toNat)
          (subULong bytesToSend opres.toNat) t

/-- The outer loop, over the rest of the file. -/
def transmitLoop (malloc_size : ℕ) : ℕ → List UInt8 → ℕ → Transaction → Bool × Transaction
  | 0, _, _, t => (false, t)
  | fuel + 1, rest, bytesToSend, t =>
    if bytesToSend = 0 then (true, t)
    else if rest.take malloc_size = [] then (false, t)
    else
      match sendChunk socket ((rest.take malloc_size).length + MAX_TRANSMISSION_STALL) 0
          (rest.take malloc_size) bytesToSend t with
      -- a transmission that stops is answered like one that is through
      | (true, _, t) => (true, t)
      | (false, bytesToSend, t) => transmitLoop malloc_size fuel (rest.drop malloc_size) bytesToSend t

def mallocSize (bytesToSendStart : ℕ) : ℕ := min (MAX_FILE_READ_BLOCK_KB * 1024) bytesToSendStart

def transmitFileToSocketInternal (t : Transaction) (rest : List UInt8) (bytesToSendStart : ℕ) :
    Bool × Transaction :=
  if bytesToSendStart = 0 then (true, t)
  else
    transmitLoop socket (mallocSize bytesToSendStart) (rest.length + 1) rest bytesToSendStart t

/-- Where the block ends that the stream is in behind its first `T` bytes. -/
def blockEnd (malloc_size size T : ℕ) : ℕ := min ((T / malloc_size + 1) * malloc_size) size

/-- Of a stream that is sent in blocks up to `stop`, from the `i`th call and the `T`th byte on, a
send fails behind `T'` bytes. -/
inductive Interrupted (room : ℕ → ℤ) (malloc_size size stop : ℕ) : ℕ → ℕ → ℕ → Prop
  | here {i T : ℕ} (hlt : T < stop) (hfails : room i ≤ 0) :
      Interrupted room malloc_size size stop i T T
  | later {i T T' : ℕ} (hlt : T < stop) (hroom : 0 < room i)
      (h : Interrupted room malloc_size size stop (i + 1)
        (T + (min (room i) (blockEnd malloc_size size T - T : ℕ)).toNat) T') :
      Interrupted room malloc_size size stop i T T'

variable {socket} {malloc_size size stop : ℕ}

namespace Interrupted
variable {room : ℕ → ℤ} {i T T' : ℕ}

theorem lt (h : Interrupted room malloc_size size stop i T T') : T' < stop := by
  induction h with
  | here hlt _ => exact hlt
  | later _ _ _ ih => exact ih

theorem le (h : Interrupted room malloc_size size stop i T T') : T ≤ T' := by
  induction h with
  | here _ _ => exact le_rfl
  | later _ _ _ ih => exact (Nat.le_add_right _ _).trans ih

theorem iff_of_fails (hlt : T < stop) (hfails : room i ≤ 0) :
    Interrupted room malloc_size size stop i T T' ↔ T' = T := by
  constructor
  · intro h
    cases h with
    | here => rfl
    | later _ hroom _ => exact absurd hfails (not_le.mpr hroom)
  · rintro rfl
    exact .here hlt hfails

theorem iff_of_room (hlt : T < stop) (hroom : 0 < room i) :
    Interrupted room malloc_size size stop i T T' ↔
      Interrupted room malloc_size size stop (i + 1)
        (T + (min (room i) (blockEnd malloc_size size T - T : ℕ)).toNat) T' := by
  constructor
  · intro h
    cases h with
    | here _ hfails => exact absurd hfails (not_le.mpr hroom)
    | later _ _ h => exact h
  · exact .later hlt hroom

end Interrupted

/-- The calls and the body of a transaction, and nothing else. -/
def Transaction.went (t : Transaction) (calls : ℕ) (bytes : List UInt8) : Transaction :=
  { t with calls := t.calls + calls, body := t.body ++ bytes }

theorem asrvSend_body (t : Transaction) (bytes : List UInt8) :
    asrvSend socket t (.body bytes) =
      (min (socket.room t.calls) bytes.length,
        t.went 1 (bytes.take (min (socket.room t.calls) (bytes.length : ℤ)).toNat)) := rfl

theorem went_went (t : Transaction) (m n : ℕ) (bytes bytes' : List UInt8) :
    (t.went m bytes).went n bytes' = t.went (m + n) (bytes ++ bytes') := by
  unfold Transaction.went
  simp only [Nat.add_assoc, List.append_assoc]

theorem subULong_zero {a : ℕ} (ha : a < 2 ^ 64) : subULong a 0 = a := by
  unfold subULong
  omega

theorem subULong_subULong {a b c : ℕ} (h : b + c ≤ 2 ^ 64) :
    subULong (subULong a b) c = subULong a (b + c) := by
  unfold subULong
  omega

theorem subULong_lt (a b : ℕ) : subULong a b < 2 ^ 64 := Nat.mod_lt _ (Nat.two_pow_pos 64)

/-- The bytes of the stream from `T` up to `T'`. -/
def slice (rest : List UInt8) (T T' : ℕ) : List UInt8 := (rest.drop T).take (T' - T)

theorem slice_self (rest : List UInt8) (T : ℕ) : slice rest T T = [] := by
  unfold slice
  rw [Nat.sub_self, List.take_zero]

theorem slice_append {rest : List UInt8} {T T' T'' : ℕ} (h : T ≤ T') (h' : T' ≤ T'') :
    slice rest T T' ++ slice rest T' T'' = slice rest T T'' := by
  unfold slice
  have hsplit : T'' - T = (T' - T) + (T'' - T') := by omega
  rw [hsplit, List.take_add, List.drop_drop, Nat.add_sub_cancel' h]

theorem length_slice {rest : List UInt8} {T T' : ℕ} (h : T' ≤ rest.length) :
    (slice rest T T').length = T' - T := by
  unfold slice
  rw [List.length_take, List.length_drop]
  omega

theorem drop_slice {rest : List UInt8} (T T' n : ℕ) :
    (slice rest T T').drop n = slice rest (T + n) T' := by
  unfold slice
  rw [List.drop_take, List.drop_drop, Nat.sub_sub]

theorem take_slice {rest : List UInt8} {T T' n : ℕ} (h : T + n ≤ T') :
    (slice rest T T').take n = slice rest T (T + n) := by
  unfold slice
  rw [List.take_take, Nat.add_sub_cancel_left, Nat.min_eq_left (Nat.le_sub_of_add_le' h)]

/-- One block, up to `E`: either a send fails within it, or the block goes out. -/
theorem sendChunk_spec {rest : List UInt8} {E : ℕ} (hstop : E ≤ stop) (hE : E ≤ rest.length)
    (hsize : rest.length ≤ 2 ^ 64) {fuel stalling T bytesToSend : ℕ} {t : Transaction} (hT : T ≤ E)
    (hblock : ∀ T', T ≤ T' → T' < E → blockEnd malloc_size rest.length T' = E)
    (hfuel : E - T + 1 ≤ fuel) (hbytes : bytesToSend < 2 ^ 64) :
    (∃ n T' left, T ≤ T' ∧
      (∀ T'', Interrupted socket.room malloc_size rest.length stop t.calls T T'' ↔ T'' = T') ∧
      sendChunk socket fuel stalling (slice rest T E) bytesToSend t =
        (true, left, t.went n (slice rest T T'))) ∨
    ∃ n, (∀ T'', Interrupted socket.room malloc_size rest.length stop t.calls T T'' ↔
        Interrupted socket.room malloc_size rest.length stop (t.calls + n) E T'') ∧
      sendChunk socket fuel stalling (slice rest T E) bytesToSend t =
        (false, subULong bytesToSend (E - T), t.went n (slice rest T E)) := by
  induction fuel generalizing T bytesToSend t with
  | zero => omega
  | succ fuel ih =>
    unfold sendChunk
    rcases hT.lt_or_eq with hlt | rfl
    · have hlength := @length_slice rest T E hE
      have hne : slice rest T E ≠ [] := by
        intro hnil
        rw [hnil, List.length_nil] at hlength
        omega
      rw [if_neg hne, asrvSend_body, hlength]
      rcases le_or_gt (socket.room t.calls) 0 with hfails | hroom
      · -- an error and a stall both stop the transmission
        refine .inl ⟨1, T, bytesToSend, le_rfl,
          fun T'' => Interrupted.iff_of_fails (hlt.trans_le hstop) hfails, ?_⟩
        have hnothing : (min (socket.room t.calls) ((E - T : ℕ) : ℤ)).toNat = 0 := by omega
        rw [hnothing, List.take_zero, slice_self]
        simp only
        split
        · rfl
        · have hstalls : MAX_TRANSMISSION_STALL ≤ stalling + 1 := Nat.le_add_left 1 stalling
          rw [if_pos (by omega), if_pos hstalls]
      · obtain ⟨d, hd⟩ : ∃ d : ℕ, min (socket.room t.calls) ((E - T : ℕ) : ℤ) = d :=
          ⟨_, (Int.toNat_of_nonneg (by omega)).symm⟩
        have hnext : T + d ≤ E := by omega
        have hiff : ∀ T'', Interrupted socket.room malloc_size rest.length stop t.calls T T'' ↔
            Interrupted socket.room malloc_size rest.length stop (t.calls + 1) (T + d) T'' := by
          intro T''
          have := @Interrupted.iff_of_room malloc_size rest.length stop socket.room t.calls T T''
            (hlt.trans_le hstop) hroom
          rwa [hblock T le_rfl hlt, hd, Int.toNat_natCast] at this
        simp only [hd, Int.toNat_natCast]
        rw [if_neg (by omega), if_neg (by omega), take_slice hnext, drop_slice]
        rcases @ih (T + d) (subULong bytesToSend d) (t.went 1 (slice rest T (T + d))) hnext
            (fun T' hle => hblock T' ((Nat.le_add_right _ _).trans hle)) (by omega)
            (subULong_lt _ _) with
          ⟨n, T', left, hle, honly, hsent⟩ | ⟨n, hrest, hsent⟩
        · refine .inl ⟨1 + n, T', left, (Nat.le_add_right _ _).trans hle, fun T'' => ?_, ?_⟩
          · rw [hiff]
            exact honly T''
          · rw [hsent, went_went, slice_append (Nat.le_add_right _ _) hle]
        · refine .inr ⟨1 + n, fun T'' => ?_, ?_⟩
          · rw [hiff, ← Nat.add_assoc]
            exact hrest T''
          · rw [hsent, went_went, slice_append (Nat.le_add_right _ _) hnext,
              subULong_subULong (by omega)]
            rw [show d + (E - (T + d)) = E - T by omega]
    · refine .inr ⟨0, fun T'' => Iff.rfl, ?_⟩
      rw [slice_self, if_pos rfl, Nat.sub_self, subULong_zero hbytes]
      simp [Transaction.went]

/-- Where the loop over a file of `size` bytes ends that has `bytesToSend` bytes to send: a count
that is not made up of whole blocks is only met at the end of the file. -/
def streamEnd (malloc_size size bytesToSend : ℕ) : ℕ :=
  if malloc_size ∣ bytesToSend then bytesToSend else size

theorem streamEnd_le {bytesToSend : ℕ} (h : bytesToSend ≤ size) :
    streamEnd malloc_size size bytesToSend ≤ size := by
  unfold streamEnd
  split
  · exact h
  · exact le_rfl

theorem streamEnd_cases {bytesToSend : ℕ} (hstop : stop = streamEnd malloc_size size bytesToSend) :
    malloc_size ∣ stop ∨ stop = size := by
  unfold streamEnd at hstop
  split at hstop
  · rename_i hdvd
    exact .inl (hstop ▸ hdvd)
  · exact .inr hstop

theorem blockEnd_eq (hM : 0 < malloc_size) {T T' : ℕ} (hT : malloc_size ∣ T) (hle : T ≤ T')
    (hlt : T' < blockEnd malloc_size size T) :
    blockEnd malloc_size size T' = blockEnd malloc_size size T := by
  obtain ⟨k, rfl⟩ := hT
  unfold blockEnd at hlt ⊢
  rw [Nat.mul_div_cancel_left k hM] at hlt ⊢
  have hk : T' / malloc_size = k := by
    apply Nat.div_eq_of_lt_le
    · rwa [Nat.mul_comm]
    · exact hlt.trans_le (min_le_left _ _)
  rw [hk]

theorem transmitLoop_spec {rest : List UInt8} (hM : 0 < malloc_size) {bytesToSend : ℕ}
    (hbytes : bytesToSend ≤ rest.length) (hsize : rest.length < 2 ^ 64)
    (hstop : stop = streamEnd malloc_size rest.length bytesToSend) {fuel T : ℕ} {t : Transaction}
    (hT : T ≤ stop) (hboundary : T = stop ∨ malloc_size ∣ T) (hfuel : rest.length - T + 1 ≤ fuel) :
    (∃ n T', T ≤ T' ∧
      (∀ T'', Interrupted socket.room malloc_size rest.length stop t.calls T T'' ↔ T'' = T') ∧
      transmitLoop socket malloc_size fuel (rest.drop T) (subULong bytesToSend T) t =
        (true, t.went n (slice rest T T'))) ∨
    (∀ T'', ¬ Interrupted socket.room malloc_size rest.length stop t.calls T T'') ∧
      ∃ n, transmitLoop socket malloc_size fuel (rest.drop T) (subULong bytesToSend T) t =
        (decide (stop = bytesToSend), t.went n (slice rest T stop)) := by
  induction fuel generalizing T t with
  | zero => omega
  | succ fuel ih =>
    have hle : stop ≤ rest.length := by
      rw [hstop]
      exact streamEnd_le hbytes
    unfold transmitLoop
    rcases hT.lt_or_eq with hlt | rfl
    · have hdvd : malloc_size ∣ T := hboundary.resolve_left hlt.ne
      have hne : T ≠ bytesToSend := by
        rintro rfl
        rw [streamEnd, if_pos hdvd] at hstop
        exact hlt.ne hstop.symm
      obtain ⟨E, hE⟩ : ∃ E, blockEnd malloc_size rest.length T = E := ⟨_, rfl⟩
      have hEmin : E = min (T + malloc_size) rest.length := by
        obtain ⟨k, rfl⟩ := hdvd
        rw [← hE, blockEnd, Nat.mul_div_cancel_left k hM, Nat.add_one_mul, Nat.mul_comm k]
      have hEstop : E ≤ stop := by
        rw [hEmin]
        rcases streamEnd_cases hstop with hend | hend
        · -- both ends are multiples of the block size
          obtain ⟨k, rfl⟩ := hdvd
          obtain ⟨j, rfl⟩ := hend
          have hkj : k < j := lt_of_mul_lt_mul_left hlt (Nat.zero_le _)
          refine (min_le_left _ _).trans ?_
          rw [← Nat.mul_succ]
          exact Nat.mul_le_mul_left _ hkj
        · rw [hend]
          exact min_le_right _ _
      have htake : (rest.drop T).take malloc_size = slice rest T E := by
        unfold slice
        rw [hEmin, List.take_eq_take_iff, List.length_drop]
        omega
      have hdrop : (rest.drop T).drop malloc_size = rest.drop E := by
        rw [List.drop_drop, hEmin]
        rcases le_total (T + malloc_size) rest.length with hin | hover
        · rw [min_eq_left hin]
        · rw [min_eq_right hover, List.drop_length, List.drop_eq_nil_of_le hover]
      have hlength := @length_slice rest T E (hEstop.trans hle)
      have hTE : T < E := by omega
      have hchunk : slice rest T E ≠ [] := by
        intro hnil
        rw [hnil, List.length_nil] at hlength
        omega
      have hleft : subULong bytesToSend T ≠ 0 := by
        unfold subULong
        omega
      rw [if_neg hleft, htake, if_neg hchunk, hlength, hdrop]
      rcases @sendChunk_spec socket malloc_size stop rest E hEstop (hEstop.trans hle) hsize.le
          (E - T + MAX_TRANSMISSION_STALL) 0 T (subULong bytesToSend T) t hTE.le
          (fun T' hle' hlt' => hE ▸ blockEnd_eq hM hdvd hle' (hE ▸ hlt')) le_rfl
          (subULong_lt _ _) with
        ⟨n, T', left, hle', honly, hsent⟩ | ⟨n, hrest, hsent⟩
      · rw [hsent]
        exact .inl ⟨n, T', hle', honly, rfl⟩
      · rw [hsent, subULong_subULong (by omega), Nat.add_sub_cancel' hTE.le]
        have hboundary' : E = stop ∨ malloc_size ∣ E := by
          rcases le_total (T + malloc_size) rest.length with hin | hover
          · rw [hEmin, min_eq_left hin]
            exact .inr (Nat.dvd_add hdvd (dvd_refl _))
          · rw [min_eq_right hover] at hEmin
            exact .inl (hEstop.antisymm (hEmin ▸ hle))
        rcases @ih E (t.went n (slice rest T E)) hEstop hboundary' (by omega) with
          ⟨m, T', hle', honly, hloop⟩ | ⟨hnone, m, hloop⟩
        · refine .inl ⟨n + m, T', hTE.le.trans hle', fun T'' => (hrest T'').trans (honly T''), ?_⟩
          simp only
          rw [hloop, went_went, slice_append hTE.le hle']
        · refine .inr ⟨fun T'' h => hnone T'' ((hrest T'').mp h), n + m, ?_⟩
          simp only
          rw [hloop, went_went, slice_append hTE.le hEstop]
    · -- the stream is at its end
      refine .inr ⟨fun T'' h => absurd h.le (not_le.mpr h.lt), 0, ?_⟩
      have hsame : t.went 0 (slice rest T T) = t := by
        rw [slice_self]
        simp [Transaction.went]
      rw [hsame]
      by_cases hend : T = bytesToSend
      · rw [decide_eq_true hend, if_pos]
        rw [hend]
        unfold subULong
        omega
      · have hsize' : T = rest.length := by
          rw [hstop] at hend ⊢
          unfold streamEnd at hend ⊢
          split
          · rename_i hdvd
            rw [if_pos hdvd] at hend
            exact absurd rfl hend
          · rfl
        have hleft : subULong bytesToSend T ≠ 0 := by
          unfold subULong
          omega
        rw [decide_eq_false hend, if_neg hleft, if_pos]
        rw [hsize', List.drop_length, List.take_nil]

/-- A send fails while `bytesToSend` bytes of a file are streamed, when `T` bytes of the stream are
out. -/
def FailsBehind (room : ℕ → ℤ) (size bytesToSend call T : ℕ) : Prop :=
  Interrupted room (mallocSize bytesToSend) size
    (streamEnd (mallocSize bytesToSend) size bytesToSend) call 0 T

/-- Whether or not a send fails, what goes out is the front of the stream. It is all that was asked
for where the stream ends with that, and is answered with success also where a send fails. -/
theorem transmitFileToSocketInternal_spec {rest : List UInt8} {bytesToSend : ℕ}
    (hpos : 0 < bytesToSend) (hbytes : bytesToSend ≤ rest.length) (hsize : rest.length < 2 ^ 64)
    (t : Transaction) :
    (∃ n T, (∀ T', FailsBehind socket.room rest.length bytesToSend t.calls T' ↔ T' = T) ∧
      transmitFileToSocketInternal socket t rest bytesToSend = (true, t.went n (rest.take T))) ∨
    (∀ T, ¬ FailsBehind socket.room rest.length bytesToSend t.calls T) ∧
      ∃ n, transmitFileToSocketInternal socket t rest bytesToSend =
        (decide (streamEnd (mallocSize bytesToSend) rest.length bytesToSend = bytesToSend),
          t.went n (rest.take (streamEnd (mallocSize bytesToSend) rest.length bytesToSend))) := by
  have hM : 0 < mallocSize bytesToSend := lt_min (by decide) hpos
  have htake : ∀ T, slice rest 0 T = rest.take T := fun T => rfl
  have hsub := subULong_zero (hbytes.trans_lt hsize)
  unfold transmitFileToSocketInternal
  rw [if_neg hpos.ne']
  rcases @transmitLoop_spec socket (mallocSize bytesToSend) _ rest hM bytesToSend hbytes hsize rfl
      (rest.length + 1) 0 t (Nat.zero_le _) (.inr (dvd_zero _)) le_rfl with
    ⟨n, T, -, honly, hloop⟩ | ⟨hnone, n, hloop⟩
  · rw [List.drop_zero, hsub, htake] at hloop
    exact .inl ⟨n, T, honly, hloop⟩
  · rw [List.drop_zero, hsub, htake] at hloop
    exact .inr ⟨hnone, n, hloop⟩

end AmmarServer.Network
