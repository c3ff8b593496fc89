import AmmarServer.Network.FileServer

/-! A slice of a file is streamed while every `send` takes something. -/

namespace AmmarServer.Network

variable (socket : Socket)

/-- No `send` of the inner loop takes more than there is left to send, so that `bytesToSend -= opres`
does not go below zero. -/
def ChunkCounts : ℕ → ℕ → List UInt8 → ℕ → Transaction → Prop
  | 0, _, _, _, _ => True
  | fuel + 1, currentStalling, chunkToSend, bytesToSend, t =>
    if chunkToSend = [] then True
    else
      let (opres, t) := asrvSend socket t (.body chunkToSend)
      if opres < 0 then True
      else if opres = 0 then
        if MAX_TRANSMISSION_STALL ≤ currentStalling + 1 then True
        else ChunkCounts fuel (currentStalling + 1) chunkToSend bytesToSend t
      else
        opres.toNat ≤ bytesToSend ∧
          ChunkCounts fuel currentStalling (chunkToSend.drop opres.toNat)
            (subULong bytesToSend opres.toNat) t

def LoopCounts (malloc_size : ℕ) : ℕ → List UInt8 → ℕ → Transaction → Prop
  | 0, _, _, _ => True
  | fuel + 1, rest, bytesToSend, t =>
    if bytesToSend = 0 then True
    else if rest.take malloc_size = [] then True
    else
      ChunkCounts socket ((rest.take malloc_size).length + MAX_TRANSMISSION_STALL) 0
          (rest.take malloc_size) bytesToSend t ∧
        match sendChunk socket ((rest.take malloc_size).length + MAX_TRANSMISSION_STALL) 0
          (rest.take malloc_size) bytesToSend t with
        | (true, _, _) => True
        | (false, bytesToSend, t) => LoopCounts malloc_size fuel (rest.drop malloc_size) bytesToSend t

/-- `bytesToSend` never goes below zero while the slice is streamed. -/
def Counts (t : Transaction) (file : DiskFile) (offset byteCount : ℕ) : Prop :=
  file.opens = true → byteCount ≠ 0 →
    LoopCounts socket (mallocSize byteCount) ((file.bytes.drop offset).length + 1)
      (file.bytes.drop offset) byteCount t

/-- What is answered with success is the slice, and the count of what is left holds throughout. -/
def SendsSlice (t : Transaction) (file : DiskFile) (offset byteCount : ℕ) : Prop :=
  ((transmitFileBodyToSocket socket t file offset byteCount).1 = true →
    (transmitFileBodyToSocket socket t file offset byteCount).2.body =
      t.body ++ (file.bytes.drop offset).take byteCount) ∧
  Counts socket t file offset byteCount

variable {socket} {t : Transaction} {malloc_size : ℕ}

theorem subULong_of_le {a b : ℕ} (h : b ≤ a) (ha : a < 2 ^ 64) : subULong a b = a - b := by
  unfold subULong
  omega

/-- What one `send` takes that takes something. -/
theorem asrvSend_takes (hroom : ∀ i, 0 < socket.room i) {chunk : List UInt8} (hne : chunk ≠ []) :
    ∃ d : ℕ, 0 < d ∧ d ≤ chunk.length ∧
      asrvSend socket t (.body chunk) = ((d : ℤ), t.went 1 (chunk.take d)) := by
  have hlength := List.length_pos_iff.mpr hne
  have hpos := hroom t.calls
  refine ⟨(min (socket.room t.calls) (chunk.length : ℤ)).toNat, by omega, by omega, ?_⟩
  rw [asrvSend_body, Int.toNat_of_nonneg (by omega)]

theorem sendChunk_all (hroom : ∀ i, 0 < socket.room i) {fuel stalling bytesToSend : ℕ}
    {chunk : List UInt8} (hfuel : chunk.length < fuel) (hbytes : bytesToSend < 2 ^ 64)
    (hchunk : chunk.length < 2 ^ 64) :
    (∃ n, sendChunk socket fuel stalling chunk bytesToSend t =
      (false, subULong bytesToSend chunk.length, t.went n chunk)) ∧
    (ChunkCounts socket fuel stalling chunk bytesToSend t ↔ chunk.length ≤ bytesToSend) := by
  induction fuel generalizing chunk bytesToSend t with
  | zero => exact absurd hfuel (Nat.not_lt_zero _)
  | succ fuel ih =>
    unfold sendChunk ChunkCounts
    rcases eq_or_ne chunk [] with rfl | hne
    · rw [if_pos rfl, if_pos rfl]
      refine ⟨⟨0, ?_⟩, iff_of_true trivial (Nat.zero_le _)⟩
      rw [List.length_nil, subULong_zero hbytes]
      simp [Transaction.went]
    · obtain ⟨d, hpos, hle, hsend⟩ := @asrvSend_takes socket t hroom chunk hne
      have hneg : ¬ (d : ℤ) < 0 := Int.not_lt.mpr (Int.natCast_nonneg d)
      have hzero : ¬ (d : ℤ) = 0 := Int.natCast_ne_zero.mpr hpos.ne'
      rw [if_neg hne, if_neg hne, hsend]
      dsimp only
      rw [if_neg hneg, if_neg hneg, if_neg hzero, if_neg hzero, Int.toNat_natCast]
      have hrest : (chunk.drop d).length = chunk.length - d := List.length_drop
      obtain ⟨⟨n, hsent⟩, hcounts⟩ := @ih (t.went 1 (chunk.take d)) (subULong bytesToSend d)
        (chunk.drop d) (by omega) (subULong_lt _ _) (by omega)
      constructor
      · refine ⟨1 + n, ?_⟩
        rw [hsent, went_went, List.take_append_drop, hrest, subULong_subULong (by omega),
          Nat.add_sub_cancel' hle]
      · rw [hcounts, hrest]
        constructor
        · rintro ⟨hd, hmore⟩
          rw [subULong_of_le hd hbytes] at hmore
          omega
        · intro hall
          rw [subULong_of_le (hle.trans hall) hbytes]
          omega

theorem transmitLoop_all (hroom : ∀ i, 0 < socket.room i) (hM : 0 < malloc_size)
    {rest : List UInt8} (hsize : rest.length < 2 ^ 64) {fuel bytesToSend : ℕ}
    (hbytes : bytesToSend ≤ rest.length) (hfuel : rest.length < fuel) :
    (LoopCounts socket malloc_size fuel rest bytesToSend t ↔
      malloc_size ∣ bytesToSend ∨ bytesToSend = rest.length) ∧
    (LoopCounts socket malloc_size fuel rest bytesToSend t →
      ∃ n, transmitLoop socket malloc_size fuel rest bytesToSend t =
        (true, t.went n (rest.take bytesToSend))) := by
  induction fuel generalizing rest bytesToSend t with
  | zero => exact absurd hfuel (Nat.not_lt_zero _)
  | succ fuel ih =>
    unfold LoopCounts transmitLoop
    rcases Nat.eq_zero_or_pos bytesToSend with rfl | hpos
    · rw [if_pos rfl, if_pos rfl]
      refine ⟨iff_of_true trivial (.inl (dvd_zero _)), fun _ => ⟨0, ?_⟩⟩
      simp [Transaction.went]
    have hblock : (rest.take malloc_size).length = min malloc_size rest.length := List.length_take
    have hne : rest.take malloc_size ≠ [] := by
      refine List.ne_nil_of_length_pos ?_
      rw [hblock]
      exact lt_min hM (hpos.trans_le hbytes)
    obtain ⟨⟨n, hsent⟩, hcounts⟩ := @sendChunk_all socket t hroom
      ((rest.take malloc_size).length + MAX_TRANSMISSION_STALL) 0 bytesToSend
      (rest.take malloc_size) (Nat.lt_succ_self _) (hbytes.trans_lt hsize)
      (by rw [hblock]; exact (min_le_right _ _).trans_lt hsize)
    rw [if_neg hpos.ne', if_neg hpos.ne', if_neg hne, if_neg hne, hcounts, hsent]
    dsimp only
    rcases le_or_gt malloc_size bytesToSend with hfull | hshort
    · have hmin : (rest.take malloc_size).length = malloc_size := by
        rw [hblock, min_eq_left (hfull.trans hbytes)]
      rw [hmin, subULong_of_le hfull (hbytes.trans_lt hsize)]
      have hdrop : (rest.drop malloc_size).length = rest.length - malloc_size := List.length_drop
      obtain ⟨hloop, hthrough⟩ := @ih (t.went n (rest.take malloc_size)) (rest.drop malloc_size)
        (by omega) (bytesToSend - malloc_size) (by omega) (by omega)
      have hdvd : malloc_size ∣ bytesToSend - malloc_size ↔ malloc_size ∣ bytesToSend :=
        Nat.dvd_sub_self_right.trans
          (or_iff_left_of_imp fun h => (hfull.antisymm h) ▸ dvd_refl malloc_size)
      constructor
      · rw [hloop, hdvd, hdrop]
        constructor
        · rintro ⟨-, h⟩
          exact h.imp_right fun h => by omega
        · exact fun h => ⟨hfull, h.imp_right fun h => by omega⟩
      · rintro ⟨-, h⟩
        obtain ⟨m, hsent⟩ := hthrough h
        refine ⟨n + m, ?_⟩
        rw [hsent, went_went, ← List.take_add, Nat.add_sub_cancel' hfull]
    · have hndvd : ¬ malloc_size ∣ bytesToSend := Nat.not_dvd_of_pos_of_lt hpos hshort
      have hend : (rest.take malloc_size).length ≤ bytesToSend ↔ bytesToSend = rest.length := by
        rw [hblock]
        omega
      rw [hend]
      have hlast : bytesToSend = rest.length →
          subULong bytesToSend (rest.take malloc_size).length = 0 ∧ rest.drop malloc_size = [] ∧
            rest.take malloc_size = rest.take bytesToSend := by
        intro heq
        refine ⟨?_, List.drop_eq_nil_of_le (heq ▸ hshort.le), ?_⟩
        · rw [subULong_of_le (hend.mpr heq) (hbytes.trans_lt hsize), hblock]
          omega
        · rw [List.take_of_length_le (heq ▸ hshort.le), List.take_of_length_le heq.ge]
      have hnothing : 0 < fuel := by omega
      constructor
      · constructor
        · exact fun h => .inr h.1
        · rintro (hcon | heq)
          · exact absurd hcon hndvd
          · obtain ⟨hzero, hnil, -⟩ := hlast heq
            rw [hzero, hnil]
            exact ⟨heq, (@ih (t.went n (rest.take malloc_size)) [] (by decide) 0 le_rfl
              hnothing).1.mpr (.inl (dvd_zero _))⟩
      · rintro ⟨heq, hcounted⟩
        obtain ⟨hzero, hnil, htake⟩ := hlast heq
        rw [hzero, hnil] at hcounted ⊢
        obtain ⟨m, hsent⟩ := (@ih (t.went n (rest.take malloc_size)) [] (by decide) 0 le_rfl
          hnothing).2 hcounted
        refine ⟨n + m, ?_⟩
        rw [hsent, went_went, htake, List.take_nil, List.append_nil]

/-- A slice within one block, of whole blocks, or up to the end of the file. -/
def WholeBlocks (file : DiskFile) (offset byteCount : ℕ) : Prop :=
  byteCount ≤ MAX_FILE_READ_BLOCK_KB * 1024 ∨ MAX_FILE_READ_BLOCK_KB * 1024 ∣ byteCount ∨
    offset + byteCount = file.bytes.length

theorem counts_iff (hroom : ∀ i, 0 < socket.room i) (t : Transaction) {file : DiskFile}
    {offset byteCount : ℕ} (hfits : offset + byteCount ≤ file.bytes.length) :
    Counts socket t file offset byteCount ↔
      (file.opens = true → WholeBlocks file offset byteCount) := by
  have hlength : (file.bytes.drop offset).length = file.bytes.length - offset := List.length_drop
  have hsize := file.size_lt
  unfold Counts
  refine imp_congr_right fun _ => ?_
  rcases Nat.eq_zero_or_pos byteCount with rfl | hpos
  · exact iff_of_true (fun hcon => absurd rfl hcon) (.inl (Nat.zero_le _))
  have hblock : mallocSize byteCount ∣ byteCount ↔
      byteCount ≤ MAX_FILE_READ_BLOCK_KB * 1024 ∨ MAX_FILE_READ_BLOCK_KB * 1024 ∣ byteCount := by
    unfold mallocSize
    rcases le_total byteCount (MAX_FILE_READ_BLOCK_KB * 1024) with hle | hle
    · rw [min_eq_right hle]
      exact iff_of_true (dvd_refl _) (.inl hle)
    · rw [min_eq_left hle]
      exact ⟨.inr, fun h => h.elim (fun h => hle.antisymm h ▸ dvd_refl _) id⟩
  have hloop := (@transmitLoop_all socket t (mallocSize byteCount) hroom (lt_min (by decide) hpos)
    (file.bytes.drop offset) (by omega) _ byteCount (by omega) (Nat.lt_succ_self _)).1
  rw [forall_prop_of_true hpos.ne', hloop, hblock, or_assoc, hlength]
  unfold WholeBlocks
  refine or_congr_right (or_congr_right ?_)
  omega

/-- The slice goes out and nothing of the file behind it, where it ends with a block or the file. -/
theorem sendsSlice_iff (hroom : ∀ i, 0 < socket.room i) (t : Transaction) {file : DiskFile}
    {offset byteCount : ℕ} (hfits : offset + byteCount ≤ file.bytes.length) :
    SendsSlice socket t file offset byteCount ↔
      (file.opens = true → WholeBlocks file offset byteCount) := by
  rw [← counts_iff hroom t hfits]
  refine and_iff_right_of_imp fun hcounts hanswer => ?_
  have hsize := file.size_lt
  have hlength : (file.bytes.drop offset).length = file.bytes.length - offset := List.length_drop
  unfold transmitFileBodyToSocket at hanswer ⊢
  split_ifs at hanswer ⊢ with hzero hclosed
  · rw [hzero, List.take_zero, List.append_nil]
  · unfold Counts at hcounts
    have hopens : file.opens = true := by simpa using hclosed
    obtain ⟨n, hsent⟩ := (@transmitLoop_all socket t (mallocSize byteCount) hroom
      (lt_min (by decide) (Nat.pos_of_ne_zero hzero)) (file.bytes.drop offset) (by omega) _ byteCount
      (by omega) (Nat.lt_succ_self _)).2 (hcounts hopens hzero)
    unfold transmitFileToSocketInternal
    rw [if_neg hzero, hsent]
    rfl

/-! A file is sent as fast as it is read. -/

def willing : Socket := ⟨fun _ => 2 ^ 31 - 1, fun _ => by decide⟩

theorem willing_takes (i : ℕ) : 0 < willing.room i := by
  show (0 : ℤ) < 2 ^ 31 - 1
  decide

def zeros (n : ℕ) (h : n < 2 ^ 63) : DiskFile :=
  { bytes := List.replicate n 0
    st_mtime := 0
    opens := true
    size_lt := List.length_replicate.trans_lt h }

theorem zeros_length (n : ℕ) (h : n < 2 ^ 63) : (zeros n h).bytes.length = n :=
  List.length_replicate

def fresh : Transaction := ⟨0, none, none, [], true⟩

theorem sendsSlice_front :
    SendsSlice willing fresh (zeros 3000000 (by decide)) 5 1000 ↔
      ((zeros 3000000 (by decide)).opens = true →
        WholeBlocks (zeros 3000000 (by decide)) 5 1000) :=
  sendsSlice_iff willing_takes fresh (by
    rw [zeros_length]
    decide)

/-- A byte more than a block, of a file that has one more. -/
theorem overrun :
    ¬ ∀ (socket : Socket) (t : Transaction) (file : DiskFile) (offset byteCount : ℕ),
      (∀ i, 0 < socket.room i) → offset + byteCount ≤ file.bytes.length →
        SendsSlice socket t file offset byteCount := by
  intro hall
  obtain ⟨file, hlength, hopens⟩ : ∃ file : DiskFile, file.bytes.length = 1048578 ∧
      file.opens = true := ⟨zeros 1048578 (by decide), zeros_length _ _, rfl⟩
  have hfits : 0 + 1048577 ≤ file.bytes.length := by omega
  have hcounts := (hall willing fresh file 0 1048577 willing_takes hfits).2
  rcases (counts_iff willing_takes fresh hfits).mp hcounts hopens with hblock | hdvd | hend
  · exact absurd hblock (by decide)
  · exact absurd hdvd (by decide)
  · omega

end AmmarServer.Network
