import AmmarServer.AString.AString

/-! When the handler holds the text in which the first occurrences of a variable are replaced. -/

namespace AmmarServer.AString
open CString Substitution

variable {allocator : Allocator} {mh : MemoryHandler} {offset n : ℕ}
  {var value text block a b x y z : List UInt8}

/-! ## Copies inside a block -/

theorem copyByte_eq {target source : ℕ} (hsource : source < block.length)
    (htarget : target < block.length) :
    copyByte block target source = .ok (block.set target (charAt block source)) :=
  if_pos ⟨hsource, htarget⟩

theorem memcpy_append {bytes : List UInt8} (hlength : y.length = bytes.length) :
    memcpy (x ++ (y ++ z)) x.length bytes = .ok (x ++ (bytes ++ z)) := by
  unfold memcpy
  rw [if_pos, List.take_left, ← hlength, ← List.drop_drop, List.drop_left, List.drop_left]
  simp only [List.length_append]
  omega

theorem charAt_length_append (x : List UInt8) (c : UInt8) (y : List UInt8) :
    charAt (x ++ c :: y) x.length = c := by
  have hlt : x.length < (x ++ c :: y).length := by
    rw [List.length_append, List.length_cons]
    omega
  rw [charAt_eq hlt, List.getElem_append_right le_rfl]
  simp

/-- The bytes are moved to the left, over those in front of them. -/
theorem straightSyncMemcpy_append (x y b z : List UInt8) :
    ∃ w, straightSyncMemcpy (x ++ (y ++ (b ++ z))) x.length (x.length + y.length) b.length =
        .ok (x ++ (b ++ w)) ∧ w.length = y.length + z.length := by
  induction b generalizing x y with
  | nil => exact ⟨y ++ z, rfl, List.length_append⟩
  | cons c b ih =>
    rw [List.length_cons, straightSyncMemcpy, copyByte_eq]
    · have hread : charAt (x ++ (y ++ (c :: b ++ z))) (x.length + y.length) = c := by
        rw [← List.append_assoc, List.cons_append, ← List.length_append]
        exact charAt_length_append _ _ _
      rw [hread]
      cases y with
      | nil =>
        -- the byte is written over itself
        have hset : (x ++ ([] ++ (c :: b ++ z))).set x.length c =
            (x ++ [c]) ++ ([] ++ (b ++ z)) := by
          simp
        obtain ⟨w, hw, hlength⟩ := ih (x ++ [c]) []
        rw [List.length_append, List.length_singleton] at hw
        refine ⟨w, ?_, hlength⟩
        show straightSyncMemcpy _ (x.length + 1) (x.length + 0 + 1) b.length = _
        rw [hset]
        exact hw.trans (by simp)
      | cons d y =>
        have hset : (x ++ (d :: y ++ (c :: b ++ z))).set x.length c =
            (x ++ [c]) ++ ((y ++ [c]) ++ (b ++ z)) := by simp
        obtain ⟨w, hw, hlength⟩ := ih (x ++ [c]) (y ++ [c])
        rw [List.length_append, List.length_singleton, List.length_append,
          List.length_singleton] at hw
        refine ⟨w, ?_, ?_⟩
        · show straightSyncMemcpy _ (x.length + 1) (x.length + (y.length + 1) + 1) b.length = _
          rw [hset, show x.length + (y.length + 1) + 1 = x.length + 1 + (y.length + 1) by omega]
          exact hw.trans (by simp)
        · rw [hlength, List.length_append, List.length_singleton, List.length_cons]
    · simp only [List.length_append, List.length_cons]
      omega
    · simp only [List.length_append, List.length_cons]
      omega

/-- The bytes are moved to the right, over those behind them. -/
theorem reverseSyncMemcpy_append (x b w z : List UInt8) :
    ∃ y, reverseSyncMemcpy (x ++ (b ++ (w ++ z))) (x.length + w.length) x.length b.length =
        .ok (x ++ (y ++ (b ++ z))) ∧ y.length = w.length := by
  induction b using List.reverseRecOn generalizing w z with
  | nil => exact ⟨w, rfl, rfl⟩
  | append_singleton b c ih =>
    rw [List.length_append, List.length_singleton, reverseSyncMemcpy, copyByte_eq]
    · have hread : charAt (x ++ (b ++ [c] ++ (w ++ z))) (x.length + b.length) = c := by
        rw [List.append_assoc, ← List.append_assoc, ← List.length_append]
        exact charAt_length_append _ _ _
      rw [hread]
      rcases List.eq_nil_or_concat w with rfl | ⟨w, d, rfl⟩
      · have hset : (x ++ (b ++ [c] ++ ([] ++ z))).set (x.length + ([] : List UInt8).length +
            b.length) c = x ++ (b ++ ([] ++ ([c] ++ z))) := by
          simp
        obtain ⟨y, hy, hlength⟩ := ih [] ([c] ++ z)
        refine ⟨y, ?_, hlength⟩
        show reverseSyncMemcpy _ _ _ b.length = _
        rw [hset]
        exact hy.trans (by simp)
      · have hset : (x ++ (b ++ [c] ++ (w ++ [d] ++ z))).set
            (x.length + (w ++ [d]).length + b.length) c =
            x ++ (b ++ ((c :: w) ++ ([c] ++ z))) := by
          rw [show x.length + (w ++ [d]).length + b.length = (x ++ (b ++ ([c] ++ w))).length by
              simp only [List.length_append, List.length_singleton]; omega,
            show x ++ (b ++ [c] ++ (w ++ [d] ++ z)) = (x ++ (b ++ ([c] ++ w))) ++ d :: z by simp,
            List.set_append_right _ _ (Nat.le_refl _), Nat.sub_self]
          simp
        obtain ⟨y, hy, hlength⟩ := ih (c :: w) ([c] ++ z)
        refine ⟨y, ?_, by rw [hlength]; simp⟩
        show reverseSyncMemcpy _ _ _ b.length = _
        rw [List.concat_eq_append, hset]
        rw [show x.length + (w ++ [d]).length = x.length + (c :: w).length by simp]
        exact hy.trans (by simp)
    · simp only [List.length_append, List.length_singleton]
      omega
    · simp only [List.length_append, List.length_singleton]
      omega

/-! ## One replacement -/

/-- The block of the handler starts with so many bytes, with a NUL behind them. -/
structure Contains (mh : MemoryHandler) (text : List UInt8) : Prop where
  content : ∃ rest, mh.content = text ++ 0 :: rest
  length : mh.contentCurrentLength = text.length
  bound : text.length < 2 ^ 32

/-- The handler holds a text: its bytes are at the start of the block, with a NUL behind them. -/
structure Holds (mh : MemoryHandler) (text : List UInt8) : Prop where
  content : ∃ rest, mh.content = text ++ 0 :: rest
  length : mh.contentCurrentLength = text.length
  bound : text.length < 2 ^ 32
  noNul : 0 ∉ text

theorem Holds.contains (h : Holds mh text) : Contains mh text := ⟨h.content, h.length, h.bound⟩

theorem cstring_append_zero (text rest : List UInt8) : cstring (text ++ 0 :: rest) = cstring text := by
  induction text with
  | nil => rfl
  | cons c text ih =>
    unfold cstring at ih ⊢
    rw [List.cons_append, List.takeWhile_cons, List.takeWhile_cons, ih]

theorem Contains.cstring_drop (h : Contains mh text) (hoffset : offset ≤ text.length) :
    cstring (mh.content.drop offset) = cstring (text.drop offset) := by
  obtain ⟨rest, hcontent⟩ := h.content
  rw [hcontent, List.drop_append_of_le_length hoffset, cstring_append_zero]

theorem Holds.cstring_text (h : Holds mh text) (offset : ℕ) : cstring (text.drop offset) = text.drop offset :=
  cstring_of_notMem fun hmem => h.noNul (List.mem_of_mem_drop hmem)

theorem inject_none (h : Contains mh text) (hoffset : offset ≤ text.length)
    (hfound : firstAt var (cstring (text.drop offset)) = none) :
    injectDataToMemoryHandlerOffset allocator mh offset var value = .ok (false, mh, offset) := by
  unfold injectDataToMemoryHandlerOffset
  rw [h.cstring_drop hoffset, hfound]

theorem lengths_eq {p : ℕ} (hp : a.length = p) (hbound : (a ++ (var ++ b)).length < 2 ^ 32) :
    p % 2 ^ 32 = p ∧ var.length % 2 ^ 32 = var.length ∧
      ((((a ++ (var ++ b)).length : ℤ) - ((p + var.length : ℕ) : ℤ)) % 2 ^ 32).toNat =
        b.length := by
  simp only [List.length_append] at hbound
  refine ⟨Nat.mod_eq_of_lt (by omega), Nat.mod_eq_of_lt (by omega), ?_⟩
  simp only [List.length_append]
  omega

theorem inject_short (h : Contains mh (a ++ (var ++ b))) (hle : value.length ≤ var.length)
    (hoffset : offset ≤ a.length) {i : ℕ}
    (hfound : firstAt var (cstring ((a ++ (var ++ b)).drop offset)) = some i)
    (hi : offset + i = a.length) :
    ∃ mh', injectDataToMemoryHandlerOffset allocator mh offset var value =
      .ok (true, mh', a.length) ∧ Contains mh' (a ++ (value ++ b)) := by
  obtain ⟨rest, hcontent⟩ := h.content
  have hbound := h.bound
  obtain ⟨hptr, hvar, hend⟩ := lengths_eq rfl hbound
  have hlength : (a ++ (var ++ b)).length = a.length + var.length + b.length := by
    simp only [List.length_append]
    omega
  have hval : value.length % 2 ^ 32 = value.length := Nat.mod_eq_of_lt (by omega)
  unfold injectDataToMemoryHandlerOffset
  rw [h.cstring_drop (by omega), hfound]
  simp only [hi, hptr, hvar, hval, h.length, hend, List.take_length]
  rcases Nat.lt_or_eq_of_le hle with hlt | hsame
  swap
  · rw [if_pos hsame, hcontent,
      show a ++ (var ++ b) ++ 0 :: rest = a ++ (var ++ (b ++ 0 :: rest)) by simp, memcpy_append hsame.symm]
    refine ⟨_, rfl, ⟨rest, by simp⟩, ?_, ?_⟩
    · simp only [List.length_append, hsame]
    · simp only [List.length_append]
      omega
  · rw [if_neg hlt.ne, if_pos hle]
    -- the value takes the place of the first bytes of the variable
    have hsplit : mh.content = a ++ (var.take value.length ++
        (var.drop value.length ++ (b ++ 0 :: rest))) := by
      rw [hcontent, ← List.append_assoc (var.take _), List.take_append_drop]
      simp
    rw [hsplit, memcpy_append (by rw [List.length_take]; omega)]
    obtain ⟨w, hmoved, hw⟩ :=
      straightSyncMemcpy_append (a ++ value) (var.drop value.length) b (0 :: rest)
    have hfrom : (a ++ value).length + (var.drop value.length).length = a.length + var.length := by
      rw [List.length_append, List.length_drop]
      omega
    rw [hfrom, List.length_append, List.append_assoc] at hmoved
    simp only [Except.bind, hmoved]
    obtain ⟨c, w, rfl⟩ := List.exists_cons_of_length_pos
      (show 0 < w.length by rw [hw, List.length_cons]; omega)
    have hnew : (a.length + value.length + b.length) % 2 ^ 32 = (a ++ (value ++ b)).length := by
      simp only [List.length_append]
      rw [Nat.mod_eq_of_lt (by omega)]
      omega
    have hend : ([c] : List UInt8).length = ([0] : List UInt8).length := rfl
    rw [hnew, show a ++ value ++ (b ++ c :: w) = (a ++ (value ++ b)) ++ ([c] ++ w) by simp,
      memcpy_append hend]
    refine ⟨_, rfl, ⟨w, rfl⟩, rfl, ?_⟩
    simp only [List.length_append]
    omega

/-- The writes into a block that has grown: the new bytes are cleared, what is behind the variable
is moved to the right, and the value is written over the variable and the gap. -/
theorem writes_long (a b : List UInt8) (hlt : var.length < value.length) {more : List UInt8}
    (hroom : more.length = value.length - var.length + 1) :
    let gap := value.length - var.length
    let text := a ++ (var ++ b)
    ∃ block₁ block₂ block₃ block₄,
      memcpy (text ++ more) text.length [0] = .ok block₁ ∧
      memcpy block₁ text.length (List.replicate gap 0) = .ok block₂ ∧
      reverseSyncMemcpy block₂ (a.length + value.length) (a.length + var.length) b.length =
        .ok block₃ ∧
      memcpy block₃ a.length value = .ok block₄ ∧
      memcpy block₄ (a ++ (value ++ b)).length [0] = .ok (a ++ (value ++ b) ++ [0]) := by
  intro gap text
  obtain ⟨c, more, rfl⟩ := List.exists_cons_of_length_pos (show 0 < more.length by omega)
  obtain ⟨cleared, d, hcleared⟩ : ∃ cleared d, [0] ++ more = cleared ++ [d] := by
    rcases List.eq_nil_or_concat ([0] ++ more) with hnil | ⟨cleared, d, hconcat⟩
    · cases hnil
    · exact ⟨cleared, d, hconcat.trans List.concat_eq_append⟩
  have hzeros : cleared.length = gap := by
    have hlength := congrArg List.length hcleared
    rw [List.length_append, List.length_append, List.length_singleton] at hlength
    rw [List.length_cons] at hroom
    simp only [List.length_singleton] at hlength
    omega
  obtain ⟨y, hmoved, hy⟩ := reverseSyncMemcpy_append (a ++ var) b (List.replicate gap 0) [d]
  have hto : (a ++ var).length + (List.replicate gap (0 : UInt8)).length =
      a.length + value.length := by
    rw [List.length_append, List.length_replicate]
    omega
  have hover : (var ++ y).length = value.length := by
    rw [List.length_append, hy, List.length_replicate]
    omega
  rw [hto, List.length_append] at hmoved
  refine ⟨text ++ ([0] ++ more), a ++ var ++ (b ++ (List.replicate gap 0 ++ [d])), _,
    a ++ (value ++ (b ++ [d])), ?_, ?_, hmoved, ?_, ?_⟩
  · have hone : ([c] : List UInt8).length = ([0] : List UInt8).length := rfl
    exact memcpy_append hone
  · rw [hcleared, memcpy_append (hzeros.trans (List.length_replicate).symm)]
    simp only [text, List.append_assoc]
  · rw [show a ++ var ++ (y ++ (b ++ [d])) = a ++ ((var ++ y) ++ (b ++ [d])) by simp,
      memcpy_append hover]
  · have hlast : ([d] : List UInt8).length = ([0] : List UInt8).length := rfl
    rw [show a ++ (value ++ (b ++ [d])) = (a ++ (value ++ b)) ++ ([d] ++ []) by simp,
      memcpy_append hlast, List.append_nil]

/-- A longer value is written into a block that has grown, if the new size is an `unsigned int`. -/
theorem inject_long (h : Contains mh (a ++ (var ++ b))) (hlt : var.length < value.length)
    (hshort : value.length < 2 ^ 32) (hoffset : offset ≤ a.length) {i : ℕ}
    (hfound : firstAt var (cstring ((a ++ (var ++ b)).drop offset)) = some i)
    (hi : offset + i = a.length) :
    (allocator.realloc mh.content (((a ++ (value ++ b)).length % 2 ^ 32 + 1) % 2 ^ 32) = none ∧
      injectDataToMemoryHandlerOffset allocator mh offset var value = .ok (false, mh, a.length)) ∨
    (allocator.realloc mh.content (((a ++ (value ++ b)).length % 2 ^ 32 + 1) % 2 ^ 32) ≠ none ∧
      (a ++ (value ++ b)).length + 1 < 2 ^ 32 ∧
      ∃ mh', injectDataToMemoryHandlerOffset allocator mh offset var value =
        .ok (true, mh', a.length) ∧ Contains mh' (a ++ (value ++ b)) ∧
          mh'.content = a ++ (value ++ b) ++ [0]) ∨
    (allocator.realloc mh.content (((a ++ (value ++ b)).length % 2 ^ 32 + 1) % 2 ^ 32) ≠ none ∧
      2 ^ 32 ≤ (a ++ (value ++ b)).length + 1 ∧
      injectDataToMemoryHandlerOffset allocator mh offset var value = .error .outOfBounds) := by
  obtain ⟨rest, hcontent⟩ := h.content
  have hbound := h.bound
  obtain ⟨hptr, hvar, hend⟩ := lengths_eq rfl hbound
  have hlength : (a ++ (var ++ b)).length = a.length + var.length + b.length := by
    simp only [List.length_append]
    omega
  have hnew : (a ++ (value ++ b)).length = a.length + value.length + b.length := by
    simp only [List.length_append]
    omega
  have hval : value.length % 2 ^ 32 = value.length := Nat.mod_eq_of_lt hshort
  have hsum : (a ++ (var ++ b)).length + (value.length - var.length) =
      (a ++ (value ++ b)).length := by omega
  unfold injectDataToMemoryHandlerOffset
  rw [h.cstring_drop (by omega), hfound]
  simp only [hi, hptr, hvar, hval, h.length, hend, List.take_length]
  rw [if_neg hlt.ne', if_neg (not_le.mpr hlt), hsum]
  cases hrealloc : allocator.realloc mh.content
      (((a ++ (value ++ b)).length % 2 ^ 32 + 1) % 2 ^ 32) with
  | none => exact .inl ⟨rfl, rfl⟩
  | some newBuffer =>
    have hsize := allocator.length _ _ _ hrealloc
    have hkept := allocator.kept _ _ _ hrealloc
    refine .inr ?_
    simp only
    by_cases hfits : (a ++ (value ++ b)).length + 1 < 2 ^ 32
    · refine .inl ⟨Option.some_ne_none _, hfits, ?_⟩
      have hsmall : (a ++ (value ++ b)).length % 2 ^ 32 = (a ++ (value ++ b)).length :=
        Nat.mod_eq_of_lt (by omega)
      rw [hsmall, Nat.mod_eq_of_lt hfits] at hsize hkept
      rw [hsmall]
      -- the text is still there, and behind it there is room for the rest of the value and a NUL
      have htext : newBuffer.take (a ++ (var ++ b)).length = a ++ (var ++ b) := by
        have hblock : (a ++ (var ++ b)).length ≤ mh.content.length := by
          rw [hcontent, @List.length_append _ (a ++ (var ++ b))]
          exact Nat.le_add_right _ _
        have hshorter := congrArg (List.take (a ++ (var ++ b)).length) hkept
        rw [List.take_take, List.take_take, Nat.min_eq_left hblock, Nat.min_eq_left (by omega),
          hcontent, List.take_left] at hshorter
        exact hshorter
      obtain ⟨more, hmore⟩ : ∃ more, newBuffer = (a ++ (var ++ b)) ++ more := by
        refine ⟨newBuffer.drop (a ++ (var ++ b)).length, ?_⟩
        conv_lhs => rw [← List.take_append_drop (a ++ (var ++ b)).length newBuffer, htext]
      have hroom : more.length = value.length - var.length + 1 := by
        rw [hmore, List.length_append] at hsize
        omega
      obtain ⟨block₁, block₂, block₃, block₄, h₁, h₂, h₃, h₄, h₅⟩ := writes_long a b hlt hroom
      have hcount : (a ++ (value ++ b)).length - (a ++ (var ++ b)).length =
          value.length - var.length := by omega
      rw [hmore, h₁, hcount]
      simp only [Except.bind, Except.map, h₂, h₃, h₄, h₅]
      exact ⟨_, rfl, ⟨⟨[], rfl⟩, rfl, by omega⟩, rfl⟩
    · refine .inr ⟨Option.some_ne_none _, not_lt.mp hfits, ?_⟩
      -- the size has wrapped, so that the old end is behind the new block
      have hwraps : newBuffer.length ≤ (a ++ (var ++ b)).length := by
        rw [hsize]
        omega
      have hfault : memcpy newBuffer (a ++ (var ++ b)).length [0] = .error .outOfBounds := by
        apply if_neg
        rw [List.length_singleton]
        omega
      rw [hfault]
      rfl

theorem split_found {i : ℕ} (hfound : firstAt var (cstring (text.drop offset)) = some i)
    (hoffset : offset ≤ text.length) :
    (text.take (offset + i)).length = offset + i ∧ offset + i + var.length ≤ text.length ∧
      text = text.take (offset + i) ++ (var ++ text.drop (offset + i + var.length)) := by
  have hstring := (cstring_isPrefix (text.drop offset)).length_le
  have hle := firstAt_le hfound
  rw [List.length_drop] at hstring
  have hleading := prefix_of_firstAt hfound
  have hwhole : var <+: (text.drop offset).drop i :=
    hleading.trans ((cstring_isPrefix (text.drop offset)).drop i)
  rw [List.drop_drop] at hwhole
  refine ⟨List.length_take_of_le (by omega), by omega, ?_⟩
  conv_lhs => rw [← List.take_append_drop (offset + i) text, ← List.prefix_iff_eq_append.mp hwhole]
  rw [List.drop_drop]

theorem inject_spec (hgrows : ∀ block size, allocator.realloc block size ≠ none) (h : Holds mh text)
    (hvalue : 0 ∉ value) (hshort : value.length < 2 ^ 32) (hoffset : offset ≤ text.length) {i : ℕ}
    (hfound : firstAt var (text.drop offset) = some i) :
    let new := text.take (offset + i) ++ (value ++ text.drop (offset + i + var.length))
    (var.length < value.length ∧ 2 ^ 32 ≤ new.length + 1 ∧
      injectDataToMemoryHandlerOffset allocator mh offset var value = .error .outOfBounds) ∨
    ((value.length ≤ var.length ∨ new.length + 1 < 2 ^ 32) ∧
      ∃ mh', injectDataToMemoryHandlerOffset allocator mh offset var value =
        .ok (true, mh', offset + i) ∧ Holds mh' new) := by
  intro new
  rw [← h.cstring_text offset] at hfound
  obtain ⟨hfront, -, hsplit⟩ := split_found hfound hoffset
  have hno : 0 ∉ new := by
    simp only [new, List.mem_append, not_or]
    exact ⟨fun hmem => h.noNul (List.mem_of_mem_take hmem), hvalue,
      fun hmem => h.noNul (List.mem_of_mem_drop hmem)⟩
  have hcontains := h.contains
  rw [hsplit] at hcontains
  have hfound' := hfound
  rw [hsplit] at hfound'
  rcases Nat.lt_or_ge var.length value.length with hlt | hge
  · have hlong := @inject_long allocator _ _ _ _ _ _ hcontains hlt hshort (by omega) i hfound' hfront.symm
    rw [hfront] at hlong
    rcases hlong with ⟨hnone, -⟩ | ⟨-, hfits, mh', hdone, hnew, -⟩ | ⟨-, hover, hfault⟩
    · exact absurd hnone (hgrows _ _)
    · exact .inr ⟨.inr hfits, mh', hdone, hnew.content, hnew.length, hnew.bound, hno⟩
    · exact .inl ⟨hlt, hover, hfault⟩
  · obtain ⟨mh', hdone, hnew⟩ :=
      @inject_short allocator _ _ _ _ _ _ hcontains hge (by omega) i hfound' hfront.symm
    rw [hfront] at hdone
    exact .inr ⟨.inl hge, mh', hdone, hnew.content, hnew.length, hnew.bound, hno⟩

/-! ## The loop -/

/-- `n` replacements in a text of this length stay within an `unsigned int`. -/
def Fits (var value : List UInt8) (n length : ℕ) : Prop :=
  value.length ≤ var.length ∨ length + n * value.length + 1 < 2 ^ 32 + n * var.length

instance (var value : List UInt8) (n length : ℕ) : Decidable (Fits var value n length) :=
  inferInstanceAs (Decidable (_ ∨ _))

/-- What the replacement with the index `k` has found is the occurrence with that index in `rest`,
and it leaves the text in which the first `k + 1` are replaced. -/
def Replaces (allocator : Allocator) (var value : List UInt8) (mh : MemoryHandler) (k : ℕ)
    (front lead rest : List UInt8) : Prop :=
  ∃ mh' new p, replaceRemaining allocator var value (k + 1) mh front.length =
      .ok (true, mh', front.length + lead.length + p) ∧
    place var value k rest = some p ∧ replaceFirst var value (k + 1) rest = some new ∧
    Holds mh' (front ++ (lead ++ new))

theorem replaceRemaining_succ {mh' : MemoryHandler} {offset' : ℕ}
    (hinject : injectDataToMemoryHandlerOffset allocator mh offset var value =
      .ok (true, mh', offset')) :
    replaceRemaining allocator var value (n + 1) mh offset =
      replaceRemaining allocator var value n mh' offset' := by
  rw [replaceRemaining, hinject]
  rfl

theorem replaces_succ_iff {mh' : MemoryHandler} {k i : ℕ} {front lead rest : List UInt8}
    (hi : firstAt var rest = some i)
    (hinject : injectDataToMemoryHandlerOffset allocator mh front.length var value =
      .ok (true, mh', front.length + (lead.length + i))) :
    Replaces allocator var value mh (k + 1) front lead rest ↔
      Replaces allocator var value mh' k (front ++ (lead ++ rest.take i)) value
        (rest.drop (i + var.length)) := by
  have hle := firstAt_le hi
  have hfront : (front ++ (lead ++ rest.take i)).length = front.length + (lead.length + i) := by
    simp only [List.length_append, List.length_take]
    omega
  unfold Replaces
  rw [replaceRemaining_succ hinject, hfront, place_of_firstAt hi]
  constructor
  · rintro ⟨mh'', new, p, hrun, hplace, hnew, hholds⟩
    obtain ⟨q, hq, rfl⟩ := Option.map_eq_some_iff.mp hplace
    rw [replaceFirst_of_firstAt hi] at hnew
    obtain ⟨behind, hbehind, rfl⟩ := Option.map_eq_some_iff.mp hnew
    refine ⟨mh'', behind, q, ?_, hq, hbehind, ?_⟩
    · rw [hrun, show front.length + (lead.length + i) + value.length + q =
        front.length + lead.length + (i + value.length + q) by omega]
    · simpa only [List.append_assoc] using hholds
  · rintro ⟨mh'', behind, q, hrun, hplace, hbehind, hholds⟩
    refine ⟨mh'', rest.take i ++ (value ++ behind), i + value.length + q, ?_, ?_, ?_, ?_⟩
    · rw [hrun, show front.length + (lead.length + i) + value.length + q =
        front.length + lead.length + (i + value.length + q) by omega]
    · rw [hplace]
      rfl
    · rw [replaceFirst_of_firstAt hi, hbehind]
      rfl
    · simpa only [List.append_assoc] using hholds

/-- The replacements are the ones of the occurrences if the sizes fit and each search passes over
what stands in front of the part of the text that is still to be searched. -/
theorem replaces_iff (hgrows : ∀ block size, allocator.realloc block size ≠ none)
    (hvalue : 0 ∉ value) {front lead rest : List UInt8} (h : Holds mh (front ++ (lead ++ rest)))
    (hn : (replaceFirst var value n rest).isSome) :
    (∀ k < n, Replaces allocator var value mh k front lead rest) ↔
      (n = 0 ∨ Fits var value n (front ++ (lead ++ rest)).length) ∧
        PassesOver var value n lead rest := by
  induction n generalizing mh front lead rest with
  | zero => exact iff_of_true (fun k hk => absurd hk (Nat.not_lt_zero k)) ⟨.inl rfl, trivial⟩
  | succ n ih =>
    obtain ⟨new, hnew⟩ := Option.isSome_iff_exists.mp hn
    obtain ⟨i, behind, hi, hbehind, -⟩ := replaceFirst_succ hnew
    obtain ⟨j, hj⟩ := firstAt_append_isSome lead hi
    have hle := firstAt_le hi
    have hbound := h.bound
    have hmany := mul_length_le hbehind
    have hdrop : (front ++ (lead ++ rest)).drop front.length = lead ++ rest := List.drop_left
    have hfront : front.length ≤ (front ++ (lead ++ rest)).length := by
      rw [List.length_append]
      exact Nat.le_add_right _ _
    have htotal : (front ++ (lead ++ rest)).length =
        front.length + (lead.length + rest.length) := by
      simp only [List.length_append]
    -- the text behind the replacement of the right occurrence
    have htext : (front ++ (lead ++ rest)).take (front.length + (lead.length + i)) ++
        (value ++ (front ++ (lead ++ rest)).drop (front.length + (lead.length + i) + var.length)) =
        (front ++ (lead ++ rest.take i)) ++ (value ++ rest.drop (i + var.length)) := by
      rw [List.take_length_add_append, List.take_length_add_append, Nat.add_assoc, Nat.add_assoc,
        List.drop_length_add_append, List.drop_length_add_append]
    have hlength : ((front ++ (lead ++ rest.take i)) ++
        (value ++ rest.drop (i + var.length))).length + var.length =
        (front ++ (lead ++ rest)).length + value.length := by
      simp only [List.length_append, List.length_take, List.length_drop]
      omega
    have hstep : ∀ k, Replaces allocator var value mh k front lead rest →
        value.length < 2 ^ 32 := by
      rintro k ⟨mh', new', p, -, -, hnew', hholds⟩
      obtain ⟨_, behind', _, _, rfl⟩ := replaceFirst_succ hnew'
      have hbound' := hholds.bound
      simp only [List.length_append] at hbound'
      omega
    have hsearch : firstAt var ((front ++ (lead ++ rest)).drop front.length) = some j := by
      rw [hdrop]
      exact hj
    constructor
    · intro hall
      have hfirst := hall 0 (Nat.succ_pos n)
      have hshort := hstep 0 hfirst
      obtain ⟨mh₁, new₁, p, hrun, hplace, -, -⟩ := hfirst
      rcases inject_spec hgrows h hvalue hshort hfront hsearch with
        ⟨-, -, hfault⟩ | ⟨hfits, mh', hdone, hholds⟩
      · rw [replaceRemaining, hfault] at hrun
        cases hrun
      · obtain rfl : j = lead.length + i := by
          have hp : p = i := Option.some.inj (hplace.symm.trans hi)
          rw [replaceRemaining_succ hdone] at hrun
          have hoffset := congrArg (·.2.2) (Except.ok.inj hrun)
          simp only at hoffset
          omega
        rw [htext] at hholds hfits
        have hrest := (ih hholds (by rw [hbehind]; rfl)).mp fun k hk =>
          (replaces_succ_iff hi hdone).mp (hall (k + 1) (Nat.succ_lt_succ hk))
        refine ⟨.inr ?_, ?_, fun i' hi' => ?_⟩
        · rcases hfits with hle' | hone
          · exact .inl hle'
          · rcases hrest.1 with rfl | hle' | hsum
            · refine .inr ?_
              omega
            · exact .inl hle'
            · refine .inr ?_
              rw [Nat.add_mul, Nat.add_mul, Nat.one_mul, Nat.one_mul]
              omega
        · rw [hj, hi]
          rfl
        · obtain rfl := Option.some.inj (hi.symm.trans hi')
          exact hrest.2
    · rintro ⟨hfits, hpass, hnext⟩
      obtain rfl : j = lead.length + i := by
        rw [hj, hi] at hpass
        exact Option.some.inj hpass
      have hfits : Fits var value (n + 1) (front ++ (lead ++ rest)).length :=
        hfits.resolve_left (Nat.succ_ne_zero n)
      have hone : value.length ≤ var.length ∨ ((front ++ (lead ++ rest.take i)) ++
          (value ++ rest.drop (i + var.length))).length + 1 < 2 ^ 32 := by
        rcases hfits with hle' | hsum
        · exact .inl hle'
        · rcases Nat.lt_or_ge var.length value.length with hlt | hge
          · have hmul := Nat.mul_le_mul_left n hlt.le
            rw [Nat.add_mul, Nat.add_mul, Nat.one_mul, Nat.one_mul] at hsum
            exact .inr (by omega)
          · exact .inl hge
      have hshort : value.length < 2 ^ 32 := by
        rcases hone with hle' | hsum
        · omega
        · simp only [List.length_append] at hsum
          omega
      rcases inject_spec hgrows h hvalue hshort hfront hsearch with
        ⟨hlong, hover, -⟩ | ⟨-, mh', hdone, hholds⟩
      · rw [htext] at hover
        omega
      · rw [htext] at hholds
        have hfits' : n = 0 ∨ Fits var value n ((front ++ (lead ++ rest.take i)) ++
            (value ++ rest.drop (i + var.length))).length := by
          rcases hfits with hle' | hsum
          · exact .inr (.inl hle')
          · refine .inr (.inr ?_)
            rw [Nat.add_mul, Nat.add_mul, Nat.one_mul, Nat.one_mul] at hsum
            omega
        have hrest := (ih hholds (by rw [hbehind]; rfl)).mpr ⟨hfits', hnext i hi⟩
        intro k hk
        cases k with
        | zero =>
          refine ⟨mh', rest.take i ++ (value ++ rest.drop (i + var.length)), i, ?_, hi, ?_, ?_⟩
          · rw [replaceRemaining_succ hdone, Nat.add_assoc]
            rfl
          · rw [replaceFirst_of_firstAt hi]
            rfl
          · simpa only [List.append_assoc] using hholds
        | succ k => exact (replaces_succ_iff hi hdone).mpr (hrest k (Nat.lt_of_succ_lt_succ hk))

/-! ## The function -/

/-- The answer is 1, the handler holds the text in which the first occurrences are replaced, and
what the searches have found are these occurrences, none of it inserted. -/
structure Substitutes (allocator : Allocator) (mh : MemoryHandler) (text : List UInt8)
    (instances : ℕ) (var value : List UInt8) : Prop where
  result : ∃ mh' new,
    replaceAllInstancesOfVarInMemoryFile allocator mh instances var value = .ok (true, mh') ∧
      replaceFirst var value instances text = some new ∧ Holds mh' new
  found : ∀ k < instances, Replaces allocator var value mh k [] [] text

theorem replaceAll_of_pos (hn : n ≠ 0) :
    replaceAllInstancesOfVarInMemoryFile allocator mh n var value =
      (replaceRemaining allocator var value n mh 0).map fun (replaced, mh, _) => (replaced, mh) :=
  if_neg hn

theorem result_of_found (hn : n ≠ 0)
    (hfound : ∀ k < n, Replaces allocator var value mh k [] [] text) :
    ∃ mh' new, replaceAllInstancesOfVarInMemoryFile allocator mh n var value = .ok (true, mh') ∧
      replaceFirst var value n text = some new ∧ Holds mh' new := by
  obtain ⟨k, rfl⟩ := Nat.exists_eq_succ_of_ne_zero hn
  obtain ⟨mh', new, p, hrun, -, hnew, hholds⟩ := hfound k (Nat.lt_succ_self k)
  refine ⟨mh', new, ?_, hnew, hholds⟩
  rw [replaceAll_of_pos hn]
  exact congrArg (Except.map _) hrun

theorem substitutes_iff (hgrows : ∀ block size, allocator.realloc block size ≠ none)
    (h : Holds mh text) (hvalue : 0 ∉ value) (hn : (replaceFirst var value n text).isSome) :
    Substitutes allocator mh text n var value ↔
      n ≠ 0 ∧ Fits var value n text.length ∧ PassesOver var value n [] text := by
  have hiff := @replaces_iff allocator mh n var value hgrows hvalue [] [] text h hn
  constructor
  · intro hsubstitutes
    obtain ⟨hfits, hpasses⟩ := hiff.mp hsubstitutes.found
    have hpos : n ≠ 0 := by
      rintro rfl
      obtain ⟨mh', new, hrun, -⟩ := hsubstitutes.result
      cases hrun
    exact ⟨hpos, hfits.resolve_left hpos, hpasses⟩
  · rintro ⟨hpos, hfits, hpasses⟩
    have hfound := hiff.mpr ⟨.inr hfits, hpasses⟩
    exact ⟨result_of_found hpos hfound, hfound⟩

/-- Blocks that always grow, with zeros. -/
def unlimited : Allocator where
  realloc block size := some (block.take size ++ List.replicate (size - block.length) 0)
  length block size block' h := by
    cases h
    rw [List.length_append, List.length_take, List.length_replicate]
    omega
  kept block size block' h := by
    cases h
    rcases Nat.le_total size block.length with hle | hge
    · rw [Nat.sub_eq_zero_of_le hle, List.replicate_zero, List.append_nil, List.take_take,
        Nat.min_eq_right hle]
    · rw [List.take_of_length_le hge, List.take_left]

/-- `$a$b` with `xy` for both of the `$`. -/
theorem substitutes_twice :
    Substitutes unlimited ⟨5, 4, [36, 97, 36, 98, 0]⟩ [36, 97, 36, 98] 2 [36] [120, 121] := by
  have hholds : Holds ⟨5, 4, [36, 97, 36, 98, 0]⟩ [36, 97, 36, 98] :=
    ⟨⟨[], rfl⟩, rfl, by decide, by decide⟩
  refine (substitutes_iff (fun _ _ => Option.some_ne_none _) hholds (by decide) rfl).mpr
    ⟨by decide, by decide, rfl, ?_⟩
  intro i hi
  cases hi
  exact ⟨rfl, fun _ _ => trivial⟩

/-- `$a$` with `$$` for both of the `$`: the second search finds the inserted text. -/
theorem searches_inserted :
    ¬ ∀ (allocator : Allocator) (mh : MemoryHandler) (text : List UInt8) (n : ℕ)
        (var value : List UInt8), (∀ block size, allocator.realloc block size ≠ none) →
        Holds mh text → var ≠ [] → 0 ∉ value → (replaceFirst var value n text).isSome →
        Substitutes allocator mh text n var value := by
  intro hall
  have hholds : Holds ⟨4, 3, [36, 97, 36, 0]⟩ [36, 97, 36] :=
    ⟨⟨[], rfl⟩, rfl, by decide, by decide⟩
  obtain ⟨mh', new, hrun, hnew, hafter⟩ := (hall unlimited _ _ 2 [36] [36, 36]
    (fun _ _ => Option.some_ne_none _) hholds (by decide) (by decide) rfl).result
  cases hnew
  cases hrun
  obtain ⟨rest, hcontent⟩ := hafter.content
  cases hcontent

end AmmarServer.AString
