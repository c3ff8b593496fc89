import AmmarServer.AString.Replacements

/-! `AmmServer_ReplaceAllVarsInDynamicRequest`: the replacements are made in a copy of the request's
pointer and sizes, and copied back only if all of them were made. -/

namespace AmmarServer.AString
open CString Substitution

/-- `content` is the block that the pointer designates, and none if `realloc` has released it. -/
structure DynamicRequest where
  content : Option (List UInt8)
  contentSize : ℕ
  MAXcontentSize : ℕ
deriving DecidableEq

section Model
variable (allocator : Allocator)

/-- Whether an injection releases the block that it finds: a `realloc` does that succeeds, wherever
the new block lies, and so does one for no bytes. -/
def releases (mh : MemoryHandler) (offset : ℕ) (var value : List UInt8) : Bool :=
  match firstAt var (cstring (mh.content.drop offset)) with
  | none => false
  | some _ =>
    let valueLength := value.length % 2 ^ 32
    let varLength := var.length % 2 ^ 32
    if valueLength ≤ varLength then false
    else
      let reallocatedBufferSize :=
        (mh.contentCurrentLength + (valueLength - varLength)) % 2 ^ 32
      let size := (reallocatedBufferSize + 1) % 2 ^ 32
      size = 0 || (allocator.realloc mh.content size).isSome

/-- The loop of `replaceRemaining`, with whether the first block has been released. -/
def replaceTracked (var value : List UInt8) :
    ℕ → MemoryHandler → ℕ → Bool → Except Fault (Bool × MemoryHandler × Bool)
  | 0, mh, _, released => .ok (true, mh, released)
  | remainingInstances + 1, mh, offset, released =>
    let released := released || releases allocator mh offset var value
    (injectDataToMemoryHandlerOffset allocator mh offset var value).bind
      fun (injected, mh, offset) =>
        if injected then replaceTracked var value remainingInstances mh offset released
        else .ok (false, mh, released)

/-- `AmmServer_ReplaceAllVarsInDynamicRequest`. The sizes of the handler are `unsigned int`. -/
def replaceAllVarsInDynamicRequest (dr : DynamicRequest) (instances : ℕ) (var value : List UInt8) :
    Except Fault (Bool × DynamicRequest) :=
  match dr.content with
  | none => .error .outOfBounds
  | some content =>
    let mh : MemoryHandler :=
      { contentSize := dr.MAXcontentSize % 2 ^ 32
        contentCurrentLength := dr.contentSize % 2 ^ 32
        content }
    if instances = 0 then .ok (false, dr)
    else
      (replaceTracked allocator var value instances mh 0 false).map fun (status, mh, released) =>
        if status then
          (true,
            { content := some mh.content
              contentSize := mh.contentCurrentLength
              MAXcontentSize := mh.contentSize })
        else (false, { dr with content := if released then none else some mh.content })

theorem replaceTracked_eq (var value : List UInt8) (n : ℕ) (mh : MemoryHandler) (offset : ℕ)
    (released : Bool) :
    (replaceTracked allocator var value n mh offset released).map (fun t => (t.1, t.2.1)) =
      (replaceRemaining allocator var value n mh offset).map fun t => (t.1, t.2.1) := by
  induction n generalizing mh offset released with
  | zero => rfl
  | succ n ih =>
    rw [replaceTracked, replaceRemaining]
    cases injectDataToMemoryHandlerOffset allocator mh offset var value with
    | error fault => rfl
    | ok t =>
      obtain ⟨injected, mh', offset'⟩ := t
      cases injected with
      | false => rfl
      | true => exact ih mh' offset' _

/-! What the call is for. -/

/-- The place of the next occurrence in the string at the begin of a text. -/
def search (var : List UInt8) (offset : ℕ) (text : List UInt8) : Option ℕ :=
  (firstAt var (cstring (text.drop offset))).map (offset + ·)

def written (var value text : List UInt8) (place : ℕ) : List UInt8 :=
  text.take place ++ (value ++ text.drop (place + var.length))

/-- The text after some rounds, each of which goes on where the last one has found its occurrence. -/
def rounds (var value : List UInt8) : ℕ → ℕ → List UInt8 → Option (List UInt8)
  | 0, _, text => some text
  | n + 1, offset, text =>
    (search var offset text).bind fun place =>
      rounds var value n place (written var value text place)

/-- The content that a request stands for. -/
def Denotes (dr : DynamicRequest) (text : List UInt8) : Prop :=
  dr.contentSize = text.length ∧ ∃ block, dr.content = some block ∧ block.take text.length = text

/-- After the call the request stands for what it stood for, or for the text with all replacements. -/
def Usable (dr : DynamicRequest) (text : List UInt8) (n : ℕ) (var value : List UInt8) : Prop :=
  ∃ status dr', replaceAllVarsInDynamicRequest allocator dr n var value = .ok (status, dr') ∧
    (status = false → dr'.MAXcontentSize = dr.MAXcontentSize ∧ Denotes dr' text) ∧
    (status = true → ∃ text', rounds var value n 0 text = some text' ∧ Denotes dr' text')

/-- A request with a text of fewer than 4 GiB in its block, and a NUL behind it. -/
structure Ready (dr : DynamicRequest) (block text : List UInt8) : Prop where
  content : dr.content = some block
  begins : ∃ rest, block = text ++ 0 :: rest
  size : dr.contentSize = text.length
  bound : text.length < 2 ^ 32

/-- A replacement needs no room, or gets it. -/
def Granted (var value block text : List UInt8) : Prop :=
  value.length ≤ var.length ∨
    (text.length + (value.length - var.length) + 1 < 2 ^ 32 ∧
      allocator.realloc block (text.length + (value.length - var.length) + 1) ≠ none)

/-- Every round finds its occurrence and has its room. -/
def AllDone (var value : List UInt8) : ℕ → List UInt8 → List UInt8 → ℕ → Prop
  | 0, _, _, _ => True
  | n + 1, block, text, offset =>
    ∃ place, search var offset text = some place ∧ Granted allocator var value block text ∧
      AllDone var value n (written var value text place ++ [0]) (written var value text place) place

/-- The first round finds no occurrence, or gets no room for it. -/
def Refused (var value block text : List UInt8) : Prop :=
  search var 0 text = none ∨
    (var.length < value.length % 2 ^ 32 ∧
      let size := ((text.length + (value.length % 2 ^ 32 - var.length)) % 2 ^ 32 + 1) % 2 ^ 32
      size ≠ 0 ∧ allocator.realloc block size = none)

end Model

variable {allocator : Allocator} {mh : MemoryHandler} {offset place n : ℕ} {released : Bool}
  {var value text text' block block' : List UInt8} {dr : DynamicRequest}

/-! One round. -/

theorem search_eq_some (h : search var offset text = some place) (hoffset : offset ≤ text.length) :
    ∃ i, firstAt var (cstring (text.drop offset)) = some i ∧ offset + i = place ∧
      (text.take place).length = place ∧ place + var.length ≤ text.length ∧
      text = text.take place ++ (var ++ text.drop (place + var.length)) := by
  obtain ⟨i, hi, rfl⟩ := Option.map_eq_some_iff.mp h
  exact ⟨i, hi, rfl, split_found hi hoffset⟩

theorem length_written (h : search var offset text = some place) (hoffset : offset ≤ text.length)
    (value : List UInt8) :
    (written var value text place).length + var.length = text.length + value.length := by
  obtain ⟨i, -, -, hfront, hle, -⟩ := search_eq_some h hoffset
  rw [written, List.length_append, List.length_append, hfront, List.length_drop]
  omega

theorem le_length_written (h : search var offset text = some place) (hoffset : offset ≤ text.length)
    (value : List UInt8) : place ≤ (written var value text place).length := by
  obtain ⟨i, -, -, hfront, -, -⟩ := search_eq_some h hoffset
  rw [written, List.length_append, hfront]
  exact Nat.le_add_right _ _

/-- A round as the handler sees it: nothing is found, all is done, there is no room, or the sizes
overflow. -/
theorem inject_cases (h : Contains mh text) (hshort : value.length < 2 ^ 32)
    (hoffset : offset ≤ text.length) :
    (search var offset text = none ∧
      injectDataToMemoryHandlerOffset allocator mh offset var value = .ok (false, mh, offset) ∧
      releases allocator mh offset var value = false) ∨
    ∃ place, search var offset text = some place ∧
      ((Granted allocator var value mh.content text ∧
        (∃ mh', injectDataToMemoryHandlerOffset allocator mh offset var value =
            .ok (true, mh', place) ∧ Contains mh' (written var value text place) ∧
          (var.length < value.length → mh'.content = written var value text place ++ [0])) ∧
        releases allocator mh offset var value = decide (var.length < value.length)) ∨
      (¬ Granted allocator var value mh.content text ∧ var.length < value.length ∧
        let size := ((text.length + (value.length - var.length)) % 2 ^ 32 + 1) % 2 ^ 32
        ((allocator.realloc mh.content size ≠ none ∧
          injectDataToMemoryHandlerOffset allocator mh offset var value = .error .outOfBounds) ∨
        (allocator.realloc mh.content size = none ∧
          injectDataToMemoryHandlerOffset allocator mh offset var value = .ok (false, mh, place) ∧
            releases allocator mh offset var value = decide (size = 0))))) := by
  have hbound := h.bound
  have hlengthmod : mh.contentCurrentLength = text.length := h.length
  cases hfound : firstAt var (cstring (text.drop offset)) with
  | none =>
    refine .inl ⟨by rw [search, hfound]; rfl, inject_none h hoffset hfound, ?_⟩
    rw [releases, h.cstring_drop hoffset, hfound]
  | some i =>
    have hsearch : search var offset text = some (offset + i) := by
      rw [search, hfound]
      rfl
    obtain ⟨-, -, -, hfront, hle, hsplit⟩ := search_eq_some hsearch hoffset
    have hval : value.length % 2 ^ 32 = value.length := Nat.mod_eq_of_lt hshort
    have hvar : var.length % 2 ^ 32 = var.length := Nat.mod_eq_of_lt (by omega)
    have hcontains := h
    rw [hsplit] at hcontains
    have hfound' := hfound
    rw [hsplit] at hfound'
    refine .inr ⟨offset + i, hsearch, ?_⟩
    have hreleases : releases allocator mh offset var value = if value.length ≤ var.length then false
        else decide (((text.length + (value.length - var.length)) % 2 ^ 32 + 1) % 2 ^ 32 = 0) ||
          (allocator.realloc mh.content
            (((text.length + (value.length - var.length)) % 2 ^ 32 + 1) % 2 ^ 32)).isSome := by
      rw [releases, h.cstring_drop hoffset, hfound]
      simp only [hval, hvar, hlengthmod]
    rcases Nat.lt_or_ge var.length value.length with hlt | hge
    · have hnew : (text.take (offset + i) ++ (value ++ text.drop (offset + i + var.length))).length =
          text.length + (value.length - var.length) := by
        have hlength := length_written hsearch hoffset value
        rw [written] at hlength
        omega
      have hlong := @inject_long allocator _ _ _ _ _ _ hcontains hlt hshort (by omega) i hfound' hfront.symm
      rw [hfront, hnew] at hlong
      rw [if_neg (Nat.not_le_of_lt hlt)] at hreleases
      rcases hlong with ⟨hnone, hdone⟩ | ⟨hsome, hfits, mh', hdone, hcontent, hblock⟩ |
        ⟨hsome, hover, hfault⟩
      · refine .inr ⟨?_, hlt, .inr ⟨hnone, hdone, ?_⟩⟩
        · rintro (hle' | ⟨hfits, hroom⟩)
          · omega
          · rw [Nat.mod_eq_of_lt (Nat.lt_of_succ_lt hfits), Nat.mod_eq_of_lt hfits] at hnone
            exact hroom hnone
        · rw [hreleases, hnone]
          exact Bool.or_false _
      · have hsmall : ((text.length + (value.length - var.length)) % 2 ^ 32 + 1) % 2 ^ 32 =
            text.length + (value.length - var.length) + 1 := by
          rw [Nat.mod_eq_of_lt (Nat.lt_of_succ_lt hfits), Nat.mod_eq_of_lt hfits]
        rw [hsmall] at hsome hreleases
        refine .inl ⟨.inr ⟨hfits, hsome⟩, ⟨mh', hdone, hcontent, fun _ => hblock⟩, ?_⟩
        rw [hreleases, Option.isSome_iff_ne_none.mpr hsome, Bool.or_true, decide_eq_true hlt]
      · refine .inr ⟨?_, hlt, .inl ⟨hsome, hfault⟩⟩
        rintro (hle' | ⟨hfits, -⟩)
        · omega
        · omega
    · obtain ⟨mh', hdone, hcontent⟩ :=
        @inject_short allocator _ _ _ _ _ _ hcontains hge (by omega) i hfound' hfront.symm
      rw [hfront] at hdone
      refine .inl ⟨.inl hge, ⟨mh', hdone, hcontent, fun hlt => absurd hge (Nat.not_le_of_lt hlt)⟩, ?_⟩
      rw [hreleases, if_pos hge, decide_eq_false (Nat.not_lt_of_le hge)]

/-! What a round leaves behind that is not the last one. -/

theorem cstring_append_of_notMem {s : List UInt8} (hs : 0 ∉ s) (t : List UInt8) :
    cstring (s ++ t) = s ++ cstring t := by
  apply List.takeWhile_append_of_pos
  intro c hc
  exact decide_eq_true fun hzero => hs (hzero ▸ hc)

theorem notMem_of_search (h : search var offset text = some place) (hoffset : offset ≤ text.length)
    (hclean : 0 ∉ text.take offset) : 0 ∉ text.take place ∧ 0 ∉ var := by
  obtain ⟨i, hi, rfl, -, -, -⟩ := search_eq_some h hoffset
  have hle := firstAt_le hi
  have hfront := cstring_isPrefix (text.drop offset)
  have hzero := zero_notMem_cstring (text.drop offset)
  constructor
  · rw [List.take_add, List.mem_append, not_or]
    refine ⟨hclean, fun hmem => hzero ?_⟩
    rw [← (hfront.take i).eq_of_length_le (by
      rw [List.length_take, List.length_take]
      omega)] at hmem
    exact List.mem_of_mem_take hmem
  · exact fun hmem => hzero (List.mem_of_mem_drop ((prefix_of_firstAt hi).subset hmem))

theorem strlen_written (h : search var offset text = some place) (hoffset : offset ≤ text.length)
    (hclean : 0 ∉ text.take offset) (hvalue : 0 ∉ value) :
    strlen (written var value text place) + var.length = strlen text + value.length := by
  obtain ⟨hfront, hvar⟩ := notMem_of_search h hoffset hclean
  obtain ⟨i, -, -, -, -, hsplit⟩ := search_eq_some h hoffset
  have hbefore : strlen text = (text.take place).length + (var.length +
      (cstring (text.drop (place + var.length))).length) := by
    conv_lhs => rw [strlen, hsplit, cstring_append_of_notMem hfront, cstring_append_of_notMem hvar]
    rw [List.length_append, List.length_append]
  rw [hbefore, strlen, written, cstring_append_of_notMem hfront, cstring_append_of_notMem hvalue,
    List.length_append, List.length_append]
  omega

/-- The text has become shorter, or it has the first byte of a value at a place where the first text
had the byte of the variable. -/
def Spoilt (text₀ var value text : List UInt8) (offset : ℕ) : Prop :=
  (value.length < var.length ∧ strlen text < strlen text₀) ∨
    (value.length = var.length ∧ text.length = text₀.length ∧ ∃ (front vars values : List UInt8) (c d : UInt8) (p : ℕ),
      var = front ++ c :: vars ∧ value = front ++ d :: values ∧ c ≠ d ∧ p ≤ offset ∧
        p + front.length < text₀.length ∧ charAt text₀ (p + front.length) = c ∧
          charAt text (p + front.length) = d)

theorem exists_difference {s t : List UInt8} (hlength : s.length = t.length) (hne : s ≠ t) :
    ∃ (front behind behind' : List UInt8) (c d : UInt8),
      s = front ++ c :: behind ∧ t = front ++ d :: behind' ∧ c ≠ d := by
  induction s generalizing t with
  | nil => exact absurd (List.length_eq_zero_iff.mp hlength.symm).symm hne
  | cons a s ih =>
    cases t with
    | nil => cases hlength
    | cons b t =>
      rcases eq_or_ne a b with rfl | hab
      · obtain ⟨front, behind, behind', c, d, hs, ht, hcd⟩ :=
          ih (Nat.succ.inj hlength) fun hst => hne (hst ▸ rfl)
        exact ⟨a :: front, behind, behind', c, d, by rw [hs]; rfl, by rw [ht]; rfl, hcd⟩
      · exact ⟨[], s, t, a, b, rfl, rfl, hab⟩

theorem charAt_behind {front behind : List UInt8} {c : UInt8} (hfront : (text.take place).length = place) :
    charAt (text.take place ++ (front ++ c :: behind)) (place + front.length) = c := by
  have hplace : place + front.length = (text.take place ++ front).length := by
    rw [List.length_append, hfront]
  rw [hplace, ← List.append_assoc]
  exact charAt_length_append _ _ _

theorem Spoilt.first (h : search var 0 text = some place) (hvalue : 0 ∉ value)
    (hle : value.length ≤ var.length) (hne : value ≠ var) :
    Spoilt text var value (written var value text place) place := by
  rcases Nat.lt_or_eq_of_le hle with hlt | hsame
  · have hstrlen := strlen_written h (Nat.zero_le _) (List.not_mem_nil) hvalue
    exact .inl ⟨hlt, by omega⟩
  · obtain ⟨front, vars, values, c, d, hvar, hval, hcd⟩ := exists_difference hsame.symm hne.symm
    obtain ⟨i, -, -, hfront, hroom, hsplit⟩ := search_eq_some h (Nat.zero_le _)
    have hlength := length_written h (Nat.zero_le _) value
    refine .inr ⟨hsame, by omega, front, vars, values, c, d, place, hvar, hval, hcd, le_rfl, ?_, ?_, ?_⟩
    · rw [hvar, List.length_append, List.length_cons] at hroom
      omega
    · rw [hsplit, hvar, List.append_assoc, List.cons_append]
      exact charAt_behind hfront
    · rw [written, hval, List.append_assoc, List.cons_append]
      exact charAt_behind hfront

theorem Spoilt.next {text₀ : List UInt8} (h : Spoilt text₀ var value text offset)
    (hsearch : search var offset text = some place) (hoffset : offset ≤ text.length)
    (hclean : 0 ∉ text.take offset) (hvalue : 0 ∉ value) :
    Spoilt text₀ var value (written var value text place) place := by
  obtain ⟨i, -, hi, hfront, hroom, hsplit⟩ := search_eq_some hsearch hoffset
  rcases h with ⟨hlt, hshorter⟩ |
    ⟨hsame, hlength, front, vars, values, c, d, p, hvar, hval, hcd, hp, hlt, hold, hnew⟩
  · have hstrlen := strlen_written hsearch hoffset hclean hvalue
    exact .inl ⟨hlt, by omega⟩
  · have hwritten := length_written hsearch hoffset value
    refine .inr ⟨hsame, by omega, front, vars, values, c, d, p, hvar, hval, hcd, by omega, hlt, hold, ?_⟩
    have hnot : p ≠ place := by
      rintro rfl
      have hthere : charAt text (p + front.length) = c := by
        rw [hsplit, hvar, List.append_assoc, List.cons_append]
        exact charAt_behind hfront
      exact hcd (hthere.symm.trans hnew)
    -- the round writes the same bytes up to the place where value and variable differ
    have hbefore : p + front.length < (text.take place ++ front).length := by
      rw [List.length_append, hfront]
      omega
    rw [written, hval, List.append_assoc, ← List.append_assoc, charAt_append_left hbefore, ← hnew]
    conv_rhs => rw [hsplit, hvar, List.append_assoc, ← List.append_assoc, charAt_append_left hbefore]

/-- What was spoilt is seen in the bytes that the request denotes. -/
theorem Spoilt.ne {text₀ : List UInt8} (h : Spoilt text₀ var value text offset)
    (hcontains : Contains mh text) : mh.content.take text₀.length ≠ text₀ := by
  intro hsame
  obtain ⟨rest, hcontent⟩ := hcontains.content
  rcases h with ⟨-, hshorter⟩ | ⟨-, hlength, front, vars, values, c, d, p, -, -, hcd, -, hlt, hold, hnew⟩
  · have hstring : strlen mh.content = strlen text := by
      rw [strlen, hcontent, cstring_append_zero, strlen]
    have hzero := charAt_strlen mh.content
    rw [hstring, ← charAt_take (hshorter.trans_le (strlen_le text₀)), hsame] at hzero
    exact charAt_ne_zero hshorter hzero
  · apply hcd
    rw [← hold, ← hnew]
    conv_lhs => rw [← hsame, charAt_take hlt, hcontent, charAt_append_left (by rwa [hlength])]

/-! The loop. -/

theorem allDone_block (hle : value.length ≤ var.length) :
    AllDone allocator var value n block text offset ↔ AllDone allocator var value n block' text offset := by
  cases n with
  | zero => exact Iff.rfl
  | succ n =>
    have hgranted : ∀ block, Granted allocator var value block text := fun _ => .inl hle
    simp only [AllDone, hgranted, true_and]

theorem allDone_succ (hsearch : search var offset text = some place)
    (hgranted : Granted allocator var value block text)
    (hblock : var.length < value.length → block' = written var value text place ++ [0]) :
    AllDone allocator var value (n + 1) block text offset ↔
      AllDone allocator var value n block' (written var value text place) place := by
  have hmore : AllDone allocator var value (n + 1) block text offset ↔
      AllDone allocator var value n (written var value text place ++ [0])
        (written var value text place) place := by
    constructor
    · rintro ⟨place', hplace', -, hrest⟩
      obtain rfl := Option.some.inj (hsearch.symm.trans hplace')
      exact hrest
    · exact fun hrest => ⟨place, hsearch, hgranted, hrest⟩
  rw [hmore]
  rcases Nat.lt_or_ge var.length value.length with hlt | hge
  · rw [hblock hlt]
  · exact allDone_block hge

theorem not_allDone_succ (hnot : ¬ Granted allocator var value block text) :
    ¬ AllDone allocator var value (n + 1) block text offset :=
  fun ⟨_, _, hgranted, _⟩ => hnot hgranted

theorem notMem_take_written (h : search var offset text = some place) (hoffset : offset ≤ text.length)
    (hclean : 0 ∉ text.take offset) (value : List UInt8) :
    0 ∉ (written var value text place).take place := by
  obtain ⟨i, -, -, hfront, -, -⟩ := search_eq_some h hoffset
  have htake : (written var value text place).take place = text.take place := by
    rw [written, List.take_append_of_le_length (Nat.le_of_eq hfront.symm), List.take_of_length_le]
    exact Nat.le_of_eq hfront
  rw [htake]
  exact (notMem_of_search h hoffset hclean).1

/-- The loop does all rounds, or it stops at one: by a fault, or with a text to which a few rounds more
have been done, and with the first block released if it was. -/
theorem replaceTracked_cases (h : Contains mh text) (hvalue : 0 ∉ value) (hshort : value.length < 2 ^ 32)
    (hoffset : offset ≤ text.length) (hclean : 0 ∉ text.take offset) :
    (AllDone allocator var value n mh.content text offset ∧
      ∃ mh' released' text', replaceTracked allocator var value n mh offset released =
          .ok (true, mh', released') ∧
        rounds var value n offset text = some text' ∧ Contains mh' text') ∨
    (¬ AllDone allocator var value n mh.content text offset ∧
      (replaceTracked allocator var value n mh offset released = .error .outOfBounds ∨
      ∃ mh' released' text' offset', replaceTracked allocator var value n mh offset released =
          .ok (false, mh', released') ∧ Contains mh' text' ∧ (released = true → released' = true) ∧
        ∀ text₀, Spoilt text₀ var value text offset → Spoilt text₀ var value text' offset')) := by
  induction n generalizing mh text offset released with
  | zero => exact .inl ⟨trivial, mh, released, text, rfl, rfl, h⟩
  | succ n ih =>
    rw [replaceTracked, rounds]
    rcases @inject_cases allocator _ _ var value _ h hshort hoffset with
      ⟨hnone, hinject, hreleases⟩ | ⟨place, hsearch, hround⟩
    · refine .inr ⟨?_, .inr ⟨mh, released, text, offset, ?_, h, id, fun _ => id⟩⟩
      · rintro ⟨place, hsome, -⟩
        rw [hnone] at hsome
        cases hsome
      · rw [hinject, hreleases, Bool.or_false]
        rfl
    · rcases hround with ⟨hgranted, ⟨mh', hinject, hcontains, hblock⟩, hreleases⟩ |
        ⟨hnot, hlt, ⟨-, hfault⟩ | ⟨hrefused, hinject, hreleases⟩⟩
      · have hsame := @allDone_succ allocator _ _ n _ _ _ _ _ hsearch hgranted hblock
        have hrest := @ih mh' place (released || releases allocator mh offset var value) _ hcontains
          (le_length_written hsearch hoffset value) (notMem_take_written hsearch hoffset hclean value)
        rw [hsame, hinject, hsearch]
        rcases hrest with hall | ⟨hnot, hfault | ⟨mh'', released', text', offset', hrun, hcon, hrel, hspoilt⟩⟩
        · exact .inl hall
        · exact .inr ⟨hnot, .inl hfault⟩
        · refine .inr ⟨hnot, .inr ⟨mh'', released', text', offset', hrun, hcon, fun hreleased => ?_,
            fun text₀ hspoilt₀ => hspoilt text₀ (hspoilt₀.next hsearch hoffset hclean hvalue)⟩⟩
          exact hrel (by rw [hreleased, Bool.true_or])
      · refine .inr ⟨not_allDone_succ hnot, .inl ?_⟩
        rw [hfault]
        rfl
      · refine .inr ⟨not_allDone_succ hnot, .inr ⟨mh, released || releases allocator mh offset var value, text, offset,
          ?_, h, ?_, fun _ => id⟩⟩
        · rw [hinject]
          rfl
        · exact fun hreleased => by rw [hreleased, Bool.true_or]

/-! The call. -/

theorem allDone_same (h : search var offset text = some place) (hoffset : offset ≤ text.length) (n : ℕ)
    (block : List UInt8) : AllDone allocator var var n block text offset := by
  induction n generalizing offset block with
  | zero => trivial
  | succ n ih =>
    obtain ⟨i, hi, hplace, hfront, hroom, hsplit⟩ := search_eq_some h hoffset
    have hwritten : written var var text place = text := hsplit.symm
    have hthere : search var place text = some place := by
      have hvar : 0 ∉ var := fun hmem =>
        zero_notMem_cstring _ (List.mem_of_mem_drop ((prefix_of_firstAt hi).subset hmem))
      have hdrop : text.drop place = var ++ text.drop (place + var.length) := by
        conv_lhs => rw [hsplit]
        exact List.drop_left' hfront
      rw [search, hdrop, cstring_append_of_notMem hvar, firstAt_begin (List.prefix_append ..)]
      rfl
    refine ⟨place, h, .inl le_rfl, ?_⟩
    rw [hwritten]
    exact ih hthere (by omega) _

theorem Ready.denotes (h : Ready dr block text) : Denotes dr text := by
  obtain ⟨rest, hbegins⟩ := h.begins
  refine ⟨h.size, block, h.content, ?_⟩
  rw [hbegins, List.take_left]

/-- A call that is refused at once, one that does it all, and one that gives up in between. -/
theorem call_cases (h : Ready dr block text) (hn : n ≠ 0) (hvalue : 0 ∉ value)
    (hshort : value.length < 2 ^ 32) :
    (Refused allocator var value block text ∧
      replaceAllVarsInDynamicRequest allocator dr n var value = .ok (false, dr)) ∨
    (¬ Refused allocator var value block text ∧ AllDone allocator var value n block text 0 ∧
      ∃ dr' text', replaceAllVarsInDynamicRequest allocator dr n var value = .ok (true, dr') ∧
        rounds var value n 0 text = some text' ∧ text'.length < 2 ^ 32 ∧ Denotes dr' text') ∨
    (¬ Refused allocator var value block text ∧ ¬ AllDone allocator var value n block text 0 ∧
      (replaceAllVarsInDynamicRequest allocator dr n var value = .error .outOfBounds ∨
      ∃ dr', replaceAllVarsInDynamicRequest allocator dr n var value = .ok (false, dr') ∧
        ¬ Denotes dr' text)) := by
  obtain ⟨m, rfl⟩ := Nat.exists_eq_succ_of_ne_zero hn
  obtain ⟨rest, hbegins⟩ := h.begins
  have hval : value.length % 2 ^ 32 = value.length := Nat.mod_eq_of_lt hshort
  have hcontains : Contains ⟨dr.MAXcontentSize % 2 ^ 32, dr.contentSize % 2 ^ 32, block⟩ text :=
    ⟨h.begins, (congrArg (· % 2 ^ 32) h.size).trans (Nat.mod_eq_of_lt h.bound), h.bound⟩
  have hcall : ∀ {run}, replaceTracked allocator var value (m + 1)
        ⟨dr.MAXcontentSize % 2 ^ 32, dr.contentSize % 2 ^ 32, block⟩ 0 false = run →
      replaceAllVarsInDynamicRequest allocator dr (m + 1) var value =
        run.map fun (status, mh, released) =>
          if status then (true, ⟨some mh.content, mh.contentCurrentLength, mh.contentSize⟩)
          else (false, { dr with content := if released then none else some mh.content }) := by
    rintro run rfl
    rw [replaceAllVarsInDynamicRequest, h.content]
    rfl
  have hkept : ({ dr with content := some block } : DynamicRequest) = dr := by
    rw [← h.content]
  rcases @inject_cases allocator _ 0 var value _ hcontains hshort (Nat.zero_le _) with
    ⟨hnone, hinject, hreleases⟩ | ⟨place, hsearch, hround⟩
  · refine .inl ⟨.inl hnone, ?_⟩
    have hrun : replaceTracked allocator var value (m + 1)
        ⟨dr.MAXcontentSize % 2 ^ 32, dr.contentSize % 2 ^ 32, block⟩ 0 false =
          .ok (false, ⟨dr.MAXcontentSize % 2 ^ 32, dr.contentSize % 2 ^ 32, block⟩, false) := by
      rw [replaceTracked, hinject, hreleases]
      rfl
    rw [hcall hrun]
    exact congrArg (fun dr => Except.ok (false, dr)) hkept
  · have hfound : search var 0 text ≠ none := by
      rw [hsearch]
      exact Option.some_ne_none _
    rcases hround with ⟨hgranted, ⟨mh', hinject, hcontains', hblock⟩, hreleases⟩ |
      ⟨hnot, hlt, ⟨hsome, hfault⟩ | ⟨hrefused, hinject, hreleases⟩⟩
    · have hnotRefused : ¬ Refused allocator var value block text := by
        rintro (hnone | ⟨hlt, -, hrefused⟩)
        · exact hfound hnone
        · rw [hval] at hlt hrefused
          rcases hgranted with hle | ⟨hfits, hroom⟩
          · omega
          · rw [Nat.mod_eq_of_lt (Nat.lt_of_succ_lt hfits), Nat.mod_eq_of_lt hfits] at hrefused
            exact hroom hrefused
      have hrun : ∀ {run}, replaceTracked allocator var value m mh' place
            (decide (var.length < value.length)) = run →
          replaceTracked allocator var value (m + 1)
            ⟨dr.MAXcontentSize % 2 ^ 32, dr.contentSize % 2 ^ 32, block⟩ 0 false = run := by
        rintro run rfl
        rw [replaceTracked, hinject, hreleases]
        rfl
      have hall := @allDone_succ allocator 0 _ m _ _ _ block _ hsearch hgranted hblock
      have hoffset := le_length_written hsearch (Nat.zero_le _) value
      have hclean := notMem_take_written hsearch (Nat.zero_le _) List.not_mem_nil value
      rw [hall]
      rcases @replaceTracked_cases allocator _ place m (decide (var.length < value.length)) _ _ _
        hcontains' hvalue hshort hoffset hclean with
        ⟨hdone, mh'', released', text', hloop, hrounds, hnew⟩ |
        ⟨hstopped, hfault | ⟨mh'', released', text', offset', hloop, hnew, hreleased, hspoilt⟩⟩
      · obtain ⟨rest', hcontent⟩ := hnew.content
        refine .inr (.inl ⟨hnotRefused, hdone, _, text', hcall (hrun hloop), ?_, hnew.bound, hnew.length,
          mh''.content, rfl, ?_⟩)
        · rw [rounds, hsearch]
          exact hrounds
        · rw [hcontent, List.take_left]
      · exact .inr (.inr ⟨hnotRefused, hstopped, .inl (hcall (hrun hfault))⟩)
      · refine .inr (.inr ⟨hnotRefused, hstopped, .inr ⟨_, hcall (hrun hloop), ?_⟩⟩)
        rintro ⟨-, block', hblock', htake⟩
        rcases Nat.lt_or_ge var.length value.length with hlt | hge
        · -- the pointer was not copied back
          have hgone : (if released' = true then none else some mh''.content) = some block' := hblock'
          rw [if_pos (hreleased (decide_eq_true hlt))] at hgone
          cases hgone
        · rcases eq_or_ne value var with rfl | hne
          · have hagain := @allDone_same allocator _ _ _ _ hsearch (Nat.zero_le _) (m + 1) block
            exact hstopped (hall.mp hagain)
          · have hthere : (if released' = true then none else some mh''.content) = some block' := hblock'
            split at hthere
            · cases hthere
            · obtain rfl := Option.some.inj hthere
              exact (hspoilt text (Spoilt.first hsearch hvalue hge hne)).ne hnew htake
    · refine .inr (.inr ⟨?_, not_allDone_succ hnot, .inl ?_⟩)
      · rintro (hnone | ⟨-, -, hrefused⟩)
        · exact hfound hnone
        · rw [hval] at hrefused
          exact hsome hrefused
      · have hrun : replaceTracked allocator var value (m + 1)
            ⟨dr.MAXcontentSize % 2 ^ 32, dr.contentSize % 2 ^ 32, block⟩ 0 false = .error .outOfBounds := by
          rw [replaceTracked, hfault]
          rfl
        exact hcall hrun
    · have hrun : replaceTracked allocator var value (m + 1)
          ⟨dr.MAXcontentSize % 2 ^ 32, dr.contentSize % 2 ^ 32, block⟩ 0 false =
            .ok (false, ⟨dr.MAXcontentSize % 2 ^ 32, dr.contentSize % 2 ^ 32, block⟩,
              decide (((text.length + (value.length - var.length)) % 2 ^ 32 + 1) % 2 ^ 32 = 0)) := by
        rw [replaceTracked, hinject, hreleases]
        rfl
      rcases eq_or_ne (((text.length + (value.length - var.length)) % 2 ^ 32 + 1) % 2 ^ 32) 0 with
        hzero | hsize
      · rw [decide_eq_true hzero] at hrun
        refine .inr (.inr ⟨?_, not_allDone_succ hnot, .inr ⟨_, hcall hrun, ?_⟩⟩)
        · rintro (hnone | ⟨-, hsize, -⟩)
          · exact hfound hnone
          · rw [hval] at hsize
            exact hsize hzero
        · rintro ⟨-, block', hblock', -⟩
          cases hblock'
      · rw [decide_eq_false hsize] at hrun
        refine .inl ⟨.inr ?_, ?_⟩
        · rw [hval]
          exact ⟨hlt, hsize, hrefused⟩
        · rw [hcall hrun]
          exact congrArg (fun dr => Except.ok (false, dr)) hkept

/-! Values of 4 GiB or more: so much of them is written as their length as an `unsigned int` says. -/

theorem length_kept (value : List UInt8) :
    (value.take (value.length % 2 ^ 32)).length = value.length % 2 ^ 32 :=
  List.length_take_of_le (Nat.mod_le _ _)

theorem inject_kept (mh : MemoryHandler) (offset : ℕ) (var value : List UInt8) :
    injectDataToMemoryHandlerOffset allocator mh offset var (value.take (value.length % 2 ^ 32)) =
      injectDataToMemoryHandlerOffset allocator mh offset var value := by
  unfold injectDataToMemoryHandlerOffset
  simp only [length_kept, Nat.mod_mod, List.take_take, Nat.min_self]

theorem releases_kept (mh : MemoryHandler) (offset : ℕ) (var value : List UInt8) :
    releases allocator mh offset var (value.take (value.length % 2 ^ 32)) =
      releases allocator mh offset var value := by
  unfold releases
  rw [length_kept, Nat.mod_mod]

theorem call_kept (dr : DynamicRequest) (n : ℕ) (var value : List UInt8) :
    replaceAllVarsInDynamicRequest allocator dr n var (value.take (value.length % 2 ^ 32)) =
      replaceAllVarsInDynamicRequest allocator dr n var value := by
  have hloop : ∀ n mh offset released,
      replaceTracked allocator var (value.take (value.length % 2 ^ 32)) n mh offset released =
        replaceTracked allocator var value n mh offset released := by
    intro n
    induction n with
    | zero => exact fun _ _ _ => rfl
    | succ n ih =>
      intro mh offset released
      simp only [replaceTracked, inject_kept, releases_kept, ih]
  simp only [replaceAllVarsInDynamicRequest, hloop]

theorem refused_kept (allocator : Allocator) (var value block text : List UInt8) :
    Refused allocator var (value.take (value.length % 2 ^ 32)) block text ↔
      Refused allocator var value block text := by
  unfold Refused
  rw [length_kept, Nat.mod_mod]

theorem length_rounds (h : rounds var value n offset text = some text') (hoffset : offset ≤ text.length) :
    text'.length + n * var.length = text.length + n * value.length := by
  induction n generalizing offset text with
  | zero =>
    cases h
    rw [Nat.zero_mul, Nat.zero_mul]
  | succ n ih =>
    obtain ⟨place, hsearch, hrest⟩ := Option.bind_eq_some_iff.mp h
    have hlength := ih hrest (le_length_written hsearch hoffset value)
    have hwritten := length_written hsearch hoffset value
    rw [Nat.succ_mul, Nat.succ_mul]
    omega

/-- No round has room for such a value. -/
theorem not_allDone_of_long (hpos : 0 < n) (hbound : text.length < 2 ^ 32) (hlong : 2 ^ 32 ≤ value.length) :
    ¬ AllDone allocator var value n block text 0 := by
  obtain ⟨m, rfl⟩ := Nat.exists_eq_succ_of_ne_zero hpos.ne'
  rintro ⟨place, hsearch, hgranted, -⟩
  obtain ⟨i, -, -, -, hroom, -⟩ := search_eq_some hsearch (Nat.zero_le _)
  rcases hgranted with hle | ⟨hfits, -⟩
  · omega
  · omega

/-- The request stays usable just if the first round is refused or all rounds are done. -/
theorem usable_iff (h : Ready dr block text) (hvalue : 0 ∉ value) :
    Usable allocator dr text n var value ↔
      Refused allocator var value block text ∨ AllDone allocator var value n block text 0 := by
  rcases Nat.eq_zero_or_pos n with rfl | hpos
  · have hcall : replaceAllVarsInDynamicRequest allocator dr 0 var value = .ok (false, dr) := by
      rw [replaceAllVarsInDynamicRequest, h.content]
      rfl
    refine iff_of_true ⟨false, dr, hcall, fun _ => ⟨rfl, h.denotes⟩, fun htrue => ?_⟩ (.inr trivial)
    cases htrue
  have hkept : 0 ∉ value.take (value.length % 2 ^ 32) := fun hmem => hvalue (List.mem_of_mem_take hmem)
  have hmod : value.length % 2 ^ 32 < 2 ^ 32 := Nat.mod_lt _ (Nat.two_pow_pos 32)
  rcases @call_cases allocator n var _ text block dr h hpos.ne' hkept (by rwa [length_kept]) with
    ⟨hrefused, hcall⟩ | ⟨hnot, hdone, dr', text', hcall, hrounds, hbound, hdenotes⟩ |
    ⟨hnot, hstopped, hend⟩
  · rw [refused_kept] at hrefused
    rw [call_kept] at hcall
    refine iff_of_true ⟨false, dr, hcall, fun _ => ⟨rfl, h.denotes⟩, fun htrue => ?_⟩ (.inl hrefused)
    cases htrue
  · rw [refused_kept] at hnot
    rw [call_kept] at hcall
    rcases Nat.lt_or_ge value.length (2 ^ 32) with hshort | hlong
    · rw [Nat.mod_eq_of_lt hshort, List.take_length] at hdone hrounds
      refine iff_of_true ⟨true, dr', hcall, fun hfalse => ?_, fun _ => ⟨text', hrounds, hdenotes⟩⟩
        (.inr hdone)
      cases hfalse
    · refine iff_of_false ?_ ?_
      · rintro ⟨status, dr'', hcall', -, htrue⟩
        obtain ⟨rfl, rfl⟩ := Prod.mk.inj (Except.ok.inj (hcall.symm.trans hcall'))
        obtain ⟨text'', hrounds', hdenotes'⟩ := htrue rfl
        -- the text is too long for the size that was copied
        have hlength := length_rounds hrounds' (Nat.zero_le _)
        have hsame : text'.length = text''.length := hdenotes.1.symm.trans hdenotes'.1
        obtain ⟨m, rfl⟩ := Nat.exists_eq_succ_of_ne_zero hpos.ne'
        obtain ⟨place, hsearch, -⟩ := Option.bind_eq_some_iff.mp hrounds'
        obtain ⟨i, -, -, -, hroom, -⟩ := search_eq_some hsearch (Nat.zero_le _)
        have hmul := Nat.mul_le_mul_left m (hroom.trans (h.bound.le.trans hlong) |> Nat.le_of_add_left_le)
        rw [Nat.succ_mul, Nat.succ_mul] at hlength
        have hbound' := h.bound
        omega
      · rintro (hrefused | hall)
        · exact hnot hrefused
        · exact not_allDone_of_long hpos h.bound hlong hall
  · rw [refused_kept] at hnot
    refine iff_of_false ?_ ?_
    · rintro ⟨status, dr', hcall, hfalse, -⟩
      rw [call_kept] at hend
      rcases hend with hfault | ⟨dr'', hcall', hdenotes⟩
      · rw [hfault] at hcall
        cases hcall
      · obtain ⟨rfl, rfl⟩ := Prod.mk.inj (Except.ok.inj (hcall'.symm.trans hcall))
        exact hdenotes (hfalse rfl).2
    · rintro (hrefused | hall)
      · exact hnot hrefused
      · rcases Nat.lt_or_ge value.length (2 ^ 32) with hshort | hlong
        · rw [Nat.mod_eq_of_lt hshort, List.take_length] at hstopped
          exact hstopped hall
        · exact not_allDone_of_long hpos h.bound hlong hall

/-- `$a$b` with `xy` for both of the `$`, and with `xy` for one `&`. -/
theorem usable_twice :
    Usable unlimited ⟨some [36, 97, 36, 98, 0], 4, 5⟩ [36, 97, 36, 98] 2 [36] [120, 121] ∧
      Usable unlimited ⟨some [36, 97, 36, 98, 0], 4, 5⟩ [36, 97, 36, 98] 1 [38] [120, 121] := by
  have hready : Ready ⟨some [36, 97, 36, 98, 0], 4, 5⟩ [36, 97, 36, 98, 0] [36, 97, 36, 98] :=
    ⟨rfl, ⟨[], rfl⟩, rfl, by decide⟩
  refine ⟨(usable_iff hready (by decide)).mpr (.inr ⟨0, rfl, .inr ⟨by decide, Option.some_ne_none _⟩,
    3, rfl, .inr ⟨by decide, Option.some_ne_none _⟩, trivial⟩),
    (usable_iff hready (by decide)).mpr (.inl (.inl rfl))⟩

/-- `$a` with `xyz` for two `$`: the second is not there, and the request points at the block that
the first has released. -/
theorem half_done_not_usable : ¬ Usable unlimited ⟨some [36, 97, 0], 2, 3⟩ [36, 97] 2 [36] [120, 121, 122] := by
  rintro ⟨status, dr', hcall, hfalse, -⟩
  cases hcall
  obtain ⟨-, -, block, hblock, -⟩ := hfalse rfl
  cases hblock

end AmmarServer.AString
