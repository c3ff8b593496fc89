import AmmarServer.HeaderAnalysis.LineHandlers

/-! What `header_analysis/cookie_data.c` stores of a cookie line, against the pairs that the line
spells, and the lookup over what was stored. -/

namespace AmmarServer.HeaderAnalysis
open Bytes CString

/-! ## The pairs of a line -/

/-- A name with its value; a bare name has none. -/
abbrev CookiePair := List UInt8 × Option (List UInt8)

def cookiePair (segment : List UInt8) : CookiePair :=
  (segment.takeWhile (· ≠ 61),
    if 61 ∈ segment then some ((segment.dropWhile (· ≠ 61)).drop 1) else none)

/-- The segments between semicolons, without the spaces in front of them and without the empty
ones. -/
def cookieSegments (value : List UInt8) : List (List UInt8) :=
  ((value.splitOn 59).map fun segment => segment.dropWhile (· = 32)).filter (· ≠ [])

def cookiePairs (value : List UInt8) : List CookiePair := (cookieSegments value).map cookiePair

/-- What the outer line walker and the parser stop at does not occur. -/
def Unterminated (value : List UInt8) : Prop := ∀ c ∈ value, isTerminator c = false

/-- A separator that was overwritten with a NUL, or the byte that was there. -/
def Kept (c c' : UInt8) : Prop := c' = c ∨ (c = 61 ∨ c = 59) ∧ c' = 0

namespace CookieItem

def nameIn (buffer : List UInt8) (item : CookieItem) : List UInt8 :=
  (buffer.drop item.name).take item.nameSize

def valueIn (buffer : List UInt8) (item : CookieItem) : Option (List UInt8) :=
  item.value.map fun value => (buffer.drop value.1).take value.2

/-- The pointers and sizes of an item say in `buffer` what the pair says. -/
structure Reads (buffer : List UInt8) (item : CookieItem) (pair : CookiePair) : Prop where
  name : item.nameIn buffer = pair.1
  nameSize : item.nameSize = pair.1.length
  value : item.valueIn buffer = pair.2
  valueSize : item.value.map Prod.snd = pair.2.map List.length

end CookieItem

/-- The loop of `getCOOKIEItemFromName`: the index of the item, `none` for a null pointer. -/
def getCOOKIEItemFromName (rqst : IncomingHeader) (nameToLookFor : List UInt8) : Option ℕ :=
  (rqst.COOKIEItem.take MAX_HTTP_GET_VARIABLE_COUNT).findIdx? fun p =>
    p.nameSize = nameToLookFor.length ∧
      (rqst.headerRAW.drop p.name).take nameToLookFor.length = nameToLookFor

/-! ## Segments one after the other -/

theorem cookieSegments_cons {c : UInt8} (hc : c = 32 ∨ c = 59) (value : List UInt8) :
    cookieSegments (c :: value) = cookieSegments value := by
  rcases hc with rfl | rfl
  · have hne : value.splitOn 59 ≠ [] := List.splitOn_ne_nil 59 value
    rw [cookieSegments, cookieSegments, List.splitOn_cons_eq_if_modifyHead, if_neg (by decide)]
    cases hsplit : value.splitOn 59 with
    | nil => exact absurd hsplit hne
    | cons segment segments => rfl
  · rw [cookieSegments, cookieSegments, List.splitOn_cons_eq_if_modifyHead, if_pos (by decide)]
    rfl

theorem cookieSegments_skip {skipped : List UInt8} (hskipped : ∀ c ∈ skipped, c = 32 ∨ c = 59)
    (value : List UInt8) : cookieSegments (skipped ++ value) = cookieSegments value := by
  induction skipped with
  | nil => rfl
  | cons c skipped ih =>
    obtain ⟨hc, hskipped⟩ := List.forall_mem_cons.mp hskipped
    rw [List.cons_append, cookieSegments_cons hc, ih hskipped]

theorem trimmed_segment {segment : List UInt8} (hhead : ∀ c ∈ segment.head?, c ≠ 32) :
    segment.dropWhile (· = 32) = segment := by
  cases segment with
  | nil => rfl
  | cons c segment => exact List.dropWhile_cons_of_neg (by simpa using hhead c rfl)

theorem cookiePairs_last {segment : List UInt8} (hne : segment ≠ []) (hsegment : 59 ∉ segment)
    (hhead : ∀ c ∈ segment.head?, c ≠ 32) : cookiePairs segment = [cookiePair segment] := by
  rw [cookiePairs, cookieSegments, List.splitOn_eq_singleton hsegment, List.map_singleton,
    trimmed_segment hhead, List.filter_cons_of_pos (by simpa using hne)]
  rfl

theorem cookiePairs_append {segment : List UInt8} (hne : segment ≠ []) (hsegment : 59 ∉ segment)
    (hhead : ∀ c ∈ segment.head?, c ≠ 32) (value : List UInt8) :
    cookiePairs (segment ++ 59 :: value) = cookiePair segment :: cookiePairs value := by
  rw [cookiePairs, cookieSegments, List.splitOn_append_cons_self_of_not_mem hsegment, List.map_cons,
    trimmed_segment hhead, List.filter_cons_of_pos (by simpa using hne)]
  rfl

theorem cookiePair_bare {name : List UInt8} (hname : 61 ∉ name) :
    cookiePair name = (name, none) := by
  have hall : name.takeWhile (· ≠ 61) = name :=
    List.takeWhile_eq_self_iff.mpr fun c hc => by
      simp only [decide_eq_true_eq]
      rintro rfl
      exact hname hc
  rw [cookiePair, hall, if_neg hname]

theorem cookiePair_assigned {name : List UInt8} (hname : 61 ∉ name) (text : List UInt8) :
    cookiePair (name ++ 61 :: text) = (name, some text) := by
  have hall : ∀ c ∈ name, decide (c ≠ 61) = true := fun c hc => by
    simp only [decide_eq_true_eq]
    rintro rfl
    exact hname hc
  rw [cookiePair, List.takeWhile_append_of_pos hall, List.dropWhile_append_of_pos hall,
    if_pos (by simp)]
  simp

/-! ## The loop -/

section
variable {before text : List UInt8} {p : UInt8 → Bool} {stop : ℕ}

theorem drop_take_length (before rest : List UInt8) (stop : ℕ) :
    ((before ++ rest).take stop).drop before.length = rest.take (stop - before.length) := by
  rw [List.drop_take, List.drop_left]

theorem skipWhile_until {c : UInt8} (htext : ∀ d ∈ text, p d = true) (hc : p c = false)
    (hstop : before.length + text.length ≤ stop) (behind : List UInt8) :
    skipWhile (before ++ (text ++ c :: behind)) stop p before.length =
      before.length + text.length := by
  have htake : (text ++ c :: behind).take (stop - before.length) =
      text ++ (c :: behind).take (stop - before.length - text.length) := by
    rw [List.take_append, List.take_of_length_le (by omega)]
  rw [skipWhile, drop_take_length, htake, List.takeWhile_append_of_pos htext]
  cases stop - before.length - text.length with
  | zero => simp
  | succ n => rw [List.take_succ_cons, List.takeWhile_cons_of_neg (by simp [hc]), List.append_nil]

theorem skipWhile_to_end (htext : ∀ d ∈ text, p d = true)
    (hstop : before.length + text.length = stop) (behind : List UInt8) :
    skipWhile (before ++ (text ++ behind)) stop p before.length = stop := by
  have htake : (text ++ behind).take (stop - before.length) = text := by
    rw [← hstop, Nat.add_sub_cancel_left, List.take_left]
  rw [skipWhile, drop_take_length, htake, List.takeWhile_eq_self_iff.mpr htext, hstop]

end

theorem set_length_append (before behind : List UInt8) (c c' : UInt8) :
    (before ++ c :: behind).set before.length c' = before ++ c' :: behind := by
  rw [List.set_append_right _ _ le_rfl, Nat.sub_self, List.set_cons_zero]

theorem charAt_length_append (before behind : List UInt8) (c : UInt8) :
    charAt (before ++ c :: behind) before.length = c := by
  rw [charAt_eq (by simp)]
  simp

theorem reads_bare {before name : List UInt8} {start : ℕ} (hstart : before.length = start)
    (behind : List UInt8) :
    CookieItem.Reads (before ++ (name ++ behind)) ⟨start, name.length, none⟩ (name, none) := by
  subst hstart
  refine ⟨?_, rfl, rfl, rfl⟩
  rw [CookieItem.nameIn, List.drop_left, List.take_left]

theorem reads_assigned {before name text : List UInt8} {start : ℕ} (hstart : before.length = start)
    (c : UInt8) (behind : List UInt8) :
    CookieItem.Reads (before ++ (name ++ c :: (text ++ behind)))
      ⟨start, name.length, some (start + name.length + 1, text.length)⟩ (name, some text) := by
  subst hstart
  refine ⟨?_, rfl, ?_, rfl⟩
  · rw [CookieItem.nameIn, List.drop_left, List.take_left]
  · rw [CookieItem.valueIn, Option.map_some, Nat.add_assoc, ← List.drop_drop, List.drop_left,
      ← List.drop_drop, List.drop_left, List.drop_one, List.tail_cons, List.take_left]

/-- What the loop leaves of the bytes of `value` from `start` on, and the items that it adds. The
items read the same before and after, whatever stands in front of `start`. -/
structure Parsed (start : ℕ) (value behind : List UInt8) (room : ℕ) (value' : List UInt8)
    (items : List CookieItem) : Prop where
  kept : List.Forall₂ Kept value value'
  reads : ∀ before before' : List UInt8, before.length = start → before'.length = start →
    List.Forall₂ (fun item pair => CookieItem.Reads (before ++ (value ++ behind)) item pair ∧
        CookieItem.Reads (before' ++ (value' ++ behind)) item pair)
      items ((cookiePairs value).take room)

theorem kept_refl (value : List UInt8) : List.Forall₂ Kept value value :=
  List.forall₂_same.mpr fun _ _ => .inl rfl

namespace Parsed
variable {start room : ℕ} {value behind value' : List UInt8} {items : List CookieItem}

theorem nothing (h : (cookiePairs value).take room = []) :
    Parsed start value behind room value [] := by
  refine ⟨kept_refl value, fun _ _ _ _ => ?_⟩
  rw [h]
  exact List.Forall₂.nil

theorem cons {piece piece' : List UInt8} {item : CookieItem} {pair : CookiePair}
    (hpairs : cookiePairs (piece ++ value) = pair :: cookiePairs value)
    (hkept : List.Forall₂ Kept piece piece')
    (hitem : ∀ before after : List UInt8, before.length = start →
      item.Reads (before ++ (piece ++ after)) pair)
    (hitem' : ∀ before after : List UInt8, before.length = start →
      item.Reads (before ++ (piece' ++ after)) pair)
    (h : Parsed (start + piece.length) value behind room value' items) :
    Parsed start (piece ++ value) behind (room + 1) (piece' ++ value') (item :: items) := by
  refine ⟨List.rel_append hkept h.kept, fun before before' hbefore hbefore' => ?_⟩
  have hrest := h.reads (before ++ piece) (before' ++ piece')
    (by rw [List.length_append, hbefore])
    (by rw [List.length_append, hbefore', hkept.length_eq])
  rw [hpairs, List.take_succ_cons, List.append_assoc, List.append_assoc]
  rw [List.append_assoc, List.append_assoc] at hrest
  exact List.Forall₂.cons ⟨hitem before _ hbefore, hitem' before' _ hbefore'⟩ hrest

theorem last {piece piece' : List UInt8} {item : CookieItem} {pair : CookiePair}
    (hpairs : cookiePairs piece = [pair]) (hkept : List.Forall₂ Kept piece piece')
    (hitem : ∀ before after : List UInt8, before.length = start →
      item.Reads (before ++ (piece ++ after)) pair)
    (hitem' : ∀ before after : List UInt8, before.length = start →
      item.Reads (before ++ (piece' ++ after)) pair) :
    Parsed start piece behind (room + 1) piece' [item] := by
  refine ⟨hkept, fun before before' hbefore hbefore' => ?_⟩
  rw [hpairs, List.take_succ_cons, List.take_nil]
  exact List.Forall₂.cons ⟨hitem before behind hbefore, hitem' before' behind hbefore'⟩
    List.Forall₂.nil

theorem skip {skipped : List UInt8} (hskipped : ∀ c ∈ skipped, c = 32 ∨ c = 59)
    (h : Parsed (start + skipped.length) value behind room value' items) :
    Parsed start (skipped ++ value) behind room (skipped ++ value') items := by
  have hpairs : cookiePairs (skipped ++ value) = cookiePairs value := by
    rw [cookiePairs, cookieSegments_skip hskipped, cookiePairs]
  refine ⟨List.rel_append (kept_refl skipped) h.kept, fun before before' hbefore hbefore' => ?_⟩
  have hrest := h.reads (before ++ skipped) (before' ++ skipped)
    (by rw [List.length_append, hbefore]) (by rw [List.length_append, hbefore'])
  rw [hpairs, List.append_assoc, List.append_assoc]
  rwa [List.append_assoc, List.append_assoc] at hrest

end Parsed

/-- The bytes that a name goes on with. -/
def isNameByte (c : UInt8) : Bool := c ≠ 61 ∧ c ≠ 59 ∧ !isTerminator c

/-- The bytes that a value goes on with. -/
def isValueByte (c : UInt8) : Bool := c ≠ 59 ∧ !isTerminator c

/-- The first byte of a field. -/
def IsFieldStart (c : UInt8) : Prop := c ≠ 32 ∧ c ≠ 59 ∧ isTerminator c = false

theorem IsFieldStart.not_skipped {c : UInt8} (hc : IsFieldStart c) :
    decide (c = 32 ∨ c = 59) = false :=
  decide_eq_false (not_or.mpr ⟨hc.1, hc.2.1⟩)

theorem cookieLoop_skip_all {before skipped : List UInt8} {stop fuel : ℕ}
    {target : List CookieItem} (hskipped : ∀ d ∈ skipped, d = 32 ∨ d = 59)
    (hstop : before.length + skipped.length = stop) (behind : List UInt8) :
    cookieLoop stop fuel before.length (before ++ (skipped ++ behind)) target =
      (before ++ (skipped ++ behind), target) := by
  cases fuel with
  | zero => rfl
  | succ fuel =>
    have hskip := skipWhile_to_end (p := fun c => c = 32 ∨ c = 59)
      (fun d hd => decide_eq_true (hskipped d hd)) hstop behind
    rw [cookieLoop, hskip, if_pos (Or.inl le_rfl), ite_self]

section
variable {before text behind : List UInt8} {c : UInt8} {stop fuel : ℕ} {target : List CookieItem}

theorem cookieLoop_skip {skipped : List UInt8} (hskipped : ∀ d ∈ skipped, d = 32 ∨ d = 59)
    (hc : IsFieldStart c) (hstop : (before ++ skipped).length < stop) :
    cookieLoop stop (fuel + 1) before.length (before ++ (skipped ++ c :: behind)) target =
      cookieLoop stop (fuel + 1) (before ++ skipped).length
        (before ++ skipped ++ c :: behind) target := by
  rw [List.length_append] at hstop
  have hskip : skipWhile (before ++ (skipped ++ c :: behind)) stop
      (fun c => c = 32 ∨ c = 59) before.length = (before ++ skipped).length := by
    rw [List.length_append]
    exact skipWhile_until (fun d hd => decide_eq_true (hskipped d hd)) hc.not_skipped hstop.le _
  have hstay : skipWhile (before ++ skipped ++ c :: behind) stop
      (fun c => c = 32 ∨ c = 59) (before ++ skipped).length = (before ++ skipped).length :=
    skipWhile_until (List.forall_mem_nil _) hc.not_skipped (by simpa using hstop.le) _
  have hlt : (before ++ skipped).length < stop := by rwa [List.length_append]
  rw [cookieLoop, cookieLoop, if_pos hlt, if_pos (by omega), hskip, hstay, List.append_assoc]

theorem field_checks (hc : IsFieldStart c) (hstop : before.length < stop) (rest : List UInt8) :
    skipWhile (before ++ c :: rest) stop (fun c => c = 32 ∨ c = 59) before.length = before.length ∧
      ¬ (before.length ≥ stop ∨
        isTerminator (charAt (before ++ c :: rest) before.length) = true) := by
  constructor
  · exact skipWhile_until (List.forall_mem_nil _) hc.not_skipped (by simpa using hstop.le) rest
  · rw [charAt_length_append, hc.2.2, not_or]
    exact ⟨Nat.not_le_of_lt hstop, Bool.false_ne_true⟩

theorem cookieLoop_bare_last {name : List UInt8} (hne : name ≠ [])
    (hhead : ∀ d ∈ name.head?, IsFieldStart d)
    (hname : ∀ d ∈ name, d ≠ 61 ∧ d ≠ 59 ∧ !isTerminator d)
    (hroom : ¬ target.length ≥ MAX_HTTP_GET_VARIABLE_COUNT)
    (hstop : before.length + name.length = stop) :
    cookieLoop stop (fuel + 1) before.length (before ++ (name ++ behind)) target =
      (before ++ (name ++ behind), target ++ [⟨before.length, name.length, none⟩]) := by
  obtain ⟨c, name, rfl⟩ := List.exists_cons_of_ne_nil hne
  have hc := hhead c rfl
  have hlt : before.length < stop := by
    rw [List.length_cons] at hstop
    omega
  have hscan := skipWhile_to_end (p := fun c => c ≠ 61 ∧ c ≠ 59 ∧ !isTerminator c)
    (fun d hd => decide_eq_true (hname d hd)) hstop behind
  obtain ⟨hskip, hgo⟩ := field_checks hc hlt (name ++ behind)
  rw [← List.cons_append] at hskip hgo
  rw [cookieLoop, if_pos hlt, hskip, if_neg hgo, if_neg hroom, hscan]
  dsimp only
  rw [if_pos (.inl le_rfl), if_pos (.inl le_rfl), if_neg (lt_irrefl stop), ← hstop,
    Nat.add_sub_cancel_left]

theorem cookieLoop_bare {name : List UInt8} (hne : name ≠ [])
    (hhead : ∀ d ∈ name.head?, IsFieldStart d)
    (hname : ∀ d ∈ name, d ≠ 61 ∧ d ≠ 59 ∧ !isTerminator d)
    (hroom : ¬ target.length ≥ MAX_HTTP_GET_VARIABLE_COUNT)
    (hstop : before.length + name.length < stop) :
    cookieLoop stop (fuel + 1) before.length (before ++ (name ++ 59 :: behind)) target =
      cookieLoop stop fuel (before ++ (name ++ [0])).length
        (before ++ (name ++ [0]) ++ behind)
        (target ++ [⟨before.length, name.length, none⟩]) := by
  obtain ⟨c, name, rfl⟩ := List.exists_cons_of_ne_nil hne
  have hc := hhead c rfl
  have hlt : before.length < stop := by omega
  have hscan := skipWhile_until (p := fun c => c ≠ 61 ∧ c ≠ 59 ∧ !isTerminator c)
    (fun d hd => decide_eq_true (hname d hd)) (c := 59) (by decide) hstop.le behind
  have hsplit : before ++ (c :: name ++ 59 :: behind) = before ++ c :: name ++ 59 :: behind := by
    rw [List.append_assoc]
  have hchar := charAt_length_append (before ++ c :: name) behind 59
  have hset := set_length_append (before ++ c :: name) behind 59 0
  rw [← hsplit, List.length_append] at hchar hset
  obtain ⟨hskip, hgo⟩ := field_checks hc hlt (name ++ 59 :: behind)
  rw [← List.cons_append] at hskip hgo
  rw [cookieLoop, if_pos hlt, hskip, if_neg hgo, if_neg hroom, hscan]
  dsimp only
  have hsemicolon : ¬ (before.length + (c :: name).length ≥ stop ∨ isTerminator 59 = true) :=
    not_or.mpr ⟨Nat.not_le_of_lt hstop, Bool.false_ne_true⟩
  rw [hchar, if_pos (.inr (by decide)), if_neg hsemicolon, if_pos hstop, hset,
    Nat.add_sub_cancel_left]
  simp [Nat.add_assoc]

/-- The first half of a round over a name with a value: the scan for the value starts behind the
sign, which has become a NUL. -/
theorem assigned_checks {name : List UInt8} (rest : List UInt8)
    (hhead : ∀ d ∈ (name ++ [61]).head?, IsFieldStart d)
    (hname : ∀ d ∈ name, d ≠ 61 ∧ d ≠ 59 ∧ !isTerminator d)
    (hstop : before.length + name.length < stop) :
    (skipWhile (before ++ (name ++ 61 :: rest)) stop (fun c => c = 32 ∨ c = 59) before.length =
          before.length ∧
        ¬ (before.length ≥ stop ∨
          isTerminator (charAt (before ++ (name ++ 61 :: rest)) before.length) = true)) ∧
      skipWhile (before ++ (name ++ 61 :: rest)) stop
          (fun c => c ≠ 61 ∧ c ≠ 59 ∧ !isTerminator c) before.length =
        before.length + name.length ∧
      ¬ (before.length + name.length ≥ stop ∨
        charAt (before ++ (name ++ 61 :: rest)) (before.length + name.length) ≠ 61) ∧
      (before ++ (name ++ 61 :: rest)).set (before.length + name.length) 0 =
        before ++ (name ++ [0]) ++ rest := by
  have hlt : before.length < stop := by omega
  have hsplit : before ++ (name ++ 61 :: rest) = before ++ name ++ 61 :: rest := by
    rw [List.append_assoc]
  have hchar := charAt_length_append (before ++ name) rest 61
  have hset := set_length_append (before ++ name) rest 61 0
  rw [← hsplit, List.length_append] at hchar hset
  refine ⟨?_, skipWhile_until (fun d hd => decide_eq_true (hname d hd)) (by decide) hstop.le rest,
    ?_, ?_⟩
  · cases name with
    | nil => exact field_checks (hhead 61 rfl) hlt rest
    | cons c name => exact field_checks (hhead c rfl) hlt (name ++ 61 :: rest)
  · rw [hchar, not_or, not_not]
    exact ⟨Nat.not_le_of_lt hstop, rfl⟩
  · rw [hset]
    simp

theorem cookieLoop_assigned_last {name : List UInt8}
    (hhead : ∀ d ∈ (name ++ [61]).head?, IsFieldStart d)
    (hname : ∀ d ∈ name, d ≠ 61 ∧ d ≠ 59 ∧ !isTerminator d)
    (htext : ∀ d ∈ text, d ≠ 59 ∧ !isTerminator d)
    (hroom : ¬ target.length ≥ MAX_HTTP_GET_VARIABLE_COUNT)
    (hstop : (before ++ (name ++ [0])).length + text.length = stop) :
    cookieLoop stop (fuel + 1) before.length
        (before ++ (name ++ 61 :: (text ++ behind))) target =
      (before ++ (name ++ [0]) ++ (text ++ behind),
        target ++ [⟨before.length, name.length,
          some (before.length + name.length + 1, text.length)⟩]) := by
  have hsign : (before ++ (name ++ [0])).length = before.length + name.length + 1 := by simp; omega
  have hlt : before.length + name.length < stop := by omega
  obtain ⟨⟨hskip, hgo⟩, hscan, hassigned, hset⟩ :=
    assigned_checks (text ++ behind) hhead hname hlt
  have hvalue := skipWhile_to_end (p := fun c => c ≠ 59 ∧ !isTerminator c)
    (fun d hd => decide_eq_true (htext d hd)) hstop behind
  rw [hsign] at hvalue hstop
  rw [cookieLoop, if_pos (by omega), hskip, if_neg hgo, if_neg hroom, hscan]
  dsimp only
  rw [if_neg hassigned, hset, hvalue, if_pos (.inl le_rfl), if_neg (lt_irrefl stop), ← hstop,
    Nat.add_sub_cancel_left, Nat.add_sub_cancel_left]

theorem cookieLoop_assigned {name : List UInt8}
    (hhead : ∀ d ∈ (name ++ [61]).head?, IsFieldStart d)
    (hname : ∀ d ∈ name, d ≠ 61 ∧ d ≠ 59 ∧ !isTerminator d)
    (htext : ∀ d ∈ text, d ≠ 59 ∧ !isTerminator d)
    (hroom : ¬ target.length ≥ MAX_HTTP_GET_VARIABLE_COUNT)
    (hstop : (before ++ (name ++ [0])).length + text.length < stop) :
    cookieLoop stop (fuel + 1) before.length
        (before ++ (name ++ 61 :: (text ++ 59 :: behind))) target =
      cookieLoop stop fuel (before ++ (name ++ 0 :: (text ++ [0]))).length
        (before ++ (name ++ 0 :: (text ++ [0])) ++ behind)
        (target ++ [⟨before.length, name.length,
          some (before.length + name.length + 1, text.length)⟩]) := by
  have hsign : (before ++ (name ++ [0])).length = before.length + name.length + 1 := by simp; omega
  have hlt : before.length + name.length < stop := by omega
  obtain ⟨⟨hskip, hgo⟩, hscan, hassigned, hset⟩ :=
    assigned_checks (text ++ 59 :: behind) hhead hname hlt
  have hvalue := skipWhile_until (p := fun c => c ≠ 59 ∧ !isTerminator c)
    (fun d hd => decide_eq_true (htext d hd)) (c := 59) (by decide) hstop.le behind
  have hsplit : before ++ (name ++ [0]) ++ (text ++ 59 :: behind) =
      before ++ (name ++ [0]) ++ text ++ 59 :: behind := by
    rw [List.append_assoc _ text]
  have hchar := charAt_length_append (before ++ (name ++ [0]) ++ text) behind 59
  have hcut := set_length_append (before ++ (name ++ [0]) ++ text) behind 59 0
  rw [← hsplit, List.length_append, hsign] at hchar hcut
  rw [hsign] at hvalue hstop
  have hsemicolon : ¬ (before.length + name.length + 1 + text.length ≥ stop ∨
      isTerminator 59 = true) := not_or.mpr ⟨Nat.not_le_of_lt hstop, Bool.false_ne_true⟩
  rw [cookieLoop, if_pos (by omega), hskip, if_neg hgo, if_neg hroom, hscan]
  dsimp only
  rw [if_neg hassigned, hset, hvalue, hchar, if_neg hsemicolon, if_pos hstop, hcut,
    Nat.add_sub_cancel_left, Nat.add_sub_cancel_left]
  have hlength : before.length + name.length + 1 + text.length + 1 =
      (before ++ (name ++ 0 :: (text ++ [0]))).length := by simp; omega
  rw [hlength]
  simp

end

theorem cookieLoop_full {stop fuel ptr : ℕ} {buffer : List UInt8} {target : List CookieItem}
    (hfull : target.length ≥ MAX_HTTP_GET_VARIABLE_COUNT) :
    cookieLoop stop fuel ptr buffer target = (buffer, target) := by
  cases fuel with
  | zero => rfl
  | succ fuel =>
    rw [cookieLoop]
    dsimp only
    rw [if_pos hfull, ite_self, ite_self]

/-- The bytes up to the first one that `p` does not hold of. -/
theorem exists_scan (p : UInt8 → Bool) (l : List UInt8) :
    ∃ text rest, l = text ++ rest ∧ (∀ c ∈ text, p c = true) ∧ ∀ c ∈ rest.head?, p c = false := by
  refine ⟨l.takeWhile p, l.dropWhile p, List.takeWhile_append_dropWhile.symm,
    fun c hc => List.mem_takeWhile_imp hc, fun c hc => ?_⟩
  have hnot := List.head?_dropWhile_not p l
  rw [hc] at hnot
  simpa using hnot

/-! ## What is stored -/

theorem kept_cut (text : List UInt8) {c : UInt8} (hc : c = 61 ∨ c = 59) {rest rest' : List UInt8}
    (h : List.Forall₂ Kept rest rest') :
    List.Forall₂ Kept (text ++ c :: rest) (text ++ 0 :: rest') :=
  List.rel_append (kept_refl text) (List.Forall₂.cons (.inr ⟨hc, rfl⟩) h)

theorem append_singleton_append (before rest behind : List UInt8) (c : UInt8) :
    before ++ (rest ++ [c]) ++ behind = before ++ (rest ++ c :: behind) := by
  rw [List.append_assoc, List.append_assoc, List.singleton_append]

section
variable {before name text behind : List UInt8} {stop fuel room : ℕ} {target : List CookieItem}

/-- What is left to show of a round: the bytes that the next one starts from are parsed. -/
def ParsesNext (stop fuel : ℕ) (behind : List UInt8) (room : ℕ) : Prop :=
  ∀ (before value : List UInt8) (target : List CookieItem), value.length < fuel →
    before.length + value.length = stop → Unterminated value →
    MAX_HTTP_GET_VARIABLE_COUNT - target.length = room →
    ∃ value' items,
      cookieLoop stop fuel before.length (before ++ (value ++ behind)) target =
        (before ++ (value' ++ behind), target ++ items) ∧
      Parsed before.length value behind room value' items

theorem parsed_field (before : List UInt8) {field : List UInt8} (hne : field ≠ [])
    (hhead : ∀ d ∈ field.head?, IsFieldStart d) (hplain : Unterminated field)
    (hfuel : field.length < fuel + 1) (hstop : before.length + field.length = stop)
    (hroom : MAX_HTTP_GET_VARIABLE_COUNT - target.length = room + 1)
    (hnext : ParsesNext stop fuel behind room) :
    ∃ value' items,
      cookieLoop stop (fuel + 1) before.length (before ++ (field ++ behind)) target =
        (before ++ (value' ++ behind), target ++ items) ∧
      Parsed before.length field behind (room + 1) value' items := by
  have hroom' : ∀ item, MAX_HTTP_GET_VARIABLE_COUNT - (target ++ [item]).length = room := by
    intro item
    rw [List.length_append, List.length_singleton]
    omega
  have hfree : ¬ target.length ≥ MAX_HTTP_GET_VARIABLE_COUNT := by omega
  have hspace : ∀ d ∈ field.head?, d ≠ 32 := fun d hd => (hhead d hd).1
  obtain ⟨name, rest, rfl, hname, hrest⟩ :=
    exists_scan (fun c => c ≠ 61 ∧ c ≠ 59 ∧ !isTerminator c) field
  have hname : ∀ d ∈ name, d ≠ 61 ∧ d ≠ 59 ∧ !isTerminator d :=
    fun d hd => of_decide_eq_true (hname d hd)
  have hsign : 61 ∉ name := fun hcon => (hname 61 hcon).1 rfl
  have hsemicolon : 59 ∉ name := fun hcon => (hname 59 hcon).2.1 rfl
  rcases rest with _ | ⟨sign, after⟩
  · -- a bare name up to the end of the line
    rw [List.append_nil] at *
    refine ⟨name, [_], cookieLoop_bare_last hne hhead hname hfree hstop, Parsed.last ?_
      (kept_refl name) (fun _ after h => reads_bare h after) fun _ after h => reads_bare h after⟩
    rw [cookiePairs_last hne hsemicolon hspace, cookiePair_bare hsign]
  have hsignEnds := of_decide_eq_false (hrest sign rfl)
  have hafter : Unterminated (sign :: after) := fun d hd => hplain d (List.mem_append_right _ hd)
  rw [hafter sign (List.mem_cons_self ..)] at hsignEnds
  have hends : sign = 61 ∨ sign = 59 := by
    by_contra hcon
    exact hsignEnds ⟨fun h => hcon (.inl h), fun h => hcon (.inr h), rfl⟩
  rw [List.length_append, List.length_cons] at hfuel hstop
  rcases hends with rfl | rfl
  · -- a name with a value
    obtain ⟨text, rest, rfl, htext, hrest⟩ := exists_scan (fun c => c ≠ 59 ∧ !isTerminator c) after
    have htext : ∀ d ∈ text, d ≠ 59 ∧ !isTerminator d := fun d hd => of_decide_eq_true (htext d hd)
    have hfirst : ∀ d ∈ (name ++ [61]).head?, IsFieldStart d := by
      cases name with
      | nil => exact hhead
      | cons c name => exact hhead
    have hfieldSpace : ∀ d ∈ (name ++ 61 :: text).head?, d ≠ 32 := by
      cases name with
      | nil => exact hspace
      | cons c name => exact hspace
    have hfield : 59 ∉ name ++ 61 :: text := by
      rw [List.mem_append, List.mem_cons]
      rintro (hcon | hcon | hcon)
      · exact hsemicolon hcon
      · cases hcon
      · exact (htext 59 hcon).1 rfl
    rcases rest with _ | ⟨semicolon, value⟩
    · -- up to the end of the line
      rw [List.append_nil] at *
      have hpairs : cookiePairs (name ++ 61 :: text) = [(name, some text)] := by
        rw [cookiePairs_last hne hfield hfieldSpace, cookiePair_assigned hsign]
      refine ⟨name ++ 0 :: text, [⟨before.length, name.length,
        some (before.length + name.length + 1, text.length)⟩], ?_, Parsed.last hpairs
        (kept_cut name (.inl rfl) (kept_refl text)) (fun before₀ after h => ?_)
        fun before₀ after h => ?_⟩
      · rw [List.append_assoc, List.cons_append,
          cookieLoop_assigned_last hfirst hname htext hfree
            (by simp only [List.length_append, List.length_singleton]; omega),
          append_singleton_append, List.append_assoc, List.cons_append]
      · rw [List.append_assoc, List.cons_append]
        exact reads_assigned h 61 after
      · rw [List.append_assoc, List.cons_append]
        exact reads_assigned h 0 after
    · -- in front of a semicolon
      have hend := of_decide_eq_false (hrest semicolon rfl)
      have hplain' := hafter semicolon (by simp)
      rw [hplain'] at hend
      obtain rfl : semicolon = 59 := by
        by_contra hcon
        exact hend ⟨hcon, rfl⟩
      rw [List.length_append, List.length_cons] at hfuel hstop
      obtain ⟨value', items, hloop, hparsed⟩ := hnext (before ++ (name ++ 0 :: (text ++ [0]))) value
        (target ++ [⟨before.length, name.length,
          some (before.length + name.length + 1, text.length)⟩]) (by omega)
        (by simp only [List.length_append, List.length_cons, List.length_nil]; omega)
        (fun d hd => hafter d (by simp [hd])) (hroom' _)
      generalize hitem : (⟨before.length, name.length,
        some (before.length + name.length + 1, text.length)⟩ : CookieItem) = item at hloop
      have hcut : List.Forall₂ Kept (name ++ 61 :: (text ++ [59])) (name ++ 0 :: (text ++ [0])) :=
        kept_cut name (.inl rfl) (kept_cut text (.inr rfl) List.Forall₂.nil)
      have hpairs : cookiePairs (name ++ 61 :: (text ++ [59]) ++ value) =
          (name, some text) :: cookiePairs value := by
        have hpiece : name ++ 61 :: (text ++ [59]) ++ value =
            name ++ 61 :: text ++ 59 :: value := by simp
        rw [hpiece, cookiePairs_append (by simp) hfield hfieldSpace, cookiePair_assigned hsign]
      refine ⟨name ++ 0 :: (text ++ [0]) ++ value', item :: items, ?_, ?_⟩
      · have hbuffer : before ++ (name ++ 61 :: (text ++ 59 :: value) ++ behind) =
            before ++ (name ++ 61 :: (text ++ 59 :: (value ++ behind))) := by simp
        rw [hbuffer, cookieLoop_assigned hfirst hname htext hfree
          (by simp only [List.length_append, List.length_singleton]; omega), hitem, hloop,
          List.append_assoc target, List.singleton_append, List.append_assoc before,
          List.append_assoc _ value']
      · have hpiece : name ++ 61 :: (text ++ 59 :: value) =
            name ++ 61 :: (text ++ [59]) ++ value := by simp
        rw [hpiece]
        subst hitem
        refine Parsed.cons hpairs hcut (fun before₀ after h => ?_) (fun before₀ after h => ?_) ?_
        · rw [List.append_assoc, List.cons_append, List.append_assoc]
          exact reads_assigned h 61 _
        · rw [List.append_assoc, List.cons_append, List.append_assoc]
          exact reads_assigned h 0 _
        · rwa [hcut.length_eq, ← List.length_append]
  · -- a bare name in front of a semicolon
    have hlt : before.length + name.length < stop := by omega
    have hname_ne : name ≠ [] := by
      rintro rfl
      exact (hhead 59 rfl).2.1 rfl
    have hfirst : ∀ d ∈ name.head?, IsFieldStart d := fun d hd =>
      hhead d (List.mem_head?_append_of_mem_head? hd)
    obtain ⟨value', items, hloop, hparsed⟩ := hnext (before ++ (name ++ [0])) after
      (target ++ [⟨before.length, name.length, none⟩]) (by omega)
      (by simp only [List.length_append, List.length_singleton]; omega)
      (fun d hd => hafter d (List.mem_cons_of_mem _ hd)) (hroom' _)
    have hcut : List.Forall₂ Kept (name ++ [59]) (name ++ [0]) :=
      kept_cut name (.inr rfl) List.Forall₂.nil
    have hpairs : cookiePairs (name ++ [59] ++ after) = (name, none) :: cookiePairs after := by
      rw [List.append_assoc, List.singleton_append, cookiePairs_append hname_ne hsemicolon
        (fun d hd => (hfirst d hd).1), cookiePair_bare hsign]
    refine ⟨name ++ [0] ++ value', ⟨before.length, name.length, none⟩ :: items, ?_, ?_⟩
    · rw [List.append_assoc name, List.cons_append,
        cookieLoop_bare hname_ne hfirst hname hfree hlt, hloop, List.append_assoc target,
        List.singleton_append, List.append_assoc before, List.append_assoc _ value']
    · rw [← List.singleton_append, ← List.append_assoc]
      refine Parsed.cons hpairs hcut (fun before₀ after h => ?_) (fun before₀ after h => ?_) ?_
      · rw [List.append_assoc]
        exact reads_bare h _
      · rw [List.append_assoc]
        exact reads_bare h _
      · rwa [hcut.length_eq, ← List.length_append]

end

theorem cookieLoop_parsed (behind : List UInt8) {stop fuel room : ℕ} :
    ParsesNext stop fuel behind room := by
  induction fuel generalizing room with
  | zero => exact fun before value target hfuel => absurd hfuel (Nat.not_lt_zero _)
  | succ fuel ih =>
    intro before value target hfuel hstop hplain hroom
    cases room with
    | zero =>
      refine ⟨value, [], ?_, Parsed.nothing List.take_zero⟩
      rw [cookieLoop_full (by omega), List.append_nil]
    | succ room =>
      obtain ⟨skipped, field, rfl, hskipped, hfield⟩ :=
        exists_scan (fun c => c = 32 ∨ c = 59) value
      have hskipped : ∀ c ∈ skipped, c = 32 ∨ c = 59 :=
        fun c hc => of_decide_eq_true (hskipped c hc)
      rw [List.length_append] at hfuel hstop
      rcases field with _ | ⟨c, field⟩
      · -- nothing but spaces and semicolons
        refine ⟨skipped ++ [], [], ?_, Parsed.skip hskipped (Parsed.nothing List.take_nil)⟩
        rw [List.append_nil, List.append_nil]
        exact cookieLoop_skip_all hskipped hstop behind
      · have hnot := not_or.mp (of_decide_eq_false (hfield c rfl))
        have hc : IsFieldStart c := ⟨hnot.1, hnot.2, hplain c (by simp)⟩
        obtain ⟨value', items, hloop, hparsed⟩ := parsed_field (before ++ skipped)
          (List.cons_ne_nil c field) (by rintro d ⟨⟩; exact hc)
          (fun d hd => hplain d (List.mem_append_right _ hd)) (by omega)
          (by rw [List.length_append]; omega) hroom ih
        rw [List.length_append] at hparsed
        refine ⟨skipped ++ value', items, ?_, hparsed.skip hskipped⟩
        rw [List.append_assoc skipped, List.cons_append, cookieLoop_skip hskipped hc
          (by rw [List.length_append, List.length_cons] at *; omega), ← List.cons_append, hloop,
          List.append_assoc, List.append_assoc]

theorem findIdx?_forall₂ {α β : Type} {r : α → β → Prop} {p : α → Bool} {q : β → Bool}
    {as : List α} {bs : List β} (h : List.Forall₂ r as bs) (hpq : ∀ a b, r a b → p a = q b) :
    as.findIdx? p = bs.findIdx? q := by
  induction h with
  | nil => rfl
  | cons hab _ ih => rw [List.findIdx?_cons, List.findIdx?_cons, hpq _ _ hab, ih]

/-- What `finalizeCOOKIEData` leaves, in the terms of the loop. -/
theorem finalizeCOOKIEData_parsed {output : IncomingHeader} {before value behind : List UInt8}
    (hraw : output.headerRAW = before ++ value ++ behind) (hplain : Unterminated value) :
    ∃ value' items, finalizeCOOKIEData output before.length value.length =
        { output with headerRAW := before ++ value' ++ behind, COOKIEItem := items } ∧
      Parsed before.length value behind MAX_HTTP_GET_VARIABLE_COUNT value' items := by
  rw [List.append_assoc] at hraw
  unfold finalizeCOOKIEData
  by_cases hempty : value.length = 0
  · obtain rfl := List.length_eq_zero_iff.mp hempty
    refine ⟨[], [], ?_, Parsed.nothing List.take_nil⟩
    rw [if_pos List.length_nil, List.append_assoc, ← hraw]
  · obtain ⟨value', items, hloop, hparsed⟩ := cookieLoop_parsed behind before value []
      (Nat.lt_succ_self _) rfl hplain rfl
    rw [if_neg hempty, hraw, hloop]
    exact ⟨value', items, by rw [List.append_assoc, List.nil_append], hparsed⟩

/-- A cookie line is parsed exactly and inside its own bytes. -/
theorem finalizeCOOKIEData_spec (output : IncomingHeader) (before value behind : List UInt8)
    (hraw : output.headerRAW = before ++ value ++ behind) (hplain : Unterminated value) :
    ∃ value', (finalizeCOOKIEData output before.length value.length).headerRAW =
        before ++ value' ++ behind ∧
      List.Forall₂ Kept value value' ∧
      List.Forall₂
        (fun item pair => item.Reads output.headerRAW pair ∧
          item.Reads (finalizeCOOKIEData output before.length value.length).headerRAW pair)
        (finalizeCOOKIEData output before.length value.length).COOKIEItem
        ((cookiePairs value).take MAX_HTTP_GET_VARIABLE_COUNT) ∧
      ∀ name, getCOOKIEItemFromName
          (finalizeCOOKIEData output before.length value.length) name =
        ((cookiePairs value).take MAX_HTTP_GET_VARIABLE_COUNT).findIdx? fun pair =>
          pair.1 = name := by
  obtain ⟨value', items, hfinal, hparsed⟩ := finalizeCOOKIEData_parsed hraw hplain
  have hreads := hparsed.reads before before rfl rfl
  rw [← List.append_assoc, ← List.append_assoc] at hreads
  rw [hfinal, hraw]
  refine ⟨value', rfl, hparsed.kept, hreads, fun name => ?_⟩
  have hroom : items.take MAX_HTTP_GET_VARIABLE_COUNT = items := by
    refine List.take_of_length_le ?_
    rw [hreads.length_eq]
    exact List.length_take_le ..
  rw [getCOOKIEItemFromName, hroom]
  apply findIdx?_forall₂ hreads
  rintro item pair ⟨-, hitem⟩
  have hname := hitem.name
  rw [CookieItem.nameIn] at hname
  refine decide_eq_decide.mpr ⟨fun h => ?_, fun h => ?_⟩
  · rw [← hname, h.1]
    exact h.2
  · rw [← h]
    exact ⟨hitem.nameSize, by rwa [← hitem.nameSize]⟩

/-- A request of one line, `Cookie: a=1; b`. -/
def twoCookies : IncomingHeader :=
  { receivedRequest [] with headerRAW := ascii "Cookie:" ++ ascii " a=1; b" ++ ascii "\r\n" }

theorem twoCookies_second :
    getCOOKIEItemFromName (finalizeCOOKIEData twoCookies (ascii "Cookie:").length
      (ascii " a=1; b").length) (ascii "b") = some 1 := by
  obtain ⟨_, -, -, -, hlookup⟩ := finalizeCOOKIEData_spec twoCookies (ascii "Cookie:")
    (ascii " a=1; b") (ascii "\r\n") rfl (by unfold Unterminated; decide +kernel)
  rw [hlookup]
  decide

end AmmarServer.HeaderAnalysis
