import Mathlib.Order.Interval.Set.Basic
import AmmarServer.HeaderAnalysis.ByteRange

/-! What a `Range:` line asks for, and that this is what is sent. -/

namespace AmmarServer.HeaderAnalysis
open Bytes CString

/-- `*rangeLength`, in the arithmetic of an `unsigned long`. -/
def rangeLength (representationSize : ℕ) : RangeResult → ℕ
  | .partialContent rangeStart rangeEnd => ((rangeEnd + 2 ^ 64 - rangeStart) % 2 ^ 64 + 1) % 2 ^ 64
  | _ => representationSize

/-! What may be asked for. -/

inductive Requested
  | closed (first last : ℕ)
  | openEnded (first : ℕ)
  | suffix (length : ℕ)

/-- The bytes of a representation that are asked for, whether or not it has them. -/
def Requested.bytes (size : ℕ) : Requested → Set ℕ
  | .closed first last => Set.Icc first last
  | .openEnded first => Set.Ici first
  | .suffix length => Set.Ici (size - min length size)

def Requested.Unsatisfiable (size : ℕ) : Requested → Prop
  | .closed first _ => size = 0 ∨ size ≤ first
  | .openEnded first => size = 0 ∨ size ≤ first
  | .suffix length => size = 0 ∨ length = 0

/-- The decimal digits of a number that fits an `unsigned long`. -/
structure Number (text : List UInt8) (n : ℕ) : Prop where
  ne_nil : text ≠ []
  digits : ∀ c ∈ text, isDigit c = true
  value : text.foldl (fun n c => n * 10 + digitValue c) 0 = n
  fits : n < 2 ^ 64

inductive Spells : List UInt8 → Requested → Prop
  | closed {first last : List UInt8} {a b : ℕ} (hfirst : Number first a) (hlast : Number last b)
      (hle : a ≤ b) : Spells (first ++ 45 :: last) (.closed a b)
  | openEnded {first : List UInt8} {a : ℕ} (hfirst : Number first a) :
      Spells (first ++ [45]) (.openEnded a)
  | suffix {last : List UInt8} {n : ℕ} (hlast : Number last n) :
      Spells (45 :: last) (.suffix n)

/-- One range of bytes, with blanks around what is said of it. -/
def Asks (value : List UInt8) (r : Requested) : Prop :=
  ∃ before unit between spec after, value = before ++ (unit ++ (between ++ (spec ++ after))) ∧
    (∀ c ∈ before, isBlank c = true) ∧ EqIgnoreCase unit (ascii "bytes=") ∧
      (∀ c ∈ between, isBlank c = true) ∧ (∀ c ∈ after, isBlank c = true) ∧ Spells spec r

/-- What the server answers with for a line and a size. -/
structure Resolved (value : List UInt8) (size : ℕ) (result : RangeResult) : Prop where
  ignored : result = .ignored ↔ ∀ r, ¬ Asks value r
  unsatisfiable : result = .unsatisfiable ↔ ∃ r, Asks value r ∧ r.Unsatisfiable size
  partialContent : ∀ s e, result = .partialContent s e →
    s ≤ e ∧ e < size ∧ rangeLength size result = e - s + 1 ∧
      ∀ r, Asks value r → Set.Icc s e = r.bytes size ∩ Set.Iio size

/-! Numbers. -/

theorem digitValue_lt {c : UInt8} (h : isDigit c = true) : digitValue c < 10 := by
  revert c
  apply forall_byte
  decide +kernel

theorem le_foldl_digits (text : List UInt8) (n : ℕ) :
    n ≤ text.foldl (fun n c => n * 10 + digitValue c) n := by
  induction text generalizing n with
  | nil => exact le_rfl
  | cons c text ih =>
    have hstep : n ≤ n * 10 + digitValue c := by omega
    exact hstep.trans (ih _)

theorem parseRangeDigits_iff {text : List UInt8} {result n : ℕ} (hresult : result < 2 ^ 64) :
    parseRangeDigits text result = some n ↔
      (∀ c ∈ text, isDigit c = true) ∧
        text.foldl (fun n c => n * 10 + digitValue c) result = n ∧ n < 2 ^ 64 := by
  induction text generalizing result with
  | nil =>
    unfold parseRangeDigits
    rw [Option.some.injEq]
    exact ⟨fun h => ⟨fun _ hc => (by cases hc), h, h ▸ hresult⟩, fun h => h.2.1⟩
  | cons c text ih =>
    rw [List.forall_mem_cons, List.foldl_cons]
    unfold parseRangeDigits
    cases hc : isDigit c with
    | false =>
      rw [Bool.not_false, if_pos rfl]
      exact ⟨fun h => (by cases h), fun h => (by cases h.1.1)⟩
    | true =>
      have hdigit := digitValue_lt hc
      rw [Bool.not_true, if_neg Bool.false_ne_true]
      split_ifs with hover
      · refine ⟨fun h => (by cases h), fun ⟨_, hvalue, hn⟩ => ?_⟩
        have hle := le_foldl_digits text (result * 10 + digitValue c)
        omega
      · rw [ih (by omega)]
        exact ⟨fun h => ⟨⟨rfl, h.1⟩, h.2⟩, fun h => ⟨h.1.2, h.2⟩⟩

theorem parseRangeNumber_iff {text : List UInt8} {n : ℕ} :
    parseRangeNumber text = some n ↔ Number text n := by
  unfold parseRangeNumber
  cases text with
  | nil => exact ⟨fun h => (by cases h), fun h => absurd rfl h.ne_nil⟩
  | cons c text =>
    rw [List.isEmpty_cons, if_neg Bool.false_ne_true, parseRangeDigits_iff (by decide)]
    exact ⟨fun h => ⟨List.cons_ne_nil _ _, h.1, h.2.1, h.2.2⟩,
      fun h => ⟨h.digits, h.value, h.fits⟩⟩

/-! What the line says of the range. -/

theorem suffix_le (suffix : ℕ) :
    HTTPRangeKind.HTTP_RANGE_SUFFIX = HTTPRangeKind.HTTP_RANGE_CLOSED → suffix ≤ 0 := fun h => by cases h

theorem openEnded_le (start : ℕ) :
    HTTPRangeKind.HTTP_RANGE_OPEN_ENDED = HTTPRangeKind.HTTP_RANGE_CLOSED → start ≤ 0 := fun h => by cases h

theorem closed_le {start stop : ℕ} (h : ¬ stop < start) :
    HTTPRangeKind.HTTP_RANGE_CLOSED = HTTPRangeKind.HTTP_RANGE_CLOSED → start ≤ stop :=
  fun _ => not_lt.mp h

/-- The part of `parseRangeHTTPLine` behind the blanks. -/
def parseRangeSpec (spec : List UInt8) : Option ByteRange :=
  if !spec.contains 45 then none
  else
    let first := spec.takeWhile (· ≠ 45)
    let last := (spec.dropWhile (· ≠ 45)).tail
    if first.isEmpty then
      (parseRangeNumber last).map fun suffix =>
        { rangeKind := .HTTP_RANGE_SUFFIX
          range_start := suffix
          range_end := 0
          le := suffix_le suffix }
    else
      match parseRangeNumber first with
      | none => none
      | some start =>
        if last.isEmpty then
          some
            { rangeKind := .HTTP_RANGE_OPEN_ENDED
              range_start := start
              range_end := 0
              le := openEnded_le start }
        else
          match parseRangeNumber last with
          | none => none
          | some stop =>
            if h : stop < start then none
            else
              some
                { rangeKind := .HTTP_RANGE_CLOSED
                  range_start := start
                  range_end := stop
                  le := closed_le h }

theorem parseRangeHTTPLine_eq (value : List UInt8) :
    parseRangeHTTPLine value =
      if (value.dropWhile isBlank).length < 6 then none
      else if !strncasecmpEq (value.dropWhile isBlank) (ascii "bytes=") 6 then none
      else if (((value.dropWhile isBlank).drop 6).dropWhile isBlank).contains 44 then none
      else
        parseRangeSpec ((((value.dropWhile isBlank).drop 6).dropWhile isBlank).rdropWhile
          isBlank) := rfl

/-- A range that was parsed is the one that was asked for. -/
def Requested.Is (range : ByteRange) : Requested → Prop
  | .closed first last =>
    range.rangeKind = .HTTP_RANGE_CLOSED ∧ range.range_start = first ∧ range.range_end = last
  | .openEnded first => range.rangeKind = .HTTP_RANGE_OPEN_ENDED ∧ range.range_start = first
  | .suffix length => range.rangeKind = .HTTP_RANGE_SUFFIX ∧ range.range_start = length

theorem digit_plain {c : UInt8} (h : isDigit c = true) :
    c ≠ 45 ∧ c ≠ 44 ∧ isBlank c = false := by
  revert c
  apply forall_byte
  decide +kernel

theorem split_dash {first : List UInt8} (hfirst : ∀ c ∈ first, c ≠ 45) (last : List UInt8) :
    (first ++ 45 :: last).takeWhile (· ≠ 45) = first ∧
      ((first ++ 45 :: last).dropWhile (· ≠ 45)).tail = last := by
  have hpass : ∀ c ∈ first, decide (c ≠ 45) = true := fun c hc => decide_eq_true (hfirst c hc)
  constructor
  · rw [List.takeWhile_append_of_pos hpass]
    exact List.append_nil first
  · rw [List.dropWhile_append_of_pos hpass]
    rfl

theorem exists_split_dash {spec : List UInt8} (h : spec.contains 45 = true) :
    ∃ last, spec = spec.takeWhile (· ≠ 45) ++ 45 :: last ∧
      (spec.dropWhile (· ≠ 45)).tail = last := by
  induction spec with
  | nil => cases h
  | cons c spec ih =>
    rcases eq_or_ne c 45 with rfl | hne
    · exact ⟨spec, rfl, rfl⟩
    · rw [List.contains_cons, beq_false_of_ne hne.symm, Bool.false_or] at h
      obtain ⟨last, hspec, htail⟩ := ih h
      simp only [List.takeWhile_cons, List.dropWhile_cons, decide_eq_true hne, if_true]
      exact ⟨last, congrArg (c :: ·) hspec, htail⟩

theorem Spells.contains {spec : List UInt8} {r : Requested} (h : Spells spec r) :
    spec.contains 45 = true := by
  cases h with
  | closed | openEnded => exact List.contains_iff_mem.mpr (by simp)
  | suffix => rfl

theorem Spells.parse {spec : List UInt8} {r : Requested} (h : Spells spec r) :
    ∃ range, parseRangeSpec spec = some range ∧ r.Is range := by
  have hcontains := h.contains
  unfold parseRangeSpec
  rw [hcontains, Bool.not_true, if_neg Bool.false_ne_true]
  cases h with
  | @closed first last a b hfirst hlast hle =>
    obtain ⟨htake, hdrop⟩ := @split_dash first (fun c hc => (digit_plain (hfirst.digits c hc)).1) last
    dsimp only
    rw [htake, hdrop, List.isEmpty_eq_false_iff.mpr hfirst.ne_nil, if_neg Bool.false_ne_true,
      parseRangeNumber_iff.mpr hfirst]
    dsimp only
    rw [List.isEmpty_eq_false_iff.mpr hlast.ne_nil, if_neg Bool.false_ne_true,
      parseRangeNumber_iff.mpr hlast]
    dsimp only
    rw [dif_neg (Nat.not_lt.mpr hle)]
    exact ⟨_, rfl, rfl, rfl, rfl⟩
  | @openEnded first a hfirst =>
    obtain ⟨htake, hdrop⟩ := @split_dash first (fun c hc => (digit_plain (hfirst.digits c hc)).1) []
    dsimp only
    rw [htake, hdrop, List.isEmpty_eq_false_iff.mpr hfirst.ne_nil, if_neg Bool.false_ne_true,
      parseRangeNumber_iff.mpr hfirst]
    exact ⟨_, rfl, rfl, rfl⟩
  | @suffix last n hlast =>
    show ∃ range, (parseRangeNumber last).map _ = some range ∧ _
    rw [parseRangeNumber_iff.mpr hlast]
    exact ⟨_, rfl, rfl, rfl⟩

theorem spells_of_parse {spec : List UInt8} {range : ByteRange}
    (h : parseRangeSpec spec = some range) : ∃ r, Spells spec r ∧ r.Is range := by
  unfold parseRangeSpec at h
  cases hcontains : spec.contains 45 with
  | false =>
    rw [hcontains] at h
    cases h
  | true =>
    obtain ⟨last, hspec, htail⟩ := exists_split_dash hcontains
    rw [hcontains, Bool.not_true, if_neg Bool.false_ne_true] at h
    dsimp only at h
    rw [htail] at h
    generalize spec.takeWhile (· ≠ 45) = first at h hspec
    subst hspec
    split_ifs at h with hfirst hlast
    · obtain ⟨n, hn, rfl⟩ := Option.map_eq_some_iff.mp h
      rw [List.isEmpty_iff.mp hfirst]
      exact ⟨.suffix n, .suffix (parseRangeNumber_iff.mp hn), rfl, rfl⟩
    · cases hstart : parseRangeNumber first with
      | none =>
        rw [hstart] at h
        cases h
      | some a =>
        rw [hstart] at h
        obtain rfl := Option.some.inj h
        rw [List.isEmpty_iff.mp hlast]
        exact ⟨.openEnded a, .openEnded (parseRangeNumber_iff.mp hstart), rfl, rfl⟩
    · cases hstart : parseRangeNumber first with
      | none =>
        rw [hstart] at h
        cases h
      | some a =>
        cases hstop : parseRangeNumber last with
        | none =>
          rw [hstart, hstop] at h
          cases h
        | some b =>
          rw [hstart, hstop] at h
          dsimp only at h
          split_ifs at h with hlt
          obtain rfl := Option.some.inj h
          exact ⟨.closed a b, .closed (parseRangeNumber_iff.mp hstart)
            (parseRangeNumber_iff.mp hstop) (Nat.not_lt.mp hlt), rfl, rfl, rfl⟩

/-! The whole line. -/

theorem Spells.plain {spec : List UInt8} {r : Requested} (h : Spells spec r) :
    spec ≠ [] ∧ ∀ c ∈ spec, c ≠ 44 ∧ isBlank c = false := by
  have hnumber : ∀ {text : List UInt8} {n : ℕ}, Number text n →
      ∀ c ∈ text, c ≠ 44 ∧ isBlank c = false :=
    fun hnumber c hc => (digit_plain (hnumber.digits c hc)).2
  have hdash : (45 : UInt8) ≠ 44 ∧ isBlank 45 = false := by decide
  cases h with
  | @closed first last a b hfirst hlast hle =>
    refine ⟨List.append_ne_nil_of_left_ne_nil hfirst.ne_nil _, fun c hc => ?_⟩
    rcases List.mem_append.mp hc with hc | hc
    · exact hnumber hfirst c hc
    · rcases List.mem_cons.mp hc with rfl | hc
      · exact hdash
      · exact hnumber hlast c hc
  | @openEnded first a hfirst =>
    refine ⟨List.append_ne_nil_of_left_ne_nil hfirst.ne_nil _, fun c hc => ?_⟩
    rcases List.mem_append.mp hc with hc | hc
    · exact hnumber hfirst c hc
    · rw [List.mem_singleton.mp hc]
      exact hdash
  | @suffix last n hlast =>
    refine ⟨List.cons_ne_nil _ _, fun c hc => ?_⟩
    rcases List.mem_cons.mp hc with rfl | hc
    · exact hdash
    · exact hnumber hlast c hc

theorem dropWhile_blanks {blanks rest : List UInt8} (h : ∀ c ∈ blanks, isBlank c = true)
    (hrest : ∀ c ∈ rest.head?, isBlank c = false) :
    (blanks ++ rest).dropWhile isBlank = rest := by
  rw [List.dropWhile_append_of_pos h]
  cases rest with
  | nil => rfl
  | cons c rest => exact List.dropWhile_cons_of_neg (by rw [hrest c rfl]; exact Bool.false_ne_true)

theorem unit_facts {unit : List UInt8} (h : EqIgnoreCase unit (ascii "bytes=")) :
    unit.length = 6 ∧ ∀ rest : List UInt8, ∀ c ∈ (unit ++ rest).head?, isBlank c = false := by
  have hlength := congrArg List.length h
  rw [List.length_map] at hlength
  refine ⟨hlength, fun rest c hc => ?_⟩
  cases unit with
  | nil => cases hlength
  | cons d unit =>
    obtain rfl := Option.some.inj hc
    have hd : toLower d = 98 := (List.cons.inj h).1
    have hletter : ∀ c : UInt8, toLower c = 98 → isBlank c = false := by
      apply forall_byte
      decide +kernel
    exact hletter d hd

theorem Asks.parse {value : List UInt8} {r : Requested} (h : Asks value r) :
    ∃ range, parseRangeHTTPLine value = some range ∧ r.Is range := by
  obtain ⟨before, unit, between, spec, after, rfl, hbefore, hunit, hbetween, hafter, hspells⟩ := h
  obtain ⟨hlength, hhead⟩ := unit_facts hunit
  obtain ⟨hne, hplain⟩ := hspells.plain
  have hspec : ∀ c ∈ (spec ++ after).head?, isBlank c = false := by
    intro c hc
    rw [List.head?_append_of_ne_nil _ hne] at hc
    exact (hplain c (List.mem_of_head? hc)).2
  have hcompare : strncasecmpEq (unit ++ (between ++ (spec ++ after))) (ascii "bytes=") 6 = true := by
    refine (strncasecmpEq_iff (t := ascii "bytes=") (by decide +kernel)).mpr ?_
    rw [show (ascii "bytes=").length = unit.length from hlength.symm, List.take_left]
    exact hunit
  have hcomma : (spec ++ after).contains 44 = false := by
    have hblank : isBlank 44 = false := rfl
    rw [Bool.eq_false_iff]
    intro hcon
    rcases List.mem_append.mp (List.contains_iff_mem.mp hcon) with hmem | hmem
    · exact (hplain 44 hmem).1 rfl
    · rw [hafter 44 hmem] at hblank
      cases hblank
  have htrim : (spec ++ after).rdropWhile isBlank = spec := by
    unfold List.rdropWhile
    rw [List.reverse_append, dropWhile_blanks, List.reverse_reverse]
    · exact fun c hc => hafter c (List.mem_reverse.mp hc)
    · exact fun c hc => (hplain c (List.mem_reverse.mp (List.mem_of_head? hc))).2
  rw [parseRangeHTTPLine_eq, dropWhile_blanks hbefore (hhead _), if_neg, hcompare, Bool.not_true,
    if_neg Bool.false_ne_true, ← hlength, List.drop_left, dropWhile_blanks hbetween hspec, hcomma,
    if_neg Bool.false_ne_true, htrim]
  · exact hspells.parse
  · rw [List.length_append, hlength]
    exact Nat.not_lt.mpr (Nat.le_add_right _ _)

theorem asks_of_parse {value : List UInt8} {range : ByteRange}
    (h : parseRangeHTTPLine value = some range) : ∃ r, Asks value r ∧ r.Is range := by
  rw [parseRangeHTTPLine_eq] at h
  split_ifs at h with hshort hcompare hcomma
  obtain ⟨r, hspells, hr⟩ := spells_of_parse h
  have hcompare : strncasecmpEq (value.dropWhile isBlank) (ascii "bytes=") 6 = true := by
    simpa using hcompare
  have hunit := (strncasecmpEq_iff (t := ascii "bytes=") (by decide +kernel)).mp hcompare
  have hblank : ∀ l : List UInt8, ∀ c ∈ l.takeWhile isBlank, isBlank c = true :=
    fun l c hc => List.mem_takeWhile_imp hc
  refine ⟨r, ⟨value.takeWhile isBlank, (value.dropWhile isBlank).take 6,
    ((value.dropWhile isBlank).drop 6).takeWhile isBlank, _,
    (((value.dropWhile isBlank).drop 6).dropWhile isBlank).rtakeWhile isBlank, ?_, hblank _, hunit,
    hblank _, fun c hc => List.mem_rtakeWhile_imp hc, hspells⟩, hr⟩
  rw [List.rdropWhile_append_rtakeWhile, List.takeWhile_append_dropWhile, List.take_append_drop,
    List.takeWhile_append_dropWhile]

/-! What is sent. -/

theorem rangeLength_eq {size s e : ℕ} (hse : s ≤ e) (he : e < size) (hsize : size < 2 ^ 64) :
    rangeLength size (.partialContent s e) = e - s + 1 := by
  show ((e + 2 ^ 64 - s) % 2 ^ 64 + 1) % 2 ^ 64 = e - s + 1
  omega

theorem Requested.Is.resolve {r : Requested} {range : ByteRange} (h : r.Is range) (size : ℕ) :
    (r.Unsatisfiable size ∧ resolveByteRange range size = .unsatisfiable) ∨
      ¬ r.Unsatisfiable size ∧ ∃ s e, resolveByteRange range size = .partialContent s e ∧
        Set.Icc s e = r.bytes size ∩ Set.Iio size := by
  have hset : ∀ {s e : ℕ} {asked : Set ℕ}, (∀ i, s ≤ i ∧ i ≤ e ↔ i ∈ asked ∧ i < size) →
      Set.Icc s e = asked ∩ Set.Iio size := fun hmem => Set.ext hmem
  unfold resolveByteRange
  cases r with
  | closed first last =>
    obtain ⟨hkind, rfl, rfl⟩ := h
    rw [hkind, if_neg (by decide)]
    dsimp only [Requested.Unsatisfiable, Requested.bytes]
    split_ifs with hzero hfirst hlast
    · exact .inl ⟨.inl hzero, rfl⟩
    · exact .inl ⟨.inr hfirst, rfl⟩
    · refine .inr ⟨not_or.mpr ⟨hzero, hfirst⟩, _, _, rfl, hset fun i => ?_⟩
      rw [Set.mem_Icc]
      omega
    · refine .inr ⟨not_or.mpr ⟨hzero, hfirst⟩, _, _, rfl, hset fun i => ?_⟩
      rw [Set.mem_Icc]
      omega
  | openEnded first =>
    obtain ⟨hkind, rfl⟩ := h
    rw [hkind, if_neg (by decide)]
    dsimp only [Requested.Unsatisfiable, Requested.bytes]
    split_ifs with hzero hfirst
    · exact .inl ⟨.inl hzero, rfl⟩
    · exact .inl ⟨.inr hfirst, rfl⟩
    · refine .inr ⟨not_or.mpr ⟨hzero, hfirst⟩, _, _, rfl, hset fun i => ?_⟩
      rw [Set.mem_Ici]
      omega
  | suffix length =>
    obtain ⟨hkind, rfl⟩ := h
    rw [hkind, if_neg (by decide)]
    dsimp only [Requested.Unsatisfiable, Requested.bytes]
    split_ifs with hzero hnothing hall
    · exact .inl ⟨.inl hzero, rfl⟩
    · exact .inl ⟨.inr hnothing, rfl⟩
    · refine .inr ⟨not_or.mpr ⟨hzero, hnothing⟩, _, _, rfl, hset fun i => ?_⟩
      rw [Set.mem_Ici]
      omega
    · refine .inr ⟨not_or.mpr ⟨hzero, hnothing⟩, _, _, rfl, hset fun i => ?_⟩
      rw [Set.mem_Ici]
      omega

/-- Every line and every size, up to the largest `unsigned long`. -/
theorem byteRange_resolved (value : List UInt8) {size : ℕ} (hsize : size < 2 ^ 64) :
    Resolved value size (resolveByteRange ((parseRangeHTTPLine value).getD .ignored) size) := by
  cases hparse : parseRangeHTTPLine value with
  | none =>
    have hnone : ∀ r, ¬ Asks value r := by
      intro r hasks
      obtain ⟨range, hcon, -⟩ := hasks.parse
      rw [hparse] at hcon
      cases hcon
    exact ⟨⟨fun _ => hnone, fun _ => rfl⟩,
      ⟨fun hcon => (by cases hcon), fun ⟨r, hasks, _⟩ => absurd hasks (hnone r)⟩,
      fun s e hcon => (by cases hcon)⟩
  | some range =>
    -- another reading of the line would be of the same kind, with the same numbers
    have hsame : ∀ r, Asks value r → r.Is range := by
      intro r hasks
      obtain ⟨range', hparse', hr⟩ := hasks.parse
      obtain rfl := Option.some.inj (hparse.symm.trans hparse')
      exact hr
    obtain ⟨r, hasks, hr⟩ := asks_of_parse hparse
    rw [Option.getD_some]
    rcases hr.resolve size with ⟨hunsatisfiable, hresolve⟩ | ⟨hsatisfiable, s, e, hresolve, -⟩
    · rw [hresolve]
      exact ⟨⟨fun hcon => (by cases hcon), fun hnone => absurd hasks (hnone r)⟩,
        ⟨fun _ => ⟨r, hasks, hunsatisfiable⟩, fun _ => rfl⟩, fun s e hcon => (by cases hcon)⟩
    · refine ⟨⟨fun hcon => ?_, fun hnone => absurd hasks (hnone r)⟩,
        ⟨fun hcon => ?_, fun ⟨r', hasks', hunsatisfiable⟩ => ?_⟩, fun s' e' hanswer => ?_⟩
      · rw [hresolve] at hcon
        cases hcon
      · rw [hresolve] at hcon
        cases hcon
      · rcases (hsame r' hasks').resolve size with ⟨-, hcon⟩ | ⟨hcon, -⟩
        · exact hcon
        · exact absurd hunsatisfiable hcon
      · obtain ⟨hle, hlt⟩ := resolveByteRange_within hanswer
        refine ⟨hle, hlt, ?_, fun r' hasks' => ?_⟩
        · rw [hanswer]
          exact rangeLength_eq hle hlt hsize
        · rcases (hsame r' hasks').resolve size with ⟨-, hcon⟩ | ⟨-, s'', e'', hcon, hbytes⟩
          · rw [hanswer] at hcon
            cases hcon
          · rw [hanswer] at hcon
            cases hcon
            exact hbytes

theorem byteRange_resolved_suffix :
    (1000 < 2 ^ 64) ∧ Resolved (ascii " bytes=-100 ") 1000
      (resolveByteRange ((parseRangeHTTPLine (ascii " bytes=-100 ")).getD .ignored) 1000) :=
  ⟨by decide, byteRange_resolved _ (by decide)⟩

end AmmarServer.HeaderAnalysis
