import AmmarServer.HeaderAnalysis.LineHandlers
import AmmarServer.HeaderAnalysis.RewrittenLine

/-! Whether the blank line that ends a request is still found when the lines in front of it have been
analysed where they stand. -/

namespace AmmarServer.HeaderAnalysis
open Bytes CString

/-! ## Blank lines -/

theorem endsAt_iff {s : List UInt8} {i : ℕ} : endsAt s i = true ↔
    charAt s i = LF ∧ (1 ≤ i ∧ charAt s (i - 1) = LF ∨
      3 ≤ i ∧ charAt s (i - 3) = CR ∧ charAt s (i - 2) = LF ∧ charAt s (i - 1) = CR) := by
  simp only [endsAt, Bool.and_eq_true, Bool.or_eq_true, beq_iff_eq, decide_eq_true_eq, and_assoc]

theorem endsAt_of_run {s t : List UInt8} {i j : ℕ} (h : endsAt s i = true)
    (hrun : ∀ d ≤ i, (∀ e ≤ d, isNewline (charAt s (i - e)) = true) →
      d ≤ j ∧ charAt t (j - d) = charAt s (i - d)) : endsAt t j = true := by
  obtain ⟨hlast, hfront⟩ := endsAt_iff.mp h
  have hnew : isNewline (charAt s i) = true := by
    rw [hlast]
    rfl
  have hzero := hrun 0 (Nat.zero_le i) fun e he => by
    rw [Nat.le_zero.mp he]
    exact hnew
  refine endsAt_iff.mpr ⟨hzero.2.trans hlast, ?_⟩
  rcases hfront with ⟨hi, hLF⟩ | ⟨hi, hCR, hLF, hCR'⟩
  · obtain ⟨hj, hsame⟩ := hrun 1 hi fun e he => by
      obtain rfl | rfl : e = 0 ∨ e = 1 := by omega
      · exact hnew
      · rw [hLF]
        rfl
    exact .inl ⟨hj, hsame.trans hLF⟩
  · have hall : ∀ e ≤ 3, isNewline (charAt s (i - e)) = true := by
      intro e he
      obtain rfl | rfl | rfl | rfl : e = 0 ∨ e = 1 ∨ e = 2 ∨ e = 3 := by omega
      · exact hnew
      · rw [hCR']
        rfl
      · rw [hLF]
        rfl
      · rw [hCR]
        rfl
    have hbyte : ∀ d ≤ 3, d ≤ j ∧ charAt t (j - d) = charAt s (i - d) := fun d hd =>
      hrun d (hd.trans hi) fun e he => hall e (he.trans hd)
    exact .inr ⟨(hbyte 3 le_rfl).1, (hbyte 3 le_rfl).2.trans hCR, (hbyte 2 (by decide)).2.trans hLF,
      (hbyte 1 (by decide)).2.trans hCR'⟩

/-- The two terminators of a header. -/
def IsBlankLine (s : List UInt8) : Prop := s = [LF, LF] ∨ s = [CR, LF, CR, LF]

def EndsInBlankLine (s : List UInt8) : Prop := ∃ front stop, s = front ++ stop ∧ IsBlankLine stop

def HasBlankLine (s : List UInt8) : Prop :=
  ∃ front stop rest, s = front ++ (stop ++ rest) ∧ IsBlankLine stop

theorem scanBackwards_ne_zero_iff (request : List UInt8) (m : ℕ) :
    scanBackwards request 0 m ≠ 0 ↔ ∃ i, 1 < i ∧ i ≤ m ∧ endsAt request i = true := by
  induction m with
  | zero =>
    refine iff_of_false (fun h => h rfl) ?_
    rintro ⟨i, hi, hi', -⟩
    omega
  | succ m ih =>
    rw [scanBackwards]
    split
    · rename_i hlow
      split
      · rename_i hends
        exact iff_of_true (Nat.succ_ne_zero m) ⟨m + 1, by omega, le_rfl, hends⟩
      · rename_i hends
        rw [ih]
        constructor
        · rintro ⟨i, hi, hi', h⟩
          exact ⟨i, hi, Nat.le_succ_of_le hi', h⟩
        · rintro ⟨i, hi, hi', h⟩
          rcases Nat.eq_or_lt_of_le hi' with rfl | hlt
          · exact absurd h hends
          · exact ⟨i, hi, Nat.le_of_lt_succ hlt, h⟩
    · refine iff_of_false (fun h => h rfl) ?_
      rintro ⟨i, hi, hi', -⟩
      omega

theorem scanForwards_spec (request : List UInt8) (fuel i : ℕ) (hi : 0 < i) :
    (scanForwards request fuel i = 0 ∧ ∀ j, i ≤ j → j < i + fuel → endsAt request j = false) ∨
      (i ≤ scanForwards request fuel i ∧ scanForwards request fuel i < i + fuel ∧
        endsAt request (scanForwards request fuel i) = true ∧
        ∀ j, i ≤ j → j < scanForwards request fuel i → endsAt request j = false) := by
  induction fuel generalizing i with
  | zero => exact .inl ⟨rfl, fun j hj hj' => by omega⟩
  | succ fuel ih =>
    rw [scanForwards]
    split
    · rename_i hends
      exact .inr ⟨le_rfl, by omega, hends, fun j hj hj' => by omega⟩
    · rename_i hends
      rw [Bool.not_eq_true] at hends
      have hstep : ∀ j, i ≤ j → j = i ∨ i + 1 ≤ j := fun j hj => by omega
      rcases ih (i + 1) (Nat.succ_pos i) with ⟨hzero, hnone⟩ | ⟨hlow, hhigh, hfound, hfirst⟩
      · refine .inl ⟨hzero, fun j hj hj' => ?_⟩
        rcases hstep j hj with rfl | hlt
        · exact hends
        · exact hnone j hlt (by omega)
      · refine .inr ⟨by omega, by omega, hfound, fun j hj hj' => ?_⟩
        rcases hstep j hj with rfl | hlt
        · exact hends
        · exact hfirst j hlt hj'

/-! ## Lines -/

/-- Where the loop stands: in front of a line, behind the first byte that ended one, or in one. -/
inductive Place
  | fresh | ended | inside
  deriving DecidableEq

def Place.next (p : Place) (c : UInt8) : Place :=
  match p with
  | .fresh => .inside
  | .ended => if isNewline c then .fresh else .inside
  | .inside => if isNewline c then .ended else .inside

/-- Where the loop stands behind `s`. -/
def place (s : List UInt8) : Place := s.foldl Place.next .fresh

theorem place_take_succ {s : List UInt8} {i : ℕ} (h : i < s.length) :
    place (s.take (i + 1)) = (place (s.take i)).next (charAt s i) := by
  rw [take_succ_charAt h, place, List.foldl_append]
  rfl

theorem Place.next_of_ne {p : Place} {c : UInt8} (hc : isNewline c = false) :
    p.next c = .inside := by
  cases p with
  | fresh => rfl
  | _ => exact if_neg (by rw [hc]; exact Bool.false_ne_true)

theorem place_inside {s : List UInt8} {i j : ℕ} (hi : i < j) (hj : j ≤ s.length)
    (hfirst : place (s.take i) = .fresh ∨ isNewline (charAt s i) = false)
    (hplain : ∀ k, i < k → k < j → isNewline (charAt s k) = false) :
    place (s.take j) = .inside := by
  induction j with
  | zero => cases hi
  | succ j ih =>
    rw [place_take_succ hj]
    rcases Nat.eq_or_lt_of_le (Nat.le_of_lt_succ hi) with rfl | hlt
    · rcases hfirst with hfresh | hne
      · rw [hfresh]
        rfl
      · exact Place.next_of_ne hne
    · exact Place.next_of_ne (hplain j hlt (Nat.lt_succ_self j))

/-- Credentials that run to the end of a line of the header lose the line break at `p`. -/
structure Hit (inst : Instance) (buffer : List UInt8) (s p : ℕ) : Prop where
  isProtected : inst.Protected
  later : 0 < s
  start : place (buffer.take s) ≠ .inside
  header : ∀ i < s, endsAt buffer i = false
  before : s < p
  plain : ∀ j, s ≤ j → j < p → isNewline (charAt buffer j) = false
  stop : isNewline (charAt buffer p) = true
  credentials : IsCredentialLine ((buffer.drop s).take (p - s))

theorem IsCredentialLine.first {line : List UInt8} (h : IsCredentialLine line) :
    isNewline (charAt line 0) = false := by
  apply isNewline_of_recognized
  rw [h.kind]
  decide

theorem Hit.inside {inst : Instance} {buffer : List UInt8} {s p q : ℕ} (h : Hit inst buffer s p)
    (hq : s < q) (hq' : q ≤ p) (hp : p ≤ buffer.length) : place (buffer.take q) = .inside :=
  place_inside hq (hq'.trans hp) (.inr (h.plain s le_rfl h.before)) fun k hk hk' =>
    h.plain k hk.le (hk'.trans_le hq')

/-! ## The loop -/

/-- The buffer when the lines in front of `i` have been analysed: `array` with NULs in it, which took
the place of a line break exactly where that was hit. -/
structure Traced (inst : Instance) (buffer array : List UInt8) (i : ℕ) (m : List UInt8) : Prop where
  size : m.length = buffer.length
  kept : ∀ p, charAt m p = charAt array p ∨ charAt m p = 0
  lost : ∀ p, isNewline (charAt array p) = true → charAt m p ≠ charAt array p →
    ∃ s, Hit inst buffer s p
  hit : ∀ s, ∀ p < i, Hit inst buffer s p → charAt m p = 0

/-- The loop has come to `i`, with `k` bytes of the line at `s`. -/
structure Progress (inst : Instance) (buffer : List UInt8) (first n head i k s : ℕ)
    (output : IncomingHeader) : Prop where
  start : s + k = i
  size : output.headerRAWSize = n
  head : output.headerRAWHeadSize = head
  type : output.requestType ≠ .POST
  outside : place (buffer.take s) ≠ .inside
  begins : place (buffer.take s) = .fresh ∨ isNewline (charAt buffer s) = false
  plain : ∀ j, s < j → j < i → isNewline (charAt buffer j) = false
  pristine : ∀ p, s ≤ p → charAt output.headerRAW p = charAt buffer p
  line : output.parsingCurrentLine = 0 ∧ s = 0 ∧ output.headerRAW = buffer ∨
    output.parsingCurrentLine ≠ 0 ∧ first < s ∧
      Traced inst buffer (firstLineArray buffer first) i output.headerRAW

/-- A received request with a first line of `first` bytes. -/
structure Received (buffer : List UInt8) (first n : ℕ) : Prop where
  room : n + 2 ≤ buffer.length
  three : 3 ≤ first
  firstLe : first ≤ n
  firstPlain : ∀ j < first, isNewline (charAt buffer j) = false
  firstEnd : first < n → isNewline (charAt buffer first) = true
  type : scanForFirstLines buffer first ≠ .POST

section Loop

variable {inst : Instance} {buffer : List UInt8} {first n head i k s : ℕ} {output : IncomingHeader}

theorem Received.first_lt (h : Received buffer first n) {s p : ℕ} (hit : Hit inst buffer s p) :
    first < s := by
  by_contra hle
  have hroom := h.room
  have hfirst := h.firstLe
  exact hit.start (place_inside hit.later (by omega) (.inl rfl) fun k _ hk =>
    h.firstPlain k (by omega))

theorem Progress.eq_of_hit (h : Progress inst buffer first n head i k s output) {s' : ℕ}
    (hk : 0 < k) (hit : Hit inst buffer s' i) (hi : i ≤ buffer.length) : s' = s := by
  have hstart := h.start
  have hbefore := hit.before
  rcases Nat.lt_trichotomy s' s with hlt | heq | hgt
  · exact absurd (hit.inside hlt (by omega) hi) h.outside
  · exact heq
  · exact absurd (place_inside hgt (by omega) h.begins fun j hj hj' =>
      h.plain j hj (by omega)) hit.start

theorem Hit.not_behind {s p : ℕ} (hit : Hit inst buffer s (p + 1))
    (hnew : isNewline (charAt buffer p) = true) : False := by
  rw [hit.plain p (Nat.le_of_lt_succ hit.before) (Nat.lt_succ_self p)] at hnew
  cases hnew

theorem Progress.byte (h : Progress inst buffer first n head i k s output)
    (hi : i < buffer.length) (hbyte : isNewline (charAt buffer i) = false ∨ k = 0) :
    Progress inst buffer first n head (i + 1) (k + 1) s output := by
  have hstart := h.start
  refine ⟨by omega, h.size, h.head, h.type, h.outside, h.begins, fun j hj hj' => ?_, h.pristine,
    h.line.imp_right fun hline => ⟨hline.1, hline.2.1, hline.2.2.size, hline.2.2.kept,
      hline.2.2.lost, fun s' p hp hit => ?_⟩⟩
  · rcases Nat.eq_or_lt_of_le (Nat.le_of_lt_succ hj') with rfl | hlt
    · exact hbyte.resolve_right (by omega)
    · exact h.plain j hj hlt
  · rcases Nat.eq_or_lt_of_le (Nat.le_of_lt_succ hp) with rfl | hlt
    · exfalso
      rcases hbyte with hne | hzero
      · have hstop := hit.stop
        rw [hne] at hstop
        cases hstop
      · have hsi : s = p := by omega
        exact h.outside (hsi ▸ hit.inside hit.before le_rfl hi.le)
    · exact hline.2.2.hit s' p hlt hit

/-- The first byte that ends a line, with the second one skipped. -/
theorem place_behind (h : Progress inst buffer first n head i k s output) (hk : 0 < k)
    (hi : i + 1 < buffer.length) (hnew : isNewline (charAt buffer i) = true) {skipped : ℕ}
    (hskipped : skipped = if isNewline (charAt buffer (i + 1)) then 1 else 0) :
    place (buffer.take (i + 1 + skipped)) ≠ .inside ∧
      (place (buffer.take (i + 1 + skipped)) = .fresh ∨
        isNewline (charAt buffer (i + 1 + skipped)) = false) := by
  have hstart := h.start
  have hinside : place (buffer.take i) = .inside :=
    place_inside (by omega) (by omega) h.begins h.plain
  have hended : place (buffer.take (i + 1)) = .ended := by
    rw [place_take_succ (by omega), hinside]
    exact if_pos hnew
  rw [hskipped]
  split
  · rename_i hsecond
    have hfresh : place (buffer.take (i + 1 + 1)) = .fresh := by
      rw [place_take_succ hi, hended]
      exact if_pos hsecond
    rw [hfresh]
    exact ⟨by decide, .inl rfl⟩
  · rename_i hsecond
    rw [Nat.add_zero, hended]
    exact ⟨by decide, .inr (Bool.not_eq_true _ ▸ hsecond)⟩

/-- A request line without `POST` never makes a request one. -/
theorem requestTypeOf_processFirstHTTPLine {request root : List UInt8} {length : ℕ}
    (h : scanForFirstLines request length ≠ .POST) :
    requestTypeOf (processFirstHTTPLine true request length root) ≠ .POST := by
  have hite : ∀ (p : Prop) [Decidable p] (a b : Except TypesOfRequests HTTPHeader),
      requestTypeOf a ≠ .POST → requestTypeOf b ≠ .POST →
        requestTypeOf (if p then a else b) ≠ .POST := by
    intro p _ a b ha hb
    split
    · exact ha
    · exact hb
  unfold processFirstHTTPLine
  generalize scanForFirstLines request length = type at h ⊢
  simp only
  apply hite
  · decide
  · apply hite
    · apply hite
      · exact h
      · apply hite
        · exact h
        · apply hite
          · decide
          · apply hite
            · apply hite
              · decide
              · exact h
            · decide
    · exact h

theorem analyzeLine_of_header
    (h : ¬ (output.headerRAWHeadSize > 0 ∧ s ≥ output.headerRAWHeadSize + 1)) :
    analyzeLine inst output s k =
      analyzeHTTPLineRequest inst
        { output with parsingCurrentLine := output.parsingCurrentLine + 1 } s k
        (output.parsingCurrentLine + 1) := by
  unfold analyzeLine
  exact if_neg h

theorem analyzeLine_of_body (htype : output.requestType ≠ .POST)
    (h : output.headerRAWHeadSize > 0 ∧ s ≥ output.headerRAWHeadSize + 1) :
    analyzeLine inst output s k =
      { output with parsingCurrentLine := output.parsingCurrentLine + 1 } := by
  unfold analyzeLine
  exact (if_pos h).trans (if_neg htype)

theorem Progress.firstLine (hreceived : Received buffer first n)
    (h : Progress inst buffer first n head i k 0 output) (hline : output.parsingCurrentLine = 0)
    (hbuffer : output.headerRAW = buffer) (hk : 0 < k) (hi : i < n)
    (hnew : isNewline (charAt buffer i) = true) {skipped : ℕ} (offset : ℕ)
    (hskipped : skipped = if isNewline (charAt buffer (i + 1)) then 1 else 0) :
    (∀ p, i < p → charAt (analyzeLine inst output 0 k).headerRAW p = charAt buffer p) ∧
      Progress inst buffer first n head (i + 1 + skipped) 0 (i + 1 + skipped)
        { analyzeLine inst output 0 k with parsingStartOffset := offset } := by
  have hroom := hreceived.room
  have hstart := h.start
  have hfirst : i = first := by
    rcases Nat.lt_trichotomy i first with hlt | heq | hgt
    · rw [hreceived.firstPlain i hlt] at hnew
      cases hnew
    · exact heq
    · have hcon := h.plain first (by have hthree := hreceived.three; omega) hgt
      rw [hreceived.firstEnd (hgt.trans hi)] at hcon
      cases hcon
  obtain rfl : k = first := by omega
  obtain ⟨houtside, hbegins⟩ := place_behind h hk (by omega) hnew hskipped
  have hrewritten := @rewritten_firstLineArray buffer k (by omega) hreceived.firstPlain
  have hheader : ¬ (output.headerRAWHeadSize > 0 ∧ 0 ≥ output.headerRAWHeadSize + 1) :=
    fun hcon => Nat.not_succ_le_zero _ hcon.2
  have hanalyzed : analyzeLine inst output 0 k =
      { output with
        parsingCurrentLine := 1
        headerRAW := firstLineArray buffer k
        requestType :=
          requestTypeOf (processFirstHTTPLine true buffer k inst.webserver_root) } := by
    rw [analyzeLine_of_header hheader, hline, analyzeHTTPLineRequest, if_pos rfl]
    dsimp only
    rw [hbuffer, List.drop_zero, List.take_zero, List.nil_append]
  rw [hanalyzed]
  refine ⟨fun p hp => hrewritten.behind p (by omega), rfl, h.size, h.head,
    requestTypeOf_processFirstHTTPLine hreceived.type, houtside, hbegins,
    fun j hj hj' => absurd hj' (Nat.not_lt.mpr hj.le), fun p hp => hrewritten.behind p (by omega),
    .inr ⟨Nat.one_ne_zero, by omega, hrewritten.size, fun _ => .inl rfl,
      fun _ _ hcon => absurd rfl hcon, fun s p hp hit => ?_⟩⟩
  -- no line of credentials has come to its end
  have hlater := hreceived.first_lt hit
  have hbefore := hit.before
  have hsecond : skipped ≤ 1 := by
    rw [hskipped]
    split
    · exact le_rfl
    · exact Nat.zero_le 1
  omega

theorem Received.three_le_of_endsAt (hreceived : Received buffer first n) {j : ℕ}
    (hj : endsAt buffer j = true) : 3 ≤ j := by
  by_contra hlt
  have hthree := hreceived.three
  have hplain := hreceived.firstPlain j (by omega)
  rw [(endsAt_iff.mp hj).1] at hplain
  cases hplain

theorem Received.scan_spec (hreceived : Received buffer first n)
    (hhead : head = scanForHeaderEndFromStart buffer n) :
    (head = 0 ∧ ∀ j < n, endsAt buffer j = false) ∨
      (0 < head ∧ head < n ∧ endsAt buffer head = true ∧ ∀ j < head, endsAt buffer j = false) := by
  have hlow : ∀ j, j < 3 → endsAt buffer j = false := fun j hj => by
    by_contra hcon
    exact Nat.not_le.mpr hj (hreceived.three_le_of_endsAt (Bool.not_eq_false _ ▸ hcon))
  rw [hhead, scanForHeaderEndFromStart]
  split
  · exact .inl ⟨rfl, fun j hj => hlow j (by omega)⟩
  · rcases scanForwards_spec buffer (n - 3) 3 (by decide) with
      ⟨hzero, hnone⟩ | ⟨hthree, hhigh, hfound, hfirst⟩
    · refine .inl ⟨hzero, fun j hj => ?_⟩
      rcases Nat.lt_or_ge j 3 with hlt | hge
      · exact hlow j hlt
      · exact hnone j hge (by omega)
    · refine .inr ⟨by omega, by omega, hfound, fun j hj => ?_⟩
      rcases Nat.lt_or_ge j 3 with hlt | hge
      · exact hlow j hlt
      · exact hfirst j hge hj

theorem Progress.laterLine (hreceived : Received buffer first n)
    (hhead : head = scanForHeaderEndFromStart buffer n)
    (h : Progress inst buffer first n head i k s output) (hline : output.parsingCurrentLine ≠ 0)
    (hs : first < s) (htraced : Traced inst buffer (firstLineArray buffer first) i output.headerRAW)
    (hk : 0 < k) (hi : i < n) (hnew : isNewline (charAt buffer i) = true) {skipped : ℕ} (offset : ℕ)
    (hskipped : skipped = if isNewline (charAt buffer (i + 1)) then 1 else 0) :
    (∀ p, i < p → charAt (analyzeLine inst output s k).headerRAW p = charAt buffer p) ∧
      Progress inst buffer first n head (i + 1 + skipped) 0 (i + 1 + skipped)
        { analyzeLine inst output s k with parsingStartOffset := offset } := by
  have hroom := hreceived.room
  have hstart := h.start
  obtain ⟨houtside, hbegins⟩ := place_behind h hk (by omega) hnew hskipped
  -- what has been hit when the line has been analysed
  have hhit : ∀ s' p, p < i + 1 + skipped → Hit inst buffer s' p → p < i ∨ p = i ∧ s' = s := by
    intro s' p hp hit
    rcases Nat.lt_trichotomy p i with hlt | rfl | hgt
    · exact .inl hlt
    · exact .inr ⟨rfl, h.eq_of_hit hk hit (by omega)⟩
    · exfalso
      have hsecond : p = i + 1 := by
        rw [hskipped] at hp
        split at hp
        · omega
        · omega
      exact Hit.not_behind (hsecond ▸ hit) hnew
  by_cases hbody : output.headerRAWHeadSize > 0 ∧ s ≥ output.headerRAWHeadSize + 1
  · rw [analyzeLine_of_body h.type hbody]
    refine ⟨fun p hp => h.pristine p (by omega), rfl, h.size, h.head, h.type, houtside, hbegins,
      fun j hj hj' => absurd hj' (Nat.not_lt.mpr hj.le), fun p hp => h.pristine p (by omega),
      .inr ⟨Nat.succ_ne_zero _, by omega, htraced.size, htraced.kept, htraced.lost,
        fun s' p hp hit => ?_⟩⟩
    rcases hhit s' p hp hit with hlt | ⟨rfl, rfl⟩
    · exact htraced.hit s' p hlt hit
    · rw [h.head] at hbody
      rcases hreceived.scan_spec hhead with ⟨hzero, -⟩ | ⟨-, -, hends, -⟩
      · exact absurd hzero hbody.1.ne'
      · rw [hit.header head (by omega)] at hends
        cases hends
  · rw [analyzeLine_of_header hbody]
    have hbyte : ∀ j, charAt output.headerRAW (s + j) = charAt buffer (s + j) := fun j =>
      h.pristine _ (Nat.le_add_right s j)
    have hsize := htraced.size
    have hsplit : (output.headerRAW.drop s).take k = (buffer.drop s).take k := by
      apply take_eq_of_charAt
      · rw [List.length_drop, List.length_drop, hsize]
      · intro j _
        rw [charAt_drop, charAt_drop, hbyte]
    obtain ⟨hsame, hlineErased⟩ := @analyzeHTTPLineRequest_spec inst
      { output with parsingCurrentLine := output.parsingCurrentLine + 1 } s k
      (output.parsingCurrentLine + 1) (by omega) h.type (by dsimp only; omega)
      (fun j hj hj' => by
        dsimp only
        rw [hbyte]
        exact h.plain _ (by omega) (by omega))
      (by
        dsimp only
        rw [hbyte, hstart]
        exact hnew)
    generalize analyzeHTTPLineRequest inst
      { output with parsingCurrentLine := output.parsingCurrentLine + 1 } s k
      (output.parsingCurrentLine + 1) = output' at hsame hlineErased ⊢
    obtain ⟨herased, hkeep, hbreak⟩ := hlineErased
    dsimp only at herased hkeep hbreak
    rw [hsplit, hstart] at hbreak
    rw [hstart] at herased hkeep
    have hbehind : ∀ p, i < p → charAt output'.headerRAW p = charAt buffer p := fun p hp =>
      (herased.outside p (.inr hp)).trans (h.pristine p (by omega))
    refine ⟨hbehind, rfl, hsame.headerRAWSize.trans h.size, hsame.headerRAWHeadSize.trans h.head,
      hsame.requestType.symm ▸ h.type, houtside, hbegins,
      fun j hj hj' => absurd hj' (Nat.not_lt.mpr hj.le), fun p hp => hbehind p (by omega),
      .inr ⟨hsame.parsingCurrentLine.symm ▸ Nat.succ_ne_zero _, by omega,
        herased.length.trans hsize, fun p => ?_, fun p hp hlost => ?_, fun s' p hp hit => ?_⟩⟩
    · rcases herased.inside p with heq | hzero
      · exact heq ▸ htraced.kept p
      · exact .inr hzero
    · by_cases hbefore : charAt output.headerRAW p = charAt (firstLineArray buffer first) p
      · -- it is this line that has lost its line break
        have hpi : p = i := by
          rcases Nat.lt_trichotomy p i with hlt | heq | hgt
          · exact absurd ((hkeep p hlt (hbefore ▸ hp)).trans hbefore) hlost
          · exact heq
          · exact absurd ((herased.outside p (.inr hgt)).trans hbefore) hlost
        subst hpi
        have hzero := (herased.inside p).resolve_left fun hcon => hlost (hcon.trans hbefore)
        obtain ⟨hprotected, hcredentials⟩ := hbreak.mp hzero
        refine ⟨s, hprotected, by omega, h.outside, fun j hj => ?_, by omega, fun j hj hj' => ?_,
          hnew, ?_⟩
        · by_contra hcon
          rw [Bool.not_eq_false] at hcon
          rcases hreceived.scan_spec hhead with ⟨-, hnone⟩ | ⟨hpos, -, -, hnone⟩
          · rw [hnone j (by omega)] at hcon
            cases hcon
          · rcases Nat.lt_or_ge j head with hlt | hge
            · rw [hnone j hlt] at hcon
              cases hcon
            · exact hbody (h.head ▸ ⟨hpos, by omega⟩)
        · rcases Nat.eq_or_lt_of_le hj with rfl | hlt
          · have hletter := hcredentials.first
            rw [charAt_take hk, charAt_drop] at hletter
            exact hletter
          · exact h.plain j hlt hj'
        · have hlength : k = p - s := by omega
          exact hlength ▸ hcredentials
      · exact htraced.lost p hp hbefore
    · rcases hhit s' p hp hit with hlt | ⟨rfl, rfl⟩
      · have hbefore := htraced.hit s' p hlt hit
        rcases herased.inside p with heq | hzero
        · exact heq.trans hbefore
        · exact hzero
      · have hlength : p - s' = k := by omega
        exact hbreak.mpr ⟨hit.isProtected, hlength ▸ hit.credentials⟩

theorem Progress.lineEnd (hreceived : Received buffer first n)
    (hhead : head = scanForHeaderEndFromStart buffer n)
    (h : Progress inst buffer first n head i k s output) (hk : 0 < k) (hi : i < n)
    (hnew : isNewline (charAt buffer i) = true) {skipped : ℕ} (offset : ℕ)
    (hskipped : skipped = if isNewline (charAt buffer (i + 1)) then 1 else 0) :
    (∀ p, i < p → charAt (analyzeLine inst output s k).headerRAW p = charAt buffer p) ∧
      Progress inst buffer first n head (i + 1 + skipped) 0 (i + 1 + skipped)
        { analyzeLine inst output s k with parsingStartOffset := offset } := by
  rcases h.line with ⟨hline, rfl, hbuffer⟩ | ⟨hline, hs, htraced⟩
  · exact h.firstLine hreceived hline hbuffer hk hi hnew offset hskipped
  · exact h.laterLine hreceived hhead hline hs htraced hk hi hnew offset hskipped

theorem capRequestLengthToHeaderEnd_spec {L : ℕ}
    (hend : output.headerRAWHeadSize + 1 = n → L = n) :
    capRequestLengthToHeaderEnd output 0 L ≤ L ∧
      (output.headerRAWHeadSize + 1 = n → capRequestLengthToHeaderEnd output 0 L = n) := by
  unfold capRequestLengthToHeaderEnd
  split
  · exact ⟨le_rfl, hend⟩
  · dsimp only
    rw [if_neg (Nat.not_succ_le_zero _), Nat.sub_zero]
    refine ⟨Nat.min_le_left .., fun h => ?_⟩
    rw [h, hend h, Nat.min_self]

theorem Progress.run (hreceived : Received buffer first n)
    (hhead : head = scanForHeaderEndFromStart buffer n) {fuel L : ℕ} (hL : L ≤ n)
    (hend : head + 1 = n → L = n) (hfuel : L ≤ i + fuel)
    (h : Progress inst buffer first n head i k s output) :
    ∃ i' k' s', Progress inst buffer first n head i' k' s'
        (keepAnalyzingLoop inst 0 fuel L i k s output) ∧ (head + 1 = n → n ≤ i') := by
  induction fuel generalizing L i k s output with
  | zero => exact ⟨i, k, s, h, fun hlast => (hend hlast).symm.le.trans hfuel⟩
  | succ fuel ih =>
    have hroom := hreceived.room
    have hstart := h.start
    obtain ⟨hcap, hcapEnd⟩ := @capRequestLengthToHeaderEnd_spec n output L (h.head.symm ▸ hend)
    rw [h.head] at hcapEnd
    rw [keepAnalyzingLoop]
    dsimp only
    generalize capRequestLengthToHeaderEnd output 0 L = cap at hcap hcapEnd ⊢
    split
    · rename_i hmore
      have hbyte : charAt output.headerRAW (0 + i) = charAt buffer i := by
        rw [Nat.zero_add]
        exact h.pristine i (by omega)
      rw [hbyte]
      split
      · rename_i hnew
        obtain ⟨hbehind, hstep⟩ := h.lineEnd hreceived hhead hnew.2 (by omega) hnew.1
          (0 + (i + 1) + if isNewline (charAt buffer (i + 1)) then 1 else 0) rfl
        have hnext : charAt (analyzeLine inst output s k).headerRAW (0 + (i + 1)) =
            charAt buffer (i + 1) := by
          rw [Nat.zero_add]
          exact hbehind _ (Nat.lt_succ_self i)
        rw [hnext]
        generalize (if isNewline (charAt buffer (i + 1)) then 1 else 0) = skipped at hstep ⊢
        have hindex : 0 + (i + 1) + skipped = i + 1 + skipped := by omega
        have hindex' : i + skipped + 1 = i + 1 + skipped := by omega
        rw [hindex, hindex']
        rw [hindex] at hstep
        exact ih (hcap.trans hL) hcapEnd (by omega) hstep
      · rename_i hbyte
        refine ih (hcap.trans hL) hcapEnd (by omega) (h.byte (by omega) ?_)
        rw [not_and_or, Bool.not_eq_true, Nat.not_lt, Nat.le_zero] at hbyte
        exact hbyte
    · rename_i hdone
      refine ⟨i, k, s, h, fun hlast => ?_⟩
      rw [hend hlast, hcapEnd hlast] at hdone
      omega

end Loop

/-! ## The end of the request -/

/-- The terminator of a header from `b` on, at the end of `n` bytes. -/
def IsTail (buffer : List UInt8) (b n : ℕ) : Prop :=
  n = b + 2 ∧ charAt buffer b = LF ∧ charAt buffer (b + 1) = LF ∨
    n = b + 4 ∧ charAt buffer b = CR ∧ charAt buffer (b + 1) = LF ∧ charAt buffer (b + 2) = CR ∧
      charAt buffer (b + 3) = LF

section Tail

variable {inst : Instance} {buffer array m : List UInt8} {b n j first stop gap : ℕ}

theorem IsTail.isNewline (h : IsTail buffer b n) (hj : b ≤ j) (hjn : j < n) :
    isNewline (charAt buffer j) = true := by
  rcases h with ⟨rfl, h₀, h₁⟩ | ⟨rfl, h₀, h₁, h₂, h₃⟩
  · obtain rfl | rfl : j = b ∨ j = b + 1 := by omega
    · exact h₀ ▸ rfl
    · exact h₁ ▸ rfl
  · obtain rfl | rfl | rfl | rfl : j = b ∨ j = b + 1 ∨ j = b + 2 ∨ j = b + 3 := by omega
    · exact h₀ ▸ rfl
    · exact h₁ ▸ rfl
    · exact h₂ ▸ rfl
    · exact h₃ ▸ rfl

theorem IsTail.lt (h : IsTail buffer b n) : b + 1 < n := by
  rcases h with ⟨rfl, -⟩ | ⟨rfl, -⟩
  · exact Nat.lt_succ_self _
  · omega

/-- A copy of the terminator is a blank line. -/
theorem IsTail.endsAt_copy (h : IsTail buffer b n) (hgap : gap ≤ b)
    (hcopy : ∀ j, b ≤ j → j < n → charAt m (j - gap) = charAt buffer j) :
    endsAt m (n - 1 - gap) = true := by
  rcases h with ⟨rfl, h₀, h₁⟩ | ⟨rfl, h₀, h₁, h₂, h₃⟩
  · have hindex : b + 2 - 1 - gap = b + 1 - gap := by omega
    have hindex' : b + 1 - gap - 1 = b - gap := by omega
    rw [hindex]
    exact endsAt_iff.mpr ⟨(hcopy _ (by omega) (by omega)).trans h₁, .inl ⟨by omega, by
      rw [hindex', hcopy b le_rfl (by omega), h₀]⟩⟩
  · have hindex : b + 4 - 1 - gap = b + 3 - gap := by omega
    have hindex₁ : b + 3 - gap - 1 = b + 2 - gap := by omega
    have hindex₂ : b + 3 - gap - 2 = b + 1 - gap := by omega
    have hindex₃ : b + 3 - gap - 3 = b - gap := by omega
    rw [hindex]
    refine endsAt_iff.mpr ⟨(hcopy _ (by omega) (by omega)).trans h₃, .inr ⟨by omega, ?_, ?_, ?_⟩⟩
    · rw [hindex₃, hcopy b le_rfl (by omega), h₀]
    · rw [hindex₂, hcopy _ (by omega) (by omega), h₁]
    · rw [hindex₁, hcopy _ (by omega) (by omega), h₂]

theorem IsTail.endsAt (h : IsTail buffer b n) : endsAt buffer (n - 1) = true :=
  h.endsAt_copy (Nat.zero_le b) fun _ _ _ => rfl

theorem isTail_of_isBlankLine {front stop rest : List UInt8} (h : IsBlankLine stop) :
    IsTail (front ++ (stop ++ rest)) front.length (front ++ stop).length := by
  have hbyte : ∀ i, charAt (front ++ (stop ++ rest)) (front.length + i) = charAt (stop ++ rest) i :=
    charAt_append_add front (stop ++ rest)
  have hfirst : charAt (front ++ (stop ++ rest)) front.length = charAt (stop ++ rest) 0 := hbyte 0
  rw [List.length_append]
  unfold IsTail
  rw [hfirst, hbyte 1, hbyte 2, hbyte 3]
  rcases h with rfl | rfl
  · exact .inl ⟨rfl, rfl, rfl⟩
  · exact .inr ⟨rfl, rfl, rfl, rfl, rfl⟩

theorem IsTail.unique {buffer : List UInt8} {b b' n : ℕ} (h : IsTail buffer b n)
    (h' : IsTail buffer b' n) : b = b' := by
  rcases h with ⟨hn, h₀, h₁⟩ | ⟨hn, h₀, h₁, h₂, h₃⟩
  · rcases h' with ⟨hn', -⟩ | ⟨hn', -, -, hCR, -⟩
    · omega
    · obtain rfl : b = b' + 2 := by omega
      rw [h₀] at hCR
      cases hCR
  · rcases h' with ⟨hn', hLF, -⟩ | ⟨hn', -⟩
    · obtain rfl : b' = b + 2 := by omega
      rw [h₂] at hLF
      cases hLF
    · omega

theorem isBlankLine_drop {s : List UInt8} {b : ℕ} (htail : IsTail s b s.length) :
    IsBlankLine (s.drop b) := by
  rcases htail with ⟨hn, h₀, h₁⟩ | ⟨hn, h₀, h₁, h₂, h₃⟩
  · left
    rw [charAt_eq (by omega)] at h₀ h₁
    rw [List.drop_eq_getElem_cons (by omega), List.drop_eq_getElem_cons (by omega), h₀, h₁,
      List.drop_of_length_le (by omega)]
  · right
    rw [charAt_eq (by omega)] at h₀ h₁ h₂ h₃
    rw [List.drop_eq_getElem_cons (by omega), List.drop_eq_getElem_cons (by omega),
      List.drop_eq_getElem_cons (by omega), List.drop_eq_getElem_cons (by omega), h₀, h₁, h₂, h₃,
      List.drop_of_length_le (by omega)]

theorem isTail_of_endsAt {s : List UInt8} {i : ℕ} (h : HeaderAnalysis.endsAt s i = true) :
    ∃ b, IsTail s b (i + 1) := by
  obtain ⟨hlast, ⟨hi, hLF⟩ | ⟨hi, hCR, hLF, hCR'⟩⟩ := endsAt_iff.mp h
  · obtain ⟨b, rfl⟩ := Nat.exists_eq_add_of_le' hi
    exact ⟨b, .inl ⟨rfl, hLF, hlast⟩⟩
  · obtain ⟨b, rfl⟩ := Nat.exists_eq_add_of_le' hi
    exact ⟨b, .inr ⟨rfl, hCR, hLF, hCR', hlast⟩⟩

theorem hasBlankLine_iff {s : List UInt8} :
    HasBlankLine s ↔ ∃ i < s.length, HeaderAnalysis.endsAt s i = true := by
  constructor
  · rintro ⟨front, stop, rest, rfl, hstop⟩
    have htail : IsTail (front ++ (stop ++ rest)) front.length (front ++ stop).length :=
      isTail_of_isBlankLine hstop
    refine ⟨_, ?_, htail.endsAt⟩
    have hlt := htail.lt
    rw [List.length_append] at hlt
    rw [List.length_append, List.length_append, List.length_append]
    omega
  · rintro ⟨i, hi, hends⟩
    obtain ⟨b, htail⟩ := isTail_of_endsAt hends
    have hlength : (s.take (i + 1)).length = i + 1 := List.length_take_of_le hi
    have hfront : IsTail (s.take (i + 1)) b (s.take (i + 1)).length := by
      rw [hlength]
      refine htail.imp (fun h => ?_) fun h => ?_
      · rw [charAt_take (by omega), charAt_take (by omega)]
        exact h
      · rw [charAt_take (by omega), charAt_take (by omega), charAt_take (by omega),
          charAt_take (by omega)]
        exact h
    refine ⟨(s.take (i + 1)).take b, (s.take (i + 1)).drop b, s.drop (i + 1), ?_,
      isBlankLine_drop hfront⟩
    rw [← List.append_assoc, List.take_append_drop, List.take_append_drop]

theorem Rewritten.endsAt (h : Rewritten first stop gap buffer array)
    (hkept : ∀ p, charAt m p = charAt array p ∨ charAt m p = 0) (hj : endsAt m j = true) :
    endsAt buffer j = true ∨ gap ≠ 0 ∧ j < stop ∧ endsAt buffer (j + gap) = true := by
  have hsame : ∀ p, isNewline (charAt m p) = true → charAt m p = charAt array p := by
    intro p hp
    refine (hkept p).resolve_right fun hcon => ?_
    rw [hcon] at hp
    cases hp
  rcases Nat.lt_or_ge j first with hlt | hge
  · have hlast : isNewline (charAt m j) = true := (endsAt_iff.mp hj).1 ▸ rfl
    obtain ⟨hstop, hfirst, -⟩ := h.front j hlt (hsame j hlast ▸ hlast)
    refine .inr ⟨by omega, hstop, endsAt_of_run hj fun d hd hrun => ⟨by omega, ?_⟩⟩
    have hnew := hrun d le_rfl
    have hindex : j + gap - d = j - d + gap := by omega
    obtain ⟨-, -, hmoved⟩ := h.front (j - d) (by omega) (hsame _ hnew ▸ hnew)
    rw [hindex, hsame _ hnew, hmoved]
  · refine .inl (endsAt_of_run hj fun d hd hrun => ⟨hd, ?_⟩)
    have hnew := hrun d le_rfl
    rw [hsame _ hnew, h.behind]
    -- a run of line breaks does not reach into the request line
    by_contra hcon
    obtain ⟨hstop, hfirst, -⟩ := h.front (j - d) (by omega) (hsame _ hnew ▸ hnew)
    obtain ⟨hinside, hstopped⟩ := h.stopped (by omega)
    have hat := hrun (j - stop) (by omega)
    have hindex : j - (j - stop) = stop := by omega
    rw [hindex] at hat
    rw [← hsame stop hat, hat] at hstopped
    cases hstopped

/-- In front of a terminator behind credentials there is no blank line. -/
theorem Hit.endsAt_unique {s : ℕ} (hit : Hit inst buffer s b) (htail : IsTail buffer b n)
    (hzero : ∀ p, n ≤ p → charAt buffer p = 0) (hj : endsAt buffer j = true) : j = n - 1 := by
  have hbefore := hit.before
  obtain ⟨hlast, hfront⟩ := endsAt_iff.mp hj
  have hjn : j < n := by
    by_contra hge
    rw [hzero j (Nat.le_of_not_lt hge)] at hlast
    cases hlast
  have hletter : ∀ c : UInt8, isNewline c = true → charAt buffer (b - 1) ≠ c := by
    intro c hc hcon
    have hplain := hit.plain (b - 1) (by omega) (by omega)
    rw [hcon, hc] at hplain
    cases hplain
  have hjb : b ≤ j := by
    by_contra hlt
    rcases Nat.lt_or_ge j s with hfirst | hline
    · rw [hit.header j hfirst] at hj
      cases hj
    · have hplain := hit.plain j hline (Nat.lt_of_not_le hlt)
      rw [hlast] at hplain
      cases hplain
  rcases htail with ⟨rfl, h₀, h₁⟩ | ⟨rfl, h₀, h₁, h₂, h₃⟩
  · obtain rfl | rfl : j = b ∨ j = b + 1 := by omega
    · exfalso
      rcases hfront with ⟨-, hLF⟩ | ⟨-, -, -, hCR⟩
      · exact hletter LF rfl hLF
      · exact hletter CR rfl hCR
    · rfl
  · obtain rfl | rfl | rfl | rfl : j = b ∨ j = b + 1 ∨ j = b + 2 ∨ j = b + 3 := by omega
    · rw [h₀] at hlast
      cases hlast
    · exfalso
      rcases hfront with ⟨-, hLF⟩ | ⟨-, -, hLF, -⟩
      · rw [Nat.add_sub_cancel, h₀] at hLF
        cases hLF
      · exact hletter LF rfl hLF
    · rw [h₂] at hlast
      cases hlast
    · rfl

/-- The place of the blank line in a copy that the escapes have made. -/
def Copied (buffer : List UInt8) (first n : ℕ) : Prop :=
  decodedGap buffer first ≠ 0 ∧ n ≤ decodedEnd buffer first + decodedGap buffer first

variable {head i k s : ℕ} {output : IncomingHeader}

theorem Received.first_le (hreceived : Received buffer first n) (htail : IsTail buffer b n) :
    first ≤ b := by
  by_contra hlt
  have hplain := hreceived.firstPlain b (Nat.lt_of_not_le hlt)
  rw [htail.isNewline le_rfl ((Nat.lt_succ_self b).trans htail.lt)] at hplain
  cases hplain

theorem Progress.endsAt (hreceived : Received buffer first n)
    (h : Progress inst buffer first n head i k s output)
    (hj : HeaderAnalysis.endsAt output.headerRAW j = true) :
    HeaderAnalysis.endsAt buffer j = true ∨ decodedGap buffer first ≠ 0 ∧
      j < decodedEnd buffer first ∧
        HeaderAnalysis.endsAt buffer (j + decodedGap buffer first) = true := by
  rcases h.line with ⟨-, -, hbuffer⟩ | ⟨-, -, htraced⟩
  · exact .inl (hbuffer ▸ hj)
  · have hroom := hreceived.room
    have hfirst := hreceived.firstLe
    exact (rewritten_firstLineArray (by omega) hreceived.firstPlain).endsAt htraced.kept hj

theorem Progress.found_iff (hreceived : Received buffer first n)
    (hhead : head = scanForHeaderEndFromStart buffer n)
    (hzero : ∀ p, n ≤ p → charAt buffer p = 0) (htail : IsTail buffer b n)
    (h : Progress inst buffer first n head i k s output) (hrun : head + 1 = n → n ≤ i) :
    (∃ j, 1 < j ∧ j ≤ n - 1 ∧ HeaderAnalysis.endsAt output.headerRAW j = true) ↔
      ¬ ((∃ s, Hit inst buffer s b) ∧ ¬ Copied buffer first n) := by
  have hroom := hreceived.room
  have hthree := hreceived.three
  have hfirst := hreceived.first_le htail
  have hlt := htail.lt
  have hat : ∀ {s'}, Hit inst buffer s' b → n ≤ i := by
    intro s' hit
    refine hrun ?_
    rcases hreceived.scan_spec hhead with ⟨-, hnone⟩ | ⟨-, -, hends, -⟩
    · have hends := htail.endsAt
      rw [hnone _ (by omega)] at hends
      cases hends
    · rw [hit.endsAt_unique htail hzero hends]
      omega
  rcases h.line with ⟨-, rfl, hbuffer⟩ | ⟨-, -, htraced⟩
  · -- no line has come to its end
    rw [hbuffer]
    refine iff_of_true ⟨n - 1, by omega, le_rfl, htail.endsAt⟩ ?_
    rintro ⟨⟨s', hit⟩, -⟩
    have hplain := h.plain b (by omega) (by have hle := hat hit; omega)
    rw [hit.stop] at hplain
    cases hplain
  · have hrewritten := @rewritten_firstLineArray buffer first (by omega) hreceived.firstPlain
    constructor
    · rintro ⟨j, -, -, hj⟩ ⟨⟨s', hit⟩, hcopied⟩
      have hlost := htraced.hit s' b (by have hle := hat hit; omega) hit
      rcases hrewritten.endsAt htraced.kept hj with hsame | ⟨hgap, hstop, hmoved⟩
      · obtain rfl := hit.endsAt_unique htail hzero hsame
        obtain ⟨-, hfront⟩ := endsAt_iff.mp hj
        rcases htail with ⟨rfl, h₀, h₁⟩ | ⟨rfl, h₀, h₁, h₂, h₃⟩
        · rw [show b + 2 - 1 - 1 = b by omega, hlost] at hfront
          rcases hfront with ⟨-, hcon⟩ | ⟨-, -, -, hcon⟩
          · cases hcon
          · cases hcon
        · rw [show b + 4 - 1 - 1 = b + 2 by omega, show b + 4 - 1 - 3 = b by omega, hlost] at hfront
          rcases hfront with ⟨-, hcon⟩ | ⟨-, hcon, -⟩
          · have hkept := htraced.kept (b + 2)
            rw [hcon, hrewritten.behind _ (by omega), h₂] at hkept
            rcases hkept with hcon | hcon
            · cases hcon
            · cases hcon
          · cases hcon
      · have hlast := hit.endsAt_unique htail hzero hmoved
        exact hcopied ⟨hgap, by omega⟩
    · intro hnot
      by_cases hhit : ∃ s', Hit inst buffer s' b
      · -- the copy in the request line is found
        obtain ⟨hgap, hreach⟩ := not_not.mp fun hcon => hnot ⟨hhit, hcon⟩
        have hlow := hrewritten.low hgap
        have hstop := (hrewritten.stopped hgap).1
        refine ⟨n - 1 - decodedGap buffer first, by omega, by omega,
          htail.endsAt_copy (by omega) fun j hj hj' => ?_⟩
        have hmoved := hrewritten.moved j (by omega) (by omega)
        by_contra hcon
        obtain ⟨s', hit⟩ := htraced.lost (j - decodedGap buffer first)
          (hmoved ▸ htail.isNewline hj hj') fun heq => hcon (heq.trans hmoved)
        have hlater := hreceived.first_lt hit
        have hbefore := hit.before
        omega
      · refine ⟨n - 1, by omega, le_rfl, htail.endsAt_copy (Nat.zero_le b) fun j hj hj' => ?_⟩
        have hbehind := hrewritten.behind j (by omega)
        by_contra hcon
        obtain ⟨s', hit⟩ := htraced.lost j (hbehind ▸ htail.isNewline hj hj') fun heq =>
          hcon (heq.trans hbehind)
        rcases Nat.eq_or_lt_of_le hj with rfl | hgt
        · exact hhit ⟨s', hit⟩
        · obtain ⟨p, rfl⟩ := Nat.exists_eq_add_of_lt hgt
          exact Hit.not_behind hit (htail.isNewline (Nat.le_add_right b p) (by omega))

end Tail

/-! ## Requests -/

/-- The answer of `HTTPRequestIsComplete` when the lines of a request have been analysed. -/
def reportsComplete (inst : Instance) (bytes : List UInt8) : Bool :=
  (httpRequestIsComplete inst (keepAnalyzingHTTPHeader inst (receivedRequest bytes))).1

def IsGetOrHead (bytes : List UInt8) : Prop :=
  scanForFirstLines bytes (untilNewline bytes) = .GET ∨
    scanForFirstLines bytes (untilNewline bytes) = .HEAD

/-- The terminator stands directly behind a line of credentials that run to its end. -/
def EndsInCredentials (bytes : List UInt8) : Prop :=
  ∃ front line stop, bytes = front ++ line ++ stop ∧ IsBlankLine stop ∧ place front ≠ .inside ∧
    ¬ HasBlankLine front ∧ NoNewline line ∧ IsCredentialLine line

/-- The escapes of the target free enough bytes of the request line for the bytes behind it, up to
the last one, to be moved into it. -/
def EscapesReach (bytes : List UInt8) : Prop :=
  Copied (receivedRequest bytes).headerRAW (untilNewline bytes) bytes.length

section Requests

variable {inst : Instance} {bytes : List UInt8}

theorem charAt_received (bytes : List UInt8) (p : ℕ) :
    charAt (receivedRequest bytes).headerRAW p = charAt bytes p := by
  rcases Nat.lt_or_ge p bytes.length with hlt | hge
  · exact charAt_append_left hlt
  · obtain ⟨d, rfl⟩ := Nat.exists_eq_add_of_le hge
    rw [charAt_of_length_le hge]
    refine (charAt_append_add _ _ d).trans ?_
    rw [charAt, List.getD_eq_getElem?_getD, List.getElem?_replicate]
    split
    · rfl
    · rfl

theorem take_received {n : ℕ} (hn : n ≤ bytes.length) :
    (receivedRequest bytes).headerRAW.take n = bytes.take n :=
  List.take_append_of_le_length hn

theorem endsAt_congr {s t : List UInt8} {i : ℕ} (h : ∀ p ≤ i, charAt s p = charAt t p) :
    endsAt s i = endsAt t i := by
  unfold endsAt
  rw [h i le_rfl, h (i - 1) (Nat.sub_le ..), h (i - 2) (Nat.sub_le ..), h (i - 3) (Nat.sub_le ..)]

theorem scanForFirstLines_take (s : List UInt8) (n : ℕ) :
    scanForFirstLines (s.take n) n = scanForFirstLines s n := by
  have hword : ∀ word type, scanForWord (s.take n) n word type = scanForWord s n word type := by
    intro word type
    unfold scanForWord
    split
    · rfl
    · rename_i hlong
      rw [strncasecmpEq_take (Nat.le_of_not_lt hlong)]
  unfold scanForFirstLines
  split
  · rfl
  · rename_i hlong
    simp only [charAt_take (show 0 < n by omega), charAt_take (show 1 < n by omega), hword]

theorem charAt_of_lt_takeWhile {p : UInt8 → Bool} {s : List UInt8} {j : ℕ}
    (h : j < (s.takeWhile p).length) : p (charAt s j) = true := by
  have hleading := List.takeWhile_prefix p (l := s)
  rw [charAt_eq (h.trans_le hleading.length_le), ← hleading.getElem h]
  exact List.mem_takeWhile_imp (List.getElem_mem h)

theorem charAt_takeWhile_length {p : UInt8 → Bool} {s : List UInt8}
    (h : (s.takeWhile p).length < s.length) : p (charAt s (s.takeWhile p).length) = false := by
  induction s with
  | nil => cases h
  | cons c s ih =>
    cases hc : p c with
    | false =>
      rw [List.takeWhile_cons_of_neg (by rw [hc]; exact Bool.false_ne_true)]
      exact hc
    | true =>
      rw [List.takeWhile_cons_of_pos hc, List.length_cons, List.length_cons] at h
      rw [List.takeWhile_cons_of_pos hc]
      exact ih (Nat.lt_of_succ_lt_succ h)

theorem received_of_isGetOrHead (hsize : bytes.length ≤ MAX_HTTP_REQUEST_HEADER)
    (hget : IsGetOrHead bytes) :
    Received (receivedRequest bytes).headerRAW (untilNewline bytes) bytes.length := by
  have hle : untilNewline bytes ≤ bytes.length := (List.takeWhile_prefix _).length_le
  have hscan : scanForFirstLines (receivedRequest bytes).headerRAW (untilNewline bytes) =
      scanForFirstLines bytes (untilNewline bytes) := by
    rw [← scanForFirstLines_take, take_received hle, scanForFirstLines_take]
  refine ⟨?_, ?_, hle, fun j hj => ?_, fun hlt => ?_, ?_⟩
  · show bytes.length + 2 ≤ (bytes ++ List.replicate _ 0).length
    rw [List.length_append, List.length_replicate, EXTRA_SPACE]
    omega
  · by_contra hsmall
    have hnone := @scanForFirstLines_small bytes _ (Nat.lt_of_not_le hsmall)
    rcases hget with hcon | hcon
    · rw [hnone] at hcon
      cases hcon
    · rw [hnone] at hcon
      cases hcon
  · have hplain := charAt_of_lt_takeWhile hj
    rw [charAt_received]
    rwa [Bool.not_eq_true'] at hplain
  · have hstop := charAt_takeWhile_length hlt
    rw [charAt_received]
    rwa [Bool.not_eq_false'] at hstop
  · rw [hscan]
    rcases hget with htype | htype
    · rw [htype]
      decide
    · rw [htype]
      decide

theorem capRequestLengthToHeaderEnd_of_not_chunked {output : IncomingHeader}
    (h : output.chunked = false) (n : ℕ) : capRequestLengthToHeaderEnd output 0 n = n := by
  unfold capRequestLengthToHeaderEnd
  exact if_pos (.inl (by rw [h]; rfl))

theorem keepAnalyzingHTTPHeader_fresh {output : IncomingHeader} (hsize : output.headerRAWSize ≠ 0)
    (hhead : output.headerRAWHeadSize = 0) (hchunked : output.chunked = false)
    (hstart : output.parsingStartOffset = 0)
    (hmax : output.headerRAWSize ≤ output.MAXheaderRAWSize) :
    keepAnalyzingHTTPHeader inst output =
      keepAnalyzingLoop inst 0 output.headerRAWSize output.headerRAWSize 0 0 0
        { output with
          headerRAWHeadSize :=
            scanForHeaderEndFromStart output.headerRAW output.headerRAWSize } := by
  unfold keepAnalyzingHTTPHeader
  rw [if_neg hsize, if_pos hhead]
  dsimp only
  rw [hstart, Nat.sub_zero, capRequestLengthToHeaderEnd_of_not_chunked, Nat.min_eq_left hmax]
  exact hchunked

theorem analysed (inst : Instance) (hsize : bytes.length ≤ MAX_HTTP_REQUEST_HEADER)
    (hreceived : Received (receivedRequest bytes).headerRAW (untilNewline bytes) bytes.length) :
    ∃ i k s, Progress inst (receivedRequest bytes).headerRAW (untilNewline bytes) bytes.length
        (scanForHeaderEndFromStart (receivedRequest bytes).headerRAW bytes.length) i k s
        (keepAnalyzingHTTPHeader inst (receivedRequest bytes)) ∧
      (scanForHeaderEndFromStart (receivedRequest bytes).headerRAW bytes.length + 1 =
        bytes.length → bytes.length ≤ i) := by
  have hthree := hreceived.three
  have hle := hreceived.firstLe
  have hne : (receivedRequest bytes).headerRAWSize ≠ 0 := by
    show bytes.length ≠ 0
    omega
  rw [keepAnalyzingHTTPHeader_fresh hne rfl rfl rfl hsize]
  exact Progress.run hreceived rfl le_rfl (fun _ => rfl) (Nat.le_add_left ..)
    ⟨rfl, rfl, rfl, fun hcon => (by cases hcon), fun hcon => (by cases hcon), .inl rfl,
      fun j _ hj => absurd hj (Nat.not_lt_zero j),
      fun _ _ => rfl, .inl ⟨rfl, rfl, rfl⟩⟩

theorem httpRequestIsComplete_iff {output : IncomingHeader} (htype : output.requestType ≠ .POST) :
    (httpRequestIsComplete inst output).1 = true ↔ 4 ≤ output.headerRAWSize ∧
      ∃ j, 1 < j ∧ j ≤ output.headerRAWSize - 1 ∧ endsAt output.headerRAW j = true := by
  unfold httpRequestIsComplete scanForHeaderEndFromEnd
  rw [if_neg htype]
  dsimp only
  rw [bne_iff_ne]
  split
  · rename_i hsmall
    exact iff_of_false (fun h => h rfl) fun h => Nat.not_le.mpr hsmall h.1
  · rename_i hlong
    rw [scanBackwards_ne_zero_iff]
    exact (and_iff_right (Nat.le_of_not_lt hlong)).symm

theorem isTail_received {b : ℕ} :
    IsTail (receivedRequest bytes).headerRAW b bytes.length ↔ IsTail bytes b bytes.length := by
  unfold IsTail
  rw [charAt_received, charAt_received, charAt_received, charAt_received]

theorem scanForHeaderWords_ne {s : List UInt8} {n : ℕ} {kind : HttpHeaderKind}
    {words : List (String × HttpHeaderKind)} (hkind : kind ≠ .EMPTY)
    (h : ∀ word ∈ words, word.2 ≠ kind) : scanForHeaderWords s n words ≠ kind := by
  induction words with
  | nil => exact hkind.symm
  | cons word words ih =>
    rw [List.forall_mem_cons] at h
    rw [scanForHeaderWords]
    split
    · exact h.1
    · exact ih h.2

/-- The name of a line of credentials starts with an `A`. -/
theorem toUpper_of_authorization {s : List UInt8} {n : ℕ}
    (h : scanForHttpHeader s n = .AUTHORIZATION) : toUpper (charAt s 0) = 65 := by
  have hwords : ∀ words : List (String × HttpHeaderKind),
      (∀ word ∈ words, word.2 ≠ .AUTHORIZATION) →
        scanForHeaderWords s n words ≠ .AUTHORIZATION := fun words =>
    scanForHeaderWords_ne (by decide)
  by_contra hne
  apply absurd h
  unfold scanForHttpHeader
  simp only [if_neg hne]
  repeat' split
  all_goals
    first
    | exact hwords _ (by decide)
    | decide

theorem not_isCredentialLine_of_isGetOrHead {line rest : List UInt8}
    (hget : IsGetOrHead (line ++ rest)) (h : IsCredentialLine line) : False := by
  have hletter := toUpper_of_authorization h.kind
  have hfirst : charAt (line ++ rest) 0 = charAt line 0 := by
    cases line with
    | nil => cases hletter
    | cons c line => rfl
  have hnone : scanForFirstLines (line ++ rest) (untilNewline (line ++ rest)) = .NONE := by
    unfold scanForFirstLines
    simp only [hfirst, hletter]
    split
    · rfl
    · rfl
  rcases hget with hcon | hcon
  · rw [hnone] at hcon
    cases hcon
  · rw [hnone] at hcon
    cases hcon

theorem hit_iff {b : ℕ} (hget : IsGetOrHead bytes) (htail : IsTail bytes b bytes.length) :
    (∃ s, Hit inst (receivedRequest bytes).headerRAW s b) ↔
      inst.Protected ∧ EndsInCredentials bytes := by
  have hlt := htail.lt
  constructor
  · rintro ⟨s, hit⟩
    have hbefore := hit.before
    have hline : ((receivedRequest bytes).headerRAW.drop s).take (b - s) =
        (bytes.drop s).take (b - s) := by
      show ((bytes ++ _).drop s).take (b - s) = _
      rw [List.drop_append_of_le_length (by omega), List.take_append_of_le_length (by
        rw [List.length_drop]
        omega)]
    refine ⟨hit.isProtected, bytes.take s, (bytes.drop s).take (b - s), bytes.drop b, ?_,
      isBlankLine_drop htail, ?_, ?_, fun c hc => ?_, hline ▸ hit.credentials⟩
    · have hstop : bytes.drop b = (bytes.drop s).drop (b - s) := by
        rw [List.drop_drop, Nat.add_sub_cancel' hbefore.le]
      rw [List.append_assoc, hstop, List.take_append_drop, List.take_append_drop]
    · rw [← take_received (by omega)]
      exact hit.start
    · intro hblank
      obtain ⟨i, hi, hends⟩ := hasBlankLine_iff.mp hblank
      rw [List.length_take] at hi
      have hsame : endsAt (receivedRequest bytes).headerRAW i = endsAt (bytes.take s) i :=
        endsAt_congr fun p hp => by rw [charAt_received, charAt_take (by omega)]
      rw [← hsame, hit.header i (by omega)] at hends
      cases hends
    · obtain ⟨i, hi, rfl⟩ := exists_charAt_of_mem hc
      rw [List.length_take] at hi
      rw [charAt_take (by omega), charAt_drop, ← charAt_received]
      exact hit.plain _ (Nat.le_add_right s i) (by omega)
  · rintro ⟨hprotected, front, line, stop, rfl, hstop, hstart, hheader, hplain, hcredentials⟩
    have hhere : IsTail (front ++ line ++ (stop ++ [])) (front ++ line).length
        (front ++ line ++ stop).length := isTail_of_isBlankLine hstop
    rw [List.append_nil] at hhere
    obtain rfl := htail.unique hhere
    have hline : 0 < line.length := by
      by_contra hcon
      have hkind := hcredentials.kind
      rw [scanForHttpHeader, if_pos (by omega)] at hkind
      cases hkind
    have hlength : (front ++ line).length = front.length + line.length := List.length_append
    have hread : ∀ j, charAt (receivedRequest (front ++ line ++ stop)).headerRAW j =
        charAt (front ++ (line ++ stop)) j := fun j => by
      rw [charAt_received, List.append_assoc]
    have hfront : ∀ j < front.length,
        charAt (receivedRequest (front ++ line ++ stop)).headerRAW j = charAt front j :=
      fun j hj => (hread j).trans (charAt_append_left hj)
    have hdrop : ((receivedRequest (front ++ line ++ stop)).headerRAW.drop front.length).take
        line.length = line := by
      show ((front ++ line ++ stop ++ _).drop front.length).take line.length = line
      rw [List.append_assoc, List.append_assoc, List.drop_left, List.take_left]
    refine ⟨front.length, hprotected, ?_, ?_, fun i hi => ?_, by omega, fun j hj hj' => ?_, ?_, ?_⟩
    · by_contra hcon
      obtain rfl := List.eq_nil_of_length_eq_zero (Nat.le_zero.mp (Nat.le_of_not_lt hcon))
      rw [List.nil_append] at hget
      exact not_isCredentialLine_of_isGetOrHead hget hcredentials
    · rw [take_received (by rw [List.length_append]; omega), List.append_assoc, List.take_left]
      exact hstart
    · rw [endsAt_congr fun p hp => hfront p (hp.trans_lt hi)]
      by_contra hcon
      exact hheader (hasBlankLine_iff.mpr ⟨i, hi, Bool.not_eq_false _ ▸ hcon⟩)
    · obtain ⟨d, rfl⟩ := Nat.exists_eq_add_of_le hj
      rw [hread, charAt_append_add, charAt_append_left (by omega), charAt_eq (by omega)]
      exact hplain _ (List.getElem_mem _)
    · rw [charAt_received]
      exact htail.isNewline le_rfl (Nat.lt_of_succ_lt hlt)
    · rw [hlength, Nat.add_sub_cancel_left, hdrop]
      exact hcredentials

theorem reportsComplete_iff (hsize : bytes.length ≤ MAX_HTTP_REQUEST_HEADER)
    (hget : IsGetOrHead bytes) (hend : EndsInBlankLine bytes) :
    reportsComplete inst bytes = true ↔
      ¬ (inst.Protected ∧ EndsInCredentials bytes ∧ ¬ EscapesReach bytes) := by
  obtain ⟨b, htail⟩ : ∃ b, IsTail bytes b bytes.length := by
    obtain ⟨front, stop, rfl, hstop⟩ := hend
    have hhere : IsTail (front ++ (stop ++ [])) front.length (front ++ stop).length :=
      isTail_of_isBlankLine hstop
    rw [List.append_nil] at hhere
    exact ⟨front.length, hhere⟩
  have hreceived := received_of_isGetOrHead hsize hget
  obtain ⟨i, k, s, hprogress, hrun⟩ := analysed inst hsize hreceived
  have hzero : ∀ p, bytes.length ≤ p → charAt (receivedRequest bytes).headerRAW p = 0 := by
    intro p hp
    rw [charAt_received, charAt_of_length_le hp]
  have hfour : 4 ≤ bytes.length := by
    have hthree := hreceived.three
    have hfirst := hreceived.first_le (isTail_received.mpr htail)
    have hlt := htail.lt
    omega
  rw [reportsComplete, httpRequestIsComplete_iff hprogress.type, hprogress.size,
    and_iff_right hfour,
    hprogress.found_iff hreceived rfl hzero (isTail_received.mpr htail) hrun, hit_iff hget htail,
    and_assoc]
  rfl

theorem reportsComplete_eq_false (hsize : bytes.length ≤ MAX_HTTP_REQUEST_HEADER)
    (hget : IsGetOrHead bytes) (hnone : ¬ HasBlankLine bytes) :
    reportsComplete inst bytes = false := by
  have hreceived := received_of_isGetOrHead hsize hget
  obtain ⟨i, k, s, hprogress, -⟩ := analysed inst hsize hreceived
  by_contra hcon
  rw [Bool.not_eq_false, reportsComplete, httpRequestIsComplete_iff hprogress.type] at hcon
  obtain ⟨-, j, -, -, hj⟩ := hcon
  have hblank : ∀ j, endsAt (receivedRequest bytes).headerRAW j = true → HasBlankLine bytes := by
    intro j hj
    rw [endsAt_congr fun p _ => charAt_received bytes p] at hj
    refine hasBlankLine_iff.mpr ⟨j, ?_, hj⟩
    by_contra hge
    have hlast := (endsAt_iff.mp hj).1
    rw [charAt_of_length_le (Nat.le_of_not_lt hge)] at hlast
    cases hlast
  rcases hprogress.endsAt hreceived hj with hsame | ⟨-, -, hmoved⟩
  · exact hnone (hblank j hsame)
  · exact hnone (hblank _ hmoved)

/-- A complete request is reported as one, and an incomplete one is not, unless credentials stand in
the way. -/
theorem reportsComplete_spec (inst : Instance) (hsize : bytes.length ≤ MAX_HTTP_REQUEST_HEADER)
    (hget : IsGetOrHead bytes) :
    ((EndsInBlankLine bytes → reportsComplete inst bytes = true) ∧
        (¬ HasBlankLine bytes → reportsComplete inst bytes = false)) ↔
      ¬ (inst.Protected ∧ EndsInCredentials bytes ∧ ¬ EscapesReach bytes) := by
  rw [and_iff_left (reportsComplete_eq_false hsize hget)]
  constructor
  · intro hcomplete hhidden
    obtain ⟨front, line, stop, hbytes, hstop, -⟩ := hhidden.2.1
    have hend : EndsInBlankLine bytes := ⟨front ++ line, stop, hbytes, hstop⟩
    exact (reportsComplete_iff hsize hget hend).mp (hcomplete hend) hhidden
  · intro hseen hend
    exact (reportsComplete_iff hsize hget hend).mpr hseen

def guarded : Instance where
  PASSWORD_PROTECTION := true
  BASE64PASSWORD := some (ascii "YTpi")
  ENABLE_POST := false
  MAX_POST_TRANSACTION_SIZE := 4096
  webserver_root := ascii "/"
  analyzePOSTLineRequest := fun output _ _ => output
  checkHTTPHeaderCategory := fun _ _ => true

def requestLine : List UInt8 := ascii "GET / HTTP/1.1" ++ [CR, LF]
def credentialLine : List UInt8 := ascii "Authorization:" ++ ascii " Basic YTpi"

/-- The right password in the last line. -/
def lastCredentials : List UInt8 := requestLine ++ credentialLine ++ [CR, LF, CR, LF]

theorem lastCredentials_evaluated :
    (lastCredentials.length ≤ MAX_HTTP_REQUEST_HEADER ∧
      scanForFirstLines lastCredentials (untilNewline lastCredentials) = .GET ∧
      reportsComplete guarded lastCredentials = false) ∧
    (place requestLine ≠ .inside ∧ (∀ i < requestLine.length, endsAt requestLine i = false) ∧
      (∀ c ∈ credentialLine, isNewline c = false) ∧
      decodedGap (receivedRequest lastCredentials).headerRAW (untilNewline lastCredentials) = 0) ∧
    scanForHttpHeader credentialLine credentialLine.length = .AUTHORIZATION ∧
    credentialsStart credentialLine credentialLine.length < credentialLine.length ∧
      ∀ c ∈ credentialLine.drop (credentialsStart credentialLine credentialLine.length),
        isEmptyChar c = false := by
  decide +kernel

theorem lastCredentials_ends : EndsInBlankLine lastCredentials :=
  ⟨requestLine ++ credentialLine, [CR, LF, CR, LF], rfl, .inr rfl⟩

theorem reportsComplete_guarded :
    ¬ (EndsInBlankLine lastCredentials → reportsComplete guarded lastCredentials = true) := by
  intro hcomplete
  obtain ⟨⟨hsize, hget, -⟩, ⟨hplace, hheader, hplain, hgap⟩, hkind, hunbroken⟩ :=
    lastCredentials_evaluated
  apply (reportsComplete_spec guarded hsize (.inl hget)).mp
    ⟨hcomplete, fun hnone => absurd ⟨_, [CR, LF, CR, LF], [], rfl, .inr rfl⟩ hnone⟩
  refine ⟨⟨rfl, Option.some_ne_none _⟩, ⟨requestLine, credentialLine, [CR, LF, CR, LF], rfl,
    .inr rfl, hplace, fun hblank => ?_, hplain, hkind, hunbroken⟩, fun hcopied => hcopied.1 hgap⟩
  obtain ⟨i, hi, hends⟩ := hasBlankLine_iff.mp hblank
  rw [hheader i hi] at hends
  cases hends

/-- The server waits for more of a request that is all there. -/
theorem guarded_end_hidden : ∃ bytes, bytes.length ≤ MAX_HTTP_REQUEST_HEADER ∧ IsGetOrHead bytes ∧
    EndsInBlankLine bytes ∧ reportsComplete guarded bytes = false := by
  obtain ⟨⟨hsize, hget, hanswer⟩, -⟩ := lastCredentials_evaluated
  exact ⟨lastCredentials, hsize, .inl hget, lastCredentials_ends, hanswer⟩

end Requests

end AmmarServer.HeaderAnalysis
