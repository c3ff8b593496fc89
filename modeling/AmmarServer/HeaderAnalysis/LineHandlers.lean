import AmmarServer.HeaderAnalysis.HeaderLines
import AmmarServer.Lib.Erasure

/-! What the handlers of a header line write to the buffer. -/

namespace AmmarServer.HeaderAnalysis
open Bytes CString

/-! ## Loops over a line -/

theorem takeWhile_length_eq {p : UInt8 → Bool} {s : List UInt8} {k : ℕ} (hk : k < s.length)
    (hall : ∀ i < k, p (charAt s i) = true) (hstop : p (charAt s k) = false) :
    (s.takeWhile p).length = k := by
  induction k generalizing s with
  | zero =>
    obtain ⟨c, s, rfl⟩ := List.exists_cons_of_length_pos hk
    have hc : p c = false := hstop
    rw [List.takeWhile_cons_of_neg (by rw [hc]; exact Bool.false_ne_true), List.length_nil]
  | succ k ih =>
    obtain ⟨c, s, rfl⟩ := List.exists_cons_of_length_pos (Nat.zero_lt_of_lt hk)
    have hc : p c = true := hall 0 (Nat.succ_pos k)
    rw [List.takeWhile_cons_of_pos hc, List.length_cons,
      ih (Nat.lt_of_succ_lt_succ hk) (fun i hi => hall (i + 1) (Nat.succ_lt_succ hi)) hstop]

theorem takeWhile_length_spec {p : UInt8 → Bool} {s : List UInt8} {k : ℕ} (hk : k < s.length)
    (hstop : p (charAt s k) = false) :
    (s.takeWhile p).length ≤ k ∧ p (charAt s (s.takeWhile p).length) = false := by
  induction s generalizing k with
  | nil => cases hk
  | cons c s ih =>
    cases hc : p c with
    | false =>
      rw [List.takeWhile_cons_of_neg (by rw [hc]; exact Bool.false_ne_true)]
      exact ⟨Nat.zero_le k, hc⟩
    | true =>
      cases k with
      | zero =>
        have hcon : p c = false := hstop
        rw [hc] at hcon
        cases hcon
      | succ k =>
        obtain ⟨hle, hspec⟩ := ih (Nat.lt_of_succ_lt_succ hk) hstop
        rw [List.takeWhile_cons_of_pos hc]
        exact ⟨Nat.succ_le_succ hle, hspec⟩

theorem le_skipWhile (request : List UInt8) (request_length : ℕ) (p : UInt8 → Bool) (s : ℕ) :
    s ≤ skipWhile request request_length p s := Nat.le_add_right ..

/-! ## The recognizer -/

theorem peek_take_succ (s : List UInt8) (n : ℕ) : peek (s.take (n + 1)) = peek s := by
  cases s with
  | nil => rfl
  | cons c s => rfl

theorem strncasecmpEq_take {s t : List UInt8} {k n : ℕ} (h : k ≤ n) :
    strncasecmpEq (s.take n) t k = strncasecmpEq s t k := by
  induction k generalizing s t n with
  | zero => rw [strncasecmpEq, strncasecmpEq]
  | succ k ih =>
    obtain ⟨n, rfl⟩ := Nat.exists_eq_add_of_lt h
    have htail : (s.take (k + n + 1)).tail = s.tail.take (k + n) := by
      cases s with
      | nil => rw [List.take_nil, List.tail_nil, List.take_nil]
      | cons c s => rfl
    rw [strncasecmpEq, strncasecmpEq, peek_take_succ, htail, ih (Nat.le_add_right k n)]

theorem scanForHeaderWords_take (s : List UInt8) (n : ℕ) (words : List (String × HttpHeaderKind)) :
    scanForHeaderWords (s.take n) n words = scanForHeaderWords s n words := by
  induction words with
  | nil => rfl
  | cons word words ih =>
    rw [scanForHeaderWords, scanForHeaderWords, ih]
    by_cases hlength : (ascii word.1).length ≤ n
    · rw [strncasecmpEq_take hlength]
    · rw [if_neg fun h => hlength h.1, if_neg fun h => hlength h.1]

theorem scanForHttpHeader_take (s : List UInt8) (n : ℕ) :
    scanForHttpHeader (s.take n) n = scanForHttpHeader s n := by
  have hwords : scanForHeaderWords (s.take n) n = scanForHeaderWords s n := by
    funext words
    exact scanForHeaderWords_take s n words
  unfold scanForHttpHeader
  split
  · rfl
  · rename_i hlong
    rw [charAt_take (by omega), charAt_take (by omega), charAt_take (by omega), hwords]

theorem isNewline_of_recognized {s : List UInt8} {n : ℕ} (h : scanForHttpHeader s n ≠ .EMPTY) :
    isNewline (charAt s 0) = false := by
  by_contra hcon
  rw [Bool.not_eq_false] at hcon
  apply h
  unfold scanForHttpHeader
  split
  · rfl
  · have hupper : toUpper (charAt s 0) = charAt s 0 := by
      rcases isNewline_iff.mp hcon with hc | hc
      · rw [hc]
        rfl
      · rw [hc]
        rfl
    simp only [hupper]
    rcases isNewline_iff.mp hcon with hc | hc
    · rw [hc]
      rfl
    · rw [hc]
      rfl

/-! ## Credentials -/

theorem length_trimLastEmptyChars (buffer : List UInt8) (input n : ℕ) :
    (trimLastEmptyChars buffer input n).length = buffer.length := by
  induction n generalizing buffer with
  | zero => rfl
  | succ n ih =>
    rw [trimLastEmptyChars, ih]
    split
    · rw [List.length_set]
    · rfl

theorem charAt_trimLastEmptyChars (buffer : List UInt8) (input n j : ℕ) :
    charAt (trimLastEmptyChars buffer input n) j =
      if input ≤ j ∧ j < input + n ∧ isEmptyChar (charAt buffer j) then 0 else charAt buffer j := by
  induction n generalizing buffer with
  | zero =>
    rw [trimLastEmptyChars, if_neg]
    omega
  | succ n ih =>
    rw [trimLastEmptyChars, ih]
    by_cases hj : j = input + n
    · subst hj
      rw [if_neg (by omega)]
      split
      · rename_i hempty
        rw [if_pos ⟨Nat.le_add_right _ _, by omega, hempty⟩]
        rcases Nat.lt_or_ge (input + n) buffer.length with hlt | hge
        · exact charAt_set_self hlt 0
        · exact charAt_of_length_le (by rw [List.length_set]; exact hge)
      · rename_i hfull
        rw [if_neg fun h => hfull h.2.2]
    · have hother : charAt (if isEmptyChar (charAt buffer (input + n)) then
          buffer.set (input + n) 0 else buffer) j = charAt buffer j := by
        split
        · exact charAt_set_of_ne (Ne.symm hj) 0
        · rfl
      have hrange : j < input + n ↔ j < input + (n + 1) := by omega
      simp only [hother, hrange]

theorem erased_trimLastEmptyChars (buffer : List UInt8) (input n : ℕ) :
    Erased input (input + n) buffer (trimLastEmptyChars buffer input n) := by
  refine ⟨length_trimLastEmptyChars .., fun j hj => ?_, fun j => ?_⟩
  · rw [charAt_trimLastEmptyChars, if_neg]
    omega
  · rw [charAt_trimLastEmptyChars]
    split
    · exact .inr rfl
    · exact .inl rfl

/-- The credentials run to the end of their line. -/
def UnbrokenCredentials (line : List UInt8) : Prop :=
  credentialsStart line line.length < line.length ∧
    ∀ c ∈ line.drop (credentialsStart line line.length), isEmptyChar c = false

theorem credentialsStart_take (s : List UInt8) (n : ℕ) :
    credentialsStart (s.take n) n = credentialsStart s n := by
  unfold credentialsStart skipWhile
  rw [List.take_take, Nat.min_self]

/-- What the handler of an `Authorization` line leaves, where the line ends with a line break. -/
theorem processAuthorizationHTTPLine_spec (password : List UInt8) {output : IncomingHeader}
    {request n : ℕ} (hroom : request + n < output.headerRAW.length)
    (hend : isNewline (charAt output.headerRAW (request + n)) = true) :
    Erased request (request + n + 1) output.headerRAW
        (processAuthorizationHTTPLine password output request n).headerRAW ∧
      (charAt (processAuthorizationHTTPLine password output request n).headerRAW (request + n) = 0 ↔
        UnbrokenCredentials ((output.headerRAW.drop request).take n)) := by
  have hsplit : ((output.headerRAW.drop request).take n).length = n := by
    rw [List.length_take, List.length_drop]
    omega
  have hbyte : ∀ j < n, charAt ((output.headerRAW.drop request).take n) j =
      charAt output.headerRAW (request + j) := fun j hj => by rw [charAt_take hj, charAt_drop]
  have hend0 : charAt output.headerRAW (request + n) ≠ 0 := by
    intro hcon
    rw [hcon] at hend
    cases hend
  unfold UnbrokenCredentials processAuthorizationHTTPLine
  rw [hsplit, credentialsStart_take]
  generalize credentialsStart (output.headerRAW.drop request) n = start
  dsimp only
  by_cases hstart : start < n
  · rw [if_pos hstart]
    dsimp only
    have htrim := erased_trimLastEmptyChars output.headerRAW request n
    have hread := charAt_trimLastEmptyChars output.headerRAW request n
    generalize trimLastEmptyChars output.headerRAW request n = buffer at htrim hread ⊢
    have hsize := htrim.length
    have hstop : (fun c : UInt8 => decide (c ≠ 0 ∧ c ≠ CR ∧ c ≠ LF))
        (charAt (buffer.drop (request + start)) (n - start)) = false := by
      have hindex : request + start + (n - start) = request + n := by omega
      rw [charAt_drop, hindex, htrim.outside _ (.inr le_rfl), decide_eq_false_iff_not]
      rintro ⟨-, hCR, hLF⟩
      rcases isNewline_iff.mp hend with hcon | hcon
      · exact hCR hcon
      · exact hLF hcon
    have hin : n - start < (buffer.drop (request + start)).length := by
      rw [List.length_drop]
      omega
    have hle := (@takeWhile_length_spec (fun c => decide (c ≠ 0 ∧ c ≠ CR ∧ c ≠ LF)) _ _ hin hstop).1
    have hlength : ((buffer.drop (request + start)).takeWhile
        fun c => decide (c ≠ 0 ∧ c ≠ CR ∧ c ≠ LF)).length = n - start ↔
          ∀ c ∈ ((output.headerRAW.drop request).take n).drop start, isEmptyChar c = false := by
      constructor
      · intro hall c hc
        by_contra hcon
        rw [Bool.not_eq_false] at hcon
        obtain ⟨i, hi, rfl⟩ := exists_charAt_of_mem hc
        rw [List.length_drop, hsplit] at hi
        rw [charAt_drop, hbyte _ (by omega)] at hcon
        have hzero : charAt (buffer.drop (request + start)) i = 0 := by
          rw [charAt_drop, hread, Nat.add_assoc, if_pos ⟨by omega, by omega, hcon⟩]
        have hearly := (@takeWhile_length_spec (fun c => decide (c ≠ 0 ∧ c ≠ CR ∧ c ≠ LF))
          (buffer.drop (request + start)) i (hi.trans hin) (by rw [hzero]; rfl)).1
        omega
      · intro hall
        refine takeWhile_length_eq hin (fun i hi => ?_) hstop
        have hc := hall (charAt output.headerRAW (request + (start + i))) (by
          rw [← hbyte _ (by omega), ← charAt_drop, charAt_eq (by rw [List.length_drop]; omega)]
          exact List.getElem_mem _)
        have hfull : ¬ isEmptyChar (charAt output.headerRAW (request + (start + i))) = true := by
          rw [hc]
          exact Bool.false_ne_true
        rw [charAt_drop, hread, Nat.add_assoc, if_neg fun h => hfull h.2.2, decide_eq_true_eq]
        refine ⟨fun hcon => ?_, fun hcon => ?_, fun hcon => ?_⟩
        all_goals
          rw [hcon] at hc
          cases hc
    generalize ((buffer.drop (request + start)).takeWhile
        fun c => decide (c ≠ 0 ∧ c ≠ CR ∧ c ≠ LF)).length = length at hle hlength ⊢
    have hset : Erased request (request + n + 1) buffer (buffer.set (request + start + length) 0) :=
      Erased.set (by omega) (by omega)
    refine ⟨(htrim.mono le_rfl (Nat.le_succ _)).trans hset, ?_⟩
    rw [and_iff_right hstart, ← hlength]
    constructor
    · intro hzero
      by_contra hne
      rw [charAt_set_of_ne (by omega), htrim.outside _ (.inr le_rfl)] at hzero
      exact hend0 hzero
    · rintro rfl
      have hindex : request + start + (n - start) = request + n := by omega
      rw [hindex]
      exact charAt_set_self (by omega) 0
  · rw [if_neg hstart]
    exact ⟨Erased.refl .., iff_of_false hend0 fun h => hstart h.1⟩

/-! ## Cookies -/

theorem erased_cookieLoop {start stop fuel ptr : ℕ} {buffer : List UInt8}
    {target : List CookieItem} (hptr : start ≤ ptr) :
    Erased start stop buffer (cookieLoop stop fuel ptr buffer target).1 := by
  induction fuel generalizing ptr buffer target with
  | zero => exact Erased.refl ..
  | succ fuel ih =>
    have hcut : ∀ {buffer : List UInt8} {ptr : ℕ}, start ≤ ptr →
        Erased start stop buffer (if ptr < stop then buffer.set ptr 0 else buffer) :=
      fun hptr => Erased.ite fun hlt => Erased.set hptr hlt
    rw [cookieLoop]
    split
    · have hname := hptr.trans (le_skipWhile buffer stop (fun c => c = 32 ∨ c = 59) ptr)
      generalize skipWhile buffer stop (fun c => c = 32 ∨ c = 59) ptr = nameStart at hname
      dsimp only
      split
      · exact Erased.refl ..
      · split
        · exact Erased.refl ..
        · have hsign := hname.trans (le_skipWhile buffer stop
            (fun c => c ≠ 61 ∧ c ≠ 59 ∧ !isTerminator c) nameStart)
          generalize skipWhile buffer stop (fun c => c ≠ 61 ∧ c ≠ 59 ∧ !isTerminator c) nameStart =
            sign at hsign ⊢
          split
          · split
            · exact hcut hsign
            · exact (hcut hsign).trans (ih (Nat.le_succ_of_le hsign))
          · rename_i hassigned
            have hset : Erased start stop buffer (buffer.set sign 0) :=
              Erased.set hsign (by omega)
            have hvalue := (Nat.le_succ_of_le hsign).trans (le_skipWhile (buffer.set sign 0) stop
              (fun c => c ≠ 59 ∧ !isTerminator c) (sign + 1))
            generalize skipWhile (buffer.set sign 0) stop (fun c => c ≠ 59 ∧ !isTerminator c)
              (sign + 1) = behind at hvalue ⊢
            split
            · exact hset.trans (hcut hvalue)
            · exact (hset.trans (hcut hvalue)).trans (ih (Nat.le_succ_of_le hvalue))
    · exact Erased.refl ..

theorem erased_finalizeCOOKIEData (output : IncomingHeader) (value valueLength : ℕ) :
    Erased value (value + valueLength) output.headerRAW
      (finalizeCOOKIEData output value valueLength).headerRAW := by
  unfold finalizeCOOKIEData
  split
  · exact Erased.refl ..
  · exact erased_cookieLoop le_rfl

/-! ## Every line behind the first -/

/-- What a line leaves as it was, apart from the buffer. -/
structure SameRequest (output output' : IncomingHeader) : Prop where
  headerRAWSize : output'.headerRAWSize = output.headerRAWSize
  headerRAWHeadSize : output'.headerRAWHeadSize = output.headerRAWHeadSize
  parsingCurrentLine : output'.parsingCurrentLine = output.parsingCurrentLine
  requestType : output'.requestType = output.requestType

/-- An `Authorization` line with credentials that run to its end. -/
structure IsCredentialLine (line : List UInt8) : Prop where
  kind : scanForHttpHeader line line.length = .AUTHORIZATION
  unbroken : UnbrokenCredentials line

def Instance.Protected (inst : Instance) : Prop :=
  inst.PASSWORD_PROTECTION = true ∧ inst.BASE64PASSWORD ≠ none

/-- What a line behind the first does to the buffer of a request without a body. -/
structure LineErased (inst : Instance) (request n : ℕ) (buffer buffer' : List UInt8) : Prop where
  erased : Erased request (request + n + 1) buffer buffer'
  plain : ∀ j < request + n, isNewline (charAt buffer j) = true →
    charAt buffer' j = charAt buffer j
  break_iff : charAt buffer' (request + n) = 0 ↔
    inst.Protected ∧ IsCredentialLine ((buffer.drop request).take n)

theorem sameRequest_processAuthorizationHTTPLine (password : List UInt8) (output : IncomingHeader)
    (request n : ℕ) :
    SameRequest output (processAuthorizationHTTPLine password output request n) := by
  unfold processAuthorizationHTTPLine
  dsimp only
  split
  · exact ⟨rfl, rfl, rfl, rfl⟩
  · exact ⟨rfl, rfl, rfl, rfl⟩

theorem sameRequest_finalizeCOOKIEData (output : IncomingHeader) (value valueLength : ℕ) :
    SameRequest output (finalizeCOOKIEData output value valueLength) := by
  unfold finalizeCOOKIEData
  split
  · exact ⟨rfl, rfl, rfl, rfl⟩
  · exact ⟨rfl, rfl, rfl, rfl⟩

theorem analyzeHTTPLineRequest_spec (inst : Instance) {output : IncomingHeader}
    {request n lines_gathered : ℕ} (hlater : lines_gathered ≠ 1)
    (htype : output.requestType ≠ .POST) (hroom : request + n < output.headerRAW.length)
    (hplain : ∀ j, 0 < j → j < n → isNewline (charAt output.headerRAW (request + j)) = false)
    (hend : isNewline (charAt output.headerRAW (request + n)) = true) :
    SameRequest output (analyzeHTTPLineRequest inst output request n lines_gathered) ∧
      LineErased inst request n output.headerRAW
        (analyzeHTTPLineRequest inst output request n lines_gathered).headerRAW := by
  have hsplit : ((output.headerRAW.drop request).take n).length = n := by
    rw [List.length_take, List.length_drop]
    omega
  have hend0 : charAt output.headerRAW (request + n) ≠ 0 := by
    intro hcon
    rw [hcon] at hend
    cases hend
  have hkind : scanForHttpHeader ((output.headerRAW.drop request).take n)
      ((output.headerRAW.drop request).take n).length =
        scanForHttpHeader (output.headerRAW.drop request) n := by
    rw [hsplit, scanForHttpHeader_take]
  -- a line that is not one of credentials, and where nothing has been written
  have hunchanged : (¬ (inst.Protected ∧
      scanForHttpHeader (output.headerRAW.drop request) n = .AUTHORIZATION)) →
      ∀ output' : IncomingHeader, SameRequest output output' →
        output'.headerRAW = output.headerRAW →
        SameRequest output output' ∧
          LineErased inst request n output.headerRAW output'.headerRAW := by
    intro hother output' hsame hbuffer
    rw [hbuffer]
    refine ⟨hsame, Erased.refl .., fun _ _ _ => rfl, iff_of_false hend0 fun hcon => ?_⟩
    exact hother ⟨hcon.1, hkind ▸ hcon.2.kind⟩
  -- a recognized line has no line break in it
  have hline : scanForHttpHeader (output.headerRAW.drop request) n ≠ .EMPTY →
      ∀ j < n, isNewline (charAt output.headerRAW (request + j)) = false := by
    intro hrecognized j hj
    rcases Nat.eq_zero_or_pos j with rfl | hpos
    · have hfirst := isNewline_of_recognized hrecognized
      rw [charAt_drop] at hfirst
      exact hfirst
    · exact hplain j hpos hj
  have hfront : ∀ {a b : ℕ} {buffer' : List UInt8},
      scanForHttpHeader (output.headerRAW.drop request) n ≠ .EMPTY →
      Erased a b output.headerRAW buffer' → request ≤ a →
      ∀ j < request + n, isNewline (charAt output.headerRAW j) = true →
        charAt buffer' j = charAt output.headerRAW j := by
    intro a b buffer' hrecognized herased ha j hj hnew
    rcases Nat.lt_or_ge j request with hlt | hge
    · exact herased.outside j (.inl (hlt.trans_le ha))
    · obtain ⟨d, rfl⟩ := Nat.exists_eq_add_of_le hge
      rw [hline hrecognized d (by omega)] at hnew
      cases hnew
  have hpost : ∀ post : IncomingHeader,
      (if output.requestType = .POST then post else output) = output := fun _ => if_neg htype
  unfold analyzeHTTPLineRequest
  rw [if_neg hlater]
  dsimp only
  simp only [hpost]
  cases hscan : scanForHttpHeader (output.headerRAW.drop request) n with
  | AUTHORIZATION =>
    rw [hscan] at hunchanged hkind hline hfront
    dsimp only
    cases hprotection : inst.PASSWORD_PROTECTION with
    | false =>
      refine hunchanged (fun hcon => ?_) output ⟨rfl, rfl, rfl, rfl⟩ rfl
      rw [hcon.1.1] at hprotection
      cases hprotection
    | true =>
      cases hpassword : inst.BASE64PASSWORD with
      | none => exact hunchanged (fun hcon => hcon.1.2 hpassword) output ⟨rfl, rfl, rfl, rfl⟩ rfl
      | some password =>
        obtain ⟨herased, hbreak⟩ := processAuthorizationHTTPLine_spec password hroom hend
        have hprotected : inst.Protected :=
          ⟨hprotection, hpassword ▸ Option.some_ne_none password⟩
        refine ⟨sameRequest_processAuthorizationHTTPLine .., herased,
          hfront (by decide) herased le_rfl, hbreak.trans ?_⟩
        exact ⟨fun h => ⟨hprotected, hkind, h⟩, fun h => h.2.unbroken⟩
  | COOKIE =>
    rw [hscan] at hkind hfront
    have herased := erased_finalizeCOOKIEData output (request + 7) (n - 7)
    have hnot : ¬ (inst.Protected ∧ IsCredentialLine ((output.headerRAW.drop request).take n)) := by
      rintro ⟨-, hcon⟩
      rw [hcon.kind] at hkind
      cases hkind
    refine ⟨sameRequest_finalizeCOOKIEData .., ?_, hfront (by decide) herased (Nat.le_add_right ..),
      iff_of_false ?_ hnot⟩
    · exact ⟨herased.length, fun j hj => herased.outside j (by omega), herased.inside⟩
    · rw [herased.outside _ (by omega)]
      exact hend0
  | TRANSFER_ENCODING =>
    exact hunchanged (fun hcon => by rw [hscan] at hcon; cases hcon.2) _ ⟨rfl, rfl, rfl, rfl⟩ rfl
  | CONNECTION =>
    dsimp only
    rw [ite_self]
    exact hunchanged (fun hcon => by rw [hscan] at hcon; cases hcon.2) _ ⟨rfl, rfl, rfl, rfl⟩ rfl
  | _ =>
    exact hunchanged (fun hcon => by rw [hscan] at hcon; cases hcon.2) _ ⟨rfl, rfl, rfl, rfl⟩ rfl

end AmmarServer.HeaderAnalysis
