import AmmarServer.Lib.CString
import AmmarServer.Lib.Numerals

/-! The matching of paths against templates, `AmmServer_APIRequestMatch` of `threads/apiProtocol.c`.
Template and path are the bytes before their NUL; a path is part of a request, so that its length
fits an `unsigned int`. What is captured as text is the list of its bytes. -/

namespace AmmarServer.ApiProtocol
open Bytes CString TextFile

def PERCENT : UInt8 := 37
def SLASH : UInt8 := 47

inductive Capture
  | integer (value : ℕ)
  | text (bytes : List UInt8)
  deriving DecidableEq, Repr

/-- The digit loop of `MatchPositiveInteger`. -/
def positiveDigits : List UInt8 → ℕ → Option ℕ
  | [], value => some value
  | c :: s, value =>
    if c < 48 ∨ 57 < c then none else positiveDigits s (value * 10 + (c.toNat - 48))

def matchPositiveInteger (s : List UInt8) : Option ℕ :=
  if s.length = 0 ∨ 18 < s.length then none
  else
    match positiveDigits s 0 with
    | none => none
    | some value => if value ≤ 0 then none else some value

/-- How many characters of the template a conversion at its start takes. -/
def conversionAt (pathTemplate : List UInt8) : Option ℕ :=
  if [37, 108, 108, 100] <+: pathTemplate then some 4
  else if charAt pathTemplate 1 = 115 then some 2
  else none

/-- The loop over the rest of the template, with what is left of the path and the captures so far. -/
def matchLoop : ℕ → List UInt8 → List UInt8 → List Capture → Bool × List Capture
  | _, [], path, captures => (path.isEmpty, captures)
  | 0, _ :: _, _, captures => (false, captures)
  | fuel + 1, c :: pathTemplate, path, captures =>
    if c = PERCENT ∧ pathTemplate ≠ [] then
      match conversionAt (c :: pathTemplate) with
      | none => (false, captures)
      | some conversion =>
        let rest := (c :: pathTemplate).drop conversion
        let stopAt := charAt rest 0
        let run := path.takeWhile fun d => d != stopAt && d != SLASH
        if conversion = 4 then
          match matchPositiveInteger run with
          | none => (false, captures)
          | some value =>
            matchLoop fuel rest (path.drop run.length) (captures ++ [.integer value])
        else if run = [] then (false, captures)
        else matchLoop fuel rest (path.drop run.length) (captures ++ [.text run])
    else
      match path with
      | [] => (false, captures)
      | d :: path => if d = c then matchLoop fuel pathTemplate path captures else (false, captures)

/-- `AmmServer_APIRequestMatch`. The length of the template is an `unsigned int`. -/
def apiRequestMatch (path pathTemplate : List UInt8) : Bool × List Capture :=
  let pathTemplate := pathTemplate.take (pathTemplate.length % 2 ^ 32)
  matchLoop pathTemplate.length pathTemplate path []

/-! ## Templates and what they describe -/

/-- A piece of a template with what a path has in its place. A number is written with leading
zeros. -/
inductive Piece
  | literal (c : UInt8)
  | integer (zeros value : ℕ)
  | text (bytes : List UInt8)
  deriving DecidableEq, Repr

def Piece.template : Piece → List UInt8
  | .literal c => [c]
  | .integer _ _ => [37, 108, 108, 100]
  | .text _ => [37, 115]

def Piece.rendered : Piece → List UInt8
  | .literal c => [c]
  | .integer zeros value => List.replicate zeros 48 ++ decimal value
  | .text bytes => bytes

def Piece.capture : Piece → List Capture
  | .literal _ => []
  | .integer _ value => [.integer value]
  | .text bytes => [.text bytes]

def templateOf (pieces : List Piece) : List UInt8 := pieces.flatMap Piece.template

def renderedOf (pieces : List Piece) : List UInt8 := pieces.flatMap Piece.rendered

def capturesOf (pieces : List Piece) : List Capture := pieces.flatMap Piece.capture

/-- A percent sign is a literal character at the end of a template only. -/
def Piece.Valid (last : Bool) : Piece → Prop
  | .literal c => c ≠ 0 ∧ (c = PERCENT → last = true)
  | .integer zeros value => 0 < value ∧ (List.replicate zeros 48 ++ decimal value).length ≤ 18
  | .text bytes => bytes ≠ [] ∧ SLASH ∉ bytes ∧ 0 ∉ bytes

def Valid : List Piece → Prop
  | [] => True
  | piece :: pieces => piece.Valid pieces.isEmpty ∧ Valid pieces

instance (last : Bool) : (piece : Piece) → Decidable (piece.Valid last)
  | .literal _ => inferInstanceAs (Decidable (_ ∧ _))
  | .integer _ _ => inferInstanceAs (Decidable (_ ∧ _))
  | .text _ => inferInstanceAs (Decidable (_ ∧ _))

instance decidableValid : (pieces : List Piece) → Decidable (Valid pieces)
  | [] => isTrue trivial
  | piece :: pieces =>
    have := decidableValid pieces
    inferInstanceAs (Decidable (piece.Valid pieces.isEmpty ∧ Valid pieces))

/-- A conversion ends where the text of the path has the character that the template has behind the
conversion: no such character is in what it captures, and one comes directly behind it, unless the
template ends there. -/
def Ends (text : List UInt8) (rest : List Piece) : Prop :=
  charAt (templateOf rest) 0 ∉ text ∧
    (rest ≠ [] → charAt (renderedOf rest) 0 = charAt (templateOf rest) 0)

def Separated : List Piece → Prop
  | [] => True
  | .literal _ :: pieces => Separated pieces
  | .integer zeros value :: pieces =>
    Ends (List.replicate zeros 48 ++ decimal value) pieces ∧ Separated pieces
  | .text bytes :: pieces => Ends bytes pieces ∧ Separated pieces

instance (text : List UInt8) (rest : List Piece) : Decidable (Ends text rest) :=
  inferInstanceAs (Decidable (_ ∧ (_ → _)))

instance decidableSeparated : (pieces : List Piece) → Decidable (Separated pieces)
  | [] => isTrue trivial
  | .literal _ :: pieces => decidableSeparated pieces
  | .integer zeros value :: pieces =>
    have := decidableSeparated pieces
    inferInstanceAs (Decidable (Ends (List.replicate zeros 48 ++ decimal value) pieces ∧
      Separated pieces))
  | .text bytes :: pieces =>
    have := decidableSeparated pieces
    inferInstanceAs (Decidable (Ends bytes pieces ∧ Separated pieces))

variable {s path pathTemplate out before : List UInt8}

/-! ## Numbers -/

theorem positiveDigits_eq_some_iff {acc v : ℕ} :
    positiveDigits s acc = some v ↔
      (∀ c ∈ s, isDigit c = true) ∧ s.foldl (fun n c => n * 10 + (c.toNat - 48)) acc = v := by
  induction s generalizing acc with
  | nil => simp [positiveDigits]
  | cons c s ih =>
    have hdigit : isDigit c = true ↔ ¬ (c < 48 ∨ 57 < c) := by
      unfold isDigit
      rw [Bool.and_eq_true, decide_eq_true_iff, decide_eq_true_iff, not_or, UInt8.not_lt, UInt8.not_lt]
    rw [positiveDigits, List.forall_mem_cons, hdigit, List.foldl_cons]
    split
    · rename_i hcon
      exact ⟨fun h => (by cases h), fun h => absurd hcon h.1.1⟩
    · rename_i hdigit
      rw [ih, and_assoc]
      exact ⟨fun h => ⟨hdigit, h⟩, fun h => h.2⟩

theorem matchPositiveInteger_iff {v : ℕ} :
    matchPositiveInteger s = some v ↔
      0 < v ∧ s.length ≤ 18 ∧ ∃ zeros, s = List.replicate zeros 48 ++ decimal v := by
  unfold matchPositiveInteger
  constructor
  · intro h
    split at h
    · cases h
    · rename_i hlength
      rw [not_or, not_lt] at hlength
      split at h
      · cases h
      · rename_i w hw
        obtain ⟨hall, hnumber⟩ := positiveDigits_eq_some_iff.mp hw
        change number s = w at hnumber
        split at h
        · cases h
        · rename_i hpos
          cases h
          refine ⟨Nat.pos_of_ne_zero fun hzero => hpos hzero.le, hlength.2, ?_⟩
          rcases zeros_of_isDigit hall with ⟨hzero, -⟩ | ⟨zeros, -, hs⟩
          · exact absurd (hnumber.symm.trans hzero).le hpos
          · rw [hnumber] at hs
            exact ⟨zeros, hs⟩
  · rintro ⟨hpos, hlength, zeros, hs⟩
    have hne : s.length ≠ 0 := by
      intro hzero
      rw [hs, List.length_append] at hzero
      exact decimal_ne_nil v (List.length_eq_zero_iff.mp (Nat.eq_zero_of_add_eq_zero hzero).2)
    have hall : ∀ c ∈ s, isDigit c = true := by
      intro c hc
      rw [hs] at hc
      rcases List.mem_append.mp hc with hc | hc
      · rw [(List.mem_replicate.mp hc).2]
        rfl
      · exact isDigit_decimal c hc
    have hnumber : number s = v := by rw [hs, number_zeros, number_decimal]
    rw [if_neg (not_or.mpr ⟨hne, not_lt.mpr hlength⟩),
      positiveDigits_eq_some_iff.mpr ⟨hall, hnumber⟩]
    exact if_neg (not_le.mpr hpos)

theorem numeral_notMem {zeros v : ℕ} {c : UInt8} (hc : isDigit c = false) :
    c ∉ List.replicate zeros 48 ++ decimal v := by
  intro hmem
  rcases List.mem_append.mp hmem with hmem | hmem
  · rw [(List.mem_replicate.mp hmem).2] at hc
    cases hc
  · rw [isDigit_decimal c hmem] at hc
    cases hc

/-! ## Conversions -/

theorem conversionAt_lld (rest : List UInt8) :
    conversionAt (37 :: 108 :: 108 :: 100 :: rest) = some 4 :=
  if_pos ⟨rest, rfl⟩

theorem conversionAt_text (rest : List UInt8) : conversionAt (37 :: 115 :: rest) = some 2 := by
  unfold conversionAt
  rw [if_neg, if_pos (show charAt (37 :: 115 :: rest) 1 = 115 from rfl)]
  rintro ⟨t, ht⟩
  cases ht

theorem conversionAt_cases {n : ℕ} (h : conversionAt pathTemplate = some n) :
    (n = 4 ∧ pathTemplate = 37 :: 108 :: 108 :: 100 :: pathTemplate.drop 4) ∨
      (n = 2 ∧ ∃ c, pathTemplate = c :: 115 :: pathTemplate.drop 2) := by
  unfold conversionAt at h
  split at h
  · rename_i hleading
    obtain ⟨rest, rfl⟩ := hleading
    exact .inl ⟨(Option.some.inj h).symm, rfl⟩
  · split at h
    · rename_i hletter
      refine .inr ⟨(Option.some.inj h).symm, ?_⟩
      match pathTemplate, hletter with
      | [], hletter => cases hletter
      | [_], hletter => cases hletter
      | c :: d :: rest, hletter =>
        cases (show d = 115 from hletter)
        exact ⟨c, rfl⟩
    · cases h

/-- What a conversion takes of the path. -/
def run (stopAt : UInt8) (path : List UInt8) : List UInt8 :=
  path.takeWhile fun d => d != stopAt && d != SLASH

theorem run_notMem (stopAt : UInt8) (path : List UInt8) :
    stopAt ∉ run stopAt path ∧ SLASH ∉ run stopAt path := by
  have hall : ∀ d ∈ run stopAt path, d ≠ stopAt ∧ d ≠ SLASH := by
    intro d hd
    have hkeeps := List.mem_takeWhile_imp hd
    simpa using hkeeps
  exact ⟨fun hmem => (hall _ hmem).1 rfl, fun hmem => (hall _ hmem).2 rfl⟩

theorem run_append_drop (stopAt : UInt8) (path : List UInt8) :
    run stopAt path ++ path.drop (run stopAt path).length = path :=
  List.prefix_iff_eq_append.mp (List.takeWhile_prefix _)

theorem run_stops (stopAt : UInt8) (path : List UInt8) :
    ∀ d ∈ (path.drop (run stopAt path).length).head?, d = stopAt ∨ d = SLASH := by
  have hsplit := run_append_drop stopAt path
  have hwhile := List.takeWhile_append_dropWhile (p := fun d => d != stopAt && d != SLASH)
    (l := path)
  rw [List.append_cancel_left (hsplit.trans hwhile.symm)]
  intro d hd
  have hnot := List.head?_dropWhile_not (fun d => d != stopAt && d != SLASH) path
  rw [hd] at hnot
  simpa [bne_iff_ne, or_iff_not_imp_left] using hnot

theorem run_append {stopAt : UInt8} {text rest : List UInt8} (hstop : stopAt ∉ text)
    (hslash : SLASH ∉ text) (hrest : ∀ d ∈ rest.head?, d = stopAt ∨ d = SLASH) :
    run stopAt (text ++ rest) = text := by
  apply takeWhile_append_stop
  · intro d hd
    rw [Bool.and_eq_true, bne_iff_ne, bne_iff_ne]
    exact ⟨fun hcon => hstop (hcon ▸ hd), fun hcon => hslash (hcon ▸ hd)⟩
  · intro d hd
    rcases hrest d hd with rfl | rfl
    · simp
    · simp

/-! ## The loop -/

variable {fuel : ℕ} {found found' : List Capture} {rest : List UInt8} {pieces : List Piece}

theorem matchLoop_literal {c : UInt8} (hc : ¬ (c = PERCENT ∧ rest ≠ [])) :
    matchLoop (fuel + 1) (c :: rest) (c :: path) found = matchLoop fuel rest path found := by
  rw [matchLoop, if_neg hc]
  exact if_pos rfl

theorem matchLoop_integer {v : ℕ}
    (hv : matchPositiveInteger (run (charAt rest 0) path) = some v) :
    matchLoop (fuel + 1) (37 :: 108 :: 108 :: 100 :: rest) path found =
      matchLoop fuel rest (path.drop (run (charAt rest 0) path).length)
        (found ++ [.integer v]) := by
  refine (if_pos ⟨rfl, List.cons_ne_nil _ _⟩).trans ?_
  rw [conversionAt_lld]
  unfold run at hv ⊢
  simp only [List.drop_succ_cons, List.drop_zero, if_true, hv]

theorem matchLoop_text (hne : run (charAt rest 0) path ≠ []) :
    matchLoop (fuel + 1) (37 :: 115 :: rest) path found =
      matchLoop fuel rest (path.drop (run (charAt rest 0) path).length)
        (found ++ [.text (run (charAt rest 0) path)]) := by
  refine (if_pos ⟨rfl, List.cons_ne_nil _ _⟩).trans ?_
  rw [conversionAt_text]
  unfold run at hne ⊢
  simp only [List.drop_succ_cons, List.drop_zero, if_neg (show ¬ 2 = 4 by decide), if_neg hne]

theorem charAt_of_head? {s : List UInt8} {d : UInt8} (h : d ∈ s.head?) : charAt s 0 = d := by
  cases s with
  | nil => cases h
  | cons c s => exact Option.some.inj h

theorem Ends.run_eq {text : List UInt8} (h : Ends text pieces) (hslash : SLASH ∉ text) :
    run (charAt (templateOf pieces) 0) (text ++ renderedOf pieces) = text := by
  apply run_append h.1 hslash
  intro d hd
  refine .inl ?_
  have hne : pieces ≠ [] := by
    rintro rfl
    cases hd
  rw [← h.2 hne, charAt_of_head? hd]

theorem matchLoop_rendered (hvalid : Valid pieces) (hseparated : Separated pieces)
    (hfuel : (templateOf pieces).length ≤ fuel) (found : List Capture) :
    matchLoop fuel (templateOf pieces) (renderedOf pieces) found =
      (true, found ++ capturesOf pieces) := by
  induction pieces generalizing fuel found with
  | nil =>
    cases fuel with
    | zero => exact congrArg (Prod.mk true) (List.append_nil found).symm
    | succ fuel => exact congrArg (Prod.mk true) (List.append_nil found).symm
  | cons piece pieces ih =>
    obtain ⟨hpiece, hpieces⟩ := hvalid
    have hlength : (templateOf (piece :: pieces)).length =
        piece.template.length + (templateOf pieces).length := by
      unfold templateOf
      rw [List.flatMap_cons, List.length_append]
    cases piece with
    | literal c =>
      obtain ⟨fuel, rfl⟩ := Nat.exists_eq_add_of_le' (show 1 ≤ fuel by
        rw [hlength] at hfuel
        exact (Nat.le_add_right _ _).trans hfuel)
      have hliteral : ¬ (c = PERCENT ∧ templateOf pieces ≠ []) := by
        rintro ⟨hc, hne⟩
        have hlast := List.isEmpty_iff.mp (hpiece.2 hc)
        rw [hlast] at hne
        exact hne rfl
      show matchLoop (fuel + 1) (c :: templateOf pieces) (c :: renderedOf pieces) found = _
      rw [matchLoop_literal hliteral]
      refine ih hpieces hseparated ?_ found
      rw [hlength] at hfuel
      simp only [Piece.template, List.length_singleton] at hfuel
      omega
    | integer zeros value =>
      obtain ⟨hpos, hshort⟩ := hpiece
      obtain ⟨hends, hseparated⟩ := hseparated
      rw [hlength] at hfuel
      simp only [Piece.template, List.length_cons, List.length_nil] at hfuel
      obtain ⟨fuel, rfl⟩ := Nat.exists_eq_add_of_le' (show 1 ≤ fuel by omega)
      have hrun := hends.run_eq (numeral_notMem (by decide))
      have hmatch : matchPositiveInteger (run (charAt (templateOf pieces) 0)
          (renderedOf (.integer zeros value :: pieces))) = some value := by
        refine matchPositiveInteger_iff.mpr ⟨hpos, ?_, zeros, ?_⟩
        · exact (congrArg List.length hrun).trans_le hshort
        · exact hrun
      show matchLoop (fuel + 1) (37 :: 108 :: 108 :: 100 :: templateOf pieces) _ found = _
      rw [matchLoop_integer hmatch]
      have hdrop : (renderedOf (.integer zeros value :: pieces)).drop
          (run (charAt (templateOf pieces) 0)
            (renderedOf (.integer zeros value :: pieces))).length = renderedOf pieces := by
        show (List.replicate zeros 48 ++ decimal value ++ renderedOf pieces).drop (run _
          (List.replicate zeros 48 ++ decimal value ++ renderedOf pieces)).length = _
        rw [hrun, List.drop_left]
      rw [hdrop, ih hpieces hseparated (by omega), List.append_assoc]
      rfl
    | text bytes =>
      obtain ⟨hne, hslash, -⟩ := hpiece
      obtain ⟨hends, hseparated⟩ := hseparated
      rw [hlength] at hfuel
      simp only [Piece.template, List.length_cons, List.length_nil] at hfuel
      obtain ⟨fuel, rfl⟩ := Nat.exists_eq_add_of_le' (show 1 ≤ fuel by omega)
      have hrun : run (charAt (templateOf pieces) 0) (renderedOf (.text bytes :: pieces)) = bytes :=
        hends.run_eq hslash
      have hdrop : (renderedOf (.text bytes :: pieces)).drop bytes.length = renderedOf pieces :=
        List.drop_left
      show matchLoop (fuel + 1) (37 :: 115 :: templateOf pieces) _ found = _
      rw [matchLoop_text (by rw [hrun]; exact hne), hrun, hdrop, ih hpieces hseparated (by omega),
        List.append_assoc]
      rfl

/-- What stands in the place of a piece begins with the slash of a literal or with no slash. -/
theorem charAt_rendered_slash (hvalid : Valid pieces)
    (hslash : charAt (renderedOf pieces) 0 = SLASH) : charAt (templateOf pieces) 0 = SLASH := by
  cases pieces with
  | nil => cases hslash
  | cons piece pieces =>
    cases piece with
    | literal c => exact hslash
    | integer zeros value =>
      obtain ⟨c, s, hs⟩ := List.exists_cons_of_ne_nil
        (List.append_ne_nil_of_right_ne_nil (List.replicate zeros 48) (decimal_ne_nil value))
      change charAt ((List.replicate zeros 48 ++ decimal value) ++ renderedOf pieces) 0 = SLASH
        at hslash
      have hmem : SLASH ∈ List.replicate zeros 48 ++ decimal value := by
        rw [hs] at hslash ⊢
        rw [← show c = SLASH from hslash]
        exact List.mem_cons_self ..
      exact absurd hmem (numeral_notMem (by decide))
    | text bytes =>
      obtain ⟨hne, hno, -⟩ := hvalid.1
      obtain ⟨c, s, rfl⟩ := List.exists_cons_of_ne_nil hne
      rw [show c = SLASH from hslash] at hno
      exact absurd (List.mem_cons_self ..) hno

theorem renderedOf_ne_nil (hvalid : Valid pieces) (hne : pieces ≠ []) : renderedOf pieces ≠ [] := by
  cases pieces with
  | nil => exact absurd rfl hne
  | cons piece pieces =>
    apply List.append_ne_nil_of_left_ne_nil
    cases piece with
    | literal c => exact List.cons_ne_nil _ _
    | integer zeros value => exact List.append_ne_nil_of_right_ne_nil _ (decimal_ne_nil value)
    | text bytes => exact hvalid.1.1

theorem ends_run (hvalid : Valid pieces)
    (hrest : path.drop (run (charAt (templateOf pieces) 0) path).length = renderedOf pieces) :
    Ends (run (charAt (templateOf pieces) 0) path) pieces := by
  refine ⟨(run_notMem _ _).1, fun hne => ?_⟩
  obtain ⟨d, s, hd⟩ := List.exists_cons_of_ne_nil (renderedOf_ne_nil hvalid hne)
  have hstops := run_stops (charAt (templateOf pieces) 0) path d (by rw [hrest, hd]; rfl)
  rw [hd]
  rcases hstops with hstop | hslash
  · exact hstop
  · have hhead : charAt (renderedOf pieces) 0 = SLASH := by
      rw [hd]
      exact hslash
    rw [charAt_rendered_slash hvalid hhead]
    exact hslash

theorem rendered_of_matchLoop (htemplate : 0 ∉ pathTemplate) (hpath : 0 ∉ path)
    (h : matchLoop fuel pathTemplate path found = (true, found')) :
    ∃ pieces, Valid pieces ∧ Separated pieces ∧ templateOf pieces = pathTemplate ∧
      renderedOf pieces = path ∧ found' = found ++ capturesOf pieces := by
  induction fuel generalizing pathTemplate path found with
  | zero =>
    cases pathTemplate with
    | nil =>
      obtain ⟨hempty, rfl⟩ := Prod.mk.inj h
      exact ⟨[], trivial, trivial, rfl, (List.isEmpty_iff.mp hempty).symm,
        (List.append_nil found).symm⟩
    | cons c rest => cases h
  | succ fuel ih =>
    cases pathTemplate with
    | nil =>
      obtain ⟨hempty, rfl⟩ := Prod.mk.inj h
      exact ⟨[], trivial, trivial, rfl, (List.isEmpty_iff.mp hempty).symm,
        (List.append_nil found).symm⟩
    | cons c rest =>
      by_cases hconversion : c = PERCENT ∧ rest ≠ []
      · change (if _ then _ else _) = _ at h
        rw [if_pos hconversion] at h
        cases hat : conversionAt (c :: rest) with
        | none =>
          rw [hat] at h
          cases h
        | some conversion =>
          rw [hat] at h
          dsimp only at h
          have hbehind : path.drop (run (charAt ((c :: rest).drop conversion) 0) path).length <:+
            path := List.drop_suffix _ _
          have hpath' := fun hmem => hpath (hbehind.subset hmem)
          have htemplate' := fun hmem => htemplate ((List.drop_suffix conversion (c :: rest)).subset
            hmem)
          have hsplit := run_append_drop (charAt ((c :: rest).drop conversion) 0) path
          change (if conversion = 4 then
            (match matchPositiveInteger (run (charAt ((c :: rest).drop conversion) 0) path) with
              | none => _
              | some value => _)
            else if run (charAt ((c :: rest).drop conversion) 0) path = [] then _ else _) = _ at h
          rcases conversionAt_cases hat with ⟨rfl, hspelt⟩ | ⟨rfl, d, hspelt⟩
          · rw [if_pos rfl] at h
            cases hvalue : matchPositiveInteger (run (charAt ((c :: rest).drop 4) 0) path) with
            | none =>
              rw [hvalue] at h
              cases h
            | some value =>
              rw [hvalue] at h
              obtain ⟨pieces, hvalid, hseparated, hpieces, hrendered, rfl⟩ :=
                ih htemplate' hpath' h
              obtain ⟨hpos, hlength, zeros, hrun⟩ := matchPositiveInteger_iff.mp hvalue
              rw [← hpieces] at hrun hrendered hsplit hlength
              have hends := ends_run hvalid hrendered.symm
              rw [hrun] at hends hsplit hlength
              refine ⟨.integer zeros value :: pieces, ⟨⟨hpos, hlength⟩, hvalid⟩,
                ⟨hends, hseparated⟩, ?_, ?_, ?_⟩
              · rw [hspelt, ← hpieces]
                rfl
              · rw [← hsplit, ← hrun, ← hrendered, hrun]
                rfl
              · exact List.append_assoc ..
          · rw [if_neg (by decide)] at h
            split at h
            · cases h
            · rename_i hne
              obtain ⟨pieces, hvalid, hseparated, hpieces, hrendered, rfl⟩ :=
                ih htemplate' hpath' h
              rw [← hpieces] at hne hrendered hsplit
              have hends := ends_run hvalid hrendered.symm
              have hnul : 0 ∉ run (charAt (templateOf pieces) 0) path :=
                fun hmem => hpath ((List.takeWhile_prefix _).subset hmem)
              refine ⟨.text (run (charAt (templateOf pieces) 0) path) :: pieces,
                ⟨⟨hne, (run_notMem _ _).2, hnul⟩, hvalid⟩, ⟨hends, hseparated⟩, ?_, ?_, ?_⟩
              · obtain ⟨rfl, -⟩ := List.cons.inj hspelt
                rw [hspelt, ← hpieces, show c = 37 from hconversion.1]
                rfl
              · rw [← hrendered] at hsplit
                exact hsplit
              · rw [hpieces]
                exact List.append_assoc ..
      · change (if _ then _ else _) = _ at h
        rw [if_neg hconversion] at h
        cases path with
        | nil => cases h
        | cons d path =>
          dsimp only at h
          split at h
          · rename_i hsame
            subst hsame
            rw [List.mem_cons, not_or] at htemplate hpath
            obtain ⟨pieces, hvalid, hseparated, rfl, rfl, rfl⟩ := ih htemplate.2 hpath.2 h
            refine ⟨.literal d :: pieces, ⟨⟨Ne.symm htemplate.1, fun hpercent => ?_⟩, hvalid⟩,
              hseparated, rfl, rfl, rfl⟩
            have hlast := not_not.mp fun hne => hconversion ⟨hpercent, hne⟩
            rw [List.isEmpty_iff]
            cases pieces with
            | nil => rfl
            | cons piece pieces =>
              cases piece with
              | literal c => cases hlast
              | integer zeros value => cases hlast
              | text bytes => cases hlast
          · cases h

/-! ## Templates and paths -/

theorem zeros_cancel {c : UInt8} (hc : c ≠ 48) {zeros zeros' : ℕ} {s t t' : List UInt8}
    (h : List.replicate zeros 48 ++ c :: s ++ t = List.replicate zeros' 48 ++ c :: s ++ t') :
    zeros = zeros' ∧ t = t' := by
  induction zeros generalizing zeros' with
  | zero =>
    cases zeros' with
    | zero => exact ⟨rfl, List.append_cancel_left h⟩
    | succ zeros' => exact absurd (List.cons.inj h).1 hc
  | succ zeros ih =>
    cases zeros' with
    | zero => exact absurd (List.cons.inj h).1.symm hc
    | succ zeros' =>
      obtain ⟨rfl, ht⟩ := ih (List.cons.inj h).2
      exact ⟨rfl, ht⟩

theorem eq_nil_of_templateOf (h : templateOf pieces = []) : pieces = [] := by
  cases pieces with
  | nil => rfl
  | cons piece pieces =>
    cases piece with
    | literal c => cases h
    | integer zeros value => cases h
    | text bytes => cases h

/-- A literal percent sign is not taken for a conversion. -/
theorem literal_ne_conversion {c d : UInt8} {pieces : List Piece}
    (hvalid : Valid (.literal c :: pieces)) {s : List UInt8}
    (h : templateOf (.literal c :: pieces) = 37 :: d :: s) : False := by
  obtain ⟨hc, hrest⟩ := List.cons.inj (show c :: templateOf pieces = 37 :: d :: s from h)
  rw [List.isEmpty_iff.mp (hvalid.1.2 hc)] at hrest
  cases hrest

theorem pieces_unique {pieces' : List Piece} (hvalid : Valid pieces) (hvalid' : Valid pieces')
    (htemplate : templateOf pieces = templateOf pieces')
    (hrendered : renderedOf pieces = renderedOf pieces')
    (hcaptures : capturesOf pieces = capturesOf pieces') : pieces = pieces' := by
  induction pieces generalizing pieces' with
  | nil => exact (eq_nil_of_templateOf htemplate.symm).symm
  | cons piece pieces ih =>
    cases pieces' with
    | nil => cases eq_nil_of_templateOf htemplate
    | cons piece' pieces' =>
      have hnext := @ih pieces' hvalid.2 hvalid'.2
      cases piece with
      | literal c =>
        cases piece' with
        | literal c' =>
          obtain ⟨rfl, hbehind⟩ := List.cons.inj htemplate
          rw [hnext hbehind (List.cons.inj hrendered).2 hcaptures]
        | integer zeros' value' => exact (literal_ne_conversion hvalid htemplate).elim
        | text bytes' => exact (literal_ne_conversion hvalid htemplate).elim
      | integer zeros value =>
        cases piece' with
        | literal c' => exact (literal_ne_conversion hvalid' htemplate.symm).elim
        | integer zeros' value' =>
          obtain ⟨hvalue, hfound⟩ := List.cons.inj hcaptures
          cases hvalue
          obtain ⟨c, s, hs, hc⟩ := decimal_head hvalid.1.1
          change List.replicate zeros 48 ++ decimal value ++ renderedOf pieces =
            List.replicate zeros' 48 ++ decimal value ++ renderedOf pieces' at hrendered
          rw [hs] at hrendered
          obtain ⟨rfl, hbehind⟩ := zeros_cancel hc hrendered
          rw [hnext (List.append_cancel_left htemplate) hbehind hfound]
        | text bytes' => cases htemplate
      | text bytes =>
        cases piece' with
        | literal c' => exact (literal_ne_conversion hvalid' htemplate.symm).elim
        | integer zeros' value' => cases htemplate
        | text bytes' =>
          obtain ⟨hbytes, hfound⟩ := List.cons.inj hcaptures
          cases hbytes
          rw [hnext (List.append_cancel_left htemplate) (List.append_cancel_left hrendered)
            hfound]

theorem zero_notMem_templateOf (hvalid : Valid pieces) : 0 ∉ templateOf pieces := by
  induction pieces with
  | nil => exact List.not_mem_nil
  | cons piece pieces ih =>
    intro hmem
    rcases List.mem_append.mp hmem with hmem | hmem
    · cases piece with
      | literal c => exact hvalid.1.1 (List.mem_singleton.mp hmem).symm
      | integer zeros value =>
        have hpercent : (0 : UInt8) ∉ [37, 108, 108, 100] := by decide
        exact hpercent hmem
      | text bytes =>
        have hpercent : (0 : UInt8) ∉ [37, 115] := by decide
        exact hpercent hmem
    · exact ih hvalid.2 hmem

theorem zero_notMem_renderedOf (hvalid : Valid pieces) : 0 ∉ renderedOf pieces := by
  induction pieces with
  | nil => exact List.not_mem_nil
  | cons piece pieces ih =>
    intro hmem
    rcases List.mem_append.mp hmem with hmem | hmem
    · cases piece with
      | literal c => exact hvalid.1.1 (List.mem_singleton.mp hmem).symm
      | integer zeros value => exact numeral_notMem (by decide) hmem
      | text bytes => exact hvalid.1.2.2 hmem
    · exact ih hvalid.2 hmem

theorem apiRequestMatch_eq (hlength : pathTemplate.length < 2 ^ 32) :
    apiRequestMatch path pathTemplate = matchLoop pathTemplate.length pathTemplate path [] := by
  unfold apiRequestMatch
  rw [Nat.mod_eq_of_lt hlength, List.take_length]

/-- A path that a template describes is matched with exactly its values if every conversion ends
where the template goes on; and what matches is described by the template, and separated so. -/
theorem apiRequestMatch_spec :
    (∀ pieces, Valid pieces → (templateOf pieces).length < 2 ^ 32 →
      (apiRequestMatch (renderedOf pieces) (templateOf pieces) = (true, capturesOf pieces) ↔
        Separated pieces)) ∧
    ∀ path pathTemplate found, 0 ∉ path → 0 ∉ pathTemplate → pathTemplate.length < 2 ^ 32 →
      apiRequestMatch path pathTemplate = (true, found) →
        ∃ pieces, Valid pieces ∧ Separated pieces ∧ templateOf pieces = pathTemplate ∧
          renderedOf pieces = path ∧ capturesOf pieces = found := by
  have hsound : ∀ path pathTemplate found, 0 ∉ path → 0 ∉ pathTemplate →
      pathTemplate.length < 2 ^ 32 → apiRequestMatch path pathTemplate = (true, found) →
        ∃ pieces, Valid pieces ∧ Separated pieces ∧ templateOf pieces = pathTemplate ∧
          renderedOf pieces = path ∧ capturesOf pieces = found := by
    intro path pathTemplate found hpath htemplate hlength hmatch
    rw [apiRequestMatch_eq hlength] at hmatch
    obtain ⟨pieces, hvalid, hseparated, hpieces, hrendered, hfound⟩ :=
      rendered_of_matchLoop htemplate hpath hmatch
    exact ⟨pieces, hvalid, hseparated, hpieces, hrendered, hfound.symm⟩
  refine ⟨fun pieces hvalid hlength => ⟨fun hmatch => ?_, fun hseparated => ?_⟩, hsound⟩
  · obtain ⟨pieces', hvalid', hseparated, hpieces, hrendered, hcaptures⟩ :=
      hsound _ _ _ (zero_notMem_renderedOf hvalid) (zero_notMem_templateOf hvalid) hlength hmatch
    rw [pieces_unique hvalid hvalid' hpieces.symm hrendered.symm hcaptures.symm]
    exact hseparated
  · rw [apiRequestMatch_eq hlength, matchLoop_rendered hvalid hseparated le_rfl, List.nil_append]

/-- `/posts/%lld/like` and `/posts/42/like`. -/
theorem posts_matched :
    (apiRequestMatch (ascii "/posts/42/like") (ascii "/posts/%lld/like") =
      (true, [.integer 42])) ∧
    ∃ pieces, Valid pieces ∧ Separated pieces ∧ templateOf pieces = ascii "/posts/%lld/like" ∧
      renderedOf pieces = ascii "/posts/42/like" ∧ capturesOf pieces = [.integer 42] := by
  have hmatch := (apiRequestMatch_spec.1
    ((ascii "/posts/").map .literal ++ .integer 0 42 :: (ascii "/like").map .literal)
    (by decide) (by decide)).mpr (by decide)
  exact ⟨hmatch, apiRequestMatch_spec.2 _ _ _ (by decide) (by decide)
    (by decide) hmatch⟩

/-- Numbers without leading zeros, and conversions whose texts are free of a literal character that
follows. -/
def FreeOfNext : List Piece → Prop
  | [] => True
  | .literal _ :: pieces => FreeOfNext pieces
  | .integer zeros value :: pieces =>
    zeros = 0 ∧ (∀ c, pieces.head? = some (.literal c) → c ∉ decimal value) ∧ FreeOfNext pieces
  | .text bytes :: pieces =>
    (∀ c, pieces.head? = some (.literal c) → c ∉ bytes) ∧ FreeOfNext pieces

/-- `%s%s` with `a` and `b`: the first conversion takes the path to its end. -/
theorem adjacent_unmatched :
    ¬ ∀ pieces, Valid pieces → FreeOfNext pieces → (templateOf pieces).length < 2 ^ 32 →
      apiRequestMatch (renderedOf pieces) (templateOf pieces) = (true, capturesOf pieces) := by
  intro hall
  have hmatch := hall [.text [97], .text [98]]
    ⟨⟨by decide, by decide, by decide⟩, ⟨by decide, by decide, by decide⟩, trivial⟩
    ⟨fun c hc => (by cases hc), fun c hc => (by cases hc), trivial⟩ (by decide)
  exact absurd hmatch (by decide)

end AmmarServer.ApiProtocol
