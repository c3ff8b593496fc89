import Mathlib.Data.List.Count
import Mathlib.Data.List.Infix
import AmmarServer.Tools.Escaping

/-! What a shell and a browser make of the escaped texts. They lose nothing as long as no length that is
computed on the way leaves the range of an `unsigned int`. -/

namespace AmmarServer.Escaping

/-! What the escaped texts mean. -/

/-- A word that is written in single quotes and with backslashes outside of them, read by a shell. -/
def shellWord : Bool → List UInt8 → Option (List UInt8)
  | true, [] => none
  | false, [] => some []
  | true, c :: s => if c = 39 then shellWord false s else (shellWord true s).map (c :: ·)
  | false, [_] => none
  | false, c :: d :: s =>
    if c = 39 then shellWord true (d :: s)
    else if c = 92 ∧ d ≠ 10 then (shellWord false s).map (d :: ·)
    else none

def entities : List (UInt8 × List UInt8) :=
  [(38, [38, 97, 109, 112, 59]), (60, [38, 108, 116, 59]), (62, [38, 103, 116, 59]),
    (34, [38, 113, 117, 111, 116, 59]), (39, [38, 35, 51, 57, 59])]

/-- The text that an escaped one stands for, if each `&` in it begins an entity and no special character
stands in it. -/
def unescape : ℕ → List UInt8 → Option (List UInt8)
  | _, [] => some []
  | 0, _ :: _ => none
  | length + 1, c :: s =>
    if c = 38 then
      (entities.find? fun e => e.2.isPrefixOf (c :: s)).bind fun e =>
        (unescape length ((c :: s).drop e.2.length)).map (e.1 :: ·)
    else if c = 60 ∨ c = 62 ∨ c = 34 ∨ c = 39 then none
    else (unescape length s).map (c :: ·)

def htmlCode (c : UInt8) : List UInt8 := (entity c).getD [c]

def escaped (s : List UInt8) : List UInt8 := s.flatMap htmlCode

/-- What a filter may leave: the content as it was where it answers that it failed, and otherwise a text
that fits and that is read as the content. -/
def AllOrNothing (buffer : Buffer) (decodes : List UInt8 → List UInt8 → Prop)
    (filter : Buffer → Bool → Except Fault (Bool × List UInt8)) : Prop :=
  ∀ memory, ∃ answer text, filter buffer memory = .ok (answer, text) ∧
    text.length < buffer.bufferSize ∧
    if answer then decodes text buffer.content else text = buffer.content

/-- A prefix of the input, and the input where it has room. -/
def EscapesInput (input : List UInt8) (outputMaxSize : ℕ) : Prop :=
  ∃ output, htmlEscape input outputMaxSize = .ok output ∧
    match output with
    | none => outputMaxSize = 0
    | some text => text.length < outputMaxSize ∧ ∃ p, p <+: input ∧
        unescape text.length text = some p ∧
        ((escaped input).length < outputMaxSize → p = input)

/-! The shell. -/

def shellLength (content : List UInt8) : ℕ := 2 + content.length + 3 * content.count 39

theorem requiredLength_eq (content : List UInt8) :
    requiredLength content = shellLength content % 2 ^ 32 := by
  have hfold : ∀ init, content.foldl
      (fun required c => (required + if c = 39 then 4 else 1) % 2 ^ 32) init % 2 ^ 32 =
      (init + content.length + 3 * content.count 39) % 2 ^ 32 := by
    induction content with
    | nil => exact fun init => rfl
    | cons c content ih =>
      intro init
      rw [List.foldl_cons, ih, List.length_cons, List.count_cons]
      by_cases hc : c = 39
      · rw [if_pos hc, if_pos (beq_iff_eq.mpr hc)]
        omega
      · rw [if_neg hc, if_neg (fun h => hc (beq_iff_eq.mp h))]
        omega
  have hsmall : requiredLength content < 2 ^ 32 := by
    unfold requiredLength
    induction content using List.reverseRecOn with
    | nil => decide
    | append_singleton content c =>
      rw [List.foldl_concat]
      exact Nat.mod_lt _ (by decide)
  rw [← Nat.mod_eq_of_lt hsmall]
  exact hfold 2

theorem length_shellCode (content : List UInt8) :
    (content.flatMap shellCode).length = content.length + 3 * content.count 39 := by
  induction content with
  | nil => rfl
  | cons c content ih =>
    rw [List.flatMap_cons, List.length_append, ih, List.length_cons, List.count_cons]
    unfold shellCode
    by_cases hc : c = 39
    · rw [if_pos hc, if_pos (beq_iff_eq.mpr hc)]
      simp only [List.length_cons, List.length_nil]
      omega
    · rw [if_neg hc, if_neg (fun h => hc (beq_iff_eq.mp h))]
      simp only [List.length_cons, List.length_nil]
      omega

theorem shellWord_open {s : List UInt8} (hs : s ≠ []) :
    shellWord false (39 :: s) = shellWord true s := by
  obtain ⟨c, s, rfl⟩ := List.exists_cons_of_ne_nil hs
  rfl

/-- `'\''` within single quotes. -/
theorem shellWord_quote {s : List UInt8} (hs : s ≠ []) :
    shellWord true (39 :: 92 :: 39 :: 39 :: s) = (shellWord true s).map (39 :: ·) := by
  have hbackslash : shellWord false (92 :: 39 :: 39 :: s) =
      (shellWord false (39 :: s)).map (39 :: ·) := rfl
  rw [shellWord, if_pos rfl, hbackslash, shellWord_open hs]

/-- The shell reads the quoted content. -/
theorem shellWord_quoted (content : List UInt8) :
    shellWord false (39 :: (content.flatMap shellCode ++ [39])) = some content := by
  have hne : ∀ text : List UInt8, text ++ [39] ≠ [] := fun text =>
    List.append_ne_nil_of_right_ne_nil text (List.cons_ne_nil _ _)
  rw [shellWord_open (hne _)]
  induction content with
  | nil => rfl
  | cons c content ih =>
    rw [List.flatMap_cons, List.append_assoc]
    by_cases hc : c = 39
    · have hcode : shellCode c = [39, 92, 39, 39] := if_pos hc
      rw [hcode, List.cons_append, List.cons_append, List.cons_append, List.cons_append,
        List.nil_append, shellWord_quote (hne _), ih, hc]
      rfl
    · have hcode : shellCode c = [c] := if_neg hc
      rw [hcode, List.singleton_append, shellWord, if_neg hc, ih]
      rfl

theorem shell_iff (buffer : Buffer) :
    AllOrNothing buffer (fun text content => shellWord false text = some content)
        filterStringForShellInjection ↔
      shellLength buffer.content < 2 ^ 32 ∨
        buffer.bufferSize ≤ shellLength buffer.content % 2 ^ 32 := by
  have hscratch : (39 :: (buffer.content.flatMap shellCode ++ [39])).length =
      shellLength buffer.content := by
    rw [List.length_cons, List.length_append, length_shellCode, shellLength, List.length_singleton]
    omega
  have hsize := buffer.size_lt
  have hroom := buffer.room
  unfold AllOrNothing filterStringForShellInjection
  dsimp only
  rw [requiredLength_eq, hscratch]
  generalize hT : shellLength buffer.content = T at hscratch ⊢
  constructor
  · intro hall
    obtain ⟨answer, text, hok, -⟩ := hall true
    by_contra hnot
    rw [not_or, Nat.not_lt, Nat.not_le] at hnot
    rw [if_neg (by omega), if_neg Bool.noConfusion, if_pos (by omega)] at hok
    cases hok
  · rintro hfits memory
    by_cases hrefused : buffer.bufferSize ≤ T % 2 ^ 32
    · exact ⟨false, buffer.content, if_pos hrefused, hroom, rfl⟩
    · have hlt := hfits.resolve_right hrefused
      rw [Nat.mod_eq_of_lt hlt] at hrefused ⊢
      cases memory with
      | false => exact ⟨false, buffer.content, (if_neg hrefused).trans (if_pos rfl), hroom, rfl⟩
      | true =>
        refine ⟨true, _, ?_, ?_, shellWord_quoted buffer.content⟩
        · rw [if_neg hrefused, if_neg Bool.noConfusion, if_neg (Nat.lt_irrefl _), overwrite,
            if_pos (by rw [hscratch]; omega)]
        · rw [hscratch]
          omega

/-! HTML. -/

section Html

theorem htmlCode_cases (c : UInt8) :
    (∃ text, entity c = some text ∧ htmlCode c = text) ∨ entity c = none ∧ htmlCode c = [c] := by
  unfold htmlCode
  cases entity c with
  | none => exact .inr ⟨rfl, rfl⟩
  | some text => exact .inl ⟨text, rfl, rfl⟩

theorem htmlCode_length (c : UInt8) : 1 ≤ (htmlCode c).length ∧ (htmlCode c).length ≤ 6 := by
  unfold htmlCode entity
  repeat' split
  all_goals simp

theorem escaped_cons (c : UInt8) (s : List UInt8) : escaped (c :: s) = htmlCode c ++ escaped s :=
  List.flatMap_cons ..

theorem escaped_append (s t : List UInt8) : escaped (s ++ t) = escaped s ++ escaped t :=
  List.flatMap_append ..

theorem length_le_escaped (s : List UInt8) :
    s.length ≤ (escaped s).length ∧ (escaped s).length ≤ 6 * s.length := by
  induction s with
  | nil => exact ⟨Nat.le_refl _, Nat.le_refl _⟩
  | cons c s ih =>
    have hcode := htmlCode_length c
    rw [escaped_cons, List.length_append, List.length_cons]
    omega

theorem unescape_code (c : UInt8) (length : ℕ) (s : List UInt8) :
    unescape (length + 1) (htmlCode c ++ s) = (unescape length s).map (c :: ·) := by
  unfold htmlCode entity
  split
  · rename_i hc
    rw [hc]
    rfl
  split
  · rename_i hc
    rw [hc]
    rfl
  split
  · rename_i hc
    rw [hc]
    rfl
  split
  · rename_i hc
    rw [hc]
    rfl
  split
  · rename_i hc
    rw [hc]
    rfl
  · rename_i hamp hlt hgt hquot hapos
    have hspecial : ¬ (c = 60 ∨ c = 62 ∨ c = 34 ∨ c = 39) := by
      rintro (h | h | h | h)
      · exact hlt h
      · exact hgt h
      · exact hquot h
      · exact hapos h
    rw [Option.getD_none, List.singleton_append, unescape, if_neg hamp, if_neg hspecial]

theorem unescape_escaped (s : List UInt8) {length : ℕ} (hlength : s.length ≤ length) :
    unescape length (escaped s) = some s := by
  induction s generalizing length with
  | nil =>
    cases length with
    | zero => rfl
    | succ length => rfl
  | cons c s ih =>
    rw [List.length_cons] at hlength
    obtain ⟨length, rfl⟩ := Nat.exists_eq_succ_of_ne_zero (Nat.ne_zero_of_lt hlength)
    rw [escaped_cons, unescape_code, ih (Nat.le_of_succ_le_succ hlength)]
    rfl

/-- No character takes the escaped text from a length that has room to one that no `unsigned int` holds. -/
def NoWrap (outputMaxSize written : ℕ) (input : List UInt8) : Prop :=
  ∀ p c s, input = p ++ c :: s → written + (escaped p).length < outputMaxSize →
    written + (escaped (p ++ [c])).length < 2 ^ 32

theorem noWrap_cons {outputMaxSize written : ℕ} {c : UInt8} {input : List UInt8} :
    NoWrap outputMaxSize written (c :: input) ↔
      (written < outputMaxSize → written + (htmlCode c).length < 2 ^ 32) ∧
        NoWrap outputMaxSize (written + (htmlCode c).length) input := by
  have hsingle : escaped ([] ++ [c]) = htmlCode c := List.append_nil _
  constructor
  · refine fun h => ⟨fun hlt => ?_, fun p d s hinput hlt => ?_⟩
    · have hfirst := h [] c input rfl hlt
      rwa [hsingle] at hfirst
    · have hlater := h (c :: p) d s (by rw [hinput]; rfl)
      rw [List.cons_append, escaped_cons, escaped_cons, List.length_append, List.length_append,
        ← Nat.add_assoc, ← Nat.add_assoc] at hlater
      exact hlater hlt
  · rintro ⟨hfirst, hlater⟩ p d s hinput hlt
    cases p with
    | nil =>
      obtain ⟨rfl, -⟩ := List.cons.inj hinput
      rw [hsingle]
      exact hfirst hlt
    | cons e p =>
      obtain ⟨rfl, htail⟩ := List.cons.inj hinput
      rw [escaped_cons, List.length_append, ← Nat.add_assoc] at hlt
      rw [List.cons_append, escaped_cons, List.length_append, ← Nat.add_assoc]
      exact hlater p d s htail hlt

theorem htmlEscapeLoop_cons (outputMaxSize : ℕ) (c : UInt8) (rest output : List UInt8) :
    htmlEscapeLoop outputMaxSize (c :: rest) output =
      if outputMaxSize ≤ (output.length + (htmlCode c).length) % 2 ^ 32 then .ok output
      else if outputMaxSize < output.length + (htmlCode c).length then .error .outOfBounds
      else htmlEscapeLoop outputMaxSize rest (output ++ htmlCode c) := by
  rw [htmlEscapeLoop]
  rcases htmlCode_cases c with ⟨text, hentity, hcode⟩ | ⟨hentity, hcode⟩
  · rw [hentity, hcode]
  · rw [hentity, hcode]
    rfl

/-- The longest beginning that has room, if there is one or all has. -/
def Longest (outputMaxSize written : ℕ) (input p : List UInt8) : Prop :=
  p <+: input ∧ written + (escaped p).length < outputMaxSize ∧
    ∀ q, q <+: input → written + (escaped q).length < outputMaxSize → q <+: p

variable {outputMaxSize : ℕ}

theorem htmlEscapeLoop_eq {input output : List UInt8} (hroom : output.length < outputMaxSize)
    (hwrap : NoWrap outputMaxSize output.length input) :
    ∃ p, Longest outputMaxSize output.length input p ∧
      htmlEscapeLoop outputMaxSize input output = .ok (output ++ escaped p) := by
  induction input generalizing output with
  | nil =>
    refine ⟨[], ⟨List.nil_prefix, hroom, fun q hq _ => hq⟩, ?_⟩
    rw [escaped, List.flatMap_nil, List.append_nil]
    rfl
  | cons c input ih =>
    obtain ⟨hfirst, hlater⟩ := noWrap_cons.mp hwrap
    have hlt := hfirst hroom
    rw [htmlEscapeLoop_cons, Nat.mod_eq_of_lt hlt]
    by_cases hfull : outputMaxSize ≤ output.length + (htmlCode c).length
    · refine ⟨[], ⟨List.nil_prefix, hroom, fun q hq hqroom => ?_⟩, ?_⟩
      · cases q with
        | nil => exact List.prefix_refl _
        | cons d q =>
          obtain ⟨rfl, -⟩ := List.cons_prefix_cons.mp hq
          rw [escaped_cons, List.length_append] at hqroom
          omega
      · rw [if_pos hfull, escaped, List.flatMap_nil, List.append_nil]
    · have hnext : (output ++ htmlCode c).length = output.length + (htmlCode c).length :=
        List.length_append
      obtain ⟨p, ⟨hleading, hfits, hlongest⟩, hloop⟩ := @ih (output ++ htmlCode c)
        (by rw [hnext]; omega) (by rwa [hnext])
      rw [hnext] at hfits hlongest
      refine ⟨c :: p, ⟨List.cons_prefix_cons.mpr ⟨rfl, hleading⟩, ?_, fun q hq hqroom => ?_⟩, ?_⟩
      · rw [escaped_cons, List.length_append]
        omega
      · cases q with
        | nil => exact List.nil_prefix
        | cons d q =>
          obtain ⟨rfl, htail⟩ := List.cons_prefix_cons.mp hq
          rw [escaped_cons, List.length_append] at hqroom
          exact List.cons_prefix_cons.mpr ⟨rfl, hlongest q htail (by omega)⟩
      · rw [if_neg hfull, if_neg (by omega), hloop, escaped_cons, List.append_assoc]

/-- A length that wraps around leads to a write behind the output. -/
theorem htmlEscapeLoop_fault {input output : List UInt8} (hmax : outputMaxSize < 2 ^ 32)
    (hroom : output.length < outputMaxSize)
    (hwrap : ¬ NoWrap outputMaxSize output.length input) :
    htmlEscapeLoop outputMaxSize input output = .error .outOfBounds := by
  induction input generalizing output with
  | nil =>
    refine absurd (fun p c s hinput _ => ?_) hwrap
    exact absurd hinput.symm (List.append_ne_nil_of_right_ne_nil _ (List.cons_ne_nil _ _))
  | cons c input ih =>
    have hcode := (htmlCode_length c).2
    rw [htmlEscapeLoop_cons]
    rw [noWrap_cons] at hwrap
    rcases Nat.lt_or_ge (output.length + (htmlCode c).length) (2 ^ 32) with hlt | hge
    · have hlater : ¬ NoWrap outputMaxSize (output.length + (htmlCode c).length) input :=
        fun h => hwrap ⟨fun _ => hlt, h⟩
      have hnext : (output ++ htmlCode c).length = output.length + (htmlCode c).length :=
        List.length_append
      have hinside : output.length + (htmlCode c).length < outputMaxSize := by
        by_contra hfull
        refine hlater fun p d s _ hpast => ?_
        omega
      rw [Nat.mod_eq_of_lt hlt, if_neg (Nat.not_le.mpr hinside), if_neg (by omega)]
      exact @ih (output ++ htmlCode c) (by rwa [hnext]) (by rwa [hnext])
    · have hsmall : (output.length + (htmlCode c).length) % 2 ^ 32 < outputMaxSize := by omega
      rw [if_neg (Nat.not_le.mpr hsmall), if_pos (by omega)]

end Html

theorem html_iff (input : List UInt8) (outputMaxSize : UInt32) :
    EscapesInput input outputMaxSize.toNat ↔
      NoWrap outputMaxSize.toNat 0 (input.take (input.length % 2 ^ 32)) := by
  have hmax := outputMaxSize.toNat_lt
  generalize outputMaxSize.toNat = outputMaxSize at hmax ⊢
  unfold EscapesInput htmlEscape
  by_cases hzero : outputMaxSize = 0
  · refine iff_of_true ⟨none, if_pos hzero, hzero⟩ fun p c s _ hlt => ?_
    omega
  rw [if_neg hzero]
  have hroom : ([] : List UInt8).length < outputMaxSize := Nat.pos_of_ne_zero hzero
  constructor
  · rintro ⟨output, hok, -⟩
    by_contra hwrap
    rw [htmlEscapeLoop_fault hmax hroom hwrap] at hok
    cases hok
  · intro hwrap
    obtain ⟨p, ⟨hleading, hfits, hlongest⟩, hloop⟩ := htmlEscapeLoop_eq hroom hwrap
    simp only [List.length_nil, Nat.zero_add] at hfits hlongest
    refine ⟨some (escaped p), by rw [hloop]; rfl, hfits, p, hleading.trans (List.take_prefix _ _),
      unescape_escaped p (length_le_escaped p).1, fun hall => ?_⟩
    have hinput := length_le_escaped input
    have hwhole : input.take (input.length % 2 ^ 32) = input := by
      rw [Nat.mod_eq_of_lt (by omega), List.take_length]
    rw [hwhole] at hleading hlongest
    exact hleading.eq_of_length_le (hlongest input (List.prefix_refl _) (by omega)).length_le

theorem escaped_mono {p q : List UInt8} (h : p <+: q) : (escaped p).length ≤ (escaped q).length := by
  obtain ⟨s, rfl⟩ := h
  rw [escaped_append, List.length_append]
  exact Nat.le_add_right _ _

/-- The size of the scratch buffer. -/
def worstCaseLength (content : List UInt8) : ℕ := (content.length * 6 + 1) % 2 ^ 32

theorem htmlFilter_iff (buffer : Buffer) :
    AllOrNothing buffer (fun text content => unescape text.length text = some content)
        filterStringForHtmlInjection ↔
      NoWrap (worstCaseLength buffer.content) 0 buffer.content ∧
        ((escaped buffer.content).length < worstCaseLength buffer.content ∨
          ∃ p, p <+: buffer.content ∧ buffer.bufferSize ≤ (escaped p).length ∧
            (escaped p).length < worstCaseLength buffer.content) := by
  have hsize := buffer.size_lt
  have hroom := buffer.room
  have hscratch : 0 < worstCaseLength buffer.content ∧
      worstCaseLength buffer.content < 2 ^ 32 := by
    unfold worstCaseLength
    omega
  have hwhole : buffer.content.take (buffer.content.length % 2 ^ 32) = buffer.content := by
    rw [Nat.mod_eq_of_lt (by omega), List.take_length]
  have hescape : htmlEscape buffer.content (worstCaseLength buffer.content) =
      (htmlEscapeLoop (worstCaseLength buffer.content) buffer.content []).map some := by
    unfold htmlEscape
    rw [if_neg (Nat.ne_of_gt hscratch.1), hwhole]
  have hcut : ∀ text,
      htmlEscapeLoop (worstCaseLength buffer.content) buffer.content [] = .ok text →
      filterStringForHtmlInjection buffer true =
        if buffer.bufferSize ≤ text.length then .ok (false, buffer.content)
        else overwrite buffer text := by
    intro text hloop
    rw [hloop] at hescape
    unfold filterStringForHtmlInjection
    unfold worstCaseLength at hescape
    simp only [hescape]
    rfl
  have hfault : ∀ fault,
      htmlEscapeLoop (worstCaseLength buffer.content) buffer.content [] = .error fault →
      filterStringForHtmlInjection buffer true = .error fault := by
    intro fault hloop
    rw [hloop] at hescape
    unfold filterStringForHtmlInjection
    unfold worstCaseLength at hescape
    simp only [hescape]
    rfl
  generalize worstCaseLength buffer.content = scratch at hscratch hcut hfault ⊢
  have hstart : ([] : List UInt8).length < scratch := hscratch.1
  unfold AllOrNothing
  by_cases hwrap : NoWrap scratch 0 buffer.content
  · obtain ⟨p, ⟨hleading, hfits, hlongest⟩, hloop⟩ := htmlEscapeLoop_eq hstart hwrap
    simp only [List.length_nil, Nat.zero_add] at hfits hlongest
    have hdone : filterStringForHtmlInjection buffer true =
        if buffer.bufferSize ≤ (escaped p).length then .ok (false, buffer.content)
        else overwrite buffer (escaped p) := hcut _ hloop
    have hdecodes := unescape_escaped p (length_le_escaped p).1
    rw [and_iff_right hwrap]
    constructor
    · intro hall
      obtain ⟨answer, text, hok, hlength, hmeans⟩ := hall true
      rw [hdone] at hok
      by_cases hrefused : buffer.bufferSize ≤ (escaped p).length
      · exact .inr ⟨p, hleading, hrefused, hfits⟩
      · rw [if_neg hrefused, overwrite, if_pos (by omega)] at hok
        cases hok
        obtain rfl : p = buffer.content := Option.some.inj (hdecodes.symm.trans hmeans)
        exact .inl hfits
    · intro hcases memory
      cases memory with
      | false => exact ⟨false, buffer.content, rfl, hroom, rfl⟩
      | true =>
        rw [hdone]
        by_cases hrefused : buffer.bufferSize ≤ (escaped p).length
        · exact ⟨false, buffer.content, if_pos hrefused, hroom, rfl⟩
        · refine ⟨true, escaped p, ?_, Nat.not_le.mp hrefused, ?_⟩
          · rw [if_neg hrefused, overwrite, if_pos (by omega)]
          · rcases hcases with hlt | ⟨q, hq, hfull, hlt⟩
            · have hall := hlongest buffer.content (List.prefix_refl _) (by omega)
              rw [hleading.eq_of_length_le hall.length_le] at hdecodes ⊢
              exact hdecodes
            · have hle := escaped_mono (hlongest q hq (by omega))
              omega
  · refine iff_of_false (fun hall => ?_) fun h => hwrap h.1
    obtain ⟨answer, text, hok, -⟩ := hall true
    rw [hfault _ (htmlEscapeLoop_fault hscratch.2 hstart hwrap)] at hok
    cases hok

/-- The three helpers are safe where no length that they compute wraps around: the one of the quoted text,
unless what is left of it is refused, the one of the escaped text at the end of its output, and the one of
the scratch buffer, unless what is cut there is refused. -/
theorem escaping_iff (buffer : Buffer) (input : List UInt8) (outputMaxSize : UInt32) :
    AllOrNothing buffer (fun text content => shellWord false text = some content)
        filterStringForShellInjection ∧
      EscapesInput input outputMaxSize.toNat ∧
      AllOrNothing buffer (fun text content => unescape text.length text = some content)
        filterStringForHtmlInjection ↔
    (shellLength buffer.content < 2 ^ 32 ∨
        buffer.bufferSize ≤ shellLength buffer.content % 2 ^ 32) ∧
      NoWrap outputMaxSize.toNat 0 (input.take (input.length % 2 ^ 32)) ∧
      NoWrap (worstCaseLength buffer.content) 0 buffer.content ∧
        ((escaped buffer.content).length < worstCaseLength buffer.content ∨
          ∃ p, p <+: buffer.content ∧ buffer.bufferSize ≤ (escaped p).length ∧
            (escaped p).length < worstCaseLength buffer.content) :=
  and_congr (shell_iff buffer) (and_congr (html_iff input outputMaxSize) (htmlFilter_iff buffer))

theorem shellLength_replicate (n : ℕ) : shellLength (List.replicate n 39) = 2 + n + 3 * n := by
  unfold shellLength
  rw [List.length_replicate, List.count_replicate_self]

/-- A buffer of quotes, which take four bytes each. -/
def quotes : Buffer where
  content := List.replicate (2 ^ 30) 39
  bufferSize := 2 ^ 31
  noNul := fun hmem => absurd (List.eq_of_mem_replicate hmem) (by decide)
  room := by
    rw [List.length_replicate]
    exact Nat.pow_lt_pow_right (by decide) (by decide)
  size_lt := Nat.pow_lt_pow_right (by decide) (by decide)

theorem quotes_notSafe : ¬ ∀ buffer input (outputMaxSize : UInt32),
    AllOrNothing buffer (fun text content => shellWord false text = some content)
        filterStringForShellInjection ∧
      EscapesInput input outputMaxSize.toNat ∧
      AllOrNothing buffer (fun text content => unescape text.length text = some content)
        filterStringForHtmlInjection := by
  intro hall
  have hsafe := (shell_iff quotes).mp (hall quotes [] 0).1
  have hcontent : quotes.content = List.replicate (2 ^ 30) 39 := rfl
  have hsize : quotes.bufferSize = 2 ^ 31 := rfl
  rw [hcontent, hsize, shellLength_replicate] at hsafe
  omega

end AmmarServer.Escaping
