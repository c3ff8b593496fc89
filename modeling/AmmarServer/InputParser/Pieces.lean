import AmmarServer.InputParser.InputParser

/-! The words of a string without the limit of the token list: what stands between delimeters and
is not empty. -/

namespace AmmarServer.InputParser

variable {delimeters : List UInt8}

def pieces (delimeters inpt : List UInt8) : List (List UInt8) :=
  (inpt.splitOnP delimeters.contains).filter fun w => !w.isEmpty

theorem pieces_nil (delimeters : List UInt8) : pieces delimeters [] = [] := rfl

theorem pieces_append_cons (s rest : List UInt8) {d : UInt8} (hd : d ∈ delimeters) :
    pieces delimeters (s ++ d :: rest) = pieces delimeters s ++ pieces delimeters rest := by
  rw [pieces, List.splitOnP_append_cons s rest (List.contains_iff_mem.mpr hd), List.filter_append]
  rfl

theorem pieces_cons (rest : List UInt8) {d : UInt8} (hd : d ∈ delimeters) :
    pieces delimeters (d :: rest) = pieces delimeters rest := by
  have happend := pieces_append_cons [] rest hd
  rw [pieces_nil, List.nil_append, List.nil_append] at happend
  exact happend

theorem pieces_word {w : List UInt8} (hne : w ≠ []) (hw : ∀ c ∈ w, c ∉ delimeters) :
    pieces delimeters w = [w] := by
  have hword : ∀ c ∈ w, delimeters.contains c = false := fun c hc =>
    Bool.eq_false_iff.mpr fun hcon => hw c hc (List.contains_iff_mem.mp hcon)
  rw [pieces, List.splitOnP_eq_singleton hword, List.filter_singleton]
  cases w with
  | nil => exact absurd rfl hne
  | cons c w => rfl

theorem seperateFrom_splitOnP (inpt word : List UInt8) (room : ℕ) :
    seperateFrom delimeters room word (!word.isEmpty) inpt =
      (((inpt.splitOnP delimeters.contains).modifyHead (word ++ ·)).filter
        fun w => !w.isEmpty).take room := by
  induction inpt generalizing word room with
  | nil =>
    cases room with
    | zero => rw [List.take_zero, seperateFrom]
    | succ room =>
      rw [seperateFrom, List.splitOnP_nil, List.modifyHead_cons, List.append_nil]
      cases word with
      | nil => rfl
      | cons c word =>
        have hbegun : (!(c :: word).isEmpty) = true := rfl
        have hkept : [c :: word].filter (fun w => !w.isEmpty) = [c :: word] := rfl
        rw [if_pos hbegun, hkept, List.take_succ_cons, List.take_nil]
  | cons c inpt ih =>
    have hnil : ∀ room, seperateFrom delimeters room [] false inpt =
        (((inpt.splitOnP delimeters.contains).filter fun w => !w.isEmpty).take room) := by
      intro room
      have hrest := ih [] room
      rw [List.isEmpty_nil, Bool.not_true] at hrest
      rw [hrest]
      have hid : ((inpt.splitOnP delimeters.contains).modifyHead ([] ++ ·)) =
          inpt.splitOnP delimeters.contains := List.modifyHead_id ▸ rfl
      rw [hid]
    cases room with
    | zero => rw [List.take_zero, seperateFrom]
    | succ room =>
      rw [seperateFrom, List.splitOnP_cons_eq_if_modifyHead]
      by_cases hc : c ∈ delimeters
      · rw [if_pos hc, if_pos (List.contains_iff_mem.mpr hc), List.modifyHead_cons,
          List.append_nil, hnil, hnil]
        cases word with
        | nil => rfl
        | cons d word => rfl
      · rw [if_neg hc, if_neg fun hcon => hc (List.contains_iff_mem.mp hcon),
          List.modifyHead_modifyHead]
        have hbegun : (true : Bool) = !(word ++ [c]).isEmpty := by
          cases word with
          | nil => rfl
          | cons d word => rfl
        have hjoin : ((word ++ ·) ∘ (c :: ·)) = (word ++ [c] ++ ·) := by
          funext s
          show word ++ c :: s = word ++ [c] ++ s
          rw [List.append_assoc, List.singleton_append]
        rw [hjoin, ← ih, ← hbegun]

theorem length_pieces_le (inpt : List UInt8) : (pieces delimeters inpt).length ≤ inpt.length := by
  induction inpt with
  | nil => exact Nat.le_refl 0
  | cons c inpt ih =>
    by_cases hc : c ∈ delimeters
    · rw [pieces_cons inpt hc]
      exact Nat.le_succ_of_le ih
    · obtain ⟨w, ws, hsplit⟩ := List.exists_cons_of_ne_nil
        (List.splitOnP_ne_nil delimeters.contains inpt)
      rw [pieces, hsplit] at ih
      rw [pieces, List.splitOnP_cons_eq_if_modifyHead,
        if_neg fun hcon => hc (List.contains_iff_mem.mp hcon), hsplit, List.modifyHead_cons,
        List.filter_cons_of_pos rfl, List.length_cons, List.length_cons]
      have hrest := ((List.sublist_cons_self w ws).filter fun w => !w.isEmpty).length_le
      exact Nat.succ_le_succ (hrest.trans ih)

theorem seperateFrom_eq (inpt : List UInt8) (room : ℕ) :
    seperateFrom delimeters room [] false inpt = (pieces delimeters inpt).take room := by
  have hscan := @seperateFrom_splitOnP delimeters inpt [] room
  have hid : ((inpt.splitOnP delimeters.contains).modifyHead ([] ++ ·)) =
      inpt.splitOnP delimeters.contains := List.modifyHead_id ▸ rfl
  rw [hid] at hscan
  exact hscan

theorem inputParserSeperateWords_eq {ipc : InputParserC} {inpt : List UInt8}
    (h : inpt.length ≤ ipc.tokens_max) :
    inputParserSeperateWords ipc inpt = pieces ipc.delimeters inpt := by
  rw [inputParserSeperateWords, seperateFrom_eq,
    List.take_of_length_le ((length_pieces_le inpt).trans h)]

theorem piece_no_delimeter {inpt w : List UInt8} (h : w ∈ pieces delimeters inpt) :
    w ≠ [] ∧ ∀ c ∈ w, c ∉ delimeters := by
  have hne := (List.mem_filter.mp h).2
  have hscan : w ∈ seperateFrom delimeters inpt.length [] false inpt := by
    rw [seperateFrom_eq, List.take_of_length_le (length_pieces_le inpt)]
    exact h
  refine ⟨fun hcon => ?_, ?_⟩
  · rw [hcon] at hne
    cases hne
  · exact seperateFrom_no_delimeter (fun _ hc => absurd hc List.not_mem_nil) w hscan

theorem pieces_ne_nil (s rest : List UInt8) {c : UInt8} (hc : c ∉ delimeters) :
    pieces delimeters (s ++ c :: rest) ≠ [] := by
  have hbegun : ∀ {c : UInt8} (_ : c ∉ delimeters) (rest : List UInt8),
      pieces delimeters (c :: rest) ≠ [] := by
    intro c hc rest
    obtain ⟨w, ws, hsplit⟩ := List.exists_cons_of_ne_nil
      (List.splitOnP_ne_nil delimeters.contains rest)
    rw [pieces, List.splitOnP_cons_eq_if_modifyHead,
      if_neg fun hcon => hc (List.contains_iff_mem.mp hcon), hsplit, List.modifyHead_cons,
      List.filter_cons_of_pos rfl]
    exact List.cons_ne_nil _ _
  induction s with
  | nil => exact hbegun hc rest
  | cons d s ih =>
    by_cases hd : d ∈ delimeters
    · rw [List.cons_append, pieces_cons _ hd]
      exact ih
    · exact hbegun hd _

theorem infix_of_mem_pieces {inpt w : List UInt8} (h : w ∈ pieces delimeters inpt) :
    w <:+: inpt := by
  suffices hall : (∀ w ∈ inpt.splitOnP delimeters.contains, w <:+: inpt) ∧
      ∀ w ∈ (inpt.splitOnP delimeters.contains).head?, w <+: inpt from
    hall.1 w (List.mem_filter.mp h).1
  clear h
  induction inpt with
  | nil =>
    rw [List.splitOnP_nil]
    exact ⟨fun w hw => List.mem_singleton.mp hw ▸ List.infix_refl [],
      fun w hw => Option.some.inj hw ▸ List.prefix_refl []⟩
  | cons c inpt ih =>
    rw [List.splitOnP_cons_eq_if_modifyHead]
    split
    · refine ⟨fun w hw => ?_, fun w hw => Option.some.inj hw ▸ List.nil_prefix⟩
      rcases List.mem_cons.mp hw with rfl | hw
      · exact List.nil_infix
      · exact List.infix_cons (ih.1 w hw)
    · obtain ⟨first, others, hsplit⟩ := List.exists_cons_of_ne_nil
        (List.splitOnP_ne_nil delimeters.contains inpt)
      rw [hsplit] at ih
      rw [hsplit, List.modifyHead_cons]
      have hfirst : c :: first <+: c :: inpt :=
        List.cons_prefix_cons.mpr ⟨rfl, ih.2 first rfl⟩
      refine ⟨fun w hw => ?_, fun w hw => Option.some.inj hw ▸ hfirst⟩
      rcases List.mem_cons.mp hw with rfl | hw
      · exact hfirst.isInfix
      · exact List.infix_cons (ih.1 w (List.mem_cons_of_mem _ hw))

theorem pieces_cons_of_notMem {c : UInt8} (hc : c ∉ delimeters) (rest : List UInt8) :
    ∃ w ws, pieces delimeters (c :: rest) = (c :: w) :: ws := by
  obtain ⟨w, ws, hsplit⟩ := List.exists_cons_of_ne_nil
    (List.splitOnP_ne_nil delimeters.contains rest)
  refine ⟨w, ws.filter fun w => !w.isEmpty, ?_⟩
  rw [pieces, List.splitOnP_cons_eq_if_modifyHead,
    if_neg fun hcon => hc (List.contains_iff_mem.mp hcon), hsplit, List.modifyHead_cons,
    List.filter_cons_of_pos rfl]

theorem pieces_dropWhile (inpt : List UInt8) :
    pieces delimeters (inpt.dropWhile delimeters.contains) = pieces delimeters inpt := by
  induction inpt with
  | nil => rfl
  | cons c inpt ih =>
    rw [List.dropWhile_cons]
    split
    · rename_i hc
      rw [ih, pieces_cons inpt (List.contains_iff_mem.mp hc)]
    · rfl

end AmmarServer.InputParser
