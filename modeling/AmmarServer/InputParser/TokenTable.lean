import AmmarServer.InputParser.Pieces

/-! `InputParser/InputParser_C.c` with its token list: the words of a string as places in it, in a
table that the next string is taken apart into. -/

namespace AmmarServer.InputParser
open TextFile

inductive Fault
  | outOfBounds
deriving DecidableEq, Repr

structure Tokens where
  token_start : ℕ
  length : ℕ
deriving DecidableEq, Repr

/-- A parser with its tokens and the string that they are places of, up to its NUL. -/
structure Ipc extends InputParserC where
  tokenlist : List Tokens
  tokens_count : ℕ
  str : Option (List UInt8)
  local_allocation : Bool

/-- `garbage` is what the list that `malloc` returns has in it. -/
def ipcCreate (max_string_count max_delimiter_count : ℕ) (garbage : ℕ → Tokens) : Ipc where
  toInputParserC := inputParserCreate max_string_count (max_delimiter_count % 2 ^ 16)
  tokenlist := (List.range ((max_string_count + 1) % 2 ^ 32)).map garbage
  tokens_count := 0
  str := none
  local_allocation := false

def Ipc.setDelimeter (ipc : Ipc) (num : ℤ) (tmp : UInt8) : Except Fault Ipc :=
  if (ipc.delimeters.length : ℤ) ≤ num then .ok ipc
  else if num < 0 then .error .outOfBounds
  else .ok { ipc with delimeters := ipc.delimeters.set num.toNat tmp }

/-- Where `InputParser_SeperateWords` is: `begun` is that the next byte may be a delimiter. -/
structure Scan where
  tokenlist : List Tokens
  tokens_count : ℕ
  begun : Bool

def setToken (tokenlist : List Tokens) (num : ℕ) (f : Tokens → Tokens) :
    Except Fault (List Tokens) :=
  (tokenlist[num]?).elim (.error .outOfBounds) fun t => .ok (tokenlist.set num (f t))

/-- A token that ends before the `i`th byte. -/
def Scan.close (s : Scan) (i : ℕ) : Except Fault Scan :=
  (setToken s.tokenlist s.tokens_count fun t => { t with length := i - t.token_start }).bind
    fun tokenlist =>
      (setToken tokenlist (s.tokens_count + 1)
        fun t => { t with token_start := (i + 1) % 2 ^ 32 }).map
        fun tokenlist => { tokenlist, tokens_count := s.tokens_count + 1, begun := false }

def Scan.next (delimeters : List UInt8) (s : Scan) (i : ℕ) (c : UInt8) : Except Fault Scan :=
  if c ∈ delimeters then
    if s.begun then s.close i
    else
      (setToken s.tokenlist s.tokens_count fun t => { t with token_start := (i + 1) % 2 ^ 32 }).map
        fun tokenlist => { s with tokenlist }
  else .ok { s with begun := true }

/-- The loop over the bytes from the `i`th on, and where it ends. -/
def seperateLoop (delimeters : List UInt8) (tokens_max : ℕ) :
    Scan → ℕ → List UInt8 → Except Fault (Scan × ℕ)
  | s, i, [] => .ok (s, i)
  | s, i, c :: inpt =>
    if s.tokens_count < tokens_max then
      (s.next delimeters i c).bind fun s => seperateLoop delimeters tokens_max s (i + 1) inpt
    else .ok (s, i)

def Scan.finish (tokens_max : ℕ) (s : Scan) (i : ℕ) : Except Fault Scan :=
  if s.begun ∧ s.tokens_count < tokens_max then s.close i
  else
    (setToken s.tokenlist s.tokens_count fun t => { t with length := i - t.token_start }).map
      fun tokenlist => { s with tokenlist }

/-- What `InputParser_SeperateWords` does once the parser has its string. As many words are counted
in an `int`. -/
def Ipc.seperate (ipc : Ipc) (inpt : List UInt8) : Except Fault (Int32 × Ipc) :=
  (setToken ipc.tokenlist 0 fun t => { t with token_start := 0 }).bind fun tokenlist =>
    ((seperateLoop ipc.delimeters ipc.tokens_max ⟨tokenlist, 0, false⟩ 0 inpt).bind
      fun (s, i) => s.finish ipc.tokens_max i).map fun s =>
        (Int32.ofNat s.tokens_count,
          { ipc with tokenlist := s.tokenlist, tokens_count := s.tokens_count })

/-- `memory` is whether `malloc` has room for a copy. -/
def Ipc.seperateWords (ipc : Ipc) (inpt : Option (List UInt8)) (keepcopy : UInt8) (memory : Bool) :
    Except Fault (Int32 × Ipc) :=
  if ipc.tokens_max < ipc.tokens_count then .ok (0, ipc)
  else
    match inpt with
    | none => .ok (0, ipc)
    | some inpt =>
      -- The length is an `unsigned int`.
      if inpt.length % 2 ^ 32 = 0 then .ok (0, ipc)
      else if keepcopy = 1 then
        if memory then
          { ipc with
            str := some (inpt.take (inpt.length % 2 ^ 32))
            local_allocation := true }.seperate (inpt.take (inpt.length % 2 ^ 32))
        else .ok (0, { ipc with str := none, local_allocation := false, tokens_count := 0 })
      else
        { ipc with str := some inpt, local_allocation := false }.seperate
          (inpt.take (inpt.length % 2 ^ 32))

def Ipc.CheckWordNumOk (ipc : Ipc) (num : ℕ) : Prop :=
  ¬ipc.tokens_max < ipc.tokens_count ∧ num < ipc.tokens_count

instance (ipc : Ipc) (num : ℕ) : Decidable (ipc.CheckWordNumOk num) :=
  inferInstanceAs (Decidable (_ ∧ _))

/-- What an accessor does with a token of the list, and what it returns for any other. -/
def Ipc.onToken {α : Type} (ipc : Ipc) (num : ℕ) (absent : α) (f : Tokens → Except Fault α) :
    Except Fault α :=
  if ipc.CheckWordNumOk num then (ipc.tokenlist[num]?).elim (.error .outOfBounds) f
  else .ok absent

def Ipc.tokenText (ipc : Ipc) (t : Tokens) : Except Fault (List UInt8) :=
  ipc.str.elim (.error .outOfBounds) fun str =>
    if t.token_start + t.length ≤ str.length then .ok ((str.drop t.token_start).take t.length)
    else .error .outOfBounds

def isBlank (c : UInt8) : Bool := c == 10 || c == 13 || c == 32

def Ipc.isEmptyWord (ipc : Ipc) (num : ℕ) : Except Fault Bool :=
  ipc.onToken num true fun t =>
    if t.length = 0 then .ok true else (ipc.tokenText t).map fun text => text.all isBlank

def Ipc.getWord (ipc : Ipc) (num : ℕ) (wheretostore : List UInt8) (storagesize : ℕ) :
    Except Fault (ℕ × List UInt8) :=
  ipc.onToken num (0, wheretostore) fun t =>
    if storagesize < (t.length + 1) % 2 ^ 32 then .ok (0, wheretostore)
    else
      (ipc.tokenText t).bind fun text =>
        if wheretostore.length < text.length + 1 then .error .outOfBounds
        else .ok (t.length, text ++ 0 :: wheretostore.drop (text.length + 1))

def Ipc.getWordLength (ipc : Ipc) (num : ℕ) : Except Fault ℕ :=
  ipc.onToken num 0 fun t => .ok t.length

def Ipc.wordCompareNoCase (ipc : Ipc) (num : ℕ) (word : List UInt8) (wordsize : ℕ) :
    Except Fault Bool :=
  (ipc.getWordLength num).bind fun length =>
    if wordsize ≠ length then .ok false
    else if wordsize = 0 then .ok true
    else
      (ipc.tokenlist[num]?).elim (.error .outOfBounds) fun t =>
        (ipc.tokenText t).map fun text => text.map toupper == word.map toupper

def Ipc.wordCompareNoCaseAuto (ipc : Ipc) (num : ℕ) (word : List UInt8) : Except Fault Bool :=
  ipc.wordCompareNoCase num word (word.length % 2 ^ 32)

/-- `Str2Int_internal` reads from the last byte to the first, whose numbers are `int`s, and stops
below zero. -/
def str2IntInternal (inpt : Option (List UInt8)) (start_from length : ℕ) : Except Fault Int32 :=
  inpt.elim (.ok 0) fun inpt =>
    let last := ((start_from + length : ℕ) - 1 : ℤ).bmod (2 ^ 32)
    let first := (start_from : ℤ).bmod (2 ^ 32)
    if first ≤ last ∧ (inpt.length : ℤ) ≤ last then .error .outOfBounds
    else .ok (str2Int ((inpt.take (last + 1).toNat).drop first.toNat)).toInt32

def Ipc.getWordInt (ipc : Ipc) (num : ℕ) : Except Fault Int32 :=
  ipc.onToken num 0 fun t => str2IntInternal ipc.str t.token_start t.length

/-! The loop. -/

theorem setToken_append (closed : List Tokens) (t : Tokens) (garbage : List Tokens)
    (f : Tokens → Tokens) :
    setToken (closed ++ t :: garbage) closed.length f = .ok (closed ++ f t :: garbage) := by
  unfold setToken
  rw [List.getElem?_append_right le_rfl, Nat.sub_self, List.getElem?_cons_zero, Option.elim_some,
    List.set_append_right _ _ le_rfl, Nat.sub_self, List.set_cons_zero]

theorem Scan.close_append (closed : List Tokens) (t g : Tokens) (garbage : List Tokens)
    (begun : Bool) (i : ℕ) :
    Scan.close ⟨closed ++ t :: g :: garbage, closed.length, begun⟩ i =
      .ok ⟨closed ++ [{ t with length := i - t.token_start }] ++
        { g with token_start := (i + 1) % 2 ^ 32 } :: garbage, closed.length + 1, false⟩ := by
  have hnext := setToken_append (closed ++ [{ t with length := i - t.token_start }]) g garbage
    fun g => { g with token_start := (i + 1) % 2 ^ 32 }
  rw [List.length_append, List.length_singleton, List.append_assoc, List.singleton_append] at hnext
  unfold Scan.close
  simp only
  rw [setToken_append]
  show (setToken _ _ _).map _ = _
  rw [hnext, List.append_assoc, List.singleton_append]
  rfl

/-- The token is the place of a word. -/
def Tokens.IsWord (str : List UInt8) (t : Tokens) (word : List UInt8) : Prop :=
  t.token_start + t.length ≤ str.length ∧ (str.drop t.token_start).take t.length = word

theorem isWord_of_append {front word behind : List UInt8} {t : Tokens}
    (hstart : t.token_start = front.length) :
    Tokens.IsWord (front ++ word ++ behind)
      { t with length := front.length + word.length - t.token_start } word := by
  have hlength : front.length + word.length - t.token_start = word.length := by
    rw [hstart, Nat.add_sub_cancel_left]
  unfold Tokens.IsWord
  simp only
  rw [hlength, hstart]
  constructor
  · rw [List.length_append, List.length_append]
    exact Nat.le_add_right _ _
  · rw [List.append_assoc, List.drop_left, List.take_left]

/-- What the loop has found and what it has begun, with room for as many words as there is garbage
behind the token that it fills in, come to the words that are left to find. -/
theorem finish_seperateLoop {delimeters str : List UInt8} (hstr : str.length < 2 ^ 32)
    {rest : List UInt8} {closed garbage : List Tokens} {found : List (List UInt8)} {t : Tokens}
    {front word : List UInt8} (hrest : str = front ++ word ++ rest)
    (hstart : t.token_start = front.length)
    (hclosed : List.Forall₂ (Tokens.IsWord str) closed found) :
    ∃ closed' t' garbage' begun,
      ((seperateLoop delimeters (closed.length + garbage.length)
        ⟨closed ++ t :: garbage, closed.length, !word.isEmpty⟩ (front.length + word.length) rest).bind
          fun (s, i) => s.finish (closed.length + garbage.length) i) =
        .ok ⟨closed' ++ t' :: garbage', closed'.length, begun⟩ ∧
      closed'.length + garbage'.length = closed.length + garbage.length ∧
      List.Forall₂ (Tokens.IsWord str) closed'
        (found ++ seperateFrom delimeters garbage.length word (!word.isEmpty) rest) := by
  -- Where the loop ends with no word to close, the token behind the last one gets a length.
  have hleft : ∀ {closed garbage : List Tokens} {t : Tokens} {begun : Bool} {i : ℕ},
      ¬((begun : Prop) ∧ closed.length < closed.length + garbage.length) →
      Scan.finish (closed.length + garbage.length) ⟨closed ++ t :: garbage, closed.length, begun⟩ i =
        .ok ⟨closed ++ { t with length := i - t.token_start } :: garbage, closed.length, begun⟩ := by
    intro closed garbage t begun i hnone
    unfold Scan.finish
    rw [if_neg hnone]
    simp only
    rw [setToken_append]
    rfl
  induction rest generalizing closed garbage found t front word with
  | nil =>
    show ∃ closed' t' garbage' begun, Scan.finish _ _ _ = _ ∧ _
    cases garbage with
    | nil =>
      refine ⟨closed, _, [], _, hleft fun h => absurd h.2 (lt_irrefl _), rfl, ?_⟩
      rw [List.length_nil, seperateFrom, List.append_nil]
      exact hclosed
    | cons g garbage =>
      rw [List.length_cons, seperateFrom]
      cases word with
      | nil =>
        refine ⟨closed, _, g :: garbage, _, hleft fun h => absurd h.1 Bool.false_ne_true, rfl, ?_⟩
        rw [List.isEmpty_nil, Bool.not_true, if_neg Bool.false_ne_true, List.append_nil]
        exact hclosed
      | cons c word =>
        have hword := @isWord_of_append front (c :: word) [] t hstart
        rw [← hrest] at hword
        refine ⟨closed ++ [_],
          { g with token_start := (front.length + (c :: word).length + 1) % 2 ^ 32 }, garbage, false,
          ?_, ?_, List.rel_append hclosed (.cons hword .nil)⟩
        · unfold Scan.finish
          rw [if_pos ⟨rfl, Nat.lt_add_of_pos_right (Nat.succ_pos _)⟩, Scan.close_append,
            List.length_append, List.length_singleton]
        · rw [List.length_append, List.length_singleton]
          omega
  | cons c rest ih =>
    cases garbage with
    | nil =>
      have hfull : ¬closed.length < closed.length + ([] : List Tokens).length := lt_irrefl _
      rw [seperateLoop, if_neg hfull]
      refine ⟨closed, _, [], _, hleft fun h => absurd h.2 hfull, rfl, ?_⟩
      rw [List.length_nil, seperateFrom, List.append_nil]
      exact hclosed
    | cons g garbage =>
      have hlt : closed.length < closed.length + (g :: garbage).length :=
        Nat.lt_add_of_pos_right (Nat.succ_pos _)
      have hnext : (front.length + word.length + 1) % 2 ^ 32 = (front ++ word ++ [c]).length := by
        have hlength := congrArg List.length hrest
        simp only [List.length_append, List.length_cons] at hlength
        rw [Nat.mod_eq_of_lt (by omega)]
        simp only [List.length_append, List.length_singleton]
      have hskip : str = (front ++ word ++ [c]) ++ [] ++ rest := by
        rw [hrest]
        simp
      have hindex : (front ++ word ++ [c]).length + ([] : List UInt8).length =
          front.length + word.length + 1 := by
        simp only [List.length_append, List.length_singleton, List.length_nil]
      rw [seperateLoop, if_pos hlt, List.length_cons, seperateFrom]
      unfold Scan.next
      by_cases hc : c ∈ delimeters
      · rw [if_pos hc, if_pos hc]
        cases word with
        | nil =>
          -- A delimeter before a word: the word may start behind it.
          have hfound := @ih closed (g :: garbage) found
            { t with token_start := (front.length + 0 + 1) % 2 ^ 32 } _ _ hskip hnext hclosed
          rw [hindex] at hfound
          simp only [List.isEmpty_nil, Bool.not_true, if_neg Bool.false_ne_true]
          rw [setToken_append]
          exact hfound
        | cons d word =>
          have hword := @isWord_of_append front (d :: word) (c :: rest) t hstart
          rw [← hrest] at hword
          have hfound := @ih (closed ++ [_]) garbage _
            { g with token_start := (front.length + (d :: word).length + 1) % 2 ^ 32 } _ _
            hskip hnext (List.rel_append hclosed (.cons hword .nil))
          rw [hindex, List.append_assoc found, List.length_append, List.length_singleton,
            Nat.add_assoc, Nat.add_comm 1] at hfound
          simp only [List.isEmpty_cons, Bool.not_false, if_true]
          rw [Scan.close_append]
          exact hfound
      · have hbegun : (true : Bool) = !(word ++ [c]).isEmpty := by
          cases word with
          | nil => rfl
          | cons d word => rfl
        have hmore : str = front ++ (word ++ [c]) ++ rest := by
          rw [hrest]
          simp
        have hfound := @ih closed (g :: garbage) found t _ _ hmore hstart hclosed
        rw [← hbegun, List.length_append, List.length_singleton, ← Nat.add_assoc] at hfound
        rw [if_neg hc, if_neg hc]
        exact hfound

end AmmarServer.InputParser
