import AmmarServer.StringRecognizer.Scanners

/-! A scanner as it stands in its `.c` file, whatever wrote it: where the code leads an input that has a
word in front, and which words it tests for. -/

namespace AmmarServer.StringRecognizer
open CString HeaderAnalysis

/-- Distinct words whose only `:` is the sentinel. -/
theorem wordList_of_bodies {words : List (List UInt8)}
    (hwords : ∀ w ∈ words, ∃ body, (∀ c ∈ body, c ∈ acceptedChars) ∧ w = body ++ [58])
    (hdistinct : words.Nodup) : WordList words := by
  refine ⟨fun w hw => ?_, hdistinct, fun w hw w' hw' hprefix => ?_⟩
  · obtain ⟨body, hbody, heq⟩ := hwords w hw
    exact ⟨body, hbody, .inr heq⟩
  · obtain ⟨body, -, rfl⟩ := hwords w hw
    obtain ⟨body', hbody', rfl⟩ := hwords w' hw'
    rcases List.prefix_concat_iff.mp hprefix with heq | hinside
    · exact heq
    · -- The sentinel of the one would stand inside the other.
      have hmem : 58 ∈ body' := hinside.subset (List.mem_append_right _ (List.mem_singleton_self _))
      exact absurd rfl (accepted_facts 58 (hbody' 58 hmem)).2.1

mutual
/-- The identifier that is returned for an input with the word `w` in front, where it is led to the
test of that word. -/
def Block.find (w : List UInt8) : Block → Option (List UInt8)
  | .done => none
  | .ifShorter n rest => if w.length < n then none else rest.find w
  | .ifWord w' _ id rest => if w' = w then some id else rest.find w
  | .ifLongWord _ w' id rest => if w' = w then some id else rest.find w
  | .switch level cases _ => if level < w.length then cases.find w (charAt w level) else none
  | .error _ rest => rest.find w

def Cases.find (w : List UInt8) (c : UInt8) : Cases → Option (List UInt8)
  | .nil => none
  | .case label body rest => if c = label then body.find w else rest.find w c
end

mutual
/-- The tests: the word, the number of bytes that are compared, and what is returned. -/
def Block.tests : Block → List (List UInt8 × ℕ × List UInt8)
  | .done => []
  | .ifShorter _ rest => rest.tests
  | .ifWord w n id rest => (w, n, id) :: rest.tests
  | .ifLongWord n w id rest => (w, n, id) :: rest.tests
  | .switch _ cases rest => cases.tests ++ rest.tests
  | .error _ rest => rest.tests

def Cases.tests : Cases → List (List UInt8 × ℕ × List UInt8)
  | .nil => []
  | .case _ body rest => body.tests ++ rest.tests
end

variable {words : List (List UInt8)} {value : List UInt8 → ℕ} {w s id : List UInt8}

/-- A test is for one of the words, as a whole. -/
def Whole (words : List (List UInt8)) (test : List UInt8 × ℕ × List UInt8) : Prop :=
  test.1 ∈ words ∧ test.2.1 = test.1.length

instance (words : List (List UInt8)) (test : List UInt8 × ℕ × List UInt8) :
    Decidable (Whole words test) :=
  inferInstanceAs (Decidable (_ ∧ _))

theorem Whole.eq_false (hwords : WordList words) (hw : w ∈ words) (hm : Matches w s)
    {w' : List UInt8} {n : ℕ} (h : Whole words (w', n, id)) (hne : w' ≠ w) :
    ¬strncasecmpEq s w' n = true := by
  obtain ⟨hw', hn⟩ := h
  obtain rfl : n = w'.length := hn
  intro heq
  exact hne (hwords.eq_of_matches hw' hw ((strncasecmpEq_word (hwords.isWord w' hw')).mp heq) hm)

theorem Whole.eq_true (hwords : WordList words) (hm : Matches w s) {n : ℕ}
    (h : Whole words (w, n, id)) : strncasecmpEq s w n = true := by
  obtain ⟨hw, hn⟩ := h
  obtain rfl : n = w.length := hn
  exact (strncasecmpEq_word (hwords.isWord w hw)).mpr hm

mutual
theorem Block.exec_of_find (hwords : WordList words) (hw : w ∈ words) (hm : Matches w s) :
    ∀ block : Block, (∀ test ∈ block.tests, Whole words test) → block.find w = some id →
      block.exec value s = some (value id)
  | .done, _, h => by cases h
  | .ifShorter n rest, hall, h => by
    rw [Block.find] at h
    split at h
    · cases h
    · rename_i hlength
      rw [Block.exec, if_neg (Nat.not_lt_of_le ((Nat.le_of_not_lt hlength).trans hm.length_le))]
      exact Block.exec_of_find hwords hw hm rest hall h
  | .ifWord w' n id' rest, hall, h => by
    obtain ⟨htest, hrest⟩ := List.forall_mem_cons.mp hall
    rw [Block.find] at h
    rw [Block.exec]
    split at h
    · rename_i heq
      subst heq
      rw [if_pos (htest.eq_true hwords hm), Option.some.inj h]
    · rename_i hne
      rw [if_neg (htest.eq_false hwords hw hm hne)]
      exact Block.exec_of_find hwords hw hm rest hrest h
  | .ifLongWord n w' id' rest, hall, h => by
    obtain ⟨htest, hrest⟩ := List.forall_mem_cons.mp hall
    rw [Block.find] at h
    rw [Block.exec]
    split at h
    · rename_i heq
      subst heq
      have hlength : n ≤ s.length := (show n = w'.length from htest.2).trans_le hm.length_le
      rw [if_pos ⟨hlength, htest.eq_true hwords hm⟩, Option.some.inj h]
    · rename_i hne
      rw [if_neg fun hboth => htest.eq_false hwords hw hm hne hboth.2]
      exact Block.exec_of_find hwords hw hm rest hrest h
  | .switch level cases rest, hall, h => by
    rw [Block.find] at h
    split at h
    · rename_i hlevel
      rw [Block.exec, hm.toUpper_charAt (hwords.isWord w hw) hlevel,
        Cases.exec_of_find hwords hw hm cases _
          (fun test htest => hall test (List.mem_append_left _ htest)) h, Option.some_or]
    · cases h
  | .error w' rest, hall, h => Block.exec_of_find hwords hw hm rest hall h

theorem Cases.exec_of_find (hwords : WordList words) (hw : w ∈ words) (hm : Matches w s) :
    ∀ (cases : Cases) (c : UInt8), (∀ test ∈ cases.tests, Whole words test) →
      cases.find w c = some id → cases.exec value s c = some (value id)
  | .nil, _, _, h => by cases h
  | .case label body rest, c, hall, h => by
    rw [Cases.find] at h
    rw [Cases.exec]
    split at h
    · rename_i hlabel
      rw [if_pos hlabel]
      exact Block.exec_of_find hwords hw hm body
        (fun test htest => hall test (List.mem_append_left _ htest)) h
    · rename_i hlabel
      rw [if_neg hlabel]
      exact Cases.exec_of_find hwords hw hm rest c
        (fun test htest => hall test (List.mem_append_right _ htest)) h
end

mutual
theorem Block.exec_sound {v : ℕ} : ∀ block : Block, block.exec value s = some v →
    v = 0 ∨ ∃ test ∈ block.tests, strncasecmpEq s test.1 test.2.1 = true ∧ v = value test.2.2
  | .done, h => by cases h
  | .ifShorter n rest, h => by
    rw [Block.exec] at h
    split at h
    · exact .inl (Option.some.inj h).symm
    · exact Block.exec_sound rest h
  | .ifWord w n id rest, h => by
    rw [Block.exec] at h
    split at h
    · rename_i heq
      exact .inr ⟨_, List.mem_cons_self .., heq, (Option.some.inj h).symm⟩
    · rcases Block.exec_sound rest h with hzero | ⟨test, htest, hv⟩
      · exact .inl hzero
      · exact .inr ⟨test, List.mem_cons_of_mem _ htest, hv⟩
  | .ifLongWord n w id rest, h => by
    rw [Block.exec] at h
    split at h
    · rename_i hboth
      exact .inr ⟨_, List.mem_cons_self .., hboth.2, (Option.some.inj h).symm⟩
    · rcases Block.exec_sound rest h with hzero | ⟨test, htest, hv⟩
      · exact .inl hzero
      · exact .inr ⟨test, List.mem_cons_of_mem _ htest, hv⟩
  | .switch level cases rest, h => by
    rw [Block.exec] at h
    rcases Option.or_eq_some_iff.mp h with h | ⟨-, h⟩
    · rcases Cases.exec_sound cases _ h with hzero | ⟨test, htest, hv⟩
      · exact .inl hzero
      · exact .inr ⟨test, List.mem_append_left _ htest, hv⟩
    · rcases Block.exec_sound rest h with hzero | ⟨test, htest, hv⟩
      · exact .inl hzero
      · exact .inr ⟨test, List.mem_append_right _ htest, hv⟩
  | .error w rest, h => Block.exec_sound rest h

theorem Cases.exec_sound {v : ℕ} : ∀ (cases : Cases) (c : UInt8), cases.exec value s c = some v →
    v = 0 ∨ ∃ test ∈ cases.tests, strncasecmpEq s test.1 test.2.1 = true ∧ v = value test.2.2
  | .nil, _, h => by cases h
  | .case label body rest, c, h => by
    rw [Cases.exec] at h
    split at h
    · rcases Block.exec_sound body h with hzero | ⟨test, htest, hv⟩
      · exact .inl hzero
      · exact .inr ⟨test, List.mem_append_left _ htest, hv⟩
    · rcases Cases.exec_sound rest c h with hzero | ⟨test, htest, hv⟩
      · exact .inl hzero
      · exact .inr ⟨test, List.mem_append_right _ htest, hv⟩
end

/-- A scanner that leads every word to its test returns the word that an input has in front. -/
theorem exec_of_matches (hwords : WordList words) {block : Block}
    (htests : ∀ test ∈ block.tests, Whole words test) (hfind : block.find w = some id)
    (hw : w ∈ words) (hm : Matches w s) : (block.exec value s).getD 0 = value id := by
  rw [Block.exec_of_find hwords hw hm block htests hfind, Option.getD_some]

theorem exec_of_notMatches (hwords : WordList words) {block : Block}
    (htests : ∀ test ∈ block.tests, Whole words test) (hnone : ∀ w ∈ words, ¬Matches w s) :
    (block.exec value s).getD 0 = 0 := by
  cases hexec : block.exec value s with
  | none => rfl
  | some v =>
    rw [Option.getD_some]
    rcases Block.exec_sound block hexec with hzero | ⟨test, htest, heq, -⟩
    · exact hzero
    · obtain ⟨hword, hn⟩ := htests test htest
      rw [hn] at heq
      exact absurd ((strncasecmpEq_word (hwords.isWord _ hword)).mp heq) (hnone _ hword)

end AmmarServer.StringRecognizer
