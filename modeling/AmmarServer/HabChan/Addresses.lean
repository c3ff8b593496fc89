import AmmarServer.HabChan.Site
import AmmarServer.HabChan.Tables

/-! The tables of the site over whole runs: where they lead, and whether there can be more threads. -/

namespace AmmarServer.HabChan.Site
open Bytes CString TextFile Hashmap Searching Run

variable {qsort : Qsort HashMapEntry.keyHash} {bsearch : Bsearch HashMapEntry.keyHash}
  {s : Site} {boardName threadName : List UInt8}

def BoardAt (boards : List Board) (name : List UInt8) (i : ℕ) : Prop :=
  ∃ b, boards[i]? = some b ∧ b.name = name

def ThreadAt (boards : List Board) (name : List UInt8) (encoded : ℕ) : Prop :=
  ∃ b t, boards[encoded / MAX_THREADS_PER_BOARD]? = some b ∧
    b.threads[encoded % MAX_THREADS_PER_BOARD]? = some t ∧ t.name = name

/-- The threads of a board have the first numbers, and there are no directories beyond. -/
def Numbered (dirs : List UInt8 → List UInt8 → Option Dir) (b : Board) : Prop :=
  b.threadUID = b.threads.length + 1 ∧
    (b.threads.length < MAX_THREADS_PER_BOARD →
      ∀ uid, b.threads.length < uid → dirs b.name (threadNameOf uid) = none)

structure Inv (s : Site) : Prop where
  boardTable : ∃ stored, Growing s.boardHashMap stored ∧
    ∀ name i, stored name = some i ↔ BoardAt s.boards name i
  threadTable : ∃ stored, Growing s.threadHashMap stored ∧
    ∀ name v, stored name = some v ↔ ThreadAt s.boards name v
  hashes : ∀ (i j : ℕ) b b', s.boards[i]? = some b → s.boards[j]? = some b' →
    hashFunction b.name = hashFunction b'.name → i = j
  few : s.boards.length < MAX_BOARDS
  size : ∀ b ∈ s.boards,
    b.maxThreads = MAX_THREADS_PER_BOARD ∧ b.threads.length ≤ MAX_THREADS_PER_BOARD
  numbered : ∀ (i : ℕ) b, s.boards[i]? = some b → (∀ o ∈ s.opened, o.1 ≠ i) → Numbered s.dirs b
  opened : ∀ boardID boardName entries, s.opened = some (boardID, boardName, entries) →
    BoardAt s.boards boardName boardID ∧ ∀ n ∈ entries, n.length < MAX_STRING_SIZE
  loading : ∀ l ∈ s.loading, ∀ n ∈ l.2, n.length < MAX_STRING_SIZE

theorem encoded_div {i j : ℕ} (hj : j < MAX_THREADS_PER_BOARD) :
    (i * MAX_THREADS_PER_BOARD + j) / MAX_THREADS_PER_BOARD = i ∧
      (i * MAX_THREADS_PER_BOARD + j) % MAX_THREADS_PER_BOARD = j := by
  unfold MAX_THREADS_PER_BOARD at *
  omega

theorem encoded_eq (v : ℕ) :
    v / MAX_THREADS_PER_BOARD * MAX_THREADS_PER_BOARD + v % MAX_THREADS_PER_BOARD = v :=
  Nat.div_add_mod' v MAX_THREADS_PER_BOARD

theorem inv_initial (dirs : List UInt8 → List UInt8 → Option Dir) : Inv (initial dirs) where
  boardTable := ⟨fun _ => none, growing_create (by decide) (by decide) true,
    fun _ _ => ⟨fun hcon => (by cases hcon), fun ⟨_, hb, _⟩ => (by cases hb)⟩⟩
  threadTable := ⟨fun _ => none, growing_create (by decide) (by decide) true,
    fun _ _ => ⟨fun hcon => (by cases hcon), fun ⟨_, _, hb, _⟩ => (by cases hb)⟩⟩
  hashes _ _ _ _ hb := (by cases hb)
  few := by
    show 0 < MAX_BOARDS
    decide
  size _ hb := (by cases hb)
  numbered _ _ hb := (by cases hb)
  opened _ _ _ ho := (by cases ho)
  loading _ hl := (by cases hl)

namespace Inv

/-! Lookups. -/

theorem clearBoard (h : Inv s) {i : ℕ} {b : Board} (hb : s.boards[i]? = some b) :
    s.ClearBoard b.name := by
  intro b' hb' hhash
  obtain ⟨j, hj⟩ := List.getElem?_of_mem hb'
  obtain rfl := h.hashes j i b' b hj hb hhash
  obtain rfl := Option.some.inj (hj.symm.trans hb)
  rfl

theorem boardIndex_snd (h : Inv s) (boardName : List UInt8) :
    ∃ hm, (s.boardIndex qsort bsearch boardName).2 = { s with boardHashMap := hm } ∧
      Inv { s with boardHashMap := hm } := by
  obtain ⟨stored, hgrowing, hstored⟩ := h.boardTable
  refine ⟨(hashMapGetULongPayload qsort bsearch s.boardHashMap boardName 0).2, ?_,
    { h with boardTable := ⟨stored, hgrowing.getULongPayload_snd boardName 0, hstored⟩ }⟩
  unfold boardIndex
  obtain ⟨⟨found, boardID⟩, hm⟩ := hashMapGetULongPayload qsort bsearch s.boardHashMap boardName 0
  cases found <;> rfl

theorem threadEncoded_snd (h : Inv s) (threadName : List UInt8) :
    ∃ hm, (s.threadEncoded qsort bsearch threadName).2 = { s with threadHashMap := hm } ∧
      Inv { s with threadHashMap := hm } := by
  obtain ⟨stored, hgrowing, hstored⟩ := h.threadTable
  refine ⟨(hashMapGetULongPayload qsort bsearch s.threadHashMap threadName 0).2, ?_,
    { h with threadTable := ⟨stored, hgrowing.getULongPayload_snd threadName 0, hstored⟩ }⟩
  unfold threadEncoded
  obtain ⟨⟨found, encoded⟩, hm⟩ :=
    hashMapGetULongPayload qsort bsearch s.threadHashMap threadName 0
  cases found <;> rfl

theorem boardIndex_fst (h : Inv s) (hclear : s.ClearBoard boardName) (i : ℕ) :
    (s.boardIndex qsort bsearch boardName).1 = some i ↔ BoardAt s.boards boardName i := by
  obtain ⟨stored, hgrowing, hstored⟩ := h.boardTable
  have htold : Told s.boardHashMap boardName := by
    intro e he hhash
    obtain ⟨b, hb, hname⟩ := (hstored e.key e.payload).mp
      ((hgrowing.represents.stored_iff _ _).mpr ⟨e, he, rfl, rfl⟩)
    rw [hgrowing.represents.hashed e he, ← hname] at hhash
    rw [← hname]
    exact hclear b (List.mem_of_getElem? hb) hhash
  have hget := @Growing.getULongPayload_fst qsort bsearch _ _ _ hgrowing htold
  rw [← hstored]
  unfold boardIndex
  generalize hashMapGetULongPayload qsort bsearch s.boardHashMap boardName 0 = answer at *
  obtain ⟨⟨found, boardID⟩, hm⟩ := answer
  obtain ⟨rfl, rfl⟩ := Prod.mk.inj hget
  cases stored boardName <;> simp

theorem threadEncoded_fst (h : Inv s) (hclear : s.ClearThread threadName) (v : ℕ) :
    (s.threadEncoded qsort bsearch threadName).1 = some v ↔ ThreadAt s.boards threadName v := by
  obtain ⟨stored, hgrowing, hstored⟩ := h.threadTable
  have htold : Told s.threadHashMap threadName := by
    intro e he hhash
    obtain ⟨b, t, hb, ht, hname⟩ := (hstored e.key e.payload).mp
      ((hgrowing.represents.stored_iff _ _).mpr ⟨e, he, rfl, rfl⟩)
    rw [hgrowing.represents.hashed e he, ← hname] at hhash
    rw [← hname]
    exact hclear b (List.mem_of_getElem? hb) t (List.mem_of_getElem? ht) hhash
  have hget := @Growing.getULongPayload_fst qsort bsearch _ _ _ hgrowing htold
  rw [← hstored]
  unfold threadEncoded
  generalize hashMapGetULongPayload qsort bsearch s.threadHashMap threadName 0 = answer at *
  obtain ⟨⟨found, encoded⟩, hm⟩ := answer
  obtain ⟨rfl, rfl⟩ := Prod.mk.inj hget
  cases stored threadName <;> simp

end Inv

end AmmarServer.HabChan.Site
