import AmmarServer.HabChan.SiteChanges

/-! Every thread of the site is found where it is, over whole runs, and there can be more. -/

namespace AmmarServer.HabChan.Site
open Bytes CString TextFile Hashmap Searching Run

variable {qsort : Qsort HashMapEntry.keyHash} {bsearch : Bsearch HashMapEntry.keyHash}
  {s : Site} {boardName threadName : List UInt8}

namespace Inv

theorem keepThread (h : Inv s) {i : ℕ} {b : Board} (b' : Board) (hb : s.boards[i]? = some b)
    (hname : b'.name = b.name) (hmax : b'.maxThreads = b.maxThreads)
    (hthreads : b'.threads = b.threads) (hroom : b.threads.length < MAX_THREADS_PER_BOARD)
    {t : Thread} (hfresh : s.FreshThread t.name) (heap : Heap) (hkey : heap.key = true)
    (hentries : heap.entries = true)
    (hnumbered : (∀ o ∈ s.opened, o.1 ≠ i) →
      Numbered s.dirs { b' with threads := b'.threads ++ [t] }) :
    ∃ s', s.keepThread i b' t.name t heap = some s' ∧ Inv s' ∧
      s'.dirs = s.dirs ∧ s'.boards = s.boards.set i { b' with threads := b'.threads ++ [t] } := by
  have hcount := h.thread_entries
  obtain ⟨stored, hgrowing, hstored⟩ := h.threadTable
  have habsent : stored t.name = none := by
    cases hv : stored t.name with
    | none => rfl
    | some v =>
      obtain ⟨c, u, hc, hu, heq⟩ := (hstored t.name v).mp hv
      exact absurd heq (hfresh c (List.mem_of_getElem? hc) u (List.mem_of_getElem? hu))
  obtain ⟨hm, hadd, hgrown⟩ := hgrowing.addULong habsent
    (i * MAX_THREADS_PER_BOARD + b.threads.length) hkey hentries hcount
  have hi := (List.getElem?_eq_some_iff.mp hb).1
  refine ⟨{ s with
    threadHashMap := hm
    boards := s.boards.set i { b' with threads := b'.threads ++ [t] } }, ?_, ?_, rfl, rfl⟩
  · unfold Site.keepThread
    rw [hthreads, hadd]
  have hset : ∀ (j : ℕ) c, (s.boards.set i { b' with threads := b'.threads ++ [t] })[j]? = some c →
      ∃ c₀, s.boards[j]? = some c₀ ∧ c₀.name = c.name ∧ c₀.maxThreads = c.maxThreads ∧
        (c = c₀ ∨ i = j ∧ c = { b' with threads := b'.threads ++ [t] }) := by
    intro j c hc
    rcases eq_or_ne i j with rfl | hne
    · rw [List.getElem?_set_self hi] at hc
      obtain rfl := Option.some.inj hc
      exact ⟨b, hb, hname.symm, hmax.symm, .inr ⟨rfl, rfl⟩⟩
    · rw [List.getElem?_set_ne hne] at hc
      exact ⟨c, hc, rfl, rfl, .inl rfl⟩
  have hboardAt : ∀ name j,
      BoardAt (s.boards.set i { b' with threads := b'.threads ++ [t] }) name j ↔
        BoardAt s.boards name j := by
    intro name j
    constructor
    · rintro ⟨c, hc, rfl⟩
      obtain ⟨c₀, hc₀, hname₀, -⟩ := hset j c hc
      exact ⟨c₀, hc₀, hname₀⟩
    · rintro ⟨c, hc, rfl⟩
      rcases eq_or_ne i j with rfl | hne
      · obtain rfl := Option.some.inj (hb.symm.trans hc)
        exact ⟨_, List.getElem?_set_self hi, hname⟩
      · exact ⟨c, (List.getElem?_set_ne hne).trans hc, rfl⟩
  have hlength : (b'.threads ++ [t]).length = b.threads.length + 1 := by
    rw [List.length_append, hthreads]
    rfl
  constructor
  · obtain ⟨storedBoards, hgrowing', hstored'⟩ := h.boardTable
    exact ⟨storedBoards, hgrowing', fun name j => (hstored' name j).trans (hboardAt name j).symm⟩
  · refine ⟨_, hgrown, fun name v => ?_⟩
    have hkeep := threadAt_keep { b' with threads := b'.threads ++ [t] } hb
      (congrArg (· ++ [t]) hthreads) hroom name v
    rw [hkeep]
    rcases eq_or_ne name t.name with rfl | hne
    · rw [Function.update_self, Option.some.injEq]
      have hno : ¬ ThreadAt s.boards t.name v := by
        intro hcon
        have hv := (hstored t.name v).mpr hcon
        rw [habsent] at hv
        cases hv
      exact ⟨fun heq => .inr ⟨heq.symm, rfl⟩, fun hor => (hor.resolve_left hno).1.symm⟩
    · rw [Function.update_of_ne hne, hstored]
      exact ⟨.inl, fun hor => hor.resolve_right fun hcon => hne hcon.2.symm⟩
  · intro j k c c' hc hc' hhash
    obtain ⟨c₀, hc₀, hname₀, -⟩ := hset j c hc
    obtain ⟨c₀', hc₀', hname₀', -⟩ := hset k c' hc'
    rw [← hname₀, ← hname₀'] at hhash
    exact h.hashes j k c₀ c₀' hc₀ hc₀' hhash
  · show (s.boards.set i _).length < MAX_BOARDS
    rw [List.length_set]
    exact h.few
  · intro c hc
    obtain ⟨j, hj⟩ := List.getElem?_of_mem hc
    obtain ⟨c₀, hc₀, -, hmax₀, hc₀'⟩ := hset j c hj
    obtain ⟨hmaximal, hfits⟩ := h.size c₀ (List.mem_of_getElem? hc₀)
    refine ⟨hmax₀ ▸ hmaximal, ?_⟩
    rcases hc₀' with rfl | ⟨-, rfl⟩
    · exact hfits
    · exact hlength.trans_le hroom
  · intro j c hc hopened
    obtain ⟨c₀, hc₀, -, -, hcase⟩ := hset j c hc
    rcases hcase with rfl | ⟨rfl, rfl⟩
    · exact h.numbered j c hc₀ hopened
    · exact hnumbered hopened
  · intro boardID name entries ho
    obtain ⟨hat, hentries⟩ := h.opened boardID name entries ho
    exact ⟨(hboardAt name boardID).mpr hat, hentries⟩
  · exact h.loading

/-! The start. -/

theorem restart (listing : List (List UInt8 × List (List UInt8)))
    (hlisting : ∀ l ∈ listing, ∀ n ∈ l.2, n.length < MAX_STRING_SIZE) :
    Inv (s.restart listing) where
  boardTable := (inv_initial s.dirs).boardTable
  threadTable := (inv_initial s.dirs).threadTable
  hashes := (inv_initial s.dirs).hashes
  few := (inv_initial s.dirs).few
  size := (inv_initial s.dirs).size
  numbered _ _ hb := (by cases hb)
  opened _ _ _ ho := (by cases ho)
  loading := hlisting

theorem addBoard (h : Inv s) {heap : Heap} (hclosed : s.opened = none) (hkey : heap.key = true)
    (hentries : heap.entries = true)
    (hfresh : ∀ l ∈ s.loading.head?, ∀ b ∈ s.boards, hashFunction b.name ≠ hashFunction l.1) :
    ∃ s', s.addBoard heap = some s' ∧ Inv s' := by
  unfold Site.addBoard
  cases hloading : s.loading with
  | nil => exact ⟨s, rfl, h⟩
  | cons l loading =>
    obtain ⟨name, entries⟩ := l
    rw [hloading] at hfresh
    have hrest : ∀ l ∈ loading, ∀ n ∈ l.2, n.length < MAX_STRING_SIZE := fun l hl =>
      h.loading l (hloading ▸ List.mem_cons_of_mem _ hl)
    have hnames : ∀ n ∈ entries, n.length < MAX_STRING_SIZE :=
      h.loading (name, entries) (hloading ▸ List.mem_cons_self ..)
    dsimp only
    split_ifs with hfull
    · exact ⟨_, rfl, { h with
        numbered := h.numbered, opened := h.opened, loading := hrest }⟩
    obtain ⟨stored, hgrowing, hstored⟩ := h.boardTable
    have habsent : stored name = none := by
      cases hi : stored name with
      | none => rfl
      | some i =>
        obtain ⟨b, hb, heq⟩ := (hstored name i).mp hi
        exact absurd (congrArg hashFunction heq)
          (hfresh (name, entries) rfl b (List.mem_of_getElem? hb))
    obtain ⟨hm, hadd, hgrown⟩ :=
      hgrowing.addULong habsent s.boards.length hkey hentries h.board_entries
    rw [hadd]
    refine ⟨_, rfl, ?_⟩
    constructor
    · refine ⟨_, hgrown, fun name' i => ?_⟩
      rw [boardAt_append]
      rcases eq_or_ne name' name with rfl | hne
      · rw [Function.update_self, Option.some.injEq]
        have hno : ¬ BoardAt s.boards name' i := by
          intro hcon
          have hi := (hstored name' i).mpr hcon
          rw [habsent] at hi
          cases hi
        exact ⟨fun heq => .inr ⟨heq.symm, rfl⟩, fun hor => (hor.resolve_left hno).1.symm⟩
      · rw [Function.update_of_ne hne, hstored]
        exact ⟨.inl, fun hor => hor.resolve_right fun hcon => hne hcon.2.symm⟩
    · obtain ⟨storedThreads, hgrowing', hstored'⟩ := h.threadTable
      refine ⟨storedThreads, hgrowing', fun name' v => (hstored' name' v).trans ?_⟩
      constructor
      · rintro ⟨b, t, hb, ht, hname⟩
        exact ⟨b, t, getElem?_append_one.mpr (.inl hb), ht, hname⟩
      · rintro ⟨b, t, hb, ht, hname⟩
        rcases getElem?_append_one.mp hb with hb | ⟨-, rfl⟩
        · exact ⟨b, t, hb, ht, hname⟩
        · cases ht
    · intro i j b b' hb hb' hhash
      rcases getElem?_append_one.mp hb with hb | ⟨rfl, rfl⟩
      · rcases getElem?_append_one.mp hb' with hb' | ⟨rfl, rfl⟩
        · exact h.hashes i j b b' hb hb' hhash
        · exact absurd hhash (hfresh (name, entries) rfl b (List.mem_of_getElem? hb))
      · rcases getElem?_append_one.mp hb' with hb' | ⟨rfl, rfl⟩
        · exact absurd hhash.symm (hfresh (name, entries) rfl b' (List.mem_of_getElem? hb'))
        · rfl
    · show (s.boards ++ [_]).length < MAX_BOARDS
      rw [List.length_append]
      exact Nat.lt_of_not_le hfull
    · intro b hb
      rcases List.mem_append.mp hb with hb | hb
      · exact h.size b hb
      · rw [List.mem_singleton.mp hb]
        exact ⟨rfl, Nat.zero_le _⟩
    · intro i b hb hopened
      rcases getElem?_append_one.mp hb with hb | ⟨rfl, rfl⟩
      · exact h.numbered i b hb fun o ho => (by rw [hclosed] at ho; cases ho)
      · exact absurd rfl (hopened _ rfl)
    · intro boardID name' entries' ho
      obtain ⟨rfl, hpair⟩ := Prod.mk.inj (Option.some.inj ho)
      obtain ⟨rfl, rfl⟩ := Prod.mk.inj hpair
      exact ⟨(boardAt_append _ _ _).mpr (.inr ⟨rfl, rfl⟩), hnames⟩
    · exact hrest

theorem boardAt_unique (h : Inv s) {name : List UInt8} {i j : ℕ} (hi : BoardAt s.boards name i)
    (hj : BoardAt s.boards name j) : i = j := by
  obtain ⟨b, hb, rfl⟩ := hi
  obtain ⟨b', hb', hname⟩ := hj
  exact h.hashes i j b b' hb hb' (congrArg hashFunction hname.symm)

theorem boardIndex_get (h : Inv s) {i : ℕ} {b : Board} (hb : s.boards[i]? = some b) :
    ∃ hm, s.boardIndex qsort bsearch b.name = (some i, { s with boardHashMap := hm }) ∧
      Inv { s with boardHashMap := hm } := by
  obtain ⟨hm, hsnd, hinv⟩ := @boardIndex_snd qsort bsearch s h b.name
  have hfst := (@boardIndex_fst qsort bsearch s b.name h (h.clearBoard hb) i).mpr ⟨b, hb, rfl⟩
  exact ⟨hm, Prod.ext hfst hsnd, hinv⟩

theorem addThread (h : Inv s) (loadHeap : LoadHeap) {heap : Heap}
    (hcalm : Calm s (.addThread loadHeap heap)) :
    ∃ s', s.addThread qsort bsearch loadHeap heap = some s' ∧ Inv s' := by
  unfold Site.addThread
  cases hopened : s.opened with
  | none => exact ⟨s, rfl, h⟩
  | some o =>
    obtain ⟨boardID, name, entries⟩ := o
    cases entries with
    | nil => exact ⟨s, rfl, h⟩
    | cons threadName entries =>
      obtain ⟨⟨b, hb, rfl⟩, hnames⟩ := h.opened _ _ _ hopened
      have hnext : Inv { s with opened := some (boardID, b.name, entries) } := by
        refine h.reshape rfl rfl rfl rfl ?_ ?_
        · intro boardID' name' entries' ho
          obtain ⟨rfl, hpair⟩ := Prod.mk.inj (Option.some.inj ho)
          obtain ⟨rfl, rfl⟩ := Prod.mk.inj hpair
          exact ⟨_, hopened, List.subset_cons_self ..⟩
        · intro i b' hb' hother
          refine h.numbered i b' hb' fun o ho => ?_
          rw [hopened] at ho
          obtain rfl := Option.some.inj ho
          exact hother (boardID, b.name, entries) rfl
      dsimp only
      split_ifs with hini
      · exact ⟨_, rfl, hnext⟩
      unfold addThreadToBoard
      obtain ⟨hm, hindex, hinv⟩ := @boardIndex_get qsort bsearch _ hnext boardID b hb
      rw [hindex]
      dsimp only
      rw [hb]
      dsimp only
      obtain ⟨hmax, -⟩ := h.size b (List.mem_of_getElem? hb)
      split_ifs with hfull
      · exact ⟨_, rfl, hinv⟩
      cases hload : loadThread loadHeap threadName (s.dirs b.name threadName) with
      | none => exact ⟨_, rfl, hinv⟩
      | some t =>
        obtain ⟨hname, d, hd, hstatus⟩ := loadThread_name hload
        rw [stored_of_lt (hnames threadName (List.mem_cons_self ..))] at hname
        obtain ⟨hkey, hentries, hfresh⟩ :=
          hcalm boardID b.name threadName entries hopened ⟨d, hd, hstatus⟩
        obtain ⟨s', hkeep, hinv', -⟩ := hinv.keepThread b (t := t) hb rfl rfl rfl
          (hmax ▸ Nat.lt_of_not_le hfull) (hname ▸ hfresh) heap hkey hentries
          fun hother => absurd rfl (hother _ rfl)
        rw [hname] at hkeep
        exact ⟨s', hkeep, hinv'⟩

theorem map_outline_modify {boards : List Board} {i : ℕ} {f : Board → Board}
    (hf : ∀ b, boards[i]? = some b → (f b).outline = b.outline) :
    (boards.modify i f).map Board.outline = boards.map Board.outline := by
  apply List.ext_getElem?
  intro j
  rw [List.getElem?_map, List.getElem?_map, List.getElem?_modify]
  cases hb : boards[j]? with
  | none => rfl
  | some b =>
    rw [Option.map_eq_map, Option.map_some, Option.map_some, Option.map_some]
    split_ifs with hij
    · rw [hf b (hij ▸ hb)]
    · rfl

theorem endBoard (h : Inv s) (hcalm : Calm s .endBoard) : Inv s.endBoard := by
  unfold Site.endBoard
  cases hopened : s.opened with
  | none => exact h
  | some o =>
    obtain ⟨boardID, name, entries⟩ := o
    cases entries with
    | cons _ _ => exact h
    | nil =>
      refine h.reshape (map_outline_modify fun _ _ => rfl) rfl rfl rfl
        (fun _ _ _ ho => (by cases ho)) ?_
      intro i b hb _
      rw [List.getElem?_modify] at hb
      obtain ⟨b₀, hb₀, rfl⟩ := Option.map_eq_some_iff.mp hb
      split_ifs with hi
      · subst hi
        refine ⟨rfl, fun hroom uid hlt => ?_⟩
        obtain ⟨hmax, -⟩ := h.size b₀ (List.mem_of_getElem? hb₀)
        obtain ⟨⟨b₁, hb₁, hname⟩, -⟩ := h.opened _ _ _ hopened
        obtain rfl := Option.some.inj (hb₀.symm.trans hb₁)
        have hnone := hcalm boardID name b₀ hopened hb₀ (hmax ▸ hroom) uid hlt
        rw [← hname] at hnone
        exact hnone
      · refine h.numbered i b₀ hb₀ fun o ho => ?_
        rw [hopened] at ho
        obtain rfl := Option.some.inj ho
        exact hi

/-! The visitors. -/

theorem createThread (h : Inv s) (hclosed : s.opened = none) {title : List UInt8}
    {newPost : NewPost} {c : Creating} (hcalm : Calm s (.create boardName title newPost c)) :
    ∃ answer, s.createThread qsort bsearch boardName title newPost c = some answer ∧
      Inv answer.2 := by
  obtain ⟨hclear, hcalm⟩ := hcalm
  obtain ⟨hm, hsnd, hinv⟩ := @boardIndex_snd qsort bsearch s h boardName
  have hfst := @boardIndex_fst qsort bsearch s boardName h hclear
  unfold Site.createThread
  generalize s.boardIndex qsort bsearch boardName = answer at *
  obtain ⟨found, s₁⟩ := answer
  obtain rfl : s₁ = { s with boardHashMap := hm } := hsnd
  cases found with
  | none => exact ⟨_, rfl, hinv⟩
  | some boardID =>
    obtain ⟨b, hb, rfl⟩ := (hfst boardID).mp rfl
    dsimp only
    rw [hb]
    dsimp only
    obtain ⟨hmax, -⟩ := h.size b (List.mem_of_getElem? hb)
    split_ifs with hfull hdir hmalloc
    · exact ⟨_, rfl, hinv⟩
    · exact ⟨_, rfl, hinv⟩
    · obtain ⟨hmalloc', -⟩ := hcalm b (List.mem_of_getElem? hb) rfl (Nat.lt_of_not_le hfull)
        (by simpa using fun hmkdir => hdir (.inl hmkdir))
      rw [hmalloc'] at hmalloc
      cases hmalloc
    have hmkdir : c.mkdir = true := by
      cases hc : c.mkdir with
      | true => rfl
      | false => exact absurd (Or.inl (by rw [hc]; rfl)) hdir
    obtain ⟨-, hkey, hentries, hfresh⟩ :=
      hcalm b (List.mem_of_getElem? hb) rfl (Nat.lt_of_not_le hfull) hmkdir
    have hroom : b.threads.length < MAX_THREADS_PER_BOARD := hmax ▸ Nat.lt_of_not_le hfull
    obtain ⟨huid, hnone⟩ := h.numbered boardID b hb fun o ho => (by rw [hclosed] at ho; cases ho)
    obtain ⟨t, d, hstore, hname⟩ := storeThread_isSome (threadNameOf b.threadUID) title newPost
      c.writes c.now c.later c.last
    rw [stored_threadNameOf (huid ▸ hroom)] at hname
    rw [hstore]
    have hnumbered : Numbered s.dirs
        { b with threadUID := b.threadUID + 1, threads := b.threads ++ [t] } := by
      have hlength : (b.threads ++ [t]).length = b.threads.length + 1 := by
        rw [List.length_append]
        rfl
      refine ⟨?_, fun _ uid hlt => hnone hroom uid ?_⟩
      · show b.threadUID + 1 = (b.threads ++ [t]).length + 1
        rw [hlength, huid]
      · have hlonger : (b.threads ++ [t]).length < uid := hlt
        rw [hlength] at hlonger
        exact Nat.lt_of_succ_lt hlonger
    obtain ⟨s', hkeep, hinv', -, hboards⟩ := hinv.keepThread
      { b with threadUID := b.threadUID + 1 } (t := t) hb rfl rfl rfl hroom
      (hname ▸ hfresh) c.heap hkey hentries fun _ => hnumbered
    rw [hname] at hkeep
    -- the directory is made before the thread has its slot
    have hlater : ∀ (s : Site) d, (s.setDir b.name (threadNameOf b.threadUID) d).keepThread boardID
        { b with threadUID := b.threadUID + 1 } (threadNameOf b.threadUID) t c.heap =
          (s.keepThread boardID { b with threadUID := b.threadUID + 1 } (threadNameOf b.threadUID) t
            c.heap).map fun s => s.setDir b.name (threadNameOf b.threadUID) d := by
      intro s d
      unfold Site.keepThread
      have hmap : (s.setDir b.name (threadNameOf b.threadUID) d).threadHashMap = s.threadHashMap :=
        rfl
      rw [hmap]
      cases hashMapAddULong s.threadHashMap (threadNameOf b.threadUID)
        (boardID * MAX_THREADS_PER_BOARD + b.threads.length) c.heap <;> rfl
    have hbelow : ∀ c ∈ s'.boards, c.name = b.name → ∀ uid, c.threads.length < uid →
        threadNameOf uid ≠ threadNameOf b.threadUID := by
      intro c hc hcname uid hlt heq
      obtain ⟨j, hj⟩ := List.getElem?_of_mem hc
      obtain rfl := threadNameOf_injective heq
      have hi := (List.getElem?_eq_some_iff.mp hb).1
      have hsame : boardID = j := by
        have hat : BoardAt s'.boards b.name boardID := by
          rw [hboards]
          exact ⟨{ b with threadUID := b.threadUID + 1, threads := b.threads ++ [t] },
            List.getElem?_set_self hi, rfl⟩
        exact hinv'.boardAt_unique hat ⟨c, hj, hcname⟩
      rw [hboards, ← hsame, List.getElem?_set_self hi] at hj
      obtain rfl := Option.some.inj hj
      rw [huid] at hlt
      exact absurd hlt (by rw [List.length_append]; exact Nat.lt_irrefl _)
    dsimp only
    rw [hlater, hlater, hkeep]
    refine ⟨_, rfl, ?_⟩
    exact (hinv'.setDir b.name _ fun _ => .inr hbelow).setDir b.name _ fun _ => .inr hbelow

/-! What a visitor names is looked for. -/

theorem findThread_snd (h : Inv s) (boardName threadName : List UInt8) :
    ∃ hm hm', (s.findThread qsort bsearch boardName threadName).2 =
        { s with boardHashMap := hm, threadHashMap := hm' } ∧
      Inv { s with boardHashMap := hm, threadHashMap := hm' } := by
  obtain ⟨hm, hboard, hinv⟩ := @boardIndex_snd qsort bsearch s h boardName
  obtain ⟨hm', hthread, hinv'⟩ := @threadEncoded_snd qsort bsearch _ hinv threadName
  unfold findThread
  generalize s.boardIndex qsort bsearch boardName = answer at *
  obtain ⟨found, s₁⟩ := answer
  obtain rfl : s₁ = { s with boardHashMap := hm } := hboard
  cases found with
  | none => exact ⟨hm, s.threadHashMap, rfl, hinv⟩
  | some boardIndex =>
    refine ⟨hm, hm', ?_, hinv'⟩
    dsimp only
    generalize threadEncoded qsort bsearch { s with boardHashMap := hm } threadName = answer at *
    obtain ⟨found, s₂⟩ := answer
    obtain rfl : s₂ = { s with boardHashMap := hm, threadHashMap := hm' } := hthread
    cases found with
    | none => rfl
    | some encoded =>
      dsimp only
      split_ifs with hboard
      · cases (s.boards[boardIndex]?).bind (·.threads[encoded % MAX_THREADS_PER_BOARD]?) with
        | none => rfl
        | some t =>
          dsimp only
          split_ifs
          all_goals rfl
      · rfl

theorem findThread_slot {i j : ℕ} {t : Thread}
    (hfound : (s.findThread qsort bsearch boardName threadName).1 = some (i, j, t)) :
    (s.boardIndex qsort bsearch boardName).1 = some i ∧
      ((s.boardIndex qsort bsearch boardName).2.threadEncoded qsort bsearch threadName).1 =
        some (i * MAX_THREADS_PER_BOARD + j) ∧ t.deleted = 0 ∧
      ∃ b, ((s.boardIndex qsort bsearch boardName).2.threadEncoded qsort bsearch
        threadName).2.boards[i]? = some b ∧ b.threads[j]? = some t := by
  unfold findThread at hfound
  generalize s.boardIndex qsort bsearch boardName = answer at *
  obtain ⟨found, s₁⟩ := answer
  cases found with
  | none => cases hfound
  | some boardIndex =>
    dsimp only at hfound ⊢
    generalize threadEncoded qsort bsearch s₁ threadName = answer at *
    obtain ⟨found, s₂⟩ := answer
    cases found with
    | none => cases hfound
    | some encoded =>
      dsimp only at hfound ⊢
      split_ifs at hfound with hboard
      · cases hslot : (s₂.boards[boardIndex]?).bind
          (·.threads[encoded % MAX_THREADS_PER_BOARD]?) with
        | none =>
          rw [hslot] at hfound
          cases hfound
        | some t' =>
          rw [hslot] at hfound
          dsimp only at hfound
          split_ifs at hfound with hdeleted
          obtain ⟨rfl, hpair⟩ := Prod.mk.inj (Option.some.inj hfound)
          obtain ⟨rfl, rfl⟩ := Prod.mk.inj hpair
          obtain ⟨b, hb, ht⟩ := Option.bind_eq_some_iff.mp hslot
          exact ⟨rfl, congrArg some (hboard ▸ (encoded_eq encoded).symm), hdeleted, b, hb, ht⟩

theorem findThread_get (h : Inv s) {i j : ℕ} {t : Thread}
    (hfound : (s.findThread qsort bsearch boardName threadName).1 = some (i, j, t)) :
    ∃ b, s.boards[i]? = some b ∧ b.threads[j]? = some t := by
  obtain ⟨-, -, -, b, hb, ht⟩ := findThread_slot hfound
  obtain ⟨hm, hboard, hinv⟩ := @boardIndex_snd qsort bsearch s h boardName
  obtain ⟨hm', hthread, -⟩ := @threadEncoded_snd qsort bsearch _ hinv threadName
  rw [hboard, hthread] at hb
  exact ⟨b, hb, ht⟩

theorem findThread_iff (h : Inv s) (hclear : s.Clear boardName threadName) {i j : ℕ} {b : Board}
    {t : Thread} (hb : s.boards[i]? = some b) (ht : b.threads[j]? = some t) (hlive : t.deleted = 0) :
    (s.findThread qsort bsearch boardName threadName).1 = some (i, j, t) ↔
      boardName = b.name ∧ threadName = t.name := by
  obtain ⟨hm, hboard, hinv⟩ := @boardIndex_snd qsort bsearch s h boardName
  have hindex := @boardIndex_fst qsort bsearch s boardName h hclear.1
  have hj : j < MAX_THREADS_PER_BOARD :=
    (List.getElem?_eq_some_iff.mp ht).1.trans_le (h.size b (List.mem_of_getElem? hb)).2
  obtain ⟨hdiv, hmod⟩ := @encoded_div i j hj
  have hencoded := @threadEncoded_fst qsort bsearch _ threadName hinv hclear.2
  constructor
  · intro hfound
    obtain ⟨hi, hv, -, -⟩ := findThread_slot hfound
    rw [hboard] at hv
    obtain ⟨b', hb', hname⟩ := (hindex i).mp hi
    obtain ⟨b'', t', hb'', ht', hname'⟩ := (hencoded _).mp hv
    rw [hdiv] at hb''
    rw [hmod] at ht'
    obtain rfl := Option.some.inj (hb.symm.trans hb')
    obtain rfl := Option.some.inj (hb.symm.trans hb'')
    obtain rfl := Option.some.inj (ht.symm.trans ht')
    exact ⟨hname.symm, hname'.symm⟩
  · rintro ⟨rfl, rfl⟩
    have hi := (hindex i).mpr ⟨b, hb, rfl⟩
    have hv := (hencoded _).mpr (ThreadAt.get hb ht hj)
    obtain ⟨hm', hthread, -⟩ := @threadEncoded_snd qsort bsearch _ hinv t.name
    unfold findThread
    rw [show s.boardIndex qsort bsearch b.name = (some i, { s with boardHashMap := hm }) from
      Prod.ext hi hboard]
    dsimp only
    rw [show threadEncoded qsort bsearch { s with boardHashMap := hm } t.name =
      (some (i * MAX_THREADS_PER_BOARD + j),
        { s with boardHashMap := hm, threadHashMap := hm' }) from Prod.ext hv hthread]
    dsimp only
    rw [if_pos hdiv, hb, Option.bind_some, hmod, ht]
    dsimp only
    rw [if_pos hlive]

theorem changeThread (h : Inv s) (boardName threadName : List UInt8)
    {change : Thread → Dir → Option (Thread × Dir)}
    (hchange : ∀ t d t' d', change t d = some (t', d') → t'.name = t.name) :
    Inv (s.changeThread qsort bsearch boardName threadName change) := by
  obtain ⟨hm, hm', hsnd, hinv⟩ := @findThread_snd qsort bsearch s h boardName threadName
  have hget := fun i j t => @findThread_get qsort bsearch s boardName threadName h i j t
  unfold Site.changeThread
  generalize s.findThread qsort bsearch boardName threadName = answer at *
  obtain ⟨found, s₁⟩ := answer
  obtain rfl : s₁ = { s with boardHashMap := hm, threadHashMap := hm' } := hsnd
  cases found with
  | none => exact hinv
  | some slot =>
    obtain ⟨i, j, t⟩ := slot
    obtain ⟨b, hb, ht⟩ := hget i j t rfl
    dsimp only
    cases hchanged : change t ((s.dirs boardName t.name).getD .empty) with
    | none => exact hinv
    | some td =>
      obtain ⟨t', d⟩ := td
      have hnames : (b.threads.set j t').map Thread.name = b.threads.map Thread.name := by
        obtain ⟨hj, rfl⟩ := List.getElem?_eq_some_iff.mp ht
        rw [List.map_set, hchange _ _ _ _ hchanged, ← List.map_set,
          List.set_getElem_self]
      have hdir := hinv.setDir boardName t.name
        (d := (s.dirs boardName t.name).map fun _ => d)
        fun hsome => .inl (Option.isSome_map.symm.trans hsome)
      refine hdir.reshape (map_outline_modify ?_) rfl rfl rfl
        (fun _ _ entries ho => ⟨entries, ho, fun _ hn => hn⟩) ?_
      · intro b' hb'
        obtain rfl := Option.some.inj (hb.symm.trans hb')
        exact congrArg (fun names => (b.name, b.maxThreads, names)) hnames
      · intro k b' hb' hopened
        rw [List.getElem?_modify] at hb'
        obtain ⟨b₀, hb₀, rfl⟩ := Option.map_eq_some_iff.mp hb'
        have hbefore := hdir.numbered k b₀ hb₀ hopened
        split_ifs with hk
        · unfold Numbered at hbefore ⊢
          dsimp only
          rw [List.length_set]
          exact hbefore
        · exact hbefore

/-! Whole runs. -/

theorem act (h : Inv s) {e : Event} (hordered : Ordered s e) (hcalm : Calm s e) :
    ∃ s', s.act qsort bsearch e = some s' ∧ Inv s' := by
  cases e with
  | restart listing =>
    exact ⟨_, rfl, Inv.restart listing fun l hl n hn => (hordered.2 l hl).2.2 n hn |>.2⟩
  | addBoard heap =>
    obtain ⟨hkey, hentries, hfresh⟩ := hcalm
    unfold Site.act
    cases hclosed : s.opened with
    | none => exact h.addBoard hclosed hkey hentries hfresh
    | some o => exact ⟨s, rfl, h⟩
  | addThread loadHeap heap => exact h.addThread loadHeap hcalm
  | endBoard => exact ⟨_, rfl, h.endBoard hcalm⟩
  | create boardName title newPost c =>
    obtain ⟨answer, hcreate, hinv⟩ := @createThread qsort bsearch s boardName h hordered.2 title
      newPost c hcalm
    exact ⟨_, congrArg (Option.map Prod.snd) hcreate, hinv⟩
  | view boardName threadName =>
    obtain ⟨hm, hm', hsnd, hinv⟩ := @findThread_snd qsort bsearch s h boardName threadName
    exact ⟨_, rfl, hsnd ▸ hinv⟩
  | deletePost boardName threadName postIndex password writes =>
    refine ⟨_, rfl, h.changeThread boardName threadName fun t d t' d' hdelete => ?_⟩
    split_ifs at hdelete
    · exact deleteThread_name hdelete
    · exact deleteReply_name hdelete
  | reply boardName threadName newPost writes now later =>
    exact ⟨_, rfl, h.changeThread boardName threadName fun _ _ _ _ hadd =>
      addPostToThread_name hadd⟩

theorem creates (h : Inv s) (hloaded : s.Loaded) {b : Board} (hb : b ∈ s.boards)
    (hroom : b.threads.length < b.maxThreads) (title : List UInt8) (newPost : NewPost)
    {c : Creating} (hmkdir : c.mkdir = true) (hmalloc : c.malloc = true)
    (hentries : c.heap.entries = true) :
    ∃ threadName s', s.createThread qsort bsearch b.name title newPost c =
      some (some threadName, s') := by
  obtain ⟨i, hi⟩ := List.getElem?_of_mem hb
  obtain ⟨hm, hindex, hinv⟩ := @boardIndex_get qsort bsearch s h i b hi
  obtain ⟨huid, hnone⟩ := h.numbered i b hi fun o ho => (by rw [hloaded.2] at ho; cases ho)
  have hfree := hnone ((h.size b hb).1 ▸ hroom) b.threadUID (huid ▸ Nat.lt_succ_self _)
  obtain ⟨t, d, hstore, -⟩ := storeThread_isSome (threadNameOf b.threadUID) title newPost
    c.writes c.now c.later c.last
  obtain ⟨stored, hgrowing, -⟩ := h.threadTable
  obtain ⟨⟨added, hm'⟩, hadd⟩ := hgrowing.addULong_isOk (threadNameOf b.threadUID)
    (i * MAX_THREADS_PER_BOARD + b.threads.length) hentries h.thread_entries
  have hnew : ¬ ((!c.mkdir) = true ∨ (s.dirs b.name (threadNameOf b.threadUID)).isSome = true) := by
    rw [hmkdir, hfree]
    rintro (hcon | hcon) <;> cases hcon
  have hmemory : ¬ (!c.malloc) = true := by
    rw [hmalloc]
    exact Bool.false_ne_true
  unfold Site.createThread
  rw [hindex]
  dsimp only
  rw [hi]
  dsimp only
  rw [if_neg (Nat.not_le.mpr hroom), if_neg hnew, if_neg hmemory, hstore]
  unfold Site.keepThread Site.setDir
  dsimp only
  rw [hadd]
  exact ⟨_, _, rfl⟩

theorem addressed (h : Inv s) : Addressed qsort bsearch s s.Clear where
  unique := by
    intro b hb
    obtain ⟨stored, -, hstored⟩ := h.threadTable
    obtain ⟨i, hi⟩ := List.getElem?_of_mem hb
    rw [List.nodup_iff_injective_get]
    intro j k hjk
    have hslot : ∀ j : Fin (b.threads.map Thread.name).length,
        stored ((b.threads.map Thread.name).get j) = some (i * MAX_THREADS_PER_BOARD + j) := by
      intro j
      have hj : j < b.threads.length := j.2.trans_eq (List.length_map _)
      have hat := ThreadAt.get hi (List.getElem?_eq_getElem hj) (hj.trans_le (h.size b hb).2)
      rw [List.get_eq_getElem, List.getElem_map]
      exact (hstored _ _).mpr hat
    have heq := (hslot j).symm.trans ((congrArg stored hjk).trans (hslot k))
    exact Fin.ext (Nat.add_left_cancel (Option.some.inj heq))
  recorded := by
    intro e he
    obtain ⟨stored, hgrowing, hstored⟩ := h.threadTable
    exact (hstored e.key e.payload).mp ((hgrowing.represents.stored_iff _ _).mpr ⟨e, he, rfl, rfl⟩)
  found _ _ _ _ hb ht hlive _ _ hclear := h.findThread_iff hclear hb ht hlive
  creates hloaded _ hb hroom title newPost _ hmkdir hmalloc hentries :=
    h.creates hloaded hb hroom title newPost hmkdir hmalloc hentries

end Inv

theorem reaches_inv {dirs : List UInt8 → List UInt8 → Option Dir} {state : Option Site}
    (h : Reaches (step qsort bsearch) Meets (some (initial dirs)) state) :
    ∃ s, state = some s ∧ Inv s := by
  induction h with
  | start => exact ⟨_, rfl, inv_initial dirs⟩
  | step e _ hmeets ih =>
    obtain ⟨s, rfl, hinv⟩ := ih
    obtain ⟨hordered, hcalm⟩ := hmeets s rfl
    exact hinv.act hordered hcalm

/-- As long as hashes tell the boards apart, no two boards have a thread of one name, the directories
of a board are numbered like its threads and each new one gets its thread. -/
theorem threads_addressed (qsort : Qsort HashMapEntry.keyHash) (bsearch : Bsearch HashMapEntry.keyHash)
    (dirs : List UInt8 → List UInt8 → Option Dir) {state : Option Site}
    (h : Reaches (step qsort bsearch) Meets (some (initial dirs)) state) :
    ∃ s, state = some s ∧ Addressed qsort bsearch s s.Clear := by
  obtain ⟨s, rfl, hinv⟩ := reaches_inv h
  exact ⟨s, rfl, hinv.addressed⟩

/-! A site starts with empty boards, and threads are created. -/

def first (boardName : String) : Event :=
  .create (ascii boardName) (ascii "Hi")
    ⟨ascii "Anonymous", ascii "secret", ascii "Hello", none⟩
    ⟨true, true, ⟨true, true, none⟩, ⟨true, true, true, true⟩, .zero, .zero, .zero⟩

def empty (boardNames : List String) : Event :=
  .restart (boardNames.map fun boardName => (ascii boardName, []))

def add : Event := .addBoard ⟨true, true, none⟩

def run (events : List Event) : Option Site :=
  events.foldl (step .insertion .halving) (some (initial fun _ _ => none))

theorem ordered_empty {boardNames : List String} (h : (boardNames.map ascii).Nodup) :
    Ordered (initial fun _ _ => none) (empty boardNames) := by
  refine ⟨?_, ?_⟩
  · show ((boardNames.map fun boardName => (ascii boardName, ([] : List (List UInt8)))).map
      Prod.fst).Nodup
    rw [List.map_map]
    exact h
  · intro l hl
    obtain ⟨boardName, -, rfl⟩ := List.mem_map.mp hl
    exact ⟨List.nodup_nil, fun _ hsome => (by cases hsome), fun _ hn => (by cases hn)⟩

theorem first_addressed : ∃ s, run [empty ["a"], add, .endBoard, first "a"] = some s ∧
    Addressed .insertion .halving s s.Clear := by
  have hstart : Meets (run []) (empty ["a"]) := by
    intro s hs
    obtain rfl := Option.some.inj hs
    exact ⟨ordered_empty (by decide), trivial⟩
  have hadd : Meets (run [empty ["a"]]) add := by
    intro s hs
    obtain rfl := Option.some.inj hs
    exact ⟨trivial, rfl, rfl, fun _ _ _ hb => (by cases hb)⟩
  have hend : Meets (run [empty ["a"], add]) .endBoard := by
    intro s hs
    obtain rfl := Option.some.inj hs
    exact ⟨trivial, fun _ _ _ _ _ _ _ _ => rfl⟩
  have hcreate : Meets (run [empty ["a"], add, .endBoard]) (first "a") := by
    intro s hs
    obtain rfl := Option.some.inj hs
    refine ⟨⟨rfl, rfl⟩, fun b hb _ => ?_, fun b hb _ _ _ => ⟨rfl, rfl, rfl, fun c hc t ht => ?_⟩⟩
    · rw [List.mem_singleton.mp hb]
    · rw [List.mem_singleton.mp hc] at ht
      cases ht
  exact threads_addressed .insertion .halving _
    (Reaches.start.allowed [empty ["a"], add, .endBoard, first "a"]
      ⟨hstart, hadd, hend, hcreate, trivial⟩)

/-- The first threads of two boards. -/
theorem second_hidden :
    ¬ ∀ qsort bsearch dirs state,
      Reaches (step qsort bsearch) Starts (some (initial dirs)) state →
        ∃ s, state = some s ∧ Addressed qsort bsearch s fun _ _ => True := by
  intro hall
  have hstart : Starts (run []) (empty ["a", "b"]) := by
    intro s hs
    obtain rfl := Option.some.inj hs
    exact ordered_empty (by decide)
  have hfirst : Starts (run [empty ["a", "b"], add, .endBoard, add, .endBoard]) (first "a") := by
    intro s hs
    obtain rfl := Option.some.inj hs
    exact ⟨rfl, rfl⟩
  have hloaded : (run [empty ["a", "b"], add, .endBoard, add, .endBoard, first "a"]).all
      (fun s => s.loading.isEmpty ∧ s.opened.isNone) = true := by
    decide
  have hsecond : Starts (run [empty ["a", "b"], add, .endBoard, add, .endBoard, first "a"])
      (first "b") := by
    intro s hs
    rw [hs, Option.all_some, decide_eq_true_eq] at hloaded
    exact ⟨List.isEmpty_iff.mp hloaded.1, Option.isNone_iff_eq_none.mp hloaded.2⟩
  obtain ⟨s, hs, haddressed⟩ := hall .insertion .halving _ _
    (Reaches.start.allowed [empty ["a", "b"], add, .endBoard, add, .endBoard, first "a", first "b"]
      ⟨hstart, fun _ _ => trivial, fun _ _ => trivial, fun _ _ => trivial, fun _ _ => trivial,
        hfirst, hsecond, trivial⟩)
  have hhidden : (run [empty ["a", "b"], add, .endBoard, add, .endBoard, first "a", first "b"]).all
      (fun s => (s.boards[1]?).any (fun b => b.name = ascii "b" ∧ (b.threads[0]?).any
        fun t => t.name = ascii "000000001" ∧ t.deleted = 0) ∧
        (s.findThread .insertion .halving (ascii "b") (ascii "000000001")).1 = none) = true := by
    decide
  rw [show run [empty ["a", "b"], add, .endBoard, add, .endBoard, first "a", first "b"] = some s
    from hs, Option.all_some, decide_eq_true_eq] at hhidden
  obtain ⟨hslot, hnone⟩ := hhidden
  obtain ⟨b, hb, hboard⟩ := (Option.any_eq_true _ _).mp hslot
  obtain ⟨hname, hthread⟩ := of_decide_eq_true hboard
  obtain ⟨t, ht, hlive⟩ := (Option.any_eq_true _ _).mp hthread
  obtain ⟨htname, hdeleted⟩ := of_decide_eq_true hlive
  have hfound := (haddressed.found 1 b 0 t hb ht hdeleted (ascii "b") (ascii "000000001")
    trivial).mpr ⟨hname.symm, htname.symm⟩
  rw [hnone] at hfound
  cases hfound

end AmmarServer.HabChan.Site
