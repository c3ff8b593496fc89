import AmmarServer.HabChan.Addresses

/-! What the start of the site and its visitors leave of its tables. -/

namespace AmmarServer.HabChan
open Bytes CString TextFile Hashmap Searching

/-! The names of threads. -/

theorem threadNameOf_injective : Function.Injective Site.threadNameOf := by
  have hvalue : ∀ uid, (Site.threadNameOf uid).foldl (fun n c => n * 10 + (c.toNat - 48)) 0 = uid := by
    intro uid
    have hzeros : ∀ k, (List.replicate k (48 : UInt8)).foldl
        (fun n c => n * 10 + (c.toNat - 48)) 0 = 0 := by
      intro k
      induction k with
      | zero => rfl
      | succ k ih => exact ih
    unfold Site.threadNameOf
    rw [List.foldl_append, hzeros]
    exact foldl_toDigits uid
  exact Function.LeftInverse.injective hvalue

theorem stored_of_lt {s : List UInt8} (h : s.length < MAX_STRING_SIZE) : stored s = s :=
  List.take_of_length_le (Nat.le_sub_one_of_lt h)

theorem stored_threadNameOf {uid : ℕ} (h : uid ≤ MAX_THREADS_PER_BOARD) :
    stored (Site.threadNameOf uid) = Site.threadNameOf uid := by
  have hdigits : (decimal uid).length ≤ 9 :=
    decimal_length (by decide) (h.trans_lt (by decide))
  refine stored_of_lt ?_
  unfold Site.threadNameOf
  rw [List.length_append, List.length_replicate, Nat.sub_add_cancel hdigits]
  decide

theorem addPostToThread_name {t t' : Thread} {d d' : Dir} {newPost : NewPost} {writes : Writes}
    {now later : Timestamp} (h : addPostToThread t d newPost writes now later = some (t', d')) :
    t'.name = t.name := by
  unfold addPostToThread at h
  split_ifs at h
  obtain ⟨rfl, -⟩ := Prod.mk.inj (Option.some.inj h)
  rfl

theorem deleteReply_name {t t' : Thread} {d d' : Dir} {postIndex : ℕ} {password : List UInt8}
    {writes : Writes} (h : deleteReply t d postIndex password writes = some (t', d')) :
    t'.name = t.name := by
  unfold deleteReply at h
  split_ifs at h
  split at h
  · cases h
  · split_ifs at h
    all_goals
      obtain ⟨rfl, -⟩ := Prod.mk.inj (Option.some.inj h)
      rfl

theorem deleteThread_name {t t' : Thread} {d d' : Dir} {password : List UInt8} {opened : Bool}
    (h : deleteThread t d password opened = some (t', d')) : t'.name = t.name := by
  unfold deleteThread at h
  split_ifs at h
  obtain ⟨rfl, -⟩ := Prod.mk.inj (Option.some.inj h)
  rfl

theorem storeThread_isSome (threadName title : List UInt8) (newPost : NewPost) (writes : Writes)
    (now later last : Timestamp) :
    ∃ t d, storeThread threadName title newPost writes now later last = some (t, d) ∧
      t.name = stored threadName := by
  cases hstore : storeThread threadName title newPost writes now later last with
  | none => cases hstore
  | some td => exact ⟨td.1, td.2, rfl, addPostToThread_name hstore⟩

theorem statusLine_name (t : Thread) (line : List UInt8) : (statusLine t line).name = t.name := by
  unfold statusLine
  dsimp only
  split_ifs
  all_goals rfl

theorem foldl_statusLine_name (lines : List (List UInt8)) (t : Thread) :
    (lines.foldl statusLine t).name = t.name := by
  induction lines generalizing t with
  | nil => rfl
  | cons line lines ih => exact (ih _).trans (statusLine_name t line)

theorem loadThread_name {heap : LoadHeap} {threadName : List UInt8} {dir : Option Dir} {t : Thread}
    (h : loadThread heap threadName dir = some t) :
    t.name = stored threadName ∧ ∃ d, dir = some d ∧ d.status.isSome := by
  cases dir with
  | none => cases h
  | some d =>
    obtain ⟨status, header, post⟩ := d
    cases status with
    | none => cases h
    | some text =>
      unfold loadThread at h
      dsimp only at h
      split_ifs at h
      obtain rfl := Option.some.inj h
      exact ⟨foldl_statusLine_name _ _, _, rfl, rfl⟩

/-! What the tables are about. -/

def Board.outline (b : Board) : List UInt8 × ℕ × List (List UInt8) :=
  (b.name, b.maxThreads, b.threads.map Thread.name)

namespace Site

variable {qsort : Qsort HashMapEntry.keyHash} {bsearch : Bsearch HashMapEntry.keyHash}
  {s : Site} {boardName threadName : List UInt8} {boards boards' : List Board}

theorem outline_get (hsame : boards'.map Board.outline = boards.map Board.outline) {i : ℕ}
    {b' : Board} (hb' : boards'[i]? = some b') :
    ∃ b, boards[i]? = some b ∧ b.name = b'.name ∧ b.maxThreads = b'.maxThreads ∧
      b.threads.map Thread.name = b'.threads.map Thread.name := by
  have hget : (boards.map Board.outline)[i]? = some b'.outline := by
    rw [← hsame, List.getElem?_map, hb', Option.map_some]
  rw [List.getElem?_map] at hget
  obtain ⟨b, hb, houtline⟩ := Option.map_eq_some_iff.mp hget
  obtain ⟨hname, hrest⟩ := Prod.mk.inj houtline
  obtain ⟨hmax, hthreads⟩ := Prod.mk.inj hrest
  exact ⟨b, hb, hname, hmax, hthreads⟩

theorem BoardAt.outline (hsame : boards'.map Board.outline = boards.map Board.outline)
    {name : List UInt8} {i : ℕ} (h : BoardAt boards' name i) : BoardAt boards name i := by
  obtain ⟨b', hb', rfl⟩ := h
  obtain ⟨b, hb, hname, -⟩ := outline_get hsame hb'
  exact ⟨b, hb, hname⟩

theorem ThreadAt.outline (hsame : boards'.map Board.outline = boards.map Board.outline)
    {name : List UInt8} {v : ℕ} (h : ThreadAt boards' name v) : ThreadAt boards name v := by
  obtain ⟨b', t', hb', ht', rfl⟩ := h
  obtain ⟨b, hb, -, -, hthreads⟩ := outline_get hsame hb'
  have hget : (b.threads.map Thread.name)[v % MAX_THREADS_PER_BOARD]? = some t'.name := by
    rw [hthreads, List.getElem?_map, ht', Option.map_some]
  rw [List.getElem?_map] at hget
  obtain ⟨t, ht, hname⟩ := Option.map_eq_some_iff.mp hget
  exact ⟨b, t, hb, ht, hname⟩

theorem ThreadAt.get {i j : ℕ} {b : Board} {t : Thread} (hb : boards[i]? = some b)
    (ht : b.threads[j]? = some t) (hj : j < MAX_THREADS_PER_BOARD) :
    ThreadAt boards t.name (i * MAX_THREADS_PER_BOARD + j) := by
  obtain ⟨hdiv, hmod⟩ := @encoded_div i j hj
  exact ⟨b, t, by rw [hdiv, hb], by rw [hmod, ht], rfl⟩

theorem getElem?_append_one {α : Type*} {l : List α} {a a' : α} {i : ℕ} :
    (l ++ [a])[i]? = some a' ↔ l[i]? = some a' ∨ i = l.length ∧ a = a' := by
  rcases Nat.lt_trichotomy i l.length with hi | rfl | hi
  · rw [List.getElem?_append_left hi]
    exact ⟨.inl, fun h => h.resolve_right fun hcon => hi.ne hcon.1⟩
  · rw [List.getElem?_concat_length, List.getElem?_eq_none le_rfl, Option.some.injEq]
    exact ⟨fun h => .inr ⟨rfl, h⟩, fun h => (h.resolve_left (Option.some_ne_none a').symm).2⟩
  · rw [List.getElem?_eq_none (by rw [List.length_append]; exact hi),
      List.getElem?_eq_none hi.le]
    exact ⟨fun h => absurd h.symm (Option.some_ne_none a'),
      fun h => absurd (h.resolve_left (Option.some_ne_none a').symm).1 hi.ne'⟩

theorem boardAt_append (b : Board) (name : List UInt8) (i : ℕ) :
    BoardAt (boards ++ [b]) name i ↔
      BoardAt boards name i ∨ i = boards.length ∧ b.name = name := by
  constructor
  · rintro ⟨b', hb', rfl⟩
    rcases getElem?_append_one.mp hb' with hb' | ⟨rfl, rfl⟩
    · exact .inl ⟨b', hb', rfl⟩
    · exact .inr ⟨rfl, rfl⟩
  · rintro (⟨b', hb', rfl⟩ | ⟨rfl, rfl⟩)
    · exact ⟨b', getElem?_append_one.mpr (.inl hb'), rfl⟩
    · exact ⟨b, getElem?_append_one.mpr (.inr ⟨rfl, rfl⟩), rfl⟩

namespace Inv

/-! What leaves the names where they are. -/

theorem reshape (h : Inv s) {s' : Site}
    (hsame : s'.boards.map Board.outline = s.boards.map Board.outline)
    (hboards : s'.boardHashMap = s.boardHashMap) (hthreads : s'.threadHashMap = s.threadHashMap)
    (hloading : s'.loading = s.loading)
    (hopened : ∀ boardID boardName entries, s'.opened = some (boardID, boardName, entries) →
      ∃ entries', s.opened = some (boardID, boardName, entries') ∧ entries ⊆ entries')
    (hnumbered : ∀ (i : ℕ) b, s'.boards[i]? = some b → (∀ o ∈ s'.opened, o.1 ≠ i) →
      Numbered s'.dirs b) : Inv s' where
  boardTable := by
    obtain ⟨stored, hgrowing, hstored⟩ := h.boardTable
    exact ⟨stored, hboards ▸ hgrowing, fun name i =>
      (hstored name i).trans ⟨BoardAt.outline hsame.symm, BoardAt.outline hsame⟩⟩
  threadTable := by
    obtain ⟨stored, hgrowing, hstored⟩ := h.threadTable
    exact ⟨stored, hthreads ▸ hgrowing, fun name v =>
      (hstored name v).trans ⟨ThreadAt.outline hsame.symm, ThreadAt.outline hsame⟩⟩
  hashes := by
    intro i j b b' hb hb' hhash
    obtain ⟨c, hc, hname, -⟩ := outline_get hsame hb
    obtain ⟨c', hc', hname', -⟩ := outline_get hsame hb'
    rw [← hname, ← hname'] at hhash
    exact h.hashes i j c c' hc hc' hhash
  few := by
    have hlength := congrArg List.length hsame
    rw [List.length_map, List.length_map] at hlength
    exact hlength.trans_lt h.few
  size := by
    intro b hb
    obtain ⟨i, hi⟩ := List.getElem?_of_mem hb
    obtain ⟨c, hc, -, hmax, hnames⟩ := outline_get hsame hi
    have hlength := congrArg List.length hnames
    rw [List.length_map, List.length_map] at hlength
    rw [← hmax, ← hlength]
    exact h.size c (List.mem_of_getElem? hc)
  numbered := hnumbered
  opened := by
    intro boardID boardName entries ho
    obtain ⟨entries', ho', hsubset⟩ := hopened boardID boardName entries ho
    obtain ⟨hboard, hnames⟩ := h.opened boardID boardName entries' ho'
    exact ⟨hboard.outline hsame.symm, fun n hn => hnames n (hsubset hn)⟩
  loading := hloading ▸ h.loading

theorem setDir (h : Inv s) (boardName threadName : List UInt8) {d : Option Dir}
    (hd : d.isSome → (s.dirs boardName threadName).isSome ∨
      ∀ b ∈ s.boards, b.name = boardName → ∀ uid, b.threads.length < uid →
        threadNameOf uid ≠ threadName) :
    Inv (s.setDir boardName threadName d) := by
  refine h.reshape rfl rfl rfl rfl (fun _ _ entries ho => ⟨entries, ho, fun _ hn => hn⟩) ?_
  intro i b hb hopened
  obtain ⟨huid, hnone⟩ := h.numbered i b hb hopened
  refine ⟨huid, fun hroom uid hlt => ?_⟩
  show Function.update s.dirs boardName _ b.name (threadNameOf uid) = none
  have hbefore := hnone hroom uid hlt
  rcases eq_or_ne b.name boardName with rfl | hne
  · rw [Function.update_self]
    rcases eq_or_ne (threadNameOf uid) threadName with rfl | hne
    · rw [Function.update_self]
      cases d with
      | none => rfl
      | some d =>
        rcases hd rfl with hcon | hcon
        · rw [hbefore] at hcon
          cases hcon
        · exact absurd rfl (hcon b (List.mem_of_getElem? hb) rfl uid hlt)
    · rw [Function.update_of_ne hne]
      exact hbefore
  · rw [Function.update_of_ne hne]
    exact hbefore

/-! A new thread. -/

theorem thread_index (h : Inv s) {name : List UInt8} {v : ℕ} (hat : ThreadAt s.boards name v) :
    v < MAX_BOARDS * MAX_THREADS_PER_BOARD := by
  obtain ⟨b, -, hb, -⟩ := hat
  have hlt := (List.getElem?_eq_some_iff.mp hb).1.trans h.few
  exact Nat.lt_mul_of_div_lt hlt (by decide)

theorem thread_entries (h : Inv s) :
    s.threadHashMap.curNumberOfEntries ≤ 1000000 := by
  obtain ⟨stored, hgrowing, hstored⟩ := h.threadTable
  refine hgrowing.count_le (fun key v hv => h.thread_index ((hstored key v).mp hv)) ?_
  intro key key' v hv hv'
  obtain ⟨b, t, hb, ht, rfl⟩ := (hstored key v).mp hv
  obtain ⟨b', t', hb', ht', rfl⟩ := (hstored key' v).mp hv'
  obtain rfl := Option.some.inj (hb.symm.trans hb')
  obtain rfl := Option.some.inj (ht.symm.trans ht')
  rfl

theorem board_entries (h : Inv s) : s.boardHashMap.curNumberOfEntries ≤ 1000000 := by
  obtain ⟨stored, hgrowing, hstored⟩ := h.boardTable
  refine (hgrowing.count_le (n := MAX_BOARDS) (fun key i hi => ?_) ?_).trans (by decide)
  · obtain ⟨b, hb, -⟩ := (hstored key i).mp hi
    exact (List.getElem?_eq_some_iff.mp hb).1.trans h.few
  · intro key key' i hi hi'
    obtain ⟨b, hb, rfl⟩ := (hstored key i).mp hi
    obtain ⟨b', hb', rfl⟩ := (hstored key' i).mp hi'
    exact congrArg Board.name (Option.some.inj (hb.symm.trans hb'))

end Inv

theorem threadAt_keep {i : ℕ} {b : Board} (b' : Board) {t : Thread} (hb : boards[i]? = some b)
    (hthreads : b'.threads = b.threads ++ [t]) (hroom : b.threads.length < MAX_THREADS_PER_BOARD)
    (name : List UInt8) (v : ℕ) :
    ThreadAt (boards.set i b') name v ↔
      ThreadAt boards name v ∨
        v = i * MAX_THREADS_PER_BOARD + b.threads.length ∧ t.name = name := by
  have hi := (List.getElem?_eq_some_iff.mp hb).1
  obtain ⟨hdiv, hmod⟩ := @encoded_div i b.threads.length hroom
  constructor
  · rintro ⟨c, u, hc, hu, rfl⟩
    rcases eq_or_ne i (v / MAX_THREADS_PER_BOARD) with heq | hne
    · rw [← heq, List.getElem?_set_self hi] at hc
      obtain rfl := Option.some.inj hc
      rw [hthreads] at hu
      rcases getElem?_append_one.mp hu with hu | ⟨hslot, rfl⟩
      · exact .inl ⟨b, u, heq ▸ hb, hu, rfl⟩
      · refine .inr ⟨?_, rfl⟩
        rw [heq, ← hslot]
        exact (encoded_eq v).symm
    · rw [List.getElem?_set_ne hne] at hc
      exact .inl ⟨c, u, hc, hu, rfl⟩
  · rintro (⟨c, u, hc, hu, rfl⟩ | ⟨rfl, rfl⟩)
    · rcases eq_or_ne i (v / MAX_THREADS_PER_BOARD) with heq | hne
      · rw [← heq, hb] at hc
        obtain rfl := Option.some.inj hc
        refine ⟨b', u, by rw [← heq, List.getElem?_set_self hi], ?_, rfl⟩
        rw [hthreads]
        exact getElem?_append_one.mpr (.inl hu)
      · exact ⟨c, u, by rw [List.getElem?_set_ne hne, hc], hu, rfl⟩
    · refine ⟨b', t, by rw [hdiv, List.getElem?_set_self hi], ?_, rfl⟩
      rw [hmod, hthreads]
      exact getElem?_append_one.mpr (.inr ⟨rfl, rfl⟩)

end Site

end AmmarServer.HabChan
