import Mathlib.Data.List.Perm.Basic
import Mathlib.Data.List.Nodup
import AmmarServer.Lib.Run
import AmmarServer.MyURL.Searches

/-! The short links over whole runs: two links of one short URL, links that get lost on the way to
the file or back, and where a look at a short URL leads. -/

namespace AmmarServer.MyURL
open CString Bytes TextFile Run

/-- What `Add_MyURL` lets through, and a file can hold. -/
structure Accepted (longURL shortURL : List UInt8) : Prop where
  longWord : Word longURL
  shortWord : Word shortURL
  longFits : longURL.length < MAX_LONG_URL_SIZE
  shortFits : shortURL.length < MAX_TO_SIZE

/-- A link is in the array, or `LoadMyURLDBFile` is about to put it there. -/
def Covered (slots : List Slot) (adding : ℕ → Option Adding) (link : Link) : Prop :=
  (∃ slot ∈ slots, slot.written = true ∧ slot.link = link) ∨
    ∃ t a, adding t = some a ∧ a.saveit = false ∧ a.Unwritten ∧ a.link = link

/-- A call that has not ended. -/
structure Pending (slots : List Slot) (added : List Link) (a : Adding) : Prop where
  accepted : Accepted a.longURL a.shortURL
  fresh : a.Unwritten → ∀ slot ∈ slots, slot.written = true → slot.link.shortURL ≠ a.shortURL
  loaded : a.Unwritten → a.saveit = false → a.link ∈ added
  new : a.Unwritten → a.saveit = true → a.shortURL ∉ added.map Link.shortURL
  through : ¬ a.Unwritten → a.link ∈ added

/-- `saved` are the links in the file, and `rest` are those that are still to be read. -/
structure Kept (db : DB) (saved rest : List Link) : Prop where
  accepted : ∀ link ∈ db.added,
    Accepted link.longURL link.shortURL ∧ link.shortURLHash = hashURL link.shortURL
  distinct : (db.added.map Link.shortURL).Nodup
  taken : ∀ slot ∈ db.slots, slot.written = true → slot.link ∈ db.added
  once : ((db.slots.filter Slot.written).map fun slot => slot.link.shortURL).Nodup
  sorted_le : db.sorted_links ≤ db.slots.length
  room : db.slots.length ≤ db.allocated_links
  bound : db.allocated_links < MAX_LINKS + LINK_ALLOCATION_STEP
  file : db.file = textOf saved
  reading : db.reading = textOf rest
  saved_mem : ∀ link ∈ saved, link ∈ db.added
  rest_mem : ∀ link ∈ rest, link ∈ db.added
  covered : ∀ link ∈ db.added, link ∈ rest ∨ Covered db.slots db.adding link
  safe : ∀ link ∈ db.added, link ∈ saved ∨
    ∃ t a, db.adding t = some a ∧ a.saveit = true ∧ a.stage = .written ∧ a.link = link
  pending : ∀ t a, db.adding t = some a → Pending db.slots db.added a
  apart : ∀ t t' a a', t ≠ t' → db.adding t = some a → db.adding t' = some a' → a.Unwritten →
    a'.Unwritten → a.shortURL ≠ a'.shortURL
  lone : ∀ t t' a a', db.adding t = some a → db.adding t' = some a' → a.saveit = false → t = t'
  indexed : ∀ t a i, db.adding t = some a → a.stage = .indexed i →
    ∃ slot, db.slots[i]? = some slot ∧ slot.written = false
  alone : ∀ t t' a a' i, db.adding t = some a → db.adding t' = some a' → a.stage = .indexed i →
    a'.stage = .indexed i → t = t'
  filled : ∀ (i : ℕ) slot, db.slots[i]? = some slot → slot.written = false →
    ∃ t a, db.adding t = some a ∧ a.stage = .indexed i

variable {db : DB} {saved rest : List Link}

theorem kept_empty : Kept DB.empty [] [] where
  accepted _ h := nomatch h
  distinct := List.nodup_nil
  taken _ h := nomatch h
  once := List.nodup_nil
  sorted_le := le_rfl
  room := le_rfl
  bound := by decide
  file := rfl
  reading := rfl
  saved_mem _ h := h
  rest_mem _ h := h
  covered _ h := nomatch h
  safe _ h := nomatch h
  pending _ _ h := nomatch h
  apart _ _ _ _ _ h := nomatch h
  lone _ _ _ _ h := nomatch h
  indexed _ _ _ h := nomatch h
  alone _ _ _ _ _ h := nomatch h
  filled _ _ h := nomatch h

/-! The calls of the threads. -/

@[simp] theorem DB.set_adding (db : DB) (thread t : ℕ) (a : Option Adding) :
    (db.set thread a).adding t = if t = thread then a else db.adding t :=
  Function.update_apply ..

theorem not_unwritten_written {a : Adding} (h : a.stage = .written) : ¬ a.Unwritten := by
  unfold Adding.Unwritten
  rw [h]
  exact id

theorem not_unwritten_saved {a : Adding} (h : a.stage = .saved) : ¬ a.Unwritten := by
  unfold Adding.Unwritten
  rw [h]
  exact id

theorem unwritten_checked {a : Adding} (h : a.stage = .checked) : a.Unwritten := by
  unfold Adding.Unwritten
  rw [h]
  trivial

theorem unwritten_indexed {a : Adding} {i : ℕ} (h : a.stage = .indexed i) : a.Unwritten := by
  unfold Adding.Unwritten
  rw [h]
  trivial

theorem DB.set_some {thread t : ℕ} {a a' : Adding}
    (h : (db.set thread (some a)).adding t = some a') :
    t = thread ∧ a' = a ∨ t ≠ thread ∧ db.adding t = some a' := by
  rw [DB.set_adding] at h
  split_ifs at h with heq
  · exact .inl ⟨heq, (Option.some.inj h).symm⟩
  · exact .inr ⟨heq, h⟩

theorem Kept.eq_of_shortURL (h : Kept db saved rest) {link link' : Link} (hlink : link ∈ db.added)
    (hlink' : link' ∈ db.added) (hshort : link.shortURL = link'.shortURL) : link = link' :=
  List.inj_on_of_nodup_map h.distinct hlink hlink' hshort

theorem Kept.rest_nil (h : Kept db saved rest) (hreading : db.reading = none) : rest = [] := by
  have hnone := h.reading.symm.trans hreading
  unfold textOf at hnone
  split_ifs at hnone with hnil
  exact hnil

theorem Kept.link_eq (h : Kept db saved rest) {link : Link} (hlink : link ∈ db.added) :
    newLink link.longURL link.shortURL = link := by
  unfold newLink
  rw [← (h.accepted link hlink).2]

theorem DB.allocateLinksIfNeeded_same (db : DB) (realloc : Bool) :
    (db.allocateLinksIfNeeded realloc).adding = db.adding ∧
      (db.allocateLinksIfNeeded realloc).slots = db.slots ∧
        (db.allocateLinksIfNeeded realloc).added = db.added := by
  unfold DB.allocateLinksIfNeeded
  split_ifs <;> exact ⟨rfl, rfl, rfl⟩

theorem Kept.allocate (h : Kept db saved rest) (realloc : Bool) :
    Kept (db.allocateLinksIfNeeded realloc) saved rest := by
  unfold DB.allocateLinksIfNeeded
  split_ifs with hfull
  · have hroom := h.room
    exact { h with
      room := Nat.le_add_right_of_le hroom
      bound := Nat.add_lt_add_right hfull.1 _ }
  · exact h

theorem Kept.start (h : Kept db saved rest) {thread : ℕ} {a : Adding}
    (hidle : db.adding thread = none) (hstage : a.stage = .checked) (hpending : Pending db.slots db.added a)
    (hapart : ∀ t a', db.adding t = some a' → a'.Unwritten → a'.shortURL ≠ a.shortURL)
    (hlone : ∀ t a', db.adding t = some a' → a.saveit = true ∧ a'.saveit = true) :
    Kept (db.set thread (some a)) saved rest := by
  have hother : ∀ {t a'}, db.adding t = some a' → t ≠ thread := by
    rintro t a' ht rfl
    rw [hidle] at ht
    cases ht
  have hstill : ∀ {t a'}, db.adding t = some a' → (db.set thread (some a)).adding t = some a' := by
    intro t a' ht
    rw [DB.set_adding, if_neg (hother ht), ht]
  refine { h with covered := ?_, safe := ?_, pending := ?_, apart := ?_, lone := ?_, indexed := ?_,
                  alone := ?_, filled := ?_ }
  · intro link hlink
    refine (h.covered link hlink).imp_right (Or.imp_right ?_)
    rintro ⟨t, a', ht, hrest⟩
    exact ⟨t, a', hstill ht, hrest⟩
  · intro link hlink
    refine (h.safe link hlink).imp_right ?_
    rintro ⟨t, a', ht, hrest⟩
    exact ⟨t, a', hstill ht, hrest⟩
  · intro t a' ht
    rcases DB.set_some ht with ⟨-, rfl⟩ | ⟨-, ht⟩
    · exact hpending
    · exact h.pending t a' ht
  · intro t t' a₁ a₂ hne ht ht' hun hun'
    rcases DB.set_some ht with ⟨ht, ha⟩ | ⟨-, hold⟩ <;>
      rcases DB.set_some ht' with ⟨ht', ha'⟩ | ⟨-, hold'⟩
    · exact absurd (ht.trans ht'.symm) hne
    · exact ha ▸ (hapart t' a₂ hold' hun').symm
    · exact ha' ▸ hapart t a₁ hold hun
    · exact h.apart t t' a₁ a₂ hne hold hold' hun hun'
  · intro t t' a₁ a₂ ht ht' hsave
    rcases DB.set_some ht with ⟨heq, rfl⟩ | ⟨-, hold⟩ <;>
      rcases DB.set_some ht' with ⟨heq', rfl⟩ | ⟨-, hold'⟩
    · exact heq.trans heq'.symm
    · exact absurd (hsave.symm.trans (hlone t' a₂ hold').1) (by decide)
    · exact absurd (hsave.symm.trans (hlone t a₁ hold).2) (by decide)
    · exact h.lone t t' a₁ a₂ hold hold' hsave
  · intro t a' i ht hi
    rcases DB.set_some ht with ⟨-, rfl⟩ | ⟨-, ht⟩
    · rw [hstage] at hi
      cases hi
    · exact h.indexed t a' i ht hi
  · intro t t' a₁ a₂ i ht ht' hi hi'
    rcases DB.set_some ht with ⟨-, rfl⟩ | ⟨-, ht⟩
    · rw [hstage] at hi
      cases hi
    · rcases DB.set_some ht' with ⟨-, rfl⟩ | ⟨-, ht'⟩
      · rw [hstage] at hi'
        cases hi'
      · exact h.alone t t' a₁ a₂ i ht ht' hi hi'
  · intro i slot hi hslot
    obtain ⟨t, a', ht, hstage⟩ := h.filled i slot hi hslot
    exact ⟨t, a', hstill ht, hstage⟩

theorem Pending.append {slots : List Slot} {added : List Link} {a : Adding}
    (h : Pending slots added a) (junk : Link) : Pending (slots ++ [⟨junk, false⟩]) added a where
  accepted := h.accepted
  fresh hun slot hslot hwritten := by
    rcases List.mem_append.mp hslot with hslot | hslot
    · exact h.fresh hun slot hslot hwritten
    · rw [List.mem_singleton.mp hslot] at hwritten
      cases hwritten
  loaded := h.loaded
  new := h.new
  through := h.through

theorem Kept.index (h : Kept db saved rest) {thread : ℕ} {a : Adding}
    (ha : db.adding thread = some a) (hstage : a.stage = .checked) (junk : Link)
    (hroom : db.slots.length < db.allocated_links) :
    Kept (db.index thread junk a) saved rest := by
  have hun := unwritten_checked hstage
  have hp := h.pending thread a ha
  have hlast : ∀ {i : ℕ} {slot}, db.slots[i]? = some slot →
      (db.slots ++ [⟨junk, false⟩])[i]? = some slot := by
    intro i slot hi
    rw [List.getElem?_append_left (List.getElem?_eq_some_iff.mp hi).1, hi]
  have hstill : ∀ {t a'}, db.adding t = some a' → ∃ a₁,
      (db.index thread junk a).adding t = some a₁ ∧ a₁.link = a'.link ∧ a₁.saveit = a'.saveit ∧ (a'.Unwritten → a₁.Unwritten) ∧
        (a'.stage = a₁.stage ∨ t = thread ∧ a'.stage = .checked) := by
    intro t a' ht
    rcases eq_or_ne t thread with rfl | hne
    · obtain rfl := Option.some.inj (ha.symm.trans ht)
      exact ⟨_, (DB.set_adding ..).trans (if_pos rfl), rfl, rfl, fun _ => trivial,
        .inr ⟨rfl, hstage⟩⟩
    · exact ⟨a', (DB.set_adding ..).trans ((if_neg hne).trans ht), rfl, rfl, id, .inl rfl⟩
  refine { h with taken := ?_, once := ?_, sorted_le := ?_, room := ?_, covered := ?_, safe := ?_,
                  pending := ?_, apart := ?_, lone := ?_, indexed := ?_, alone := ?_, filled := ?_ }
  · intro slot hslot hwritten
    rcases List.mem_append.mp hslot with hslot | hslot
    · exact h.taken slot hslot hwritten
    · rw [List.mem_singleton.mp hslot] at hwritten
      cases hwritten
  · show (((db.slots ++ [(⟨junk, false⟩ : Slot)]).filter Slot.written).map
      fun slot => slot.link.shortURL).Nodup
    rw [List.filter_append, List.filter_cons_of_neg (by simp), List.filter_nil, List.append_nil]
    exact h.once
  · show db.sorted_links ≤ (db.slots ++ [_]).length
    rw [List.length_append]
    exact Nat.le_add_right_of_le h.sorted_le
  · show (db.slots ++ [_]).length ≤ db.allocated_links
    rw [List.length_append]
    exact hroom
  · intro link hlink
    refine (h.covered link hlink).imp_right ?_
    rintro (⟨slot, hslot, hrest⟩ | ⟨t, a', ht, hsave, hun', hlink⟩)
    · exact .inl ⟨slot, List.mem_append_left _ hslot, hrest⟩
    · obtain ⟨a₁, ht₁, hlink₁, hsave₁, hun₁, -⟩ := hstill ht
      exact .inr ⟨t, a₁, ht₁, hsave₁.trans hsave, hun₁ hun', hlink₁.trans hlink⟩
  · intro link hlink
    refine (h.safe link hlink).imp_right ?_
    rintro ⟨t, a', ht, hsave, hwritten, hlink⟩
    obtain ⟨a₁, ht₁, hlink₁, hsave₁, -, hsame | ⟨-, hchecked⟩⟩ := hstill ht
    · exact ⟨t, a₁, ht₁, hsave₁.trans hsave, hsame ▸ hwritten, hlink₁.trans hlink⟩
    · rw [hwritten] at hchecked
      cases hchecked
  · intro t a' ht
    rcases DB.set_some ht with ⟨-, rfl⟩ | ⟨-, ht⟩
    · have hp := hp.append junk
      exact ⟨hp.accepted, fun _ => hp.fresh hun, fun _ => hp.loaded hun, fun _ => hp.new hun,
        fun hcon => absurd trivial hcon⟩
    · exact (h.pending t a' ht).append junk
  · intro t t' a₁ a₂ hne ht ht' hun₁ hun₂
    rcases DB.set_some ht with ⟨heq, rfl⟩ | ⟨-, hold⟩ <;>
      rcases DB.set_some ht' with ⟨heq', rfl⟩ | ⟨-, hold'⟩
    · exact absurd (heq.trans heq'.symm) hne
    · exact h.apart t t' a a₂ hne (heq ▸ ha) hold' hun hun₂
    · exact h.apart t t' a₁ a hne hold (heq' ▸ ha) hun₁ hun
    · exact h.apart t t' a₁ a₂ hne hold hold' hun₁ hun₂
  · intro t t' a₁ a₂ ht ht' hsave
    rcases DB.set_some ht with ⟨heq, rfl⟩ | ⟨-, hold⟩ <;>
      rcases DB.set_some ht' with ⟨heq', rfl⟩ | ⟨-, hold'⟩
    · exact heq.trans heq'.symm
    · exact h.lone t t' a a₂ (heq ▸ ha) hold' hsave
    · exact h.lone t t' a₁ a hold (heq' ▸ ha) hsave
    · exact h.lone t t' a₁ a₂ hold hold' hsave
  · intro t a' i ht hi
    rcases DB.set_some ht with ⟨-, rfl⟩ | ⟨-, ht⟩
    · obtain rfl := Stage.indexed.inj hi
      exact ⟨⟨junk, false⟩, List.getElem?_concat_length, rfl⟩
    · obtain ⟨slot, hget, hslot⟩ := h.indexed t a' i ht hi
      exact ⟨slot, hlast hget, hslot⟩
  · intro t t' a₁ a₂ i ht ht' hi hi'
    -- no other call can have the new index
    have hnew : ∀ {t a'}, db.adding t = some a' → a'.stage ≠ .indexed db.slots.length := by
      intro t a' ht hcon
      obtain ⟨slot, hget, -⟩ := h.indexed t a' _ ht hcon
      exact absurd (List.getElem?_eq_some_iff.mp hget).1 (lt_irrefl _)
    rcases DB.set_some ht with ⟨heq, rfl⟩ | ⟨-, hold⟩ <;>
      rcases DB.set_some ht' with ⟨heq', rfl⟩ | ⟨-, hold'⟩
    · exact heq.trans heq'.symm
    · obtain rfl := Stage.indexed.inj hi
      exact absurd hi' (hnew hold')
    · obtain rfl := Stage.indexed.inj hi'
      exact absurd hi (hnew hold)
    · exact h.alone t t' a₁ a₂ i hold hold' hi hi'
  · intro i slot hi hslot
    have hi : (db.slots ++ [⟨junk, false⟩])[i]? = some slot := hi
    rcases Nat.lt_or_ge i db.slots.length with hlt | hge
    · rw [List.getElem?_append_left hlt] at hi
      obtain ⟨t, a', ht, hstage'⟩ := h.filled i slot hi hslot
      obtain ⟨a₁, ht₁, -, -, -, hsame | ⟨-, hchecked⟩⟩ := hstill ht
      · exact ⟨t, a₁, ht₁, hsame ▸ hstage'⟩
      · rw [hstage'] at hchecked
        cases hchecked
    · obtain ⟨hlt, -⟩ := List.getElem?_eq_some_iff.mp hi
      rw [List.length_append] at hlt
      obtain rfl := Nat.le_antisymm (Nat.le_of_lt_succ hlt) hge
      exact ⟨thread, _, (DB.set_adding ..).trans (if_pos rfl), rfl⟩

theorem filter_set_perm {α : Type*} {p : α → Bool} {l : List α} {i : ℕ} {old new : α}
    (hold : l[i]? = some old) (hp : p old = false) (hnew : p new = true) :
    ((l.set i new).filter p).Perm (new :: l.filter p) := by
  induction l generalizing i with
  | nil => cases hold
  | cons a l ih =>
    cases i with
    | zero =>
      obtain rfl : a = old := Option.some.inj hold
      rw [List.set_cons_zero, List.filter_cons_of_pos hnew, List.filter_cons_of_neg (by simp [hp])]
    | succ i =>
      rw [List.set_cons_succ]
      cases ha : p a with
      | true =>
        rw [List.filter_cons_of_pos ha, List.filter_cons_of_pos ha]
        exact ((ih hold).cons a).trans (List.Perm.swap ..)
      | false =>
        rw [List.filter_cons_of_neg (by simp [ha]), List.filter_cons_of_neg (by simp [ha])]
        exact ih hold

theorem Kept.write (h : Kept db saved rest) {thread i : ℕ} {a : Adding}
    (ha : db.adding thread = some a) (hstage : a.stage = .indexed i) :
    ∃ db', db.write thread i a = some db' ∧ Kept db' saved rest := by
  have hun := unwritten_indexed hstage
  have hp := h.pending thread a ha
  obtain ⟨old, hold, hfree⟩ := h.indexed thread a i ha hstage
  have hlt : i < db.slots.length := (List.getElem?_eq_some_iff.mp hold).1
  unfold DB.write
  rw [if_neg (Nat.not_le.mpr (Nat.lt_of_lt_of_le hlt h.room))]
  refine ⟨_, rfl, ?_⟩
  generalize hadded : (if a.link ∈ db.added then db.added else db.added ++ [a.link]) = added
  have hmem : ∀ link, link ∈ added ↔ link ∈ db.added ∨ link = a.link := by
    intro link
    rw [← hadded]
    split_ifs with hin
    · exact ⟨.inl, fun hlink => hlink.elim id fun heq => heq ▸ hin⟩
    · rw [List.mem_append, List.mem_singleton]
  have hnew : a.link ∈ added := (hmem _).mpr (.inr rfl)
  have hslots : ∀ slot ∈ db.slots.set i ⟨a.link, true⟩, slot ∈ db.slots ∨ slot = ⟨a.link, true⟩ :=
    fun slot hslot => List.mem_or_eq_of_mem_set hslot
  have hstays : ∀ slot ∈ db.slots, slot.written = true → slot ∈ db.slots.set i ⟨a.link, true⟩ := by
    intro slot hslot hwritten
    obtain ⟨j, hj, rfl⟩ := List.getElem_of_mem hslot
    rcases eq_or_ne i j with rfl | hne
    · rw [(List.getElem?_eq_some_iff.mp hold).2, hfree] at hwritten
      cases hwritten
    · refine List.mem_of_getElem? (i := j) ?_
      rw [List.getElem?_set_ne hne, List.getElem?_eq_getElem hj]
  have hstill : ∀ {t a'}, db.adding t = some a' → t ≠ thread →
      (db.set thread (some { a with stage := .written })).adding t = some a' := by
    intro t a' ht hne
    rw [DB.set_adding, if_neg hne, ht]
  refine { h with
    accepted := ?_, distinct := ?_, taken := ?_, once := ?_, sorted_le := ?_, room := ?_
    saved_mem := fun link hlink => (hmem link).mpr (.inl (h.saved_mem link hlink))
    rest_mem := fun link hlink => (hmem link).mpr (.inl (h.rest_mem link hlink))
    covered := ?_, safe := ?_, pending := ?_, apart := ?_, lone := ?_, indexed := ?_, alone := ?_
    filled := ?_ }
  · intro link hlink
    rcases (hmem link).mp hlink with hlink | rfl
    · exact h.accepted link hlink
    · exact ⟨hp.accepted, rfl⟩
  · show (added.map Link.shortURL).Nodup
    rw [← hadded]
    split_ifs with hin
    · exact h.distinct
    · have hsave : a.saveit = true := by
        cases hsave : a.saveit with
        | true => rfl
        | false => exact absurd (hp.loaded hun hsave) hin
      rw [List.map_append]
      exact h.distinct.append (List.nodup_singleton _)
        (List.disjoint_singleton.mpr (hp.new hun hsave))
  · intro slot hslot hwritten
    rcases hslots slot hslot with hslot | rfl
    · exact (hmem _).mpr (.inl (h.taken slot hslot hwritten))
    · exact hnew
  · have hperm := (filter_set_perm hold hfree (rfl : (⟨a.link, true⟩ : Slot).written = true)).map
      fun slot => slot.link.shortURL
    refine hperm.nodup_iff.mpr (List.nodup_cons.mpr ⟨fun hcon => ?_, h.once⟩)
    obtain ⟨slot, hslot, heq⟩ := List.mem_map.mp hcon
    obtain ⟨hslot, hwritten⟩ := List.mem_filter.mp hslot
    exact hp.fresh hun slot hslot hwritten heq
  · show db.sorted_links ≤ (db.slots.set i _).length
    rw [List.length_set]
    exact h.sorted_le
  · show (db.slots.set i _).length ≤ db.allocated_links
    rw [List.length_set]
    exact h.room
  · intro link hlink
    have hhere : Covered (db.slots.set i ⟨a.link, true⟩)
        (db.set thread (some { a with stage := .written })).adding a.link :=
      .inl ⟨_, List.mem_set hlt _, rfl, rfl⟩
    rcases (hmem link).mp hlink with hlink | rfl
    · rcases h.covered link hlink with hrest | ⟨slot, hslot, hwritten, hlink⟩ | ⟨t, a', ht, hrest⟩
      · exact .inl hrest
      · exact .inr (.inl ⟨slot, hstays slot hslot hwritten, hwritten, hlink⟩)
      · rcases eq_or_ne t thread with rfl | hne
        · obtain rfl := Option.some.inj (ha.symm.trans ht)
          exact .inr (hrest.2.2 ▸ hhere)
        · exact .inr (.inr ⟨t, a', hstill ht hne, hrest⟩)
    · exact .inr hhere
  · intro link hlink
    by_cases hin : link ∈ db.added
    · refine (h.safe link hin).imp_right ?_
      rintro ⟨t, a', ht, hsave, hwritten, hlink⟩
      refine ⟨t, a', hstill ht ?_, hsave, hwritten, hlink⟩
      rintro rfl
      obtain rfl := Option.some.inj (ha.symm.trans ht)
      rw [hstage] at hwritten
      cases hwritten
    · obtain rfl := ((hmem link).mp hlink).resolve_left hin
      refine .inr ⟨thread, _, (DB.set_adding ..).trans (if_pos rfl), ?_, rfl, rfl⟩
      cases hsave : a.saveit with
      | true => rfl
      | false => exact absurd (hp.loaded hun hsave) hin
  · intro t a' ht
    rcases DB.set_some ht with ⟨-, rfl⟩ | ⟨hne, ht⟩
    · exact ⟨hp.accepted, fun hcon => absurd hcon id, fun hcon => absurd hcon id,
        fun hcon => absurd hcon id, fun _ => hnew⟩
    · have hp' := h.pending t a' ht
      refine ⟨hp'.accepted, fun hun' slot hslot hwritten => ?_, fun hun' hsave => ?_,
        fun hun' hsave hcon => ?_, fun hun' => (hmem _).mpr (.inl (hp'.through hun'))⟩
      · rcases hslots slot hslot with hslot | rfl
        · exact hp'.fresh hun' slot hslot hwritten
        · exact (h.apart t thread a' a hne ht ha hun' hun).symm
      · exact (hmem _).mpr (.inl (hp'.loaded hun' hsave))
      · obtain ⟨link, hlink, heq⟩ := List.mem_map.mp hcon
        rcases (hmem link).mp hlink with hlink | rfl
        · exact hp'.new hun' hsave (List.mem_map.mpr ⟨link, hlink, heq⟩)
        · exact h.apart t thread a' a hne ht ha hun' hun heq.symm
  · intro t t' a₁ a₂ hne ht ht' hun₁ hun₂
    rcases DB.set_some ht with ⟨-, rfl⟩ | ⟨-, hold⟩
    · exact absurd hun₁ id
    · rcases DB.set_some ht' with ⟨-, rfl⟩ | ⟨-, hold'⟩
      · exact absurd hun₂ id
      · exact h.apart t t' a₁ a₂ hne hold hold' hun₁ hun₂
  · intro t t' a₁ a₂ ht ht' hsave
    rcases DB.set_some ht with ⟨heq, rfl⟩ | ⟨-, hold⟩ <;>
      rcases DB.set_some ht' with ⟨heq', rfl⟩ | ⟨-, hold'⟩
    · exact heq.trans heq'.symm
    · exact h.lone t t' a a₂ (heq ▸ ha) hold' hsave
    · exact h.lone t t' a₁ a hold (heq' ▸ ha) hsave
    · exact h.lone t t' a₁ a₂ hold hold' hsave
  · intro t a' j ht hj
    rcases DB.set_some ht with ⟨-, rfl⟩ | ⟨hne, ht⟩
    · cases hj
    · obtain ⟨slot, hget, hslot⟩ := h.indexed t a' j ht hj
      refine ⟨slot, ?_, hslot⟩
      have hij : i ≠ j := by
        rintro rfl
        exact hne (h.alone t thread a' a i ht ha hj hstage)
      exact (List.getElem?_set_ne hij).trans hget
  · intro t t' a₁ a₂ j ht ht' hj hj'
    rcases DB.set_some ht with ⟨-, rfl⟩ | ⟨-, hold⟩
    · cases hj
    · rcases DB.set_some ht' with ⟨-, rfl⟩ | ⟨-, hold'⟩
      · cases hj'
      · exact h.alone t t' a₁ a₂ j hold hold' hj hj'
  · intro j slot hj hslot
    have hj : (db.slots.set i ⟨a.link, true⟩)[j]? = some slot := hj
    rcases eq_or_ne i j with rfl | hij
    · rw [List.getElem?_set_self hlt] at hj
      obtain rfl := Option.some.inj hj
      cases hslot
    · rw [List.getElem?_set_ne hij] at hj
      obtain ⟨t, a', ht, hstage'⟩ := h.filled j slot hj hslot
      refine ⟨t, a', hstill ht ?_, hstage'⟩
      rintro rfl
      obtain rfl := Option.some.inj (ha.symm.trans ht)
      exact hij (Stage.indexed.inj (hstage.symm.trans hstage'))

theorem Kept.goOn (h : Kept db saved rest) {thread : ℕ} {a : Adding}
    (ha : db.adding thread = some a) (hun : ¬ a.Unwritten) {next : Option Adding}
    (hnext : ∀ b ∈ next, b.link = a.link ∧ b.saveit = a.saveit ∧ ¬ b.Unwritten)
    {saved' : List Link} {file : Option (List UInt8)} (hfile : file = textOf saved')
    (hsaved : ∀ link ∈ saved', link ∈ saved ∨ link = a.link)
    (hkeeps : ∀ link ∈ saved, link ∈ saved')
    (hsafe : a.stage = .written → a.saveit = true → a.link ∈ saved') :
    Kept { db.set thread next with file } saved' rest := by
  have hstill : ∀ {t a'}, db.adding t = some a' → t ≠ thread →
      (db.set thread next).adding t = some a' := by
    intro t a' ht hne
    rw [DB.set_adding, if_neg hne, ht]
  have hcases : ∀ {t a'}, (db.set thread next).adding t = some a' →
      t = thread ∧ a'.link = a.link ∧ a'.saveit = a.saveit ∧ ¬ a'.Unwritten ∨
        t ≠ thread ∧ db.adding t = some a' := by
    intro t a' ht
    rw [DB.set_adding] at ht
    split_ifs at ht with heq
    · exact .inl ⟨heq, hnext a' ht⟩
    · exact .inr ⟨heq, ht⟩
  have hstage : ∀ {t a' i}, (db.set thread next).adding t = some a' → a'.stage = .indexed i →
      db.adding t = some a' := by
    intro t a' i ht hi
    rcases hcases ht with ⟨-, -, -, hnot⟩ | ⟨-, ht⟩
    · exact absurd (unwritten_indexed hi) hnot
    · exact ht
  have hother : ∀ {t a'}, db.adding t = some a' → a'.Unwritten → t ≠ thread := by
    rintro t a' ht hun' rfl
    obtain rfl := Option.some.inj (ha.symm.trans ht)
    exact hun hun'
  refine { h with
    file := hfile, saved_mem := ?_, covered := ?_, safe := ?_, pending := ?_, apart := ?_, lone := ?_
    indexed := fun t a' i ht hi => h.indexed t a' i (hstage ht hi) hi
    alone := fun t t' a₁ a₂ i ht ht' hi hi' =>
      h.alone t t' a₁ a₂ i (hstage ht hi) (hstage ht' hi') hi hi'
    filled := ?_ }
  · intro link hlink
    rcases hsaved link hlink with hlink | rfl
    · exact h.saved_mem link hlink
    · exact (h.pending thread a ha).through hun
  · intro link hlink
    refine (h.covered link hlink).imp_right (Or.imp_right ?_)
    rintro ⟨t, a', ht, hsave, hun', hlink⟩
    exact ⟨t, a', hstill ht (hother ht hun'), hsave, hun', hlink⟩
  · intro link hlink
    rcases h.safe link hlink with hin | ⟨t, a', ht, hsave, hwritten, rfl⟩
    · exact .inl (hkeeps link hin)
    · rcases eq_or_ne t thread with rfl | hne
      · obtain rfl := Option.some.inj (ha.symm.trans ht)
        exact .inl (hsafe hwritten hsave)
      · exact .inr ⟨t, a', hstill ht hne, hsave, hwritten, rfl⟩
  · intro t a' ht
    rcases hcases ht with ⟨-, hlink, -, hnot⟩ | ⟨-, ht⟩
    · have hp := h.pending thread a ha
      have hlong : a'.longURL = a.longURL := congrArg Link.longURL hlink
      have hshort : a'.shortURL = a.shortURL := congrArg Link.shortURL hlink
      refine ⟨hlong ▸ hshort ▸ hp.accepted, fun hcon => absurd hcon hnot,
        fun hcon => absurd hcon hnot, fun hcon => absurd hcon hnot, fun _ => ?_⟩
      rw [hlink]
      exact hp.through hun
    · exact h.pending t a' ht
  · intro t t' a₁ a₂ hne ht ht' hun₁ hun₂
    rcases hcases ht with ⟨-, -, -, hnot⟩ | ⟨-, hold⟩
    · exact absurd hun₁ hnot
    · rcases hcases ht' with ⟨-, -, -, hnot⟩ | ⟨-, hold'⟩
      · exact absurd hun₂ hnot
      · exact h.apart t t' a₁ a₂ hne hold hold' hun₁ hun₂
  · intro t t' a₁ a₂ ht ht' hsave
    rcases hcases ht with ⟨rfl, -, hsame, -⟩ | ⟨-, hold⟩ <;>
      rcases hcases ht' with ⟨rfl, -, hsame', -⟩ | ⟨-, hold'⟩
    · rfl
    · exact h.lone t t' a a₂ ha hold' (hsame.symm.trans hsave)
    · exact h.lone t t' a₁ a hold ha hsave
    · exact h.lone t t' a₁ a₂ hold hold' hsave
  · intro i slot hi hslot
    obtain ⟨t, a', ht, hindexed⟩ := h.filled i slot hi hslot
    exact ⟨t, a', hstill ht (hother ht (unwritten_indexed hindexed)), hindexed⟩

theorem Kept.append (h : Kept db saved rest) {thread : ℕ} {a : Adding}
    (ha : db.adding thread = some a) (hstage : a.stage = .written) :
    ∃ saved', Kept (db.append thread true a) saved' rest := by
  have hun := not_unwritten_written hstage
  have hnext : ∀ b ∈ some { a with stage := .saved },
      b.link = a.link ∧ b.saveit = a.saveit ∧ ¬ b.Unwritten := by
    intro b hb
    obtain rfl := Option.some.inj hb
    exact ⟨rfl, rfl, id⟩
  cases hsave : a.saveit with
  | true =>
    refine ⟨saved ++ [a.link], ?_⟩
    have hfile : some (db.file.getD [] ++ linkText a.link) = textOf (saved ++ [a.link]) := by
      rw [h.file]
      exact textOf_append saved a.link
    have hkept := h.goOn ha hun hnext hfile (fun link hlink => ?_)
      (fun link hlink => List.mem_append_left _ hlink)
      fun _ _ => List.mem_append_right _ (List.mem_singleton.mpr rfl)
    · unfold DB.append
      rw [hsave, if_pos ⟨rfl, rfl⟩]
      rw [hsave] at hkept
      exact hkept
    · exact (List.mem_append.mp hlink).imp_right List.mem_singleton.mp
  | false =>
    refine ⟨saved, ?_⟩
    have hkept := h.goOn ha hun hnext h.file (fun _ hlink => .inl hlink) (fun _ hlink => hlink)
      fun _ hcon => absurd (hcon.symm.trans hsave) (by decide)
    unfold DB.append
    rw [hsave, if_neg (fun hcon => absurd hcon.1 (by decide))]
    rw [hsave] at hkept
    exact hkept

theorem Kept.finish (h : Kept db saved rest) {thread : ℕ} {a : Adding}
    (ha : db.adding thread = some a) (hstage : a.stage = .saved) :
    Kept (db.set thread none) saved rest := by
  refine h.goOn ha (not_unwritten_saved hstage) (fun b hb => by cases hb) h.file
    (fun _ hlink => .inl hlink) (fun _ hlink => hlink) fun hwritten => ?_
  rw [hstage] at hwritten
  cases hwritten

/-! The sorting, and the next start. -/

/-- The array is sorted and written to the file while no call has an index without a link. -/
theorem Kept.sort (h : Kept db saved rest) {sorted : List Slot} (hperm : sorted.Perm db.slots)
    (hindexed : ∀ t a, db.adding t = some a → ∀ i, a.stage ≠ .indexed i) (hne : db.slots ≠ [])
    (hsave : ∀ t a, db.adding t = some a → a.saveit = true) (hrest : rest = []) {n : ℕ}
    (hn : n ≤ sorted.length) {file : Option (List UInt8)}
    (hfile : file = db.file ∨ file = some (fileText (sorted.map Slot.link))) :
    ∃ saved', Kept { db with slots := sorted, sorted_links := n, file } saved' rest := by
  have hwritten : ∀ slot ∈ sorted, slot.written = true := by
    intro slot hslot
    obtain ⟨i, hi⟩ := List.getElem?_of_mem (hperm.mem_iff.mp hslot)
    cases hslot : slot.written with
    | true => rfl
    | false =>
      obtain ⟨t, a, ha, hstage⟩ := h.filled i slot hi hslot
      exact absurd hstage (hindexed t a ha i)
  have hmem : ∀ link ∈ sorted.map Slot.link, link ∈ db.added := by
    intro link hlink
    obtain ⟨slot, hslot, rfl⟩ := List.mem_map.mp hlink
    exact h.taken slot (hperm.mem_iff.mp hslot) (hwritten slot hslot)
  have hall : ∀ link ∈ db.added, link ∈ sorted.map Slot.link := by
    intro link hlink
    rcases h.covered link hlink with hin | ⟨slot, hslot, -, hlink⟩ | ⟨t, a, ha, hnot, -⟩
    · rw [hrest] at hin
      cases hin
    · exact List.mem_map.mpr ⟨slot, hperm.mem_iff.mpr hslot, hlink⟩
    · exact absurd (hnot.symm.trans (hsave t a ha)) (by decide)
  obtain ⟨saved', htext, hsaved, hkeeps⟩ : ∃ saved', file = textOf saved' ∧
      (∀ link ∈ saved', link ∈ db.added) ∧
        ∀ link ∈ db.added, link ∈ saved → link ∈ saved' := by
    rcases hfile with hfile | hfile
    · exact ⟨saved, hfile.trans h.file, h.saved_mem, fun _ _ hlink => hlink⟩
    · refine ⟨sorted.map Slot.link, hfile.trans (if_neg ?_).symm, hmem,
        fun link hlink _ => hall link hlink⟩
      rw [List.map_eq_nil_iff]
      rintro rfl
      exact hne (List.Perm.nil_eq hperm).symm
  refine ⟨saved', ?_⟩
  exact { h with
    taken := fun slot hslot => h.taken slot (hperm.mem_iff.mp hslot)
    once := ((hperm.filter _).map _).nodup_iff.mpr h.once
    sorted_le := hn
    room := hperm.length_eq.trans_le h.room
    file := htext
    saved_mem := hsaved
    covered := fun link hlink => (h.covered link hlink).imp_right <| Or.imp_left
      fun ⟨slot, hslot, hrest⟩ => ⟨slot, hperm.mem_iff.mpr hslot, hrest⟩
    safe := fun link hlink => (h.safe link hlink).imp_left (hkeeps link hlink)
    pending := fun t a ha =>
      have hp := h.pending t a ha
      ⟨hp.accepted, fun hun slot hslot => hp.fresh hun slot (hperm.mem_iff.mp hslot), hp.loaded,
        hp.new, hp.through⟩
    indexed := fun t a i ha hi => absurd hi (hindexed t a ha i)
    filled := fun i slot hi hslot =>
      absurd ((hwritten slot (List.mem_of_getElem? hi)).symm.trans hslot) (by decide) }

theorem Kept.regroup (h : Kept db saved rest) {thread : ℕ} {a : Adding}
    (ha : db.adding thread = some a) (hstage : a.stage = .saved) {sorted : List Slot}
    (hperm : sorted.Perm db.slots) (opened : Bool)
    (hcalm : Calm db (.regroup thread sorted opened)) :
    ∃ saved', Kept (db.regroup thread sorted opened) saved' rest := by
  have hfinish := h.finish ha hstage
  have hstays : ∀ {t a'}, (db.set thread none).adding t = some a' →
      t ≠ thread ∧ db.adding t = some a' := by
    intro t a' ht
    rw [DB.set_adding] at ht
    split_ifs at ht with hne
    exact ⟨hne, ht⟩
  unfold DB.regroup
  dsimp only
  split
  case isFalse => exact ⟨saved, hfinish⟩
  case isTrue hregroup =>
  split
  case isTrue => exact ⟨saved, { hfinish with sorted_le := isURLDBSorted_le h.sorted_le }⟩
  case isFalse hsorted =>
    obtain ⟨hreading, hindexed⟩ := hcalm hregroup (Bool.eq_false_of_not_eq_true hsorted)
    have hrest := h.rest_nil hreading
    have hne : db.slots ≠ [] := by
      intro hnil
      have hregroup : REGROUP_AFTER_X_UNSORTED_LINKS ≤ db.slots.length - db.sorted_links := hregroup
      rw [hnil, List.length_nil, Nat.zero_sub] at hregroup
      exact absurd hregroup (by decide)
    refine hfinish.sort hperm (fun t a' ht => hindexed t a' (hstays ht).2) hne (fun t a' ht => ?_)
      hrest (isURLDBSorted_le ?_) ?_
    · obtain ⟨hnot, ht⟩ := hstays ht
      cases hsave : a'.saveit with
      | true => rfl
      | false => exact absurd (h.lone t thread a' a ht ha hsave) hnot
    · rw [hperm.length_eq]
      exact isURLDBSorted_le h.sorted_le
    · split_ifs
      · exact .inr rfl
      · exact .inl rfl

theorem Kept.restart (h : Kept db saved rest) (hidle : ∀ t, db.adding t = none) :
    Kept db.restart saved saved := by
  have hall : ∀ link ∈ db.added, link ∈ saved := by
    intro link hlink
    rcases h.safe link hlink with hin | ⟨t, a, ha, -⟩
    · exact hin
    · rw [hidle t] at ha
      cases ha
  exact { h with
    taken := fun _ hslot => nomatch hslot
    once := List.nodup_nil
    sorted_le := le_rfl
    room := le_rfl
    bound := Nat.zero_lt_of_lt h.bound
    reading := h.file
    rest_mem := h.saved_mem
    covered := fun link hlink => .inl (hall link hlink)
    safe := fun link hlink => .inl (hall link hlink)
    pending := fun _ _ ha => nomatch ha
    apart := fun _ _ _ _ _ ha => nomatch ha
    lone := fun _ _ _ _ ha => nomatch ha
    indexed := fun _ _ _ ha => nomatch ha
    alone := fun _ _ _ _ _ ha => nomatch ha
    filled := fun _ _ hslot => nomatch hslot }

/-! The checks. -/

theorem Kept.add (h : Kept db saved rest) {thread : ℕ} (hidle : db.adding thread = none)
    {longURL shortURL : List UInt8} (realloc : Bool) (hloaded : Loaded db)
    (hcalm : Calm db (.add thread longURL shortURL realloc)) :
    Kept (db.check thread longURL shortURL true realloc) saved rest := by
  obtain ⟨hlong, hshort, hapart⟩ := hcalm
  unfold DB.check
  dsimp only
  split_ifs with hrefused hlengths
  · exact h
  · exact h.allocate realloc
  · rw [not_or, Bool.not_eq_true, Option.isSome_eq_false_iff, Option.isNone_iff_eq_none] at hrefused
    rw [not_or, Nat.not_le, Nat.not_le] at hlengths
    have hnone := findLongURL_none hrefused.1
    have hfresh : ∀ slot ∈ db.slots, slot.written = true → slot.link.shortURL ≠ shortURL := by
      intro slot hslot hwritten heq
      refine hnone slot hslot ?_
      rw [← heq]
      exact (h.accepted _ (h.taken slot hslot hwritten)).2
    have hnew : shortURL ∉ db.added.map Link.shortURL := by
      intro hcon
      obtain ⟨link, hlink, heq⟩ := List.mem_map.mp hcon
      rcases h.covered link hlink with hin | ⟨slot, hslot, hwritten, rfl⟩ | ⟨t, a, ha, hsave, -⟩
      · rw [h.rest_nil hloaded.1] at hin
        cases hin
      · exact hfresh slot hslot hwritten heq
      · exact absurd (hsave.symm.trans (hloaded.2 t a ha)) (by decide)
    obtain ⟨hadding, hslots, hadded⟩ := db.allocateLinksIfNeeded_same realloc
    refine (h.allocate realloc).start ?_ rfl ?_ ?_ ?_
    · rw [hadding, hidle]
    · rw [hslots, hadded]
      exact ⟨⟨hlong, hshort, hlengths.1, hlengths.2⟩, fun _ => hfresh,
        fun _ hcon => (by cases hcon), fun _ _ => hnew, fun hcon => absurd trivial hcon⟩
    · rw [hadding]
      exact hapart
    · rw [hadding]
      exact fun t a ha => ⟨rfl, hloaded.2 t a ha⟩

theorem Kept.taken_off {link : Link} (h : Kept db saved (link :: rest))
    (hcovered : Covered db.slots db.adding link) :
    Kept { db with reading := textOf rest } saved rest where
  __ := h
  reading := rfl
  rest_mem link' hlink := h.rest_mem link' (List.mem_cons_of_mem _ hlink)
  covered link' hlink := by
    rcases h.covered link' hlink with hin | hcovered'
    · rcases List.mem_cons.mp hin with rfl | hin
      · exact .inr hcovered
      · exact .inl hin
    · exact .inr hcovered'

theorem Kept.read (h : Kept db saved rest) {thread : ℕ} {file : List UInt8}
    (hfile : db.reading = some file) (hidle : ∀ t, db.adding t = none) (realloc : Bool)
    (hcalm : Calm db (.read thread realloc)) :
    ∃ rest', Kept (db.read thread realloc file) saved rest' := by
  obtain ⟨hlength, hclear⟩ := hcalm
  have htext : some file = textOf rest := hfile.symm.trans h.reading
  cases rest with
  | nil => cases htext
  | cons link rest =>
    obtain rfl : file = fileText (link :: rest) := Option.some.inj htext
    have hin := h.rest_mem link (List.mem_cons_self ..)
    obtain ⟨haccepted, hhash⟩ := h.accepted link hin
    have hwords : ∀ link' ∈ rest, Word link'.longURL := fun link' hlink =>
      (h.accepted link' (h.rest_mem link' (List.mem_cons_of_mem _ hlink))).1.longWord
    obtain ⟨hscan, hscan'⟩ :=
      scanLine_fileText haccepted.longWord haccepted.shortWord hwords
    have hreading : (if fileText rest = [] then none else some (fileText rest)) = textOf rest := by
      simp only [fileText_eq_nil]
      rfl
    have hclear := hclear _ hfile
    rw [hscan, hscan'] at hclear
    refine ⟨rest, ?_⟩
    unfold DB.read
    simp only [hscan, hscan', hreading]
    unfold DB.check
    dsimp only
    split_ifs with hrefused hlengths
    · refine h.taken_off (.inl ?_)
      have hfound := hrefused.resolve_right (Nat.not_le.mpr hlength)
      obtain ⟨i, hi⟩ := Option.isSome_iff_exists.mp hfound
      obtain ⟨slot, hget, heq⟩ := findLongURL_some h.sorted_le hi
      have hslot := List.mem_of_getElem? hget
      obtain ⟨hwritten, hshort⟩ := hclear slot hslot heq
      exact ⟨slot, hslot, hwritten, h.eq_of_shortURL (h.taken slot hslot hwritten) hin hshort⟩
    · exact absurd hlengths (not_or.mpr ⟨Nat.not_le.mpr haccepted.longFits,
        Nat.not_le.mpr haccepted.shortFits⟩)
    · rw [not_or, Bool.not_eq_true, Option.isSome_eq_false_iff,
        Option.isNone_iff_eq_none] at hrefused
      have hnone := findLongURL_none hrefused.1
      have hlink : newLink link.longURL link.shortURL = link := h.link_eq hin
      obtain ⟨hadding, hslots, hadded⟩ := db.allocateLinksIfNeeded_same realloc
      have hfree : (db.allocateLinksIfNeeded realloc).adding thread = none := by
        rw [hadding, hidle]
      have hstart := @Kept.start _ _ _ (h.allocate realloc) thread
        ⟨link.longURL, link.shortURL, false, .checked⟩ hfree rfl ?_ ?_ ?_
      · have hoff := hstart.taken_off (.inr ⟨thread, _, (DB.set_adding ..).trans (if_pos rfl), rfl,
          trivial, hlink⟩)
        have hsame : ({ db with reading := textOf rest }.allocateLinksIfNeeded realloc).set thread
            (some ⟨link.longURL, link.shortURL, false, .checked⟩) =
            { (db.allocateLinksIfNeeded realloc).set thread
                (some ⟨link.longURL, link.shortURL, false, .checked⟩) with
              reading := textOf rest } := by
          unfold DB.allocateLinksIfNeeded
          dsimp only
          split_ifs <;> rfl
        exact hsame ▸ hoff
      · rw [hslots, hadded]
        refine ⟨haccepted, fun _ slot hslot hwritten heq => hnone slot hslot ?_, fun _ _ => ?_,
          fun _ hcon => (by cases hcon), fun hcon => absurd trivial hcon⟩
        · rw [(h.accepted _ (h.taken slot hslot hwritten)).2]
          exact congrArg hashURL heq
        · exact (congrArg (· ∈ db.added) hlink).mpr hin
      · intro t a ha
        rw [hadding, hidle t] at ha
        cases ha
      · intro t a ha
        rw [hadding, hidle t] at ha
        cases ha

/-! Where a short URL leads. -/

theorem Kept.sorted_links_lt (h : Kept db saved rest) : db.sorted_links < 2 ^ 31 := by
  have hbound : MAX_LINKS + LINK_ALLOCATION_STEP < 2 ^ 31 := by decide
  exact (h.sorted_le.trans h.room).trans_lt (h.bound.trans hbound)

theorem Kept.getLongURL_eq (h : Kept db saved rest) (hloaded : Loaded db) {shortURL : List UInt8}
    (hclear : Clear db shortURL) : getLongURL db shortURL = wantedURL db shortURL := by
  have hrest := h.rest_nil hloaded.1
  have hslots : ∀ link ∈ db.added, ∃ slot ∈ db.slots, slot.link = link := by
    intro link hlink
    rcases h.covered link hlink with hin | ⟨slot, hslot, -, heq⟩ | ⟨t, a, ha, hsave, -⟩
    · rw [hrest] at hin
      cases hin
    · exact ⟨slot, hslot, heq⟩
    · exact absurd (hsave.symm.trans (hloaded.2 t a ha)) (by decide)
  unfold getLongURL wantedURL
  cases hfind : findLongURL db.slots db.sorted_links shortURL with
  | none =>
    have hnone : db.added.find? (fun link => link.shortURL = shortURL) = none := by
      refine List.find?_eq_none.mpr fun link hlink hshort => ?_
      obtain ⟨slot, hslot, rfl⟩ := hslots link hlink
      refine findLongURL_none hfind slot hslot ?_
      rw [(h.accepted _ hlink).2, of_decide_eq_true hshort]
    rw [hnone]
    rfl
  | some i =>
    obtain ⟨slot, hget, hhash⟩ := findLongURL_some h.sorted_le hfind
    have hslot := List.mem_of_getElem? hget
    obtain ⟨hwritten, hshort⟩ := hclear slot hslot hhash
    have hin := h.taken slot hslot hwritten
    have hsome : db.added.find? (fun link => link.shortURL = shortURL) = some slot.link := by
      cases hfound : db.added.find? (fun link => link.shortURL = shortURL) with
      | none => exact absurd (decide_eq_true hshort) (List.find?_eq_none.mp hfound slot.link hin)
      | some link =>
        have hsame := List.find?_some hfound
        have heq := of_decide_eq_true hsame
        exact congrArg some
          (h.eq_of_shortURL (List.mem_of_find?_eq_some hfound) hin (heq.trans hshort.symm))
    rw [hsome, Option.bind_some, hget]
    rfl

theorem Kept.mapped (h : Kept db saved rest) : Mapped db (Clear db) where
  returns hne our_hash := by
    have hpos := Nat.pos_of_ne_zero hne
    exact searchLoop_isSome h.sorted_links_lt (Nat.sub_one_lt hne) (by omega)
  once := h.once
  get hloaded _ hclear := h.getLongURL_eq hloaded hclear

/-! Whole runs. -/

theorem Kept.act (h : Kept db saved rest) (e : Event) (hordered : Ordered db e)
    (hcalm : Calm db e) :
    ∃ db' saved' rest', act db e = some db' ∧ Kept db' saved' rest' := by
  have hsame : ∃ db' saved' rest', some db = some db' ∧ Kept db' saved' rest' :=
    ⟨db, saved, rest, rfl, h⟩
  cases e with
  | add thread longURL shortURL realloc =>
    unfold MyURL.act
    dsimp only
    split
    · next hidle => exact ⟨_, saved, rest, rfl, h.add hidle realloc hordered hcalm⟩
    · exact hsame
  | index thread junk =>
    unfold MyURL.act
    dsimp only
    split
    · next longURL shortURL saveit ha =>
      exact ⟨_, saved, rest, rfl, h.index ha rfl junk hcalm⟩
    · exact hsame
  | write thread malloc =>
    unfold MyURL.act
    dsimp only
    split
    · next longURL shortURL saveit i ha =>
      obtain rfl : malloc = true := hcalm
      rw [if_pos rfl]
      obtain ⟨db', heq, hkept⟩ := h.write ha rfl
      exact ⟨db', saved, rest, heq, hkept⟩
    · exact hsame
  | append thread opened =>
    unfold MyURL.act
    dsimp only
    split
    · next longURL shortURL saveit ha =>
      obtain rfl : opened = true := hcalm
      obtain ⟨saved', hkept⟩ := h.append ha rfl
      exact ⟨_, saved', rest, rfl, hkept⟩
    · exact hsame
  | regroup thread sorted opened =>
    unfold MyURL.act
    dsimp only
    split
    · next longURL shortURL saveit ha =>
      obtain ⟨saved', hkept⟩ := h.regroup ha rfl hordered opened hcalm
      exact ⟨_, saved', rest, rfl, hkept⟩
    · exact hsame
  | restart => exact ⟨_, saved, saved, rfl, h.restart hordered⟩
  | read thread realloc =>
    unfold MyURL.act
    dsimp only
    split
    · next file hfile hidle =>
      obtain ⟨rest', hkept⟩ := h.read hfile hordered realloc hcalm
      exact ⟨_, saved, rest', rfl, hkept⟩
    · exact hsame

theorem reaches_kept {state : Option DB} (h : Reaches step Meets (some DB.empty) state) :
    ∃ db saved rest, state = some db ∧ Kept db saved rest := by
  induction h with
  | start => exact ⟨_, [], [], rfl, kept_empty⟩
  | step e _ hmeets ih =>
    obtain ⟨db, saved, rest, rfl, hkept⟩ := ih
    obtain ⟨hordered, hcalm⟩ := hmeets db rfl
    obtain ⟨db', saved', rest', heq, hkept'⟩ := hkept.act e hordered hcalm
    exact ⟨db', saved', rest', heq, hkept'⟩

/-- As long as nothing goes wrong with memory and files, no call for the same short URL is under way
and the sorting comes between the calls, a short URL leads where it is to lead unless its hash is
another link's. -/
theorem links_mapped {state : Option DB} (h : Reaches step Meets (some DB.empty) state) :
    ∃ db, state = some db ∧ Mapped db (Clear db) := by
  obtain ⟨db, _, _, heq, hkept⟩ := reaches_kept h
  exact ⟨db, heq, hkept.mapped⟩

/-! A link is added. -/

def addingRun (longURL shortURL : List UInt8) : List Event :=
  [.add 0 longURL shortURL true, .index 0 (newLink [] []), .write 0 true, .append 0 true]

theorem added_mapped :
    ∃ db, (addingRun (ascii "http://a") (ascii "ab")).foldl step (some DB.empty) = some db ∧
      Mapped db (Clear db) := by
  have hidle : ∀ {t a}, DB.empty.adding t = some a → False := fun ha => nomatch ha
  have hroom : (step (some DB.empty) (.add 0 (ascii "http://a") (ascii "ab") true)).all
      (fun db => db.slots.length < db.allocated_links) = true := by decide
  refine links_mapped (Reaches.start.allowed _ ⟨?_, ?_, ?_, ?_, trivial⟩)
  · intro db hdb
    obtain rfl := Option.some.inj hdb
    exact ⟨⟨rfl, fun t a ha => (hidle ha).elim⟩, ⟨by decide +kernel, by decide +kernel⟩,
      ⟨by decide +kernel, by decide +kernel⟩, fun t a ha => (hidle ha).elim⟩
  · intro db hdb
    rw [hdb] at hroom
    have hroom : decide (db.slots.length < db.allocated_links) = true := hroom
    have hlt : db.slots.length < db.allocated_links := of_decide_eq_true hroom
    exact ⟨trivial, hlt⟩
  · exact fun db _ => ⟨trivial, rfl⟩
  · exact fun db _ => ⟨trivial, rfl⟩

/-- The hash of `ab` is the hash of `bA`. -/
theorem shared_hash_not_mapped :
    ¬ ∀ state, Reaches step Starts (some DB.empty) state →
      ∃ db, state = some db ∧ Mapped db fun _ => True := by
  intro hall
  have hreach : Reaches step Starts (some DB.empty)
      ((addingRun (ascii "http://a") (ascii "ab")).foldl step (some DB.empty)) := by
    refine Reaches.start.allowed _
      ⟨fun db hdb => ?_, fun _ _ => trivial, fun _ _ => trivial, fun _ _ => trivial, trivial⟩
    obtain rfl := Option.some.inj hdb
    exact ⟨rfl, fun t a ha => nomatch ha⟩
  have hget : ((addingRun (ascii "http://a") (ascii "ab")).foldl step (some DB.empty)).all
      (fun db => db.reading = none ∧
        getLongURL db (ascii "bA") = ascii "http://a" ∧
        wantedURL db (ascii "bA") = default_failed) = true := by decide
  have hsave : ∀ t, ((addingRun (ascii "http://a") (ascii "ab")).foldl step (some DB.empty)).all
      (fun db => (db.adding t).all Adding.saveit) = true := by
    intro t
    cases t <;> rfl
  obtain ⟨db, hdb, hmapped⟩ := hall _ hreach
  rw [hdb] at hget
  obtain ⟨hreading, hget, hwanted⟩ := of_decide_eq_true hget
  have hloaded : Loaded db := by
    refine ⟨hreading, fun t a ha => ?_⟩
    have hsave := hsave t
    rw [hdb, Option.all_some, ha] at hsave
    exact hsave
  have hlooked := hmapped.get hloaded (ascii "bA") trivial
  rw [hget, hwanted] at hlooked
  exact absurd hlooked (by decide)

end AmmarServer.MyURL
