import AmmarServer.Lib.Run
import AmmarServer.HabChan.ThreadFiles

/-! A thread and its files over whole runs of posts, deletions and restarts. -/

namespace AmmarServer.HabChan
open Bytes CString TextFile InputParser Run

inductive Event
  | create (threadName title : List UInt8) (newPost : NewPost) (writes : Writes)
      (now later last : Timestamp)
  | reply (newPost : NewPost) (writes : Writes) (now later : Timestamp)
  | deleteReply (postIndex : ℕ) (password : List UInt8) (writes : Writes)
  | deleteThread (password : List UInt8) (opened : Bool)
  | restart (heap : LoadHeap)

/-- The thread in memory and its directory, once it is created. -/
def step (state : Option (Thread × Dir)) (e : Event) : Option (Thread × Dir) :=
  match state, e with
  | none, .create threadName title newPost writes now later last =>
    storeThread threadName title newPost writes now later last
  | none, _ => none
  | some (t, d), .create .. => some (t, d)
  | some (t, d), .reply newPost writes now later =>
    some ((addPostToThread t d newPost writes now later).getD (t, d))
  | some (t, d), .deleteReply postIndex password writes =>
    some ((HabChan.deleteReply t d postIndex password writes).getD (t, d))
  | some (t, d), .deleteThread password opened =>
    some ((HabChan.deleteThread t d password opened).getD (t, d))
  | some (t, d), .restart heap => (loadThread heap t.name (some d)).map fun t => (t, d)

/-! What is to survive. -/

structure SamePost (p p' : Post) (looked : Prop) : Prop where
  op : p'.op = p.op
  password : p'.password = p.password
  deleted : p'.deleted = p.deleted
  fileOriginalName : p'.fileOriginalName = p.fileOriginalName
  fileCachedName : p'.fileCachedName = p.fileCachedName
  creation : p'.creation = p.creation
  message : looked → p'.message = p.message

structure SameThread (t t' : Thread) (looked : Post → Prop) (created : Prop) : Prop where
  title : t'.title = t.title
  op : t'.op = t.op
  password : t'.password = t.password
  deleted : t'.deleted = t.deleted
  lastReply : t'.lastReply = t.lastReply
  creation : created → t'.creation = t.creation
  posts : List.Forall₂ (fun p p' => SamePost p p' (looked p)) t.replies t'.replies
  mayDeleteThread : ∀ d d' password opened,
    (HabChan.deleteThread t' d' password opened).isSome =
      (HabChan.deleteThread t d password opened).isSome
  mayDeleteReply : ∀ d d' postIndex password writes,
    (HabChan.deleteReply t' d' postIndex password writes).isSome =
      (HabChan.deleteReply t d postIndex password writes).isSome

def LoadHeap.full : LoadHeap := ⟨true, true, fun _ => true, fun _ => true⟩

/-- The files can be written, and there is memory. -/
def Works : Event → Prop
  | .create _ _ _ writes _ _ _ | .reply _ writes _ _ =>
    writes.header = true ∧ writes.post = true ∧ writes.status = true
  | .deleteReply _ _ writes => writes.header = true ∧ writes.status = true
  | .deleteThread _ opened => opened = true
  | .restart heap => heap = .full

/-- A post with no delimeter in its fields, as far as they are stored, and a message. -/
structure NewPost.Calm (newPost : NewPost) : Prop where
  op : Plain (stored newPost.op)
  password : Plain (stored newPost.password)
  file : ∀ name bytes, newPost.file = some (name, bytes) → (detectImageType bytes).isSome →
    Plain (stored name)
  message : newPost.message ≠ []

def Calm : Event → Prop
  | .create _ title newPost .. => Plain (stored title) ∧ newPost.Calm
  | .reply newPost .. => newPost.Calm
  | _ => True

def Starts (_ : Option (Thread × Dir)) (e : Event) : Prop := Works e

def Meets (_ : Option (Thread × Dir)) (e : Event) : Prop := Works e ∧ Calm e

/-! The files hold what is in memory. -/

/-- What `loadThread` has of the thread before it reads the posts. -/
def ofStatus (t : Thread) (name : List UInt8) : Thread :=
  { Thread.zero with
    name
    op := t.op
    password := t.password
    deleted := t.deleted
    title := t.title
    lastReply := t.lastReply
    sticky := t.sticky }

structure Posted (t : Thread) (d : Dir) : Prop where
  recorded : Recorded t
  savable : ∀ p ∈ t.replies, Savable p
  room : t.maxNumberOfReplies = MAX_POSTS_PER_THREAD
  header : ∀ (i : ℕ) p, t.replies[i]? = some p →
    loadPostHeader true (d.header i) i = some { p with message := none }
  ends : ∀ i, t.replies.length ≤ i → d.header i = none
  message : ∀ (i : ℕ) p, t.replies[i]? = some p → p.deleted = 0 → d.post i = p.message

structure Saved (t : Thread) (d : Dir) : Prop extends Posted t d where
  status : ∃ text, d.status = some text ∧
    ∀ name, (lines text).foldl statusLine { Thread.zero with name } = ofStatus t name

/-- The replies as they are read back. -/
def reloaded (t : Thread) (d : Dir) : List Post :=
  t.replies.mapIdx fun i p => { p with message := d.post i }

theorem Saved.loadPosts_eq {t : Thread} {d : Dir} (h : Saved t d) {room i : ℕ}
    (hroom : i + room = MAX_POSTS_PER_THREAD) :
    loadPosts .full d room i = (reloaded t d).drop i := by
  have hlength : (reloaded t d).length = t.replies.length := List.length_mapIdx
  induction room generalizing i with
  | zero =>
    have hcount := h.recorded.count
    rw [List.drop_eq_nil_of_le (by omega)]
    rfl
  | succ room ih =>
    unfold loadPosts
    rcases Nat.lt_or_ge i t.replies.length with hlt | hge
    · have hget := List.getElem?_eq_getElem hlt
      have hlt' : i < (reloaded t d).length := by rwa [hlength]
      have hpost : (reloaded t d)[i] = { t.replies[i] with message := d.post i } :=
        List.getElem_mapIdx ..
      have hheader : loadPostHeader (LoadHeap.full.headerParser i) (d.header i) i =
          some { t.replies[i] with message := none } := h.header i _ hget
      rw [hheader, ih (by omega), List.drop_eq_getElem_cons hlt', hpost]
      rfl
    · rw [h.ends i hge, List.drop_eq_nil_of_le (by omega)]
      rfl

/-- The thread as it is read back. -/
def reloadedThread (t : Thread) (d : Dir) : Thread :=
  { ofStatus t (stored t.name) with
    creation := t.lastReply
    maxNumberOfReplies := MAX_POSTS_PER_THREAD
    numberOfImages := (reloaded t d).countP fun p => p.fileOriginalName ≠ []
    replies := reloaded t d }

theorem Saved.loadThread_eq {t : Thread} {d : Dir} (h : Saved t d) :
    loadThread .full t.name (some d) = some (reloadedThread t d) := by
  obtain ⟨text, hstatus, hfold⟩ := h.status
  have hposts := h.loadPosts_eq (Nat.zero_add MAX_POSTS_PER_THREAD)
  rw [List.drop_zero] at hposts
  unfold loadThread
  simp only [hstatus, hfold, hposts]
  rfl

theorem Saved.reloaded_get {t : Thread} {d : Dir} {i : ℕ} {p' : Post}
    (hp' : (reloaded t d)[i]? = some p') :
    ∃ p, t.replies[i]? = some p ∧ p' = { p with message := d.post i } := by
  unfold reloaded at hp'
  rw [List.getElem?_mapIdx] at hp'
  obtain ⟨p, hp, rfl⟩ := Option.map_eq_some_iff.mp hp'
  exact ⟨p, hp, rfl⟩

theorem Savable.message {p : Post} (h : Savable p) (message : Option (List UInt8)) :
    Savable { p with message } := ⟨h.op, h.password, h.original, h.cached, h.file, h.noFile⟩

theorem Saved.restart {t : Thread} {d : Dir} (h : Saved t d) : Saved (reloadedThread t d) d where
  recorded :=
    { op := h.recorded.op
      password := h.recorded.password
      title := h.recorded.title
      count := by
        show (reloaded t d).length ≤ _
        rw [reloaded, List.length_mapIdx]
        exact h.recorded.count
      images := List.countP_le_length }
  savable p' hp' := by
    obtain ⟨i, hi⟩ := List.getElem?_of_mem hp'
    obtain ⟨p, hp, rfl⟩ := Saved.reloaded_get hi
    exact (h.savable p (List.mem_of_getElem? hp)).message _
  room := rfl
  status := h.status
  header i p' hp' := by
    obtain ⟨p, hp, rfl⟩ := Saved.reloaded_get hp'
    exact h.header i p hp
  ends i hi := by
    refine h.ends i (le_trans (le_of_eq ?_) hi)
    exact List.length_mapIdx.symm
  message i p' hp' _ := by
    obtain ⟨p, -, rfl⟩ := Saved.reloaded_get hp'
    rfl

theorem Saved.samePost {t : Thread} {d : Dir} (h : Saved t d) :
    List.Forall₂ (fun p p' => SamePost p p' (p.deleted = 0)) t.replies (reloaded t d) := by
  refine List.forall₂_iff_get.mpr ⟨List.length_mapIdx.symm, fun i hi hi' => ?_⟩
  have hget := List.getElem?_eq_getElem hi
  have hpost : (reloaded t d)[i] = { t.replies[i] with message := d.post i } :=
    List.getElem_mapIdx ..
  rw [List.get_eq_getElem, List.get_eq_getElem, hpost]
  exact ⟨rfl, rfl, rfl, rfl, rfl, rfl, h.message i _ hget⟩

theorem deleteReply_isSome (t : Thread) (d : Dir) (postIndex : ℕ) (password : List UInt8)
    (writes : Writes) :
    (HabChan.deleteReply t d postIndex password writes).isSome =
      (decide (postIndex ≠ 0) && (t.replies[postIndex]?).any fun p =>
        decide (p.deleted = 0) && mayDelete p.password password) := by
  unfold HabChan.deleteReply
  by_cases hzero : postIndex = 0
  · rw [if_pos hzero]
    simp [hzero]
  · rw [if_neg hzero]
    cases hget : t.replies[postIndex]? with
    | none => simp
    | some p =>
      by_cases hdeleted : p.deleted = 0
      · cases hmay : mayDelete p.password password <;> simp [hzero, hdeleted, hmay]
      · simp [hdeleted]

theorem deleteThread_isSome (t : Thread) (d : Dir) (password : List UInt8) (opened : Bool) :
    (HabChan.deleteThread t d password opened).isSome =
      (decide (t.deleted = 0) && mayDelete t.password password) := by
  unfold HabChan.deleteThread
  by_cases hdeleted : t.deleted = 0
  · cases hmay : mayDelete t.password password <;> simp [hdeleted]
  · simp [hdeleted]

theorem Saved.sameThread {t : Thread} {d : Dir} (h : Saved t d) :
    SameThread t (reloadedThread t d) (fun p => p.deleted = 0) (t.creation = t.lastReply) where
  title := rfl
  op := rfl
  password := rfl
  deleted := rfl
  lastReply := rfl
  creation := Eq.symm
  posts := h.samePost
  mayDeleteThread d₁ d₂ password opened := by
    rw [deleteThread_isSome, deleteThread_isSome]
    rfl
  mayDeleteReply d₁ d₂ postIndex password writes := by
    rw [deleteReply_isSome, deleteReply_isSome]
    show (_ && ((reloaded t d)[postIndex]?).any _) = _
    unfold reloaded
    rw [List.getElem?_mapIdx, Option.any_map]

/-! A post is written. -/

theorem kept_stored {s : List UInt8} (h : Plain (stored s)) : Kept (stored s) where
  plain := h
  fits := (List.length_take_le ..).trans_lt (by decide)

theorem detectImageType_plain {bytes ext : List UInt8} (h : detectImageType bytes = some ext) :
    Plain ext ∧ ext.length ≤ 3 := by
  have hnames : ∀ ext ∈ [ascii "jpg", ascii "png", ascii "gif"], Plain ext ∧ ext.length ≤ 3 := by
    decide
  refine hnames ext ?_
  unfold detectImageType at h
  split_ifs at h <;> (obtain rfl := Option.some.inj h; simp)

theorem kept_imageName {postIndex : ℕ} (hindex : postIndex < MAX_POSTS_PER_THREAD)
    {ext : List UInt8} (hplain : Plain ext) (hlength : ext.length ≤ 3) :
    Kept (imageName postIndex ext) where
  plain :=
    (Plain.append (by decide) (plain_decimal postIndex)).append
      (hplain.cons (by decide))
  fits := by
    have hshort : (decimal postIndex).length ≤ 3 :=
      decimal_length (by decide) (hindex.trans (by decide))
    have hleading : (ascii "image_").length = 6 := by decide
    unfold imageName MAX_STRING_SIZE
    rw [List.length_append, List.length_append, List.length_cons, hleading]
    omega

theorem savable_storedPost {newPost : NewPost} (h : newPost.Calm) {postIndex : ℕ}
    (hindex : postIndex < MAX_POSTS_PER_THREAD) (image : Bool) (now : Timestamp) :
    Savable (storedPost postIndex newPost image now) := by
  have hfile : storedFile postIndex image newPost.file = none ∨
      ∃ original cached, storedFile postIndex image newPost.file = some (original, cached) ∧
        Kept original ∧ Kept cached ∧ cached ≠ [] := by
    cases hform : newPost.file with
    | none => exact .inl rfl
    | some file =>
      obtain ⟨name, bytes⟩ := file
      unfold storedFile
      dsimp only
      cases htype : detectImageType bytes with
      | none => exact .inl rfl
      | some ext =>
        obtain ⟨hplain, hlength⟩ := detectImageType_plain htype
        cases image with
        | false => exact .inl rfl
        | true =>
          refine .inr ⟨_, _, rfl, kept_stored (h.file name bytes hform (by rw [htype]; rfl)),
            kept_imageName hindex hplain hlength, ?_⟩
          exact List.append_ne_nil_of_right_ne_nil _ (List.cons_ne_nil _ _)
  rcases hfile with hnone | ⟨original, cached, hsome, horiginal, hcached, hne⟩
  · refine ⟨kept_stored h.op, kept_stored h.password, ?_, ?_, ?_, ?_⟩ <;>
      simp only [storedPost, hnone]
    · exact kept_nil
    · exact kept_nil
    · exact fun hcon => (by cases hcon)
    · exact fun _ => ⟨rfl, rfl⟩
  · refine ⟨kept_stored h.op, kept_stored h.password, ?_, ?_, ?_, ?_⟩ <;>
      simp only [storedPost, hsome]
    · exact horiginal
    · exact hcached
    · exact fun _ => hne
    · exact fun hcon => (by cases hcon)

theorem Posted.save {t : Thread} {d : Dir} (h : Posted t d) : Saved t (saveThreadStatus true d t) where
  recorded := h.recorded
  savable := h.savable
  room := h.room
  header := h.header
  ends := h.ends
  message := h.message
  status := by
    refine ⟨fileText (statusLines t), rfl, fun name => ?_⟩
    rw [lines_fileText h.recorded.lines]
    exact h.recorded.foldl_statusLine name

theorem Posted.addPostToThread {t t' : Thread} {d d' : Dir} (h : Posted t d) {newPost : NewPost}
    (hcalm : newPost.Calm) {writes : Writes} (hheader : writes.header = true)
    (hpost : writes.post = true) (hstatus : writes.status = true) {now later : Timestamp}
    (hadd : HabChan.addPostToThread t d newPost writes now later = some (t', d')) : Saved t' d' := by
  unfold HabChan.addPostToThread at hadd
  split_ifs at hadd with hfull
  have hindex : t.replies.length < MAX_POSTS_PER_THREAD := h.room ▸ Nat.lt_of_not_le hfull
  have hsavable := savable_storedPost hcalm hindex writes.image now
  have hmessage : (storedPost t.replies.length newPost writes.image now).message =
      some newPost.message := rfl
  have hfresh : (storedPost t.replies.length newPost writes.image now).deleted = 0 := rfl
  dsimp only at hadd
  generalize storedPost t.replies.length newPost writes.image now = p at *
  obtain ⟨rfl, rfl⟩ := Prod.mk.inj (Option.some.inj hadd)
  have hfiles : savePostContent true (savePostHeader true d t.replies.length p) t.replies.length p =
      { d with
        header := Function.update d.header t.replies.length (some (fileText (headerLines p)))
        post := Function.update d.post t.replies.length (some newPost.message) } := by
    unfold savePostContent
    rw [hmessage]
    exact if_neg hcalm.message
  rw [hheader, hpost, hstatus, hfiles]
  have hget : ∀ {i : ℕ} {q}, (t.replies ++ [p])[i]? = some q →
      i ≠ t.replies.length ∧ t.replies[i]? = some q ∨ i = t.replies.length ∧ q = p := by
    intro i q hq
    rcases lt_trichotomy i t.replies.length with hlt | heq | hgt
    · rw [List.getElem?_append_left hlt] at hq
      exact .inl ⟨hlt.ne, hq⟩
    · rw [heq, List.getElem?_concat_length] at hq
      exact .inr ⟨heq, (Option.some.inj hq).symm⟩
    · rw [List.getElem?_eq_none (by rw [List.length_append, List.length_singleton]; omega)] at hq
      cases hq
  refine Posted.save
    { recorded := ⟨h.recorded.op, h.recorded.password, h.recorded.title, ?_, ?_⟩
      savable := ?_, room := h.room, header := ?_, ends := ?_, message := ?_ }
  · show (t.replies ++ [p]).length ≤ _
    rw [List.length_append]
    exact hindex
  · show t.numberOfImages + _ ≤ (t.replies ++ [p]).length
    have himages := h.recorded.images
    rw [List.length_append, List.length_singleton]
    split_ifs <;> omega
  · intro q hq
    rcases List.mem_append.mp hq with hq | hq
    · exact h.savable q hq
    · rw [List.mem_singleton.mp hq]
      exact hsavable
  · intro i q hq
    rcases hget hq with ⟨hne, hq⟩ | ⟨rfl, rfl⟩
    · show loadPostHeader true (Function.update d.header _ _ i) i = _
      rw [Function.update_of_ne hne]
      exact h.header i q hq
    · show loadPostHeader true (Function.update d.header _ _ _) _ = _
      rw [Function.update_self]
      exact loadPostHeader_saved hsavable _
  · intro i hi
    have hi : (t.replies ++ [p]).length ≤ i := hi
    rw [List.length_append, List.length_singleton] at hi
    show Function.update d.header _ _ i = none
    rw [Function.update_of_ne (by omega)]
    exact h.ends i (by omega)
  · intro i q hq hdeleted
    rcases hget hq with ⟨hne, hq⟩ | ⟨rfl, rfl⟩
    · show Function.update d.post _ _ i = _
      rw [Function.update_of_ne hne]
      exact h.message i q hq hdeleted
    · show Function.update d.post _ _ _ = _
      rw [Function.update_self, hmessage]

theorem posted_newThread (threadName : List UInt8) {op title password : List UInt8}
    (hop : Plain (stored op)) (htitle : Plain (stored title)) (hpassword : Plain (stored password))
    (now : Timestamp) : Posted (newThread threadName op title password now) .empty where
  recorded := ⟨kept_stored hop, kept_stored hpassword, kept_stored htitle, Nat.zero_le _, le_rfl⟩
  savable _ hp := (by cases hp)
  room := rfl
  header _ _ hp := (by cases hp)
  ends _ _ := rfl
  message _ _ hp := (by cases hp)

/-! What is deleted. -/

theorem Saved.deleteThread {t t' : Thread} {d d' : Dir} (h : Saved t d) {password : List UInt8}
    (hdelete : HabChan.deleteThread t d password true = some (t', d')) : Saved t' d' := by
  unfold HabChan.deleteThread at hdelete
  split_ifs at hdelete
  obtain ⟨rfl, rfl⟩ := Prod.mk.inj (Option.some.inj hdelete)
  refine Posted.save
    { h.toPosted with
      recorded := ⟨h.recorded.op, h.recorded.password, h.recorded.title, h.recorded.count,
        h.recorded.images⟩ }

theorem savable_deletedPost {p : Post} (h : Savable p) : Savable (deletedPost p) :=
  ⟨h.op, h.password, kept_nil, kept_nil, fun hcon => (by cases hcon), fun _ => ⟨rfl, rfl⟩⟩

theorem Saved.deleteReply {t t' : Thread} {d d' : Dir} (h : Saved t d) {postIndex : ℕ}
    {password : List UInt8} {writes : Writes} (hheader : writes.header = true)
    (hstatus : writes.status = true)
    (hdelete : HabChan.deleteReply t d postIndex password writes = some (t', d')) : Saved t' d' := by
  unfold HabChan.deleteReply at hdelete
  split_ifs at hdelete with hzero
  cases hget : t.replies[postIndex]? with
  | none =>
    rw [hget] at hdelete
    cases hdelete
  | some p =>
    rw [hget] at hdelete
    dsimp only at hdelete
    have himages : (if p.hasFile ∧ p.fileCachedName ≠ [] then t.numberOfImages - 1
        else t.numberOfImages) ≤ t.numberOfImages := by
      split_ifs
      · exact Nat.sub_le ..
      · exact le_rfl
    generalize (if p.hasFile ∧ p.fileCachedName ≠ [] then t.numberOfImages - 1
      else t.numberOfImages) = images at hdelete himages
    split_ifs at hdelete
    obtain ⟨rfl, rfl⟩ := Prod.mk.inj (Option.some.inj hdelete)
    have hlt := (List.getElem?_eq_some_iff.mp hget).1
    have hsavable := savable_deletedPost (h.savable p (List.mem_of_getElem? hget))
    have hcases : ∀ {i : ℕ} {q}, (t.replies.set postIndex (deletedPost p))[i]? = some q →
        i ≠ postIndex ∧ t.replies[i]? = some q ∨ i = postIndex ∧ q = deletedPost p := by
      intro i q hq
      rcases eq_or_ne i postIndex with rfl | hne
      · rw [List.getElem?_set_self hlt] at hq
        exact .inr ⟨rfl, (Option.some.inj hq).symm⟩
      · rw [List.getElem?_set_ne hne.symm] at hq
        exact .inl ⟨hne, hq⟩
    -- the empty message is not written
    have hfiles : savePostContent writes.post (savePostHeader true d postIndex (deletedPost p))
        postIndex (deletedPost p) =
        { d with
          header :=
            Function.update d.header postIndex (some (fileText (headerLines (deletedPost p)))) } :=
      rfl
    rw [hheader, hstatus, hfiles]
    refine Posted.save
      { recorded := ⟨h.recorded.op, h.recorded.password, h.recorded.title, ?_, ?_⟩
        savable := ?_, room := h.room, header := ?_, ends := ?_, message := ?_ }
    · show (t.replies.set _ _).length ≤ _
      rw [List.length_set]
      exact h.recorded.count
    · show images ≤ (t.replies.set _ _).length
      rw [List.length_set]
      exact himages.trans h.recorded.images
    · intro q hq
      obtain ⟨i, hi⟩ := List.getElem?_of_mem hq
      rcases hcases hi with ⟨-, hi⟩ | ⟨-, rfl⟩
      · exact h.savable q (List.mem_of_getElem? hi)
      · exact hsavable
    · intro i q hq
      rcases hcases hq with ⟨hne, hq⟩ | ⟨rfl, rfl⟩
      · show loadPostHeader true (Function.update d.header _ _ i) i = _
        rw [Function.update_of_ne hne]
        exact h.header i q hq
      · show loadPostHeader true (Function.update d.header _ _ _) _ = _
        rw [Function.update_self]
        exact loadPostHeader_saved hsavable _
    · intro i hi
      have hi : (t.replies.set postIndex (deletedPost p)).length ≤ i := hi
      rw [List.length_set] at hi
      show Function.update d.header _ _ i = none
      rw [Function.update_of_ne (by omega)]
      exact h.ends i hi
    · intro i q hq hdeleted
      rcases hcases hq with ⟨-, hq⟩ | ⟨-, rfl⟩
      · exact h.message i q hq hdeleted
      · have hone : (1 : UInt8) = 0 := hdeleted
        exact absurd hone (by decide)

/-! Whole runs. -/

theorem Saved.step {t : Thread} {d : Dir} (h : Saved t d) {e : Event} (hmeets : Works e ∧ Calm e) :
    ∃ t' d', HabChan.step (some (t, d)) e = some (t', d') ∧ Saved t' d' := by
  obtain ⟨hworks, hcalm⟩ := hmeets
  cases e with
  | create => exact ⟨t, d, rfl, h⟩
  | reply newPost writes now later =>
    obtain ⟨hheader, hpost, hstatus⟩ := hworks
    cases hadd : HabChan.addPostToThread t d newPost writes now later with
    | none => exact ⟨t, d, congrArg (fun o => some (Option.getD o (t, d))) hadd, h⟩
    | some td =>
      exact ⟨td.1, td.2, congrArg (fun o => some (Option.getD o (t, d))) hadd,
        h.addPostToThread hcalm hheader hpost hstatus hadd⟩
  | deleteReply postIndex password writes =>
    obtain ⟨hheader, hstatus⟩ := hworks
    cases hdelete : HabChan.deleteReply t d postIndex password writes with
    | none => exact ⟨t, d, congrArg (fun o => some (Option.getD o (t, d))) hdelete, h⟩
    | some td =>
      exact ⟨td.1, td.2, congrArg (fun o => some (Option.getD o (t, d))) hdelete,
        h.deleteReply hheader hstatus hdelete⟩
  | deleteThread password opened =>
    obtain rfl : opened = true := hworks
    cases hdelete : HabChan.deleteThread t d password true with
    | none => exact ⟨t, d, congrArg (fun o => some (Option.getD o (t, d))) hdelete, h⟩
    | some td =>
      exact ⟨td.1, td.2, congrArg (fun o => some (Option.getD o (t, d))) hdelete,
        h.deleteThread hdelete⟩
  | restart heap =>
    obtain rfl : heap = .full := hworks
    exact ⟨_, d, congrArg (Option.map fun t => (t, d)) h.loadThread_eq, h.restart⟩

theorem reaches_saved {state : Option (Thread × Dir)} (h : Reaches step Meets none state) :
    ∀ t d, state = some (t, d) → Saved t d := by
  induction h with
  | start => exact fun t d hcon => (by cases hcon)
  | @step state e _ hmeets ih =>
    intro t' d' hstate
    cases state with
    | some td =>
      obtain ⟨t₁, d₁, hstep, hsaved⟩ := (ih td.1 td.2 rfl).step hmeets
      obtain ⟨rfl, rfl⟩ := Prod.mk.inj (Option.some.inj (hstep.symm.trans hstate))
      exact hsaved
    | none =>
      cases e with
      | create threadName title newPost writes now later last =>
        obtain ⟨⟨hheader, hpost, hstatus⟩, htitle, hcalm⟩ := hmeets
        exact (posted_newThread threadName hcalm.op htitle hcalm.password now).addPostToThread hcalm
          hheader hpost hstatus hstate
      | reply => cases hstate
      | deleteReply => cases hstate
      | deleteThread => cases hstate
      | restart => cases hstate

/-- As long as no field has a delimeter in it and no message is empty, what is loaded is what was
there, but for the messages of the replies that were deleted and for the creation of a thread that
was replied to. -/
theorem thread_survives {t : Thread} {d : Dir} (h : Reaches step Meets none (some (t, d))) :
    ∃ t', loadThread .full t.name (some d) = some t' ∧
      SameThread t t' (fun p => p.deleted = 0) (t.creation = t.lastReply) := by
  have hsaved := reaches_saved h t d rfl
  exact ⟨_, hsaved.loadThread_eq, hsaved.sameThread⟩

/-! A thread is created. -/

def noon : Timestamp := ⟨2026, 1, 2, 12, 0, 0⟩

def hello (title : String) : Event :=
  .create (ascii "000000001") (ascii title) ⟨ascii "Anonymous", ascii "secret", ascii "Hello", none⟩
    ⟨true, true, true, true⟩ noon noon noon

theorem hello_survives :
    ∃ t d t', step none (hello "Hi") = some (t, d) ∧ loadThread .full t.name (some d) = some t' ∧
      SameThread t t' (fun p => p.deleted = 0) (t.creation = t.lastReply) := by
  cases hstep : step none (hello "Hi") with
  | none =>
    have hsome : (step none (hello "Hi")).isSome = true := rfl
    rw [hstep] at hsome
    cases hsome
  | some td =>
    have hmeets : Works (hello "Hi") ∧ Calm (hello "Hi") :=
      ⟨⟨rfl, rfl, rfl⟩, by decide, by decide, by decide,
        fun _ _ hfile => (by cases hfile), by decide⟩
    have hreach : Reaches step Meets none (some (td.1, td.2)) := hstep ▸ Reaches.start.step _ hmeets
    obtain ⟨t', hload, hsame⟩ := thread_survives hreach
    exact ⟨td.1, td.2, t', rfl, hload, hsame⟩

/-- A title with a line of its own. -/
theorem forged_deleted :
    ¬ ∀ t d, Reaches step Starts none (some (t, d)) →
      ∃ t', loadThread .full t.name (some d) = some t' ∧ SameThread t t' (fun _ => True) True := by
  intro hall
  have hforged : (step none (hello "Hi\ndeleted(1")).any
      (fun td => td.1.deleted = 0 ∧
        (loadThread .full td.1.name (some td.2)).any fun t' => t'.deleted = 1) = true := by
    decide +kernel
  cases hstep : step none (hello "Hi\ndeleted(1") with
  | none =>
    rw [hstep] at hforged
    cases hforged
  | some td =>
    have hworks : Works (hello "Hi\ndeleted(1") := ⟨rfl, rfl, rfl⟩
    have hreach : Reaches step Starts none (some (td.1, td.2)) := hstep ▸ Reaches.start.step _ hworks
    obtain ⟨t', hload, hsame⟩ := hall td.1 td.2 hreach
    rw [hstep, Option.any_some, decide_eq_true_eq, hload] at hforged
    have hdeleted := of_decide_eq_true hforged.2
    rw [hsame.deleted, hforged.1] at hdeleted
    exact absurd hdeleted (by decide)

end AmmarServer.HabChan
