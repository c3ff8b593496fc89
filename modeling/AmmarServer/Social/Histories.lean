import Mathlib.Data.List.Forall2
import Mathlib.Data.List.Pairwise
import Mathlib.Tactic.Tauto
import AmmarServer.Lib.Run
import AmmarServer.Social.PostChanges

/-! The histories of the store: what every one of them keeps, and the ones in which the code keeps
what it is for. -/

namespace AmmarServer.Social
open Bytes CString TextFile Run

/-! ## Histories -/

/-- The store, the identifiers that were given to posts, the latest first, and whether a restart has
found the newest post gone. -/
structure History where
  store : Store
  given : List UInt32
  newestGone : Bool

inductive Event
  /-- With the name of a file that was uploaded for the post. -/
  | addPost (author wall text : List UInt8) (media : Option (List UInt8)) (time : UInt64)
  | addComment (postID : UInt32) (author text : List UInt8) (time : UInt64)
  | toggleLike (postID : UInt32) (username : List UInt8)
  | deletePost (postID : UInt32) (requester : List UInt8)
  | deleteComment (postID : UInt32) (commentIndex : ℕ) (requester : List UInt8)
  | restart

/-- `mediaStoreFromRequest` and `addPost`, as in `post_callback`. -/
def storeAndPost (s : Store) (author wall text : List UInt8) (media : Option (List UInt8))
    (time : UInt64) : Store × Bool :=
  addPost { s with uploads := media.toList ++ s.uploads } author wall text (media.getD []) time

def step (h : History) : Event → History
  | .addPost author wall text media time =>
    let (store, added) := storeAndPost h.store author wall text media time
    { h with store := store, given := if added then h.store.nextPostID :: h.given else h.given }
  | .addComment postID author text time =>
    { h with store := (addComment h.store postID author text time).1 }
  | .toggleLike postID username => { h with store := (toggleLike h.store postID username).1 }
  | .deletePost postID requester => { h with store := (deletePost h.store postID requester).1 }
  | .deleteComment postID commentIndex requester =>
    { h with store := (deleteComment h.store postID commentIndex requester).1 }
  | .restart =>
    { h with
      store := restart h.store
      newestGone := h.newestGone ||
        h.given.head?.any fun id => !h.store.posts.any fun p => p.id == id }

/-- A site that nobody has written to. -/
def History.initial : History where
  store := { posts := [], nextPostID := 1, file := none, uploads := [] }
  given := []
  newestGone := false

/-- An event of registered users; the clock is not negative, and an upload has a new name. -/
def Valid (h : History) : Event → Prop
  | .addPost author wall _ media time =>
    isValidUsername author = true ∧ (wall = [] ∨ isValidUsername wall = true) ∧
      time.toNat < 2 ^ 63 ∧ ∀ name, media = some name → IsStored name ∧ name ∉ h.store.uploads
  | .addComment _ author _ time => isValidUsername author = true ∧ time.toNat < 2 ^ 63
  | .toggleLike _ username => isValidUsername username = true
  | .deletePost _ requester => isValidUsername requester = true
  | .deleteComment _ _ requester => isValidUsername requester = true
  | .restart => True

/-- A post that `addPost` does not refuse. -/
def IsPost (text : List UInt8) (media : Option (List UInt8)) : Prop :=
  sanitizeText text MAX_POST_TEXT ≠ [] ∨ media ≠ none

/-- The events that the store is up to: a post comes while there are identifiers, after no restart
that found the newest post gone, and pushes none out that has an upload. -/
def Permitted (h : History) : Event → Prop
  | .addPost _ _ text media _ => IsPost text media →
    h.given.length < 2 ^ 32 - 2 ∧ h.newestGone = false ∧
      (MAX_POSTS ≤ h.store.posts.length → ∀ p, h.store.posts.head? = some p → p.media = [])
  | _ => True

/-! ## What the store is for -/

/-- The same post, with the same likes in some order. -/
def SameLikes (p q : SocialPost) : Prop :=
  q = { p with likedBy := q.likedBy } ∧ q.likedBy.Perm p.likedBy

/-- What holds between two events. -/
structure Sound (h : History) : Prop where
  reloaded : (started h.store).posts = h.store.posts
  restarted : (restart h.store).posts = h.store.posts
  likes : ∀ p ∈ h.store.posts, p.likedBy.Nodup
  toggles : ∀ postID username, isValidUsername username = true →
    List.Forall₂ SameLikes h.store.posts
      (toggleLike (toggleLike h.store postID username).1 postID username).1.posts
  given : h.given.Nodup
  uploads : ∀ name, name ∈ h.store.uploads ↔ ∃ p ∈ h.store.posts, p.media = name ∧ name ≠ []

/-- Why a post disappears. -/
def Removes (h : History) (p : SocialPost) : Event → Prop
  | .deletePost postID requester =>
    p.id = postID ∧ (p.author = requester ∨ p.wall = requester)
  | .addPost .. => MAX_POSTS ≤ h.store.posts.length ∧ h.store.posts.head? = some p
  | _ => False

/-- What becomes of the comments of a post that stays. -/
def Comments (p q : SocialPost) : Event → Prop
  | .addComment .. => p.comments <+: q.comments
  | .deleteComment postID commentIndex requester =>
    q.comments = p.comments ∨
      p.id = postID ∧ (∃ c, p.comments[commentIndex]? = some c ∧ c.author = requester) ∧
        q.comments = p.comments.eraseIdx commentIndex
  | _ => q.comments = p.comments

/-- What an event does. -/
structure Explained (h : History) (e : Event) (h' : History) : Prop where
  posts : ∀ p ∈ h.store.posts, (∃ q ∈ h'.store.posts, SamePost p q) ∨ Removes h p e
  comments : ∀ p ∈ h.store.posts, ∀ q ∈ h'.store.posts, q.id = p.id → Comments p q e
  media : ∀ p ∈ h.store.posts, p.media ≠ [] →
    (p.media ∉ h'.store.uploads ↔ ∀ q ∈ h'.store.posts, q.id ≠ p.id)

/-! ## The invariant -/

/-- The identifiers 1 to `n`, the latest first. -/
def numbered : ℕ → List UInt32
  | 0 => []
  | n + 1 => UInt32.ofNat (n + 1) :: numbered n

structure Sane (posts : List SocialPost) (nextPostID : UInt32) : Prop where
  kept : ∀ p ∈ posts, Kept p
  room : posts.length ≤ MAX_POSTS
  ordered : (posts.map (·.id)).Pairwise (· < ·)
  below : ∀ id ∈ posts.map (·.id), 0 < id ∧ id < nextPostID

/-- The uploads are the media of the posts, and no two posts have one in common. -/
structure Attached (posts : List SocialPost) (uploads : List (List UInt8)) : Prop where
  uploads : ∀ name, name ∈ uploads ↔ name ∈ posts.map (·.media) ∧ name ≠ []
  distinct : (posts.map (·.media)).Pairwise fun m m' => m = m' → m = []

structure Inv (h : History) : Prop where
  sane : Sane h.store.posts h.store.nextPostID
  attached : Attached h.store.posts h.store.uploads
  file : h.store.posts = [] ∧ h.store.file = none ∨
    h.store.file = some (postsText h.store.posts)
  given : h.given = numbered h.given.length
  bound : h.given.length ≤ 2 ^ 32 - 2
  positive : 0 < h.store.nextPostID.toNat
  gone : h.newestGone = true → h.store.nextPostID.toNat ≤ h.given.length
  newest : h.newestGone = false → h.store.nextPostID.toNat = h.given.length + 1

/-! ## Identifiers -/

theorem mem_numbered {n : ℕ} (hn : n < 2 ^ 32) {id : UInt32} :
    id ∈ numbered n ↔ 0 < id.toNat ∧ id.toNat ≤ n := by
  induction n with
  | zero =>
    refine iff_of_false List.not_mem_nil fun h => ?_
    omega
  | succ n ih =>
    have hnat : (UInt32.ofNat (n + 1)).toNat = n + 1 := by
      rw [UInt32.toNat_ofNat']
      exact Nat.mod_eq_of_lt hn
    rw [numbered, List.mem_cons, ih (Nat.lt_of_succ_lt hn), ← UInt32.toNat_inj, hnat]
    omega

theorem nodup_numbered {n : ℕ} (hn : n < 2 ^ 32) : (numbered n).Nodup := by
  induction n with
  | zero => exact List.nodup_nil
  | succ n ih =>
    rw [numbered, List.nodup_cons]
    refine ⟨fun hcon => ?_, ih (Nat.lt_of_succ_lt hn)⟩
    have hle := ((mem_numbered (Nat.lt_of_succ_lt hn)).mp hcon).2
    rw [UInt32.toNat_ofNat', Nat.mod_eq_of_lt hn] at hle
    exact Nat.not_succ_le_self n hle

theorem toNat_add_one {id : UInt32} (h : id.toNat < 2 ^ 32 - 1) :
    (id + 1).toNat = id.toNat + 1 := by
  rw [UInt32.toNat_add]
  exact Nat.mod_eq_of_lt (by
    show id.toNat + 1 < 2 ^ 32
    omega)

theorem foldl_behind {posts : List SocialPost} {n : UInt32}
    (hordered : (posts.map (·.id)).Pairwise (· < ·))
    (hids : ∀ id ∈ posts.map (·.id), n ≤ id ∧ id.toNat < 2 ^ 32 - 1) :
    posts.foldl behind n = n ∧ posts = [] ∨
      ∃ p ∈ posts, posts.foldl behind n = p.id + 1 ∧ ∀ q ∈ posts, q.id ≤ p.id := by
  induction posts generalizing n with
  | nil => exact .inl ⟨rfl, rfl⟩
  | cons p posts ih =>
    rw [List.map_cons, List.pairwise_cons] at hordered
    rw [List.map_cons, List.forall_mem_cons] at hids
    obtain ⟨⟨hle, hsmall⟩, hids⟩ := hids
    have hbehind : behind n p = p.id + 1 := if_pos hle
    have hsucc : ∀ id ∈ posts.map (·.id), p.id + 1 ≤ id ∧ id.toNat < 2 ^ 32 - 1 := by
      intro id hid
      have hlt := UInt32.lt_iff_toNat_lt.mp (hordered.1 id hid)
      refine ⟨?_, (hids id hid).2⟩
      rw [UInt32.le_iff_toNat_le, toNat_add_one hsmall]
      exact hlt
    right
    rw [List.foldl_cons, hbehind]
    rcases ih hordered.2 hsucc with ⟨hfold, rfl⟩ | ⟨last, hlast, hfold, hmax⟩
    · refine ⟨p, List.mem_cons_self .., hfold, fun q hq => ?_⟩
      rw [List.mem_singleton.mp hq]
      exact UInt32.le_refl _
    · refine ⟨last, List.mem_cons_of_mem _ hlast, hfold, fun q hq => ?_⟩
      rcases List.mem_cons.mp hq with rfl | hq
      · exact UInt32.le_of_lt (hordered.1 _ (List.mem_map_of_mem hlast))
      · exact hmax q hq

/-! ## Lists of posts -/

section Lists

variable {posts l r : List SocialPost} {p q : SocialPost} {n : UInt32} {uploads : List (List UInt8)}

theorem Sane.eq_of_id (h : Sane posts n) (hp : p ∈ posts) (hq : q ∈ posts) (hid : p.id = q.id) :
    p = q := by
  have hsymm : Std.Symm fun p q : SocialPost => p.id = q.id → p = q :=
    ⟨fun _ _ h heq => (h heq.symm).symm⟩
  have hpairwise : posts.Pairwise fun p q => p.id = q.id → p = q := by
    refine (List.pairwise_map.mp h.ordered).imp fun {p q} hlt heq => ?_
    rw [heq] at hlt
    exact absurd hlt (UInt32.lt_irrefl _)
  exact hpairwise.forall_of_forall (fun _ _ _ => rfl) hp hq hid

theorem Attached.eq_of_media (h : Attached posts uploads) (hp : p ∈ posts) (hq : q ∈ posts)
    (hmedia : p.media = q.media) (hne : p.media ≠ []) : p = q := by
  have hsymm : Std.Symm fun p q : SocialPost => p.media = q.media → p.media ≠ [] → p = q :=
    ⟨fun _ _ h heq hne => (h heq.symm (heq ▸ hne)).symm⟩
  have hpairwise : posts.Pairwise fun p q => p.media = q.media → p.media ≠ [] → p = q :=
    (List.pairwise_map.mp h.distinct).imp fun hnone heq hne => absurd (hnone heq) hne
  exact hpairwise.forall_of_forall (fun _ _ _ _ => rfl) hp hq hmedia hne

theorem Sane.replace (h : Sane (l ++ p :: r) n) (hkept : Kept q) (hid : q.id = p.id) :
    Sane (l ++ q :: r) n := by
  have hmap : (l ++ q :: r).map (·.id) = (l ++ p :: r).map (·.id) := by
    rw [List.map_append, List.map_append, List.map_cons, List.map_cons, hid]
  refine ⟨fun x hx => ?_, ?_, hmap ▸ h.ordered, hmap ▸ h.below⟩
  · rcases List.mem_append.mp hx with hx | hx
    · exact h.kept x (List.mem_append_left _ hx)
    · rcases List.mem_cons.mp hx with rfl | hx
      · exact hkept
      · exact h.kept x (List.mem_append_right _ (List.mem_cons_of_mem _ hx))
  · have hroom := h.room
    rw [List.length_append, List.length_cons] at hroom ⊢
    exact hroom

theorem Attached.replace (h : Attached (l ++ p :: r) uploads) (hmedia : q.media = p.media) :
    Attached (l ++ q :: r) uploads := by
  have hmap : (l ++ q :: r).map (·.media) = (l ++ p :: r).map (·.media) := by
    rw [List.map_append, List.map_append, List.map_cons, List.map_cons, hmedia]
  exact ⟨hmap ▸ h.uploads, hmap ▸ h.distinct⟩

theorem Sane.sublist (h : Sane posts n) {posts' : List SocialPost} (hsub : posts'.Sublist posts) :
    Sane posts' n :=
  ⟨fun p hp => h.kept p (hsub.subset hp), hsub.length_le.trans h.room,
    h.ordered.sublist (hsub.map _), fun id hid => h.below id ((hsub.map _).subset hid)⟩

theorem Attached.remove (h : Attached (l ++ p :: r) uploads) :
    Attached (l ++ r)
      (if p.media = [] then uploads else uploads.filter fun name => name != p.media) := by
  have hsub : ((l ++ r).map (·.media)).Sublist ((l ++ p :: r).map (·.media)) :=
    (List.Sublist.append_left (List.sublist_cons_self ..) l).map _
  refine ⟨fun name => ?_, h.distinct.sublist hsub⟩
  have hmem : name ∈ (l ++ p :: r).map (·.media) ↔
      name ∈ (l ++ r).map (·.media) ∨ name = p.media := by
    simp only [List.map_append, List.map_cons, List.mem_append, List.mem_cons]
    tauto
  split
  · rename_i hnone
    rw [h.uploads, hmem, hnone]
    tauto
  · rename_i hsome
    rw [List.mem_filter, h.uploads, hmem, bne_iff_ne]
    have hother : p.media ∉ (l ++ r).map (·.media) := by
      have hdistinct := h.distinct
      rw [List.map_append, List.map_cons, List.pairwise_append, List.pairwise_cons] at hdistinct
      rw [List.map_append, List.mem_append, not_or]
      refine ⟨fun hcon => ?_, fun hcon => hsome (hdistinct.2.1.1 _ hcon rfl)⟩
      exact hsome (hdistinct.2.2 _ hcon _ (List.mem_cons_self ..) rfl)
    constructor
    · rintro ⟨⟨hl | rfl, hne⟩, hname⟩
      · exact ⟨hl, hne⟩
      · exact absurd rfl hname
    · rintro ⟨hl, hne⟩
      refine ⟨⟨.inl hl, hne⟩, ?_⟩
      rintro rfl
      exact hother hl

end Lists

end AmmarServer.Social
