import AmmarServer.Social.Histories

/-! What each event keeps, and what a whole history of permitted events does. -/

namespace AmmarServer.Social
open Bytes CString TextFile Run

variable {h h' : History} {e : Event}

/-! ## Explanations -/

theorem comments_refl (p : SocialPost) (e : Event) : Comments p p e := by
  cases e with
  | addComment => exact List.prefix_refl _
  | deleteComment => exact .inl rfl
  | _ => rfl

theorem explained_of (hinv : Inv h) (hinv' : Inv h')
    (hfrom : ∀ q ∈ h'.store.posts,
      (∃ p ∈ h.store.posts, SamePost p q ∧ Comments p q e) ∨
        ∀ p ∈ h.store.posts, q.id ≠ p.id ∧ (p.media ≠ [] → q.media ≠ p.media))
    (hto : ∀ p ∈ h.store.posts, (∃ q ∈ h'.store.posts, SamePost p q) ∨ Removes h p e) :
    Explained h e h' := by
  refine ⟨hto, fun p hp q hq hid => ?_, fun p hp hne => ⟨fun hgone q hq hid => ?_, fun hgone => ?_⟩⟩
  · rcases hfrom q hq with ⟨p', hp', hsame, hcomments⟩ | hnew
    · have heq := hinv.sane.eq_of_id hp' hp (hsame.id.symm.trans hid)
      exact heq ▸ hcomments
    · exact absurd hid (hnew p hp).1
  · rcases hfrom q hq with ⟨p', hp', hsame, -⟩ | hnew
    · have heq := hinv.sane.eq_of_id hp' hp (hsame.id.symm.trans hid)
      refine hgone ((hinv'.attached.uploads _).mpr ⟨?_, hne⟩)
      rw [← heq, ← hsame.media]
      exact List.mem_map_of_mem hq
    · exact (hnew p hp).1 hid
  · intro hcon
    obtain ⟨hmem, -⟩ := (hinv'.attached.uploads _).mp hcon
    obtain ⟨q, hq, hmedia⟩ := List.mem_map.mp hmem
    rcases hfrom q hq with ⟨p', hp', hsame, -⟩ | hnew
    · have heq := hinv.attached.eq_of_media hp hp' (hmedia.symm.trans hsame.media) hne
      exact hgone q hq (heq ▸ hsame.id)
    · exact (hnew p hp).2 hne hmedia

theorem explained_of_eq (hinv : Inv h) (hinv' : Inv h')
    (hposts : h'.store.posts = h.store.posts) : Explained h e h' := by
  apply explained_of hinv hinv'
  · intro q hq
    rw [hposts] at hq
    exact .inl ⟨q, hq, SamePost.refl q, comments_refl q e⟩
  · intro p hp
    exact .inl ⟨p, hposts ▸ hp, SamePost.refl p⟩

/-! ## Changed posts -/

theorem Inv.saved (hinv : Inv h) {posts : List SocialPost} {uploads : List (List UInt8)}
    (hsane : Sane posts h.store.nextPostID) (hattached : Attached posts uploads) :
    Inv { h with
      store := { savePostsUnlocked { h.store with posts := posts } with uploads := uploads } } :=
  ⟨hsane, hattached, .inr rfl, hinv.given, hinv.bound, hinv.positive, hinv.gone, hinv.newest⟩

theorem Inv.change (hinv : Inv h) {postID : UInt32} {change : SocialPost → Option SocialPost}
    (hchange : ∀ p q, p.id = postID → Kept p → change p = some q →
      Kept q ∧ SamePost p q ∧ Comments p q e) :
    Inv { h with store := (changePost h.store postID change).1 } ∧
      Explained h e { h with store := (changePost h.store postID change).1 } := by
  rcases changePost_cases h.store postID change with heq | ⟨l, p, r, q, hposts, -, hp, hsome, heq⟩
  · rw [heq]
    exact ⟨hinv, explained_of_eq hinv hinv rfl⟩
  · have hsane := hinv.sane
    have hattached := hinv.attached
    rw [hposts] at hsane hattached
    have hmem : p ∈ l ++ p :: r := List.mem_append_right _ (List.mem_cons_self ..)
    obtain ⟨hkept, hsame, hcomments⟩ := hchange p q hp (hsane.kept p hmem) hsome
    have hinv' : Inv { h with store := savePostsUnlocked { h.store with posts := l ++ q :: r } } :=
      hinv.saved (hsane.replace hkept hsame.id) (hattached.replace hsame.media)
    rw [heq]
    refine ⟨hinv', explained_of hinv hinv' (fun x hx => .inl ?_) fun x hx => .inl ?_⟩
    · rw [hposts]
      rcases List.mem_append.mp hx with hx | hx
      · exact ⟨x, List.mem_append_left _ hx, SamePost.refl x, comments_refl x e⟩
      · rcases List.mem_cons.mp hx with rfl | hx
        · exact ⟨p, hmem, hsame, hcomments⟩
        · exact ⟨x, List.mem_append_right _ (List.mem_cons_of_mem _ hx), SamePost.refl x,
            comments_refl x e⟩
    · rw [hposts] at hx
      rcases List.mem_append.mp hx with hx | hx
      · exact ⟨x, List.mem_append_left _ hx, SamePost.refl x⟩
      · rcases List.mem_cons.mp hx with rfl | hx
        · exact ⟨q, List.mem_append_right _ (List.mem_cons_self ..), hsame⟩
        · exact ⟨x, List.mem_append_right _ (List.mem_cons_of_mem _ hx), SamePost.refl x⟩

theorem Kept.withComments {p : SocialPost} (h : Kept p) {comments : List SocialComment}
    (hcomments : ∀ c ∈ comments, SavableComment c)
    (hroom : comments.length ≤ MAX_COMMENTS_PER_POST) : Kept { p with comments := comments } :=
  ⟨⟨h.author, h.wall, h.timestamp, h.text, h.media, hcomments, hroom, h.likedBy, h.likesRoom⟩,
    h.nodup, h.stored⟩

theorem Kept.withLikes {p : SocialPost} (h : Kept p) {names : List (List UInt8)}
    (hnames : ∀ name ∈ names, Fits MAX_USERNAME name ∧ name ≠ [])
    (hroom : names.length ≤ MAX_LIKES_PER_POST) (hnodup : names.Nodup) :
    Kept { p with likedBy := names } :=
  ⟨⟨h.author, h.wall, h.timestamp, h.text, h.media, h.comments, h.commentsRoom, hnames, hroom⟩,
    hnodup, h.stored⟩

theorem Inv.addComment (hinv : Inv h) {postID : UInt32} {author text : List UInt8} {time : UInt64}
    (hvalid : Valid h (.addComment postID author text time)) :
    Inv (step h (.addComment postID author text time)) ∧
      Explained h (.addComment postID author text time)
        (step h (.addComment postID author text time)) := by
  obtain ⟨hauthor, htime⟩ := hvalid
  obtain ⟨hfits, hne⟩ := fits_of_isValidUsername hauthor
  have htext := sanitizeText_fits text
  unfold step Social.addComment
  dsimp only
  rw [if_neg hne]
  split
  · exact ⟨hinv, explained_of_eq hinv hinv rfl⟩
  · refine hinv.change fun p q _ hkept hsome => ?_
    split at hsome
    · rename_i hroom
      rw [hfits.printed, htext.printed] at hsome
      obtain rfl := Option.some.inj hsome
      refine ⟨hkept.withComments ?_ ?_, ⟨rfl, rfl, rfl, rfl, rfl, rfl⟩, List.prefix_append ..⟩
      · intro c hc
        rcases List.mem_append.mp hc with hc | hc
        · exact hkept.comments c hc
        · rw [List.mem_singleton.mp hc]
          exact ⟨hfits, htime, htext⟩
      · rw [List.length_append, List.length_singleton]
        exact hroom
    · cases hsome

theorem Inv.deleteComment (hinv : Inv h) {postID : UInt32} {commentIndex : ℕ}
    {requester : List UInt8} :
    Inv (step h (.deleteComment postID commentIndex requester)) ∧
      Explained h (.deleteComment postID commentIndex requester)
        (step h (.deleteComment postID commentIndex requester)) := by
  unfold step Social.deleteComment
  dsimp only
  split
  · exact ⟨hinv, explained_of_eq hinv hinv rfl⟩
  · refine hinv.change fun p q hp hkept hsome => ?_
    cases hget : p.comments[commentIndex]? with
    | none =>
      rw [hget] at hsome
      cases hsome
    | some c =>
      rw [hget] at hsome
      dsimp only at hsome
      split at hsome
      · rename_i hauthor
        obtain rfl := Option.some.inj hsome
        refine ⟨hkept.withComments (fun c hc => hkept.comments c (List.mem_of_mem_eraseIdx hc)) ?_,
          ⟨rfl, rfl, rfl, rfl, rfl, rfl⟩, .inr ⟨hp, ⟨c, hget, hauthor⟩, rfl⟩⟩
        exact (List.length_eraseIdx_le ..).trans hkept.commentsRoom
      · cases hsome

theorem Kept.toggle {p : SocialPost} (hkept : Kept p) {username : List UInt8}
    (hvalid : isValidUsername username = true) {names : List (List UInt8)}
    (htoggled : toggled p.likedBy username = some names) : Kept { p with likedBy := names } := by
  obtain ⟨hfits, hne⟩ := fits_of_isValidUsername hvalid
  rcases toggled_cases p.likedBy hfits.printed with
    ⟨-, -, hnone⟩ | ⟨hnew, hfree, hadd⟩ | ⟨names', hremove, hperm⟩
  · rw [hnone] at htoggled
    cases htoggled
  · obtain rfl := Option.some.inj (htoggled.symm.trans hadd)
    apply hkept.withLikes
    · intro name hname
      rcases List.mem_append.mp hname with hname | hname
      · exact hkept.likedBy name hname
      · rw [List.mem_singleton.mp hname]
        exact ⟨hfits, hne⟩
    · rw [List.length_append, List.length_singleton]
      exact hfree
    · exact ((List.perm_append_singleton username p.likedBy).nodup_iff).mpr
        (List.nodup_cons.mpr ⟨hnew, hkept.nodup⟩)
  · obtain rfl := Option.some.inj (htoggled.symm.trans hremove)
    have hlength := hperm.length_eq
    have hroom := hkept.likesRoom
    rw [List.length_cons] at hlength
    apply hkept.withLikes
    · exact fun name hname => hkept.likedBy name (hperm.subset (List.mem_cons_of_mem _ hname))
    · omega
    · exact (List.nodup_cons.mp (hperm.nodup_iff.mpr hkept.nodup)).2

theorem Inv.toggleLike (hinv : Inv h) {postID : UInt32} {username : List UInt8}
    (hvalid : Valid h (.toggleLike postID username)) :
    Inv (step h (.toggleLike postID username)) ∧
      Explained h (.toggleLike postID username) (step h (.toggleLike postID username)) := by
  obtain ⟨-, hne⟩ := fits_of_isValidUsername hvalid
  unfold step Social.toggleLike
  dsimp only
  rw [if_neg hne]
  refine hinv.change fun p q _ hkept hsome => ?_
  obtain ⟨names, htoggled, rfl⟩ := Option.map_eq_some_iff.mp hsome
  exact ⟨hkept.toggle hvalid htoggled, ⟨rfl, rfl, rfl, rfl, rfl, rfl⟩, rfl⟩

/-- Two calls by one user leave the sets of likes as they were. -/
theorem toggleLike_twice {s : Store} (hkept : ∀ p ∈ s.posts, Kept p) (postID : UInt32)
    {username : List UInt8} (hvalid : isValidUsername username = true) :
    List.Forall₂ SameLikes s.posts
      (toggleLike (toggleLike s postID username).1 postID username).1.posts := by
  obtain ⟨hfits, hne⟩ := fits_of_isValidUsername hvalid
  have hsame : ∀ posts : List SocialPost, List.Forall₂ SameLikes posts posts := fun posts =>
    List.forall₂_same.mpr fun p _ => ⟨rfl, List.Perm.refl _⟩
  have hunfold : ∀ s : Store, toggleLike s postID username = changePost s postID fun p =>
      (toggled p.likedBy username).map fun names => { p with likedBy := names } := fun s =>
    if_neg hne
  rw [hunfold s]
  rcases changePost_cases s postID fun p =>
      (toggled p.likedBy username).map fun names => { p with likedBy := names } with
    heq | ⟨l, p, r, q, hposts, hl, hp, hsome, heq⟩
  · rw [heq, hunfold s, heq]
    exact hsame s.posts
  · obtain ⟨names, htoggled, rfl⟩ := Option.map_eq_some_iff.mp hsome
    have hp' := hkept p (hposts ▸ List.mem_append_right _ (List.mem_cons_self ..))
    obtain ⟨names', htwice, hperm⟩ :=
      toggled_twice hfits.printed hp'.nodup hp'.likesRoom htoggled
    rw [heq, hunfold, changePost_split (p := { p with likedBy := names }) rfl hl hp]
    dsimp only
    rw [htwice, hposts]
    exact List.rel_append (hsame l) (.cons ⟨rfl, hperm⟩ (hsame r))

/-! ## Deleted posts -/

theorem Inv.deletePost (hinv : Inv h) {postID : UInt32} {requester : List UInt8} :
    Inv (step h (.deletePost postID requester)) ∧
      Explained h (.deletePost postID requester) (step h (.deletePost postID requester)) := by
  unfold step
  dsimp only
  rcases deletePost_cases h.store postID requester with heq | ⟨l, p, r, hposts, hp, hallowed, heq⟩
  · rw [heq]
    exact ⟨hinv, explained_of_eq hinv hinv rfl⟩
  · have hsane := hinv.sane
    have hattached := hinv.attached
    rw [hposts] at hsane hattached
    have hkept := hsane.kept p (List.mem_append_right _ (List.mem_cons_self ..))
    have hstore : (if p.media = [] then savePostsUnlocked { h.store with posts := l ++ r }
        else mediaDelete (savePostsUnlocked { h.store with posts := l ++ r }) p.media) =
        { savePostsUnlocked { h.store with posts := l ++ r } with
          uploads := if p.media = [] then h.store.uploads
            else h.store.uploads.filter fun name => name != p.media } := by
      split
      · rfl
      · rename_i hne
        rw [mediaDelete, if_pos (hkept.stored.resolve_left hne).mediaIsValidName]
        rfl
    have hsub : (l ++ r).Sublist (l ++ p :: r) :=
      List.Sublist.append_left (List.sublist_cons_self ..) l
    have hinv' := hinv.saved (hsane.sublist hsub) hattached.remove
    rw [heq, hkept.media.printed, hstore]
    refine ⟨hinv', explained_of hinv hinv' (fun q hq => .inl ?_) fun x hx => ?_⟩
    · exact ⟨q, hposts ▸ hsub.subset hq, SamePost.refl q, comments_refl q _⟩
    · rw [hposts] at hx
      rcases List.mem_append.mp hx with hx | hx
      · exact .inl ⟨x, List.mem_append_left _ hx, SamePost.refl x⟩
      · rcases List.mem_cons.mp hx with rfl | hx
        · exact .inr ⟨hp, hallowed⟩
        · exact .inl ⟨x, List.mem_append_right _ hx, SamePost.refl x⟩

/-! ## Restarts -/

theorem Sane.counter {posts : List SocialPost} {n : UInt32} (h : Sane posts n) :
    posts.foldl behind 1 = 1 ∧ posts = [] ∨
      ∃ p ∈ posts, (posts.foldl behind 1).toNat = p.id.toNat + 1 ∧ p.id.toNat < n.toNat ∧
        ∀ q ∈ posts, q.id.toNat ≤ p.id.toNat := by
  have hsmall : ∀ id ∈ posts.map (·.id), 1 ≤ id ∧ id.toNat < 2 ^ 32 - 1 := by
    intro id hid
    obtain ⟨hpos, hlt⟩ := h.below id hid
    rw [UInt32.lt_iff_toNat_lt] at hpos hlt
    have hn := n.toNat_lt
    exact ⟨UInt32.le_iff_toNat_le.mpr hpos, by omega⟩
  rcases foldl_behind h.ordered hsmall with hnone | ⟨p, hp, hfold, hmax⟩
  · exact .inl hnone
  · have hid : p.id ∈ posts.map (·.id) := List.mem_map_of_mem hp
    refine .inr ⟨p, hp, ?_, UInt32.lt_iff_toNat_lt.mp (h.below _ hid).2, fun q hq =>
      UInt32.le_iff_toNat_le.mp (hmax q hq)⟩
    rw [hfold, toNat_add_one (hsmall _ hid).2]

theorem started_posts {s : Store} {n : UInt32} (hsane : Sane s.posts n)
    (hfile : s.posts = [] ∧ s.file = none ∨ s.file = some (postsText s.posts)) :
    (started s).posts = s.posts := by
  rcases hfile with ⟨hnone, hfile⟩ | hfile
  · unfold started loadPosts
    dsimp only
    rw [hfile, hnone]
  · rw [started_saved (fun p hp => (hsane.kept p hp).toSavable) hsane.room hfile]

theorem restart_eq {s : Store} {n : UInt32} (hsane : Sane s.posts n) :
    restart s =
      { savePostsUnlocked s with posts := s.posts, nextPostID := s.posts.foldl behind 1 } :=
  started_saved (s := unloadPosts s) (fun p hp => (hsane.kept p hp).toSavable) hsane.room rfl

theorem Inv.restart (hinv : Inv h) :
    Inv (step h .restart) ∧ Explained h .restart (step h .restart) := by
  have hsane := hinv.sane
  have hgiven := hinv.given
  have hbound := hinv.bound
  -- the counter is behind the last post that is left, as the one before was
  have hnext : h.store.nextPostID.toNat ≤ h.given.length + 1 := by
    cases hgone : h.newestGone with
    | true => exact Nat.le_succ_of_le (hinv.gone hgone)
    | false => exact (hinv.newest hgone).le
  have hcounter := hsane.counter
  have hkept : Sane h.store.posts (h.store.posts.foldl behind 1) := by
    refine ⟨hsane.kept, hsane.room, hsane.ordered, fun id hid => ⟨(hsane.below id hid).1, ?_⟩⟩
    obtain ⟨p, hp, rfl⟩ := List.mem_map.mp hid
    rcases hcounter with ⟨-, hnone⟩ | ⟨last, -, hfold, -, hmax⟩
    · rw [hnone] at hp
      cases hp
    · rw [UInt32.lt_iff_toNat_lt, hfold]
      exact Nat.lt_succ_of_le (hmax p hp)
  have hinv' : Inv (step h .restart) := by
    unfold step
    dsimp only
    rw [restart_eq hsane]
    refine ⟨hkept, hinv.attached, .inr rfl, hgiven, hbound, ?_, fun hgone => ?_, fun hgone => ?_⟩
    · show 0 < (h.store.posts.foldl behind 1).toNat
      rcases hcounter with ⟨hone, -⟩ | ⟨last, -, hfold, -⟩
      · rw [hone]
        exact Nat.one_pos
      · rw [hfold]
        exact Nat.succ_pos _
    · show (h.store.posts.foldl behind 1).toNat ≤ h.given.length
      dsimp only at hgone
      rw [Bool.or_eq_true] at hgone
      rcases hcounter with ⟨hone, hnone⟩ | ⟨last, hlast, hfold, hlt, -⟩
      · rw [hone]
        rcases hgone with hgone | hgone
        · exact hinv.positive.trans_le (hinv.gone hgone)
        · cases hlist : h.given with
          | nil =>
            rw [hlist] at hgone
            cases hgone
          | cons id given => exact Nat.succ_le_succ (Nat.zero_le _)
      · rw [hfold]
        rcases hgone with hgone | hgone
        · exact Nat.succ_le_of_lt (hlt.trans_le (hinv.gone hgone))
        · cases hlength : h.given.length with
          | zero =>
            rw [List.length_eq_zero_iff.mp hlength] at hgone
            cases hgone
          | succ n =>
            rw [hlength] at hgiven hbound hnext
            rw [hgiven, numbered, List.head?_cons, Option.any_some, Bool.not_eq_true'] at hgone
            have hother : last.id ≠ UInt32.ofNat (n + 1) := fun hcon => by
              rw [List.any_eq_false] at hgone
              exact hgone last hlast (beq_iff_eq.mpr hcon)
            have hnat : (UInt32.ofNat (n + 1)).toNat = n + 1 := by
              rw [UInt32.toNat_ofNat']
              exact Nat.mod_eq_of_lt (by omega)
            rw [Ne, ← UInt32.toNat_inj, hnat] at hother
            omega
    · show (h.store.posts.foldl behind 1).toNat = h.given.length + 1
      dsimp only at hgone
      rw [Bool.or_eq_false_iff] at hgone
      have hnewest := hinv.newest hgone.1
      cases hlength : h.given.length with
      | zero =>
        rcases hcounter with ⟨hone, -⟩ | ⟨last, hlast, -, hlt, -⟩
        · rw [hone]
          rfl
        · have hpos := UInt32.lt_iff_toNat_lt.mp
            (hsane.below last.id (List.mem_map_of_mem hlast)).1
          rw [UInt32.toNat_zero] at hpos
          omega
      | succ n =>
        rw [hlength] at hgiven hbound hnewest
        rw [hgiven, numbered, List.head?_cons, Option.any_some, Bool.not_eq_false',
          List.any_eq_true] at hgone
        obtain ⟨p, hp, hid⟩ := hgone.2
        have hnat : (UInt32.ofNat (n + 1)).toNat = n + 1 := by
          rw [UInt32.toNat_ofNat']
          exact Nat.mod_eq_of_lt (by omega)
        rw [beq_iff_eq, ← UInt32.toNat_inj, hnat] at hid
        rcases hcounter with ⟨-, hnone⟩ | ⟨last, hlast, hfold, hlt, hmax⟩
        · rw [hnone] at hp
          cases hp
        · have hle := hmax p hp
          omega
  refine ⟨hinv', explained_of_eq hinv hinv' ?_⟩
  show (Social.restart h.store).posts = h.store.posts
  rw [restart_eq hsane]

/-! ## New posts -/

/-- The post of an event. -/
def posted (id : UInt32) (author wall text : List UInt8) (media : Option (List UInt8))
    (time : UInt64) : SocialPost where
  id := id
  author := author
  wall := if wall = [] then author else wall
  timestamp := time
  text := sanitizeText text MAX_POST_TEXT
  media := media.getD []
  comments := []
  likedBy := []

/-- What a full wall keeps. -/
def kept (posts : List SocialPost) : List SocialPost :=
  if posts.length ≥ MAX_POSTS then posts.tail else posts

section Post

variable {author wall text : List UInt8} {media : Option (List UInt8)} {time : UInt64}

theorem step_refused (hpost : ¬ IsPost text media) :
    step h (.addPost author wall text media time) = h := by
  unfold IsPost at hpost
  rw [not_or, not_not, not_not] at hpost
  obtain ⟨htext, rfl⟩ := hpost
  unfold step storeAndPost addPost
  dsimp only
  split
  · rfl
  · rw [htext, if_pos ⟨rfl, rfl⟩]
    rfl

theorem step_addPost (hvalid : Valid h (.addPost author wall text media time))
    (hpost : IsPost text media) :
    step h (.addPost author wall text media time) =
      { h with
        store := savePostsUnlocked
          { h.store with
            posts := kept h.store.posts ++
              [posted h.store.nextPostID author wall text media time]
            nextPostID := h.store.nextPostID + 1
            uploads := media.toList ++ h.store.uploads }
        given := h.store.nextPostID :: h.given } := by
  obtain ⟨hauthor, hwall, -, hmedia⟩ := hvalid
  obtain ⟨hfits, hne⟩ := fits_of_isValidUsername hauthor
  have hnot : ¬ (sanitizeText text MAX_POST_TEXT = [] ∧ media.getD [] = []) := by
    rintro ⟨htext, hnone⟩
    rcases hpost with hsome | hsome
    · exact hsome htext
    · obtain ⟨name, rfl⟩ := Option.ne_none_iff_exists'.mp hsome
      exact (hmedia name rfl).1.fits.2 hnone
  have hprinted : printed MAX_MEDIA_NAME (media.getD []) = media.getD [] := by
    cases media with
    | none => rfl
    | some name => exact (hmedia name rfl).1.fits.1.printed
  have hwallPrinted : printed MAX_USERNAME (if wall = [] then author else wall) =
      if wall = [] then author else wall := by
    split
    · exact hfits.printed
    · rename_i hsome
      exact (fits_of_isValidUsername (hwall.resolve_left hsome)).1.printed
  unfold step storeAndPost addPost
  dsimp only
  rw [if_neg hne, if_neg hnot, hfits.printed, hwallPrinted, (sanitizeText_fits text).printed,
    hprinted]
  rfl

theorem kept_posted (hvalid : Valid h (.addPost author wall text media time)) :
    Kept (posted h.store.nextPostID author wall text media time) := by
  obtain ⟨hauthor, hwall, htime, hmedia⟩ := hvalid
  obtain ⟨hfits, hne⟩ := fits_of_isValidUsername hauthor
  have hwall' : Fits MAX_USERNAME (if wall = [] then author else wall) ∧
      (if wall = [] then author else wall) ≠ [] := by
    split
    · exact ⟨hfits, hne⟩
    · rename_i hsome
      exact fits_of_isValidUsername (hwall.resolve_left hsome)
  have hstored : media.getD [] = [] ∨ IsStored (media.getD []) := by
    cases media with
    | none => exact .inl rfl
    | some name => exact .inr (hmedia name rfl).1
  have hmediaFits : Fits MAX_MEDIA_NAME (media.getD []) := by
    rcases hstored with hnone | hstored
    · rw [hnone]
      exact ⟨fun c hc => absurd hc List.not_mem_nil, by decide⟩
    · exact hstored.fits.1
  exact ⟨⟨hfits, hwall', htime, sanitizeText_fits text, hmediaFits,
    fun c hc => absurd hc List.not_mem_nil, Nat.zero_le _,
    fun name hname => absurd hname List.not_mem_nil, Nat.zero_le _⟩, List.nodup_nil, hstored⟩

theorem kept_sublist (posts : List SocialPost) : (kept posts).Sublist posts := by
  unfold kept
  split
  · exact List.tail_sublist posts
  · exact List.Sublist.refl posts

theorem length_kept {posts : List SocialPost} (h : posts.length ≤ MAX_POSTS) :
    (kept posts).length < MAX_POSTS := by
  have hpos : 0 < MAX_POSTS := by decide
  unfold kept
  split
  · rw [List.length_tail]
    omega
  · rename_i hroom
    exact Nat.lt_of_not_le hroom

theorem mem_kept_or {posts : List SocialPost} {p : SocialPost} (hp : p ∈ posts) :
    p ∈ kept posts ∨ MAX_POSTS ≤ posts.length ∧ posts.head? = some p := by
  unfold kept
  split
  · rename_i hfull
    cases posts with
    | nil => cases hp
    | cons q posts =>
      rcases List.mem_cons.mp hp with rfl | hp
      · exact .inr ⟨hfull, rfl⟩
      · exact .inl hp
  · exact .inl hp

theorem Attached.kept {posts : List SocialPost} {uploads : List (List UInt8)}
    (hattached : Attached posts uploads)
    (hhead : MAX_POSTS ≤ posts.length → ∀ p, posts.head? = some p → p.media = []) :
    Attached (Social.kept posts) uploads := by
  unfold Social.kept
  split
  · rename_i hfull
    cases posts with
    | nil => exact hattached
    | cons p posts =>
      have hremove := @Attached.remove [] posts p uploads hattached
      rw [if_pos (hhead hfull p rfl)] at hremove
      exact hremove
  · exact hattached

theorem Attached.post {posts : List SocialPost} {uploads : List (List UInt8)}
    (hattached : Attached posts uploads) {p : SocialPost} (hmedia : p.media = media.getD [])
    (hnew : ∀ name, media = some name → name ≠ [] ∧ name ∉ uploads) :
    Attached (posts ++ [p]) (media.toList ++ uploads) := by
  have hmap : (posts ++ [p]).map (·.media) = posts.map (·.media) ++ [media.getD []] := by
    rw [List.map_append, List.map_singleton, hmedia]
  constructor
  · intro name
    rw [hmap, List.mem_append, List.mem_append, List.mem_singleton, hattached.uploads]
    cases media with
    | none =>
      rw [Option.toList_none, Option.getD_none]
      exact ⟨fun h => ⟨.inl (h.resolve_left List.not_mem_nil).1,
          (h.resolve_left List.not_mem_nil).2⟩,
        fun h => .inr ⟨h.1.resolve_right h.2, h.2⟩⟩
    | some stored =>
      rw [Option.toList_some, Option.getD_some, List.mem_singleton]
      constructor
      · rintro (rfl | ⟨hmem, hne⟩)
        · exact ⟨.inr rfl, (hnew _ rfl).1⟩
        · exact ⟨.inl hmem, hne⟩
      · rintro ⟨hmem | rfl, hne⟩
        · exact .inr ⟨hmem, hne⟩
        · exact .inl rfl
  · rw [hmap, List.pairwise_append]
    refine ⟨hattached.distinct, List.pairwise_singleton .., fun m hm m' hm' heq => ?_⟩
    rw [List.mem_singleton.mp hm'] at heq
    by_contra hne
    cases media with
    | none => exact hne heq
    | some stored =>
      obtain rfl : m = stored := heq
      exact (hnew m rfl).2 ((hattached.uploads m).mpr ⟨hm, hne⟩)

theorem Inv.addPost (hinv : Inv h) (hvalid : Valid h (.addPost author wall text media time))
    (hpermitted : Permitted h (.addPost author wall text media time)) :
    Inv (step h (.addPost author wall text media time)) ∧
      Explained h (.addPost author wall text media time)
        (step h (.addPost author wall text media time)) := by
  by_cases hpost : IsPost text media
  · obtain ⟨hroom, hgone, hhead⟩ := hpermitted hpost
    have hnewest := hinv.newest hgone
    have hsane := hinv.sane.sublist (kept_sublist h.store.posts)
    have hattached := hinv.attached.kept hhead
    have hmedia : ∀ name, media = some name → name ≠ [] ∧ name ∉ h.store.uploads :=
      fun name hname => ⟨(hvalid.2.2.2 name hname).1.fits.2, (hvalid.2.2.2 name hname).2⟩
    have hsucc : (h.store.nextPostID + 1).toNat = h.store.nextPostID.toNat + 1 :=
      toNat_add_one (by omega)
    have hlt : h.store.nextPostID < h.store.nextPostID + 1 := by
      rw [UInt32.lt_iff_toNat_lt, hsucc]
      exact Nat.lt_succ_self _
    have hpos : 0 < h.store.nextPostID := UInt32.lt_iff_toNat_lt.mpr hinv.positive
    have hkept := kept_posted hvalid
    rw [step_addPost hvalid hpost]
    generalize hp : posted h.store.nextPostID author wall text media time = p at hkept ⊢
    have hid : p.id = h.store.nextPostID := hp ▸ rfl
    have hname : p.media = media.getD [] := hp ▸ rfl
    have hmap : (kept h.store.posts ++ [p]).map (·.id) =
        (kept h.store.posts).map (·.id) ++ [h.store.nextPostID] := by
      rw [List.map_append, List.map_singleton, hid]
    have hinv' : Inv { h with
        store := savePostsUnlocked
          { h.store with
            posts := kept h.store.posts ++ [p]
            nextPostID := h.store.nextPostID + 1
            uploads := media.toList ++ h.store.uploads }
        given := h.store.nextPostID :: h.given } := by
      refine ⟨⟨fun q hq => ?_, ?_, ?_, fun id hid => ?_⟩, hattached.post hname hmedia, .inr rfl, ?_,
        ?_, ?_, fun hcon => ?_, fun _ => ?_⟩
      · rcases List.mem_append.mp hq with hq | hq
        · exact hsane.kept q hq
        · rw [List.mem_singleton.mp hq]
          exact hkept
      · show (kept h.store.posts ++ [p]).length ≤ MAX_POSTS
        rw [List.length_append, List.length_singleton]
        exact length_kept hinv.sane.room
      · show ((kept h.store.posts ++ [p]).map (·.id)).Pairwise (· < ·)
        rw [hmap, List.pairwise_append]
        refine ⟨hsane.ordered, List.pairwise_singleton .., fun id hid id' hid' => ?_⟩
        rw [List.mem_singleton.mp hid']
        exact (hsane.below id hid).2
      · have hid' : id ∈ (kept h.store.posts ++ [p]).map (·.id) := hid
        rw [hmap, List.mem_append, List.mem_singleton] at hid'
        rcases hid' with hid' | rfl
        · obtain ⟨hlow, hhigh⟩ := hsane.below id hid'
          exact ⟨hlow, UInt32.lt_trans hhigh hlt⟩
        · exact ⟨hpos, hlt⟩
      · show h.store.nextPostID :: h.given = numbered (h.given.length + 1)
        rw [numbered, ← hinv.given, ← hnewest, UInt32.ofNat_toNat]
      · show h.given.length + 1 ≤ 2 ^ 32 - 2
        exact hroom
      · show 0 < (h.store.nextPostID + 1).toNat
        rw [hsucc]
        exact Nat.succ_pos _
      · rw [hgone] at hcon
        cases hcon
      · show (h.store.nextPostID + 1).toNat = h.given.length + 1 + 1
        rw [hsucc, hnewest]
    refine ⟨hinv', explained_of hinv hinv' (fun q hq => ?_) fun q hq => ?_⟩
    · rcases List.mem_append.mp hq with hq | hq
      · exact .inl ⟨q, (kept_sublist _).subset hq, SamePost.refl q, comments_refl q _⟩
      · right
        rw [List.mem_singleton.mp hq]
        intro x hx
        refine ⟨fun hcon => ?_, fun hne hcon => ?_⟩
        · have hbelow := (hinv.sane.below x.id (List.mem_map_of_mem hx)).2
          rw [← hcon, hid] at hbelow
          exact UInt32.lt_irrefl _ hbelow
        · rw [hname] at hcon
          cases media with
          | none => exact hne hcon.symm
          | some stored =>
            obtain rfl : stored = x.media := hcon
            exact (hmedia _ rfl).2
              ((hinv.attached.uploads _).mpr ⟨List.mem_map_of_mem hx, (hmedia _ rfl).1⟩)
    · rcases mem_kept_or hq with hkept | hremoved
      · exact .inl ⟨q, List.mem_append_left _ hkept, SamePost.refl q⟩
      · exact .inr hremoved
  · rw [step_refused hpost]
    exact ⟨hinv, explained_of_eq hinv hinv rfl⟩

/-- A post that is not permitted takes an old identifier, or leaves an upload without its post. -/
theorem Inv.permitted (hinv : Inv h) (hvalid : Valid h (.addPost author wall text media time))
    (hroom : h.given.length < 2 ^ 32 - 2)
    (hsound : (step h (.addPost author wall text media time)).given.Nodup)
    (hexplained : Explained h (.addPost author wall text media time)
      (step h (.addPost author wall text media time))) :
    Permitted h (.addPost author wall text media time) := by
  intro hpost
  have hbound := hinv.bound
  rw [step_addPost hvalid hpost] at hsound hexplained
  refine ⟨hroom, ?_, fun hfull p hhead => ?_⟩
  · by_contra hgone
    rw [Bool.not_eq_false] at hgone
    apply (List.nodup_cons.mp hsound).1
    rw [hinv.given]
    exact (mem_numbered (by omega)).mpr ⟨hinv.positive, hinv.gone hgone⟩
  · by_contra hne
    obtain ⟨posts, hposts⟩ : ∃ posts, h.store.posts = p :: posts := by
      cases hlist : h.store.posts with
      | nil =>
        rw [hlist] at hhead
        cases hhead
      | cons q posts =>
        rw [hlist] at hhead
        exact ⟨posts, by rw [Option.some.inj hhead]⟩
    have hp : p ∈ h.store.posts := hposts ▸ List.mem_cons_self ..
    have hupload : p.media ∈ h.store.uploads :=
      (hinv.attached.uploads _).mpr ⟨List.mem_map_of_mem hp, hne⟩
    refine (hexplained.media p hp hne).mpr (fun q hq hid => ?_) (List.mem_append_right _ hupload)
    have hkept : kept h.store.posts = posts := by
      rw [kept, if_pos hfull, hposts, List.tail_cons]
    have hq' : q ∈ kept h.store.posts ++
        [posted h.store.nextPostID author wall text media time] := hq
    rw [hkept, List.mem_append, List.mem_singleton] at hq'
    rcases hq' with hq' | rfl
    · have hordered := hinv.sane.ordered
      rw [hposts, List.map_cons, List.pairwise_cons] at hordered
      have hlt := hordered.1 q.id (List.mem_map_of_mem hq')
      rw [hid] at hlt
      exact UInt32.lt_irrefl _ hlt
    · have hbelow := (hinv.sane.below p.id (List.mem_map_of_mem hp)).2
      rw [← hid] at hbelow
      exact UInt32.lt_irrefl _ hbelow

end Post

/-! ## Runs -/

theorem inv_initial : Inv .initial where
  sane := ⟨fun p hp => absurd hp List.not_mem_nil, Nat.zero_le _, List.Pairwise.nil,
    fun id hid => absurd hid List.not_mem_nil⟩
  attached := ⟨fun name => iff_of_false List.not_mem_nil fun h => List.not_mem_nil h.1,
    List.Pairwise.nil⟩
  file := .inl ⟨rfl, rfl⟩
  given := rfl
  bound := Nat.zero_le _
  positive := Nat.one_pos
  gone := fun hcon => by cases hcon
  newest := fun _ => rfl

theorem Inv.step (hinv : Inv h) (hvalid : Valid h e) (hpermitted : Permitted h e) :
    Inv (step h e) ∧ Explained h e (step h e) := by
  cases e with
  | addPost => exact hinv.addPost hvalid hpermitted
  | addComment => exact hinv.addComment hvalid
  | toggleLike => exact hinv.toggleLike hvalid
  | deletePost => exact hinv.deletePost
  | deleteComment => exact hinv.deleteComment
  | restart => exact hinv.restart

theorem Inv.sound (hinv : Inv h) : Sound h := by
  refine ⟨started_posts hinv.sane hinv.file, ?_, fun p hp => (hinv.sane.kept p hp).nodup,
    fun postID username hvalid => toggleLike_twice hinv.sane.kept postID hvalid, ?_, fun name => ?_⟩
  · rw [restart_eq hinv.sane]
  · rw [hinv.given]
    have hbound := hinv.bound
    exact nodup_numbered (by omega)
  · rw [hinv.attached.uploads, List.mem_map]
    constructor
    · rintro ⟨⟨p, hp, hmedia⟩, hne⟩
      exact ⟨p, hp, hmedia, hne⟩
    · rintro ⟨p, hp, hmedia, hne⟩
      exact ⟨⟨p, hp, hmedia⟩, hne⟩

/-- The events of users that the store is up to. -/
def Admitted (h : History) (e : Event) : Prop := Valid h e ∧ Permitted h e

theorem inv_of_reaches (hreach : Reaches step Admitted .initial h) : Inv h :=
  hreach.invariant inv_initial fun _ _ hinv hadmitted =>
    (hinv.step hadmitted.1 hadmitted.2).1

/-- Where a history of permitted events has come, all is as it should be, and stays so with the next
event exactly if that is permitted, too. -/
theorem posts_sound_iff (hreach : Reaches step Admitted .initial h) :
    Sound h ∧ ∀ e, Valid h e →
      (Permitted h e → Sound (step h e) ∧ Explained h e (step h e)) ∧
        (h.given.length < 2 ^ 32 - 2 → Sound (step h e) ∧ Explained h e (step h e) →
          Permitted h e) := by
  have hinv := inv_of_reaches hreach
  refine ⟨hinv.sound, fun e hvalid => ⟨fun hpermitted => ?_, fun hroom hsound => ?_⟩⟩
  · obtain ⟨hinv', hexplained⟩ := hinv.step hvalid hpermitted
    exact ⟨hinv'.sound, hexplained⟩
  · cases e with
    | addPost => exact hinv.permitted hvalid hroom hsound.1.given hsound.2
    | _ => trivial

/-- Alice writes on her wall. -/
def hello : Event := .addPost (ascii "alice") [] (ascii "hello") none 1700000000

/-- Bob does, after her. -/
def reply : Event := .addPost (ascii "bob") [] (ascii "hi") none 1700000060

/-- Alice takes her post back, and the server is restarted. -/
def takenBack : History :=
  step (step (step .initial hello) (.deletePost 1 (ascii "alice"))) .restart

theorem names_valid :
    isValidUsername (ascii "alice") = true ∧ isValidUsername (ascii "bob") = true ∧
    takenBack.given.length = 1 ∧ takenBack.newestGone = true ∧
    sanitizeText (ascii "hi") MAX_POST_TEXT ≠ [] ∧ (step takenBack reply).given = [1, 1] := by
  decide

theorem hello_valid (h : History) : Valid h hello :=
  ⟨names_valid.1, .inl rfl, by decide, fun _ hcon => by cases hcon⟩

theorem reply_valid (h : History) : Valid h reply :=
  ⟨names_valid.2.1, .inl rfl, by decide, fun _ hcon => by cases hcon⟩

theorem hello_permitted : Permitted .initial hello := fun _ =>
  ⟨by decide, rfl, fun hfull => absurd hfull (by decide)⟩

theorem takenBack_unsound : Sound takenBack ∧
    ¬ (Sound (step takenBack reply) ∧ Explained takenBack reply (step takenBack reply)) := by
  obtain ⟨halice, -, hlength, hgone, htext, -⟩ := names_valid
  have hreach : Reaches step Admitted .initial takenBack :=
    .step _ (.step _ (.step _ .start ⟨hello_valid _, hello_permitted⟩) ⟨halice, trivial⟩)
      ⟨trivial, trivial⟩
  obtain ⟨hsound, hnext⟩ := posts_sound_iff hreach
  refine ⟨hsound, fun hcon => ?_⟩
  have hroom : takenBack.given.length < 2 ^ 32 - 2 := by
    rw [hlength]
    decide
  obtain ⟨-, hfresh, -⟩ := (hnext reply (reply_valid _)).2 hroom hcon (.inl htext)
  rw [hgone] at hfresh
  cases hfresh

/-- Bob's post has the identifier that Alice's had. -/
theorem identifier_given_twice : ∃ h, Reaches step Valid .initial h ∧ ¬ h.given.Nodup := by
  obtain ⟨halice, -, -, -, -, hgiven⟩ := names_valid
  refine ⟨step takenBack reply, .step _ (.step _ (.step _ (.step _ .start (hello_valid _)) halice)
    trivial) (reply_valid _), ?_⟩
  rw [hgiven]
  decide

end AmmarServer.Social
