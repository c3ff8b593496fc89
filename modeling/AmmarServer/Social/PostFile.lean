import AmmarServer.Social.Posts

/-! The posts are read back from their file as they were written to it. -/

namespace AmmarServer.Social
open Bytes CString TextFile PercentCoding

/-! ## Fields -/

/-- What can stand in a field: no tab, nothing that ends a line, no NUL. -/
def Clean (s : List UInt8) : Prop := ∀ c ∈ s, 32 ≤ c

theorem plain_of_le {c : UInt8} (h : 32 ≤ c) : c ≠ TAB ∧ isNewline c = false ∧ c ≠ 0 := by
  revert c
  apply forall_byte
  decide +kernel

theorem Clean.tab {s : List UInt8} (h : Clean s) : TAB ∉ s := fun hcon =>
  (plain_of_le (h TAB hcon)).1 rfl

theorem clean_decimal (n : ℕ) : Clean (decimal n) := by
  have hdigit : ∀ c : UInt8, isDigit c = true → 32 ≤ c := by
    apply forall_byte
    decide +kernel
  exact fun c hc => hdigit c (isDigit_decimal c hc)

/-- A string that its array holds. -/
structure Fits (size : ℕ) (s : List UInt8) : Prop where
  clean : Clean s
  room : s.length < size

theorem Fits.printed {size : ℕ} {s : List UInt8} (h : Fits size s) : printed size s = s := by
  have hzero : 0 ∉ s := fun hcon => (plain_of_le (h.clean 0 hcon)).2.2 rfl
  rw [Social.printed, cstring_of_notMem hzero, List.take_of_length_le (Nat.le_sub_one_of_lt h.room)]

theorem nextField_append {field : List UInt8} (h : TAB ∉ field) (rest : List UInt8) :
    nextField (some (field ++ TAB :: rest)) = (some field, some rest) := by
  have hfield : (field ++ TAB :: rest).takeWhile (fun c => c != TAB) = field := by
    apply takeWhile_append_stop
    · intro c hc
      rw [bne_iff_ne]
      rintro rfl
      exact h hc
    · intro c hc
      rw [← Option.some.inj hc]
      rfl
  unfold nextField
  dsimp only
  rw [hfield, if_pos, List.drop_append, List.drop_of_length_le (Nat.le_succ _)]
  · simp
  · rw [List.length_append, List.length_cons]
    exact Nat.lt_add_of_pos_right (Nat.succ_pos _)

theorem nextField_record (kind : UInt8) (hkind : kind ≠ TAB) (rest : List UInt8) :
    nextField (some (kind :: TAB :: rest)) = (some [kind], some rest) :=
  have hfield : TAB ∉ [kind] := fun hcon => hkind (List.mem_singleton.mp hcon).symm
  nextField_append hfield rest

/-! ## Posts that can be saved -/

structure SavableComment (c : SocialComment) : Prop where
  author : Fits MAX_USERNAME c.author
  timestamp : c.timestamp.toNat < 2 ^ 63
  text : Fits MAX_POST_TEXT c.text

structure Savable (p : SocialPost) : Prop where
  author : Fits MAX_USERNAME p.author
  wall : Fits MAX_USERNAME p.wall ∧ p.wall ≠ []
  timestamp : p.timestamp.toNat < 2 ^ 63
  text : Fits MAX_POST_TEXT p.text
  media : Fits MAX_MEDIA_NAME p.media
  comments : ∀ c ∈ p.comments, SavableComment c
  commentsRoom : p.comments.length ≤ MAX_COMMENTS_PER_POST
  likedBy : ∀ name ∈ p.likedBy, Fits MAX_USERNAME name ∧ name ≠ []
  likesRoom : p.likedBy.length ≤ MAX_LIKES_PER_POST

/-! ## Lines -/

theorem letters_eq : ascii "P" = [80] ∧ ascii "C" = [67] ∧ ascii "W" = [87] ∧ ascii "M" = [77] ∧
    ascii "L" = [76] := by decide

theorem length_record_one {kind : UInt8} {field : List UInt8} (h : field ≠ []) :
    ¬ (kind :: TAB :: field).length < 3 := by
  have hpos := List.length_pos_iff.mpr h
  rw [List.length_cons, List.length_cons]
  omega

/-- A line that is no `P` line, with a field that is not empty. -/
theorem loadLine_detail {kind : UInt8} (hkind : kind ≠ TAB ∧ kind ≠ 80) {cursor : List UInt8}
    (hcursor : cursor ≠ []) {r : Reading} {p : SocialPost} (hp : r.currentPost = some p) :
    loadLine r (kind :: TAB :: cursor) =
      { r with currentPost := some (loadDetail p [kind] cursor) } := by
  have hnot : ¬ [kind] = ascii "P" := by
    rw [letters_eq.1]
    exact fun hcon => hkind.2 (List.head_eq_of_cons_eq hcon)
  rw [loadLine, if_neg (length_record_one hcursor), nextField_record kind hkind.1]
  dsimp only
  rw [if_neg hnot, hp]
  rfl

theorem loadLine_post {p : SocialPost} (h : Savable p) {r : Reading}
    (hroom : r.all.length < MAX_POSTS) :
    loadLine r (record 80 [decimal p.id.toNat, decimal p.timestamp.toNat, p.author, p.text]) =
      { posts := r.all
        currentPost := some { p with wall := p.author, media := [], comments := [], likedBy := [] }
        nextPostID := if p.id ≥ r.nextPostID then p.id + 1 else r.nextPostID } := by
  have hline : record 80 [decimal p.id.toNat, decimal p.timestamp.toNat, p.author, p.text] =
      80 :: TAB :: (decimal p.id.toNat ++ TAB :: (decimal p.timestamp.toNat ++ TAB ::
        (p.author ++ TAB :: p.text))) := by
    simp only [record, List.flatMap_cons, List.flatMap_nil, List.append_nil, List.cons_append]
  have hne : decimal p.id.toNat ++ TAB :: (decimal p.timestamp.toNat ++ TAB ::
      (p.author ++ TAB :: p.text)) ≠ [] := List.append_ne_nil_of_left_ne_nil (decimal_ne_nil _) _
  rw [hline, loadLine, if_neg (length_record_one hne), nextField_record 80 (by decide)]
  dsimp only
  rw [if_pos letters_eq.1.symm, loadPost, nextField_append (clean_decimal _).tab]
  dsimp only
  rw [nextField_append (clean_decimal _).tab]
  dsimp only
  rw [nextField_append h.author.clean.tab]
  dsimp only
  rw [if_neg (Nat.not_le.mpr hroom), atoi_decimal, strtol_decimal_toNat h.timestamp,
    h.author.printed, h.text.printed]

theorem loadDetail_comment {p : SocialPost} (hroom : p.comments.length < MAX_COMMENTS_PER_POST)
    {c : SocialComment} (h : SavableComment c) :
    loadDetail p [67] (decimal c.timestamp.toNat ++ TAB :: (c.author ++ TAB :: c.text)) =
      { p with comments := p.comments ++ [c] } := by
  rw [loadDetail, if_pos letters_eq.2.1.symm, loadComment, nextField_append (clean_decimal _).tab]
  dsimp only
  rw [nextField_append h.author.clean.tab]
  dsimp only
  rw [if_neg (Nat.not_le.mpr hroom), strtol_decimal_toNat h.timestamp, h.author.printed,
    h.text.printed]

theorem foldl_comments {cs : List SocialComment} (hcs : ∀ c ∈ cs, SavableComment c) {r : Reading}
    {p : SocialPost} (hp : r.currentPost = some p)
    (hroom : p.comments.length + cs.length ≤ MAX_COMMENTS_PER_POST) :
    (cs.map fun c => record 67 [decimal c.timestamp.toNat, c.author, c.text]).foldl loadLine r =
      { r with currentPost := some { p with comments := p.comments ++ cs } } := by
  induction cs generalizing r p with
  | nil =>
    rw [List.map_nil, List.foldl_nil, List.append_nil, ← hp]
  | cons c cs ih =>
    obtain ⟨hc, hcs⟩ := List.forall_mem_cons.mp hcs
    rw [List.length_cons] at hroom
    have hline : record 67 [decimal c.timestamp.toNat, c.author, c.text] =
        67 :: TAB :: (decimal c.timestamp.toNat ++ TAB :: (c.author ++ TAB :: c.text)) := by
      simp only [record, List.flatMap_cons, List.flatMap_nil, List.append_nil, List.cons_append]
    rw [List.map_cons, List.foldl_cons, hline,
      loadLine_detail (by decide) (List.append_ne_nil_of_left_ne_nil (decimal_ne_nil _) _) hp,
      loadDetail_comment (by omega) hc, ih hcs rfl (by
        rw [List.length_append, List.length_singleton]
        omega)]
    rw [List.append_assoc]
    rfl

theorem foldl_likes {names : List (List UInt8)}
    (hnames : ∀ name ∈ names, Fits MAX_USERNAME name ∧ name ≠ []) {r : Reading} {p : SocialPost}
    (hp : r.currentPost = some p) (hroom : p.likedBy.length + names.length ≤ MAX_LIKES_PER_POST) :
    (names.map fun name => record 76 [name]).foldl loadLine r =
      { r with currentPost := some { p with likedBy := p.likedBy ++ names } } := by
  induction names generalizing r p with
  | nil =>
    rw [List.map_nil, List.foldl_nil, List.append_nil, ← hp]
  | cons name names ih =>
    obtain ⟨⟨hfits, hne⟩, hnames⟩ := List.forall_mem_cons.mp hnames
    rw [List.length_cons] at hroom
    have hline : record 76 [name] = 76 :: TAB :: name := by
      rw [record, List.flatMap_cons, List.flatMap_nil, List.append_nil]
    have hlike : loadDetail p [76] name = { p with likedBy := p.likedBy ++ [name] } := by
      obtain ⟨-, hC, hW, hM, hL⟩ := letters_eq
      rw [loadDetail, hC, hW, hM, hL, if_neg (by decide), if_neg (by decide), if_neg (by decide),
        if_pos rfl, if_neg (by omega), hfits.printed]
    rw [List.map_cons, List.foldl_cons, hline, loadLine_detail (by decide) hne hp, hlike,
      ih hnames rfl (by
        rw [List.length_append, List.length_singleton]
        omega)]
    rw [List.append_assoc]
    rfl

theorem loadDetail_wall {p : SocialPost} {wall : List UInt8} (h : Fits MAX_USERNAME wall) :
    loadDetail p [87] wall = { p with wall := wall } := by
  obtain ⟨-, hC, hW, -⟩ := letters_eq
  rw [loadDetail, hC, hW, if_neg (by decide), if_pos rfl, h.printed]

theorem loadDetail_media {p : SocialPost} {media : List UInt8} (h : Fits MAX_MEDIA_NAME media) :
    loadDetail p [77] media = { p with media := media } := by
  obtain ⟨-, hC, hW, hM, -⟩ := letters_eq
  rw [loadDetail, hC, hW, hM, if_neg (by decide), if_neg (by decide), if_pos rfl, h.printed]

theorem foldl_postLines {p : SocialPost} (h : Savable p) {r : Reading}
    (hroom : r.all.length < MAX_POSTS) :
    (postLines p).foldl loadLine r =
      { posts := r.all
        currentPost := some p
        nextPostID := if p.id ≥ r.nextPostID then p.id + 1 else r.nextPostID } := by
  have hone : ∀ kind field, record kind [field] = kind :: TAB :: field := fun kind field => by
    rw [record, List.flatMap_cons, List.flatMap_nil, List.append_nil]
  have hmedia : ∀ (r : Reading) (q : SocialPost), r.currentPost = some q → q.media = [] →
      (if p.media = [] then [] else [record 77 [p.media]]).foldl loadLine r =
        { r with currentPost := some { q with media := p.media } } := by
    intro r q hq hempty
    split
    · rename_i hnone
      rw [List.foldl_nil, hnone, ← hempty, ← hq]
    · rename_i hsome
      rw [List.foldl_cons, List.foldl_nil, hone, loadLine_detail (by decide) hsome hq,
        loadDetail_media h.media]
  unfold postLines
  rw [List.foldl_append, List.foldl_append, List.foldl_append, List.foldl_cons, List.foldl_cons,
    List.foldl_nil, loadLine_post h hroom, hone, loadLine_detail (by decide) h.wall.2 rfl,
    loadDetail_wall h.wall.1, hmedia _ _ rfl rfl,
    foldl_comments h.comments rfl (by simpa using h.commentsRoom),
    foldl_likes h.likedBy rfl (by simpa using h.likesRoom)]
  rfl

/-- The counter behind a post that was read. -/
def behind (nextPostID : UInt32) (p : SocialPost) : UInt32 :=
  if p.id ≥ nextPostID then p.id + 1 else nextPostID

theorem foldl_posts {posts : List SocialPost} (hposts : ∀ p ∈ posts, Savable p) {r : Reading}
    (hroom : r.all.length + posts.length ≤ MAX_POSTS) :
    ((posts.flatMap postLines).foldl loadLine r).all = r.all ++ posts ∧
      ((posts.flatMap postLines).foldl loadLine r).nextPostID =
        posts.foldl behind r.nextPostID := by
  induction posts generalizing r with
  | nil => exact ⟨(List.append_nil _).symm, rfl⟩
  | cons p posts ih =>
    obtain ⟨hp, hposts⟩ := List.forall_mem_cons.mp hposts
    rw [List.length_cons] at hroom
    rw [List.flatMap_cons, List.foldl_append, foldl_postLines hp (by omega)]
    obtain ⟨hall, hnext⟩ := @ih hposts ⟨r.all, some p, behind r.nextPostID p⟩ (by
      show (r.all ++ [p]).length + posts.length ≤ MAX_POSTS
      rw [List.length_append, List.length_singleton]
      omega)
    refine ⟨hall.trans ?_, hnext⟩
    rw [Reading.all, Option.toList_some, List.append_assoc]
    rfl

/-! ## The file as a whole -/

theorem whole_record {kind : UInt8} (hkind : 32 ≤ kind) {fields : List (List UInt8)}
    (hfields : ∀ field ∈ fields, Clean field)
    (hlength : (record kind fields).length < LINE_SIZE - 1) :
    Whole (LINE_SIZE - 1) (record kind fields) := by
  refine ⟨fun c hc => ?_, hlength⟩
  rcases List.mem_cons.mp hc with rfl | hc
  · exact (plain_of_le hkind).2
  · obtain ⟨field, hfield, hc⟩ := List.mem_flatMap.mp hc
    rcases List.mem_cons.mp hc with rfl | hc
    · decide
    · exact (plain_of_le (hfields field hfield c hc)).2

theorem decimal_room (n : UInt64) : (decimal n.toNat).length ≤ 20 :=
  decimal_length (by decide) (lt_trans n.toNat_lt (by decide))

theorem length_record (kind : UInt8) (fields : List (List UInt8)) :
    (record kind fields).length = 1 + (fields.map fun field => field.length + 1).sum := by
  rw [record, List.length_cons, List.length_flatMap, Nat.add_comm]
  rfl

theorem Savable.whole {p : SocialPost} (h : Savable p) :
    ∀ line ∈ postLines p, Whole (LINE_SIZE - 1) line := by
  have hsize : LINE_SIZE - 1 = 2047 := rfl
  have hone : ∀ (kind : UInt8) (field : List UInt8), 32 ≤ kind → Clean field → field.length < 64 →
      Whole (LINE_SIZE - 1) (record kind [field]) := by
    intro kind field hkind hclean hlength
    apply whole_record hkind (List.forall_mem_singleton.mpr hclean)
    rw [length_record, List.map_singleton, List.sum_singleton, hsize]
    omega
  have hauthor := h.author.room
  have htext := h.text.room
  unfold MAX_USERNAME at hauthor
  unfold MAX_POST_TEXT at htext
  intro line hline
  unfold postLines at hline
  rw [List.mem_append, List.mem_append, List.mem_append, List.mem_cons, List.mem_singleton] at hline
  rcases hline with (((rfl | rfl) | hline) | hline) | hline
  · apply whole_record (by decide)
    · intro field hfield
      simp only [List.mem_cons, List.not_mem_nil, or_false] at hfield
      rcases hfield with rfl | rfl | rfl | rfl
      · exact clean_decimal _
      · exact clean_decimal _
      · exact h.author.clean
      · exact h.text.clean
    · have hid : (decimal p.id.toNat).length ≤ 10 :=
        decimal_length (by decide) (lt_trans p.id.toNat_lt (by decide))
      have htime := decimal_room p.timestamp
      rw [length_record, hsize]
      simp only [List.map_cons, List.map_nil, List.sum_cons, List.sum_nil]
      omega
  · have hwall := h.wall.1.room
    unfold MAX_USERNAME at hwall
    exact hone 87 p.wall (by decide) h.wall.1.clean (by omega)
  · split at hline
    · cases hline
    · obtain rfl := List.mem_singleton.mp hline
      exact hone 77 p.media (by decide) h.media.clean h.media.room
  · obtain ⟨c, hc, rfl⟩ := List.mem_map.mp hline
    have hcomment := h.comments c hc
    have hauthor := hcomment.author.room
    have htext := hcomment.text.room
    have htime := decimal_room c.timestamp
    unfold MAX_USERNAME at hauthor
    unfold MAX_POST_TEXT at htext
    apply whole_record (by decide)
    · intro field hfield
      simp only [List.mem_cons, List.not_mem_nil, or_false] at hfield
      rcases hfield with rfl | rfl | rfl
      · exact clean_decimal _
      · exact hcomment.author.clean
      · exact hcomment.text.clean
    · rw [length_record, hsize]
      simp only [List.map_cons, List.map_nil, List.sum_cons, List.sum_nil]
      omega
  · obtain ⟨name, hname, rfl⟩ := List.mem_map.mp hline
    obtain ⟨hfits, -⟩ := h.likedBy name hname
    have hroom := hfits.room
    unfold MAX_USERNAME at hroom
    exact hone 76 name (by decide) hfits.clean (by omega)

/-- A process that starts finds the posts that were saved. -/
theorem started_saved {s : Store} {posts : List SocialPost} (hposts : ∀ p ∈ posts, Savable p)
    (hroom : posts.length ≤ MAX_POSTS)
    (hfile : s.file = some (postsText posts)) :
    started s = { s with posts := posts, nextPostID := posts.foldl behind 1 } := by
  have hlines : ∀ line ∈ posts.flatMap postLines, Whole (LINE_SIZE - 1) line := by
    intro line hline
    obtain ⟨p, hp, hline⟩ := List.mem_flatMap.mp hline
    exact (hposts p hp).whole line hline
  obtain ⟨hall, hnext⟩ :=
    @foldl_posts posts hposts ⟨[], none, 1⟩ (by simpa [Reading.all] using hroom)
  unfold started loadPosts
  rw [hfile]
  dsimp only
  rw [postsText, map_chomp_readLines hlines, hall, hnext]
  rfl

end AmmarServer.Social
