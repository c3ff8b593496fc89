import Mathlib.Data.List.Perm.Basic
import AmmarServer.Social.PostFile

/-! What an operation can do to the posts, and what it keeps of them. -/

namespace AmmarServer.Social
open Bytes CString TextFile PercentCoding

/-! ## Names -/

def extensions : List (List UInt8) :=
  [ascii "jpg", ascii "png", ascii "gif", ascii "wav", ascii "ogg", ascii "mp3"]

/-- A name of `mediaStore`: twelve random bytes in base64url and an extension. -/
def IsStored (name : List UInt8) : Prop :=
  ∃ token extension, name = token ++ 46 :: extension ∧ token.length = 16 ∧
    (∀ c ∈ token, isNameByte c = true) ∧ extension ∈ extensions

theorem nameByte_facts {c : UInt8} (h : isNameByte c = true) : 32 ≤ c ∧ c ≠ 46 := by
  revert c
  apply forall_byte
  decide +kernel

theorem extensions_facts : ∀ extension ∈ extensions,
    extension.length = 3 ∧ ∀ c ∈ extension, isNameByte c = true := by
  decide +kernel

theorem fits_of_isValidUsername {username : List UInt8} (h : isValidUsername username = true) :
    Fits MAX_USERNAME username ∧ username ≠ [] := by
  unfold isValidUsername at h
  simp only [Bool.and_eq_true, decide_eq_true_eq, List.all_eq_true] at h
  obtain ⟨⟨hlow, hhigh⟩, hbytes⟩ := h
  refine ⟨⟨fun c hc => (nameByte_facts (hbytes c hc)).1, Nat.lt_succ_of_le hhigh⟩, ?_⟩
  rintro rfl
  exact Nat.not_succ_le_zero 2 hlow

theorem IsStored.fits {name : List UInt8} (h : IsStored name) :
    Fits MAX_MEDIA_NAME name ∧ name ≠ [] := by
  obtain ⟨token, extension, rfl, hlength, htoken, hextension⟩ := h
  obtain ⟨hthree, hbytes⟩ := extensions_facts extension hextension
  refine ⟨⟨fun c hc => ?_, ?_⟩, List.append_ne_nil_of_right_ne_nil _ (List.cons_ne_nil _ _)⟩
  · rcases List.mem_append.mp hc with hc | hc
    · exact (nameByte_facts (htoken c hc)).1
    · rcases List.mem_cons.mp hc with rfl | hc
      · decide
      · exact (nameByte_facts (hbytes c hc)).1
  · rw [List.length_append, List.length_cons, hlength, hthree]
    decide

theorem IsStored.mediaIsValidName {name : List UInt8} (h : IsStored name) :
    mediaIsValidName name = true := by
  obtain ⟨token, extension, rfl, hlength, htoken, hextension⟩ := h
  obtain ⟨hthree, hbytes⟩ := extensions_facts extension hextension
  have hplain : ∀ s : List UInt8, (∀ c ∈ s, isNameByte c = true) → s.count 46 = 0 := fun s hs =>
    List.count_eq_zero.mpr fun hcon => (nameByte_facts (hs 46 hcon)).2 rfl
  have hall : (token ++ 46 :: extension).all (fun c => c == 46 || isNameByte c) = true := by
    rw [List.all_append, List.all_cons, Bool.and_eq_true, Bool.and_eq_true, List.all_eq_true,
      List.all_eq_true]
    exact ⟨fun c hc => by rw [htoken c hc, Bool.or_true], rfl,
      fun c hc => by rw [hbytes c hc, Bool.or_true]⟩
  have hhead : (token ++ 46 :: extension).head? ≠ some 46 := by
    cases token with
    | nil => cases hlength
    | cons c token =>
      intro hcon
      exact (nameByte_facts (htoken c (List.mem_cons_self ..))).2 (Option.some.inj hcon)
  have hcount : (token ++ 46 :: extension).count 46 = 1 := by
    rw [List.count_append, List.count_cons_self, hplain token htoken, hplain extension hbytes]
  have hroom : (token ++ 46 :: extension).length = 20 := by
    rw [List.length_append, List.length_cons, hlength, hthree]
  unfold Social.mediaIsValidName MAX_MEDIA_NAME
  rw [hall, hcount, hroom]
  simpa using hhead

/-! ## Texts -/

theorem sanitizeText_fits (input : List UInt8) :
    Fits MAX_POST_TEXT (sanitizeText input MAX_POST_TEXT) := by
  have hleading := List.rdropWhile_prefix (fun c : UInt8 => c == 32)
    ((((cstring input).dropWhile fun c => c == 32 || c == TAB || c == LF || c == CR).take
      (MAX_POST_TEXT - 1)).map fun c => if c < 32 then 32 else c)
  constructor
  · intro c hc
    obtain ⟨d, -, rfl⟩ := List.mem_map.mp (List.IsPrefix.subset hleading hc)
    split
    · decide
    · rename_i hge
      exact UInt8.not_lt.mp hge
  · apply hleading.length_le.trans_lt
    rw [List.length_map, List.length_take]
    exact (Nat.min_le_left ..).trans_lt (by decide)

/-! ## One post -/

/-- A post that the operations keep. -/
structure Kept (p : SocialPost) : Prop extends Savable p where
  nodup : p.likedBy.Nodup
  stored : p.media = [] ∨ IsStored p.media

/-- `p` with other comments and likes. -/
structure SamePost (p q : SocialPost) : Prop where
  id : q.id = p.id
  author : q.author = p.author
  wall : q.wall = p.wall
  timestamp : q.timestamp = p.timestamp
  text : q.text = p.text
  media : q.media = p.media

theorem SamePost.refl (p : SocialPost) : SamePost p p := ⟨rfl, rfl, rfl, rfl, rfl, rfl⟩

/-! ## Found posts -/

section Found

variable {s : Store} {postID : UInt32} {change : SocialPost → Option SocialPost}

theorem findPostUnlocked_split {l r : List SocialPost} {p : SocialPost}
    (hposts : s.posts = l ++ p :: r) (hl : ∀ q ∈ l, q.id ≠ postID) (hp : p.id = postID) :
    findPostUnlocked s postID = some l.length := by
  unfold findPostUnlocked
  rw [hposts, List.findIdx?_append, List.findIdx?_cons]
  have hnone : l.findIdx? (fun p => decide (p.id = postID)) = none :=
    List.findIdx?_eq_none_iff.mpr fun q hq => decide_eq_false (hl q hq)
  rw [hnone]
  simp [hp]

theorem findPostUnlocked_cases (s : Store) (postID : UInt32) :
    (findPostUnlocked s postID = none ∧ ∀ p ∈ s.posts, p.id ≠ postID) ∨
      ∃ l p r, s.posts = l ++ p :: r ∧ (∀ q ∈ l, q.id ≠ postID) ∧ p.id = postID ∧
        findPostUnlocked s postID = some l.length := by
  cases hfind : s.posts.find? fun p => decide (p.id = postID) with
  | none =>
    have hnone : ∀ p ∈ s.posts, p.id ≠ postID := fun p hp =>
      of_decide_eq_false (Bool.not_eq_true _ ▸ List.find?_eq_none.mp hfind p hp)
    exact .inl ⟨List.findIdx?_eq_none_iff.mpr fun q hq => decide_eq_false (hnone q hq), hnone⟩
  | some p =>
    obtain ⟨hp, l, r, hposts, hl⟩ := List.find?_eq_some_iff_append.mp hfind
    rw [decide_eq_true_eq] at hp
    have hother : ∀ q ∈ l, q.id ≠ postID := fun q hq =>
      of_decide_eq_false (Bool.not_eq_true' _ ▸ hl q hq)
    exact .inr ⟨l, p, r, hposts, hother, hp, findPostUnlocked_split hposts hother hp⟩

theorem changePost_split {l r : List SocialPost} {p : SocialPost}
    (hposts : s.posts = l ++ p :: r) (hl : ∀ q ∈ l, q.id ≠ postID) (hp : p.id = postID) :
    changePost s postID change = match change p with
      | none => (s, false)
      | some q => (savePostsUnlocked { s with posts := l ++ q :: r }, true) := by
  have hget : s.posts[l.length]? = some p := by
    rw [hposts, List.getElem?_append_right le_rfl, Nat.sub_self]
    rfl
  have hset : ∀ q, s.posts.set l.length q = l ++ q :: r := fun q => by
    rw [hposts, List.set_append_right _ _ le_rfl, Nat.sub_self]
    rfl
  unfold changePost
  rw [findPostUnlocked_split hposts hl hp]
  dsimp only
  rw [hget, Option.bind_some]
  cases change p with
  | none => rfl
  | some q =>
    exact congrArg (fun posts => (savePostsUnlocked { s with posts := posts }, true)) (hset q)

theorem changePost_cases (s : Store) (postID : UInt32)
    (change : SocialPost → Option SocialPost) :
    changePost s postID change = (s, false) ∨
      ∃ l p r q, s.posts = l ++ p :: r ∧ (∀ x ∈ l, x.id ≠ postID) ∧ p.id = postID ∧
        change p = some q ∧
        changePost s postID change = (savePostsUnlocked { s with posts := l ++ q :: r }, true) := by
  rcases findPostUnlocked_cases s postID with ⟨hnone, -⟩ | ⟨l, p, r, hposts, hl, hp, -⟩
  · left
    unfold changePost
    rw [hnone]
  · rw [changePost_split hposts hl hp]
    cases hchange : change p with
    | none => exact .inl rfl
    | some q => exact .inr ⟨l, p, r, q, hposts, hl, hp, hchange, rfl⟩

theorem deletePost_cases (s : Store) (postID : UInt32) (requester : List UInt8) :
    deletePost s postID requester = (s, false) ∨
      ∃ l p r, s.posts = l ++ p :: r ∧ p.id = postID ∧
        (p.author = requester ∨ p.wall = requester) ∧
        deletePost s postID requester =
          (if printed MAX_MEDIA_NAME p.media = [] then savePostsUnlocked { s with posts := l ++ r }
            else mediaDelete (savePostsUnlocked { s with posts := l ++ r })
              (printed MAX_MEDIA_NAME p.media), true) := by
  unfold deletePost
  split
  · exact .inl rfl
  · rcases findPostUnlocked_cases s postID with ⟨hnone, -⟩ | ⟨l, p, r, hposts, hl, hp, hfind⟩
    · rw [hnone]
      exact .inl rfl
    · have hget : s.posts[l.length]? = some p := by
        rw [hposts, List.getElem?_append_right le_rfl, Nat.sub_self]
        rfl
      have herase : s.posts.eraseIdx l.length = l ++ r := by
        rw [hposts, List.eraseIdx_append_of_length_le le_rfl, Nat.sub_self]
        rfl
      rw [hfind]
      dsimp only
      rw [hget]
      dsimp only
      rw [herase]
      split
      · rename_i hallowed
        exact .inr ⟨l, p, r, hposts, hp, hallowed, rfl⟩
      · exact .inl rfl

end Found

/-! ## Likes -/

theorem set_getLastD_dropLast {l : List (List UInt8)} {i : ℕ} (hi : i < l.length) :
    (l.set i (l.getLastD [])).dropLast.Perm (l.eraseIdx i) := by
  obtain ⟨front, last, rfl⟩ : ∃ front last, l = front ++ [last] :=
    ⟨l.dropLast, l.getLast (List.ne_nil_of_length_pos (Nat.zero_lt_of_lt hi)),
      (List.dropLast_append_getLast _).symm⟩
  rw [List.length_append, List.length_singleton] at hi
  have hlast : (front ++ [last]).getLastD [] = last := by simp
  rw [hlast]
  rcases Nat.eq_or_lt_of_le (Nat.le_of_lt_succ hi) with rfl | hlt
  · rw [List.set_append_right _ _ le_rfl, Nat.sub_self, List.set_cons_zero, List.dropLast_concat,
      List.eraseIdx_append_of_length_le le_rfl, Nat.sub_self, List.eraseIdx_cons_zero,
      List.append_nil]
  · rw [List.set_append_left _ _ hlt, List.dropLast_concat, List.eraseIdx_append_of_lt_length hlt]
    exact (List.set_perm_cons_eraseIdx hlt last).trans (List.perm_append_singleton _ _).symm

theorem toggled_cases (likedBy : List (List UInt8)) {username : List UInt8}
    (husername : printed MAX_USERNAME username = username) :
    (username ∉ likedBy ∧ MAX_LIKES_PER_POST ≤ likedBy.length ∧ toggled likedBy username = none) ∨
      (username ∉ likedBy ∧ likedBy.length < MAX_LIKES_PER_POST ∧
        toggled likedBy username = some (likedBy ++ [username])) ∨
      ∃ names, toggled likedBy username = some names ∧ (username :: names).Perm likedBy := by
  by_cases hmem : username ∈ likedBy
  · right
    right
    unfold toggled
    cases hfind : likedBy.findIdx? fun name => decide (name = username) with
    | none =>
      have hcon := List.findIdx?_eq_none_iff.mp hfind username hmem
      rw [decide_eq_true rfl] at hcon
      cases hcon
    | some i =>
      obtain ⟨hi, hname, -⟩ := List.findIdx?_eq_some_iff_getElem.mp hfind
      rw [decide_eq_true_eq] at hname
      refine ⟨_, rfl, ?_⟩
      have hperm := List.getElem_cons_eraseIdx_perm hi
      rw [hname] at hperm
      exact ((set_getLastD_dropLast hi).cons username).trans hperm
  · have hnone : likedBy.findIdx? (fun name => decide (name = username)) = none :=
      List.findIdx?_eq_none_iff.mpr fun name hname =>
        decide_eq_false fun hcon => hmem (hcon ▸ hname)
    unfold toggled
    rw [hnone, husername]
    dsimp only
    split
    · rename_i hroom
      exact .inr (.inl ⟨hmem, hroom, rfl⟩)
    · rename_i hfull
      exact .inl ⟨hmem, Nat.le_of_not_lt hfull, rfl⟩

/-- Two calls restore the set. -/
theorem toggled_twice {likedBy names : List (List UInt8)} {username : List UInt8}
    (husername : printed MAX_USERNAME username = username) (hnodup : likedBy.Nodup)
    (hroom : likedBy.length ≤ MAX_LIKES_PER_POST) (h : toggled likedBy username = some names) :
    ∃ names', toggled names username = some names' ∧ names'.Perm likedBy := by
  rcases toggled_cases likedBy husername with
    ⟨-, -, hnone⟩ | ⟨hnew, hfree, hadd⟩ | ⟨names', hremove, hperm⟩
  · rw [hnone] at h
    cases h
  · -- the name was put at the end
    obtain rfl := Option.some.inj (h.symm.trans hadd)
    rcases toggled_cases (likedBy ++ [username]) husername with
      ⟨hcon, -⟩ | ⟨hcon, -⟩ | ⟨names', hremove, hperm⟩
    · exact absurd (List.mem_append_right _ (List.mem_singleton_self _)) hcon
    · exact absurd (List.mem_append_right _ (List.mem_singleton_self _)) hcon
    · exact ⟨names', hremove,
        (hperm.trans (List.perm_append_singleton username likedBy)).cons_inv⟩
  · -- the name was taken out, and is put at the end
    obtain rfl := Option.some.inj (h.symm.trans hremove)
    have hnodup' := hperm.nodup_iff.mpr hnodup
    have hlength := hperm.length_eq
    rw [List.length_cons] at hlength
    rcases toggled_cases names husername with
      ⟨-, hfull, -⟩ | ⟨-, -, hadd⟩ | ⟨names', -, hcon⟩
    · omega
    · exact ⟨_, hadd, (List.perm_append_singleton username names).trans hperm⟩
    · exact absurd (hcon.subset (List.mem_cons_self ..)) (List.nodup_cons.mp hnodup').1

end AmmarServer.Social
