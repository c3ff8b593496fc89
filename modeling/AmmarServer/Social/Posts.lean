import AmmarServer.Lib.CString
import AmmarServer.Lib.PercentCoding
import AmmarServer.Lib.TextFiles

/-! `Services/Social/posts.c`: the posts in memory and in their file, with the uploads of `media.c`
that hang on them. -/

namespace AmmarServer.Social
open Bytes CString TextFile PercentCoding

def MAX_POSTS : ℕ := 256
def MAX_COMMENTS_PER_POST : ℕ := 16
def MAX_LIKES_PER_POST : ℕ := 64
def MAX_POST_TEXT : ℕ := 281
def MAX_USERNAME : ℕ := 32
def MAX_MEDIA_NAME : ℕ := 64

def TAB : UInt8 := 9

/-- `snprintf(.., size, "%s", s)`. -/
def printed (size : ℕ) (s : List UInt8) : List UInt8 := (cstring s).take (size - 1)

structure SocialComment where
  author : List UInt8
  timestamp : UInt64
  text : List UInt8
deriving DecidableEq, Repr

structure SocialPost where
  id : UInt32
  author : List UInt8
  wall : List UInt8
  timestamp : UInt64
  text : List UInt8
  media : List UInt8
  comments : List SocialComment
  likedBy : List (List UInt8)
deriving DecidableEq, Repr

/-- The posts, the file that they are saved to, and the names in the upload directory. -/
structure Store where
  posts : List SocialPost
  nextPostID : UInt32
  file : Option (List UInt8)
  uploads : List (List UInt8)
deriving DecidableEq, Repr

/-! ## Texts and names -/

/-- `sanitizeText`; the output is empty where it returns 0. -/
def sanitizeText (input : List UInt8) (outputSize : ℕ) : List UInt8 :=
  let input := (cstring input).dropWhile fun c => c == 32 || c == TAB || c == LF || c == CR
  ((input.take (outputSize - 1)).map fun c => if c < 32 then 32 else c).rdropWhile (· == 32)

def isNameByte (c : UInt8) : Bool := isAlnum c || c == 95 || c == 45

/-- `uadbWeb_isValidUsername`. -/
def isValidUsername (username : List UInt8) : Bool :=
  3 ≤ username.length && username.length ≤ 31 && username.all isNameByte

/-- `mediaIsValidName`. -/
def mediaIsValidName (name : List UInt8) : Bool :=
  3 ≤ name.length && name.length < MAX_MEDIA_NAME && name.contains 46 && name.head? != some 46 &&
    name.count 46 == 1 && name.all fun c => c == 46 || isNameByte c

/-- `mediaDelete`. -/
def mediaDelete (s : Store) (storedName : List UInt8) : Store :=
  if mediaIsValidName storedName then
    { s with uploads := s.uploads.filter fun name => name != storedName }
  else s

/-! ## The file -/

/-- `nextField` with what it leaves in the cursor; `none` is the null pointer. -/
def nextField : Option (List UInt8) → Option (List UInt8) × Option (List UInt8)
  | none => (none, none)
  | some cursor =>
    let field := cursor.takeWhile fun c => c != TAB
    (some field,
      if field.length < cursor.length then some (cursor.drop (field.length + 1)) else none)

/-- The letter of a line and its fields, each behind a tab. -/
def record (kind : UInt8) (fields : List (List UInt8)) : List UInt8 :=
  kind :: fields.flatMap fun field => TAB :: field

/-- The lines of a post: `P`, `W`, `M`, `C` and `L`. -/
def postLines (p : SocialPost) : List (List UInt8) :=
  [record 80 [decimal p.id.toNat, decimal p.timestamp.toNat, p.author, p.text],
    record 87 [p.wall]] ++
  (if p.media = [] then [] else [record 77 [p.media]]) ++
  p.comments.map (fun c => record 67 [decimal c.timestamp.toNat, c.author, c.text]) ++
  p.likedBy.map fun name => record 76 [name]

def postsText (posts : List SocialPost) : List UInt8 :=
  (posts.flatMap postLines).flatMap (· ++ [LF])

def savePostsUnlocked (s : Store) : Store := { s with file := some (postsText s.posts) }

/-- The posts as far as they have been read: those in front of `currentPost`, and it. -/
structure Reading where
  posts : List SocialPost
  currentPost : Option SocialPost
  nextPostID : UInt32

def Reading.all (r : Reading) : List SocialPost := r.posts ++ r.currentPost.toList

/-- A `P` line. -/
def loadPost (r : Reading) (cursor : Option (List UInt8)) : Reading :=
  let (idString, cursor) := nextField cursor
  let (timestampString, cursor) := nextField cursor
  let (author, text) := nextField cursor
  match idString, timestampString, author, text with
  | some idString, some timestampString, some author, some text =>
    if r.all.length ≥ MAX_POSTS then { r with posts := r.all, currentPost := none }
    else
      let id := atoi idString
      { posts := r.all
        currentPost := some
          { id := id
            author := printed MAX_USERNAME author
            wall := printed MAX_USERNAME author
            timestamp := strtol timestampString
            text := printed MAX_POST_TEXT text
            media := []
            comments := []
            likedBy := [] }
        nextPostID := if id ≥ r.nextPostID then id + 1 else r.nextPostID }
  | _, _, _, _ => { r with posts := r.all, currentPost := none }

/-- A `C` line. -/
def loadComment (p : SocialPost) (cursor : Option (List UInt8)) : SocialPost :=
  let (timestampString, cursor) := nextField cursor
  let (author, text) := nextField cursor
  match timestampString, author, text with
  | some timestampString, some author, some text =>
    if p.comments.length ≥ MAX_COMMENTS_PER_POST then p
    else
      { p with
        comments := p.comments ++
          [⟨printed MAX_USERNAME author, strtol timestampString, printed MAX_POST_TEXT text⟩] }
  | _, _, _ => p

/-- A line of the last post that was read. -/
def loadDetail (p : SocialPost) (kind cursor : List UInt8) : SocialPost :=
  if kind = ascii "C" then loadComment p (some cursor)
  else if kind = ascii "W" then { p with wall := printed MAX_USERNAME cursor }
  else if kind = ascii "M" then { p with media := printed MAX_MEDIA_NAME cursor }
  else if kind = ascii "L" then
    if p.likedBy.length ≥ MAX_LIKES_PER_POST then p
    else { p with likedBy := p.likedBy ++ [printed MAX_USERNAME cursor] }
  else p

/-- A line without what ends it. -/
def loadLine (r : Reading) (line : List UInt8) : Reading :=
  if line.length < 3 then r
  else
    match nextField (some line) with
    | (some kind, some cursor) =>
      if kind = ascii "P" then loadPost r (some cursor)
      else { r with currentPost := r.currentPost.map fun p => loadDetail p kind cursor }
    | _ => r

/-- `char line[2048]`. -/
def LINE_SIZE : ℕ := 2048

def loadPosts (s : Store) : Store :=
  match s.file with
  | none => s
  | some file =>
    let lines := (readLines (LINE_SIZE - 1) file.length file).map chomp
    let r := lines.foldl loadLine ⟨s.posts, none, s.nextPostID⟩
    { s with posts := r.all, nextPostID := r.nextPostID }

def unloadPosts (s : Store) : Store := { savePostsUnlocked s with posts := [] }

/-- What a process finds when it starts. -/
def started (s : Store) : Store := loadPosts { s with posts := [], nextPostID := 1 }

def restart (s : Store) : Store := started (unloadPosts s)

/-! ## The five operations -/

def addPost (s : Store) (author wall text media : List UInt8) (time : UInt64) : Store × Bool :=
  if author = [] then (s, false)
  else
    let cleanText := sanitizeText text MAX_POST_TEXT
    if cleanText = [] ∧ media = [] then (s, false)
    else
      -- a full wall drops its oldest post
      let posts := if s.posts.length ≥ MAX_POSTS then s.posts.tail else s.posts
      let post : SocialPost :=
        { id := s.nextPostID
          author := printed MAX_USERNAME author
          wall := printed MAX_USERNAME (if wall = [] then author else wall)
          timestamp := time
          text := printed MAX_POST_TEXT cleanText
          media := printed MAX_MEDIA_NAME media
          comments := []
          likedBy := [] }
      (savePostsUnlocked { s with posts := posts ++ [post], nextPostID := s.nextPostID + 1 }, true)

/-- The first post with the identifier, as an index into the array. -/
def findPostUnlocked (s : Store) (postID : UInt32) : Option ℕ :=
  s.posts.findIdx? fun p => p.id = postID

/-- What the operations on a found post have in common: `change` is its new value, or none. -/
def changePost (s : Store) (postID : UInt32) (change : SocialPost → Option SocialPost) :
    Store × Bool :=
  match findPostUnlocked s postID with
  | none => (s, false)
  | some i =>
    match s.posts[i]?.bind change with
    | none => (s, false)
    | some p => (savePostsUnlocked { s with posts := s.posts.set i p }, true)

def addComment (s : Store) (postID : UInt32) (author text : List UInt8) (time : UInt64) :
    Store × Bool :=
  if author = [] then (s, false)
  else
    let cleanText := sanitizeText text MAX_POST_TEXT
    if cleanText = [] then (s, false)
    else
      changePost s postID fun p =>
        if p.comments.length < MAX_COMMENTS_PER_POST then
          some { p with
            comments := p.comments ++
              [⟨printed MAX_USERNAME author, time, printed MAX_POST_TEXT cleanText⟩] }
        else none

/-- The names of a post behind the loop of `toggleLike`, if they have changed. -/
def toggled (likedBy : List (List UInt8)) (username : List UInt8) : Option (List (List UInt8)) :=
  match likedBy.findIdx? fun name => name = username with
  -- the last entry takes the freed slot
  | some i => some ((likedBy.set i (likedBy.getLastD [])).dropLast)
  | none =>
    if likedBy.length < MAX_LIKES_PER_POST then some (likedBy ++ [printed MAX_USERNAME username])
    else none

def toggleLike (s : Store) (postID : UInt32) (username : List UInt8) : Store × Bool :=
  if username = [] then (s, false)
  else
    changePost s postID fun p => (toggled p.likedBy username).map fun names =>
      { p with likedBy := names }

def deletePost (s : Store) (postID : UInt32) (requester : List UInt8) : Store × Bool :=
  if requester = [] then (s, false)
  else
    match findPostUnlocked s postID with
    | none => (s, false)
    | some i =>
      match s.posts[i]? with
      | none => (s, false)
      | some post =>
        if post.author = requester ∨ post.wall = requester then
          let saved := savePostsUnlocked { s with posts := s.posts.eraseIdx i }
          let mediaToRemove := printed MAX_MEDIA_NAME post.media
          (if mediaToRemove = [] then saved else mediaDelete saved mediaToRemove, true)
        else (s, false)

def deleteComment (s : Store) (postID : UInt32) (commentIndex : ℕ) (requester : List UInt8) :
    Store × Bool :=
  if requester = [] then (s, false)
  else
    changePost s postID fun p =>
      match p.comments[commentIndex]? with
      | some comment =>
        if comment.author = requester then
          some { p with comments := p.comments.eraseIdx commentIndex }
        else none
      | none => none

end AmmarServer.Social
