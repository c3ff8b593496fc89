import AmmarServer.InputParser.InputParser

/-! `Services/HabChan`: the threads of a board and the files in their directories (`thread.c`,
`post.c`, `state.c`, `moderation.c`). -/

namespace AmmarServer.HabChan
open Bytes CString TextFile InputParser

def MAX_POSTS_PER_THREAD : ℕ := 256
def LINE_MAX_LENGTH : ℕ := 1024
def MAX_STRING_SIZE : ℕ := 512

/-- `snprintf(.., MAX_STRING_SIZE, "%s", ..)`. -/
def stored (s : List UInt8) : List UInt8 := s.take (MAX_STRING_SIZE - 1)

structure Timestamp where
  year : UInt32
  month : UInt32
  day : UInt32
  hour : UInt32
  minute : UInt32
  second : UInt32
deriving DecidableEq, Repr

structure Post where
  op : List UInt8
  password : List UInt8
  deleted : UInt8
  hasFile : Bool
  fileOriginalName : List UInt8
  fileCachedName : List UInt8
  creation : Timestamp
  message : Option (List UInt8)
deriving DecidableEq, Repr

/-- `replies` are the first `numberOfReplies` of its posts. -/
structure Thread where
  name : List UInt8
  sticky : UInt8
  deleted : UInt8
  op : List UInt8
  password : List UInt8
  title : List UInt8
  creation : Timestamp
  lastReply : Timestamp
  maxNumberOfReplies : ℕ
  numberOfImages : ℕ
  replies : List Post
deriving DecidableEq, Repr

def Timestamp.zero : Timestamp := ⟨0, 0, 0, 0, 0, 0⟩

/-- After its `memset`. -/
def Post.zero : Post := ⟨[], [], 0, false, [], [], .zero, none⟩

def Thread.zero : Thread := ⟨[], 0, 0, [], [], [], .zero, .zero, 0, 0, []⟩

/-- The directory of a thread: `status.ini`, and `header_N` and `post_N`. -/
structure Dir where
  status : Option (List UInt8)
  header : ℕ → Option (List UInt8)
  post : ℕ → Option (List UInt8)

def Dir.empty : Dir := ⟨none, fun _ => none, fun _ => none⟩

/-! What is written. -/

/-- `name(..)`, with commas between the values. -/
def line (name : String) (values : List (List UInt8)) : List UInt8 :=
  ascii name ++ 40 :: (List.intercalate [44] values ++ [41])

def Timestamp.values (t : Timestamp) : List (List UInt8) :=
  [t.year, t.month, t.day, t.hour, t.minute, t.second].map fun n => decimal n.toNat

def fileText (lines : List (List UInt8)) : List UInt8 := lines.flatMap (· ++ [LF])

def headerLines (p : Post) : List (List UInt8) :=
  [line "op" [p.op], line "password" [p.password], line "deleted" [decimal p.deleted.toNat]] ++
    (if p.hasFile then
      [line "imagename" [p.fileOriginalName], line "imagecached" [p.fileCachedName]] else []) ++
    [line "timestamp" p.creation.values]

def savePostHeader (opened : Bool) (d : Dir) (postIndex : ℕ) (p : Post) : Dir :=
  if opened then
    { d with header := Function.update d.header postIndex (some (fileText (headerLines p))) }
  else d

/-- `AmmServer_WriteFileFromMemory` writes no empty file. -/
def savePostContent (opened : Bool) (d : Dir) (postIndex : ℕ) (p : Post) : Dir :=
  match p.message with
  | none => d
  | some message =>
    if message = [] then d
    else if opened then { d with post := Function.update d.post postIndex (some message) } else d

def statusLines (t : Thread) : List (List UInt8) :=
  [line "op" [t.op], line "password" [t.password], line "deleted" [decimal t.deleted.toNat],
    line "title" [t.title], line "lastReply" t.lastReply.values,
    line "numberOfReplies" [decimal t.replies.length],
    line "numberOfImages" [decimal t.numberOfImages], line "sticky" [decimal t.sticky.toNat]]

def saveThreadStatus (opened : Bool) (d : Dir) (t : Thread) : Dir :=
  if opened then { d with status := some (fileText (statusLines t)) } else d

/-! What is read. -/

/-- What `malloc` answers while a thread is loaded. -/
structure LoadHeap where
  statusParser : Bool
  replies : Bool
  headerParser : ℕ → Bool
  message : ℕ → Bool

def words (line : List UInt8) : List (List UInt8) :=
  inputParserSeperateWords (inputParserCreate LINE_MAX_LENGTH 5) line

/-- The lines of a file, one `fgets` after the other. -/
def lines (file : List UInt8) : List (List UInt8) :=
  readLines (LINE_MAX_LENGTH - 1) file.length file

def named (ws : List (List UInt8)) (name : String) : Bool :=
  inputParserWordCompareNoCaseAuto ws 0 (ascii name)

def readTimestamp (ws : List (List UInt8)) : Timestamp where
  year := inputParserGetWordInt ws 1
  month := inputParserGetWordInt ws 2
  day := inputParserGetWordInt ws 3
  hour := inputParserGetWordInt ws 4
  minute := inputParserGetWordInt ws 5
  second := inputParserGetWordInt ws 6

def readWord (ws : List (List UInt8)) (buffer : List UInt8) : List UInt8 :=
  inputParserGetWord ws 1 buffer MAX_STRING_SIZE

def headerLine (p : Post) (line : List UInt8) : Post :=
  let ws := words line
  if ws = [] then p
  else if named ws "OP" then { p with op := readWord ws p.op }
  else if named ws "PASSWORD" then { p with password := readWord ws p.password }
  else if named ws "DELETED" then { p with deleted := (inputParserGetWordInt ws 1).toUInt8 }
  else if named ws "IMAGENAME" then
    { p with hasFile := true, fileOriginalName := readWord ws p.fileOriginalName }
  else if named ws "IMAGECACHED" then { p with fileCachedName := readWord ws p.fileCachedName }
  else if named ws "TIMESTAMP" then { p with creation := readTimestamp ws }
  else p

/-- Behind the last dot. -/
def extension (name : List UInt8) : Option (List UInt8) :=
  if 46 ∈ name then some (name.reverse.takeWhile (· ≠ 46)).reverse else none

def imageName (postIndex : ℕ) (ext : List UInt8) : List UInt8 :=
  ascii "image_" ++ decimal postIndex ++ 46 :: ext

def deriveCachedImageName (originalFilename : List UInt8) (postIndex : ℕ) : List UInt8 :=
  let candidate := ((extension originalFilename).getD []).take 15
  let ext :=
    -- the scanner takes what begins with one of these, and the lengths leave only themselves
    if [ascii "jpg", ascii "jpeg", ascii "png", ascii "gif"].contains (candidate.map toLower) then
      candidate.map toLower
    else ascii "jpg"
  imageName postIndex ext

def loadPostHeader (parser : Bool) (file : Option (List UInt8)) (postIndex : ℕ) : Option Post :=
  match file with
  | none => none
  | some text =>
    if parser then
      let p := (lines text).foldl headerLine .zero
      some
        (if p.hasFile ∧ p.fileCachedName = [] then
          { p with fileCachedName := deriveCachedImageName p.fileOriginalName postIndex } else p)
    else none

/-- Up to the NUL it is read behind, a message is a string. -/
def loadPostContent (message : Bool) (file : Option (List UInt8)) (p : Post) : Post :=
  { p with message := if message then file else none }

/-- The loop of `loadPosts` with so many posts to go, from the `i`th on. -/
def loadPosts (heap : LoadHeap) (d : Dir) : ℕ → ℕ → List Post
  | 0, _ => []
  | room + 1, i =>
    match loadPostHeader (heap.headerParser i) (d.header i) i with
    | none => []
    | some p => loadPostContent (heap.message i) (d.post i) p :: loadPosts heap d room (i + 1)

/-- `loadPosts` counts the replies and the images itself. -/
def statusLine (t : Thread) (line : List UInt8) : Thread :=
  let ws := words line
  if ws = [] then t
  else if named ws "OP" then { t with op := readWord ws t.op }
  else if named ws "PASSWORD" then { t with password := readWord ws t.password }
  else if named ws "DELETED" then { t with deleted := (inputParserGetWordInt ws 1).toUInt8 }
  else if named ws "TITLE" then { t with title := readWord ws t.title }
  else if named ws "LASTREPLY" then { t with lastReply := readTimestamp ws }
  else if named ws "NUMBEROFREPLIES" then t
  else if named ws "NUMBEROFIMAGES" then t
  else if named ws "STICKY" then { t with sticky := (inputParserGetWordInt ws 1).toUInt8 }
  else t

def loadThread (heap : LoadHeap) (threadName : List UInt8) (dir : Option Dir) : Option Thread :=
  match dir with
  | none => none
  | some d =>
    match d.status with
    | none => none
    | some text =>
      if heap.statusParser ∧ heap.replies then
        let t := (lines text).foldl statusLine { Thread.zero with name := stored threadName }
        let replies := loadPosts heap d MAX_POSTS_PER_THREAD 0
        some
          { t with
            creation := t.lastReply
            maxNumberOfReplies := MAX_POSTS_PER_THREAD
            numberOfImages := replies.countP fun p => p.fileOriginalName ≠ []
            replies }
      else none

/-! What visitors do. -/

def detectImageType (bytes : List UInt8) : Option (List UInt8) :=
  if 3 ≤ bytes.length ∧ bytes.take 3 = [0xFF, 0xD8, 0xFF] then some (ascii "jpg")
  else if 8 ≤ bytes.length ∧ bytes.take 8 = [0x89, 0x50, 0x4E, 0x47, 0x0D, 0x0A, 0x1A, 0x0A] then
    some (ascii "png")
  else if 6 ≤ bytes.length ∧ (bytes.take 6 = ascii "GIF87a" ∨ bytes.take 6 = ascii "GIF89a") then
    some (ascii "gif")
  else none

/-- What `processPostReceiver` has made of the form: `file` is the original name of a file that came
with it, and its bytes. -/
structure NewPost where
  op : List UInt8
  password : List UInt8
  message : List UInt8
  file : Option (List UInt8 × List UInt8)

/-- Which of the files of a post can be written. -/
structure Writes where
  image : Bool
  header : Bool
  post : Bool
  status : Bool

/-- The original name, the name it is kept under, and whether it was written. -/
def storedFile (postIndex : ℕ) (image : Bool) (file : Option (List UInt8 × List UInt8)) :
    Option (List UInt8 × List UInt8) :=
  match file with
  | none => none
  | some (name, bytes) =>
    match detectImageType bytes with
    | none => none
    | some ext => if image then some (stored name, imageName postIndex ext) else none

def storedPost (postIndex : ℕ) (newPost : NewPost) (image : Bool) (now : Timestamp) : Post where
  op := stored newPost.op
  password := stored newPost.password
  deleted := 0
  hasFile := (storedFile postIndex image newPost.file).isSome
  fileOriginalName := (storedFile postIndex image newPost.file).elim [] Prod.fst
  fileCachedName := (storedFile postIndex image newPost.file).elim [] Prod.snd
  creation := now
  message := some newPost.message

/-- The clock is looked at twice. -/
def addPostToThread (t : Thread) (d : Dir) (newPost : NewPost) (writes : Writes)
    (now later : Timestamp) : Option (Thread × Dir) :=
  if t.maxNumberOfReplies ≤ t.replies.length then none
  else
    let postIndex := t.replies.length
    let p := storedPost postIndex newPost writes.image now
    let d := savePostHeader writes.header d postIndex p
    let d := savePostContent writes.post d postIndex p
    let t :=
      { t with
        numberOfImages := t.numberOfImages + if p.hasFile then 1 else 0
        replies := t.replies ++ [p]
        lastReply := later }
    some (t, saveThreadStatus writes.status d t)

/-- The thread that `createThread` puts into a new directory. -/
def newThread (threadName op title password : List UInt8) (now : Timestamp) : Thread :=
  { Thread.zero with
    name := stored threadName
    op := stored op
    title := stored title
    password := stored password
    creation := now
    maxNumberOfReplies := MAX_POSTS_PER_THREAD }

/-- `createThread` once the directory is made and there is memory for the replies. -/
def storeThread (threadName title : List UInt8) (newPost : NewPost) (writes : Writes)
    (now later last : Timestamp) : Option (Thread × Dir) :=
  addPostToThread (newThread threadName newPost.op title newPost.password now) .empty newPost writes
    later last

/-- Whether the password is the one. -/
def mayDelete (password given : List UInt8) : Bool := password ≠ [] ∧ password = given

def deletedPost (p : Post) : Post :=
  { p with
    deleted := 1
    hasFile := false
    fileOriginalName := []
    fileCachedName := []
    message := some [] }

def deleteReply (t : Thread) (d : Dir) (postIndex : ℕ) (password : List UInt8) (writes : Writes) :
    Option (Thread × Dir) :=
  if postIndex = 0 then none
  else
    match t.replies[postIndex]? with
    | none => none
    | some p =>
      if p.deleted ≠ 0 then none
      else if !mayDelete p.password password then none
      else
        let images :=
          if p.hasFile ∧ p.fileCachedName ≠ [] then t.numberOfImages - 1 else t.numberOfImages
        let t :=
          { t with numberOfImages := images, replies := t.replies.set postIndex (deletedPost p) }
        let d := savePostHeader writes.header d postIndex (deletedPost p)
        let d := savePostContent writes.post d postIndex (deletedPost p)
        some (t, saveThreadStatus writes.status d t)

def deleteThread (t : Thread) (d : Dir) (password : List UInt8) (opened : Bool) :
    Option (Thread × Dir) :=
  if t.deleted ≠ 0 then none
  else if !mayDelete t.password password then none
  else
    let t := { t with deleted := 1 }
    some (t, saveThreadStatus opened d t)

end AmmarServer.HabChan
