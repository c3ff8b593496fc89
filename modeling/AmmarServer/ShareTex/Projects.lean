import AmmarServer.HabChan.ThreadFiles

/-! The projects of `Services/ShareTex/state.c` and their `meta.ini`, whose lines are those of the
files of a thread. -/

namespace AmmarServer.ShareTex
open Bytes CString TextFile InputParser HabChan

def MAX_PROJECTS : ℕ := 1000
def MAX_COLLABORATORS : ℕ := 50
def MAX_STRING_SIZE : ℕ := 256

/-- The size of the arrays for a user name. -/
def USER_SIZE : ℕ := 64

/-- A `char` array, by the string that it holds. -/
structure Buffer (size : ℕ) where
  bytes : List UInt8
  fits : bytes.length < size
  deriving DecidableEq

theorem take_fits {size : ℕ} (h : 0 < size) (s : List UInt8) :
    (s.take (size - 1)).length < size := by
  rw [List.length_take]
  exact (Nat.min_le_left _ _).trans_lt (Nat.sub_one_lt_of_lt h)

theorem getWord_fits {size : ℕ} (ws : List (List UInt8)) (num : ℕ) (b : Buffer size) :
    (inputParserGetWord ws num b.bytes size).length < size := by
  unfold inputParserGetWord
  split
  · exact b.fits
  · split
    · exact b.fits
    · rename_i hroom
      exact Nat.not_lt.mp hroom

/-- `snprintf` with `%s`. -/
def Buffer.print {size : ℕ} (h : 0 < size) (s : List UInt8) : Buffer size :=
  ⟨s.take (size - 1), take_fits h s⟩

def Buffer.getWord {size : ℕ} (ws : List (List UInt8)) (num : ℕ) (b : Buffer size) : Buffer size :=
  ⟨inputParserGetWord ws num b.bytes size, getWord_fits ws num b⟩

theorem id_room : 0 < 32 := by decide

theorem title_room : 0 < MAX_STRING_SIZE := by decide

theorem user_room : 0 < USER_SIZE := by decide

/-- `struct project`, without the list of the files that a directory has. -/
structure Project where
  id : Buffer 32
  title : Buffer MAX_STRING_SIZE
  owner : Buffer USER_SIZE
  collaborators : List (Buffer USER_SIZE)
  isPublic : UInt8
  pdfVersion : UInt32
  room : collaborators.length ≤ MAX_COLLABORATORS
  deriving DecidableEq

theorem nil_room : ([] : List (Buffer USER_SIZE)).length ≤ MAX_COLLABORATORS := by decide

/-- A project behind `memset` and the copy of its name. -/
def Project.cleared (id : List UInt8) : Project where
  id := .print id_room id
  title := .print title_room []
  owner := .print user_room []
  collaborators := []
  isPublic := 0
  pdfVersion := 0
  room := nil_room

theorem append_room {α : Type} {l : List α} {n : ℕ} (h : l.length < n) (a : α) :
    (l ++ [a]).length ≤ n := by
  rw [List.length_append, List.length_singleton]
  exact h

def userCanAccessProject (p : Project) (username : List UInt8) : Bool :=
  if p.isPublic ≠ 0 then true
  else if p.owner.bytes = username then true
  else p.collaborators.any fun c => c.bytes == username

/-! `meta.ini`. -/

/-- The lines that `saveProjectMeta` writes. -/
def metaLines (p : Project) : List (List UInt8) :=
  [line "title" [p.title.bytes], line "owner" [p.owner.bytes],
      line "public" [decimal p.isPublic.toNat], line "pdfversion" [decimal p.pdfVersion.toNat]] ++
    p.collaborators.map fun c => line "collaborator" [c.bytes]

def saveProjectMeta (p : Project) : List UInt8 := fileText (metaLines p)

/-- What the loop of `loadProjectMeta` makes of the words of a line. -/
def metaWords (p : Project) (ws : List (List UInt8)) : Project :=
  if ws = [] then p
  else if named ws "TITLE" then { p with title := p.title.getWord ws 1 }
  else if named ws "OWNER" then { p with owner := p.owner.getWord ws 1 }
  else if named ws "PUBLIC" then { p with isPublic := (inputParserGetWordInt ws 1).toUInt8 }
  else if named ws "COLLABORATOR" then
    if h : p.collaborators.length < MAX_COLLABORATORS then
      { p with collaborators := p.collaborators ++ [(Buffer.print user_room []).getWord ws 1]
               room := append_room h _ }
    else p
  else if named ws "PDFVERSION" then { p with pdfVersion := inputParserGetWordInt ws 1 }
  else p

def metaLine (p : Project) (line : List UInt8) : Project := metaWords p (words line)

/-- `file` is what there is under the name of the project, and `parser` whether a parser was
found. -/
def loadProjectMeta (parser : Bool) (id : List UInt8) (file : Option (List UInt8)) :
    Option Project :=
  match file with
  | none => none
  | some file => if parser then some ((lines file).foldl metaLine (.cleared id)) else none

/-! A project is created. -/

/-- The `meta.ini` of each directory below `projects`, and the table of the projects. -/
structure Site where
  projects : List Project
  nextProjectUID : UInt32
  files : List UInt8 → Option (List UInt8)

/-- `p%06u`. -/
def projectName (uid : UInt32) : List UInt8 :=
  112 :: (List.replicate (6 - (decimal uid.toNat).length) 48 ++ decimal uid.toNat)

/-- `directories` is whether the two directories of the project could be made. -/
def createProject (directories : Bool) (s : Site) (owner title : List UInt8) :
    Option (List UInt8) × Site :=
  if MAX_PROJECTS ≤ s.projects.length then (none, s)
  else if directories then
    let id := projectName s.nextProjectUID
    let p := { Project.cleared id with
      title := .print title_room title, owner := .print user_room owner }
    (some id,
      { projects := s.projects ++ [p]
        nextProjectUID := s.nextProjectUID + 1
        files := Function.update s.files id (some (saveProjectMeta p)) })
  else (none, s)

/-! What is read back of a project. -/

/-- No field of the project holds a delimeter of the parser. -/
structure Delimited (p : Project) : Prop where
  title : Plain p.title.bytes
  owner : Plain p.owner.bytes
  collaborators : ∀ c ∈ p.collaborators, Plain c.bytes

/-- The project is what its file has been made from. -/
structure Restored (p q : Project) : Prop where
  title : q.title = p.title
  owner : q.owner = p.owner
  isPublic : q.isPublic = p.isPublic
  pdfVersion : q.pdfVersion = p.pdfVersion
  collaborators : q.collaborators = p.collaborators
  access : ∀ username, userCanAccessProject q username = userCanAccessProject p username

theorem plain_words {line : List UInt8} : ∀ w ∈ words line, Plain w := by
  have hmax : inputParserCreate HabChan.LINE_MAX_LENGTH 5 = ⟨HabChan.delimeters, 1024⟩ := rfl
  unfold words inputParserSeperateWords
  rw [hmax]
  exact seperateFrom_no_delimeter fun _ hc => absurd hc List.not_mem_nil

theorem plain_getWord {size : ℕ} {line : List UInt8} {num : ℕ} {b : Buffer size}
    (hb : Plain b.bytes) : Plain (b.getWord (words line) num).bytes := by
  show Plain (inputParserGetWord _ _ _ _)
  unfold inputParserGetWord
  split
  · exact hb
  · rename_i hword
    split
    · exact hb
    · exact plain_words _ (List.mem_of_getElem? hword)

theorem plain_print_nil {size : ℕ} (h : 0 < size) : Plain (Buffer.print h []).bytes := by
  show Plain (([] : List UInt8).take _)
  rw [List.take_nil]
  exact fun _ hc => absurd hc List.not_mem_nil

theorem delimited_cleared (id : List UInt8) : Delimited (.cleared id) :=
  ⟨plain_print_nil title_room, plain_print_nil user_room, fun _ hc => absurd hc List.not_mem_nil⟩

theorem Delimited.metaLine {p : Project} (h : Delimited p) (line : List UInt8) :
    Delimited (metaLine p line) := by
  unfold ShareTex.metaLine metaWords
  split_ifs
  · exact h
  · exact ⟨plain_getWord h.title, h.owner, h.collaborators⟩
  · exact ⟨h.title, plain_getWord h.owner, h.collaborators⟩
  · exact ⟨h.title, h.owner, h.collaborators⟩
  · refine ⟨h.title, h.owner, fun c hc => ?_⟩
    rcases List.mem_append.mp hc with hc | hc
    · exact h.collaborators c hc
    · rw [List.mem_singleton.mp hc]
      exact plain_getWord (plain_print_nil user_room)
  · exact h
  · exact ⟨h.title, h.owner, h.collaborators⟩
  · exact h

theorem Delimited.foldl_metaLine {p : Project} (h : Delimited p) (ls : List (List UInt8)) :
    Delimited (ls.foldl ShareTex.metaLine p) := by
  induction ls generalizing p with
  | nil => exact h
  | cons l ls ih => exact ih (h.metaLine l)

theorem delimited_of_load {id : List UInt8} {file : Option (List UInt8)} {q : Project}
    (h : loadProjectMeta true id file = some q) : Delimited q := by
  cases file with
  | none => cases h
  | some file =>
    cases h
    exact (delimited_cleared id).foldl_metaLine _

/-- The names of the lines, and how the source spells them when it reads. -/
def metaNames : List (String × String) :=
  [("title", "TITLE"), ("owner", "OWNER"), ("public", "PUBLIC"), ("collaborator", "COLLABORATOR"),
    ("pdfversion", "PDFVERSION")]

theorem metaNames_plain : ∀ n ∈ metaNames,
    Plain (ascii n.1) ∧ ascii n.1 ≠ [] ∧ (ascii n.1).length ≤ 15 := by
  decide

theorem metaNames_apart : ∀ n ∈ metaNames, ∀ m ∈ metaNames,
    ((ascii n.1).map toupper = (ascii m.2).map toupper ↔ n.2 = m.2) := by
  decide

theorem plain_singleton {v : List UInt8} (h : Plain v) : ∀ w ∈ [v], Plain w := by
  intro w hw
  rw [List.mem_singleton.mp hw]
  exact h

theorem metaLine_line {n : String × String} (hn : n ∈ metaNames) {v : List UInt8} (hv : Plain v)
    (p : Project) :
    metaLine p (line n.1 [v] ++ [LF]) =
      let ws := ascii n.1 :: [v].filter (· ≠ [])
      if n.2 = "TITLE" then { p with title := p.title.getWord ws 1 }
      else if n.2 = "OWNER" then { p with owner := p.owner.getWord ws 1 }
      else if n.2 = "PUBLIC" then { p with isPublic := (inputParserGetWordInt ws 1).toUInt8 }
      else if n.2 = "COLLABORATOR" then
        if h : p.collaborators.length < MAX_COLLABORATORS then
          { p with collaborators := p.collaborators ++ [(Buffer.print user_room []).getWord ws 1]
                   room := append_room h _ }
        else p
      else if n.2 = "PDFVERSION" then { p with pdfVersion := inputParserGetWordInt ws 1 }
      else p := by
  obtain ⟨hname, hne, -⟩ := metaNames_plain n hn
  have hnamed : ∀ m ∈ metaNames, ∀ ws, named (ascii n.1 :: ws) m.2 = decide (n.2 = m.2) :=
    fun m hm ws => decide_eq_decide.mpr (metaNames_apart n hn m hm)
  simp only [metaNames, List.forall_mem_cons] at hnamed
  obtain ⟨htitle, howner, hpublic, hcollaborator, hversion, -⟩ := hnamed
  unfold metaLine
  rw [words_line hname hne (plain_singleton hv) (length_one_lt v)]
  unfold metaWords
  simp only [htitle, howner, hpublic, hcollaborator, hversion, List.cons_ne_nil, if_false,
    decide_eq_true_eq]

theorem Buffer.ext {size : ℕ} {b b' : Buffer size} (h : b.bytes = b'.bytes) : b = b' := by
  cases b
  cases b'
  cases h
  rfl

theorem getWord_line (name : List UInt8) {size : ℕ} {b : Buffer size} (hb : b.bytes = [])
    (v : Buffer size) : b.getWord (name :: [v.bytes].filter (· ≠ [])) 1 = v := by
  apply Buffer.ext
  show inputParserGetWord _ 1 b.bytes size = v.bytes
  rw [hb]
  cases hv : v.bytes with
  | nil => rfl
  | cons c s =>
    have hfits := v.fits
    rw [hv] at hfits
    show (if size < (c :: s).length + 1 then [] else c :: s) = c :: s
    rw [if_neg (Nat.not_lt.mpr hfits)]

theorem readInt_line (name : List UInt8) (n : UInt32) :
    inputParserGetWordInt (name :: [decimal n.toNat].filter (· ≠ [])) 1 = n := by
  have hfilter := filter_decimal [n.toNat]
  rw [List.map_singleton] at hfilter
  rw [hfilter]
  exact str2Int_decimal n

theorem metaLine_title {p : Project} (hempty : p.title.bytes = []) {v : Buffer MAX_STRING_SIZE}
    (hv : Plain v.bytes) :
    metaLine p (line "title" [v.bytes] ++ [LF]) = { p with title := v } := by
  have hline := metaLine_line (n := ("title", "TITLE")) (by decide) hv p
  rw [hline]
  exact congrArg (fun b => { p with title := b }) (getWord_line _ hempty v)

theorem metaLine_owner {p : Project} (hempty : p.owner.bytes = []) {v : Buffer USER_SIZE}
    (hv : Plain v.bytes) :
    metaLine p (line "owner" [v.bytes] ++ [LF]) = { p with owner := v } := by
  have hline := metaLine_line (n := ("owner", "OWNER")) (by decide) hv p
  rw [hline]
  exact congrArg (fun b => { p with owner := b }) (getWord_line _ hempty v)

theorem metaLine_public (p : Project) (n : UInt8) :
    metaLine p (line "public" [decimal n.toNat] ++ [LF]) = { p with isPublic := n } := by
  have hline := metaLine_line (n := ("public", "PUBLIC")) (by decide) (plain_decimal n.toNat) p
  rw [hline]
  exact congrArg (fun b => { p with isPublic := b }) (readByte_line "public" n)

theorem metaLine_pdfVersion (p : Project) (n : UInt32) :
    metaLine p (line "pdfversion" [decimal n.toNat] ++ [LF]) = { p with pdfVersion := n } := by
  have hline := metaLine_line (n := ("pdfversion", "PDFVERSION")) (by decide)
    (plain_decimal n.toNat) p
  rw [hline]
  exact congrArg (fun b => { p with pdfVersion := b }) (readInt_line _ n)

theorem metaLine_collaborator {p : Project} (hroom : p.collaborators.length < MAX_COLLABORATORS)
    {v : Buffer USER_SIZE} (hv : Plain v.bytes) :
    metaLine p (line "collaborator" [v.bytes] ++ [LF]) =
      { p with collaborators := p.collaborators ++ [v], room := append_room hroom v } := by
  have hline := metaLine_line (n := ("collaborator", "COLLABORATOR")) (by decide) hv p
  have hempty : (Buffer.print user_room [] : Buffer USER_SIZE).bytes = [] := List.take_nil
  rw [hline]
  simp only [getWord_line _ hempty v, hroom, dif_pos]
  rfl

theorem foldl_collaborators {p : Project} {cs : List (Buffer USER_SIZE)}
    (hroom : (p.collaborators ++ cs).length ≤ MAX_COLLABORATORS)
    (hcs : ∀ c ∈ cs, Plain c.bytes) :
    ((cs.map fun c => line "collaborator" [c.bytes]).map (· ++ [LF])).foldl metaLine p =
      { p with collaborators := p.collaborators ++ cs, room := hroom } := by
  induction cs generalizing p with
  | nil =>
    cases p
    simp
  | cons c cs ih =>
    obtain ⟨hc, hcs⟩ := List.forall_mem_cons.mp hcs
    have hlength : p.collaborators.length < MAX_COLLABORATORS := by
      rw [List.length_append, List.length_cons] at hroom
      omega
    rw [List.map_cons, List.map_cons, List.foldl_cons, metaLine_collaborator hlength hc]
    have happend : p.collaborators ++ c :: cs = p.collaborators ++ [c] ++ cs := by
      rw [List.append_assoc, List.singleton_append]
    rw [ih (by rw [← happend]; exact hroom) hcs]
    simp only [happend]

theorem line_one {n : String × String} (hn : n ∈ metaNames) {v : List UInt8} (hv : Plain v)
    (hlength : v.length < MAX_STRING_SIZE) : Line (line n.1 [v]) := by
  obtain ⟨hname, -, hshort⟩ := metaNames_plain n hn
  have hLF : LF ∈ HabChan.delimeters := by decide
  have htext : line n.1 [v] = ascii n.1 ++ 40 :: (v ++ [41]) := by
    simp [line, List.intercalate]
  rw [htext]
  constructor
  · intro hcon
    rcases List.mem_append.mp hcon with hcon | hcon
    · exact hname LF hcon hLF
    · rcases List.mem_cons.mp hcon with hcon | hcon
      · exact absurd hcon (by decide)
      · rcases List.mem_append.mp hcon with hcon | hcon
        · exact hv LF hcon hLF
        · exact absurd hcon (by decide)
  · unfold MAX_STRING_SIZE at hlength
    rw [List.length_append, List.length_cons, List.length_append, List.length_singleton]
    show _ < 1023
    omega

theorem Delimited.lines {p : Project} (h : Delimited p) : ∀ l ∈ metaLines p, Line l := by
  have hdecimal : ∀ n : ℕ, n < 10 ^ 30 → (decimal n).length < MAX_STRING_SIZE := fun n hn =>
    (decimal_length (by decide) hn).trans_lt (by decide)
  have htitle := line_one (n := ("title", "TITLE")) (by decide) h.title p.title.fits
  have howner := line_one (n := ("owner", "OWNER")) (by decide) h.owner
    (p.owner.fits.trans (by decide))
  have hpublic := line_one (n := ("public", "PUBLIC")) (by decide)
    (plain_decimal p.isPublic.toNat) (hdecimal _ (p.isPublic.toNat_lt.trans (by decide)))
  have hversion := line_one (n := ("pdfversion", "PDFVERSION")) (by decide)
    (plain_decimal p.pdfVersion.toNat) (hdecimal _ (p.pdfVersion.toNat_lt.trans (by decide)))
  intro l hl
  rcases List.mem_append.mp hl with hl | hl
  · simp only [List.mem_cons, List.not_mem_nil, or_false] at hl
    rcases hl with rfl | rfl | rfl | rfl
    · exact htitle
    · exact howner
    · exact hpublic
    · exact hversion
  · obtain ⟨c, hc, rfl⟩ := List.mem_map.mp hl
    exact line_one (n := ("collaborator", "COLLABORATOR")) (by decide) (h.collaborators c hc)
      (c.fits.trans (by decide))

theorem Delimited.load {p : Project} (h : Delimited p) :
    ∃ q, loadProjectMeta true p.id.bytes (some (saveProjectMeta p)) = some q ∧ Restored p q := by
  have hnil : ∀ {size : ℕ} (hsize : 0 < size), (Buffer.print hsize []).bytes = [] :=
    fun _ => List.take_nil
  have hfold : ∀ q : Project, q.collaborators = [] →
      ∃ hroom, ((p.collaborators.map fun c => line "collaborator" [c.bytes]).map
        (· ++ [LF])).foldl ShareTex.metaLine q =
          { q with collaborators := q.collaborators ++ p.collaborators, room := hroom } :=
    fun q hq => ⟨by rw [hq]; exact p.room, foldl_collaborators _ h.collaborators⟩
  refine ⟨_, rfl, ?_⟩
  rw [saveProjectMeta, lines_fileText h.lines, metaLines, List.map_append, List.foldl_append]
  simp only [List.map_cons, List.map_nil, List.foldl_cons, List.foldl_nil]
  rw [metaLine_title (hnil title_room) h.title, metaLine_owner (hnil user_room) h.owner,
    metaLine_public, metaLine_pdfVersion]
  obtain ⟨_, hcollaborators⟩ := hfold { Project.cleared p.id.bytes with
    title := p.title, owner := p.owner, isPublic := p.isPublic, pdfVersion := p.pdfVersion } rfl
  show Restored p (List.foldl _ { Project.cleared p.id.bytes with
    title := p.title, owner := p.owner, isPublic := p.isPublic, pdfVersion := p.pdfVersion } _)
  rw [hcollaborators]
  exact ⟨rfl, rfl, rfl, rfl, rfl, fun username => rfl⟩

theorem Restored.delimited {p q : Project} (h : Restored p q) (hq : Delimited q) : Delimited p := by
  refine ⟨?_, ?_, ?_⟩
  · rw [← h.title]
    exact hq.title
  · rw [← h.owner]
    exact hq.owner
  · rw [← h.collaborators]
    exact hq.collaborators

/-- A project is read back as it was exactly where no field holds a delimeter. -/
theorem restored_iff (p : Project) :
    (∃ q, loadProjectMeta true p.id.bytes (some (saveProjectMeta p)) = some q ∧ Restored p q) ↔
      Delimited p :=
  ⟨fun ⟨_, hload, hrestored⟩ => hrestored.delimited (delimited_of_load hload), fun h => h.load⟩

theorem createProject_delimited_iff {directories : Bool} {s s' : Site}
    {owner title id : List UInt8} (h : createProject directories s owner title = (some id, s')) :
    ∃ p, s'.projects = s.projects ++ [p] ∧ s'.files id = some (saveProjectMeta p) ∧
      (Delimited p ↔
        Plain (title.take (MAX_STRING_SIZE - 1)) ∧ Plain (owner.take (USER_SIZE - 1))) := by
  unfold createProject at h
  split at h
  · cases h
  · split at h
    · cases h
      refine ⟨_, rfl, Function.update_self .., fun hp => ⟨hp.title, hp.owner⟩, fun hp => ?_⟩
      exact ⟨hp.1, hp.2, fun _ hc => absurd hc List.not_mem_nil⟩
    · cases h

/-- A title that is a line of its own once it has been saved. -/
def injected : List UInt8 := ascii "draft)\ncollaborator(mallory"

/-- The title of a project lets somebody in who could not read it before. -/
theorem injected_access : ∃ id s', createProject true ⟨[], 1, fun _ => none⟩ (ascii "alice")
    injected = (some id, s') ∧ ∃ p ∈ s'.projects, ∃ q,
      loadProjectMeta true p.id.bytes (s'.files id) = some q ∧
        userCanAccessProject p (ascii "mallory") = false ∧
        userCanAccessProject q (ascii "mallory") = true := by
  refine ⟨_, _, rfl, _, List.mem_singleton_self _, _, rfl, ?_, ?_⟩
  all_goals decide

end AmmarServer.ShareTex
