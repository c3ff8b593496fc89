import AmmarServer.StringRecognizer.EmittedScanners

/-! The keys of a configuration file and the scanner of `stringscanners/configKeys.c`. -/

namespace AmmarServer.ServerConfiguration
open CString StringRecognizer

inductive ConfigKeys
  | EMPTY | TIMEOUT | KEEPALIVE | LISTEN | RUNASPRIORITY | RUNASUSER | IFUSERDOESNTEXISTRUNASUID
  | CACHING | MAXCACHESIZE | MAXCACHESIZEFOREACHFILE | MAXSEPERATECACHEITEMS | ENABLEPOST
  | MAXPOSTTRANSACTIONSIZE | KEEPALIVETIMEOUT | MAXKEEPALIVEREQUESTS | STARTSERVERS
  | MINSPARETHREADS | MAXSPARETHREADS | THREADLIMIT | MAXCLIENTS | FILECOMPRESSION
  | DYNAMICCONTENTCOMPRESSION | REALLOCTOSAVEMORETHANTHISNUMBEROFBYTESWITHCOMPRESSION | DEFAULTTYPE
  | SERVERADMIN | DOCUMENTROOT | SERVERTOKENS | SERVERSIGNATURE | DIRECTORYLISTING
deriving DecidableEq, Repr

/-- The names of the keys in the order of the enumerator, which begins with the empty one. -/
def keyNames : List (String × ConfigKeys) :=
  [("TIMEOUT", .TIMEOUT), ("KEEPALIVE", .KEEPALIVE), ("LISTEN", .LISTEN),
    ("RUNASPRIORITY", .RUNASPRIORITY), ("RUNASUSER", .RUNASUSER),
    ("IFUSERDOESNTEXISTRUNASUID", .IFUSERDOESNTEXISTRUNASUID), ("CACHING", .CACHING),
    ("MAXCACHESIZE", .MAXCACHESIZE), ("MAXCACHESIZEFOREACHFILE", .MAXCACHESIZEFOREACHFILE),
    ("MAXSEPERATECACHEITEMS", .MAXSEPERATECACHEITEMS), ("ENABLEPOST", .ENABLEPOST),
    ("MAXPOSTTRANSACTIONSIZE", .MAXPOSTTRANSACTIONSIZE), ("KEEPALIVETIMEOUT", .KEEPALIVETIMEOUT),
    ("MAXKEEPALIVEREQUESTS", .MAXKEEPALIVEREQUESTS), ("STARTSERVERS", .STARTSERVERS),
    ("MINSPARETHREADS", .MINSPARETHREADS), ("MAXSPARETHREADS", .MAXSPARETHREADS),
    ("THREADLIMIT", .THREADLIMIT), ("MAXCLIENTS", .MAXCLIENTS),
    ("FILECOMPRESSION", .FILECOMPRESSION),
    ("DYNAMICCONTENTCOMPRESSION", .DYNAMICCONTENTCOMPRESSION),
    ("REALLOCTOSAVEMORETHANTHISNUMBEROFBYTESWITHCOMPRESSION",
      .REALLOCTOSAVEMORETHANTHISNUMBEROFBYTESWITHCOMPRESSION),
    ("DEFAULTTYPE", .DEFAULTTYPE), ("SERVERADMIN", .SERVERADMIN), ("DOCUMENTROOT", .DOCUMENTROOT),
    ("SERVERTOKENS", .SERVERTOKENS), ("SERVERSIGNATURE", .SERVERSIGNATURE),
    ("DIRECTORYLISTING", .DIRECTORYLISTING)]

/-- The word of the scanner for a name. -/
def sentinelled (name : String) : List UInt8 := ascii name ++ [58]

def enumerator (name : String) : List UInt8 := ascii "CONFIGKEYS_" ++ ascii name

def enumerators : List (List UInt8) :=
  enumerator "EMPTY" :: keyNames.map fun key => enumerator key.1

def ConfigKeys.numbered : ℕ → ConfigKeys
  | 0 => .EMPTY
  | n + 1 => (keyNames[n]?).elim .EMPTY (·.2)

/-- A case with one word left: `if (strLength<n) { return 0; }` and its `strncasecmp`. -/
def only (n : ℕ) (name : String) : Block :=
  .ifShorter n (.ifWord (sentinelled name) n (enumerator name) .done)

/-- A case with several words left, one `else` behind the other. -/
def chain : List (ℕ × String) → Block
  | [] => .done
  | (n, name) :: names => .ifLongWord n (sentinelled name) (enumerator name) (chain names)

def labels : List (Char × Block) → Cases
  | [] => .nil
  | (c, body) :: cases => .case (UInt8.ofNat c.toNat) body (labels cases)

/-- The `switch` of `scanFor_configKeys`. -/
def scanner : Block :=
  .switch 0 (labels
    [('C', only 8 "CACHING"),
      ('D', .switch 1 (labels
        [('E', only 12 "DEFAULTTYPE"),
          ('I', only 17 "DIRECTORYLISTING"),
          ('O', only 13 "DOCUMENTROOT"),
          ('Y', only 26 "DYNAMICCONTENTCOMPRESSION")]) .done),
      ('E', only 11 "ENABLEPOST"),
      ('F', only 16 "FILECOMPRESSION"),
      ('I', only 26 "IFUSERDOESNTEXISTRUNASUID"),
      ('K', .switch 1 (labels
        [('E', .switch 2 (labels
          [('E', chain [(10, "KEEPALIVE"), (17, "KEEPALIVETIMEOUT")])]) .done)]) .done),
      ('L', only 7 "LISTEN"),
      ('M', .switch 1 (labels
        [('A', .switch 2 (labels
          [('X', chain
            [(13, "MAXCACHESIZE"), (24, "MAXCACHESIZEFOREACHFILE"), (22, "MAXSEPERATECACHEITEMS"),
              (23, "MAXPOSTTRANSACTIONSIZE"), (21, "MAXKEEPALIVEREQUESTS"), (16, "MAXSPARETHREADS"),
              (11, "MAXCLIENTS")])]) .done),
          ('I', only 16 "MINSPARETHREADS")]) .done),
      ('R', .switch 1 (labels
        [('E', only 54 "REALLOCTOSAVEMORETHANTHISNUMBEROFBYTESWITHCOMPRESSION"),
          ('U', .switch 2 (labels
            [('N', chain [(14, "RUNASPRIORITY"), (10, "RUNASUSER")])]) .done)]) .done),
      ('S', .switch 1 (labels
        [('E', .switch 2 (labels
          [('R', chain
            [(12, "SERVERADMIN"), (13, "SERVERTOKENS"), (16, "SERVERSIGNATURE")])]) .done),
          ('T', only 13 "STARTSERVERS")]) .done),
      ('T', .switch 1 (labels
        [('H', only 12 "THREADLIMIT"),
          ('I', only 8 "TIMEOUT")]) .done)]) .done

/-- `scanFor_configKeys(str, strlen(str))`. -/
def scanForConfigKeys (str : List UInt8) : ConfigKeys :=
  .numbered (if str.length < 7 then 0 else (scanner.exec enumerators.idxOf str).getD 0)

/-! What the scanner answers. -/

def scannedWords : List (List UInt8) := keyNames.map fun key => sentinelled key.1

theorem find_scanner : ∀ key ∈ keyNames,
    scanner.find (sentinelled key.1) = some (enumerator key.1) ∧
      ConfigKeys.numbered (enumerators.idxOf (enumerator key.1)) = key.2 ∧
      7 ≤ (sentinelled key.1).length ∧ (ascii key.1).all acceptedChars.contains = true := by
  decide +kernel

theorem distinct_scannedWords : scannedWords.Nodup := by
  have hkinds : (keyNames.map (·.2)).Nodup := by decide
  refine (List.Nodup.of_map _ hkinds).map_on fun key hkey key' hkey' heq => ?_
  apply List.inj_on_of_nodup_map hkinds hkey hkey'
  have hname : ascii key.1 = ascii key'.1 := List.append_cancel_right heq
  obtain ⟨-, hvalue, -⟩ := find_scanner key hkey
  obtain ⟨-, hvalue', -⟩ := find_scanner key' hkey'
  rw [← hvalue, ← hvalue', enumerator, enumerator, hname]

theorem wordList_scannedWords : WordList scannedWords := by
  refine wordList_of_bodies (fun w hw => ?_) distinct_scannedWords
  obtain ⟨key, hkey, rfl⟩ := List.mem_map.mp hw
  have hall := List.all_eq_true.mp (find_scanner key hkey).2.2.2
  exact ⟨ascii key.1, fun c hc => List.contains_iff_mem.mp (hall c hc), rfl⟩

theorem whole_scanner : ∀ test ∈ scanner.tests, Whole scannedWords test := by decide +kernel

theorem scanForConfigKeys_of_matches {str : List UInt8} {key : String × ConfigKeys}
    (hkey : key ∈ keyNames) (h : Matches (sentinelled key.1) str) :
    scanForConfigKeys str = key.2 := by
  obtain ⟨hfind, hvalue, hlength, -⟩ := find_scanner key hkey
  unfold scanForConfigKeys
  rw [if_neg (Nat.not_lt_of_le (hlength.trans h.length_le)),
    exec_of_matches wordList_scannedWords whole_scanner hfind (List.mem_map_of_mem hkey) h, hvalue]

theorem scanForConfigKeys_of_notMatches {str : List UInt8}
    (h : ∀ key ∈ keyNames, ¬Matches (sentinelled key.1) str) : scanForConfigKeys str = .EMPTY := by
  have hnone : ∀ w ∈ scannedWords, ¬Matches w str := by
    intro w hw
    obtain ⟨key, hkey, rfl⟩ := List.mem_map.mp hw
    exact h key hkey
  unfold scanForConfigKeys
  split
  · rfl
  · rw [exec_of_notMatches wordList_scannedWords whole_scanner hnone]
    rfl

/-! A key of its own, and one that goes on behind the sentinel. -/

/-- The key that a word names. -/
def keyNamed (word : List UInt8) : Option ConfigKeys :=
  (keyNames.find? fun key => EqIgnoreCase word (ascii key.1)).map (·.2)

/-- The word begins with a key and a colon. -/
def Colon (word : List UInt8) : Prop := ∃ key ∈ keyNames, Matches (sentinelled key.1) word

instance (word : List UInt8) : Decidable (Colon word) :=
  inferInstanceAs (Decidable (∃ _ ∈ _, _))

theorem matches_sentinel_iff {name : String} {word : List UInt8} :
    Matches (sentinelled name) (word ++ [58]) ↔
      EqIgnoreCase word (ascii name) ∨ Matches (sentinelled name) word := by
  have hlength : (sentinelled name).length = (ascii name).length + 1 := List.length_append
  unfold Matches
  rcases Nat.lt_trichotomy word.length (ascii name).length with hlt | heq | hgt
  · refine iff_of_false (fun h => ?_) (fun h => ?_)
    · have hle := Matches.length_le h
      rw [hlength, List.length_append, List.length_singleton] at hle
      omega
    · rcases h with h | h
      · have hsame := congrArg List.length h
        rw [List.length_map, List.length_map] at hsame
        omega
      · have hle := Matches.length_le h
        omega
  · have hshort : ¬EqIgnoreCase (word.take (sentinelled name).length) (sentinelled name) := by
      intro h
      have hle := Matches.length_le h
      omega
    rw [or_iff_left hshort, List.take_of_length_le (by simp [hlength, heq])]
    unfold EqIgnoreCase sentinelled
    rw [List.map_append, List.map_append, List.append_left_inj]
  · have hlong : ¬EqIgnoreCase word (ascii name) := by
      intro h
      have hsame := congrArg List.length h
      rw [List.length_map, List.length_map] at hsame
      omega
    rw [or_iff_right hlong, List.take_append_of_le_length (by omega)]

theorem scanForConfigKeys_eq {word : List UInt8} (h : ¬Colon word) :
    scanForConfigKeys (word ++ [58]) = (keyNamed word).getD .EMPTY := by
  unfold keyNamed
  cases hfind : keyNames.find? fun key => EqIgnoreCase word (ascii key.1) with
  | some key =>
    have hname : EqIgnoreCase word (ascii key.1) := by
      have hfound := List.find?_some hfind
      exact of_decide_eq_true hfound
    exact scanForConfigKeys_of_matches (List.mem_of_find?_eq_some hfind)
      (matches_sentinel_iff.mpr (.inl hname))
  | none =>
    refine scanForConfigKeys_of_notMatches fun key hkey hmatches => ?_
    rcases matches_sentinel_iff.mp hmatches with hname | hcolon
    · exact List.find?_eq_none.mp hfind key hkey (decide_eq_true hname)
    · exact h ⟨key, hkey, hcolon⟩

end AmmarServer.ServerConfiguration
