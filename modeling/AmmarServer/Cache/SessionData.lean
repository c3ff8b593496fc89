import AmmarServer.Cache.SessionLifetimes

/-! What the sessions of a table have stored, how each call leaves it, and which sessions it ends. -/

namespace AmmarServer.Cache.Sessions
open Hashmap

variable {server : Server} {list list' : SessionList} {token name : List UInt8} {time later : ℤ}
  {memory : Memory}

/-- The string under a name. -/
def SessionList.valueOf (list : SessionList) (data : HashMap) (name : List UInt8) :
    Option (List UInt8) :=
  (data.payloadOf name).map fun address => (list.value address).dropLast

def SessionList.stored (list : SessionList) (token name : List UInt8) : Option (List UInt8) :=
  (list.session token).bind fun entry => list.valueOf entry.data name

/-- The values of a session are copies of their own. -/
structure Copied (list : SessionList) (data : HashMap) : Prop where
  plain : Plain data
  step : 0 < data.entryAllocationStep
  copy : ∀ d ∈ data.entries, d.payload ≠ 0 ∧ d.payload < list.next ∧
    d.payloadLength = (list.value d.payload).length

def DataInv (list : SessionList) : Prop :=
  ∀ token entry, list.session token = some entry → Copied list entry.data

/-- The copies that are there stay as they are. -/
structure Extends (list list' : SessionList) : Prop where
  next : list.next ≤ list'.next
  value : ∀ address < list.next, list'.value address = list.value address
  drawn : list.drawn ≤ list'.drawn

theorem Extends.rfl : Extends list list := ⟨le_rfl, fun _ _ => Eq.refl _, le_rfl⟩

theorem Copied.extends {data : HashMap} (h : Copied list data) (hext : Extends list list') :
    Copied list' data where
  plain := h.plain
  step := h.step
  copy d hd := by
    obtain ⟨hne, hlt, hlength⟩ := h.copy d hd
    exact ⟨hne, hlt.trans_le hext.next, hlength.trans (congrArg _ (hext.value _ hlt).symm)⟩

theorem Copied.valueOf_extends {data : HashMap} (h : Copied list data) (hext : Extends list list')
    (name : List UInt8) : list'.valueOf data name = list.valueOf data name := by
  unfold SessionList.valueOf
  cases hpayload : data.payloadOf name with
  | none => rfl
  | some address =>
    obtain ⟨d, hd, -, rfl⟩ := h.plain.payloadOf_eq_some_iff.mp hpayload
    show some (list'.value d.payload).dropLast = some (list.value d.payload).dropLast
    rw [hext.value _ (h.copy d hd).2.1]

theorem copied_create : Copied list (hashMapCreate 8 8 false) where
  plain := plain_create (by decide) 8
  step := Nat.succ_pos 7
  copy d hd := by cases hd

theorem stored_of_session {entry : SessionEntry} (h : list.session token = some entry) :
    list.stored token name = list.valueOf entry.data name := by
  unfold SessionList.stored
  rw [h]
  rfl

theorem session_of_stored {u : List UInt8} (h : list.stored token name = some u) :
    list.session token ≠ none := by
  intro hnone
  unfold SessionList.stored at h
  rw [hnone] at h
  cases h

theorem dataInv_initialize : DataInv sessionListInitialize := by
  intro token entry h
  cases h

/-- Every session there is has the data that it had, or is new. -/
structure Follows (list list' : SessionList) : Prop where
  ext : Extends list list'
  session : ∀ token entry', list'.session token = some entry' →
    (∃ entry, list.session token = some entry ∧ entry'.data = entry.data) ∨
      (list.session token = none ∧ entry'.data = hashMapCreate 8 8 false)

namespace Follows

theorem dataInv (h : Follows list list') (hdata : DataInv list) : DataInv list' := by
  intro token entry' hsession
  rcases h.session token entry' hsession with ⟨entry, hbefore, hsame⟩ | ⟨-, hempty⟩
  · rw [hsame]
    exact (hdata token entry hbefore).extends h.ext
  · rw [hempty]
    exact copied_create

theorem stored (h : Follows list list') (hdata : DataInv list) (hsession : list'.session token ≠ none)
    (name : List UInt8) : list'.stored token name = list.stored token name := by
  obtain ⟨entry', hentry'⟩ := Option.ne_none_iff_exists'.mp hsession
  rw [stored_of_session hentry']
  rcases h.session token entry' hentry' with ⟨entry, hbefore, hsame⟩ | ⟨hnone, hempty⟩
  · rw [stored_of_session hbefore, hsame]
    exact (hdata token entry hbefore).valueOf_extends h.ext name
  · rw [hempty]
    unfold SessionList.stored
    rw [hnone]
    rfl

end Follows

theorem Inv.follows_remove (h : Inv server list) (token : List UInt8) :
    Follows list (list.remove token) where
  ext := ⟨le_rfl, fun _ _ => rfl, le_rfl⟩
  session other entry' hsession := by
    rw [h.session_remove] at hsession
    split at hsession
    · cases hsession
    · exact .inl ⟨entry', hsession, rfl⟩

/-! The sessions that a call ends. -/

inductive Reason
  | loggedOut
  | replaced
  | expired
  | evicted
deriving DecidableEq, Repr

structure Ended where
  reason : Reason
  sessionToken : List UInt8
deriving DecidableEq, Repr

def endedBy (reason : Reason) (list : SessionList) (token : List UInt8) : List Ended :=
  match list.session token with
  | none => []
  | some _ => [⟨reason, token⟩]

def endedByLookup (server : Server) (list : SessionList) (token : List UInt8) (time : ℤ) :
    List Ended :=
  match list.session token with
  | none => []
  | some entry => if sessionIsExpired server entry time then [⟨.expired, token⟩] else []

def evictedToken (server : Server) (list : SessionList) : Option (List UInt8) :=
  if (list.sessionTable.curNumberOfEntries : ℤ) < server.MAX_SESSIONS then none
  else (list.sessionTable.entries.foldl (oldestSession list.entry) none).map (·.2)

def endedByEviction (server : Server) (list : SessionList) : List Ended :=
  match evictedToken server list with
  | none => []
  | some token => [⟨.evicted, token⟩]

/-- The last of them comes first. -/
def endedByHeader (server : Server) (list : SessionList) (cookieValue : List UInt8) (time : ℤ) :
    List Ended :=
  match findSessionLocked server list cookieValue time with
  | (some _, _) => []
  | (none, found) =>
    endedByEviction server found ++ endedByLookup server list cookieValue time

/-- One of the draws with these numbers gave the token. -/
def DrawnIn (server : Server) (low high : ℕ) (token : List UInt8) : Prop :=
  ∃ i t, low ≤ i ∧ i < high ∧ server.draw i = some t ∧ t.text = token

/-- A call that leaves what the other sessions have under a name, and ends the ones of a list. -/
structure Keeps (server : Server) (name : List UInt8) (list : SessionList) (ended : List Ended)
    (list' : SessionList) : Prop where
  inv : Inv server list'
  data : DataInv list'
  drawn : list.drawn ≤ list'.drawn
  new : ∀ token, list'.session token ≠ none → list.session token = none →
    DrawnIn server list.drawn list'.drawn token
  stored : ∀ token, list'.session token ≠ none → list'.stored token name = list.stored token name
  kept : ∀ token, list.session token ≠ none → list'.session token = none →
    ∃ e ∈ ended, e.sessionToken = token
  gone : ∀ e ∈ ended, DrawnIn server 0 list'.drawn e.sessionToken ∧
    list'.session e.sessionToken = none

theorem DrawnIn.disjoint {low mid high : ℕ} (h : DrawnIn server low mid token)
    (h' : DrawnIn server mid high token) : False := by
  obtain ⟨i, t, -, hi, hdraw, htext⟩ := h
  obtain ⟨j, t', hj, -, hdraw', htext'⟩ := h'
  rw [Token.text_injective (htext'.trans htext.symm)] at hdraw'
  have := server.never_repeats i j t hdraw hdraw'
  omega

theorem DrawnIn.mono {low low' high high' : ℕ} (h : DrawnIn server low high token)
    (hlow : low' ≤ low) (hhigh : high ≤ high') : DrawnIn server low' high' token := by
  obtain ⟨i, t, hi, hi', hrest⟩ := h
  exact ⟨i, t, hlow.trans hi, hi'.trans_le hhigh, hrest⟩

theorem Inv.drawnIn (h : Inv server list) (hsession : list.session token ≠ none) :
    DrawnIn server 0 list.drawn token := by
  obtain ⟨entry, hentry⟩ := Option.ne_none_iff_exists'.mp hsession
  obtain ⟨e, he, rfl, -⟩ := h.exists_of_session hentry
  obtain ⟨i, t, hi, hdraw, htext⟩ := h.drawn e he
  exact ⟨i, t, Nat.zero_le i, hi, hdraw, htext⟩

theorem Keeps.same (h : Inv server list) (hdata : DataInv list) : Keeps server name list [] list where
  inv := h
  data := hdata
  drawn := le_rfl
  new _ hsome hnone := absurd hnone hsome
  stored _ _ := rfl
  kept _ hsome hnone := absurd hnone hsome
  gone _ he := absurd he List.not_mem_nil

theorem stored_of_none (h : list.session token = none) : list.stored token name = none := by
  unfold SessionList.stored
  rw [h]
  rfl

theorem Keeps.trans {list'' : SessionList} {ended ended' : List Ended} (h₀ : Inv server list)
    (h : Keeps server name list ended list') (h' : Keeps server name list' ended' list'') :
    Keeps server name list (ended' ++ ended) list'' where
  inv := h'.inv
  data := h'.data
  drawn := h.drawn.trans h'.drawn
  new token hsome hnone := by
    by_cases hmiddle : list'.session token = none
    · exact (h'.new token hsome hmiddle).mono h.drawn le_rfl
    · exact (h.new token hmiddle hnone).mono le_rfl h'.drawn
  stored token hsome := by
    rw [h'.stored token hsome]
    by_cases hmiddle : list'.session token = none
    · have hnone : list.session token = none := by
        by_contra hbefore
        exact (h₀.drawnIn hbefore).disjoint
          ((h'.new token hsome hmiddle).mono h.drawn le_rfl)
      rw [stored_of_none hmiddle, stored_of_none hnone]
    · exact h.stored token hmiddle
  kept token hsome hnone := by
    by_cases hmiddle : list'.session token = none
    · obtain ⟨e, he, htoken⟩ := h.kept token hsome hmiddle
      exact ⟨e, List.mem_append_right _ he, htoken⟩
    · obtain ⟨e, he, htoken⟩ := h'.kept token hmiddle hnone
      exact ⟨e, List.mem_append_left _ he, htoken⟩
  gone e he := by
    rcases List.mem_append.mp he with he | he
    · exact h'.gone e he
    · obtain ⟨hdrawn, hmiddle⟩ := h.gone e he
      refine ⟨hdrawn.mono le_rfl h'.drawn, ?_⟩
      by_contra hsome
      exact hdrawn.disjoint (h'.new _ hsome hmiddle)

theorem Inv.keeps_remove (h : Inv server list) (hdata : DataInv list) {token : List UInt8}
    (hsession : list.session token ≠ none) (reason : Reason) :
    Keeps server name list [⟨reason, token⟩] (list.remove token) where
  inv := h.remove token
  data := (h.follows_remove token).dataInv hdata
  drawn := le_rfl
  new other hother hnone := by
    rw [h.session_remove, hnone, ite_self] at hother
    exact absurd rfl hother
  stored other hother := (h.follows_remove token).stored hdata hother name
  kept other hsome hnone := by
    rw [h.session_remove] at hnone
    split at hnone
    · rename_i hsame
      exact ⟨_, List.mem_singleton_self _, hsame.symm⟩
    · exact absurd hnone hsome
  gone e he := by
    obtain rfl := List.mem_singleton.mp he
    refine ⟨h.drawnIn hsession, ?_⟩
    rw [h.session_remove, if_pos rfl]

theorem Inv.remove_eq (h : Inv server list) (hnone : list.session token = none) :
    list.remove token = list := by
  unfold SessionList.remove
  obtain ⟨-, ⟨-, hsame⟩ | ⟨e, -, he, hkey, -⟩⟩ := h.plain.removeKey token
  · rw [hsame]
  · exact absurd hkey (session_eq_none_iff.mp hnone e he)

theorem Inv.keeps_destroy (h : Inv server list) (hdata : DataInv list) (reason : Reason)
    (token : List UInt8) :
    Keeps server name list (endedBy reason list token) (sessionListDestroy list token).2 := by
  show Keeps server name list (endedBy reason list token) (list.remove token)
  unfold endedBy
  cases hsession : list.session token with
  | none =>
    rw [h.remove_eq hsession]
    exact .same h hdata
  | some entry =>
    exact h.keeps_remove hdata (by rw [hsession]; exact Option.some_ne_none _) reason

theorem Inv.keeps_find (h : Inv server list) (hdata : DataInv list) (token : List UInt8)
    (time : ℤ) :
    Keeps server name list (endedByLookup server list token time)
      (Sessions.findSessionLocked server list token time).2 := by
  unfold endedByLookup
  rcases h.findSessionLocked token time with
    ⟨hnone, hfind⟩ | ⟨entry, hsession, hexpired, hfind⟩ | ⟨address, haddress, hexpired, hfind⟩
  · rw [hfind, hnone]
    exact .same h hdata
  · rw [hfind, hsession]
    simp only [hexpired, if_true]
    exact h.keeps_remove hdata (by rw [hsession]; exact Option.some_ne_none _) .expired
  · have hsession : list.session token = some (list.entry address) := by
      unfold SessionList.session
      rw [haddress]
      rfl
    rw [hfind, hsession]
    simp only [hexpired, Bool.false_eq_true, if_false]
    exact .same h hdata

theorem evict_eq : evictOldestSessionIfAtCapacity server list =
    match evictedToken server list with
    | none => list
    | some token => list.remove token := by
  unfold evictOldestSessionIfAtCapacity evictedToken
  split
  · rfl
  · cases list.sessionTable.entries.foldl (oldestSession list.entry) none with
    | none => rfl
    | some oldest => rfl

theorem Inv.session_evictedToken (h : Inv server list)
    (hevicted : evictedToken server list = some token) : list.session token ≠ none := by
  unfold evictedToken at hevicted
  split at hevicted
  · cases hevicted
  · cases hentries : list.sessionTable.entries with
    | nil =>
      rw [hentries] at hevicted
      cases hevicted
    | cons first l =>
      have hne : ∀ e ∈ first :: l, e.payload ≠ 0 := fun e he => (h.address e (hentries ▸ he)).1
      obtain ⟨hfirst, hl⟩ := List.forall_mem_cons.mp hne
      obtain ⟨e, he, hfold, -⟩ := @foldl_oldestSession list.entry l hl first
      have hmem : e ∈ list.sessionTable.entries := hentries ▸ he
      have hstart : oldestSession list.entry none first = some
          ((list.entry first.payload).lastSeen,
            first.key.take (SESSION_TOKEN_STRING_SIZE - 1)) := if_neg hfirst
      rw [hentries, List.foldl_cons, hstart, hfold] at hevicted
      cases hevicted
      rw [(h.text_of_session hmem).2, h.session_of_mem hmem]
      exact Option.some_ne_none _

theorem Inv.keeps_evict (h : Inv server list) (hdata : DataInv list) :
    Keeps server name list (endedByEviction server list)
      (evictOldestSessionIfAtCapacity server list) := by
  rw [evict_eq]
  unfold endedByEviction
  cases hevicted : evictedToken server list with
  | none => exact .same h hdata
  | some token => exact h.keeps_remove hdata (h.session_evictedToken hevicted) .evicted

theorem createSessionLocked_cases {r : Option ℕ}
    (hcreate : createSessionLocked server list time memory = .ok (r, list')) :
    let evicted := evictOldestSessionIfAtCapacity server list
    Extends evicted list' ∧ ∀ address, r = some address → ∃ i t,
      evicted.drawn ≤ i ∧ i < list'.drawn ∧ server.draw i = some t ∧
        hashMapAdd evicted.sessionTable t.text address 0 (memory.heap evicted.next) =
          .ok (true, list'.sessionTable) ∧
        list'.entry address = newSession t time := by
  unfold createSessionLocked at hcreate
  simp only at hcreate ⊢
  generalize evictOldestSessionIfAtCapacity server list = list₁ at hcreate ⊢
  split at hcreate
  · cases hcreate
    exact ⟨.rfl, fun _ h => by cases h⟩
  · obtain ⟨hle, hdraws⟩ := @drawToken_spec server list₁.sessionTable 5 list₁.drawn
    cases hdrawn : drawToken server list₁.sessionTable 5 list₁.drawn with
    | mk answer drawn =>
      rw [hdrawn] at hcreate hle hdraws
      cases answer with
      | none =>
        cases hcreate
        exact ⟨⟨le_rfl, fun _ _ => rfl, hle⟩, fun _ h => by cases h⟩
      | some t =>
        obtain ⟨i, hi, hlt, hdraw⟩ := hdraws t rfl
        simp only at hcreate
        split at hcreate
        · cases hcreate
          exact ⟨⟨le_rfl, fun _ _ => rfl, hle⟩, fun _ h => by cases h⟩
        · cases hadd : hashMapAdd list₁.sessionTable t.text list₁.next 0
              (memory.heap list₁.next) with
          | error fault =>
            rw [hadd] at hcreate
            cases hcreate
          | ok result =>
            obtain ⟨stored, table⟩ := result
            rw [hadd] at hcreate
            cases stored with
            | false =>
              cases hcreate
              exact ⟨⟨le_rfl, fun _ _ => rfl, hle⟩, fun _ h => by cases h⟩
            | true =>
              cases hcreate
              refine ⟨⟨Nat.le_succ _, fun _ _ => rfl, hle⟩, fun address h => ?_⟩
              cases h
              exact ⟨i, t, hi, hlt, hdraw, hadd, Function.update_self ..⟩

/-- There is room for one more entry, or memory for it. -/
def Grows (hm : HashMap) (memory : Memory) : Prop :=
  hm.maxNumberOfEntries ≤ hm.curNumberOfEntries → memory.entries = true

theorem Created.follows {r : Option ℕ} (h₀ : Inv server list) (hext : Extends list list')
    (h : Created server list time memory r list') :
    Follows list list' ∧ ∀ token, list.session token ≠ none → list'.session token ≠ none := by
  have hsame : ∀ {list' : SessionList}, (∀ other, list'.session other = list.session other) →
      Extends list list' → Follows list list' ∧
        ∀ token, list.session token ≠ none → list'.session token ≠ none := by
    intro list' hsession hext
    refine ⟨⟨hext, fun token entry' hsome => .inl ⟨entry', ?_, rfl⟩⟩, fun token hsome => ?_⟩
    · rw [← hsession]
      exact hsome
    · rw [hsession]
      exact hsome
  cases h with
  | failed inv session missing => exact hsame session hext
  | lost t inv session htext fresh missing => exact hsame session hext
  | created t inv session htext fresh =>
    obtain ⟨i, hi, hdraw⟩ := fresh
    have hnone := h₀.fresh hi hdraw
    refine ⟨⟨hext, fun token entry' hsome => ?_⟩, fun token hsome => ?_⟩
    · rw [session] at hsome
      split at hsome
      · rename_i htoken
        cases hsome
        exact .inr ⟨htoken ▸ hnone, rfl⟩
      · exact .inl ⟨entry', hsome, rfl⟩
    · rw [session]
      split
      · exact Option.some_ne_none _
      · exact hsome

theorem Created.drawnIn {r : Option ℕ} (h : Created server list time memory r list')
    (hsome : list'.session token ≠ none) (hnone : list.session token = none) :
    DrawnIn server list.drawn list'.drawn token := by
  have hdrawn := h.inv.drawnIn hsome
  cases h with
  | failed inv session missing =>
    rw [session] at hsome
    exact absurd hnone hsome
  | lost t inv session htext fresh missing =>
    rw [session] at hsome
    exact absurd hnone hsome
  | created t inv session htext fresh =>
    rw [session] at hsome
    split at hsome
    · rename_i htoken
      subst htoken
      obtain ⟨i, hi, hdraw⟩ := fresh
      obtain ⟨j, t', -, hj, hdraw', htext'⟩ := hdrawn
      rw [Token.text_injective htext'] at hdraw'
      exact ⟨i, t, hi, server.never_repeats i j t hdraw hdraw' ▸ hj, hdraw, rfl⟩
    · exact absurd hnone hsome

theorem Inv.keeps_create (h : Inv server list) (hdata : DataInv list) {r : Option ℕ}
    (hcreate : createSessionLocked server list time memory = .ok (r, list')) :
    Keeps server name list (endedByEviction server list) list' ∧
      ∀ address, r = some address →
        DrawnIn server list.drawn list'.drawn (tokenOut list' address) ∧
        (Grows (evictOldestSessionIfAtCapacity server list).sessionTable memory →
          ∃ t, t.text = tokenOut list' address ∧
            list'.session t.text = some (newSession t time)) := by
  have hcreated := h.create hcreate
  obtain ⟨hext, hmade⟩ := createSessionLocked_cases hcreate
  have h₁ := h.after_evict.1
  have hevict : Keeps server name list (endedByEviction server list) _ := h.keeps_evict hdata
  generalize evictOldestSessionIfAtCapacity server list = list₁ at hcreated hext hmade h₁ hevict ⊢
  obtain ⟨hfollows, hkept⟩ := hcreated.follows h₁ hext
  have hkeeps : Keeps server name list₁ [] list' :=
    { inv := hcreated.inv
      data := hfollows.dataInv hevict.data
      drawn := hext.drawn
      new := fun token hsome hnone => hcreated.drawnIn hsome hnone
      stored := fun token hsome => hfollows.stored hevict.data hsome name
      kept := fun token hsome hnone => absurd hnone (hkept token hsome)
      gone := fun e he => absurd he List.not_mem_nil }
  refine ⟨hevict.trans h hkeeps, fun address hr => ?_⟩
  obtain ⟨i, t, hi, hlt, hdraw, hadd, hentry⟩ := hmade address hr
  have htext : tokenOut list' address = t.text := by
    unfold tokenOut
    rw [hentry]
    exact List.take_of_length_le (Nat.le_sub_one_of_lt t.fits)
  rw [htext]
  refine ⟨⟨i, t, hevict.drawn.trans hi, hlt, hdraw, rfl⟩, fun hgrows => ⟨t, rfl, ?_⟩⟩
  rcases h₁.plain.add_cases hadd with ⟨-, ⟨-, hfull, hno⟩ | ⟨hfalse, -⟩⟩ | ⟨happended, -, -⟩
  · exact absurd ((hgrows hfull).symm.trans hno) (by decide)
  · cases hfalse
  · unfold SessionList.session
    rw [Plain.payloadOf_add hcreated.inv.plain happended]
    show Option.map list'.entry (if t.text = t.text then some _ else _) = _
    rw [if_pos rfl]
    exact congrArg some hentry

/-- What `getSessionFromHeader` answers, and the sessions that it ends. -/
theorem Inv.keeps_header (h : Inv server list) (hdata : DataInv list) {cookieValue : List UInt8}
    {answer : Answer}
    (hget : getSessionFromHeader server list cookieValue time later memory = .ok (answer, list')) :
    Keeps server name list (endedByHeader server list cookieValue time) list' ∧
      (answer = .session false [] false ∨
        (answer = .session true cookieValue false ∧ list.session cookieValue ≠ none ∧
          ∃ entry, list'.session cookieValue = some entry ∧ entry.lastSeen = later) ∨
        ∃ token, answer = .session true token true ∧
          DrawnIn server list.drawn list'.drawn token ∧
          (list.session cookieValue = none →
            Grows (evictOldestSessionIfAtCapacity server list).sessionTable memory →
            ∃ t, t.text = token ∧ list'.session token = some (newSession t later))) := by
  have hfound : Keeps server name list _ _ := h.keeps_find hdata cookieValue time
  have hcreates : ∀ list₁ : SessionList,
      Keeps server name list (endedByLookup server list cookieValue time) list₁ →
      (list.session cookieValue = none → list₁ = list) →
      answerCreated (createSessionLocked server list₁ later memory) = .ok (answer, list') →
      Keeps server name list
          (endedByEviction server list₁ ++ endedByLookup server list cookieValue time) list' ∧
        (answer = .session false [] false ∨ ∃ token, answer = .session true token true ∧
          DrawnIn server list.drawn list'.drawn token ∧
          (list.session cookieValue = none →
            Grows (evictOldestSessionIfAtCapacity server list).sessionTable memory →
            ∃ t, t.text = token ∧ list'.session token = some (newSession t later))) := by
    intro list₁ hkeeps hsame hanswer
    cases hcreate : createSessionLocked server list₁ later memory with
    | error fault =>
      rw [hcreate] at hanswer
      cases hanswer
    | ok result =>
      obtain ⟨r, list₂⟩ := result
      have hcreated : Keeps server name list₁ _ list₂ ∧ _ := hkeeps.inv.keeps_create hkeeps.data hcreate
      rw [hcreate] at hanswer
      cases r with
      | none =>
        cases hanswer
        exact ⟨hkeeps.trans h hcreated.1, .inl rfl⟩
      | some address =>
        cases hanswer
        obtain ⟨hdrawn, hmade⟩ := hcreated.2 address rfl
        refine ⟨hkeeps.trans h hcreated.1, .inr ⟨_, rfl, hdrawn.mono hkeeps.drawn le_rfl, ?_⟩⟩
        intro hnone hgrows
        rw [hsame hnone] at hmade
        obtain ⟨t, htext, hsession⟩ := hmade hgrows
        exact ⟨t, htext, htext ▸ hsession⟩
  unfold getSessionFromHeader at hget
  unfold endedByHeader
  rcases h.findSessionLocked cookieValue time with
    ⟨hnone, hfind⟩ | ⟨entry, hsession, hexpired, hfind⟩ | ⟨address, haddress, hexpired, hfind⟩
  · rw [hfind] at hget hfound ⊢
    obtain ⟨hkeeps, hanswer⟩ := hcreates list hfound (fun _ => rfl) hget
    exact ⟨hkeeps, hanswer.imp_right .inr⟩
  · rw [hfind] at hget hfound ⊢
    obtain ⟨hkeeps, hanswer⟩ := hcreates _ hfound
      (fun hnone => by rw [hsession] at hnone; cases hnone) hget
    exact ⟨hkeeps, hanswer.imp_right .inr⟩
  · have hsession : list.session cookieValue = some (list.entry address) := by
      unfold SessionList.session
      rw [haddress]
      rfl
    obtain ⟨e, he, hkey, rfl⟩ := h.plain.payloadOf_eq_some_iff.mp haddress
    have hafter := @Inv.session_modify _ _ cookieValue h e.payload
      { list.entry e.payload with lastSeen := later } haddress
    have hfollows : Follows list (list.modify e.payload
        { list.entry e.payload with lastSeen := later }) := by
      refine ⟨⟨le_rfl, fun _ _ => rfl, le_rfl⟩, fun other entry' hother => ?_⟩
      rw [hafter] at hother
      split at hother
      · rename_i hsame
        cases hother
        exact .inl ⟨list.entry e.payload, hsame ▸ hsession, rfl⟩
      · exact .inl ⟨entry', hother, rfl⟩
    have hsome : ∀ other, (list.modify e.payload
        { list.entry e.payload with lastSeen := later }).session other = none ↔
        list.session other = none := by
      intro other
      rw [hafter]
      split
      · rename_i hsame
        rw [hsame, hsession]
        exact iff_of_false (Option.some_ne_none _) (Option.some_ne_none _)
      · exact Iff.rfl
    have htext : tokenOut (list.modify e.payload
        { list.entry e.payload with lastSeen := later }) e.payload = cookieValue := by
      unfold tokenOut SessionList.modify
      simp only [Function.update_self]
      rw [h.token e he, (h.text_of_session he).2, hkey]
    rw [hfind] at hget ⊢
    cases hget
    refine ⟨?_, .inr (.inl ⟨congrArg (Answer.session true · false) htext, ?_,
      { list.entry e.payload with lastSeen := later }, ?_, rfl⟩)⟩
    · exact
        { inv := h.modify rfl
          data := hfollows.dataInv hdata
          drawn := le_rfl
          new := fun other hother hnone => absurd ((hsome other).mpr hnone) hother
          stored := fun other hother => hfollows.stored hdata hother name
          kept := fun other hother hnone => absurd ((hsome other).mp hnone) hother
          gone := fun e he => absurd he List.not_mem_nil }
    · rw [hsession]
      exact Option.some_ne_none _
    · show SessionList.session (list.modify e.payload
        { list.entry e.payload with lastSeen := later }) cookieValue = _
      rw [hafter, if_pos rfl]

/-- A session that is there before and behind a request with its token is the one that it gets. -/
theorem Inv.header_live (h : Inv server list) (hdata : DataInv list) {cookieValue : List UInt8}
    {answer : Answer}
    (hget : getSessionFromHeader server list cookieValue time later memory = .ok (answer, list'))
    (hbefore : list.session cookieValue ≠ none) (hafter : list'.session cookieValue ≠ none) :
    answer = .session true cookieValue false ∧
      ∃ entry, list'.session cookieValue = some entry ∧ entry.lastSeen = later := by
  obtain ⟨hkeeps, hanswer⟩ := @Inv.keeps_header server list list' [] time later memory h hdata _ _ hget
  rcases h.findSessionLocked cookieValue time with
    ⟨hnone, -⟩ | ⟨entry, hsession, hexpired, hfind⟩ | ⟨address, haddress, hexpired, hfind⟩
  · exact absurd hnone hbefore
  · refine absurd (hkeeps.gone ⟨.expired, cookieValue⟩ ?_).2 hafter
    unfold endedByHeader endedByLookup
    rw [hfind, hsession]
    simp only [hexpired, if_true]
    exact List.mem_append_right _ (List.mem_singleton_self _)
  · unfold getSessionFromHeader at hget
    rw [hfind] at hget
    cases hget
    rcases hanswer with hfailed | ⟨hlive, -, hentry⟩ | ⟨token, hnew, -⟩
    · cases hfailed
    · exact ⟨hlive, hentry⟩
    · cases hnew

theorem session_of_payloadOf {address : ℕ}
    (haddress : list.sessionTable.payloadOf token = some address) :
    list.session token = some (list.entry address) := by
  unfold SessionList.session
  rw [haddress]
  rfl

theorem Inv.find_live (h : Inv server list) {entry : SessionEntry}
    (hsession : list.session token = some entry)
    (hlive : sessionIsExpired server entry time = false) :
    ∃ address, list.sessionTable.payloadOf token = some address ∧ list.entry address = entry ∧
      Sessions.findSessionLocked server list token time = (some address, list) := by
  rcases h.findSessionLocked token time with
    ⟨hnone, -⟩ | ⟨entry', hsession', hexpired, -⟩ | ⟨address, haddress, -, hfind⟩
  · rw [hsession] at hnone
    cases hnone
  · rw [hsession] at hsession'
    cases hsession'
    rw [hlive] at hexpired
    cases hexpired
  · have hentry := hsession.symm.trans (session_of_payloadOf haddress)
    exact ⟨address, haddress, (Option.some.inj hentry).symm, hfind⟩

theorem Inv.find_dead (h : Inv server list)
    (hdead : ∀ entry, list.session token = some entry → sessionIsExpired server entry time = true) :
    (Sessions.findSessionLocked server list token time).1 = none := by
  rcases h.findSessionLocked token time with
    ⟨-, hfind⟩ | ⟨entry, -, -, hfind⟩ | ⟨address, haddress, hexpired, -⟩
  · rw [hfind]
  · rw [hfind]
  · rw [hdead _ (session_of_payloadOf haddress)] at hexpired
    cases hexpired

/-- What the session of a token has under a name is answered up to the size of the scratch array. -/
theorem Inv.getInfo_live (h : Inv server list) (hdata : DataInv list) {entry : SessionEntry}
    (hsession : list.session token = some entry)
    (hlive : sessionIsExpired server entry time = false) (name : List UInt8) :
    sessionListGetInfo server list token name time =
      (.info ((list.stored token name).map (·.take (SESSION_VALUE_SCRATCH_SIZE - 1))), list) := by
  have hcopied := hdata token entry hsession
  obtain ⟨address, -, rfl, hfind⟩ := h.find_live hsession hlive
  rw [stored_of_session hsession]
  unfold sessionListGetInfo SessionList.valueOf
  rw [hfind]
  simp only
  rcases hcopied.plain.findIndexSerial name 0 with
    ⟨hmiss, hnone⟩ | ⟨i, d, hhit, hd, hkey, hpayload⟩
  · rw [hmiss, hnone]
    rfl
  · obtain ⟨hne, -, hlength⟩ := hcopied.copy d (List.mem_of_getElem? hd)
    rw [hhit, hpayload]
    simp only [hd, hne, if_false, Option.map_some, hlength]
    rw [List.dropLast_eq_take, List.take_take, Nat.min_comm]

theorem Inv.getInfo_dead (h : Inv server list)
    (hdead : ∀ entry, list.session token = some entry → sessionIsExpired server entry time = true)
    (name : List UInt8) :
    sessionListGetInfo server list token name time =
      (.info none, (Sessions.findSessionLocked server list token time).2) := by
  have hnone := h.find_dead hdead
  unfold sessionListGetInfo
  generalize Sessions.findSessionLocked server list token time = found at hnone ⊢
  obtain ⟨address, found⟩ := found
  cases hnone
  rfl

theorem removeKey_sizes {hm : HashMap} (key : List UInt8) :
    (hashMapRemoveKey hm key).2.maxNumberOfEntries = hm.maxNumberOfEntries ∧
      (hashMapRemoveKey hm key).2.entryAllocationStep = hm.entryAllocationStep := by
  unfold hashMapRemoveKey
  split
  · exact ⟨rfl, rfl⟩
  · split
    · exact ⟨rfl, rfl⟩
    · exact ⟨rfl, rfl⟩

theorem add_step {hm hm' : HashMap} {key : List UInt8} {val valLength : ℕ} {heap : Heap} {r : Bool}
    (hadd : hashMapAdd hm key val valLength heap = .ok (r, hm')) :
    hm'.entryAllocationStep = hm.entryAllocationStep := by
  have hclear : ∀ {hm₁ : HashMap}, addWhenClear hm₁ key val valLength heap = .ok (r, hm') →
      hm'.entryAllocationStep = hm₁.entryAllocationStep := by
    intro hm₁ hdone
    unfold addWhenClear at hdone
    split at hdone
    · cases hdone
    split at hdone
    · cases hdone
      rfl
    split at hdone
    · cases hdone
      rfl
    split at hdone
    · cases hdone
    · cases hdone
      rfl
  unfold hashMapAdd at hadd
  split at hadd
  · cases hadd
    rfl
  split at hadd
  · unfold hashMapGrow at hadd
    split at hadd
    · cases hadd
    · rename_i hgrown
      split at hgrown
      · split at hgrown
        · cases hgrown
        · cases hgrown
      · cases hgrown
        cases hadd
        rfl
    · rename_i hgrown
      split at hgrown
      · split at hgrown
        · cases hgrown
          have hgrew := hclear hadd
          exact hgrew
        · cases hgrown
      · cases hgrown
  · exact hclear hadd

theorem cleared_spec {data : HashMap} (h : Plain data) (name : List UInt8) {cleared : HashMap}
    (hcleared : (if (hashMapContainsKey server.qsort server.bsearch data name).1 = true then
      (hashMapRemoveKey data name).2 else data) = cleared) :
    Plain cleared ∧ (∀ d ∈ cleared.entries, d ∈ data.entries) ∧
      (∀ other, cleared.payloadOf other = if other = name then none else data.payloadOf other) ∧
      cleared.entryAllocationStep = data.entryAllocationStep ∧
      (cleared.maxNumberOfEntries ≤ cleared.curNumberOfEntries →
        data.payloadOf name = none ∧ cleared = data) := by
  split at hcleared
  · subst hcleared
    obtain ⟨hplain, hcases⟩ := h.removeKey name
    refine ⟨hplain, ?_, h.payloadOf_removeKey name, (removeKey_sizes name).2, fun hfull => ?_⟩
    · rcases hcases with ⟨-, hsame⟩ | ⟨e, -, -, -, hperm⟩
      · rw [hsame]
        exact fun d hd => hd
      · exact fun d hd => hperm.mem_iff.mpr (List.mem_cons_of_mem _ hd)
    · rcases hcases with ⟨hnone, hsame⟩ | ⟨e, -, -, -, hperm⟩
      · exact ⟨hnone, congrArg Prod.snd hsame⟩
      · -- the removal has made room
        have hroom := h.room
        have hlength := hperm.length_eq
        rw [(removeKey_sizes name).1] at hfull
        rw [List.length_cons] at hlength
        unfold HashMap.curNumberOfEntries at hfull hroom
        omega
  · rename_i hmiss
    subst hcleared
    have hnone : data.payloadOf name = none := by
      rw [payloadOf_eq_none_iff]
      intro e he hkey
      exact hmiss (hkey ▸ h.containsKey he)
    refine ⟨h, fun d hd => hd, fun other => ?_, rfl, fun _ => ⟨hnone, rfl⟩⟩
    split
    · rename_i hsame
      rw [hsame, hnone]
    · rfl

theorem payloadWord_heap {valLength next : ℕ}
    (h : valLength ≠ 0 → (memory.heap next).payload ≠ none) :
    payloadWord next valLength (memory.heap next) = next := by
  unfold payloadWord
  split
  · rfl
  rename_i hne
  have hcopy := h hne
  unfold Memory.heap at hcopy ⊢
  cases hpayload : memory.payload with
  | false =>
    rw [hpayload] at hcopy
    exact absurd rfl hcopy
  | true => rfl

theorem valueOf_congr {data data' : HashMap} (h : data'.payloadOf name = data.payloadOf name) :
    list.valueOf data' name = list.valueOf data name := by
  unfold SessionList.valueOf
  rw [h]

/-- The bytes of a string that are kept for a session: their number, with the NUL, is an
`unsigned int`. -/
def keptBytes (value : List UInt8) : List UInt8 := (value ++ [0]).take ((value.length + 1) % 2 ^ 32)

theorem length_keptBytes (value : List UInt8) :
    (keptBytes value).length = (value.length + 1) % 2 ^ 32 := by
  unfold keptBytes
  rw [List.length_take, List.length_append, List.length_singleton]
  exact Nat.min_eq_left (Nat.mod_le _ _)

theorem keptBytes_dropLast {value : List UInt8} (h : value.length + 1 < 2 ^ 32) :
    (keptBytes value).dropLast = value := by
  unfold keptBytes
  rw [Nat.mod_eq_of_lt h, List.take_of_length_le, List.dropLast_concat]
  rw [List.length_append, List.length_singleton]

/-- What `sessiontList_StoreInfo` leaves of the session of a token. -/
theorem Inv.storeInfo_live (h : Inv server list) (hdata : DataInv list) {entry : SessionEntry}
    (hsession : list.session token = some entry)
    (hlive : sessionIsExpired server entry time = false) {value : List UInt8} {answer : Answer}
    (hstore : sessionListStoreInfo server list token name value time memory =
      .ok (answer, list')) :
    ∃ data, Extends list list' ∧ Copied list' data ∧
      (∀ other, list'.session other =
        if other = token then some { entry with data } else list.session other) ∧
      (∀ other, other ≠ name → list'.valueOf data other = list.valueOf entry.data other) ∧
      ((entry.data.payloadOf name = none → Grows entry.data memory) → memory.key = true →
        list'.valueOf data name = some (keptBytes value).dropLast ∧ answer = .done true) := by
  have hcopied := hdata token entry hsession
  obtain ⟨address, haddress, rfl, hfind⟩ := h.find_live hsession hlive
  unfold sessionListStoreInfo at hstore
  rw [hfind] at hstore
  simp only at hstore
  generalize hcleared : (if (hashMapContainsKey server.qsort server.bsearch
    (list.entry address).data name).1 = true then (hashMapRemoveKey (list.entry address).data name).2
    else (list.entry address).data) = cleared at hstore
  obtain ⟨hplain, hsub, hpayload, hstep, hgrows⟩ :=
    @cleared_spec server _ hcopied.plain name _ hcleared
  have habsent : cleared.payloadOf name = none := by rw [hpayload, if_pos rfl]
  cases hadd : hashMapAdd cleared name list.next ((value.length + 1) % 2 ^ 32)
      (memory.heap list.next) with
  | error fault =>
    rw [hadd] at hstore
    cases hstore
  | ok result =>
    obtain ⟨ok, data⟩ := result
    rw [hadd] at hstore
    cases hstore
    have hext : Extends list { list.setData address data with
        value := Function.update list.value list.next
          ((value ++ [0]).take ((value.length + 1) % 2 ^ 32))
        next := list.next + 1 } :=
      ⟨Nat.le_succ _, fun a hlt => Function.update_of_ne hlt.ne .., le_rfl⟩
    have hplain' : Plain data := (hplain.add habsent hadd).1
    have hold : ∀ d ∈ cleared.entries, d.payload < list.next :=
      fun d hd => (hcopied.copy d (hsub d hd)).2.1
    have hcleared' : Copied list cleared :=
      ⟨hplain, hstep ▸ hcopied.step, fun d hd => hcopied.copy d (hsub d hd)⟩
    have hstep' : 0 < data.entryAllocationStep := (add_step hadd).symm ▸ hcleared'.step
    refine ⟨data, hext, ?_, @Inv.session_modify _ _ token h address
      { list.entry address with data } haddress, ?_, ?_⟩
    · rcases hplain.add_cases hadd with ⟨hsame, -⟩ | ⟨happended, -, hpayload'⟩
      · exact ⟨hplain', hstep', fun d hd => (hcleared'.extends hext).copy d (hsame ▸ hd)⟩
      · refine ⟨hplain', hstep', fun d hd => ?_⟩
        rw [happended] at hd
        rcases List.mem_append.mp hd with hd | hd
        · exact (hcleared'.extends hext).copy d hd
        · obtain rfl := List.mem_singleton.mp hd
          have hword : (Plain.entryFor cleared name list.next ((value.length + 1) % 2 ^ 32)
              (memory.heap list.next)).payload = list.next := payloadWord_heap hpayload'
          rw [hword]
          refine ⟨h.next.ne', Nat.lt_succ_self _, ?_⟩
          show (value.length + 1) % 2 ^ 32 = (Function.update list.value list.next
            (keptBytes value) list.next).length
          rw [Function.update_self, length_keptBytes]
    · intro other hother
      have hsame : data.payloadOf other = cleared.payloadOf other := by
        rcases hplain.add_cases hadd with ⟨hsame, -⟩ | ⟨happended, -, -⟩
        · unfold HashMap.payloadOf
          rw [hsame]
        · rw [Plain.payloadOf_add hplain' happended]
          exact if_neg hother
      rw [valueOf_congr hsame, hcleared'.valueOf_extends hext]
      apply valueOf_congr
      rw [hpayload, if_neg hother]
    · intro hgrowing hkey
      rcases hplain.add_cases hadd with
        ⟨-, ⟨-, hfull, hno⟩ | ⟨-, hno⟩⟩ | ⟨happended, rfl, hpayload'⟩
      · obtain ⟨hnone, rfl⟩ := hgrows hfull
        exact absurd ((hgrowing hnone hfull).symm.trans hno) (by decide)
      · exact absurd (hkey.symm.trans hno) (by decide)
      · refine ⟨?_, rfl⟩
        unfold SessionList.valueOf
        rw [Plain.payloadOf_add hplain' happended]
        rw [if_pos (show name = (Plain.entryFor cleared name list.next
          ((value.length + 1) % 2 ^ 32) (memory.heap list.next)).key from rfl)]
        show some ((Function.update list.value list.next (keptBytes value))
          (payloadWord list.next ((value.length + 1) % 2 ^ 32)
            (memory.heap list.next))).dropLast = _
        rw [payloadWord_heap hpayload', Function.update_self]

theorem live_or_dead (server : Server) (list : SessionList) (token : List UInt8) (time : ℤ) :
    (∃ entry, list.session token = some entry ∧ sessionIsExpired server entry time = false) ∨
      ∀ entry, list.session token = some entry → sessionIsExpired server entry time = true := by
  cases hsession : list.session token with
  | none => exact .inr fun entry h => by cases h
  | some entry =>
    cases hexpired : sessionIsExpired server entry time with
    | false => exact .inl ⟨entry, rfl, hexpired⟩
    | true =>
      refine .inr fun entry' h => ?_
      cases h
      exact hexpired

theorem endedByLookup_live {entry : SessionEntry} (hsession : list.session token = some entry)
    (hlive : sessionIsExpired server entry time = false) :
    endedByLookup server list token time = [] := by
  unfold endedByLookup
  rw [hsession]
  simp only [hlive, Bool.false_eq_true, if_false]

theorem Inv.keeps_getInfo (h : Inv server list) (hdata : DataInv list)
    (token key : List UInt8) (time : ℤ) :
    Keeps server name list (endedByLookup server list token time)
      (sessionListGetInfo server list token key time).2 := by
  rcases live_or_dead server list token time with ⟨entry, hsession, hlive⟩ | hdead
  · rw [h.getInfo_live hdata hsession hlive, endedByLookup_live hsession hlive]
    exact .same h hdata
  · rw [h.getInfo_dead hdead]
    exact h.keeps_find hdata token time

theorem keeps_setData (hdata : DataInv list) {entry : SessionEntry}
    {data : HashMap} (hsession : list.session token = some entry) (hinv : Inv server list')
    (hext : Extends list list') (hcopied : Copied list' data)
    (hafter : ∀ other, list'.session other =
      if other = token then some { entry with data } else list.session other)
    (hsame : list'.valueOf data name = list.valueOf entry.data name) :
    Keeps server name list [] list' := by
  have hsome : ∀ other, list'.session other = none ↔ list.session other = none := by
    intro other
    rw [hafter]
    split
    · rename_i hother
      rw [hother, hsession]
      exact iff_of_false (Option.some_ne_none _) (Option.some_ne_none _)
    · exact Iff.rfl
  have hdata' : DataInv list' := by
    intro other entry' hother
    rw [hafter] at hother
    split at hother
    · cases hother
      exact hcopied
    · exact (hdata other entry' hother).extends hext
  refine
    { inv := hinv
      data := hdata'
      drawn := hext.drawn
      new := fun other hother hnone => absurd ((hsome other).mpr hnone) hother
      stored := fun other hother => ?_
      kept := fun other hother hnone => absurd ((hsome other).mp hnone) hother
      gone := fun e he => absurd he List.not_mem_nil }
  obtain ⟨entry', hentry'⟩ := Option.ne_none_iff_exists'.mp hother
  rw [stored_of_session hentry']
  rw [hafter] at hentry'
  split at hentry'
  · rename_i htoken
    cases hentry'
    rw [htoken, stored_of_session hsession, hsame]
  · rw [stored_of_session hentry', (hdata other entry' hentry').valueOf_extends hext]

theorem Inv.storeInfo_dead (h : Inv server list)
    (hdead : ∀ entry, list.session token = some entry → sessionIsExpired server entry time = true)
    {value : List UInt8} {answer : Answer}
    (hstore : sessionListStoreInfo server list token name value time memory =
      .ok (answer, list')) :
    list' = (Sessions.findSessionLocked server list token time).2 := by
  have hnone := h.find_dead hdead
  unfold sessionListStoreInfo at hstore
  generalize Sessions.findSessionLocked server list token time = found at hnone hstore ⊢
  obtain ⟨address, found⟩ := found
  cases hnone
  cases hstore
  rfl

theorem Inv.keeps_storeInfo (h : Inv server list) (hdata : DataInv list) {key value : List UInt8}
    (hne : name ≠ key) {answer : Answer}
    (hstore : sessionListStoreInfo server list token key value time memory =
      .ok (answer, list')) :
    Keeps server name list (endedByLookup server list token time) list' := by
  rcases live_or_dead server list token time with ⟨entry, hsession, hlive⟩ | hdead
  · obtain ⟨data, hext, hcopied, hafter, hother, -⟩ := h.storeInfo_live hdata hsession hlive hstore
    rw [endedByLookup_live hsession hlive]
    exact keeps_setData hdata hsession (h.storeInfo hstore).1 hext hcopied hafter
      (hother name hne)
  · rw [h.storeInfo_dead hdead hstore]
    exact h.keeps_find hdata token time

theorem Inv.stored_storeInfo (h : Inv server list) (hdata : DataInv list) {entry : SessionEntry}
    (hsession : list.session token = some entry)
    (hlive : sessionIsExpired server entry time = false) {value : List UInt8} {answer : Answer}
    (hstore : sessionListStoreInfo server list token name value time memory = .ok (answer, list'))
    (hgrows : Grows entry.data memory) (hkey : memory.key = true) :
    list'.stored token name = some (keptBytes value).dropLast ∧
      (∀ other, list'.session other = none ↔ list.session other = none) ∧
      (∀ other, other ≠ token → list'.stored other name = list.stored other name) ∧
      Inv server list' ∧ DataInv list' ∧ list.drawn ≤ list'.drawn := by
  obtain ⟨data, hext, hcopied, hafter, -, hvalue⟩ := h.storeInfo_live hdata hsession hlive hstore
  refine ⟨?_, fun other => ?_, fun other hother => ?_, (h.storeInfo hstore).1, ?_, hext.drawn⟩
  · rw [stored_of_session ((hafter token).trans (if_pos rfl))]
    exact (hvalue (fun _ => hgrows) hkey).1
  · rw [hafter]
    split
    · rename_i hsame
      rw [hsame, hsession]
      exact iff_of_false (Option.some_ne_none _) (Option.some_ne_none _)
    · exact Iff.rfl
  · have hsame := (hafter other).trans (if_neg hother)
    cases hentry : list.session other with
    | none => rw [stored_of_none hentry, stored_of_none (hsame.trans hentry)]
    | some entry' =>
      rw [stored_of_session hentry, stored_of_session (hsame.trans hentry),
        (hdata other entry' hentry).valueOf_extends hext]
  · intro other entry' hother
    rw [hafter] at hother
    split at hother
    · cases hother
      exact hcopied
    · exact (hdata other entry' hother).extends hext

theorem Inv.unsetInfo_dead (h : Inv server list)
    (hdead : ∀ entry, list.session token = some entry → sessionIsExpired server entry time = true)
    (key : List UInt8) :
    (sessionListUnsetInfo server list token key time).2 =
      (Sessions.findSessionLocked server list token time).2 := by
  have hnone := h.find_dead hdead
  unfold sessionListUnsetInfo
  generalize Sessions.findSessionLocked server list token time = found at hnone ⊢
  obtain ⟨address, found⟩ := found
  cases hnone
  rfl

/-- What `sessiontList_UnsetInfo` leaves of the session of a token. -/
theorem Inv.unsetInfo_live (h : Inv server list) (hdata : DataInv list) {entry : SessionEntry}
    (hsession : list.session token = some entry)
    (hlive : sessionIsExpired server entry time = false) (key : List UInt8)
    (hunset : (sessionListUnsetInfo server list token key time).2 = list') :
    ∃ data, Extends list list' ∧ Copied list' data ∧
      (∀ other, list'.session other =
        if other = token then some { entry with data } else list.session other) ∧
      (∀ other, list'.valueOf data other =
        if other = key then none else list.valueOf entry.data other) := by
  obtain ⟨address, haddress, rfl, hfind⟩ := h.find_live hsession hlive
  have hcopied := hdata token _ hsession
  unfold sessionListUnsetInfo at hunset
  rw [hfind] at hunset
  obtain ⟨hplain, hcases⟩ := hcopied.plain.removeKey key
  have hremoved : Copied list (hashMapRemoveKey (list.entry address).data key).2 := by
    refine ⟨hplain, (removeKey_sizes key).2.symm ▸ hcopied.step, fun d hd => hcopied.copy d ?_⟩
    rcases hcases with ⟨-, hsame⟩ | ⟨e, -, -, -, hperm⟩
    · rw [hsame] at hd
      exact hd
    · exact hperm.mem_iff.mpr (List.mem_cons_of_mem _ hd)
  have hext : Extends list (list.setData address
      (hashMapRemoveKey (list.entry address).data key).2) := ⟨le_rfl, fun _ _ => rfl, le_rfl⟩
  subst hunset
  refine ⟨_, hext, hremoved.extends hext, h.session_modify haddress, fun other => ?_⟩
  rw [hremoved.valueOf_extends hext]
  unfold SessionList.valueOf
  rw [hcopied.plain.payloadOf_removeKey]
  split
  · rfl
  · rfl

theorem Inv.keeps_unsetInfo (h : Inv server list) (hdata : DataInv list) {key : List UInt8}
    (hne : name ≠ key) (token : List UInt8) (time : ℤ) :
    Keeps server name list (endedByLookup server list token time)
      (sessionListUnsetInfo server list token key time).2 := by
  rcases live_or_dead server list token time with ⟨entry, hsession, hlive⟩ | hdead
  · obtain ⟨data, hext, hcopied, hafter, hvalue⟩ := h.unsetInfo_live hdata hsession hlive key rfl
    rw [endedByLookup_live hsession hlive]
    exact keeps_setData hdata hsession (h.unsetInfo token key time).1 hext hcopied hafter
      ((hvalue name).trans (if_neg hne))
  · have hkeeps : Keeps server name list _ _ := h.keeps_find hdata token time
    rwa [← h.unsetInfo_dead hdead] at hkeeps

end AmmarServer.Cache.Sessions
