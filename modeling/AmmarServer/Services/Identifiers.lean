import AmmarServer.Availability.Polls
import AmmarServer.Services.Histories
import AmmarServer.ShareTex.Projects

/-! The identifiers of the polls and of the projects. -/

namespace AmmarServer.Services
open CString Hashmap Searching Availability ShareTex

def projects : Service where
  letter := 112
  limit := MAX_PROJECTS
  plain := by decide
  bounded := le_rfl

/-- The record of a new project. -/
def newProject (owner title id : List UInt8) : Project :=
  { Project.cleared id with title := .print title_room title, owner := .print user_room owner }

/-- `directory` and `files` are whether `mkdir` can make the directory of the project and the one inside
it. -/
def projectCall (directory files : Bool) (owner title : List UInt8) : Call Project where
  directory
  inside := files
  build := newProject owner title

/-- With the directory inside, it is the creation of a project whose file is written as well. -/
theorem createProject_of_createRecord {s s' : Services.Site Project} {t : ShareTex.Site}
    (hprojects : t.projects = s.records) (huid : t.nextProjectUID = s.nextUID) {directory : Bool}
    {owner title : List UInt8} {answer : Option (List UInt8)}
    (h : createRecord projects (projectCall directory true owner title) s = .ok (answer, s')) :
    ∃ directories, (createProject directories t owner title).1 = answer ∧
      (createProject directories t owner title).2.projects = s'.records ∧
        (createProject directories t owner title).2.nextProjectUID = s'.nextUID := by
  cases creation_of_createRecord h with
  | refused hrefused =>
    refine ⟨false, ?_⟩
    unfold createProject
    rw [if_neg Bool.false_ne_true, ite_self]
    exact ⟨rfl, hprojects, huid⟩
  | halted hroom hdirectory hnew hinside => cases hinside
  | created hroom hdirectory hnew hinside hadd =>
    refine ⟨true, ?_⟩
    have hlimit : ¬MAX_PROJECTS ≤ s.records.length := Nat.not_le.mpr hroom
    unfold createProject
    rw [hprojects, huid, if_neg hlimit, if_pos rfl]
    exact ⟨rfl, rfl, rfl⟩

theorem History.sound {ρ : Type} {service : Service} {qsort : Qsort HashMapEntry.keyHash}
    {bsearch : Bsearch HashMapEntry.keyHash} {ids : List (List UInt8)} {named : List (List UInt8 × ρ)}
    {s : Services.Site ρ} (h : History service qsort bsearch (Meets service) ids named s) :
    Sound service qsort bsearch ids named s where
  distinct := h.inv.distinct
  kept := h.inv.kept
  fresh _ _ _ hcreate := fresh_of_createRecord hcreate
  progress hroom _ hdirectory hinside :=
    h.inv.create hroom hdirectory hinside (h.counted.new hroom)
  found _ hapart := h.inv.found qsort bsearch hapart

/-- Both services, in every state of a history that gives the counter what it needs. -/
theorem histories_sound (qsort : Qsort HashMapEntry.keyHash) (bsearch : Bsearch HashMapEntry.keyHash) :
    (∀ ids named (s : Services.Site Poll), History polls qsort bsearch (Meets polls) ids named s →
      Sound polls qsort bsearch ids named s) ∧
    ∀ ids named (s : Services.Site Project),
      History projects qsort bsearch (Meets projects) ids named s →
        Sound projects qsort bsearch ids named s :=
  ⟨fun _ _ _ h => h.sound, fun _ _ _ h => h.sound⟩

/-- A site where there is nothing yet. -/
theorem history_boot {ρ : Type} (service : Service) (qsort : Qsort HashMapEntry.keyHash)
    (bsearch : Bsearch HashMapEntry.keyHash) {guard : Services.Site ρ → Event ρ → Prop}
    (hguard : guard (boot []) (.restart none)) :
    History service qsort bsearch guard [] [] (boot []) := by
  have hnone : @loadable ρ service (Option.getD none []) = [] := List.take_nil
  have hstart := @History.start ρ service qsort bsearch guard [] none (boot []) List.nodup_nil trivial
    hguard rfl
  rwa [hnone] at hstart

/-- A project on a new site. -/
theorem firstProject_sound : ∃ id s', Sound projects Qsort.insertion Bsearch.halving [id]
    [(id, newProject (ascii "ada") (ascii "notes") id)] s' := by
  have hguard : @Meets Project projects (boot []) (.restart none) :=
    .inr ⟨fun uid huid => absurd huid List.not_mem_nil, fun e he => absurd he List.not_mem_nil⟩
  have hboot := history_boot projects Qsort.insertion Bsearch.halving hguard
  have hcreate : ∃ id s', createRecord projects
      (projectCall true true (ascii "ada") (ascii "notes")) (boot []) = .ok (some id, s') :=
    hboot.inv.create (by decide) rfl rfl List.not_mem_nil
  obtain ⟨id, s', hcreate⟩ := hcreate
  have hmeets : Meets projects (boot [])
      (.create (projectCall true true (ascii "ada") (ascii "notes"))) :=
    fun _ _ => ⟨rfl, by decide⟩
  have hhistory := hboot.step (.create (projectCall true true (ascii "ada") (ascii "notes"))) trivial
    hmeets hcreate
  exact ⟨id, s', (histories_sound Qsort.insertion Bsearch.halving).2 _ _ _ hhistory⟩

/-- A directory without the one inside it stays in the way of every project. -/
theorem halted_notSound : ¬∀ ids named (s : Services.Site Project),
    History projects Qsort.insertion Bsearch.halving (fun _ _ => True) ids named s →
      Sound projects Qsort.insertion Bsearch.halving ids named s := by
  intro hsound
  have hboot := @history_boot Project projects Qsort.insertion Bsearch.halving (fun _ _ => True) trivial
  have hcreate : createRecord projects (projectCall true false (ascii "ada") (ascii "notes")) (boot []) =
      .ok (none, { boot [] with present := [projects.identifier 1] }) := rfl
  have hhistory := hboot.step (.create (projectCall true false (ascii "ada") (ascii "notes"))) trivial
    trivial hcreate
  obtain ⟨id, s', hagain⟩ := (hsound _ _ _ hhistory).progress (by decide)
    (projectCall true true (ascii "ada") (ascii "notes")) rfl rfl
  have hstuck : createRecord projects (projectCall true true (ascii "ada") (ascii "notes"))
      { boot [] with present := [projects.identifier 1] } =
        .ok (none, { boot [] with present := [projects.identifier 1] }) := rfl
  rw [hstuck] at hagain
  cases hagain

end AmmarServer.Services
