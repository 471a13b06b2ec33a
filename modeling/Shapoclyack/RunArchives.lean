import Mathlib
import Shapoclyack.ArtifactSchemas
import Shapoclyack.Library.Lookups

set_option autoImplicit false

namespace Shapoclyack.RunArchives

open ArtifactSchemas Library

section Archives

inductive MemberType where
  | regular
  | directory
  | symlink
  | hardlink
  /-- A device, a pipe, or a type that nobody knows. -/
  | special
deriving DecidableEq, Repr

structure Member where
  name : String
  type : MemberType
  content : List UInt8
deriving DecidableEq

def maxUncompressedBytes : ℕ := 512 * 1024 * 1024

def slashed (name : String) : List Char :=
  name.toList.map fun c => if c = '\\' then '/' else c

def components (path : List Char) : List (List Char) := path.splitOnP (· == '/')

/-- Where a member ends up below the destination: its own name's components, but for the empty
ones and the dots. -/
def pathOf (m : Member) : List String :=
  ((components m.name.toList).filter fun part => part ≠ [] && part ≠ ['.']).map String.ofList

/-- What `_safe_members` lets through; a name without a parent step never leaves the
destination. -/
def isSafe (m : Member) : Bool :=
  (slashed m.name).head? != some '/' && !(components (slashed m.name)).contains ['.', '.'] &&
    m.type != .symlink && m.type != .hardlink

def totalBytes (members : List Member) : ℕ := (members.map fun m => m.content.length).sum

/-- `validate_archive`, true where it raises nothing. -/
def validateArchive (members : List Member) : Bool :=
  members != [] && members.all isSafe && decide (totalBytes members ≤ maxUncompressedBytes)

/-- The name a member is checked under: a backslash reads as a slash, and one leading `./` is
dropped. -/
def checkedName (m : Member) : List Char :=
  let name := slashed m.name
  if ['.', '/'].isPrefixOf name then name.drop 2 else name

def artifactOf (m : Member) : Option String :=
  if '/' ∉ checkedName m ∧ (artifactSchemas.lookup (String.ofList (checkedName m))).isSome = true ∧
      m.type = .regular then
    some (String.ofList (checkedName m))
  else none

inductive Rejection where
  /-- The container is refused. -/
  | ingest
  /-- An artifact is too large, or not valid JSON. -/
  | unreadable (name : String)
  | malformed (errors : List String)
  | otherRun
deriving DecidableEq

variable (loads : List UInt8 → Option Json) (fileCap : ℕ)

/-- The loop over the members, with the documents seen so far and the bytes left to parse. -/
def checkMembers : List Member → List (String × Json) → ℤ → Except Rejection (List (String × Json))
  | [], seen, _ => .ok seen
  | m :: rest, seen, budget =>
    match artifactOf m with
    | none => checkMembers rest seen budget
    | some name =>
      if fileCap < m.content.length ∨ budget - m.content.length < 0 then .error (.unreadable name)
      else
        match loads m.content with
        | none => .error (.unreadable name)
        | some document =>
          match validateDocument name document with
          | [] => checkMembers rest ((name, document) :: seen) (budget - m.content.length)
          | errors => .error (.malformed errors)

/-- Whether a `run_meta.json` names a run. -/
def namesRun (run : String) : Json → Bool
  | .obj fields =>
    match fields.lookup "run_id" with
    | some (.str given) => given == run
    | _ => false
  | _ => false

/-- `validate_artifacts`, with the artifacts' schemas enforced. -/
def validateArtifacts (runId : Option String) (members : List Member) : Except Rejection Unit :=
  if validateArchive members then
    match checkMembers loads fileCap members [] maxUncompressedBytes with
    | .error rejection => .error rejection
    | .ok seen =>
      match runId, seen.lookup "run_meta.json" with
      | some run, some document =>
        if run ≠ "" ∧ namesRun run document = false then .error .otherRun else .ok ()
      | _, _ => .ok ()
  else .error .ingest

/-- The file at a path once the archive has been extracted: the last regular member written
there. -/
def stored (members : List Member) (path : List String) : Option Member :=
  members.reverse.find? fun m => m.type == .regular && pathOf m == path

/-- `extract_run_archive` into an empty directory, none where it raises. -/
def extractRunArchive (members : List Member) : Option (List String → Option Member) :=
  if validateArchive members && members.all (fun m => m.type != .special) then some (stored members)
  else none

end Archives

section Stored

variable {loads : List UInt8 → Option Json} {fileCap : ℕ} {runId : Option String}
  {members : List Member}

def lastTaken (members : List Member) (name : String) : Option Member :=
  members.reverse.find? fun m => artifactOf m == some name

theorem artifactOf_schema {m : Member} {name : String} (h : artifactOf m = some name) :
    (artifactSchemas.lookup name).isSome = true := by
  unfold artifactOf at h
  split_ifs at h with hknown
  rw [← Option.some.inj h]
  exact hknown.2.1

theorem lastTaken_cons (m : Member) (rest : List Member) (name : String) :
    lastTaken (m :: rest) name =
      (lastTaken rest name).or (if artifactOf m = some name then some m else none) := by
  unfold lastTaken
  rw [List.reverse_cons, List.find?_append]
  congr 1
  by_cases h : artifactOf m = some name
  · simp [h]
  · simp [h]

/-- What the loop has checked once it is through: every member taken for an artifact, and the last
of each is the document it keeps. -/
theorem checkMembers_ok {seen seen' : List (String × Json)} {budget : ℤ}
    (h : checkMembers loads fileCap members seen budget = .ok seen') :
    (∀ m ∈ members, ∀ name, artifactOf m = some name →
      ∃ document, loads m.content = some document ∧ validateDocument name document = []) ∧
    ∀ name, seen'.lookup name =
      match lastTaken members name with
      | none => seen.lookup name
      | some m => loads m.content := by
  induction members generalizing seen budget with
  | nil =>
    rw [← Except.ok.inj h]
    exact ⟨fun m hm => absurd hm (by simp), fun name => rfl⟩
  | cons m rest ih =>
    simp only [checkMembers] at h
    split at h
    · next hnone =>
      obtain ⟨hall, hseen⟩ := ih h
      refine ⟨fun other hother name hname => ?_, fun name => ?_⟩
      · rcases List.mem_cons.mp hother with rfl | hrest
        · rw [hnone] at hname
          exact absurd hname (by simp)
        · exact hall other hrest name hname
      · rw [lastTaken_cons, hnone, hseen]
        simp
    · next taken htaken =>
      split_ifs at h
      split at h
      · simp at h
      · next document hloads =>
        split at h
        · next hvalid =>
          obtain ⟨hall, hseen⟩ := ih h
          refine ⟨fun other hother name hname => ?_, fun name => ?_⟩
          · rcases List.mem_cons.mp hother with rfl | hrest
            · rw [htaken] at hname
              rw [← Option.some.inj hname]
              exact ⟨document, hloads, hvalid⟩
            · exact hall other hrest name hname
          · rw [lastTaken_cons, hseen, htaken]
            cases lastTaken rest name with
            | some last => rfl
            | none =>
              by_cases hname : name = taken
              · simp [hname, hloads]
              · have hne : ¬ taken = name := fun heq => hname heq.symm
                have hbeq : (name == taken) = false := beq_false_of_ne hname
                simp [hne, List.lookup_cons, hbeq]
        · simp at h

/-- A file that parses and satisfies its artifact's schema, and names the run where it is the
run's metadata. -/
def Sound (loads : List UInt8 → Option Json) (runId : Option String) (name : String)
    (schema : Schema) (m : Member) : Prop :=
  ∃ document, loads m.content = some document ∧ Satisfies schema document ∧
    (name = "run_meta.json" → ∀ run, runId = some run → run ≠ "" → namesRun run document = true)

/-- What the extracted archive holds under an artifact's name is sound. -/
def StoredSound (loads : List UInt8 → Option Json) (runId : Option String)
    (files : List String → Option Member) : Prop :=
  ∀ name schema, artifactSchemas.lookup name = some schema → ∀ m, files [name] = some m →
    Sound loads runId name schema m

/-- A member stored under an artifact's name in a spelling that the checks pass over is sound all
the same, and the stored metadata names the run where the checks looked at a later member's. -/
structure SpelledSoundly (loads : List UInt8 → Option Json) (runId : Option String)
    (members : List Member) : Prop where
  passedOver : ∀ name schema, artifactSchemas.lookup name = some schema →
    ∀ m, stored members [name] = some m → artifactOf m ≠ some name →
      Sound loads runId name schema m
  overtaken : ∀ m, stored members ["run_meta.json"] = some m →
    artifactOf m = some "run_meta.json" → lastTaken members "run_meta.json" ≠ some m →
      ∀ document, loads m.content = some document →
        ∀ run, runId = some run → run ≠ "" → namesRun run document = true

theorem extracted_eq {files : List String → Option Member}
    (h : extractRunArchive members = some files) : files = stored members := by
  unfold extractRunArchive at h
  split_ifs at h
  exact (Option.some.inj h).symm

theorem validated {u : Unit} (h : validateArtifacts loads fileCap runId members = .ok u) :
    ∃ seen, checkMembers loads fileCap members [] maxUncompressedBytes = .ok seen ∧
      ∀ run document, runId = some run → run ≠ "" →
        seen.lookup "run_meta.json" = some document → namesRun run document = true := by
  unfold validateArtifacts at h
  split_ifs at h
  split at h
  · simp at h
  · next seen hseen =>
    refine ⟨seen, hseen, fun run document hrun hne hmeta => ?_⟩
    rw [hrun, hmeta] at h
    simp only at h
    split_ifs at h with hother
    by_contra hnot
    exact hother ⟨hne, by simpa using hnot⟩

theorem stored_mem {m : Member} {path : List String} (h : stored members path = some m) :
    m ∈ members :=
  List.mem_reverse.mp (List.mem_of_find?_eq_some h)

/-- An accepted archive leaves sound artifacts exactly where every member stored under an
artifact's name is one the checks have looked at, or is sound by itself. -/
theorem stored_sound_iff {files : List String → Option Member}
    (hvalid : validateArtifacts loads fileCap runId members = .ok ())
    (hextract : extractRunArchive members = some files) :
    StoredSound loads runId files ↔ SpelledSoundly loads runId members := by
  rw [extracted_eq hextract]
  obtain ⟨seen, hseen, hmeta⟩ := validated hvalid
  obtain ⟨hall, hlast⟩ := checkMembers_ok hseen
  constructor
  · intro h
    refine ⟨fun name schema hschema m hm _ => h name schema hschema m hm, ?_⟩
    intro m hm htaken _ document hloads
    obtain ⟨schema, hschema⟩ := Option.isSome_iff_exists.mp (artifactOf_schema htaken)
    obtain ⟨other, hother, _, hnames⟩ := h _ schema hschema m hm
    obtain rfl := Option.some.inj (hloads.symm.trans hother)
    exact hnames rfl
  · intro h name schema hschema m hm
    by_cases htaken : artifactOf m = some name
    · obtain ⟨document, hloads, hnone⟩ := hall m (stored_mem hm) name htaken
      refine ⟨document, hloads, (validateDocument_eq_nil hschema).mp hnone, ?_⟩
      rintro rfl run hrun hne
      by_cases hlater : lastTaken members "run_meta.json" = some m
      · have hkept := hlast "run_meta.json"
        rw [hlater] at hkept
        exact hmeta run document hrun hne (hkept.trans hloads)
      · exact h.overtaken m hm htaken hlater document hloads run hrun hne
    · exact h.passedOver name schema hschema m hm htaken

end Stored

section Spellings

def bytes (content : String) : List UInt8 := content.toList.map fun c => UInt8.ofNat c.toNat

def metadata (run : String) : String := "\x7b\"run_id\": \"" ++ run ++ "\"\x7d"

def parser (content : List UInt8) : Option Json :=
  if content = bytes "[]" then some (.arr [])
  else if content = bytes "{}" then some (.obj [])
  else if content = bytes (metadata "run-1") then some (.obj [("run_id", .str "run-1")])
  else if content = bytes (metadata "run-2") then some (.obj [("run_id", .str "run-2")])
  else none

def file (name content : String) : Member := ⟨name, .regular, bytes content⟩

def respelled : List Member :=
  [file "run_meta.json" (metadata "run-1"), file ".//summary.json" "[]"]

/-- The metadata of another run, and this run's under a name with a backslash. -/
def masked : List Member :=
  [file "run_meta.json" (metadata "run-2"), file ".\\run_meta.json" (metadata "run-1")]

/-- Both archives are accepted and extracted: one leaves a summary that is no object, the other the
metadata of another run. -/
theorem respelled_summary_stored :
    (validateArtifacts parser 1000 (some "run-1") respelled = .ok () ∧
      (extractRunArchive respelled).isSome = true ∧
      ((stored respelled ["summary.json"]).bind fun m => parser m.content).map
        (validateDocument "summary.json") = some ["summary.json: expected object, got list"]) ∧
    validateArtifacts parser 1000 (some "run-1") masked = .ok () ∧
      (extractRunArchive masked).isSome = true ∧
      ((stored masked ["run_meta.json"]).bind fun m => parser m.content).map (namesRun "run-1") =
        some false := by
  refine ⟨⟨rfl, ?_, ?_⟩, rfl, ?_, ?_⟩ <;> decide +kernel

def plainlySpelled : List Member :=
  [file "run_meta.json" (metadata "run-1"), file "./summary.json" "{}"]

theorem plainly_spelled_sound : StoredSound parser (some "run-1") (stored plainlySpelled) := by
  have htaken : (artifactSchemas.map Prod.fst).all (fun name =>
      (stored plainlySpelled [name]).all fun m => artifactOf m == some name) = true := by
    decide +kernel
  have hspelled : SpelledSoundly parser (some "run-1") plainlySpelled := by
    refine ⟨fun name schema hschema m hm hpassed => ?_, fun m hm _ hlater => ?_⟩
    · have hname : name ∈ artifactSchemas.map Prod.fst :=
        List.mem_map.mpr ⟨_, mem_of_lookup hschema, rfl⟩
      have hall := List.all_eq_true.mp htaken name hname
      rw [hm] at hall
      exact absurd (beq_iff_eq.mp hall) hpassed
    · have hlast : lastTaken plainlySpelled "run_meta.json" =
          stored plainlySpelled ["run_meta.json"] := by decide +kernel
      exact absurd (hlast.trans hm) hlater
  exact (@stored_sound_iff parser 1000 (some "run-1") plainlySpelled _ rfl rfl).mpr hspelled

end Spellings

end Shapoclyack.RunArchives
