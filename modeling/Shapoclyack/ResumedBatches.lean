import Mathlib
import Shapoclyack.Library.Runs

set_option autoImplicit false

namespace Shapoclyack.ResumedBatches

open Library

section Files

abbrev Line := List Char

instance : LawfulBEq Line := inferInstanceAs (LawfulBEq (List Char))

/-- What `str.splitlines` splits at. -/
def isLineBreak (c : Char) : Bool :=
  c.toNat ∈ [0x0A, 0x0B, 0x0C, 0x0D, 0x1C, 0x1D, 0x1E, 0x85, 0x2028, 0x2029]

/-- What `str.strip` takes off. -/
def isSpace (c : Char) : Bool :=
  isLineBreak c || decide (c.toNat ∈ [0x09, 0x1F, 0x20, 0xA0, 0x1680, 0x202F, 0x205F, 0x3000]) ||
    (decide (0x2000 ≤ c.toNat) && decide (c.toNat ≤ 0x200A))

theorem isSpace_of_printable {c : Char} (h : 0x21 ≤ c.toNat ∧ c.toNat ≤ 0x7E) :
    isSpace c = false := by
  have hcode : ∀ code ∈ [0x0A, 0x0B, 0x0C, 0x0D, 0x1C, 0x1D, 0x1E, 0x85, 0x2028, 0x2029, 0x09,
      0x1F, 0x20, 0xA0, 0x1680, 0x202F, 0x205F, 0x3000], c.toNat ≠ code := by
    simp only [List.forall_mem_cons, List.not_mem_nil, false_implies, implies_true, and_true]
    omega
  simp only [List.forall_mem_cons, List.not_mem_nil, false_implies, implies_true,
    and_true] at hcode
  unfold isSpace isLineBreak
  simp [hcode]
  omega

def strip (line : Line) : Line := (line.dropWhile isSpace).rdropWhile isSpace

def isContent (line : Line) : Bool := line != [] && line.head? != some '#'

/-- `read_lines`, of the text a file holds; a file that is missing reads as an empty one. -/
def readLines (text : List Char) : List Line :=
  ((text.splitOnP isLineBreak).map strip).filter isContent

/-- The text `write_lines` puts in a file: each line once, in order, and a newline after each. -/
def linesText (lines : List Line) : List Char :=
  (lines.dedup.insertionSort (· ≤ ·)).flatMap fun line => line ++ ['\n']

/-- A line that is read back as it was written. -/
structure Clean (line : Line) : Prop where
  unbroken : ∀ c ∈ line, isLineBreak c = false
  stripped : strip line = line
  content : isContent line = true

instance : DecidablePred Clean := fun line =>
  -- over the characters of the line, and not over those of the type
  decidable_of_iff ((line.all fun c => !isLineBreak c) = true ∧ strip line = line ∧
      isContent line = true)
    ⟨fun h => ⟨by simpa using h.1, h.2.1, h.2.2⟩,
      fun h => ⟨by simpa using h.unbroken, h.stripped, h.content⟩⟩

theorem readLines_cons {line : Line} (h : Clean line) (text : List Char) :
    readLines (line ++ '\n' :: text) = line :: readLines text := by
  have hsplit := List.splitOnP_append_cons_of_forall_mem h.unbroken '\n'
    (by decide : isLineBreak '\n' = true) text
  unfold readLines
  rw [hsplit, List.map_cons, h.stripped, List.filter_cons_of_pos h.content]

theorem readLines_flatMap {lines : List Line} (h : ∀ line ∈ lines, Clean line) :
    readLines (lines.flatMap fun line => line ++ ['\n']) = lines := by
  induction lines with
  | nil => rfl
  | cons line rest ih =>
    have hrest := ih fun other hother => h other (List.mem_cons_of_mem _ hother)
    rw [List.flatMap_cons, List.append_assoc, List.singleton_append,
      readLines_cons (h line List.mem_cons_self), hrest]

theorem mem_readLines {lines : List Line} (h : ∀ line ∈ lines, Clean line) (line : Line) :
    line ∈ readLines (linesText lines) ↔ line ∈ lines := by
  have hsorted : ∀ other ∈ lines.dedup.insertionSort (· ≤ ·), Clean other := fun other hother =>
    h other (List.mem_dedup.mp ((List.mem_insertionSort _).mp hother))
  rw [linesText, readLines_flatMap hsorted, List.mem_insertionSort, List.mem_dedup]

end Files

section Batches

structure Stage where
  ids : List String
  distinct : ids.Nodup
  results : String → List Line
  initial : List Line
  resultsClean : ∀ id ∈ ids, ∀ line ∈ results id, Clean line
  initialClean : ∀ line ∈ initial, Clean line

inductive Checkpoint where
  | whole (done : List String)
  /-- A write that did not reach the closing brace, which no load parses. -/
  | torn
deriving DecidableEq

inductive Phase where
  /-- Between two commits. -/
  | running
  /-- `write_lines` has truncated the aggregate file for a batch. -/
  | rewriting (id : String)
  /-- The aggregate file is written and closed. -/
  | rewritten (id : String)
  /-- `save_json` has truncated the checkpoint. -/
  | marking
  | completed
  | crashed
deriving DecidableEq

/-- The two files, and the memory of the process that is at work on them. -/
structure Progress where
  file : List Char
  checkpoint : Checkpoint
  aggregate : List Line
  items : List String
  phase : Phase

inductive Act where
  /-- A batch has its results: the aggregate takes them, and its file is opened to be rewritten. -/
  | commit (id : String)
  | writeLines
  | markItem
  | saveCheckpoint
  /-- Nothing is pending. -/
  | complete
  /-- The process dies, with so much of a text written, or with the checkpoint whole or not. -/
  | crash (kept : ℕ) (whole : Bool)
  | resume
deriving DecidableEq

variable (stage : Stage)

def Progress.start : Progress := ⟨[], .whole [], stage.initial, [], .running⟩

/-- One step of `run_batches_parallel`, or of the run around it. -/
def Progress.step (q : Progress) : Act → Option Progress
  | .commit id =>
    if q.phase = .running ∧ id ∈ stage.ids ∧ id ∉ q.items then
      some { q with
        aggregate := q.aggregate ++ stage.results id
        file := []
        phase := .rewriting id }
    else none
  | .writeLines =>
    match q.phase with
    | .rewriting id => some { q with file := linesText q.aggregate, phase := .rewritten id }
    | _ => none
  | .markItem =>
    match q.phase with
    | .rewritten id =>
      some { q with items := id :: q.items, checkpoint := .torn, phase := .marking }
    | _ => none
  | .saveCheckpoint =>
    if q.phase = .marking then some { q with checkpoint := .whole q.items, phase := .running }
    else none
  | .complete =>
    if q.phase = .running ∧ ∀ id ∈ stage.ids, id ∈ q.items then
      some { q with phase := .completed }
    else none
  | .crash kept whole =>
    match q.phase with
    | .completed | .crashed => none
    | .rewriting _ =>
      some { q with file := (linesText q.aggregate).take kept, phase := .crashed }
    | .marking =>
      some { q with
        checkpoint := if whole then .whole q.items else .torn
        phase := .crashed }
    | _ => some { q with phase := .crashed }
  | .resume =>
    if q.phase = .crashed then
      match q.checkpoint with
      | .torn => none
      | .whole done =>
        some { q with aggregate := readLines q.file, items := done, phase := .running }
    else none

abbrev batchStep : Progress → Act → Progress → Prop := ofStep (Progress.step stage)

end Batches

section Resume

variable {stage : Stage} {q q' : Progress} {act : Act}

/-- A crash spares the aggregate file: it lands outside its rewriting, and not before the lines
the stage starts with are in it. -/
def sparesAggregate (stage : Stage) (q : Progress) : Act → Prop
  | .crash _ _ => (∀ id, q.phase ≠ .rewriting id) ∧ ∀ line ∈ stage.initial, line ∈ readLines q.file
  | _ => True

/-- Lines that hold the results of some batches, and none but what the stage can hold. -/
structure Holds (stage : Stage) (lines : List Line) (ids : List String) : Prop where
  known : ∀ id ∈ ids, id ∈ stage.ids
  results : ∀ id ∈ ids, ∀ line ∈ stage.results id, line ∈ lines
  sound : ∀ line ∈ lines, line ∈ stage.initial ∨ ∃ id ∈ stage.ids, line ∈ stage.results id

def HoldsInitial (stage : Stage) (lines : List Line) : Prop :=
  ∀ line ∈ stage.initial, line ∈ lines

theorem Holds.clean {lines : List Line} {ids : List String} (h : Holds stage lines ids) :
    ∀ line ∈ lines, Clean line := by
  intro line hline
  rcases h.sound line hline with hinitial | ⟨id, hid, hresult⟩
  · exact stage.initialClean line hinitial
  · exact stage.resultsClean id hid line hresult

theorem Holds.commit {lines : List Line} {ids : List String} (h : Holds stage lines ids)
    {id : String} (hid : id ∈ stage.ids) :
    Holds stage (lines ++ stage.results id) (id :: ids) where
  known other hother := by
    rcases List.mem_cons.mp hother with rfl | hold
    · exact hid
    · exact h.known other hold
  results other hother line hline := by
    rcases List.mem_cons.mp hother with rfl | hold
    · exact List.mem_append_right _ hline
    · exact List.mem_append_left _ (h.results other hold line hline)
  sound line hline := by
    rcases List.mem_append.mp hline with hold | hnew
    · exact h.sound line hold
    · exact .inr ⟨id, hid, hnew⟩

theorem Holds.written {lines : List Line} {ids : List String} (h : Holds stage lines ids) :
    Holds stage (readLines (linesText lines)) ids where
  known := h.known
  results id hid line hline := (mem_readLines h.clean line).mpr (h.results id hid line hline)
  sound line hline := h.sound line ((mem_readLines h.clean line).mp hline)

theorem HoldsInitial.written {lines : List Line} {ids : List String} (h : HoldsInitial stage lines)
    (hholds : Holds stage lines ids) : HoldsInitial stage (readLines (linesText lines)) :=
  fun line hline => (mem_readLines hholds.clean line).mpr (h line hline)

theorem holds_nil : Holds stage [] [] :=
  ⟨fun _ h => absurd h (by simp), fun _ h => absurd h (by simp), fun _ h => absurd h (by simp)⟩

/-- The file holds the batches that were committed; the lines the stage starts with are there from
the first commit on. -/
structure Saved (stage : Stage) (q : Progress) : Prop where
  holds : Holds stage (readLines q.file) q.items
  initial : q.items ≠ [] → HoldsInitial stage (readLines q.file)

/-- What the two files hold at each point of a round. -/
def BatchInv (stage : Stage) (q : Progress) : Prop :=
  match q.phase with
  | .running => Holds stage q.aggregate q.items ∧ HoldsInitial stage q.aggregate ∧
      Saved stage q ∧ q.checkpoint = .whole q.items
  | .rewriting id => Holds stage q.aggregate (id :: q.items) ∧ HoldsInitial stage q.aggregate ∧
      q.checkpoint = .whole q.items
  | .rewritten id => Holds stage q.aggregate (id :: q.items) ∧ HoldsInitial stage q.aggregate ∧
      Holds stage (readLines q.file) (id :: q.items) ∧ HoldsInitial stage (readLines q.file) ∧
      q.checkpoint = .whole q.items
  | .marking => Holds stage q.aggregate q.items ∧ HoldsInitial stage q.aggregate ∧
      Holds stage (readLines q.file) q.items ∧ HoldsInitial stage (readLines q.file)
  | .completed => Saved stage q ∧ ∀ id ∈ stage.ids, id ∈ q.items
  | .crashed => ∀ done, q.checkpoint = .whole done →
      Holds stage (readLines q.file) done ∧ HoldsInitial stage (readLines q.file)

theorem Holds.of_cons {lines : List Line} {id : String} {ids : List String}
    (h : Holds stage lines (id :: ids)) : Holds stage lines ids where
  known other hother := h.known other (List.mem_cons_of_mem _ hother)
  results other hother := h.results other (List.mem_cons_of_mem _ hother)
  sound := h.sound

theorem start_inv : BatchInv stage (Progress.start stage) := by
  refine ⟨⟨fun _ h => absurd h (by simp [Progress.start]), fun _ h => absurd h (by simp
    [Progress.start]), fun line hline => .inl hline⟩, fun line hline => hline, ⟨holds_nil, ?_⟩, rfl⟩
  exact fun h => absurd rfl h

theorem crash_inv (inv : BatchInv stage q) {kept : ℕ} {whole : Bool}
    (hspares : sparesAggregate stage q (.crash kept whole))
    (h : q.step stage (.crash kept whole) = some q') : BatchInv stage q' := by
  unfold BatchInv at inv
  simp only [Progress.step] at h
  cases hphase : q.phase with
  | completed | crashed => simp [hphase] at h
  | rewriting id => exact absurd hphase (hspares.1 id)
  | running =>
    simp only [hphase] at inv h
    rw [← Option.some.inj h]
    intro done hdone
    rw [inv.2.2.2] at hdone
    rw [← Checkpoint.whole.inj hdone]
    exact ⟨inv.2.2.1.holds, hspares.2⟩
  | rewritten id =>
    simp only [hphase] at inv h
    rw [← Option.some.inj h]
    intro done hdone
    rw [inv.2.2.2.2] at hdone
    rw [← Checkpoint.whole.inj hdone]
    exact ⟨inv.2.2.1.of_cons, hspares.2⟩
  | marking =>
    simp only [hphase] at inv h
    rw [← Option.some.inj h]
    intro done hdone
    cases whole with
    | false => exact absurd hdone (by simp)
    | true =>
      rw [← Checkpoint.whole.inj hdone]
      exact ⟨inv.2.2.1, hspares.2⟩

/-- Every step that spares the aggregate file keeps what the two files hold. -/
theorem step_inv (inv : BatchInv stage q) (hspares : sparesAggregate stage q act)
    (h : batchStep stage q act q') : BatchInv stage q' := by
  unfold batchStep ofStep at h
  cases act with
  | crash kept whole => exact crash_inv inv hspares h
  | commit id =>
    simp only [Progress.step] at h
    split_ifs at h with hrun
    unfold BatchInv at inv
    simp only [hrun.1] at inv
    rw [← Option.some.inj h]
    exact ⟨inv.1.commit hrun.2.1, fun line hline => List.mem_append_left _ (inv.2.1 line hline),
      inv.2.2.2⟩
  | writeLines =>
    simp only [Progress.step] at h
    split at h
    · next id hphase =>
      unfold BatchInv at inv
      simp only [hphase] at inv
      rw [← Option.some.inj h]
      exact ⟨inv.1, inv.2.1, inv.1.written, inv.2.1.written inv.1, inv.2.2⟩
    · simp at h
  | markItem =>
    simp only [Progress.step] at h
    split at h
    · next id hphase =>
      unfold BatchInv at inv
      simp only [hphase] at inv
      rw [← Option.some.inj h]
      exact ⟨inv.1, inv.2.1, inv.2.2.1, inv.2.2.2.1⟩
    · simp at h
  | saveCheckpoint =>
    simp only [Progress.step] at h
    split_ifs at h with hphase
    unfold BatchInv at inv
    simp only [hphase] at inv
    rw [← Option.some.inj h]
    exact ⟨inv.1, inv.2.1, ⟨inv.2.2.1, fun _ => inv.2.2.2⟩, rfl⟩
  | complete =>
    simp only [Progress.step] at h
    split_ifs at h with hdone
    unfold BatchInv at inv
    simp only [hdone.1] at inv
    rw [← Option.some.inj h]
    exact ⟨⟨inv.2.2.1.holds, inv.2.2.1.initial⟩, hdone.2⟩
  | resume =>
    simp only [Progress.step] at h
    split_ifs at h with hphase
    split at h
    · simp at h
    · next done hdone =>
      unfold BatchInv at inv
      simp only [hphase] at inv
      rw [← Option.some.inj h]
      obtain ⟨hholds, hinitial⟩ := inv done hdone
      exact ⟨hholds, hinitial, ⟨hholds, fun _ => hinitial⟩, hdone⟩

/-- Where no crash lands inside the rewriting of the aggregate file, nor before the lines the stage
starts with are in it, a completed stage leaves in the file these lines and the results of every
batch, and nothing else. -/
theorem resume_loses_nothing (hbatches : stage.initial = [] ∨ stage.ids ≠ []) {acts : List Act}
    (h : Runs (guarded (batchStep stage) (sparesAggregate stage)) (Progress.start stage) acts q)
    (hcompleted : q.phase = .completed) (line : Line) :
    line ∈ readLines q.file ↔
      line ∈ stage.initial ∨ ∃ id ∈ stage.ids, line ∈ stage.results id := by
  have inv : BatchInv stage q := h.invariant (BatchInv stage)
    (fun _ _ _ inv hstep => step_inv inv hstep.1 hstep.2) start_inv
  unfold BatchInv at inv
  simp only [hcompleted] at inv
  refine ⟨inv.1.holds.sound line, fun hline => ?_⟩
  rcases hline with hinitial | ⟨id, hid, hresult⟩
  · rcases hbatches with hnone | hsome
    · rw [hnone] at hinitial
      exact absurd hinitial (by simp)
    · obtain ⟨id, hid⟩ := List.exists_mem_of_ne_nil _ hsome
      exact inv.1.initial (List.ne_nil_of_mem (inv.2 id hid)) line hinitial
  · exact inv.1.holds.results id (inv.2 id hid) line hresult

end Resume

section Torn

def host (name : String) : Line := name.toList

def twoBatches (initial : List Line) (h : ∀ line ∈ initial, Clean line) : Stage where
  ids := ["a", "b"]
  distinct := by decide
  results id := if id = "a" then [host "10.0.0.1"] else [host "10.0.0.2"]
  initial := initial
  resultsClean := by decide +kernel
  initialClean := h

def plain : Stage := twoBatches [] (by simp)

def seeded : Stage := twoBatches [host "10.0.0.9"] (by decide +kernel)

def progress (stage : Stage) (acts : List Act) : Progress :=
  runFrom (Progress.step stage) (Progress.start stage) acts

def isCrash : Act → Bool
  | .crash _ _ => true
  | _ => false

def committed (id : String) : List Act :=
  [.commit id, .writeLines, .markItem, .saveCheckpoint]

/-- The second batch's rewriting is cut short, and the stage is resumed. -/
def torn : List Act :=
  committed "a" ++ [.commit "b", .crash 0 false, .resume] ++ committed "b" ++ [.complete]

/-- The completed stage has lost the first batch's host; where only a part of the text was written,
it also holds a host that nobody found; and what the stage started with is lost to a crash before
the first commit. -/
theorem torn_write_loses_batch :
    Runs (batchStep plain) (Progress.start plain) torn (progress plain torn) ∧
    (progress plain torn).phase = .completed ∧
    readLines (progress plain torn).file = [host "10.0.0.2"] ∧
    readLines (progress plain (committed "a" ++ [.commit "b", .crash 6 false, .resume] ++
      committed "b" ++ [.complete])).file = [host "10.0.0", host "10.0.0.2"] ∧
    readLines (progress seeded ([.crash 0 false, .resume] ++ committed "a" ++ committed "b" ++
      [.complete])).file = [host "10.0.0.1", host "10.0.0.2"] :=
  ⟨Runs.runFrom (Progress.step plain) (by decide +kernel), by decide +kernel, by decide +kernel,
    by decide +kernel, by decide +kernel⟩

theorem runs_uncrashed {stage : Stage} {q : Progress} {acts : List Act}
    (hacts : acts.all (fun act => !isCrash act) = true)
    (h : (acts.foldlM (Progress.step stage) q).isSome = true) :
    Runs (guarded (batchStep stage) (sparesAggregate stage)) q acts
      (runFrom (Progress.step stage) q acts) := by
  refine Runs.of_runFrom _ _ (fun act hact other => ?_) h
  have hcrash := List.all_eq_true.mp hacts act hact
  cases act with
  | crash => exact absurd hcrash (by simp [isCrash])
  | _ => trivial

def betweenFiles : List Act :=
  committed "a" ++ [.commit "b", .writeLines, .crash 0 false, .resume] ++ committed "b" ++
    [.complete]

theorem between_files_keeps_both :
    host "10.0.0.1" ∈ readLines (progress plain betweenFiles).file ∧
    host "10.0.0.2" ∈ readLines (progress plain betweenFiles).file := by
  have hrun : Runs (guarded (batchStep plain) (sparesAggregate plain)) (Progress.start plain)
      betweenFiles (progress plain betweenFiles) := by
    have hcrash : guarded (batchStep plain) (sparesAggregate plain)
        (progress plain (betweenFiles.take 6)) (.crash 0 false)
        (progress plain (betweenFiles.take 7)) := by
      refine ⟨⟨fun id hphase => ?_, fun line hline => absurd hline (by simp [plain, twoBatches])⟩,
        rfl⟩
      have hrewritten : (progress plain (betweenFiles.take 6)).phase = .rewritten "b" := by
        decide +kernel
      rw [hrewritten] at hphase
      exact absurd hphase (by simp)
    have hbefore : Runs (guarded (batchStep plain) (sparesAggregate plain)) (Progress.start plain)
        (betweenFiles.take 6) (progress plain (betweenFiles.take 6)) :=
      runs_uncrashed (by decide) (by decide +kernel)
    have hafter : Runs (guarded (batchStep plain) (sparesAggregate plain))
        (progress plain (betweenFiles.take 7)) (betweenFiles.drop 7)
        (runFrom (Progress.step plain) (progress plain (betweenFiles.take 7))
          (betweenFiles.drop 7)) :=
      runs_uncrashed (by decide) (by decide +kernel)
    exact (hbefore.trans (Runs.one hcrash)).trans hafter
  have hlines := resume_loses_nothing (.inl rfl) hrun (by decide +kernel)
  exact ⟨(hlines _).mpr (.inr ⟨"a", by decide, by decide⟩),
    (hlines _).mpr (.inr ⟨"b", by decide, by decide⟩)⟩

end Torn

end Shapoclyack.ResumedBatches
