import Shapoclyack.Library.Erasure
import Shapoclyack.Text

set_option autoImplicit false

namespace Shapoclyack.PublicationNotes

open Library

section Notes

/-- A publication's id: the token of the upload it came with, or `local-` and its job's id. -/
structure PublicationId where
  value : String
  plain : ∀ c ∈ value.toList, c.isAlphanum = true ∨ c = '-'
deriving DecidableEq

/-- `_NOTE_PREFIXES`. -/
def notePrefixes : List String :=
  ["; run not published (publication ",
    "; run projections did not complete: ",
    "; partial results uploaded late by agent ",
    "; run not filed under its tenant: "]

def adoptionNotePrefix : String := "; run not filed under its tenant: "

def publicationNotePrefix (publication : PublicationId) : String :=
  "; run not published (publication " ++ publication.value ++ "): "

/-- `reason.replace(";", ",")`. -/
def commas (reason : String) : String :=
  String.ofList (reason.toList.map fun c => if c = ';' then ',' else c)

/-- What is appended to a job's error, by each of its writers. -/
inductive JobNote where
  | unpublished (publication : PublicationId) (reason : String)
  | projections (exc : String)
  | lateUpload (agentId : String)
  | adoption (detail : String)
deriving DecidableEq

def JobNote.toText : JobNote → String
  | .unpublished publication reason => publicationNotePrefix publication ++ commas reason
  | .projections exc => "; run projections did not complete: " ++ exc
  | .lateUpload agentId => "; partial results uploaded late by agent " ++ agentId
  | .adoption detail => adoptionNotePrefix ++ detail

/-- `_append_job_error`: a note that is there already is not written again. -/
def appendJobError (error : Option String) (note : JobNote) : Option String :=
  if note.toText.toList <:+: (text error).toList then error
  else some (clip 2000 (text error ++ note.toText))

def noteEnds (rest : List Char) : Bool :=
  rest == ['\n'] || notePrefixes.any fun note => note.toList.isPrefixOf rest

/-- One reason's notes taken off a text, as they are written now and as they once were. -/
def clearReason (publication : PublicationId) (cleaned : List Char) (reason : String) : List Char :=
  [commas reason, reason].foldl
    (fun cleaned written =>
      eraseAll ((publicationNotePrefix publication).toList ++ written.toList) cleaned) cleaned

def clearPublicationNotes (publication : PublicationId) (reasons : List String)
    (error : Option String) : Option String :=
  if text error = "" then error
  else
    let named := reasons.foldl (clearReason publication) (text error).toList
    let cleaned := String.ofList
      (eraseSpans (publicationNotePrefix publication).toList noteEnds named)
    if cleaned = text error then error else orNone cleaned

end Notes

section Structure

def reasonOf (publication : PublicationId) : JobNote → Option String
  | .unpublished other reason => if other = publication then some reason else none
  | _ => none

def JobNote.chars (note : JobNote) : List Char := note.toText.toList

def ownText (publication : PublicationId) (note : JobNote) : Option (List Char) :=
  (reasonOf publication note).map fun reason => (commas reason).toList

def keptNotes (error : List Char) : List JobNote → List JobNote
  | [] => []
  | note :: notes =>
    if note.chars <:+: error then keptNotes error notes
    else note :: keptNotes (error ++ note.chars) notes

def prefixTail (publication : PublicationId) : List Char :=
  (publicationNotePrefix publication).toList.tail

variable (publication : PublicationId)

theorem publicationNotePrefix_chars :
    (publicationNotePrefix publication).toList = ';' :: prefixTail publication := by
  unfold prefixTail publicationNotePrefix
  rw [String.toList_append, String.toList_append]
  repeat rw [String.toList_ofList]
  rfl

theorem unmarked_prefixTail : ';' ∉ prefixTail publication := by
  have hplain : ';' ∉ publication.value.toList := by
    intro hmem
    exact absurd (publication.plain ';' hmem) (by decide)
  unfold prefixTail publicationNotePrefix
  rw [String.toList_append, String.toList_append]
  repeat rw [String.toList_ofList]
  rw [List.cons_append, List.cons_append, List.tail_cons, List.mem_append, List.mem_append, not_or,
    not_or]
  exact ⟨⟨by decide, hplain⟩, by decide⟩

theorem commas_toList (reason : String) :
    (commas reason).toList = reason.toList.map fun c => if c = ';' then ',' else c :=
  String.toList_ofList

theorem unmarked_commas (reason : String) : ';' ∉ (commas reason).toList := by
  rw [commas_toList, List.mem_map]
  intro ⟨c, _, hc⟩
  split_ifs at hc
  · exact absurd hc (by decide)
  · contradiction

theorem map_unmarked {chars : List Char} (h : ';' ∉ chars) :
    chars.map (fun c => if c = ';' then ',' else c) = chars := by
  conv_rhs => rw [← List.map_id chars]
  refine List.map_congr_left fun c hc => ?_
  have hne : c ≠ ';' := by
    rintro rfl
    exact h hc
  exact if_neg hne

theorem notePrefix_starts {start : String} (h : start ∈ notePrefixes) :
    ∃ rest, start.toList = ';' :: rest := by
  simp only [notePrefixes, List.mem_cons, List.not_mem_nil, or_false] at h
  rcases h with rfl | rfl | rfl | rfl <;> exact ⟨_, String.toList_ofList⟩

theorem marked_notes : Marked ';' (prefixTail publication) JobNote.chars (ownText publication) where
  starts note := by
    cases note with
    | unpublished other reason =>
      refine ⟨prefixTail other ++ (commas reason).toList, ?_⟩
      change (publicationNotePrefix other ++ commas reason).toList = _
      rw [String.toList_append, publicationNotePrefix_chars]
      rfl
    | projections exc =>
      have ⟨rest, hrest⟩ := notePrefix_starts
        (by simp [notePrefixes] : "; run projections did not complete: " ∈ notePrefixes)
      refine ⟨rest ++ exc.toList, ?_⟩
      change ("; run projections did not complete: " ++ exc).toList = _
      rw [String.toList_append, hrest]
      rfl
    | lateUpload agentId =>
      have ⟨rest, hrest⟩ := notePrefix_starts
        (by simp [notePrefixes] : "; partial results uploaded late by agent " ∈ notePrefixes)
      refine ⟨rest ++ agentId.toList, ?_⟩
      change ("; partial results uploaded late by agent " ++ agentId).toList = _
      rw [String.toList_append, hrest]
      rfl
    | adoption detail =>
      have ⟨rest, hrest⟩ := notePrefix_starts
        (by simp [notePrefixes] : "; run not filed under its tenant: " ∈ notePrefixes)
      refine ⟨rest ++ detail.toList, ?_⟩
      change ("; run not filed under its tenant: " ++ detail).toList = _
      rw [String.toList_append, hrest]
      rfl
  owned note r h := by
    have ⟨reason, hreason, hr⟩ := Option.map_eq_some_iff.mp h
    cases note with
    | unpublished other own =>
      change (if other = publication then some own else none) = some reason at hreason
      split_ifs at hreason with hsame
      rw [← hr, ← Option.some.inj hreason, ← publicationNotePrefix_chars, ← hsame]
      exact String.toList_append
    | projections exc => cases hreason
    | lateUpload agentId => cases hreason
    | adoption detail => cases hreason
  unmarked note r h := by
    have ⟨reason, _, hr⟩ := Option.map_eq_some_iff.mp h
    rw [← hr]
    exact unmarked_commas reason

theorem noteEnds_note (note : JobNote) (rest : List Char) :
    noteEnds (note.chars ++ rest) = true := by
  have hends : ∀ start ∈ notePrefixes, start.toList <+: note.chars →
      noteEnds (note.chars ++ rest) = true := by
    intro start hstart hpre
    unfold noteEnds
    rw [Bool.or_eq_true]
    refine .inr (List.any_eq_true.mpr ⟨start, hstart, ?_⟩)
    rw [List.isPrefixOf_iff_prefix]
    exact hpre.trans (List.prefix_append _ _)
  cases note with
  | unpublished other reason =>
    refine hends _ (by simp [notePrefixes]; left; rfl) ?_
    change _ <+: (publicationNotePrefix other ++ commas reason).toList
    unfold publicationNotePrefix
    simp only [String.toList_append, List.append_assoc]
    exact List.prefix_append _ _
  | projections exc =>
    refine hends "; run projections did not complete: " (by simp [notePrefixes]) ?_
    exact ⟨exc.toList, String.toList_append.symm⟩
  | lateUpload agentId =>
    refine hends "; partial results uploaded late by agent " (by simp [notePrefixes]) ?_
    exact ⟨agentId.toList, String.toList_append.symm⟩
  | adoption detail =>
    refine hends adoptionNotePrefix (by simp [notePrefixes, adoptionNotePrefix]) ?_
    exact ⟨detail.toList, String.toList_append.symm⟩

theorem noteEnds_unmarked (c : Char) (cs : List Char) (hc : c ≠ ';') :
    noteEnds (c :: cs) = true ↔ c = '\n' ∧ cs = [] := by
  have hno : (notePrefixes.any fun note => note.toList.isPrefixOf (c :: cs)) = false := by
    rw [List.any_eq_false]
    intro note hnote
    rw [List.isPrefixOf_iff_prefix]
    have ⟨rest, hrest⟩ := notePrefix_starts hnote
    rw [hrest, List.cons_prefix_cons]
    exact fun hboth => hc hboth.1.symm
  unfold noteEnds
  rw [hno, Bool.or_false, beq_iff_eq, List.cons.injEq]

end Structure

section Clearing

variable {publication : PublicationId}

theorem mem_keptNotes {error : List Char} {notes : List JobNote} {note : JobNote}
    (h : note ∈ keptNotes error notes) : note ∈ notes := by
  induction notes generalizing error with
  | nil => exact h
  | cons n notes ih =>
    unfold keptNotes at h
    split_ifs at h with hthere
    · exact List.mem_cons_of_mem _ (ih h)
    · cases List.mem_cons.mp h with
      | inl hsame => rw [hsame]; exact List.mem_cons_self
      | inr hlater => exact List.mem_cons_of_mem _ (ih hlater)

theorem foldl_appendJobError (notes : List JobNote) (base : Option String)
    (hfit : ((text base).toList ++
      render JobNote.chars (keptNotes (text base).toList notes)).length ≤ 2000) :
    (text (notes.foldl appendJobError base)).toList =
      (text base).toList ++ render JobNote.chars (keptNotes (text base).toList notes) := by
  induction notes generalizing base with
  | nil => simp [keptNotes, render]
  | cons note notes ih =>
    rw [List.foldl_cons]
    unfold keptNotes at hfit ⊢
    by_cases hthere : note.chars <:+: (text base).toList
    · have hstep : appendJobError base note = base := if_pos hthere
      rw [if_pos hthere] at hfit ⊢
      rw [hstep]
      exact ih base hfit
    · rw [if_neg hthere] at hfit ⊢
      have hclip : (text (appendJobError base note)).toList = (text base).toList ++ note.chars := by
        have hstep : appendJobError base note = some (clip 2000 (text base ++ note.toText)) :=
          if_neg hthere
        have hlength : ((text base).toList ++ note.chars).length ≤ 2000 := by
          refine le_trans ?_ hfit
          rw [render, List.flatMap_cons, ← List.append_assoc]
          exact (List.prefix_append _ _).length_le
        rw [hstep]
        change (clip 2000 (text base ++ note.toText)).toList = _
        rw [clip, String.toList_ofList, String.toList_append]
        exact List.take_of_length_le hlength
      have hsplit :
          render JobNote.chars (note :: keptNotes ((text base).toList ++ note.chars) notes) =
          note.chars ++ render JobNote.chars (keptNotes ((text base).toList ++ note.chars) notes) :=
        List.flatMap_cons
      rw [hsplit, ← List.append_assoc, ← hclip] at hfit ⊢
      exact ih _ hfit

theorem written_exact {reason : String} {r z : List Char} (hr : ';' ∉ r) (hz : AtMark ';' z)
    (hinto : (commas reason).toList <+: r → r = (commas reason).toList)
    (hover : r <+: (commas reason).toList → r = (commas reason).toList) :
    ∀ written ∈ [commas reason, reason], written.toList <+: r ++ z → r = written.toList := by
  intro written hwritten hpre
  simp only [List.mem_cons, List.not_mem_nil, or_false] at hwritten
  by_cases hmark : ';' ∈ written.toList
  · cases hwritten with
    | inl hcommas => exact absurd (hcommas ▸ hmark) (unmarked_commas reason)
    | inr hraw =>
      rw [hraw] at hmark hpre ⊢
      have hshort : r <+: reason.toList := by
        cases List.prefix_or_prefix_of_prefix hpre (List.prefix_append r z) with
        | inl hwithin => exact absurd (hwithin.subset hmark) hr
        | inr hshort => exact hshort
      have hcommas : r <+: (commas reason).toList := by
        rw [commas_toList, ← map_unmarked hr]
        exact hshort.map _
      have hlength := congrArg List.length (hover hcommas)
      rw [commas_toList, List.length_map] at hlength
      exact hshort.eq_of_length hlength
  · rw [prefix_append_atMark hmark hz] at hpre
    cases hwritten with
    | inl hcommas =>
      rw [hcommas] at hpre ⊢
      exact hinto hpre
    | inr hraw =>
      have hsame : (commas reason).toList = written.toList := by
        rw [commas_toList, ← hraw, map_unmarked hmark]
      rw [← hsame] at hpre ⊢
      exact hinto hpre

theorem written_apart {reason : String} {r : List Char} (hr : ';' ∉ r)
    (hinto : ¬(commas reason).toList <+: r) (hover : ¬r <+: (commas reason).toList) :
    ∀ written ∈ [commas reason, reason], ∀ z, ¬written.toList <+: r ++ z := by
  intro written hwritten z hpre
  simp only [List.mem_cons, List.not_mem_nil, or_false] at hwritten
  cases hwritten with
  | inl hcommas =>
    rw [hcommas] at hpre
    cases List.prefix_or_prefix_of_prefix hpre (List.prefix_append r z) with
    | inl hwithin => exact hinto hwithin
    | inr hbeyond => exact hover hbeyond
  | inr hraw =>
    rw [hraw] at hpre
    cases List.prefix_or_prefix_of_prefix hpre (List.prefix_append r z) with
    | inl hwithin =>
      apply hinto
      rw [commas_toList, map_unmarked fun hmark => hr (hwithin.subset hmark)]
      exact hwithin
    | inr hbeyond =>
      apply hover
      rw [commas_toList, ← map_unmarked hr]
      exact hbeyond.map _

theorem clearReason_eq (publication : PublicationId) (cleaned : List Char) (reason : String) :
    clearReason publication cleaned reason =
      eraseAll (';' :: prefixTail publication ++ reason.toList)
        (eraseAll (';' :: prefixTail publication ++ (commas reason).toList) cleaned) := by
  unfold clearReason
  rw [publicationNotePrefix_chars]
  rfl

variable {base : List Char} {notes : List JobNote}

/-- A text whose notes of this publication are told apart from everything else in it. -/
structure Readable (publication : PublicationId) (base : List Char) (notes : List JobNote) :
    Prop where
  base : ¬ ';' :: prefixTail publication <:+: base
  foreign : ∀ n ∈ notes, ownText publication n = none → ¬ ';' :: prefixTail publication <:+: n.chars

theorem Readable.filter (h : Readable publication base notes) (keep : JobNote → Bool) :
    Readable publication base (notes.filter keep) where
  base := h.base
  foreign n hn := h.foreign n (List.mem_of_mem_filter hn)

theorem clearReason_render (h : Readable publication base notes) {reason : String} {y : List Char}
    (hinto : ∀ n ∈ notes, ∀ r, ownText publication n = some r →
      (commas reason).toList <+: r → r = (commas reason).toList)
    (hover : ∀ n ∈ notes, ∀ r, ownText publication n = some r →
      r <+: (commas reason).toList → r = (commas reason).toList)
    (hy : AtMark ';' y)
    (hy' : AtMark ';' (eraseAll (';' :: prefixTail publication ++ (commas reason).toList) y)) :
    clearReason publication (base ++ (render JobNote.chars notes ++ y)) reason =
      base ++ (render JobNote.chars (notes.filter fun n =>
        ownText publication n ≠ some (commas reason).toList) ++
          clearReason publication y reason) := by
  have hmarked := marked_notes publication
  have hp := unmarked_prefixTail publication
  have hexact : ∀ n ∈ notes, ∀ r, ownText publication n = some r → ∀ z, AtMark ';' z →
      ∀ written ∈ [commas reason, reason], written.toList <+: r ++ z → r = written.toList :=
    fun n hn r hr z hz =>
      written_exact (hmarked.unmarked n r hr) hz (hinto n hn r hr) (hover n hn r hr)
  have hlater := render_atMark hmarked notes hy
  have hfiltered := render_atMark hmarked
    (notes.filter fun n => ownText publication n ≠ some (commas reason).toList) hy'
  rw [clearReason_eq, eraseAll_append (no_start_of_absent hp hlater h.base),
    eraseAll_render hmarked hp hy h.foreign
      fun n hn r hr z hz => hexact n hn r hr z hz _ List.mem_cons_self,
    eraseAll_append (no_start_of_absent hp hfiltered h.base),
    eraseAll_render hmarked hp hy' (h.filter _).foreign
      fun n hn r hr z hz => hexact n (List.mem_of_mem_filter hn) r hr z hz _
        (List.mem_cons_of_mem _ List.mem_cons_self),
    clearReason_eq, List.filter_filter]
  -- a reason as it was once written has either no note here or the same notes
  have hagain : ∀ n ∈ notes, (decide (ownText publication n ≠ some reason.toList) &&
      decide (ownText publication n ≠ some (commas reason).toList)) =
        decide (ownText publication n ≠ some (commas reason).toList) := by
    intro n _
    by_cases hown : ownText publication n = some reason.toList
    · have hsame : reason.toList = (commas reason).toList := by
        rw [commas_toList, map_unmarked (hmarked.unmarked n _ hown)]
      simp [← hsame]
    · simp [hown]
  rw [List.filter_congr hagain]

def without (publication : PublicationId) (reasons : List String) (notes : List JobNote) :
    List JobNote :=
  notes.filter fun n => decide (∀ reason ∈ reasons,
    ownText publication n ≠ some (commas reason).toList)

theorem without_cons (publication : PublicationId) (reason : String) (reasons : List String)
    (notes : List JobNote) : without publication (reason :: reasons) notes =
      without publication reasons (notes.filter fun n =>
        ownText publication n ≠ some (commas reason).toList) := by
  unfold without
  rw [List.filter_filter]
  refine List.filter_congr fun n _ => ?_
  rw [← Bool.decide_and, decide_eq_decide, List.forall_mem_cons, and_comm]

theorem foldl_clearReason (h : Readable publication base notes) (reasons : List String)
    {Q : List Char → Prop} (hmark : ∀ y, Q y → AtMark ';' y)
    (hstep : ∀ reason ∈ reasons, ∀ y, Q y →
      AtMark ';' (eraseAll (';' :: prefixTail publication ++ (commas reason).toList) y) ∧
        Q (clearReason publication y reason))
    (hinto : ∀ reason ∈ reasons, ∀ n ∈ notes, ∀ r, ownText publication n = some r →
      (commas reason).toList <+: r → r = (commas reason).toList)
    (hover : ∀ reason ∈ reasons, ∀ n ∈ notes, ∀ r, ownText publication n = some r →
      r <+: (commas reason).toList → r = (commas reason).toList) {y : List Char} (hy : Q y) :
    reasons.foldl (clearReason publication) (base ++ (render JobNote.chars notes ++ y)) =
        base ++ (render JobNote.chars (without publication reasons notes) ++
          reasons.foldl (clearReason publication) y) ∧
      Q (reasons.foldl (clearReason publication) y) := by
  induction reasons generalizing notes y with
  | nil =>
    have hall : without publication [] notes = notes := by simp [without]
    rw [hall]
    exact ⟨rfl, hy⟩
  | cons reason reasons ih =>
    have ⟨hmark', hQ⟩ := hstep reason List.mem_cons_self y hy
    have hone := clearReason_render h (hinto reason List.mem_cons_self)
      (hover reason List.mem_cons_self) (hmark y hy) hmark'
    rw [List.foldl_cons, hone, without_cons, List.foldl_cons]
    exact ih (h.filter _) (fun r hr => hstep r (List.mem_cons_of_mem _ hr))
      (fun r hr n hn => hinto r (List.mem_cons_of_mem _ hr) n (List.mem_of_mem_filter hn))
      (fun r hr n hn => hover r (List.mem_cons_of_mem _ hr) n (List.mem_of_mem_filter hn)) hQ

/-- Clearing reasons that are no others' start takes their notes and nothing else. -/
theorem clearReasons_render (h : Readable publication base notes) {reasons : List String}
    (hinto : ∀ reason ∈ reasons, ∀ n ∈ notes, ∀ r, ownText publication n = some r →
      (commas reason).toList <+: r → r = (commas reason).toList)
    (hover : ∀ reason ∈ reasons, ∀ n ∈ notes, ∀ r, ownText publication n = some r →
      r <+: (commas reason).toList → r = (commas reason).toList) :
    reasons.foldl (clearReason publication) (base ++ render JobNote.chars notes) =
      base ++ render JobNote.chars (without publication reasons notes) := by
  have hnil : ∀ pat : List Char, eraseAll pat [] = [] := fun pat => by rw [eraseAll]
  have hstay : ∀ reason, clearReason publication [] reason = [] := by
    intro reason
    rw [clearReason_eq, hnil, hnil]
  have hrun := (foldl_clearReason h reasons (Q := fun y => y = []) (y := [])
    (fun y hy => by rw [hy]; exact atMark_nil)
    (fun reason _ y hy => by rw [hy, hnil, hstay]; exact ⟨atMark_nil, rfl⟩) hinto hover rfl)
  rw [hrun.2, List.append_nil, List.append_nil] at hrun
  exact hrun.1

theorem eraseSpans_readable (h : Readable publication base notes) :
    eraseSpans (';' :: prefixTail publication) noteEnds (base ++ render JobNote.chars notes) =
      base ++ (render JobNote.chars (notes.filter fun n => (ownText publication n).isNone) ++
        if (notes.getLast?.bind (ownText publication)).bind List.getLast? = some '\n' then ['\n']
        else []) := by
  have hmark : AtMark ';' (render JobNote.chars notes) := by
    have hnotes := render_atMark (marked_notes publication) notes (y := []) atMark_nil
    rwa [List.append_nil] at hnotes
  rw [eraseSpans_append (no_start_of_absent (unmarked_prefixTail publication) hmark h.base),
    eraseSpans_render (marked_notes publication) (unmarked_prefixTail publication) (by decide)
      h.foreign noteEnds_note noteEnds_unmarked]

end Clearing

section Exactly

variable {publication : PublicationId} {base : Option String} {notes : List JobNote}

def errorOf (base : Option String) (notes : List JobNote) : Option String :=
  notes.foldl appendJobError base

def reasonsOf (publication : PublicationId) (notes : List JobNote) : List String :=
  notes.filterMap (reasonOf publication)

/-- The notes on a job's error, none of them twice. -/
def written (base : Option String) (notes : List JobNote) : List JobNote :=
  keptNotes (text base).toList notes

/-- A job's error as it would be without this publication's notes. -/
def unpublishedApart (publication : PublicationId) (base : Option String) (notes : List JobNote) :
    List Char :=
  (text base).toList ++
    render JobNote.chars ((written base notes).filter fun n => (reasonOf publication n).isNone)

/-- Whether clearing any of this publication's reasons takes its notes and nothing else. -/
def ClearsExactly (publication : PublicationId) (base : Option String) (notes : List JobNote) :
    Prop :=
  ∀ reasons, (∀ reason ∈ reasons, reason ∈ reasonsOf publication notes) →
    (text (clearPublicationNotes publication reasons (errorOf base notes))).toList =
      unpublishedApart publication base notes

/-- No other note holds this publication's prefix, no reason of the publication starts another, and
none that nothing but notes of its own follow ends in a newline. -/
structure Separable (publication : PublicationId) (base : Option String) (notes : List JobNote) :
    Prop where
  foreign : ∀ n ∈ written base notes, reasonOf publication n = none →
    ¬(publicationNotePrefix publication).toList <:+: n.chars
  prefixFree : ∀ reason ∈ reasonsOf publication notes, ∀ other ∈ reasonsOf publication notes,
    (commas reason).toList <+: (commas other).toList → commas other = commas reason
  newline : ∀ before n after, written base notes = before ++ n :: after →
    (∀ m ∈ after, (reasonOf publication m).isSome) →
      ∀ reason, reasonOf publication n = some reason →
      reason.toList.getLast? ≠ some '\n'

theorem ownText_isNone (publication : PublicationId) (n : JobNote) :
    (ownText publication n).isNone = (reasonOf publication n).isNone := Option.isNone_map

theorem getLast?_commas (reason : String) :
    (commas reason).toList.getLast? = some '\n' ↔ reason.toList.getLast? = some '\n' := by
  rw [commas_toList, List.getLast?_map, Option.map_eq_some_iff]
  constructor
  · intro ⟨c, hc, hnewline⟩
    split_ifs at hnewline with hmark
    · exact absurd hnewline (by decide)
    · rw [hc, hnewline]
  · intro h
    exact ⟨'\n', h, rfl⟩

theorem clearPublicationNotes_text (publication : PublicationId) (reasons : List String)
    (error : Option String) : (text (clearPublicationNotes publication reasons error)).toList =
      eraseSpans (publicationNotePrefix publication).toList noteEnds
        (reasons.foldl (clearReason publication) (text error).toList) := by
  unfold clearPublicationNotes
  dsimp only
  split_ifs with hempty hsame
  · have hnil : ∀ pat : List Char, eraseAll pat [] = [] := fun pat => by rw [eraseAll]
    have hstay : reasons.foldl (clearReason publication) [] = [] := by
      induction reasons with
      | nil => rfl
      | cons reason reasons ih =>
        rw [List.foldl_cons, clearReason_eq, hnil, hnil]
        exact ih
    rw [hempty]
    change [] = eraseSpans _ _ (reasons.foldl (clearReason publication) [])
    rw [hstay, eraseSpans]
  · have hchars := congrArg String.toList hsame
    rw [String.toList_ofList] at hchars
    exact hchars.symm
  · have horNone : ∀ value : String, text (orNone value) = value := by
      intro value
      unfold orNone text
      split_ifs with hnone
      · exact hnone.symm
      · rfl
    rw [horNone, String.toList_ofList]

variable (hbase : ∀ start ∈ notePrefixes, ¬start.toList <:+: (text base).toList)
  (hfit : ((text base).toList ++ render JobNote.chars (written base notes)).length ≤ 2000)

include hbase in
theorem readable_of_foreign (hforeign : ∀ n ∈ written base notes, reasonOf publication n = none →
    ¬(publicationNotePrefix publication).toList <:+: n.chars) :
    Readable publication (text base).toList (written base notes) where
  base := by
    rw [← publicationNotePrefix_chars]
    intro hinfix
    apply hbase "; run not published (publication " (by simp [notePrefixes])
    have hstart : "; run not published (publication ".toList <+:
        (publicationNotePrefix publication).toList := by
      unfold publicationNotePrefix
      simp only [String.toList_append, List.append_assoc]
      exact List.prefix_append _ _
    exact hstart.isInfix.trans hinfix
  foreign n hn hown := by
    rw [← publicationNotePrefix_chars]
    exact hforeign n hn (Option.map_eq_none_iff.mp hown)

theorem reason_of_ownText {n : JobNote} {r : List Char} (hn : n ∈ notes)
    (hown : ownText publication n = some r) :
    ∃ reason ∈ reasonsOf publication notes, (commas reason).toList = r := by
  have ⟨reason, hreason, hr⟩ := Option.map_eq_some_iff.mp hown
  exact ⟨reason, List.mem_filterMap.mpr ⟨n, hn, hreason⟩, hr⟩

theorem split_of_getLast?_filter {keep : JobNote → Bool} {ns : List JobNote} {n : JobNote}
    (h : (ns.filter keep).getLast? = some n) :
    ∃ before after, ns = before ++ n :: after ∧ ∀ m ∈ after, keep m = false := by
  have ⟨init, hinit⟩ := List.getLast?_eq_some_iff.mp h
  have ⟨l, l', hl, _, hl'⟩ := List.filter_eq_append_iff.mp hinit
  have ⟨m, m', hm, _, _, hm'⟩ := List.filter_eq_cons_iff.mp hl'
  refine ⟨l ++ m, m', ?_, fun x hx => ?_⟩
  · rw [hl, hm, List.append_assoc]
  · exact eq_false_of_ne_true (List.filter_eq_nil_iff.mp hm' x hx)

include hfit in
theorem errorOf_chars : (text (errorOf base notes)).toList =
    (text base).toList ++ render JobNote.chars (written base notes) :=
  foldl_appendJobError notes base hfit

include hbase hfit

theorem clears_of_separable (h : Separable publication base notes) :
    ClearsExactly publication base notes := by
  intro reasons hreasons
  have hreadable := readable_of_foreign hbase h.foreign
  rw [clearPublicationNotes_text, errorOf_chars hfit, publicationNotePrefix_chars,
    clearReasons_render hreadable]
  · have hrest := eraseSpans_readable (hreadable.filter fun n => decide (∀ reason ∈ reasons,
      ownText publication n ≠ some (commas reason).toList))
    change eraseSpans _ _ (_ ++ render _ (List.filter _ _)) = _
    rw [hrest, List.filter_filter, if_neg]
    · rw [List.append_nil]
      unfold unpublishedApart
      congr 2
      refine List.filter_congr fun n _ => ?_
      rw [ownText_isNone]
      cases hown : reasonOf publication n with
      | none => simp [ownText, hown]
      | some reason => simp
    · intro hnewline
      have ⟨r, hr, hlast⟩ := Option.bind_eq_some_iff.mp hnewline
      have ⟨n, hn, hown⟩ := Option.bind_eq_some_iff.mp hr
      have ⟨before, after, hsplit, hafter⟩ := split_of_getLast?_filter hn
      have ⟨reason, hreason, hcommas⟩ := Option.map_eq_some_iff.mp hown
      refine h.newline before n after hsplit (fun m hm => ?_) reason hreason
        ((getLast?_commas reason).mp (hcommas ▸ hlast))
      have hgone := of_decide_eq_false (hafter m hm)
      cases hm' : reasonOf publication m with
      | none => simp [ownText, hm'] at hgone
      | some reason => rfl
  · intro reason hreason n hn r hown hpre
    have ⟨other, hother, hr⟩ := reason_of_ownText (mem_keptNotes hn) hown
    rw [← hr] at hpre ⊢
    rw [h.prefixFree reason (hreasons reason hreason) other hother hpre]
  · intro reason hreason n hn r hown hpre
    have ⟨other, hother, hr⟩ := reason_of_ownText (mem_keptNotes hn) hown
    rw [← hr] at hpre ⊢
    rw [h.prefixFree other hother reason (hreasons reason hreason) hpre]

omit hbase hfit in
theorem count_unmarked {x : List Char} (hx : ';' ∉ x) : x.count ';' = 0 := List.count_eq_zero.mpr hx

omit hbase hfit in
theorem count_cleared (publication : PublicationId) (x : List Char) :
    (eraseSpans (publicationNotePrefix publication).toList noteEnds x).count ';' ≤
      loose ';' (prefixTail publication) x := by
  rw [publicationNotePrefix_chars]
  exact count_eraseSpans x

omit hbase hfit in
theorem loose_errorOf (publication : PublicationId) (base : Option String) (notes : List JobNote) :
    loose ';' (prefixTail publication) ((text base).toList ++
        render JobNote.chars (written base notes)) =
      loose ';' (prefixTail publication) (unpublishedApart publication base notes) := by
  have hp := unmarked_prefixTail publication
  have hmark (ns : List JobNote) : AtMark ';' (render JobNote.chars ns) := by
    have h := render_atMark (marked_notes publication) ns (y := []) atMark_nil
    rwa [List.append_nil] at h
  unfold unpublishedApart
  rw [loose_append hp _ (hmark _), loose_append hp _ (hmark _),
    loose_render (marked_notes publication) hp]
  simp only [ownText_isNone]

omit hbase in
theorem foreign_of_clears (h : ClearsExactly publication base notes) :
    ∀ n ∈ written base notes, reasonOf publication n = none →
      ¬(publicationNotePrefix publication).toList <:+: n.chars := by
  intro n hn hown hinfix
  have hresult := h [] (by simp)
  rw [clearPublicationNotes_text, errorOf_chars hfit] at hresult
  have hcount := count_cleared publication
    ((text base).toList ++ render JobNote.chars (written base notes))
  have hfold : [].foldl (clearReason publication)
      ((text base).toList ++ render JobNote.chars (written base notes)) =
        (text base).toList ++ render JobNote.chars (written base notes) := rfl
  rw [hfold] at hresult
  rw [hresult, loose_errorOf] at hcount
  have hthere : ';' :: prefixTail publication <:+: unpublishedApart publication base notes := by
    rw [← publicationNotePrefix_chars]
    refine hinfix.trans ?_
    have hmem : n ∈ (written base notes).filter fun n => (reasonOf publication n).isNone := by
      rw [List.mem_filter]
      exact ⟨hn, by rw [hown]; rfl⟩
    have ⟨before, after, hsplit⟩ := List.append_of_mem hmem
    unfold unpublishedApart
    rw [hsplit, render, List.flatMap_append, List.flatMap_cons]
    exact ⟨(text base).toList ++ before.flatMap JobNote.chars, after.flatMap JobNote.chars,
      by simp only [List.append_assoc]⟩
  have hlt := loose_lt_count hthere
  omega

theorem newline_of_clears (h : ClearsExactly publication base notes)
    (hfree : ∀ reason ∈ reasonsOf publication notes, ∀ other ∈ reasonsOf publication notes,
      (commas reason).toList <+: (commas other).toList → commas other = commas reason)
    {before : List JobNote} {n : JobNote} {after : List JobNote}
    (hsplit : written base notes = before ++ n :: after)
    (hafter : ∀ m ∈ after, (reasonOf publication m).isSome) {reason : String}
    (hreason : reasonOf publication n = some reason) : reason.toList.getLast? ≠ some '\n' := by
  intro hlast
  have hreadable := readable_of_foreign hbase (foreign_of_clears hfit h)
  -- every other reason is named
  let others := (reasonsOf publication notes).filter fun other => commas other ≠ commas reason
  have hothers : ∀ other ∈ others, other ∈ reasonsOf publication notes :=
    fun other hother => List.mem_of_mem_filter hother
  have hresult := h others hothers
  have hown : ownText publication n = some (commas reason).toList := by rw [ownText, hreason]; rfl
  have hfrom : ∀ m ∈ written base notes, ∀ r, ownText publication m = some r →
      ∃ other ∈ reasonsOf publication notes, (commas other).toList = r :=
    fun m hm r hr => reason_of_ownText (mem_keptNotes hm) hr
  rw [clearPublicationNotes_text, errorOf_chars hfit, publicationNotePrefix_chars,
    clearReasons_render hreadable] at hresult
  · have hrest := eraseSpans_readable (hreadable.filter fun n => decide (∀ reason ∈ others,
      ownText publication n ≠ some (commas reason).toList))
    change eraseSpans _ _ (_ ++ render _ (List.filter _ _)) = _ at hresult
    rw [hrest, List.filter_filter, if_pos] at hresult
    · have hsame : ((written base notes).filter fun m => (ownText publication m).isNone &&
          decide (∀ reason ∈ others, ownText publication m ≠ some (commas reason).toList)) =
            (written base notes).filter fun m => (reasonOf publication m).isNone := by
        refine List.filter_congr fun m _ => ?_
        rw [ownText_isNone]
        cases hm : reasonOf publication m with
        | none => simp [ownText, hm]
        | some reason => simp
      rw [hsame] at hresult
      have hlength := congrArg List.length hresult
      unfold unpublishedApart at hlength
      simp only [List.length_append, List.length_singleton] at hlength
      omega
    · rw [hsplit, List.filter_append, List.filter_cons_of_pos]
      · have hkept : ∀ m ∈ n :: after.filter (fun m => decide (∀ reason ∈ others,
            ownText publication m ≠ some (commas reason).toList)),
              ownText publication m = some (commas reason).toList := by
          intro m hm
          cases List.mem_cons.mp hm with
          | inl hsame => rw [hsame, hown]
          | inr hm' =>
            have ⟨hmem, hkeep⟩ := List.mem_filter.mp hm'
            have ⟨other, hother⟩ := Option.isSome_iff_exists.mp (hafter m hmem)
            have hown' : ownText publication m = some (commas other).toList := by
              rw [ownText, hother]
              rfl
            by_cases hsame : commas other = commas reason
            · rw [hown', hsame]
            · have hin : other ∈ others := by
                rw [List.mem_filter]
                refine ⟨List.mem_filterMap.mpr ⟨m, ?_, hother⟩, by simpa using hsame⟩
                have hin : m ∈ keptNotes (text base).toList notes := by
                  change m ∈ written base notes
                  rw [hsplit]
                  exact List.mem_append_right _ (List.mem_cons_of_mem _ hmem)
                exact mem_keptNotes hin
              exact absurd hown' (of_decide_eq_true hkeep other hin)
        rw [List.getLast?_append_of_ne_nil _ (List.cons_ne_nil _ _),
          List.getLast?_eq_some_getLast (List.cons_ne_nil _ _), Option.bind_some,
          hkept _ (List.getLast_mem _), Option.bind_some, getLast?_commas]
        exact hlast
      · rw [decide_eq_true_eq]
        intro other hother heq
        rw [hown, Option.some.injEq] at heq
        have hne := (List.mem_filter.mp hother).2
        simp only [decide_eq_true_eq] at hne
        exact hne (String.toList_injective heq.symm)
  · intro other hother m hm r hr hpre
    have ⟨own, hin, hcommas⟩ := hfrom m hm r hr
    rw [← hcommas] at hpre ⊢
    rw [hfree other (hothers other hother) own hin hpre]
  · intro other hother m hm r hr hpre
    have ⟨own, hin, hcommas⟩ := hfrom m hm r hr
    rw [← hcommas] at hpre ⊢
    rw [hfree own hin other (hothers other hother) hpre]

omit hbase hfit in
theorem loose_clearReasons (publication : PublicationId) (reasons : List String) (x : List Char) :
    loose ';' (prefixTail publication) (reasons.foldl (clearReason publication) x) ≤
      loose ';' (prefixTail publication) x := by
  induction reasons generalizing x with
  | nil => exact Nat.le_refl _
  | cons reason reasons ih =>
    rw [List.foldl_cons, clearReason_eq]
    refine (ih _).trans ((loose_eraseAll (unmarked_prefixTail publication) _ _).trans ?_)
    exact loose_eraseAll (unmarked_prefixTail publication) _ _

omit hbase hfit in
theorem reason_written {error : List Char} {done notes : List JobNote} {start : List Char}
    (hreadable : Readable publication start (done ++ keptNotes error notes))
    (herror : error = start ++ render JobNote.chars done) {reason : String}
    (h : reason ∈ reasonsOf publication notes) : ∃ n ∈ done ++ keptNotes error notes, ∃ r,
      ownText publication n = some r ∧ (commas reason).toList <+: r := by
  have hmarked := marked_notes publication
  have hp := unmarked_prefixTail publication
  induction notes generalizing error done with
  | nil => exact absurd h List.not_mem_nil
  | cons note notes ih =>
    have hlater (h' : reason ∈ reasonsOf publication notes) :
        ∃ n ∈ done ++ keptNotes error (note :: notes), ∃ r,
          ownText publication n = some r ∧ (commas reason).toList <+: r := by
      unfold keptNotes at hreadable ⊢
      by_cases hthere : note.chars <:+: error
      · rw [if_pos hthere] at hreadable ⊢
        exact ih hreadable herror h'
      · rw [if_neg hthere] at hreadable ⊢
        have hgrown : error ++ note.chars = start ++ render JobNote.chars (done ++ [note]) := by
          rw [herror, render, render, List.flatMap_append, List.append_assoc]
          simp
        rw [List.append_cons] at hreadable ⊢
        exact ih hreadable hgrown h'
    rw [reasonsOf, List.mem_filterMap] at h
    obtain ⟨m, hm, hreason⟩ := h
    cases List.mem_cons.mp hm with
    | inr hmem => exact hlater (List.mem_filterMap.mpr ⟨m, hmem, hreason⟩)
    | inl hsame =>
      have hown : ownText publication note = some (commas reason).toList := by
        rw [ownText, ← hsame, hreason]
        rfl
      unfold keptNotes at hreadable ⊢
      by_cases hthere : note.chars <:+: error
      · rw [if_pos hthere] at hreadable ⊢
        have hnotes : Readable publication start done :=
          ⟨hreadable.base, fun n hn => hreadable.foreign n (List.mem_append_left _ hn)⟩
        have hmark : AtMark ';' (render JobNote.chars done) := by
          have hnil := render_atMark hmarked done (y := []) atMark_nil
          rwa [List.append_nil] at hnil
        have hq : ';' ∉ prefixTail publication ++ (commas reason).toList := by
          rw [List.mem_append, not_or]
          exact ⟨hp, unmarked_commas reason⟩
        rw [hmarked.owned note _ hown, herror] at hthere
        cases infix_append_atMark hq hmark hthere with
        | inl hstart =>
          have hpat : ';' :: prefixTail publication <:+:
              ';' :: (prefixTail publication ++ (commas reason).toList) :=
            (List.prefix_append (';' :: prefixTail publication) _).isInfix
          exact absurd (hpat.trans hstart) hnotes.base
        | inr hdone =>
          obtain ⟨n, hn, r, hr⟩ :=
            infix_render hmarked hp (unmarked_commas reason) hnotes.foreign hdone
          exact ⟨n, List.mem_append_left _ hn, r, hr⟩
      · rw [if_neg hthere]
        exact ⟨note, List.mem_append_right _ List.mem_cons_self, _, hown, List.prefix_rfl⟩

omit hbase hfit in
theorem residue_shows {e d y rest : List Char} (hd : d ≠ []) (hunmarked : ';' ∉ d)
    (hrest : AtMark ';' rest) (reason : List Char)
    (hy : loose ';' (prefixTail publication) y ≤ rest.count ';') :
    eraseSpans (publicationNotePrefix publication).toList noteEnds
        (eraseAll (';' :: prefixTail publication ++ reason) (e ++ d ++ y)) ≠ e ++ rest := by
  intro heq
  have hp := unmarked_prefixTail publication
  have hcount := count_cleared publication
    (eraseAll (';' :: prefixTail publication ++ reason) (e ++ d ++ y))
  rw [heq, List.count_append] at hcount
  have hloose := loose_eraseAll hp (prefixTail publication ++ reason) (e ++ d ++ y)
  rw [List.cons_append] at hcount
  have hedge : (e ++ d).count ';' = e.count ';' := by
    rw [List.count_append, count_unmarked hunmarked, Nat.add_zero]
  by_cases hfirst : ∃ u, u ≠ [] ∧ u <:+ e ++ d ∧ ';' :: prefixTail publication <+: u ++ y
  · have ⟨u, hu, hsuffix, hstart⟩ := hfirst
    have hlt := loose_lt_of_start hu hsuffix hstart
    omega
  · have hnone : ∀ u, u ≠ [] → u <:+ e ++ d → ¬ ';' :: prefixTail publication <+: u ++ y :=
      fun u hu hsuffix hstart => hfirst ⟨u, hu, hsuffix, hstart⟩
    have hkept := eraseAll_append (t := reason) hnone
    have hless := loose_eraseAll hp (prefixTail publication ++ reason) y
    rw [← List.cons_append] at hcount hless
    rw [hkept] at heq hcount
    by_cases hsecond : ∃ u, u ≠ [] ∧ u <:+ e ++ d ∧ ';' :: prefixTail publication <+:
        u ++ eraseAll (';' :: prefixTail publication ++ reason) y
    · have ⟨u, hu, hsuffix, hstart⟩ := hsecond
      have hlt := loose_lt_of_start hu hsuffix hstart
      omega
    · have hnone' : ∀ u, u ≠ [] → u <:+ e ++ d → ¬ ';' :: prefixTail publication <+:
          u ++ eraseAll (';' :: prefixTail publication ++ reason) y :=
        fun u hu hsuffix hstart => hsecond ⟨u, hu, hsuffix, hstart⟩
      rw [publicationNotePrefix_chars, eraseSpans_append hnone', List.append_assoc,
        List.append_cancel_left_eq] at heq
      cases d with
      | nil => exact hd rfl
      | cons c d =>
        have hc := hrest c (by rw [← heq]; rfl)
        exact hunmarked (by rw [hc]; exact List.mem_cons_self)

omit hbase hfit in
theorem exists_first {P : JobNote → Prop} {ns : List JobNote} (h : ∃ n ∈ ns, P n) :
    ∃ before n after, ns = before ++ n :: after ∧ P n ∧ ∀ m ∈ before, ¬P m := by
  induction ns with
  | nil =>
    have ⟨n, hn, _⟩ := h
    exact absurd hn List.not_mem_nil
  | cons m ns ih =>
    by_cases hm : P m
    · exact ⟨[], m, ns, rfl, hm, fun _ hnil => absurd hnil List.not_mem_nil⟩
    · have hlater : ∃ n ∈ ns, P n := by
        have ⟨n, hn, hP⟩ := h
        cases List.mem_cons.mp hn with
        | inl hsame => exact absurd (hsame ▸ hP) hm
        | inr hin => exact ⟨n, hin, hP⟩
      have ⟨before, n, after, hsplit, hP, hbefore⟩ := ih hlater
      refine ⟨m :: before, n, after, by rw [hsplit]; rfl, hP, fun x hx => ?_⟩
      cases List.mem_cons.mp hx with
      | inl hsame => rw [hsame]; exact hm
      | inr hin => exact hbefore x hin

omit hbase hfit in
/-- The first note on an error whose reason another reason is a part of, with the shortest part. -/
structure FirstCut (publication : PublicationId) (base : Option String) (notes : List JobNote)
    (before : List JobNote) (n : JobNote) (after : List JobNote) (r : List Char) (a : String) :
    Prop where
  split : written base notes = before ++ n :: after
  own : ownText publication n = some r
  named : a ∈ reasonsOf publication notes
  part : (commas a).toList <+: r
  proper : (commas a).toList ≠ r
  shortest : ∀ reason ∈ reasonsOf publication notes, (commas reason).toList <+: (commas a).toList →
    commas reason = commas a
  uncut : ∀ m ∈ before, ∀ s, ownText publication m = some s →
    ∀ reason ∈ reasonsOf publication notes, (commas reason).toList <+: s →
      s = (commas reason).toList

include hbase in
omit hfit in
theorem exists_firstCut (hforeign : ∀ n ∈ written base notes, reasonOf publication n = none →
      ¬(publicationNotePrefix publication).toList <:+: n.chars)
    {first second : String} (hfirst : first ∈ reasonsOf publication notes)
    (hsecond : second ∈ reasonsOf publication notes)
    (hpre : (commas first).toList <+: (commas second).toList) (hne : commas second ≠ commas first) :
    ∃ before n after r a, FirstCut publication base notes before n after r a := by
  let Cut (r : List Char) (reason : String) : Prop :=
    reason ∈ reasonsOf publication notes ∧ (commas reason).toList <+: r ∧ (commas reason).toList ≠ r
  have hcut : ∃ n ∈ written base notes, ∃ r, ownText publication n = some r ∧ ∃ a, Cut r a := by
    have hstart : Readable publication (text base).toList ([] ++ written base notes) :=
      readable_of_foreign hbase hforeign
    obtain ⟨n, hn, r, hr, hpre'⟩ := reason_written hstart (by simp [render]) hsecond
    refine ⟨n, hn, r, hr, first, hfirst, hpre.trans hpre', fun heq => ?_⟩
    have hback : (commas first).toList = (commas second).toList :=
      hpre.eq_of_length (le_antisymm hpre.length_le (heq ▸ hpre'.length_le))
    exact hne (String.toList_injective hback.symm)
  obtain ⟨before, n, after, hsplit, ⟨r, hr, hcuts⟩, hbefore⟩ := exists_first hcut
  obtain ⟨a, ⟨hain, hapre, hane⟩, hshortest⟩ := WellFounded.has_min
    (measure fun reason : String => (commas reason).toList.length).wf {a | Cut r a} hcuts
  refine ⟨before, n, after, r, a, hsplit, hr, hain, hapre, hane, ?_, ?_⟩
  · intro reason hreason hpre'
    have hle := hpre'.length_le
    have hnot : ¬(commas reason).toList.length < (commas a).toList.length :=
      hshortest reason ⟨hreason, hpre'.trans hapre, fun heq =>
        hane (hapre.eq_of_length (le_antisymm hapre.length_le (heq ▸ hle)))⟩
    exact String.toList_injective (hpre'.eq_of_length (by omega))
  · intro m hm s hs reason hreason hpre'
    by_contra hne'
    exact hbefore m hm ⟨s, hs, reason, hreason, hpre', fun heq => hne' heq.symm⟩

def reasonsBut (publication : PublicationId) (a : String) (before : List JobNote) : List String :=
  (before.filterMap (reasonOf publication)).filter fun reason => commas reason ≠ commas a

section FirstCuts

variable {before after : List JobNote} {n : JobNote} {r : List Char} {a : String}
  (hcut : FirstCut publication base notes before n after r a)

omit hbase hfit

include hcut

theorem FirstCut.mem_written {m : JobNote} (hm : m ∈ before) : m ∈ written base notes := by
  rw [hcut.split]
  exact List.mem_append_left _ hm

theorem FirstCut.of_reasonsBut {reason : String} (h : reason ∈ reasonsBut publication a before) :
    (∃ m ∈ before, ownText publication m = some (commas reason).toList) ∧
      reason ∈ reasonsOf publication notes ∧ commas reason ≠ commas a := by
  have ⟨hmem, hne⟩ := List.mem_filter.mp h
  have ⟨m, hm, hown⟩ := List.mem_filterMap.mp hmem
  refine ⟨⟨m, hm, by rw [ownText, hown]; rfl⟩, List.mem_filterMap.mpr ⟨m, ?_, hown⟩,
    by simpa using hne⟩
  exact mem_keptNotes (hcut.mem_written hm)

theorem FirstCut.apart {reason : String} (h : reason ∈ reasonsBut publication a before) :
    ∀ written ∈ [commas reason, reason], ∀ z, ¬written.toList <+: r ++ z := by
  have ⟨⟨m, hm, hown⟩, hreason, hne⟩ := hcut.of_reasonsBut h
  have hlonger : ¬(commas a).toList <+: (commas reason).toList := fun hpre =>
    hne (String.toList_injective (hcut.uncut m hm _ hown a hcut.named hpre))
  refine written_apart ((marked_notes publication).unmarked n r hcut.own) (fun hinto => ?_)
    fun hover => hlonger (hcut.part.trans hover)
  cases List.prefix_or_prefix_of_prefix hinto hcut.part with
  | inl hshort => exact hne (hcut.shortest reason hreason hshort)
  | inr hlong => exact hlonger hlong

theorem FirstCut.clear_before (hreadable : Readable publication (text base).toList before) :
    ∃ rest, (reasonsBut publication a before).foldl (clearReason publication)
        ((text base).toList ++ (render JobNote.chars before ++
          (';' :: prefixTail publication ++ r ++ render JobNote.chars after))) =
        (text base).toList ++ (render JobNote.chars
          (without publication (reasonsBut publication a before) before) ++
            (';' :: prefixTail publication ++ r ++ rest)) ∧
      loose ';' (prefixTail publication) rest ≤
        loose ';' (prefixTail publication) (render JobNote.chars after) := by
  have hp := unmarked_prefixTail publication
  have hr := (marked_notes publication).unmarked n r hcut.own
  let Q (y : List Char) : Prop := ∃ rest, y = ';' :: prefixTail publication ++ r ++ rest
  have hmark : ∀ y, Q y → AtMark ';' y := by
    intro y ⟨rest, hrest⟩
    rw [hrest]
    exact atMark_cons _
  have hpass : ∀ reason ∈ reasonsBut publication a before,
      ∀ written ∈ [commas reason, reason], ∀ y, Q y →
        Q (eraseAll (';' :: prefixTail publication ++ written.toList) y) := by
    intro reason hreason written hwritten y ⟨rest, hrest⟩
    refine ⟨eraseAll (';' :: prefixTail publication ++ written.toList) rest, ?_⟩
    rw [hrest]
    exact eraseAll_pass hp hr (hcut.apart hreason written hwritten rest)
  have ⟨hrun, rest, hrest⟩ := foldl_clearReason hreadable
    (reasonsBut publication a before) hmark
    (fun reason hreason y hy => by
      have hfirst := hpass reason hreason (commas reason) List.mem_cons_self y hy
      refine ⟨hmark _ hfirst, ?_⟩
      rw [clearReason_eq]
      exact hpass reason hreason reason (List.mem_cons_of_mem _ List.mem_cons_self) _ hfirst)
    (fun reason hreason m hm s hs hpre =>
      hcut.uncut m hm s hs reason (hcut.of_reasonsBut hreason).2.1 hpre)
    (fun reason hreason m hm s hs hpre => by
      have ⟨m', hm', hown⟩ := (hcut.of_reasonsBut hreason).1
      have ⟨other, hother, hcommas⟩ := reason_of_ownText (mem_keptNotes (hcut.mem_written hm)) hs
      rw [← hcommas] at hpre ⊢
      exact (hcut.uncut m' hm' _ hown other hother hpre).symm)
    (y := ';' :: prefixTail publication ++ r ++ render JobNote.chars after) ⟨_, rfl⟩
  have hless := loose_clearReasons publication (reasonsBut publication a before)
    (';' :: prefixTail publication ++ r ++ render JobNote.chars after)
  rw [hrest, loose_start hp hr, loose_start hp hr] at hless
  rw [hrest] at hrun
  exact ⟨rest, hrun, hless⟩

omit hcut in
theorem filter_without (publication : PublicationId) (a : String) (before : List JobNote) :
    ((without publication (reasonsBut publication a before) before).filter fun m =>
      ownText publication m ≠ some (commas a).toList) =
        before.filter fun m => (reasonOf publication m).isNone := by
  rw [without, List.filter_filter]
  refine List.filter_congr fun m hm => ?_
  cases hown : reasonOf publication m with
  | none => simp [ownText, hown]
  | some reason =>
    have htext : ownText publication m = some (commas reason).toList := by
      rw [ownText, hown]
      rfl
    rw [Option.isNone_some, Bool.and_eq_false_iff]
    by_cases hsame : commas reason = commas a
    · left
      simp [htext, hsame]
    · right
      rw [decide_eq_false_iff_not]
      intro hnone
      refine hnone reason ?_ htext
      rw [reasonsBut, List.mem_filter]
      exact ⟨List.mem_filterMap.mpr ⟨m, hm, hown⟩, by simpa using hsame⟩

end FirstCuts

theorem prefixFree_of_clears (h : ClearsExactly publication base notes) :
    ∀ reason ∈ reasonsOf publication notes, ∀ other ∈ reasonsOf publication notes,
      (commas reason).toList <+: (commas other).toList → commas other = commas reason := by
  intro first hfirst second hsecond hpre
  by_contra hne
  have hmarked := marked_notes publication
  have hp := unmarked_prefixTail publication
  have hforeign := foreign_of_clears hfit h
  obtain ⟨before, n, after, r, a, hcut⟩ := exists_firstCut hbase hforeign hfirst hsecond hpre hne
  have hreadable : Readable publication (text base).toList before :=
    ⟨(readable_of_foreign hbase hforeign).base,
      fun m hm => (readable_of_foreign hbase hforeign).foreign m (hcut.mem_written hm)⟩
  obtain ⟨rest, hrun, hloose⟩ := hcut.clear_before hreadable
  -- what is left of the note once the part is taken
  obtain ⟨d, hd⟩ := hcut.part
  have hdne : d ≠ [] := by
    rintro rfl
    exact hcut.proper (by rw [← hd, List.append_nil])
  have hdunmarked : ';' ∉ d := by
    intro hmem
    apply hmarked.unmarked n r hcut.own
    rw [← hd]
    exact List.mem_append_right _ hmem
  have hresidue : eraseAll (';' :: prefixTail publication ++ (commas a).toList)
      (';' :: prefixTail publication ++ r ++ rest) =
        d ++ eraseAll (';' :: prefixTail publication ++ (commas a).toList) rest := by
    rw [← hd, ← List.append_assoc, List.append_assoc, eraseAll_start]
    exact eraseAll_append (no_start_of_unmarked hdunmarked)
  have hbound : loose ';' (prefixTail publication)
      (eraseAll (';' :: prefixTail publication ++ (commas a).toList) rest) ≤
        (render JobNote.chars
          (after.filter fun m => (reasonOf publication m).isNone)).count ';' := by
    rw [loose_render hmarked hp] at hloose
    simp only [ownText_isNone] at hloose
    exact (loose_eraseAll hp _ _).trans (hloose.trans (loose_le_count _))
  have hnamed : ∀ reason ∈ reasonsBut publication a before ++ [a],
      reason ∈ reasonsOf publication notes := by
    intro reason hreason
    cases List.mem_append.mp hreason with
    | inl hmem => exact (hcut.of_reasonsBut hmem).2.1
    | inr hlast =>
      rw [List.mem_singleton.mp hlast]
      exact hcut.named
  have hall : render JobNote.chars (written base notes) = render JobNote.chars before ++
      (';' :: prefixTail publication ++ r ++ render JobNote.chars after) := by
    rw [hcut.split, render, List.flatMap_append, List.flatMap_cons, hmarked.owned n r hcut.own]
    rfl
  have hexact : ∀ m ∈ without publication (reasonsBut publication a before) before, ∀ s,
      ownText publication m = some s → ∀ z, AtMark ';' z →
        (commas a).toList <+: s ++ z → s = (commas a).toList := by
    intro m hm s hs z hz hpre'
    rw [prefix_append_atMark (unmarked_commas a) hz] at hpre'
    exact hcut.uncut m (List.mem_of_mem_filter hm) s hs a hcut.named hpre'
  have hforeignLeft : ∀ m ∈ without publication (reasonsBut publication a before) before,
      ownText publication m = none → ¬ ';' :: prefixTail publication <:+: m.chars :=
    (hreadable.filter _).foreign
  have hy : AtMark ';' (';' :: prefixTail publication ++ r ++ rest) := atMark_cons _
  have hlater := render_atMark hmarked
    (without publication (reasonsBut publication a before) before) hy
  have hresult := h _ hnamed
  rw [clearPublicationNotes_text, errorOf_chars hfit, hall, List.foldl_append, hrun,
    List.foldl_cons,
    List.foldl_nil, clearReason_eq,
    eraseAll_append (no_start_of_absent hp hlater hreadable.base),
    eraseAll_render hmarked hp hy hforeignLeft hexact, filter_without, hresidue,
    ← List.append_assoc, ← List.append_assoc] at hresult
  have hmark : AtMark ';'
      (render JobNote.chars (after.filter fun m => (reasonOf publication m).isNone)) := by
    have hnotes := render_atMark hmarked
      (after.filter fun m => (reasonOf publication m).isNone) (y := []) atMark_nil
    rwa [List.append_nil] at hnotes
  refine residue_shows hdne hdunmarked hmark a.toList hbound (hresult.trans ?_)
  have hnone : ¬(reasonOf publication n).isNone = true := by
    obtain ⟨reason, hreason, _⟩ := Option.map_eq_some_iff.mp hcut.own
    rw [hreason]
    simp
  rw [unpublishedApart, hcut.split, List.filter_append,
    List.filter_cons_of_neg (p := fun m => (reasonOf publication m).isNone) hnone, render,
    List.flatMap_append, ← List.append_assoc]
  rfl

end Exactly

section Settled

/-- A publication's notes are cleared exactly, whichever of its reasons are named, exactly when its
notes can be told apart. -/
theorem clears_iff (publication : PublicationId) (base : Option String) (notes : List JobNote)
    (hbase : ∀ start ∈ notePrefixes, ¬start.toList <:+: (text base).toList)
    (hfit : ((text base).toList ++ render JobNote.chars (written base notes)).length ≤ 2000) :
    ClearsExactly publication base notes ↔ Separable publication base notes := by
  constructor
  · intro h
    have hfree := prefixFree_of_clears hbase hfit h
    exact {
      foreign := foreign_of_clears hfit h
      prefixFree := hfree
      newline := fun before n after hsplit hafter reason hreason =>
        newline_of_clears hbase hfit h hfree hsplit hafter hreason }
  · exact clears_of_separable hbase hfit

def sampleId : PublicationId where
  value := "local-7f"
  plain := by
    rw [String.toList_ofList]
    simp only [List.forall_mem_cons, List.not_mem_nil, false_implies, implies_true, and_true]
    decide

def sampleNotes : List JobNote :=
  [.unpublished sampleId "the store said no", .lateUpload "agent-1",
    .unpublished sampleId "the store said no: 503; gave up"]

theorem sample_chars (reason : String) :
    (JobNote.unpublished sampleId reason).chars =
      "; run not published (publication ".toList ++ "local-7f".toList ++ "): ".toList ++
        reason.toList.map fun c => if c = ';' then ',' else c := by
  change ("; run not published (publication " ++ "local-7f" ++ "): " ++ commas reason).toList = _
  rw [String.toList_append, String.toList_append, String.toList_append, commas]
  exact congrArg _ String.toList_ofList

theorem sample_prefix :
    prefixTail sampleId =
      " run not published (publication ".toList ++ "local-7f".toList ++ "): ".toList := by
  change ("; run not published (publication " ++ "local-7f" ++ "): ").toList.tail = _
  rw [String.toList_append, String.toList_append]
  repeat rw [String.toList_ofList]
  rfl

theorem sampleNotes_chars :
    sampleNotes.map JobNote.chars =
      ["; run not published (publication local-7f): the store said no".toList,
        "; partial results uploaded late by agent agent-1".toList,
        "; run not published (publication local-7f): the store said no: 503, gave up".toList] := by
  rw [sampleNotes, List.map_cons, List.map_cons, List.map_cons, sample_chars, sample_chars]
  change [_, ("; partial results uploaded late by agent " ++ "agent-1").toList, _] = _
  rw [String.toList_append]
  repeat rw [String.toList_ofList]
  decide +kernel

theorem sample_base :
    ∀ start ∈ notePrefixes, ¬start.toList <:+: (text (some "exit 1")).toList := by
  change ∀ start ∈ notePrefixes, ¬start.toList <:+: "exit 1".toList
  rw [notePrefixes, List.forall_mem_cons, List.forall_mem_cons, List.forall_mem_cons,
    List.forall_mem_singleton]
  repeat rw [String.toList_ofList]
  decide +kernel

theorem sample_written : written (some "exit 1") sampleNotes = sampleNotes := by
  have hchars := sampleNotes_chars
  rw [sampleNotes, List.map_cons, List.map_cons, List.map_cons] at hchars
  simp only [List.cons.injEq] at hchars
  have ⟨hone, htwo, hthree, _⟩ := hchars
  have hkeep (error : List Char) (note : JobNote) (notes : List JobNote)
      (hnew : ¬note.chars <:+: error) :
      keptNotes error (note :: notes) = note :: keptNotes (error ++ note.chars) notes :=
    if_neg hnew
  change keptNotes "exit 1".toList sampleNotes = sampleNotes
  rw [sampleNotes, hkeep, hkeep, hkeep, keptNotes]
  · rw [hone, htwo, hthree]
    repeat rw [String.toList_ofList]
    decide +kernel
  · rw [hone, htwo]
    repeat rw [String.toList_ofList]
    decide +kernel
  · rw [hone]
    repeat rw [String.toList_ofList]
    decide +kernel

theorem sample_render :
    (text (some "exit 1")).toList ++ render JobNote.chars (written (some "exit 1") sampleNotes) =
      ("exit 1; run not published (publication local-7f): " ++
        "the store said no; partial results uploaded late by agent agent-1" ++
        "; run not published (publication local-7f): the store said no: 503, gave up").toList := by
  have hrender : render JobNote.chars sampleNotes = (sampleNotes.map JobNote.chars).flatten := rfl
  change "exit 1".toList ++ _ = _
  rw [sample_written, hrender, sampleNotes_chars, String.toList_append, String.toList_append]
  repeat rw [String.toList_ofList]
  decide +kernel

theorem sample_fit :
    ((text (some "exit 1")).toList ++
      render JobNote.chars (written (some "exit 1") sampleNotes)).length ≤ 2000 := by
  rw [sample_render, String.toList_append, String.toList_append]
  repeat rw [String.toList_ofList]
  decide +kernel

theorem clears_iff_sample :
    (∀ start ∈ notePrefixes, ¬start.toList <:+: (text (some "exit 1")).toList) ∧
    ((text (some "exit 1")).toList ++
      render JobNote.chars (written (some "exit 1") sampleNotes)).length ≤ 2000 ∧
    (ClearsExactly sampleId (some "exit 1") sampleNotes ↔
      Separable sampleId (some "exit 1") sampleNotes) :=
  ⟨sample_base, sample_fit,
    clears_iff sampleId (some "exit 1") sampleNotes sample_base sample_fit⟩

/-- Naming the shorter of two reasons leaves the end of the longer one's note behind. -/
theorem clear_leaves_rest :
    errorOf (some "exit 1") sampleNotes =
      some ("exit 1; run not published (publication local-7f): " ++
      "the store said no; partial results uploaded late by agent agent-1" ++
      "; run not published (publication local-7f): the store said no: 503, gave up") ∧
    clearPublicationNotes sampleId ["the store said no"] (errorOf (some "exit 1") sampleNotes) =
      some "exit 1; partial results uploaded late by agent agent-1: 503, gave up" ∧
    ¬ClearsExactly sampleId (some "exit 1") sampleNotes := by
  have herror : errorOf (some "exit 1") sampleNotes =
      some ("exit 1; run not published (publication local-7f): " ++
        "the store said no; partial results uploaded late by agent agent-1" ++
        "; run not published (publication local-7f): the store said no: 503, gave up") := by
    have hchars := errorOf_chars sample_fit
    rw [sample_render] at hchars
    cases hresult : errorOf (some "exit 1") sampleNotes with
    | none =>
      rw [hresult, String.toList_append, String.toList_append] at hchars
      repeat rw [String.toList_ofList] at hchars
      cases hchars
    | some result =>
      rw [hresult] at hchars
      exact congrArg some (String.toList_injective hchars)
  have hcleared : (text (clearPublicationNotes sampleId ["the store said no"]
      (errorOf (some "exit 1") sampleNotes))).toList =
        "exit 1; partial results uploaded late by agent agent-1: 503, gave up".toList := by
    have htext (s : String) : text (some s) = s := rfl
    have hcommas : (commas "the store said no").toList = "the store said no".toList := by
      rw [commas, String.toList_ofList, String.toList_ofList]
      decide +kernel
    rw [clearPublicationNotes_text, herror, List.foldl_cons, List.foldl_nil, clearReason_eq,
      publicationNotePrefix_chars, sample_prefix, hcommas, htext, String.toList_append,
      String.toList_append]
    repeat rw [String.toList_ofList]
    decide +kernel
  have hclear : clearPublicationNotes sampleId ["the store said no"]
      (errorOf (some "exit 1") sampleNotes) =
        some "exit 1; partial results uploaded late by agent agent-1: 503, gave up" := by
    cases hresult : clearPublicationNotes sampleId ["the store said no"]
        (errorOf (some "exit 1") sampleNotes) with
    | none =>
      rw [hresult] at hcleared
      repeat rw [String.toList_ofList] at hcleared
      cases hcleared
    | some result =>
      rw [hresult] at hcleared
      exact congrArg some (String.toList_injective hcleared)
  refine ⟨herror, hclear, fun h => ?_⟩
  have hresult := h ["the store said no"] (fun reason hreason => by
    rw [List.mem_singleton.mp hreason]
    exact List.mem_cons_self)
  have hothers : (sampleNotes.filter fun n => (reasonOf sampleId n).isNone) =
      [.lateUpload "agent-1"] := by
    decide +kernel
  have hlate : (JobNote.lateUpload "agent-1").chars =
      "; partial results uploaded late by agent agent-1".toList := by
    change ("; partial results uploaded late by agent " ++ "agent-1").toList = _
    rw [String.toList_append]
    repeat rw [String.toList_ofList]
    decide
  rw [hcleared, unpublishedApart, sample_written, hothers, render, List.flatMap_singleton, hlate]
    at hresult
  change _ = "exit 1".toList ++ _ at hresult
  have hlength := congrArg List.length hresult
  repeat rw [String.toList_ofList] at hlength
  cases hlength

end Settled

end Shapoclyack.PublicationNotes
