import Shapoclyack.ReportEntries

set_option autoImplicit false

namespace Shapoclyack.Detectors

open FindingEvidence ReportEntries

def pulse : String := "pulse"

def nuclei : String := "nuclei"

def nmapNse : String := "nmap-nse"

def pulsePlugin : String := "pulse-plugin"

def maxDetectors : ℕ := 16

def maxVantages : ℕ := 8

def unknownVantage : String := "unknown"

/-- One entry of `Vulnerability.detectors`. -/
structure Detector where
  detector : Option String
  ref : Option String
  host : Option String
  port : Option String
  protocol : Option String
  ruleset : Option String
  lastRunId : Option String
  lastSeenAt : Option ℤ
  agentId : Option String
  agentGroup : Option String
  vantage : Option String
  vantages : List String
deriving DecidableEq

/-- Where the job that produced a run scanned from. -/
structure Vantage where
  agentId : Option String
  agentGroup : Option String
  vantage : String
deriving DecidableEq

/-- Explicit transport wins; historical Pulse, plugin and Nuclei records default to TCP. -/
def detectorProtocol (t : Text) (e : Detector) : Option String :=
  let recorded := t.lower (text e.protocol)
  if recorded = "tcp" ∨ recorded = "udp" then some recorded
  else if recorded ≠ "" ∧ e.detector = some pulsePlugin then none
  else if e.detector = some pulse ∨ e.detector = some nuclei ∨ e.detector = some pulsePlugin then
    some "tcp"
  else none

def findingProtocol (t : Text) (detectors : List Detector) : Option String :=
  match (detectors.map (detectorProtocol t)).dedup with
  | [some protocol] => some protocol
  | _ => none

def derivedDetector (script : String) : Option (String × String) :=
  if startsWith "nuclei:" script then some (nuclei, dropHead "nuclei:" script)
  else if startsWith "pulse-plugin:" script then
    some (pulsePlugin, dropHead "pulse-plugin:" script)
  else if startsWith "pulse:" script then some (pulse, dropHead "pulse:" script)
  else if script ≠ "" then some (nmapNse, script)
  else none

def detectorOf (t : Text) (source scriptId : Option String) : Option (String × String) :=
  let name := clip 32 (t.lower (t.strip (text source)))
  let script := t.strip (text scriptId)
  let derived := derivedDetector script
  if name = "" then derived
  else
    match derived with
    | some (detector, ref) => some (name, if detector = name then ref else script)
    | none => some (name, script)

def detectorKey (t : Text) (e : Detector) :
    Option String × Option String × Option String × String × Option String :=
  (e.detector, filled e.ref, (filled e.host).map (normalizeHost t), text e.port,
    if e.detector = some pulsePlugin then detectorProtocol t e else none)

def looseDetectorKey (t : Text) (e : Detector) :
    Option String × Option String × String × Option String :=
  (e.detector, filled e.ref, text e.port,
    if e.detector = some pulsePlugin then detectorProtocol t e else none)

/-- The protocol a candidate records, a UDP one so that no TCP re-check judges it. -/
def recordedProtocol (t : Text) (name : String) (labels : DetectorLabels) : Option String :=
  let protocol := t.lower (t.strip (text labels.protocol))
  if protocol = "tcp" ∨ protocol = "udp" then some protocol
  else if protocol ≠ "" ∧ name = pulsePlugin then some "unknown"
  else none

def recordedRuleset (t : Text) (name : String) (labels : DetectorLabels) : Option String :=
  let ruleset := clip 80 (t.strip (text labels.rulesetVersion))
  if (name = pulse ∨ name = pulsePlugin) ∧ ruleset ≠ "" then some ruleset else none

def candidate (t : Text) (e : Entry) (runId : String) (now : ℤ) (vantage : Option Vantage)
    (labels : DetectorLabels) : Option Detector :=
  match detectorOf t labels.source labels.scriptId with
  | none => none
  | some (name, ref) => some {
      detector := some name
      ref := orNone (clip 200 ref)
      host := orNone (clip 255 (t.strip (text e.host)))
      port := e.port
      protocol := recordedProtocol t name labels
      ruleset := recordedRuleset t name labels
      lastRunId := some runId
      lastSeenAt := some now
      agentId := vantage.bind (·.agentId)
      agentGroup := vantage.bind (·.agentGroup)
      vantage := vantage.map (·.vantage)
      vantages := [] }

def addCandidate (t : Text) (out : List Detector) (c : Detector) : List Detector :=
  if out.any (fun seen => detectorKey t c == detectorKey t seen) then out else out ++ [c]

/-- The detector entries one report row stands for, its own and `also_detected_by`. -/
def observedDetectors (t : Text) (e : Entry) (runId : String) (now : ℤ)
    (vantage : Option Vantage) : List Detector :=
  ((e.toDetectorLabels :: e.alsoDetectedBy).filterMap
    (candidate t e runId now vantage)).foldl (addCandidate t) []

def vantagesOf (e : Detector) : List String :=
  if e.vantages ≠ [] then e.vantages
  else [if truthy e.vantage then text e.vantage else unknownVantage]

def addVantage (out : List String) (v : String) : List String :=
  if out.contains v then out else out ++ [v]

def unionVantages (lists : List (List String)) : List String :=
  (lists.flatten.foldl addVantage []).take maxVantages

/-- The vantages an entry hands to the one replacing it. -/
def handedOn (t : Text) (old new : Detector) : List String :=
  if detectorKey t old = detectorKey t new then vantagesOf old
  else (vantagesOf old).filter (· ≠ unknownVantage)

def replacedBy (t : Text) (old new : Detector) : Bool :=
  detectorKey t old == detectorKey t new ||
    (!truthy old.host && truthy new.host && looseDetectorKey t old == looseDetectorKey t new)

def renew (t : Text) (previous : List Detector) (e : Detector) : Detector :=
  { e with vantages :=
      unionVantages (vantagesOf e ::
        (previous.filter (fun old => replacedBy t old e)).map (fun old => handedOn t old e)) }

def keptBehind (t : Text) (observed : List Detector) (old : Detector) : Bool :=
  !(observed.any (fun e => detectorKey t e == detectorKey t old)) &&
    !(!truthy old.host &&
      observed.any (fun e => truthy e.host && looseDetectorKey t e == looseDetectorKey t old))

def markRepeats (held : List (Option String × Option String)) :
    List Detector → List (Detector × Bool)
  | [] => []
  | e :: rest =>
    let key := (e.detector, filled e.ref)
    (e, held.contains key) :: markRepeats (key :: held) rest

/-- From the oldest on, the first `excess` repeats; true marks a dropped entry. -/
def dropRepeats : ℕ → List (Detector × Bool) → List (Detector × Bool)
  | _, [] => []
  | 0, (e, _) :: rest => (e, false) :: dropRepeats 0 rest
  | excess + 1, (e, isRepeat) :: rest =>
    if isRepeat then (e, true) :: dropRepeats excess rest
    else (e, false) :: dropRepeats (excess + 1) rest

/-- The survivors up to the room there is, and the entries lost to the cap. -/
def splitSurvivors : ℕ → List (Detector × Bool) → List Detector × List Detector
  | _, [] => ([], [])
  | 0, (e, _) :: rest =>
    let (survivors, lost) := splitSurvivors 0 rest
    (survivors, e :: lost)
  | room + 1, (e, dropped) :: rest =>
    if dropped then
      let (survivors, lost) := splitSurvivors (room + 1) rest
      (survivors, e :: lost)
    else
      let (survivors, lost) := splitSurvivors room rest
      (e :: survivors, lost)

def capDetectors (merged : List Detector) : List Detector :=
  if merged.length ≤ maxDetectors then merged
  else
    let marked := (dropRepeats (merged.length - maxDetectors)
      (markRepeats [] merged).reverse).reverse
    match splitSurvivors maxDetectors marked with
    | ([], _) => []
    | (newest :: rest, lost) =>
      { newest with vantages := unionVantages [vantagesOf newest, lost.flatMap vantagesOf] } :: rest

/-- The recorded detectors with an observation folded in: newest first, capped. -/
def mergeDetectors (t : Text) (existing observed : List Detector) : List Detector :=
  capDetectors (observed.map (renew t existing) ++ existing.filter (keptBehind t observed))

end Shapoclyack.Detectors
