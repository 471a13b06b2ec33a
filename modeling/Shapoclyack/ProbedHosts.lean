import Mathlib
import Shapoclyack.DiscoveryBatches
import Shapoclyack.ScopeDocuments

set_option autoImplicit false

namespace Shapoclyack.ProbedHosts

open Library
open DiscoveryBatches (sortTexts)
open ResumedBatches (Line strip)

section Expansion

/-- `hosts()` of a network, as text: both addresses of a pair, else neither the first nor, in
IPv4, the last. -/
def hostTexts (net : Network) : List Line :=
  let first := net.networkAddress
  let addresses (start count : ℕ) : List Line :=
    (List.range count).map fun k => printAddress net.version (start + k)
  match net.block.height with
  | 0 => [printAddress net.version first ++ printScopeId net.scopeId]
  | 1 => addresses first 2
  | height =>
    match net.version with
    | .v4 => addresses (first + 1) (2 ^ height - 2)
    | .v6 => addresses (first + 1) (2 ^ height - 1)

def addHosts (cap : Option ℕ) : List Line → List Line → List Line × Bool
  | [], ips => (ips, false)
  | host :: rest, ips =>
    let ips := ips.insert host
    if ∃ max ∈ cap, max ≤ ips.length then (ips, true) else addHosts cap rest ips

/-- The loop of `expand_target_ips`; a set is a list without repeats. -/
def expandLoop (cap : Option ℕ) : List Line → List Line → List Line
  | [], ips => ips
  | raw :: rest, ips =>
    let value := strip raw
    if value = [] then expandLoop cap rest ips
    else
      match ipNetwork value with
      | some net =>
        match addHosts cap (hostTexts net) ips with
        | (ips, true) => ips
        | (ips, false) => expandLoop cap rest ips
      | none => expandLoop cap rest (ips.insert value)

def expandTargetIps (targets : List Line) (cap : Option ℕ) : List Line := expandLoop cap targets []

def appendPending (known : List Line) (cap : Option ℕ) :
    List Line → List Line → List Line × Bool
  | [], pending => (pending, false)
  | host :: rest, pending =>
    if host ∈ known then appendPending known cap rest pending
    else
      let pending := pending ++ [host]
      if ∃ max ∈ cap, max ≤ pending.length then (pending, true)
      else appendPending known cap rest pending

def pendingLoop (known : List Line) (cap : Option ℕ) : List Line → List Line → List Line
  | [], pending => pending
  | member :: rest, pending =>
    match ipNetwork member with
    | some net =>
      match appendPending known cap (hostTexts net) pending with
      | (pending, true) => pending
      | (pending, false) => pendingLoop known cap rest pending
    | none =>
      if member ∈ known then pendingLoop known cap rest pending
      else pendingLoop known cap rest (pending ++ [member])

def pendingDiscoveryTargets (members known : List Line) (cap : Option ℕ) : List Line :=
  sortTexts (pendingLoop known cap members []).dedup

end Expansion

section Probing

/-- What the probe ladder answers for the hosts it is handed and the members they come from. -/
abbrev Ladder := List Line → List Line → List Line

/-- The hosts handed to the ladder, and those found alive. -/
structure Discovered where
  handed : List Line
  alive : List Line

/-- The cap of `max_pending_hosts`. -/
def maxPendingHosts : ℕ := 65536

/-- `host_discovery`, with the known hosts where those are skipped. -/
def hostDiscovery (ladder : Ladder) (skipDiscovery : Bool) (known : Option (List Line))
    (targets : List Line) : Discovered :=
  let scanTargets :=
    match known with
    | some known => pendingDiscoveryTargets targets known (some maxPendingHosts)
    | none => targets
  if scanTargets = [] then ⟨[], []⟩
  else if skipDiscovery then ⟨[], sortTexts scanTargets.dedup⟩
  else
    let probeHosts := sortTexts (expandTargetIps scanTargets (some maxPendingHosts))
    if probeHosts = [] then ⟨[], []⟩
    else ⟨probeHosts, ladder probeHosts targets⟩

/-- The alive set after the delta refresh, of the hosts the alive filters keep. -/
def refreshAlive (ladder : Ladder) (keeps : Line → Bool) (refreshHosts alive : List Line) :
    List Line :=
  if refreshHosts = [] then alive
  else
    let confirmed := (hostDiscovery ladder false none refreshHosts).alive
    let left := alive.filter fun host => ¬ (host ∈ refreshHosts ∧ host ∉ confirmed)
    sortTexts ((left ∪ confirmed).filter keeps).dedup

/-- The host of an open-port entry, which `parse_endpoint` reads. -/
def endpointHost (isdigit : Line → Bool) (entry : Line) : Option Line :=
  let raw := strip entry
  if raw = [] then none
  else
    let raw :=
      if ['/', 't', 'c', 'p'] <:+ raw ∨ ['/', 'u', 'd', 'p'] <:+ raw then
        raw.take (raw.length - 4)
      else raw
    let split : Option (Line × Line) :=
      if raw.head? = some '[' ∧ ']' ∈ raw then
        some ((raw.takeWhile (· ≠ ']')).drop 1,
          ((raw.dropWhile (· ≠ ']')).drop 1).dropWhile (· = ':'))
      else if ':' ∈ raw then
        some ((raw.reverse.dropWhile (· ≠ ':')).tail.reverse,
          (raw.reverse.takeWhile (· ≠ ':')).reverse)
      else none
    split.bind fun (host, port) => if host = [] ∨ ¬ isdigit port then none else some host

def suspects (isdigit : Line → Bool) (alive openPorts : List Line) : List Line :=
  sortTexts (alive.filter fun host => host ∉ openPorts.filterMap (endpointHost isdigit)).dedup

def verifyAliveWithoutPorts (ladder : Ladder) (isdigit : Line → Bool)
    (enabled skipDiscovery : Bool) (alive openPorts : List Line) : List Line :=
  if ¬ enabled ∨ skipDiscovery then alive
  else
    let suspected := suspects isdigit alive openPorts
    if suspected = [] then alive
    else
      let confirmed := (hostDiscovery ladder false none suspected).alive
      sortTexts (alive.filter fun host =>
        host ∈ openPorts.filterMap (endpointHost isdigit) ∨ host ∈ confirmed).dedup

end Probing

section Walk

/-- The hosts a list of targets names, in the order they are met, and whether each is an address. -/
def walk (targets : List Line) : List (Line × Bool) :=
  targets.flatMap fun raw =>
    let value := strip raw
    if value = [] then []
    else
      match ipNetwork value with
      | some net => (hostTexts net).map fun host => (host, true)
      | none => [(value, false)]

/-- A host met before an address has brought the distinct hosts, those in hand included, to the
cap. -/
def ReachedFrom (cap : ℕ) (ips : List Line) (steps : List (Line × Bool)) (host : Line) : Prop :=
  ∃ before address after, steps = before ++ (host, address) :: after ∧
    ∀ earlier x later, before = earlier ++ (x, true) :: later →
      (ips ++ (earlier ++ [(x, true)]).map Prod.fst).toFinset.card < cap

def Reached (cap : ℕ) (targets : List Line) (host : Line) : Prop :=
  ReachedFrom cap [] (walk targets) host

def collect (cap : ℕ) : List (Line × Bool) → List Line → List Line
  | [], ips => ips
  | (host, address) :: rest, ips =>
    if address ∧ cap ≤ (ips.insert host).length then ips.insert host
    else collect cap rest (ips.insert host)

variable {cap : ℕ} {ips hosts targets : List Line} {steps rest : List (Line × Bool)}
  {host x : Line} {address : Bool}

theorem collect_addresses :
    collect cap (hosts.map (fun host => (host, true)) ++ rest) ips =
      match addHosts (some cap) hosts ips with
      | (ips, true) => ips
      | (ips, false) => collect cap rest ips := by
  induction hosts generalizing ips with
  | nil => rfl
  | cons host hosts ih =>
    simp only [List.map_cons, List.cons_append, collect, addHosts, Option.mem_def,
      Option.some.injEq, exists_eq_left', true_and]
    by_cases hfull : cap ≤ (ips.insert host).length
    · simp only [if_pos hfull]
    · simp only [if_neg hfull]
      exact ih

theorem expandLoop_eq : expandLoop (some cap) targets ips = collect cap (walk targets) ips := by
  induction targets generalizing ips with
  | nil => rfl
  | cons raw targets ih =>
    unfold expandLoop walk
    rw [List.flatMap_cons]
    by_cases hblank : strip raw = []
    · simp only [if_pos hblank, List.nil_append]
      exact ih
    · simp only [if_neg hblank]
      cases hnet : ipNetwork (strip raw) with
      | none =>
        simp only [List.singleton_append, collect, Bool.false_eq_true, false_and, if_false]
        exact ih
      | some net =>
        simp only [collect_addresses]
        rcases addHosts (some cap) (hostTexts net) ips with ⟨added, full⟩
        cases full with
        | false => exact ih
        | true => rfl

theorem reachedFrom_nil : ¬ ReachedFrom cap ips [] host := by
  rintro ⟨before, _, after, hsteps, -⟩
  exact List.append_ne_nil_of_right_ne_nil before (List.cons_ne_nil _ after) hsteps.symm

theorem toFinset_insert_append (others : List Line) :
    (ips.insert x ++ others).toFinset = (ips ++ x :: others).toFinset := by
  ext text
  simp only [List.toFinset_append, List.toFinset_cons, List.mem_toFinset, Finset.mem_union,
    Finset.mem_insert, List.mem_insert_iff]
  tauto

theorem reachedFrom_cons :
    ReachedFrom cap ips ((x, address) :: rest) host ↔
      host = x ∨ ((address → (ips ++ [x]).toFinset.card < cap) ∧
        ReachedFrom cap (ips.insert x) rest host) := by
  constructor
  · rintro ⟨before, flag, after, hsteps, hbelow⟩
    cases before with
    | nil =>
      rw [List.nil_append, List.cons.injEq, Prod.mk.injEq] at hsteps
      exact Or.inl hsteps.1.1.symm
    | cons first before =>
      rw [List.cons_append, List.cons.injEq] at hsteps
      obtain ⟨rfl, hrest⟩ := hsteps
      refine Or.inr ⟨?_, before, flag, after, hrest, ?_⟩
      · intro haddress
        have hfirst := hbelow [] x before (by rw [haddress]; rfl)
        simpa using hfirst
      · intro earlier y later hbefore
        have hlater := hbelow ((x, address) :: earlier) y later (by rw [hbefore]; rfl)
        rw [toFinset_insert_append]
        exact hlater
  · rintro (rfl | ⟨hfirst, before, flag, after, hrest, hbelow⟩)
    · refine ⟨[], address, rest, rfl, ?_⟩
      intro earlier y later hnil
      exact absurd hnil.symm (List.append_ne_nil_of_right_ne_nil _ (List.cons_ne_nil _ _))
    · refine ⟨(x, address) :: before, flag, after, by rw [hrest]; rfl, ?_⟩
      intro earlier y later hbefore
      cases earlier with
      | nil =>
        rw [List.nil_append, List.cons.injEq, Prod.mk.injEq] at hbefore
        obtain ⟨⟨rfl, haddress⟩, -⟩ := hbefore
        simpa using hfirst haddress
      | cons first earlier =>
        rw [List.cons_append, List.cons.injEq] at hbefore
        obtain ⟨rfl, hbefore⟩ := hbefore
        have hlater := hbelow earlier y later hbefore
        rw [toFinset_insert_append] at hlater
        exact hlater

theorem length_insert_eq (hnodup : ips.Nodup) :
    (ips.insert x).length = (ips ++ [x]).toFinset.card := by
  rw [← toFinset_insert_append, List.append_nil, List.toFinset_card_of_nodup hnodup.insert]

theorem mem_collect (hnodup : ips.Nodup) :
    host ∈ collect cap steps ips ↔ host ∈ ips ∨ ReachedFrom cap ips steps host := by
  induction steps generalizing ips with
  | nil => simp [collect, reachedFrom_nil]
  | cons step rest ih =>
    obtain ⟨x, address⟩ := step
    have hlength := length_insert_eq (x := x) hnodup
    unfold collect
    rw [reachedFrom_cons, ← hlength]
    by_cases hfull : address ∧ cap ≤ (ips.insert x).length
    · have hstop : ¬ (address → (ips.insert x).length < cap) := fun h =>
        absurd (h hfull.1) (not_lt.mpr hfull.2)
      rw [if_pos hfull, List.mem_insert_iff]
      tauto
    · have hgo : address → (ips.insert x).length < cap := fun haddress =>
        lt_of_not_ge fun h => hfull ⟨haddress, h⟩
      rw [if_neg hfull, ih hnodup.insert, List.mem_insert_iff]
      tauto

theorem length_collect (haddresses : ∀ step ∈ steps, step.2 = true) (hnodup : ips.Nodup)
    (hbelow : ips.length < cap) : (collect cap steps ips).length ≤ cap := by
  induction steps generalizing ips with
  | nil => exact hbelow.le
  | cons step rest ih =>
    obtain ⟨x, address⟩ := step
    have haddress : address = true := haddresses _ List.mem_cons_self
    have hgrows : (ips.insert x).length ≤ ips.length + 1 := by
      by_cases hx : x ∈ ips
      · rw [List.length_insert_of_mem hx]
        omega
      · rw [List.length_insert_of_not_mem hx]
    unfold collect
    split
    · omega
    · rename_i hopen
      refine ih (fun step hstep => haddresses step (List.mem_cons_of_mem _ hstep)) hnodup.insert ?_
      exact lt_of_not_ge fun h => hopen ⟨haddress, h⟩

theorem mem_expandTargetIps :
    host ∈ expandTargetIps targets (some cap) ↔ Reached cap targets host := by
  unfold expandTargetIps Reached
  rw [expandLoop_eq, mem_collect List.nodup_nil]
  simp only [List.not_mem_nil, false_or]

theorem reached_of_few (hmem : host ∈ (walk targets).map Prod.fst)
    (hfew : ((walk targets).map Prod.fst).toFinset.card ≤ cap) : Reached cap targets host := by
  obtain ⟨front, back, hsplit, hfirst⟩ := List.eq_append_cons_of_mem hmem
  obtain ⟨before, tail, hwalk, rfl, htail⟩ := List.map_eq_append_iff.mp hsplit
  obtain ⟨⟨_, address⟩, after, rfl, rfl, rfl⟩ := List.map_eq_cons_iff.mp htail
  refine ⟨before, address, after, hwalk, ?_⟩
  rintro earlier x later rfl
  -- The host itself is one of the distinct hosts, and none of those met before it.
  refine lt_of_lt_of_le (Finset.card_lt_card (Finset.ssubset_iff_of_subset ?_ |>.mpr
    ⟨_, List.mem_toFinset.mpr hmem, ?_⟩)) hfew
  · intro text htext
    rw [List.mem_toFinset, List.nil_append] at htext
    rw [List.mem_toFinset, hwalk, List.map_append, List.append_cons, List.map_append]
    exact List.mem_append_left _ (List.mem_append_left _ htext)
  · rw [List.mem_toFinset, List.nil_append]
    intro hearlier
    refine hfirst ?_
    rw [List.append_cons, List.map_append]
    exact List.mem_append_left _ hearlier

end Walk

section Passes

variable {ladder : Ladder} {keeps : Line → Bool} {isdigit : Line → Bool}
  {enabled skipDiscovery : Bool} {targets refreshHosts alive openPorts : List Line} {host : Line}

theorem mem_sortTexts {texts : List Line} : host ∈ sortTexts texts ↔ host ∈ texts :=
  (List.perm_insertionSort _ texts).mem_iff

/-- The hosts handed to the ladder are those reached before the cap. -/
theorem mem_handed :
    host ∈ (hostDiscovery ladder false none targets).handed ↔
      Reached maxPendingHosts targets host := by
  have hmem : host ∈ sortTexts (expandTargetIps targets (some maxPendingHosts)) ↔
      Reached maxPendingHosts targets host := mem_sortTexts.trans mem_expandTargetIps
  rw [← hmem]
  unfold hostDiscovery
  by_cases htargets : targets = []
  · subst htargets
    simp [expandTargetIps, expandLoop, sortTexts]
  · simp only [if_neg htargets, Bool.false_eq_true, if_false]
    split
    · rename_i hnone
      rw [hnone]
    · rfl

theorem not_mem_alive_silent :
    host ∉ (hostDiscovery (fun _ _ => []) false none targets).alive := by
  unfold hostDiscovery
  simp only [Bool.false_eq_true, if_false]
  split
  · exact List.not_mem_nil
  · split <;> exact List.not_mem_nil

theorem mem_refreshAlive (hmem : host ∈ alive) (hkeeps : keeps host = true) :
    host ∉ refreshAlive ladder keeps refreshHosts alive ↔
      host ∈ refreshHosts ∧ host ∉ (hostDiscovery ladder false none refreshHosts).alive := by
  unfold refreshAlive
  by_cases hnone : refreshHosts = []
  · rw [if_pos hnone, hnone]
    simp [hmem]
  · simp only [if_neg hnone, mem_sortTexts, List.mem_dedup, List.mem_filter, List.mem_union_iff,
      decide_eq_true_eq, hmem, hkeeps, and_true, true_and]
    tauto

theorem mem_suspects :
    host ∈ suspects isdigit alive openPorts ↔
      host ∈ alive ∧ host ∉ openPorts.filterMap (endpointHost isdigit) := by
  unfold suspects
  rw [mem_sortTexts, List.mem_dedup, List.mem_filter, decide_eq_true_eq]

theorem mem_verifyAlive (hmem : host ∈ alive) :
    host ∉ verifyAliveWithoutPorts ladder isdigit enabled skipDiscovery alive openPorts ↔
      (enabled = true ∧ skipDiscovery = false) ∧ host ∈ suspects isdigit alive openPorts ∧
        host ∉ (hostDiscovery ladder false none (suspects isdigit alive openPorts)).alive := by
  unfold verifyAliveWithoutPorts
  by_cases hoff : ¬ enabled ∨ skipDiscovery
  · rw [if_pos hoff]
    have hon : ¬ (enabled = true ∧ skipDiscovery = false) := by
      rintro ⟨henabled, hskip⟩
      rcases hoff with hoff | hoff
      · exact hoff henabled
      · rw [hskip] at hoff
        cases hoff
    simp [hmem, hon]
  · have hon : enabled = true ∧ skipDiscovery = false := by
      rw [not_or, not_not, Bool.not_eq_true] at hoff
      exact hoff
    rw [if_neg hoff]
    by_cases hnone : suspects isdigit alive openPorts = []
    · simp [hnone, hmem]
    · simp only [if_neg hnone, mem_sortTexts, List.mem_dedup, List.mem_filter, decide_eq_true_eq,
        hmem, true_and, hon, and_self, mem_suspects, not_or]

/-- What the delta refresh removes was handed to the ladder and not confirmed by it. -/
def RefreshHonest (ladder : Ladder) (keeps : Line → Bool) (refreshHosts alive : List Line) :
    Prop :=
  ∀ host ∈ alive, keeps host = true → host ∉ refreshAlive ladder keeps refreshHosts alive →
    host ∈ (hostDiscovery ladder false none refreshHosts).handed ∧
      host ∉ (hostDiscovery ladder false none refreshHosts).alive

/-- What the verification removes was handed to the ladder and not confirmed by it. -/
def VerifyHonest (ladder : Ladder) (isdigit : Line → Bool) (enabled skipDiscovery : Bool)
    (alive openPorts : List Line) : Prop :=
  let suspected := suspects isdigit alive openPorts
  ∀ host ∈ alive,
    host ∉ verifyAliveWithoutPorts ladder isdigit enabled skipDiscovery alive openPorts →
    host ∈ (hostDiscovery ladder false none suspected).handed ∧
      host ∉ (hostDiscovery ladder false none suspected).alive

theorem refreshHonest_iff :
    (∀ ladder, RefreshHonest ladder keeps refreshHosts alive) ↔
      ∀ host ∈ refreshHosts, host ∈ alive → keeps host = true →
        Reached maxPendingHosts refreshHosts host := by
  constructor
  · intro hhonest host hrefresh hmem hkeeps
    -- A ladder that confirms nobody removes every host of the refresh.
    have hgone : host ∉ refreshAlive (fun _ _ => []) keeps refreshHosts alive :=
      (mem_refreshAlive hmem hkeeps).mpr ⟨hrefresh, not_mem_alive_silent⟩
    exact mem_handed.mp (hhonest _ host hmem hkeeps hgone).1
  · intro hreached ladder host hmem hkeeps hgone
    obtain ⟨hrefresh, hsilent⟩ := (mem_refreshAlive hmem hkeeps).mp hgone
    exact ⟨mem_handed.mpr (hreached host hrefresh hmem hkeeps), hsilent⟩

theorem verifyHonest_iff :
    (∀ ladder, VerifyHonest ladder isdigit enabled skipDiscovery alive openPorts) ↔
      (enabled = true ∧ skipDiscovery = false → ∀ host ∈ suspects isdigit alive openPorts,
        Reached maxPendingHosts (suspects isdigit alive openPorts) host) := by
  constructor
  · intro hhonest hon host hsuspect
    have hmem := (mem_suspects.mp hsuspect).1
    have hgone : host ∉ verifyAliveWithoutPorts (fun _ _ => []) isdigit enabled skipDiscovery
        alive openPorts := (mem_verifyAlive hmem).mpr ⟨hon, hsuspect, not_mem_alive_silent⟩
    exact mem_handed.mp (hhonest _ host hmem hgone).1
  · intro hreached ladder host hmem hgone
    obtain ⟨hon, hsuspect, hsilent⟩ := (mem_verifyAlive hmem).mp hgone
    exact ⟨mem_handed.mpr (hreached hon host hsuspect), hsilent⟩

/-- Neither pass drops a host unprobed exactly where the hosts it probes again are reached before
the cap. -/
theorem probed_iff :
    (∀ ladder, RefreshHonest ladder keeps refreshHosts alive ∧
        VerifyHonest ladder isdigit enabled skipDiscovery alive openPorts) ↔
      (∀ host ∈ refreshHosts, host ∈ alive → keeps host = true →
        Reached maxPendingHosts refreshHosts host) ∧
      (enabled = true ∧ skipDiscovery = false → ∀ host ∈ suspects isdigit alive openPorts,
        Reached maxPendingHosts (suspects isdigit alive openPorts) host) := by
  rw [forall_and, refreshHonest_iff, verifyHonest_iff]

end Passes

section Crowd

variable {hosts : List Line}

theorem addresses_of_walk (hparses : ∀ host ∈ hosts, (ipNetwork (strip host)).isSome) :
    ∀ step ∈ walk hosts, step.2 = true := by
  intro step hstep
  obtain ⟨raw, hraw, hin⟩ := List.mem_flatMap.mp hstep
  obtain ⟨net, hnet⟩ := Option.isSome_iff_exists.mp (hparses raw hraw)
  simp only [hnet] at hin
  split at hin
  · cases hin
  · obtain ⟨host, -, rfl⟩ := List.mem_map.mp hin
    rfl

theorem exists_unreached (hparses : ∀ host ∈ hosts, (ipNetwork (strip host)).isSome)
    (hnodup : hosts.Nodup) (hmany : maxPendingHosts < hosts.length) :
    ∃ host ∈ hosts, ¬ Reached maxPendingHosts hosts host := by
  by_contra hall
  have hsub : hosts ⊆ collect maxPendingHosts (walk hosts) [] := by
    intro host hmem
    by_contra hout
    refine hall ⟨host, hmem, fun hreached => hout ?_⟩
    exact (mem_collect List.nodup_nil).mpr (Or.inr hreached)
  have hle := (hnodup.subperm hsub).length_le
  have hcap := length_collect (addresses_of_walk hparses) List.nodup_nil
    (show ([] : List Line).length < maxPendingHosts by decide)
  omega

theorem parses_printAddress4 {address : ℕ} (h : address < 2 ^ 32) :
    (ipNetwork (strip (printAddress4 address))).isSome := by
  have hread := address4_print h
  have hvisible : ∀ c ∈ printAddress4 address, ResumedBatches.isSpace c = false := by
    intro c hc
    refine ScanScopes.isSpace_of_addressChar ?_
    exact (address4_chars hread c hc).imp_right fun hdigit =>
      Or.inr (isSome_hexDigit_of_decDigit hdigit)
  have hslash : '/' ∉ printAddress4 address := not_mem_printAddress4 h (by decide) (by decide)
  obtain ⟨net, hnet, -⟩ : ∃ net, Network.ofAddress .v4 address 32 none = some net ∧ _ :=
    Network.ofAddress_host h
  rw [ScopeDocuments.strip_of_visible hvisible]
  unfold ipNetwork network4
  rw [List.splitOn_eq_singleton hslash]
  simp only [hread, Option.bind_some, hnet, Option.some_or, Option.isSome_some]

def crowd : List Line := (List.range 65537).map fun k => printAddress4 (10 * 2 ^ 24 + k)

/-- `isdigit` of a text of ASCII characters. -/
def plainDigits (text : Line) : Bool := !text.isEmpty && text.all Char.isDigit

theorem crowd_lt {k : ℕ} (hk : k ∈ List.range 65537) : 10 * 2 ^ 24 + k < 2 ^ 32 := by
  have := List.mem_range.mp hk
  omega

theorem crowd_parses : ∀ host ∈ crowd, (ipNetwork (strip host)).isSome := by
  intro host hmem
  obtain ⟨k, hk, rfl⟩ := List.mem_map.mp hmem
  exact parses_printAddress4 (crowd_lt hk)

theorem crowd_nodup : crowd.Nodup := by
  refine List.Nodup.map_on ?_ List.nodup_range
  intro j hj k hk heq
  have hread := address4_print (crowd_lt hj)
  rw [heq, address4_print (crowd_lt hk), Option.some.injEq] at hread
  omega

theorem length_crowd : crowd.length = 65537 := by
  unfold crowd
  rw [List.length_map, List.length_range]

theorem suspects_crowd (isdigit : Line → Bool) :
    (suspects isdigit crowd []).Perm crowd := by
  refine (List.perm_insertionSort _ _).trans ?_
  have hall : crowd.filter (fun host => host ∉ [].filterMap (endpointHost isdigit)) = crowd :=
    List.filter_eq_self.mpr fun host _ => by simp
  rw [hall, crowd_nodup.dedup]

/-- Where the ladder is silent, a crowd loses a host that was not handed to it, in either pass. -/
theorem crowd_unprobed :
    ¬ RefreshHonest (fun _ _ => []) (fun _ => true) crowd crowd ∧
      ¬ VerifyHonest (fun _ _ => []) plainDigits true false crowd [] := by
  have hmany : maxPendingHosts < crowd.length := by
    rw [length_crowd]
    decide
  constructor
  · intro hhonest
    obtain ⟨host, hmem, hout⟩ := exists_unreached crowd_parses crowd_nodup hmany
    have hgone : host ∉ refreshAlive (fun _ _ => []) (fun _ => true) crowd crowd :=
      (mem_refreshAlive hmem rfl).mpr ⟨hmem, not_mem_alive_silent⟩
    exact hout (mem_handed.mp (hhonest host hmem rfl hgone).1)
  · intro hhonest
    have hperm := suspects_crowd plainDigits
    obtain ⟨host, hsuspect, hout⟩ := exists_unreached
      (fun host hhost => crowd_parses host (hperm.mem_iff.mp hhost))
      (hperm.nodup_iff.mpr crowd_nodup) (by rw [hperm.length_eq]; exact hmany)
    have hmem := hperm.mem_iff.mp hsuspect
    have hgone : host ∉ verifyAliveWithoutPorts (fun _ _ => []) plainDigits true false crowd [] :=
      (mem_verifyAlive hmem).mpr ⟨⟨rfl, rfl⟩, hsuspect, not_mem_alive_silent⟩
    exact hout (mem_handed.mp (hhonest host hmem hgone).1)

end Crowd

end Shapoclyack.ProbedHosts
