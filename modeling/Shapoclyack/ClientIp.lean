import Shapoclyack.EvrPrinting
import Shapoclyack.Library.IpNetworks

set_option autoImplicit false

namespace Shapoclyack.ClientIp

open Library
open ResumedBatches (isSpace strip)
open EvrPrinting (stripped_strip strip_of_stripped)

section Addresses

/-- `ip_address(text)`, none where it raises. -/
def ipAddress (text : List Char) : Option Address :=
  ((address4 text).map fun number => ⟨.v4, number⟩).or
    (if '/' ∈ text then none
    else (splitScopeId text).bind fun split =>
      (address6 split.1).map fun number => ⟨.v6, number⟩)

/-- `parse_trusted_proxies` of a comma-separated text. -/
def parseTrustedProxies (raw : List Char) : List Network :=
  (((raw.splitOn ',').map strip).filter (· ≠ [])).filterMap ipNetwork

def isTrusted (address : List Char) (networks : List Network) : Bool :=
  (ipAddress address).any fun parsed => networks.any fun network => decide (network.Holds parsed)

-- `find` answers -1 where there is no closing bracket, and never 0 behind an opening one.
def stripPort (value : List Char) : List Char :=
  let cleaned := strip value
  if cleaned.head? = some '[' then
    if ']' ∈ cleaned then cleaned.tail.takeWhile (· ≠ ']') else cleaned
  else if cleaned.count ':' = 1 then cleaned.takeWhile (· ≠ ':')
  else cleaned

def maxForwardedHops : ℕ := 32

def unknown : List Char := "unknown".toList

/-- The walk over the hops, the nearest one first; a hop that is no address ends it. -/
def walk (trustedProxies : List Network) : List (List Char) → Option (List Char)
  | [] => none
  | hop :: further =>
    if isTrusted (stripPort hop) trustedProxies then walk trustedProxies further
    else if (ipAddress (stripPort hop)).isSome then some (stripPort hop)
    else none

def hopsOf (forwardedFor : List Char) : List (List Char) :=
  ((forwardedFor.splitOn ',').map strip).filter (· ≠ [])

def resolveClientIp (peer forwardedFor : Option (List Char)) (trustedProxies : List Network) :
    List Char :=
  let peerIp := strip (peer.getD [])
  let alone := if peerIp = [] then unknown else peerIp
  if trustedProxies = [] ∨ isTrusted peerIp trustedProxies = false then alone
  else
    let hops := hopsOf (forwardedFor.getD [])
    (walk trustedProxies (hops.drop (hops.length - maxForwardedHops)).reverse).getD alone

end Addresses

section Spellings

variable {address text : List Char}

/-- How a proxy writes an address: bare, with a port, or in brackets with or without one. -/
inductive Spelled (address : List Char) : List Char → Prop where
  | bare : Spelled address address
  | ported (port : List Char) (haddress : ':' ∉ address) (hport : ':' ∉ port) :
    Spelled address (address ++ ':' :: port)
  | bracketed (rest : List Char) (haddress : ']' ∉ address) :
    Spelled address ('[' :: address ++ ']' :: rest)

/-- A part of a comma-separated header, with the spaces around it, that spells an address. -/
structure Names (address part : List Char) : Prop where
  whole : ',' ∉ part
  spelled : Spelled address (strip part)

/-- What keeps the spellings of an address apart. -/
structure Separable (address : List Char) : Prop where
  filled : address ≠ []
  unbracketed : address.head? ≠ some '['
  colons : ':' ∉ address ∨ 2 ≤ address.count ':'

theorem splitScopeId_prefix {address : List Char} {zone : Option (List Char)}
    (h : splitScopeId text = some (address, zone)) : address <+: text := by
  unfold splitScopeId at h
  split at h
  · rw [(Prod.mk.inj (Option.some.inj h)).1]
  · split_ifs at h
    rw [← (Prod.mk.inj (Option.some.inj h)).1]
    exact List.takeWhile_prefix _

theorem separable_of_address (h : (ipAddress address).isSome) : Separable address := by
  obtain ⟨parsed, hparsed⟩ := Option.isSome_iff_exists.mp h
  unfold ipAddress at hparsed
  rcases Option.or_eq_some_iff.mp hparsed with h4 | ⟨_, h6⟩
  · obtain ⟨n, hn, _⟩ := Option.map_eq_some_iff.mp h4
    have hchars := address4_chars hn
    refine ⟨?_, ?_, .inl ?_⟩
    · rintro rfl
      simp [address4] at hn
    · intro hhead
      have hbracket := hchars '[' (List.mem_of_head? hhead)
      revert hbracket
      decide
    · intro hcolon
      have hbracket := hchars ':' hcolon
      revert hbracket
      decide
  · split_ifs at h6
    obtain ⟨⟨bare, zone⟩, hsplit, hmap⟩ := Option.bind_eq_some_iff.mp h6
    obtain ⟨n, hn, _⟩ := Option.map_eq_some_iff.mp hmap
    obtain ⟨rest, rfl⟩ := splitScopeId_prefix hsplit
    have hcount : 2 ≤ bare.count ':' := by
      have hlength := length_splitOn ':' bare
      dsimp only at hn
      unfold address6 at hn
      split at hn
      · cases hn
      · omega
    have hfilled : bare ≠ [] := by
      rintro rfl
      simp at hcount
    refine ⟨by simp [hfilled], ?_, .inr ?_⟩
    · intro hhead
      rw [List.head?_append_of_ne_nil _ hfilled] at hhead
      have hbracket := address6_chars hn '[' (List.mem_of_head? hhead)
      revert hbracket
      decide
    · rw [List.count_append]
      omega

theorem strip_strip (text : List Char) : strip (strip text) = strip text :=
  strip_of_stripped (stripped_strip text)

theorem stripPort_spelled (h : Separable address) (hspelled : Spelled address (strip text)) :
    stripPort (strip text) = address := by
  unfold stripPort
  rw [strip_strip]
  generalize strip text = spelling at hspelled
  dsimp only
  cases hspelled with
  | bare =>
    rw [if_neg h.unbracketed, if_neg]
    intro hone
    rcases h.colons with hnone | htwo
    · rw [List.count_eq_zero.mpr hnone] at hone
      omega
    · omega
  | ported port haddress hport =>
    have hhead : (address ++ ':' :: port).head? ≠ some '[' := by
      rw [List.head?_append_of_ne_nil _ h.filled]
      exact h.unbracketed
    have hone : (address ++ ':' :: port).count ':' = 1 := by
      rw [List.count_append, List.count_cons_self, List.count_eq_zero.mpr haddress,
        List.count_eq_zero.mpr hport]
    rw [if_neg hhead, if_pos hone]
    rw [List.takeWhile_append_of_pos]
    · simp
    · intro c hc
      exact decide_eq_true fun hcolon : c = ':' => haddress (hcolon ▸ hc)
  | bracketed rest haddress =>
    have hmem : ']' ∈ '[' :: address ++ ']' :: rest := by simp
    rw [if_pos (by rfl), if_pos hmem]
    change (address ++ ']' :: rest).takeWhile _ = address
    rw [List.takeWhile_append_of_pos]
    · simp
    · intro c hc
      exact decide_eq_true fun hbracket : c = ']' => haddress (hbracket ▸ hc)

end Spellings

section Walk

variable {trustedProxies : List Network}

def TrustedHop (trustedProxies : List Network) (part : List Char) : Prop :=
  ∃ address, isTrusted address trustedProxies = true ∧ Names address part

/-- What the proxies appended: the address the outermost of them saw, and the hops between. -/
structure Appended (trustedProxies : List Network) (address : List Char)
    (chain : List (List Char)) : Prop where
  valid : (ipAddress address).isSome
  outside : isTrusted address trustedProxies = false
  parts : ∃ seen hops, chain = seen :: hops ∧ Names address seen ∧
    hops.length < maxForwardedHops ∧ ∀ hop ∈ hops, TrustedHop trustedProxies hop

def header (supplied : Option (List Char)) (chain : List (List Char)) : List Char :=
  [','].intercalate (supplied.toList ++ chain)

theorem isSome_of_trusted {address : List Char} (h : isTrusted address trustedProxies = true) :
    (ipAddress address).isSome := by
  unfold isTrusted at h
  cases hparsed : ipAddress address with
  | none => simp [hparsed] at h
  | some parsed => rfl

theorem walk_trusted (hops further : List (List Char))
    (h : ∀ hop ∈ hops, isTrusted (stripPort hop) trustedProxies = true) :
    walk trustedProxies (hops ++ further) = walk trustedProxies further := by
  induction hops with
  | nil => rfl
  | cons hop hops ih =>
    rw [List.cons_append, walk, if_pos (h hop (by simp))]
    exact ih fun other hother => h other (by simp [hother])

theorem hopsOf_header (supplied : Option (List Char)) {chain : List (List Char)}
    (hne : chain ≠ []) (hwhole : ∀ part ∈ chain, ',' ∉ part)
    (hfilled : ∀ part ∈ chain, strip part ≠ []) :
    ∃ front, hopsOf (header supplied chain) = front ++ chain.map strip := by
  have hchain : ((chain.map strip).filter (· ≠ [])) = chain.map strip := by
    refine List.filter_eq_self.mpr fun hop hhop => ?_
    obtain ⟨part, hpart, rfl⟩ := List.mem_map.mp hhop
    simpa using hfilled part hpart
  unfold hopsOf header
  cases supplied with
  | none =>
    refine ⟨[], ?_⟩
    rw [Option.toList_none, List.nil_append, List.splitOn_intercalate ',' hwhole hne, hchain]
    rfl
  | some text =>
    obtain ⟨first, rest, rfl⟩ := List.exists_cons_of_ne_nil hne
    refine ⟨((text.splitOn ',').map strip).filter (· ≠ []), ?_⟩
    rw [Option.toList_some, List.singleton_append, List.intercalate_cons_cons,
      List.append_assoc, List.singleton_append, List.splitOn_append_cons_self,
      List.splitOn_intercalate ',' hwhole (List.cons_ne_nil _ _), List.map_append,
      List.filter_append, hchain]

theorem spelled_ne_nil {address text : List Char} (h : Separable address)
    (hspelled : Spelled address text) : text ≠ [] := by
  cases hspelled with
  | bare => exact h.filled
  | ported port haddress hport => simp
  | bracketed rest haddress => simp

/-- The walk passes the proxies' hops and ends at the address the outermost proxy saw. -/
theorem walk_appended {address : List Char} {chain : List (List Char)}
    (h : Appended trustedProxies address chain) (supplied : Option (List Char)) :
    walk trustedProxies ((hopsOf (header supplied chain)).drop
      ((hopsOf (header supplied chain)).length - maxForwardedHops)).reverse = some address := by
  obtain ⟨seen, hops, rfl, hseen, hshort, hhops⟩ := h.parts
  have haddress := separable_of_address h.valid
  have hnamed : ∀ part ∈ seen :: hops, ∃ named, Separable named ∧ Names named part := by
    intro part hpart
    rcases List.mem_cons.mp hpart with rfl | hlater
    · exact ⟨address, haddress, hseen⟩
    · obtain ⟨named, htrusted, hnames⟩ := hhops part hlater
      exact ⟨named, separable_of_address (isSome_of_trusted htrusted), hnames⟩
  obtain ⟨front, hfront⟩ := hopsOf_header supplied (List.cons_ne_nil seen hops)
    (fun part hpart => by
      obtain ⟨_, _, hnames⟩ := hnamed part hpart
      exact hnames.whole)
    (fun part hpart => by
      obtain ⟨_, hseparable, hnames⟩ := hnamed part hpart
      exact spelled_ne_nil hseparable hnames.spelled)
  have hkept : front.length + ((seen :: hops).map strip).length - maxForwardedHops ≤
      front.length := by
    rw [List.length_map, List.length_cons]
    omega
  have hpassed : ∀ hop ∈ (hops.map strip).reverse,
      isTrusted (stripPort hop) trustedProxies = true := by
    intro hop hhop
    obtain ⟨part, hpart, rfl⟩ := List.mem_map.mp (List.mem_reverse.mp hhop)
    obtain ⟨named, htrusted, hnames⟩ := hhops part hpart
    rw [stripPort_spelled (separable_of_address (isSome_of_trusted htrusted)) hnames.spelled]
    exact htrusted
  rw [hfront, List.length_append, List.drop_append_of_le_length hkept, List.reverse_append,
    List.map_cons, List.reverse_cons, List.append_assoc, walk_trusted _ _ hpassed,
    List.singleton_append, walk, stripPort_spelled haddress hseen.spelled, h.outside]
  simp [h.valid]

/-- Whatever the client sends, a request that came through trusted proxies is attributed to the
address the outermost of them saw, and any other request to its peer. -/
theorem client_chooses_nothing (trustedProxies : List Network) :
    (∀ peer, isTrusted (strip peer) trustedProxies = true →
      ∀ address chain, Appended trustedProxies address chain → ∀ supplied,
        resolveClientIp (some peer) (some (header supplied chain)) trustedProxies = address) ∧
    ∀ peer, isTrusted (strip (peer.getD [])) trustedProxies = false → ∀ forwarded other,
      resolveClientIp peer forwarded trustedProxies =
        resolveClientIp peer other trustedProxies := by
  constructor
  · intro peer hpeer address chain h supplied
    have hsome : trustedProxies ≠ [] := by
      rintro rfl
      cases hparsed : ipAddress (strip peer) <;> simp [isTrusted, hparsed] at hpeer
    unfold resolveClientIp
    dsimp only [Option.getD_some]
    rw [if_neg (by simp [hsome, hpeer]), walk_appended h supplied, Option.getD_some]
  · intro peer hpeer forwarded other
    have halone : trustedProxies = [] ∨
        isTrusted (strip (peer.getD [])) trustedProxies = false := .inr hpeer
    unfold resolveClientIp
    simp only [if_pos halone]

end Walk

section Samples

def loadBalancers : List Network := parseTrustedProxies "10.0.0.0/8, 2001:db8::/32".toList

def clientAddress : List Char := "203.0.113.5".toList

def twoHops : List (List Char) := ["203.0.113.5:41234".toList, " [2001:db8::7]:443".toList]

theorem twoHops_appended : Appended loadBalancers clientAddress twoHops where
  valid := by decide +kernel
  outside := by decide +kernel
  parts := by
    refine ⟨_, _, rfl, ⟨by decide +kernel, ?_⟩, by decide, ?_⟩
    · have hport : strip "203.0.113.5:41234".toList = clientAddress ++ ':' :: "41234".toList := by
        decide +kernel
      rw [hport]
      exact .ported _ (by decide +kernel) (by decide +kernel)
    · intro hop hhop
      rw [List.mem_singleton.mp hhop]
      refine ⟨"2001:db8::7".toList, by decide +kernel, by decide +kernel, ?_⟩
      have hbrackets : strip " [2001:db8::7]:443".toList =
          '[' :: "2001:db8::7".toList ++ ']' :: ":443".toList := by decide +kernel
      rw [hbrackets]
      exact .bracketed _ (by decide +kernel)

theorem client_chooses_nothing_spoofed :
    resolveClientIp (some "10.1.2.3".toList)
        (some (header (some "198.51.100.1, 10.9.9.9".toList) twoHops)) loadBalancers =
      clientAddress ∧
    resolveClientIp (some "198.51.100.1".toList) (some clientAddress) loadBalancers =
      resolveClientIp (some "198.51.100.1".toList) none loadBalancers :=
  ⟨(client_chooses_nothing loadBalancers).1 _ (by decide +kernel) _ _ twoHops_appended _,
    (client_chooses_nothing loadBalancers).2 _ (by decide +kernel) _ _⟩

end Samples

end Shapoclyack.ClientIp
