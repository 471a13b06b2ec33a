import Mathlib.Data.List.TakeWhile
import Shapoclyack.Library.Blocks
import Shapoclyack.Library.IpAddresses

set_option autoImplicit false

namespace Shapoclyack.Library

inductive Version where
  | v4
  | v6
deriving DecidableEq, Repr

def Version.bits : Version → ℕ
  | .v4 => 32
  | .v6 => 128

def Version.number : Version → ℕ
  | .v4 => 4
  | .v6 => 6

def Version.space (version : Version) : Block := ⟨version.bits, 0⟩

/-- What a zone identifier may follow and be made of. -/
def ZoneAllowed (version : Version) (scopeId : Option (List Char)) : Prop :=
  ∀ zone ∈ scopeId, version = .v6 ∧ zone ≠ [] ∧ '%' ∉ zone ∧ '/' ∉ zone

instance (version : Version) : DecidablePred (ZoneAllowed version)
  | none => isTrue fun _ h => nomatch h
  | some zone => decidable_of_iff (version = .v6 ∧ zone ≠ [] ∧ '%' ∉ zone ∧ '/' ∉ zone)
      ⟨fun h _ hzone => Option.some.inj hzone ▸ h, fun h => h zone rfl⟩

/-- An `IPv4Network` or an `IPv6Network`. -/
structure Network where
  version : Version
  block : Block
  scopeId : Option (List Char)
  within : block ≤ version.space
  zoned : ZoneAllowed version scopeId
deriving DecidableEq

structure Address where
  version : Version
  number : ℕ
deriving DecidableEq

namespace Network

def prefixlen (n : Network) : ℕ := n.version.bits - n.block.height

def networkAddress (n : Network) : ℕ := n.block.first

def Holds (n : Network) (a : Address) : Prop := n.version = a.version ∧ a.number ∈ n.block

instance (n : Network) (a : Address) : Decidable (n.Holds a) :=
  inferInstanceAs (Decidable (_ ∧ _))

/-- `subnet_of`, between networks of one version. Equal addresses of two zones are not ordered,
so a range is not a subnet of one that begins at its own address in another zone. -/
def SubnetOf (n other : Network) : Prop :=
  n.block ≤ other.block ∧ (n.networkAddress = other.networkAddress → n.scopeId = other.scopeId)

instance (n other : Network) : Decidable (n.SubnetOf other) :=
  inferInstanceAs (Decidable (_ ∧ (_ → _)))

/-- `overlaps`, between networks of one version, which leaves the zones out. -/
def Overlaps (n other : Network) : Prop := n.block.Overlaps other.block

instance (n other : Network) : Decidable (n.Overlaps other) :=
  inferInstanceAs (Decidable (Block.Overlaps _ _))

def of? (version : Version) (block : Block) (scopeId : Option (List Char)) : Option Network :=
  if h : block ≤ version.space ∧ ZoneAllowed version scopeId then
    some ⟨version, block, scopeId, h.1, h.2⟩
  else none

/-- The network of an address with its host bits cleared; clearing any drops the zone. -/
def ofAddress (version : Version) (address length : ℕ) (scopeId : Option (List Char)) :
    Option Network :=
  let height := version.bits - length
  of? version ⟨height, address / 2 ^ height⟩ (if address % 2 ^ height = 0 then scopeId else none)

/-- `address_exclude`: what is left of a network when a part of it is taken out, none where it
raises. The halves that it looks for the part among have no zone. -/
def addressExclude (n removed : Network) : Option (List Network) :=
  if ¬ removed.SubnetOf n then none
  else if removed = n then some []
  else if removed.scopeId ≠ none then none
  else some ((n.block.exclude removed.block).filterMap fun piece => of? n.version piece none)

variable {n m : Network} {a : Address}

theorem of?_eq_some {version : Version} {block : Block} {scopeId : Option (List Char)} :
    of? version block scopeId = some n ↔
      n.version = version ∧ n.block = block ∧ n.scopeId = scopeId := by
  rcases n with ⟨version', block', scopeId', within, zoned⟩
  unfold of?
  split
  · simp only [Option.some.injEq, mk.injEq]
    exact ⟨fun h => ⟨h.1.symm, h.2.1.symm, h.2.2.symm⟩,
      fun h => ⟨h.1.symm, h.2.1.symm, h.2.2.symm⟩⟩
  · rename_i hinvalid
    constructor
    · intro h
      cases h
    · rintro ⟨rfl, rfl, rfl⟩
      exact absurd ⟨within, zoned⟩ hinvalid

theorem of?_self (n : Network) : of? n.version n.block n.scopeId = some n :=
  of?_eq_some.mpr ⟨rfl, rfl, rfl⟩

theorem ofAddress_host {version : Version} {address : ℕ} (h : address < 2 ^ version.bits) :
    ∃ n, ofAddress version address version.bits none = some n ∧ n.version = version ∧
      n.networkAddress = address ∧ n.block.height = 0 ∧ n.scopeId = none := by
  have hwithin : (⟨0, address⟩ : Block) ≤ version.space := by
    refine ⟨Nat.zero_le _, ?_⟩
    simp [Block.ancestor, Version.space, Nat.div_eq_of_lt h]
  refine ⟨⟨version, ⟨0, address⟩, none, hwithin, by rintro _ ⟨⟩⟩, ?_, rfl, ?_, rfl, rfl⟩
  · unfold ofAddress
    simp only [Nat.sub_self, pow_zero, Nat.div_one, ite_self]
    exact of?_eq_some.mpr ⟨rfl, rfl, rfl⟩
  · simp [networkAddress, Block.first]

theorem height_le (n : Network) : n.block.height ≤ n.version.bits := n.within.1

theorem prefixlen_le (n : Network) : n.prefixlen ≤ n.version.bits := Nat.sub_le _ _

theorem bits_sub_prefixlen (n : Network) : n.version.bits - n.prefixlen = n.block.height :=
  Nat.sub_sub_self n.height_le

theorem networkAddress_lt (n : Network) : n.networkAddress < 2 ^ n.version.bits := by
  have hmem := Block.mem_of_le n.within n.block.first_mem
  have hdiv : n.block.first / 2 ^ n.version.bits = 0 := hmem
  exact (Nat.div_eq_zero_iff_lt (Nat.two_pow_pos _)).mp hdiv

theorem SubnetOf.refl (n : Network) : n.SubnetOf n := ⟨le_refl _, fun _ => rfl⟩

theorem subnetOf_of_scopeId (h : n.scopeId = m.scopeId) : n.SubnetOf m ↔ n.block ≤ m.block :=
  and_iff_left fun _ => h

theorem holds_of_le (hversion : n.version = m.version) (h : n.block ≤ m.block)
    (ha : n.Holds a) : m.Holds a :=
  ⟨hversion.symm.trans ha.1, Block.mem_of_le h ha.2⟩

theorem SubnetOf.part (h : n.SubnetOf m) {piece : Network} (hle : piece.block ≤ n.block)
    (hscope : piece.scopeId = n.scopeId) : piece.SubnetOf m := by
  refine ⟨hle.trans h.1, fun heq => hscope.trans (h.2 ?_)⟩
  have hpiece := (Block.le_iff_bounds.mp hle).1
  have hn := (Block.le_iff_bounds.mp h.1).1
  exact le_antisymm (hpiece.trans heq.le) hn

theorem overlaps_iff (hversion : n.version = m.version) :
    n.Overlaps m ↔ ∃ a, n.Holds a ∧ m.Holds a := by
  constructor
  · intro h
    rcases Block.overlaps_iff.mp h with ⟨number, hn, hm⟩
    exact ⟨⟨n.version, number⟩, ⟨rfl, hn⟩, ⟨hversion.symm, hm⟩⟩
  · rintro ⟨a, hn, hm⟩
    exact Block.overlaps_of_mem hn.2 hm.2

theorem holds_networkAddress (n : Network) : n.Holds ⟨n.version, n.networkAddress⟩ :=
  ⟨rfl, n.block.first_mem⟩

theorem addressExclude_isSome :
    (n.addressExclude m).isSome ↔ m.SubnetOf n ∧ (m = n ∨ m.scopeId = none) := by
  unfold addressExclude
  by_cases hsubnet : m.SubnetOf n
  · by_cases heq : m = n
    · simp [heq]
    · by_cases hscope : m.scopeId = none
      · simp [hsubnet, heq, hscope]
      · simp [hsubnet, heq, hscope]
  · simp [hsubnet]

theorem mem_addressExclude {pieces : List Network} (h : n.addressExclude m = some pieces)
    {piece : Network} :
    piece ∈ pieces ↔ piece.block ∈ n.block.exclude m.block ∧ piece.version = n.version ∧
      piece.scopeId = none := by
  unfold addressExclude at h
  split at h
  · cases h
  · split at h
    · rename_i heq
      obtain rfl := Option.some.inj h
      simp [heq, Block.exclude, Block.excludeLoop]
    · split at h
      · cases h
      · obtain rfl := Option.some.inj h
        rw [List.mem_filterMap]
        constructor
        · rintro ⟨block, hblock, hof⟩
          rcases of?_eq_some.mp hof with ⟨hversion, heq, hscope⟩
          exact ⟨heq ▸ hblock, hversion, hscope⟩
        · rintro ⟨hblock, hversion, hscope⟩
          exact ⟨piece.block, hblock, of?_eq_some.mpr ⟨hversion, rfl, hscope⟩⟩

theorem subnetOf_of_addressExclude {pieces : List Network}
    (h : n.addressExclude m = some pieces) : m.SubnetOf n :=
  (addressExclude_isSome.mp (Option.isSome_of_eq_some h)).1

theorem holds_addressExclude {pieces : List Network} (h : n.addressExclude m = some pieces)
    (hversion : m.version = n.version) :
    (∃ piece ∈ pieces, piece.Holds a) ↔ n.Holds a ∧ ¬ m.Holds a := by
  have hle : m.block ≤ n.block := (subnetOf_of_addressExclude h).1
  constructor
  · rintro ⟨piece, hpiece, hv, ha⟩
    rcases (mem_addressExclude h).mp hpiece with ⟨hblock, hpv, -⟩
    rcases (Block.mem_exclude hle).mp ⟨piece.block, hblock, ha⟩ with ⟨hin, hout⟩
    exact ⟨⟨hpv.symm.trans hv, hin⟩, fun hm => hout hm.2⟩
  · rintro ⟨⟨hv, hin⟩, hout⟩
    have hout' : a.number ∉ m.block := fun hm => hout ⟨hversion.trans hv, hm⟩
    rcases (Block.mem_exclude hle).mpr ⟨hin, hout'⟩ with ⟨block, hblock, ha⟩
    have hwithin : block ≤ n.version.space := (Block.le_of_mem_exclude hle hblock).trans n.within
    refine ⟨⟨n.version, block, none, hwithin, fun _ hz => nomatch hz⟩, ?_, hv, ha⟩
    exact (mem_addressExclude h).mpr ⟨hblock, rfl, rfl⟩

end Network

section Texts

/-- `_prefix_from_prefix_string`. -/
def prefixString (bits : ℕ) (text : List Char) : Option ℕ :=
  (numeral 10 decDigit text).filter (· ≤ bits)

/-- `_prefix_from_ip_int`: the length of the prefix a mask keeps. -/
def prefixOfMask (mask : ℕ) : Option ℕ :=
  (List.range 33).find? fun length => mask = 2 ^ 32 - 2 ^ (32 - length)

/-- What follows the slash of an IPv4 network: a length, a netmask or a hostmask. -/
def netmask4 (text : List Char) : Option ℕ :=
  (prefixString 32 text).or <| (address4 text).bind fun mask =>
    (prefixOfMask mask).or (prefixOfMask (2 ^ 32 - 1 - mask))

def network4 (text : List Char) : Option Network :=
  match text.splitOn '/' with
  | [address] => (address4 address).bind fun a => Network.ofAddress .v4 a 32 none
  | [address, mask] => (address4 address).bind fun a => (netmask4 mask).bind fun length =>
      Network.ofAddress .v4 a length none
  | _ => none

/-- `_split_scope_id`: an address and its zone. -/
def splitScopeId (text : List Char) : Option (List Char × Option (List Char)) :=
  match text.dropWhile (· ≠ '%') with
  | [] => some (text, none)
  | _ :: zone =>
    if zone = [] ∨ '%' ∈ zone then none else some (text.takeWhile (· ≠ '%'), some zone)

def network6 (text : List Char) : Option Network :=
  match text.splitOn '/' with
  | [address] => (splitScopeId address).bind fun split => (address6 split.1).bind fun a =>
      Network.ofAddress .v6 a 128 split.2
  | [address, mask] => (splitScopeId address).bind fun split => (address6 split.1).bind fun a =>
      (prefixString 128 mask).bind fun length => Network.ofAddress .v6 a length split.2
  | _ => none

/-- `ip_network(text, strict=False)`, none where it raises. -/
def ipNetwork (text : List Char) : Option Network := (network4 text).or (network6 text)

def printAddress : Version → ℕ → List Char
  | .v4 => printAddress4
  | .v6 => printAddress6

def printScopeId : Option (List Char) → List Char
  | none => []
  | some zone => '%' :: zone

/-- `str` of a network. -/
def Network.print (n : Network) : List Char :=
  printAddress n.version n.networkAddress ++ printScopeId n.scopeId ++
    '/' :: Nat.toDigits 10 n.prefixlen

variable {n : Network}

theorem prefixString_toDigits {bits length : ℕ} (h : length ≤ bits) :
    prefixString bits (Nat.toDigits 10 length) = some length := by
  unfold prefixString
  rw [numeral_toDigits (by decide) decDigit_digitChar]
  simp [h]

theorem ofAddress_self (n : Network) :
    Network.ofAddress n.version n.networkAddress n.prefixlen n.scopeId = some n := by
  have hpos : 0 < 2 ^ n.block.height := Nat.two_pow_pos _
  unfold Network.ofAddress
  simp only [n.bits_sub_prefixlen]
  have hdiv : n.networkAddress / 2 ^ n.block.height = n.block.index :=
    Nat.mul_div_cancel _ hpos
  have hmod : n.networkAddress % 2 ^ n.block.height = 0 := Nat.mul_mod_left _ _
  rw [hdiv, if_pos hmod]
  exact n.of?_self

theorem splitOn_slash {address : List Char} (h : '/' ∉ address) (length : ℕ) :
    (address ++ '/' :: Nat.toDigits 10 length).splitOn '/' =
      [address, Nat.toDigits 10 length] := by
  rw [List.splitOn_append_cons_self_of_not_mem h,
    List.splitOn_eq_singleton (not_mem_toDigits (by decide))]

theorem not_mem_printAddress6 {address : ℕ} {c : Char} (hcolon : c ≠ ':')
    (hdigit : hexDigit c = none) : c ∉ printAddress6 address := by
  intro hmem
  rcases printAddress6_chars hmem with h | h
  · exact hcolon h
  · rw [hdigit] at h
    cases h

theorem not_mem_printAddress4 {address : ℕ} (h : address < 2 ^ 32) {c : Char} (hdot : c ≠ '.')
    (hdigit : decDigit c = none) : c ∉ printAddress4 address := by
  intro hmem
  rcases address4_chars (address4_print h) c hmem with hc | hc
  · exact hdot hc
  · rw [hdigit] at hc
    cases hc

theorem address4_of_colon {text : List Char} (h : ':' ∈ text) : address4 text = none := by
  cases hread : address4 text with
  | none => rfl
  | some a =>
    rcases address4_chars hread ':' h with hc | hc
    · exact absurd hc (by decide)
    · exact absurd hc (by decide)

theorem splitScopeId_print {address : List Char} (haddress : '%' ∉ address)
    {scopeId : Option (List Char)} (hzone : ZoneAllowed .v6 scopeId) :
    splitScopeId (address ++ printScopeId scopeId) = some (address, scopeId) := by
  have hkeep : ∀ c ∈ address, decide (c ≠ '%') = true := fun c hc =>
    decide_eq_true fun heq => haddress (heq ▸ hc)
  unfold splitScopeId
  cases scopeId with
  | none =>
    have hdrop : address.dropWhile (fun c => decide (c ≠ '%')) = [] :=
      List.dropWhile_eq_nil_iff.mpr hkeep
    simp only [printScopeId, List.append_nil, hdrop]
  | some zone =>
    rcases hzone zone rfl with ⟨-, hne, hpercent, -⟩
    have hdrop : (address ++ '%' :: zone).dropWhile (fun c => decide (c ≠ '%')) = '%' :: zone := by
      rw [List.dropWhile_append_of_pos hkeep]
      rfl
    have htake : (address ++ '%' :: zone).takeWhile (fun c => decide (c ≠ '%')) = address := by
      rw [List.takeWhile_append_of_pos hkeep]
      simp
    simp only [printScopeId, hdrop, htake]
    rw [if_neg (by simp [hne, hpercent])]

theorem network4_print (hversion : n.version = .v4) : network4 n.print = some n := by
  have hscope : n.scopeId = none := by
    cases h : n.scopeId with
    | none => rfl
    | some zone => exact absurd ((n.zoned zone h).1.symm.trans hversion) (by decide)
  have hlt : n.networkAddress < 2 ^ 32 := by
    have := n.networkAddress_lt
    rwa [hversion] at this
  have hlength : n.prefixlen ≤ 32 := by
    have := n.prefixlen_le
    rwa [hversion] at this
  have hprint : n.print = printAddress4 n.networkAddress ++ '/' :: Nat.toDigits 10 n.prefixlen := by
    unfold Network.print
    rw [hversion, hscope]
    simp [printAddress, printScopeId]
  have hmask : netmask4 (Nat.toDigits 10 n.prefixlen) = some n.prefixlen := by
    unfold netmask4
    rw [prefixString_toDigits hlength, Option.some_or]
  unfold network4
  rw [hprint, splitOn_slash (not_mem_printAddress4 hlt (by decide) (by decide))]
  simp only [address4_print hlt, hmask, Option.bind_some]
  rw [← hversion, ← hscope]
  exact ofAddress_self n

theorem network6_print (hversion : n.version = .v6) :
    network4 n.print = none ∧ network6 n.print = some n := by
  have hlt : n.networkAddress < 2 ^ 128 := by
    have := n.networkAddress_lt
    rwa [hversion] at this
  have hlength : n.prefixlen ≤ 128 := by
    have := n.prefixlen_le
    rwa [hversion] at this
  have hzone : ZoneAllowed .v6 n.scopeId := hversion ▸ n.zoned
  have hprint : n.print = (printAddress6 n.networkAddress ++ printScopeId n.scopeId) ++
      '/' :: Nat.toDigits 10 n.prefixlen := by
    unfold Network.print
    rw [hversion]
    rfl
  have hslash : '/' ∉ printAddress6 n.networkAddress ++ printScopeId n.scopeId := by
    intro hmem
    rcases List.mem_append.mp hmem with hmem | hmem
    · exact not_mem_printAddress6 (by decide) (by decide) hmem
    · cases hscope : n.scopeId with
      | none => simp [hscope, printScopeId] at hmem
      | some zone =>
        rw [hscope] at hmem
        rcases List.mem_cons.mp hmem with heq | hmem
        · exact absurd heq (by decide)
        · exact (hzone zone hscope).2.2.2 hmem
  have hcolon : ':' ∈ printAddress6 n.networkAddress ++ printScopeId n.scopeId :=
    List.mem_append_left _ (colon_mem_printAddress6 _)
  rw [hprint]
  constructor
  · unfold network4
    rw [splitOn_slash hslash]
    simp only [address4_of_colon hcolon, Option.bind_none]
  · unfold network6
    rw [splitOn_slash hslash]
    simp only [splitScopeId_print (not_mem_printAddress6 (by decide) (by decide)) hzone,
      address6_print hlt, prefixString_toDigits hlength, Option.bind_some]
    rw [← hversion]
    exact ofAddress_self n

/-- A network is read back from its text. -/
theorem ipNetwork_print (n : Network) : ipNetwork n.print = some n := by
  unfold ipNetwork
  cases hversion : n.version with
  | v4 => rw [network4_print hversion, Option.some_or]
  | v6 => rw [(network6_print hversion).1, (network6_print hversion).2, Option.none_or]

theorem printAddress_ne_nil (n : Network) : printAddress n.version n.networkAddress ≠ [] := by
  have hlt := n.networkAddress_lt
  cases hversion : n.version with
  | v4 =>
    intro hnil
    rw [hversion] at hlt
    have hread := address4_print hlt
    rw [show printAddress4 n.networkAddress = [] from hnil] at hread
    exact absurd hread (by simp [address4])
  | v6 => exact List.ne_nil_of_mem (colon_mem_printAddress6 n.networkAddress)

theorem printAddress_chars {n : Network} {c : Char}
    (hc : c ∈ printAddress n.version n.networkAddress) :
    c = '.' ∨ c = ':' ∨ (hexDigit c).isSome := by
  have hlt := n.networkAddress_lt
  cases hversion : n.version with
  | v4 =>
    rw [hversion] at hc hlt
    exact (address4_chars (address4_print hlt) c hc).imp_right fun h =>
      .inr (isSome_hexDigit_of_decDigit h)
  | v6 =>
    rw [hversion] at hc
    exact .inr (printAddress6_chars hc)

theorem print_head (n : Network) :
    ∃ c rest, n.print = c :: rest ∧ (c = '.' ∨ c = ':' ∨ (hexDigit c).isSome) := by
  rcases List.exists_cons_of_ne_nil (printAddress_ne_nil n) with ⟨c, rest, heq⟩
  refine ⟨c, rest ++ printScopeId n.scopeId ++ '/' :: Nat.toDigits 10 n.prefixlen, ?_, ?_⟩
  · unfold Network.print
    rw [heq]
    simp
  · exact printAddress_chars (heq ▸ List.mem_cons_self)

theorem print_last (n : Network) : ∃ front c, n.print = front ++ [c] ∧ (decDigit c).isSome := by
  rcases List.eq_nil_or_concat (Nat.toDigits 10 n.prefixlen) with hnil | ⟨front, c, heq⟩
  · exact absurd hnil Nat.toDigits_ne_nil
  · refine ⟨printAddress n.version n.networkAddress ++ printScopeId n.scopeId ++ '/' :: front, c,
      ?_, ?_⟩
    · unfold Network.print
      rw [heq]
      simp
    · have hmem : c ∈ Nat.toDigits 10 n.prefixlen := by simp [heq]
      exact numeral_chars (numeral_toDigits (by decide) decDigit_digitChar _) c hmem

theorem print_injective {n m : Network} (h : n.print = m.print) : n = m := by
  have hread := ipNetwork_print n
  rw [h, ipNetwork_print m] at hread
  exact (Option.some.inj hread).symm

end Texts

end Shapoclyack.Library
