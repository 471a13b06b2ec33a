import Mathlib.Data.Finset.Max
import Mathlib.Data.List.Sort
import Mathlib.Data.Set.Card
import Mathlib.Order.Interval.Finset.Nat
import Shapoclyack.Library.Blocks

set_option autoImplicit false

namespace Shapoclyack.Library.Block

variable {a top : ℕ} {b c d : Block} {blocks : List Block}

def Covers (blocks : List Block) (a : ℕ) : Prop := ∃ b ∈ blocks, a ∈ b

instance (blocks : List Block) (a : ℕ) : Decidable (Covers blocks a) :=
  inferInstanceAs (Decidable (∃ b ∈ blocks, a ∈ b))

def supernet (top : ℕ) (b : Block) : Block :=
  if b.height < top then b.ancestor (b.height + 1) else b

def Before (b c : Block) : Prop := b.first < c.first ∨ b.first = c.first ∧ c.height ≤ b.height

instance : DecidableRel Before := fun _ _ => inferInstanceAs (Decidable (_ ∨ _))

/-- The blocks kept at each supernet when one stack of blocks is worked off: the two halves of a
supernet are taken out and the supernet is put on the stack. -/
def mergeLoop (top : ℕ) : ℕ → List Block → List (Block × Block) → List (Block × Block)
  | 0, _, subnets => subnets
  | _ + 1, [], subnets => subnets
  | fuel + 1, net :: toMerge, subnets =>
    match subnets.lookup (net.supernet top) with
    | none => mergeLoop top fuel toMerge ((net.supernet top, net) :: subnets)
    | some existing =>
      if existing = net then mergeLoop top fuel toMerge subnets
      else mergeLoop top fuel (net.supernet top :: toMerge)
        (subnets.filter (·.1 ≠ net.supernet top))

/-- Leaves out the blocks that end no later than one kept before. -/
def dropSubsumed : Option ℕ → List Block → List Block
  | _, [] => []
  | none, b :: rest => b :: dropSubsumed (some b.last) rest
  | some last, b :: rest =>
    if b.last ≤ last then dropSubsumed (some last) rest else b :: dropSubsumed (some b.last) rest

/-- `collapse_addresses`. -/
def collapse (top : ℕ) (blocks : List Block) : List Block :=
  dropSubsumed none
    (((mergeLoop top (2 * blocks.length) blocks.reverse []).map Prod.snd).insertionSort Before)

section Supernets

theorem covers_nil : ¬ Covers [] a := by
  rintro ⟨b, hb, _⟩
  cases hb

theorem covers_cons : Covers (b :: blocks) a ↔ a ∈ b ∨ Covers blocks a := by
  simp only [Covers, List.mem_cons, exists_eq_or_imp]

theorem covers_perm {others : List Block} (h : blocks.Perm others) :
    Covers blocks a ↔ Covers others a := by
  simp only [Covers, h.mem_iff]

theorem height_supernet (h : b.height < top) : (b.supernet top).height = b.height + 1 := by
  rw [supernet, if_pos h]
  rfl

theorem supernet_self (h : ¬ b.height < top) : b.supernet top = b := if_neg h

theorem le_supernet (top : ℕ) (b : Block) : b ≤ b.supernet top := by
  unfold supernet
  split_ifs
  · exact le_iff_subset.mpr fun a ha => mem_ancestor (Nat.le_succ _) ha
  · exact le_refl b

theorem eq_half (h : b.height < top) : ∃ bit, b = (b.supernet top).half bit := by
  have hindex : (b.supernet top).index = b.index / 2 := by
    rw [supernet, if_pos h]
    simp only [ancestor, Nat.add_sub_cancel_left, pow_one]
  refine ⟨b.index % 2 == 1, ?_⟩
  unfold half
  rw [height_supernet h, hindex, Nat.add_sub_cancel]
  have hdiv := Nat.div_add_mod b.index 2
  have hbit : (b.index % 2 == 1).toNat = b.index % 2 := by
    rcases Nat.mod_two_eq_zero_or_one b.index with hmod | hmod
    · rw [hmod]
      rfl
    · rw [hmod]
      rfl
  rw [hbit, hdiv]

theorem mem_supernet (hsame : b.supernet top = c.supernet top) (hne : b ≠ c) :
    a ∈ b.supernet top ↔ a ∈ b ∨ a ∈ c := by
  by_cases hb : b.height < top
  · by_cases hc : c.height < top
    · obtain ⟨bit, hbit⟩ := eq_half hb
      obtain ⟨other, hother⟩ := eq_half hc
      rw [← hsame] at hother
      have hpos : 0 < (b.supernet top).height := by
        rw [height_supernet hb]
        exact Nat.succ_pos _
      rw [mem_half_or hpos]
      cases bit with
      | false =>
        cases other with
        | false => exact absurd (hbit.trans hother.symm) hne
        | true => rw [← hbit, ← hother]
      | true =>
        cases other with
        | false => rw [← hbit, ← hother, or_comm]
        | true => exact absurd (hbit.trans hother.symm) hne
    · rw [supernet_self hc] at hsame
      rw [hsame]
      refine ⟨Or.inr, fun h => h.elim (fun hmem => ?_) id⟩
      exact mem_of_le (hsame ▸ le_supernet top b) hmem
  · rw [supernet_self hb] at hsame
    rw [supernet_self hb]
    refine ⟨Or.inl, fun h => h.elim id fun hmem => ?_⟩
    exact mem_of_le (hsame ▸ le_supernet top c) hmem

end Supernets

section Merging

/-- Each block is kept at its own supernet, one at each. -/
structure Keyed (top : ℕ) (subnets : List (Block × Block)) : Prop where
  own : ∀ entry ∈ subnets, entry.1 = entry.2.supernet top
  distinct : (subnets.map Prod.fst).Nodup

variable {subnets : List (Block × Block)}

theorem mem_of_lookup {key value : Block} (h : subnets.lookup key = some value) :
    (key, value) ∈ subnets := by
  induction subnets with
  | nil => cases h
  | cons entry rest ih =>
    rw [List.lookup_cons] at h
    by_cases heq : key = entry.1
    · simp only [heq, beq_self_eq_true] at h
      rw [heq, ← Option.some.inj h]
      exact List.mem_cons_self
    · simp only [beq_eq_false_iff_ne.mpr heq] at h
      exact List.mem_cons_of_mem _ (ih h)

theorem lookup_none {key : Block} (h : subnets.lookup key = none) :
    ∀ entry ∈ subnets, entry.1 ≠ key := by
  induction subnets with
  | nil =>
    intro entry hentry
    cases hentry
  | cons first rest ih =>
    rw [List.lookup_cons] at h
    by_cases heq : key = first.1
    · simp only [heq, beq_self_eq_true] at h
      cases h
    · simp only [beq_eq_false_iff_ne.mpr heq] at h
      intro entry hentry
      cases List.mem_cons.mp hentry with
      | inl hfirst =>
        rw [hfirst]
        exact Ne.symm heq
      | inr hrest => exact ih h entry hrest

theorem Keyed.filter (h : Keyed top subnets) (p : Block × Block → Bool) :
    Keyed top (subnets.filter p) :=
  ⟨fun entry hentry => h.own entry (List.mem_of_mem_filter hentry),
    h.distinct.sublist (List.filter_sublist.map Prod.fst)⟩

theorem Keyed.cons {net : Block} (h : Keyed top subnets)
    (hnone : subnets.lookup (net.supernet top) = none) :
    Keyed top ((net.supernet top, net) :: subnets) := by
  refine ⟨fun entry hentry => ?_, List.nodup_cons.mpr ⟨fun hkey => ?_, h.distinct⟩⟩
  · cases List.mem_cons.mp hentry with
    | inl heq => rw [heq]
    | inr hrest => exact h.own entry hrest
  · obtain ⟨entry, hentry, heq⟩ := List.mem_map.mp hkey
    exact lookup_none hnone entry hentry heq

theorem filter_length_lt {key value : Block} (h : subnets.lookup key = some value) :
    (subnets.filter (·.1 ≠ key)).length < subnets.length := by
  have hmem := mem_of_lookup h
  apply Nat.lt_of_le_of_ne (List.length_filter_le _ _)
  intro heq
  have hall := List.length_filter_eq_length_iff.mp heq _ hmem
  simp at hall

theorem mergeLoop_induction {P : Block → Prop}
    (hmerge : ∀ b c, b.supernet top = c.supernet top → b ≠ c → P b → P c → P (b.supernet top))
    (fuel : ℕ) (toMerge : List Block) (hkeyed : Keyed top subnets) (hstack : ∀ b ∈ toMerge, P b)
    (hkept : ∀ entry ∈ subnets, P entry.2) :
    Keyed top (mergeLoop top fuel toMerge subnets) ∧
      ∀ entry ∈ mergeLoop top fuel toMerge subnets, P entry.2 := by
  induction fuel generalizing toMerge subnets with
  | zero => exact ⟨hkeyed, hkept⟩
  | succ fuel ih =>
    cases toMerge with
    | nil => exact ⟨hkeyed, hkept⟩
    | cons net toMerge =>
      have hnet := hstack net List.mem_cons_self
      have hrest : ∀ b ∈ toMerge, P b := fun b hb => hstack b (List.mem_cons_of_mem _ hb)
      rw [mergeLoop]
      cases hlookup : subnets.lookup (net.supernet top) with
      | none =>
        refine ih toMerge (hkeyed.cons hlookup) hrest fun entry hentry => ?_
        cases List.mem_cons.mp hentry with
        | inl heq =>
          rw [heq]
          exact hnet
        | inr hold => exact hkept entry hold
      | some existing =>
        simp only
        by_cases hsame : existing = net
        · rw [if_pos hsame]
          exact ih toMerge hkeyed hrest hkept
        · rw [if_neg hsame]
          have hmem := mem_of_lookup hlookup
          refine ih _ (hkeyed.filter _) (fun b hb => ?_) fun entry hentry =>
            hkept entry (List.mem_of_mem_filter hentry)
          cases List.mem_cons.mp hb with
          | inl heq =>
            rw [heq]
            exact hmerge net existing (hkeyed.own _ hmem) (Ne.symm hsame) hnet (hkept _ hmem)
          | inr hold => exact hrest b hold

theorem covers_mergeLoop (fuel : ℕ) (toMerge : List Block) (hkeyed : Keyed top subnets)
    (hfuel : 2 * toMerge.length + subnets.length ≤ fuel) :
    Covers ((mergeLoop top fuel toMerge subnets).map Prod.snd) a ↔
      Covers toMerge a ∨ Covers (subnets.map Prod.snd) a := by
  induction fuel generalizing toMerge subnets with
  | zero =>
    have hempty : toMerge = [] := List.length_eq_zero_iff.mp (by omega)
    subst hempty
    simp [mergeLoop, covers_nil]
  | succ fuel ih =>
    cases toMerge with
    | nil => simp [mergeLoop, covers_nil]
    | cons net toMerge =>
      rw [List.length_cons] at hfuel
      rw [mergeLoop]
      cases hlookup : subnets.lookup (net.supernet top) with
      | none =>
        simp only
        rw [ih toMerge (hkeyed.cons hlookup) (by rw [List.length_cons]; omega)]
        rw [List.map_cons, covers_cons, covers_cons]
        tauto
      | some existing =>
        simp only
        have hmem := mem_of_lookup hlookup
        by_cases hsame : existing = net
        · rw [if_pos hsame, ih toMerge hkeyed (by omega)]
          have hnet : a ∈ net → Covers (subnets.map Prod.snd) a :=
            fun ha => ⟨net, List.mem_map.mpr ⟨_, hmem, hsame⟩, ha⟩
          rw [covers_cons]
          tauto
        · have hlen := filter_length_lt hlookup
          rw [if_neg hsame, ih _ (hkeyed.filter _) (by rw [List.length_cons]; omega)]
          have hsuper : a ∈ net.supernet top ↔ a ∈ net ∨ a ∈ existing :=
            mem_supernet (hkeyed.own _ hmem) (Ne.symm hsame)
          have hold : Covers (subnets.map Prod.snd) a ↔ a ∈ existing ∨
              Covers ((subnets.filter (·.1 ≠ net.supernet top)).map Prod.snd) a := by
            constructor
            · rintro ⟨b, hb, ha⟩
              obtain ⟨entry, hentry, rfl⟩ := List.mem_map.mp hb
              by_cases hkey : entry.1 = net.supernet top
              · have heq : entry = (net.supernet top, existing) :=
                  List.inj_on_of_nodup_map hkeyed.distinct hentry hmem hkey
                rw [heq] at ha
                exact Or.inl ha
              · have hkept : entry ∈ subnets.filter (·.1 ≠ net.supernet top) :=
                  List.mem_filter.mpr ⟨hentry, decide_eq_true hkey⟩
                exact Or.inr ⟨entry.2, List.mem_map_of_mem hkept, ha⟩
            · rintro (ha | ⟨b, hb, ha⟩)
              · exact ⟨existing, List.mem_map.mpr ⟨_, hmem, rfl⟩, ha⟩
              · obtain ⟨entry, hentry, rfl⟩ := List.mem_map.mp hb
                exact ⟨entry.2, List.mem_map_of_mem (List.mem_of_mem_filter hentry), ha⟩
          rw [hold]
          rw [covers_cons, covers_cons, hsuper]
          tauto

end Merging

section Sorting

instance : Std.Total Before where
  total b c := by
    unfold Before
    omega

instance : IsTrans Block Before where
  trans b c d hb hc := by
    unfold Before at *
    omega

theorem first_le (h : Before b c) : b.first ≤ c.first := h.elim Nat.le_of_lt fun h => h.1.le

theorem not_overlaps_of_lt (h : b.last < c.first) : ¬ b.Overlaps c := by
  intro hover
  obtain ⟨a, hb, hc⟩ := overlaps_iff.mp hover
  have hlow := (mem_iff.mp hb).2
  have hhigh := (mem_iff.mp hc).1
  omega

theorem lt_first (h : Before b c) (hlast : b.last < c.last) : b.last < c.first := by
  by_contra hnot
  have hfirst := first_le h
  have hmem : c.first ∈ b := mem_iff.mpr ⟨hfirst, Nat.not_lt.mp hnot⟩
  cases le_or_le hmem c.first_mem with
  | inl hle =>
    have hbounds := le_iff_bounds.mp hle
    have heq : b.first = c.first := Nat.le_antisymm hfirst hbounds.1
    have hheight : c.height ≤ b.height := h.elim (fun hlt => absurd heq hlt.ne) fun h => h.2
    have hsame := eq_of_le hle (Nat.le_antisymm hle.1 hheight)
    rw [hsame] at hlast
    exact hlast.false
  | inr hle =>
    have hbounds := le_iff_bounds.mp hle
    omega

theorem dropSubsumed_sublist (last : Option ℕ) (blocks : List Block) :
    (dropSubsumed last blocks).Sublist blocks := by
  induction blocks generalizing last with
  | nil =>
    cases last with
    | none => exact List.Sublist.refl _
    | some last => exact List.Sublist.refl _
  | cons b rest ih =>
    cases last with
    | none => exact (ih _).cons_cons b
    | some last =>
      rw [dropSubsumed]
      split_ifs
      · exact (ih _).cons b
      · exact (ih _).cons_cons b

theorem dropSubsumed_spec (hfirst : ∀ c ∈ blocks, Before b c) (hsorted : blocks.Pairwise Before) :
    (Covers (b :: dropSubsumed (some b.last) blocks) a ↔ Covers (b :: blocks) a) ∧
      (b :: dropSubsumed (some b.last) blocks).Pairwise fun p q => p.last < q.first := by
  induction blocks generalizing b with
  | nil => exact ⟨Iff.rfl, List.pairwise_singleton _ _⟩
  | cons c rest ih =>
    have hc := List.pairwise_cons.mp hsorted
    have hbc := hfirst c List.mem_cons_self
    have hrest : ∀ d ∈ rest, Before b d := fun d hd => hfirst d (List.mem_cons_of_mem _ hd)
    rw [dropSubsumed]
    by_cases hdrop : c.last ≤ b.last
    · rw [if_pos hdrop]
      have hspec := ih hrest hc.2
      have hle : c ≤ b := le_iff_bounds.mpr ⟨first_le hbc, hdrop⟩
      have hmem : a ∈ c → a ∈ b := fun ha => mem_of_le hle ha
      refine ⟨?_, hspec.2⟩
      rw [hspec.1, covers_cons, covers_cons, covers_cons]
      tauto
    · rw [if_neg hdrop]
      have hspec := ih hc.1 hc.2
      have hlt := lt_first hbc (Nat.not_le.mp hdrop)
      constructor
      · rw [covers_cons, hspec.1, ← covers_cons]
      · refine List.pairwise_cons.mpr ⟨fun d hd => ?_, hspec.2⟩
        cases List.mem_cons.mp hd with
        | inl heq =>
          rw [heq]
          exact hlt
        | inr hlater =>
          have hin := (dropSubsumed_sublist _ rest).subset hlater
          exact hlt.trans_le (first_le (hc.1 d hin))

theorem merged_sorted (top : ℕ) (blocks : List Block) :
    (((mergeLoop top (2 * blocks.length) blocks.reverse []).map
      Prod.snd).insertionSort Before).Pairwise Before :=
  List.pairwise_insertionSort Before _

theorem keyed_nil (top : ℕ) : Keyed top [] := by
  refine ⟨fun entry hentry => ?_, List.nodup_nil⟩
  cases hentry

theorem dropSubsumed_none (hsorted : blocks.Pairwise Before) :
    (Covers (dropSubsumed none blocks) a ↔ Covers blocks a) ∧
      (dropSubsumed none blocks).Pairwise fun p q => p.last < q.first := by
  cases blocks with
  | nil => exact ⟨Iff.rfl, List.Pairwise.nil⟩
  | cons b rest =>
    have hb := List.pairwise_cons.mp hsorted
    exact dropSubsumed_spec hb.1 hb.2

/-- Collapsing changes no number covered. -/
theorem covers_collapse (top : ℕ) (blocks : List Block) :
    Covers (collapse top blocks) a ↔ Covers blocks a := by
  have hmerged := covers_mergeLoop (a := a) (2 * blocks.length) blocks.reverse (keyed_nil top)
    (by rw [List.length_reverse, List.length_nil]; omega)
  unfold collapse
  rw [(dropSubsumed_none (merged_sorted top blocks)).1,
    covers_perm (List.perm_insertionSort Before _), hmerged, List.map_nil,
    covers_perm (List.reverse_perm blocks)]
  exact or_iff_left covers_nil

theorem collapse_pairwise (top : ℕ) (blocks : List Block) :
    (collapse top blocks).Pairwise fun p q => p.last < q.first :=
  (dropSubsumed_none (a := 0) (merged_sorted top blocks)).2

theorem collapse_disjoint (top : ℕ) (blocks : List Block) :
    (collapse top blocks).Pairwise fun p q => ¬ p.Overlaps q :=
  (collapse_pairwise top blocks).imp not_overlaps_of_lt

theorem collapse_induction {P : Block → Prop}
    (hmerge : ∀ b c, b.supernet top = c.supernet top → b ≠ c → P b → P c → P (b.supernet top))
    (hblocks : ∀ b ∈ blocks, P b) : ∀ b ∈ collapse top blocks, P b := by
  intro b hb
  have hin := (dropSubsumed_sublist none _).subset hb
  rw [List.mem_insertionSort] at hin
  obtain ⟨entry, hentry, rfl⟩ := List.mem_map.mp hin
  have hkept := mergeLoop_induction hmerge (2 * blocks.length) blocks.reverse (keyed_nil top)
    (fun b hb => hblocks b (List.mem_reverse.mp hb)) (fun entry hentry => by cases hentry)
  exact hkept.2 entry hentry

theorem collapse_no_siblings (hb : b ∈ collapse top blocks) (hc : c ∈ collapse top blocks)
    (hsame : b.supernet top = c.supernet top) : b = c := by
  have hkeyed := (@mergeLoop_induction top _ (fun _ => True)
    (fun _ _ _ _ _ _ => trivial) (2 * blocks.length) blocks.reverse (keyed_nil top)
    (fun _ _ => trivial) (fun _ _ => trivial)).1
  have hin (d : Block) (hd : d ∈ collapse top blocks) :
      ∃ entry ∈ mergeLoop top (2 * blocks.length) blocks.reverse [], entry.2 = d := by
    have hin := (dropSubsumed_sublist none _).subset hd
    rw [List.mem_insertionSort] at hin
    exact List.mem_map.mp hin
  obtain ⟨p, hp, rfl⟩ := hin b hb
  obtain ⟨q, hq, rfl⟩ := hin c hc
  have hkey : p.1 = q.1 := by rw [hkeyed.own p hp, hkeyed.own q hq, hsame]
  exact congrArg Prod.snd (List.inj_on_of_nodup_map hkeyed.distinct hp hq hkey)

end Sorting

section Maximal

/-- A block all of whose numbers are covered and that no greater such block has within it. -/
def Maximal (blocks : List Block) (b : Block) : Prop :=
  (∀ a ∈ b, Covers blocks a) ∧ ∀ c, (∀ a ∈ c, Covers blocks a) → b ≤ c → c = b

/-- Blocks of one space that lie apart, no two of which make up a supernet. -/
structure Canonical (top : ℕ) (blocks : List Block) : Prop where
  within : ∀ b ∈ blocks, b.height ≤ top
  disjoint : blocks.Pairwise fun p q => ¬ p.Overlaps q
  unpaired : ∀ b ∈ blocks, ∀ c ∈ blocks, b.supernet top = c.supernet top → b = c

theorem eq_of_overlaps (hdisjoint : blocks.Pairwise fun p q => ¬ p.Overlaps q)
    (hb : b ∈ blocks) (hc : c ∈ blocks) (h : b.Overlaps c) : b = c := by
  by_contra hne
  have hsymm : Std.Symm fun p q : Block => ¬ p.Overlaps q :=
    ⟨fun p q hpq hqp => hpq (overlaps_comm.mp hqp)⟩
  exact hdisjoint.forall hb hc hne h

theorem supernet_le (h : b ≤ c) (hlt : b.height < c.height) (htop : c.height ≤ top) :
    b.supernet top ≤ c := by
  have hheight := height_supernet (Nat.lt_of_lt_of_le hlt htop)
  apply le_of_mem (mem_of_le (le_supernet top b) b.first_mem) (mem_of_le h b.first_mem)
  omega

theorem Canonical.maximal (h : Canonical top blocks) (hb : b ∈ blocks)
    (htop : ∀ c : Block, (∀ a ∈ c, Covers blocks a) → c.height ≤ top) : Maximal blocks b := by
  refine ⟨fun a ha => ⟨b, hb, ha⟩, fun c hcovered hle => ?_⟩
  by_contra hne
  -- The least block within `c` has a sibling, which is covered by one no less.
  obtain ⟨d, ⟨hd, hdc⟩, hleast⟩ := WellFounded.has_min
    (InvImage.wf Block.height (wellFounded_lt (α := ℕ))) { d | d ∈ blocks ∧ d ≤ c } ⟨b, hb, hle⟩
  have hdne : d ≠ c := by
    intro heq
    have hsame := eq_of_overlaps h.disjoint hb hd (Or.inl (heq ▸ hle))
    exact hne (heq.symm.trans hsame.symm)
  have hlt : d.height < c.height := by
    apply Nat.lt_of_le_of_ne hdc.1
    intro heq
    exact hdne (eq_of_le hdc heq)
  have hdtop : d.height < top := Nat.lt_of_lt_of_le hlt (htop c hcovered)
  obtain ⟨bit, hbit⟩ := eq_half hdtop
  have hsuper := supernet_le hdc hlt (htop c hcovered)
  have hpos : 0 < (d.supernet top).height := by
    rw [height_supernet hdtop]
    exact Nat.succ_pos _
  have hsibling := half_le hpos (!bit)
  have hmem := ((d.supernet top).half (!bit)).first_mem
  obtain ⟨e, he, hae⟩ := hcovered _ (mem_of_le (hsibling.trans hsuper) hmem)
  have hheight : ((d.supernet top).half (!bit)).height = d.height := by
    change (d.supernet top).height - 1 = d.height
    rw [height_supernet hdtop, Nat.add_sub_cancel]
  have hapart : ∀ {x}, x ∈ (d.supernet top).half (!bit) → x ∉ d := by
    intro x hx hxd
    rw [hbit] at hxd
    exact not_mem_half hpos hxd hx
  cases le_or_le hae (mem_of_le (hsibling.trans hsuper) hmem) with
  | inr hce =>
    have hsame := eq_of_overlaps h.disjoint hd he (Or.inl (hdc.trans hce))
    rw [← hsame] at hae
    exact hapart hmem hae
  | inl hec =>
    have hge : d.height ≤ e.height := Nat.not_lt.mp (hleast e ⟨he, hec⟩)
    have hle : (d.supernet top).half (!bit) ≤ e :=
      le_of_mem hmem hae (by rw [hheight]; exact hge)
    by_cases hequal : e.height = d.height
    · have hsame := eq_of_le hle (hheight.trans hequal.symm)
      have hkeys : d.supernet top = e.supernet top := by
        apply eq_of_le
        · apply le_of_mem (mem_of_le hsibling hmem) (mem_of_le (le_supernet top e) hae)
          rw [height_supernet hdtop, height_supernet (by omega), hequal]
        · rw [height_supernet hdtop, height_supernet (by omega), hequal]
      have hde := h.unpaired d hd e he hkeys
      rw [← hde] at hae
      exact hapart hmem hae
    · have hwide : d.supernet top ≤ e := by
        apply le_of_mem (mem_of_le hsibling hmem) hae
        rw [height_supernet hdtop]
        omega
      have hsame := eq_of_overlaps h.disjoint hd he (Or.inl ((le_supernet top d).trans hwide))
      rw [← hsame] at hae
      exact hapart hmem hae

theorem Canonical.mem_iff (h : Canonical top blocks)
    (htop : ∀ c : Block, (∀ a ∈ c, Covers blocks a) → c.height ≤ top) :
    b ∈ blocks ↔ Maximal blocks b := by
  constructor
  · exact fun hb => h.maximal hb htop
  · intro hmax
    obtain ⟨c, hc, hmem⟩ := hmax.1 _ b.first_mem
    have hcmax := h.maximal hc htop
    cases le_or_le b.first_mem hmem with
    | inl hle =>
      rw [← hmax.2 c hcmax.1 hle]
      exact hc
    | inr hle =>
      rw [hcmax.2 b hmax.1 hle]
      exact hc

theorem height_le_of_covered (hspace : ∀ b ∈ blocks, b ≤ ⟨top, 0⟩)
    (hcovered : ∀ a ∈ c, Covers blocks a) : c.height ≤ top := by
  have hle : c ≤ ⟨top, 0⟩ := le_iff_subset.mpr fun a ha => by
    obtain ⟨b, hb, hab⟩ := hcovered a ha
    exact mem_of_le (hspace b hb) hab
  exact hle.1

theorem collapse_within (hspace : ∀ b ∈ blocks, b ≤ ⟨top, 0⟩) :
    ∀ b ∈ collapse top blocks, b ≤ ⟨top, 0⟩ := by
  apply collapse_induction _ hspace
  intro b c hsame hne hb hc
  refine le_iff_subset.mpr fun a ha => ?_
  exact ((mem_supernet hsame hne).mp ha).elim (mem_of_le hb) (mem_of_le hc)

theorem collapse_canonical (hspace : ∀ b ∈ blocks, b ≤ ⟨top, 0⟩) :
    Canonical top (collapse top blocks) where
  within b hb := (collapse_within hspace b hb).1
  disjoint := collapse_disjoint top blocks
  unpaired _ hb _ hc := collapse_no_siblings hb hc

/-- The collapsed list of some blocks has the widest blocks of the numbers they cover. -/
theorem mem_collapse_iff (hspace : ∀ b ∈ blocks, b ≤ ⟨top, 0⟩) :
    b ∈ collapse top blocks ↔ Maximal blocks b := by
  have hcovers (a : ℕ) : Covers (collapse top blocks) a ↔ Covers blocks a :=
    covers_collapse top blocks
  rw [(collapse_canonical hspace).mem_iff fun c hc =>
    height_le_of_covered (collapse_within hspace) hc]
  simp only [Maximal, hcovers]

end Maximal

section Counting

theorem ncard_block (b : Block) : Set.ncard { a | a ∈ b } = 2 ^ b.height := by
  have hset : { a | a ∈ b } = (Finset.Icc b.first b.last : Finset ℕ) := by
    ext a
    rw [Finset.mem_coe, Finset.mem_Icc]
    exact mem_iff
  have hpos : 0 < 2 ^ b.height := Nat.two_pow_pos _
  rw [hset, Set.ncard_coe_finset, Nat.card_Icc]
  unfold last
  omega

theorem finite_covered (blocks : List Block) : Set.Finite { a | Covers blocks a } := by
  induction blocks with
  | nil =>
    refine Set.Finite.subset Set.finite_empty fun a ha => ?_
    exact covers_nil ha
  | cons b rest ih =>
    have hset : { a | Covers (b :: rest) a } = { a | a ∈ b } ∪ { a | Covers rest a } := by
      ext a
      exact covers_cons
    rw [hset]
    exact (Set.finite_of_ncard_pos (by rw [ncard_block]; exact Nat.two_pow_pos _)).union ih

theorem ncard_covers (hdisjoint : blocks.Pairwise fun p q => ¬ p.Overlaps q) :
    Set.ncard { a | Covers blocks a } = (blocks.map fun b => 2 ^ b.height).sum := by
  induction blocks with
  | nil =>
    have hset : { a | Covers [] a } = (∅ : Set ℕ) :=
      Set.eq_empty_iff_forall_notMem.mpr fun a => covers_nil
    rw [hset, Set.ncard_empty, List.map_nil, List.sum_nil]
  | cons b rest ih =>
    have hb := List.pairwise_cons.mp hdisjoint
    have hset : { a | Covers (b :: rest) a } = { a | a ∈ b } ∪ { a | Covers rest a } := by
      ext a
      exact covers_cons
    have hapart : Disjoint { a | a ∈ b } { a | Covers rest a } := by
      refine Set.disjoint_left.mpr fun a hab ⟨c, hc, hac⟩ => ?_
      exact hb.1 c hc (overlaps_of_mem hab hac)
    have hfinite : Set.Finite { a | a ∈ b } :=
      Set.finite_of_ncard_pos (by rw [ncard_block]; exact Nat.two_pow_pos _)
    rw [hset, Set.ncard_union_eq hapart hfinite (finite_covered rest), ncard_block, ih hb.2,
      List.map_cons, List.sum_cons]

theorem nodup_of_disjoint (hdisjoint : blocks.Pairwise fun p q => ¬ p.Overlaps q) :
    blocks.Nodup := by
  refine hdisjoint.imp fun {p q} hpq heq => ?_
  exact hpq (heq ▸ Or.inl (le_refl p))

theorem Canonical.perm {others : List Block} (h : Canonical top blocks)
    (hothers : Canonical top others) (hsame : ∀ a, Covers blocks a ↔ Covers others a)
    (htop : ∀ c : Block, (∀ a ∈ c, Covers blocks a) → c.height ≤ top) : blocks.Perm others := by
  refine (List.perm_ext_iff_of_nodup (nodup_of_disjoint h.disjoint)
    (nodup_of_disjoint hothers.disjoint)).mpr fun b => ?_
  rw [h.mem_iff htop, hothers.mem_iff fun c hc =>
    htop c fun a ha => (hsame a).mpr (hc a ha)]
  simp only [Maximal, hsame]

end Counting

section Joining

def Outermost (blocks : List Block) (b : Block) : Prop :=
  b ∈ blocks ∧ ∀ c ∈ blocks, b ≤ c → c = b

instance (blocks : List Block) : DecidablePred (Outermost blocks) :=
  fun _ => inferInstanceAs (Decidable (_ ∧ _))

/-- A block that the blocks of a list fill, none of them alone. -/
def MadeUp (blocks : List Block) (b : Block) : Prop :=
  (∀ a ∈ b, Covers blocks a) ∧ ∀ c ∈ blocks, ¬ b ≤ c

def outermost (blocks : List Block) : List Block := blocks.dedup.filter (Outermost blocks)

theorem mem_outermost : b ∈ outermost blocks ↔ Outermost blocks b := by
  unfold outermost
  rw [List.mem_filter, List.mem_dedup, decide_eq_true_eq]
  exact and_iff_right_of_imp And.left

theorem outermost_sublist (blocks : List Block) : (outermost blocks).Sublist blocks :=
  List.filter_sublist.trans (List.dedup_sublist blocks)

theorem exists_outermost (hb : b ∈ blocks) : ∃ c ∈ outermost blocks, b ≤ c := by
  obtain ⟨c, hc, hmax⟩ := Finset.exists_max_image (blocks.toFinset.filter (b ≤ ·)) height
    ⟨b, by simp [hb]⟩
  rw [Finset.mem_filter, List.mem_toFinset] at hc
  refine ⟨c, mem_outermost.mpr ⟨hc.1, fun d hd hle => ?_⟩, hc.2⟩
  have hheight : d.height ≤ c.height :=
    hmax d (Finset.mem_filter.mpr ⟨List.mem_toFinset.mpr hd, hc.2.trans hle⟩)
  exact (eq_of_le hle (Nat.le_antisymm hle.1 hheight)).symm

theorem covers_outermost : Covers (outermost blocks) a ↔ Covers blocks a := by
  constructor
  · rintro ⟨b, hb, ha⟩
    exact ⟨b, (mem_outermost.mp hb).1, ha⟩
  · rintro ⟨b, hb, ha⟩
    obtain ⟨c, hc, hle⟩ := exists_outermost hb
    exact ⟨c, hc, mem_of_le hle ha⟩

theorem outermost_disjoint (blocks : List Block) :
    (outermost blocks).Pairwise fun p q => ¬ p.Overlaps q := by
  have hnodup : (outermost blocks).Nodup := (List.nodup_dedup blocks).filter _
  refine List.Pairwise.imp_of_mem ?_ (List.nodup_iff_pairwise_ne.mp hnodup)
  intro p q hp hq hne hoverlap
  rw [mem_outermost] at hp hq
  rcases hoverlap with hle | hle
  · exact hne (hp.2 q hq.1 hle).symm
  · exact hne (hq.2 p hp.1 hle)

theorem finite_filled (blocks : List Block) :
    Set.Finite { b : Block | ∀ a ∈ b, Covers blocks a } := by
  refine Set.Finite.of_injOn (f := fun b : Block => (b.first, b.last)) ?_ ?_
    ((finite_covered blocks).prod (finite_covered blocks))
  · exact fun b hb => ⟨hb _ b.first_mem, hb _ b.last_mem⟩
  · intro b _ c _ heq
    obtain ⟨hfirst, hlast⟩ := Prod.mk.inj heq
    exact le_antisymm (le_iff_bounds.mpr ⟨hfirst.ge, hlast.le⟩)
      (le_iff_bounds.mpr ⟨hfirst.le, hlast.ge⟩)

/-- The outermost blocks and those they make up: the nodes of the trees under the widest. -/
def Node (blocks : List Block) (b : Block) : Prop := Outermost blocks b ∨ MadeUp blocks b

theorem Node.filled (h : Node blocks b) : ∀ a ∈ b, Covers blocks a :=
  h.elim (fun hb _ ha => ⟨b, hb.1, ha⟩) And.left

theorem node_of_filled (hfilled : ∀ a ∈ b, Covers blocks a)
    (heq : ∀ c ∈ blocks, b ≤ c → c = b) : Node blocks b := by
  by_cases hin : ∃ c ∈ blocks, b ≤ c
  · obtain ⟨c, hc, hle⟩ := hin
    exact .inl ⟨heq c hc hle ▸ hc, heq⟩
  · exact .inr ⟨hfilled, fun c hc hle => hin ⟨c, hc, hle⟩⟩

theorem Maximal.node (h : Maximal blocks b) : Node blocks b :=
  node_of_filled h.1 fun c hc hle => h.2 c (fun _ ha => ⟨c, hc, ha⟩) hle

theorem MadeUp.half (h : MadeUp blocks b) (hpos : 0 < b.height) (bit : Bool) :
    Node blocks (b.half bit) ∧ ¬ Maximal blocks (b.half bit) := by
  have hle := half_le hpos bit
  have hheight : (b.half bit).height = b.height - 1 := rfl
  constructor
  · refine node_of_filled (fun a ha => h.1 a (mem_of_le hle ha)) fun c hc hhalf => ?_
    have hmem := mem_of_le hhalf (b.half bit).first_mem
    have hcb : c ≤ b := (le_or_le (mem_of_le hle (b.half bit).first_mem) hmem).resolve_left
      (h.2 c hc)
    have hne : c.height ≠ b.height := fun heq => h.2 c hc (eq_of_le hcb heq).ge
    have hlow := hhalf.1
    have hhigh := hcb.1
    exact (eq_of_le hhalf (by omega)).symm
  · intro hmax
    have hsame := congrArg height (hmax.2 b h.1 hle)
    omega

theorem Node.exists_half (h : Node blocks b) (hmax : ¬ Maximal blocks b) :
    ∃ c bit, MadeUp blocks c ∧ c.height = b.height + 1 ∧ b = c.half bit := by
  have hwider : ∃ c, (∀ a ∈ c, Covers blocks a) ∧ b ≤ c ∧ c ≠ b := by
    by_contra hnone
    push Not at hnone
    exact hmax ⟨h.filled, hnone⟩
  obtain ⟨c, hc, hle, hne⟩ := hwider
  have hlt : b.height < c.height :=
    Nat.lt_of_le_of_ne hle.1 fun heq => hne (eq_of_le hle heq).symm
  obtain ⟨bit, hbit⟩ := eq_half hlt
  have hsuper := supernet_le hle hlt le_rfl
  refine ⟨b.supernet c.height, bit, ⟨fun a ha => hc a (mem_of_le hsuper ha), ?_⟩,
    height_supernet hlt, hbit⟩
  intro d hd hd'
  have hbd := (le_supernet c.height b).trans hd'
  rcases h with houter | hjoined
  · rw [houter.2 d hd hbd] at hd'
    have hback := hd'.1
    rw [height_supernet hlt] at hback
    omega
  · exact hjoined.2 d hd hbd

theorem half_injOn {bit : Bool} {least : ℕ} :
    Set.InjOn (fun b : Block => b.half bit) { b | MadeUp blocks b ∧ least < b.height } := by
  rintro ⟨height, index⟩ ⟨_, hb⟩ ⟨height', index'⟩ ⟨_, hc⟩ heq
  simp only [Block.half, Block.mk.injEq] at heq hb hc ⊢
  omega

theorem half_ne (b c : Block) : b.half false ≠ c.half true := by
  intro heq
  have hindex := congrArg index heq
  simp only [Block.half, Bool.toNat_false, Bool.toNat_true] at hindex
  omega

theorem ncard_halves (blocks : List Block) (least : ℕ) :
    Set.ncard { b | Node blocks b ∧ least ≤ b.height ∧ ¬ Maximal blocks b } =
      2 * Set.ncard { b | MadeUp blocks b ∧ least < b.height } := by
  have hfinite : Set.Finite { b | MadeUp blocks b ∧ least < b.height } :=
    (finite_filled blocks).subset fun b hb => hb.1.1
  have hset : { b | Node blocks b ∧ least ≤ b.height ∧ ¬ Maximal blocks b } =
      (fun b : Block => b.half false) '' { b | MadeUp blocks b ∧ least < b.height } ∪
        (fun b : Block => b.half true) '' { b | MadeUp blocks b ∧ least < b.height } := by
    ext b
    constructor
    · rintro ⟨hnode, hleast, hmax⟩
      obtain ⟨c, bit, hjoined, hheight, rfl⟩ := hnode.exists_half hmax
      have hc : c ∈ { b | MadeUp blocks b ∧ least < b.height } := ⟨hjoined, by omega⟩
      cases bit with
      | false => exact .inl ⟨c, hc, rfl⟩
      | true => exact .inr ⟨c, hc, rfl⟩
    · rintro (⟨c, ⟨hjoined, hleast⟩, rfl⟩ | ⟨c, ⟨hjoined, hleast⟩, rfl⟩)
      · have hhalf := hjoined.half (by omega) false
        exact ⟨hhalf.1, Nat.le_sub_one_of_lt hleast, hhalf.2⟩
      · have hhalf := hjoined.half (by omega) true
        exact ⟨hhalf.1, Nat.le_sub_one_of_lt hleast, hhalf.2⟩
  have hapart : Disjoint
      ((fun b : Block => b.half false) '' { b | MadeUp blocks b ∧ least < b.height })
      ((fun b : Block => b.half true) '' { b | MadeUp blocks b ∧ least < b.height }) := by
    rw [Set.disjoint_left]
    rintro _ ⟨b, _, rfl⟩ ⟨c, _, heq⟩
    exact half_ne b c heq.symm
  rw [hset, Set.ncard_union_eq hapart (hfinite.image _) (hfinite.image _),
    half_injOn.ncard_image, half_injOn.ncard_image]
  omega

theorem ncard_split {P : Block → Prop} (Q : Block → Prop) (h : ∀ b, P b → Node blocks b) :
    Set.ncard { b | P b } = Set.ncard { b | P b ∧ Q b } + Set.ncard { b | P b ∧ ¬ Q b } := by
  have hfinite : Set.Finite { b | P b } :=
    (finite_filled blocks).subset fun b hb => (h b hb).filled
  exact (Set.ncard_inter_add_ncard_sdiff_eq_ncard { b | P b } { b | Q b } hfinite).symm

theorem MadeUp.not_outermost (h : MadeUp blocks b) : ¬ Outermost blocks b :=
  fun houter => h.2 b houter.1 (le_refl b)

/-- Each join of two blocks leaves one block less: from the outermost to the widest. -/
theorem ncard_outermost_add (blocks : List Block) (least : ℕ) :
    Set.ncard { b | Outermost blocks b ∧ least ≤ b.height } +
        Set.ncard { b | MadeUp blocks b ∧ b.height = least } =
      Set.ncard { b | Maximal blocks b ∧ least ≤ b.height } +
        Set.ncard { b | MadeUp blocks b ∧ least < b.height } := by
  have hnodes := @ncard_split blocks (fun b => Node blocks b ∧ least ≤ b.height)
    (Outermost blocks) fun b hb => hb.1
  have hjoined := @ncard_split blocks (fun b => MadeUp blocks b ∧ least ≤ b.height)
    (fun b => b.height = least) fun b hb => .inr hb.1
  have hroots := @ncard_split blocks (fun b => Node blocks b ∧ least ≤ b.height)
    (Maximal blocks) fun b hb => hb.1
  have houter (b : Block) : (Node blocks b ∧ least ≤ b.height) ∧ Outermost blocks b ↔
      Outermost blocks b ∧ least ≤ b.height :=
    ⟨fun h => ⟨h.2, h.1.2⟩, fun h => ⟨⟨.inl h.1, h.2⟩, h.1⟩⟩
  have hinner (b : Block) : (Node blocks b ∧ least ≤ b.height) ∧ ¬ Outermost blocks b ↔
      MadeUp blocks b ∧ least ≤ b.height :=
    ⟨fun h => ⟨h.1.1.resolve_left h.2, h.1.2⟩, fun h => ⟨⟨.inr h.1, h.2⟩, h.1.not_outermost⟩⟩
  have hleast (b : Block) : (MadeUp blocks b ∧ least ≤ b.height) ∧ b.height = least ↔
      MadeUp blocks b ∧ b.height = least :=
    ⟨fun h => ⟨h.1.1, h.2⟩, fun h => ⟨⟨h.1, h.2.ge⟩, h.2⟩⟩
  have hmore (b : Block) : (MadeUp blocks b ∧ least ≤ b.height) ∧ ¬ b.height = least ↔
      MadeUp blocks b ∧ least < b.height :=
    ⟨fun h => ⟨h.1.1, Nat.lt_of_le_of_ne h.1.2 (Ne.symm h.2)⟩,
      fun h => ⟨⟨h.1, h.2.le⟩, h.2.ne'⟩⟩
  have hwidest (b : Block) : (Node blocks b ∧ least ≤ b.height) ∧ Maximal blocks b ↔
      Maximal blocks b ∧ least ≤ b.height :=
    ⟨fun h => ⟨h.2, h.1.2⟩, fun h => ⟨⟨h.1.node, h.2⟩, h.1⟩⟩
  simp only [houter, hinner] at hnodes
  simp only [hleast, hmore] at hjoined
  simp only [hwidest, and_assoc, ncard_halves] at hroots
  omega

end Joining

end Shapoclyack.Library.Block
