import Mathlib.Data.List.Basic
import Mathlib.Logic.Relation
import Mathlib.Order.Nat

set_option autoImplicit false

namespace Shapoclyack.Library.BreadthFirst

variable {α : Type*}

section Routes

inductive Route (next : α → List α) (root : α) : List α → Prop
  | root : Route next root [root]
  | step {stop last : α} {route : List α} (before : Route next root (last :: route))
      (hstop : stop ∈ next last) : Route next root (stop :: last :: route)

variable {next : α → List α} {root : α} {route other third : List α}

theorem Route.reaches {stop : α} (h : Route next root (stop :: route)) {on : α}
    (hon : on ∈ stop :: route) : Relation.ReflTransGen (fun a b => b ∈ next a) on stop := by
  induction route generalizing stop with
  | nil =>
    rw [List.mem_singleton] at hon
    rw [hon]
  | cons last route ih =>
    cases h with
    | step before hstop =>
      rcases List.mem_cons.mp hon with rfl | hon
      · exact .refl
      · exact (ih before hon).tail hstop

theorem Route.root_mem (h : Route next root route) : root ∈ route := by
  induction h with
  | root => exact List.mem_singleton_self _
  | step _ _ ih => exact List.mem_cons_of_mem _ ih

variable [DecidableEq α]

/-- Of two routes of one length, the one whose first step apart is named sooner. -/
inductive Sooner (next : α → List α) : List α → List α → Prop
  | before {route other : List α} (a b : α) (h : Sooner next route other) :
      Sooner next (a :: route) (b :: other)
  | last {a b stop : α} {route : List α} (h : (next stop).idxOf a < (next stop).idxOf b) :
      Sooner next (a :: stop :: route) (b :: stop :: route)

/-- The first of all routes to its last stop: the shortest, and of these the soonest. -/
structure First (next : α → List α) (root : α) (route : List α) : Prop where
  isRoute : Route next root route
  least : ∀ other, Route next root other → other.head? = route.head? →
    route = other ∨ route.length < other.length ∨ Sooner next route other

theorem Sooner.length_eq (h : Sooner next route other) : route.length = other.length := by
  induction h with
  | before a b _ ih => simp only [List.length_cons, ih]
  | last _ => rfl

theorem Sooner.trans (h : Sooner next route other) (h' : Sooner next other third) :
    Sooner next route third := by
  induction h generalizing third with
  | before a b h ih =>
    cases h' with
    | before _ c h' => exact .before a c (ih h')
    | last _ => exact .before a _ h
  | last h =>
    cases h' with
    | before _ c h' => exact .before _ c h'
    | last h' => exact .last (lt_trans h h')

theorem Sooner.irrefl : ¬ Sooner next route route := by
  induction route with
  | nil => rintro ⟨⟩
  | cons stop route ih =>
    intro h
    cases h with
    | before _ _ h => exact ih h
    | last h => exact lt_irrefl _ h

/-- A stop is reached by at most one first route. -/
theorem First.unique (h : First next root route) (h' : First next root other)
    (hhead : other.head? = route.head?) : route = other := by
  rcases h.least other h'.isRoute hhead with heq | hlt | hsooner
  · exact heq
  · rcases h'.least route h.isRoute hhead.symm with heq | hlt' | hsooner'
    · exact heq.symm
    · omega
    · have := hsooner'.length_eq
      omega
  · rcases h'.least route h.isRoute hhead.symm with heq | hlt' | hsooner'
    · exact heq.symm
    · have := hsooner.length_eq
      omega
    · exact absurd (hsooner.trans hsooner') Sooner.irrefl

theorem first_root : First next root [root] := by
  refine ⟨.root, ?_⟩
  intro other hother _
  cases hother with
  | root => exact .inl rfl
  | step before hstop => exact .inr (.inl (by simp))

end Routes

section Trees

variable [DecidableEq α]

/-- What a breadth-first search has met: who named whom first, the newest first, and the names met
on the level at hand. -/
structure SearchTree (α : Type*) where
  parents : List (α × α)
  fresh : List α

def climb : List (α × α) → α → List α
  | [], name => [name]
  | (stop, last) :: parents, name =>
    if name = stop then name :: climb parents last else climb parents name

def SearchTree.Known (root : α) (t : SearchTree α) (name : α) : Prop :=
  name = root ∨ name ∈ t.parents.map Prod.fst

omit [DecidableEq α] in
theorem known_cons {root name last x : α} {s : SearchTree α} {fresh : List α} :
    (⟨(name, last) :: s.parents, fresh⟩ : SearchTree α).Known root x ↔
      x = name ∨ s.Known root x := by
  unfold SearchTree.Known
  rw [List.map_cons, List.mem_cons]
  tauto

instance (root : α) (t : SearchTree α) (name : α) : Decidable (t.Known root name) :=
  inferInstanceAs (Decidable (_ ∨ _))

def visit (root owner : α) (t : SearchTree α) (name : α) : SearchTree α :=
  if t.Known root name then t else ⟨(name, owner) :: t.parents, t.fresh ++ [name]⟩

def visitOwner (next : α → List α) (root : α) (t : SearchTree α) (owner : α) : SearchTree α :=
  (next owner).foldl (visit root owner) t

def grow (next : α → List α) (root : α) (t : SearchTree α) : SearchTree α :=
  t.fresh.foldl (visitOwner next root) { t with fresh := [] }

/-- The tree of the names up to a depth: each is reached by its first route. -/
structure Grown (next : α → List α) (root : α) (depth : ℕ) (t : SearchTree α) : Prop where
  first : ∀ name, t.Known root name → First next root (climb t.parents name)
  short : ∀ name, t.Known root name → (climb t.parents name).length ≤ depth + 1
  complete : ∀ name route, Route next root (name :: route) → route.length ≤ depth →
    t.Known root name
  level : ∀ name, name ∈ t.fresh ↔
    t.Known root name ∧ (climb t.parents name).length = depth + 1
  sorted : t.fresh.Pairwise fun a b => Sooner next (climb t.parents a) (climb t.parents b)

/-- A level half way: the owners before the current one are through, and it is through with the
names seen. -/
structure Growing (next : α → List α) (root : α) (t : SearchTree α) (before : List α) (current : α)
    (seen : List α) (s : SearchTree α) : Prop where
  keeps : ∀ name, t.Known root name →
    s.Known root name ∧ climb s.parents name = climb t.parents name
  added : ∀ name, s.Known root name → t.Known root name ∨ name ∈ s.fresh
  fresh : ∀ name ∈ s.fresh, ¬ t.Known root name ∧ s.Known root name ∧
    First next root (climb s.parents name) ∧
    ∃ owner, (owner ∈ before ∨ (owner = current ∧ name ∈ seen)) ∧
      climb s.parents name = name :: climb t.parents owner
  covers : ∀ owner name, (owner ∈ before ∧ name ∈ next owner) ∨ (owner = current ∧ name ∈ seen) →
    s.Known root name
  sorted : s.fresh.Pairwise fun a b => Sooner next (climb s.parents a) (climb s.parents b)

variable {next : α → List α} {root : α} {t s : SearchTree α} {depth : ℕ} {before : List α}
  {current : α} {seen : List α}

theorem climb_head (parents : List (α × α)) (name : α) :
    ∃ rest, climb parents name = name :: rest := by
  induction parents with
  | nil => exact ⟨[], rfl⟩
  | cons entry parents ih =>
    obtain ⟨stop, last⟩ := entry
    unfold climb
    split
    · exact ⟨_, rfl⟩
    · exact ih

theorem climb_cons_of_ne {stop last name : α} {parents : List (α × α)} (h : name ≠ stop) :
    climb ((stop, last) :: parents) name = climb parents name := if_neg h

theorem grown_root : Grown next root 0 ⟨[], [root]⟩ := by
  have hknown : ∀ name, (⟨[], [root]⟩ : SearchTree α).Known root name ↔ name = root := by
    intro name
    simp [SearchTree.Known]
  refine ⟨?_, ?_, ?_, ?_, List.pairwise_singleton _ _⟩
  · intro name hname
    rw [(hknown name).mp hname]
    exact first_root
  · intro name _
    simp [climb]
  · intro name route hroute hlength
    have hnil : route = [] := List.length_eq_zero_iff.mp (Nat.le_zero.mp hlength)
    rw [hnil] at hroute
    cases hroute with
    | root => exact (hknown _).mpr rfl
  · intro name
    rw [hknown, List.mem_singleton]
    simp [climb]

theorem growing_start (current : α) :
    Growing next root t [] current [] { t with fresh := [] } := by
  refine ⟨fun name hname => ⟨hname, rfl⟩, fun name hname => .inl hname, ?_, ?_,
    List.Pairwise.nil⟩
  · intro name hname
    cases hname
  · rintro owner name (⟨howner, -⟩ | ⟨-, hname⟩)
    · cases howner
    · cases hname

theorem Growing.first_of_new (hgrown : Grown next root depth t) {after rest : List α} {name : α}
    (hfresh : t.fresh = before ++ current :: after) (hnext : next current = seen ++ name :: rest)
    (h : Growing next root t before current seen s) (hnew : ¬ s.Known root name) :
    First next root (name :: climb t.parents current) := by
  have hold : ¬ t.Known root name := fun hname => hnew (h.keeps name hname).1
  have hcurrent : current ∈ t.fresh := by simp [hfresh]
  obtain ⟨hknown, hlength⟩ := (hgrown.level current).mp hcurrent
  have hfirst := hgrown.first current hknown
  obtain ⟨up, hup⟩ := climb_head t.parents current
  have hroute : Route next root (name :: climb t.parents current) := by
    rw [hup] at hfirst ⊢
    exact hfirst.isRoute.step (by simp [hnext])
  refine ⟨hroute, ?_⟩
  intro other hother hhead
  cases hother with
  | root =>
    rw [List.head?_cons, List.head?_cons, Option.some.injEq] at hhead
    exact absurd (.inl hhead.symm) hold
  | step hbefore hstop =>
    rename_i stop last route
    rw [List.head?_cons, List.head?_cons, Option.some.injEq] at hhead
    subst hhead
    -- The last owner of the other route is on the level at hand, and not through yet.
    have hfar : depth ≤ route.length := by
      by_contra hnear
      exact hold (hgrown.complete stop (last :: route) (hbefore.step hstop)
        (by simp only [List.length_cons]; omega))
    rcases hfar.lt_or_eq with hfar | hfar
    · refine .inr (.inl ?_)
      simp only [List.length_cons]
      omega
    · have hlast := hgrown.complete last route hbefore hfar.ge
      obtain ⟨rise, hrise⟩ := climb_head t.parents last
      have hlong : (climb t.parents last).length = depth + 1 := by
        refine le_antisymm (hgrown.short last hlast) ?_
        by_contra hnear
        have hroute' := (hgrown.first last hlast).isRoute
        rw [hrise] at hroute' hnear
        simp only [List.length_cons] at hnear
        exact hold (hgrown.complete stop (last :: rise) (hroute'.step hstop)
          (by simp only [List.length_cons]; omega))
      have hmem := (hgrown.level last).mpr ⟨hlast, hlong⟩
      have hrank : climb t.parents last = last :: route ∨
          Sooner next (climb t.parents last) (last :: route) := by
        rcases (hgrown.first last hlast).least (last :: route) hbefore (by simp [hrise])
          with heq | hlt | hsooner
        · exact .inl heq
        · simp only [List.length_cons] at hlt
          omega
        · exact .inr hsooner
      rw [hfresh, List.mem_append, List.mem_cons] at hmem
      rcases hmem with hmem | rfl | hmem
      · exact absurd (h.covers last stop (.inl ⟨hmem, hstop⟩)) hnew
      · rcases hrank with heq | hsooner
        · exact .inl (by rw [heq])
        · exact .inr (.inr (.before _ _ hsooner))
      · have hsorted := hgrown.sorted
        rw [hfresh, List.pairwise_append, List.pairwise_cons] at hsorted
        have hahead := hsorted.2.1.1 last hmem
        refine .inr (.inr (.before _ _ ?_))
        rcases hrank with heq | hsooner
        · rw [heq] at hahead
          exact hahead
        · exact hahead.trans hsooner

theorem idxOf_lt_of_mem {front back : List α} {a b : α} (ha : a ∈ front) (hb : b ∉ front) :
    (front ++ b :: back).idxOf a < (front ++ b :: back).idxOf b := by
  rw [List.idxOf_append_of_mem ha, List.idxOf_append_of_notMem hb, List.idxOf_cons_self]
  exact (List.idxOf_lt_length_of_mem ha).trans_le (Nat.le_add_right _ _)

theorem Growing.visit (hgrown : Grown next root depth t) {after rest : List α} {name : α}
    (hfresh : t.fresh = before ++ current :: after) (hnext : next current = seen ++ name :: rest)
    (h : Growing next root t before current seen s) :
    Growing next root t before current (seen ++ [name]) (visit root current s name) := by
  have hwider : ∀ x, x ∈ seen → x ∈ seen ++ [name] := fun x hx => List.mem_append_left _ hx
  unfold BreadthFirst.visit
  by_cases hknown : s.Known root name
  · rw [if_pos hknown]
    refine ⟨h.keeps, h.added, ?_, ?_, h.sorted⟩
    · intro x hx
      obtain ⟨hold, hin, hfirst, owner, howner, hclimb⟩ := h.fresh x hx
      exact ⟨hold, hin, hfirst, owner, howner.imp_right (And.imp_right (hwider x)), hclimb⟩
    · rintro owner x (hbefore | ⟨rfl, hx⟩)
      · exact h.covers owner x (.inl hbefore)
      · rcases List.mem_append.mp hx with hx | hx
        · exact h.covers owner x (.inr ⟨rfl, hx⟩)
        · rw [List.mem_singleton.mp hx]
          exact hknown
  · rw [if_neg hknown]
    have hcurrent : t.Known root current := ((hgrown.level current).mp (by simp [hfresh])).1
    have hfirst := h.first_of_new hgrown hfresh hnext hknown
    have hkeep : ∀ x, s.Known root x →
        climb ((name, current) :: s.parents) x = climb s.parents x := by
      intro x hx
      exact climb_cons_of_ne fun heq => hknown (heq ▸ hx)
    have hself : climb ((name, current) :: s.parents) name = name :: climb t.parents current := by
      rw [← (h.keeps current hcurrent).2]
      exact if_pos rfl
    refine ⟨?_, ?_, ?_, ?_, ?_⟩
    · intro x hx
      obtain ⟨hin, hclimb⟩ := h.keeps x hx
      exact ⟨known_cons.mpr (.inr hin), (hkeep x hin).trans hclimb⟩
    · intro x hx
      rcases known_cons.mp hx with rfl | hx
      · exact .inr (by simp)
      · exact (h.added x hx).imp_right (List.mem_append_left _)
    · intro x hx
      rcases List.mem_append.mp hx with hx | hx
      · obtain ⟨hold, hin, hleast, owner, howner, hclimb⟩ := h.fresh x hx
        refine ⟨hold, known_cons.mpr (.inr hin), (hkeep x hin).symm ▸ hleast, owner,
          howner.imp_right (And.imp_right (hwider x)), (hkeep x hin).trans hclimb⟩
      · rw [List.mem_singleton] at hx
        subst hx
        refine ⟨fun hold => hknown (h.keeps x hold).1, known_cons.mpr (.inl rfl), ?_, current,
          .inr ⟨rfl, by simp⟩, hself⟩
        exact hself.symm ▸ hfirst
    · rintro owner x (hbefore | ⟨rfl, hx⟩)
      · exact known_cons.mpr (.inr (h.covers owner x (.inl hbefore)))
      · rcases List.mem_append.mp hx with hx | hx
        · exact known_cons.mpr (.inr (h.covers owner x (.inr ⟨rfl, hx⟩)))
        · exact known_cons.mpr (.inl (List.mem_singleton.mp hx))
    · rw [List.pairwise_append]
      refine ⟨?_, List.pairwise_singleton _ _, ?_⟩
      · refine h.sorted.imp_of_mem fun {a b} ha hb hab => ?_
        rw [hkeep a (h.fresh a ha).2.1, hkeep b (h.fresh b hb).2.1]
        exact hab
      · intro a ha b hb
        rw [List.mem_singleton.mp hb, hself]
        obtain ⟨-, hin, -, owner, howner, hclimb⟩ := h.fresh a ha
        rw [hkeep a hin, hclimb]
        rcases howner with hbefore | ⟨rfl, hseen⟩
        · have hsorted := hgrown.sorted
          rw [hfresh, List.pairwise_append] at hsorted
          exact .before _ _ (hsorted.2.2 owner hbefore current List.mem_cons_self)
        · obtain ⟨up, hup⟩ := climb_head t.parents owner
          rw [hup]
          refine .last ?_
          rw [hnext]
          exact idxOf_lt_of_mem hseen fun hmem => hknown (h.covers owner name (.inr ⟨rfl, hmem⟩))

theorem Growing.visitRest (hgrown : Grown next root depth t) {after rest : List α}
    (hfresh : t.fresh = before ++ current :: after) (hnext : next current = seen ++ rest)
    (h : Growing next root t before current seen s) :
    Growing next root t before current (next current)
      (rest.foldl (BreadthFirst.visit root current) s) := by
  induction rest generalizing seen s with
  | nil =>
    rw [List.append_nil] at hnext
    exact hnext.symm ▸ h
  | cons name rest ih =>
    refine ih ?_ (h.visit hgrown hfresh hnext)
    rw [hnext, List.append_assoc, List.singleton_append]

theorem Growing.turn (h : Growing next root t before current (next current) s) (following : α) :
    Growing next root t (before ++ [current]) following [] s := by
  refine ⟨h.keeps, h.added, ?_, ?_, h.sorted⟩
  · intro name hname
    obtain ⟨hold, hin, hfirst, owner, howner, hclimb⟩ := h.fresh name hname
    refine ⟨hold, hin, hfirst, owner, .inl ?_, hclimb⟩
    rcases howner with hbefore | ⟨rfl, -⟩
    · exact List.mem_append_left _ hbefore
    · simp
  · rintro owner name (⟨hbefore, hname⟩ | ⟨-, hname⟩)
    · rcases List.mem_append.mp hbefore with hbefore | hbefore
      · exact h.covers owner name (.inl ⟨hbefore, hname⟩)
      · rw [List.mem_singleton.mp hbefore] at hname
        exact h.covers current name (.inr ⟨rfl, hname⟩)
    · cases hname

theorem Growing.visitOwners (hgrown : Grown next root depth t) {rest : List α}
    (hfresh : t.fresh = before ++ rest) (following : α)
    (h : Growing next root t before following [] s) :
    Growing next root t t.fresh following [] (rest.foldl (visitOwner next root) s) := by
  induction rest generalizing before s with
  | nil =>
    rw [List.append_nil] at hfresh
    exact hfresh.symm ▸ h
  | cons owner rest ih =>
    have hfront : t.fresh = (before ++ [owner]) ++ rest := by simp [hfresh]
    have hstart : Growing next root t before owner [] s := by
      refine ⟨h.keeps, h.added, ?_, ?_, h.sorted⟩
      · intro name hname
        obtain ⟨hold, hin, hfirst, earlier, hearlier, hclimb⟩ := h.fresh name hname
        refine ⟨hold, hin, hfirst, earlier, .inl ?_, hclimb⟩
        rcases hearlier with hearlier | ⟨-, hname⟩
        · exact hearlier
        · cases hname
      · rintro earlier name (hearlier | ⟨-, hname⟩)
        · exact h.covers earlier name (.inl hearlier)
        · cases hname
    exact ih hfront ((hstart.visitRest hgrown hfresh rfl).turn following)

theorem growing_grow (hgrown : Grown next root depth t) :
    Growing next root t t.fresh root [] (grow next root t) :=
  (growing_start root).visitOwners hgrown rfl root

theorem Grown.grow (hgrown : Grown next root depth t) :
    Grown next root (depth + 1) (grow next root t) := by
  have h := growing_grow hgrown
  have hlong : ∀ name ∈ (BreadthFirst.grow next root t).fresh,
      (climb (BreadthFirst.grow next root t).parents name).length = depth + 1 + 1 := by
    intro name hname
    obtain ⟨-, -, -, owner, howner, hclimb⟩ := h.fresh name hname
    rcases howner with howner | ⟨-, hname⟩
    · rw [hclimb, List.length_cons, ((hgrown.level owner).mp howner).2]
    · cases hname
  refine ⟨?_, ?_, ?_, ?_, h.sorted⟩
  · intro name hname
    rcases h.added name hname with hold | hnew
    · rw [(h.keeps name hold).2]
      exact hgrown.first name hold
    · exact (h.fresh name hnew).2.2.1
  · intro name hname
    rcases h.added name hname with hold | hnew
    · rw [(h.keeps name hold).2]
      exact (hgrown.short name hold).trans (Nat.le_succ _)
    · exact (hlong name hnew).le
  · intro name route hroute hlength
    cases hroute with
    | root => exact .inl rfl
    | step hbefore hstop =>
      rename_i last route
      rw [List.length_cons] at hlength
      have hlast := hgrown.complete last route hbefore (by omega)
      by_cases hmem : last ∈ t.fresh
      · exact h.covers last name (.inl ⟨hmem, hstop⟩)
      · -- An owner above the level has named only what is known.
        obtain ⟨rise, hrise⟩ := climb_head t.parents last
        have hshort := hgrown.short last hlast
        have hne : (climb t.parents last).length ≠ depth + 1 := fun heq =>
          hmem ((hgrown.level last).mpr ⟨hlast, heq⟩)
        have hroute := (hgrown.first last hlast).isRoute
        rw [hrise] at hroute hshort hne
        rw [List.length_cons] at hshort hne
        refine (h.keeps name (hgrown.complete name (last :: rise) (hroute.step hstop) ?_)).1
        rw [List.length_cons]
        omega
  · intro name
    constructor
    · exact fun hname => ⟨(h.fresh name hname).2.1, hlong name hname⟩
    · rintro ⟨hname, hlength⟩
      rcases h.added name hname with hold | hnew
      · rw [(h.keeps name hold).2] at hlength
        have := hgrown.short name hold
        omega
      · exact hnew

end Trees

section Parents

variable [DecidableEq α] {root : α} {t : SearchTree α} {name last owner x : α}
  {parents : List (α × α)}

inductive Rooted (root : α) : List (α × α) → Prop
  | nil : Rooted root []
  | cons {name owner : α} {parents : List (α × α)} (rest : Rooted root parents)
      (hnew : ¬ (⟨parents, []⟩ : SearchTree α).Known root name)
      (howner : (⟨parents, []⟩ : SearchTree α).Known root owner) :
      Rooted root ((name, owner) :: parents)

omit [DecidableEq α] in
theorem Rooted.known_lookup [BEq α] [LawfulBEq α] (h : Rooted root parents)
    (hlookup : parents.lookup name = some owner) :
    (⟨parents, []⟩ : SearchTree α).Known root owner := by
  induction h with
  | nil => cases hlookup
  | cons rest hnew howner ih =>
    rw [List.lookup_cons] at hlookup
    split at hlookup
    · rw [Option.some.injEq] at hlookup
      exact known_cons.mpr (.inr (hlookup ▸ howner))
    · exact known_cons.mpr (.inr (ih hlookup))

theorem climb_eq [BEq α] [LawfulBEq α] (h : Rooted root parents)
    (hname : (⟨parents, []⟩ : SearchTree α).Known root name) :
    climb parents name =
      match parents.lookup name with
      | some owner => name :: climb parents owner
      | none => [name] := by
  induction h with
  | nil => rfl
  | @cons stop last parents rest hnew howner ih =>
    have hbelow : ∀ x, (⟨parents, []⟩ : SearchTree α).Known root x →
        climb ((stop, last) :: parents) x = climb parents x := by
      intro x hx
      exact climb_cons_of_ne fun heq => hnew (heq ▸ hx)
    by_cases heq : name = stop
    · subst heq
      simp only [List.lookup_cons, beq_self_eq_true]
      rw [hbelow last howner]
      exact if_pos rfl
    · have hold : (⟨parents, []⟩ : SearchTree α).Known root name :=
        (known_cons.mp hname).resolve_left heq
      simp only [List.lookup_cons, beq_eq_false_iff_ne.mpr heq]
      rw [hbelow name hold, ih hold]
      cases hlookup : parents.lookup name with
      | none => rfl
      | some above => simp only [hbelow above (rest.known_lookup hlookup)]

theorem known_climb (h : Rooted root parents)
    (hname : (⟨parents, []⟩ : SearchTree α).Known root name)
    (hx : x ∈ climb parents name) : (⟨parents, []⟩ : SearchTree α).Known root x := by
  induction h generalizing name with
  | nil =>
    rw [climb, List.mem_singleton] at hx
    exact hx ▸ hname
  | @cons stop last parents rest hnew howner ih =>
    refine (@known_cons _ root stop last x ⟨parents, []⟩ []).mpr ?_
    by_cases heq : name = stop
    · rw [climb, if_pos heq, List.mem_cons] at hx
      rcases hx with rfl | hx
      · exact .inl heq
      · exact .inr (ih howner hx)
    · rw [climb, if_neg heq] at hx
      exact .inr (ih ((known_cons.mp hname).resolve_left heq) hx)

theorem nodup_climb (h : Rooted root parents)
    (hname : (⟨parents, []⟩ : SearchTree α).Known root name) :
    (climb parents name).Nodup := by
  induction h generalizing name with
  | nil => exact List.pairwise_singleton _ _
  | @cons stop last parents rest hnew howner ih =>
    by_cases heq : name = stop
    · rw [climb, if_pos heq, List.nodup_cons]
      exact ⟨fun hmem => hnew (known_climb rest howner (heq ▸ hmem)), ih howner⟩
    · rw [climb, if_neg heq]
      exact ih ((known_cons.mp hname).resolve_left heq)

theorem length_climb (parents : List (α × α)) (name : α) :
    (climb parents name).length ≤ parents.length + 1 := by
  induction parents generalizing name with
  | nil => exact le_rfl
  | cons entry parents ih =>
    obtain ⟨stop, last⟩ := entry
    unfold climb
    split
    · simp only [List.length_cons]
      have := ih last
      omega
    · exact (ih name).trans (by simp)

theorem visit_keeps (hx : t.Known root x) :
    (visit root owner t name).Known root x ∧
      climb (visit root owner t name).parents x = climb t.parents x := by
  unfold visit
  split
  · exact ⟨hx, rfl⟩
  · rename_i hnew
    exact ⟨known_cons.mpr (.inr hx), climb_cons_of_ne fun heq => hnew (heq ▸ hx)⟩

theorem rooted_visit (h : Rooted root t.parents) (howner : t.Known root owner) :
    Rooted root (visit root owner t name).parents := by
  unfold visit
  split
  · exact h
  · rename_i hnew
    exact h.cons hnew howner

variable {next : α → List α}

theorem foldl_visit_keeps {names : List α} (hx : t.Known root x) :
    (names.foldl (visit root owner) t).Known root x ∧
      climb (names.foldl (visit root owner) t).parents x = climb t.parents x := by
  induction names generalizing t with
  | nil => exact ⟨hx, rfl⟩
  | cons name names ih =>
    obtain ⟨hknown, hclimb⟩ := @visit_keeps _ _ root t name owner x hx
    exact ⟨(ih hknown).1, (ih hknown).2.trans hclimb⟩

theorem rooted_foldl_visit {names : List α} (h : Rooted root t.parents)
    (howner : t.Known root owner) : Rooted root (names.foldl (visit root owner) t).parents := by
  induction names generalizing t with
  | nil => exact h
  | cons name names ih => exact ih (rooted_visit h howner) (visit_keeps howner).1

theorem rooted_visitOwners {owners : List α} (h : Rooted root t.parents)
    (howners : ∀ owner ∈ owners, t.Known root owner) :
    Rooted root (owners.foldl (visitOwner next root) t).parents := by
  induction owners generalizing t with
  | nil => exact h
  | cons owner owners ih =>
    refine ih (rooted_foldl_visit h (howners owner List.mem_cons_self)) ?_
    exact fun x hx => (foldl_visit_keeps (howners x (List.mem_cons_of_mem _ hx))).1

theorem rooted_grow (h : Rooted root t.parents) (howners : ∀ owner ∈ t.fresh, t.Known root owner) :
    Rooted root (grow next root t).parents :=
  rooted_visitOwners h howners

end Parents

end Shapoclyack.Library.BreadthFirst
