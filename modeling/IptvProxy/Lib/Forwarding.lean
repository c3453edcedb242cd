import Mathlib.Data.List.Basic
import Mathlib.Data.List.Infix
import Mathlib.Data.List.TakeWhile
import Mathlib.Tactic.Common

/-!
# Routing tables

A route leads to a prefix of addresses; an address takes the route with the longest prefix
(`lookup`). Rules are asked in order: a rule selects packets and names a table, and a packet takes
the first route that is found (`firstRoute`).

`lookup_eq_some` says which route an address takes, in terms of the routes of the table.
-/

namespace Forwarding

universe u v w

variable {β : Type u} {ρ : Type v} [DecidableEq β]

/-- Routes with the prefixes they lead to. Of two routes with one prefix the first one is taken. -/
abbrev Table (β : Type u) (ρ : Type v) : Type (max u v) := List (List β × ρ)

/-- The route with exactly this prefix. -/
def route (t : Table β ρ) (p : List β) : Option ρ := (t.find? fun x => x.1 = p).map Prod.snd

/-- Take away the routes with a prefix. -/
def delete (t : Table β ρ) (p : List β) : Table β ρ := t.filter fun x => x.1 ≠ p

/-- Replace the routes with a prefix by one route. -/
def replace (t : Table β ρ) (p : List β) (r : ρ) : Table β ρ := (p, r) :: delete t p

/-- The route of the longest prefix that has one. -/
def lookup (t : Table β ρ) (a : List β) : Option ρ := a.inits.reverse.findSome? (route t)

variable {t : Table β ρ} {p q a : List β} {r : ρ} {x : List β × ρ}

theorem mem_of_route (h : route t p = some r) : (p, r) ∈ t := by
  obtain ⟨⟨q, r'⟩, hx, rfl⟩ := Option.map_eq_some_iff.mp h
  obtain rfl : q = p := by simpa using List.find?_some hx
  exact List.mem_of_find?_eq_some hx

theorem route_isSome (h : (p, r) ∈ t) : (route t p).isSome = true := by
  rw [route, Option.isSome_map, List.find?_isSome]
  exact ⟨_, h, by simp⟩

@[simp] theorem route_replace_self : route (replace t p r) p = some r := by
  simp [route, replace]

theorem route_delete_ne (h : q ≠ p) : route (delete t p) q = route t q := by
  rw [route, route, delete, List.find?_filter]
  congr 2
  funext x
  by_cases hx : x.1 = q
  · simp [hx, h]
  · simp [hx]

theorem route_replace_ne (h : q ≠ p) : route (replace t p r) q = route t q := by
  rw [replace, route, List.find?_cons_of_neg (by simpa using Ne.symm h)]
  exact route_delete_ne h

theorem mem_delete : x ∈ delete t p ↔ x ∈ t ∧ x.1 ≠ p := by simp [delete]

theorem mem_replace : x ∈ replace t p r ↔ x = (p, r) ∨ x ∈ t ∧ x.1 ≠ p := by
  rw [replace, List.mem_cons, mem_delete]

/-- **Which route an address takes**: the longest prefix of the address that has one. -/
theorem lookup_eq_some : lookup t a = some r ↔
    ∃ p, p <+: a ∧ route t p = some r ∧
      ∀ q, q <+: a → p.length < q.length → route t q = none := by
  induction a using List.reverseRecOn with
  | nil =>
    have hlookup : lookup t ([] : List β) = route t [] := by
      rw [lookup, List.inits, List.reverse_singleton, List.findSome?_singleton]
    rw [hlookup]
    constructor
    · exact fun h => ⟨[], List.nil_prefix, h, fun q hq hlt => absurd hlt (by
        rw [List.prefix_nil.mp hq]
        exact Nat.lt_irrefl _)⟩
    · rintro ⟨p, hp, hr, -⟩
      rwa [List.prefix_nil.mp hp] at hr
  | append_singleton a c ih =>
    have hlookup : lookup t (a ++ [c]) = (route t (a ++ [c])).or (lookup t a) := by
      rw [lookup, List.inits_append, lookup]
      simp only [List.inits, List.map_cons, List.map_nil, List.tail_cons,
        List.reverse_append, List.reverse_singleton, List.singleton_append, List.findSome?_cons]
      cases route t (a ++ [c]) with
      | none => rfl
      | some r' => rfl
    have hbegins : ∀ q, q <+: a ++ [c] ↔ q = a ++ [c] ∨ q <+: a := fun q => List.prefix_concat_iff
    have hlen : ∀ q, q <+: a → q.length < (a ++ [c]).length := fun q hq => by
      rw [List.length_append, List.length_singleton]
      exact Nat.lt_succ_of_le hq.length_le
    rw [hlookup]
    rcases hroute : route t (a ++ [c]) with _ | r'
    · rw [Option.none_or, ih]
      constructor
      · rintro ⟨p, hp, hr, hlong⟩
        refine ⟨p, (hbegins p).mpr (.inr hp), hr, fun q hq hlt => ?_⟩
        rcases (hbegins q).mp hq with rfl | hq
        · exact hroute
        · exact hlong q hq hlt
      · rintro ⟨p, hp, hr, hlong⟩
        rcases (hbegins p).mp hp with rfl | hp
        · rw [hroute] at hr
          cases hr
        · exact ⟨p, hp, hr, fun q hq hlt => hlong q ((hbegins q).mpr (.inr hq)) hlt⟩
    · rw [Option.some_or]
      constructor
      · rintro h
        refine ⟨a ++ [c], List.prefix_refl _, hroute.trans h, fun q hq hlt => ?_⟩
        exact absurd hlt (Nat.not_lt.mpr hq.length_le)
      · rintro ⟨p, hp, hr, hlong⟩
        rcases (hbegins p).mp hp with rfl | hp
        · rw [← hr, hroute]
        · rw [hlong _ (List.prefix_refl _) (hlen p hp)] at hroute
          cases hroute

/-- The route that is taken has the longest prefix, which is at least this one. -/
theorem exists_of_lookup (hp : p <+: a) (hroute : (route t p).isSome = true) :
    ∃ q r, lookup t a = some r ∧ q <+: a ∧ p.length ≤ q.length ∧ route t q = some r ∧
      ∀ q', q' <+: a → q.length < q'.length → route t q' = none := by
  rcases hlookup : lookup t a with _ | r
  · rw [lookup, List.findSome?_eq_none_iff] at hlookup
    rw [hlookup p (List.mem_reverse.mpr ((List.mem_inits _ _).mpr hp))] at hroute
    cases hroute
  · obtain ⟨q, hq, hr, hlong⟩ := lookup_eq_some.mp hlookup
    refine ⟨q, r, rfl, hq, Nat.le_of_not_lt fun hlt => ?_, hr, hlong⟩
    rw [hlong p hp hlt] at hroute
    cases hroute

/-! ## Rules -/

/-- A rule: its place in the order, the packets that it selects, and the table they are looked up
in. -/
structure Rule (σ : Type u) (τ : Type v) where
  /-- the place -/
  priority : ℕ
  /-- the packets -/
  selector : σ
  /-- the table -/
  table : τ
  deriving DecidableEq

section Rules

variable {σ : Type u} {τ : Type v} {α : Type w} {rules : List (Rule σ τ)} {rule : Rule σ τ}

/-- The first route that is found for a packet: by the rules that select it, in their order. -/
def firstRoute {ρ : Type*} (selects : σ → α → Bool) (find : τ → α → Option ρ)
    (rules : List (Rule σ τ)) (a : α) : Option ρ :=
  rules.findSome? fun rule => if selects rule.selector a then find rule.table a else none

/-- A rule is put behind those of its place. -/
def insertRule (rule : Rule σ τ) (rules : List (Rule σ τ)) : List (Rule σ τ) :=
  rules.takeWhile (fun x => x.priority ≤ rule.priority) ++
    rule :: rules.dropWhile (fun x => x.priority ≤ rule.priority)

/-- Rules in their order. -/
def Ordered (rules : List (Rule σ τ)) : Prop :=
  rules.Pairwise fun x y => x.priority ≤ y.priority

/-- What stands behind the new rule has a later place. -/
theorem Ordered.behind (h : Ordered rules) {x : Rule σ τ}
    (hx : x ∈ rules.dropWhile fun y => decide (y.priority ≤ rule.priority)) :
    rule.priority < x.priority := by
  obtain ⟨first, rest, hdrop⟩ : ∃ first rest,
      rules.dropWhile (fun y => decide (y.priority ≤ rule.priority)) = first :: rest :=
    List.exists_cons_of_ne_nil (List.ne_nil_of_mem hx)
  have hfirst : ¬first.priority ≤ rule.priority := by
    have hhead := List.head?_dropWhile_not (fun y => decide (y.priority ≤ rule.priority)) rules
    rw [hdrop] at hhead
    simpa using hhead
  have hpairs := h.sublist (List.dropWhile_sublist fun y => decide (y.priority ≤ rule.priority))
  rw [hdrop] at hx hpairs
  rcases List.mem_cons.mp hx with rfl | hx
  · omega
  · have hle := (List.pairwise_cons.mp hpairs).1 x hx
    omega

theorem Ordered.insertRule (h : Ordered rules) : Ordered (insertRule rule rules) := by
  rw [Ordered, Forwarding.insertRule, List.pairwise_append, List.pairwise_cons]
  have hfront : ∀ x ∈ rules.takeWhile (fun y => decide (y.priority ≤ rule.priority)),
      x.priority ≤ rule.priority := fun x hx => by simpa using List.mem_takeWhile_imp hx
  refine ⟨h.sublist (List.takeWhile_sublist _),
    ⟨fun x hx => (h.behind hx).le, h.sublist (List.dropWhile_sublist _)⟩, fun x hx y hy => ?_⟩
  rcases List.mem_cons.mp hy with rfl | hy
  · exact hfront x hx
  · exact (hfront x hx).trans (h.behind hy).le

/-- **A rule behind those of its kind** stands at their end, and the others are as they were. -/
theorem Ordered.filter_insertRule (h : Ordered rules) {f : Rule σ τ → Bool}
    (hlast : ∀ x ∈ rules.filter f, x.priority ≤ rule.priority) (hrule : f rule = true) :
    (Forwarding.insertRule rule rules).filter f = rules.filter f ++ [rule] ∧
      (Forwarding.insertRule rule rules).filter (fun x => !f x) = rules.filter fun x => !f x := by
  have hnone : (rules.dropWhile fun x => decide (x.priority ≤ rule.priority)).filter f = [] := by
    rw [List.filter_eq_nil_iff]
    intro x hx hfx
    have hle := hlast x (List.mem_filter.mpr ⟨(List.dropWhile_sublist _).mem hx, hfx⟩)
    have hlt := h.behind hx
    omega
  have hsplit := List.takeWhile_append_dropWhile
    (p := fun x : Rule σ τ => decide (x.priority ≤ rule.priority)) (l := rules)
  constructor
  · conv_rhs => rw [← hsplit]
    rw [Forwarding.insertRule, List.filter_append, List.filter_append, List.filter_cons_of_pos hrule,
      hnone, List.append_nil]
  · conv_rhs => rw [← hsplit]
    rw [Forwarding.insertRule, List.filter_append, List.filter_append,
      List.filter_cons_of_neg (by rw [hrule]; decide)]

/-- Rules in their order: those before a place, and then the others. -/
theorem Ordered.split (h : Ordered rules) (b : ℕ) :
    rules.filter (fun x => x.priority < b) ++ rules.filter (fun x => b ≤ x.priority) = rules := by
  induction rules with
  | nil => rfl
  | cons first rules ih =>
    obtain ⟨hfirst, hrest⟩ := List.pairwise_cons.mp h
    by_cases hb : first.priority < b
    · rw [List.filter_cons_of_pos (by simpa using hb),
        List.filter_cons_of_neg (by simpa using hb), List.cons_append, ih hrest]
    · have hnone : (first :: rules).filter (fun x => decide (x.priority < b)) = [] := by
        rw [List.filter_eq_nil_iff]
        intro x hx
        rcases List.mem_cons.mp hx with rfl | hx
        · simpa using hb
        · have hle := hfirst x hx
          simp only [decide_eq_true_eq]
          omega
      have hall : (first :: rules).filter (fun x => decide (b ≤ x.priority)) =
          first :: rules := by
        rw [List.filter_eq_self]
        intro x hx
        simpa using (List.filter_eq_nil_iff.mp hnone) x hx
      rw [hnone, hall, List.nil_append]

section Packets

variable {ρ : Type*} {selects : σ → α → Bool} {find : τ → α → Option ρ} {a : α}

theorem firstRoute_append (rules rules' : List (Rule σ τ)) :
    firstRoute selects find (rules ++ rules') a =
      (firstRoute selects find rules a).or (firstRoute selects find rules' a) :=
  List.findSome?_append

/-- Rules with one table: a packet that is selected is looked up there. -/
theorem firstRoute_eq {table : τ} (htable : ∀ x ∈ rules, x.table = table)
    (hselects : ∃ x ∈ rules, selects x.selector a = true) :
    firstRoute selects find rules a = find table a := by
  induction rules with
  | nil =>
    obtain ⟨x, hx, -⟩ := hselects
    cases hx
  | cons first rules ih =>
    rw [firstRoute, List.findSome?_cons, htable first List.mem_cons_self]
    by_cases hfirst : selects first.selector a = true
    · rw [if_pos hfirst]
      rcases hfind : find table a with _ | r
      · refine List.findSome?_eq_none_iff.mpr fun x hx => ?_
        rw [htable x (List.mem_cons_of_mem _ hx), hfind, ite_self]
      · rfl
    · rw [if_neg hfirst]
      refine ih (fun x hx => htable x (List.mem_cons_of_mem _ hx)) ?_
      obtain ⟨x, hx, hsel⟩ := hselects
      rcases List.mem_cons.mp hx with rfl | hx
      · exact absurd hsel hfirst
      · exact ⟨x, hx, hsel⟩

end Packets

end Rules

end Forwarding
