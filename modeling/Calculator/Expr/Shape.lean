import Calculator.Expr.Basic

/-!
# The shape of an expression

Trees may be put together in any way, but reading a text and evaluating it pass by pass only make
trees of one shape, the *canonical* one: a chain has operators, none of its operands is itself a
chain, and what is negated is a group.  In a canonical tree all parentheses of its text are groups.
This is a condition on each node by itself (`isCanonical_iff_isPart`).

`groupDepth` is how many groups lie inside of one another.
-/

set_option autoImplicit false

namespace Calculator
namespace Expr

variable {α : Type}

/-- The shape of the trees that are read from texts. -/
inductive IsCanonical : Expr α → Prop
  | number (value : α) : IsCanonical (number value)
  | group {inner : Expr α} (h : IsCanonical inner) : IsCanonical (group inner)
  | negate {inner : Expr α} (h : IsCanonical inner) : IsCanonical (negate (group inner))
  | chain {first : Expr α} {rest : List (Operator × Expr α)} (ne : rest ≠ [])
      (hfirst : IsCanonical first) (hrest : ∀ link ∈ rest, IsCanonical link.2)
      (flat : first.isChain = false) (flatRest : ∀ link ∈ rest, link.2.isChain = false) :
      IsCanonical (chain first rest)

/-- An expression stands somewhere in another one, or is that one. -/
inductive IsPart (part : Expr α) : Expr α → Prop
  | self : IsPart part part
  | negate {inner : Expr α} (h : IsPart part inner) : IsPart part (negate inner)
  | group {inner : Expr α} (h : IsPart part inner) : IsPart part (group inner)
  | first {first : Expr α} {rest : List (Operator × Expr α)} (h : IsPart part first) :
      IsPart part (chain first rest)
  | operand {first : Expr α} {rest : List (Operator × Expr α)} {link : Operator × Expr α}
      (hlink : link ∈ rest) (h : IsPart part link.2) : IsPart part (chain first rest)

mutual

/-- The greatest number of groups that lie inside of one another. -/
def groupDepth : Expr α → Nat
  | number _ => 0
  | negate inner => inner.groupDepth
  | group inner => inner.groupDepth + 1
  | chain first rest => max first.groupDepth (groupDepthRest rest)

/-- The greatest depth of an operand in the rest of a chain. -/
def groupDepthRest : List (Operator × Expr α) → Nat
  | [] => 0
  | (_, operand) :: rest => max operand.groupDepth (groupDepthRest rest)

end

theorem isCanonical_group_iff {inner : Expr α} :
    (group inner).IsCanonical ↔ inner.IsCanonical :=
  ⟨fun | .group h => h, .group⟩

theorem isCanonical_negate_iff {e : Expr α} :
    (negate e).IsCanonical ↔ ∃ inner, e = group inner ∧ inner.IsCanonical := by
  constructor
  · intro h
    cases h with
    | negate h => exact ⟨_, rfl, h⟩
  · rintro ⟨inner, rfl, h⟩
    exact .negate h

/-- The operands of a canonical chain are canonical, and no chains. -/
theorem isCanonical_chain_iff {first : Expr α} {rest : List (Operator × Expr α)} :
    (chain first rest).IsCanonical ↔
      rest ≠ [] ∧ (first.IsCanonical ∧ first.isChain = false) ∧
        ∀ link ∈ rest, link.2.IsCanonical ∧ link.2.isChain = false := by
  constructor
  · intro h
    cases h with
    | chain ne hfirst hrest flat flatRest =>
      exact ⟨ne, ⟨hfirst, flat⟩, fun link hl => ⟨hrest link hl, flatRest link hl⟩⟩
  · rintro ⟨ne, ⟨hfirst, flat⟩, hrest⟩
    exact .chain ne hfirst (fun link hl => (hrest link hl).1) flat fun link hl => (hrest link hl).2

/-- A chain without operators is none, so what `ofChain` builds of canonical operands is
canonical. -/
theorem IsCanonical.ofChain {first : Expr α} {rest : List (Operator × Expr α)}
    (hfirst : first.IsCanonical) (hrest : ∀ link ∈ rest, link.2.IsCanonical)
    (flat : first.isChain = false) (flatRest : ∀ link ∈ rest, link.2.isChain = false) :
    (Expr.ofChain first rest).IsCanonical := by
  cases rest with
  | nil => exact hfirst
  | cons link rest => exact .chain (List.cons_ne_nil _ _) hfirst hrest flat flatRest

/-! ## The shape of the nodes -/

theorem IsPart.isCanonical {part e : Expr α} (h : IsPart part e) (hc : e.IsCanonical) :
    part.IsCanonical := by
  induction h with
  | self => exact hc
  | negate _ ih =>
    obtain ⟨inner, rfl, hinner⟩ := isCanonical_negate_iff.1 hc
    exact ih (.group hinner)
  | group _ ih => exact ih (isCanonical_group_iff.1 hc)
  | first _ ih => exact ih (isCanonical_chain_iff.1 hc).2.1.1
  | operand hlink _ ih => exact ih ((isCanonical_chain_iff.1 hc).2.2 _ hlink).1

/-- **A tree is canonical if each of its nodes is**: wherever there is a negation it is one of a
group, and wherever there is a chain it has operators and its operands are no chains. -/
theorem isCanonical_iff_isPart {e : Expr α} :
    e.IsCanonical ↔ (∀ inner, IsPart (negate inner) e → ∃ inner', inner = group inner') ∧
      ∀ first rest, IsPart (chain first rest) e →
        rest ≠ [] ∧ first.isChain = false ∧ ∀ link ∈ rest, link.2.isChain = false := by
  constructor
  · intro hc
    refine ⟨fun inner h => ?_, fun first rest h => ?_⟩
    · obtain ⟨inner', rfl, -⟩ := isCanonical_negate_iff.1 (h.isCanonical hc)
      exact ⟨inner', rfl⟩
    · obtain ⟨ne, ⟨-, flat⟩, hrest⟩ := isCanonical_chain_iff.1 (h.isCanonical hc)
      exact ⟨ne, flat, fun link hl => (hrest link hl).2⟩
  · rintro ⟨hnegate, hchain⟩
    induction e using Expr.induction with
    | number value => exact .number value
    | negate inner ih =>
      obtain ⟨inner', rfl⟩ := hnegate inner .self
      have hinner := ih (fun inner h => hnegate inner (.negate h))
        fun first rest h => hchain first rest (.negate h)
      exact .negate (isCanonical_group_iff.1 hinner)
    | group inner ih =>
      exact .group (ih (fun inner h => hnegate inner (.group h))
        fun first rest h => hchain first rest (.group h))
    | chain first rest ihf ihr =>
      obtain ⟨ne, flat, flatRest⟩ := hchain first rest .self
      have hfirst := ihf (fun inner h => hnegate inner (.first h))
        fun first rest h => hchain first rest (.first h)
      refine isCanonical_chain_iff.2 ⟨ne, ⟨hfirst, flat⟩, fun link hl => ⟨?_, flatRest link hl⟩⟩
      exact ihr link hl (fun inner h => hnegate inner (.operand hl h))
        fun first rest h => hchain first rest (.operand hl h)

/-! ## The depth of a chain -/

theorem groupDepth_ofChain (first : Expr α) (rest : List (Operator × Expr α)) :
    (ofChain first rest).groupDepth = max first.groupDepth (groupDepthRest rest) := by
  cases rest with
  | nil => rw [ofChain, groupDepthRest, Nat.max_zero]
  | cons link rest => rw [ofChain, groupDepth]

theorem groupDepthRest_append (rest rest' : List (Operator × Expr α)) :
    groupDepthRest (rest ++ rest') = max (groupDepthRest rest) (groupDepthRest rest') := by
  induction rest with
  | nil => rw [List.nil_append, groupDepthRest, Nat.zero_max]
  | cons link rest ih => rw [List.cons_append, groupDepthRest, groupDepthRest, ih, Nat.max_assoc]

end Expr
end Calculator
