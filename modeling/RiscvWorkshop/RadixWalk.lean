import Mathlib

namespace RiscvWorkshop.RadixWalk

/-!
# Walks in a radix tree

Nodes hold children under digits, and an address selects one digit at every
depth.  The module knows nothing about page tables: it says when two walks can
meet, and what happens to walks when one child is added or taken away.
-/

variable {Node Addr : Type*}
variable {child grown shrunk : Node → Nat → Option Node}
variable {digit : Addr → Nat → Nat}
variable {root : Node}

/-- The node that an address reaches after a number of descents. -/
def walkTo
    (child : Node → Nat → Option Node)
    (digit : Addr → Nat → Nat)
    (root : Node)
    (address : Addr) :
    Nat → Option Node
  | 0 => some root
  | depth + 1 =>
      (walkTo child digit root address depth).bind fun node =>
        child node (digit address depth)

/-- No two slots hold the same child, and no slot holds the root. -/
structure OneParent
    (child : Node → Nat → Option Node)
    (root : Node) : Prop where
  unique :
    ∀ {first second firstDigit secondDigit node},
      child first firstDigit = some node →
      child second secondDigit = some node →
      first = second ∧ firstDigit = secondDigit
  rootless : ∀ node slot, child node slot ≠ some root

theorem walkTo_succ_eq_some
    {address : Addr}
    {depth : Nat}
    {node : Node} :
    walkTo child digit root address (depth + 1) = some node ↔
      ∃ parent,
        walkTo child digit root address depth = some parent ∧
          child parent (digit address depth) = some node := by
  simp [walkTo, Option.bind_eq_some_iff]

/-- Walks that meet have the same length and used the same digits. -/
theorem walkTo_meet
    (oneParent : OneParent child root)
    {first second : Addr}
    {node : Node} :
    ∀ {firstDepth secondDepth : Nat},
      walkTo child digit root first firstDepth = some node →
      walkTo child digit root second secondDepth = some node →
      firstDepth = secondDepth ∧
        ∀ depth < firstDepth, digit first depth = digit second depth := by
  intro firstDepth
  induction firstDepth generalizing node with
  | zero =>
      intro secondDepth firstWalk secondWalk
      cases firstWalk
      cases secondDepth with
      | zero =>
          exact ⟨rfl, fun depth bound => absurd bound (Nat.not_lt_zero depth)⟩
      | succ secondDepth =>
          obtain ⟨parent, _, holds⟩ := walkTo_succ_eq_some.mp secondWalk
          exact absurd holds (oneParent.rootless parent _)
  | succ firstDepth inductionHypothesis =>
      intro secondDepth firstWalk secondWalk
      obtain ⟨firstParent, firstEarlier, firstHolds⟩ :=
        walkTo_succ_eq_some.mp firstWalk
      cases secondDepth with
      | zero =>
          cases secondWalk
          exact absurd firstHolds (oneParent.rootless firstParent _)
      | succ secondDepth =>
          obtain ⟨secondParent, secondEarlier, secondHolds⟩ :=
            walkTo_succ_eq_some.mp secondWalk
          obtain ⟨sameParent, sameDigit⟩ :=
            oneParent.unique firstHolds secondHolds
          subst sameParent
          obtain ⟨sameDepth, sameDigits⟩ :=
            inductionHypothesis firstEarlier secondEarlier
          subst sameDepth
          refine ⟨rfl, fun depth bound => ?_⟩
          rcases Nat.lt_succ_iff_lt_or_eq.mp bound with earlier | last
          · exact sameDigits depth earlier
          · exact last ▸ sameDigit

/-- Addresses with the same leading digits walk together. -/
theorem walkTo_congr
    {first second : Addr}
    {depth : Nat}
    (sameDigits :
      ∀ earlier < depth, digit first earlier = digit second earlier) :
    walkTo child digit root first depth =
      walkTo child digit root second depth := by
  induction depth with
  | zero =>
      rfl
  | succ depth inductionHypothesis =>
      rw [walkTo, walkTo, sameDigits depth (Nat.lt_succ_self depth),
        inductionHypothesis fun earlier bound =>
          sameDigits earlier (Nat.lt_succ_of_lt bound)]

/-- A walk stays possible when children are only added. -/
theorem walkTo_mono
    (more :
      ∀ {node slot below},
        child node slot = some below → grown node slot = some below)
    {address : Addr}
    {node : Node} :
    ∀ {depth : Nat},
      walkTo child digit root address depth = some node →
      walkTo grown digit root address depth = some node := by
  intro depth
  induction depth generalizing node with
  | zero =>
      exact id
  | succ depth inductionHypothesis =>
      intro walk
      obtain ⟨parent, earlier, holds⟩ := walkTo_succ_eq_some.mp walk
      exact walkTo_succ_eq_some.mpr
        ⟨parent, inductionHypothesis earlier, more holds⟩

/--
After one childless node is added under one slot, a walk is an old one or ends
at the new node.
-/
theorem walkTo_grown
    {node fresh : Node}
    {slot : Nat}
    (added :
      ∀ {other otherSlot below},
        grown other otherSlot = some below →
          child other otherSlot = some below ∨
            (other = node ∧ otherSlot = slot ∧ below = fresh))
    (childless : ∀ otherSlot, grown fresh otherSlot = none)
    {address : Addr}
    {target : Node} :
    ∀ {depth : Nat},
      walkTo grown digit root address depth = some target →
        walkTo child digit root address depth = some target ∨
          (target = fresh ∧
            ∃ earlier,
              depth = earlier + 1 ∧
                walkTo child digit root address earlier = some node ∧
                digit address earlier = slot) := by
  intro depth
  induction depth generalizing target with
  | zero =>
      exact .inl
  | succ depth inductionHypothesis =>
      intro walk
      obtain ⟨parent, earlier, holds⟩ := walkTo_succ_eq_some.mp walk
      rcases inductionHypothesis earlier with old | ⟨rfl, _⟩
      · rcases added holds with oldChild | ⟨rfl, rfl, rfl⟩
        · exact .inl (walkTo_succ_eq_some.mpr ⟨parent, old, oldChild⟩)
        · exact .inr ⟨rfl, depth, rfl, old, rfl⟩
      · rw [childless] at holds
        cases holds

/-- Taking one childless node away leaves the walks to every other node. -/
theorem walkTo_shrunk
    {removed : Node}
    (kept :
      ∀ {node slot below},
        child node slot = some below → below ≠ removed →
          shrunk node slot = some below)
    (childless : ∀ slot, child removed slot = none)
    {address : Addr}
    {target : Node}
    (different : target ≠ removed) :
    ∀ {depth : Nat},
      walkTo child digit root address depth = some target →
      walkTo shrunk digit root address depth = some target := by
  intro depth
  induction depth generalizing target with
  | zero =>
      exact id
  | succ depth inductionHypothesis =>
      intro walk
      obtain ⟨parent, earlier, holds⟩ := walkTo_succ_eq_some.mp walk
      have parentStays : parent ≠ removed := by
        rintro rfl
        rw [childless] at holds
        cases holds
      exact walkTo_succ_eq_some.mpr
        ⟨parent, inductionHypothesis parentStays earlier,
          kept holds different⟩

end RiscvWorkshop.RadixWalk
