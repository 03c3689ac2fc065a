import Mathlib.Tactic.Common
import Mathlib.Data.List.Nodup
import Mathlib.Logic.Function.Basic

namespace RiscvWorkshop

/-!
# Lists threaded through memory

A node holds the address of the next one, and the last node holds the null
address.  The list that starts at an address is the one that the memory spells
out, so that a memory holds at most one.
-/

section Linked

variable {Address : Type*}

/-- The nodes that are linked from an address on, up to the null address. -/
def Linked
    (null : Address)
    (next : Address → Address) :
    Address → List Address → Prop
  | head, [] => head = null
  | head, node :: rest =>
      head = node ∧ node ≠ null ∧ Linked null next (next node) rest

variable {null : Address}
variable {next after : Address → Address}
variable {head node : Address}
variable {nodes others : List Address}

/-- Nothing is linked from the null address. -/
theorem linked_null :
    Linked null next null [] :=
  rfl

/-- A list with a first node starts at it. -/
theorem Linked.head_eq
    (linked : Linked null next head (node :: nodes)) :
    head = node :=
  linked.1

/-- No node is at the null address. -/
theorem Linked.ne_null
    (linked : Linked null next head nodes) :
    ∀ node ∈ nodes, node ≠ null := by
  induction nodes generalizing head with
  | nil => exact nofun
  | cons first rest inductionHypothesis =>
      intro node member
      rcases List.mem_cons.mp member with rfl | later
      · exact linked.2.1
      · exact inductionHypothesis linked.2.2 node later

/-- A list starts at the null address exactly when it is empty. -/
theorem Linked.head_eq_null
    (linked : Linked null next head nodes) :
    head = null ↔ nodes = [] := by
  cases nodes with
  | nil => exact ⟨fun _ => rfl, fun _ => linked⟩
  | cons first rest =>
      refine ⟨fun isNull => ?_, nofun⟩
      exact absurd (linked.1.symm.trans isNull) linked.2.1

/-- The memory spells out one list from an address. -/
theorem Linked.unique
    (linked : Linked null next head nodes)
    (same : Linked null next head others) :
    nodes = others := by
  induction nodes generalizing head others with
  | nil => exact (same.head_eq_null.mp linked).symm
  | cons first rest inductionHypothesis =>
      cases others with
      | nil => exact absurd (linked.1.symm.trans same) linked.2.1
      | cons first' rest' =>
          obtain rfl := linked.1.symm.trans same.1
          rw [inductionHypothesis linked.2.2 same.2.2]

/-- From any of its nodes on, a list is its later part. -/
theorem Linked.suffix
    {before later : List Address}
    (linked : Linked null next head (before ++ node :: later)) :
    Linked null next node (node :: later) := by
  induction before generalizing head with
  | nil => exact ⟨rfl, linked.2⟩
  | cons first before inductionHypothesis =>
      exact inductionHypothesis linked.2.2

/-- A list that ends passes no node twice. -/
theorem Linked.nodup
    (linked : Linked null next head nodes) :
    nodes.Nodup := by
  induction nodes generalizing head with
  | nil => exact List.nodup_nil
  | cons first rest inductionHypothesis =>
      refine List.nodup_cons.mpr ⟨fun again => ?_,
        inductionHypothesis linked.2.2⟩
      -- the list from the second pass on would be the whole list
      obtain ⟨before, later, rfl⟩ := List.append_of_mem again
      have whole : Linked null next first (first :: (before ++ first :: later)) :=
        ⟨rfl, linked.2⟩
      have lengths := congrArg List.length (whole.unique linked.2.2.suffix)
      simp only [List.length_cons, List.length_append] at lengths
      omega

/-- A memory that agrees on the nodes spells out the same list. -/
theorem Linked.congr
    (linked : Linked null next head nodes)
    (same : ∀ node ∈ nodes, after node = next node) :
    Linked null after head nodes := by
  induction nodes generalizing head with
  | nil => exact linked
  | cons first rest inductionHypothesis =>
      refine ⟨linked.1, linked.2.1, ?_⟩
      rw [same first List.mem_cons_self]
      exact inductionHypothesis linked.2.2
        fun node member => same node (List.mem_cons_of_mem first member)

/-- A new node in front points to the old first one. -/
theorem Linked.push
    (linked : Linked null next head nodes)
    (notNull : node ≠ null)
    (points : after node = head)
    (same : ∀ other ∈ nodes, after other = next other) :
    Linked null after node (node :: nodes) :=
  ⟨rfl, notNull, points ▸ linked.congr same⟩

/-- Without its first node the list starts where the node pointed to. -/
theorem Linked.pop
    (linked : Linked null next head (node :: nodes))
    (same : ∀ other ∈ nodes, after other = next other) :
    Linked null after (next node) nodes :=
  linked.2.2.congr same

/-- Only the last node of a list points to the null address. -/
theorem Linked.next_eq_null
    (linked : Linked null next head nodes)
    (member : node ∈ nodes) :
    next node = null ↔ nodes.getLast? = some node := by
  obtain ⟨before, later, rfl⟩ := List.append_of_mem member
  have fromNode := linked.suffix
  rw [fromNode.2.2.head_eq_null,
    List.getLast?_append_of_ne_nil _ (List.cons_ne_nil node later)]
  cases later with
  | nil => exact iff_of_true rfl rfl
  | cons second later =>
      refine iff_of_false nofun fun last => ?_
      rw [List.getLast?_cons_cons] at last
      -- the node is not among the later ones
      have once := linked.nodup.of_append_right
      exact (List.nodup_cons.mp once).1 (List.mem_of_getLast? last)

/-- A list that ends with a node is linked up to that node. -/
theorem Linked.dropLast
    (linked : Linked null next head nodes)
    (last : nodes.getLast? = some node) :
    Linked node next head nodes.dropLast := by
  have once := linked.nodup
  induction nodes generalizing head with
  | nil => cases last
  | cons first rest inductionHypothesis =>
      obtain ⟨rfl, notNull, later⟩ := linked
      cases rest with
      | nil =>
          obtain rfl := Option.some.inj last
          exact rfl
      | cons second rest =>
          rw [List.getLast?_cons_cons] at last
          obtain ⟨notIn, once⟩ := List.nodup_cons.mp once
          refine ⟨rfl, ?_, inductionHypothesis later last once⟩
          rintro rfl
          exact notIn (List.mem_of_getLast? last)

end Linked

end RiscvWorkshop
