import Mathlib.Tactic.Common

namespace RiscvWorkshop

/-!
# The kernel's queues

A queue is the list of its elements from the top to the last.
-/

/-- `_how` of `queue_add_sort`. -/
inductive QueueAdd where
  | ascending
  | descending
deriving Repr, DecidableEq

/--
`queue_add_sort`.  The loop looks at the link behind an element before it
compares the element, so that nothing is put behind the last one.
-/
def queueAddSort
    {Elem : Type*}
    (cmp : Elem → Elem → Int)
    (how : QueueAdd)
    (node : Elem) : List Elem → List Elem
  | [] => [node]
  | [last] => [node, last]
  | elem :: next :: rest =>
      if how = .ascending ∧ cmp node elem < 0 ∨
          how = .descending ∧ cmp node elem > 0 then
        node :: elem :: next :: rest
      else
        elem :: queueAddSort cmp how node (next :: rest)

/-- Whether `queue_add_sort` puts the node before an element. -/
def QueueAdd.Precedes
    {Elem : Type*}
    (how : QueueAdd)
    (cmp : Elem → Elem → Int)
    (node elem : Elem) : Prop :=
  how = .ascending ∧ cmp node elem < 0 ∨
    how = .descending ∧ cmp node elem > 0

instance
    {Elem : Type*}
    (how : QueueAdd)
    (cmp : Elem → Elem → Int)
    (node elem : Elem) :
    Decidable (how.Precedes cmp node elem) :=
  inferInstanceAs (Decidable (_ ∧ _ ∨ _ ∧ _))

section AddSort

variable {Elem : Type*}
variable {cmp : Elem → Elem → Int}
variable {how : QueueAdd}
variable {node : Elem}
variable {que : List Elem}

/--
The node goes behind the elements that it does not precede, and never behind
the last one.
-/
theorem queueAddSort_split
    (cmp : Elem → Elem → Int)
    (how : QueueAdd)
    (node : Elem)
    (que : List Elem) :
    ∃ before after,
      que = before ++ after ∧
        queueAddSort cmp how node que = before ++ node :: after ∧
        (∀ elem ∈ before, ¬ how.Precedes cmp node elem) ∧
        (∀ first ∈ after.head?,
          how.Precedes cmp node first ∨ after = [first]) ∧
        ∀ last ∈ que.getLast?, last ∈ after := by
  induction que with
  | nil =>
      exact ⟨[], [], rfl, rfl, by simp, by simp, by simp⟩
  | cons elem rest inductionHypothesis =>
      cases rest with
      | nil =>
          refine ⟨[], [elem], rfl, rfl, by simp, ?_, by simp⟩
          intro first isFirst
          cases isFirst
          exact .inr rfl
      | cons next others =>
          obtain ⟨before, after, split, added, passed, stopped, last⟩ :=
            inductionHypothesis
          by_cases precedes : how.Precedes cmp node elem
          · refine ⟨[], elem :: next :: others, rfl, if_pos precedes, by simp,
              ?_, fun _ => List.mem_of_getLast?⟩
            intro first isFirst
            cases isFirst
            exact .inl precedes
          · refine ⟨elem :: before, after, by rw [split, List.cons_append], ?_,
              ?_, stopped, ?_⟩
            · rw [QueueAdd.Precedes] at precedes
              rw [queueAddSort, if_neg precedes, added, List.cons_append]
            · intro other member
              rcases List.mem_cons.mp member with same | later
              · exact same ▸ precedes
              · exact passed other later
            · intro final isLast
              rw [List.getLast?_cons_cons] at isLast
              exact last final isLast

/-- Sorting keeps the elements. -/
theorem queueAddSort_perm
    (cmp : Elem → Elem → Int)
    (how : QueueAdd)
    (node : Elem)
    (que : List Elem) :
    (queueAddSort cmp how node que).Perm (node :: que) := by
  obtain ⟨before, after, split, added, -⟩ :=
    queueAddSort_split cmp how node que
  rw [added, split]
  exact List.perm_middle

/--
A queue in an order stays so when the node does not come behind the last
element, and is put where the order has it otherwise.
-/
theorem queueAddSort_pairwise
    {order : Elem → Elem → Prop}
    (trans : ∀ {first second third},
      order first second → order second third → order first third)
    (passed : ∀ elem ∈ que, ¬ how.Precedes cmp node elem → order elem node)
    (stopped : ∀ elem ∈ que, how.Precedes cmp node elem → order node elem)
    (sorted : que.Pairwise order)
    (notBehind : ∀ last ∈ que.getLast?, order node last) :
    (queueAddSort cmp how node que).Pairwise order := by
  obtain ⟨before, after, split, added, passes, stops, -⟩ :=
    queueAddSort_split cmp how node que
  subst split
  rw [added]
  obtain ⟨inBefore, inAfter, across⟩ := List.pairwise_append.mp sorted
  have fromBefore : ∀ elem ∈ before, order elem node :=
    fun elem member =>
      passed elem (List.mem_append_left _ member) (passes elem member)
  have toAfter : ∀ elem ∈ after, order node elem := by
    cases after with
    | nil =>
        simp
    | cons first rest =>
        have least : order node first := by
          rcases stops first rfl with precedes | only
          · exact stopped first
              (List.mem_append_right _ List.mem_cons_self) precedes
          · refine notBehind first ?_
            rw [only]
            simp
        intro elem member
        rcases List.mem_cons.mp member with same | later
        · exact same ▸ least
        · exact trans least ((List.pairwise_cons.mp inAfter).1 elem later)
  refine List.pairwise_append.mpr
    ⟨inBefore, List.pairwise_cons.mpr ⟨toAfter, inAfter⟩, ?_⟩
  intro first inFirst second inSecond
  rcases List.mem_cons.mp inSecond with same | later
  · exact same ▸ fromBefore first inFirst
  · exact across first inFirst second later

/--
A queue in ascending order stays so when the node does not come behind the
last element.
-/
theorem queueAddSort_sorted
    {key : Elem → Nat}
    (compares : ∀ elem ∈ que, cmp node elem < 0 ↔ key node < key elem)
    (sorted : que.Pairwise fun first second => key first ≤ key second)
    (notBehind : ∀ last ∈ que.getLast?, key node ≤ key last) :
    (queueAddSort cmp .ascending node que).Pairwise
      fun first second => key first ≤ key second := by
  have precedes : ∀ elem ∈ que,
      QueueAdd.ascending.Precedes cmp node elem ↔ key node < key elem := by
    intro elem member
    simp [QueueAdd.Precedes, compares elem member]
  refine queueAddSort_pairwise (fun first second => Nat.le_trans first second)
    ?_ ?_ sorted notBehind
  · intro elem member notBefore
    exact Nat.not_lt.mp ((precedes elem member).not.mp notBefore)
  · intro elem member before
    exact Nat.le_of_lt ((precedes elem member).mp before)

end AddSort

end RiscvWorkshop
