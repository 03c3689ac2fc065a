import Mathlib
import RiscvWorkshop.RbTreeSearch

namespace RiscvWorkshop.RbTree

open LinkedTree
open SearchTree

/-!
# Runs of red-black trees

When the comparisons are those of a key, a tree is a list of nodes in the order
of their keys: nodes come and go as in the list, searches find what is in it,
and loops visit it from one end to the other.
-/

variable {Node : Type*} [DecidableEq Node]
variable {Key : Type*} [LinearOrder Key]

/-- What the comparisons with some key tell. -/
structure Compares
    (key : Node → Key)
    (cmp : Node → Int)
    (wanted : Key) : Prop where
  neg : ∀ node, cmp node < 0 ↔ wanted < key node
  pos : ∀ node, 0 < cmp node ↔ key node < wanted

/-- The nodes are in the order of their keys, and no two keys are the same. -/
def Ordered
    (key : Node → Key)
    (nodes : List Node) : Prop :=
  nodes.Pairwise fun earlier later => key earlier < key later

/-- Insert a node into a list, or return the one with the same key. -/
def insertNode
    (key : Node → Key)
    (nodes : List Node)
    (elm : Node) : Option Node × List Node :=
  match nodes.find? fun node => key node = key elm with
  | some tmp => (some tmp, nodes)
  | none =>
      (none, nodes.orderedInsert (fun node other => key node ≤ key other) elm)

section Lists

variable {key : Node → Key}
variable {cmp : Node → Int}
variable {wanted : Key}
variable {nodes : List Node}
variable {elm : Node}

omit [DecidableEq Node] in
theorem Compares.zero
    (compares : Compares key cmp wanted)
    (node : Node) :
    cmp node = 0 ↔ key node = wanted := by
  have neg := compares.neg node
  have pos := compares.pos node
  constructor
  · intro zero
    refine le_antisymm (not_lt.mp fun above => ?_) (not_lt.mp fun below => ?_)
    · have := neg.mpr above
      omega
    · have := pos.mpr below
      omega
  · intro same
    have notNeg : ¬ cmp node < 0 := fun wrong => (neg.mp wrong).ne' same
    have notPos : ¬ 0 < cmp node := fun wrong => (pos.mp wrong).ne same
    omega

omit [DecidableEq Node] in
/-- A search in an ordered tree finds the node with the key. -/
theorem find_nodeTree
    {tree : Shape Node Color}
    (compares : Compares key cmp wanted)
    (ordered : Ordered key tree.toList) :
    (nodeTree tree).find cmp =
      tree.toList.find? fun node => key node = wanted := by
  have sorted :
      (nodeTree tree).toList.Pairwise fun earlier later =>
        0 < cmp earlier ∨ cmp later < 0 := by
    rw [toList_nodeTree]
    refine ordered.imp fun {earlier later} smaller => ?_
    rcases lt_or_ge (key earlier) wanted with below | above
    · exact .inl ((compares.pos earlier).mpr below)
    · exact .inr ((compares.neg later).mpr (above.trans_lt smaller))
  rw [NodeTree.find_eq_find? sorted, toList_nodeTree]
  simp only [compares.zero]

omit [DecidableEq Node] in
/-- A new node is between the nodes with smaller keys and those with greater ones. -/
theorem exists_split
    (ordered : Ordered key nodes)
    (noneEqual : ∀ node ∈ nodes, key node ≠ wanted) :
    ∃ before after,
      nodes = before ++ after ∧ (∀ node ∈ before, key node < wanted) ∧
        ∀ node ∈ after, wanted < key node := by
  induction nodes with
  | nil => exact ⟨[], [], rfl, by simp, by simp⟩
  | cons first rest inductionHypothesis =>
      obtain ⟨smaller, restOrdered⟩ := List.pairwise_cons.mp ordered
      rcases lt_trichotomy (key first) wanted with below | same | above
      · obtain ⟨before, after, rfl, lower, upper⟩ :=
          inductionHypothesis restOrdered fun node member =>
            noneEqual node (List.mem_cons_of_mem _ member)
        refine ⟨first :: before, after, rfl, fun node member => ?_, upper⟩
        rcases List.mem_cons.mp member with rfl | inBefore
        · exact below
        · exact lower node inBefore
      · exact absurd same (noneEqual first (List.mem_cons_self ..))
      · refine ⟨[], first :: rest, rfl, by simp, fun node member => ?_⟩
        rcases List.mem_cons.mp member with rfl | inRest
        · exact above
        · exact above.trans (smaller node inRest)

omit [DecidableEq Node] in
/-- An ordered insertion puts a node at its place. -/
theorem orderedInsert_split
    {before after : List Node}
    (lower : ∀ node ∈ before, key node < key elm)
    (upper : ∀ node ∈ after, key elm < key node) :
    (before ++ after).orderedInsert (fun node other => key node ≤ key other)
        elm =
      before ++ elm :: after := by
  induction before with
  | nil =>
      cases after with
      | nil => rfl
      | cons first rest =>
          exact
            List.orderedInsert_cons_of_le _ _
              (upper first (List.mem_cons_self ..)).le
  | cons first rest inductionHypothesis =>
      have below := lower first (List.mem_cons_self ..)
      have inRest :=
        inductionHypothesis fun node member =>
          lower node (List.mem_cons_of_mem _ member)
      rw [List.cons_append, List.orderedInsert, if_neg below.not_ge, inRest]
      rfl

omit [DecidableEq Node] in
/-- The order of the keys is kept by an insertion. -/
theorem ordered_insertNode
    (ordered : Ordered key nodes)
    (elm : Node) :
    Ordered key (insertNode key nodes elm).2 := by
  rw [insertNode]
  cases found : nodes.find? fun node => key node = key elm with
  | some tmp => exact ordered
  | none =>
      have noneEqual : ∀ node ∈ nodes, key node ≠ key elm := fun node member =>
        by simpa using List.find?_eq_none.mp found node member
      obtain ⟨before, after, rfl, lower, upper⟩ :=
        exists_split ordered noneEqual
      obtain ⟨inBefore, inAfter, across⟩ := List.pairwise_append.mp ordered
      simp only [orderedInsert_split lower upper]
      refine
        List.pairwise_append.mpr
          ⟨inBefore, List.pairwise_cons.mpr ⟨upper, inAfter⟩,
            fun node member other inRest => ?_⟩
      rcases List.mem_cons.mp inRest with rfl | inAfter
      · exact lower node member
      · exact across node member other inAfter

end Lists

/-! ## Single operations -/

section Operations

variable {links : RbLinks Node}
variable {nodes : List Node}
variable {rounds : Nat}
variable {key : Node → Key}

omit [DecidableEq Node] in
/-- `RB_FIND` finds the node with the key in an ordered tree. -/
theorem IsRb.rbFind
    {cmp : Node → Int}
    {wanted : Key}
    (isRb : IsRb links nodes)
    (ordered : Ordered key nodes)
    (compares : Compares key cmp wanted)
    (enough : 2 * Nat.log 2 (nodes.length + 1) ≤ rounds) :
    rbFind links cmp rounds =
      some (nodes.find? fun node => key node = wanted) := by
  obtain ⟨tree, height, linked, inTree, rfl⟩ := isRb
  have atTop : TreeLinked links (Path.top.fill tree) := linked
  rw [RbTree.rbFind, linked.root,
    rbFindFrom_eq atTop (inTree.depth_le_log.trans enough),
    find_nodeTree compares ordered]

/-- `RB_INSERT` inserts a new node into the ordered list of the nodes. -/
theorem IsRb.rbInsert
    {cmp : Node → Node → Int}
    {elm : Node}
    (isRb : IsRb links nodes)
    (ordered : Ordered key nodes)
    (compares : Compares key (cmp elm) (key elm))
    (enough : 2 * Nat.log 2 (nodes.length + 1) < rounds) :
    ∃ next,
      rbInsert links cmp rounds elm =
          some ((insertNode key nodes elm).1, next) ∧
        IsRb next (insertNode key nodes elm).2 := by
  obtain ⟨tree, height, linked, inTree, rfl⟩ := id isRb
  have finds := find_nodeTree compares ordered
  rw [insertNode]
  cases found : tree.toList.find? fun node => key node = key elm with
  | some tmp =>
      rw [found] at finds
      have noPlace := NodeTree.place_eq_none_iff.mpr ⟨tmp, finds⟩
      obtain ⟨equal, inserted, isEqual⟩ :=
        rbInsert_of_not_place linked inTree noPlace enough
      rw [finds] at isEqual
      cases isEqual
      exact ⟨links, inserted, isRb⟩
  | none =>
      have noneEqual : ∀ node ∈ tree.toList, key node ≠ key elm :=
        fun node member => by simpa using List.find?_eq_none.mp found node member
      have absent : elm ∉ tree.toList := fun member =>
        noneEqual elm member rfl
      obtain ⟨before, after, split, lower, upper⟩ :=
        exists_split ordered noneEqual
      have placed : (nodeTree tree).place (cmp elm) = some (before, after) :=
        NodeTree.place_of_split ((toList_nodeTree tree).trans split)
          (fun node member => (compares.pos node).mpr (lower node member))
          (fun node member => (compares.neg node).mpr (upper node member))
      obtain ⟨next, inserted, isNext⟩ :=
        rbInsert_of_place linked inTree absent placed enough
      refine ⟨next, inserted, ?_⟩
      simp only [split, orderedInsert_split lower upper]
      exact isNext

omit [LinearOrder Key] in
/-- A loop visits the nodes that are ahead, in their order. -/
theorem rbForeachFrom_eq
    {behind ahead : List Node}
    {steps : Nat}
    (side : Side)
    (isRb : IsRb links (side.line (behind ++ ahead)))
    (enough :
      2 * Nat.log 2 ((side.line (behind ++ ahead)).length + 1) ≤ rounds)
    (long : ahead.length ≤ steps) :
    rbForeachFrom links side rounds steps ahead.head? = some ahead := by
  induction ahead generalizing behind steps with
  | nil => cases steps <;> rfl
  | cons first rest inductionHypothesis =>
      obtain ⟨steps, rfl⟩ := Nat.exists_eq_add_of_le' (Nat.succ_le_of_lt (Nat.zero_lt_of_lt long))
      have together := List.append_cons behind first rest
      have inRest :=
        inductionHypothesis (together ▸ isRb) (together ▸ enough)
          (Nat.le_of_succ_le_succ long)
      rw [Side.line_append] at isRb enough
      have next := isRb.rbNeighbor enough
      rw [Side.first_line] at next
      simp only [List.head?_cons, rbForeachFrom, next, inRest, Option.map_some]

/-- `RB_FOREACH` and `RB_FOREACH_REVERSE` visit every node once, in order. -/
theorem IsRb.rbForeach
    {steps : Nat}
    (isRb : IsRb links nodes)
    (side : Side)
    (enough : 2 * Nat.log 2 (nodes.length + 1) ≤ rounds)
    (long : nodes.length ≤ steps) :
    rbForeach links side rounds steps = some (side.line nodes) := by
  obtain ⟨line, rfl⟩ : ∃ line, nodes = side.line line :=
    ⟨side.line nodes, (Side.line_line side nodes).symm⟩
  rw [Side.length_line] at long
  rw [RbTree.rbForeach, isRb.rbMinmax side.other enough, Side.first_line,
    Side.line_line]
  have all : IsRb links (side.line ([] ++ line)) := isRb
  exact rbForeachFrom_eq side all enough long

omit [DecidableEq Node] [LinearOrder Key] in
theorem IsRb.nodup (isRb : IsRb links nodes) : nodes.Nodup := by
  obtain ⟨tree, height, linked, inTree, rfl⟩ := isRb
  exact linked.nodup

/-- Fewer nodes need no more rounds. -/
theorem rounds_mono
    {few many : Nat}
    (fewer : few ≤ many)
    (enough : 2 * Nat.log 2 (many + 1) ≤ rounds) :
    2 * Nat.log 2 (few + 1) ≤ rounds :=
  (Nat.mul_le_mul_left 2
    (Nat.log_mono_right (Nat.succ_le_succ fewer))).trans enough

/-- A loop goes on after the node that it is at was removed. -/
theorem rbForeachSafeFrom_eq
    {kept ahead : List Node}
    {steps : Nat}
    (removes : Node → Bool)
    (isRb : IsRb links (kept ++ ahead))
    (enough : 2 * Nat.log 2 ((kept ++ ahead).length + 1) ≤ rounds)
    (long : ahead.length ≤ steps) :
    ∃ final,
      rbForeachSafeFrom removes rounds steps links ahead.head? =
          some (ahead, final) ∧
        IsRb final (kept ++ ahead.filter fun node => ! removes node) := by
  induction ahead generalizing links kept steps with
  | nil => cases steps <;> exact ⟨links, rfl, isRb⟩
  | cons first rest inductionHypothesis =>
      obtain ⟨steps, rfl⟩ :=
        Nat.exists_eq_add_of_le' (Nat.succ_le_of_lt (Nat.zero_lt_of_lt long))
      have shorter := Nat.le_of_succ_le_succ long
      have atFirst : IsRb links (Side.right.append rest first kept) := isRb
      have next := atFirst.rbNeighbor enough
      have isHead : Side.right.other.first rest = rest.head? := rfl
      rw [isHead] at next
      cases removed : removes first with
      | true =>
          have notKept : first ∉ kept := fun inKept =>
            (List.nodup_append'.mp isRb.nodup).2.2 inKept (List.mem_cons_self ..)
          have erased : (kept ++ first :: rest).erase first = kept ++ rest := by
            rw [List.erase_append_right _ notKept, List.erase_cons_head]
          have member : first ∈ kept ++ first :: rest :=
            List.mem_append_right _ (List.mem_cons_self ..)
          obtain ⟨after, isRemoved, isAfter⟩ := isRb.rbRemove member enough
          rw [erased] at isAfter
          have fewer : (kept ++ rest).length ≤ (kept ++ first :: rest).length := by
            simp
          obtain ⟨final, loop, isFinal⟩ :=
            inductionHypothesis isAfter (rounds_mono fewer enough) shorter
          refine ⟨final, ?_, ?_⟩
          · simp only [List.head?_cons, rbForeachSafeFrom, next, removed,
              if_true, isRemoved, loop, Option.map_some]
          · rw [List.filter_cons_of_neg (by simp [removed])]
            exact isFinal
      | false =>
          rw [List.append_cons] at isRb enough
          obtain ⟨final, loop, isFinal⟩ :=
            inductionHypothesis isRb enough shorter
          refine ⟨final, ?_, ?_⟩
          · simp only [List.head?_cons, rbForeachSafeFrom, next, removed,
              Bool.false_eq_true, if_false, loop, Option.map_some]
          · rw [List.filter_cons_of_pos (by simp [removed]), List.append_cons]
            exact isFinal

/-- `RB_FOREACH_SAFE` visits every node, also when its body removes some. -/
theorem IsRb.rbForeachSafe
    {steps : Nat}
    (isRb : IsRb links nodes)
    (removes : Node → Bool)
    (enough : 2 * Nat.log 2 (nodes.length + 1) ≤ rounds)
    (long : nodes.length ≤ steps) :
    ∃ final,
      rbForeachSafe links removes rounds steps = some (nodes, final) ∧
        IsRb final (nodes.filter fun node => ! removes node) := by
  have all : IsRb links ([] ++ nodes) := isRb
  obtain ⟨final, loop, isFinal⟩ :=
    rbForeachSafeFrom_eq removes all enough long
  refine ⟨final, ?_, isFinal⟩
  rw [RbTree.rbForeachSafe, isRb.rbMinmax .left enough]
  exact loop

end Operations

/-! ## Runs -/

/-- What is done with a tree. -/
inductive Command (Node : Type*) where
  /-- `RB_INSERT` -/
  | insert (elm : Node)
  /-- `RB_REMOVE` -/
  | remove (elm : Node)
deriving Repr, DecidableEq

/-- Do one thing with a tree; an insertion may return an equal node. -/
def perform
    (cmp : Node → Node → Int)
    (rounds : Nat)
    (links : RbLinks Node) : Command Node → Option (Option Node × RbLinks Node)
  | .insert elm => rbInsert links cmp rounds elm
  | .remove elm => (rbRemove links rounds elm).map fun links => (none, links)

/-- Do things with a tree, one after the other. -/
def performAll
    (cmp : Node → Node → Int)
    (rounds : Nat)
    (links : RbLinks Node) :
    List (Command Node) → Option (List (Option Node) × RbLinks Node)
  | [] => some ([], links)
  | command :: rest =>
      match perform cmp rounds links command with
      | none => none
      | some (result, links) =>
          (performAll cmp rounds links rest).map fun (results, links) =>
            (result :: results, links)

/-- The same with an ordered list of nodes. -/
def performList
    (key : Node → Key)
    (nodes : List Node) : Command Node → Option Node × List Node
  | .insert elm => insertNode key nodes elm
  | .remove elm => (none, nodes.erase elm)

def performAllList
    (key : Node → Key)
    (nodes : List Node) :
    List (Command Node) → List (Option Node) × List Node
  | [] => ([], nodes)
  | command :: rest =>
      let (result, nodes) := performList key nodes command
      let (results, nodes) := performAllList key nodes rest
      (result :: results, nodes)

/-- Nodes are only removed while they are in the tree. -/
def RemovesMembers
    (key : Node → Key)
    (nodes : List Node) : List (Command Node) → Prop
  | [] => True
  | .insert elm :: rest =>
      RemovesMembers key (performList key nodes (.insert elm)).2 rest
  | .remove elm :: rest =>
      elm ∈ nodes ∧
        RemovesMembers key (performList key nodes (.remove elm)).2 rest

section OrderedRuns

variable {key : Node → Key}
variable {cmp : Node → Node → Int}
variable {links : RbLinks Node}
variable {nodes : List Node}
variable {rounds : Nat}

theorem ordered_performList
    (ordered : Ordered key nodes)
    (command : Command Node) :
    Ordered key (performList key nodes command).2 := by
  cases command with
  | insert elm => exact ordered_insertNode ordered elm
  | remove elm => exact List.Pairwise.sublist List.erase_sublist ordered

/-- A command adds one node at most. -/
theorem length_performList_le
    (key : Node → Key)
    (nodes : List Node)
    (command : Command Node) :
    (performList key nodes command).2.length ≤ nodes.length + 1 := by
  cases command with
  | insert elm =>
      rw [performList, insertNode]
      cases nodes.find? fun node => key node = key elm with
      | some tmp => exact Nat.le_succ _
      | none => exact (List.orderedInsert_length _ _ _).le
  | remove elm => exact List.erase_sublist.length_le.trans (Nat.le_succ _)

/-- What is done with a tree is done with the list of its nodes. -/
theorem perform_eq
    {command : Command Node}
    {rest : List (Command Node)}
    (isRb : IsRb links nodes)
    (ordered : Ordered key nodes)
    (compares : ∀ elm, Compares key (cmp elm) (key elm))
    (members : RemovesMembers key nodes (command :: rest))
    (enough : 2 * Nat.log 2 (nodes.length + 1) < rounds) :
    RemovesMembers key (performList key nodes command).2 rest ∧
      ∃ next,
        perform cmp rounds links command =
            some ((performList key nodes command).1, next) ∧
          IsRb next (performList key nodes command).2 := by
  cases command with
  | insert elm =>
      exact ⟨members, isRb.rbInsert ordered (compares elm) enough⟩
  | remove elm =>
      obtain ⟨member, members⟩ := members
      obtain ⟨next, removed, isNext⟩ := isRb.rbRemove member enough.le
      refine ⟨members, next, ?_, isNext⟩
      rw [perform, removed]
      rfl

/-- A run on a tree is one on the list of its nodes. -/
theorem performAll_eq
    {commands : List (Command Node)}
    (isRb : IsRb links nodes)
    (ordered : Ordered key nodes)
    (compares : ∀ elm, Compares key (cmp elm) (key elm))
    (members : RemovesMembers key nodes commands)
    (enough : 2 * Nat.log 2 (nodes.length + commands.length + 1) < rounds) :
    ∃ final,
      performAll cmp rounds links commands =
          some ((performAllList key nodes commands).1, final) ∧
        IsRb final (performAllList key nodes commands).2 ∧
        Ordered key (performAllList key nodes commands).2 := by
  induction commands generalizing links nodes with
  | nil => exact ⟨links, rfl, isRb, ordered⟩
  | cons command rest inductionHypothesis =>
      have few : nodes.length ≤ nodes.length + (command :: rest).length :=
        Nat.le_add_right ..
      have now : 2 * Nat.log 2 (nodes.length + 1) < rounds :=
        (rounds_mono few le_rfl).trans_lt enough
      obtain ⟨members, next, performed, isNext⟩ :=
        perform_eq isRb ordered compares members now
      have longer := length_performList_le key nodes command
      have later :
          (performList key nodes command).2.length + rest.length ≤
            nodes.length + (command :: rest).length := by
        rw [List.length_cons]
        omega
      obtain ⟨final, ran, isFinal, inOrder⟩ :=
        inductionHypothesis isNext (ordered_performList ordered command) members
          ((rounds_mono later le_rfl).trans_lt enough)
      refine ⟨final, ?_, isFinal, inOrder⟩
      simp only [performAll, performed, ran, Option.map_some, performAllList]

theorem length_performAllList_le
    (key : Node → Key)
    (nodes : List Node)
    (commands : List (Command Node)) :
    (performAllList key nodes commands).2.length ≤
      nodes.length + commands.length := by
  induction commands generalizing nodes with
  | nil => exact le_rfl
  | cons command rest inductionHypothesis =>
      have now := length_performList_le key nodes command
      have later := inductionHypothesis (performList key nodes command).2
      simp only [performAllList, List.length_cons]
      omega

omit [DecidableEq Node] [LinearOrder Key] in
/-- `RB_INITIALIZER`. -/
theorem isRb_nil
    (empty : links.root = none) :
    IsRb links [] :=
  ⟨.leaf, 0, ⟨empty, trivial, List.nodup_nil⟩, .leaf, rfl⟩

/--
In every run from the empty tree, the nodes stay in the order of their keys, the
operations return what they return for the list of the nodes, and the pointers
are those of a red-black tree of these nodes.
-/
theorem isRb_of_run
    {commands : List (Command Node)}
    (compares : ∀ elm, Compares key (cmp elm) (key elm))
    (empty : links.root = none)
    (members : RemovesMembers key [] commands)
    (enough : 2 * Nat.log 2 (commands.length + 1) < rounds) :
    ∃ final,
      performAll cmp rounds links commands =
          some ((performAllList key [] commands).1, final) ∧
        IsRb final (performAllList key [] commands).2 ∧
        Ordered key (performAllList key [] commands).2 := by
  have enough :
      2 * Nat.log 2 (([] : List Node).length + commands.length + 1) < rounds := by
    rw [List.length_nil, Nat.zero_add]
    exact enough
  exact performAll_eq (isRb_nil empty) List.Pairwise.nil compares members enough

/-- Numbers are compared by their difference. -/
def difference (elm node : Nat) : Int :=
  (elm : Int) - (node : Int)

theorem compares_difference
    (wanted : Nat) :
    Compares id (difference wanted) wanted where
  neg := fun node => by
    rw [difference, id]
    omega
  pos := fun node => by
    rw [difference, id]
    omega

/-- Numbers come and go; one of them is there already. -/
theorem isRb_of_run_numbers :
    ∃ final,
      performAll difference 6 rbInit
          [.insert 5, .insert 2, .insert 8, .insert 2, .remove 5] =
        some ([none, none, none, some 2, none], final) ∧
      IsRb final [2, 8] ∧ Ordered id [2, 8] := by
  have members :
      RemovesMembers (id : Nat → Nat) []
        [.insert 5, .insert 2, .insert 8, .insert 2, .remove 5] :=
    ⟨by decide, trivial⟩
  exact isRb_of_run compares_difference rfl members (by decide)

/--
After every run from the empty tree, a search finds the node with its key if
there is one, and a loop visits every node once in order, one way or the other,
and also when its body removes nodes.
-/
theorem loops_of_run
    {commands : List (Command Node)}
    {results : List (Option Node)}
    {final : RbLinks Node}
    (compares : ∀ elm, Compares key (cmp elm) (key elm))
    (empty : links.root = none)
    (members : RemovesMembers key [] commands)
    (enough : 2 * Nat.log 2 (commands.length + 1) < rounds)
    (ran : performAll cmp rounds links commands = some (results, final)) :
    (∀ (find : Node → Int) (wanted : Key),
      Compares key find wanted →
        rbFind final find rounds =
          some ((performAllList key [] commands).2.find? fun node =>
            key node = wanted)) ∧
    (∀ side,
      rbForeach final side rounds commands.length =
        some (side.line (performAllList key [] commands).2)) ∧
    ∀ removes : Node → Bool,
      ∃ rest,
        rbForeachSafe final removes rounds commands.length =
            some ((performAllList key [] commands).2, rest) ∧
          IsRb rest
            ((performAllList key [] commands).2.filter fun node =>
              ! removes node) := by
  obtain ⟨other, sameRun, isRb, ordered⟩ :=
    isRb_of_run compares empty members enough
  rw [ran] at sameRun
  cases sameRun
  have few := length_performAllList_le key [] commands
  rw [List.length_nil, Nat.zero_add] at few
  have short := rounds_mono few enough.le
  exact
    ⟨fun find wanted finds => isRb.rbFind ordered finds short,
      fun side => isRb.rbForeach side short few,
      fun removes => isRb.rbForeachSafe removes short few⟩

/-- A loop removes two of three numbers and visits all of them. -/
theorem loops_of_run_numbers :
    ∃ final,
      performAll difference 5 rbInit
          [.insert 5, .insert 2, .insert 8] =
        some ([none, none, none], final) ∧
      rbFind final (difference 8) 5 = some (some 8) ∧
      rbForeach final .left 5 3 = some [8, 5, 2] ∧
      ∃ rest,
        rbForeachSafe final (fun node => decide (4 < node)) 5 3 =
            some ([2, 5, 8], rest) ∧
          IsRb rest [2] := by
  have members :
      RemovesMembers (id : Nat → Nat) [] [.insert 5, .insert 2, .insert 8] :=
    trivial
  obtain ⟨final, ran⟩ :
      ∃ final,
        performAll difference 5 rbInit [.insert 5, .insert 2, .insert 8] =
          some ([none, none, none], final) :=
    ⟨_, rfl⟩
  obtain ⟨finds, visits, removes⟩ :=
    loops_of_run compares_difference rfl members (by decide) ran
  exact
    ⟨final, ran, finds _ 8 (compares_difference 8), visits .left,
      removes fun node => decide (4 < node)⟩

end OrderedRuns

/-! ## Runs with any comparisons -/

/-- The pointers are those of a red-black tree with these nodes in this shape. -/
def Represents
    (links : RbLinks Node)
    (tree : NodeTree Node) : Prop :=
  ∃ shape height,
    TreeLinked links shape ∧ RedBlack .black height shape ∧ nodeTree shape = tree

/--
What is done with a tree, whatever the comparisons tell: a node is inserted
below the last node of the way down or removed, and the tree is rebalanced.
-/
inductive TreeStep (cmp : Node → Node → Int) :
    NodeTree Node → Command Node → Option Node → NodeTree Node → Prop where
  | insert
      {tree grown : NodeTree Node}
      {elm : Node}
      (rebalancing : Rebalancing Node)
      (inserted : tree.insert (cmp elm) elm = some grown) :
      TreeStep cmp tree (.insert elm) none (rebalancing.afterInsert grown)
  | equal
      {tree : NodeTree Node}
      {elm tmp : Node}
      (notInserted : tree.insert (cmp elm) elm = none)
      (found : tree.find (cmp elm) = some tmp) :
      TreeStep cmp tree (.insert elm) (some tmp) tree
  | remove
      {tree : NodeTree Node}
      {elm : Node}
      (rebalancing : Rebalancing Node) :
      TreeStep cmp tree (.remove elm) none
        (rebalancing.afterRemove (tree.remove elm))

/-- One step after the other, with their results. -/
inductive TreeRun (cmp : Node → Node → Int) :
    NodeTree Node → List (Command Node) → List (Option Node) →
      NodeTree Node → Prop where
  | done
      {tree : NodeTree Node} :
      TreeRun cmp tree [] [] tree
  | step
      {tree next final : NodeTree Node}
      {command : Command Node}
      {result : Option Node}
      {rest : List (Command Node)}
      {results : List (Option Node)}
      (first : TreeStep cmp tree command result next)
      (others : TreeRun cmp next rest results final) :
      TreeRun cmp tree (command :: rest) (result :: results) final

/-- New nodes are not in the tree, and nodes that are removed are. -/
def Permitted
    (tree : NodeTree Node) : Command Node → Prop
  | .insert elm => elm ∉ tree.toList
  | .remove elm => elm ∈ tree.toList

/-- Whatever the steps are, each command of a run is permitted. -/
def AllPermitted
    (cmp : Node → Node → Int)
    (tree : NodeTree Node) : List (Command Node) → Prop
  | [] => True
  | command :: rest =>
      Permitted tree command ∧
        ∀ result next,
          TreeStep cmp tree command result next → AllPermitted cmp next rest

section Refinement

variable {cmp : Node → Node → Int}
variable {links : RbLinks Node}
variable {tree : NodeTree Node}
variable {rounds : Nat}

/-- Trees with the same nodes in the same order are rebalancings of each other. -/
theorem exists_rebalancing
    {next : NodeTree Node}
    (same : next.toList = tree.toList) :
    ∃ rebalancing : Rebalancing Node,
      rebalancing.afterInsert tree = next ∧
        rebalancing.afterRemove tree = next := by
  have keeps :
      ∀ other, (Function.update id tree next other).toList = other.toList := by
    intro other
    by_cases isTree : other = tree
    · rw [isTree, Function.update_self, same]
    · rw [Function.update_of_ne isTree, id]
  exact
    ⟨{ afterInsert := Function.update id tree next
       afterRemove := Function.update id tree next
       afterInsert_toList := keeps
       afterRemove_toList := keeps },
      Function.update_self .., Function.update_self ..⟩

omit [DecidableEq Node] in
theorem IsRb.represents
    {nodes : List Node}
    (isRb : IsRb links nodes) :
    ∃ tree, Represents links tree ∧ tree.toList = nodes := by
  obtain ⟨shape, height, linked, inShape, rfl⟩ := isRb
  exact ⟨nodeTree shape, ⟨shape, height, linked, inShape, rfl⟩, toList_nodeTree shape⟩

/-- A step on the pointers is one on the tree that they represent. -/
theorem Represents.step
    {command : Command Node}
    (cmp : Node → Node → Int)
    (represents : Represents links tree)
    (permitted : Permitted tree command)
    (enough : 2 * Nat.log 2 (tree.toList.length + 1) < rounds) :
    ∃ result next nextTree,
      perform cmp rounds links command = some (result, next) ∧
        Represents next nextTree ∧ TreeStep cmp tree command result nextTree := by
  obtain ⟨shape, height, linked, inShape, rfl⟩ := id represents
  rw [toList_nodeTree] at enough
  cases command with
  | insert elm =>
      have absent : elm ∉ shape.toList := by
        rw [← toList_nodeTree]
        exact permitted
      cases placed : (nodeTree shape).place (cmp elm) with
      | none =>
          obtain ⟨tmp, inserted, found⟩ :=
            rbInsert_of_not_place linked inShape placed enough
          exact
            ⟨some tmp, links, nodeTree shape, inserted, represents,
              .equal ((NodeTree.insert_eq_none_iff elm).mpr placed) found⟩
      | some sides =>
          obtain ⟨before, after⟩ := sides
          obtain ⟨next, inserted, isRb⟩ :=
            rbInsert_of_place linked inShape absent placed enough
          obtain ⟨grown, isGrown, grownNodes⟩ :=
            NodeTree.insert_of_place elm placed
          obtain ⟨nextTree, isNext, nextNodes⟩ := isRb.represents
          obtain ⟨rebalancing, rfl, -⟩ :=
            exists_rebalancing (nextNodes.trans grownNodes.symm)
          exact ⟨none, next, _, inserted, isNext, .insert rebalancing isGrown⟩
  | remove elm =>
      have isRb : IsRb links shape.toList :=
        ⟨shape, height, linked, inShape, rfl⟩
      have member : elm ∈ shape.toList := by
        rw [← toList_nodeTree]
        exact permitted
      obtain ⟨next, removed, isNext⟩ := isRb.rbRemove member enough.le
      obtain ⟨nextTree, isNextTree, nextNodes⟩ := isNext.represents
      have sameNodes :
          nextTree.toList = ((nodeTree shape).remove elm).toList := by
        rw [nextNodes, NodeTree.remove_toList, toList_nodeTree]
      obtain ⟨rebalancing, -, rfl⟩ := exists_rebalancing sameNodes
      refine ⟨none, next, _, ?_, isNextTree, .remove rebalancing⟩
      rw [perform, removed]
      rfl

omit [DecidableEq Node] in
/-- `RB_FIND` is the search in the tree that the pointers represent. -/
theorem Represents.rbFind
    (represents : Represents links tree)
    (find : Node → Int)
    (enough : 2 * Nat.log 2 (tree.toList.length + 1) ≤ rounds) :
    rbFind links find rounds = some (tree.find find) := by
  obtain ⟨shape, height, linked, inShape, rfl⟩ := represents
  rw [toList_nodeTree] at enough
  have atTop : TreeLinked links (Path.top.fill shape) := linked
  rw [RbTree.rbFind, linked.root]
  exact rbFindFrom_eq atTop (inShape.depth_le_log.trans enough)

/-- A step adds one node at most. -/
theorem TreeStep.length_le
    {command : Command Node}
    {result : Option Node}
    {next : NodeTree Node}
    (step : TreeStep cmp tree command result next) :
    next.toList.length ≤ tree.toList.length + 1 := by
  cases step with
  | insert rebalancing inserted =>
      obtain ⟨before, after, placed, nodes⟩ := NodeTree.place_of_insert inserted
      rw [rebalancing.afterInsert_toList, nodes, NodeTree.place_append placed]
      simp only [List.length_append, List.length_cons]
      omega
  | equal => exact Nat.le_succ _
  | remove rebalancing =>
      rw [rebalancing.afterRemove_toList, NodeTree.remove_toList]
      exact List.erase_sublist.length_le.trans (Nat.le_succ _)

end Refinement

end RiscvWorkshop.RbTree
