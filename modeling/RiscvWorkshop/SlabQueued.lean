import Mathlib
import RiscvWorkshop.SlabPlaced

namespace RiscvWorkshop.PageSlab

open Pfdb
open Kmem

/-!
# Slabs on the queues of their caches

A slab is on the partial, the full or the free queue of its cache, by the number
of its free objects.  A queue has the slabs that belong on it, in any order, so
that a slab which changes its queue leaves one list and joins another.
-/

/-- The queues of a cache. -/
inductive SlabQueue where
  | onPartial
  | onFull
  | onFree
deriving DecidableEq

namespace CacheState

/-- The slabs on one queue. -/
def que (state : CacheState) : SlabQueue → List Nat
  | .onPartial => state.partialQue
  | .onFull => state.fullQue
  | .onFree => state.freeQue

/-- `queue_add`. -/
def queueAdd (state : CacheState) (h : Nat) : SlabQueue → CacheState
  | .onPartial => { state with partialQue := state.partialQue ++ [h] }
  | .onFull => { state with fullQue := state.fullQue ++ [h] }
  | .onFree => { state with freeQue := state.freeQue ++ [h] }

theorem que_queueDel
    (state : CacheState)
    (h : Nat)
    (queue : SlabQueue) :
    (state.queueDel h).que queue = (state.que queue).erase h := by
  cases queue <;> rfl

theorem que_queueAdd
    (state : CacheState)
    (h : Nat)
    (queue other : SlabQueue) :
    (state.queueAdd h queue).que other =
      if other = queue then state.que other ++ [h] else state.que other := by
  cases queue <;> cases other <;> rfl

/-- A slab is linked if it is on one of the queues. -/
theorem mem_queues
    (state : CacheState)
    (h : Nat) :
    h ∈ state.queues ↔ ∃ queue, h ∈ state.que queue := by
  rw [queues, List.mem_append, List.mem_append]
  constructor
  · rintro ((isPartial | isFull) | isFree)
    · exact ⟨.onPartial, isPartial⟩
    · exact ⟨.onFull, isFull⟩
    · exact ⟨.onFree, isFree⟩
  · rintro ⟨queue, member⟩
    cases queue with
    | onPartial => exact .inl (.inl member)
    | onFull => exact .inl (.inr member)
    | onFree => exact .inr member

end CacheState

namespace SlabView

/-- The queue that a slab belongs on. -/
def queue (v : SlabView) : SlabQueue :=
  if v.frees = [] then
    .onFull
  else if v.frees.length = v.records.length then
    .onFree
  else
    .onPartial

/-- A slab of a cache that belongs on a queue. -/
def isOn (c : Nat) (queue : SlabQueue) (v : SlabView) : Bool :=
  v.cache = c ∧ v.queue = queue

theorem isOn_iff
    {c : Nat}
    {queue : SlabQueue}
    {v : SlabView} :
    v.isOn c queue = true ↔ v.cache = c ∧ v.queue = queue :=
  decide_eq_true_iff

end SlabView

/-- The slabs of a cache are on its queues, and are counted. -/
structure Queued
    (cache : KmemCache)
    (c : Nat)
    (state : CacheState)
    (views : List SlabView) : Prop where
  lined : ∀ queue, (state.que queue).Perm
    ((views.filter (SlabView.isOn c queue)).map SlabView.header)
  counted : state.slabCount = views.countP fun v => v.cache = c
  color : state.colorIndex < cache.colors

namespace Queued

variable {cache : KmemCache}
variable {c h : Nat}
variable {state : CacheState}
variable {v : SlabView}
variable {views others : List SlabView}

/-- The order of the slabs does not matter. -/
theorem perm
    (queued : Queued cache c state views)
    (same : views.Perm others) :
    Queued cache c state others where
  lined := fun queue => (queued.lined queue).trans ((same.filter _).map _)
  counted := queued.counted.trans (same.countP_eq _)
  color := queued.color

/-- A slab on a queue is one of the slabs. -/
theorem mem_que
    (queued : Queued cache c state views)
    {queue : SlabQueue} :
    h ∈ state.que queue ↔
      ∃ v ∈ views, v.cache = c ∧ v.queue = queue ∧ v.header = h := by
  rw [(queued.lined queue).mem_iff, List.mem_map]
  simp only [List.mem_filter, SlabView.isOn_iff, and_assoc]

/-- Other slabs are on no queue. -/
theorem not_mem_queues
    (queued : Queued cache c state views)
    (other : h ∉ views.map SlabView.header) :
    h ∉ state.queues := by
  rw [CacheState.mem_queues]
  rintro ⟨queue, linked⟩
  obtain ⟨v, member, _, _, rfl⟩ := queued.mem_que.mp linked
  exact other (List.mem_map_of_mem member)

/-- A cache does not depend on the slabs of other caches. -/
theorem of_other
    (queued : Queued cache c state (v :: views))
    {w : SlabView}
    (different : v.cache ≠ c)
    (same : w.cache = v.cache) :
    Queued cache c state (w :: views) := by
  have notOn : ∀ {u : SlabView} queue, u.cache ≠ c →
      ¬ u.isOn c queue = true :=
    fun queue other isOn => other (SlabView.isOn_iff.mp isOn).1
  obtain ⟨lined, counted, color⟩ := queued
  constructor
  case lined =>
    intro queue
    have lined := lined queue
    rw [List.filter_cons_of_neg (notOn queue different)] at lined
    rw [List.filter_cons_of_neg (notOn queue (same ▸ different))]
    exact lined
  case counted =>
    rw [List.countP_cons_of_neg (by simpa using different)] at counted
    rw [List.countP_cons_of_neg (by simpa using same ▸ different)]
    exact counted
  case color => exact color

/-- A slab of another cache comes. -/
theorem cons_other
    (queued : Queued cache c state views)
    (different : v.cache ≠ c) :
    Queued cache c state (v :: views) where
  lined := fun queue => by
    rw [List.filter_cons_of_neg fun isOn =>
      different (SlabView.isOn_iff.mp isOn).1]
    exact queued.lined queue
  counted := by
    rw [List.countP_cons_of_neg (by simpa using different)]
    exact queued.counted
  color := queued.color

/-- A slab of another cache goes. -/
theorem of_cons_other
    (queued : Queued cache c state (v :: views))
    (different : v.cache ≠ c) :
    Queued cache c state views := by
  obtain ⟨lined, counted, color⟩ := queued
  constructor
  case lined =>
    intro queue
    have lined := lined queue
    rw [List.filter_cons_of_neg fun isOn =>
      different (SlabView.isOn_iff.mp isOn).1] at lined
    exact lined
  case counted =>
    rw [List.countP_cons_of_neg (by simpa using different)] at counted
    exact counted
  case color => exact color

/-- A slab is taken off its queue. -/
theorem leave
    (queued : Queued cache c state (v :: views))
    (isCache : v.cache = c)
    (once : v.header ∉ views.map SlabView.header) :
    Queued cache c
      { state.queueDel v.header with slabCount := state.slabCount - 1 }
      views := by
  obtain ⟨lined, counted, color⟩ := queued
  constructor
  case lined =>
    intro queue
    have lined := lined queue
    refine (List.Perm.of_eq (CacheState.que_queueDel state _ queue)).trans ?_
    by_cases isOn : v.isOn c queue = true
    · rw [List.filter_cons_of_pos isOn, List.map_cons] at lined
      refine (lined.erase v.header).trans (List.Perm.of_eq ?_)
      exact List.erase_cons_head ..
    · rw [List.filter_cons_of_neg isOn] at lined
      rw [List.erase_of_not_mem fun linked => ?_]
      · exact lined
      · obtain ⟨w, member, same⟩ := List.mem_map.mp (lined.mem_iff.mp linked)
        exact once (same ▸ List.mem_map_of_mem (List.mem_filter.mp member).1)
  case counted =>
    rw [List.countP_cons_of_pos (by simpa using isCache)] at counted
    exact Nat.sub_eq_of_eq_add counted
  case color => exact color

/-- A slab is put on the queue that it belongs on. -/
theorem join
    (queued : Queued cache c state views)
    (isCache : v.cache = c) :
    Queued cache c
      { state.queueAdd v.header v.queue with slabCount := state.slabCount + 1 }
      (v :: views) := by
  obtain ⟨lined, counted, color⟩ := queued
  constructor
  case lined =>
    intro queue
    refine (List.Perm.of_eq
      (CacheState.que_queueAdd state _ v.queue queue)).trans ?_
    by_cases same : queue = v.queue
    · rw [if_pos same, List.filter_cons_of_pos
        (SlabView.isOn_iff.mpr ⟨isCache, same.symm⟩), List.map_cons]
      exact (List.perm_append_singleton _ _).trans ((lined queue).cons _)
    · rw [if_neg same, List.filter_cons_of_neg fun isOn =>
        same (SlabView.isOn_iff.mp isOn).2.symm]
      exact lined queue
  case counted =>
    rw [List.countP_cons_of_pos (by simpa using isCache)]
    exact congrArg (· + 1) counted
  case color =>
    refine lt_of_eq_of_lt ?_ color
    cases v.queue <;> rfl

end Queued

end RiscvWorkshop.PageSlab
