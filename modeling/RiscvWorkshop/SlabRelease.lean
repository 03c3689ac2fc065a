import Mathlib
import RiscvWorkshop.SlabFree

namespace RiscvWorkshop.PageSlab

open Pfdb
open Kmem

/-!
# Releasing a slab

A slab that is off the queues, with all objects free, gives its records and its
header back to the caches that they came from, and its pages to the pool.  The
same happens to a slab that could not be finished.
-/

variable {m : Memory}
variable {views : List SlabView}
variable {loose : List Nat}
variable {extra : List SlabPages}
variable {c h obj : Nat}

/-- `slab_kmem_cache_free` of an object that a caller has. -/
theorem Sound.slabKmemCacheFree_spec
    (sound : Sound m [] views (obj :: loose) extra)
    (given : ObjOf m.cache views c obj) :
    ∃ after views', m.slabKmemCacheFree obj = some after ∧
      Sound after [] views' loose extra ∧
      (views'.map SlabView.header).Perm (views.map SlabView.header) ∧
      Confined (· = c) m after views views' loose extra := by
  obtain ⟨v, member, rfl, i, taken, rfl⟩ := given
  obtain ⟨rest, same, sound⟩ := sound.first member
  exact ⟨m.freed v i, v.put i :: rest, sound.slabKmemCacheFree_eq taken,
    sound.freed taken, (same.map SlabView.header).symm,
    (sound.confined_freed taken).perm same.symm⟩

/-- `kfree` of an object that a caller has. -/
theorem Sound.kfree_spec
    (sound : Sound m [] views (obj :: loose) extra)
    (given : ObjOf m.cache views c obj) :
    ∃ after views', m.kfree obj = some after ∧
      Sound after [] views' loose extra ∧
      (views'.map SlabView.header).Perm (views.map SlabView.header) ∧
      Confined (· = c) m after views views' loose extra := by
  obtain ⟨after, views', freed, done⟩ := sound.slabKmemCacheFree_spec given
  refine ⟨after, views', ?_, done⟩
  obtain ⟨v, member, rfl, i, taken, rfl⟩ := given
  obtain ⟨prepared, placed, _⟩ := sound
  have holds := placed.holds_objAt prepared member taken.1
  have positive := (placed.fits v member).positive
  have notNull : v.objAt m.cache i ≠ 0 :=
    (positive.trans_le holds.1).ne'
  rw [Memory.kfree, if_neg notNull, placed.clusterOf_eq member holds]
  exact freed

/-! ## The records -/

/-- The free records of a slab that is off the queues. -/
structure Unqueued
    (m : Memory)
    (views : List SlabView)
    (h : Nat)
    (nodes : List Nat) : Prop where
  header : ∃ sinfo, m.heap.slabs h = some sinfo ∧
    Linked 0 m.heap.word sinfo.objects nodes
  records : ∀ bctl ∈ nodes, ObjOf m.cache views bufctlCache bctl
  info : ObjOf m.cache views slabInfoCache h

/-- A record has a word for its link. -/
theorem Prepared.bufctl_pos
    {cache : Nat → KmemCache}
    (prepared : Prepared cache)
    (bctl : Nat) :
    bctl < bctl + (cache bufctlCache).payloadSize := by
  have room := prepared.bufctl.payload
  have positive : 0 < bufctlSize := by decide
  omega

/-- The first record is taken off the list of a slab. -/
theorem Sound.slistGetTop_spec
    {bctl : Nat}
    {nodes : List Nat}
    (sound : Sound m [] views (h :: bctl :: nodes ++ loose) extra)
    (unqueued : Unqueued m views h (bctl :: nodes)) :
    ∃ heap, m.heap.slistGetTop h = some (bctl, heap) ∧
      Sound { m with heap } [] views (h :: bctl :: nodes ++ loose) extra ∧
      Unqueued { m with heap } views h nodes ∧
      Confined (fun _ => False) m { m with heap } views views loose extra := by
  obtain ⟨⟨sinfo, header, linked⟩, records, info⟩ := unqueued
  have first := linked.head_eq
  have notNull := linked.ne_null bctl List.mem_cons_self
  have once := List.nodup_cons.mp linked.nodup
  let heap : Heap :=
    (m.heap.store bctl 0).setSlab h
      { sinfo with objects := m.heap.word bctl }
  have wrote := sound.write_spec (h :: bctl :: nodes) [] heap ?_ ?_ rfl rfl
  · refine ⟨heap, ?_, wrote.1, ⟨?_, ?_, info⟩, wrote.2⟩
    · rw [Heap.slistGetTop, header]
      dsimp only
      rw [first, if_neg notNull]
    · refine ⟨_, Function.update_self .., linked.pop fun other member => ?_⟩
      refine Function.update_of_ne ?_ ..
      exact fun same => once.1 (same ▸ member)
    · exact fun other member =>
        records other (List.mem_cons_of_mem bctl member)
  · intro a written
    have isBctl : a = bctl := by
      by_contra other
      exact written (Function.update_of_ne other ..)
    subst isBctl
    exact .inl ⟨bufctlCache, a, List.mem_cons_of_mem h List.mem_cons_self,
      records a List.mem_cons_self, le_rfl, sound.prepared.bufctl_pos a⟩
  · intro other written
    have isHeader : other = h := by
      by_contra different
      exact written (Function.update_of_ne different ..)
    subst isHeader
    exact ⟨List.mem_cons_self, info⟩

/-- The records of a slab stay when another object is freed. -/
theorem Unqueued.of_confined
    {after : Memory}
    {views' : List SlabView}
    {nodes : List Nat}
    {changes : Nat → Prop}
    (unqueued : Unqueued m views h nodes)
    (prepared : Prepared m.cache)
    (confined : Confined changes m after views views' (h :: nodes ++ loose)
      extra) :
    Unqueued after views' h nodes := by
  obtain ⟨⟨sinfo, header, linked⟩, records, info⟩ := unqueued
  have isLoose : ∀ bctl ∈ nodes, bctl ∈ h :: nodes ++ loose := by
    intro bctl member
    exact List.mem_cons_of_mem h (List.mem_append_left loose member)
  constructor
  case header =>
    refine ⟨sinfo, (confined.infos h List.mem_cons_self info).trans header,
      linked.congr fun bctl member => ?_⟩
    exact confined.contents bufctlCache bctl (isLoose bctl member)
      (records bctl member) bctl le_rfl (prepared.bufctl_pos bctl)
  case records =>
    intro bctl member
    rw [confined.cache]
    exact confined.objs bufctlCache bctl (isLoose bctl member)
      (records bctl member)
  case info =>
    rw [confined.cache]
    exact confined.objs slabInfoCache h List.mem_cons_self info

/-- The loop of `free_slab_info` gives all records back. -/
theorem Sound.freeBufctls_spec
    {nodes : List Nat}
    (rounds : Nat)
    (enough : nodes.length < rounds)
    (sound : Sound m [] views (h :: nodes ++ loose) extra)
    (unqueued : Unqueued m views h nodes) :
    ∃ after views', m.freeBufctls h rounds = some after ∧
      Sound after [] views' (h :: loose) extra ∧
      ObjOf after.cache views' slabInfoCache h ∧
      Confined (· = bufctlCache) m after views views' loose extra := by
  induction nodes generalizing m views rounds with
  | nil =>
      cases rounds with
      | zero => exact absurd enough (Nat.not_lt_zero _)
      | succ rounds =>
          obtain ⟨⟨sinfo, header, linked⟩, _, info⟩ := unqueued
          refine ⟨m, views, ?_, sound, info, .refl⟩
          rw [Memory.freeBufctls, header]
          exact if_pos linked
  | cons bctl nodes inductionHypothesis =>
      cases rounds with
      | zero => exact absurd enough (Nat.not_lt_zero _)
      | succ rounds =>
          obtain ⟨sinfo, header, linked⟩ := unqueued.header
          have notNull : sinfo.objects ≠ 0 :=
            linked.head_eq ▸ linked.ne_null bctl List.mem_cons_self
          obtain ⟨heap, top, sound', unqueued', taken⟩ :=
            sound.slistGetTop_spec unqueued
          have given := unqueued.records bctl List.mem_cons_self
          obtain ⟨middle, views₁, freed, sound₁, _, confined⟩ :=
            (sound'.perm_loose (List.Perm.swap _ _ _) (.refl _)).kfree_spec
              given
          obtain ⟨after, views', rest, done, info, confined'⟩ :=
            inductionHypothesis rounds (Nat.lt_of_succ_lt_succ enough) sound₁
              (unqueued'.of_confined sound'.prepared confined)
          refine ⟨after, views', ?_, done, info, ?_⟩
          · rw [Memory.freeBufctls, header]
            dsimp only
            rw [if_neg notNull, top]
            dsimp only
            rw [freed]
            exact rest
          · have keep : ∀ obj ∈ loose, obj ∈ h :: nodes ++ loose :=
              fun obj isLoose => List.mem_append_right _ isLoose
            exact (taken.mono (fun _ => False.elim) (fun _ => id)
              fun _ => id).trans ((confined.mono (fun _ => id) keep
                fun _ => id).trans confined')

/-! ## The pages -/

section Pages

variable {cache : Nat → KmemCache}
variable {heap : Heap}
variable {v : SlabView}
variable {pages : SlabPages}

/-- The header of a slab is in the pages of a slab. -/
theorem Placed.header_inside
    (placed : Placed cache heap views loose extra)
    (prepared : Prepared cache)
    (member : v ∈ views) :
    ∃ w ∈ views, (w.pages cache).Holds v.header := by
  cases kind : (cache v.cache).onSlab with
  | true =>
      exact ⟨v, member, (placed.fits v member).holds_header prepared kind⟩
  | false =>
      obtain ⟨w, other, _, j, taken, at_header⟩ := (placed.kept v member kind).1
      exact ⟨w, other, at_header ▸ placed.holds_objAt prepared other taken.1⟩

/-- A header in pages without a slab is of no slab that is placed. -/
theorem Placed.header_not_extra
    (placed : Placed cache heap views loose extra)
    (prepared : Prepared cache)
    (isExtra : pages ∈ extra)
    (holds : pages.Holds h) :
    h ∉ views.map SlabView.header := by
  intro again
  obtain ⟨v, member, rfl⟩ := List.mem_map.mp again
  obtain ⟨w, other, too⟩ := placed.header_inside prepared member
  exact placed.extra_apart isExtra holds other too

/-- Pages without a slab go back to the pool. -/
theorem Placed.pgifFreePage
    (placed : Placed cache heap views loose (pages :: extra)) :
    ∃ after, heap.pgifFreePage pages.kaddr = some after ∧
      after.word = heap.word ∧ after.slabs = heap.slabs ∧
      Placed cache after views loose extra := by
  have here : pages ∈ heap.pages :=
    placed.pages.mem_iff.mpr List.mem_cons_self
  have once := List.nodup_cons.mp placed.pages_nodup
  have others : ∀ other ∈ extra ++ views.map (SlabView.pages cache),
      decide (other.kaddr ≠ pages.kaddr) = true := by
    intro other there
    refine decide_eq_true fun same => once.1 ?_
    have too : pages.Holds other.kaddr := same ▸ pages.holds_kaddr
    rw [placed.pages_unique here
      (placed.pages.mem_iff.mpr (List.mem_cons_of_mem _ there)) too
      other.holds_kaddr]
    exact there
  refine ⟨_, if_pos ⟨pages, here, rfl⟩, rfl, rfl, ?_⟩
  refine placed.repage rfl (fun _ _ => rfl) rfl ?_ ?_
  · refine (placed.pages.filter _).trans ?_
    rw [List.cons_append, List.filter_cons_of_neg (by simp),
      List.filter_eq_self.mpr others]
  · exact placed.apart.filter _

end Pages

/-! ## The slab -/

/-- The header that is no longer used, and the pages, are given back. -/
theorem Sound.releasePages
    {pages : SlabPages}
    (sound : Sound m [] views loose (pages :: extra))
    (other : h ∉ views.map SlabView.header)
    (notLoose : h ∈ loose → ¬ ObjOf m.cache views slabInfoCache h) :
    ∃ heap,
      { m.heap with
          slabs := Function.update m.heap.slabs h none }.pgifFreePage
        pages.kaddr = some heap ∧
      Sound { m with heap } [] views loose extra ∧
      Confined (fun _ => False) m { m with heap } views views loose extra := by
  obtain ⟨prepared, placed, queued⟩ := sound
  rw [List.nil_append] at placed
  have cleared : Placed m.cache
      { m.heap with slabs := Function.update m.heap.slabs h none } views loose
      (pages :: extra) := by
    refine placed.write (fun v member => ?_) rfl rfl fun _ _ _ _ _ _ => rfl
    refine Function.update_of_ne ?_ ..
    exact fun same => other (same ▸ List.mem_map_of_mem member)
  obtain ⟨heap, freed, word, slabs, placed'⟩ := cleared.pgifFreePage
  refine ⟨heap, freed, ⟨prepared, placed', queued⟩,
    .of_words rfl rfl rfl rfl word fun h' isLoose given => ?_⟩
  refine (congrFun slabs h').trans (Function.update_of_ne ?_ ..)
  rintro rfl
  exact notLoose isLoose given

/-- A slab with its header in its own pages is released. -/
theorem Sound.freeSlabInfo_onSlab
    {pages : SlabPages}
    {sinfo : Slab}
    (sound : Sound m [] views loose (pages :: extra))
    (onSlab : (m.cache c).onSlab = true)
    (header : m.heap.slabs h = some sinfo)
    (page : sinfo.page = pages.kaddr)
    (inside : pages.Holds h) :
    ∃ after, m.freeSlabInfo c h = some after ∧
      Sound after [] views loose extra ∧
      Confined (fun _ => False) m after views views loose extra := by
  have isExtra : pages ∈ pages :: extra := List.mem_cons_self
  obtain ⟨heap, freed, done⟩ :=
    sound.releasePages
      (sound.placed.header_not_extra sound.prepared isExtra inside)
      fun isLoose given =>
        sound.placed.loose_not_extra sound.prepared isLoose given le_rfl
          (by
            have room := sound.prepared.slabInfo.payload
            have positive : 0 < slabSize := by decide
            omega)
          isExtra inside
  refine ⟨_, ?_, done⟩
  rw [Memory.freeSlabInfo, header]
  dsimp only
  rw [onSlab, if_pos rfl]
  dsimp only
  rw [page, freed]
  rfl

/-- The caches that other slabs take their records and headers from. -/
def OfRecords (c : Nat) : Prop :=
  c = slabInfoCache ∨ c = bufctlCache

/-- A slab with its records elsewhere is released. -/
theorem Sound.freeSlabInfo_offSlab
    {pages : SlabPages}
    {nodes : List Nat}
    {sinfo : Slab}
    (sound : Sound m [] views (h :: nodes ++ loose) (pages :: extra))
    (offSlab : (m.cache c).onSlab = false)
    (unqueued : Unqueued m views h nodes)
    (enough : nodes.length ≤ (m.cache c).objsPerSlab)
    (header : m.heap.slabs h = some sinfo)
    (page : sinfo.page = pages.kaddr) :
    ∃ after views', m.freeSlabInfo c h = some after ∧
      Sound after [] views' loose extra ∧
      Confined OfRecords m after views views' loose extra := by
  obtain ⟨middle, views₁, records, sound₁, info, confined₁⟩ :=
    sound.freeBufctls_spec ((m.cache c).objsPerSlab + 1)
      (Nat.lt_succ_of_le enough) unqueued
  obtain ⟨later, views₂, freed, sound₂, headers, confined₂⟩ :=
    sound₁.kfree_spec info
  have other : h ∉ views₂.map SlabView.header := by
    rw [headers.mem_iff]
    exact sound₁.placed.not_header_of_loose sound₁.prepared List.mem_cons_self
      info
  have notLoose : h ∉ loose := by
    have once := (List.nodup_cons.mp sound₁.placed.owners).1
    exact fun again => once (List.mem_append_left _ again)
  obtain ⟨heap, released, done, confined₃⟩ :=
    sound₂.releasePages other fun again => absurd again notLoose
  refine ⟨_, views₂, ?_, done, ?_⟩
  · rw [Memory.freeSlabInfo, header]
    dsimp only
    rw [offSlab, if_neg Bool.false_ne_true, records]
    dsimp only
    rw [freed]
    dsimp only
    rw [page, released]
    rfl
  · have fewer : ∀ others ∈ extra, others ∈ pages :: extra :=
      fun _ => List.mem_cons_of_mem pages
    exact ((confined₁.mono (fun _ => .inr) (fun _ => id) fewer).trans
      (confined₂.mono (fun _ => .inl) (fun _ => id) fewer)).trans
        (confined₃.mono (fun _ => False.elim) (fun _ => id) fun _ => id)

/-- The caches that change when a slab of a cache is released. -/
def Releasing (cache : Nat → KmemCache) (c d : Nat) : Prop :=
  OfRecords d ∧ (cache c).onSlab = false

/-- The caches that change when objects and slabs of a cache come and go. -/
def Using (cache : Nat → KmemCache) (c d : Nat) : Prop :=
  d = c ∨ Releasing cache c d

/-- The caches of records keep their records in the pages. -/
theorem Prepared.onSlab_of_records
    {cache : Nat → KmemCache}
    (prepared : Prepared cache)
    (ofRecords : OfRecords c) :
    (cache c).onSlab = true := by
  rcases ofRecords with rfl | rfl
  · exact prepared.slabInfo.onSlab
  · exact prepared.bufctl.onSlab

/-- A cache is not changed by the release of one of its own slabs. -/
theorem Prepared.not_releasing
    {cache : Nat → KmemCache}
    (prepared : Prepared cache)
    (c : Nat) :
    ¬ Releasing cache c c := by
  rintro ⟨ofRecords, offSlab⟩
  exact Bool.false_ne_true
    (offSlab.symm.trans (prepared.onSlab_of_records ofRecords))

/-- The free objects of a slab without an object given out are all. -/
theorem ViewFits.frees_perm
    {cache : Nat → KmemCache}
    {heap : Heap}
    {v : SlabView}
    (fits : ViewFits cache heap v)
    (allFree : ∀ i, ¬ v.Taken i) :
    v.frees.Perm (List.range v.records.length) := by
  refine (List.perm_ext_iff_of_nodup fits.once List.nodup_range).mpr fun i => ?_
  rw [List.mem_range]
  refine ⟨fits.bound i, fun less => ?_⟩
  by_contra notFree
  exact allFree i ⟨less, notFree⟩

/-- The records of a slab are those of its objects. -/
theorem SlabView.map_recordAt
    (v : SlabView) :
    (List.range v.records.length).map v.recordAt = v.records := by
  refine List.ext_getElem (by simp) fun i _ less => ?_
  rw [List.getElem_map, List.getElem_range, SlabView.recordAt,
    List.getD_eq_getElem _ _ less]

/-- The records of such a slab are those of the free objects. -/
theorem ViewFits.records_perm
    {cache : Nat → KmemCache}
    {heap : Heap}
    {v : SlabView}
    (fits : ViewFits cache heap v)
    (allFree : ∀ i, ¬ v.Taken i) :
    v.records.Perm (v.frees.map v.recordAt) :=
  (List.Perm.of_eq v.map_recordAt.symm).trans
    ((fits.frees_perm allFree).map v.recordAt).symm

/-- An object is of no slab that has none given out. -/
theorem ObjOf.of_allFree
    {cache : Nat → KmemCache}
    {v : SlabView}
    (given : ObjOf cache (v :: views) c obj)
    (allFree : ∀ i, ¬ v.Taken i) :
    ObjOf cache views c obj := by
  obtain ⟨w, member, isCache, i, taken, at_obj⟩ := given
  rcases List.mem_cons.mp member with rfl | there
  · exact absurd taken (allFree i)
  · exact ⟨w, there, isCache, i, taken, at_obj⟩

/-- `free_slab_info` of a slab that was taken off the queues. -/
theorem Sound.freeSlabInfo_spec
    {v : SlabView}
    (sound : Sound m [] views (v.owned m.cache ++ loose)
      (v.pages m.cache :: extra))
    (fits : ViewFits m.cache m.heap v)
    (allFree : ∀ i, ¬ v.Taken i)
    (kept : (m.cache v.cache).onSlab = false →
      ObjOf m.cache views slabInfoCache v.header ∧
        ∀ bctl ∈ v.records, ObjOf m.cache views bufctlCache bctl) :
    ∃ after views', m.freeSlabInfo v.cache v.header = some after ∧
      Sound after [] views' loose extra ∧
      Confined (Releasing m.cache v.cache) m after views views' loose extra := by
  cases kind : (m.cache v.cache).onSlab with
  | true =>
      rw [SlabView.owned_onSlab kind, List.nil_append] at sound
      have inside := fits.holds_header sound.prepared kind
      obtain ⟨after, freed, done, confined⟩ :=
        sound.freeSlabInfo_onSlab kind fits.header rfl inside
      exact ⟨after, views, freed, done,
        confined.mono (fun _ => False.elim) (fun _ => id) fun _ => id⟩
  | false =>
      rw [SlabView.owned_offSlab kind] at sound
      have records := fits.records_perm allFree
      obtain ⟨info, given⟩ := kept kind
      obtain ⟨after, views', freed, done, confined⟩ :=
        (sound.perm_loose ((records.cons v.header).append_right loose)
          (.refl _)).freeSlabInfo_offSlab kind
            ⟨⟨v.slab, fits.header, fits.linked⟩,
              fun bctl member => given bctl (records.mem_iff.mpr member), info⟩
            (by rw [← records.length_eq, fits.sized]) fits.header rfl
      exact ⟨after, views', freed, done,
        confined.mono (fun _ ofRecords => ⟨ofRecords, kind⟩) (fun _ => id)
          fun _ => id⟩

end RiscvWorkshop.PageSlab
