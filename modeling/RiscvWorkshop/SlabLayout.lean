import Mathlib
import RiscvWorkshop.SlabSize

namespace RiscvWorkshop.PageSlab

open Pfdb
open Kmem

/-!
# Where the objects of a slab are

A slab is a page, or a cluster of pages, with objects of one size.  The size of
an object, the number of objects and the order of the pages are chosen when the
cache is created.  Sizes are 64-bit words; addresses do not reach their end.
-/

/-- `sizeof(void *)`, which is also `SLAB_BUFCTL_POINTER_SIZE`. -/
def pointerSize : Nat := 8

/-- `sizeof(kmem_s_bufctl)`. -/
def sBufctlSize : Nat := 8

/-- `sizeof(kmem_bufctl)`. -/
def bufctlSize : Nat := 24

/-- `offsetof(kmem_bufctl, obj)`. -/
def bufctlObj : Nat := 16

/-- `sizeof(slab)`. -/
def slabSize : Nat := 200

/-- `HAL_CPUCACHE_HW_ALIGN`. -/
def hwAlign : Nat := 16

/--
The data caches of the processors: `krn_get_cpu_l1_dcache_linesize`,
`krn_get_cpu_l1_dcache_color_num` and `krn_get_cpu_dcache_size`.
-/
structure Dcache where
  linesize : Nat
  colorNum : Nat
  size : Nat
  wholeWords : pointerSize ∣ linesize
  hasColors : 0 < colorNum

/--
The arguments of `slab_kmem_cache_create`.  A constructor or destructor is what
it leaves at the addresses of an object.
-/
structure CacheArgs where
  size : Nat
  align : Nat
  limits : Nat
  alignHw : Bool
  coloring : Bool
  constructor : Option (Nat → Nat)
  destructor : Option (Nat → Nat)
  isSize : size < sizeLimit
  isAlign : align = 0 ∨ ∃ shift < 64, align = 2 ^ shift

/-- `kmem_cache`: the fields that stay as `slab_kmem_cache_create` sets them. -/
structure KmemCache where
  payloadSize : Nat
  objSize : Nat
  order : Nat
  align : Nat
  colorOffset : Nat
  colorNum : Nat
  limits : Nat
  objsPerSlab : Nat
  onSlab : Bool
  coloring : Bool
  constructor : Option (Nat → Nat)
  destructor : Option (Nat → Nat)

/-- `roundup_align` of a size. -/
def roundupSize (size align : Nat) : Nat :=
  truncateAlign ((size + (align - 1)) % sizeLimit) align

/-- The size of an object with room for its alignment. -/
def alignedSize (size objAlign : Nat) : Nat :=
  if objAlign > 0 then
    roundupSize
      (roundupSize ((size + pointerSize + 1) % sizeLimit) pointerSize) objAlign
  else
    size

/-- `calc_slab_size`. -/
def calcSlabSize
    (dcache : Dcache)
    (args : CacheArgs)
    (cache : KmemCache) : Except Errno KmemCache :=
  if args.align % 2 = 1 then
    .error .einval
  else
    let objAlign := if args.alignHw then hwAlign else args.align
    let objSize := alignedSize args.size objAlign
    if ¬ args.coloring ∧ pageSize / kmSlabTypeDivisor > objSize then
      let objSize := roundupSize ((objSize + sBufctlSize) % sizeLimit) pointerSize
      .ok
        { cache with
          align := objAlign
          coloring := args.coloring
          onSlab := true
          objSize := objSize
          order := 0
          objsPerSlab := (pageSize - slabSize) / objSize }
    else
      let colorOffset := if args.coloring then dcache.linesize else cache.colorOffset
      let colorNum := if args.coloring then dcache.colorNum else cache.colorNum
      let coloringArea :=
        if args.coloring then colorOffset * colorNum % sizeLimit else 0
      let objSize :=
        if objAlign = 0 then
          roundupSize ((objSize + pointerSize) % sizeLimit) pointerSize
        else
          objSize
      match caclOffSlabSize objSize coloringArea with
      | none => .error .esrch
      | some order =>
          .ok
            { cache with
              align := objAlign
              coloring := args.coloring
              onSlab := false
              objSize := objSize
              order := order
              colorOffset := colorOffset
              colorNum := colorNum
              objsPerSlab :=
                (pageSize <<< order + (sizeLimit - coloringArea)) % sizeLimit /
                  objSize }

/-- `slab_kmem_cache_create`. -/
def slabKmemCacheCreate
    (dcache : Dcache)
    (args : CacheArgs) : Except Errno KmemCache :=
  calcSlabSize dcache args
    { payloadSize := args.size
      objSize := 0
      order := 0
      align := 0
      colorOffset := 0
      colorNum := 0
      limits := args.limits
      objsPerSlab := 0
      onSlab := true
      coloring := false
      constructor := args.constructor
      destructor := args.destructor }

namespace KmemCache

/-- The size of the page cluster of a slab. -/
def slabBytes (cache : KmemCache) : Nat :=
  pageSize <<< cache.order

/-- The number of different color offsets. -/
def colors (cache : KmemCache) : Nat :=
  if cache.coloring then cache.colorNum else 1

/-- `this_coloff` in `slab_kmem_cache_grow`. -/
def coloff (cache : KmemCache) (colorIndex : Nat) : Nat :=
  if cache.coloring then cache.colorOffset * colorIndex else 0

/-- Where the room of one object starts. -/
def room (cache : KmemCache) (page coloff i : Nat) : Nat :=
  page + coloff + cache.objSize * i

/-- The address of an object that `alloc_slab_obj` makes from the room behind the first word. -/
def alignObj (cache : KmemCache) (ptr : Nat) : Nat :=
  if cache.align > 0 then roundupAlign (ptr + pointerSize) cache.align else ptr

/-- The address of one object. -/
def objAt (cache : KmemCache) (page coloff i : Nat) : Nat :=
  cache.alignObj (cache.room page coloff i + pointerSize)

/-- The record of an object is found through the word in front of the object. -/
def pointed (cache : KmemCache) : Prop :=
  cache.align = 0 → cache.onSlab = false

instance (cache : KmemCache) : Decidable cache.pointed :=
  inferInstanceAs (Decidable (_ → _))

/--
The objects end where the pages of the slab end.  On a slab with its records
among the objects the allocation checks this itself, up to the end of the words.
-/
def ObjectsInside (cache : KmemCache) : Prop :=
  if cache.onSlab then
    cache.payloadSize ≤ pageSize
  else
    ∀ colorIndex < cache.colors,
      let last := cache.objAt 0 (cache.coloff colorIndex) (cache.objsPerSlab - 1)
      last < cache.slabBytes ∧ last + cache.payloadSize ≤ cache.slabBytes

end KmemCache

/-! ## Rounding up -/

section Roundup

variable {address size shift : Nat}

theorem le_roundupAlign
    (positive : 0 < size) :
    address ≤ roundupAlign address size := by
  have rest := Nat.div_add_mod (address + (size - 1)) size
  have less := Nat.mod_lt (address + (size - 1)) positive
  rw [Nat.mul_comm] at rest
  rw [roundupAlign, truncateAlign]
  omega

theorem roundupAlign_lt
    (positive : 0 < size) :
    roundupAlign address size < address + size := by
  have least := Nat.div_mul_le_self (address + (size - 1)) size
  rw [roundupAlign, truncateAlign]
  omega

theorem dvd_roundupAlign :
    size ∣ roundupAlign address size :=
  Nat.dvd_mul_left size _

/-- Rounding up moves with whole multiples. -/
theorem roundupAlign_add
    (positive : 0 < size)
    {more : Nat}
    (whole : size ∣ more) :
    roundupAlign (address + more) size = roundupAlign address size + more := by
  obtain ⟨times, rfl⟩ := whole
  have moved :
      address + size * times + (size - 1) = address + (size - 1) + size * times := by
    omega
  rw [roundupAlign, truncateAlign, moved, Nat.add_mul_div_left _ _ positive,
    Nat.add_mul, Nat.mul_comm times, roundupAlign, truncateAlign]

/-- A multiple is rounded up to itself. -/
theorem roundupAlign_of_dvd
    (positive : 0 < size)
    (whole : size ∣ address) :
    roundupAlign address size = address := by
  have same : roundupAlign (0 + address) size = roundupAlign 0 size + address :=
    roundupAlign_add positive whole
  have zero : roundupAlign 0 size = 0 := by
    rw [roundupAlign, truncateAlign, Nat.div_eq_of_lt (by omega), Nat.zero_mul]
  rw [Nat.zero_add, zero, Nat.zero_add] at same
  exact same

/-- Words stay words when they are rounded up to a power of two. -/
theorem words_roundupAlign
    (words : pointerSize ∣ address) :
    pointerSize ∣ roundupAlign address (2 ^ shift) := by
  rcases Nat.le_total 3 shift with large | small
  · exact (Nat.pow_dvd_pow 2 large).trans dvd_roundupAlign
  · rw [roundupAlign_of_dvd (Nat.two_pow_pos shift)
      ((Nat.pow_dvd_pow 2 small).trans words)]
    exact words

/-- `roundup_align` of a size that does not reach the end of the words. -/
theorem roundupSize_eq
    (small : address + size < sizeLimit) :
    roundupSize address size = roundupAlign address size := by
  rw [roundupSize, Nat.mod_eq_of_lt (by omega), roundupAlign]

end Roundup

/-! ## Caches whose objects are inside -/

/-- A slab that keeps its records among the objects. -/
structure OnSlabLaid (cache : KmemCache) : Prop where
  onePage : cache.order = 0
  uncolored : cache.coloring = false
  header : cache.objsPerSlab * cache.objSize ≤ pageSize - slabSize
  rooms : cache.align + pointerSize ≤ cache.objSize
  payload : cache.payloadSize ≤ pageSize

/-- A slab that keeps its records elsewhere. -/
structure OffSlabLaid (cache : KmemCache) : Prop where
  apart : cache.payloadSize + pointerSize ≤ cache.objSize
  steps : cache.align > 0 → cache.align ∣ cache.objSize
  pages : cache.align > 0 → cache.align ∣ cache.slabBytes
  inside : ∀ colorIndex < cache.colors,
    let last := cache.objAt 0 (cache.coloff colorIndex) (cache.objsPerSlab - 1)
    last < cache.slabBytes ∧ last + cache.payloadSize ≤ cache.slabBytes

/-- What `calc_slab_size` makes of a cache whose objects are inside. -/
structure Laid (cache : KmemCache) : Prop where
  objs : 0 < cache.objsPerSlab
  words : pointerSize ∣ cache.objSize
  colorWords : pointerSize ∣ cache.colorOffset
  colors : 0 < cache.colors
  isAlign : cache.align = 0 ∨ ∃ shift, cache.align = 2 ^ shift
  onSlab : cache.onSlab = true → OnSlabLaid cache
  offSlab : cache.onSlab = false → OffSlabLaid cache

section Create

variable {size objAlign : Nat}

/-- The size of an object without the arithmetic of words. -/
theorem alignedSize_eq
    (aligned : 0 < objAlign)
    (small : size + objAlign + 32 < sizeLimit) :
    alignedSize size objAlign =
      roundupAlign (roundupAlign (size + pointerSize + 1) pointerSize)
        objAlign := by
  have inner :
      roundupSize ((size + pointerSize + 1) % sizeLimit) pointerSize =
        roundupAlign (size + pointerSize + 1) pointerSize := by
    rw [Nat.mod_eq_of_lt (by rw [pointerSize]; omega),
      roundupSize_eq (by rw [pointerSize]; omega)]
  have least :
      roundupAlign (size + pointerSize + 1) pointerSize <
        size + pointerSize + 1 + pointerSize :=
    roundupAlign_lt (by decide)
  rw [alignedSize, if_pos aligned, inner, roundupSize_eq]
  rw [pointerSize] at *
  omega

/-- A size that is aligned has little more than the alignment added. -/
theorem alignedSize_lt
    (aligned : 0 < objAlign)
    (small : size + objAlign + 32 < sizeLimit) :
    alignedSize size objAlign < size + objAlign + 32 := by
  have inner :
      roundupAlign (size + pointerSize + 1) pointerSize <
        size + pointerSize + 1 + pointerSize :=
    roundupAlign_lt (by decide)
  have outer :
      roundupAlign (roundupAlign (size + pointerSize + 1) pointerSize) objAlign <
        roundupAlign (size + pointerSize + 1) pointerSize + objAlign :=
    roundupAlign_lt aligned
  rw [alignedSize_eq aligned small]
  rw [pointerSize] at *
  omega

/-- The size has room for the pointer and the alignment, in whole steps and words. -/
theorem alignedSize_room
    (aligned : ∃ shift, objAlign = 2 ^ shift)
    (small : size + objAlign + 32 < sizeLimit) :
    size + pointerSize + 1 ≤ alignedSize size objAlign ∧
      objAlign ≤ alignedSize size objAlign ∧
      objAlign ∣ alignedSize size objAlign ∧
      pointerSize ∣ alignedSize size objAlign := by
  obtain ⟨shift, rfl⟩ := aligned
  have positive := Nat.two_pow_pos shift
  have inner :
      size + pointerSize + 1 ≤
        roundupAlign (size + pointerSize + 1) pointerSize :=
    le_roundupAlign (by decide)
  have outer :
      roundupAlign (size + pointerSize + 1) pointerSize ≤
        roundupAlign (roundupAlign (size + pointerSize + 1) pointerSize)
          (2 ^ shift) :=
    le_roundupAlign positive
  rw [alignedSize_eq positive small]
  refine ⟨inner.trans outer, Nat.le_of_dvd ?_ dvd_roundupAlign,
    dvd_roundupAlign, words_roundupAlign dvd_roundupAlign⟩
  rw [pointerSize] at *
  omega

/-- The alignment of a cache is none or a power of two. -/
theorem objAlign_cases
    (args : CacheArgs)
    (objAlign : Nat)
    (chosen : objAlign = if args.alignHw then hwAlign else args.align) :
    (objAlign = 0 ∨ ∃ shift, objAlign = 2 ^ shift) ∧
      objAlign ≤ 9223372036854775808 := by
  have small : ∀ shift < 64, 2 ^ shift ≤ 9223372036854775808 := by
    intro shift less
    exact Nat.pow_le_pow_right Nat.two_pos (Nat.le_of_lt_succ less)
  subst chosen
  split_ifs
  · exact ⟨.inr ⟨4, rfl⟩, by decide⟩
  · rcases args.isAlign with none | ⟨shift, less, power⟩
    · exact ⟨.inl none, none ▸ Nat.zero_le _⟩
    · exact ⟨.inr ⟨shift, power⟩, power ▸ small shift less⟩

end Create

section CreateLaid

variable {cache : KmemCache}

/-- An object is behind the first word of its room, and behind the second if it is aligned. -/
theorem KmemCache.objAt_ge
    (cache : KmemCache)
    (page coloff i : Nat) :
    cache.room page coloff i + pointerSize ≤ cache.objAt page coloff i ∧
      (cache.align > 0 →
        cache.room page coloff i + 2 * pointerSize ≤
          cache.objAt page coloff i ∧
        cache.align ≤ cache.objAt page coloff i) := by
  rw [KmemCache.objAt, KmemCache.alignObj]
  split_ifs with aligned
  · have above :
        cache.room page coloff i + pointerSize + pointerSize ≤
          roundupAlign (cache.room page coloff i + pointerSize + pointerSize)
            cache.align :=
      le_roundupAlign aligned
    have multiple : cache.align ≤
        roundupAlign (cache.room page coloff i + pointerSize + pointerSize)
          cache.align :=
      Nat.le_of_dvd (by rw [pointerSize] at *; omega) dvd_roundupAlign
    exact ⟨by omega, fun _ => ⟨by omega, multiple⟩⟩
  · exact ⟨le_rfl, fun positive => absurd positive aligned⟩

/-- The slabs of the pool are of four megabytes at most. -/
theorem KmemCache.slabBytes_le
    (order : cache.order < pagePoolMaxOrder) :
    cache.slabBytes ≤ 4194304 :=
  (slabSize_le order).trans (le_of_eq topSlab_eq)

/-- A power of two that is at most the size of a slab divides it. -/
theorem KmemCache.dvd_slabBytes
    (isAlign : ∃ shift, cache.align = 2 ^ shift)
    (small : cache.align ≤ cache.slabBytes) :
    cache.align ∣ cache.slabBytes := by
  obtain ⟨shift, power⟩ := isAlign
  have bytes : cache.slabBytes = 2 ^ (12 + cache.order) := by
    rw [KmemCache.slabBytes, Nat.shiftLeft_eq, Nat.pow_add]
    rfl
  rw [power, bytes] at small ⊢
  exact Nat.pow_dvd_pow 2 ((Nat.pow_le_pow_iff_right Nat.one_lt_two).mp small)

/-- A cache with its records among the objects. -/
theorem laid_of_onSlab
    {args : CacheArgs}
    {objAlign : Nat}
    (chosen : objAlign = if args.alignHw then hwAlign else args.align)
    (uncolored : args.coloring = false)
    (less : alignedSize args.size objAlign < 512)
    (payload : args.size ≤ pageSize)
    (made : cache =
      { payloadSize := args.size
        objSize :=
          roundupSize
            ((alignedSize args.size objAlign + sBufctlSize) % sizeLimit)
            pointerSize
        order := 0
        align := objAlign
        colorOffset := 0
        colorNum := 0
        limits := args.limits
        objsPerSlab := (pageSize - slabSize) /
          roundupSize
            ((alignedSize args.size objAlign + sBufctlSize) % sizeLimit)
            pointerSize
        onSlab := true
        coloring := args.coloring
        constructor := args.constructor
        destructor := args.destructor }) :
    Laid cache := by
  obtain ⟨isAlign, bound⟩ := objAlign_cases args objAlign chosen
  generalize alignedIs : alignedSize args.size objAlign = aligned at *
  have noWrap : aligned + sBufctlSize + pointerSize < sizeLimit := by
    rw [sBufctlSize, pointerSize, sizeLimit_eq]
    omega
  have rounded :
      roundupSize ((aligned + sBufctlSize) % sizeLimit) pointerSize =
        roundupAlign (aligned + sBufctlSize) pointerSize := by
    rw [Nat.mod_eq_of_lt (by omega), roundupSize_eq noWrap]
  have least :
      aligned + sBufctlSize ≤
        roundupAlign (aligned + sBufctlSize) pointerSize :=
    le_roundupAlign (by decide)
  have most :
      roundupAlign (aligned + sBufctlSize) pointerSize <
        aligned + sBufctlSize + pointerSize :=
    roundupAlign_lt (by decide)
  have words : pointerSize ∣ roundupAlign (aligned + sBufctlSize) pointerSize :=
    dvd_roundupAlign
  rw [rounded] at made
  generalize roundupAlign (aligned + sBufctlSize) pointerSize = objSize at *
  have roomy : objAlign ≤ aligned := by
    rcases isAlign with none | power
    · omega
    · rw [← alignedIs]
      refine (alignedSize_room power ?_).2.1
      rw [sizeLimit_eq]
      rw [pageSize, pageShift] at payload
      omega
  rw [sBufctlSize] at least most
  rw [pointerSize] at most
  subst made
  constructor
  case objs =>
    refine Nat.div_pos ?_ (by omega)
    rw [pageSize, pageShift, slabSize]
    omega
  case words => exact words
  case colorWords => exact Nat.dvd_zero _
  case colors =>
    rw [KmemCache.colors, uncolored]
    exact Nat.one_pos
  case isAlign => exact isAlign
  case onSlab =>
    intro _
    refine ⟨rfl, uncolored, Nat.div_mul_le_self _ _, ?_, payload⟩
    rw [pointerSize]
    exact le_trans (Nat.add_le_add_right roomy 8) least
  case offSlab => exact nofun

/-- The room of an object without records in it. -/
theorem objSize_room
    {objAlign objSize size : Nat}
    (isAlign : objAlign = 0 ∨ ∃ shift, objAlign = 2 ^ shift)
    (small : size + objAlign + 32 < sizeLimit)
    (made : objSize =
      if objAlign = 0 then
        roundupSize ((alignedSize size objAlign + pointerSize) % sizeLimit)
          pointerSize
      else
        alignedSize size objAlign) :
    size + pointerSize ≤ objSize ∧
      objSize < size + objAlign + 32 ∧
      pointerSize ∣ objSize ∧
      (objAlign > 0 → objAlign ∣ objSize) := by
  split_ifs at made with none
  · have unaligned : alignedSize size objAlign = size := by
      rw [alignedSize, if_neg (by omega)]
    have noWrap : size + pointerSize + pointerSize < sizeLimit := by
      rw [pointerSize]
      omega
    rw [unaligned, Nat.mod_eq_of_lt (by omega), roundupSize_eq noWrap] at made
    have least :
        size + pointerSize ≤ roundupAlign (size + pointerSize) pointerSize :=
      le_roundupAlign (by decide)
    have most :
        roundupAlign (size + pointerSize) pointerSize <
          size + pointerSize + pointerSize :=
      roundupAlign_lt (by decide)
    rw [← made, pointerSize] at least most
    refine ⟨least, by omega, made ▸ dvd_roundupAlign, by omega⟩
  · have power := isAlign.resolve_left none
    obtain ⟨least, _, steps, words⟩ := alignedSize_room power small
    have most := alignedSize_lt (Nat.pos_of_ne_zero none) small
    rw [← made] at least most steps words
    exact ⟨by omega, most, words, fun _ => steps⟩

/-- A cache with its records elsewhere. -/
theorem laid_of_offSlab
    (isAlign : cache.align = 0 ∨ ∃ shift, cache.align = 2 ^ shift)
    (alignSmall : cache.align ≤ 9223372036854775808)
    (isOff : cache.onSlab = false)
    (size : cache.objSize =
      if cache.align = 0 then
        roundupSize
          ((alignedSize cache.payloadSize cache.align + pointerSize) % sizeLimit)
          pointerSize
      else
        alignedSize cache.payloadSize cache.align)
    (colorWords : pointerSize ∣ cache.colorOffset)
    (colors : 0 < cache.colors)
    {coloringArea : Nat}
    (areaSmall : coloringArea < sizeLimit)
    (order : caclOffSlabSize cache.objSize coloringArea = some cache.order)
    (objs : cache.objsPerSlab =
      (pageSize <<< cache.order + (sizeLimit - coloringArea)) % sizeLimit /
        cache.objSize)
    (inside : cache.ObjectsInside) :
    Laid cache := by
  rw [KmemCache.ObjectsInside, isOff] at inside
  simp only [Bool.false_eq_true, if_false] at inside
  have orderSmall : cache.order < pagePoolMaxOrder :=
    offSlabLoop_lt (Nat.zero_add pagePoolMaxOrder).le (by decide) order
  have bytes := KmemCache.slabBytes_le orderSmall
  obtain ⟨within, payload⟩ := inside 0 colors
  have behind :=
    (cache.objAt_ge 0 (cache.coloff 0) (cache.objsPerSlab - 1)).2
  have alignBytes : cache.align ≤ cache.slabBytes := by
    rcases Nat.eq_zero_or_pos cache.align with none | positive
    · omega
    · exact (behind positive).2.trans within.le
  obtain ⟨apart, most, words, steps⟩ :=
    objSize_room isAlign
      (by rw [sizeLimit_eq]; omega : cache.payloadSize + cache.align + 32 < sizeLimit)
      size
  have positive : 0 < cache.objSize := by
    rw [pointerSize] at apart
    omega
  have chosen := caclOffSlabSize_chosen positive
    (by rw [sizeLimit_eq]; omega) areaSmall
  rw [order] at chosen
  have holds := chosen.holds.2
  constructor
  case objs =>
    rw [objs]
    refine Nat.div_pos ?_ (by rw [pointerSize] at apart; omega)
    rw [KmemCache.slabBytes] at *
    rw [sizeLimit_eq] at *
    omega
  case words => exact words
  case colorWords => exact colorWords
  case colors => exact colors
  case isAlign => exact isAlign
  case onSlab => exact fun isOn => absurd (isOff.symm.trans isOn) nofun
  case offSlab =>
    refine fun _ => ⟨apart, steps, fun positive => ?_, inside⟩
    refine KmemCache.dvd_slabBytes (isAlign.resolve_left ?_) alignBytes
    exact Nat.pos_iff_ne_zero.mp positive

/-- A cache that was created, with its objects inside. -/
theorem laid_of_create
    {dcache : Dcache}
    {args : CacheArgs}
    (created : slabKmemCacheCreate dcache args = .ok cache)
    (inside : cache.ObjectsInside) :
    Laid cache := by
  rw [slabKmemCacheCreate, calcSlabSize] at created
  by_cases odd : args.align % 2 = 1
  · rw [if_pos odd] at created
    cases created
  rw [if_neg odd] at created
  generalize chosen : (if args.alignHw then hwAlign else args.align) = objAlign
    at created
  obtain ⟨isAlign, alignSmall⟩ := objAlign_cases args objAlign chosen.symm
  simp only at created
  by_cases onSlab :
      ¬ args.coloring ∧
        pageSize / kmSlabTypeDivisor > alignedSize args.size objAlign
  · rw [if_pos onSlab, Except.ok.injEq] at created
    refine laid_of_onSlab chosen.symm (Bool.eq_false_iff.mpr onSlab.1)
      onSlab.2 ?_ created.symm
    subst created
    exact inside
  · rw [if_neg onSlab] at created
    split at created
    · cases created
    · next order found =>
      rw [Except.ok.injEq] at created
      subst created
      refine laid_of_offSlab isAlign alignSmall rfl rfl ?_ ?_ ?_ found rfl inside
      · cases args.coloring
        · exact Nat.dvd_zero _
        · exact dcache.wholeWords
      · rw [KmemCache.colors]
        cases args.coloring
        · exact Nat.one_pos
        · exact dcache.hasColors
      · split_ifs
        · exact Nat.mod_lt _ (by decide)
        · decide

end CreateLaid

/-! ## The words of an object -/

namespace KmemCache

/--
The words that belong to an object in the pages of a slab: its room if its
record is in front of it, else the object with the pointer in front of it.
-/
def Slot (cache : KmemCache) (page coloff i a : Nat) : Prop :=
  if cache.onSlab then
    cache.room page coloff i ≤ a ∧ a < cache.room page coloff i + cache.objSize
  else
    cache.objAt page coloff i ≤ a + pointerSize ∧
      a < cache.objAt page coloff i + cache.payloadSize

/-- The words that the caller of the allocator may use. -/
def Payload (cache : KmemCache) (page coloff i a : Nat) : Prop :=
  cache.objAt page coloff i ≤ a ∧
    a < cache.objAt page coloff i + cache.payloadSize

/-- What `alloc_slab_obj` asserts of an object with its record in front of it. -/
def Fitted (cache : KmemCache) (page coloff i : Nat) : Prop :=
  cache.onSlab = true →
    cache.objAt page coloff i + cache.payloadSize ≤
      cache.room page coloff i + cache.objSize

end KmemCache

section Slots

variable {cache : KmemCache}
variable {page coloff colorIndex i j a : Nat}

/-- The alignment is positive where there is one. -/
theorem Laid.power
    (laid : Laid cache)
    (aligned : cache.align > 0) :
    ∃ shift, cache.align = 2 ^ shift :=
  laid.isAlign.resolve_left aligned.ne'

/-- Without records in it, a slab repeats its first object. -/
theorem OffSlabLaid.objAt_eq
    (laid : OffSlabLaid cache)
    (aligned : cache.slabBytes ∣ page)
    (coloff i : Nat) :
    cache.objAt page coloff i =
      cache.objAt 0 coloff 0 + (page + cache.objSize * i) := by
  rw [KmemCache.objAt, KmemCache.objAt, KmemCache.alignObj, KmemCache.alignObj,
    KmemCache.room, KmemCache.room]
  split_ifs with positive
  · have whole : cache.align ∣ page + cache.objSize * i :=
      ((laid.pages positive).trans aligned).add
        ((laid.steps positive).mul_right i)
    rw [← roundupAlign_add positive whole]
    congr 1
    omega
  · omega

/-- Every object of such a slab is within its pages. -/
theorem OffSlabLaid.objAt_inside
    (laid : OffSlabLaid cache)
    (aligned : cache.slabBytes ∣ page)
    (color : colorIndex < cache.colors)
    (less : i < cache.objsPerSlab) :
    page + pointerSize ≤ cache.objAt page (cache.coloff colorIndex) i ∧
      cache.objAt page (cache.coloff colorIndex) i < page + cache.slabBytes ∧
      cache.objAt page (cache.coloff colorIndex) i + cache.payloadSize ≤
        page + cache.slabBytes := by
  have inside := laid.inside colorIndex color
  have behind := (cache.objAt_ge page (cache.coloff colorIndex) i).1
  rw [KmemCache.room] at behind
  rw [laid.objAt_eq (Nat.dvd_zero _)] at inside
  rw [laid.objAt_eq aligned] at behind ⊢
  have later : cache.objSize * i ≤ cache.objSize * (cache.objsPerSlab - 1) :=
    Nat.mul_le_mul_left _ (Nat.le_sub_one_of_lt less)
  omega

/-- Every room of a slab with its records in it ends before the header. -/
theorem OnSlabLaid.room_inside
    (laid : OnSlabLaid cache)
    (less : i < cache.objsPerSlab) :
    cache.room page 0 i + cache.objSize + slabSize ≤ page + pageSize := by
  have later : cache.objSize * (i + 1) ≤ cache.objSize * cache.objsPerSlab :=
    Nat.mul_le_mul_left _ less
  have header := laid.header
  have sizes : slabSize ≤ pageSize := by decide
  rw [Nat.mul_comm] at header
  rw [KmemCache.room, Nat.mul_add] at *
  omega

/-- The pointer in front of an object is in the room of the object. -/
theorem OnSlabLaid.objAt_le
    (laid : OnSlabLaid cache)
    (page coloff i : Nat) :
    cache.objAt page coloff i <
      cache.room page coloff i + cache.objSize + pointerSize := by
  have rooms := laid.rooms
  rw [KmemCache.objAt, KmemCache.alignObj]
  split_ifs with positive
  · have most :
        roundupAlign (cache.room page coloff i + pointerSize + pointerSize)
            cache.align <
          cache.room page coloff i + pointerSize + pointerSize + cache.align :=
      roundupAlign_lt positive
    omega
  · rw [pointerSize] at *
    omega

/-- Rooms are not colored when the records are in them. -/
theorem OnSlabLaid.coloff_eq
    (laid : OnSlabLaid cache)
    (colorIndex : Nat) :
    cache.coloff colorIndex = 0 := by
  rw [KmemCache.coloff, laid.uncolored]
  rfl

/-- Where the slot of an object is in its pages. -/
theorem Laid.slot_inside
    (laid : Laid cache)
    (aligned : cache.slabBytes ∣ page)
    (color : colorIndex < cache.colors)
    (less : i < cache.objsPerSlab)
    (slot : cache.Slot page (cache.coloff colorIndex) i a) :
    page ≤ a ∧ a < page + cache.slabBytes ∧
      (cache.onSlab = true → a + slabSize < page + pageSize) := by
  rw [KmemCache.Slot] at slot
  cases kind : cache.onSlab with
  | true =>
      have onSlab := laid.onSlab kind
      rw [kind, if_pos rfl, onSlab.coloff_eq] at slot
      have inside :
          cache.room page 0 i + cache.objSize + slabSize ≤ page + pageSize :=
        onSlab.room_inside less
      have start : page ≤ cache.room page 0 i := by
        rw [KmemCache.room]
        omega
      have bytes : cache.slabBytes = pageSize := by
        rw [KmemCache.slabBytes, onSlab.onePage, Nat.shiftLeft_zero]
      rw [bytes]
      refine ⟨by omega, by omega, fun _ => by omega⟩
  | false =>
      have offSlab := laid.offSlab kind
      rw [kind, if_neg Bool.false_ne_true] at slot
      have inside := offSlab.objAt_inside aligned color less
      exact ⟨by omega, by omega, nofun⟩

/-- The slots of different objects of a slab have no word in common. -/
theorem Laid.slot_unique
    (laid : Laid cache)
    (aligned : cache.slabBytes ∣ page)
    (first : cache.Slot page coloff i a)
    (second : cache.Slot page coloff j a) :
    i = j := by
  have steps : ∀ {k l : Nat}, k < l →
      cache.objSize * k + cache.objSize ≤ cache.objSize * l := by
    intro k l less
    have later := Nat.mul_le_mul_left cache.objSize less
    rw [Nat.succ_eq_add_one, Nat.mul_add, Nat.mul_one] at later
    exact later
  rw [KmemCache.Slot] at first second
  cases kind : cache.onSlab with
  | true =>
      rw [kind, if_pos rfl, KmemCache.room] at first second
      rcases Nat.lt_trichotomy i j with less | same | more
      · have := steps less
        omega
      · exact same
      · have := steps more
        omega
  | false =>
      have offSlab := laid.offSlab kind
      have apart := offSlab.apart
      rw [kind, if_neg Bool.false_ne_true, offSlab.objAt_eq aligned]
        at first second
      rcases Nat.lt_trichotomy i j with less | same | more
      · have := steps less
        omega
      · exact same
      · have := steps more
        omega

/-- The words of an object that fits are in its slot. -/
theorem KmemCache.slot_of_payload
    (fitted : cache.Fitted page coloff i)
    (payload : cache.Payload page coloff i a) :
    cache.Slot page coloff i a := by
  obtain ⟨above, below⟩ := payload
  rw [KmemCache.Slot]
  cases kind : cache.onSlab with
  | true =>
      have fits := fitted kind
      have behind := (cache.objAt_ge page coloff i).1
      rw [if_pos rfl]
      omega
  | false =>
      rw [if_neg Bool.false_ne_true]
      omega

/-- The pointer in front of an object is in the slot, and not in the object. -/
theorem Laid.slot_of_pointer
    (laid : Laid cache)
    (pointed : cache.pointed)
    (page coloff i : Nat) :
    cache.Slot page coloff i (cache.objAt page coloff i - pointerSize) ∧
      cache.objAt page coloff i - pointerSize < cache.objAt page coloff i := by
  have behind := cache.objAt_ge page coloff i
  have word : 0 < pointerSize := by decide
  refine ⟨?_, by omega⟩
  rw [KmemCache.Slot]
  cases kind : cache.onSlab with
  | true =>
      have positive : cache.align > 0 := by
        refine Nat.pos_of_ne_zero fun none => ?_
        exact absurd ((pointed none).symm.trans kind) Bool.false_ne_true
      have most := (laid.onSlab kind).objAt_le page coloff i
      have far := (behind.2 positive).1
      rw [if_pos rfl]
      omega
  | false =>
      rw [if_neg Bool.false_ne_true]
      omega

/-- The first word of a room is in the slot, and not in the object. -/
theorem Laid.slot_of_room
    (laid : Laid cache)
    (onSlab : cache.onSlab = true)
    (page coloff i : Nat) :
    cache.Slot page coloff i (cache.room page coloff i) ∧
      cache.room page coloff i < cache.objAt page coloff i := by
  have behind := (cache.objAt_ge page coloff i).1
  have rooms := (laid.onSlab onSlab).rooms
  have word : 0 < pointerSize := by decide
  rw [KmemCache.Slot, onSlab, if_pos rfl]
  omega

/-- Every object is in the pages of its slab, with its pointer. -/
theorem Laid.objAt_inside
    (laid : Laid cache)
    (aligned : cache.slabBytes ∣ page)
    (color : colorIndex < cache.colors)
    (less : i < cache.objsPerSlab) :
    page + pointerSize ≤ cache.objAt page (cache.coloff colorIndex) i ∧
      cache.objAt page (cache.coloff colorIndex) i < page + cache.slabBytes := by
  cases kind : cache.onSlab with
  | true =>
      have onSlab := laid.onSlab kind
      have inside :
          cache.room page 0 i + cache.objSize + slabSize ≤ page + pageSize :=
        onSlab.room_inside less
      have most := onSlab.objAt_le page 0 i
      have behind := (cache.objAt_ge page 0 i).1
      have start : page ≤ cache.room page 0 i := by
        rw [KmemCache.room]
        omega
      have bytes : cache.slabBytes = pageSize := by
        rw [KmemCache.slabBytes, onSlab.onePage, Nat.shiftLeft_zero]
      have sizes : pointerSize < slabSize := by decide
      rw [onSlab.coloff_eq, bytes]
      omega
  | false =>
      have inside := (laid.offSlab kind).objAt_inside aligned color less
      exact ⟨inside.1, inside.2.1⟩

/-- Objects are at whole words. -/
theorem Laid.words_objAt
    (laid : Laid cache)
    (page_words : pointerSize ∣ page)
    (coloff_words : pointerSize ∣ coloff)
    (i : Nat) :
    pointerSize ∣ cache.objAt page coloff i := by
  have room : pointerSize ∣ cache.room page coloff i + pointerSize :=
    ((page_words.add coloff_words).add (laid.words.mul_right i)).add
      (Nat.dvd_refl pointerSize)
  rw [KmemCache.objAt, KmemCache.alignObj]
  split_ifs with positive
  · obtain ⟨shift, power⟩ := laid.power positive
    rw [power]
    exact words_roundupAlign (room.add (Nat.dvd_refl pointerSize))
  · exact room

end Slots

end RiscvWorkshop.PageSlab
