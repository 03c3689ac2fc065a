import Mathlib
import RiscvWorkshop.KernelBase
import RiscvWorkshop.Bitops
import RiscvWorkshop.SearchTree

namespace RiscvWorkshop.Cpu

open Bitops SearchTree

/-!
# The map of processors

Registration of processors, their logical numbers and the map of those that
are online.  The tree of processors is rebalanced in any way that keeps the
order of its nodes.  A call that stops at an assertion or leaves an array has
no result.
-/

/-- The two numbers of a processor in `cpu_info`. -/
structure CpuInfo where
  logId : Nat
  physId : Nat
deriving Repr, DecidableEq

/-- `cpu_map`; the nodes of the tree are places in the array. -/
structure CpuMap where
  head : NodeTree Nat
  available : Bitmap
  online : Bitmap
  cpuinfo : Nat → CpuInfo

/-- `krn_cpuinfo_init`, for `KC_CPUS_NR` processors. -/
def krnCpuinfoInit (kcCpusNr : Nat) : CpuMap :=
  { head := .leaf
    available := bitopsZero kcCpusNr
    online := bitopsZero kcCpusNr
    cpuinfo := fun _ => { logId := 0, physId := 0 } }

/-- `_cpu_info_cmp`; its two tests are the same. -/
def cpuInfoCmp (key ent : Nat) : Int :=
  if key < ent then 1
  else if ent > key then -1
  else 0

section Map

variable (kcCpusNr : Nat)
variable (rebalancing : Rebalancing Nat)

/-- `krn_cpuinfo_cpu_register`. -/
def krnCpuinfoCpuRegister
    (cmap : CpuMap)
    (physId : Nat) : Option (Except Errno Nat × CpuMap) :=
  match bitopsFfc cmap.available with
  | 0 => some (.error .enoent, cmap)
  | newid + 1 =>
      if newid < kcCpusNr then
        -- the entry is inserted by the number it has before
        match cmap.head.insert
            (fun ent =>
              cpuInfoCmp (cmap.cpuinfo newid).physId (cmap.cpuinfo ent).physId)
            newid with
        | none => none
        | some head =>
            some (.ok newid,
              { cmap with
                head := rebalancing.afterInsert head
                available := bitopsSet newid cmap.available
                cpuinfo :=
                  Function.update cmap.cpuinfo newid { logId := newid, physId } })
      else
        none

/-- Processors are registered one after the other. -/
def registerAll :
    CpuMap → List Nat → Option (List (Except Errno Nat) × CpuMap)
  | cmap, [] => some ([], cmap)
  | cmap, physId :: rest =>
      match krnCpuinfoCpuRegister kcCpusNr rebalancing cmap physId with
      | none => none
      | some (result, cmap) =>
          (registerAll cmap rest).map fun (results, cmap) =>
            (result :: results, cmap)

/-- `krn_current_cpu_get` on a processor with a physical number. -/
def krnCurrentCpuGet
    (cmap : CpuMap)
    (physId : Nat) : Option Nat :=
  (cmap.head.find fun ent => cpuInfoCmp physId (cmap.cpuinfo ent).physId).map
    fun ent => (cmap.cpuinfo ent).logId

/-- `krn_cpuinfo_cpu_is_online`; the error number is a true value. -/
def krnCpuinfoCpuIsOnline
    (cmap : CpuMap)
    (cpuNum : Nat) : Option Bool :=
  if kcCpusNr > cpuNum then
    some true
  else if bitmapIndex cpuNum < cmap.online.length then
    some (isset cmap.online cpuNum)
  else
    none

/-- `krn_cpuinfo_online`. -/
def krnCpuinfoOnline
    (cmap : CpuMap)
    (cpuNum : Nat) : Option (Except Errno Unit × CpuMap) :=
  if kcCpusNr > cpuNum then
    some (.error .einval, cmap)
  else if bitmapIndex cpuNum < cmap.online.length then
    if isset cmap.online cpuNum then
      some (.error .ebusy, cmap)
    else
      some (.ok (), { cmap with online := bitopsSet cpuNum cmap.online })
  else
    none

end Map

/-! ## Registration -/

section Registration

variable {kcCpusNr : Nat}
variable (rebalancing : Rebalancing Nat)

/-- The first processors are registered, in the order of their numbers. -/
structure Registered
    (kcCpusNr : Nat)
    (cmap : CpuMap)
    (physIds : List Nat) : Prop where
  fits : physIds.length ≤ kcCpusNr
  nodes : cmap.head.toList = List.range physIds.length
  words : cmap.available.length = bitmapArrayLen kcCpusNr
  available :
    ∀ cpu, isset cmap.available cpu = decide (cpu < physIds.length)
  entries :
    ∀ cpu,
      (cmap.cpuinfo cpu).physId = physIds.getD cpu 0

theorem krnCpuinfoInit_registered (kcCpusNr : Nat) :
    Registered kcCpusNr (krnCpuinfoInit kcCpusNr) [] where
  fits := Nat.zero_le _
  nodes := rfl
  words := List.length_replicate
  available := fun cpu => by
    rw [krnCpuinfoInit, isset_bitopsZero]
    simp
  entries := fun cpu => by simp [krnCpuinfoInit]

/-- A bitmap has a bit for each processor. -/
theorem le_words (bits : Nat) :
    bits ≤ 64 * bitmapArrayLen bits := by
  rw [bitmapArrayLen]
  omega

/-- The next number is the count of the registered processors. -/
theorem Registered.bitopsFfc_eq
    {cmap : CpuMap}
    {physIds : List Nat}
    (registered : Registered kcCpusNr cmap physIds)
    (inMap : physIds.length < 64 * bitmapArrayLen kcCpusNr) :
    bitopsFfc cmap.available = physIds.length + 1 := by
  rcases Bitops.bitopsFfc_eq cmap.available with
    ⟨-, full⟩ | ⟨place, placeInMap, found, clear⟩
  · have set := full physIds.length (by rw [registered.words]; exact inMap)
    rw [registered.available, decide_eq_true_eq] at set
    omega
  · rw [registered.available, decide_eq_false_iff_not] at clear
    have notLater : ¬ physIds.length < place := by
      intro before
      have set := bitopsFfc_before placeInMap found physIds.length before
      rw [registered.available, decide_eq_true_eq] at set
      omega
    rw [found]
    omega

/-- The entry of a new processor has number 0 until it is in the tree. -/
theorem Registered.cpuInfoCmp_new
    {cmap : CpuMap}
    {physIds : List Nat}
    (registered : Registered kcCpusNr cmap physIds)
    (ent : Nat) :
    cpuInfoCmp (cmap.cpuinfo physIds.length).physId (cmap.cpuinfo ent).physId =
      if physIds.getD ent 0 = 0 then 0 else 1 := by
  rw [registered.entries, registered.entries, cpuInfoCmp]
  simp only [List.getD_eq_getElem?_getD, le_refl, List.getElem?_eq_none,
    Option.getD_none]
  split_ifs <;> omega

/-- A registration after processors whose numbers are not 0. -/
theorem Registered.register
    {cmap : CpuMap}
    {physIds : List Nat}
    (registered : Registered kcCpusNr cmap physIds)
    (room : physIds.length < kcCpusNr)
    (nonzero : 0 ∉ physIds)
    (physId : Nat) :
    ∃ after,
      krnCpuinfoCpuRegister kcCpusNr rebalancing cmap physId =
          some (.ok physIds.length, after) ∧
        Registered kcCpusNr after (physIds ++ [physId]) := by
  have inMap : physIds.length < 64 * bitmapArrayLen kcCpusNr :=
    room.trans_le (le_words kcCpusNr)
  have atEnd :
      cmap.head.place
          (fun ent =>
            cpuInfoCmp (cmap.cpuinfo physIds.length).physId
              (cmap.cpuinfo ent).physId) =
        some (cmap.head.toList, []) := by
    refine NodeTree.place_of_forall_pos fun ent member => ?_
    rw [registered.nodes, List.mem_range] at member
    rw [registered.cpuInfoCmp_new, if_neg]
    · decide
    · intro isZero
      rw [List.getD_eq_getElem _ _ member] at isZero
      exact nonzero (isZero ▸ List.getElem_mem member)
  obtain ⟨grown, inserted, nodes⟩ :=
    NodeTree.insert_of_place physIds.length atEnd
  refine
    ⟨{ cmap with
        head := rebalancing.afterInsert grown
        available := bitopsSet physIds.length cmap.available
        cpuinfo :=
          Function.update cmap.cpuinfo physIds.length
            { logId := physIds.length, physId } }, ?_, ?_⟩
  · rw [krnCpuinfoCpuRegister, registered.bitopsFfc_eq inMap]
    simp only [room, if_true, inserted]
  · refine ⟨?_, ?_, ?_, ?_, ?_⟩
    · rw [List.length_append]
      exact room
    · rw [rebalancing.afterInsert_toList, nodes, registered.nodes,
        List.length_append, List.length_singleton, List.range_succ]
    · rw [length_bitopsSet, registered.words]
    · intro cpu
      rw [isset_bitopsSet (by rw [registered.words]; exact inMap),
        registered.available, List.length_append, List.length_singleton]
      grind
    · intro cpu
      rcases eq_or_ne cpu physIds.length with rfl | other
      · simp
      · simp only [Function.update_of_ne other, registered.entries]
        grind

/-- A registration after the processor with number 0 stops. -/
theorem Registered.register_eq_none
    {cmap : CpuMap}
    {physIds : List Nat}
    (registered : Registered kcCpusNr cmap (physIds ++ [0]))
    (room : (physIds ++ [0]).length < kcCpusNr)
    (nonzero : 0 ∉ physIds)
    (physId : Nat) :
    krnCpuinfoCpuRegister kcCpusNr rebalancing cmap physId = none := by
  have inMap : (physIds ++ [0]).length < 64 * bitmapArrayLen kcCpusNr :=
    room.trans_le (le_words kcCpusNr)
  have noPlace :
      cmap.head.place
          (fun ent =>
            cpuInfoCmp (cmap.cpuinfo (physIds ++ [0]).length).physId
              (cmap.cpuinfo ent).physId) =
        none := by
    have nodes : cmap.head.toList = List.range physIds.length ++ [physIds.length] := by
      rw [registered.nodes, List.length_append, List.length_singleton,
        List.range_succ]
    refine NodeTree.place_eq_none_of_last nodes ?_ ?_
    · intro ent member
      rw [List.mem_range] at member
      rw [registered.cpuInfoCmp_new, if_neg]
      · decide
      · intro isZero
        rw [List.getD_append _ _ _ _ member,
          List.getD_eq_getElem _ _ member] at isZero
        exact nonzero (isZero ▸ List.getElem_mem member)
    · rw [registered.cpuInfoCmp_new, if_pos]
      simp
  rw [krnCpuinfoCpuRegister, registered.bitopsFfc_eq inMap]
  simp only [room, if_true, (NodeTree.insert_eq_none_iff _).mpr noPlace]

/-- A registration when the array is full is refused, or it leaves the array. -/
theorem Registered.register_full
    {cmap : CpuMap}
    {physIds : List Nat}
    (registered : Registered kcCpusNr cmap physIds)
    (full : physIds.length = kcCpusNr)
    (physId : Nat) :
    krnCpuinfoCpuRegister kcCpusNr rebalancing cmap physId =
      if kcCpusNr % 64 = 0 then some (.error .enoent, cmap) else none := by
  rw [krnCpuinfoCpuRegister]
  split_ifs with noPadding
  · rcases Bitops.bitopsFfc_eq cmap.available with
      ⟨none, -⟩ | ⟨place, placeInMap, -, clear⟩
    · rw [none]
    · rw [registered.words, bitmapArrayLen] at placeInMap
      rw [registered.available, decide_eq_false_iff_not] at clear
      omega
  · rw [registered.bitopsFfc_eq (by rw [bitmapArrayLen]; omega)]
    simp only [full, lt_irrefl, if_false]

/-- The registrations end exactly when only the last number can be 0. -/
theorem Registered.registerAll_eq
    {cmap : CpuMap}
    {earlier later : List Nat}
    (registered : Registered kcCpusNr cmap earlier)
    (nonzero : 0 ∉ earlier.dropLast)
    (fits : (earlier ++ later).length ≤ kcCpusNr) :
    if 0 ∈ (earlier ++ later).dropLast then
      registerAll kcCpusNr rebalancing cmap later = none
    else
      ∃ final,
        registerAll kcCpusNr rebalancing cmap later =
            some ((List.range' earlier.length later.length).map .ok, final) ∧
          Registered kcCpusNr final (earlier ++ later) := by
  induction later generalizing cmap earlier with
  | nil =>
      rw [List.append_nil, if_neg nonzero]
      exact ⟨cmap, rfl, registered⟩
  | cons physId rest inductionHypothesis =>
      have roomLater : earlier.length < kcCpusNr := by
        rw [List.length_append, List.length_cons] at fits
        omega
      rw [List.dropLast_append_cons, registerAll]
      by_cases hasZero : 0 ∈ earlier
      · -- the number 0 is the last one so far
        obtain ⟨others, rfl⟩ : ∃ others, earlier = others ++ [0] := by
          rcases List.eq_nil_or_concat earlier with
            rfl | ⟨others, last, rfl⟩
          · cases hasZero
          · rw [List.concat_eq_append] at hasZero nonzero ⊢
            rw [List.dropLast_concat] at nonzero
            rcases List.mem_append.mp hasZero with inOthers | isLast
            · exact absurd inOthers nonzero
            · rw [List.mem_singleton.mp isLast]
              exact ⟨others, rfl⟩
        rw [List.dropLast_concat] at nonzero
        rw [if_pos (List.mem_append_left _ hasZero),
          registered.register_eq_none rebalancing roomLater nonzero]
      · obtain ⟨after, isRegistered, registeredAfter⟩ :=
          registered.register rebalancing roomLater hasZero physId
        have others := inductionHypothesis registeredAfter
          (by rw [List.dropLast_concat]; exact hasZero)
          (by simpa using fits)
        rw [List.append_assoc, List.singleton_append,
          List.dropLast_append_cons] at others
        rw [isRegistered]
        split_ifs at others ⊢ with later
        · simp only [others, Option.map_none]
        · obtain ⟨final, areRegistered, registeredFinal⟩ := others
          refine ⟨final, ?_, registeredFinal⟩
          simp only [areRegistered, Option.map_some, List.length_append,
            List.length_cons, List.length_nil, Nat.zero_add,
            List.range'_succ, List.map_cons]

end Registration

/-! ## The accessors -/

section Accessors

variable (kcCpusNr : Nat)
variable (rebalancing : Rebalancing Nat)

/--
Up to `KC_CPUS_NR` processors get different numbers below it, and the others
are refused and change nothing.
-/
structure RegistrationsRight
    (physIds : List Nat)
    (results : List (Except Errno Nat))
    (final : CpuMap) : Prop where
  ids :
    ∃ logIds : List Nat,
      results.take kcCpusNr = logIds.map Except.ok ∧
        logIds.Nodup ∧ ∀ logId ∈ logIds, logId < kcCpusNr
  full :
    ∀ result ∈ results.drop kcCpusNr, result = .error .enoent
  unchanged :
    registerAll kcCpusNr rebalancing (krnCpuinfoInit kcCpusNr)
        (physIds.take kcCpusNr) =
      some (results.take kcCpusNr, final)

/--
A registered processor finds its logical number, and exactly the numbers below
`KC_CPUS_NR` can be put online and be online.
-/
structure AccessorsRight
    (physIds : List Nat)
    (results : List (Except Errno Nat))
    (cmap : CpuMap) : Prop where
  current :
    ∀ place physId logId : Nat,
      physIds[place]? = some physId →
        results[place]? = some (Except.ok logId) →
        krnCurrentCpuGet cmap physId = some logId
  isOnline :
    ∀ cpuNum,
      krnCpuinfoCpuIsOnline kcCpusNr cmap cpuNum =
        some (decide (cpuNum < kcCpusNr) && isset cmap.online cpuNum)
  accepted :
    ∀ cpuNum < kcCpusNr,
      if isset cmap.online cpuNum then
        krnCpuinfoOnline kcCpusNr cmap cpuNum = some (.error .ebusy, cmap)
      else
        ∃ online,
          krnCpuinfoOnline kcCpusNr cmap cpuNum =
              some (.ok (), { cmap with online }) ∧
            ∀ other,
              isset online other =
                (decide (other = cpuNum) || isset cmap.online other)
  rejected :
    ∀ cpuNum ≥ kcCpusNr,
      krnCpuinfoOnline kcCpusNr cmap cpuNum = some (.error .einval, cmap)

/-- Registrations and the accessors after them do what they are for. -/
def CpusRight (physIds : List Nat) : Prop :=
  ∃ results final,
    registerAll kcCpusNr rebalancing (krnCpuinfoInit kcCpusNr) physIds =
        some (results, final) ∧
      RegistrationsRight kcCpusNr rebalancing physIds results final ∧
      AccessorsRight kcCpusNr physIds results final

/-- Every number below `KC_CPUS_NR` is refused, and every one is online. -/
theorem krnCpuinfoOnline_of_lt
    {kcCpusNr cpuNum : Nat}
    (valid : cpuNum < kcCpusNr)
    (cmap : CpuMap) :
    krnCpuinfoOnline kcCpusNr cmap cpuNum = some (.error .einval, cmap) ∧
      krnCpuinfoCpuIsOnline kcCpusNr cmap cpuNum = some true := by
  rw [krnCpuinfoOnline, if_pos valid, krnCpuinfoCpuIsOnline, if_pos valid]
  exact ⟨rfl, rfl⟩

/-- A number that is not below `KC_CPUS_NR` is never refused. -/
theorem krnCpuinfoOnline_of_ge
    {kcCpusNr cpuNum : Nat}
    (invalid : kcCpusNr ≤ cpuNum)
    (cmap : CpuMap) :
    krnCpuinfoOnline kcCpusNr cmap cpuNum ≠ some (.error .einval, cmap) := by
  rw [krnCpuinfoOnline, if_neg (by omega)]
  split_ifs <;> simp

/-- After no sequence of registrations do the accessors do what they are for. -/
theorem cpus_never_right
    (physIds : List Nat) :
    ¬ CpusRight kcCpusNr rebalancing physIds := by
  rintro ⟨results, final, -, -, accessors⟩
  exact krnCpuinfoOnline_of_ge le_rfl final
    (accessors.rejected kcCpusNr le_rfl)

end Accessors

/--
The only registered processor cannot be put online; a processor finds the
number of another; the first two processors of a board cannot be registered;
and a processor too many gets a place in the padding.
-/
theorem cpus_not_right :
    (∃ results final,
      registerAll 4 (Rebalancing.never Nat) (krnCpuinfoInit 4) [7] =
          some (results, final) ∧
        results = [.ok 0] ∧
        krnCpuinfoOnline 4 final 0 = some (.error .einval, final)) ∧
      (∃ results final,
        registerAll 4 (Rebalancing.never Nat) (krnCpuinfoInit 4) [3, 5] =
            some (results, final) ∧
          results = [.ok 0, .ok 1] ∧
          krnCurrentCpuGet final 5 = some 0) ∧
      registerAll 4 (Rebalancing.never Nat) (krnCpuinfoInit 4) [0, 1] = none ∧
      registerAll 1 (Rebalancing.never Nat) (krnCpuinfoInit 1) [3, 5] = none ∧
      ¬ CpusRight 4 (Rebalancing.never Nat) [3, 5] := by
  refine ⟨⟨_, _, rfl, rfl, rfl⟩, ⟨_, _, rfl, rfl, rfl⟩, rfl, rfl, ?_⟩
  rintro ⟨results, final, registered, -, accessors⟩
  cases registered
  have wrong := accessors.current 1 5 1 rfl rfl
  cases wrong

end RiscvWorkshop.Cpu
