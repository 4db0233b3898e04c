/-
The units of an appliance's descriptor.

Both conversions are right as long as 64 bits hold what they multiply.  A capacity given in
a unit that is not bytes is first shifted to bytes, and where the shift wraps, what is left
is below what the capacity says; a memory quantity only wraps in the largest unit.  What is
negative in the descriptor stays so, except where it is rounded up or comes to less than one
unit of what is stored.
-/
import VMSmith.Lib.Int64
import VMSmith.Storage.OVF

namespace VMSmith.OVF

/-! ### What the quantities say -/

/-- The bytes of a unit that a disk's capacity is given in. -/
def capacityUnit (units : String) : Int :=
  if normalizeUnits units = "byte*2^30" then 2 ^ 30
  else if normalizeUnits units = "byte*2^20" then 2 ^ 20
  else if normalizeUnits units = "byte*2^10" then 2 ^ 10
  else 1

/-- The bytes of a unit that memory is given in, which are those of a MiB unless it says so. -/
def memoryUnit (units : String) : Int :=
  if normalizeUnits units = "byte*2^30" then 2 ^ 30
  else if normalizeUnits units = "byte*2^10" then 2 ^ 10
  else if normalizeUnits units = "byte" then 1
  else 2 ^ 20

/-- Some bytes in GiB, rounded up, and one at least. -/
def ceilGB (bytes : Int) : Int := max 1 (-(-bytes / 2 ^ 30))

/-- A capacity in GiB, with no bound on the integers. -/
def exactGB (capacity : Int) (units : String) : Int := ceilGB (capacity * capacityUnit units)

/-- Memory in MiB, with no bound on the integers; what is negative is rounded to zero too. -/
def exactMB (quantity : Int) (units : String) : Int := (quantity * memoryUnit units).tdiv (2 ^ 20)

/-- A capacity that is not negative and that its unit does not carry out of 64 bits; one that
is negative may come out right for being at most one GiB when it has wrapped. -/
def CapacityFits (capacity : Int) (units : String) : Prop :=
  capacityUnit units = 2 ^ 30 ∨
    if 0 ≤ capacity then capacity * capacityUnit units < 2 ^ 63
    else (capacity * capacityUnit units).bmod (2 ^ 64) ≤ 2 ^ 30

/-! ### One conversion -/

theorem bytesToGB_toInt (bytes : Int64) : (bytesToGB bytes).toInt = ceilGB bytes.toInt := by
  have hlt := bytes.toInt_lt
  have hle := bytes.le_toInt
  have hshift : (bytes >>> 30).toInt = bytes.toInt / 2 ^ 30 :=
    Int64.toInt_shiftRight bytes (by decide) (by decide)
  have hmask : bytes &&& ((1 : Int64) <<< 30 - 1) = 0 ↔ bytes.toInt % 2 ^ 30 = 0 :=
    Int64.and_mask_eq_zero_iff bytes (by decide) (by decide)
  have hadd : (bytes >>> 30 + 1).toInt = bytes.toInt / 2 ^ 30 + 1 := by
    rw [Int64.toInt_add, hshift, Int64.toInt_one]
    exact Int.bmod_eq_of_le (by omega) (by omega)
  have hgb : ∀ gb : Int64, (if gb < 1 then (1 : Int64) else gb).toInt = max 1 gb.toInt := by
    intro gb
    by_cases h : gb < 1
    · rw [if_pos h]
      rw [Int64.lt_iff_toInt_lt, Int64.toInt_one] at h
      rw [Int64.toInt_one]
      omega
    · rw [if_neg h]
      rw [Int64.lt_iff_toInt_lt, Int64.toInt_one] at h
      omega
  unfold bytesToGB ceilGB
  dsimp only
  rw [hgb]
  by_cases hrest : bytes &&& ((1 : Int64) <<< 30 - 1) = 0
  · rw [if_neg (not_not.mpr hrest), hshift]
    have := hmask.mp hrest
    omega
  · rw [if_pos hrest, hadd]
    have := mt hmask.mpr hrest
    omega

/-- Where 64 bits do not hold the bytes, what they hold is rounded to something else. -/
theorem ceilGB_bmod_iff {bytes : Int} (hlow : 0 ≤ bytes) (hhigh : bytes < 2 ^ 83) :
    ceilGB (bytes.bmod (2 ^ 64)) = ceilGB bytes ↔ bytes < 2 ^ 63 := by
  have hdiv := Int.bmod_add_bdiv bytes (2 ^ 64)
  have hlt := Int.bmod_lt (x := bytes) (m := 2 ^ 64) (by decide)
  have hle := Int.le_bmod (x := bytes) (m := 2 ^ 64) (by decide)
  unfold ceilGB
  constructor
  · intro h
    omega
  · intro h
    rw [Int.bmod_eq_of_le (by omega) (by omega)]

/-- What is negative should come to one GiB. -/
theorem ceilGB_bmod_neg_iff {bytes : Int} (hneg : bytes < 0) :
    ceilGB (bytes.bmod (2 ^ 64)) = ceilGB bytes ↔ bytes.bmod (2 ^ 64) ≤ 2 ^ 30 := by
  unfold ceilGB
  omega

theorem capacityToGB_shifted {capacity : Int64} {units : String} {bytes : Int64}
    (hcode : capacityToGB capacity units = bytesToGB bytes)
    (hunit : 0 < capacityUnit units ∧ capacityUnit units ≤ 2 ^ 20)
    (hbytes : bytes.toInt = (capacity.toInt * capacityUnit units).bmod (2 ^ 64)) :
    (capacityToGB capacity units).toInt = exactGB capacity.toInt units ↔
      CapacityFits capacity.toInt units := by
  unfold CapacityFits exactGB
  rw [hcode, bytesToGB_toInt, hbytes, or_iff_right (by omega)]
  by_cases h : 0 ≤ capacity.toInt
  · have hlt := capacity.toInt_lt
    have hle : capacity.toInt * capacityUnit units ≤ capacity.toInt * 2 ^ 20 :=
      Int.mul_le_mul_of_nonneg_left hunit.2 h
    rw [if_pos h]
    exact ceilGB_bmod_iff (Int.mul_nonneg h hunit.1.le) (by omega)
  · rw [if_neg h]
    exact ceilGB_bmod_neg_iff (Int.mul_neg_of_neg_of_pos (not_le.mp h) hunit.1)

/-- A capacity comes out right exactly where its unit does not carry it out of 64 bits. -/
theorem capacityToGB_exact_iff (capacity : Int64) (units : String) :
    (capacityToGB capacity units).toInt = exactGB capacity.toInt units ↔
      CapacityFits capacity.toInt units := by
  have hlt := capacity.toInt_lt
  have hle := capacity.le_toInt
  by_cases hgib : normalizeUnits units = "byte*2^30"
  · have hunit : capacityUnit units = 2 ^ 30 := if_pos hgib
    refine iff_of_true ?_ (.inl hunit)
    unfold capacityToGB exactGB ceilGB
    rw [if_pos hgib, hunit]
    by_cases hone : capacity < 1
    · rw [if_pos hone]
      rw [Int64.lt_iff_toInt_lt, Int64.toInt_one] at hone
      rw [Int64.toInt_one]
      omega
    · rw [if_neg hone]
      rw [Int64.lt_iff_toInt_lt, Int64.toInt_one] at hone
      omega
  by_cases hmib : normalizeUnits units = "byte*2^20"
  · have hunit : capacityUnit units = 2 ^ 20 := by
      rw [capacityUnit, if_neg hgib, if_pos hmib]
    have hcode : capacityToGB capacity units = bytesToGB (capacity <<< 20) := by
      rw [capacityToGB, if_neg hgib, if_pos hmib]
    refine capacityToGB_shifted hcode (by rw [hunit]; decide) ?_
    rw [hunit]
    exact Int64.toInt_shiftLeft capacity (by decide) (by decide)
  by_cases hkib : normalizeUnits units = "byte*2^10"
  · have hunit : capacityUnit units = 2 ^ 10 := by
      rw [capacityUnit, if_neg hgib, if_neg hmib, if_pos hkib]
    have hcode : capacityToGB capacity units = bytesToGB (capacity <<< 10) := by
      rw [capacityToGB, if_neg hgib, if_neg hmib, if_pos hkib]
    refine capacityToGB_shifted hcode (by rw [hunit]; decide) ?_
    rw [hunit]
    exact Int64.toInt_shiftLeft capacity (by decide) (by decide)
  · have hunit : capacityUnit units = 1 := by
      rw [capacityUnit, if_neg hgib, if_neg hmib, if_neg hkib]
    have hcode : capacityToGB capacity units = bytesToGB capacity := by
      rw [capacityToGB, if_neg hgib, if_neg hmib, if_neg hkib]
    refine capacityToGB_shifted hcode (by rw [hunit]; decide) ?_
    rw [hunit, Int.mul_one]
    exact (Int.bmod_eq_of_le (by omega) (by omega)).symm

/-- A division by so many KiB or MiB cannot overflow. -/
theorem toInt_div_const (quantity divisor : Int64) (h : 1 < divisor.toInt) :
    (quantity / divisor).toInt = quantity.toInt.tdiv divisor.toInt := by
  have hlt := quantity.toInt_lt
  have hle := quantity.le_toInt
  have habs := Int.natAbs_tdiv_le_natAbs quantity.toInt divisor.toInt
  have hupper : quantity.toInt.tdiv divisor.toInt < 2 ^ 63 := by
    by_cases hpos : 0 ≤ quantity.toInt
    · omega
    · have hneg := Int.tdiv_nonneg (by omega : 0 ≤ -quantity.toInt) (by omega : 0 ≤ divisor.toInt)
      rw [Int.neg_tdiv] at hneg
      omega
  rw [Int64.toInt_div]
  exact Int.bmod_eq_of_le (by omega) (by omega)

/-- What is stored of a memory quantity is right and not negative exactly where the quantity
does not come to minus one MiB or less, and its MiB fit. -/
theorem memoryToMB_exact_iff (quantity : Int64) (units : String) :
    ((memoryToMB quantity units).toInt = exactMB quantity.toInt units ∧
        0 ≤ (memoryToMB quantity units).toInt) ↔
      -2 ^ 20 < quantity.toInt * memoryUnit units ∧ quantity.toInt * memoryUnit units < 2 ^ 83 := by
  have hlt := quantity.toInt_lt
  have hle := quantity.le_toInt
  unfold memoryToMB exactMB memoryUnit
  by_cases hgib : normalizeUnits units = "byte*2^30"
  · have hconst : (1024 : Int64).toInt = 1024 := by decide
    have hexact : (quantity.toInt * 2 ^ 30).tdiv (2 ^ 20) = quantity.toInt * 1024 := by
      rw [show quantity.toInt * 2 ^ 30 = quantity.toInt * 1024 * 2 ^ 20 by omega]
      exact Int.mul_tdiv_cancel _ (by decide)
    have hdiv := Int.bmod_add_bdiv (quantity.toInt * 1024) (2 ^ 64)
    have hblt := Int.bmod_lt (x := quantity.toInt * 1024) (m := 2 ^ 64) (by decide)
    have hble := Int.le_bmod (x := quantity.toInt * 1024) (m := 2 ^ 64) (by decide)
    rw [if_pos hgib, if_pos hgib, Int64.toInt_mul, hconst, hexact]
    constructor
    · intro h
      omega
    · intro h
      rw [Int.bmod_eq_of_le (by omega) (by omega)]
      omega
  by_cases hkib : normalizeUnits units = "byte*2^10"
  · have hconst : (1024 : Int64).toInt = 1024 := by decide
    rw [if_neg hgib, if_pos hkib, if_neg hgib, if_pos hkib, toInt_div_const _ _ (by decide), hconst,
      Int.tdiv_eq_ediv, Int.tdiv_eq_ediv, Int.sign_eq_one_of_pos (by decide : (0 : Int) < 1024),
      Int.sign_eq_one_of_pos (by decide : (0 : Int) < 2 ^ 20)]
    split_ifs <;> omega
  by_cases hbyte : normalizeUnits units = "byte"
  · have hconst : (1024 * 1024 : Int64).toInt = 2 ^ 20 := by decide
    rw [if_neg hgib, if_neg hkib, if_pos hbyte, if_neg hgib, if_neg hkib, if_pos hbyte,
      toInt_div_const _ _ (by decide), hconst, Int.mul_one, Int.tdiv_eq_ediv,
      Int.sign_eq_one_of_pos (by decide : (0 : Int) < 2 ^ 20)]
    split_ifs <;> omega
  · rw [if_neg hgib, if_neg hkib, if_neg hbyte, if_neg hgib, if_neg hkib, if_neg hbyte,
      Int.mul_tdiv_cancel _ (by decide)]
    omega

/-! ### A descriptor -/

/-- The last item of a kind, which is the one that counts. -/
def Envelope.lastItem (env : Envelope) (resourceType : Int64) : Option Item :=
  (env.virtualSystem.hardwareSection.items.filter (·.resourceType = resourceType)).getLast?

/-- The first disk's capacity, where it is a number, and its units. -/
def Envelope.capacity? (env : Envelope) : Option (Int64 × String) :=
  env.diskSection.disks.head?.bind fun d =>
    (Go.atoi d.capacity).map fun c => (.ofInt c, d.capacityAllocationUnits)

/-- No value of a result is negative, and each is what the descriptor says, with no bound on
the integers. -/
structure Sound (env : Envelope) (result : ImportResult) : Prop where
  cpus_nonneg : 0 ≤ result.cpus.toInt
  ramMB_nonneg : 0 ≤ result.ramMB.toInt
  diskGB_nonneg : 0 ≤ result.diskGB.toInt
  cpus : ∀ item, env.lastItem resourceCPU = some item →
    result.cpus.toInt = item.virtualQuantity.toInt
  ramMB : ∀ item, env.lastItem resourceMemory = some item →
    result.ramMB.toInt = exactMB item.virtualQuantity.toInt item.allocationUnits
  diskGB : ∀ c units, env.capacity? = some (c, units) → result.diskGB.toInt = exactGB c.toInt units

/-- What a descriptor has to keep to. -/
structure Envelope.Fits (env : Envelope) : Prop where
  cpus : ∀ item, env.lastItem resourceCPU = some item → 0 ≤ item.virtualQuantity.toInt
  memory : ∀ item, env.lastItem resourceMemory = some item →
    -2 ^ 20 < item.virtualQuantity.toInt * memoryUnit item.allocationUnits ∧
      item.virtualQuantity.toInt * memoryUnit item.allocationUnits < 2 ^ 83
  capacity : ∀ c units, env.capacity? = some (c, units) → CapacityFits c.toInt units

/-- What the items leave of a result. -/
theorem foldl_readItem (items : List Item) (result : ImportResult) :
    items.foldl readItem result =
      { result with
        cpus := ((items.filter (·.resourceType = resourceCPU)).getLast?.map
          Item.virtualQuantity).getD result.cpus
        ramMB := ((items.filter (·.resourceType = resourceMemory)).getLast?.map
          fun item => memoryToMB item.virtualQuantity item.allocationUnits).getD result.ramMB } := by
  induction items using List.reverseRecOn with
  | nil => rfl
  | append_singleton items item ih =>
      have hne : resourceCPU ≠ resourceMemory := by decide
      rw [List.foldl_append, ih, List.filter_append, List.filter_append]
      unfold List.foldl readItem
      by_cases hcpu : item.resourceType = resourceCPU
      · have hmem : item.resourceType ≠ resourceMemory := hcpu ▸ hne
        simp [hcpu, hne]
      · by_cases hmem : item.resourceType = resourceMemory
        · simp [hmem, Ne.symm hne]
        · simp [hcpu, hmem]

theorem readEnvelope_values (env : Envelope) :
    (readEnvelope env).1.cpus = ((env.lastItem resourceCPU).map Item.virtualQuantity).getD 0 ∧
      (readEnvelope env).1.ramMB = ((env.lastItem resourceMemory).map
        fun item => memoryToMB item.virtualQuantity item.allocationUnits).getD 0 ∧
      (readEnvelope env).1.diskGB = (env.capacity?.map fun c => capacityToGB c.1 c.2).getD 0 := by
  unfold readEnvelope Envelope.capacity? Envelope.lastItem
  dsimp only
  rw [foldl_readItem]
  cases env.diskSection.disks with
  | nil => simp
  | cons d rest =>
      unfold readDisk
      cases hcap : Go.atoi d.capacity with
      | none => simp [hcap]
      | some c => simp [hcap]

theorem capacityToGB_pos (capacity : Int64) (units : String) :
    0 ≤ (capacityToGB capacity units).toInt := by
  have hbytes : ∀ bytes, 0 ≤ (bytesToGB bytes).toInt := by
    intro bytes
    rw [bytesToGB_toInt]
    unfold ceilGB
    omega
  unfold capacityToGB
  split_ifs with hgib hone
  · decide
  · rw [Int64.lt_iff_toInt_lt, Int64.toInt_one] at hone
    omega
  · exact hbytes _
  · exact hbytes _
  · exact hbytes _

/-- What is stored of a descriptor is sound exactly where the descriptor's quantities fit. -/
theorem readEnvelope_sound_iff (env : Envelope) : Sound env (readEnvelope env).1 ↔ env.Fits := by
  obtain ⟨hcpus, hram, hdisk⟩ := readEnvelope_values env
  constructor
  · intro h
    refine ⟨fun item hitem => ?_, fun item hitem => ?_, fun c units hc => ?_⟩
    · have := h.cpus_nonneg
      rwa [hcpus, hitem, Option.map_some, Option.getD_some] at this
    · have hexact := h.ramMB item hitem
      have hnonneg := h.ramMB_nonneg
      rw [hram, hitem, Option.map_some, Option.getD_some] at hexact hnonneg
      exact (memoryToMB_exact_iff _ _).mp ⟨hexact, hnonneg⟩
    · have hexact := h.diskGB c units hc
      rw [hdisk, hc, Option.map_some, Option.getD_some] at hexact
      exact (capacityToGB_exact_iff _ _).mp hexact
  · intro h
    have hmemory : ∀ item, env.lastItem resourceMemory = some item →
        (memoryToMB item.virtualQuantity item.allocationUnits).toInt =
            exactMB item.virtualQuantity.toInt item.allocationUnits ∧
          0 ≤ (memoryToMB item.virtualQuantity item.allocationUnits).toInt :=
      fun item hitem => (memoryToMB_exact_iff _ _).mpr (h.memory item hitem)
    refine ⟨?_, ?_, ?_, fun item hitem => ?_, fun item hitem => ?_, fun c units hc => ?_⟩
    · rw [hcpus]
      cases hitem : env.lastItem resourceCPU with
      | none => decide
      | some item => exact h.cpus item hitem
    · rw [hram]
      cases hitem : env.lastItem resourceMemory with
      | none => decide
      | some item =>
          rw [Option.map_some, Option.getD_some]
          exact (hmemory item hitem).2
    · rw [hdisk]
      cases hc : env.capacity? with
      | none => decide
      | some c =>
          rw [Option.map_some, Option.getD_some]
          exact capacityToGB_pos _ _
    · rw [hcpus, hitem, Option.map_some, Option.getD_some]
    · rw [hram, hitem, Option.map_some, Option.getD_some]
      exact (hmemory item hitem).1
    · rw [hdisk, hc, Option.map_some, Option.getD_some]
      exact (capacityToGB_exact_iff _ _).mpr (h.capacity c units hc)

/-- **When the units are converted exactly**: a capacity, a quantity of memory and all that a
descriptor stores. -/
theorem ovf_units_exact (capacity quantity : Int64) (units : String) (env : Envelope) :
    (0 ≤ capacity.toInt → ((capacityToGB capacity units).toInt = exactGB capacity.toInt units ↔
      capacityUnit units = 2 ^ 30 ∨ capacity.toInt * capacityUnit units < 2 ^ 63)) ∧
    (0 ≤ quantity.toInt →
      ((memoryToMB quantity units).toInt = quantity.toInt * memoryUnit units / 2 ^ 20 ↔
        quantity.toInt * memoryUnit units < 2 ^ 83)) ∧
    (Sound env (readEnvelope env).1 ↔ env.Fits) := by
  refine ⟨fun h => ?_, fun h => ?_, readEnvelope_sound_iff env⟩
  · have hiff := capacityToGB_exact_iff capacity units
    unfold CapacityFits at hiff
    rwa [if_pos h] at hiff
  · have hunit : 0 < memoryUnit units := by
      unfold memoryUnit
      split_ifs <;> decide
    have hnonneg : 0 ≤ quantity.toInt * memoryUnit units := Int.mul_nonneg h hunit.le
    have hfloor : exactMB quantity.toInt units = quantity.toInt * memoryUnit units / 2 ^ 20 :=
      Int.tdiv_eq_ediv_of_nonneg hnonneg
    have hiff := memoryToMB_exact_iff quantity units
    rw [hfloor] at hiff
    constructor
    · intro heq
      refine (hiff.mp ⟨heq, ?_⟩).2
      rw [heq]
      exact Int.ediv_nonneg hnonneg (by decide)
    · intro hlt
      exact (hiff.mpr ⟨by omega, hlt⟩).1

/-- A disk of more than 16 EiB comes out as one of 40 GiB. -/
theorem ovf_units_wrap : ¬ ∀ (capacity : Int64) (units : String), 0 ≤ capacity.toInt →
    (capacityToGB capacity units).toInt = exactGB capacity.toInt units := by
  intro h
  have hwrapped := h (2 ^ 44 + 40960) "byte * 2^20" (by decide)
  exact absurd hwrapped (by decide +kernel)

end VMSmith.OVF
