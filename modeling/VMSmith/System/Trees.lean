/-
Which paths exist after a directory tree has been copied, renamed or removed.
-/
import VMSmith.System.Host

namespace VMSmith

namespace FileState

open HostPath

variable {s : FileState} {p source destination : HostPath}

theorem has_iff : s.has p = true ↔ ∃ n, (p, n) ∈ s.files := by
  simp only [has, List.any_eq_true, beq_iff_eq, Prod.exists]
  constructor
  · rintro ⟨q, n, hmem, rfl⟩
    exact ⟨n, hmem⟩
  · rintro ⟨n, hmem⟩
    exact ⟨p, n, hmem, rfl⟩

theorem has_removeAll {d : HostPath} :
    (s.removeAll d).has p = true ↔ s.has p = true ∧ within p d = false := by
  simp only [has_iff, removeAll, List.mem_filter, Bool.not_eq_true, decide_eq_true_eq]
  constructor
  · rintro ⟨n, hmem, hout⟩
    exact ⟨⟨n, hmem⟩, hout⟩
  · rintro ⟨⟨n, hmem⟩, hout⟩
    exact ⟨n, hmem, hout⟩

/-- A copy removes nothing. -/
theorem has_copyTree (h : s.has p = true) : (s.copyTree source destination).has p = true := by
  obtain ⟨n, hmem⟩ := has_iff.mp h
  exact has_iff.mpr ⟨n, List.mem_append_left _ hmem⟩

theorem within_reroot (p : HostPath) : within (reroot source destination p) destination = true :=
  within_iff.mpr (List.prefix_append _ _)

/-- Nothing is left where a tree was renamed away from. -/
theorem has_rename_source (h : HostPath.Disjoint source destination) (hp : within p source = true) :
    (s.rename source destination).has p = false := by
  by_contra hhas
  rw [Bool.not_eq_false] at hhas
  obtain ⟨n, hmem⟩ := has_iff.mp hhas
  obtain ⟨⟨q, m⟩, -, heq⟩ := List.mem_map.mp hmem
  dsimp only at heq
  split_ifs at heq with hq
  · obtain ⟨rfl, rfl⟩ := Prod.mk.inj heq
    have := h.not_within hp
    rw [within_reroot] at this
    simp at this
  · obtain ⟨rfl, rfl⟩ := Prod.mk.inj heq
    exact hq hp

end FileState

end VMSmith
