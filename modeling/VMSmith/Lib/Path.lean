/-
Clean absolute paths.

A clean absolute path is the list of its components; the root is the empty list.
Lying inside a directory is then being extended by it, and the string test for it,
equality or a prefix followed by a slash, is the prefix order on components.
-/
import Mathlib.Data.List.Lex
import Mathlib.Algebra.Ring.Nat
import Mathlib.Data.List.Infix
import Mathlib.Data.String.Basic

/-- The components of a clean absolute path. -/
abbrev HostPath := List String

namespace HostPath

/-- One component of an unclean path: nothing, here, up, or down. -/
def cleanStep (acc : HostPath) (component : String) : HostPath :=
  if component = "" ∨ component = "." then acc
  else if component = ".." then acc.dropLast
  else acc ++ [component]

/-- The components of an unclean path. -/
def components (s : String) : List String := (s.toList.splitOn '/').map String.ofList

/-- `Join` with an unclean path: walk its components from `d`. -/
def resolve (d : HostPath) (s : String) : HostPath := (components s).foldl cleanStep d

/-- `Clean` of an absolute path. -/
def ofText (s : String) : HostPath := resolve [] s

/-- The components of an unclean path before its last one. -/
def parents (s : String) : List String := (components s).dropLast

/-- The last component of an unclean path. -/
def leaf (s : String) : String := (components s).getLastD ""

/-- A clean absolute path as text. -/
def toText : HostPath → String
  | [] => "/"
  | p => p.foldl (fun acc c => acc ++ "/" ++ c) ""

/-- `Dir`: all but the last component. -/
def dir (p : HostPath) : HostPath := p.dropLast

/-- `Join` with one component. -/
def join (p : HostPath) (component : String) : HostPath := p ++ [component]

/-- `Base`: the last component. -/
def base (p : HostPath) : String := p.getLastD "/"

/-- `p` is `d` or lies beneath it. -/
def within (p d : HostPath) : Bool := d.isPrefixOf p

/-- The file lies in the directory itself, not deeper and not elsewhere. -/
def directlyIn (p d : HostPath) : Prop := p ≠ [] ∧ p.dir = d

instance (p d : HostPath) : Decidable (directlyIn p d) := inferInstanceAs (Decidable (_ ∧ _))

theorem join_directlyIn {p d : HostPath} {c : String} : (join p c).directlyIn d ↔ p = d := by
  rw [directlyIn, dir, join, List.dropLast_concat]
  exact and_iff_right (by simp)

theorem within_iff {p d : HostPath} : within p d = true ↔ d <+: p := List.isPrefixOf_iff_prefix

@[simp] theorem dir_join (p : HostPath) (c : String) : dir (join p c) = p := by
  simp [dir, join]

@[simp] theorem within_refl (p : HostPath) : within p p = true :=
  within_iff.mpr (List.prefix_refl p)

theorem within_trans {p q r : HostPath} (hpq : within p q = true) (hqr : within q r = true) :
    within p r = true :=
  within_iff.mpr ((within_iff.mp hqr).trans (within_iff.mp hpq))

theorem within_join (p : HostPath) (c : String) : within (join p c) p = true :=
  within_iff.mpr (List.prefix_append p [c])

/-! ### Unclean paths with a suffix

A suffix without a slash belongs to the last component, and three characters are
enough to keep that component from being one that cleaning drops. -/

private theorem splitOn_append_suffix {cs t : List Char} (ht : '/' ∉ t) :
    (cs ++ t).splitOn '/' = (cs.splitOn '/').dropLast ++ [(cs.splitOn '/').getLastD [] ++ t] := by
  by_cases hcs : '/' ∈ cs
  · obtain ⟨b, a, hsplit, hb⟩ := List.eq_append_cons_of_mem (List.mem_reverse.mpr hcs)
    have hcs' : cs = a.reverse ++ '/' :: b.reverse := by
      rw [← List.reverse_reverse cs, hsplit]
      simp
    have hlast : '/' ∉ b.reverse := fun h => hb (List.mem_reverse.mp h)
    have hlast' : '/' ∉ b.reverse ++ t := by simp [ht, hb]
    rw [hcs', List.append_assoc, List.cons_append, List.splitOn_append_cons_self,
      List.splitOn_append_cons_self, List.splitOn_eq_singleton hlast,
      List.splitOn_eq_singleton hlast']
    simp
  · have hcs' : '/' ∉ cs ++ t := by simp [ht, hcs]
    rw [List.splitOn_eq_singleton hcs, List.splitOn_eq_singleton hcs']
    simp

theorem components_append {s t : String} (ht : '/' ∉ t.toList) :
    components (s ++ t) = parents s ++ [leaf s ++ t] := by
  have hleaf : leaf s = String.ofList ((s.toList.splitOn '/').getLastD []) := by
    rw [leaf, components, List.getLastD_eq_getLast?, List.getLast?_map, List.getLastD_eq_getLast?]
    cases (s.toList.splitOn '/').getLast? <;> rfl
  rw [components, String.toList_append, splitOn_append_suffix ht, parents, components, hleaf]
  simp [String.ofList_append]

theorem cleanStep_long {d : HostPath} {c : String} (h : 3 ≤ c.toList.length) :
    cleanStep d c = join d c := by
  have hne : ∀ s : String, s.toList.length < 3 → c ≠ s := by
    rintro s hs rfl
    omega
  rw [cleanStep, if_neg (not_or.mpr ⟨hne _ (by decide), hne _ (by decide)⟩),
    if_neg (hne _ (by decide))]
  rfl

/-- With a suffix a path is one file in the directory its parents lead to. -/
theorem resolve_append {d : HostPath} {s t : String} (ht : '/' ∉ t.toList)
    (hlong : 3 ≤ t.toList.length) :
    resolve d (s ++ t) = join ((parents s).foldl cleanStep d) (leaf s ++ t) := by
  rw [resolve, components_append ht, List.foldl_append, List.foldl_cons, List.foldl_nil]
  apply cleanStep_long
  rw [String.toList_append, List.length_append]
  omega

/-- A name without a slash has no parents. -/
theorem parents_eq_nil {s : String} (h : '/' ∉ s.toList) : parents s = [] := by
  rw [parents, components, List.splitOn_eq_singleton h]
  rfl

/-- Two directories above one path lie one inside the other. -/
theorem within_or_within {p d e : HostPath} (hd : within p d = true) (he : within p e = true) :
    within d e = true ∨ within e d = true := by
  rw [within_iff] at hd he
  rw [within_iff, within_iff]
  exact (List.prefix_or_prefix_of_prefix hd he).symm

/-- Neither directory is the other or lies inside it. -/
def Disjoint (d e : HostPath) : Prop := within d e = false ∧ within e d = false

instance (d e : HostPath) : Decidable (Disjoint d e) := inferInstanceAs (Decidable (_ ∧ _))

theorem Disjoint.symm {d e : HostPath} (h : Disjoint d e) : Disjoint e d := ⟨h.2, h.1⟩

/-- No path lies inside two disjoint directories. -/
theorem Disjoint.not_within {d e p : HostPath} (h : Disjoint d e) (hd : within p d = true) :
    within p e = false := by
  by_contra hne
  rw [Bool.not_eq_false] at hne
  rcases within_or_within hd hne with hde | hed
  · exact absurd hde (by simp [h.1])
  · exact absurd hed (by simp [h.2])

end HostPath
