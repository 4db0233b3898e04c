/-
Files and directories under their paths.

A tree says what stands at every path; only finitely many paths have anything.  Each
operation is given by what stands at a path after it, so what it does to a tree and what it
leaves alone is read off directly.
-/
import Mathlib.Data.BitVec
import Mathlib.Data.List.Sort
import Mathlib.Data.List.Infix
import Mathlib.Data.List.Lex
import Mathlib.Data.String.Basic
import Mathlib.Logic.Function.Basic

/-- A path from the root, as its components. -/
abbrev TreePath := List String

/-- Permission bits. -/
abbrev FilePerm := BitVec 9

/-- What stands at a path. -/
inductive FileEntry where
  | file (content : List UInt8) (perm : FilePerm)
  | dir (perm : FilePerm)
  /-- A link, a device or a socket. -/
  | special
  deriving DecidableEq, Repr

namespace FileEntry

def isDir : FileEntry → Bool
  | dir _ => true
  | _ => false

theorem isDir_iff {e : FileEntry} : e.isDir = true ↔ ∃ perm, e = dir perm := by
  cases e with
  | file content perm => simp [isDir]
  | dir perm => simp [isDir]
  | special => simp [isDir]

end FileEntry

structure FileTree where
  get : TreePath → Option FileEntry
  support : List TreePath
  finite : ∀ p, get p ≠ none → p ∈ support

namespace FileTree

/-- A tree given entry by entry. -/
def ofEntries (entries : List (TreePath × FileEntry)) : FileTree where
  get := fun p => entries.lookup p
  support := entries.map Prod.fst
  finite := by
    intro p hp
    obtain ⟨e, he⟩ := Option.ne_none_iff_exists'.mp hp
    obtain ⟨before, after, rfl, -⟩ := List.lookup_eq_some_iff.mp he
    simp

/-- Every entry stands in a directory, and so does that. -/
def Closed (t : FileTree) : Prop :=
  ∀ p q, t.get p ≠ none → q <+: p → q ≠ p → ∃ perm, t.get q = some (.dir perm)

def put (t : FileTree) (p : TreePath) (e : FileEntry) : FileTree where
  get := Function.update t.get p (some e)
  support := p :: t.support
  finite := by
    intro q hq
    by_cases h : q = p
    · rw [h]
      exact List.mem_cons_self
    · rw [Function.update_of_ne h] at hq
      exact List.mem_cons_of_mem p (t.finite q hq)

/-- Without the entries at some paths. -/
def drop (t : FileTree) (gone : TreePath → Bool) : FileTree where
  get := fun p => if gone p then none else t.get p
  support := t.support
  finite := by
    intro p hp
    by_cases h : gone p = true
    · rw [if_pos h] at hp
      exact absurd rfl hp
    · rw [if_neg h] at hp
      exact t.finite p hp

/-- Without what is at `root` and below. -/
def removeTree (t : FileTree) (root : TreePath) : FileTree := t.drop root.isPrefixOf

/-- Without some of it: what stays is at the paths `kept`, and in directories that stay. -/
def removeSome (t : FileTree) (root : TreePath) (kept : List TreePath) : FileTree :=
  t.drop fun p => p.inits.any fun q => root.isPrefixOf q && !kept.contains q

/-- With the directories made that are missing on the way to `target`, and that one. -/
def mkdirs (t : FileTree) (target : TreePath) (perm : FilePerm) : FileTree where
  get := fun p =>
    if p <+: target ∧ t.get p = none then some (.dir perm) else t.get p
  support := target.inits ++ t.support
  finite := by
    intro p hp
    by_cases h : p <+: target ∧ t.get p = none
    · exact List.mem_append_left _ ((List.mem_inits p target).mpr h.1)
    · rw [if_neg h] at hp
      exact List.mem_append_right _ (t.finite p hp)

/-- With `old` and what is below it at `new`, where there was nothing. -/
def rename (t : FileTree) (old new : TreePath) : FileTree where
  get := fun p =>
    if new <+: p then t.get (old ++ p.drop new.length)
    else if old <+: p then none else t.get p
  support := (t.support.map fun p => new ++ p.drop old.length) ++ t.support
  finite := by
    intro p hp
    by_cases hnew : new <+: p
    · rw [if_pos hnew] at hp
      obtain ⟨c, rfl⟩ := hnew
      refine List.mem_append_left _ (List.mem_map.mpr ⟨_, t.finite _ hp, ?_⟩)
      rw [List.drop_left, List.drop_left]
    · rw [if_neg hnew] at hp
      by_cases hold : old <+: p
      · rw [if_pos hold] at hp
        exact absurd rfl hp
      · rw [if_neg hold] at hp
        exact List.mem_append_right _ (t.finite p hp)

/-- The paths at `root` and below in the order of a walk: names in order, a directory before
what it holds. -/
def walk (t : FileTree) (root : TreePath) : List TreePath :=
  (t.support.filter fun p => root.isPrefixOf p && (t.get p).isSome).dedup.insertionSort (· ≤ ·)

variable {t : FileTree} {p q root : TreePath}

theorem get_put (t : FileTree) (p : TreePath) (e : FileEntry) (q : TreePath) :
    (t.put p e).get q = if q = p then some e else t.get q := Function.update_apply _ _ _ _

theorem get_mkdirs (t : FileTree) (target : TreePath) (perm : FilePerm) (p : TreePath) :
    (t.mkdirs target perm).get p =
      if p <+: target ∧ t.get p = none then some (.dir perm) else t.get p := rfl

theorem get_rename (t : FileTree) (old new p : TreePath) :
    (t.rename old new).get p = if new <+: p then t.get (old ++ p.drop new.length)
      else if old <+: p then none else t.get p := rfl

/-- What was at `old` and below is found at `new` and below. -/
theorem get_rename_append (t : FileTree) (old new rel : TreePath) :
    (t.rename old new).get (new ++ rel) = t.get (old ++ rel) := by
  rw [get_rename, if_pos (List.prefix_append new rel), List.drop_left]

theorem get_rename_of_not_prefix {old new : TreePath} (hold : ¬ old <+: p) (hnew : ¬ new <+: p) :
    (t.rename old new).get p = t.get p := by
  rw [get_rename, if_neg hnew, if_neg hold]

theorem get_removeTree (t : FileTree) (root p : TreePath) :
    (t.removeTree root).get p = if root <+: p then none else t.get p := by
  unfold removeTree drop
  simp only [List.isPrefixOf_iff_prefix]

/-! ### What stays of a tree -/

theorem get_drop_eq_or (t : FileTree) (gone : TreePath → Bool) (p : TreePath) :
    (t.drop gone).get p = none ∨ (t.drop gone).get p = t.get p := by
  unfold drop
  by_cases h : gone p = true
  · exact Or.inl (if_pos h)
  · exact Or.inr (if_neg h)

/-- What is gone with all that is below it leaves a tree in order. -/
theorem Closed.drop (ht : t.Closed) {gone : TreePath → Bool}
    (hgone : ∀ p q, q <+: p → gone q = true → gone p = true) : (t.drop gone).Closed := by
  intro p q hp hqp hne
  have hstays : ¬ gone p = true := fun h => hp (if_pos h)
  have hget : (t.drop gone).get p = t.get p := if_neg hstays
  rw [hget] at hp
  obtain ⟨perm, hq⟩ := ht p q hp hqp hne
  exact ⟨perm, (if_neg fun h => hstays (hgone p q hqp h)).trans hq⟩

theorem Closed.removeTree (ht : t.Closed) (root : TreePath) : (t.removeTree root).Closed := by
  refine ht.drop fun p q hqp hq => ?_
  rw [List.isPrefixOf_iff_prefix] at hq ⊢
  exact hq.trans hqp

theorem removeSome_gone_iff {kept : List TreePath} :
    (p.inits.any fun q => root.isPrefixOf q && !kept.contains q) = true ↔
      ∃ q, q <+: p ∧ root <+: q ∧ q ∉ kept := by
  rw [List.any_eq_true]
  refine exists_congr fun q => ?_
  rw [List.mem_inits, Bool.and_eq_true, List.isPrefixOf_iff_prefix, Bool.not_eq_true',
    ← Bool.not_eq_true, List.contains_iff_mem]

theorem Closed.removeSome (ht : t.Closed) (root : TreePath) (kept : List TreePath) :
    (t.removeSome root kept).Closed := by
  refine ht.drop fun p q hqp hq => ?_
  rw [removeSome_gone_iff] at hq ⊢
  obtain ⟨a, ha, hroot, hkept⟩ := hq
  exact ⟨a, ha.trans hqp, hroot, hkept⟩

theorem get_removeSome_of_not_prefix {kept : List TreePath} (h : ¬ root <+: p) :
    (t.removeSome root kept).get p = t.get p := by
  refine if_neg fun hgone => ?_
  obtain ⟨q, hqp, hroot, -⟩ := removeSome_gone_iff.mp hgone
  exact h (hroot.trans hqp)

/-- What is kept with all that it is in stays. -/
theorem get_removeSome_of_kept {kept : List TreePath} (h : ∀ q, q <+: p → q ∈ kept) :
    (t.removeSome root kept).get p = t.get p := by
  refine if_neg fun hgone => ?_
  obtain ⟨q, hqp, -, hkept⟩ := removeSome_gone_iff.mp hgone
  exact hkept (h q hqp)

theorem mem_kept {kept : List TreePath} (h : (t.removeSome root kept).get p ≠ none)
    (hroot : root <+: p) : p ∈ kept := by
  by_contra hkept
  exact h (if_pos (removeSome_gone_iff.mpr ⟨p, List.prefix_rfl, hroot, hkept⟩))

/-- Below nothing there is nothing. -/
theorem Closed.get_eq_none (ht : t.Closed) (hq : t.get q = none) (hqp : q <+: p) :
    t.get p = none := by
  by_contra hp
  by_cases hne : q = p
  · rw [hne] at hq
    exact hp hq
  · obtain ⟨perm, hdir⟩ := ht p q hp hqp hne
    rw [hq] at hdir
    simp at hdir

theorem mem_of_get_ofEntries {entries : List (TreePath × FileEntry)} {e : FileEntry}
    (h : (ofEntries entries).get p = some e) : (p, e) ∈ entries := by
  obtain ⟨before, after, rfl, -⟩ := List.lookup_eq_some_iff.mp h
  exact List.mem_append_right _ List.mem_cons_self

theorem closed_ofEntries {entries : List (TreePath × FileEntry)}
    (h : (entries.all fun x => x.1.inits.all fun q =>
      q == x.1 || (entries.lookup q).any FileEntry.isDir) = true) : (ofEntries entries).Closed := by
  intro p q hp hqp hne
  obtain ⟨e, he⟩ := Option.ne_none_iff_exists'.mp hp
  have hentry := List.all_eq_true.mp h _ (mem_of_get_ofEntries he)
  have hq := List.all_eq_true.mp hentry q ((List.mem_inits q p).mpr hqp)
  rw [Bool.or_eq_true, beq_iff_eq, Option.any_eq_true] at hq
  obtain ⟨o, ho, hdir⟩ := hq.resolve_left hne
  obtain ⟨perm, rfl⟩ := FileEntry.isDir_iff.mp hdir
  exact ⟨perm, ho⟩

/-! ### Walking -/

theorem mem_walk : p ∈ t.walk root ↔ root <+: p ∧ t.get p ≠ none := by
  unfold walk
  rw [List.mem_insertionSort, List.mem_dedup, List.mem_filter, Bool.and_eq_true,
    List.isPrefixOf_iff_prefix, Option.isSome_iff_ne_none]
  exact ⟨fun h => h.2, fun h => ⟨t.finite p h.2, h⟩⟩

theorem nodup_walk (t : FileTree) (root : TreePath) : (t.walk root).Nodup :=
  (List.perm_insertionSort _ _).nodup_iff.mpr (List.nodup_dedup _)

theorem prefix_le (h : p <+: q) : p ≤ q := by
  obtain ⟨c, rfl⟩ := h
  induction p with
  | nil => exact le_of_not_gt (List.not_lt_nil c)
  | cons x p ih =>
    refine le_of_not_gt fun hlt => ?_
    rw [List.cons_append, List.cons_lt_cons_iff] at hlt
    rcases hlt with hx | hrest
    · exact lt_irrefl x hx
    · exact not_lt_of_ge ih hrest.2

/-- A directory is walked before what it holds. -/
theorem mem_of_walk_eq {before after : List TreePath} (h : t.walk root = before ++ p :: after)
    (hq : q ∈ t.walk root) (hqp : q <+: p) (hne : q ≠ p) : q ∈ before := by
  have hsorted : (t.walk root).Pairwise (· ≤ ·) := List.pairwise_insertionSort _ _
  rw [h] at hsorted hq
  rcases List.mem_append.mp hq with hmem | hmem
  · exact hmem
  · rcases List.mem_cons.mp hmem with heq | hafter
    · exact absurd heq hne
    · have hle := (List.pairwise_cons.mp (List.pairwise_append.mp hsorted).2.1).1 q hafter
      exact absurd (le_antisymm (prefix_le hqp) hle) hne

end FileTree
