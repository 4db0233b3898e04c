/-
The entries of a bucket whose keys begin alike.

Where a key is made of parts, the entries that share the first parts stand next to each other:
a cursor placed at the shared text walks them and can stop at the first key that does not
begin with it, in either direction.
-/
import VMSmith.Lib.Bucket
import Mathlib.Data.List.Lex

namespace Bucket

/-- Delete the keys, one after another. -/
def eraseAll {K V : Type} [LinearOrder K] (b : Bucket K V) (keys : List K) : Bucket K V :=
  keys.foldl erase b

section

variable {K V : Type} [LinearOrder K]

theorem eraseAll_entries (b : Bucket K V) (keys : List K) :
    (b.eraseAll keys).entries = b.entries.filter fun e => e.1 ∉ keys := by
  induction keys generalizing b with
  | nil => simp [eraseAll]
  | cons key keys ih =>
      have hrest := ih (b.erase key)
      unfold eraseAll at hrest ⊢
      rw [List.foldl_cons, hrest]
      dsimp only [erase]
      rw [List.filter_filter]
      refine List.filter_congr fun e _ => ?_
      rw [Bool.and_comm]
      simp [not_or]

/-- A key that is not there yet adds its entry. -/
theorem put_entries_perm {b : Bucket K V} {k : K} {v : V} (h : b.get? k = none) :
    (b.put k v).entries.Perm ((k, v) :: b.entries) := by
  have hnew : ∀ e ∈ b.entries, k ≠ e.1 := by
    rintro ⟨k', v'⟩ he rfl
    rw [mem_entries.mp he] at h
    exact absurd h (by simp)
  unfold put
  dsimp only
  generalize b.entries = es at hnew ⊢
  induction es with
  | nil => exact List.Perm.refl _
  | cons e es ih =>
      unfold insertEntry
      by_cases hlt : k < e.1
      · rw [if_pos hlt]
      · rw [if_neg hlt, if_neg (hnew e List.mem_cons_self)]
        exact ((ih fun p hp => hnew p (List.mem_cons_of_mem _ hp)).cons e).trans
          (List.Perm.swap _ _ _)

end

/-- Without its first values a list of distinct values is the rest. -/
theorem filter_notMem_take {α β : Type} {f : α → β} {l : List α} {n : Nat} {q : α → Bool}
    (h : (l.map f).Nodup) (hq : ∀ x, q x = true ↔ f x ∉ (l.take n).map f) :
    l.filter q = l.drop n := by
  have hsplit := List.take_append_drop n l
  have hdisjoint : ∀ x ∈ l.drop n, f x ∉ (l.take n).map f := by
    intro x hx hmem
    rw [← hsplit, List.map_append, List.nodup_append] at h
    exact h.2.2 _ hmem _ (List.mem_map_of_mem hx) rfl
  calc l.filter q = (l.take n ++ l.drop n).filter q := by rw [hsplit]
    _ = l.drop n := by
      rw [List.filter_append, List.filter_eq_nil_iff.mpr, List.nil_append, List.filter_eq_self]
      · exact fun x hx => (hq x).mpr (hdisjoint x hx)
      · exact fun x hx hkept => (hq x).mp hkept (List.mem_map_of_mem hx)

section

variable {α V : Type} [LinearOrder α]

/-- The entries whose keys begin with `p`. -/
def withPrefix (b : Bucket (List α) V) (p : List α) : List (List α × V) :=
  b.entries.filter fun e => p.isPrefixOf e.1

/-- The walk from `p` on, as long as the keys begin with it. -/
def scan (b : Bucket (List α) V) (p : List α) : List (List α × V) :=
  (b.seek p).takeWhile fun e => p.isPrefixOf e.1

/-- What begins with `p` is not below it. -/
theorem le_of_isPrefix {p k : List α} (h : p <+: k) : p ≤ k := by
  induction p generalizing k with
  | nil => exact not_lt.mp (List.not_lt_nil k)
  | cons a p ih =>
      obtain ⟨t, rfl⟩ := h
      rw [List.cons_append, ← not_lt, List.cons_lt_cons_iff, not_or]
      exact ⟨lt_irrefl a, fun hlt => not_lt.mpr (ih (List.prefix_append p t)) hlt.2⟩

/-- What lies between `p` and a text that begins with it begins with it too. -/
theorem isPrefix_between {p k k' : List α} (hp : p ≤ k) (hk : k ≤ k') (h : p <+: k') : p <+: k := by
  induction p generalizing k k' with
  | nil => exact List.nil_prefix
  | cons a p ih =>
      obtain ⟨t', rfl⟩ := h
      cases k with
      | nil => exact absurd hp (not_le.mpr (List.nil_lt_cons a p))
      | cons c t =>
          rw [← not_lt, List.cons_lt_cons_iff, not_or, not_lt] at hp
          rw [List.cons_append, ← not_lt, List.cons_lt_cons_iff, not_or, not_lt] at hk
          have hac : a = c := le_antisymm hp.1 hk.1
          subst hac
          have hpt : p ≤ t := not_lt.mp fun hlt => hp.2 ⟨rfl, hlt⟩
          have htt : t ≤ p ++ t' := not_lt.mp fun hlt => hk.2 ⟨rfl, hlt⟩
          exact (List.cons_prefix_cons).mpr ⟨rfl, ih hpt htt (List.prefix_append p t')⟩

theorem withPrefix_sorted (b : Bucket (List α) V) (p : List α) :
    (b.withPrefix p).Pairwise fun e e' => e.1 < e'.1 :=
  b.sorted.filter _

theorem mem_withPrefix {b : Bucket (List α) V} {p k : List α} {v : V} :
    (k, v) ∈ b.withPrefix p ↔ b.get? k = some v ∧ p <+: k := by
  unfold withPrefix
  rw [List.mem_filter, mem_entries, List.isPrefixOf_iff_prefix]

/-- The test may compare the elements in any lawful way. -/
theorem filter_isPrefixOf [BEq α] [LawfulBEq α] (b : Bucket (List α) V) (p : List α) :
    (b.entries.filter fun e => p.isPrefixOf e.1) = b.withPrefix p := by
  unfold withPrefix
  refine List.filter_congr fun e _ => Bool.eq_iff_iff.mpr ?_
  have hown := @List.isPrefixOf_iff_prefix α instBEqOfDecidableEq inferInstance p e.1
  rw [List.isPrefixOf_iff_prefix]
  exact hown.symm

/-- The walk finds every entry whose key begins with `p`. -/
theorem scan_eq (b : Bucket (List α) V) (p : List α) : b.scan p = b.withPrefix p := by
  have hseek : (b.seek p).filter (fun e => p.isPrefixOf e.1) = b.withPrefix p := by
    unfold withPrefix
    rw [seek_eq_filter, List.filter_filter]
    refine List.filter_congr fun e _ => ?_
    by_cases h : p <+: e.1
    · simp [List.isPrefixOf_iff_prefix.mpr h, le_of_isPrefix h]
    · have hnot : p.isPrefixOf e.1 = false := by
        rwa [← Bool.not_eq_true, List.isPrefixOf_iff_prefix]
      simp [hnot]
  rw [← hseek]
  unfold scan
  have hsorted := b.seek_sorted p
  have hfrom : ∀ e ∈ b.seek p, p ≤ e.1 := fun e he => (mem_seek.mp he).1
  generalize b.seek p = es at hsorted hfrom
  induction es with
  | nil => rfl
  | cons e es ih =>
      obtain ⟨he, hes⟩ := List.pairwise_cons.mp hsorted
      by_cases h : p.isPrefixOf e.1 = true
      · simp only [List.takeWhile_cons, List.filter_cons, h, if_true]
        rw [ih hes fun q hq => hfrom q (List.mem_cons_of_mem _ hq)]
      · simp only [List.takeWhile_cons, List.filter_cons, h, Bool.false_eq_true, if_false]
        rw [eq_comm, List.filter_eq_nil_iff]
        intro q hq hprefix
        refine h (List.isPrefixOf_iff_prefix.mpr ?_)
        exact isPrefix_between (hfrom e List.mem_cons_self) (he q hq).le
          (List.isPrefixOf_iff_prefix.mp hprefix)

/-- A new entry is among those its key belongs to. -/
theorem withPrefix_put {b : Bucket (List α) V} {p k : List α} {v : V} (hnew : b.get? k = none)
    (h : p <+: k) : ((b.put k v).withPrefix p).Perm ((k, v) :: b.withPrefix p) := by
  have hperm := (put_entries_perm (v := v) hnew).filter fun e => p.isPrefixOf e.1
  rwa [List.filter_cons_of_pos (by exact List.isPrefixOf_iff_prefix.mpr h)] at hperm

/-- It is not among the others. -/
theorem withPrefix_put_other {b : Bucket (List α) V} {p k : List α} {v : V}
    (hnew : b.get? k = none) (h : ¬ p <+: k) : (b.put k v).withPrefix p = b.withPrefix p := by
  have hperm := (put_entries_perm (v := v) hnew).filter fun e => p.isPrefixOf e.1
  rw [List.filter_cons_of_neg (by rw [List.isPrefixOf_iff_prefix]; exact h)] at hperm
  exact hperm.eq_of_pairwise (fun _ _ _ _ hab hba => absurd (hab.trans hba) (lt_irrefl _))
    ((b.put k v).withPrefix_sorted p) (b.withPrefix_sorted p)

/-- With the first keys of the walk deleted, the walk finds the others. -/
theorem withPrefix_eraseFirst (b : Bucket (List α) V) (p : List α) (n : Nat) :
    (b.eraseAll (((b.withPrefix p).take n).map Prod.fst)).withPrefix p =
      (b.withPrefix p).drop n := by
  have hnodup : ((b.withPrefix p).map Prod.fst).Nodup := by
    rw [List.Nodup, List.pairwise_map]
    exact (b.withPrefix_sorted p).imp ne_of_lt
  have hrest : ((b.withPrefix p).filter fun e =>
      e.1 ∉ ((b.withPrefix p).take n).map Prod.fst) = (b.withPrefix p).drop n :=
    filter_notMem_take hnodup fun e => decide_eq_true_iff
  rw [← hrest]
  conv_lhs => unfold withPrefix
  rw [eraseAll_entries, List.filter_filter]
  conv_rhs =>
    unfold withPrefix
    rw [List.filter_filter]
  refine List.filter_congr fun e _ => ?_
  rw [Bool.and_comm]
  exact congrArg₂ _ (decide_eq_decide.mpr Iff.rfl) rfl

/-- Keys that do not begin with `p` leave the walk as it is. -/
theorem withPrefix_eraseAll {b : Bucket (List α) V} {p : List α} {keys : List (List α)}
    (h : ∀ k ∈ keys, ¬ p <+: k) : (b.eraseAll keys).withPrefix p = b.withPrefix p := by
  unfold withPrefix
  rw [eraseAll_entries, List.filter_filter]
  refine List.filter_congr fun e _ => ?_
  by_cases hprefix : p <+: e.1
  · have hnot : e.1 ∉ keys := fun hmem => h _ hmem hprefix
    simp [hnot]
  · have hfalse : p.isPrefixOf e.1 = false := by
      rwa [← Bool.not_eq_true, List.isPrefixOf_iff_prefix]
    simp [hfalse]

end

end Bucket
