/-
A bucket: an ordered map from keys to values, kept as a list of entries.

This is the shape of an embedded key/value store.  A key is present at most once,
the entries stand in key order, and a cursor placed at a key walks the entries
from there on.  The order is a field of the structure, so no operation can hand
back a bucket that breaks it and no later proof has to show it again.

Every fact about an operation is stated by `get?`; `mem_entries` passes between
that and the entry list.
-/
import Mathlib.Algebra.Ring.Nat
import Mathlib.Order.Lex
import Mathlib.Data.List.Pairwise
import Mathlib.Data.String.Basic
import Mathlib.Data.List.TakeWhile

/-- A finite map whose entries stand in strictly increasing key order. -/
structure Bucket (K V : Type) [LinearOrder K] where
  /-- The entries, as a cursor walks them. -/
  entries : List (K × V)
  /-- Each key once, in order. -/
  sorted : entries.Pairwise (fun a b => a.1 < b.1)

namespace Bucket

variable {K V : Type} [LinearOrder K]

/-- The bucket with no entries. -/
def empty : Bucket K V := ⟨[], List.Pairwise.nil⟩

instance : Inhabited (Bucket K V) := ⟨empty⟩

instance [DecidableEq V] : DecidableEq (Bucket K V) := fun a b =>
  decidable_of_iff (a.entries = b.entries) (by cases a; cases b; simp)

/-- The value stored under `k`. -/
def get? (b : Bucket K V) (k : K) : Option V :=
  (b.entries.find? (fun p => p.1 = k)).map Prod.snd

/-- `k ↦ v` placed among entries that stand in key order. -/
def insertEntry (k : K) (v : V) : List (K × V) → List (K × V)
  | [] => [(k, v)]
  | p :: ps =>
      if k < p.1 then (k, v) :: p :: ps
      else if k = p.1 then (k, v) :: ps
      else p :: insertEntry k v ps

theorem mem_insertEntry {k : K} {v : V} {p : K × V} {ps : List (K × V)}
    (h : p ∈ insertEntry k v ps) : p = (k, v) ∨ p ∈ ps := by
  induction ps with
  | nil => exact .inl (by simpa [insertEntry] using h)
  | cons q qs ih =>
      simp only [insertEntry] at h
      split_ifs at h with hlt heq
      · simpa using h
      · rcases List.mem_cons.mp h with rfl | hq
        · exact .inl rfl
        · exact .inr (List.mem_cons_of_mem _ hq)
      · rcases List.mem_cons.mp h with rfl | hq
        · exact .inr List.mem_cons_self
        · exact (ih hq).imp id (List.mem_cons_of_mem _)

theorem insertEntry_sorted (k : K) (v : V) {ps : List (K × V)}
    (h : ps.Pairwise (fun a b => a.1 < b.1)) :
    (insertEntry k v ps).Pairwise (fun a b => a.1 < b.1) := by
  induction ps with
  | nil => simp [insertEntry]
  | cons q qs ih =>
      obtain ⟨hq, hqs⟩ := List.pairwise_cons.mp h
      simp only [insertEntry]
      split_ifs with hlt heq
      · refine List.pairwise_cons.mpr ⟨fun p hp => ?_, h⟩
        rcases List.mem_cons.mp hp with rfl | hp
        · exact hlt
        · exact hlt.trans (hq p hp)
      · exact List.pairwise_cons.mpr ⟨fun p hp => heq ▸ hq p hp, hqs⟩
      · refine List.pairwise_cons.mpr ⟨fun p hp => ?_, ih hqs⟩
        rcases mem_insertEntry hp with rfl | hp
        · exact lt_of_le_of_ne (not_lt.mp hlt) (Ne.symm heq)
        · exact hq p hp

/-- Write `k ↦ v`, over whatever `k` held. -/
def put (b : Bucket K V) (k : K) (v : V) : Bucket K V :=
  ⟨insertEntry k v b.entries, insertEntry_sorted k v b.sorted⟩

/-- Remove the entry of `k`, if there is one. -/
def erase (b : Bucket K V) (k : K) : Bucket K V :=
  ⟨b.entries.filter (fun p => p.1 ≠ k), b.sorted.filter _⟩

/-- Keep the entries that satisfy `p`. -/
def filter (b : Bucket K V) (p : K → V → Bool) : Bucket K V :=
  ⟨b.entries.filter fun e => p e.1 e.2, b.sorted.filter _⟩

/-- All but the first `n` entries. -/
def drop (b : Bucket K V) (n : Nat) : Bucket K V := ⟨b.entries.drop n, b.sorted.drop⟩

/-- The values, in key order. -/
def values (b : Bucket K V) : List V := b.entries.map Prod.snd

/-- What `f` adds up to over the values. -/
def total (b : Bucket K V) (f : V → Nat) : Nat := (b.values.map f).sum

/-- The entries a cursor placed at the first key not below `k` walks. -/
def seek (b : Bucket K V) (k : K) : List (K × V) :=
  b.entries.dropWhile (fun p => p.1 < k)

/-- The entries the cursor walks backwards from there, without the one it is placed at. -/
def before (b : Bucket K V) (k : K) : List (K × V) :=
  (b.entries.takeWhile (fun p => p.1 < k)).reverse

/-! ### Entries and lookups -/

/-- Two entries under one key are one entry. -/
theorem entry_inj (b : Bucket K V) {p q : K × V} (hp : p ∈ b.entries) (hq : q ∈ b.entries)
    (h : p.1 = q.1) : p = q := by
  by_contra hne
  have hpw : b.entries.Pairwise (fun a c => a.1 ≠ c.1) := b.sorted.imp ne_of_lt
  have : Std.Symm (fun a c : K × V => a.1 ≠ c.1) := ⟨fun _ _ => Ne.symm⟩
  exact hpw.forall hp hq hne h

theorem mem_entries {b : Bucket K V} {k : K} {v : V} :
    (k, v) ∈ b.entries ↔ b.get? k = some v := by
  constructor
  · intro h
    cases hf : b.entries.find? (fun p => p.1 = k) with
    | none => simpa using List.find?_eq_none.mp hf _ h
    | some p =>
        have hpk : p.1 = k := by simpa using List.find?_some hf
        have : p = (k, v) := b.entry_inj (List.mem_of_find?_eq_some hf) h hpk
        simp [get?, hf, this]
  · intro h
    simp only [get?, Option.map_eq_some_iff] at h
    obtain ⟨p, hf, rfl⟩ := h
    have hpk : p.1 = k := by simpa using List.find?_some hf
    have hmem := List.mem_of_find?_eq_some hf
    rwa [← hpk]

theorem mem_values {b : Bucket K V} {v : V} : v ∈ b.values ↔ ∃ k, b.get? k = some v := by
  simp only [values, List.mem_map, Prod.exists, exists_eq_right, mem_entries]

@[simp] theorem get?_empty (k : K) : (empty : Bucket K V).get? k = none := rfl

@[simp] theorem get?_put_self (b : Bucket K V) (k : K) (v : V) : (b.put k v).get? k = some v := by
  rw [← mem_entries]
  show (k, v) ∈ insertEntry k v b.entries
  induction b.entries with
  | nil => simp [insertEntry]
  | cons q qs ih =>
      simp only [insertEntry]
      split_ifs
      · simp
      · simp
      · exact List.mem_cons_of_mem _ ih

private theorem find?_insertEntry_ne {k k' : K} (v : V) (h : k' ≠ k) (ps : List (K × V)) :
    (insertEntry k v ps).find? (fun p => p.1 = k') = ps.find? (fun p => p.1 = k') := by
  induction ps with
  | nil => simp [insertEntry, Ne.symm h]
  | cons q qs ih =>
      simp only [insertEntry]
      split_ifs with hlt heq
      · simp [List.find?_cons, Ne.symm h]
      · simp [Ne.symm h, ← heq]
      · simp only [List.find?_cons, ih]

theorem get?_put_ne (b : Bucket K V) {k k' : K} (v : V) (h : k' ≠ k) :
    (b.put k v).get? k' = b.get? k' := by
  simp only [get?, put, find?_insertEntry_ne v h]

theorem get?_put (b : Bucket K V) (k k' : K) (v : V) :
    (b.put k v).get? k' = if k' = k then some v else b.get? k' := by
  split_ifs with h
  · rw [h, get?_put_self]
  · exact b.get?_put_ne v h

theorem mem_erase {b : Bucket K V} {k k' : K} {v : V} :
    (b.erase k).get? k' = some v ↔ k' ≠ k ∧ b.get? k' = some v := by
  rw [← mem_entries, ← mem_entries]
  simp [erase, and_comm]

theorem mem_filter {b : Bucket K V} {p : K → V → Bool} {k : K} {v : V} :
    (b.filter p).get? k = some v ↔ b.get? k = some v ∧ p k v = true := by
  rw [← mem_entries, ← mem_entries]
  simp [filter]

@[simp] theorem get?_erase_self (b : Bucket K V) (k : K) : (b.erase k).get? k = none := by
  by_contra h
  obtain ⟨v, hv⟩ := Option.ne_none_iff_exists'.mp h
  exact (mem_erase.mp hv).1 rfl

theorem get?_erase_ne (b : Bucket K V) {k k' : K} (h : k' ≠ k) :
    (b.erase k).get? k' = b.get? k' := by
  ext v
  rw [mem_erase]
  exact and_iff_right h

theorem get?_erase (b : Bucket K V) (k k' : K) :
    (b.erase k).get? k' = if k' = k then none else b.get? k' := by
  split_ifs with h
  · rw [h, get?_erase_self]
  · exact b.get?_erase_ne h

theorem mem_put {b : Bucket K V} {k k' : K} {v v' : V} (h : (b.put k v).get? k' = some v') :
    (k' = k ∧ v' = v) ∨ (k' ≠ k ∧ b.get? k' = some v') := by
  rw [get?_put] at h
  split_ifs at h with hk
  · exact .inl ⟨hk, (Option.some.inj h).symm⟩
  · exact .inr ⟨hk, h⟩

/-! ### Adding up -/

theorem total_erase (b : Bucket K V) (f : V → Nat) (k : K) :
    (b.erase k).total f + ((b.get? k).map f).getD 0 = b.total f := by
  have hs := b.sorted
  unfold total values get? erase
  dsimp only
  generalize b.entries = es at hs ⊢
  induction es with
  | nil => rfl
  | cons q qs ih =>
      obtain ⟨hq, hqs⟩ := List.pairwise_cons.mp hs
      by_cases hk : q.1 = k
      · have hkept : qs.filter (fun p => p.1 ≠ k) = qs := by
          rw [List.filter_eq_self]
          intro p hp
          simpa using fun heq => absurd (hq p hp) (by rw [hk, heq]; exact lt_irrefl _)
        rw [List.filter_cons_of_neg (by simpa using hk), hkept, List.find?_cons_of_pos (by simpa using hk)]
        simp [Nat.add_comm]
      · rw [List.filter_cons_of_pos (by simpa using hk), List.find?_cons_of_neg (by simpa using hk)]
        have := ih hqs
        simp only [List.map_cons, List.sum_cons] at this ⊢
        omega

theorem total_put (b : Bucket K V) (f : V → Nat) (k : K) (v : V) :
    (b.put k v).total f + ((b.get? k).map f).getD 0 = b.total f + f v := by
  have hs := b.sorted
  unfold total values get? put
  dsimp only
  generalize b.entries = es at hs ⊢
  induction es with
  | nil => simp [insertEntry]
  | cons q qs ih =>
      obtain ⟨hq, hqs⟩ := List.pairwise_cons.mp hs
      unfold insertEntry
      split_ifs with hlt heq
      · have hnone : (q :: qs).find? (fun p => p.1 = k) = none := by
          rw [List.find?_eq_none]
          intro p hp
          rcases List.mem_cons.mp hp with rfl | hp
          · simpa using hlt.ne'
          · simpa using (hlt.trans (hq p hp)).ne'
        rw [hnone]
        simp [Nat.add_comm]
      · rw [List.find?_cons_of_pos (by simpa using heq.symm)]
        simp only [List.map_cons, List.sum_cons, Option.map_some, Option.getD_some]
        omega
      · rw [List.find?_cons_of_neg (by simpa using Ne.symm heq)]
        have := ih hqs
        simp only [List.map_cons, List.sum_cons] at this ⊢
        omega

/-- What goes under different keys is no more than all there is. -/
theorem sum_le_total {α : Type} (f : V → Nat) (key : α → Option K) (g : α → Nat) {as : List α} (b : Bucket K V)
    (hapart : as.Pairwise fun a c => ∀ k, key a = some k → key c ≠ some k)
    (hnone : ∀ a ∈ as, key a = none → g a = 0)
    (hsome : ∀ a ∈ as, ∀ k, key a = some k → ∃ v, b.get? k = some v ∧ g a ≤ f v) :
    (as.map g).sum ≤ b.total f := by
  induction as generalizing b with
  | nil => exact Nat.zero_le _
  | cons a as ih =>
      obtain ⟨hne, hrest⟩ := List.pairwise_cons.mp hapart
      have hnone' : ∀ c ∈ as, key c = none → g c = 0 := fun c hc => hnone c (List.mem_cons_of_mem _ hc)
      rw [List.map_cons, List.sum_cons]
      cases hkey : key a with
      | none =>
          rw [hnone a List.mem_cons_self hkey, Nat.zero_add]
          exact ih b hrest hnone' fun c hc => hsome c (List.mem_cons_of_mem _ hc)
      | some k =>
          obtain ⟨v, hv, hle⟩ := hsome a List.mem_cons_self k hkey
          have htotal := b.total_erase f k
          rw [hv, Option.map_some, Option.getD_some] at htotal
          have hsum : (as.map g).sum ≤ (b.erase k).total f := by
            refine ih (b.erase k) hrest hnone' fun c hc k' hk' => ?_
            have hk'ne : k' ≠ k := fun heq => hne c hc k hkey (heq ▸ hk')
            rw [b.get?_erase_ne hk'ne]
            exact hsome c (List.mem_cons_of_mem _ hc) k' hk'
          omega

/-! ### The cursor -/

/-- The cursor walks exactly the entries whose key is not below the one sought. -/
theorem seek_eq_filter (b : Bucket K V) (k : K) :
    b.seek k = b.entries.filter (fun p => k ≤ p.1) := by
  have hs := b.sorted
  simp only [seek]
  generalize b.entries = es at hs ⊢
  induction es with
  | nil => rfl
  | cons q qs ih =>
      obtain ⟨hq, hqs⟩ := List.pairwise_cons.mp hs
      by_cases h : q.1 < k
      · simp only [List.dropWhile_cons, h, decide_true, if_true, ih hqs]
        rw [List.filter_cons_of_neg]
        simpa using h
      · have hall : ∀ p ∈ q :: qs, decide (k ≤ p.1) = true := by
          intro p hp
          rcases List.mem_cons.mp hp with rfl | hp
          · simpa using h
          · simpa using (not_lt.mp h).trans (hq p hp).le
        simp only [List.dropWhile_cons, h, decide_false, Bool.false_eq_true, if_false]
        exact (List.filter_eq_self.mpr hall).symm

theorem reverse_before_append_seek (b : Bucket K V) (k : K) :
    (b.before k).reverse ++ b.seek k = b.entries := by
  unfold before seek
  rw [List.reverse_reverse, List.takeWhile_append_dropWhile]

theorem lt_of_mem_before {b : Bucket K V} {k : K} {p : K × V} (h : p ∈ b.before k) : p.1 < k := by
  unfold before at h
  simpa using List.mem_takeWhile_imp (List.mem_reverse.mp h)

theorem mem_seek {b : Bucket K V} {k : K} {p : K × V} :
    p ∈ b.seek k ↔ k ≤ p.1 ∧ b.get? p.1 = some p.2 := by
  rw [seek_eq_filter, List.mem_filter, ← mem_entries]
  simp [and_comm]

theorem seek_sorted (b : Bucket K V) (k : K) : (b.seek k).Pairwise (fun p q => p.1 < q.1) :=
  b.sorted.sublist (List.dropWhile_sublist _)

/-- A key above every key of the bucket goes to the end. -/
theorem insertEntry_append {k : K} (v : V) {ps : List (K × V)} (h : ∀ p ∈ ps, p.1 < k) :
    insertEntry k v ps = ps ++ [(k, v)] := by
  induction ps with
  | nil => rfl
  | cons q qs ih =>
      have hq : q.1 < k := h q List.mem_cons_self
      simp only [insertEntry, if_neg hq.not_gt, if_neg hq.ne', List.cons_append]
      rw [ih fun p hp => h p (List.mem_cons_of_mem _ hp)]

end Bucket
