/-
What the generated administrator passwords are like.

Whatever is drawn, a password that is returned has the length that was asked for, a byte
of each complexity class, and no byte outside them.  Each loop has a lemma that says what
stands at which place after it; the last loop only moves bytes, so that what the first two
have put in is still there.

`chance_generated_pos` is the other direction: every password that complies may come out.
It is put into an order with a byte of each class first, which the first two loops may
make, and the last loop may undo that order.

`chance_shuffle` is about the last loop: with fair draws it makes every arrangement of the
bytes equally often.  Its invariant is in the places the loop has still to go through.
-/
import VMSmith.VM.AdminPassword

namespace VMSmith.AdminPassword

open Go Prog

variable {β : Type} {n : ℕ}

/-! ### What is returned -/

/-- A program is followed through a draw. -/
theorem yields_randomIndex {φ : β → Prop} {m : ℕ} {f : Fin m → RandM β}
    (h : ∀ v, Yields φ (f v)) : Yields φ (randomIndex m >>= f) := by
  unfold randomIndex
  by_cases hm : m = 0
  · rw [if_pos hm]
    exact .throw _
  · rw [if_neg hm]
    refine .call fun r => ?_
    cases r with
    | error e => exact .throw _
    | ok v => exact h v

theorem yields_randomByteFrom {φ : β → Prop} {alphabet : Bytes} {f : UInt8 → RandM β}
    (h : ∀ ch ∈ alphabet, Yields φ (f ch)) : Yields φ (randomByteFrom alphabet >>= f) := by
  have hget : Yields (fun ch => ch ∈ alphabet) (randomByteFrom alphabet) :=
    yields_randomIndex fun v => .ret (List.get_mem alphabet v)
  exact hget.bind h

/-- After `seed`: the places before are as they were, and each class has its own. -/
structure Seeded (i : ℕ) (alphabets : List Bytes) (out out' : Vector UInt8 n) : Prop where
  before : ∀ k < i, out'[k]? = out[k]?
  placed : ∀ k alphabet, alphabets[k]? = some alphabet → i + k < n →
    ∃ ch ∈ alphabet, out'[i + k]? = some ch

theorem yields_seed (alphabets : List Bytes) (i : ℕ) (out : Vector UInt8 n) :
    Yields (Seeded i alphabets out) (seed i alphabets out) := by
  induction alphabets generalizing i out with
  | nil =>
      refine .ret ⟨fun k _ => rfl, ?_⟩
      intro k alphabet hk
      simp at hk
  | cons alphabet rest ih =>
      unfold seed
      refine yields_randomByteFrom fun ch hch => ?_
      refine (ih (i + 1) (out.setIfInBounds i ch)).mono fun out' hout' => ⟨?_, ?_⟩
      · intro k hk
        rw [hout'.before k (by omega), Vector.getElem?_setIfInBounds, if_neg (by omega)]
      · intro k alphabet' hk hlt
        cases k with
        | zero =>
            obtain rfl : alphabet = alphabet' := by simpa using hk
            refine ⟨ch, hch, ?_⟩
            rw [Nat.add_zero, hout'.before i (by omega), Vector.getElem?_setIfInBounds, if_pos rfl,
              if_pos (by omega)]
        | succ k =>
            have hplace := hout'.placed k alphabet' (by simpa using hk) (by omega)
            rwa [show i + 1 + k = i + (k + 1) by omega] at hplace

/-- After `fill`: the places before are as they were, and the others have bytes of a class. -/
structure Filled (i left : ℕ) (out out' : Vector UInt8 n) : Prop where
  before : ∀ k < i, out'[k]? = out[k]?
  placed : ∀ k, i ≤ k → k < i + left → k < n → ∃ ch ∈ allAlphabets, out'[k]? = some ch

theorem yields_fill (left i : ℕ) (out : Vector UInt8 n) :
    Yields (Filled i left out) (fill i left out) := by
  induction left generalizing i out with
  | zero => exact .ret ⟨fun k _ => rfl, fun k h h' _ => by omega⟩
  | succ left ih =>
      unfold fill
      refine yields_randomByteFrom fun ch hch => ?_
      refine (ih (i + 1) (out.setIfInBounds i ch)).mono fun out' hout' => ⟨?_, ?_⟩
      · intro k hk
        rw [hout'.before k (by omega), Vector.getElem?_setIfInBounds, if_neg (by omega)]
      · intro k hle hlt hn
        by_cases hk : k = i
        · refine ⟨ch, hch, ?_⟩
          rw [hk, hout'.before i (by omega), Vector.getElem?_setIfInBounds, if_pos rfl,
            if_pos (by omega)]
        · exact hout'.placed k (by omega) (by omega) hn

theorem yields_shuffle (i : ℕ) (out : Vector UInt8 n) :
    Yields (fun out' => out'.toList.Perm out.toList) (shuffle i out) := by
  induction i generalizing out with
  | zero => exact .ret (List.Perm.refl _)
  | succ i ih =>
      unfold shuffle
      refine yields_randomIndex fun j => ?_
      refine (ih (out.swapIfInBounds (i + 1) j)).mono fun out' hout' => ?_
      exact hout'.trans (Shuffle.swapIfInBounds_perm out (i + 1) j)

/-- What the complexity policy asks of a password. -/
structure Complies (length : ℤ) (pw : Bytes) : Prop where
  length_eq : (pw.length : ℤ) = length
  each : ∀ alphabet ∈ classes, ∃ ch ∈ pw, ch ∈ alphabet
  legal : ∀ ch ∈ pw, ch ∈ allAlphabets

theorem class_subset {alphabet : Bytes} (h : alphabet ∈ classes) : alphabet ⊆ allAlphabets := by
  intro ch hch
  unfold allAlphabets
  simp only [classes, List.mem_cons, List.not_mem_nil, or_false] at h
  simp only [List.mem_append]
  rcases h with rfl | rfl | rfl | rfl
  · exact .inl (.inl (.inl hch))
  · exact .inl (.inl (.inr hch))
  · exact .inl (.inr hch)
  · exact .inr hch

/-- The first two loops leave a byte of each class, and bytes of the classes only. -/
theorem complies_of_filled {length : ℤ} (hlength : 4 ≤ length)
    {out seeded filled : Vector UInt8 length.toNat} (hseed : Seeded 0 classes out seeded)
    (hfill : Filled classes.length (length.toNat - classes.length) seeded filled) :
    Complies length filled.toList := by
  have hfour : classes.length = 4 := rfl
  have hmem : ∀ {k : ℕ} {ch : UInt8}, filled[k]? = some ch → ch ∈ filled.toList := by
    intro k ch h
    rw [Vector.mem_toList_iff]
    exact Vector.mem_of_getElem? h
  have hclass : ∀ (k : ℕ) alphabet, classes[k]? = some alphabet →
      ∃ ch ∈ alphabet, filled[k]? = some ch := by
    intro k alphabet hk
    have hlt : k < classes.length := (List.getElem?_eq_some_iff.mp hk).1
    obtain ⟨ch, hch, hplace⟩ := hseed.placed k alphabet hk (by omega)
    rw [Nat.zero_add] at hplace
    exact ⟨ch, hch, by rw [hfill.before k hlt, hplace]⟩
  refine ⟨?_, ?_, ?_⟩
  · rw [Vector.length_toList]
    omega
  · intro alphabet h
    obtain ⟨k, hk⟩ := List.getElem?_of_mem h
    obtain ⟨ch, hch, hplace⟩ := hclass k alphabet hk
    exact ⟨ch, hmem hplace, hch⟩
  · intro ch hch
    rw [Vector.mem_toList_iff] at hch
    obtain ⟨k, hk, rfl⟩ := Vector.getElem_of_mem hch
    by_cases hclasses : k < classes.length
    · have hsome : classes[k]? = some classes[k] := List.getElem?_eq_getElem hclasses
      obtain ⟨ch, hch, hplace⟩ := hclass k classes[k] hsome
      rw [Vector.getElem?_eq_getElem hk] at hplace
      rw [Option.some.inj hplace]
      exact class_subset (List.getElem_mem hclasses) hch
    · obtain ⟨ch, hch, hplace⟩ := hfill.placed k (by omega) (by omega) hk
      rw [Vector.getElem?_eq_getElem hk] at hplace
      rw [Option.some.inj hplace]
      exact hch

theorem Complies.perm {length : ℤ} {pw pw' : Bytes} (h : Complies length pw) (hperm : pw'.Perm pw) :
    Complies length pw' := by
  refine ⟨by rw [hperm.length_eq, h.length_eq], ?_, fun ch hch => h.legal ch (hperm.mem_iff.mp hch)⟩
  intro alphabet halphabet
  obtain ⟨ch, hch, hin⟩ := h.each alphabet halphabet
  exact ⟨ch, hperm.mem_iff.mpr hch, hin⟩

theorem yields_generated (length : ℤ) :
    Yields (Complies length) (generateAdminPasswordN length) := by
  unfold generateAdminPasswordN
  by_cases hlength : length < 4
  · rw [if_pos hlength]
    exact .throw _
  · rw [if_neg hlength]
    refine (yields_seed classes 0 _).bind fun seeded hseed => ?_
    refine (yields_fill _ _ seeded).bind fun filled hfill => ?_
    refine (yields_shuffle _ filled).bind fun out hperm => .ret ?_
    exact (complies_of_filled (by omega) hseed hfill).perm hperm

/-! ### Something is returned -/

theorem sure_randomIndex {m : ℕ} (hm : 0 < m) : Draws.Sure (randomIndex m) := by
  unfold randomIndex
  rw [if_neg (by omega)]
  exact ⟨hm, fun v => trivial⟩

theorem sure_randomByteFrom {alphabet : Bytes} (h : alphabet ≠ []) :
    Draws.Sure (randomByteFrom alphabet) :=
  (sure_randomIndex (List.length_pos_iff.mpr h)).bind fun _ => trivial

theorem sure_seed {alphabets : List Bytes} (h : ∀ alphabet ∈ alphabets, alphabet ≠ []) (i : ℕ)
    (out : Vector UInt8 n) : Draws.Sure (seed i alphabets out) := by
  induction alphabets generalizing i out with
  | nil => trivial
  | cons alphabet rest ih =>
      unfold seed
      refine (sure_randomByteFrom (h alphabet List.mem_cons_self)).bind fun ch => ?_
      exact ih (fun a ha => h a (List.mem_cons_of_mem alphabet ha)) _ _

theorem sure_fill (left i : ℕ) (out : Vector UInt8 n) : Draws.Sure (fill i left out) := by
  induction left generalizing i out with
  | zero => trivial
  | succ left ih =>
      unfold fill
      exact (sure_randomByteFrom (by decide)).bind fun ch => ih _ _

theorem sure_shuffle (i : ℕ) (out : Vector UInt8 n) : Draws.Sure (shuffle i out) := by
  induction i generalizing out with
  | zero => trivial
  | succ i ih =>
      unfold shuffle
      exact (sure_randomIndex (by omega)).bind fun j => ih _

theorem sure_generated {length : ℤ} (h : 4 ≤ length) :
    Draws.Sure (generateAdminPasswordN length) := by
  unfold generateAdminPasswordN
  rw [if_neg (by omega)]
  refine (sure_seed (by decide) 0 _).bind fun seeded => ?_
  refine (sure_fill _ _ seeded).bind fun filled => ?_
  exact (sure_shuffle _ filled).bind fun out => trivial

/-- **Passwords are complex.**  Whatever the draws answer, a password that is returned has
the length that was asked for, a byte of each class, and no byte outside the classes; and
from a length of four on one is returned, unless a draw fails. -/
theorem generated_complies (length : ℤ) :
    Yields (Complies length) (generateAdminPasswordN length) ∧
      (4 ≤ length → Draws.Sure (generateAdminPasswordN length)) :=
  ⟨yields_generated length, sure_generated⟩

theorem generated_complies_default :
    Yields (Complies 20) generateAdminPassword ∧ Draws.Sure generateAdminPassword :=
  ⟨(generated_complies 20).1, (generated_complies 20).2 (by decide)⟩

/-! ### The shuffle is fair -/

theorem chance_randomIndex [DecidableEq β] {m : ℕ} (hm : 0 < m) (f : Fin m → RandM β) (b : β) :
    Draws.chance (randomIndex m >>= f) b = (∑ v : Fin m, Draws.chance (f v) b) / m := by
  unfold randomIndex
  rw [if_neg (by omega)]
  exact Draws.chance_call m _ b

/-- The bytes up to `i` are still to be arranged. -/
theorem chance_shuffleFrom {i : ℕ} (hi : i < n) (out w : Vector UInt8 n) :
    Draws.chance (shuffle i out) w =
      ((Shuffle.rearrangements i out w).card : ℚ) / ((i + 1).factorial : ℚ) := by
  induction i generalizing out with
  | zero =>
      rw [Shuffle.card_rearrangements_zero, shuffle, pure_eq, Draws.chance_ret]
      by_cases h : out = w
      · simp [h]
      · simp [h]
  | succ i ih =>
      unfold shuffle
      rw [chance_randomIndex (by omega), Shuffle.rearrangements_succ hi, Nat.factorial_succ (i + 1)]
      have hstep : ∀ j : Fin (i + 2), Draws.chance (shuffle i (out.swapIfInBounds (i + 1) j)) w =
          ((Shuffle.rearrangements i (out.swap (i + 1) j) w).card : ℚ) /
            ((i + 1).factorial : ℚ) := by
        intro j
        rw [ih (by omega), Shuffle.swapIfInBounds_eq out hi (by omega)]
      rw [Finset.sum_congr rfl fun j _ => hstep j, ← Finset.sum_div, div_div]
      push_cast
      ring

/-- **The shuffle is fair.**  When the draws are, every arrangement of the places is made
equally often: so often are these bytes the outcome as they are an arrangement. -/
theorem chance_shuffle (out w : Vector UInt8 n) :
    Draws.chance (shuffle (n - 1) out) w =
      ((Finset.univ.filter fun σ : Equiv.Perm (Fin n) =>
        ∀ p : Fin n, w.get p = out.get (σ p)).card : ℚ) / (n.factorial : ℚ) := by
  cases n with
  | zero =>
      have h : out = w := Vector.ext fun i hi => absurd hi (by omega)
      rw [Nat.zero_sub, shuffle, pure_eq, Draws.chance_ret, if_pos h]
      simp
  | succ n =>
      have hall : Shuffle.rearrangements n out w = Finset.univ.filter fun σ : Equiv.Perm (Fin (n + 1)) =>
          ∀ p : Fin (n + 1), w.get p = out.get (σ p) := by
        ext σ
        rw [Shuffle.mem_rearrangements, Finset.mem_filter]
        constructor
        · intro h
          exact ⟨Finset.mem_univ σ, h.2⟩
        · intro h
          exact ⟨fun p hp => absurd p.isLt (by omega), h.2⟩
      rw [Nat.add_sub_cancel, chance_shuffleFrom (Nat.lt_succ_self n), hall]

/-! ### What may come out -/

theorem possible_randomIndex {m : ℕ} (v : Fin m) : Draws.Possible (randomIndex m) v := by
  unfold randomIndex
  rw [if_neg (by have := v.pos; omega)]
  exact ⟨v, rfl⟩

theorem possible_randomByteFrom {alphabet : Bytes} {ch : UInt8} (h : ch ∈ alphabet) :
    Draws.Possible (randomByteFrom alphabet) ch := by
  obtain ⟨v, rfl⟩ := List.get_of_mem h
  exact (possible_randomIndex v).bind rfl

/-- The places before `i` hold what they are to hold. -/
def Upto (i : ℕ) (t out : Vector UInt8 n) : Prop := ∀ k < i, out[k]? = t[k]?

theorem upto_set {i : ℕ} {t out : Vector UInt8 n} {ch : UInt8} (h : Upto i t out)
    (hch : t[i]? = some ch) : Upto (i + 1) t (out.setIfInBounds i ch) := by
  have hi : i < n := (Vector.getElem?_eq_some_iff.mp hch).1
  intro k hk
  by_cases hki : k = i
  · rw [hki, Vector.getElem?_setIfInBounds, if_pos rfl, if_pos hi, hch]
  · rw [Vector.getElem?_setIfInBounds, if_neg (Ne.symm hki), h k (by omega)]

theorem possible_seed {t : Vector UInt8 n} (alphabets : List Bytes) {i : ℕ} {out : Vector UInt8 n}
    (hup : Upto i t out)
    (ht : ∀ (k : ℕ) alphabet, alphabets[k]? = some alphabet → ∃ ch ∈ alphabet, t[i + k]? = some ch) :
    ∃ out', Draws.Possible (seed i alphabets out) out' ∧ Upto (i + alphabets.length) t out' := by
  induction alphabets generalizing i out with
  | nil => exact ⟨out, rfl, hup⟩
  | cons alphabet rest ih =>
      obtain ⟨ch, hch, hplace⟩ := ht 0 alphabet rfl
      obtain ⟨out', hout', hup'⟩ := ih (upto_set hup hplace) (by
        intro k alphabet' hk
        rw [Nat.add_right_comm, Nat.add_assoc]
        exact ht (k + 1) alphabet' hk)
      refine ⟨out', (possible_randomByteFrom hch).bind hout', ?_⟩
      rwa [List.length_cons, ← Nat.add_assoc, Nat.add_right_comm]

theorem possible_fill {t : Vector UInt8 n} (left : ℕ) {i : ℕ} {out : Vector UInt8 n}
    (hup : Upto i t out)
    (ht : ∀ k, i ≤ k → k < i + left → ∃ ch ∈ allAlphabets, t[k]? = some ch) :
    ∃ out', Draws.Possible (fill i left out) out' ∧ Upto (i + left) t out' := by
  induction left generalizing i out with
  | zero => exact ⟨out, rfl, hup⟩
  | succ left ih =>
      obtain ⟨ch, hch, hplace⟩ := ht i (le_refl i) (by omega)
      obtain ⟨out', hout', hup'⟩ := ih (upto_set hup hplace) fun k hle hlt =>
        ht k (by omega) (by omega)
      refine ⟨out', (possible_randomByteFrom hch).bind hout', ?_⟩
      rwa [Nat.add_right_comm, Nat.add_assoc] at hup'

theorem possible_shuffle {i : ℕ} (hi : i < n) {w out : Vector UInt8 n}
    (hperm : w.toList.Perm out.toList) (hlater : ∀ p : Fin n, i < p → w.get p = out.get p) :
    Draws.Possible (shuffle i out) w := by
  induction i generalizing out with
  | zero =>
      have hfirst := Shuffle.take_perm hperm hlater
      have hmem := hfirst.mem_iff.mp (Shuffle.get_mem_take hi)
      refine Vector.ext fun k hk => ?_
      by_cases hzero : k = 0
      · rw [List.mem_take_iff_getElem] at hmem
        obtain ⟨j, hj, heq⟩ := hmem
        obtain rfl : j = 0 := by omega
        rw [Vector.getElem_toList] at heq
        subst hzero
        exact heq
      · exact (hlater ⟨k, hk⟩ (Nat.pos_of_ne_zero hzero)).symm
  | succ i ih =>
      -- the byte that is to stand last is among those not yet in place
      have hmem := (Shuffle.take_perm hperm hlater).mem_iff.mp (Shuffle.get_mem_take hi)
      rw [List.mem_take_iff_getElem] at hmem
      obtain ⟨j, hj, heq⟩ := hmem
      have hj' : j < i + 2 := by omega
      have hjn : j < n := by omega
      rw [Vector.getElem_toList] at heq
      unfold shuffle
      refine (possible_randomIndex ⟨j, hj'⟩).bind (ih (by omega) ?_ ?_)
      · exact hperm.trans (Shuffle.swapIfInBounds_perm out (i + 1) j).symm
      · intro p hp
        rw [Shuffle.swapIfInBounds_eq out hi hjn]
        have hget := Shuffle.get_swap out ⟨i + 1, hi⟩ ⟨j, hjn⟩ p
        rw [hget]
        by_cases hlast : p = ⟨i + 1, hi⟩
        · rw [hlast, Equiv.swap_apply_left]
          exact heq.symm
        · have hlate : i + 1 < (p : ℕ) := by
            have hne : (p : ℕ) ≠ i + 1 := fun h => hlast (Fin.ext h)
            omega
          have hpj : p ≠ ⟨j, hjn⟩ := fun h => by
            simp only [h] at hlate
            omega
          rw [Equiv.swap_apply_of_ne_of_ne hlast hpj]
          exact hlater p hlate

/-- Bytes that meet each class can be put so that the classes come first, in turn. -/
theorem exists_seeded {alphabets : List Bytes} (hdisjoint : alphabets.Pairwise List.Disjoint)
    {pw : Bytes} (heach : ∀ alphabet ∈ alphabets, ∃ ch ∈ pw, ch ∈ alphabet) :
    ∃ t, pw.Perm t ∧
      ∀ (k : ℕ) alphabet, alphabets[k]? = some alphabet → ∃ ch ∈ alphabet, t[k]? = some ch := by
  induction alphabets generalizing pw with
  | nil => exact ⟨pw, List.Perm.refl pw, fun k alphabet hk => by simp at hk⟩
  | cons alphabet rest ih =>
      rw [List.pairwise_cons] at hdisjoint
      obtain ⟨ch, hch, hin⟩ := heach alphabet List.mem_cons_self
      have hothers : ∀ alphabet' ∈ rest, ∃ ch' ∈ pw.erase ch, ch' ∈ alphabet' := by
        intro alphabet' h
        obtain ⟨ch', hch', hin'⟩ := heach alphabet' (List.mem_cons_of_mem alphabet h)
        have hne : ch' ≠ ch := fun heq => hdisjoint.1 alphabet' h (heq ▸ hin) hin'
        exact ⟨ch', (List.mem_erase_of_ne hne).mpr hch', hin'⟩
      obtain ⟨t, hperm, hplaced⟩ := ih hdisjoint.2 hothers
      refine ⟨ch :: t, (List.perm_cons_erase hch).trans (hperm.cons ch), ?_⟩
      intro k alphabet' hk
      cases k with
      | zero =>
          obtain rfl : alphabet = alphabet' := by simpa using hk
          exact ⟨ch, hin, rfl⟩
      | succ k => exact hplaced k alphabet' hk

theorem classes_disjoint : classes.Pairwise List.Disjoint := by
  have hnone : classes.Pairwise fun a b => (a.all fun ch => !(b.contains ch)) = true := by
    decide +kernel
  refine hnone.imp fun {a b} hab ch ha hb => ?_
  have hch := List.all_eq_true.mp hab ch ha
  simp [hb] at hch

/-- The bytes in their first order come out of the first two loops. -/
theorem possible_filled {t : Vector UInt8 n} (hn : 4 ≤ n)
    (hplaced : ∀ (k : ℕ) alphabet, classes[k]? = some alphabet →
      ∃ ch ∈ alphabet, t[k]? = some ch)
    (hlegal : ∀ ch ∈ t.toList, ch ∈ allAlphabets) (out : Vector UInt8 n) :
    ∃ seeded, Draws.Possible (seed 0 classes out) seeded ∧
      Draws.Possible (fill classes.length (n - classes.length) seeded) t := by
  have hfour : classes.length = 4 := rfl
  have hnone : Upto 0 t out := fun k hk => absurd hk (Nat.not_lt_zero k)
  obtain ⟨seeded, hseed, hup⟩ := possible_seed classes hnone (by
    intro k alphabet hk
    rw [Nat.zero_add]
    exact hplaced k alphabet hk)
  rw [Nat.zero_add] at hup
  obtain ⟨filled, hfill, hall⟩ := possible_fill (n - classes.length) hup (by
    intro k _ hlt
    have hk : k < n := by omega
    refine ⟨t[k], hlegal _ ?_, Vector.getElem?_eq_getElem hk⟩
    rw [Vector.mem_toList_iff]
    exact Vector.getElem_mem hk)
  have heq : filled = t := by
    refine Vector.ext fun k hk => ?_
    have hplace := hall k (by omega)
    rw [Vector.getElem?_eq_getElem hk, Vector.getElem?_eq_getElem hk] at hplace
    exact Option.some.inj hplace
  rw [heq] at hfill
  exact ⟨seeded, hseed, hfill⟩

/-- **Every complying password may come out, and no other.** -/
theorem chance_generated_pos (length : ℤ) (pw : Bytes) :
    0 < Draws.chance (generateAdminPasswordN length) pw ↔ Complies length pw := by
  rw [Draws.chance_pos_iff]
  constructor
  · intro h
    exact h.yields (yields_generated length)
  · intro h
    obtain ⟨first, hperm, hplaced⟩ := exists_seeded classes_disjoint h.each
    have hlength : pw.length = length.toNat := by
      rw [← h.length_eq]
      rfl
    have hfour : 4 ≤ length.toNat := by
      obtain ⟨ch, _, hch⟩ := hplaced 3 symbols rfl
      have hlt := (List.getElem?_eq_some_iff.mp hch).1
      rw [← hperm.length_eq, hlength] at hlt
      omega
    obtain ⟨t, rfl⟩ : ∃ t : Vector UInt8 length.toNat, t.toList = first :=
      ⟨⟨first.toArray, by rw [List.size_toArray, ← hperm.length_eq, hlength]⟩, rfl⟩
    obtain ⟨w, rfl⟩ : ∃ w : Vector UInt8 length.toNat, w.toList = pw :=
      ⟨⟨pw.toArray, by rw [List.size_toArray, hlength]⟩, rfl⟩
    obtain ⟨seeded, hseed, hfill⟩ := possible_filled hfour
      (fun k alphabet hk => by simpa using hplaced k alphabet hk)
      (fun ch hch => h.legal ch (hperm.mem_iff.mpr hch)) (Vector.replicate length.toNat 0)
    unfold generateAdminPasswordN
    rw [if_neg (by omega)]
    refine hseed.bind (hfill.bind (Draws.Possible.bind (a := w) ?_ rfl))
    refine possible_shuffle (by omega) hperm fun p hp => ?_
    exact absurd p.isLt (by omega)

end VMSmith.AdminPassword
