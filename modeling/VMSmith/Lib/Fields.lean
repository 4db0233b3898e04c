/-
`strings.Fields`, of a byte string.

White space is a property of characters, so the bytes are decoded as they are split.  An
ASCII byte belongs to no longer character, which makes it a place where the decoding starts
over: what stands before it and what comes after can be split on their own.
-/
import VMSmith.Lib.Bytes
import VMSmith.Lib.GoStrings

namespace Go

/-- Each byte with whether it belongs to a white-space character; `skip` bytes of a character
that is `blank` or not are still to come. -/
def markBlanks : Nat → Bool → Bytes → List (UInt8 × Bool)
  | _, _, [] => []
  | skip + 1, blank, b :: rest => (b, blank) :: markBlanks skip blank rest
  | 0, _, b :: rest =>
      let (c, width) := decodeRune b rest
      (b, isSpace c) :: markBlanks (width - 1) (isSpace c) rest

/-- The bytes between the white space. -/
def fields (s : Bytes) : List Bytes :=
  (((markBlanks 0 false s).splitOnP Prod.snd).map (List.map Prod.fst)).filter (· ≠ [])

/-- Whether an ASCII byte is white space. -/
def blankByte (b : UInt8) : Bool := isSpace (Char.ofNat b.toNat)

/-! ### Decoding up to an ASCII byte -/

theorem decodeRune_ascii {a : UInt8} (ha : a < 0x80) (rest : Bytes) :
    decodeRune a rest = (Char.ofNat a.toNat, 1) := by
  have hlength : runeLength a = 1 := if_pos ha
  unfold decodeRune
  rw [hlength]
  rfl

theorem secondByte_ascii {a : UInt8} (ha : a < 0x80) (first : UInt8) : secondByte first a = false := by
  have hlow : ∀ {lo hi : UInt8}, 0x80 ≤ lo → (decide (lo ≤ a) && decide (a ≤ hi)) = false := by
    intro lo hi hlo
    have hnot : ¬ lo ≤ a := by
      rw [UInt8.lt_iff_toNat_lt] at ha
      rw [UInt8.le_iff_toNat_le] at hlo ⊢
      omega
    simp [hnot]
  unfold secondByte
  split_ifs <;> exact hlow (by decide)

/-- An ASCII byte ends what is decoded before it. -/
theorem decodeRune_append_ascii {a : UInt8} (ha : a < 0x80) (b : UInt8) (x y : Bytes) :
    decodeRune b (x ++ a :: y) = decodeRune b x ∧ (decodeRune b x).2 - 1 ≤ x.length := by
  have hsecond := secondByte_ascii ha
  unfold decodeRune
  generalize runeLength b = n
  rcases x with _ | ⟨b₁, _ | ⟨b₂, _ | ⟨b₃, x⟩⟩⟩ <;>
    rcases y with _ | ⟨c₁, _ | ⟨c₂, y⟩⟩ <;>
    match n with
    | 0 => simp
    | 1 => simp
    | 2 => simp [hsecond]; try split <;> simp
    | 3 => simp [hsecond]; try split <;> simp
    | 4 => simp [hsecond]; try split <;> simp
    | n + 5 => simp

theorem markBlanks_zero (blank : Bool) (s : Bytes) : markBlanks 0 blank s = markBlanks 0 false s := by
  cases s <;> rfl

theorem markBlanks_cons_ascii {a : UInt8} (ha : a < 0x80) (blank : Bool) (y : Bytes) :
    markBlanks 0 blank (a :: y) = (a, blankByte a) :: markBlanks 0 false y := by
  rw [markBlanks, decodeRune_ascii ha]
  dsimp only
  rw [Nat.sub_self, markBlanks_zero]
  rfl

theorem markBlanks_append_ascii {a : UInt8} (ha : a < 0x80) (y : Bytes) : ∀ (x : Bytes) (skip : Nat)
    (blank : Bool), skip ≤ x.length →
      markBlanks skip blank (x ++ a :: y) =
        markBlanks skip blank x ++ (a, blankByte a) :: markBlanks 0 false y := by
  intro x
  induction x with
  | nil =>
      intro skip blank hskip
      obtain rfl : skip = 0 := Nat.le_zero.mp hskip
      exact markBlanks_cons_ascii ha blank y
  | cons b x ih =>
      intro skip blank hskip
      cases skip with
      | succ skip =>
          rw [List.cons_append, markBlanks, markBlanks, ih skip blank (Nat.le_of_succ_le_succ hskip)]
          rfl
      | zero =>
          obtain ⟨hdecode, hwidth⟩ := decodeRune_append_ascii ha b x y
          rw [List.cons_append, markBlanks, markBlanks, hdecode]
          dsimp only
          rw [ih _ _ hwidth]
          rfl

/-- The marks are of the bytes themselves. -/
theorem markBlanks_fst : ∀ (s : Bytes) (skip : Nat) (blank : Bool),
    (markBlanks skip blank s).map Prod.fst = s := by
  intro s
  induction s with
  | nil => intro skip blank; simp [markBlanks]
  | cons b s ih =>
      intro skip blank
      cases skip with
      | succ skip => rw [markBlanks, List.map_cons, ih]
      | zero =>
          rw [markBlanks]
          dsimp only
          rw [List.map_cons, ih]

/-! ### Fields -/

@[simp] theorem fields_nil : fields [] = [] := rfl

/-- A space separates. -/
theorem fields_append_space (x y : Bytes) : fields (x ++ 0x20 :: y) = fields x ++ fields y := by
  have hblank : Prod.snd ((0x20 : UInt8), blankByte 0x20) = true := by decide
  unfold fields
  rw [markBlanks_append_ascii (by decide) y x 0 false (Nat.zero_le _),
    List.splitOnP_append_cons _ _ hblank, List.map_append, List.filter_append]

/-- What spaces have joined is split between them. -/
theorem fields_intercalate (xs : List Bytes) :
    fields ([0x20].intercalate xs) = xs.flatMap fields := by
  induction xs with
  | nil => rfl
  | cons x xs ih =>
      cases xs with
      | nil => simp
      | cons y xs =>
          rw [List.intercalate_cons_cons, List.append_assoc, List.singleton_append,
            fields_append_space, ih]
          rfl

/-- A text without white space is one field. -/
theorem fields_eq_singleton {s : Bytes} (hne : s ≠ []) (h : ∀ p ∈ markBlanks 0 false s, p.2 = false) :
    fields s = [s] := by
  unfold fields
  rw [List.splitOnP_eq_singleton h, List.map_singleton, markBlanks_fst, List.filter_singleton]
  simp [hne]

/-! ### What is split -/

section

variable {α β : Type*}

/-- A piece is part of the list, and nothing in it splits. -/
theorem mem_splitOnP {p : α → Bool} {l piece : List α} (h : piece ∈ l.splitOnP p) :
    piece.Sublist l ∧ ∀ x ∈ piece, p x = false := by
  induction l generalizing piece with
  | nil =>
      rw [List.splitOnP_nil, List.mem_singleton] at h
      rw [h]
      exact ⟨List.Sublist.refl _, by simp⟩
  | cons a l ih =>
      rw [List.splitOnP_cons_eq_if_modifyHead] at h
      by_cases ha : p a = true
      · rw [if_pos ha] at h
        rcases List.mem_cons.mp h with h | h
        · rw [h]
          exact ⟨List.nil_sublist _, by simp⟩
        · exact ⟨(ih h).1.cons _, (ih h).2⟩
      · rw [if_neg ha] at h
        cases hl : l.splitOnP p with
        | nil => exact absurd hl (List.splitOnP_ne_nil _ _)
        | cons first rest =>
            rw [hl] at h ih
            rcases List.mem_cons.mp h with h | h
            · obtain ⟨hsub, hnone⟩ := ih List.mem_cons_self
              rw [h]
              refine ⟨hsub.cons_cons _, fun x hx => ?_⟩
              rcases List.mem_cons.mp hx with hx | hx
              · rw [hx]
                exact Bool.not_eq_true _ ▸ ha
              · exact hnone x hx
            · obtain ⟨hsub, hnone⟩ := ih (List.mem_cons_of_mem _ h)
              exact ⟨hsub.cons _, hnone⟩

/-- Where every element is written out as several, of which none splits, or as one that does,
the pieces are written out. -/
theorem splitOnP_flatMap {p : α → Bool} {q : β → Bool} {g : α → List β}
    (hsplit : ∀ a, p a = true → ∃ b, g a = [b] ∧ q b = true)
    (hkeep : ∀ a, p a = false → ∀ b ∈ g a, q b = false) (l : List α) :
    (l.flatMap g).splitOnP q = (l.splitOnP p).map (List.flatMap g) := by
  have hprepend : ∀ (x : List β) (y : List β), (∀ b ∈ x, q b = false) →
      (x ++ y).splitOnP q = (y.splitOnP q).modifyHead (x ++ ·) := by
    intro x
    induction x with
    | nil =>
        intro y _
        rw [List.nil_append]
        cases y.splitOnP q <;> rfl
    | cons b x ih =>
        intro y hx
        rw [List.cons_append, List.splitOnP_cons_eq_if_modifyHead,
          if_neg (by rw [hx b (by simp)]; exact Bool.false_ne_true),
          ih y (fun c hc => hx c (by simp [hc]))]
        cases y.splitOnP q <;> rfl
  induction l with
  | nil => rfl
  | cons a l ih =>
      rw [List.flatMap_cons, List.splitOnP_cons_eq_if_modifyHead]
      cases ha : p a with
      | true =>
          obtain ⟨b, hb, hq⟩ := hsplit a ha
          rw [hb, if_pos rfl, List.singleton_append, List.splitOnP_cons_eq_if_modifyHead, if_pos hq, ih]
          rfl
      | false =>
          rw [if_neg Bool.false_ne_true, hprepend _ _ (hkeep a ha), ih]
          cases l.splitOnP p <;> simp

end

end Go
