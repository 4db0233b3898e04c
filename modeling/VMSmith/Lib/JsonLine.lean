/-
What is written of a value without numbers stands on one line.

A string has its control characters escaped, and everything else a value is written with is
visible.
-/
import VMSmith.Lib.JsonValue

namespace Go.Json

mutual

/-- There is no number in the value. -/
def Value.numberless : Value → Bool
  | .number _ => false
  | .array items => items.numberless
  | .object members => members.numberless
  | _ => true

def Values.numberless : Values → Bool
  | .nil => true
  | .cons value rest => value.numberless && rest.numberless

def Pairs.numberless : Pairs → Bool
  | .nil => true
  | .cons _ value rest => value.numberless && rest.numberless

end

theorem hexDigit_ge {n : Nat} (h : n < 16) : 0x20 ≤ (hexDigit n).toNat := by
  unfold hexDigit
  by_cases hn : n < 10
  · rw [if_pos hn, Nat.toUInt8_eq, UInt8.toNat_ofNat']
    omega
  · rw [if_neg hn, Nat.toUInt8_eq, UInt8.toNat_ofNat']
    omega

/-- The bytes of a character that is no control character. -/
theorem utf8EncodeChar_ge {c : Char} (hc : 0x20 ≤ c.toNat) {b : UInt8}
    (hb : b ∈ String.utf8EncodeChar c) : 0x20 ≤ b.toNat := by
  have hcode : c.val.toNat = c.toNat := rfl
  have hnat : ∀ n : Nat, (UInt8.ofNat n).toNat = n % 256 := fun n => UInt8.toNat_ofNat'
  revert hb
  fun_cases String.utf8EncodeChar with
  | case1 v h =>
      intro hb
      simp only [List.mem_cons, List.not_mem_nil, or_false] at hb
      rw [hb, hnat]
      omega
  | case2 v h h' =>
      intro hb
      simp only [List.mem_cons, List.not_mem_nil, or_false] at hb
      rcases hb with hb | hb <;> rw [hb, hnat] <;> omega
  | case3 v h h' h'' =>
      intro hb
      simp only [List.mem_cons, List.not_mem_nil, or_false] at hb
      rcases hb with hb | hb | hb <;> rw [hb, hnat] <;> omega
  | case4 v h h' h'' =>
      intro hb
      simp only [List.mem_cons, List.not_mem_nil, or_false] at hb
      rcases hb with hb | hb | hb | hb <;> rw [hb, hnat] <;> omega

theorem escapeRune_ge {c : Char} {b : UInt8} (hb : b ∈ escapeRune c) : 0x20 ≤ b.toNat := by
  unfold escapeRune at hb
  cases hshort : shortEscape c with
  | some letter =>
      rw [hshort] at hb
      have hmem := shortEscape_mem hshort
      have hletter : 0x20 ≤ letter.toNat := by
        have hall : ∀ entry ∈ shortEscapes, 0x20 ≤ entry.2.toNat := by decide
        exact hall _ hmem
      simp only [List.mem_cons, List.not_mem_nil, or_false] at hb
      rcases hb with rfl | rfl
      · decide
      · exact hletter
  | none =>
      rw [hshort] at hb
      dsimp only at hb
      by_cases hcode : byCode c = true
      · rw [if_pos hcode, hex4] at hb
        simp only [List.mem_cons, List.not_mem_nil, or_false] at hb
        have hmod : ∀ n : Nat, n % 16 < 16 := fun n => Nat.mod_lt _ (by decide)
        rcases hb with rfl | rfl | rfl | rfl | rfl | rfl
        · decide
        · decide
        · exact hexDigit_ge (hmod _)
        · exact hexDigit_ge (hmod _)
        · exact hexDigit_ge (hmod _)
        · exact hexDigit_ge (hmod _)
      · rw [if_neg hcode] at hb
        refine utf8EncodeChar_ge ?_ hb
        by_contra hlt
        exact hcode (by simp [byCode, Nat.lt_of_not_le hlt])

theorem quote_ge {s : List Char} {b : UInt8} (hb : b ∈ quote s) : 0x20 ≤ b.toNat := by
  rw [quote, List.mem_append, List.mem_cons, List.mem_flatMap, List.mem_singleton] at hb
  rcases hb with (rfl | ⟨c, -, hc⟩) | rfl
  · decide
  · exact escapeRune_ge hc
  · decide

section

variable (formatNumber : Bytes → Bytes)

mutual

theorem Value.marshal_ge {v : Value} (h : v.numberless = true) {b : UInt8}
    (hb : b ∈ v.marshal formatNumber) : 0x20 ≤ b.toNat := by
  cases v with
  | null =>
      have hall : ∀ b ∈ ascii "null", 0x20 ≤ b.toNat := by decide +kernel
      exact hall b hb
  | bool value =>
      have hall : ∀ b ∈ ascii "true" ++ ascii "false", 0x20 ≤ b.toNat := by decide +kernel
      refine hall b (List.mem_append.mpr ?_)
      cases value with
      | true => exact Or.inl hb
      | false => exact Or.inr hb
  | number text => cases h
  | string s => exact quote_ge hb
  | array items =>
      rw [Value.marshal, List.mem_append, List.mem_cons, List.mem_singleton] at hb
      rcases hb with (rfl | hb) | rfl
      · decide
      · exact Values.marshal_ge h hb
      · decide
  | object members =>
      rw [Value.marshal, List.mem_append, List.mem_cons, List.mem_singleton] at hb
      rcases hb with (rfl | hb) | rfl
      · decide
      · exact Pairs.marshal_ge h hb
      · decide

theorem Values.marshal_ge {vs : Values} (h : vs.numberless = true) {b : UInt8}
    (hb : b ∈ vs.marshal formatNumber) : 0x20 ≤ b.toNat := by
  cases vs with
  | nil => cases hb
  | cons value rest =>
      rw [Values.numberless, Bool.and_eq_true] at h
      cases rest with
      | nil =>
          rw [Values.marshal] at hb
          exact Value.marshal_ge h.1 hb
      | cons value' rest' =>
          rw [Values.marshal, List.mem_append, List.mem_cons] at hb
          · rcases hb with hb | rfl | hb
            · exact Value.marshal_ge h.1 hb
            · decide
            · exact Values.marshal_ge h.2 hb
          · simp

theorem Pairs.marshal_ge {ms : Pairs} (h : ms.numberless = true) {b : UInt8}
    (hb : b ∈ ms.marshal formatNumber) : 0x20 ≤ b.toNat := by
  cases ms with
  | nil => cases hb
  | cons key value rest =>
      rw [Pairs.numberless, Bool.and_eq_true] at h
      cases rest with
      | nil =>
          rw [Pairs.marshal, List.mem_append, List.mem_cons] at hb
          rcases hb with hb | rfl | hb
          · exact quote_ge hb
          · decide
          · exact Value.marshal_ge h.1 hb
      | cons key' value' rest' =>
          rw [Pairs.marshal, List.append_assoc, List.mem_append, List.cons_append, List.mem_cons,
            List.mem_append, List.mem_cons] at hb
          · rcases hb with hb | rfl | hb | rfl | hb
            · exact quote_ge hb
            · decide
            · exact Value.marshal_ge h.1 hb
            · decide
            · exact Pairs.marshal_ge h.2 hb
          · simp

end

end

end Go.Json
