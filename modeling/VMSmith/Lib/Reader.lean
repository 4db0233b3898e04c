/-
Reading a stream that may not be all there yet: `bufio.Reader`.

What has been sent is a byte string, and either more may follow it or it has come to an end.
A read that lacks bytes waits in the first case and fails in the second.  A character is read
as soon as it is whole, or can no longer become whole, so what a run of characters reads up
to an ASCII byte does not depend on what follows that byte.
-/
import VMSmith.Lib.Runes

namespace Go

/-- What a read comes to. -/
inductive Outcome (ε α : Type) where
  /-- What was read, and what is left of the stream. -/
  | value (a : α) (rest : Bytes)
  | error (e : ε)
  /-- More has to be sent first. -/
  | waiting
  /-- An index was out of range. -/
  | panicked
  deriving DecidableEq, Repr

variable {ε : Type}

/-- What a read that lacks bytes comes to: `closed` is the error that the stream ended with,
`none` while more may follow. -/
def starved {α : Type} (closed : Option ε) : Outcome ε α :=
  match closed with
  | some e => .error e
  | none => .waiting

/-- `Reader.ReadString`: up to the first `delim`, and with it. -/
def readString (closed : Option ε) (delim : UInt8) (s : Bytes) : Outcome ε Bytes :=
  match s.dropWhile (· ≠ delim) with
  | [] => starved closed
  | d :: rest => .value (s.takeWhile (· ≠ delim) ++ [d]) rest

/-- `Reader.ReadRune`. -/
def readRune (closed : Option ε) : Bytes → Outcome ε Char
  | [] => starved closed
  | b :: rest =>
      if fullRune b rest = true ∨ closed.isSome = true then
        .value (decodeRune b rest).1 (rest.drop ((decodeRune b rest).2 - 1))
      else .waiting

/-- `n` characters, one after the other. -/
def takeRunes (closed : Option ε) : Nat → Bytes → Outcome ε (List Char)
  | 0, s => .value [] s
  | n + 1, s =>
      match readRune closed s with
      | .value c s =>
          match takeRunes closed n s with
          | .value cs s => .value (c :: cs) s
          | .error e => .error e
          | .waiting => .waiting
          | .panicked => .panicked
      | .error e => .error e
      | .waiting => .waiting
      | .panicked => .panicked

/-- A read, with the lengths of the slices that were made for it. -/
structure Reading (ε α : Type) where
  made : List Nat
  outcome : Outcome ε α
  deriving DecidableEq, Repr

namespace Reading

variable {α β : Type}

/-- A read that makes no slice. -/
def plain (o : Outcome ε α) : Reading ε α := ⟨[], o⟩

/-- Reads on, unless a read came to nothing. -/
def andThen (r : Reading ε α) (f : α → Bytes → Reading ε β) : Reading ε β :=
  match r.outcome with
  | .value a rest => ⟨r.made ++ (f a rest).made, (f a rest).outcome⟩
  | .error e => ⟨r.made, .error e⟩
  | .waiting => ⟨r.made, .waiting⟩
  | .panicked => ⟨r.made, .panicked⟩

@[simp] theorem plain_made (o : Outcome ε α) : (plain o).made = [] := rfl

@[simp] theorem plain_outcome (o : Outcome ε α) : (plain o).outcome = o := rfl

theorem andThen_value {r : Reading ε α} {f : α → Bytes → Reading ε β} {a : α} {rest : Bytes}
    (h : r.outcome = .value a rest) :
    r.andThen f = ⟨r.made ++ (f a rest).made, (f a rest).outcome⟩ := by
  rw [andThen, h]

theorem andThen_value_iff {r : Reading ε α} {f : α → Bytes → Reading ε β} {b : β} {t : Bytes} :
    (r.andThen f).outcome = .value b t ↔
      ∃ a rest, r.outcome = .value a rest ∧ (f a rest).outcome = .value b t := by
  unfold andThen
  cases r.outcome <;> simp

/-- What is made is made by the first read or by the second. -/
theorem mem_made_andThen {r : Reading ε α} {f : α → Bytes → Reading ε β} {n : Nat} :
    n ∈ (r.andThen f).made ↔
      n ∈ r.made ∨ ∃ a rest, r.outcome = .value a rest ∧ n ∈ (f a rest).made := by
  unfold andThen
  cases r.outcome <;> simp

/-- Reading on without a slice makes none. -/
theorem made_andThen {r : Reading ε α} {f : α → Bytes → Reading ε β}
    (hf : ∀ a rest, (f a rest).made = []) : (r.andThen f).made = r.made := by
  unfold andThen
  cases r.outcome with
  | value a rest =>
      dsimp only
      rw [hf, List.append_nil]
  | error e => rfl
  | waiting => rfl
  | panicked => rfl

end Reading

/-! ### Up to a delimiter -/

theorem takeWhile_dropWhile_delim {d : UInt8} {x : Bytes} (hx : d ∉ x) (rest : Bytes) :
    (x ++ d :: rest).takeWhile (· ≠ d) = x ∧ (x ++ d :: rest).dropWhile (· ≠ d) = d :: rest := by
  have hall : ∀ b ∈ x, decide (b ≠ d) = true := by
    intro b hb
    rw [decide_eq_true_iff]
    rintro rfl
    exact hx hb
  rw [List.takeWhile_append_of_pos hall, List.dropWhile_append_of_pos hall,
    List.takeWhile_cons_of_neg (by simp), List.dropWhile_cons_of_neg (by simp), List.append_nil]
  exact ⟨rfl, rfl⟩

/-- A delimited text is read whenever its delimiter is there. -/
theorem readString_append (closed : Option ε) {d : UInt8} {x : Bytes} (hx : d ∉ x) (rest : Bytes) :
    readString closed d (x ++ d :: rest) = .value (x ++ [d]) rest := by
  obtain ⟨htake, hdrop⟩ := takeWhile_dropWhile_delim hx rest
  unfold readString
  rw [hdrop, htake]

theorem readString_ne_panicked (closed : Option ε) (d : UInt8) (s : Bytes) :
    readString closed d s ≠ .panicked := by
  unfold readString
  cases s.dropWhile (· ≠ d) with
  | nil => cases closed <;> exact fun h => by cases h
  | cons b rest => exact fun h => by cases h

/-- What is read is a text without the delimiter, and the delimiter. -/
theorem of_readString {closed : Option ε} {d : UInt8} {s line rest : Bytes}
    (h : readString closed d s = .value line rest) :
    ∃ x, d ∉ x ∧ line = x ++ [d] ∧ s = x ++ d :: rest := by
  unfold readString at h
  have hsplit := List.takeWhile_append_dropWhile (p := fun b => decide (b ≠ d)) (l := s)
  cases hdrop : s.dropWhile (· ≠ d) with
  | nil =>
      rw [hdrop] at h
      cases closed <;> cases h
  | cons b tail =>
      rw [hdrop] at h hsplit
      have hb : b = d := by
        have hhead := List.head?_dropWhile_not (fun b => decide (b ≠ d)) s
        rw [hdrop] at hhead
        simpa using hhead
      cases h
      subst hb
      refine ⟨s.takeWhile (· ≠ b), fun hmem => ?_, rfl, hsplit.symm⟩
      have hne := List.mem_takeWhile_imp hmem
      simp at hne

/-! ### Characters up to an ASCII byte -/

/-- A character is read if an ASCII byte follows. -/
theorem readRune_append_ascii {a : UInt8} (ha : a < 0x80) (closed : Option ε) (b : UInt8)
    (x rest : Bytes) :
    readRune closed (b :: x ++ a :: rest) =
      .value (decodeRune b x).1 (x.drop ((decodeRune b x).2 - 1) ++ a :: rest) := by
  obtain ⟨hdecode, hwidth⟩ := decodeRune_append_ascii ha b x rest
  rw [List.cons_append, readRune, if_pos (Or.inl (fullRune_append_ascii ha b x rest)), hdecode,
    List.drop_append_of_le_length hwidth]

/-- And so is the ASCII byte. -/
theorem readRune_ascii {a : UInt8} (ha : a < 0x80) (closed : Option ε) (rest : Bytes) :
    readRune closed (a :: rest) = .value (Char.ofNat a.toNat) rest := by
  have hfull : fullRune a rest = true := by
    have hlength : runeLength a = 1 := if_pos ha
    unfold fullRune
    rw [hlength, if_pos (Nat.le_add_left 1 _)]
  rw [readRune, if_pos (Or.inl hfull), decodeRune_ascii ha]
  rfl

/-- What a character that was read leaves is the end of what there was. -/
theorem of_readRune {closed : Option ε} {s rest : Bytes} {c : Char}
    (h : readRune closed s = .value c rest) :
    ∃ b x, s = b :: x ∧ c = (decodeRune b x).1 ∧ rest = x.drop ((decodeRune b x).2 - 1) := by
  cases s with
  | nil => cases closed <;> cases h
  | cons b x =>
      rw [readRune] at h
      by_cases hready : fullRune b x = true ∨ closed.isSome = true
      · rw [if_pos hready] at h
        cases h
        exact ⟨b, x, rfl, rfl, rfl⟩
      · rw [if_neg hready] at h
        cases h

/-- An ASCII character is read off the byte it is. -/
theorem of_readRune_ascii {a : UInt8} (ha : a < 0x80) {closed : Option ε} {s rest : Bytes}
    (h : readRune closed s = .value (Char.ofNat a.toNat) rest) : s = a :: rest := by
  obtain ⟨b, x, rfl, hc, hrest⟩ := of_readRune h
  have hb : b = a := of_decodeRune_ascii ha hc.symm
  subst hb
  rw [hrest, decodeRune_ascii ha]
  rfl

/-- As many characters as some bytes hold are read off these bytes. -/
theorem takeRunes_append_ascii {a : UInt8} (ha : a < 0x80) (closed : Option ε) (rest : Bytes) :
    ∀ (n : Nat) (body : Bytes), (runes body).length = n →
      takeRunes closed n (body ++ a :: rest) = .value (runes body) (a :: rest) := by
  intro n
  induction n with
  | zero =>
      intro body hn
      cases body with
      | nil => rfl
      | cons b x =>
          rw [runes_cons] at hn
          cases hn
  | succ n ih =>
      intro body hn
      cases body with
      | nil => cases hn
      | cons b x =>
          rw [runes_cons, List.length_cons] at hn
          rw [takeRunes, readRune_append_ascii ha]
          dsimp only
          rw [ih _ (Nat.succ.inj hn), runes_cons]

/-- And an ASCII byte that they stop before shows which bytes these were. -/
theorem of_takeRunes {a : UInt8} (ha : a < 0x80) {closed : Option ε} {rest : Bytes} :
    ∀ {n : Nat} {s : Bytes} {cs : List Char}, takeRunes closed n s = .value cs (a :: rest) →
      ∃ body, s = body ++ a :: rest ∧ runes body = cs ∧ cs.length = n := by
  intro n
  induction n with
  | zero =>
      intro s cs h
      cases h
      exact ⟨[], rfl, rfl, rfl⟩
  | succ n ih =>
      intro s cs h
      unfold takeRunes at h
      cases hread : readRune closed s with
      | error e => rw [hread] at h; cases h
      | waiting => rw [hread] at h; cases h
      | panicked => rw [hread] at h; cases h
      | value c s' =>
          rw [hread] at h
          dsimp only at h
          obtain ⟨b, x, hs, hc, hs'⟩ := of_readRune hread
          cases htake : takeRunes closed n s' with
          | error e => rw [htake] at h; cases h
          | waiting => rw [htake] at h; cases h
          | panicked => rw [htake] at h; cases h
          | value cs' t =>
              rw [htake] at h
              cases h
              obtain ⟨body, hbody, hrunes, hlength⟩ := ih htake
              -- the bytes of the first character, and those of the others
              set w := (decodeRune b x).2 - 1 with hw
              have hx : x = x.take w ++ body ++ a :: rest := by
                rw [List.append_assoc, ← hbody, hs', List.take_append_drop]
              obtain ⟨hdecode, -⟩ := decodeRune_append_ascii ha b (x.take w ++ body) rest
              rw [← hx] at hdecode
              have hwidth : (x.take w).length = w := by
                have hle := (decodeRune_append_ascii ha b x []).2
                rw [List.length_take]
                omega
              refine ⟨b :: (x.take w ++ body), ?_, ?_, ?_⟩
              · rw [hs, List.cons_append, ← hx]
              · rw [runes_cons, ← hdecode, ← hw, ← hc, List.drop_left' hwidth, hrunes]
              · rw [List.length_cons, hlength]

end Go
