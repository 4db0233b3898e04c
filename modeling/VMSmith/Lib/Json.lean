/-
The JSON reader of the source language's standard library.

`parse` takes the first value off a text and keeps every byte of it, blanks and escapes
included, so that what two texts differ in can be said of their syntax.

The reader's limit of ten thousand nested values is left out: a text that reaches it is
longer than any that is read here.
-/
import VMSmith.Lib.Bytes

namespace Go.Json

open Go

/-! ### Tokens -/

/-- A blank of the grammar. -/
def isBlank (b : UInt8) : Bool := b = 0x20 || b = 0x09 || b = 0x0A || b = 0x0D

def isDigit (b : UInt8) : Bool := 0x30 ≤ b && b ≤ 0x39

/-- The value of a hexadecimal digit. -/
def unhex (b : UInt8) : Option Nat :=
  if isDigit b then some (b.toNat - 0x30)
  else if 0x61 ≤ b && b ≤ 0x66 then some (b.toNat - 0x61 + 10)
  else if 0x41 ≤ b && b ≤ 0x46 then some (b.toNat - 0x41 + 10)
  else none

/-- Where the scanner is inside a string: between characters, behind a backslash, or with
`n + 1` hexadecimal digits to come. -/
inductive InString
  | plain
  | escape
  | hex (n : Nat)

/-- One more byte in front of what has been scanned. -/
def keep (b : UInt8) (scanned : Option (Bytes × Bytes)) : Option (Bytes × Bytes) :=
  scanned.map fun (text, rest) => (b :: text, rest)

/-- The text up to the closing quote, and what follows it. -/
def scanString : InString → Bytes → Option (Bytes × Bytes)
  | _, [] => none
  | .plain, b :: rest =>
      if b = 0x22 then some ([], rest)
      else if b < 0x20 then none
      else keep b (scanString (if b = 0x5C then .escape else .plain) rest)
  | .escape, b :: rest =>
      if b = 0x75 then keep b (scanString (.hex 3) rest)
      else if b ∈ ascii "bfnrt\\/\"" then keep b (scanString .plain rest)
      else none
  | .hex n, b :: rest =>
      if (unhex b).isSome then
        keep b (scanString (match n with | 0 => .plain | n + 1 => .hex n) rest)
      else none

/-- Where the scanner is inside a number. -/
inductive InNumber
  | sign | zero | digits | dot | fraction | e | eSign | exponent
  deriving DecidableEq

/-- Where one more byte leads, `none` when it is no part of the number. -/
def InNumber.next : InNumber → UInt8 → Option InNumber
  | .sign, b => if b = 0x30 then some .zero else if isDigit b then some .digits else none
  | .zero, b => if b = 0x2E then some .dot else if b = 0x65 || b = 0x45 then some .e else none
  | .digits, b =>
      if isDigit b then some .digits
      else if b = 0x2E then some .dot else if b = 0x65 || b = 0x45 then some .e else none
  | .dot, b => if isDigit b then some .fraction else none
  | .fraction, b =>
      if isDigit b then some .fraction else if b = 0x65 || b = 0x45 then some .e else none
  | .e, b =>
      if b = 0x2B || b = 0x2D then some .eSign else if isDigit b then some .exponent else none
  | .eSign, b => if isDigit b then some .exponent else none
  | .exponent, b => if isDigit b then some .exponent else none

/-- Whether the number may end here. -/
def InNumber.final (st : InNumber) : Bool :=
  st = .zero || st = .digits || st = .fraction || st = .exponent

/-- The rest of a number, and what follows it. -/
def scanNumber : InNumber → Bytes → Option (Bytes × Bytes)
  | st, [] => if st.final then some ([], []) else none
  | st, b :: rest =>
      match st.next b with
      | some st' => keep b (scanNumber st' rest)
      | none => if st.final then some ([], b :: rest) else none

/-- The three words of the grammar. -/
def words : List Bytes := [ascii "null", ascii "true", ascii "false"]

/-- The word at the front, and what follows it. -/
def scanWord (text : Bytes) : Option (Bytes × Bytes) :=
  (words.find? (·.isPrefixOf text)).map fun word => (word, text.drop word.length)

/-! ### Values as they are written -/

/-- A member's name as it is written: the blanks before it, what stands between its quotes
and the blanks before the colon. -/
structure Key where
  space : Bytes
  text : Bytes
  after : Bytes
  deriving DecidableEq, Repr

mutual

/-- A value as it is written, with the blanks before it. -/
inductive Syntax
  | word (space text : Bytes)
  | number (space text : Bytes)
  | string (space text : Bytes)
  | emptyArray (space inner : Bytes)
  | array (space : Bytes) (items : Items)
  | emptyObject (space inner : Bytes)
  | object (space : Bytes) (members : Members)
  deriving DecidableEq

/-- The values of an array, each with the blanks that follow it. -/
inductive Items
  | last (value : Syntax) (after : Bytes)
  | more (value : Syntax) (after : Bytes) (rest : Items)
  deriving DecidableEq

/-- The members of an object. -/
inductive Members
  | last (key : Key) (value : Syntax) (after : Bytes)
  | more (key : Key) (value : Syntax) (after : Bytes) (rest : Members)
  deriving DecidableEq

end

mutual

/-- The text a value was read from. -/
def Syntax.text : Syntax → Bytes
  | .word space text => space ++ text
  | .number space text => space ++ text
  | .string space text => space ++ 0x22 :: text ++ [0x22]
  | .emptyArray space inner => space ++ 0x5B :: inner ++ [0x5D]
  | .array space items => space ++ 0x5B :: items.text ++ [0x5D]
  | .emptyObject space inner => space ++ 0x7B :: inner ++ [0x7D]
  | .object space members => space ++ 0x7B :: members.text ++ [0x7D]

def Items.text : Items → Bytes
  | .last value after => value.text ++ after
  | .more value after rest => value.text ++ after ++ 0x2C :: rest.text

def Members.text : Members → Bytes
  | .last key value after =>
      key.space ++ 0x22 :: key.text ++ 0x22 :: key.after ++ 0x3A :: value.text ++ after
  | .more key value after rest =>
      key.space ++ 0x22 :: key.text ++ 0x22 :: key.after ++ 0x3A :: value.text ++ after ++
        0x2C :: rest.text

end

/-! ### Reading -/

/-- A quoted name with the colon behind it. -/
def parseKey (text : Bytes) : Option (Key × Bytes) :=
  match text.dropWhile isBlank with
  | 0x22 :: rest => do
      let (name, rest) ← scanString .plain rest
      match rest.dropWhile isBlank with
      | 0x3A :: behind =>
          some ({ space := text.takeWhile isBlank, text := name, after := rest.takeWhile isBlank },
            behind)
      | _ => none
  | _ => none

mutual

/-- The first value of a text, and what follows it.  The number bounds how deep it looks;
`parse` gives it enough. -/
def parseValue : Nat → Bytes → Option (Syntax × Bytes)
  | 0, _ => none
  | n + 1, text =>
      let space := text.takeWhile isBlank
      match text.dropWhile isBlank with
      | [] => none
      | b :: rest =>
          if b = 0x22 then
            (scanString .plain rest).map fun (name, rest) => (.string space name, rest)
          else if b = 0x5B then
            match rest.dropWhile isBlank with
            | 0x5D :: behind => some (.emptyArray space (rest.takeWhile isBlank), behind)
            | _ => (parseItems n rest).map fun (items, rest) => (.array space items, rest)
          else if b = 0x7B then
            match rest.dropWhile isBlank with
            | 0x7D :: behind => some (.emptyObject space (rest.takeWhile isBlank), behind)
            | _ => (parseMembers n rest).map fun (members, rest) => (.object space members, rest)
          else if b = 0x2D then
            (scanNumber .sign rest).map fun (digits, rest) => (.number space (b :: digits), rest)
          else if isDigit b then
            (scanNumber .sign (b :: rest)).map fun (digits, rest) => (.number space digits, rest)
          else
            (scanWord (b :: rest)).map fun (word, rest) => (.word space word, rest)

/-- The values of an array from the first on, with the closing bracket. -/
def parseItems : Nat → Bytes → Option (Items × Bytes)
  | 0, _ => none
  | n + 1, text => do
      let (value, rest) ← parseValue n text
      let after := rest.takeWhile isBlank
      match rest.dropWhile isBlank with
      | 0x5D :: behind => some (.last value after, behind)
      | 0x2C :: behind => do
          let (items, behind) ← parseItems n behind
          some (.more value after items, behind)
      | _ => none

/-- The members of an object from the first on, with the closing brace. -/
def parseMembers : Nat → Bytes → Option (Members × Bytes)
  | 0, _ => none
  | n + 1, text => do
      let (key, rest) ← parseKey text
      let (value, rest) ← parseValue n rest
      let after := rest.takeWhile isBlank
      match rest.dropWhile isBlank with
      | 0x7D :: behind => some (.last key value after, behind)
      | 0x2C :: behind => do
          let (members, behind) ← parseMembers n behind
          some (.more key value after members, behind)
      | _ => none

end

/-- The first value of a text, the one `Decoder.Decode` reads, and what follows it. -/
def parse (text : Bytes) : Option (Syntax × Bytes) := parseValue (2 * text.length + 1) text

/-! ### What is read is the text -/

theorem keep_eq_some {b : UInt8} {scanned : Option (Bytes × Bytes)} {text rest : Bytes}
    (h : keep b scanned = some (text, rest)) :
    ∃ more, text = b :: more ∧ scanned = some (more, rest) := by
  unfold keep at h
  obtain ⟨⟨more, rest'⟩, hscan, heq⟩ := Option.map_eq_some_iff.mp h
  injection heq with htext hrest
  exact ⟨more, htext.symm, by rw [hscan, hrest]⟩

theorem scanString_text {st : InString} {b text rest : Bytes}
    (h : scanString st b = some (text, rest)) : text ++ 0x22 :: rest = b := by
  induction b generalizing st text with
  | nil => simp [scanString] at h
  | cons first more ih =>
      have hkeep : ∀ st', keep first (scanString st' more) = some (text, rest) →
          text ++ 0x22 :: rest = first :: more := by
        intro st' hk
        obtain ⟨text', rfl, hscan⟩ := keep_eq_some hk
        rw [List.cons_append, ih hscan]
      cases st with
      | plain =>
          unfold scanString at h
          by_cases hq : first = 0x22
          · rw [if_pos hq] at h
            injection h with h
            injection h with ht hr
            rw [← ht, ← hr, hq, List.nil_append]
          · rw [if_neg hq] at h
            by_cases hctl : first < 0x20
            · rw [if_pos hctl] at h
              exact absurd h (by simp)
            · rw [if_neg hctl] at h
              exact hkeep _ h
      | escape =>
          unfold scanString at h
          split_ifs at h
          · exact hkeep _ h
          · exact hkeep _ h
      | hex n =>
          unfold scanString at h
          split_ifs at h
          exact hkeep _ h

theorem scanNumber_text {st : InNumber} {b text rest : Bytes}
    (h : scanNumber st b = some (text, rest)) : text ++ rest = b := by
  induction b generalizing st text with
  | nil =>
      unfold scanNumber at h
      split_ifs at h
      injection h with h
      injection h with ht hr
      rw [← ht, ← hr, List.nil_append]
  | cons first more ih =>
      unfold scanNumber at h
      split at h
      · obtain ⟨text', rfl, hscan⟩ := keep_eq_some h
        rw [List.cons_append, ih hscan]
      · split_ifs at h
        injection h with h
        injection h with ht hr
        rw [← ht, ← hr, List.nil_append]

theorem scanWord_text {b text rest : Bytes} (h : scanWord b = some (text, rest)) :
    text ++ rest = b := by
  unfold scanWord at h
  obtain ⟨word, hfind, heq⟩ := Option.map_eq_some_iff.mp h
  injection heq with ht hr
  have hword : word.isPrefixOf b = true := by simpa using List.find?_some hfind
  obtain ⟨tail, htail⟩ := List.isPrefixOf_iff_prefix.mp hword
  rw [← ht, ← hr, ← htail, List.drop_left]

theorem blanks_append (b : Bytes) : b.takeWhile isBlank ++ b.dropWhile isBlank = b :=
  List.takeWhile_append_dropWhile

theorem parseKey_text {b : Bytes} {key : Key} {rest : Bytes} (h : parseKey b = some (key, rest)) :
    key.space ++ 0x22 :: key.text ++ 0x22 :: key.after ++ 0x3A :: rest = b := by
  unfold parseKey at h
  split at h
  · next behind hb =>
    obtain ⟨⟨name, tail⟩, hscan, h⟩ := Option.bind_eq_some_iff.mp h
    dsimp only at h
    split at h
    · next after htail =>
      injection h with h
      injection h with hkey hrest
      subst hkey hrest
      have hafter : tail.takeWhile isBlank ++ 0x3A :: after = tail := by
        rw [← htail, blanks_append]
      simp only [List.append_assoc, List.cons_append]
      rw [hafter, scanString_text hscan, ← hb, blanks_append]
    · exact absurd h (by simp)
  · exact absurd h (by simp)

theorem parseValue_text (n : Nat) :
    (∀ {b : Bytes} {value : Syntax} {rest : Bytes}, parseValue n b = some (value, rest) →
      value.text ++ rest = b) ∧
    (∀ {b : Bytes} {items : Items} {rest : Bytes}, parseItems n b = some (items, rest) →
      items.text ++ 0x5D :: rest = b) ∧
    (∀ {b : Bytes} {members : Members} {rest : Bytes}, parseMembers n b = some (members, rest) →
      members.text ++ 0x7D :: rest = b) := by
  induction n with
  | zero => simp [parseValue, parseItems, parseMembers]
  | succ n ih =>
      obtain ⟨ihValue, ihItems, ihMembers⟩ := ih
      refine ⟨?_, ?_, ?_⟩
      · intro b value rest h
        unfold parseValue at h
        dsimp only at h
        split at h
        · exact absurd h (by simp)
        · next first more hb =>
          have hall : b.takeWhile isBlank ++ first :: more = b := by rw [← hb, blanks_append]
          split_ifs at h with hq ha ho hm hd
          · obtain ⟨⟨name, tail⟩, hscan, heq⟩ := Option.map_eq_some_iff.mp h
            injection heq with hv hr
            subst hv hr
            simp only [Syntax.text, List.append_assoc, List.cons_append, List.nil_append]
            rw [scanString_text hscan, ← hq, hall]
          · split at h
            · next behind hmore =>
              injection h with h
              injection h with hv hr
              subst hv hr
              simp only [Syntax.text, List.append_assoc, List.cons_append, List.nil_append]
              rw [← hmore, blanks_append, ← ha, hall]
            · obtain ⟨⟨items, tail⟩, hitems, heq⟩ := Option.map_eq_some_iff.mp h
              injection heq with hv hr
              subst hv hr
              simp only [Syntax.text, List.append_assoc, List.cons_append, List.nil_append]
              rw [ihItems hitems, ← ha, hall]
          · split at h
            · next behind hmore =>
              injection h with h
              injection h with hv hr
              subst hv hr
              simp only [Syntax.text, List.append_assoc, List.cons_append, List.nil_append]
              rw [← hmore, blanks_append, ← ho, hall]
            · obtain ⟨⟨members, tail⟩, hmembers, heq⟩ := Option.map_eq_some_iff.mp h
              injection heq with hv hr
              subst hv hr
              simp only [Syntax.text, List.append_assoc, List.cons_append, List.nil_append]
              rw [ihMembers hmembers, ← ho, hall]
          · obtain ⟨⟨digits, tail⟩, hscan, heq⟩ := Option.map_eq_some_iff.mp h
            injection heq with hv hr
            subst hv hr
            simp only [Syntax.text, List.append_assoc, List.cons_append]
            rw [scanNumber_text hscan, hall]
          · obtain ⟨⟨digits, tail⟩, hscan, heq⟩ := Option.map_eq_some_iff.mp h
            injection heq with hv hr
            subst hv hr
            simp only [Syntax.text, List.append_assoc]
            rw [scanNumber_text hscan, hall]
          · obtain ⟨⟨word, tail⟩, hscan, heq⟩ := Option.map_eq_some_iff.mp h
            injection heq with hv hr
            subst hv hr
            simp only [Syntax.text, List.append_assoc]
            rw [scanWord_text hscan, hall]
      · intro b items rest h
        unfold parseItems at h
        obtain ⟨⟨value, tail⟩, hvalue, h⟩ := Option.bind_eq_some_iff.mp h
        dsimp only at h
        split at h
        · next behind htail =>
          injection h with h
          injection h with hv hr
          subst hv hr
          simp only [Items.text, List.append_assoc]
          rw [← htail, blanks_append, ihValue hvalue]
        · next behind htail =>
          obtain ⟨⟨more, tail'⟩, hmore, heq⟩ := Option.bind_eq_some_iff.mp h
          injection heq with heq
          injection heq with hv hr
          subst hv hr
          simp only [Items.text, List.append_assoc, List.cons_append]
          rw [ihItems hmore, ← htail, blanks_append, ihValue hvalue]
        · exact absurd h (by simp)
      · intro b members rest h
        unfold parseMembers at h
        obtain ⟨⟨key, behindKey⟩, hkey, h⟩ := Option.bind_eq_some_iff.mp h
        obtain ⟨⟨value, tail⟩, hvalue, h⟩ := Option.bind_eq_some_iff.mp h
        have hkeyText := parseKey_text hkey
        simp only [List.append_assoc, List.cons_append] at hkeyText
        dsimp only at h
        split at h
        · next behind htail =>
          injection h with h
          injection h with hv hr
          subst hv hr
          simp only [Members.text, List.append_assoc, List.cons_append]
          rw [← htail, blanks_append, ihValue hvalue, hkeyText]
        · next behind htail =>
          obtain ⟨⟨more, tail'⟩, hmore, heq⟩ := Option.bind_eq_some_iff.mp h
          injection heq with heq
          injection heq with hv hr
          subst hv hr
          simp only [Members.text, List.append_assoc, List.cons_append]
          rw [ihMembers hmore, ← htail, blanks_append, ihValue hvalue, hkeyText]
        · exact absurd h (by simp)

theorem length_dropWhile_le (b : Bytes) : (b.dropWhile isBlank).length ≤ b.length :=
  (List.dropWhile_suffix isBlank).length_le

/-- As many steps as twice the length and a few are enough. -/
theorem parseValue_fuel (n : Nat) :
    (∀ {b : Bytes} {read : Syntax × Bytes} {m : Nat}, parseValue n b = some read →
      2 * b.length + 1 ≤ m → parseValue m b = some read) ∧
    (∀ {b : Bytes} {read : Items × Bytes} {m : Nat}, parseItems n b = some read →
      2 * b.length + 2 ≤ m → parseItems m b = some read) ∧
    (∀ {b : Bytes} {read : Members × Bytes} {m : Nat}, parseMembers n b = some read →
      2 * b.length + 2 ≤ m → parseMembers m b = some read) := by
  induction n with
  | zero => simp [parseValue, parseItems, parseMembers]
  | succ n ih =>
      obtain ⟨ihValue, ihItems, ihMembers⟩ := ih
      refine ⟨?_, ?_, ?_⟩
      · intro b read m h hm
        obtain ⟨m, rfl⟩ : ∃ k, m = k + 1 := ⟨m - 1, by omega⟩
        unfold parseValue at h ⊢
        dsimp only at h ⊢
        have hlen := length_dropWhile_le b
        split at h
        · exact absurd h (by simp)
        · next first more hb =>
          rw [hb, List.length_cons] at hlen
          split_ifs at h ⊢ with hq ha ho
          · exact h
          · split at h
            · exact h
            · obtain ⟨items, hitems, heq⟩ := Option.map_eq_some_iff.mp h
              rw [ihItems hitems (by omega), Option.map_some, heq]
          · split at h
            · exact h
            · obtain ⟨members, hmembers, heq⟩ := Option.map_eq_some_iff.mp h
              rw [ihMembers hmembers (by omega), Option.map_some, heq]
          · exact h
          · exact h
          · exact h
      · intro b read m h hm
        obtain ⟨m, rfl⟩ : ∃ k, m = k + 1 := ⟨m - 1, by omega⟩
        unfold parseItems at h ⊢
        obtain ⟨⟨value, tail⟩, hvalue, h⟩ := Option.bind_eq_some_iff.mp h
        have hlen := congrArg List.length ((parseValue_text n).1 hvalue)
        have htail := length_dropWhile_le tail
        rw [List.length_append] at hlen
        refine Option.bind_eq_some_iff.mpr ⟨(value, tail), ihValue hvalue (by omega), ?_⟩
        dsimp only at h ⊢
        split at h
        · exact h
        · next behind hbehind =>
          rw [hbehind, List.length_cons] at htail
          obtain ⟨⟨more, rest⟩, hmore, h⟩ := Option.bind_eq_some_iff.mp h
          exact Option.bind_eq_some_iff.mpr ⟨(more, rest), ihItems hmore (by omega), h⟩
        · exact h
      · intro b read m h hm
        obtain ⟨m, rfl⟩ : ∃ k, m = k + 1 := ⟨m - 1, by omega⟩
        unfold parseMembers at h ⊢
        obtain ⟨⟨key, behindKey⟩, hkey, h⟩ := Option.bind_eq_some_iff.mp h
        obtain ⟨⟨value, tail⟩, hvalue, h⟩ := Option.bind_eq_some_iff.mp h
        have hkeyLen := congrArg List.length (parseKey_text hkey)
        have hlen := congrArg List.length ((parseValue_text n).1 hvalue)
        have htail := length_dropWhile_le tail
        simp only [List.length_append, List.length_cons] at hkeyLen hlen
        refine Option.bind_eq_some_iff.mpr ⟨(key, behindKey), hkey, ?_⟩
        refine Option.bind_eq_some_iff.mpr ⟨(value, tail), ihValue hvalue (by omega), ?_⟩
        dsimp only at h ⊢
        split at h
        · exact h
        · next behind hbehind =>
          rw [hbehind, List.length_cons] at htail
          obtain ⟨⟨more, rest⟩, hmore, h⟩ := Option.bind_eq_some_iff.mp h
          exact Option.bind_eq_some_iff.mpr ⟨(more, rest), ihMembers hmore (by omega), h⟩
        · exact h

/-- What any number of steps reads, `parse` reads. -/
theorem parse_of_parseValue {n : Nat} {b : Bytes} {read : Syntax × Bytes}
    (h : parseValue n b = some read) : parse b = some read :=
  (parseValue_fuel n).1 h (Nat.le_refl _)

/-- The value read and the rest are the text. -/
theorem parse_text {b : Bytes} {value : Syntax} {rest : Bytes} (h : parse b = some (value, rest)) :
    value.text ++ rest = b :=
  (parseValue_text _).1 h

end Go.Json
