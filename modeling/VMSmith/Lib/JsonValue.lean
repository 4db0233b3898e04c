/-
What a JSON value means, and how it is written again.

`Syntax.decode` is what decoding into a variable of no particular type makes of a value
and `Value.marshal` writes that; two values that differ in strings only are written alike
only if they are equal.  `Syntax.mask` takes the strings out that stand under a secret
name, so that two texts with one mask differ in nothing else.
-/
import VMSmith.Lib.Json

namespace Go.Json

open Go

/-! ### What a value means -/

/-- `getu4`: the code of a `\u` escape at the front. -/
def getu4 : Bytes → Option Nat
  | 0x5C :: 0x75 :: a :: b :: c :: d :: _ => do
      let a ← unhex a
      let b ← unhex b
      let c ← unhex c
      let d ← unhex d
      some (((a * 16 + b) * 16 + c) * 16 + d)
  | _ => none

/-- `utf16.DecodeRune`, `none` for what is no surrogate pair. -/
def decodeSurrogates (high low : Nat) : Option Char :=
  if 0xD800 ≤ high ∧ high < 0xDC00 ∧ 0xDC00 ≤ low ∧ low < 0xE000 then
    some (Char.ofNat ((high - 0xD800) * 0x400 + (low - 0xDC00) + 0x10000))
  else none

/-- The first character between the quotes, and how many bytes it takes. -/
def unquoteRune (first : UInt8) (rest : Bytes) : Char × Nat :=
  if first = 0x5C then
    match getu4 (first :: rest), rest with
    | some code, _ =>
        if 0xD800 ≤ code ∧ code < 0xE000 then
          match (getu4 (rest.drop 5)).bind (decodeSurrogates code) with
          | some c => (c, 12)
          | none => (runeError, 6)
        else (Char.ofNat code, 6)
    | none, 0x62 :: _ => ('\x08', 2)
    | none, 0x66 :: _ => ('\x0C', 2)
    | none, 0x6E :: _ => ('\n', 2)
    | none, 0x72 :: _ => ('\r', 2)
    | none, 0x74 :: _ => ('\t', 2)
    | none, b :: _ => (Char.ofNat b.toNat, 2)
    | none, [] => (runeError, 1)
  else decodeRune first rest

/-- The characters from here on, `skip` bytes still belonging to the one before. -/
def unquoteFrom : Nat → Bytes → List Char
  | _, [] => []
  | skip + 1, _ :: rest => unquoteFrom skip rest
  | 0, b :: rest =>
      let (c, width) := unquoteRune b rest
      c :: unquoteFrom (width - 1) rest

/-- `unquote`: the characters a string stands for. -/
def unquote (text : Bytes) : List Char := unquoteFrom 0 text

/-- The digits of a number without its sign, point and exponent, and how many of them stand
behind the point. -/
def mantissa : Bool → Bytes → Nat × Nat → Nat × Nat
  | _, [], read => read
  | behind, b :: rest, (m, places) =>
      if isDigit b then
        mantissa behind rest (m * 10 + (b.toNat - 0x30), if behind then places + 1 else places)
      else if b = 0x2E then mantissa true rest (m, places)
      else if b = 0x65 || b = 0x45 then (m, places)
      else mantissa behind rest (m, places)

/-- The exponent a number is written with. -/
def exponent (text : Bytes) : Int :=
  match text.dropWhile fun b => b ≠ 0x65 && b ≠ 0x45 with
  | _ :: 0x2D :: digits => -((mantissa false digits (0, 0)).1 : Int)
  | _ :: digits => (mantissa false digits (0, 0)).1
  | [] => 0

/-- Whether `strconv.ParseFloat` has a 64-bit number for the text: what is nearer to
`2 ^ 1024` than to the largest one is out of range. -/
def inRange (text : Bytes) : Bool :=
  let (m, places) := mantissa false text (0, 0)
  let e := exponent text - places
  let limit := 2 ^ 1024 - 2 ^ 970
  m = 0 || e + text.length < 0 ||
    (e ≤ 309 && m * 10 ^ e.toNat < limit * 10 ^ (-e).toNat)

mutual

/-- What decoding into a variable of no particular type yields.  A number is kept as it is
written. -/
inductive Value
  | null
  | bool (b : Bool)
  | number (text : Bytes)
  | string (s : List Char)
  | array (items : Values)
  | object (members : Pairs)
  deriving DecidableEq

inductive Values
  | nil
  | cons (value : Value) (rest : Values)
  deriving DecidableEq

/-- A map, in the order of its keys. -/
inductive Pairs
  | nil
  | cons (key : List Char) (value : Value) (rest : Pairs)
  deriving DecidableEq

end

/-- `m[key] = value`. -/
def Pairs.set (key : List Char) (value : Value) : Pairs → Pairs
  | .nil => .cons key value .nil
  | .cons k v rest =>
      if key = k then .cons key value rest
      else if key < k then .cons key value (.cons k v rest)
      else .cons k v (Pairs.set key value rest)

mutual

/-- What a value means. -/
def Syntax.decode : Syntax → Value
  | .word _ text => if text = ascii "null" then .null else .bool (text = ascii "true")
  | .number _ text => .number text
  | .string _ text => .string (unquote text)
  | .emptyArray _ _ => .array .nil
  | .array _ items => .array items.decode
  | .emptyObject _ _ => .object .nil
  | .object _ members => .object (members.decode .nil)

def Items.decode : Items → Values
  | .last value _ => .cons value.decode .nil
  | .more value _ rest => .cons value.decode rest.decode

/-- The map with the members set one after another: the last of one name stays. -/
def Members.decode : Members → Pairs → Pairs
  | .last key value _, map => map.set (unquote key.text) value.decode
  | .more key value _ rest, map => rest.decode (map.set (unquote key.text) value.decode)

end

mutual

/-- Whether every number is in range. -/
def Syntax.numbersInRange : Syntax → Bool
  | .number _ text => inRange text
  | .array _ items => items.numbersInRange
  | .object _ members => members.numbersInRange
  | _ => true

def Items.numbersInRange : Items → Bool
  | .last value _ => value.numbersInRange
  | .more value _ rest => value.numbersInRange && rest.numbersInRange

def Members.numbersInRange : Members → Bool
  | .last _ value _ => value.numbersInRange
  | .more _ value _ rest => value.numbersInRange && rest.numbersInRange

end

/-- `json.Unmarshal` into a variable of no particular type: the whole text is one value. -/
def unmarshal (text : Bytes) : Option Value := do
  let (value, rest) ← parse text
  if rest.all isBlank && value.numbersInRange then some value.decode else none

/-! ### Writing -/

def hexDigit (n : Nat) : UInt8 := (if n < 10 then 0x30 + n else 0x61 + (n - 10)).toUInt8

/-- The four digits of a `\u` escape. -/
def hex4 (n : Nat) : Bytes :=
  [hexDigit (n / 4096 % 16), hexDigit (n / 256 % 16), hexDigit (n / 16 % 16), hexDigit (n % 16)]

/-- The two-byte escapes. -/
def shortEscapes : List (Char × UInt8) :=
  [('"', 0x22), ('\\', 0x5C), ('\x08', 0x62), ('\x0C', 0x66), ('\n', 0x6E), ('\r', 0x72),
    ('\t', 0x74)]

/-- The letter of a two-byte escape. -/
def shortEscape (c : Char) : Option UInt8 :=
  (shortEscapes.find? fun entry => entry.1 = c).map (·.2)

/-- Whether a character is written by its code. -/
def byCode (c : Char) : Bool :=
  c.toNat < 0x20 || c = '<' || c = '>' || c = '&' || c = '\u2028' || c = '\u2029'

/-- A character of a string as `json.Marshal` writes it. -/
def escapeRune (c : Char) : Bytes :=
  match shortEscape c with
  | some letter => [0x5C, letter]
  | none => if byCode c then 0x5C :: 0x75 :: hex4 c.toNat else String.utf8EncodeChar c

/-- A string as `json.Marshal` writes it. -/
def quote (s : List Char) : Bytes := 0x22 :: s.flatMap escapeRune ++ [0x22]

section

/- The text `json.Marshal` has for the number that is written so: the shortest decimal of
the nearest 64-bit one. -/
variable (formatNumber : Bytes → Bytes)

mutual

/-- `json.Marshal`. -/
def Value.marshal : Value → Bytes
  | .null => ascii "null"
  | .bool b => if b then ascii "true" else ascii "false"
  | .number text => formatNumber text
  | .string s => quote s
  | .array items => 0x5B :: items.marshal ++ [0x5D]
  | .object members => 0x7B :: members.marshal ++ [0x7D]

def Values.marshal : Values → Bytes
  | .nil => []
  | .cons value .nil => value.marshal
  | .cons value rest => value.marshal ++ 0x2C :: rest.marshal

def Pairs.marshal : Pairs → Bytes
  | .nil => []
  | .cons key value .nil => quote key ++ 0x3A :: value.marshal
  | .cons key value rest => quote key ++ 0x3A :: value.marshal ++ 0x2C :: rest.marshal

end

end

/-! ### What is written can be told apart -/

theorem shortEscape_mem {c : Char} {letter : UInt8} (h : shortEscape c = some letter) :
    (c, letter) ∈ shortEscapes := by
  unfold shortEscape at h
  obtain ⟨⟨c', letter'⟩, hfind, heq⟩ := Option.map_eq_some_iff.mp h
  have hc : c' = c := by simpa using List.find?_some hfind
  rw [← hc, ← heq]
  exact List.mem_of_find?_eq_some hfind

theorem shortEscape_inj {c c' : Char} {letter : UInt8} (h : shortEscape c = some letter)
    (h' : shortEscape c' = some letter) : c = c' := by
  have hall : ∀ p ∈ shortEscapes, ∀ q ∈ shortEscapes, p.2 = q.2 → p.1 = q.1 := by decide
  exact hall _ (shortEscape_mem h) _ (shortEscape_mem h') rfl

theorem shortEscape_ne_u {c : Char} : shortEscape c ≠ some 0x75 := by
  intro h
  have hall : ∀ p ∈ shortEscapes, p.2 ≠ 0x75 := by decide
  exact hall _ (shortEscape_mem h) rfl

theorem hexDigit_inj {n m : Nat} (hn : n < 16) (hm : m < 16) (h : hexDigit n = hexDigit m) :
    n = m := by
  have hall : ∀ a b : Fin 16, hexDigit a = hexDigit b → a = b := by decide
  exact congrArg Fin.val (hall ⟨n, hn⟩ ⟨m, hm⟩ h)

theorem hex4_inj {n m : Nat} (hn : n < 65536) (hm : m < 65536) (h : hex4 n = hex4 m) : n = m := by
  unfold hex4 at h
  simp only [List.cons.injEq, and_true] at h
  obtain ⟨h₁, h₂, h₃, h₄⟩ := h
  have e₁ := hexDigit_inj (Nat.mod_lt _ (by omega)) (Nat.mod_lt _ (by omega)) h₁
  have e₂ := hexDigit_inj (Nat.mod_lt _ (by omega)) (Nat.mod_lt _ (by omega)) h₂
  have e₃ := hexDigit_inj (Nat.mod_lt _ (by omega)) (Nat.mod_lt _ (by omega)) h₃
  have e₄ := hexDigit_inj (Nat.mod_lt _ (by omega)) (Nat.mod_lt _ (by omega)) h₄
  omega

theorem byCode_lt {c : Char} (h : byCode c = true) : c.toNat < 65536 := by
  unfold byCode at h
  simp only [Bool.or_eq_true, decide_eq_true_eq] at h
  rcases h with ((((h | h) | h) | h) | h) | h
  · omega
  all_goals
    subst h
    decide

/-- The three ways to write a character. -/
theorem escapeRune_cases (c : Char) :
    (∃ letter, shortEscape c = some letter ∧ escapeRune c = [0x5C, letter]) ∨
    (c.toNat < 65536 ∧ escapeRune c = 0x5C :: 0x75 :: hex4 c.toNat) ∨
    (shortEscape c = none ∧ escapeRune c = String.utf8EncodeChar c) := by
  unfold escapeRune
  cases hs : shortEscape c with
  | some letter => exact .inl ⟨letter, rfl, rfl⟩
  | none =>
      by_cases hb : byCode c = true
      · exact .inr (.inl ⟨byCode_lt hb, by simp [hb]⟩)
      · exact .inr (.inr ⟨rfl, by simp [hb]⟩)

/-- A character that starts with the byte of an ASCII one is that one. -/
theorem eq_of_utf8EncodeChar_cons {c d : Char} {b : UInt8} {t : Bytes}
    (hd : String.utf8EncodeChar d = [b]) (h : String.utf8EncodeChar c = b :: t) : c = d :=
  (@utf8EncodeChar_append_inj c d [] t (by simp [hd, h])).1

theorem utf8EncodeChar_backslash : String.utf8EncodeChar '\\' = [0x5C] := by decide +kernel

theorem utf8EncodeChar_quote : String.utf8EncodeChar '"' = [0x22] := by decide +kernel

/-- No plain character starts as an escape does. -/
theorem plain_ne_escape {c : Char} {x y : Bytes} (hc : shortEscape c = none) :
    String.utf8EncodeChar c ++ x ≠ 0x5C :: y := by
  intro h
  cases he : String.utf8EncodeChar c with
  | nil => exact String.utf8EncodeChar_ne_nil he
  | cons b t =>
      rw [he, List.cons_append] at h
      injection h with hb _
      rw [hb] at he
      rw [eq_of_utf8EncodeChar_cons utf8EncodeChar_backslash he] at hc
      exact absurd hc (by decide)

/-- No written character is the start of another. -/
theorem escapeRune_append_inj {c c' : Char} {x y : Bytes}
    (h : escapeRune c ++ x = escapeRune c' ++ y) : c = c' ∧ x = y := by
  rcases escapeRune_cases c with ⟨l, hs, he⟩ | ⟨hlt, he⟩ | ⟨hn, he⟩ <;>
    rcases escapeRune_cases c' with ⟨l', hs', he'⟩ | ⟨hlt', he'⟩ | ⟨hn', he'⟩ <;>
    rw [he, he'] at h
  · injection h with _ h
    injection h with hl h
    subst hl
    exact ⟨shortEscape_inj hs hs', h⟩
  · injection h with _ h
    injection h with hl h
    subst hl
    exact absurd hs shortEscape_ne_u
  · exact absurd h.symm (plain_ne_escape hn')
  · injection h with _ h
    injection h with hl h
    subst hl
    exact absurd hs' shortEscape_ne_u
  · injection h with _ h
    injection h with _ h
    have hlen : (hex4 c.toNat).length = (hex4 c'.toNat).length := rfl
    obtain ⟨hhex, hxy⟩ := List.append_inj h hlen
    exact ⟨Char.toNat_inj.mp (hex4_inj hlt hlt' hhex), hxy⟩
  · exact absurd h.symm (plain_ne_escape hn')
  · exact absurd h (plain_ne_escape hn)
  · exact absurd h (plain_ne_escape hn)
  · exact utf8EncodeChar_append_inj h

theorem escapeRune_ne_quote {c : Char} {x y : Bytes} : escapeRune c ++ x ≠ 0x22 :: y := by
  intro h
  rcases escapeRune_cases c with ⟨l, hs, he⟩ | ⟨hlt, he⟩ | ⟨hn, he⟩ <;> rw [he] at h
  · injection h with hb
    exact absurd hb (by decide)
  · injection h with hb
    exact absurd hb (by decide)
  · cases he : String.utf8EncodeChar c with
    | nil => exact String.utf8EncodeChar_ne_nil he
    | cons b t =>
        rw [he, List.cons_append] at h
        injection h with hb _
        rw [hb] at he
        rw [eq_of_utf8EncodeChar_cons utf8EncodeChar_quote he] at hn
        exact absurd hn (by decide)

/-- A written string ends where its closing quote is. -/
theorem quote_append_inj {s s' : List Char} {x y : Bytes} (h : quote s ++ x = quote s' ++ y) :
    s = s' ∧ x = y := by
  have hbody : ∀ (s s' : List Char), s.flatMap escapeRune ++ 0x22 :: x =
      s'.flatMap escapeRune ++ 0x22 :: y → s = s' ∧ x = y := by
    intro s
    induction s with
    | nil =>
        intro s' h
        cases s' with
        | nil =>
            injection h with _ h
            exact ⟨rfl, h⟩
        | cons c' cs' =>
            rw [List.flatMap_cons, List.append_assoc] at h
            exact absurd h.symm escapeRune_ne_quote
    | cons c cs ih =>
        intro s' h
        cases s' with
        | nil =>
            rw [List.flatMap_cons, List.append_assoc] at h
            exact absurd h escapeRune_ne_quote
        | cons c' cs' =>
            rw [List.flatMap_cons, List.flatMap_cons, List.append_assoc, List.append_assoc] at h
            obtain ⟨hc, h⟩ := escapeRune_append_inj h
            obtain ⟨hcs, hxy⟩ := ih cs' h
            exact ⟨by rw [hc, hcs], hxy⟩
  unfold quote at h
  simp only [List.cons_append, List.append_assoc, List.nil_append, List.cons.injEq, true_and] at h
  exact hbody s s' h

mutual

/-- The same value but for what its strings are. -/
inductive Value.Alike : Value → Value → Prop
  | null : Value.Alike .null .null
  | bool (b : Bool) : Value.Alike (.bool b) (.bool b)
  | number (text : Bytes) : Value.Alike (.number text) (.number text)
  | string (s s' : List Char) : Value.Alike (.string s) (.string s')
  | array {items items' : Values} (h : items.Alike items') : Value.Alike (.array items) (.array items')
  | object {members members' : Pairs} (h : members.Alike members') :
      Value.Alike (.object members) (.object members')

inductive Values.Alike : Values → Values → Prop
  | nil : Values.Alike .nil .nil
  | cons {value value' : Value} {rest rest' : Values} (h : value.Alike value')
      (hrest : rest.Alike rest') : Values.Alike (.cons value rest) (.cons value' rest')

inductive Pairs.Alike : Pairs → Pairs → Prop
  | nil : Pairs.Alike .nil .nil
  | cons (key : List Char) {value value' : Value} {rest rest' : Pairs} (h : value.Alike value')
      (hrest : rest.Alike rest') :
      Pairs.Alike (.cons key value rest) (.cons key value' rest')

end

theorem Pairs.Alike.set {map map' : Pairs} {key : List Char} {value value' : Value}
    (hmap : map.Alike map') (h : value.Alike value') :
    (map.set key value).Alike (map'.set key value') := by
  cases hmap with
  | nil => exact .cons key h .nil
  | cons k hv hrest =>
      unfold Pairs.set
      split_ifs
      · exact .cons key h hrest
      · exact .cons key h (.cons k hv hrest)
      · exact .cons k hv (hrest.set h)

section

variable {formatNumber : Bytes → Bytes}

mutual

/-- Values that differ in strings only are told apart by their texts, whatever follows. -/
theorem Value.marshal_append_inj {v v' : Value} {x y : Bytes} (h : v.Alike v')
    (heq : v.marshal formatNumber ++ x = v'.marshal formatNumber ++ y) : v = v' ∧ x = y := by
  cases h with
  | null => exact ⟨rfl, List.append_cancel_left heq⟩
  | bool b => exact ⟨rfl, List.append_cancel_left heq⟩
  | number text => exact ⟨rfl, List.append_cancel_left heq⟩
  | string s s' =>
      obtain ⟨hs, hxy⟩ := quote_append_inj heq
      exact ⟨by rw [hs], hxy⟩
  | array h =>
      simp only [Value.marshal, List.cons_append, List.append_assoc, List.nil_append] at heq
      injection heq with _ heq
      obtain ⟨hitems, hxy⟩ := Values.marshal_append_inj h heq
      injection hxy with _ hxy
      exact ⟨by rw [hitems], hxy⟩
  | object h =>
      simp only [Value.marshal, List.cons_append, List.append_assoc, List.nil_append] at heq
      injection heq with _ heq
      obtain ⟨hmembers, hxy⟩ := Pairs.marshal_append_inj h heq
      injection hxy with _ hxy
      exact ⟨by rw [hmembers], hxy⟩

theorem Values.marshal_append_inj {vs vs' : Values} {x y : Bytes} (h : vs.Alike vs')
    (heq : vs.marshal formatNumber ++ x = vs'.marshal formatNumber ++ y) : vs = vs' ∧ x = y := by
  cases h with
  | nil => exact ⟨rfl, heq⟩
  | cons h hrest =>
      cases hrest with
      | nil =>
          obtain ⟨hv, hxy⟩ := Value.marshal_append_inj h heq
          exact ⟨by rw [hv], hxy⟩
      | cons hnext hmore =>
          simp only [Values.marshal, List.cons_append, List.append_assoc] at heq
          obtain ⟨hv, heq⟩ := Value.marshal_append_inj h heq
          injection heq with _ heq
          obtain ⟨hrest, hxy⟩ := Values.marshal_append_inj (.cons hnext hmore) heq
          exact ⟨by rw [hv, hrest], hxy⟩

theorem Pairs.marshal_append_inj {ms ms' : Pairs} {x y : Bytes} (h : ms.Alike ms')
    (heq : ms.marshal formatNumber ++ x = ms'.marshal formatNumber ++ y) : ms = ms' ∧ x = y := by
  cases h with
  | nil => exact ⟨rfl, heq⟩
  | cons key h hrest =>
      cases hrest with
      | nil =>
          simp only [Pairs.marshal, List.append_assoc] at heq
          have heq := List.append_cancel_left heq
          injection heq with _ heq
          obtain ⟨hv, hxy⟩ := Value.marshal_append_inj h heq
          exact ⟨by rw [hv], hxy⟩
      | cons next hnext hmore =>
          simp only [Pairs.marshal, List.cons_append, List.append_assoc] at heq
          have heq := List.append_cancel_left heq
          injection heq with _ heq
          obtain ⟨hv, heq⟩ := Value.marshal_append_inj h heq
          injection heq with _ heq
          obtain ⟨hrest, hxy⟩ := Pairs.marshal_append_inj (.cons next hnext hmore) heq
          exact ⟨by rw [hv, hrest], hxy⟩

end

end

/-! ### Hiding strings -/

section

variable (secret : List Char → Bool)

mutual

/-- The value with the strings taken out that are members under a secret name; `hidden` says
that the value itself is one. -/
def Syntax.mask (hidden : Bool) : Syntax → Syntax
  | .string space text => .string space (if hidden then [] else text)
  | .array space items => .array space items.mask
  | .object space members => .object space members.mask
  | value => value

def Items.mask : Items → Items
  | .last value after => .last (value.mask false) after
  | .more value after rest => .more (value.mask false) after rest.mask

def Members.mask : Members → Members
  | .last key value after => .last key (value.mask (secret (unquote key.text))) after
  | .more key value after rest =>
      .more key (value.mask (secret (unquote key.text))) after rest.mask

end

end

section

variable {secret : List Char → Bool}

mutual

/-- What is the same behind the mask means the same but for strings. -/
theorem Syntax.alike_of_mask {hidden : Bool} {v v' : Syntax}
    (h : v.mask secret hidden = v'.mask secret hidden) : v.decode.Alike v'.decode := by
  cases v <;> cases v' <;> simp only [Syntax.mask, reduceCtorEq, Syntax.word.injEq,
    Syntax.number.injEq, Syntax.array.injEq, Syntax.object.injEq] at h
  case word.word =>
    unfold Syntax.decode
    rw [h.2]
    split_ifs
    · exact .null
    · exact .bool _
  case number.number => exact h.2 ▸ .number _
  case string.string => exact .string _ _
  case emptyArray.emptyArray => exact .array .nil
  case array.array => exact .array (Items.alike_of_mask h.2)
  case emptyObject.emptyObject => exact .object .nil
  case object.object => exact .object (Members.alike_of_mask h.2 .nil)

theorem Items.alike_of_mask {vs vs' : Items} (h : vs.mask secret = vs'.mask secret) :
    vs.decode.Alike vs'.decode := by
  cases vs <;> cases vs' <;> simp only [Items.mask, reduceCtorEq, Items.last.injEq,
    Items.more.injEq] at h
  case last.last => exact .cons (Syntax.alike_of_mask h.1) .nil
  case more.more => exact .cons (Syntax.alike_of_mask h.1) (Items.alike_of_mask h.2.2)

theorem Members.alike_of_mask {ms ms' : Members} (h : ms.mask secret = ms'.mask secret)
    {map map' : Pairs} (hmap : map.Alike map') : (ms.decode map).Alike (ms'.decode map') := by
  cases ms <;> cases ms' <;> simp only [Members.mask, reduceCtorEq, Members.last.injEq,
    Members.more.injEq] at h
  case last.last =>
    obtain ⟨rfl, hvalue, _⟩ := h
    exact hmap.set (Syntax.alike_of_mask hvalue)
  case more.more =>
    obtain ⟨rfl, hvalue, _, hrest⟩ := h
    exact Members.alike_of_mask hrest (hmap.set (Syntax.alike_of_mask hvalue))

end

mutual

/-- The mask leaves the numbers as they are. -/
theorem Syntax.numbersInRange_mask (hidden : Bool) (v : Syntax) :
    (v.mask secret hidden).numbersInRange = v.numbersInRange := by
  cases v with
  | array space items => exact Items.numbersInRange_mask items
  | object space members => exact Members.numbersInRange_mask members
  | _ => rfl

theorem Items.numbersInRange_mask (vs : Items) :
    (vs.mask secret).numbersInRange = vs.numbersInRange := by
  cases vs with
  | last value after => exact Syntax.numbersInRange_mask false value
  | more value after rest =>
      unfold Items.mask Items.numbersInRange
      rw [Syntax.numbersInRange_mask false value, Items.numbersInRange_mask rest]

theorem Members.numbersInRange_mask (ms : Members) :
    (ms.mask secret).numbersInRange = ms.numbersInRange := by
  cases ms with
  | last key value after => exact Syntax.numbersInRange_mask _ value
  | more key value after rest =>
      unfold Members.mask Members.numbersInRange
      rw [Syntax.numbersInRange_mask _ value, Members.numbersInRange_mask rest]

end

end

end Go.Json
