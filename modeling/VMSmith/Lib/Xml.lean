/-
XML as it is spelled and as it is read.

A document is a list of tokens, each with the spelling it has in the text.  Reading one takes
its text apart at the tags, in which a bracket counts only outside of quotes, makes a token of
each part, and puts the elements together on a stack.  Comments, marked sections and document
types are refused; what comes after the root is not looked at.

A writer is told of elements with a text or with other elements in them, and indents the
latter.  What it writes is read back as it was (`decode_encode`), but for the white space it
adds and for the characters that XML does not have, which it replaces.
-/
import Mathlib.Data.List.Basic
import Mathlib.Data.String.Basic

namespace Xml

/-! ### Characters -/

/-- `isInCharacterRange`: the characters a document may have. -/
def legal (c : Char) : Bool :=
  c = '\t' || c = '\n' || c = '\r' || (0x20 ≤ c.toNat && c.toNat ≤ 0xFFFD) || 0x10000 ≤ c.toNat

/-- As it is read back after it was written. -/
def cleanChar (c : Char) : Char := if legal c then c else '\uFFFD'

def clean (s : String) : String := String.ofList (s.toList.map cleanChar)

def escapeChar : Char → List Char
  | '"' => "&#34;".toList
  | '\'' => "&#39;".toList
  | '&' => "&amp;".toList
  | '<' => "&lt;".toList
  | '>' => "&gt;".toList
  | '\t' => "&#x9;".toList
  | '\n' => "&#xA;".toList
  | '\r' => "&#xD;".toList
  | c => [cleanChar c]

/-- `EscapeString`. -/
def escape (s : String) : List Char := s.toList.flatMap escapeChar

def digit (radix : Nat) (c : Char) : Option Nat :=
  let v :=
    if c.isDigit then c.toNat - '0'.toNat
    else if 'a' ≤ c ∧ c ≤ 'f' then c.toNat - 'a'.toNat + 10
    else if 'A' ≤ c ∧ c ≤ 'F' then c.toNat - 'A'.toNat + 10
    else radix
  if v < radix then some v else none

/-- The character a reference gives by number. -/
def numbered (radix : Nat) (cs : List Char) : Option Char :=
  if cs = [] then none
  else do
    let n ← cs.foldlM (fun n c => (digit radix c).map (n * radix + ·)) 0
    if n.isValidChar then some (Char.ofNat n)
    else if n ≤ 0x10FFFF then some '\uFFFD'
    else none

/-- What a reference stands for. -/
def entity (cs : List Char) : Option Char :=
  if cs = "lt".toList then some '<'
  else if cs = "gt".toList then some '>'
  else if cs = "amp".toList then some '&'
  else if cs = "apos".toList then some '\''
  else if cs = "quot".toList then some '"'
  else
    match cs with
    | '#' :: 'x' :: hex => numbered 16 hex
    | '#' :: decimal => numbered 10 decimal
    | _ => none

/-- The references resolved; `name` is what has been read of one, latest first. -/
def unescapeFrom : Option (List Char) → List Char → Option (List Char)
  | none, [] => some []
  | some _, [] => none
  | none, c :: cs =>
    if c = '&' then unescapeFrom (some []) cs else (unescapeFrom none cs).map (c :: ·)
  | some name, c :: cs =>
    if c = ';' then do
      let referred ← entity name.reverse
      (unescapeFrom none cs).map (referred :: ·)
    else unescapeFrom (some (c :: name)) cs

/-- Line ends are read as line feeds. -/
def newlines : List Char → List Char
  | '\r' :: '\n' :: cs => '\n' :: newlines cs
  | '\r' :: cs => '\n' :: newlines cs
  | c :: cs => c :: newlines cs
  | [] => []

/-- A text or the value of an attribute, from its spelling. -/
def readText (raw : List Char) : Option String := do
  let cs ← unescapeFrom none (newlines raw)
  if cs.all legal then some (String.ofList cs) else none

/-! ### Tokens -/

structure Attr where
  name : String
  quote : Char
  raw : List Char
  deriving DecidableEq, Repr

inductive Token where
  /-- `closed`: a tag that ends its own element. -/
  | start (name : String) (attrs : List Attr) (closed : Bool)
  | stop (name : String)
  | text (raw : List Char)
  | instruction (body : List Char)
  deriving DecidableEq, Repr

def Attr.render (a : Attr) : List Char :=
  ' ' :: (a.name.toList ++ '=' :: a.quote :: (a.raw ++ [a.quote]))

/-- What stands between the name and the bracket of a start tag. -/
def renderAttrs (attrs : List Attr) (closed : Bool) : List Char :=
  attrs.flatMap Attr.render ++ if closed then ['/'] else []

def Token.render : Token → List Char
  | start name attrs closed => '<' :: (name.toList ++ (renderAttrs attrs closed ++ ['>']))
  | stop name => '<' :: '/' :: (name.toList ++ ['>'])
  | text raw => raw
  | instruction body => '<' :: '?' :: (body ++ ['?', '>'])

def render (ts : List Token) : List Char := ts.flatMap Token.render

def blank (c : Char) : Bool := c = ' ' || c = '\t' || c = '\n' || c = '\r'

def nameChar (c : Char) : Bool :=
  !blank c && !(['/', '=', '<', '>', '"', '\'', '&', '?', '!'].contains c)

def skip (cs : List Char) : List Char := cs.dropWhile blank

/-- The attributes of a start tag, and whether it ends its element. -/
def readAttrs : Nat → List Char → Option (List Attr × Bool)
  | 0, _ => none
  | fuel + 1, cs =>
    match skip cs with
    | [] => some ([], false)
    | ['/'] => some ([], true)
    | c :: cs =>
      let name := (c :: cs).takeWhile nameChar
      match skip ((c :: cs).drop name.length) with
      | '=' :: rest =>
        match skip rest with
        | quote :: rest =>
          let raw := rest.takeWhile (· ≠ quote)
          match rest.drop raw.length with
          | _ :: rest =>
            if name = [] ∨ (quote ≠ '"' ∧ quote ≠ '\'') ∨ '<' ∈ raw then none
            else
              (readAttrs fuel rest).map fun r =>
                ({ name := String.ofList name, quote, raw } :: r.1, r.2)
          | [] => none
        | [] => none
      | _ => none

/-- A tag, from what stands between its brackets. -/
def readTag : List Char → Option Token
  | '/' :: cs =>
    let name := cs.takeWhile nameChar
    if name ≠ [] ∧ skip (cs.drop name.length) = [] then some (.stop (String.ofList name)) else none
  | cs =>
    let name := cs.takeWhile nameChar
    if name = [] then none
    else
      (readAttrs (cs.length + 1) (cs.drop name.length)).map fun r =>
        .start (String.ofList name) r.1 r.2

def readInstruction (body : List Char) : Option Token :=
  if body.takeWhile nameChar ≠ [] then some (.instruction body) else none

/-- Where in a text: between tags, or in one, perhaps in quotes, or in an instruction. -/
inductive Place where
  | between
  | inTag (quote : Option Char)
  | inInstruction
  deriving DecidableEq

def flush (acc : List Char) (ts : List (Option Token)) : List (Option Token) :=
  if acc = [] then ts else some (.text acc.reverse) :: ts

/-- The tokens of a text, `none` where one cannot be read; `acc` is what has been read of
one, latest first. -/
def lex : Place → List Char → List Char → List (Option Token)
  | .between, acc, [] => flush acc []
  | .inTag _, _, [] => [none]
  | .inInstruction, _, [] => [none]
  | .between, acc, c :: cs =>
    if c = '<' then flush acc (lex (.inTag none) [] cs) else lex .between (c :: acc) cs
  | .inTag none, acc, c :: cs =>
    if c = '>' then readTag acc.reverse :: lex .between [] cs
    else if c = '?' ∧ acc = [] then lex .inInstruction [] cs
    else if c = '"' ∨ c = '\'' then lex (.inTag (some c)) (c :: acc) cs
    else lex (.inTag none) (c :: acc) cs
  | .inTag (some quote), acc, c :: cs =>
    if c = quote then lex (.inTag none) (c :: acc) cs
    else lex (.inTag (some quote)) (c :: acc) cs
  | .inInstruction, acc, c :: cs =>
    if c = '>' ∧ acc.head? = some '?' then
      readInstruction acc.tail.reverse :: lex .between [] cs
    else lex .inInstruction (c :: acc) cs

/-! ### Elements -/

inductive Node where
  | text (s : String)
  | elem (name : String) (attrs : List (String × String)) (children : List Node)

/-- An element, or what has been read of one. -/
structure Element where
  name : String
  attrs : List (String × String)
  children : List Node := []

def Element.node (e : Element) : Node := .elem e.name e.attrs e.children

def Element.add (e : Element) (n : Node) : Element := { e with children := e.children ++ [n] }

def readValues (attrs : List Attr) : Option (List (String × String)) :=
  attrs.mapM fun a => (readText a.raw).map (a.name, ·)

/-- An element has ended: it is the root, or goes into the one around it. -/
def Element.finish (e : Element) (go : List Element → Option Element) :
    List Element → Option Element
  | [] => some e
  | f :: st => go (f.add e.node :: st)

/-- The root of a document, from its tokens and the elements that are open. -/
def build : List (Option Token) → List Element → Option Element
  | [], _ => none
  | none :: _, _ => none
  | some (.instruction _) :: ts, st => build ts st
  | some (.text raw) :: ts, [] => do
    let _ ← readText raw
    build ts []
  | some (.text raw) :: ts, f :: st => do
    let s ← readText raw
    build ts (f.add (.text s) :: st)
  | some (.start name attrs closed) :: ts, st => do
    let values ← readValues attrs
    if closed then Element.finish { name, attrs := values } (fun st => build ts st) st
    else build ts ({ name, attrs := values } :: st)
  | some (.stop _) :: _, [] => none
  | some (.stop name) :: ts, f :: st =>
    if f.name = name then f.finish (fun st => build ts st) st else none

def decode (cs : List Char) : Option Element := build (lex .between [] cs) []

/-! ### Writing -/

/-- An element with a text in it, or with other elements. -/
inductive Elem where
  | leaf (name : String) (attrs : List (String × String)) (text : String)
  | node (name : String) (attrs : List (String × String)) (children : List Elem)

def Elem.name : Elem → String
  | leaf name _ _ => name
  | node name _ _ => name

section

variable (name : String) (attrs : List (String × String))

@[simp] theorem Elem.name_leaf (text : String) : (Elem.leaf name attrs text).name = name := rfl

@[simp] theorem Elem.name_node (children : List Elem) :
    (Elem.node name attrs children).name = name := rfl

end

def writeAttr (a : String × String) : Attr := { name := a.1, quote := '"', raw := escape a.2 }

/-- A new line, and two spaces for each element around. -/
def indent (depth : Nat) : List Char := '\n' :: List.replicate (2 * depth) ' '

mutual

/-- `MarshalIndent`, of one element. -/
def Elem.tokens (depth : Nat) : Elem → List Token
  | .leaf name attrs text =>
    .start name (attrs.map writeAttr) false ::
      ((if text = "" then [] else [.text (escape text)]) ++ [.stop name])
  | .node name attrs children =>
    .start name (attrs.map writeAttr) false ::
      (tokensAll (depth + 1) children ++
        ((if children.isEmpty then [] else [.text (indent depth)]) ++ [.stop name]))

def tokensAll (depth : Nat) : List Elem → List Token
  | [] => []
  | e :: es => .text (indent depth) :: (e.tokens depth ++ tokensAll depth es)

end

/-- What `Header` says of a document. -/
def declaration : List Char := "xml version=\"1.0\" encoding=\"UTF-8\"".toList

/-- A document: `Header`, the element and a line feed. -/
def encode (e : Elem) : List Char :=
  render (.instruction declaration :: .text ['\n'] :: (e.tokens 0 ++ [.text ['\n']]))

mutual

/-- As it is read back. -/
def Elem.read (depth : Nat) : Elem → Element
  | .leaf name attrs text =>
    { name, attrs := attrs.map fun a => (a.1, clean a.2),
      children := if text = "" then [] else [.text (clean text)] }
  | .node name attrs children =>
    { name, attrs := attrs.map fun a => (a.1, clean a.2),
      children := readAll (depth + 1) children ++
        if children.isEmpty then [] else [.text (String.ofList (indent depth))] }

def readAll (depth : Nat) : List Elem → List Node
  | [] => []
  | e :: es => .text (String.ofList (indent depth)) :: (e.read depth).node :: readAll depth es

end

/-! ### Texts -/

theorem legal_cleanChar (c : Char) : legal (cleanChar c) = true := by
  unfold cleanChar
  by_cases h : legal c = true
  · rw [if_pos h]
    exact h
  · rw [if_neg h]
    decide

theorem clean_eq_self {s : String} (h : s.toList.all legal = true) : clean s = s := by
  have hmap : s.toList.map cleanChar = s.toList := by
    rw [List.all_eq_true] at h
    conv => rhs; rw [← List.map_id s.toList]
    exact List.map_congr_left fun c hc => if_pos (h c hc)
  rw [clean, hmap, String.ofList_toList]

@[simp] theorem clean_empty : clean "" = "" := clean_eq_self (by decide)

theorem clean_eq_empty {s : String} : clean s = "" ↔ s = "" := by
  constructor
  · intro h
    have hlist := congrArg String.toList h
    rw [clean, String.toList_ofList] at hlist
    exact String.toList_injective (List.map_eq_nil_iff.mp hlist)
  · intro h
    rw [h, clean_empty]

/-- What an escaped character may be spelled with. -/
def safe (c : Char) : Bool := !(['<', '>', '"', '\'', '\r'].contains c)

theorem escapeChar_safe (c : Char) : (escapeChar c).all safe = true := by
  unfold escapeChar
  split <;> try decide
  rename_i hquot hapos _ hlt hgt _ _ hcr
  have hc : safe c = true := by
    simp only [safe, List.contains_eq_mem, List.mem_cons, List.not_mem_nil, or_false,
      Bool.not_eq_true', decide_eq_false_iff_not, not_or]
    exact ⟨hlt, hgt, hquot, hapos, hcr⟩
  unfold cleanChar
  by_cases h : legal c = true
  · rw [if_pos h]
    simp [hc]
  · rw [if_neg h]
    decide

theorem escape_safe {s : String} {c : Char} (hc : c ∈ escape s) : safe c = true := by
  obtain ⟨d, _, hd⟩ := List.mem_flatMap.mp hc
  exact List.all_eq_true.mp (escapeChar_safe d) c hd

theorem not_mem_escape {s : String} {c : Char} (h : safe c = false) : c ∉ escape s := by
  intro hc
  rw [escape_safe hc] at h
  cases h

theorem escape_eq_nil {s : String} : escape s = [] ↔ s = "" := by
  constructor
  · intro h
    unfold escape at h
    rw [List.flatMap_eq_nil_iff] at h
    cases hs : s.toList with
    | nil => exact String.toList_injective hs
    | cons c cs =>
        have hnil := h c (by rw [hs]; exact List.mem_cons_self)
        unfold escapeChar at hnil
        split at hnil <;> simp at hnil
  · intro h
    rw [h]
    rfl

theorem newlines_eq_self {cs : List Char} (h : '\r' ∉ cs) : newlines cs = cs := by
  fun_induction newlines cs with
  | case1 cs ih => simp at h
  | case2 cs _ ih => simp at h
  | case3 c cs _ _ ih => rw [ih (fun hmem => h (List.mem_cons_of_mem c hmem))]
  | case4 => rfl

/-- A reference stands for its character. -/
theorem unescape_entity (name : List Char) {c : Char} (hname : ';' ∉ name)
    (hc : entity name = some c) (rest : List Char) :
    unescapeFrom none ('&' :: (name ++ ';' :: rest)) = (unescapeFrom none rest).map (c :: ·) := by
  have hread : ∀ (cs done : List Char), ';' ∉ cs →
      unescapeFrom (some done) (cs ++ ';' :: rest) =
        (entity (done.reverse ++ cs)).bind fun c => (unescapeFrom none rest).map (c :: ·) := by
    intro cs
    induction cs with
    | nil =>
        intro done _
        rw [List.nil_append, unescapeFrom, if_pos rfl, List.append_nil]
        rfl
    | cons d cs ih =>
        intro done hcs
        rw [List.mem_cons, not_or] at hcs
        rw [List.cons_append, unescapeFrom, if_neg (Ne.symm hcs.1), ih (d :: done) hcs.2,
          List.reverse_cons, List.append_assoc]
        rfl
  rw [unescapeFrom, if_pos rfl, hread name [] hname, List.reverse_nil, List.nil_append, hc,
    Option.bind_some]

theorem unescape_escapeChar (c : Char) (rest : List Char) :
    unescapeFrom none (escapeChar c ++ rest) =
      (unescapeFrom none rest).map (cleanChar c :: ·) := by
  unfold escapeChar
  split
  · exact unescape_entity "#34".toList (by decide) (by decide) rest
  · exact unescape_entity "#39".toList (by decide) (by decide) rest
  · exact unescape_entity "amp".toList (by decide) (by decide) rest
  · exact unescape_entity "lt".toList (by decide) (by decide) rest
  · exact unescape_entity "gt".toList (by decide) (by decide) rest
  · exact unescape_entity "#x9".toList (by decide) (by decide) rest
  · exact unescape_entity "#xA".toList (by decide) (by decide) rest
  · exact unescape_entity "#xD".toList (by decide) (by decide) rest
  · rename_i hamp _ _ _ _ _
    have hne : cleanChar c ≠ '&' := by
      unfold cleanChar
      by_cases h : legal c = true
      · rw [if_pos h]
        exact hamp
      · rw [if_neg h]
        decide
    rw [List.cons_append, List.nil_append, unescapeFrom, if_neg hne]

/-- A text that was escaped is read as it was, cleaned. -/
theorem readText_escape (s : String) : readText (escape s) = some (clean s) := by
  have hunescape : ∀ cs : List Char,
      unescapeFrom none (cs.flatMap escapeChar) = some (cs.map cleanChar) := by
    intro cs
    induction cs with
    | nil => rfl
    | cons c cs ih =>
        rw [List.flatMap_cons, unescape_escapeChar, ih]
        rfl
  have hlegal : (s.toList.map cleanChar).all legal = true := by
    rw [List.all_map, List.all_eq_true]
    intro c _
    exact legal_cleanChar c
  unfold readText
  rw [newlines_eq_self (not_mem_escape (by decide)), escape, hunescape]
  show (if (s.toList.map cleanChar).all legal = true then _ else _) = _
  rw [if_pos hlegal, clean]

/-! ### Tokens as they are spelled -/

def isName (s : String) : Bool := !s.toList.isEmpty && s.toList.all nameChar

theorem isName_cons {s : String} (h : isName s = true) :
    ∃ c cs, s.toList = c :: cs ∧ nameChar c = true := by
  rw [isName, Bool.and_eq_true] at h
  cases hs : s.toList with
  | nil => simp [hs] at h
  | cons c cs => exact ⟨c, cs, rfl, List.all_eq_true.mp h.2 c (by simp [hs])⟩

theorem takeWhile_name {s : String} (h : isName s = true) {rest : List Char}
    (hrest : ∀ c ∈ rest.head?, nameChar c = false) :
    (s.toList ++ rest).takeWhile nameChar = s.toList := by
  rw [isName, Bool.and_eq_true, List.all_eq_true] at h
  rw [List.takeWhile_append_of_pos h.2]
  cases rest with
  | nil => rw [List.takeWhile_nil, List.append_nil]
  | cons c rest =>
      rw [List.takeWhile_cons_of_neg (by simp [hrest c rfl]), List.append_nil]

theorem skip_name {s : String} (h : isName s = true) (rest : List Char) :
    skip (s.toList ++ rest) = s.toList ++ rest := by
  obtain ⟨c, cs, hs, hc⟩ := isName_cons h
  rw [hs, List.cons_append, skip, List.dropWhile_cons_of_neg]
  intro hblank
  rw [nameChar, hblank] at hc
  cases hc

/-- An attribute with a name, in quotes that its value does not have. -/
structure Attr.Sound (a : Attr) : Prop where
  name : isName a.name = true
  quote : a.quote = '"' ∨ a.quote = '\''
  unquoted : a.quote ∉ a.raw
  unopened : '<' ∉ a.raw

theorem takeWhile_raw {raw rest : List Char} {quote : Char} (h : quote ∉ raw) :
    (raw ++ quote :: rest).takeWhile (· ≠ quote) = raw := by
  rw [List.takeWhile_append_of_pos, List.takeWhile_cons_of_neg (by simp), List.append_nil]
  intro c hc
  exact decide_eq_true fun heq => h (heq ▸ hc)

/-- One attribute is read off. -/
theorem readAttrs_cons {a : Attr} (ha : a.Sound) (fuel : Nat) (rest : List Char) :
    readAttrs (fuel + 1) (a.render ++ rest) =
      (readAttrs fuel rest).map fun r => (a :: r.1, r.2) := by
  obtain ⟨c, cs, hs, hc⟩ := isName_cons ha.name
  have hslash : c ≠ '/' := by
    intro heq
    rw [heq] at hc
    exact absurd hc (by decide)
  have hskip : skip (a.render ++ rest) =
      c :: (cs ++ '=' :: a.quote :: (a.raw ++ a.quote :: rest)) := by
    have h := skip_name ha.name ('=' :: a.quote :: (a.raw ++ a.quote :: rest))
    rw [hs, List.cons_append] at h
    unfold Attr.render
    rw [List.cons_append, skip, List.dropWhile_cons_of_pos (by decide), hs]
    simpa [skip] using h
  have hname : (c :: (cs ++ '=' :: a.quote :: (a.raw ++ a.quote :: rest))).takeWhile nameChar =
      a.name.toList := by
    rw [← List.cons_append, ← hs]
    exact takeWhile_name ha.name (by simp; decide)
  have hdrop : (c :: (cs ++ '=' :: a.quote :: (a.raw ++ a.quote :: rest))).drop
      a.name.toList.length = '=' :: a.quote :: (a.raw ++ a.quote :: rest) := by
    rw [← List.cons_append, ← hs, List.drop_left]
  have hquote : skip (a.quote :: (a.raw ++ a.quote :: rest)) =
      a.quote :: (a.raw ++ a.quote :: rest) := by
    rw [skip, List.dropWhile_cons_of_neg]
    rcases ha.quote with h | h <;> rw [h] <;> decide
  have hne : a.name.toList ≠ [] := by
    rw [hs]
    exact List.cons_ne_nil c cs
  have hok : ¬ (a.name.toList = [] ∨ (a.quote ≠ '"' ∧ a.quote ≠ '\'') ∨ '<' ∈ a.raw) := by
    rintro (h | h | h)
    · exact hne h
    · exact ha.quote.elim h.1 h.2
    · exact ha.unopened h
  have hequals : skip ('=' :: a.quote :: (a.raw ++ a.quote :: rest)) =
      '=' :: a.quote :: (a.raw ++ a.quote :: rest) := by
    rw [skip, List.dropWhile_cons_of_neg (by decide)]
  rw [readAttrs, hskip]
  split
  · rename_i heq
    cases heq
  · rename_i heq
    exact absurd (List.cons.inj heq).1 hslash
  · rename_i heq
    obtain ⟨rfl, rfl⟩ := List.cons.inj heq
    simp only [hname, hdrop, hequals, hquote, takeWhile_raw ha.unquoted, List.drop_left,
      String.ofList_toList]
    rw [if_neg hok]

theorem renderAttrs_cons (a : Attr) (attrs : List Attr) (closed : Bool) :
    renderAttrs (a :: attrs) closed = a.render ++ renderAttrs attrs closed := by
  rw [renderAttrs, List.flatMap_cons, List.append_assoc]
  rfl

theorem readAttrs_render {attrs : List Attr} (h : ∀ a ∈ attrs, a.Sound) (closed : Bool)
    {fuel : Nat} (hfuel : attrs.length < fuel) :
    readAttrs fuel (renderAttrs attrs closed) = some (attrs, closed) := by
  induction attrs generalizing fuel with
  | nil =>
      cases fuel with
      | zero => omega
      | succ fuel => cases closed <;> rfl
  | cons a attrs ih =>
      cases fuel with
      | zero => omega
      | succ fuel =>
          rw [List.length_cons] at hfuel
          rw [renderAttrs_cons, readAttrs_cons (h a List.mem_cons_self),
            ih (fun b hb => h b (List.mem_cons_of_mem a hb)) (by omega)]
          rfl

theorem head_renderAttrs (attrs : List Attr) (closed : Bool) :
    ∀ c ∈ (renderAttrs attrs closed).head?, nameChar c = false := by
  intro c hc
  cases attrs with
  | nil =>
      cases closed with
      | false => cases hc
      | true =>
          obtain rfl : '/' = c := by simpa [renderAttrs] using hc
          decide
  | cons a attrs =>
      obtain rfl : ' ' = c := by simpa [renderAttrs, Attr.render] using hc
      decide

theorem length_le_renderAttrs (attrs : List Attr) (closed : Bool) :
    attrs.length ≤ (renderAttrs attrs closed).length := by
  induction attrs with
  | nil => exact Nat.zero_le _
  | cons a attrs ih =>
      have hpos : 0 < a.render.length := by simp [Attr.render]
      rw [renderAttrs_cons, List.length_append, List.length_cons]
      omega

theorem readTag_start {name : String} (hname : isName name = true) {attrs : List Attr}
    (hattrs : ∀ a ∈ attrs, a.Sound) (closed : Bool) :
    readTag (name.toList ++ renderAttrs attrs closed) = some (.start name attrs closed) := by
  obtain ⟨c, cs, hs, hc⟩ := isName_cons hname
  have hne : name.toList ≠ [] := by
    rw [hs]
    exact List.cons_ne_nil c cs
  have hlen := length_le_renderAttrs attrs closed
  unfold readTag
  split
  · rename_i rest heq
    rw [hs, List.cons_append, List.cons.injEq] at heq
    rw [heq.1] at hc
    exact absurd hc (by decide)
  · simp only [takeWhile_name hname (head_renderAttrs attrs closed), List.drop_left,
      String.ofList_toList]
    rw [if_neg hne, readAttrs_render hattrs closed (by rw [List.length_append]; omega)]
    rfl

theorem readTag_stop {name : String} (hname : isName name = true) :
    readTag ('/' :: name.toList) = some (.stop name) := by
  obtain ⟨c, cs, hs, _⟩ := isName_cons hname
  have htake : (name.toList ++ []).takeWhile nameChar = name.toList :=
    takeWhile_name hname (by simp)
  rw [List.append_nil] at htake
  unfold readTag
  simp only [htake, List.drop_length, String.ofList_toList]
  rw [if_pos ⟨by rw [hs]; exact List.cons_ne_nil c cs, rfl⟩]

/-! ### Lexing -/

theorem flush_nil (ts : List (Option Token)) : flush [] ts = ts := if_pos rfl

section

variable (acc : List Char) (c : Char) (cs : List Char)

theorem lex_between : lex .between acc (c :: cs) =
    if c = '<' then flush acc (lex (.inTag none) [] cs) else lex .between (c :: acc) cs := rfl

theorem lex_inTag : lex (.inTag none) acc (c :: cs) =
    if c = '>' then readTag acc.reverse :: lex .between [] cs
    else if c = '?' ∧ acc = [] then lex .inInstruction [] cs
    else if c = '"' ∨ c = '\'' then lex (.inTag (some c)) (c :: acc) cs
    else lex (.inTag none) (c :: acc) cs := rfl

theorem lex_inQuotes (quote : Char) : lex (.inTag (some quote)) acc (c :: cs) =
    if c = quote then lex (.inTag none) (c :: acc) cs
    else lex (.inTag (some quote)) (c :: acc) cs := rfl

theorem lex_inInstruction : lex .inInstruction acc (c :: cs) =
    if c = '>' ∧ acc.head? = some '?' then
      readInstruction acc.tail.reverse :: lex .between [] cs
    else lex .inInstruction (c :: acc) cs := rfl

end

theorem lex_text {raw : List Char} (h : '<' ∉ raw) (acc rest : List Char) :
    lex .between acc (raw ++ rest) = lex .between (raw.reverse ++ acc) rest := by
  induction raw generalizing acc with
  | nil => rfl
  | cons c raw ih =>
      rw [List.mem_cons, not_or] at h
      rw [List.cons_append, lex_between, if_neg (Ne.symm h.1), ih h.2, List.reverse_cons,
        List.append_assoc]
      rfl

/-- Inside a tag, up to a quote or to its end. -/
theorem lex_unquoted {cs : List Char} (h : ∀ c ∈ cs, c ≠ '>' ∧ c ≠ '"' ∧ c ≠ '\'' ∧ c ≠ '?')
    (acc rest : List Char) :
    lex (.inTag none) acc (cs ++ rest) = lex (.inTag none) (cs.reverse ++ acc) rest := by
  induction cs generalizing acc with
  | nil => rfl
  | cons c cs ih =>
      obtain ⟨hgt, hquot, hapos, hask⟩ := h c List.mem_cons_self
      rw [List.cons_append, lex_inTag, if_neg hgt, if_neg (fun hc => hask hc.1),
        if_neg (not_or.mpr ⟨hquot, hapos⟩), ih (fun d hd => h d (List.mem_cons_of_mem c hd)),
        List.reverse_cons, List.append_assoc]
      rfl

theorem lex_quoted {raw : List Char} {quote : Char} (h : quote ∉ raw) (acc rest : List Char) :
    lex (.inTag (some quote)) acc (raw ++ quote :: rest) =
      lex (.inTag none) (quote :: (raw.reverse ++ acc)) rest := by
  induction raw generalizing acc with
  | nil => rw [List.nil_append, lex_inQuotes, if_pos rfl, List.reverse_nil, List.nil_append]
  | cons c raw ih =>
      rw [List.mem_cons, not_or] at h
      rw [List.cons_append, lex_inQuotes, if_neg (Ne.symm h.1), ih h.2, List.reverse_cons,
        List.append_assoc]
      rfl

theorem name_unquoted {s : String} (h : isName s = true) :
    ∀ c ∈ s.toList, c ≠ '>' ∧ c ≠ '"' ∧ c ≠ '\'' ∧ c ≠ '?' := by
  intro c hc
  rw [isName, Bool.and_eq_true, List.all_eq_true] at h
  have hname := h.2 c hc
  refine ⟨?_, ?_, ?_, ?_⟩ <;>
    · intro heq
      rw [heq] at hname
      exact absurd hname (by decide)

theorem lex_attr {a : Attr} (ha : a.Sound) (acc rest : List Char) :
    lex (.inTag none) acc (a.render ++ rest) =
      lex (.inTag none) (a.render.reverse ++ acc) rest := by
  have hquote : a.quote ≠ '>' ∧ a.quote ≠ '?' := by
    rcases ha.quote with h | h <;> rw [h] <;> decide
  have hopen : ∀ acc rest, lex (.inTag none) acc (' ' :: (a.name.toList ++ '=' :: rest)) =
      lex (.inTag none) ('=' :: (a.name.toList.reverse ++ ' ' :: acc)) rest := by
    intro acc rest
    have hplain : ∀ c ∈ ' ' :: (a.name.toList ++ ['=']),
        c ≠ '>' ∧ c ≠ '"' ∧ c ≠ '\'' ∧ c ≠ '?' := by
      intro c hc
      rcases List.mem_cons.mp hc with rfl | hc
      · decide
      rcases List.mem_append.mp hc with hc | hc
      · exact name_unquoted ha.name c hc
      · obtain rfl := List.mem_singleton.mp hc
        decide
    have h := lex_unquoted hplain acc rest
    simpa using h
  unfold Attr.render
  rw [List.cons_append, List.append_assoc, List.cons_append, hopen, List.cons_append, lex_inTag,
    if_neg hquote.1, if_neg (fun h => hquote.2 h.1), if_pos ha.quote, List.append_assoc,
    List.singleton_append, lex_quoted ha.unquoted]
  simp

theorem lex_renderAttrs {attrs : List Attr} (h : ∀ a ∈ attrs, a.Sound) (closed : Bool)
    (acc rest : List Char) :
    lex (.inTag none) acc (renderAttrs attrs closed ++ '>' :: rest) =
      readTag (acc.reverse ++ renderAttrs attrs closed) :: lex .between [] rest := by
  induction attrs generalizing acc with
  | nil =>
      cases closed with
      | false =>
          show lex (.inTag none) acc ('>' :: rest) = _
          rw [lex_inTag, if_pos rfl]
          simp [renderAttrs]
      | true =>
          show lex (.inTag none) acc (['/'] ++ '>' :: rest) = _
          rw [lex_unquoted (by simp), lex_inTag, if_pos rfl]
          simp [renderAttrs]
  | cons a attrs ih =>
      rw [renderAttrs_cons, List.append_assoc, lex_attr (h a List.mem_cons_self),
        ih (fun b hb => h b (List.mem_cons_of_mem a hb)), List.reverse_append,
        List.reverse_reverse, List.append_assoc]

theorem lex_instruction {body : List Char} (h : '>' ∉ body) (acc rest : List Char) :
    lex .inInstruction acc (body ++ '?' :: '>' :: rest) =
      readInstruction (acc.reverse ++ body) :: lex .between [] rest := by
  induction body generalizing acc with
  | nil =>
      rw [List.nil_append, lex_inInstruction, if_neg (by simp), lex_inInstruction, if_pos ⟨rfl, rfl⟩, List.tail_cons,
        List.append_nil]
  | cons c body ih =>
      rw [List.mem_cons, not_or] at h
      rw [List.cons_append, lex_inInstruction, if_neg (fun hc => h.1 hc.1.symm), ih h.2, List.reverse_cons,
        List.append_assoc]
      rfl

/-- A token that is not a text, and is read as it is spelled. -/
def Token.Tag : Token → Prop
  | start name attrs _ => isName name = true ∧ ∀ a ∈ attrs, a.Sound
  | stop name => isName name = true
  | text _ => False
  | instruction body => '>' ∉ body ∧ body.takeWhile nameChar ≠ []

theorem lex_tag {t : Token} (ht : t.Tag) (acc rest : List Char) :
    lex .between acc (t.render ++ rest) = flush acc (some t :: lex .between [] rest) := by
  cases t with
  | text raw => exact ht.elim
  | start name attrs closed =>
      obtain ⟨hname, hattrs⟩ := ht
      rw [Token.render, List.cons_append, lex_between, if_pos rfl, List.append_assoc,
        lex_unquoted (name_unquoted hname), List.append_assoc, List.singleton_append,
        lex_renderAttrs hattrs, List.append_nil, List.reverse_reverse, readTag_start hname hattrs]
  | stop name =>
      have hplain : ∀ c ∈ '/' :: name.toList, c ≠ '>' ∧ c ≠ '"' ∧ c ≠ '\'' ∧ c ≠ '?' := by
        intro c hc
        rcases List.mem_cons.mp hc with rfl | hc
        · decide
        · exact name_unquoted ht c hc
      rw [Token.render, List.cons_append, lex_between, if_pos rfl, ← List.cons_append, List.append_assoc,
        lex_unquoted hplain, List.singleton_append, lex_inTag, if_pos rfl, List.append_nil,
        List.reverse_reverse, readTag_stop ht]
  | instruction body =>
      obtain ⟨hbody, hname⟩ := ht
      rw [Token.render, List.cons_append, lex_between, if_pos rfl, List.cons_append, lex_inTag,
        if_neg (by decide), if_pos ⟨rfl, rfl⟩, List.append_assoc]
      show flush acc (lex .inInstruction [] (body ++ '?' :: '>' :: rest)) = _
      rw [lex_instruction hbody, List.reverse_nil, List.nil_append, readInstruction, if_pos hname]

/-- The tokens are told apart by their spelling; `after` says that a text stands before. -/
def Spelled : Bool → List Token → Prop
  | _, [] => True
  | after, .text raw :: ts => after = false ∧ raw ≠ [] ∧ '<' ∉ raw ∧ Spelled true ts
  | _, t :: ts => t.Tag ∧ Spelled false ts

theorem lex_spelled {ts : List Token} {acc : List Char} (h : Spelled (!acc.isEmpty) ts) :
    lex .between acc (render ts) = flush acc (ts.map some) := by
  induction ts generalizing acc with
  | nil => rfl
  | cons t ts ih =>
      rw [render, List.flatMap_cons]
      have htag : t.Tag ∧ Spelled false ts →
          lex .between acc (t.render ++ render ts) = flush acc (some t :: ts.map some) := by
        rintro ⟨ht, hts⟩
        rw [lex_tag ht, ih (by exact hts), flush_nil]
      cases t with
      | text raw =>
          obtain ⟨hacc, hne, hopen, hts⟩ := h
          have hnil : acc = [] := by simpa using hacc
          have hafter : (!(raw.reverse ++ []).isEmpty) = true := by simpa using hne
          show lex .between acc (raw ++ render ts) = _
          rw [hnil, lex_text hopen, ih (by rw [hafter]; exact hts), List.append_nil, flush_nil,
            flush, if_neg (by simpa using hne), List.reverse_reverse]
          rfl
      | start name attrs closed => exact htag h
      | stop name => exact htag h
      | instruction body => exact htag h

/-- What is written of tokens is lexed into them. -/
theorem lex_render {ts : List Token} (h : Spelled false ts) :
    lex .between [] (render ts) = ts.map some := by
  rw [lex_spelled (by exact h), flush_nil]

/-! ### What is written -/

mutual

/-- The names of an element, and of those in it, are names. -/
def Elem.named : Elem → Bool
  | .leaf name attrs _ => isName name && attrs.all fun a => isName a.1
  | .node name attrs children =>
    isName name && (attrs.all fun a => isName a.1) && namedAll children

def namedAll : List Elem → Bool
  | [] => true
  | e :: es => e.named && namedAll es

end

theorem namedAll_eq (es : List Elem) : namedAll es = es.all Elem.named := by
  induction es with
  | nil => rfl
  | cons e es ih => rw [namedAll, ih, List.all_cons]

/-- Elements and lists of them, together. -/
theorem Elem.induction {P : Elem → Prop} {Q : List Elem → Prop}
    (leaf : ∀ name attrs text, P (.leaf name attrs text))
    (node : ∀ name attrs children, Q children → P (.node name attrs children))
    (nil : Q []) (cons : ∀ e es, P e → Q es → Q (e :: es)) : (∀ e, P e) ∧ ∀ es, Q es := by
  have helem : ∀ e, P e := fun e => @Elem.rec P Q leaf node nil cons e
  refine ⟨helem, fun es => ?_⟩
  induction es with
  | nil => exact nil
  | cons e es ih => exact cons e es (helem e) ih

theorem writeAttr_sound {attrs : List (String × String)}
    (h : (attrs.all fun a => isName a.1) = true) : ∀ a ∈ attrs.map writeAttr, a.Sound := by
  intro a ha
  obtain ⟨b, hb, rfl⟩ := List.mem_map.mp ha
  exact {
    name := List.all_eq_true.mp h b hb
    quote := Or.inl rfl
    unquoted := not_mem_escape (c := '"') (by decide)
    unopened := not_mem_escape (by decide) }

theorem indent_spelled (depth : Nat) : indent depth ≠ [] ∧ '<' ∉ indent depth := by
  refine ⟨List.cons_ne_nil _ _, ?_⟩
  intro h
  rcases List.mem_cons.mp h with h | h
  · exact absurd h (by decide)
  · exact absurd (List.eq_of_mem_replicate h) (by decide)

theorem spelled_both :
    (∀ e : Elem, ∀ depth after ts, e.named = true → Spelled false ts →
      Spelled after (e.tokens depth ++ ts)) ∧
    ∀ es : List Elem, ∀ depth ts, namedAll es = true → Spelled false ts →
      Spelled false (tokensAll depth es ++ ts) := by
  refine Elem.induction ?_ ?_ ?_ ?_
  · intro name attrs text depth after ts hname hts
    rw [Elem.named, Bool.and_eq_true] at hname
    rw [Elem.tokens, List.cons_append]
    refine ⟨⟨hname.1, writeAttr_sound hname.2⟩, ?_⟩
    by_cases htext : text = ""
    · rw [if_pos htext]
      exact ⟨hname.1, hts⟩
    · rw [if_neg htext]
      exact ⟨rfl, fun h => htext (escape_eq_nil.mp h), not_mem_escape (by decide), hname.1, hts⟩
  · intro name attrs children ih depth after ts hname hts
    rw [Elem.named, Bool.and_eq_true, Bool.and_eq_true] at hname
    obtain ⟨⟨hself, hattrs⟩, hchildren⟩ := hname
    rw [Elem.tokens, List.cons_append, List.append_assoc]
    refine ⟨⟨hself, writeAttr_sound hattrs⟩, ih _ _ hchildren ?_⟩
    by_cases hempty : children.isEmpty = true
    · rw [if_pos hempty]
      exact ⟨hself, hts⟩
    · rw [if_neg hempty]
      exact ⟨rfl, (indent_spelled depth).1, (indent_spelled depth).2, hself, hts⟩
  · intro depth ts _ hts
    exact hts
  · intro e es ihe ihes depth ts hname hts
    rw [namedAll, Bool.and_eq_true] at hname
    rw [tokensAll, List.cons_append, List.append_assoc]
    exact ⟨rfl, (indent_spelled depth).1, (indent_spelled depth).2,
      ihe _ _ _ hname.1 (ihes _ _ hname.2 hts)⟩

theorem readValues_writeAttr (attrs : List (String × String)) :
    readValues (attrs.map writeAttr) = some (attrs.map fun a => (a.1, clean a.2)) := by
  unfold readValues
  rw [List.mapM_map]
  induction attrs with
  | nil => rfl
  | cons a attrs ih =>
      rw [List.mapM_cons, ih]
      simp [writeAttr, readText_escape]

theorem readText_indent (depth : Nat) :
    readText (indent depth) = some (String.ofList (indent depth)) := by
  have hmem : ∀ c ∈ indent depth, c = '\n' ∨ c = ' ' := by
    intro c hc
    rcases List.mem_cons.mp hc with hc | hc
    · exact Or.inl hc
    · exact Or.inr (List.eq_of_mem_replicate hc)
  have hplain : ∀ cs : List Char, (∀ c ∈ cs, c = '\n' ∨ c = ' ') →
      unescapeFrom none cs = some cs := by
    intro cs hcs
    induction cs with
    | nil => rfl
    | cons c cs ih =>
        have hc : c ≠ '&' := by
          rcases hcs c List.mem_cons_self with rfl | rfl <;> decide
        rw [unescapeFrom, if_neg hc, ih fun d hd => hcs d (List.mem_cons_of_mem c hd)]
        rfl
  have hlegal : (indent depth).all legal = true := by
    rw [List.all_eq_true]
    intro c hc
    rcases hmem c hc with rfl | rfl <;> decide
  have hlines : newlines (indent depth) = indent depth := by
    apply newlines_eq_self
    intro h
    rcases hmem _ h with h | h <;> exact absurd h (by decide)
  unfold readText
  rw [hlines, hplain _ hmem]
  show (if (indent depth).all legal = true then _ else _) = _
  rw [if_pos hlegal]

theorem build_start {name : String} {attrs : List (String × String)} (ts : List (Option Token))
    (st : List Element) :
    build (some (.start name (attrs.map writeAttr) false) :: ts) st =
      build ts ({ name, attrs := attrs.map fun a => (a.1, clean a.2) } :: st) := by
  rw [build, readValues_writeAttr]
  rfl

theorem build_text {raw : List Char} {s : String} (h : readText raw = some s)
    (ts : List (Option Token)) (f : Element) (st : List Element) :
    build (some (.text raw) :: ts) (f :: st) = build ts (f.add (.text s) :: st) := by
  rw [build, h]
  rfl

theorem build_stop (ts : List (Option Token)) (f : Element) (st : List Element) :
    build (some (.stop f.name) :: ts) (f :: st) = f.finish (fun st => build ts st) st := by
  rw [build, if_pos rfl]

theorem build_both :
    (∀ e : Elem, ∀ depth ts st, build ((e.tokens depth).map some ++ ts) st =
      (e.read depth).finish (fun st => build ts st) st) ∧
    ∀ es : List Elem, ∀ depth ts (f : Element) st,
      build ((tokensAll depth es).map some ++ ts) (f :: st) =
        build ts ({ f with children := f.children ++ readAll depth es } :: st) := by
  refine Elem.induction ?_ ?_ ?_ ?_
  · intro name attrs text depth ts st
    rw [Elem.tokens, List.map_cons, List.cons_append, build_start]
    by_cases htext : text = ""
    · rw [if_pos htext, Elem.read, if_pos htext]
      exact build_stop ts { name, attrs := attrs.map fun a => (a.1, clean a.2) } st
    · rw [if_neg htext, Elem.read, if_neg htext, List.map_append, List.append_assoc, List.map_cons,
        List.map_nil, List.singleton_append, build_text (readText_escape text)]
      exact build_stop ts _ st
  · intro name attrs children ih depth ts st
    rw [Elem.tokens, List.map_cons, List.cons_append, build_start, List.map_append,
      List.append_assoc, ih]
    by_cases hempty : children.isEmpty = true
    · rw [if_pos hempty, Elem.read, if_pos hempty, List.append_nil]
      exact build_stop ts _ st
    · rw [if_neg hempty, Elem.read, if_neg hempty, List.map_append, List.append_assoc, List.map_cons,
        List.map_nil, List.singleton_append, build_text (readText_indent depth)]
      exact build_stop ts _ st
  · intro depth ts f st
    rw [tokensAll, readAll, List.append_nil]
    rfl
  · intro e es ihe ihes depth ts f st
    rw [tokensAll, List.map_cons, List.map_append, List.cons_append, List.append_assoc,
      build_text (readText_indent depth), ihe, Element.finish, ihes]
    simp [Element.add, readAll]

/-- A document is read as it was written. -/
theorem decode_encode {e : Elem} (h : e.named = true) : decode (encode e) = some (e.read 0) := by
  have hspelled : Spelled false
      (.instruction declaration :: .text ['\n'] :: (e.tokens 0 ++ [.text ['\n']])) := by
    refine ⟨⟨by decide, by decide⟩, rfl, by simp, by decide, spelled_both.1 e 0 true _ h ?_⟩
    exact ⟨rfl, by simp, by decide, trivial⟩
  have hline : readText ['\n'] = some (String.ofList ['\n']) := readText_indent 0
  rw [decode, encode, lex_render hspelled, List.map_cons, List.map_cons, List.map_append, build,
    build, hline]
  exact build_both.1 e 0 _ []

end Xml
