/-
The Guacamole protocol codec (`internal/api/guacd.go`).

An instruction is a list of elements, each with its length in characters before it; a comma
follows an element that is not the last, and a semicolon the last.  The reader takes the
length at its word: it makes room for that many characters before it has read one.
-/
import VMSmith.Lib.Reader

namespace VMSmith.Api

open Go

/-- `guacInstruction`. -/
structure GuacInstruction where
  opcode : Bytes
  args : List Bytes
  deriving DecidableEq, Repr

/-- `writeElem`. -/
def writeElem (v : Bytes) : Bytes :=
  ascii (toString (runes v).length) ++ 0x2E :: v

def encodeGuacInstruction (opcode : Bytes) (args : List Bytes) : Bytes :=
  writeElem opcode ++ args.flatMap (fun a => 0x2C :: writeElem a) ++ [0x3B]

/-- Instructions written one after the other. -/
def encodeInstructions (is : List GuacInstruction) : Bytes :=
  is.flatMap fun i => encodeGuacInstruction i.opcode i.args

/-- Why an instruction was not read. -/
inductive GuacError where
  /-- The stream came to its end, or failed. -/
  | stream
  /-- `invalid guacamole element length %q`. -/
  | length (text : Bytes)
  /-- `invalid guacamole delimiter %q`. -/
  | delimiter (delim : Char)
  deriving DecidableEq, Repr

/-- `strings.TrimSuffix(lenStr, ".")`. -/
def trimDot (lenStr : Bytes) : Bytes :=
  if lenStr.getLast? = some 0x2E then lenStr.dropLast else lenStr

/-- The loop that fills a slice from index `i` on, with `left` characters to go. -/
def readRunes (closed : Option GuacError) :
    Nat → Nat → List Char → Bytes → Outcome GuacError (List Char)
  | 0, _, runes, s => .value runes s
  | left + 1, i, runes, s =>
      match readRune closed s with
      | .value r s =>
          if i < runes.length then readRunes closed left (i + 1) (runes.set i r) s
          else .panicked
      | .error e => .error e
      | .waiting => .waiting
      | .panicked => .panicked

/-- `guacReader.readElement`: the value, and whether the instruction ended. -/
def readElement (closed : Option GuacError) (s : Bytes) : Reading GuacError (Bytes × Bool) :=
  (Reading.plain (readString closed 0x2E s)).andThen fun lenStr s =>
    match atoi (latin1 (trimDot lenStr)) with
    | none => .plain (.error (.length (trimDot lenStr)))
    | some n =>
        if n < 0 then .plain (.error (.length (trimDot lenStr)))
        else
          let runes := List.replicate n.toNat '\x00'
          (Reading.mk [n.toNat] (readRunes closed n.toNat 0 runes s)).andThen fun runes s =>
            (Reading.plain (readRune closed s)).andThen fun delim s =>
              if delim = ',' then .plain (.value (utf8 runes, false) s)
              else if delim = ';' then .plain (.value (utf8 runes, true) s)
              else .plain (.error (.delimiter delim))

/-! ### What the loop reads -/

/-- The loop fills the slice with the characters that come next, and every index is in it. -/
theorem readRunes_eq (closed : Option GuacError) : ∀ (left : Nat) (done : List Char) (s : Bytes),
    readRunes closed left done.length (done ++ List.replicate left '\x00') s =
      match takeRunes closed left s with
      | .value cs rest => .value (done ++ cs) rest
      | .error e => .error e
      | .waiting => .waiting
      | .panicked => .panicked := by
  intro left
  induction left with
  | zero => intro done s; simp [readRunes, takeRunes]
  | succ left ih =>
      intro done s
      have hin : done.length < (done ++ List.replicate (left + 1) '\x00').length := by
        rw [List.length_append, List.length_replicate]
        omega
      rw [readRunes, takeRunes]
      cases readRune closed s with
      | error e => rfl
      | waiting => rfl
      | panicked => rfl
      | value c s' =>
          have hset : (done ++ List.replicate (left + 1) '\x00').set done.length c =
              (done ++ [c]) ++ List.replicate left '\x00' := by
            rw [List.replicate_succ, List.set_append_right _ _ (le_refl _), Nat.sub_self]
            simp
          have hlength : (done ++ [c]).length = done.length + 1 := List.length_append
          dsimp only
          rw [if_pos hin, hset, ← hlength, ih]
          cases takeRunes closed left s' <;> simp

/-- `readRunes_eq`, of the whole slice. -/
theorem readRunes_zero (closed : Option GuacError) (n : Nat) (s : Bytes) :
    readRunes closed n 0 (List.replicate n '\x00') s = takeRunes closed n s := by
  have h := readRunes_eq closed n [] s
  rw [List.length_nil, List.nil_append] at h
  rw [h]
  cases takeRunes closed n s <;> simp

theorem trimDot_append (x : Bytes) : trimDot (x ++ [0x2E]) = x := by
  rw [trimDot, if_pos (by simp), List.dropLast_concat]

/-- An element as it stands in a stream: any text for its length, and any bytes. -/
structure Element where
  lenText : Bytes
  body : Bytes
  last : Bool

namespace Element

/-- The delimiter that follows. -/
def delim (e : Element) : UInt8 := if e.last then 0x3B else 0x2C

def wire (e : Element) : Bytes := e.lenText ++ 0x2E :: (e.body ++ [e.delim])

/-- What is made of the bytes. -/
def value (e : Element) : Bytes := utf8 (runes e.body)

/-- The length is the number of characters, in some way of writing it. -/
def Legible (e : Element) : Prop :=
  0x2E ∉ e.lenText ∧ atoi (latin1 e.lenText) = some ((runes e.body).length : Int)

theorem delim_ascii (e : Element) : e.delim < 0x80 := by
  unfold delim
  split_ifs <;> decide

theorem wire_append (e : Element) (rest : Bytes) :
    e.wire ++ rest = e.lenText ++ 0x2E :: (e.body ++ e.delim :: rest) := by
  simp [wire]

end Element

/-- What is read after a length. -/
def afterLength (closed : Option GuacError) (n : Nat) (s : Bytes) :
    Reading GuacError (Bytes × Bool) :=
  (Reading.mk [n] (takeRunes closed n s)).andThen fun runes s =>
    (Reading.plain (readRune closed s)).andThen fun delim s =>
      if delim = ',' then .plain (.value (utf8 runes, false) s)
      else if delim = ';' then .plain (.value (utf8 runes, true) s)
      else .plain (.error (.delimiter delim))

/-- A length is acted on as soon as the dot after it is there. -/
theorem readElement_length (closed : Option GuacError) {lenText : Bytes} {n : Nat}
    (hdot : 0x2E ∉ lenText) (hlen : atoi (latin1 lenText) = some (n : Int)) (tail : Bytes) :
    readElement closed (lenText ++ 0x2E :: tail) = afterLength closed n tail := by
  rw [readElement, Reading.andThen_value (readString_append closed hdot _), trimDot_append, hlen]
  dsimp only
  rw [if_neg (by omega), Int.toNat_natCast, readRunes_zero]
  rfl

/-- Without a length there is neither a slice nor a value. -/
theorem readElement_cases (closed : Option GuacError) (s : Bytes) :
    (∃ lenText n tail, 0x2E ∉ lenText ∧ atoi (latin1 lenText) = some ((n : Nat) : Int) ∧
      s = lenText ++ 0x2E :: tail) ∨
    (readElement closed s).made = [] ∧
      ((∃ e, (readElement closed s).outcome = .error e) ∨ (readElement closed s).outcome = .waiting) := by
  cases hline : readString closed 0x2E s with
  | error e =>
      refine Or.inr ?_
      rw [readElement, hline]
      exact ⟨rfl, Or.inl ⟨e, rfl⟩⟩
  | waiting =>
      refine Or.inr ?_
      rw [readElement, hline]
      exact ⟨rfl, Or.inr rfl⟩
  | panicked => exact absurd hline (readString_ne_panicked closed _ s)
  | value line tail =>
      obtain ⟨lenText, hdot, rfl, rfl⟩ := of_readString hline
      by_cases hlen : ∃ n : Nat, atoi (latin1 lenText) = some (n : Int)
      · obtain ⟨n, hn⟩ := hlen
        exact Or.inl ⟨lenText, n, tail, hdot, hn, rfl⟩
      · refine Or.inr ?_
        have hbad : readElement closed (lenText ++ 0x2E :: tail) =
            .plain (.error (.length lenText)) := by
          rw [readElement, Reading.andThen_value hline, trimDot_append]
          cases hn : atoi (latin1 lenText) with
          | none => rfl
          | some n =>
              have hneg : n < 0 := by
                by_contra hnot
                exact hlen ⟨n.toNat, by rw [hn, Int.toNat_of_nonneg (not_lt.mp hnot)]⟩
              dsimp only
              rw [if_pos hneg]
              rfl
        rw [hbad]
        exact ⟨rfl, Or.inl ⟨_, rfl⟩⟩

/-- A legible element is read wherever it stands. -/
theorem readElement_legible (closed : Option GuacError) {e : Element} (he : e.Legible) (rest : Bytes) :
    readElement closed (e.wire ++ rest) =
      ⟨[(runes e.body).length], .value (e.value, e.last) rest⟩ := by
  have htake := takeRunes_append_ascii e.delim_ascii closed rest _ e.body rfl
  rw [e.wire_append, readElement_length closed he.1 he.2, afterLength, Reading.andThen_value htake,
    Reading.andThen_value (readRune_ascii e.delim_ascii closed rest)]
  unfold Element.delim Element.value
  cases e.last <;> rfl

/-- Nothing else is read as an element. -/
theorem of_readElement {closed : Option GuacError} {s rest v : Bytes} {last : Bool}
    (h : (readElement closed s).outcome = .value (v, last) rest) :
    ∃ e : Element, e.Legible ∧ s = e.wire ++ rest ∧ v = e.value ∧ last = e.last := by
  rcases readElement_cases closed s with ⟨lenText, n, tail, hdot, hlen, rfl⟩ | ⟨-, ⟨e, herror⟩ | hwait⟩
  · rw [readElement_length closed hdot hlen, afterLength, Reading.andThen_value_iff] at h
    obtain ⟨cs, tail', htake, h⟩ := h
    rw [Reading.andThen_value_iff] at h
    obtain ⟨delim, tail'', hdelim, h⟩ := h
    -- either delimiter is an ASCII byte
    have hread : ∀ {a : UInt8}, a < 0x80 → delim = Char.ofNat a.toNat →
        ∃ body, tail = body ++ a :: tail'' ∧ runes body = cs ∧ cs.length = n := by
      intro a ha heq
      rw [heq] at hdelim
      have htail := of_readRune_ascii ha hdelim
      rw [htail] at htake
      exact of_takeRunes ha htake
    by_cases hcomma : delim = ','
    · rw [if_pos hcomma] at h
      cases h
      obtain ⟨body, rfl, rfl, rfl⟩ := hread (a := 0x2C) (by decide) hcomma
      refine ⟨⟨lenText, body, false⟩, ⟨hdot, hlen⟩, ?_, rfl, rfl⟩
      exact (Element.wire_append ⟨lenText, body, false⟩ rest).symm
    · rw [if_neg hcomma] at h
      by_cases hsemi : delim = ';'
      · rw [if_pos hsemi] at h
        cases h
        obtain ⟨body, rfl, rfl, rfl⟩ := hread (a := 0x3B) (by decide) hsemi
        refine ⟨⟨lenText, body, true⟩, ⟨hdot, hlen⟩, ?_, rfl, rfl⟩
        exact (Element.wire_append ⟨lenText, body, true⟩ rest).symm
      · rw [if_neg hsemi] at h
        cases h
  · rw [herror] at h
    cases h
  · rw [hwait] at h
    cases h

theorem readElement_shorter {closed : Option GuacError} {s rest v : Bytes} {last : Bool}
    (h : (readElement closed s).outcome = .value (v, last) rest) : rest.length < s.length := by
  obtain ⟨e, -, rfl, -, -⟩ := of_readElement h
  rw [e.wire_append, List.length_append, List.length_cons, List.length_append, List.length_cons]
  omega

/-- The loop of `ReadInstruction`. -/
def readArgs (closed : Option GuacError) (done : Bool) (args : List Bytes) (s : Bytes) :
    Reading GuacError (List Bytes) :=
  if done then .plain (.value args s)
  else
    let r := readElement closed s
    match _h : r.outcome with
    | .value (arg, done) rest =>
        let loop := readArgs closed done (args ++ [arg]) rest
        ⟨r.made ++ loop.made, loop.outcome⟩
    | .error e => ⟨r.made, .error e⟩
    | .waiting => ⟨r.made, .waiting⟩
    | .panicked => ⟨r.made, .panicked⟩
termination_by s.length
decreasing_by exact readElement_shorter _h

/-- `guacReader.ReadInstruction`. -/
def readInstruction (closed : Option GuacError) (s : Bytes) : Reading GuacError GuacInstruction :=
  (readElement closed s).andThen fun (opcode, done) s =>
    (readArgs closed done [] s).andThen fun args s => .plain (.value ⟨opcode, args⟩ s)

/-- `count` calls of `ReadInstruction`. -/
def readInstructions (closed : Option GuacError) :
    Nat → Bytes → Reading GuacError (List GuacInstruction)
  | 0, s => .plain (.value [] s)
  | count + 1, s =>
      (readInstruction closed s).andThen fun i s =>
        (readInstructions closed count s).andThen fun is s => .plain (.value (i :: is) s)

end VMSmith.Api
