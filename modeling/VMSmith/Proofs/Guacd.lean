/-
What the Guacamole reader makes of a stream.

What the encoder writes is read back, whatever stands in the texts.  The other direction asks
for what is read of any stream at all, and the answer is a grammar: an element is read if its
length is a number, in any way of writing it, and as many characters follow, in any bytes.
The encoder writes the number one way and the characters one way, so a reader that is to
accept nothing else depends on the stream for both.  So does how much room it makes: the
number alone decides that.
-/
import VMSmith.Api.Guacd

namespace VMSmith.Api

open Go

/-! ### Whole instructions -/

def wires (es : List Element) : Bytes := es.flatMap Element.wire

@[simp] theorem wires_nil : wires [] = [] := rfl

@[simp] theorem wires_cons (e : Element) (es : List Element) : wires (e :: es) = e.wire ++ wires es := rfl

@[simp] theorem wires_append (es es' : List Element) : wires (es ++ es') = wires es ++ wires es' :=
  List.flatMap_append

theorem readArgs_done (closed : Option GuacError) (args : List Bytes) (s : Bytes) :
    readArgs closed true args s = .plain (.value args s) := by
  rw [readArgs, if_pos rfl]

/-- One turn of the loop. -/
theorem readArgs_turn (closed : Option GuacError) (args : List Bytes) (s : Bytes) :
    readArgs closed false args s =
      (readElement closed s).andThen fun (arg, done) s => readArgs closed done (args ++ [arg]) s := by
  rw [readArgs, if_neg Bool.false_ne_true]
  dsimp only
  unfold Reading.andThen
  split <;> simp_all

/-- The element that the encoder writes for a text. -/
def Element.ofText (v : Bytes) (last : Bool) : Element :=
  ⟨ascii (toString (runes v).length), v, last⟩

/-- The elements that the encoder writes. -/
def written (v : Bytes) : List Bytes → List Element
  | [] => [.ofText v true]
  | a :: as => .ofText v false :: written a as

/-- What the reader accepts of a stream is what the encoder writes for it. -/
def Sound (closed : Option GuacError) (s : Bytes) : Prop :=
  ∀ count is rest, (readInstructions closed count s).outcome = .value is rest →
    s = encodeInstructions is ++ rest

/-- A length that stands in a stream where the reader looks for one. -/
def Announces (s : Bytes) (n : Nat) : Prop :=
  ∃ (es : List Element) (lenText tail : Bytes), (∀ e ∈ es, e.Legible) ∧ 0x2E ∉ lenText ∧
    atoi (latin1 lenText) = some (n : Int) ∧ s = wires es ++ lenText ++ 0x2E :: tail

theorem Announces.after {s : Bytes} {n : Nat} (h : Announces s n) {es : List Element}
    (hes : ∀ e ∈ es, e.Legible) : Announces (wires es ++ s) n := by
  obtain ⟨es', lenText, tail, hes', hdot, hlen, rfl⟩ := h
  refine ⟨es ++ es', lenText, tail, ?_, hdot, hlen, ?_⟩
  · intro e he
    rcases List.mem_append.mp he with hmem | hmem
    · exact hes e hmem
    · exact hes' e hmem
  · rw [wires_append, List.append_assoc, List.append_assoc, List.append_assoc]

theorem afterLength_made (closed : Option GuacError) (n : Nat) (s : Bytes) :
    (afterLength closed n s).made = [n] := by
  refine Reading.made_andThen fun runes s => ?_
  rw [Reading.made_andThen]
  · rfl
  · intro delim s
    split_ifs <;> rfl

theorem mem_made_readElement {closed : Option GuacError} {s : Bytes} {n : Nat} :
    n ∈ (readElement closed s).made ↔ ∃ lenText tail, 0x2E ∉ lenText ∧
      atoi (latin1 lenText) = some (n : Int) ∧ s = lenText ++ 0x2E :: tail := by
  constructor
  · intro h
    rcases readElement_cases closed s with ⟨lenText, m, tail, hdot, hlen, rfl⟩ | ⟨hnone, -⟩
    · rw [readElement_length closed hdot hlen, afterLength_made, List.mem_singleton] at h
      subst h
      exact ⟨lenText, tail, hdot, hlen, rfl⟩
    · rw [hnone] at h
      cases h
  · rintro ⟨lenText, tail, hdot, hlen, rfl⟩
    rw [readElement_length closed hdot hlen, afterLength_made, List.mem_singleton]

theorem Announces.of_readElement {closed : Option GuacError} {s : Bytes} {n : Nat}
    (h : n ∈ (readElement closed s).made) : Announces s n := by
  obtain ⟨lenText, tail, hdot, hlen, rfl⟩ := mem_made_readElement.mp h
  exact ⟨[], lenText, tail, by simp, hdot, hlen, rfl⟩

/-- The loop makes room for `n`, or an instruction after it does. -/
def Reaches (closed : Option GuacError) (n : Nat) (done : Bool) (s : Bytes) : Prop :=
  ∀ args, n ∈ (readArgs closed done args s).made ∨
    ∃ args' rest count, (readArgs closed done args s).outcome = .value args' rest ∧
      n ∈ (readInstructions closed count rest).made

/-- Where the instruction is over, it is one after it. -/
theorem reaches_true {closed : Option GuacError} {n count : Nat} {s : Bytes}
    (h : n ∈ (readInstructions closed count s).made) : Reaches closed n true s := by
  intro args
  refine Or.inr ⟨args, s, count, ?_, h⟩
  rw [readArgs_done]
  rfl

/-- An element more is read first. -/
theorem Reaches.cons {closed : Option GuacError} {n : Nat} {e : Element} (he : e.Legible) {s : Bytes}
    (h : Reaches closed n e.last s) : Reaches closed n false (e.wire ++ s) := by
  intro args
  rw [readArgs_turn, readElement_legible closed he, Reading.andThen_value rfl]
  rcases h (args ++ [e.value]) with hmade | ⟨args', rest, count, hvalue, hmade⟩
  · exact Or.inl (List.mem_append_right _ hmade)
  · exact Or.inr ⟨args', rest, count, hvalue, hmade⟩

/-- The same of the first element of an instruction. -/
theorem Reaches.instruction {closed : Option GuacError} {n : Nat} {e : Element} (he : e.Legible)
    {s : Bytes} (h : Reaches closed n e.last s) :
    ∃ count, n ∈ (readInstructions closed count (e.wire ++ s)).made := by
  have hfirst : readInstruction closed (e.wire ++ s) =
      (Reading.mk [(runes e.body).length] (.value (e.value, e.last) s)).andThen fun (opcode, done) s =>
        (readArgs closed done [] s).andThen fun args s => .plain (.value ⟨opcode, args⟩ s) := by
    unfold readInstruction
    rw [readElement_legible closed he]
  rcases h [] with hmade | ⟨args, rest, count, hvalue, hmade⟩
  · refine ⟨1, ?_⟩
    rw [readInstructions, Reading.mem_made_andThen]
    refine Or.inl ?_
    rw [hfirst, Reading.mem_made_andThen]
    exact Or.inr ⟨_, _, rfl, Reading.mem_made_andThen.mpr (Or.inl hmade)⟩
  · refine ⟨count + 1, ?_⟩
    rw [readInstructions, Reading.mem_made_andThen]
    refine Or.inr ⟨⟨e.value, args⟩, rest, ?_, Reading.mem_made_andThen.mpr (Or.inl hmade)⟩
    rw [hfirst, Reading.andThen_value_iff]
    exact ⟨_, _, rfl, Reading.andThen_value_iff.mpr ⟨_, _, hvalue, rfl⟩⟩

/-- And for every one of them: it is come to within an instruction or after one. -/
theorem Announces.made (closed : Option GuacError) {s : Bytes} {n : Nat} (h : Announces s n) :
    ∃ count, n ∈ (readInstructions closed count s).made := by
  obtain ⟨es, lenText, tail, hes, hdot, hlen, rfl⟩ := h
  have hmade : n ∈ (readElement closed (lenText ++ 0x2E :: tail)).made :=
    mem_made_readElement.mpr ⟨lenText, tail, hdot, hlen, rfl⟩
  rw [List.append_assoc]
  have hboth : (∃ count, n ∈ (readInstructions closed count
      (wires es ++ (lenText ++ 0x2E :: tail))).made) ∧
        Reaches closed n false (wires es ++ (lenText ++ 0x2E :: tail)) := by
    induction es with
    | nil =>
        rw [wires_nil, List.nil_append]
        refine ⟨⟨1, ?_⟩, fun args => Or.inl ?_⟩
        · rw [readInstructions, Reading.mem_made_andThen]
          refine Or.inl ?_
          unfold readInstruction
          exact Reading.mem_made_andThen.mpr (Or.inl hmade)
        · rw [readArgs_turn, Reading.mem_made_andThen]
          exact Or.inl hmade
    | cons e es ih =>
        rw [List.forall_mem_cons] at hes
        obtain ⟨⟨count, hcount⟩, hloop⟩ := ih hes.2
        have hnext : Reaches closed n e.last (wires es ++ (lenText ++ 0x2E :: tail)) := by
          cases e.last with
          | true => exact reaches_true hcount
          | false => exact hloop
        rw [wires_cons, List.append_assoc]
        exact ⟨hnext.instruction hes.1, hnext.cons hes.1⟩
  exact hboth.1

/-! ### No index out of range -/

/-- The reader makes room for no more than `extra` characters beyond what was sent. -/
def Bounded (extra : Nat) (closed : Option GuacError) (s : Bytes) : Prop :=
  ∀ count, ∀ n ∈ (readInstructions closed count s).made, n ≤ s.length + extra

/-- What a stream is to be to the reader, however far it is read. -/
def Safe (extra : Nat) (closed : Option GuacError) (s : Bytes) : Prop :=
  Sound closed s ∧ Bounded extra closed s ∧
    ∀ count, (readInstructions closed count s).outcome ≠ .panicked

end VMSmith.Api
