/-
When the logged body does not depend on the secrets in it.

A handler decodes the first value of the body and matches the names of its members with
the folding of `encoding/json`.  The redactor wants the whole body to be one value, reads
its numbers as well, and compares lower-cased names.  Where it cannot decode the body it
logs it as it is, and a name that only folding recognises it passes over.
-/
import VMSmith.Api.Middleware

namespace VMSmith.Api

open Go Json

/-! ### The secrets of a body -/

/-- The fields that hold a secret. -/
def secretFields : List String :=
  ["admin_password", "api_key", "password", "secret", "ssh_pub_key", "ticket", "vnc_password"]

/-- `foldRune` as far as a comparison with lower-case ASCII can tell: two letters outside of
ASCII fold with one inside. -/
def foldRune (c : Char) : Char :=
  if c = '\u017F' then 's' else if c = '\u212A' then 'k' else c.toLower

/-- `encoding/json` takes a member of this name for a field that holds a secret. -/
def namesSecret (key : List Char) : Bool := String.ofList (key.map foldRune) ∈ secretFields

/-- Two bodies that a handler can decode and that differ only in strings which are members
under the name of a secret. -/
def SameButSecrets (body body' : Bytes) : Prop :=
  ∃ value value' rest, parse body = some (value, rest) ∧ parse body' = some (value', rest) ∧
    value.mask namesSecret false = value'.mask namesSecret false

/-! ### What the redactor leaves -/

mutual

/-- The values are the same but for members whose name the redactor knows. -/
inductive Agree : Value → Value → Prop
  | null : Agree .null .null
  | bool (b : Bool) : Agree (.bool b) (.bool b)
  | number (text : Bytes) : Agree (.number text) (.number text)
  | string (s : List Char) : Agree (.string s) (.string s)
  | array {items items' : Values} (h : AgreeItems items items') :
      Agree (.array items) (.array items')
  | object {members members' : Pairs} (h : AgreeMembers members members') :
      Agree (.object members) (.object members')

inductive AgreeItems : Values → Values → Prop
  | nil : AgreeItems .nil .nil
  | cons {value value' : Value} {rest rest' : Values} (h : Agree value value')
      (hrest : AgreeItems rest rest') : AgreeItems (.cons value rest) (.cons value' rest')

inductive AgreeMembers : Pairs → Pairs → Prop
  | nil : AgreeMembers .nil .nil
  | known {key : List Char} (hkey : isSensitiveBodyKey key = true) (value value' : Value)
      {rest rest' : Pairs} (hrest : AgreeMembers rest rest') :
      AgreeMembers (.cons key value rest) (.cons key value' rest')
  | other (key : List Char) {value value' : Value} {rest rest' : Pairs} (h : Agree value value')
      (hrest : AgreeMembers rest rest') :
      AgreeMembers (.cons key value rest) (.cons key value' rest')

end

mutual

theorem Agree.redact {v v' : Value} (h : Agree v v') :
    redactSensitiveJSONValue v = redactSensitiveJSONValue v' := by
  cases h with
  | array h =>
      unfold redactSensitiveJSONValue
      rw [h.redact]
  | object h =>
      unfold redactSensitiveJSONValue
      rw [h.redact]
  | _ => rfl

theorem AgreeItems.redact {vs vs' : Values} (h : AgreeItems vs vs') :
    redactItems vs = redactItems vs' := by
  cases h with
  | nil => rfl
  | cons h hrest =>
      unfold redactItems
      rw [h.redact, hrest.redact]

theorem AgreeMembers.redact {ms ms' : Pairs} (h : AgreeMembers ms ms') :
    redactMembers ms = redactMembers ms' := by
  cases h with
  | nil => rfl
  | known hkey value value' hrest =>
      unfold redactMembers
      rw [if_pos hkey, if_pos hkey, hrest.redact]
  | other key h hrest =>
      unfold redactMembers
      rw [h.redact, hrest.redact]

end

mutual

theorem Agree.of_redact {v v' : Value}
    (h : redactSensitiveJSONValue v = redactSensitiveJSONValue v') : Agree v v' := by
  cases v <;> cases v' <;> simp only [redactSensitiveJSONValue, reduceCtorEq, Value.bool.injEq,
    Value.number.injEq, Value.string.injEq, Value.array.injEq, Value.object.injEq] at h
  case null.null => exact .null
  case bool.bool => exact h ▸ .bool _
  case number.number => exact h ▸ .number _
  case string.string => exact h ▸ .string _
  case array.array => exact .array (AgreeItems.of_redact h)
  case object.object => exact .object (AgreeMembers.of_redact h)

theorem AgreeItems.of_redact {vs vs' : Values} (h : redactItems vs = redactItems vs') :
    AgreeItems vs vs' := by
  cases vs <;> cases vs' <;> simp only [redactItems, reduceCtorEq, Values.cons.injEq] at h
  case nil.nil => exact .nil
  case cons.cons => exact .cons (Agree.of_redact h.1) (AgreeItems.of_redact h.2)

theorem AgreeMembers.of_redact {ms ms' : Pairs} (h : redactMembers ms = redactMembers ms') :
    AgreeMembers ms ms' := by
  cases ms <;> cases ms' <;> simp only [redactMembers, reduceCtorEq, Pairs.cons.injEq] at h
  case nil.nil => exact .nil
  case cons.cons key value rest key' value' rest' =>
    obtain ⟨rfl, hvalue, hrest⟩ := h
    by_cases hkey : isSensitiveBodyKey key = true
    · exact .known hkey value value' (AgreeMembers.of_redact hrest)
    · rw [if_neg hkey, if_neg hkey] at hvalue
      exact .other key (Agree.of_redact hvalue) (AgreeMembers.of_redact hrest)

end

mutual

theorem alike_redact {v v' : Value} (h : v.Alike v') :
    (redactSensitiveJSONValue v).Alike (redactSensitiveJSONValue v') := by
  cases h with
  | array h => exact .array (alike_redactItems h)
  | object h => exact .object (alike_redactMembers h)
  | null => exact .null
  | bool b => exact .bool b
  | number text => exact .number text
  | string s s' => exact .string s s'

theorem alike_redactItems {vs vs' : Values} (h : vs.Alike vs') :
    (redactItems vs).Alike (redactItems vs') := by
  cases h with
  | nil => exact .nil
  | cons h hrest => exact .cons (alike_redact h) (alike_redactItems hrest)

theorem alike_redactMembers {ms ms' : Pairs} (h : ms.Alike ms') :
    (redactMembers ms).Alike (redactMembers ms') := by
  cases h with
  | nil => exact .nil
  | cons key h hrest =>
      unfold redactMembers
      by_cases hkey : isSensitiveBodyKey key = true
      · rw [if_pos hkey, if_pos hkey]
        exact .cons key (.string _ _) (alike_redactMembers hrest)
      · rw [if_neg hkey, if_neg hkey]
        exact .cons key (alike_redact h) (alike_redactMembers hrest)

end

/-- What is written of two values that differ in strings is the same only if the redactor
knows the names of all that differs. -/
theorem marshal_redact_iff (formatNumber : Bytes → Bytes) {v v' : Value} (h : v.Alike v') :
    (redactSensitiveJSONValue v).marshal formatNumber =
      (redactSensitiveJSONValue v').marshal formatNumber ↔ Agree v v' := by
  constructor
  · intro heq
    have happend : (redactSensitiveJSONValue v).marshal formatNumber ++ [] =
        (redactSensitiveJSONValue v').marshal formatNumber ++ [] := by rw [heq]
    exact Agree.of_redact (Value.marshal_append_inj (alike_redact h) happend).1
  · intro hagree
    rw [hagree.redact]

/-! ### The logged body -/

/-- The redactor decodes both bodies, and what differs in them stands under names it
knows. -/
def SecretsKnown (body body' : Bytes) : Prop :=
  ∃ v v', unmarshal body = some v ∧ unmarshal body' = some v' ∧ Agree v v'

theorem redactSensitiveBody_iff (formatNumber : Bytes → Bytes) {body body' : Bytes}
    (h : SameButSecrets body body') :
    redactSensitiveBody formatNumber body = redactSensitiveBody formatNumber body' ↔
      body = body' ∨ SecretsKnown body body' := by
  obtain ⟨value, value', rest, hparse, hparse', hmask⟩ := h
  have hne : ∀ {b : Bytes} {read}, parse b = some read → b ≠ [] := by
    rintro b read hb rfl
    exact absurd hb (by simp [parse, parseValue])
  have hnumbers : value.numbersInRange = value'.numbersInRange := by
    have hsame : (value.mask namesSecret false).numbersInRange = value.numbersInRange :=
      Syntax.numbersInRange_mask false value
    rw [← hsame, hmask, Syntax.numbersInRange_mask]
  have hread : ∀ {b : Bytes} {v : Syntax}, parse b = some (v, rest) →
      unmarshal b = if rest.all isBlank && v.numbersInRange then some v.decode else none := by
    intro b v hb
    unfold unmarshal
    rw [hb]
    rfl
  unfold redactSensitiveBody SecretsKnown
  rw [if_neg (hne hparse), if_neg (hne hparse'), hread hparse, hread hparse', ← hnumbers]
  by_cases hwhole : (rest.all isBlank && value.numbersInRange) = true
  · rw [if_pos hwhole, if_pos hwhole]
    dsimp only
    rw [marshal_redact_iff formatNumber (Syntax.alike_of_mask hmask)]
    constructor
    · intro hagree
      exact .inr ⟨_, _, rfl, rfl, hagree⟩
    · rintro (rfl | ⟨v, v', hv, hv', hagree⟩)
      · rw [hparse] at hparse'
        injection hparse' with hvalue
        injection hvalue with hvalue
        rw [← hvalue]
        exact Agree.of_redact rfl
      · rw [Option.some.inj hv, Option.some.inj hv']
        exact hagree
  · rw [if_neg hwhole, if_neg hwhole]
    dsimp only
    constructor
    · exact .inl
    · rintro (heq | ⟨v, v', hv, _⟩)
      · exact heq
      · exact absurd hv (by simp)

/-- The body as it is logged. -/
theorem loggedField_body (formatNumber : Bytes → Bytes) (statusText : Nat → Bytes) (r : Request)
    (answer : Response) :
    loggedField "body" (requestLogger formatNumber statusText r answer) =
      if bodySnippet formatNumber r = [] then none else some (bodySnippet formatNumber r) := by
  unfold requestLogger
  by_cases hskip : r.path = ascii "/api/v1/logs" ∧ r.method = ascii "GET"
  · have hget : ascii "GET" ∉ [ascii "POST", ascii "PUT", ascii "PATCH"] := by decide
    have hsnippet : bodySnippet formatNumber r = [] := by
      unfold bodySnippet Request.bodyCaptured
      rw [hskip.2]
      simp [hget]
    rw [if_pos hskip, hsnippet]
    rfl
  · rw [if_neg hskip]
    unfold loggedField
    dsimp only [Option.bind_some]
    rw [List.lookup_append, List.lookup_append]
    by_cases hquery : r.rawQuery = [] <;> by_cases hbody : bodySnippet formatNumber r = [] <;>
      simp [hquery, hbody, List.lookup_cons]

/--
Of two bodies that differ in secrets only the same text is logged exactly if the body is
not logged at all, or there is no difference, or the redactor decodes the body and knows
the names of all that differs.
-/
theorem requestLogger_body (formatNumber : Bytes → Bytes) (statusText : Nat → Bytes) (r : Request)
    (answer answer' : Response) (body body' : Bytes) (h : SameButSecrets body body') :
    loggedField "body" (requestLogger formatNumber statusText { r with body := body } answer) =
        loggedField "body"
          (requestLogger formatNumber statusText { r with body := body' } answer') ↔
      r.bodyCaptured = false ∨ body = body' ∨ SecretsKnown body body' := by
  have hsnippet : ∀ b, bodySnippet formatNumber { r with body := b } =
      if r.bodyCaptured then redactSensitiveBody formatNumber b else [] := fun _ => rfl
  have hshown : ∀ x y : Bytes, ((if x = [] then none else some x) : Option Bytes) =
      (if y = [] then none else some y) ↔ x = y := by
    intro x y
    split_ifs with hx hy hy <;> simp_all
  rw [loggedField_body, loggedField_body, hsnippet, hsnippet, hshown]
  cases hcaptured : r.bodyCaptured with
  | false => simp
  | true => simp [redactSensitiveBody_iff formatNumber h]

/-- A request that sets a console password, with a body of twenty-two bytes. -/
def passwordRequest : Request :=
  { method := ascii "PATCH", path := ascii "/api/v1/vms/vm-1", rawQuery := [], contentLength := 22,
    body := [], remoteAddr := ascii "192.0.2.7:4711" }

/-- The body of such a request, and whatever follows its value. -/
def passwordBody (password : String) (behind : Bytes) : Bytes :=
  ascii "\x7b\"vnc_password\":\"" ++ ascii password ++ ascii "\"\x7d" ++ behind

/-- What such a body is read as. -/
def passwordSyntax (password : String) : Json.Syntax :=
  .object [] (.last ⟨[], ascii "vnc_password", []⟩ (.string [] (ascii password)) [])

/-- A line break behind the value hides nothing from the redactor. -/
theorem requestLogger_body_password :
    loggedField "body" (requestLogger id (fun _ => [])
        { passwordRequest with body := passwordBody "aa" [0x0A] } ⟨200, 0, 0⟩) =
      loggedField "body" (requestLogger id (fun _ => [])
        { passwordRequest with body := passwordBody "bb" [0x0A] } ⟨200, 0, 0⟩) := by
  have hsame : SameButSecrets (passwordBody "aa" [0x0A]) (passwordBody "bb" [0x0A]) :=
    ⟨passwordSyntax "aa", passwordSyntax "bb", [0x0A], by decide +kernel, by decide +kernel,
      by decide +kernel⟩
  have hknown : SecretsKnown (passwordBody "aa" [0x0A]) (passwordBody "bb" [0x0A]) := by
    exact ⟨.object (.cons "vnc_password".toList (.string ['a', 'a']) .nil),
      .object (.cons "vnc_password".toList (.string ['b', 'b']) .nil), by decide +kernel,
      by decide +kernel, .object (.known (by decide +kernel) _ _ .nil)⟩
  exact (requestLogger_body id (fun _ => []) passwordRequest ⟨200, 0, 0⟩ ⟨200, 0, 0⟩ _ _ hsame).mpr
    (.inr (.inr hknown))

/-- With one more letter behind the value, which the handler does not read, the password is
logged. -/
theorem requestLogger_body_leaks :
    (passwordBody "aa" (ascii "x")).length = (passwordBody "bb" (ascii "x")).length ∧
      SameButSecrets (passwordBody "aa" (ascii "x")) (passwordBody "bb" (ascii "x")) ∧
      loggedField "body" (requestLogger id (fun _ => [])
        { passwordRequest with body := passwordBody "aa" (ascii "x") } ⟨200, 0, 0⟩) ≠
      loggedField "body" (requestLogger id (fun _ => [])
        { passwordRequest with body := passwordBody "bb" (ascii "x") } ⟨200, 0, 0⟩) := by
  refine ⟨by decide +kernel, ⟨passwordSyntax "aa", passwordSyntax "bb", ascii "x",
    by decide +kernel, by decide +kernel, by decide +kernel⟩, by decide +kernel⟩

end VMSmith.Api
