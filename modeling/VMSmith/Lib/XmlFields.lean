/-
Structs written as XML elements and read from them, field by field.

An attribute or an element belongs to a field when its name, without a prefix, is the field's.
A field with a text or a number takes the last of its values and is empty without one, so that
an empty one may be left out; a field with a struct takes all its elements as one, a slice
takes each.
-/
import VMSmith.Lib.GoStrings
import VMSmith.Lib.Xml

namespace Xml

/-! ### Writing -/

/-- `omitempty`, of a text. -/
def omitEmpty {α : Type} (value : String) (field : α) : List α :=
  if value = "" then [] else [field]

/-- `omitempty`, of a number. -/
def omitZero {α : Type} (value : Int64) (field : α) : List α := if value = 0 then [] else [field]

def formatInt (n : Int64) : String := toString n.toInt

/-! ### Reading -/

/-- A name without its prefix. -/
def localName (name : String) : String :=
  let before := name.toList.takeWhile (· ≠ ':')
  let after := (name.toList.drop before.length).tail
  if before = [] ∨ after = [] then name else String.ofList after

def Node.element? : Node → Option Element
  | text _ => none
  | elem name attrs children => some { name, attrs, children }

def Node.text? : Node → Option String
  | text s => some s
  | elem _ _ _ => none

/-- The values of the attributes of a name. -/
def Element.attr (e : Element) (name : String) : List String :=
  (e.attrs.filter fun a => localName a.1 = name).map (·.2)

/-- The elements of a name in an element. -/
def Element.sub (e : Element) (name : String) : List Element :=
  (e.children.filterMap Node.element?).filter fun c => localName c.name = name

/-- The text of an element, without that of the elements in it. -/
def Element.text (e : Element) : String := String.join (e.children.filterMap Node.text?)

def Element.texts (e : Element) (name : String) : List String := (e.sub name).map Element.text

/-- The elements of a name, as one. -/
def Element.whole (e : Element) (name : String) : Element :=
  { name, attrs := (e.sub name).flatMap (·.attrs), children := (e.sub name).flatMap (·.children) }

def readString (values : List String) : String := values.getLast?.getD ""

def readInt64 (s : String) : Option Int64 :=
  if s = "" then some 0 else (Go.atoi (Go.trimSpace s)).map Int64.ofInt

def readInt (values : List String) : Option Int64 :=
  (values.mapM readInt64).map fun ns => ns.getLast?.getD 0

/-! ### What was written -/

section

variable {α β : Type}

theorem filter_omitEmpty (p : α → Bool) (value : String) (x : α) :
    (omitEmpty value x).filter p = if p x then omitEmpty value x else [] := by
  unfold omitEmpty
  by_cases h : value = ""
  · simp [h]
  · simp [h, List.filter_cons]

theorem filter_omitZero (p : α → Bool) (n : Int64) (x : α) :
    (omitZero n x).filter p = if p x then omitZero n x else [] := by
  unfold omitZero
  by_cases h : n = 0
  · simp [h]
  · simp [h, List.filter_cons]

theorem all_omitEmpty {p : α → Bool} {x : α} (h : p x = true) (value : String) :
    (omitEmpty value x).all p = true := by
  unfold omitEmpty
  by_cases hvalue : value = "" <;> simp [hvalue, h]

theorem all_omitZero {p : α → Bool} {x : α} (h : p x = true) (n : Int64) :
    (omitZero n x).all p = true := by
  unfold omitZero
  by_cases hzero : n = 0 <;> simp [hzero, h]

theorem map_omitEmpty (f : α → β) (value : String) (x : α) :
    (omitEmpty value x).map f = omitEmpty value (f x) := by
  unfold omitEmpty
  by_cases h : value = "" <;> simp [h]

theorem map_omitZero (f : α → β) (n : Int64) (x : α) :
    (omitZero n x).map f = omitZero n (f x) := by
  unfold omitZero
  by_cases h : n = 0 <;> simp [h]

end

@[simp] theorem readString_omit (value : String) :
    readString (omitEmpty value (clean value)) = clean value := by
  unfold omitEmpty
  by_cases h : value = ""
  · rw [if_pos h, h, clean_empty]
    rfl
  · rw [if_neg h]
    rfl

@[simp] theorem readString_one (s : String) : readString [s] = s := rfl

theorem plain_code {c : Char} (h : 0x20 < c.toNat ∧ c.toNat < 0x7F) :
    legal c = true ∧ Go.isSpace c = false := by
  constructor
  · simp [legal]
    omega
  · simp [Go.isSpace]
    omega

theorem formatInt_digits {n : Int64} {c : Char} (hc : c ∈ (formatInt n).toList) :
    legal c = true ∧ Go.isSpace c = false := by
  have hcode : 0x20 < c.toNat ∧ c.toNat < 0x7F := by
    rcases Go.mem_toString_int hc with h | h
    · rw [Char.isDigit, Bool.and_eq_true, decide_eq_true_eq, decide_eq_true_eq] at h
      have hlow : (48 : Nat) ≤ c.toNat := h.1
      have hhigh : c.toNat ≤ 57 := h.2
      omega
    · rw [h]
      decide
  exact plain_code hcode

theorem formatInt_ne_empty (n : Int64) : formatInt n ≠ "" := by
  intro h
  have hread := Go.atoi_toString_int ⟨n.le_toInt, n.toInt_lt⟩
  have hnone : Go.atoi "" = none := by decide
  rw [← formatInt, h, hnone] at hread
  cases hread

@[simp] theorem readInt64_formatInt (n : Int64) : readInt64 (clean (formatInt n)) = some n := by
  have hclean : clean (formatInt n) = formatInt n :=
    clean_eq_self (List.all_eq_true.mpr fun c hc => (formatInt_digits hc).1)
  have htrim : Go.trimSpace (formatInt n) = formatInt n := by
    have h := Go.trimSpace_eq_self fun c hc => (formatInt_digits (n := n) hc).2
    rwa [String.ofList_toList] at h
  rw [hclean, readInt64, if_neg (formatInt_ne_empty n), htrim, formatInt,
    Go.atoi_toString_int ⟨n.le_toInt, n.toInt_lt⟩, Option.map_some, Int64.ofInt_toInt]

@[simp] theorem readInt_omit (n : Int64) :
    readInt (omitZero n (clean (formatInt n))) = some n := by
  unfold omitZero
  by_cases h : n = 0
  · rw [if_pos h, h]
    rfl
  · rw [if_neg h]
    simp [readInt]

@[simp] theorem readInt_one (n : Int64) : readInt [clean (formatInt n)] = some n := by
  simp [readInt]

/-! ### What was read -/

section

variable (depth : Nat) (name : String)

theorem attr_read (own : String) (attrs : List (String × String)) (children : List Elem) :
    ((Elem.node own attrs children).read depth).attr name =
      (attrs.filter fun a => localName a.1 = name).map fun a => clean a.2 := by
  rw [Elem.read, Element.attr, List.filter_map, List.map_map]
  rfl

theorem name_read (e : Elem) : (e.read depth).name = e.name := by
  cases e with
  | leaf own attrs text => rfl
  | node own attrs children => rfl

theorem elements_readAll (es : List Elem) :
    (readAll depth es).filterMap Node.element? = es.map (Elem.read depth) := by
  induction es with
  | nil => rfl
  | cons e es ih =>
      have hnode : Node.element? (e.read depth).node = some (e.read depth) := rfl
      rw [readAll, List.filterMap_cons_none rfl, List.filterMap_cons_some hnode, ih]
      rfl

theorem sub_read (own : String) (attrs : List (String × String)) (children : List Elem) :
    ((Elem.node own attrs children).read depth).sub name =
      (children.filter fun c => localName c.name = name).map (Elem.read (depth + 1)) := by
  have hindent : (if children.isEmpty then [] else [Node.text (String.ofList (indent depth))]).filterMap
      Node.element? = [] := by
    by_cases h : children.isEmpty = true
    · rw [if_pos h]
      rfl
    · rw [if_neg h]
      rfl
  rw [Elem.read, Element.sub, List.filterMap_append, elements_readAll, hindent, List.append_nil,
    List.filter_map]
  congr 2
  funext c
  simp [name_read]

theorem text_leaf (own : String) (attrs : List (String × String)) (text : String) :
    ((Elem.leaf own attrs text).read depth).text = clean text := by
  rw [Elem.read, Element.text]
  by_cases h : text = ""
  · rw [if_pos h, h, clean_empty]
    rfl
  · rw [if_neg h]
    simp [Node.text?]

/-- The elements of a slice have one name. -/
theorem filter_slice {α : Type} (f : α → Elem) (own : String) (h : ∀ x, (f x).name = own)
    (xs : List α) :
    ((xs.map f).filter fun c => localName c.name = name) =
      if localName own = name then xs.map f else [] := by
  rw [List.filter_map]
  by_cases hname : localName own = name
  · rw [if_pos hname, List.filter_eq_self.mpr]
    intro x _
    simp [h, hname]
  · rw [if_neg hname, List.filter_eq_nil_iff.mpr, List.map_nil]
    intro x _
    simp [h, hname]

/-- Elements that are each read are read together. -/
theorem mapM_read {α β : Type} {f : α → Elem} {g : Element → Option β} {h : α → β}
    (hread : ∀ x, g ((f x).read depth) = some (h x)) (xs : List α) :
    ((xs.map f).map (Elem.read depth)).mapM g = some (xs.map h) := by
  have hall : (g ∘ Elem.read depth) ∘ f = fun x => pure (h x) := funext hread
  rw [List.mapM_map, List.mapM_map, hall, List.mapM_pure]
  rfl

/-- An element that stands there once. -/
theorem whole_of_sub {e f : Element} (h : e.sub name = [f]) (hname : f.name = name) :
    e.whole name = f := by
  rw [Element.whole, h, ← hname]
  simp

end

end Xml
