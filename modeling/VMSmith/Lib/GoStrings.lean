/-
The string functions of the source language's standard library that programs
compare their inputs with.

They work on character lists, so that a closed application can be evaluated.  Case
mapping is that of ASCII, which is what the compared vocabularies are written in.
-/
import Mathlib.Algebra.Ring.Int.Defs
import Mathlib.Data.String.Basic
import Mathlib.Data.List.DropRight

namespace Go

/-- `unicode.IsSpace`. -/
def isSpace (c : Char) : Bool :=
  c.toNat ∈ [0x09, 0x0A, 0x0B, 0x0C, 0x0D, 0x20, 0x85, 0xA0, 0x1680, 0x2028, 0x2029, 0x202F, 0x205F,
    0x3000] || (0x2000 ≤ c.toNat && c.toNat ≤ 0x200A)

/-- `strings.TrimSpace`. -/
def trimSpace (s : String) : String :=
  String.ofList ((s.toList.dropWhile isSpace).reverse.dropWhile isSpace).reverse

/-- `strings.ToLower`. -/
def toLower (s : String) : String := String.ofList (s.toList.map Char.toLower)

/-- `strings.EqualFold`. -/
def equalFold (a b : String) : Bool := a.toList.map Char.toLower == b.toList.map Char.toLower

/-- `strings.Join`. -/
def join (sep : String) : List String → String
  | [] => ""
  | [s] => s
  | s :: ss => s ++ sep ++ join sep ss

/-- Non-overlapping matches from the left; `skip` characters of a match are still to be
passed over. -/
def replaceChars (old new : List Char) : Nat → List Char → List Char
  | _, [] => []
  | skip + 1, _ :: cs => replaceChars old new skip cs
  | 0, c :: cs =>
      if old.isPrefixOf (c :: cs) then new ++ replaceChars old new (old.length - 1) cs
      else c :: replaceChars old new 0 cs

/-- `strings.ReplaceAll`, of a text that is not empty. -/
def replaceAll (old new s : String) : String :=
  String.ofList (replaceChars old.toList new.toList 0 s.toList)

/-- `strings.HasPrefix`. -/
def hasPrefix (s start : String) : Bool := start.toList.isPrefixOf s.toList

/-- `strings.HasSuffix`. -/
def hasSuffix (s suffix : String) : Bool := suffix.toList.isSuffixOf s.toList

/-- `strings.Contains`. -/
def contains (s sub : String) : Bool := s.toList.tails.any (sub.toList.isPrefixOf ·)

/-- `strings.TrimSuffix`. -/
def trimSuffix (s suffix : String) : String :=
  if hasSuffix s suffix then String.ofList (s.toList.take (s.toList.length - suffix.toList.length))
  else s

/-- The number some decimal digits write, `none` for anything else. -/
def digits (cs : List Char) : Option Nat :=
  if cs ≠ [] ∧ cs.all Char.isDigit then
    some (cs.foldl (fun n c => n * 10 + (c.toNat - '0'.toNat)) 0)
  else none

/-- `strconv.ParseUint(s, 10, 64)`. -/
def parseUint64 (s : String) : Option Nat := (digits s.toList).filter (· < 2 ^ 64)

/-- `strconv.Atoi`. -/
def atoi (s : String) : Option Int :=
  let (sign, cs) : Int × List Char :=
    match s.toList with
    | '-' :: cs => (-1, cs)
    | '+' :: cs => (1, cs)
    | cs => (1, cs)
  ((digits cs).map fun n => sign * (n : Int)).filter fun n => -2 ^ 63 ≤ n ∧ n < 2 ^ 63

/-- `filepath.Ext`: the last element from its last dot on. -/
def ext (s : String) : String :=
  let stem := s.toList.reverse.takeWhile fun c => c ≠ '.' && c ≠ '/'
  match s.toList.reverse.drop stem.length with
  | '.' :: _ => String.ofList ('.' :: stem.reverse)
  | _ => ""

/-- `filepath.Base`. -/
def base (s : String) : String :=
  if s = "" then "."
  else
    match s.toList.reverse.dropWhile (· = '/') with
    | [] => "/"
    | cs => String.ofList (cs.takeWhile (· ≠ '/')).reverse

theorem dropWhile_prefix_eq {p : Char → Bool} {t l : List Char} (h : t <+: l.dropWhile p) :
    t.dropWhile p = t := by
  cases t with
  | nil => rfl
  | cons a as =>
      obtain ⟨s, hs⟩ := h
      have hhead := List.head?_dropWhile_not p l
      rw [← hs] at hhead
      exact List.dropWhile_cons_of_neg (by simpa using hhead)

/-- What is trimmed stays as it is. -/
@[simp] theorem trimSpace_trimSpace (s : String) : trimSpace (trimSpace s) = trimSpace s := by
  have hpre := List.rdropWhile_prefix isSpace (s.toList.dropWhile isSpace)
  simp only [trimSpace, String.toList_ofList]
  congr 1
  change (((s.toList.dropWhile isSpace).rdropWhile isSpace).dropWhile isSpace).rdropWhile isSpace = _
  rw [dropWhile_prefix_eq hpre, List.rdropWhile_idempotent]
  rfl

/-- A text without white space is left as it is. -/
theorem trimSpace_eq_self {cs : List Char} (h : ∀ c ∈ cs, isSpace c = false) :
    trimSpace (String.ofList cs) = String.ofList cs := by
  have hdrop : ∀ l : List Char, (∀ c ∈ l, isSpace c = false) → l.dropWhile isSpace = l := by
    intro l hl
    cases l with
    | nil => rfl
    | cons c l => exact List.dropWhile_cons_of_neg (by simp [hl c (by simp)])
  rw [trimSpace, String.toList_ofList, hdrop cs h, hdrop cs.reverse (by simpa using h),
    List.reverse_reverse]

theorem digits_toDigits (n : Nat) : digits (Nat.toDigits 10 n) = some n := by
  have hdigit : ∀ c ∈ Nat.toDigits 10 n, c.isDigit = true := fun c hc =>
    Nat.isDigit_of_mem_toDigits (by decide) (by decide) hc
  have hvalue : (Nat.toDigits 10 n).foldl (fun n c => n * 10 + (c.toNat - '0'.toNat)) 0 = n := by
    have hsame := Nat.ofDigitChars_ten_toDigits (n := n)
    rw [Nat.ofDigitChars_eq_foldl] at hsame
    simpa only [Nat.mul_comm] using hsame
  rw [digits, if_pos ⟨Nat.toDigits_ne_nil, List.all_eq_true.mpr hdigit⟩, hvalue]

/-- A number that is written and read again. -/
theorem atoi_toString {n : Nat} (h : n < 2 ^ 63) : atoi (toString n) = some (n : Int) := by
  have hlist : (toString n).toList = Nat.toDigits 10 n := Nat.toList_repr
  have hdigit : ∀ c ∈ Nat.toDigits 10 n, c.isDigit = true := fun c hc =>
    Nat.isDigit_of_mem_toDigits (by decide) (by decide) hc
  have hread : atoi (toString n) = ((digits (Nat.toDigits 10 n)).map fun n => 1 * (n : Int)).filter
      fun n => -2 ^ 63 ≤ n ∧ n < 2 ^ 63 := by
    unfold atoi
    rw [hlist]
    cases hcs : Nat.toDigits 10 n with
    | nil => exact absurd hcs Nat.toDigits_ne_nil
    | cons c cs =>
        have hc := hdigit c (by rw [hcs]; exact List.mem_cons_self)
        have hminus : c ≠ '-' := by
          rintro rfl
          simp at hc
        have hplus : c ≠ '+' := by
          rintro rfl
          simp at hc
        split
        next sign rest hsign =>
          split at hsign
          next heq => exact absurd (List.cons.inj heq).1 hminus
          next heq => exact absurd (List.cons.inj heq).1 hplus
          next =>
            rw [← (Prod.mk.inj hsign).1, ← (Prod.mk.inj hsign).2]
  have hbound : (-2 ^ 63 : Int) ≤ 1 * (n : Int) ∧ 1 * (n : Int) < 2 ^ 63 := by omega
  rw [hread, digits_toDigits]
  show Option.filter _ (some (1 * (n : Int))) = _
  rw [Option.filter_some, if_pos (decide_eq_true hbound), Int.one_mul]

theorem toList_negSucc (m : Nat) :
    (toString (Int.negSucc m)).toList = '-' :: Nat.toDigits 10 (m + 1) := by
  show ("-" ++ Nat.repr (m + 1)).toList = _
  rw [String.toList_append, Nat.toList_repr]
  rfl

/-- An integer that is written and read again. -/
theorem atoi_toString_int {n : Int} (h : -2 ^ 63 ≤ n ∧ n < 2 ^ 63) : atoi (toString n) = some n := by
  cases n with
  | ofNat m => exact atoi_toString (Int.ofNat_lt.mp h.2)
  | negSucc m =>
      have hread : atoi (toString (Int.negSucc m)) =
          ((digits (Nat.toDigits 10 (m + 1))).map fun n => -1 * (n : Int)).filter
            fun n => -2 ^ 63 ≤ n ∧ n < 2 ^ 63 := by
        unfold atoi
        rw [toList_negSucc]
        rfl
      have hneg : -1 * ((m + 1 : Nat) : Int) = Int.negSucc m := by omega
      rw [hread, digits_toDigits]
      show Option.filter _ (some (-1 * ((m + 1 : Nat) : Int))) = _
      rw [hneg, Option.filter_some, if_pos (decide_eq_true h)]

/-- What an integer is written with. -/
theorem mem_toString_int {n : Int} {c : Char} (hc : c ∈ (toString n).toList) :
    c.isDigit = true ∨ c = '-' := by
  cases n with
  | ofNat m =>
      have hlist : (toString (Int.ofNat m)).toList = Nat.toDigits 10 m := Nat.toList_repr
      rw [hlist] at hc
      exact Or.inl (Nat.isDigit_of_mem_toDigits (by decide) (by decide) hc)
  | negSucc m =>
      rw [toList_negSucc] at hc
      rcases List.mem_cons.mp hc with hc | hc
      · exact Or.inr hc
      · exact Or.inl (Nat.isDigit_of_mem_toDigits (by decide) (by decide) hc)

theorem equalFold_iff {a b : String} :
    equalFold a b = true ↔ a.toList.map Char.toLower = b.toList.map Char.toLower := by
  unfold equalFold
  exact beq_iff_eq

@[simp] theorem equalFold_refl (a : String) : equalFold a a = true :=
  equalFold_iff.mpr rfl

theorem equalFold_symm {a b : String} (h : equalFold a b = true) : equalFold b a = true :=
  equalFold_iff.mpr (equalFold_iff.mp h).symm

theorem equalFold_trans {a b c : String} (hab : equalFold a b = true) (hbc : equalFold b c = true) :
    equalFold a c = true :=
  equalFold_iff.mpr ((equalFold_iff.mp hab).trans (equalFold_iff.mp hbc))

theorem toList_join (sep : String) (ss : List String) :
    (join sep ss).toList = sep.toList.intercalate (ss.map String.toList) := by
  induction ss with
  | nil => rfl
  | cons s ss ih =>
      cases ss with
      | nil => simp [join]
      | cons s' ss =>
          rw [join, String.toList_append, String.toList_append, ih]
          · simp
          · simp

/-- Texts without the separator can be told from what they are joined to. -/
theorem join_inj {c : Char} {sep : String} (hsep : sep.toList = [c]) {a b : List String}
    (ha : ∀ s ∈ a, s ≠ "" ∧ c ∉ s.toList) (hb : ∀ s ∈ b, s ≠ "" ∧ c ∉ s.toList)
    (h : join sep a = join sep b) : a = b := by
  have hempty : ∀ {ss : List String}, (∀ s ∈ ss, s ≠ "" ∧ c ∉ s.toList) →
      [c].intercalate (ss.map String.toList) = [] → ss = [] := by
    intro ss hss hnil
    cases ss with
    | nil => rfl
    | cons s ss =>
        have hs := (hss s List.mem_cons_self).1
        cases ss with
        | nil =>
            simp only [List.map_cons, List.map_nil, List.intercalate_singleton] at hnil
            exact absurd (String.toList_eq_nil_iff.mp hnil) hs
        | cons s' ss => simp at hnil
  have heq := congrArg String.toList h
  rw [toList_join, toList_join, hsep] at heq
  have hsplit : ∀ {ss : List String}, (∀ s ∈ ss, s ≠ "" ∧ c ∉ s.toList) → ss ≠ [] →
      ([c].intercalate (ss.map String.toList)).splitOn c = ss.map String.toList := by
    intro ss hss hne
    refine List.splitOn_intercalate c (fun l hl => ?_) (by simpa using hne)
    obtain ⟨s, hs, rfl⟩ := List.mem_map.mp hl
    exact (hss s hs).2
  by_cases hanil : a = []
  · rw [hanil] at heq ⊢
    exact (hempty hb heq.symm).symm
  · by_cases hbnil : b = []
    · rw [hbnil] at heq
      exact absurd (hempty ha heq) hanil
    · have hmap := congrArg (List.splitOn c) heq
      rw [hsplit ha hanil, hsplit hb hbnil] at hmap
      exact List.map_injective_iff.mpr (fun _ _ => String.toList_injective) hmap

example : ext "a.b/disk.tar.qcow2" = ".qcow2" := by decide

example : replaceAll "/a/" "/bc/" "/a/x/a/y/aa/" = "/bc/x/bc/y/aa/" := by decide

end Go
