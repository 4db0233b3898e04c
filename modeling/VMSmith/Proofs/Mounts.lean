/-
The mount table against what the kernel writes into it.

The kernel escapes the white space it separates with and nothing else, while the reader
splits at all white space there is.  A field comes out whole where the white space in it is
of the kernel's kinds and there is something in it at all; the reader then undoes the
escapes, save in the filesystem type.  Where a field does not come out whole, what is read
in its place is shorter, or belongs to another field.
-/
import VMSmith.Host.Mounts
import Mathlib.Tactic.Linarith

namespace VMSmith

open Go (Bytes ascii markBlanks fields blankByte)

/-! ### The kernel's escapes -/

/-- The bytes the kernel escapes: space, tab, newline and backslash. -/
def escapedByte (b : UInt8) : Bool := b ∈ [0x20, 0x09, 0x0A, 0x5C]

/-- The digit of the three low bits. -/
def octalDigit (b : UInt8) : UInt8 := (0x30 : UInt8) + (b &&& 7)

def escapeByte (b : UInt8) : Bytes :=
  if escapedByte b then [0x5C, octalDigit (b >>> 6), octalDigit (b >>> 3), octalDigit b] else [b]

/-- A field as the kernel writes it. -/
def escapeField (f : Bytes) : Bytes := f.flatMap escapeByte

set_option maxRecDepth 2000 in
theorem escapeByte_of_escaped {b : UInt8} (h : escapedByte b = true) :
    ∃ d₁ d₂ d₃, escapeByte b = [0x5C, d₁, d₂, d₃] ∧ octalByte (d₁ :: d₂ :: d₃ :: []) = some b ∧
      ∀ d ∈ [d₁, d₂, d₃], d < 0x80 ∧ blankByte d = false := by
  refine ⟨octalDigit (b >>> 6), octalDigit (b >>> 3), octalDigit b, if_pos h, ?_⟩
  unfold escapedByte at h
  simp only [decide_eq_true_eq, List.mem_cons, List.not_mem_nil, or_false] at h
  rcases h with rfl | rfl | rfl | rfl <;> decide

/-- The reader undoes what the kernel did. -/
theorem unescape_escape (f : Bytes) : unescapeMountField (escapeField f) = f := by
  unfold unescapeMountField escapeField
  induction f with
  | nil => rfl
  | cons b f ih =>
      rw [List.flatMap_cons]
      by_cases hb : escapedByte b = true
      · obtain ⟨d₁, d₂, d₃, heq, hoctal, -⟩ := escapeByte_of_escaped hb
        have hmore : octalByte (d₁ :: d₂ :: d₃ :: f.flatMap escapeByte) = some b := by
          rw [← hoctal]
          rfl
        rw [heq]
        show unescapeFrom 0 (0x5C :: d₁ :: d₂ :: d₃ :: f.flatMap escapeByte) = _
        rw [unescapeFrom, if_pos rfl, hmore]
        dsimp only
        rw [unescapeFrom, unescapeFrom, unescapeFrom, ih]
      · have hslash : b ≠ 0x5C := by
          intro heq
          exact hb (by rw [heq]; decide)
        rw [escapeByte, if_neg hb, List.singleton_append, unescapeFrom, if_neg hslash]
        dsimp only
        rw [ih]

theorem escapeField_eq_nil {f : Bytes} : escapeField f = [] ↔ f = [] := by
  constructor
  · intro h
    rw [← unescape_escape f, h]
    rfl
  · intro h
    rw [h]
    rfl

theorem escapeByte_length (b : UInt8) :
    (escapeByte b).length = if escapedByte b then 4 else 1 := by
  unfold escapeByte
  split <;> rfl

/-- Only what has nothing to escape is written as it is. -/
theorem escapeField_eq_self {f : Bytes} : escapeField f = f ↔ ∀ b ∈ f, escapedByte b = false := by
  have hlong : ∀ f : Bytes, f.length ≤ (escapeField f).length := by
    intro f
    induction f with
    | nil => exact le_rfl
    | cons b f ih =>
        unfold escapeField at ih ⊢
        rw [List.flatMap_cons, List.length_append, List.length_cons, escapeByte_length]
        split <;> omega
  induction f with
  | nil => exact iff_of_true rfl (by simp)
  | cons b f ih =>
      have hf := hlong f
      rw [List.forall_mem_cons]
      by_cases hb : escapedByte b = true
      · refine iff_of_false (fun h => ?_) (fun h => absurd h.1 (by rw [hb]; decide))
        have hlen := congrArg List.length h
        rw [escapeField, List.flatMap_cons, List.length_append, escapeByte_length, if_pos hb,
          List.length_cons] at hlen
        unfold escapeField at hf
        omega
      · rw [escapeField, List.flatMap_cons, escapeByte, if_neg hb, List.singleton_append]
        refine ⟨fun h => ⟨Bool.not_eq_true _ ▸ hb, ih.mp (List.cons.inj h).2⟩, fun h => ?_⟩
        exact congrArg (List.cons b) (ih.mpr h.2)

/-! ### What the reader makes of a field -/

/-- White space that the kernel leaves as it is. -/
def bareBlank (p : UInt8 × Bool) : Bool := p.2 && !escapedByte p.1

/-- A field with something in it whose white space the kernel escapes. -/
def Solid (f : Bytes) : Prop := f ≠ [] ∧ ∀ p ∈ markBlanks 0 false f, bareBlank p = false

/-- A field's parts between the white space that is not escaped. -/
def pieces (f : Bytes) : List Bytes :=
  (((markBlanks 0 false f).splitOnP bareBlank).map (List.map Prod.fst)).filter (· ≠ [])

/-- A marked byte as it is written: the escapes are no white space. -/
def escapeMark (p : UInt8 × Bool) : List (UInt8 × Bool) :=
  (escapeByte p.1).map fun b => (b, bareBlank p)

theorem markBlanks_escapeByte {b : UInt8} (h : escapedByte b = true) (y : Bytes) :
    markBlanks 0 false (escapeByte b ++ y) =
      (escapeByte b).map (fun c => (c, false)) ++ markBlanks 0 false y := by
  obtain ⟨d₁, d₂, d₃, heq, -, hascii⟩ := escapeByte_of_escaped h
  have hslash : blankByte 0x5C = false := by decide
  obtain ⟨h₁, b₁⟩ := hascii d₁ (by simp)
  obtain ⟨h₂, b₂⟩ := hascii d₂ (by simp)
  obtain ⟨h₃, b₃⟩ := hascii d₃ (by simp)
  rw [heq]
  show markBlanks 0 false (0x5C :: d₁ :: d₂ :: d₃ :: y) = _
  rw [Go.markBlanks_cons_ascii (by decide), Go.markBlanks_cons_ascii h₁, Go.markBlanks_cons_ascii h₂,
    Go.markBlanks_cons_ascii h₃, hslash, b₁, b₂, b₃]
  rfl

/-- The escapes of a text stand where the escaped bytes stood. -/
theorem markBlanks_escape : ∀ (n : Nat) (f : Bytes), f.length ≤ n →
    markBlanks 0 false (escapeField f) = (markBlanks 0 false f).flatMap escapeMark := by
  have hbare : ∀ l : List (UInt8 × Bool), (∀ p ∈ l, escapedByte p.1 = false) →
      l.flatMap escapeMark = l := by
    intro l
    induction l with
    | nil => intro _; rfl
    | cons p l ih =>
        intro hl
        have hp := hl p List.mem_cons_self
        rw [List.flatMap_cons, ih fun q hq => hl q (List.mem_cons_of_mem _ hq)]
        unfold escapeMark escapeByte bareBlank
        rw [if_neg (by rw [hp]; exact Bool.false_ne_true), hp]
        simp
  intro n
  induction n with
  | zero =>
      intro f hf
      rw [List.length_eq_zero_iff.mp (Nat.le_zero.mp hf)]
      rfl
  | succ n ih =>
      intro f hf
      by_cases hnone : ∀ b ∈ f, escapedByte b = false
      · rw [escapeField_eq_self.mpr hnone, hbare]
        intro p hp
        apply hnone
        rw [← Go.markBlanks_fst f 0 false]
        exact List.mem_map_of_mem hp
      · -- the first escaped byte is ASCII, so what stands around it is marked on its own
        push Not at hnone
        obtain ⟨b, hb, hesc⟩ := hnone
        obtain ⟨x, y, rfl, -⟩ := List.eq_append_cons_of_mem hb
        rw [List.length_append, List.length_cons] at hf
        have hesc : escapedByte b = true := by simpa using hesc
        have hascii : b < 0x80 := by
          unfold escapedByte at hesc
          simp only [decide_eq_true_eq, List.mem_cons, List.not_mem_nil, or_false] at hesc
          rcases hesc with rfl | rfl | rfl | rfl <;> decide
        have hmark : escapeMark (b, blankByte b) = (escapeByte b).map fun c => (c, false) := by
          unfold escapeMark bareBlank
          rw [hesc]
          simp
        obtain ⟨d₁, d₂, d₃, heq, -, -⟩ := escapeByte_of_escaped hesc
        have hmiddle := markBlanks_escapeByte hesc (escapeField y)
        have hfield : escapeField (x ++ b :: y) =
            escapeField x ++ 0x5C :: (d₁ :: d₂ :: d₃ :: escapeField y) := by
          unfold escapeField
          rw [List.flatMap_append, List.flatMap_cons, heq]
          rfl
        rw [heq] at hmiddle
        rw [Go.markBlanks_append_ascii hascii y x 0 false (Nat.zero_le _), List.flatMap_append,
          List.flatMap_cons, hmark, hfield,
          Go.markBlanks_append_ascii (by decide) _ _ 0 false (Nat.zero_le _), ← ih x (by omega),
          ← ih y (by omega), ← Go.markBlanks_cons_ascii (by decide) false, heq]
        exact congrArg (markBlanks 0 false (escapeField x) ++ ·) hmiddle

/-- The reader splits a field into its pieces. -/
theorem fields_escape (f : Bytes) : fields (escapeField f) = (pieces f).map escapeField := by
  have hsplit : ∀ p, bareBlank p = true → ∃ q, escapeMark p = [q] ∧ Prod.snd q = true := by
    intro p hp
    have hesc : escapedByte p.1 = false := by
      unfold bareBlank at hp
      simp only [Bool.and_eq_true, Bool.not_eq_true'] at hp
      exact hp.2
    refine ⟨(p.1, bareBlank p), ?_, hp⟩
    unfold escapeMark escapeByte
    rw [if_neg (by rw [hesc]; exact Bool.false_ne_true)]
    rfl
  have hkeep : ∀ p, bareBlank p = false → ∀ q ∈ escapeMark p, Prod.snd q = false := by
    intro p hp q hq
    obtain ⟨b, -, rfl⟩ := List.mem_map.mp hq
    exact hp
  have hfst : ∀ l : List (UInt8 × Bool), (l.flatMap escapeMark).map Prod.fst =
      escapeField (l.map Prod.fst) := by
    intro l
    unfold escapeField escapeMark
    rw [List.map_flatMap, List.flatMap_map]
    congr 1
    funext p
    rw [List.map_map]
    exact List.map_id _
  unfold fields pieces
  rw [markBlanks_escape f.length f le_rfl, Go.splitOnP_flatMap hsplit hkeep, List.map_map,
    List.filter_map, List.filter_map, List.map_map]
  have hcomp : List.map Prod.fst ∘ List.flatMap escapeMark = escapeField ∘ List.map Prod.fst :=
    funext hfst
  rw [hcomp]
  refine congrArg _ (List.filter_congr fun l _ => ?_)
  simp [escapeField_eq_nil]

theorem pieces_of_solid {f : Bytes} (h : Solid f) : pieces f = [f] := by
  unfold pieces
  rw [List.splitOnP_eq_singleton h.2, List.map_singleton, Go.markBlanks_fst]
  simp [h.1]

/-- A field that is one of its own pieces comes out whole. -/
theorem solid_of_mem_pieces {f : Bytes} (h : f ∈ pieces f) : Solid f := by
  unfold pieces at h
  rw [List.mem_filter, List.mem_map] at h
  obtain ⟨⟨piece, hpiece, hfst⟩, hne⟩ := h
  obtain ⟨hsub, hnone⟩ := Go.mem_splitOnP hpiece
  have hlen : piece.length = (markBlanks 0 false f).length := by
    have hmarks := congrArg List.length (Go.markBlanks_fst f 0 false)
    have hpart := congrArg List.length hfst
    rw [List.length_map] at hmarks hpart
    omega
  refine ⟨by simpa using hne, ?_⟩
  rw [← hsub.eq_of_length hlen]
  exact hnone

theorem fields_escape_solid {f : Bytes} (h : Solid f) : fields (escapeField f) = [escapeField f] := by
  rw [fields_escape, pieces_of_solid h]
  rfl

/-! ### A mount as the kernel writes it -/

/-- What the kernel knows of a mount. -/
structure KernelMount where
  id : Nat
  parent : Nat
  major : Nat
  minor : Nat
  /-- The part of the filesystem that is mounted. -/
  root : Bytes
  path : Bytes
  options : Bytes
  /-- Tags such as the peer group; there may be any number. -/
  optional : List Bytes := []
  fsType : Bytes
  source : Bytes
  superOptions : Bytes

/-- A number in decimal. -/
def decimal (n : Nat) : Bytes := (Nat.toDigits 10 n).map fun c => c.toNat.toUInt8

def dash : Bytes := ascii "-"

namespace KernelMount

variable (m : KernelMount)

/-- The fields in front of the mount point. -/
def leading : List Bytes :=
  [decimal m.id, decimal m.parent, decimal m.major ++ 0x3A :: decimal m.minor, escapeField m.root]

/-- The fields from the options on to the separator. -/
def tags : List Bytes := escapeField m.options :: m.optional.map escapeField

/-- The line without the options of the superblock. -/
def front : List Bytes :=
  m.leading ++ [escapeField m.path] ++ m.tags ++
    [dash, escapeField m.fsType, escapeField m.source]

/-- A line of the table, without its newline. -/
def line : Bytes := [0x20].intercalate (m.front ++ [escapeField m.superOptions])

end KernelMount

/-- `/proc/self/mountinfo`. -/
def mountTable (mounts : List KernelMount) : Bytes := mounts.flatMap fun m => m.line ++ [0x0A]

/-- The mount points, filesystem types and sources are read as they are. -/
def Decodes (mounts : List KernelMount) : Prop :=
  (parseMountInfo (mountTable mounts)).map (·.map fun m => (m.path, m.fsType, m.source)) =
    .ok (mounts.map fun m => (m.path, m.fsType, m.source))

/-! ### Lines -/

theorem decimal_digit {n : Nat} {b : UInt8} (h : b ∈ decimal n) : b < 0x80 ∧ blankByte b = false := by
  obtain ⟨c, hc, rfl⟩ := List.mem_map.mp h
  have hdigit : c.isDigit = true := Nat.isDigit_of_mem_toDigits (by decide) (by decide) hc
  have hrange : 48 ≤ c.toNat ∧ c.toNat ≤ 57 := by
    simpa [Char.isDigit, UInt32.le_iff_toNat_le] using hdigit
  have hall : ∀ k < 10, (48 + k).toUInt8 < 0x80 ∧ blankByte (48 + k).toUInt8 = false := by decide
  have hk := hall (c.toNat - 48) (by omega)
  rwa [Nat.add_sub_cancel' hrange.1] at hk

/-- ASCII without white space is one field. -/
theorem fields_ascii {s : Bytes} (hne : s ≠ []) (h : ∀ b ∈ s, b < 0x80 ∧ blankByte b = false) :
    fields s = [s] := by
  refine Go.fields_eq_singleton hne ?_
  clear hne
  induction s with
  | nil => intro p hp; exact absurd hp List.not_mem_nil
  | cons b s ih =>
      intro p hp
      rw [Go.markBlanks_cons_ascii (h b List.mem_cons_self).1] at hp
      rcases List.mem_cons.mp hp with hp | hp
      · rw [hp]
        exact (h b List.mem_cons_self).2
      · exact ih (fun c hc => h c (List.mem_cons_of_mem _ hc)) p hp

theorem newline_blank {b : UInt8} (h : blankByte b = false) : b ≠ 0x0A := by
  intro heq
  rw [heq] at h
  exact absurd h (by decide)

theorem newline_notMem_escape (f : Bytes) : (0x0A : UInt8) ∉ escapeField f := by
  intro h
  obtain ⟨b, -, hb⟩ := List.mem_flatMap.mp h
  by_cases hesc : escapedByte b = true
  · obtain ⟨d₁, d₂, d₃, heq, -, hdigits⟩ := escapeByte_of_escaped hesc
    rw [heq] at hb
    rcases List.mem_cons.mp hb with hb | hb
    · exact absurd hb (by decide)
    · exact newline_blank (hdigits _ hb).2 rfl
  · rw [escapeByte, if_neg hesc, List.mem_singleton] at hb
    exact hesc (by rw [← hb]; decide)

theorem decimal_ne_nil (n : Nat) : decimal n ≠ [] := by
  unfold decimal
  rw [Ne, List.map_eq_nil_iff]
  exact Nat.toDigits_ne_nil

theorem device_digit {major minor : Nat} {b : UInt8} (h : b ∈ decimal major ++ 0x3A :: decimal minor) :
    b < 0x80 ∧ blankByte b = false := by
  rcases List.mem_append.mp h with h | h
  · exact decimal_digit h
  · rcases List.mem_cons.mp h with h | h
    · rw [h]
      decide
    · exact decimal_digit h

namespace KernelMount

variable {m : KernelMount}

theorem newline_notMem_line : (0x0A : UInt8) ∉ m.line := by
  have hfield : ∀ f ∈ m.front ++ [escapeField m.superOptions], (0x0A : UInt8) ∉ f := by
    intro f hf hmem
    unfold front leading tags at hf
    simp only [List.append_assoc, List.cons_append, List.nil_append, List.mem_cons, List.mem_append,
      List.mem_map, List.not_mem_nil, or_false] at hf
    rcases hf with rfl | rfl | rfl | rfl | rfl | rfl | ⟨o, -, rfl⟩ | rfl | rfl | rfl | rfl
    · exact newline_blank (decimal_digit hmem).2 rfl
    · exact newline_blank (decimal_digit hmem).2 rfl
    · exact newline_blank (device_digit hmem).2 rfl
    · exact newline_notMem_escape _ hmem
    · exact newline_notMem_escape _ hmem
    · exact newline_notMem_escape _ hmem
    · exact newline_notMem_escape _ hmem
    · exact absurd hmem (by decide)
    · exact newline_notMem_escape _ hmem
    · exact newline_notMem_escape _ hmem
    · exact newline_notMem_escape _ hmem
  unfold line
  generalize m.front ++ [escapeField m.superOptions] = xs at hfield
  induction xs with
  | nil => exact List.not_mem_nil
  | cons x xs ih =>
      have hrest := ih fun f hf => hfield f (List.mem_cons_of_mem _ hf)
      cases xs with
      | nil =>
          rw [List.intercalate_singleton]
          exact hfield x List.mem_cons_self
      | cons y xs =>
          rw [List.intercalate_cons_cons, List.append_assoc, List.mem_append, List.mem_append, not_or,
            not_or]
          exact ⟨hfield x List.mem_cons_self, by decide, hrest⟩

end KernelMount

/-- The scanner hands out the lines as the kernel wrote them, unless one is too long. -/
theorem scanLines_mountTable (mounts : List KernelMount) :
    scanLines (mountTable mounts) =
      if (∀ m ∈ mounts, m.line.length < maxLine) then .ok (mounts.map fun m => dropCR m.line)
      else .error (.wrap "reading mount table" (.ext "bufio.Scanner: token too long")) := by
  have hsplit : (mountTable mounts).splitOn 0x0A = mounts.map KernelMount.line ++ [[]] := by
    unfold mountTable
    induction mounts with
    | nil => rfl
    | cons m ms ih =>
        rw [List.flatMap_cons, List.append_assoc, List.singleton_append,
          List.splitOn_append_cons_self, ih, List.splitOn_eq_singleton KernelMount.newline_notMem_line]
        rfl
  have hlast : (mounts.map KernelMount.line ++ [[]]).getLastD [] = [] := by
    rw [List.getLastD_concat]
  unfold scanLines
  rw [hsplit]
  dsimp only
  rw [if_pos hlast, List.dropLast_concat]
  by_cases hshort : ∀ m ∈ mounts, m.line.length < maxLine
  · rw [if_pos hshort, if_neg, List.map_map]
    · rfl
    · rw [Bool.not_eq_true, List.any_eq_false]
      intro line hline
      obtain ⟨m, hm, rfl⟩ := List.mem_map.mp hline
      have := hshort m hm
      simp
      omega
  · rw [if_neg hshort, if_pos]
    push Not at hshort
    obtain ⟨m, hm, hlong⟩ := hshort
    rw [List.any_eq_true]
    exact ⟨m.line, List.mem_map_of_mem hm, by simpa using hlong⟩

/-! ### Fields of a line -/

theorem dropCR_append (x z : Bytes) : dropCR (x ++ 0x20 :: z) = x ++ 0x20 :: dropCR z := by
  unfold dropCR
  rcases List.eq_nil_or_concat z with rfl | ⟨z, b, rfl⟩
  · rw [List.getLast?_concat, if_neg (by decide)]
    rfl
  · rw [List.concat_eq_append, ← List.cons_append, ← List.append_assoc, List.getLast?_concat,
      List.getLast?_concat]
    split
    · rw [List.dropLast_concat, List.dropLast_concat]
    · simp

theorem intercalate_concat {sep : UInt8} {xs : List Bytes} (hne : xs ≠ []) (y : Bytes) :
    [sep].intercalate (xs ++ [y]) = [sep].intercalate xs ++ sep :: y := by
  induction xs with
  | nil => exact absurd rfl hne
  | cons x xs ih =>
      cases xs with
      | nil => simp
      | cons x' xs =>
          rw [List.cons_append, List.cons_append, List.intercalate_cons_cons, ← List.cons_append,
            ih (List.cons_ne_nil _ _), List.intercalate_cons_cons, List.append_assoc, List.append_assoc,
            List.append_assoc]

namespace KernelMount

/-- The fields that are not read into a `Mount` come out whole, and none is a separator. -/
structure Framed (m : KernelMount) : Prop where
  root : Solid m.root
  options : Solid m.options
  optional : ∀ o ∈ m.optional, Solid o ∧ o ≠ dash

/-- The fields that are read come out whole, the filesystem type has no escapes, and the line
fits the scanner's buffer. -/
structure Readable (m : KernelMount) : Prop where
  path : Solid m.path
  fsType : Solid m.fsType
  fsType_bare : ∀ b ∈ m.fsType, escapedByte b = false
  source : Solid m.source
  short : m.line.length < maxLine

variable {m : KernelMount}

theorem fields_line : fields (dropCR m.line) =
    m.front.flatMap fields ++ fields (dropCR (escapeField m.superOptions)) := by
  have hne : m.front ≠ [] := by
    unfold front leading
    simp
  rw [line, intercalate_concat hne, dropCR_append, Go.fields_append_space, Go.fields_intercalate]

theorem Framed.fields_tags (h : m.Framed) : m.tags.flatMap fields = m.tags := by
  have hoptional : ∀ os : List Bytes, (∀ o ∈ os, Solid o) →
      (os.map escapeField).flatMap fields = os.map escapeField := by
    intro os
    induction os with
    | nil => intro _; rfl
    | cons o os ih =>
        intro hos
        rw [List.map_cons, List.flatMap_cons, fields_escape_solid (hos o List.mem_cons_self),
          ih fun o' ho' => hos o' (List.mem_cons_of_mem _ ho')]
        rfl
  unfold tags
  rw [List.flatMap_cons, fields_escape_solid h.options, hoptional _ fun o ho => (h.optional o ho).1]
  rfl

theorem Framed.fields_leading (h : m.Framed) : m.leading.flatMap fields = m.leading := by
  have hdevice : fields (decimal m.major ++ 0x3A :: decimal m.minor) =
      [decimal m.major ++ 0x3A :: decimal m.minor] := fields_ascii (by simp) fun b hb => device_digit hb
  unfold leading
  rw [List.flatMap_cons, List.flatMap_cons, List.flatMap_cons, List.flatMap_cons,
    fields_ascii (decimal_ne_nil _) (fun b hb => decimal_digit hb),
    fields_ascii (decimal_ne_nil _) (fun b hb => decimal_digit hb), hdevice,
    fields_escape_solid h.root]
  rfl

set_option maxRecDepth 2000 in
/-- What the reader splits a line into. -/
theorem Framed.fields_line (h : m.Framed) : fields (dropCR m.line) =
    m.leading ++ ((pieces m.path).map escapeField ++ (m.tags ++ (dash ::
      ((pieces m.fsType).map escapeField ++ ((pieces m.source).map escapeField ++
        fields (dropCR (escapeField m.superOptions))))))) := by
  have hdash : fields dash = [dash] := fields_ascii (by decide) (by decide)
  rw [KernelMount.fields_line, front, List.flatMap_append, List.flatMap_append, List.flatMap_append,
    h.fields_leading, h.fields_tags, List.flatMap_cons, List.flatMap_cons, List.flatMap_cons,
    List.flatMap_cons, hdash, fields_escape, fields_escape, fields_escape]
  simp

theorem dash_notMem_tags (h : m.Framed) : ∀ o ∈ m.optional.map escapeField, o ≠ dash := by
  intro o ho heq
  obtain ⟨o, hmem, rfl⟩ := List.mem_map.mp ho
  have hplain := congrArg unescapeMountField heq
  rw [unescape_escape] at hplain
  exact (h.optional o hmem).2 hplain

/-- What is read off a line whose mount point comes out whole: the first two fields after the
separator. -/
theorem Framed.parse (h : m.Framed) (hpath : Solid m.path) :
    (parseMountLine (dropCR m.line)).map (fun r => (r.path, r.fsType, r.source)) =
      match (pieces m.fsType).map escapeField ++ ((pieces m.source).map escapeField ++
          fields (dropCR (escapeField m.superOptions))) with
      | fsType :: source :: _ => some (m.path, fsType, unescapeMountField source)
      | _ => none := by
  have hdrop : (m.optional.map escapeField ++ dash ::
      ((pieces m.fsType).map escapeField ++ ((pieces m.source).map escapeField ++
        fields (dropCR (escapeField m.superOptions))))).dropWhile (· ≠ ascii "-") =
      dash :: ((pieces m.fsType).map escapeField ++ ((pieces m.source).map escapeField ++
        fields (dropCR (escapeField m.superOptions)))) := by
    have hall : ∀ o ∈ m.optional.map escapeField, decide (o ≠ ascii "-") = true :=
      fun o ho => decide_eq_true (dash_notMem_tags h o ho)
    rw [List.dropWhile_append_of_pos hall, List.dropWhile_cons_of_neg (by simp [dash])]
  unfold parseMountLine
  rw [h.fields_line, pieces_of_solid hpath]
  unfold leading tags
  simp only [List.map_cons, List.map_nil, List.cons_append, List.nil_append, List.drop_succ_cons,
    List.drop_zero, List.getD_cons_succ, List.getD_cons_zero]
  rw [hdrop]
  generalize (pieces m.fsType).map escapeField ++ ((pieces m.source).map escapeField ++
    fields (dropCR (escapeField m.superOptions))) = rest
  rcases rest with _ | ⟨fsType, _ | ⟨source, rest⟩⟩
  · exact Option.map_none _
  · exact Option.map_none _
  · dsimp only [Option.map_some]
    rw [unescape_escape]

/-- A mount's line is read as the mount where its fields come out whole. -/
theorem Framed.parse_readable (h : m.Framed) (hr : m.Readable) :
    (parseMountLine (dropCR m.line)).map (fun r => (r.path, r.fsType, r.source)) =
      some (m.path, m.fsType, m.source) := by
  rw [h.parse hr.path, pieces_of_solid hr.fsType, pieces_of_solid hr.source, List.map_singleton,
    List.map_singleton, List.singleton_append, List.singleton_append]
  dsimp only
  rw [escapeField_eq_self.mpr hr.fsType_bare, unescape_escape]

theorem path_of_parse {line : Bytes} {r : Mount} (h : parseMountLine line = some r) :
    r.path = unescapeMountField ((fields line).getD 4 []) := by
  unfold parseMountLine at h
  dsimp only at h
  split at h
  · rw [← Option.some.inj h]
  · exact absurd h (by simp)

/-- A first piece that is the whole field, or a next field that is: either way the field comes
out whole. -/
theorem solid_of_head {f next : Bytes} {rest : List Bytes} (hnext : Solid next)
    (h : unescapeMountField (((pieces f).map escapeField ++ escapeField next :: rest).getD 0 []) = f) :
    Solid f := by
  cases hp : pieces f with
  | nil =>
      rw [hp] at h
      have heq : next = f := (unescape_escape next).symm.trans h
      rw [← heq]
      exact hnext
  | cons q qs =>
      rw [hp] at h
      have heq : q = f := (unescape_escape q).symm.trans h
      refine solid_of_mem_pieces ?_
      rw [hp, heq]
      exact List.mem_cons_self

theorem dropCR_solid {f : Bytes} (h : Solid f) : dropCR (escapeField f) = escapeField f := by
  unfold dropCR
  rcases List.eq_nil_or_concat f with rfl | ⟨g, b, rfl⟩
  · exact absurd rfl h.1
  rw [List.concat_eq_append] at *
  refine if_neg fun hlast => ?_
  have hfield : escapeField (g ++ [b]) = escapeField g ++ escapeByte b := by
    unfold escapeField
    rw [List.flatMap_append, List.flatMap_singleton]
  rw [hfield] at hlast
  by_cases hesc : escapedByte b = true
  · obtain ⟨d₁, d₂, d₃, heq, -, hdigits⟩ := escapeByte_of_escaped hesc
    rw [heq] at hlast
    have hcr : d₃ = 0x0D := by simpa using hlast
    have hblank := (hdigits d₃ (by simp)).2
    rw [hcr] at hblank
    exact absurd hblank (by decide)
  · rw [escapeByte, if_neg hesc, List.getLast?_concat] at hlast
    rw [Option.some.inj hlast] at h
    have hmem : ((0x0D : UInt8), blankByte 0x0D) ∈ markBlanks 0 false (g ++ [0x0D]) := by
      rw [Go.markBlanks_append_ascii (by decide) [] g 0 false (Nat.zero_le _)]
      simp
    exact absurd (h.2 _ hmem) (by decide)

/-- Where the other fields come out whole, a line that is read as the mount has its own do so. -/
theorem Framed.readable (h : m.Framed) (hfs : Solid m.fsType) (hsuper : Solid m.superOptions)
    (hshort : m.line.length < maxLine)
    (hread : (parseMountLine (dropCR m.line)).map (fun r => (r.path, r.fsType, r.source)) =
      some (m.path, m.fsType, m.source)) : m.Readable := by
  obtain ⟨r, hr, htriple⟩ := Option.map_eq_some_iff.mp hread
  have hpath : Solid m.path := by
    have hfirst := path_of_parse hr
    rw [(Prod.mk.inj htriple).1, h.fields_line] at hfirst
    exact solid_of_head h.options hfirst.symm
  rw [h.parse hpath, pieces_of_solid hfs, dropCR_solid hsuper, fields_escape_solid hsuper,
    List.map_singleton, List.singleton_append] at hread
  obtain ⟨a, rest, hcons⟩ : ∃ a rest,
      (pieces m.source).map escapeField ++ [escapeField m.superOptions] = a :: rest :=
    List.exists_cons_of_ne_nil (by simp)
  rw [hcons] at hread
  obtain ⟨-, htail⟩ := Prod.mk.inj (Option.some.inj hread)
  obtain ⟨hbare, hsource⟩ := Prod.mk.inj htail
  refine ⟨hpath, hfs, escapeField_eq_self.mp hbare, ?_, hshort⟩
  have hfirst : unescapeMountField
      (((pieces m.source).map escapeField ++ [escapeField m.superOptions]).getD 0 []) = m.source := by
    rw [hcons]
    exact hsource
  exact solid_of_head hsuper hfirst

end KernelMount

/-! ### The table -/

/-- A list that is read to as many results has each of them read. -/
theorem filterMap_eq_map {α β : Type*} {f : α → Option β} {g : α → β} {l : List α}
    (h : l.filterMap f = l.map g) : ∀ a ∈ l, f a = some (g a) := by
  induction l with
  | nil => intro a ha; exact absurd ha List.not_mem_nil
  | cons b l ih =>
      cases hb : f b with
      | none =>
          have hlen := congrArg List.length h
          rw [List.filterMap_cons_none hb, List.length_map, List.length_cons] at hlen
          have hle := List.length_filterMap_le f l
          omega
      | some c =>
          rw [List.filterMap_cons_some hb, List.map_cons] at h
          obtain ⟨hhead, htail⟩ := List.cons.inj h
          intro a ha
          rcases List.mem_cons.mp ha with ha | ha
          · rw [ha, hb, hhead]
          · exact ih htail a ha

theorem decodes_iff {mounts : List KernelMount} : Decodes mounts ↔
    (∀ m ∈ mounts, m.line.length < maxLine) ∧
      ∀ m ∈ mounts, (parseMountLine (dropCR m.line)).map (fun r => (r.path, r.fsType, r.source)) =
        some (m.path, m.fsType, m.source) := by
  unfold Decodes parseMountInfo
  rw [scanLines_mountTable]
  by_cases hshort : ∀ m ∈ mounts, m.line.length < maxLine
  · rw [if_pos hshort]
    have hread : Except.map (fun ms : List Mount => ms.map fun r => (r.path, r.fsType, r.source))
        (Except.map (fun lines => lines.filterMap parseMountLine)
          (.ok (mounts.map fun m => dropCR m.line) : Except Err (List Bytes))) =
        .ok (mounts.filterMap fun m => (parseMountLine (dropCR m.line)).map
          fun r => (r.path, r.fsType, r.source)) := by
      show Except.ok _ = Except.ok _
      dsimp only
      rw [List.filterMap_map, List.map_filterMap]
      exact congrArg Except.ok (List.filterMap_congr fun m _ => by rw [Function.comp_apply])
    rw [hread]
    constructor
    · intro h
      exact ⟨hshort, filterMap_eq_map (Except.ok.inj h)⟩
    · intro h
      rw [List.filterMap_congr h.2]
      exact congrArg _ (List.filterMap_eq_map (f := fun m : KernelMount => (m.path, m.fsType, m.source)) ▸ rfl)
  · rw [if_neg hshort]
    exact iff_of_false (fun h => by cases h) (fun h => hshort h.1)

/-- **When the mount table is decoded**: where the fields of every mount come out whole, the
filesystem types have nothing to escape and the lines fit the buffer; and where the fields
that are not read do come out whole, nowhere else. -/
theorem parseMountInfo_decodes (mounts : List KernelMount) :
    ((∀ m ∈ mounts, m.Framed ∧ m.Readable) → Decodes mounts) ∧
    ((∀ m ∈ mounts, m.Framed ∧ Solid m.fsType ∧ Solid m.superOptions) →
      (Decodes mounts ↔ ∀ m ∈ mounts, m.Readable)) := by
  have hsufficient : (∀ m ∈ mounts, m.Framed ∧ m.Readable) → Decodes mounts := by
    intro h
    refine decodes_iff.mpr ⟨fun m hm => (h m hm).2.short, fun m hm => ?_⟩
    exact (h m hm).1.parse_readable (h m hm).2
  refine ⟨hsufficient, fun hframed => ⟨fun hdecodes m hm => ?_, fun hreadable => ?_⟩⟩
  · obtain ⟨hshort, hread⟩ := decodes_iff.mp hdecodes
    obtain ⟨hframe, hfs, hsuper⟩ := hframed m hm
    exact hframe.readable hfs hsuper (hshort m hm) (hread m hm)
  · exact hsufficient fun m hm => ⟨(hframed m hm).1, hreadable m hm⟩

/-- A disk mounted on a path with a no-break space. -/
def noBreakMount : KernelMount where
  id := 36
  parent := 35
  major := 8
  minor := 1
  root := ascii "/"
  path := ascii "/mnt/my" ++ [0xC2, 0xA0] ++ ascii "disk"
  options := ascii "rw"
  fsType := ascii "ext4"
  source := ascii "/dev/sda1"
  superOptions := ascii "rw"

theorem parseMountInfo_noBreak : ¬ ∀ mounts : List KernelMount, Decodes mounts := by
  intro h
  have hpath := (decodes_iff.mp (h [noBreakMount])).2 noBreakMount List.mem_cons_self
  exact absurd hpath (by decide +kernel)

/-- A root that falls apart may leave another field in the mount point's place that says the
same, so the first half's condition on the root is not needed everywhere. -/
example : (parseMountLine (dropCR { noBreakMount with
    root := ascii "/x" ++ [0xC2, 0xA0] ++ ascii "/mnt", path := ascii "/mnt" }.line)).map
      (fun r => (r.path, r.fsType, r.source)) = some (ascii "/mnt", ascii "ext4", ascii "/dev/sda1") := by
  decide +kernel

end VMSmith
