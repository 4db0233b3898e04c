/-
A stream read line by line.

`bufio.Scanner` hands over what stands before each line feed, without a carriage return, and
at the end of the stream what is left.  It gives up on a line that does not fit into its
buffer.  A stream that was cut off anywhere has the lines of the whole one up to there, the
last of them cut off too.
-/
import VMSmith.Lib.Fields

namespace Go

/-- `strings.TrimSpace`, of a byte string. -/
def trimBytes (s : Bytes) : Bytes :=
  ((((markBlanks 0 false s).dropWhile Prod.snd).reverse.dropWhile Prod.snd).reverse).map Prod.fst

/-- `dropCR`; the line is given backwards. -/
def endLine : Bytes → Bytes
  | 0x0D :: acc => acc.reverse
  | acc => acc.reverse

/-- `bufio.ScanLines` through a buffer of `limit` bytes: the lines, and whether one did not fit.
`acc` is what has been read of a line, latest first. -/
def scanLines (limit : Nat) : Bytes → Bytes → List Bytes × Bool
  | acc, [] => (if acc = [] then [] else [endLine acc], false)
  | acc, b :: bs =>
    if b = 0x0A then
      let r := scanLines limit [] bs
      (endLine acc :: r.1, r.2)
    else if limit ≤ acc.length + 1 then ([], true)
    else scanLines limit (b :: acc) bs

/-! ### Blanks at the ends -/

/-- A byte string that begins and ends with visible ASCII characters. -/
structure Solid (s : Bytes) : Prop where
  first : ∃ a t, s = a :: t ∧ a < 0x80 ∧ blankByte a = false
  last : ∃ t a, s = t ++ [a] ∧ a < 0x80 ∧ blankByte a = false

theorem Solid.ne_nil {s : Bytes} (h : Solid s) : s ≠ [] := by
  obtain ⟨a, t, rfl, -, -⟩ := h.first
  exact List.cons_ne_nil a t

theorem trimBytes_eq_self {s : Bytes} (h : Solid s) : trimBytes s = s := by
  obtain ⟨a, t, hs, ha, hblank⟩ := h.first
  obtain ⟨t', a', hs', ha', hblank'⟩ := h.last
  have hmarks : (markBlanks 0 false s).dropWhile Prod.snd = markBlanks 0 false s := by
    rw [hs, markBlanks_cons_ascii ha, List.dropWhile_cons_of_neg]
    simp [hblank]
  have hlast : markBlanks 0 false s = markBlanks 0 false t' ++ [(a', blankByte a')] := by
    rw [hs', markBlanks_append_ascii ha' [] t' 0 false (Nat.zero_le _)]
    rfl
  rw [trimBytes, hmarks, hlast, List.reverse_append, List.reverse_singleton, List.singleton_append,
    List.dropWhile_cons_of_neg (by simp [hblank']), List.reverse_cons, List.reverse_reverse,
    ← hlast, markBlanks_fst]

/-- A solid text is trimmed out of the blank before it. -/
theorem trimBytes_space {s : Bytes} (h : Solid s) : trimBytes (0x20 :: s) = s := by
  have hspace : Prod.snd ((0x20 : UInt8), blankByte 0x20) = true := by decide
  have hself := trimBytes_eq_self h
  rw [trimBytes] at hself
  rw [trimBytes, markBlanks_cons_ascii (by decide), List.dropWhile_cons_of_pos hspace, hself]

/-! ### Lines -/

theorem endLine_reverse {s : Bytes} (h : (0x0D : UInt8) ∉ s) : endLine s.reverse = s := by
  unfold endLine
  split
  · rename_i acc hacc
    have hmem : (0x0D : UInt8) ∈ s.reverse := by
      rw [hacc]
      exact List.mem_cons_self
    exact absurd (List.mem_reverse.mp hmem) h
  · rw [List.reverse_reverse]

section

variable {limit : Nat}

/-- Up to the end of a line. -/
theorem scanLines_line {s : Bytes} (hs : (0x0A : UInt8) ∉ s) {acc : Bytes}
    (hlength : acc.length + s.length < limit) (rest : Bytes) :
    scanLines limit acc (s ++ 0x0A :: rest) =
      (endLine (s.reverse ++ acc) :: (scanLines limit [] rest).1, (scanLines limit [] rest).2) := by
  induction s generalizing acc with
  | nil => rw [List.nil_append, scanLines, if_pos rfl, List.reverse_nil, List.nil_append]
  | cons b s ih =>
      rw [List.mem_cons, not_or] at hs
      rw [List.length_cons] at hlength
      rw [List.cons_append, scanLines, if_neg (Ne.symm hs.1), if_neg (by omega),
        ih hs.2 (by rw [List.length_cons]; omega), List.reverse_cons, List.append_assoc]
      rfl

/-- Up to the end of the stream. -/
theorem scanLines_last {s : Bytes} (hs : (0x0A : UInt8) ∉ s) {acc : Bytes}
    (hlength : acc.length + s.length < limit) :
    scanLines limit acc s =
      (if s.reverse ++ acc = [] then [] else [endLine (s.reverse ++ acc)], false) := by
  induction s generalizing acc with
  | nil => rw [scanLines, List.reverse_nil, List.nil_append]
  | cons b s ih =>
      rw [List.mem_cons, not_or] at hs
      rw [List.length_cons] at hlength
      rw [scanLines, if_neg (Ne.symm hs.1), if_neg (by omega),
        ih hs.2 (by rw [List.length_cons]; omega), List.reverse_cons, List.append_assoc]
      rfl

/-- Some lines, each ended by a line feed. -/
def joinLines (ls : List Bytes) : Bytes := ls.flatMap (· ++ [0x0A])

@[simp] theorem joinLines_nil : joinLines [] = [] := rfl

theorem joinLines_cons (l : Bytes) (ls : List Bytes) :
    joinLines (l :: ls) = l ++ 0x0A :: joinLines ls := by
  simp [joinLines]

theorem joinLines_append (ls ls' : List Bytes) :
    joinLines (ls ++ ls') = joinLines ls ++ joinLines ls' := List.flatMap_append

/-- A line that is read as it is written. -/
structure IsLine (limit : Nat) (s : Bytes) : Prop where
  unbroken : (0x0A : UInt8) ∉ s
  whole : (0x0D : UInt8) ∉ s
  fits : s.length < limit

theorem scanLines_joinLines {ls : List Bytes} (h : ∀ l ∈ ls, IsLine limit l) (rest : Bytes) :
    scanLines limit [] (joinLines ls ++ rest) =
      (ls ++ (scanLines limit [] rest).1, (scanLines limit [] rest).2) := by
  induction ls with
  | nil => rfl
  | cons l ls ih =>
      have hl := h l List.mem_cons_self
      have hrest := ih fun l' hl' => h l' (List.mem_cons_of_mem l hl')
      rw [joinLines_cons, List.append_assoc, List.cons_append,
        scanLines_line hl.unbroken (by simpa using hl.fits), hrest, List.append_nil, endLine_reverse hl.whole]
      rfl

/-- A part of some lines, none of them empty, has no empty line either. -/
theorem scanLines_cut {ls : List Bytes} (h : ∀ l ∈ ls, IsLine limit l)
    (hne : ∀ l ∈ ls, ∃ b t, l = b :: t ∧ b ≠ 0x0D) {p : Bytes} (hp : p <+: joinLines ls) :
    [] ∉ (scanLines limit [] p).1 ∧ (scanLines limit [] p).2 = false := by
  induction ls generalizing p with
  | nil =>
      obtain rfl := List.prefix_nil.mp hp
      simp [scanLines]
  | cons l ls ih =>
      have hl := h l List.mem_cons_self
      obtain ⟨b, t, hlb, hb⟩ := hne l List.mem_cons_self
      rw [joinLines_cons, ← List.singleton_append (x := (0x0A : UInt8)), ← List.append_assoc] at hp
      have hnonempty : ∀ q : Bytes, q ≠ [] → q <+: l → endLine q.reverse ≠ [] := by
        intro q hq hql hnil
        obtain ⟨c, q, rfl⟩ := List.exists_cons_of_ne_nil hq
        rw [hlb, List.cons_prefix_cons] at hql
        obtain rfl := hql.1
        unfold endLine at hnil
        split at hnil
        · rename_i acc hacc
          rw [List.reverse_eq_nil_iff] at hnil
          rw [hnil, List.reverse_eq_cons_iff] at hacc
          exact hb (List.cons.inj hacc).1
        · rw [List.reverse_reverse] at hnil
          cases hnil
      rcases Nat.lt_or_ge l.length p.length with hlt | hle
      · obtain ⟨p', rfl⟩ : l ++ [0x0A] <+: p := by
          refine List.prefix_of_prefix_length_le (List.prefix_append _ (joinLines ls)) hp ?_
          rw [List.length_append, List.length_singleton]
          exact hlt
        rw [List.prefix_append_right_inj] at hp
        have hrest := ih (fun l' hl' => h l' (List.mem_cons_of_mem l hl'))
          (fun l' hl' => hne l' (List.mem_cons_of_mem l hl')) hp
        rw [List.append_assoc, List.singleton_append,
          scanLines_line hl.unbroken (by simpa using hl.fits), List.append_nil, endLine_reverse hl.whole]
        refine ⟨?_, hrest.2⟩
        rw [List.mem_cons, not_or]
        refine ⟨?_, hrest.1⟩
        rw [hlb]
        exact (List.cons_ne_nil b t).symm
      · have hpl : p <+: l :=
          List.prefix_of_prefix_length_le hp ((List.prefix_append _ _).trans (List.prefix_append _ _)) hle
        have hbreak : (0x0A : UInt8) ∉ p := fun hmem => hl.unbroken (hpl.subset hmem)
        have hfits : p.length < limit := lt_of_le_of_lt hle hl.fits
        rw [scanLines_last hbreak (by simpa using hfits), List.append_nil]
        refine ⟨?_, rfl⟩
        by_cases hpnil : p = []
        · rw [if_pos (by simpa using hpnil)]
          exact List.not_mem_nil
        · rw [if_neg (by simpa using hpnil), List.mem_singleton]
          exact (hnonempty p hpnil hpl).symm

end

end Go
