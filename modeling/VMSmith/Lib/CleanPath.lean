/-
`filepath.Clean` of any path, as text.

A path that does not start at the root may have to go up from where it starts, and what
cannot be taken back stays in front.  Without such a rest a clean path leads down only.
-/
import VMSmith.Lib.Path
import VMSmith.Lib.GoStrings

namespace Go

/-- One component of a path that need not be absolute. -/
def relStep (acc : List String) (component : String) : List String :=
  if component = "" ∨ component = "." then acc
  else if component = ".." then
    if acc = [] ∨ acc.getLast? = some ".." then acc ++ [".."] else acc.dropLast
  else acc ++ [component]

/-- The components of a relative path, cleaned. -/
def cleanRel (s : String) : List String := (HostPath.components s).foldl relStep []

/-- `filepath.IsAbs`. -/
def isAbs (s : String) : Bool := s.toList.head? == some '/'

/-- `filepath.Clean`. -/
def clean (s : String) : String :=
  if isAbs s then HostPath.toText (HostPath.ofText s)
  else
    match cleanRel s with
    | [] => "."
    | cs => join "/" cs

/-! ### Components -/

/-- What a component of a clean path is, unless it goes up. -/
def Plain (c : String) : Prop := c ≠ "" ∧ c ≠ "." ∧ c ≠ ".." ∧ '/' ∉ c.toList

theorem not_mem_of_mem_splitOn {c : Char} {s part : List Char} (h : part ∈ s.splitOn c) : c ∉ part := by
  induction s generalizing part with
  | nil =>
      rw [List.splitOn_nil, List.mem_singleton] at h
      rw [h]
      exact List.not_mem_nil
  | cons d s ih =>
      rw [List.splitOn_cons_eq_if_modifyHead] at h
      by_cases hd : (d == c) = true
      · rw [if_pos hd] at h
        rcases List.mem_cons.mp h with h | h
        · rw [h]
          exact List.not_mem_nil
        · exact ih h
      · rw [if_neg hd] at h
        cases hs : s.splitOn c with
        | nil => exact absurd hs (List.splitOn_ne_nil _ _)
        | cons first rest =>
            rw [hs] at h ih
            rcases List.mem_cons.mp h with h | h
            · rw [h, List.mem_cons, not_or]
              exact ⟨fun heq => hd (by rw [heq]; exact beq_self_eq_true _), ih List.mem_cons_self⟩
            · exact ih (List.mem_cons_of_mem _ h)

theorem noSlash_of_mem_components {s c : String} (h : c ∈ HostPath.components s) : '/' ∉ c.toList := by
  obtain ⟨cs, hcs, rfl⟩ := List.mem_map.mp h
  rw [String.toList_ofList]
  exact not_mem_of_mem_splitOn hcs

/-- Clean components go up first and down from there. -/
def GoesUpFirst (cs : List String) : Prop :=
  ∃ ups downs, cs = List.replicate ups ".." ++ downs ∧ ∀ c ∈ downs, Plain c

theorem goesUpFirst_relStep {acc : List String} (h : GoesUpFirst acc) {c : String}
    (hc : '/' ∉ c.toList) : GoesUpFirst (relStep acc c) := by
  obtain ⟨ups, downs, rfl, hdowns⟩ := h
  unfold relStep
  by_cases hnone : c = "" ∨ c = "."
  · rw [if_pos hnone]
    exact ⟨ups, downs, rfl, hdowns⟩
  rw [if_neg hnone]
  rw [not_or] at hnone
  by_cases hup : c = ".."
  · rw [if_pos hup]
    rcases List.eq_nil_or_concat downs with rfl | ⟨front, last, rfl⟩
    · have hstays : List.replicate ups ".." ++ [] = [] ∨
          (List.replicate ups ".." ++ []).getLast? = some ".." := by
        cases ups with
        | zero => exact .inl rfl
        | succ ups => exact .inr (by rw [List.append_nil, List.getLast?_replicate]; rfl)
      rw [if_pos hstays]
      refine ⟨ups + 1, [], ?_, hdowns⟩
      rw [List.append_nil, List.append_nil, List.replicate_succ']
    · have hlast : last ≠ ".." := (hdowns last (by simp)).2.2.1
      have hdrops : ¬ (List.replicate ups ".." ++ (front ++ [last]) = [] ∨
          (List.replicate ups ".." ++ (front ++ [last])).getLast? = some "..") := by
        rw [← List.append_assoc, List.getLast?_concat]
        simp [hlast]
      rw [List.concat_eq_append] at *
      rw [if_neg hdrops, ← List.append_assoc, List.dropLast_concat]
      exact ⟨ups, front, rfl, fun c hc => hdowns c (by simp [hc])⟩
  · rw [if_neg hup, List.append_assoc]
    refine ⟨ups, downs ++ [c], rfl, ?_⟩
    intro d hd
    rcases List.mem_append.mp hd with hd | hd
    · exact hdowns d hd
    · rw [List.mem_singleton.mp hd]
      exact ⟨hnone.1, hnone.2, hup, hc⟩

theorem cleanRel_goesUpFirst (s : String) : GoesUpFirst (cleanRel s) := by
  have hstep : ∀ (cs acc : List String), (∀ c ∈ cs, '/' ∉ c.toList) → GoesUpFirst acc →
      GoesUpFirst (cs.foldl relStep acc) := by
    intro cs
    induction cs with
    | nil => intro acc _ h; exact h
    | cons c cs ih =>
        intro acc hcs h
        exact ih _ (fun d hd => hcs d (by simp [hd])) (goesUpFirst_relStep h (hcs c (by simp)))
  exact hstep _ _ (fun c hc => noSlash_of_mem_components hc) ⟨0, [], rfl, by simp⟩

/-! ### Joined and taken apart -/

theorem components_join {cs : List String} (hne : cs ≠ []) (hcs : ∀ c ∈ cs, '/' ∉ c.toList) :
    HostPath.components (join "/" cs) = cs := by
  unfold HostPath.components
  rw [toList_join]
  show List.map _ ((['/'].intercalate _).splitOn '/') = _
  rw [List.splitOn_intercalate]
  · rw [List.map_map]
    simp [Function.comp_def]
  · intro l hl
    obtain ⟨c, hc, rfl⟩ := List.mem_map.mp hl
    exact hcs c hc
  · simpa using hne

/-- Going down from a directory one stays inside. -/
theorem resolve_join {d : HostPath} {cs : List String} (hne : cs ≠ []) (hcs : ∀ c ∈ cs, Plain c) :
    d.resolve (join "/" cs) = d ++ cs := by
  have hwalk : ∀ (cs : List String) (acc : HostPath), (∀ c ∈ cs, Plain c) →
      cs.foldl HostPath.cleanStep acc = acc ++ cs := by
    intro cs
    induction cs with
    | nil => intro acc _; exact (List.append_nil acc).symm
    | cons c cs ih =>
        intro acc hcs
        obtain ⟨hempty, hdot, hup, -⟩ := hcs c (by simp)
        rw [List.foldl_cons, HostPath.cleanStep, if_neg (not_or.mpr ⟨hempty, hdot⟩), if_neg hup,
          ih _ (fun d hd => hcs d (by simp [hd])), List.append_assoc]
        rfl
  rw [HostPath.resolve, components_join hne (fun c hc => (hcs c hc).2.2.2)]
  exact hwalk cs d hcs

/-- A clean relative path that neither stays nor goes up leads down only. -/
theorem clean_down {s : String} (hrel : isAbs s = false) (hdot : clean s ≠ ".") (hup : clean s ≠ "..")
    (hups : hasPrefix (clean s) "../" = false) :
    ∃ cs, cs ≠ [] ∧ (∀ c ∈ cs, Plain c) ∧ clean s = join "/" cs := by
  obtain ⟨ups, downs, hcs, hdowns⟩ := cleanRel_goesUpFirst s
  have hclean : clean s = match cleanRel s with | [] => "." | cs => join "/" cs := by
    unfold clean
    rw [if_neg (by rw [hrel]; exact Bool.false_ne_true)]
  rw [hcs] at hclean
  cases ups with
  | zero =>
      rw [List.replicate_zero, List.nil_append] at hclean
      cases downs with
      | nil => exact absurd hclean hdot
      | cons c cs => exact ⟨c :: cs, by simp, hdowns, hclean⟩
  | succ ups =>
      rw [List.replicate_succ, List.cons_append] at hclean
      dsimp only at hclean
      cases hrest : List.replicate ups ".." ++ downs with
      | nil =>
          rw [hrest] at hclean
          exact absurd hclean hup
      | cons c cs =>
          rw [hrest, join] at hclean
          · rw [hclean] at hups
            exact absurd hups (by simp [hasPrefix, List.isPrefixOf])
          · simp

/-! ### The last component -/

/-- `filepath.Base` is the root or one component. -/
theorem base_component (s : String) : base s = "/" ∨ (base s ≠ "" ∧ '/' ∉ (base s).toList) := by
  unfold base
  by_cases hs : s = ""
  · rw [if_pos hs]
    exact .inr ⟨by decide, by decide⟩
  rw [if_neg hs]
  cases hcs : s.toList.reverse.dropWhile (· = '/') with
  | nil => exact .inl rfl
  | cons c cs =>
      dsimp only
      have hc : c ≠ '/' := by
        have hhead := List.head?_dropWhile_not (fun c : Char => decide (c = '/')) s.toList.reverse
        rw [hcs] at hhead
        simpa using hhead
      have htake : (c :: cs).takeWhile (fun c : Char => decide (c ≠ '/')) =
          c :: cs.takeWhile (fun c : Char => decide (c ≠ '/')) := List.takeWhile_cons_of_pos (by simpa using hc)
      refine .inr ⟨?_, ?_⟩
      · intro hempty
        have hnil := String.ofList_eq_empty_iff.mp hempty
        rw [htake] at hnil
        simp at hnil
      · rw [String.toList_ofList, List.mem_reverse]
        intro hmem
        exact absurd (List.mem_takeWhile_imp hmem) (by simp)

/-- A component that is not one of the special ones is one file of a directory. -/
theorem resolve_base {d : HostPath} {s : String} (hdot : base s ≠ ".") (hup : base s ≠ "..")
    (hroot : base s ≠ "/") : d.resolve (base s) = d.join (base s) := by
  obtain ⟨hempty, hslash⟩ := (base_component s).resolve_left hroot
  have hplain : ∀ c ∈ [base s], Plain c := by
    intro c hc
    rw [List.mem_singleton.mp hc]
    exact ⟨hempty, hdot, hup, hslash⟩
  have hdown : d.resolve (join "/" [base s]) = d ++ [base s] :=
    resolve_join (List.cons_ne_nil _ _) hplain
  rwa [join] at hdown

end Go
