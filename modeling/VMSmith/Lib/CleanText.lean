/-
Clean paths as values.

`Clean` gives one text for every path that means the same lexically, and a `CleanPath` is
what such a text says: whether it starts at the root, and by which components it goes on.
Every text is read as one by `of`, written back by `text`, and the two undo each other, so
what `Clean`, `Join` and `Dir` do is a matter of lists of components.
-/
import VMSmith.Lib.CleanPath

namespace Go

/-- `filepath.Dir`: all up to the last slash, cleaned. -/
def dir (s : String) : String :=
  clean (String.ofList (s.toList.reverse.dropWhile (· ≠ '/')).reverse)

/-- A clean path. -/
structure CleanPath where
  /-- It starts at the root. -/
  rooted : Bool
  comps : List String
  upFirst : GoesUpFirst comps
  plain : rooted = true → ∀ c ∈ comps, Plain c

theorem goesUpFirst_of_plain {cs : List String} (h : ∀ c ∈ cs, Plain c) : GoesUpFirst cs :=
  ⟨0, cs, rfl, h⟩

theorem plain_cleanStep {acc : HostPath} (h : ∀ c ∈ acc, Plain c) {c : String} (hc : '/' ∉ c.toList) :
    ∀ d ∈ HostPath.cleanStep acc c, Plain d := by
  unfold HostPath.cleanStep
  by_cases hnone : c = "" ∨ c = "."
  · rw [if_pos hnone]
    exact h
  rw [if_neg hnone]
  rw [not_or] at hnone
  by_cases hup : c = ".."
  · rw [if_pos hup]
    exact fun d hd => h d (List.mem_of_mem_dropLast hd)
  · rw [if_neg hup]
    intro d hd
    rcases List.mem_append.mp hd with hd | hd
    · exact h d hd
    · rw [List.mem_singleton.mp hd]
      exact ⟨hnone.1, hnone.2, hup, hc⟩

theorem plain_ofText (s : String) : ∀ c ∈ HostPath.ofText s, Plain c := by
  have hstep : ∀ (cs : List String) (acc : HostPath), (∀ c ∈ cs, '/' ∉ c.toList) →
      (∀ c ∈ acc, Plain c) → ∀ c ∈ cs.foldl HostPath.cleanStep acc, Plain c := by
    intro cs
    induction cs with
    | nil => intro acc _ h; exact h
    | cons c cs ih =>
        intro acc hcs h
        exact ih _ (fun d hd => hcs d (by simp [hd])) (plain_cleanStep h (hcs c (by simp)))
  exact hstep _ _ (fun c hc => noSlash_of_mem_components hc) (by simp)

namespace CleanPath

/-- What a text means as a path. -/
def of (s : String) : CleanPath where
  rooted := isAbs s
  comps := if isAbs s then HostPath.ofText s else cleanRel s
  upFirst := by
    by_cases h : isAbs s = true
    · rw [if_pos h]
      exact goesUpFirst_of_plain (plain_ofText s)
    · rw [if_neg h]
      exact cleanRel_goesUpFirst s
  plain := by
    intro h
    rw [if_pos h]
    exact plain_ofText s

def text (p : CleanPath) : String :=
  if p.rooted then "/" ++ join "/" p.comps else if p.comps = [] then "." else join "/" p.comps

/-- The length of some components, each with a slash. -/
def span (cs : List String) : ℕ := (cs.map fun c => c.toList.length + 1).sum

end CleanPath

end Go
