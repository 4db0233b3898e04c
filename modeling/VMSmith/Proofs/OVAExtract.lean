/-
Extracting an appliance.

Where the files go is settled by their names alone: the last component of a path is one
file of a directory, and a clean relative path that does not go up leads down.  How much is
written is settled by the running sum, which is the exact one as long as it stays below the
cap; the next size can then carry it past 2^63, where it turns negative and the check lets
the entry through.
-/
import VMSmith.Lib.Int64
import VMSmith.Storage.OVA

namespace VMSmith.OVA

/-! ### Where the files go -/

theorem Entry.resolve_fileName {destDir : HostPath} {e : Entry} (h : e.skipped = false) :
    destDir.resolve e.fileName = destDir.join e.fileName := by
  unfold Entry.skipped at h
  simp only [Bool.or_eq_false_iff, decide_eq_false_iff_not, List.mem_cons, List.not_mem_nil,
    or_false, not_or] at h
  exact Go.resolve_base h.2.1 h.2.2.1 h.2.2.2

/-- The files lie directly in the directory, and so does the descriptor. -/
theorem extractLoop_confined {destDir : HostPath} {archive : List Next} {total : Int64}
    {ovfPath : Option HostPath} (hovf : ∀ p, ovfPath = some p → p.directlyIn destDir) :
    (∀ w ∈ (extractLoop destDir total ovfPath archive).writes, w.1.directlyIn destDir) ∧
      ∀ p, (extractLoop destDir total ovfPath archive).result = .ok p → p.directlyIn destDir := by
  induction archive generalizing total ovfPath with
  | nil =>
      cases ovfPath with
      | none => simp [extractLoop]
      | some q =>
          refine ⟨by simp [extractLoop], fun p hp => hovf p ?_⟩
          rw [extractLoop] at hp
          rw [Except.ok.inj hp]
  | cons next rest ih =>
      cases next with
      | broken reason => simp [extractLoop]
      | entry e =>
          unfold extractLoop
          by_cases hskip : e.skipped = true
          · rw [if_pos hskip]
            exact ih hovf
          have htarget : (destDir.resolve e.fileName).directlyIn destDir := by
            rw [Entry.resolve_fileName (Bool.not_eq_true _ ▸ hskip)]
            exact HostPath.join_directlyIn.mpr rfl
          rw [if_neg hskip]
          dsimp only
          split
          · simp
          split
          · simp
          split
          · simpa using htarget
          · have hnext : ∀ p, e.descriptor (destDir.resolve e.fileName) ovfPath = some p →
                p.directlyIn destDir := by
              intro p hp
              unfold Entry.descriptor at hp
              split at hp
              · rw [← Option.some.inj hp]
                exact htarget
              · exact hovf p hp
            refine ⟨fun w hw => ?_, (ih hnext).2⟩
            rcases List.mem_cons.mp hw with hw | hw
            · rw [hw]
              exact htarget
            · exact (ih hnext).1 w hw

/-- What a descriptor's disk path leads to lies inside the descriptor's directory. -/
theorem importDiskPath_inside {ovfPath : HostPath} {href : String} {p : HostPath}
    (h : importDiskPath ovfPath href = .ok p) : p.within ovfPath.dir = true ∧ p ≠ ovfPath.dir := by
  unfold importDiskPath safeRelativeOVFDiskPath at h
  split at h
  · exact absurd h (by simp)
  dsimp only at h
  split at h
  · exact absurd h (by simp)
  · rename_i clean hclean
    split at hclean
    · exact absurd hclean (by simp)
    rename_i hrel
    split at hclean
    · exact absurd hclean (by simp)
    rename_i hplain
    split at hclean
    · exact absurd hclean (by simp)
    rename_i hups
    rw [not_or] at hrel hplain
    rw [Bool.not_eq_true] at hrel hups
    obtain ⟨cs, hne, hcs, heq⟩ := Go.clean_down hrel.2 hplain.1 hplain.2 hups
    rw [← Except.ok.inj h, ← Option.some.inj hclean, heq, Go.resolve_join hne hcs]
    exact ⟨HostPath.within_iff.mpr (List.prefix_append _ _), by simpa using hne⟩

/-! ### How much is written -/

/-- The bytes an extraction writes, exactly. -/
def Extraction.bytes (x : Extraction) : Nat := (x.writes.map Prod.snd).sum

/-- `ovaMaxExtractBytes`, as a number. -/
def cap : Nat := 512 * 2 ^ 30

/-- The size an entry announces, as a number. -/
def Entry.bytes (e : Entry) : Nat := e.size.toInt.toNat

/-- What comes of an entry that is copied: whole, or as much as goes before the failure. -/
def Entry.copied (e : Entry) : Nat := if e.opens then e.written else 0

/-- No entry that the extraction comes to carries the exact sum past 2^63 while it delivers
more than what is left of the cap; `sum` is what the entries before it came to. -/
def Bounded (sum : Nat) : List Next → Prop
  | [] => True
  | .broken _ :: _ => True
  | .entry e :: rest =>
      if e.skipped then Bounded sum rest
      else if sum + e.bytes ≤ cap then
        e.opens = true → e.failsAfter = none → Bounded (sum + e.bytes) rest
      else sum + e.bytes < 2 ^ 63 ∨ sum + e.copied ≤ cap

theorem cap_toInt : maxExtractBytes.toInt = (cap : Int) := by decide

theorem Entry.size_eq (e : Entry) : e.size.toInt = (e.bytes : Int) :=
  (Int.toNat_of_nonneg e.size_nonneg).symm

theorem Entry.written_le (e : Entry) : e.written ≤ e.bytes := by
  unfold Entry.written Entry.bytes
  split
  · exact le_rfl
  · exact Nat.min_le_right _ _

/-- The bytes an extraction writes from an entry on that it does not pass over. -/
theorem extractLoop_bytes (destDir : HostPath) {e : Entry} (rest : List Next) (total : Int64)
    (ovfPath : Option HostPath) (hskip : e.skipped = false) :
    (extractLoop destDir total ovfPath (.entry e :: rest)).bytes =
      if total + e.size > maxExtractBytes then 0
      else if e.opens = false then 0
      else if e.failsAfter = none then
        e.bytes + (extractLoop destDir (total + e.size)
          (e.descriptor (destDir.resolve e.fileName) ovfPath) rest).bytes
      else e.written := by
  rw [extractLoop, if_neg (by rw [hskip]; exact Bool.false_ne_true)]
  dsimp only
  split
  · rfl
  split
  · rfl
  split
  · rename_i n hfails
    rw [if_neg (by rw [hfails]; exact Option.some_ne_none _)]
    exact Nat.add_zero _
  · rename_i hfails
    have hwhole : e.written = e.bytes := by
      unfold Entry.written
      rw [hfails]
      rfl
    rw [if_pos hfails, ← hwhole]
    exact List.sum_cons

/-- The sum past 2^63 is negative. -/
theorem sum_wraps {x : Int} (hlow : 2 ^ 63 ≤ x) (hhigh : x < 2 ^ 64) : x.bmod (2 ^ 64) < 0 := by
  have hdiv := Int.bmod_add_bdiv x (2 ^ 64)
  have hlt := Int.bmod_lt (x := x) (m := 2 ^ 64) (by decide)
  have hle := Int.le_bmod (x := x) (m := 2 ^ 64) (by decide)
  omega

/-- What is written from some point on stays below the cap exactly where no sum wraps there
for an entry with too much in it. -/
theorem extractLoop_bounded_iff {destDir : HostPath} {archive : List Next} {total : Int64}
    {ovfPath : Option HostPath} {sum : Nat} (htotal : total.toInt = sum) (hsum : sum ≤ cap) :
    sum + (extractLoop destDir total ovfPath archive).bytes ≤ cap ↔ Bounded sum archive := by
  induction archive generalizing total ovfPath sum with
  | nil =>
      refine iff_of_true ?_ trivial
      cases ovfPath <;> exact hsum
  | cons next rest ih =>
      cases next with
      | broken reason => exact iff_of_true hsum trivial
      | entry e =>
          unfold Bounded
          by_cases hskip : e.skipped = true
          · rw [if_pos hskip, extractLoop, if_pos hskip]
            exact ih htotal hsum
          have hbytes := extractLoop_bytes destDir rest total ovfPath (Bool.not_eq_true _ ▸ hskip)
          have hsize := e.size_eq
          have hlt := e.size.toInt_lt
          have hcap : cap = 549755813888 := rfl
          have hwritten := e.written_le
          have hadd : (total + e.size).toInt = ((sum : Int) + e.bytes).bmod (2 ^ 64) := by
            rw [Int64.toInt_add, htotal, hsize]
          have hcheck : total + e.size > maxExtractBytes ↔
              (cap : Int) < ((sum : Int) + e.bytes).bmod (2 ^ 64) := by
            rw [gt_iff_lt, Int64.lt_iff_toInt_lt, cap_toInt, hadd]
          rw [if_neg hskip, hbytes]
          by_cases hfits : sum + e.bytes ≤ cap
          · -- the sum is exact, and the check lets the entry through
            have hexact : ((sum : Int) + e.bytes).bmod (2 ^ 64) = (sum + e.bytes : Nat) := by
              rw [Int.bmod_eq_of_le (by omega) (by omega)]
              push_cast
              rfl
            have hnext := @ih _ (e.descriptor (destDir.resolve e.fileName) ovfPath) _
              (hadd.trans hexact) hfits
            rw [if_pos hfits, if_neg (by rw [hcheck, hexact]; omega)]
            by_cases hopens : e.opens = false
            · rw [if_pos hopens]
              exact iff_of_true hsum fun h => absurd h (by rw [hopens]; exact Bool.false_ne_true)
            rw [if_neg hopens]
            by_cases hfails : e.failsAfter = none
            · rw [if_pos hfails, ← Nat.add_assoc, hnext]
              exact ⟨fun h _ _ => h, fun h => h (Bool.not_eq_false _ ▸ hopens) hfails⟩
            · rw [if_neg hfails]
              exact iff_of_true (by omega) fun _ h => absurd h hfails
          rw [if_neg hfits]
          by_cases hwraps : sum + e.bytes < 2 ^ 63
          · -- the sum is exact, and the check refuses the entry
            rw [if_pos (by rw [hcheck, Int.bmod_eq_of_le (by omega) (by omega)]; omega)]
            exact iff_of_true hsum (.inl hwraps)
          · -- the sum is negative, and the check lets the entry through
            have hnegative := sum_wraps (x := (sum : Int) + e.bytes) (by omega) (by omega)
            rw [if_neg (by rw [hcheck]; omega), or_iff_right hwraps]
            unfold Entry.copied
            by_cases hopens : e.opens = false
            · rw [if_pos hopens, hopens]
              exact Iff.rfl
            have hopened : e.opens = true := by simpa using hopens
            rw [if_neg hopens, if_pos hopened]
            by_cases hfails : e.failsAfter = none
            · have hwhole : e.written = e.bytes := by
                unfold Entry.written
                rw [hfails]
                rfl
              rw [if_pos hfails, hwhole]
              exact iff_of_false (by omega) hfits
            · rw [if_neg hfails]

/-! ### Both -/

/-- An extraction that is confined and bounded: its files, its bytes, and the disk that any
descriptor it comes with may refer to. -/
structure Contained (archive : List Next) (destDir : HostPath) : Prop where
  confined : ∀ w ∈ (extractOVA archive destDir).writes, w.1.directlyIn destDir
  bounded : (extractOVA archive destDir).bytes ≤ cap
  disk : ∀ ovfPath href p, (extractOVA archive destDir).result = .ok ovfPath →
    importDiskPath ovfPath href = .ok p → p.within destDir = true ∧ p ≠ destDir

/-- **When an extraction is confined and bounded**: exactly where no size that it comes to
carries the exact sum past 2^63 and delivers more than the cap has left. -/
theorem extractOVA_contained_iff (archive : List Next) (destDir : HostPath) :
    Contained archive destDir ↔ Bounded 0 archive := by
  have hnone : ∀ p, (none : Option HostPath) = some p → p.directlyIn destDir :=
    fun p h => absurd h (by simp)
  have hiff : 0 + (extractOVA archive destDir).bytes ≤ cap ↔ Bounded 0 archive :=
    extractLoop_bounded_iff Int64.toInt_zero (Nat.zero_le _)
  rw [Nat.zero_add] at hiff
  obtain ⟨hwrites, hresult⟩ := @extractLoop_confined destDir archive 0 none hnone
  refine ⟨fun h => hiff.mp h.bounded, fun h => ⟨hwrites, hiff.mpr h, ?_⟩⟩
  intro ovfPath href p hovf hp
  have hdir := (hresult ovfPath hovf).2
  have hinside := importDiskPath_inside hp
  rwa [hdir] at hinside

/-- A small file and one of 2^63 - 1 bytes, of which a disk takes up a TiB. -/
def wrappingArchive : List Next :=
  [.entry { name := "box.ovf", typeflag := .reg, size := 1, size_nonneg := by decide },
   .entry { name := "disk.vmdk", typeflag := .reg, size := 9223372036854775807,
            size_nonneg := by decide, failsAfter := some (2 ^ 40) }]

theorem extractOVA_wraps : ¬ ∀ (archive : List Next) (destDir : HostPath), Contained archive destDir := by
  intro h
  have hbounded := (h wrappingArchive ["work"]).bounded
  exact absurd hbounded (by decide +kernel)

end VMSmith.OVA
