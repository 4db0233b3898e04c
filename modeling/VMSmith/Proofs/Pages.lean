/-
Pages partition a list as long as the offset fits.

The offset `(page - 1) * perPage` is the product of two machine integers, and the page is any
positive number a client writes.  As long as the product is below the sign bit, each of the
copies cuts out the elements that stand there, and one page after another they are the list.
Past that the product comes back as a negative offset, which is out of range, or as the offset
of another page.
-/
import VMSmith.Api.Pagination
import VMSmith.Proofs.EventSort

namespace VMSmith

namespace Api

/-! ### The page and its offset -/

section

variable {α : Type} {page perPage : Int} {all : List α}

theorem pageOf_eq (hpage : 1 ≤ page) (hper : 1 ≤ perPage) :
    pageOf page perPage all = (all.drop ((page - 1) * perPage).toNat).take perPage.toNat := by
  unfold pageOf
  rw [if_pos (by omega), max_eq_left hpage]

/-- Behind the list there is nothing. -/
theorem pageOf_behind (hpage : 1 ≤ page) (hper : 1 ≤ perPage)
    (h : all.length ≤ (page - 1) * perPage) : pageOf page perPage all = [] := by
  rw [pageOf_eq hpage hper, List.drop_eq_nil_of_le (by omega), List.take_nil]

/-- What the offset comes to in machine arithmetic. -/
theorem bmod_offset (offset : Int) :
    offset.bmod (2 ^ 64) = if offset % 2 ^ 64 < 2 ^ 63 then offset % 2 ^ 64
      else offset % 2 ^ 64 - 2 ^ 64 := by
  rw [Int.bmod_def]
  norm_num

/-- A list that fits into a machine integer is cut right exactly if the offset fits. -/
theorem paginate_right_iff (hpage : 1 ≤ page) (hper : 1 ≤ perPage)
    (hlen : all.length < 2 ^ 63) :
    paginate page perPage all = some (pageOf page perPage all) ↔
      OffsetFits page perPage all.length := by
  have hoffset : 0 ≤ (page - 1) * perPage := Int.mul_nonneg (by omega) (by omega)
  by_cases hsmall : (page - 1) * perPage < 2 ^ 63
  · have hfits : PageFits page perPage := fun _ => by
      rw [max_eq_left hpage]
      exact hsmall
    exact iff_of_true (paginate_eq hfits all) (.inl hsmall)
  · rw [pageOf_behind hpage hper (by omega)]
    unfold OffsetFits paginate
    have hpos : 0 < perPage := by omega
    have hfirst : (if page < 1 then 1 else page) = page := if_neg (by omega)
    rw [if_pos hpos]
    dsimp only
    rw [hfirst, bmod_offset]
    have hrem := Int.emod_nonneg ((page - 1) * perPage) (by decide : (2 ^ 64 : Int) ≠ 0)
    generalize (page - 1) * perPage = offset at hsmall hoffset hrem ⊢
    by_cases hsign : offset % 2 ^ 64 < 2 ^ 63
    · rw [if_pos hsign]
      by_cases hbehind : (all.length : Int) ≤ offset % 2 ^ 64
      · rw [if_pos hbehind]
        exact iff_of_true rfl (.inr ⟨hbehind, hsign⟩)
      · -- the remainder is the offset of another page, and there is something on it
        rw [if_neg hbehind]
        refine iff_of_false ?_ (by omega)
        intro h
        split_ifs at h with hstop hbounds hbounds
        · have hnil := Option.some.inj h
          rw [List.take_eq_nil_iff, List.drop_eq_nil_iff] at hnil
          omega
        · have hnil := Option.some.inj h
          rw [List.take_eq_nil_iff, List.drop_eq_nil_iff] at hnil
          omega
    · -- the offset is negative
      rw [if_neg hsign, if_neg (by omega)]
      refine iff_of_false ?_ (by omega)
      intro h
      split_ifs at h with hstop hbounds hbounds <;> omega

/-- Within the bounds of a request the copies differ on the empty list only. -/
theorem paginateSlice_eq {items : Slice α} (hpage : 1 ≤ page) (hper : 1 ≤ perPage)
    (hmax : perPage ≤ maxPerPage) (hne : items.elems ≠ []) :
    paginateSlice items page perPage = paginate page perPage items.elems := by
  have hlen := items.length_lt
  have hmax' : perPage ≤ 2000 := hmax
  have hsized : ¬ (items.elems.length = 0 ∨ perPage ≤ 0) := by
    rw [List.length_eq_zero_iff]
    rintro (hnil | hzero)
    · exact hne hnil
    · omega
  have hpos : 0 < perPage := by omega
  have hfirst : (if page < 1 then 1 else page) = page := if_neg (by omega)
  have hfirst' : (if page ≤ 0 then 1 else page) = page := if_neg (by omega)
  unfold paginateSlice paginate
  rw [if_neg hsized, if_pos hpos]
  dsimp only
  rw [hfirst, hfirst']
  have hlow := Int.le_bmod (x := (page - 1) * perPage) (by decide : 0 < 2 ^ 64)
  generalize ((page - 1) * perPage).bmod (2 ^ 64) = start at hlow ⊢
  by_cases hbehind : (items.elems.length : Int) ≤ start
  · rw [if_pos hbehind, if_pos hbehind]
  · rw [if_neg hbehind, if_neg hbehind]
    have hstop : (start + perPage).bmod (2 ^ 64) = start + perPage := by
      refine Int.bmod_eq_of_le ?_ ?_ <;> omega
    rw [hstop]

theorem paginateSlice_right_iff {items : Slice α} (hpage : 1 ≤ page) (hper : 1 ≤ perPage)
    (hmax : perPage ≤ maxPerPage) :
    paginateSlice items page perPage = some (pageOf page perPage items.elems) ↔
      items.elems = [] ∨ OffsetFits page perPage items.elems.length := by
  have hlen := items.length_lt
  by_cases hnil : items.elems = []
  · have hempty : paginateSlice items page perPage = some [] := by
      unfold paginateSlice
      rw [if_pos (.inl (by rw [hnil]; rfl)), hnil]
    rw [hempty, hnil, pageOf_behind hpage hper]
    · simp
    · exact Int.mul_nonneg (by omega) (by omega)
  · rw [paginateSlice_eq hpage hper hmax hnil, paginate_right_iff hpage hper (by omega)]
    simp [hnil]

/-- Pages that are cut right are the list, one after another. -/
theorem pages_whole {cut : Int → Option (List α)} {count : Nat} (hper : 1 ≤ perPage)
    (hall : all.length ≤ count * perPage)
    (h : ∀ i < count, cut ((i : Int) + 1) = some (pageOf ((i : Int) + 1) perPage all)) :
    ∃ pages, (List.range count).mapM (fun i : Nat => cut ((i : Int) + 1)) = some pages ∧
      pages.flatten = all := by
  obtain ⟨size, rfl⟩ := Int.eq_ofNat_of_zero_le (by omega : 0 ≤ perPage)
  refine ⟨(List.range count).map fun i => (all.drop (i * size)).take size, mapM_some ?_, ?_⟩
  · intro i hi
    rw [h i (List.mem_range.mp hi), pageOf_eq (by omega) hper, Int.add_sub_cancel]
    rfl
  · rw [flatten_pages, List.take_of_length_le]
    exact_mod_cast hall

end

/-! ### Every copy -/

/-- What a copy of the paging code cuts out of `all`. -/
structure Partitions {α : Type} (cut : Int → Option (List α)) (page perPage : Int)
    (all : List α) (fits : Prop) : Prop where
  /-- The page asked for is cut out right, within the bounds and with nothing from outside
  the page. -/
  right : cut page = some (pageOf page perPage all) ↔ fits
  /-- A page past the last one is empty. -/
  past : fits → all.length ≤ (page - 1) * perPage → cut page = some []
  /-- The pages in order are the list. -/
  whole : ∀ count : Nat, all.length ≤ count * perPage → (count - 1) * perPage < 2 ^ 63 →
    ∃ pages, (List.range count).mapM (fun i : Nat => cut ((i : Int) + 1)) = some pages ∧
      pages.flatten = all

/-- A page within the bounds of `count` of them fits. -/
theorem offsetFits_of_lt {perPage : Int} {count i length : Nat} (hper : 1 ≤ perPage)
    (hcount : ((count : Int) - 1) * perPage < 2 ^ 63) (hi : i < count) :
    OffsetFits ((i : Int) + 1) perPage length := by
  refine .inl (lt_of_le_of_lt ?_ hcount)
  exact mul_le_mul_of_nonneg_right (by omega) (by omega)

theorem Partitions.of_right {α : Type} {cut : Int → Option (List α)} {page perPage : Int}
    {all : List α} (fits : Int → Prop) (hpage : 1 ≤ page) (hper : 1 ≤ perPage)
    (hfits : ∀ page, OffsetFits page perPage all.length → fits page)
    (h : ∀ page, 1 ≤ page → (cut page = some (pageOf page perPage all) ↔ fits page)) :
    Partitions cut page perPage all (fits page) := by
  constructor
  · exact h page hpage
  · intro hfit hpast
    rw [(h page hpage).mpr hfit, pageOf_behind hpage hper hpast]
  · intro count hall hcount
    exact pages_whole hper hall fun i hi =>
      (h _ (by omega)).mpr (hfits _ (offsetFits_of_lt hper hcount hi))

/--
Whatever page a request asks for, each copy of the paging code cuts out that page exactly if
the offset fits; where it does, a page past the last one is empty, and the pages in order are
the list.  `paginateSlice` needs no offset for the empty list.
-/
theorem pages_partition {α : Type} (r : PageRequest) (items : Slice α) (events : Slice Event)
    (h : 1 ≤ (parsePagination r).perPage) :
    let page := (parsePagination r).page
    let perPage := (parsePagination r).perPage
    Partitions (fun page => paginateSlice items page perPage) page perPage items.elems
        (items.elems = [] ∨ OffsetFits page perPage items.elems.length) ∧
      (∀ (s : StoredEvents) (f : EventFilter), s.listed f = events.elems →
        Partitions (fun page => (s.listEventsFiltered { f with page := page, perPage := perPage }).map
          Prod.fst) page perPage events.elems (OffsetFits page perPage events.elems.length)) ∧
      ∀ (s : StoredEvents) (f : EventFilter) (field : EventSort) (order : SortOrder),
        ¬ (field = .id ∧ order = .desc) → sortEvents (s.listed f) field order = events.elems →
        Partitions (fun page => (s.serveList ⟨field, order, f, page, perPage⟩).map Prod.fst)
          page perPage events.elems (OffsetFits page perPage events.elems.length) := by
  dsimp only
  have hpage := (page_bounds r).1
  have hmax := perPage_le r
  have hitems := items.length_lt
  have hevents := events.length_lt
  generalize (parsePagination r).page = page at hpage
  generalize (parsePagination r).perPage = perPage at h hmax
  refine ⟨?_, ?_, ?_⟩
  · exact Partitions.of_right
        (fun page => items.elems = [] ∨ OffsetFits page perPage items.elems.length) hpage h (fun _ => .inr)
      fun page hpage => paginateSlice_right_iff hpage h hmax
  · intro s f hall
    refine Partitions.of_right (fun page => OffsetFits page perPage events.elems.length)
      hpage h (fun _ hfit => hfit) fun page hpage => ?_
    rw [StoredEvents.listEventsFiltered_eq, hall, ← paginate_right_iff hpage h (by omega)]
    cases paginate page perPage events.elems <;> simp
  · intro s f field order hsort hall
    refine Partitions.of_right (fun page => OffsetFits page perPage events.elems.length)
      hpage h (fun _ hfit => hfit) fun page hpage => ?_
    rw [StoredEvents.serveList_sorted hsort, hall, ← paginate_right_iff hpage h (by omega)]
    cases paginate page perPage events.elems <;> simp

/-- The second page of three machines, two to a page. -/
theorem pages_partition_second :
    let r : PageRequest := { path := "/api/v1/vms", page := "2", perPage := "2" }
    let page := (Api.parsePagination r).page
    let perPage := (Api.parsePagination r).perPage
    let items : Slice String := ⟨["web", "db", "cache"], by decide⟩
    Partitions (fun page => paginateSlice items page perPage) page perPage items.elems
        (items.elems = [] ∨ OffsetFits page perPage items.elems.length) ∧
      paginateSlice items page perPage = some ["cache"] := by
  dsimp only
  refine ⟨?_, by decide +kernel⟩
  exact (pages_partition { path := "/api/v1/vms", page := "2", perPage := "2" }
    ⟨["web", "db", "cache"], by decide⟩ ⟨[], by decide⟩ (by decide +kernel)).1

/-- With four to a page the offset of page `2 ^ 62 + 1` is that of the first page; with two to
a page it is negative. -/
theorem pages_aliased :
    ¬ ∀ (r : PageRequest) (items : Slice String), 1 ≤ (Api.parsePagination r).perPage →
      paginateSlice items (Api.parsePagination r).page (Api.parsePagination r).perPage =
        some (pageOf (Api.parsePagination r).page (Api.parsePagination r).perPage items.elems) := by
  intro h
  have hpage := h { path := "/api/v1/vms", page := "4611686018427387905", perPage := "4" }
    ⟨["web"], by decide⟩ (by decide +kernel)
  exact absurd hpage (by decide +kernel)

example : paginateSlice ⟨["web"], by decide⟩ 4611686018427387905 2 = none := by decide

end Api

end VMSmith
