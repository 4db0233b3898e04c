/-
When the event list's fast path agrees with its sorting path.

The store walks the events by number; the sorter compares their IDs, which are the
decimal texts of the numbers.  The two orders are one exactly as long as no larger number
has a text that comes before a smaller one's, and every order the list can be asked for
ends in that comparison.
-/
import Mathlib
import VMSmith.Proofs.EventList
import VMSmith.Events.EventSort

namespace VMSmith

open Go

/-! ### The comparison as one of keys -/

/-- What `SortEvents` compares: a number or an empty text first, then the text, then the ID. -/
def eventKey (field : EventSort) (evt : Event) : ℕ ×ₗ (String ×ₗ String) :=
  let byText := fun text : String => toLex (0, toLex (toLower text, evt.id))
  let emptyLast := fun text : String => toLex (if text = "" then 1 else 0, toLex (text, evt.id))
  match field with
  | .occurredAt => toLex (evt.timestamp, toLex ("", evt.id))
  | .type => byText evt.type
  | .source => byText evt.source
  | .severity => byText evt.severity
  | .actor => emptyLast evt.actor
  | .resourceID => emptyLast evt.resourceID
  | .vmID => emptyLast evt.vmID
  | .id => toLex (0, toLex ("", evt.id))

theorem lessThenID_iff (x y xID yID : String) :
    lessThenID x y xID yID = true ↔
      (toLex (x, xID) : String ×ₗ String) < toLex (y, yID) := by
  unfold lessThenID
  rw [Prod.Lex.toLex_lt_toLex]
  by_cases h : x = y
  · simp [h]
  · simp [h]

theorem lessEmptyLast_iff (x y xID yID : String) :
    lessEmptyLast x y xID yID = true ↔
      (toLex (if x = "" then 1 else 0, toLex (x, xID)) : ℕ ×ₗ (String ×ₗ String)) <
        toLex (if y = "" then 1 else 0, toLex (y, yID)) := by
  unfold lessEmptyLast
  rw [Prod.Lex.toLex_lt_toLex]
  by_cases hx : x = "" <;> by_cases hy : y = ""
  · simp [hx, hy, Prod.Lex.toLex_lt_toLex]
  · simp [hx, hy]
  · simp [hx, hy]
  · simp [hx, hy, lessThenID_iff]

theorem eventLess_iff (field : EventSort) (a b : Event) :
    eventLess field a b = true ↔ eventKey field a < eventKey field b := by
  have hbyText : ∀ x y : String, lessThenID x y a.id b.id = true ↔
      (toLex (0, toLex (x, a.id)) : ℕ ×ₗ (String ×ₗ String)) < toLex (0, toLex (y, b.id)) := by
    intro x y
    simp [lessThenID_iff, Prod.Lex.toLex_lt_toLex]
  unfold eventLess eventKey
  cases field with
  | occurredAt =>
      dsimp only
      rw [Prod.Lex.toLex_lt_toLex, Prod.Lex.toLex_lt_toLex]
      by_cases h : a.timestamp = b.timestamp
      · simp [h]
      · simp [h]
  | id => simp [Prod.Lex.toLex_lt_toLex]
  | type => exact hbyText _ _
  | source => exact hbyText _ _
  | severity => exact hbyText _ _
  | actor => exact lessEmptyLast_iff _ _ _ _
  | resourceID => exact lessEmptyLast_iff _ _ _ _
  | vmID => exact lessEmptyLast_iff _ _ _ _

theorem eventLess_eq (field : EventSort) (a b : Event) :
    eventLess field a b = decide (eventKey field a < eventKey field b) := by
  rw [Bool.eq_iff_iff, eventLess_iff, decide_eq_true_iff]

/-- The key ends in the ID. -/
theorem id_eq_of_eventKey {field : EventSort} {a b : Event}
    (h : eventKey field a = eventKey field b) : a.id = b.id := by
  unfold eventKey at h
  cases field <;> simp at h <;> tauto

/-- Sorted in either order, the keys come one after another. -/
theorem sortEvents_pairwise {events : List Event}
    (h : events.Pairwise fun a b => a.id ≠ b.id) (field : EventSort) (order : SortOrder) :
    (sortEvents events field order).Pairwise fun a b =>
      if order = .desc then eventKey field b < eventKey field a
      else eventKey field a < eventKey field b := by
  have hkeys : events.Pairwise fun a b => eventKey field a ≠ eventKey field b :=
    h.imp fun hne heq => hne (id_eq_of_eventKey heq)
  unfold sortEvents
  cases order with
  | desc =>
      simp only [if_true]
      exact sliceStable_not_pairwise (eventLess_eq field) hkeys
  | asc =>
      simp only [reduceCtorEq, if_false]
      have hne : (sliceStable (eventLess field) events).Pairwise fun a b =>
          eventKey field a ≠ eventKey field b :=
        hkeys.perm (sliceStable_perm _ _).symm fun {a b} hab => hab.symm
      exact ((sliceStable_pairwise (eventLess_eq field) events).and hne).imp fun {a b} hab =>
        lt_of_le_of_ne hab.1 hab.2

theorem sortEvents_perm (events : List Event) (field : EventSort) (order : SortOrder) :
    (sortEvents events field order).Perm events :=
  sliceStable_perm _ _

/-! ### What the list should be -/

/-- Neither event comes before the other in this order. -/
def SameKey : EventSort → Event → Event → Prop
  | .id, a, b => a.id = b.id
  | .occurredAt, a, b => a.timestamp = b.timestamp
  | .type, a, b => toLower a.type = toLower b.type
  | .source, a, b => toLower a.source = toLower b.source
  | .severity, a, b => toLower a.severity = toLower b.severity
  | .actor, a, b => a.actor = b.actor
  | .resourceID, a, b => a.resourceID = b.resourceID
  | .vmID, a, b => a.vmID = b.vmID

/-- The numbers of the two events are in order. -/
def InNumberOrder (order : SortOrder) (a b : Event) : Prop :=
  ∀ m n : Nat, a.id = toString m → b.id = toString n → if order = .desc then n < m else m < n

/-- The filtered list, unpaginated. -/
def StoredEvents.unpaginated (s : StoredEvents) (f : EventFilter) : Option (List Event × Nat) :=
  s.listEventsFiltered { f with page := 0, perPage := 0 }

/-- The list agrees with itself in all of its orders. -/
structure SortsAlike (s : StoredEvents) (f : EventFilter) : Prop where
  /-- The page out of the store is the page of the sorted list. -/
  fast : ∀ page perPage, s.serveList ⟨.id, .desc, f, page, perPage⟩ = do
    let (all, total) ← s.unpaginated f
    let listed ← paginate page perPage (sortEvents all .id .desc)
    return (listed, total)
  /-- The pages in ascending order are the list in reverse. -/
  reversed : ∀ all total, s.unpaginated f = some (all, total) →
    ∀ (perPage : Int) (count : Nat), 0 < perPage → count * perPage < 2 ^ 63 →
      total ≤ count * perPage →
      ∃ pages, (List.range count).mapM (fun i : Nat =>
          (s.serveList ⟨.id, .asc, f, (i : Int) + 1, perPage⟩).map Prod.fst) = some pages ∧
        pages.flatten = all.reverse
  /-- Events that no order tells apart come in the order of their numbers. -/
  ties : ∀ field order listed total, s.serveList ⟨field, order, f, 1, 0⟩ = some (listed, total) →
    listed.Pairwise fun a b => SameKey field a b → InNumberOrder order a b

/-- Among the matching events the texts of the numbers are ordered as the numbers are. -/
def TextOrdered (s : StoredEvents) (f : EventFilter) : Prop :=
  ∀ m n a b, s.Holds m a → f.Matches m a → s.Holds n b → f.Matches n b → m < n →
    toString m < toString n

namespace StoredEvents

variable {s : StoredEvents} {f : EventFilter}

/-- The matching events without their numbers. -/
def listed (s : StoredEvents) (f : EventFilter) : List Event := (s.matching f).map Prod.snd

theorem listEventsFiltered_eq (page perPage : Int) :
    s.listEventsFiltered { f with page := page, perPage := perPage } =
      (paginate page perPage (s.listed f)).map fun page => (page, (s.listed f).length) := by
  unfold listEventsFiltered
  dsimp only
  rw [collect_eq_matching]
  rfl

theorem unpaginated_eq : s.unpaginated f = some (s.listed f, (s.listed f).length) := by
  unfold unpaginated
  rw [listEventsFiltered_eq, paginate_eq (by intro h; exact absurd h (by decide))]
  rfl

theorem serveList_fast (page perPage : Int) :
    s.serveList ⟨.id, .desc, f, page, perPage⟩ =
      (paginate page perPage (s.listed f)).map fun page => (page, (s.listed f).length) := by
  unfold serveList
  simp only [and_self, if_true]
  rw [listEventsFiltered_eq]
  cases paginate page perPage (s.listed f) <;> rfl

theorem serveList_sorted {field : EventSort} {order : SortOrder}
    (h : ¬ (field = .id ∧ order = .desc)) (page perPage : Int) :
    s.serveList ⟨field, order, f, page, perPage⟩ =
      (paginate page perPage (sortEvents (s.listed f) field order)).map fun page =>
        (page, (s.listed f).length) := by
  have hall := s.unpaginated_eq (f := f)
  unfold unpaginated at hall
  unfold serveList
  simp only [h, if_false]
  rw [hall]
  dsimp only [Option.bind_eq_bind, Option.bind_some]
  cases paginate page perPage (sortEvents (s.listed f) field order) <;> rfl

theorem id_of_mem_matching {n : Nat} {evt : Event} (h : (n, evt) ∈ s.matching f) :
    evt.id = toString n := by
  obtain ⟨⟨hn, hget⟩, -⟩ := mem_matching.mp h
  obtain ⟨evt', heq, hid⟩ := s.written _ _ hget (length_encodeSeqKey n)
  rw [Option.some.inj heq, hid, decode_encodeSeqKey hn]

/-- No two listed events have the same ID. -/
theorem listed_ids : (s.listed f).Pairwise fun a b => a.id ≠ b.id := by
  unfold listed
  rw [List.pairwise_map]
  refine (matching_sorted (s := s) (f := f)).imp_of_mem fun {p q} hp hq hlt heq => ?_
  rw [id_of_mem_matching hp, id_of_mem_matching hq] at heq
  exact absurd (Nat.repr_injective heq) hlt.ne'

/-- The texts are ordered exactly if the listed IDs descend. -/
theorem textOrdered_iff : TextOrdered s f ↔ (s.listed f).Pairwise fun a b => b.id < a.id := by
  unfold listed
  rw [List.pairwise_map]
  constructor
  · intro h
    refine (matching_sorted (s := s) (f := f)).imp_of_mem fun {p q} hp hq hlt => ?_
    rw [id_of_mem_matching hp, id_of_mem_matching hq]
    obtain ⟨hp, hpf⟩ := mem_matching.mp hp
    obtain ⟨hq, hqf⟩ := mem_matching.mp hq
    exact h _ _ _ _ hq hqf hp hpf hlt
  · intro h m n a b hm hmf hn hnf hlt
    have ha := mem_matching.mpr ⟨hm, hmf⟩
    have hb := mem_matching.mpr ⟨hn, hnf⟩
    -- both directions in one symmetric relation, so that it does not matter which comes first
    have hsymm : Std.Symm fun p q : Nat × Event =>
        (q.1 < p.1 → q.2.id < p.2.id) ∧ (p.1 < q.1 → p.2.id < q.2.id) := ⟨fun _ _ h => h.symm⟩
    have hboth : (s.matching f).Pairwise fun p q =>
        (q.1 < p.1 → q.2.id < p.2.id) ∧ (p.1 < q.1 → p.2.id < q.2.id) :=
      (matching_sorted.and h).imp fun {p q} hpq => ⟨fun _ => hpq.2, fun hlt => absurd hlt hpq.1.asymm⟩
    have hids := (hboth.forall ha hb (by
      rintro ⟨⟩
      exact lt_irrefl _ hlt)).2 hlt
    rwa [id_of_mem_matching ha, id_of_mem_matching hb] at hids

end StoredEvents

theorem eventKey_id (evt : Event) : eventKey .id evt = toLex (0, toLex ("", evt.id)) := rfl

/-- By ID, the keys are ordered as the IDs are. -/
theorem eventKey_id_lt {a b : Event} : eventKey .id a < eventKey .id b ↔ a.id < b.id := by
  rw [← eventLess_iff]
  unfold eventLess
  exact decide_eq_true_iff

/-- Where no order tells two events apart, the IDs do. -/
theorem id_lt_of_sameKey {field : EventSort} {a b : Event} (h : SameKey field a b)
    (hlt : eventKey field a < eventKey field b) : a.id < b.id := by
  rw [← eventLess_iff] at hlt
  unfold SameKey at h
  unfold eventLess at hlt
  cases field <;> simp_all [lessThenID, lessEmptyLast]

/-! ### The two paths -/

section

variable {s : StoredEvents} {f : EventFilter}

/-- In text order, the list as the store has it is the list by ID, newest first. -/
theorem TextOrdered.sort_desc (h : TextOrdered s f) :
    sortEvents (s.listed f) .id .desc = s.listed f := by
  have hsorted := sortEvents_pairwise (s.listed_ids (f := f)) .id .desc
  have hlisted := StoredEvents.textOrdered_iff.mp h
  refine (sortEvents_perm (s.listed f) .id .desc).eq_of_pairwise ?_
    (hsorted.imp fun {a b} hab => eventKey_id_lt.mp (by simpa using hab)) hlisted
  exact fun a b _ _ hab hba => absurd hab hba.asymm

theorem TextOrdered.sort_asc (h : TextOrdered s f) :
    sortEvents (s.listed f) .id .asc = (s.listed f).reverse := by
  have hsorted := sortEvents_pairwise (s.listed_ids (f := f)) .id .asc
  have hlisted := List.pairwise_reverse.mpr (StoredEvents.textOrdered_iff.mp h)
  refine ((sortEvents_perm (s.listed f) .id .asc).trans
    (List.reverse_perm _).symm).eq_of_pairwise ?_
    (hsorted.imp fun {a b} hab => eventKey_id_lt.mp (by simpa using hab)) hlisted
  exact fun a b _ _ hab hba => absurd hab hba.asymm

/-- The other way around, the sorted list is in text order whatever the store has. -/
theorem textOrdered_of_sort_desc (h : sortEvents (s.listed f) .id .desc = s.listed f) :
    TextOrdered s f := by
  have hsorted := sortEvents_pairwise (s.listed_ids (f := f)) .id .desc
  rw [h] at hsorted
  exact StoredEvents.textOrdered_iff.mpr
    (hsorted.imp fun {a b} hab => eventKey_id_lt.mp (by simpa using hab))

/-- In text order, an ID that comes first belongs to the smaller number. -/
theorem TextOrdered.number_lt (h : TextOrdered s f) {a b : Event} (ha : a ∈ s.listed f)
    (hb : b ∈ s.listed f) (hlt : a.id < b.id) {m n : Nat} (hm : a.id = toString m)
    (hn : b.id = toString n) : m < n := by
  obtain ⟨⟨m', a'⟩, hma, rfl⟩ := List.mem_map.mp ha
  obtain ⟨⟨n', b'⟩, hnb, rfl⟩ := List.mem_map.mp hb
  have hm' : m = m' :=
    Nat.repr_injective (hm.symm.trans (StoredEvents.id_of_mem_matching hma))
  have hn' : n = n' :=
    Nat.repr_injective (hn.symm.trans (StoredEvents.id_of_mem_matching hnb))
  subst hm' hn'
  obtain ⟨hsa, hfa⟩ := StoredEvents.mem_matching.mp hma
  obtain ⟨hsb, hfb⟩ := StoredEvents.mem_matching.mp hnb
  rw [hm, hn] at hlt
  rcases Nat.lt_trichotomy m n with hmn | rfl | hnm
  · exact hmn
  · exact absurd hlt (lt_irrefl _)
  · exact absurd hlt (h n m _ _ hsb hfb hsa hfa hnm).asymm

theorem TextOrdered.ties (h : TextOrdered s f) (field : EventSort) (order : SortOrder) :
    (sortEvents (s.listed f) field order).Pairwise fun a b =>
      SameKey field a b → InNumberOrder order a b := by
  refine (sortEvents_pairwise (s.listed_ids (f := f)) field order).imp_of_mem
    fun {a b} ha hb hkey hsame m n hm hn => ?_
  have ha' := (sortEvents_perm _ _ _).mem_iff.mp ha
  have hb' := (sortEvents_perm _ _ _).mem_iff.mp hb
  cases order with
  | desc =>
      have hsame' : SameKey field b a := by cases field <;> exact Eq.symm hsame
      exact h.number_lt hb' ha' (id_lt_of_sameKey hsame' (by simpa using hkey)) hn hm
  | asc => exact h.number_lt ha' hb' (id_lt_of_sameKey hsame (by simpa using hkey)) hm hn

/-- The pages of a list, one after another, are the list. -/
theorem flatten_pages {α : Type} (all : List α) (size count : Nat) :
    ((List.range count).map fun i => (all.drop (i * size)).take size).flatten =
      all.take (count * size) := by
  induction count with
  | zero => simp
  | succ count ih =>
      rw [List.range_succ, List.map_append, List.flatten_append, ih, Nat.add_one_mul, List.take_add]
      simp

theorem mapM_some {α β : Type} {xs : List α} {g : α → Option β} {h : α → β}
    (hg : ∀ x ∈ xs, g x = some (h x)) : xs.mapM g = some (xs.map h) := by
  induction xs with
  | nil => rfl
  | cons x rest ih =>
      rw [List.mapM_cons, hg x List.mem_cons_self, ih fun y hy => hg y (List.mem_cons_of_mem _ hy)]
      rfl

/-- Page by page, the ascending list is the whole of it. -/
theorem ascending_pages {perPage : Int} {count : Nat} (hper : 0 < perPage)
    (hfits : count * perPage < 2 ^ 63) (hall : (s.listed f).length ≤ count * perPage) :
    ∃ pages, (List.range count).mapM (fun i : Nat =>
        (s.serveList ⟨.id, .asc, f, (i : Int) + 1, perPage⟩).map Prod.fst) = some pages ∧
      pages.flatten = sortEvents (s.listed f) .id .asc := by
  obtain ⟨size, rfl⟩ := Int.eq_ofNat_of_zero_le hper.le
  refine ⟨_, mapM_some (h := fun i => ((sortEvents (s.listed f) .id .asc).drop (i * size)).take size)
    ?_, ?_⟩
  · intro i hi
    have hlt : i < count := List.mem_range.mp hi
    have hstart : (max ((i : Int) + 1) 1 - 1) * (size : Int) = ((i * size : Nat) : Int) := by
      rw [max_eq_left (by omega)]
      push_cast
      ring
    have hpage : PageFits ((i : Int) + 1) size := by
      intro _
      rw [hstart]
      have hle : i * size ≤ count * size := Nat.mul_le_mul_right _ hlt.le
      have hlt' : ((count * size : Nat) : Int) < 2 ^ 63 := by exact_mod_cast hfits
      omega
    rw [StoredEvents.serveList_sorted (by simp), paginate_eq hpage]
    unfold pageOf
    rw [if_pos hper, hstart]
    rfl
  · rw [flatten_pages, List.take_of_length_le]
    rw [(sortEvents_perm _ _ _).length_eq]
    exact_mod_cast hall

end

/--
The list agrees with itself in all of its orders exactly if no larger number among the
matching events has a text that comes before a smaller one's.
-/
theorem eventList_sortsAlike (s : StoredEvents) (f : EventFilter) :
    SortsAlike s f ↔ TextOrdered s f := by
  constructor
  · intro h
    have hfast := h.fast 1 0
    rw [StoredEvents.serveList_fast, StoredEvents.unpaginated_eq] at hfast
    simp only [paginate, lt_irrefl, if_false, Option.map_some, Option.bind_eq_bind,
      Option.bind_some, Option.pure_def, Option.some.injEq, Prod.mk.injEq, and_true] at hfast
    exact textOrdered_of_sort_desc hfast.symm
  · intro h
    constructor
    · intro page perPage
      rw [StoredEvents.serveList_fast, StoredEvents.unpaginated_eq]
      dsimp only [Option.bind_eq_bind, Option.bind_some]
      rw [h.sort_desc]
      cases paginate page perPage (s.listed f) <;> rfl
    · intro all total hlist perPage count hper hfits htotal
      rw [StoredEvents.unpaginated_eq] at hlist
      injection hlist with hlist
      injection hlist with hall htot
      subst hall htot
      obtain ⟨pages, hpages, hflat⟩ := ascending_pages hper hfits htotal
      exact ⟨pages, hpages, hflat.trans h.sort_asc⟩
    · intro field order listed total hserve
      by_cases hfast : field = .id ∧ order = .desc
      · obtain ⟨rfl, rfl⟩ := hfast
        rw [StoredEvents.serveList_fast, paginate_eq (by intro h; exact absurd h (by decide))]
          at hserve
        injection hserve with hserve
        injection hserve with hlisted _
        have hties := h.ties .id .desc
        rw [h.sort_desc] at hties
        rw [← hlisted]
        exact hties
      · rw [StoredEvents.serveList_sorted hfast, paginate_eq (by intro h; exact absurd h (by decide))]
          at hserve
        injection hserve with hserve
        injection hserve with hlisted _
        rw [← hlisted]
        exact h.ties field order

/-- The bucket after ten events. -/
def tenEvents : StoredEvents :=
  (List.range 10).foldl (fun s _ => (s.appendEvent { type := "vm.started" }).2)
    (StoredEvents.legacy Bucket.empty StoredEvents.legacy_empty)

/-- With ten events the first page by ID has number ten for the store and number nine for
the sorter. -/
theorem eventList_sortsApart : ¬ ∀ (s : StoredEvents) (f : EventFilter), SortsAlike s f := by
  intro h
  have hfast := (h tenEvents {}).fast 1 1
  have hstore : (tenEvents.serveList ⟨.id, .desc, {}, 1, 1⟩).map (·.1.map Event.id) =
      some ["10"] := by decide +kernel
  have hsorter : (do
      let (all, total) ← tenEvents.unpaginated {}
      let listed ← paginate 1 1 (sortEvents all .id .desc)
      return (listed, total) : Option (List Event × Nat)).map (·.1.map Event.id) =
      some ["9"] := by decide +kernel
  rw [hfast, hsorter] at hstore
  exact absurd hstore (by decide)

end VMSmith
