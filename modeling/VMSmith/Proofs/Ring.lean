/-
The ring keeps the last samples pushed, and what it returned stays as it was.

`Represents` ties the ring in memory to the `RingBuffer` it stands for, whose contents are
known after any number of pushes.  What is returned lies at a place of its own, and no
operation writes to an array that was there before it except the buffer.
-/
import VMSmith.Metrics.Ring

namespace VMSmith.Metrics

namespace Ring

/-- The ring in memory and the values it stands for. -/
structure Represents (r : Ring) (h : Samples) (rb : RingBuffer MetricSample) : Prop where
  live : h.Live r.buf
  buf : h.get r.buf = rb.buf
  head : r.head = rb.head
  size : r.size = rb.size
  cap : r.cap = rb.cap

variable {r : Ring} {h : Samples} {rb : RingBuffer MetricSample}

theorem represents_newRing (capacity : ℤ) (h : Samples) :
    Represents (newRing capacity h).1 (newRing capacity h).2 (RingBuffer.new capacity {}) where
  live := h.live_alloc _
  buf := h.get_alloc _
  head := rfl
  size := rfl
  cap := rfl

theorem Represents.push (hr : Represents r h rb) (s : MetricSample) :
    Represents (r.push s h).1 (r.push s h).2 (rb.push s) where
  live := hr.live.set _ _ _
  buf := by
    unfold Ring.push
    rw [Heap.get_set hr.live, hr.buf, hr.head]
    rfl
  head := by
    unfold Ring.push RingBuffer.push
    dsimp only
    rw [hr.head, hr.cap]
  size := by
    unfold Ring.push RingBuffer.push
    dsimp only
    rw [hr.size, hr.cap]
  cap := hr.cap

/-- What keeps the buffer keeps what the ring stands for. -/
theorem Represents.keep (hr : Represents r h rb) {h' : Samples} (hlive : h'.Live r.buf)
    (hget : h'.get r.buf = h.get r.buf) : Represents r h' rb :=
  { hr with live := hlive, buf := hget.trans hr.buf }

theorem Represents.cell (hr : Represents r h rb) (i : ℕ) : r.cell h (i % r.cap) = rb.slot i := by
  have hlt : i % rb.cap < rb.buf.length := by
    rw [rb.length_buf]
    exact Nat.mod_lt _ rb.cap_pos
  unfold Ring.cell RingBuffer.slot
  rw [hr.buf, hr.cap, List.getD_eq_getElem?_getD, List.getElem?_eq_getElem hlt]
  rfl

/-! ### Copies -/

/-- The values of what was returned. -/
def contents (p : Option ℕ × Samples) : List MetricSample :=
  match p.1 with
  | some a => p.2.get a
  | none => []

/-- An operation gives out new places only, and leaves the arrays that were there alone. -/
structure Copies (h : Samples) (p : Option ℕ × Samples) : Prop where
  fresh : ∀ a, p.1 = some a → ¬ h.Live a
  kept : ∀ a, h.Live a → p.2.get a = h.get a ∧ p.2.Live a
  live : ∀ a, p.1 = some a → p.2.Live a

theorem Copies.nothing (h : Samples) : Copies h (none, h) where
  fresh := fun a ha => by cases ha
  kept := fun a ha => ⟨rfl, ha⟩
  live := fun a ha => by cases ha

/-- `all` copies what the ring keeps. -/
theorem all_spec (hr : Represents r h rb) : Copies h (r.all h) ∧ contents (r.all h) = rb.all := by
  unfold Ring.all
  by_cases hempty : r.size = 0
  · rw [if_pos hempty]
    refine ⟨Copies.nothing h, ?_⟩
    have hzero : rb.all = [] := by
      rw [← List.length_eq_zero_iff, rb.length_all, ← hr.size, hempty]
    rw [hzero]
    rfl
  · rw [if_neg hempty]
    dsimp only
    set start := (r.head + r.cap - r.size) % r.cap with hstart
    set mid := (h.alloc (List.replicate r.size {})).2 with hmid
    set out := (h.alloc (List.replicate r.size {})).1 with hout
    have hbuf : r.buf ≠ out := hr.live.ne_alloc _
    have hmidr : Represents r mid rb := hr.keep (hr.live.alloc _) (Heap.get_alloc_of_live hr.live _)
    have hread : ∀ h' : Samples, (∀ a, a ≠ out → h'.get a = mid.get a) →
        ∀ i, r.cell h' ((start + i) % r.cap) = rb.slot (start + i) := by
      intro h' hsame i
      rw [← hmidr.cell (start + i)]
      unfold Ring.cell
      rw [hsame _ hbuf]
    have hzeros : mid.get out = List.replicate r.size {} := h.get_alloc _
    obtain ⟨hfill, hothers, hlives⟩ := Heap.fill (fun h i => r.cell h ((start + i) % r.cap))
      (fun i => rb.slot (start + i)) (h.live_alloc _) hread r.size (by rw [hzeros]; simp)
    refine ⟨⟨?_, ?_, ?_⟩, ?_⟩
    · intro a ha hlive
      rw [← Option.some.inj ha] at hlive
      exact absurd rfl (hlive.ne_alloc _)
    · intro a ha
      refine ⟨?_, (hlives a).mpr (ha.alloc _)⟩
      rw [hothers a (ha.ne_alloc _), Heap.get_alloc_of_live ha]
    · intro a ha
      rw [← Option.some.inj ha, hlives]
      exact h.live_alloc _
    · unfold contents
      dsimp only
      rw [hfill, hzeros, List.drop_replicate, Nat.sub_self, List.replicate_zero, List.append_nil,
        RingBuffer.all, hstart, hr.head, hr.cap, hr.size]

/-- `latest` copies the last of it. -/
theorem latest_spec (hr : Represents r h rb) :
    Copies h (r.latest h) ∧ contents (r.latest h) = rb.latest.toList := by
  unfold Ring.latest RingBuffer.latest
  by_cases hempty : r.size = 0
  · rw [if_pos hempty, if_pos (hr.size ▸ hempty)]
    exact ⟨Copies.nothing h, rfl⟩
  · rw [if_neg hempty, if_neg (hr.size ▸ hempty)]
    refine ⟨⟨?_, ?_, ?_⟩, ?_⟩
    · intro a ha hlive
      rw [← Option.some.inj ha] at hlive
      exact absurd rfl (hlive.ne_alloc _)
    · intro a ha
      exact ⟨Heap.get_alloc_of_live ha _, ha.alloc _⟩
    · intro a ha
      rw [← Option.some.inj ha]
      exact h.live_alloc _
    · unfold contents
      dsimp only
      rw [Heap.get_alloc, hr.cell, hr.head, hr.cap]
      rfl

/-! ### Runs -/

inductive Op where
  | push (s : MetricSample)
  | all
  | latest

def step (t : Ring × Samples) : Op → Ring × Samples
  | .push s => t.1.push s t.2
  | .all => (t.1, (t.1.all t.2).2)
  | .latest => (t.1, (t.1.latest t.2).2)

def run (t : Ring × Samples) (ops : List Op) : Ring × Samples := ops.foldl step t

/-- The samples that were pushed, in order. -/
def pushed (ops : List Op) : List MetricSample :=
  ops.filterMap fun op => match op with
    | .push s => some s
    | _ => none

/-- The ring stands for a buffer that keeps the last of the samples pushed. -/
def Keeps (t : Ring × Samples) (written : List MetricSample) (cap : ℕ) : Prop :=
  ∃ rb, Represents t.1 t.2 rb ∧ rb.cap = cap ∧ rb.all = written.rtake rb.cap

/-- One operation, and the samples it pushes. -/
theorem Keeps.step {t : Ring × Samples} {written : List MetricSample} {cap : ℕ}
    (ht : Keeps t written cap) (op : Op) : Keeps (Ring.step t op) (written ++ pushed [op]) cap := by
  obtain ⟨rb, hr, hcap, hall⟩ := ht
  cases op with
  | push s => exact ⟨rb.push s, hr.push s, hcap, RingBuffer.all_push_of hall s⟩
  | all =>
      have hkept := (all_spec hr).1.kept _ hr.live
      have hnone : pushed [Op.all] = [] := rfl
      rw [hnone, List.append_nil]
      exact ⟨rb, hr.keep hkept.2 hkept.1, hcap, hall⟩
  | latest =>
      have hkept := (latest_spec hr).1.kept _ hr.live
      have hnone : pushed [Op.latest] = [] := rfl
      rw [hnone, List.append_nil]
      exact ⟨rb, hr.keep hkept.2 hkept.1, hcap, hall⟩

theorem keeps_run {cap : ℕ} (ops : List Op) : ∀ {t : Ring × Samples} {written : List MetricSample},
    Keeps t written cap → Keeps (run t ops) (written ++ pushed ops) cap := by
  induction ops with
  | nil =>
      intro t written ht
      rw [pushed, List.filterMap_nil, List.append_nil]
      exact ht
  | cons op ops ih =>
      intro t written ht
      have hsplit : pushed (op :: ops) = pushed [op] ++ pushed ops := by
        rw [pushed, pushed, pushed, ← List.filterMap_append, List.singleton_append]
      rw [hsplit, ← List.append_assoc]
      exact ih (ht.step op)

/-- An array that is not the buffer is left alone. -/
theorem get_step {a : ℕ} {t : Ring × Samples} {written : List MetricSample} {cap : ℕ}
    (ht : Keeps t written cap) (op : Op) (hlive : t.2.Live a) (hne : a ≠ t.1.buf) :
    (Ring.step t op).2.get a = t.2.get a ∧ (Ring.step t op).2.Live a ∧ a ≠ (Ring.step t op).1.buf := by
  obtain ⟨rb, hr, -, -⟩ := ht
  cases op with
  | push s => exact ⟨Heap.get_set_of_ne hne _ _ _, hlive.set _ _ _, hne⟩
  | all =>
      have hkept := (all_spec hr).1.kept a hlive
      exact ⟨hkept.1, hkept.2, hne⟩
  | latest =>
      have hkept := (latest_spec hr).1.kept a hlive
      exact ⟨hkept.1, hkept.2, hne⟩

theorem get_run {a cap : ℕ} (ops : List Op) : ∀ {t : Ring × Samples} {written : List MetricSample},
    Keeps t written cap → t.2.Live a → a ≠ t.1.buf → (run t ops).2.get a = t.2.get a := by
  induction ops with
  | nil => intro t written _ _ _; rfl
  | cons op ops ih =>
      intro t written ht hlive hne
      obtain ⟨hget, hlive', hne'⟩ := get_step ht op hlive hne
      exact (ih (ht.step op) hlive' hne').trans hget

theorem rtake_min {α : Type} (l : List α) (n : ℕ) : l.rtake (min l.length n) = l.rtake n := by
  unfold List.rtake
  congr 1
  omega

/-- **The ring.**  After any operations, `all` returns the last samples pushed in the order they
were pushed, `latest` the last one, and what `all` returned stays the same whatever is done
next. -/
theorem ring_history {capacity : ℤ} (hpos : 0 < capacity) (h : Samples) (ops : List Op) :
    let t := run (newRing capacity h) ops
    contents (t.1.all t.2) = (pushed ops).rtake (min (pushed ops).length capacity.toNat) ∧
    contents (t.1.latest t.2) = (pushed ops).getLast?.toList ∧
    ∀ a later, (t.1.all t.2).1 = some a →
      (run (t.1, (t.1.all t.2).2) later).2.get a = (t.1.all t.2).2.get a := by
  have hcap : (RingBuffer.new capacity ({} : MetricSample)).cap = capacity.toNat := by
    rw [RingBuffer.new_cap, if_neg (not_le.mpr hpos)]
  have hstart : Keeps (newRing capacity h) [] capacity.toNat := by
    refine ⟨_, represents_newRing capacity h, hcap, ?_⟩
    rw [RingBuffer.all_new, List.rtake_nil]
  obtain ⟨rb, hr, hrb, hall⟩ := keeps_run ops hstart
  rw [List.nil_append] at hall
  have hone : 0 < rb.cap := rb.cap_pos
  intro t
  obtain ⟨hcopies, hcontents⟩ := all_spec hr
  refine ⟨?_, ?_, ?_⟩
  · rw [hcontents, hall, rtake_min, hrb]
  · have hlast : (pushed ops).rtake rb.cap ≠ [] ∨ pushed ops = [] := by
      by_cases hnil : pushed ops = []
      · exact Or.inr hnil
      · refine Or.inl fun hrtake => ?_
        have hlen := congrArg List.length hrtake
        have hsome := List.length_pos_iff.mpr hnil
        rw [List.rtake, List.length_drop, List.length_nil] at hlen
        omega
    rw [(latest_spec hr).2, rb.latest_eq, hall]
    rcases hlast with hne | hnil
    · unfold List.rtake at hne ⊢
      rw [List.getLast?_drop, if_neg]
      intro hle
      exact hne (List.drop_eq_nil_of_le hle)
    · rw [hnil, List.rtake_nil]
  · intro a later ha
    have hkeeps : Keeps (t.1, (t.1.all t.2).2) (pushed ops ++ pushed [Op.all]) capacity.toNat :=
      Keeps.step ⟨rb, hr, hrb, hall⟩ .all
    refine get_run later hkeeps (hcopies.live a ha) ?_
    rintro rfl
    exact hcopies.fresh _ ha hr.live

/-- Around the end of a ring of two. -/
theorem ring_history_wrap :
    let t := run (newRing 2 ⟨[]⟩) [.push ⟨1, none, none, none, none, none, none, none⟩,
      .push ⟨2, none, none, none, none, none, none, none⟩, .all,
      .push ⟨3, none, none, none, none, none, none, none⟩]
    contents (t.1.all t.2) = [⟨2, none, none, none, none, none, none, none⟩,
      ⟨3, none, none, none, none, none, none, none⟩] :=
  (ring_history (by decide : (0 : ℤ) < 2) ⟨[]⟩ [.push ⟨1, none, none, none, none, none, none, none⟩,
      .push ⟨2, none, none, none, none, none, none, none⟩, .all,
      .push ⟨3, none, none, none, none, none, none, none⟩]).1

end Ring

end VMSmith.Metrics
