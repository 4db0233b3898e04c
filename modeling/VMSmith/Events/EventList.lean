/-
The events bucket as the store has it, and the filtered list read from it.

The keys are texts: eight big-endian bytes for an event that `AppendEvent` wrote, and
whatever older versions used for the events of theirs.  The list is read backwards from
the last key below a bound and stops at the first event that is too old.
-/
import VMSmith.Events.EventFilter
import VMSmith.Lib.BigEndian

namespace VMSmith

open Go

/-- `encodeSeqKey`. -/
def encodeSeqKey (seq : Nat) : Bytes :=
  [(seq / 256 ^ 7).toUInt8, (seq / 256 ^ 6).toUInt8, (seq / 256 ^ 5).toUInt8,
    (seq / 256 ^ 4).toUInt8, (seq / 256 ^ 3).toUInt8, (seq / 256 ^ 2).toUInt8,
    (seq / 256 ^ 1).toUInt8, (seq / 256 ^ 0).toUInt8]

/-- `decodeSeqKey`. -/
def decodeSeqKey : Bytes → Nat
  | [k₀, k₁, k₂, k₃, k₄, k₅, k₆, k₇] =>
      k₀.toNat * 256 ^ 7 + (k₁.toNat * 256 ^ 6 + (k₂.toNat * 256 ^ 5 + (k₃.toNat * 256 ^ 4 +
        (k₄.toNat * 256 ^ 3 + (k₅.toNat * 256 ^ 2 + (k₆.toNat * 256 ^ 1 + k₇.toNat * 256 ^ 0))))))
  | _ => 0

theorem encodeSeqKey_eq (seq : Nat) : encodeSeqKey seq = bigEndian 8 seq := rfl

theorem decodeSeqKey_eq {key : Bytes} (h : key.length = 8) :
    decodeSeqKey key = ofBigEndian key := by
  match key, h with
  | [_, _, _, _, _, _, _, _], _ => rfl

@[simp] theorem length_encodeSeqKey (seq : Nat) : (encodeSeqKey seq).length = 8 := rfl

theorem decode_encodeSeqKey {seq : Nat} (h : seq < 2 ^ 64) :
    decodeSeqKey (encodeSeqKey seq) = seq := by
  rw [decodeSeqKey_eq (length_encodeSeqKey seq), encodeSeqKey_eq, ofBigEndian_bigEndian]
  exact Nat.mod_eq_of_lt h

theorem encode_decodeSeqKey {key : Bytes} (h : key.length = 8) :
    encodeSeqKey (decodeSeqKey key) = key := by
  rw [decodeSeqKey_eq h, encodeSeqKey_eq, bigEndian_ofBigEndian h]

theorem decodeSeqKey_lt {key : Bytes} (h : key.length = 8) : decodeSeqKey key < 2 ^ 64 := by
  have hlt := ofBigEndian_lt key
  rw [h] at hlt
  rw [decodeSeqKey_eq h]
  exact hlt

/-- Keys stand in the order of their numbers. -/
theorem key_lt_iff {key key' : Bytes} (h : key.length = 8) (h' : key'.length = 8) :
    key < key' ↔ decodeSeqKey key < decodeSeqKey key' := by
  rw [decodeSeqKey_eq h, decodeSeqKey_eq h', lt_iff_ofBigEndian_lt (h.trans h'.symm)]

/-- The events bucket.  An entry is what its text decodes to; of the entries under
eight-byte keys each is an event that `AppendEvent` stamped. -/
structure StoredEvents where
  sequence : Nat
  bucket : Bucket Bytes (Option Event)
  written : ∀ key value, bucket.get? key = some value → key.length = 8 →
    ∃ evt, value = some evt ∧ evt.id = toString (decodeSeqKey key)

/-- `EventFilter.Since`. -/
inductive Since
  | unset
  /-- A `time.Time`; zero is the zero time. -/
  | time (t : Nat)
  | seq (n : UInt64)
  deriving DecidableEq, Repr

/-- `EventFilter`. -/
structure EventFilter extends EventStreamFilter where
  since : Since := .unset
  untilSeq : UInt64 := 0
  page : Int := 0
  perPage : Int := 0
  deriving DecidableEq, Repr

/-- When an event happened, as far as it is known. -/
def Event.timestamp (evt : Event) : Nat := if evt.occurredAt = 0 then evt.createdAt else evt.occurredAt

/-- The time-based bound lets the event through. -/
def Since.admits : Since → Event → Bool
  | .time t, evt => if t ≠ 0 then t < evt.timestamp else true
  | _, _ => true

/-- The walk ends at this number. -/
def Since.stopsAt : Since → Nat → Bool
  | .seq n, number => 0 < n && number ≤ n.toNat
  | _, _ => false

/-- The predicates of `ListEventsFiltered`, in its order. -/
def EventFilter.passes (f : EventFilter) (evt : Event) : Bool :=
  if f.vmID ≠ "" ∧ evt.vmID ≠ f.vmID then false
  else if f.type ≠ "" ∧ evt.type ≠ f.type then false
  else if f.source ≠ "" ∧ evt.source ≠ f.source then false
  else if f.severity ≠ "" ∧ evt.severity ≠ f.severity then false
  else if f.minSeverity ≠ "" ∧ ¬ eventMeetsMinSeverity evt f.minSeverity then false
  else if f.actor ≠ "" ∧ evt.actor ≠ f.actor then false
  else if f.resourceID ≠ "" ∧ evt.resourceID ≠ f.resourceID then false
  else if f.typePrefix ≠ "" ∧ ¬ Go.hasPrefix (Go.toLower evt.type) f.typePrefix then false
  else if ¬ f.since.admits evt then false
  else if f.search ≠ "" ∧ ¬ eventMatchesSearch evt f.search then false
  else true

/-- The entries the cursor walks, the newest first. -/
def cursorEntries (b : Bucket Bytes (Option Event)) (untilSeq : UInt64) :
    List (Bytes × Option Event) :=
  if 0 < untilSeq then
    let startKey := encodeSeqKey (untilSeq.toNat - 1)
    match b.seek startKey with
    | [] => b.entries.reverse
    | (key, value) :: _ =>
        if key ≠ startKey then b.before startKey else (key, value) :: b.before startKey
  else b.entries.reverse

/-- The loop over the cursor. -/
def EventFilter.collect (f : EventFilter) : List (Bytes × Option Event) → List Event
  | [] => []
  | (key, value) :: older =>
      if key.length ≠ 8 then f.collect older
      else if f.since.stopsAt (decodeSeqKey key) then []
      else
        match value with
        | none => f.collect older
        | some evt => if f.passes evt then evt :: f.collect older else f.collect older

/-- The loop of `ListEventsAfterSeq`: it ends at the first key that is no number. -/
def replayLoop (limit : Int) (events : List Event) : List (Bytes × Option Event) → List Event
  | [] => events
  | (key, value) :: later =>
      if key.length ≠ 8 then events
      else
        match value with
        | none => replayLoop limit events later
        | some evt =>
            let events := events ++ [evt]
            if 0 < limit ∧ limit ≤ events.length then events else replayLoop limit events later

/-- The page of a list, as the store and the handler cut it out; `none` where the bounds are
out of range.  The product is one of machine integers; the sum stays below twice the length
of a list or is `perPage` itself. -/
def paginate {α : Type} (page perPage : Int) (all : List α) : Option (List α) :=
  if 0 < perPage then
    let page := if page < 1 then 1 else page
    let start := ((page - 1) * perPage).bmod (2 ^ 64)
    if all.length ≤ start then some []
    else
      let stop : Int := if all.length < start + perPage then all.length else start + perPage
      if 0 ≤ start ∧ start ≤ stop then
        some ((all.drop start.toNat).take (stop.toNat - start.toNat))
      else none
  else some all

namespace StoredEvents

/-- `ListEventsFiltered`: the page, and how many events match. -/
def listEventsFiltered (s : StoredEvents) (f : EventFilter) : Option (List Event × Nat) :=
  let all := f.collect (cursorEntries s.bucket f.untilSeq)
  (paginate f.page f.perPage all).map fun events => (events, all.length)

/-- `ListEventsAfterSeq`. -/
def listEventsAfterSeq (s : StoredEvents) (afterSeq : UInt64) (limit : Int) : List Event :=
  replayLoop limit [] (s.bucket.seek (encodeSeqKey (afterSeq + 1).toNat))

/-- The bucket with the counter at its start: legacy entries only. -/
def legacy (bucket : Bucket Bytes (Option Event))
    (h : ∀ key value, bucket.get? key = some value → key.length ≠ 8) : StoredEvents :=
  ⟨0, bucket, fun key value hkey hlen => absurd hlen (h key value hkey)⟩

theorem legacy_empty (key : Bytes) (value : Option Event)
    (hget : (Bucket.empty : Bucket Bytes (Option Event)).get? key = some value) : key.length ≠ 8 := by
  simp at hget

/-- `AppendEvent`. -/
def appendEvent (s : StoredEvents) (event : Event) : Nat × StoredEvents :=
  let seq := (s.sequence + 1) % 2 ^ 64
  (seq, ⟨seq, s.bucket.put (encodeSeqKey seq) (some { event with id := toString seq }), by
    intro key value hget hlen
    rcases Bucket.mem_put hget with ⟨rfl, rfl⟩ | ⟨_, hold⟩
    · exact ⟨_, rfl, by rw [decode_encodeSeqKey (Nat.mod_lt _ (by decide))]⟩
    · exact s.written key value hold hlen⟩)

end StoredEvents

end VMSmith
