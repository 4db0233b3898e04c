/-
The ring of samples (`internal/metrics/ring.go`), in memory.

`RingBuffer` says what a ring computes with values.  Here its buffer is an array at a place,
what `all` and `latest` return are arrays at places of their own, and the reader may hold on
to them while samples go on being pushed.
-/
import VMSmith.Lib.Heap
import VMSmith.Metrics.Collector

namespace VMSmith.Metrics

/-- `ring`. -/
structure Ring where
  /-- The place of the buffer. -/
  buf : ℕ
  head : ℕ
  size : ℕ
  cap : ℕ
  deriving DecidableEq, Repr

namespace Ring

abbrev Samples := Heap MetricSample

def newRing (capacity : ℤ) (h : Samples) : Ring × Samples :=
  let capacity := if capacity ≤ 0 then 1 else capacity.toNat
  let (buf, h) := h.alloc (List.replicate capacity {})
  (⟨buf, 0, 0, capacity⟩, h)

def push (r : Ring) (s : MetricSample) (h : Samples) : Ring × Samples :=
  ({ r with
      head := (r.head + 1) % r.cap
      size := if r.size < r.cap then r.size + 1 else r.size },
    h.set r.buf r.head s)

/-- The sample in a cell of the buffer. -/
def cell (r : Ring) (h : Samples) (i : ℕ) : MetricSample := (h.get r.buf).getD i {}

/-- The place of the copy, none of an empty ring. -/
def all (r : Ring) (h : Samples) : Option ℕ × Samples :=
  if r.size = 0 then (none, h)
  else
    let (out, h) := h.alloc (List.replicate r.size {})
    let start := (r.head + r.cap - r.size) % r.cap
    (some out, (List.range r.size).foldl (fun h i => h.set out i (r.cell h ((start + i) % r.cap))) h)

/-- The place of a copy of the sample. -/
def latest (r : Ring) (h : Samples) : Option ℕ × Samples :=
  if r.size = 0 then (none, h)
  else
    let (s, h) := h.alloc [r.cell h ((r.head + r.cap - 1) % r.cap)]
    (some s, h)

end Ring

end VMSmith.Metrics
