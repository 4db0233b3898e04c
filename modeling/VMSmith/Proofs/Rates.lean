/-
The rates of the collector.

One record of a VM keeps the last counters of all groups and one instant, that of the last
sample.  Where the last sample had a counter's group, the counter and the instant are of one
sample, and the rate is the counter's over the time between two samples that had it.  Where
it had not, the counter is older than the instant, and the rate is too high: `rate_measure`
says what is divided by what, and `Keeps` which samples the two are from.

The readings of a VM are what was recorded for it since its ring was made.
-/
import VMSmith.Metrics.Collector
import Mathlib.Algebra.Order.Floor.Ring
import Mathlib.Tactic.Linarith
import Mathlib.Tactic.Positivity

namespace VMSmith.Metrics

/-- The counters rates are computed from. -/
inductive Counter
  | cpuTime | diskRead | diskWrite | netRx | netTx
  deriving DecidableEq, Repr

/-- The group of the counter is not missing. -/
def DomainSample.has (ds : DomainSample) : Counter → Bool
  | .cpuTime => ds.hasCPU
  | .diskRead | .diskWrite => ds.hasDisk
  | .netRx | .netTx => ds.hasNet

def DomainSample.counter (ds : DomainSample) : Counter → ℕ
  | .cpuTime => ds.cpuTimeNs
  | .diskRead => ds.diskRdBytes
  | .diskWrite => ds.diskWrBytes
  | .netRx => ds.netRxBytes
  | .netTx => ds.netTxBytes

def PrevCounters.has (p : PrevCounters) : Counter → Bool
  | .cpuTime => p.hasCPU
  | .diskRead | .diskWrite => p.hasDisk
  | .netRx | .netTx => p.hasNet

def PrevCounters.counter (p : PrevCounters) : Counter → ℕ
  | .cpuTime => p.cpuTimeNs
  | .diskRead => p.diskRdBytes
  | .diskWrite => p.diskWrBytes
  | .netRx => p.netRxBytes
  | .netTx => p.netTxBytes

/-- What a sample reports of a counter. -/
def MetricSample.rate (s : MetricSample) : Counter → Option ℚ
  | .cpuTime => s.cpuPercent
  | .diskRead => s.diskReadBps.map (↑)
  | .diskWrite => s.diskWriteBps.map (↑)
  | .netRx => s.netRxBps.map (↑)
  | .netTx => s.netTxBps.map (↑)

/-- The rate of a counter that grew by `delta` in `dt` nanoseconds: for CPU time the
percentage of what the vCPUs could do, from 0 to 100, for bytes the whole bytes a second. -/
def Counter.rate (c : Counter) (vcpus : ℤ) (delta : ℚ) (dt : ℤ) : ℚ :=
  match c with
  | .cpuTime => max 0 (min 100 (delta / (dt * vcpus) * 100))
  | _ => ⌊delta / seconds dt⌋

theorem DomainSample.vcpus_pos (ds : DomainSample) : 0 < ds.vcpus := by
  unfold DomainSample.vcpus
  split <;> omega

/-! ### One sample -/

theorem counterDelta_eq (cur prev : ℕ) :
    counterDelta cur prev = if prev ≤ cur then some (cur - prev) else none := by
  unfold counterDelta
  by_cases h : cur < prev
  · rw [if_pos h, if_neg (by omega)]
  · rw [if_neg h, if_pos (by omega)]

theorem cpuPct_eq {cur prev : ℕ} {dt vcpus : ℤ} (h : prev ≤ cur) :
    cpuPct (cur - prev) dt vcpus = Counter.rate .cpuTime vcpus ((cur : ℚ) - prev) dt := by
  unfold cpuPct Counter.rate
  rw [Nat.cast_sub h, div_div]
  dsimp only
  by_cases hneg : ((cur : ℚ) - prev) / (dt * vcpus) * 100 < 0
  · rw [if_pos hneg, if_neg (by norm_num), max_eq_left]
    exact le_trans (min_le_right _ _) hneg.le
  · rw [if_neg hneg]
    rw [not_lt] at hneg
    by_cases hbig : ((cur : ℚ) - prev) / (dt * vcpus) * 100 > 100
    · rw [if_pos hbig, min_eq_left hbig.le, max_eq_right (by norm_num)]
    · rw [if_neg hbig, min_eq_right (not_lt.mp hbig), max_eq_right hneg]

theorem seconds_pos {d : ℤ} : 0 < seconds d ↔ 0 < d := by
  unfold seconds
  rw [div_pos_iff_of_pos_right (by norm_num), Int.cast_pos]

theorem bps_eq {c : Counter} {cur prev : ℕ} {dt vcpus : ℤ} (hc : c ≠ .cpuTime) (h : prev ≤ cur)
    (hdt : 0 < dt) :
    (bps (cur - prev) (seconds dt) : ℚ) = c.rate vcpus ((cur : ℚ) - prev) dt := by
  have hrate : c.rate vcpus ((cur : ℚ) - prev) dt = ⌊((cur : ℚ) - prev) / seconds dt⌋ := by
    unfold Counter.rate
    split
    · exact absurd rfl hc
    · rfl
  have hdelta : (0 : ℚ) ≤ (cur : ℚ) - prev := sub_nonneg.mpr (Nat.cast_le.mpr h)
  rw [hrate, bps, Nat.cast_sub h]
  exact natCast_floor_eq_intCast_floor (div_nonneg hdelta (seconds_pos.mpr hdt).le)

/-- What a record recalls of a counter, and of when it takes it to be. -/
def recollect (has : PrevCounters → Bool) (counter : PrevCounters → ℕ) (prev : Option PrevCounters) :
    Option (ℕ × ℤ) :=
  prev.bind fun p => if has p then some (counter p, p.sampleTime) else none

def recalled (prev : Option PrevCounters) (c : Counter) : Option (ℕ × ℤ) :=
  recollect (·.has c) (·.counter c) prev

/-- A rate is computed of a counter that is recalled, by an earlier instant, and that has not
been reset. -/
def Counter.since (c : Counter) (vcpus : ℤ) (hasNow : Bool) (cur : ℕ) (now : ℤ)
    (old : Option (ℕ × ℤ)) : Option ℚ :=
  old.bind fun (old, t) =>
    if hasNow ∧ t < now ∧ old ≤ cur then some (c.rate vcpus ((cur : ℚ) - old) (now - t))
    else none

theorem cpuPercent_eq (prev : Option PrevCounters) (ds : DomainSample) (now : ℤ) :
    cpuPercent prev ds now =
      Counter.since .cpuTime ds.vcpus ds.hasCPU ds.cpuTimeNs now (recalled prev .cpuTime) := by
  unfold cpuPercent Counter.since recalled recollect PrevCounters.has PrevCounters.counter
  cases prev with
  | none => rfl
  | some p =>
      dsimp only
      rw [Option.bind_some]
      by_cases hthen : p.hasCPU = true
      · rw [if_pos hthen, Option.bind_some]
        by_cases hnow : ds.hasCPU = true
        · rw [if_pos ⟨hnow, hthen⟩, counterDelta_eq]
          by_cases hdt : p.sampleTime < now
          · by_cases hgrew : p.cpuTimeNs ≤ ds.cpuTimeNs
            · rw [if_pos (sub_pos.mpr hdt), if_pos hgrew, if_pos ⟨hnow, hdt, hgrew⟩,
                Option.map_some, cpuPct_eq hgrew]
            · rw [if_pos (sub_pos.mpr hdt), if_neg hgrew, if_neg (fun h => hgrew h.2.2),
                Option.map_none]
          · rw [if_neg (fun h => hdt (sub_pos.mp h)), if_neg (fun h => hdt h.2.1)]
        · rw [if_neg (fun h => hnow h.1), if_neg (fun h => hnow h.1)]
      · rw [if_neg (fun h => hthen h.2), if_neg hthen, Option.bind_none]

theorem byteRate_eq {c : Counter} (hc : c ≠ .cpuTime) (has : PrevCounters → Bool)
    (counter : PrevCounters → ℕ) (prev : Option PrevCounters) (vcpus : ℤ) (hasNow : Bool) (cur : ℕ)
    (now : ℤ) :
    (byteRate has counter prev hasNow cur now).map ((↑) : ℕ → ℚ) =
      c.since vcpus hasNow cur now (recollect has counter prev) := by
  unfold byteRate Counter.since recollect
  cases prev with
  | none => rfl
  | some p =>
      dsimp only
      rw [Option.bind_some]
      by_cases hthen : has p = true
      · rw [if_pos hthen, Option.bind_some]
        by_cases hnow : hasNow = true
        · rw [if_pos ⟨hnow, hthen⟩, counterDelta_eq]
          by_cases hdt : p.sampleTime < now
          · have hpos := sub_pos.mpr hdt
            by_cases hgrew : counter p ≤ cur
            · rw [if_pos (seconds_pos.mpr hpos), if_pos hgrew, if_pos ⟨hnow, hdt, hgrew⟩,
                Option.map_some, Option.map_some, bps_eq hc hgrew hpos]
            · rw [if_pos (seconds_pos.mpr hpos), if_neg hgrew, if_neg (fun h => hgrew h.2.2)]
              rfl
          · rw [if_neg (fun h => hdt (sub_pos.mp (seconds_pos.mp h))), if_neg (fun h => hdt h.2.1)]
            rfl
        · rw [if_neg (fun h => hnow h.1), if_neg (fun h => hnow h.1)]
          rfl
      · rw [if_neg (fun h => hthen h.2), if_neg hthen]
        rfl

/-! ### The record of a VM -/

section Record

variable (prev : Option PrevCounters) (ds : DomainSample) (c : Counter)

/-- A group of the sample changes its own counters and no others. -/
theorem recalled_noteCPU :
    recalled (noteCPU prev ds) c =
      if c = .cpuTime ∧ ds.hasCPU = true then some (ds.counter c, (prev.getD {}).sampleTime)
      else recalled prev c := by
  unfold noteCPU
  by_cases hhas : ds.hasCPU = true
  · rw [if_pos hhas]
    cases c <;> cases prev <;> simp [hhas] <;> rfl
  · rw [if_neg hhas, if_neg (fun h => hhas h.2)]

theorem recalled_noteDisk :
    recalled (noteDisk prev ds) c =
      if (c = .diskRead ∨ c = .diskWrite) ∧ ds.hasDisk = true then
        some (ds.counter c, (prev.getD {}).sampleTime)
      else recalled prev c := by
  unfold noteDisk
  by_cases hhas : ds.hasDisk = true
  · rw [if_pos hhas]
    cases c <;> cases prev <;> simp [hhas] <;> rfl
  · rw [if_neg hhas, if_neg (fun h => hhas h.2)]

theorem recalled_noteNet :
    recalled (noteNet prev ds) c =
      if (c = .netRx ∨ c = .netTx) ∧ ds.hasNet = true then
        some (ds.counter c, (prev.getD {}).sampleTime)
      else recalled prev c := by
  unfold noteNet
  by_cases hhas : ds.hasNet = true
  · rw [if_pos hhas]
    cases c <;> cases prev <;> simp [hhas] <;> rfl
  · rw [if_neg hhas, if_neg (fun h => hhas h.2)]

/-- The stamp is on every counter, be it the sample's or an older one. -/
theorem recalled_stamp (now : ℤ) :
    recalled (prev.map ({ · with sampleTime := now })) c =
      (recalled prev c).map fun old => (old.1, now) := by
  cases prev with
  | none => rfl
  | some p =>
      have hhas : ({ p with sampleTime := now } : PrevCounters).has c = p.has c := by cases c <;> rfl
      have hcounter : ({ p with sampleTime := now } : PrevCounters).counter c = p.counter c := by
        cases c <;> rfl
      simp only [recalled, recollect, Option.map_some, Option.bind_some, hhas, hcounter]
      by_cases hknown : p.has c = true
      · rw [if_pos hknown, if_pos hknown, Option.map_some]
      · rw [if_neg hknown, if_neg hknown, Option.map_none]

theorem recalled_measure (now : ℤ) :
    recalled (measure prev ds now).2 c =
      if ds.has c then some (ds.counter c, now) else (recalled prev c).map fun old => (old.1, now) := by
  have hstamp : (measure prev ds now).2 =
      (noteNet (noteDisk (noteCPU prev ds) ds) ds).map ({ · with sampleTime := now }) := rfl
  rw [hstamp, recalled_stamp, recalled_noteNet, recalled_noteDisk, recalled_noteCPU]
  by_cases hhas : ds.has c = true
  · rw [if_pos hhas]
    cases c <;> dsimp only [DomainSample.has] at hhas <;> simp [hhas]
  · rw [if_neg hhas]
    cases c <;> dsimp only [DomainSample.has] at hhas <;> simp [hhas]

/-- What a domain sample is reported at, by the record there is of the VM. -/
theorem rate_measure (now : ℤ) :
    (measure prev ds now).1.rate c =
      c.since ds.vcpus (ds.has c) (ds.counter c) now (recalled prev c) := by
  have hdisk : c = .diskRead ∨ c = .diskWrite → recalled (noteCPU prev ds) c = recalled prev c := by
    intro hc
    rw [recalled_noteCPU, if_neg]
    rintro ⟨rfl, -⟩
    simp at hc
  have hnet : c = .netRx ∨ c = .netTx →
      recalled (noteDisk (noteCPU prev ds) ds) c = recalled prev c := by
    intro hc
    rw [recalled_noteDisk, recalled_noteCPU, if_neg, if_neg]
    · rintro ⟨rfl, -⟩
      simp at hc
    · rintro ⟨rfl | rfl, -⟩ <;> simp at hc
  cases c with
  | cpuTime => exact cpuPercent_eq prev ds now
  | diskRead =>
      rw [← hdisk (.inl rfl)]
      exact byteRate_eq (by decide) _ _ _ _ _ _ _
  | diskWrite =>
      rw [← hdisk (.inr rfl)]
      exact byteRate_eq (by decide) _ _ _ _ _ _ _
  | netRx =>
      rw [← hnet (.inl rfl)]
      exact byteRate_eq (by decide) _ _ _ _ _ _ _
  | netTx =>
      rw [← hnet (.inr rfl)]
      exact byteRate_eq (by decide) _ _ _ _ _ _ _

end Record

/-! ### Runs -/

/-- A domain sample that was recorded, and what was reported for it. -/
structure Reading where
  sample : DomainSample
  now : ℤ
  reported : MetricSample

/-- The last of some readings with the group of the counter. -/
def lastWith (c : Counter) (readings : List Reading) : Option Reading :=
  (readings.filter fun q => q.sample.has c).getLast?

/-- A round of the collector: what the resolver answers, what libvirt reports and when. -/
structure Round where
  resolver : Option NameToIDFunc
  samples : List DomainSample
  now : ℤ

/-- The collector, and the readings of every VM since its ring was made. -/
structure Watched where
  manager : LibvirtMetricsManager
  readings : String → List Reading

namespace Watched

def processSample (now : ℤ) (w : Watched × List String) (ds : DomainSample) :
    Watched × List String :=
  let (manager, seen) := LibvirtMetricsManager.processSample now (w.1.manager, w.2) ds
  match w.1.manager.resolveVMID ds.name with
  | none => ({ w.1 with manager }, seen)
  | some vmID =>
      let reported := (measure (w.1.manager.prev vmID) ds now).1
      ({ manager
         readings := Function.update w.1.readings vmID
           (w.1.readings vmID ++ [⟨ds, now, reported⟩]) }, seen)

def round (w : Watched) (r : Round) : Watched :=
  let (w, seen) := r.samples.foldl (processSample r.now)
    ({ w with manager := w.manager.setResolver r.resolver }, [])
  { manager := w.manager.prune seen r.now
    readings := fun id => if w.manager.evicts seen r.now id then [] else w.readings id }

/-- The collector after some rounds. -/
def after (m : LibvirtMetricsManager) (rounds : List Round) : Watched :=
  rounds.foldl round ⟨m, fun _ => []⟩

variable {w : Watched} {seen : List String} {now : ℤ} {ds : DomainSample} {vmID : String}

/-- The readings only watch. -/
theorem processSample_manager (w : Watched × List String) :
    ((processSample now w ds).1.manager, (processSample now w ds).2) =
      LibvirtMetricsManager.processSample now (w.1.manager, w.2) ds := by
  unfold processSample
  dsimp only
  split <;> rfl

theorem foldl_manager (now : ℤ) (samples : List DomainSample) : ∀ w : Watched × List String,
    ((samples.foldl (processSample now) w).1.manager, (samples.foldl (processSample now) w).2) =
      samples.foldl (LibvirtMetricsManager.processSample now) (w.1.manager, w.2) := by
  induction samples with
  | nil => intro w; rfl
  | cons ds rest ih =>
      intro w
      rw [List.foldl_cons, List.foldl_cons, ih, processSample_manager]

theorem round_manager (w : Watched) (r : Round) :
    (w.round r).manager =
      (w.manager.setResolver r.resolver).processSamples r.samples r.now := by
  have hfold := foldl_manager r.now r.samples
    ({ w with manager := w.manager.setResolver r.resolver }, [])
  unfold round LibvirtMetricsManager.processSamples
  rw [← hfold]

end Watched

/-- The record of a VM recalls the last of every counter, and takes it to be of the last
reading. -/
def Keeps (readings : List Reading) (prev : Option PrevCounters) : Prop :=
  ∀ c, recalled prev c =
    (lastWith c readings).bind fun q =>
      readings.getLast?.map fun p => (q.sample.counter c, p.now)

/-- Every reading's rates are by the readings before it. -/
def Explained (readings : List Reading) : Prop :=
  ∀ before r later, readings = before ++ r :: later → ∀ c,
    r.reported.rate c =
      c.since r.sample.vcpus (r.sample.has c) (r.sample.counter c) r.now
        ((lastWith c before).bind fun q =>
          before.getLast?.map fun p => (q.sample.counter c, p.now))

theorem lastWith_concat (c : Counter) (readings : List Reading) (r : Reading) :
    lastWith c (readings ++ [r]) = if r.sample.has c then some r else lastWith c readings := by
  unfold lastWith
  rw [List.filter_append]
  by_cases hhas : r.sample.has c = true
  · have hkept : [r].filter (fun q => q.sample.has c) = [r] := by simp [hhas]
    rw [if_pos hhas, hkept, List.getLast?_concat]
  · have hgone : [r].filter (fun q => q.sample.has c) = [] := by simp [hhas]
    rw [if_neg hhas, hgone, List.append_nil]

theorem lastWith_some {c : Counter} {readings : List Reading} {q : Reading}
    (h : lastWith c readings = some q) : ∃ p, readings.getLast? = some p := by
  have hmem : q ∈ readings := List.mem_of_mem_filter (List.mem_of_getLast? h)
  exact ⟨_, List.getLast?_eq_some_getLast (List.ne_nil_of_mem hmem)⟩

/-- **The record follows the readings.** -/
theorem Keeps.measure {readings : List Reading} {prev : Option PrevCounters}
    (h : Keeps readings prev) (r : Reading) :
    Keeps (readings ++ [r]) (measure prev r.sample r.now).2 := by
  intro c
  rw [recalled_measure, lastWith_concat, List.getLast?_concat, h c]
  by_cases hhas : r.sample.has c = true
  · rw [if_pos hhas, if_pos hhas]
    rfl
  · rw [if_neg hhas, if_neg hhas]
    cases hlast : lastWith c readings with
    | none => rfl
    | some q =>
        obtain ⟨p, hp⟩ := lastWith_some hlast
        rw [hp]
        rfl

theorem Keeps.explained {readings : List Reading} {prev : Option PrevCounters}
    (h : Keeps readings prev) (hbefore : Explained readings) (ds : DomainSample) (now : ℤ) :
    Explained (readings ++ [⟨ds, now, (Metrics.measure prev ds now).1⟩]) := by
  intro before r later heq c
  rcases List.eq_nil_or_concat later with hlater | ⟨more, last, hlater⟩
  · rw [hlater] at heq
    obtain ⟨hreadings, hr⟩ := List.append_inj' heq rfl
    rw [← List.singleton_inj.mp hr, ← hreadings]
    dsimp only
    rw [rate_measure, h c]
  · rw [hlater, List.concat_eq_append, ← List.cons_append, ← List.append_assoc] at heq
    exact hbefore before r more (List.append_inj' heq rfl).1 c

namespace Watched

/-- What holds of a VM whose ring keeps `cap` samples. -/
structure Holds (cap : ℕ) (w : Watched) (vmID : String) : Prop where
  keeps : Keeps (w.readings vmID) (w.manager.prev vmID)
  explained : Explained (w.readings vmID)
  cap_eq : (w.manager.ringOf vmID).cap = cap
  kept : (w.manager.ringOf vmID).all = ((w.readings vmID).map (·.reported)).rtake cap

/-- Only what is recorded of a VM, and how long its history is, matters to it. -/
theorem Holds.congr {cap : ℕ} {w' : Watched} {vmID : String} (h : Holds cap w vmID)
    (hprev : w'.manager.prev vmID = w.manager.prev vmID)
    (hring : w'.manager.ringOf vmID = w.manager.ringOf vmID)
    (hreadings : w'.readings vmID = w.readings vmID) : Holds cap w' vmID := by
  refine ⟨?_, ?_, ?_, ?_⟩
  · rw [hprev, hreadings]
    exact h.keeps
  · rw [hreadings]
    exact h.explained
  · rw [hring, h.cap_eq]
  · rw [hring, hreadings, h.kept]

/-- What the collector is between two domain samples. -/
structure Inv (cap : ℕ) (w : Watched) : Prop where
  fresh : (RingBuffer.new w.manager.histSize ({} : MetricSample)).cap = cap
  holds : ∀ vmID, Holds cap w vmID

variable {cap : ℕ}

end Watched

theorem Counter.rate_nonneg (c : Counter) {vcpus : ℤ} {delta : ℚ} {dt : ℤ} (hdelta : 0 ≤ delta)
    (hdt : 0 < dt) : 0 ≤ c.rate vcpus delta dt := by
  have hbytes : (0 : ℚ) ≤ ⌊delta / seconds dt⌋ := by
    rw [Int.cast_nonneg_iff, Int.floor_nonneg]
    exact div_nonneg hdelta (seconds_pos.mpr hdt).le
  cases c with
  | cpuTime => exact le_max_left _ _
  | diskRead => exact hbytes
  | diskWrite => exact hbytes
  | netRx => exact hbytes
  | netTx => exact hbytes

end VMSmith.Metrics
