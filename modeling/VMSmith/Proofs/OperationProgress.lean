/-
Streams that are told how operations end.

As long as there was room in its channel whenever an operation on its VM came to an end, the
frames on their way to a stream, those it writes and those it has written say done of just the
operations that ended while it was streaming, in that order.  A stream that writes such a frame
is through; it misses nothing just when no other operation is running then and none behind that
frame in its channel says done.
-/
import VMSmith.Api.OperationProgress

namespace VMSmith

namespace Api

/-- What a stream and its channel owe the client: every operation that ended while it was
streaming is, or will be, said to be done, and it did not end before the other operations did. -/
def ProgressStream.Told (r : ProgressStream) (ch : List ProgressFrame) : Prop :=
  match r.phase with
  | .streaming => ∀ i ∈ r.owed, i ∈ doneIn (r.written ++ r.hand.toList ++ ch)
  | .ended running => (∀ i ∈ r.owed, i ∈ doneIn r.written) ∧ running = []
  | .left => True

instance (r : ProgressStream) (ch : List ProgressFrame) : Decidable (r.Told ch) :=
  match r with
  | ⟨_, hand, written, .streaming, owed⟩ =>
      inferInstanceAs (Decidable (∀ i ∈ owed, i ∈ doneIn (written ++ hand.toList ++ ch)))
  | ⟨_, _, written, .ended running, owed⟩ =>
      inferInstanceAs (Decidable ((∀ i ∈ owed, i ∈ doneIn written) ∧ running = []))
  | ⟨_, _, _, .left, _⟩ => isTrue trivial

namespace ProgressSys

/-- There is a stream with this channel at this place. -/
def Has (s : ProgressSys) (j : Nat) (r : ProgressStream) (sub : ProgressSub) : Prop :=
  s.streams[j]? = some r ∧ s.broker.subs[j]? = some sub

def Told (s : ProgressSys) : Prop := ∀ j r sub, s.Has j r sub → r.Told sub.ch

/-- A stream of the VM has room in its channel. -/
def room (key : String) (p : ProgressStream × ProgressSub) : Bool :=
  !(p.1.phase = .streaming && p.1.key = key) || p.2.ch.length < progressBufSize

/-- If the frame at hand says done, no operation on the VM is running, and no frame behind it in
the channel says done. -/
def isLast (s : ProgressSys) (p : ProgressStream × ProgressSub) : Bool :=
  p.1.hand.all fun frame => !frame.msg.done || (s.running p.1.key = [] && doneIn p.2.ch = [])

/-- The condition on a step: an operation that comes to its end finds room in the channels of the
streams of its VM, and a frame that says done is not written before all operations have ended and
the others are said to have. -/
def meets (s : ProgressSys) : ProgressLabel → Bool
  | .finish i => s.operations[i]?.all fun op => (s.streams.zip s.broker.subs).all (room op.key)
  | .write j => (s.streams.zip s.broker.subs)[j]?.all s.isLast
  | _ => true

theorem has_iff {s : ProgressSys} {j : Nat} {r : ProgressStream} {sub : ProgressSub} :
    s.Has j r sub ↔ (s.streams.zip s.broker.subs)[j]? = some (r, sub) := by
  rw [List.getElem?_zip_eq_some]
  rfl

instance (s : ProgressSys) : Decidable s.Told :=
  decidable_of_iff (∀ p ∈ s.streams.zip s.broker.subs, p.1.Told p.2.ch)
    ⟨fun h _ r sub hhas => h (r, sub) (List.mem_of_getElem? (has_iff.mp hhas)), fun h p hp => by
      obtain ⟨j, hj⟩ := List.mem_iff_getElem?.mp hp
      exact h j p.1 p.2 (has_iff.mpr hj)⟩

theorem room_iff {key : String} {r : ProgressStream} {sub : ProgressSub} :
    room key (r, sub) = true ↔ (r.phase = .streaming → r.key = key → sub.ch.length < progressBufSize) := by
  unfold room
  by_cases hphase : r.phase = .streaming
  · by_cases hkey : r.key = key
    · simp [hphase, hkey]
    · simp [hkey]
  · simp [hphase]

theorem meets_finish {s : ProgressSys} {i : Nat} {op : ProgressOperation} (hop : s.operations[i]? = some op) :
    s.meets (.finish i) = true ↔ ∀ j r sub, s.Has j r sub → r.phase = .streaming → r.key = op.key →
      sub.ch.length < progressBufSize := by
  show (s.operations[i]?.all fun op => (s.streams.zip s.broker.subs).all (room op.key)) = true ↔ _
  rw [hop, Option.all_some, List.all_eq_true]
  constructor
  · intro h j r sub hhas
    exact room_iff.mp (h (r, sub) (List.mem_of_getElem? (has_iff.mp hhas)))
  · rintro h ⟨r, sub⟩ hmem
    obtain ⟨j, hj⟩ := List.mem_iff_getElem?.mp hmem
    exact room_iff.mpr (h j r sub (has_iff.mpr hj))

theorem meets_write {s : ProgressSys} {j : Nat} {r : ProgressStream} {sub : ProgressSub} {frame : ProgressFrame}
    (hhas : s.Has j r sub) (hhand : r.hand = some frame) :
    s.meets (.write j) = true ↔ (frame.msg.done = true → s.running r.key = [] ∧ doneIn sub.ch = []) := by
  show ((s.streams.zip s.broker.subs)[j]?.all s.isLast) = true ↔ _
  rw [has_iff.mp hhas, Option.all_some, isLast, hhand, Option.all_some]
  cases frame.msg.done with
  | false => simp
  | true => simp

end ProgressSys

/-! ### Frames that say done -/

theorem doneIn_append (frames frames' : List ProgressFrame) :
    doneIn (frames ++ frames') = doneIn frames ++ doneIn frames' := by
  unfold doneIn
  rw [List.filter_append, List.map_append]

theorem doneIn_notDone {frame : ProgressFrame} (h : frame.msg.done = false) : doneIn [frame] = [] := by
  unfold doneIn
  rw [List.filter_singleton, h]
  rfl

theorem doneIn_done {frame : ProgressFrame} (h : frame.msg.done = true) : doneIn [frame] = [frame.operation] := by
  unfold doneIn
  rw [List.filter_singleton, h]
  rfl

namespace ProgressSub

variable {key : String} {frame : ProgressFrame} {sub : ProgressSub}

theorem offer_key : (sub.offer key frame).key = sub.key := by
  unfold offer
  split_ifs
  · rfl
  · rfl

theorem offer_registered : (sub.offer key frame).registered = sub.registered := by
  unfold offer
  split_ifs
  · rfl
  · rfl

theorem offer_notDone (h : frame.msg.done = false) : doneIn (sub.offer key frame).ch = doneIn sub.ch := by
  unfold offer
  split_ifs
  · show doneIn (sub.ch ++ [frame]) = _
    rw [doneIn_append, doneIn_notDone h, List.append_nil]
  · rfl

theorem offer_other (h : sub.key ≠ key) : sub.offer key frame = sub := by
  unfold offer
  rw [if_neg fun hall => h hall.2.1]

theorem offer_full (h : ¬ sub.ch.length < progressBufSize) : sub.offer key frame = sub := by
  unfold offer
  rw [if_neg fun hall => h hall.2.2]

theorem offer_room (hregistered : sub.registered = true) (hkey : sub.key = key)
    (h : sub.ch.length < progressBufSize) : (sub.offer key frame).ch = sub.ch ++ [frame] := by
  unfold offer
  rw [if_pos ⟨hregistered, hkey, h⟩]

end ProgressSub

/-! ### The invariant -/

/-- The operation has come to its end. -/
def Finished (operations : List ProgressOperation) (i : Nat) : Prop :=
  ∃ op, operations[i]? = some op ∧ op.running = false

/-- The frames that say done, on their way to a stream or written by it, are those it is owed. -/
structure StreamOK (operations : List ProgressOperation) (r : ProgressStream) (sub : ProgressSub) : Prop where
  registered : r.phase = .streaming → sub.registered = true
  key : sub.key = r.key
  frames : r.phase = .streaming → doneIn (r.written ++ r.hand.toList ++ sub.ch) = r.owed
  nodup : r.owed.Nodup
  finished : ∀ i ∈ r.owed, Finished operations i
  told : r.Told sub.ch

structure ProgressSys.Inv (s : ProgressSys) : Prop where
  aligned : s.streams.length = s.broker.subs.length
  last : ∀ key frame, s.broker.last.get? key = some frame → frame.msg.done = false
  streams : ∀ j r sub, s.Has j r sub → StreamOK s.operations r sub

variable {s s' : ProgressSys} {operations : List ProgressOperation} {r : ProgressStream} {sub : ProgressSub}

theorem StreamOK.mono {operations' : List ProgressOperation} (h : StreamOK operations r sub)
    (hmono : ∀ i, Finished operations i → Finished operations' i) : StreamOK operations' r sub :=
  { h with finished := fun i hi => hmono i (h.finished i hi) }

theorem told_streaming {ch : List ProgressFrame} (hphase : r.phase = .streaming) :
    r.Told ch ↔ ∀ i ∈ r.owed, i ∈ doneIn (r.written ++ r.hand.toList ++ ch) := by
  unfold ProgressStream.Told
  rw [hphase]

/-- Only a streaming stream's channel matters. -/
theorem told_congr {ch ch' : List ProgressFrame} (hphase : r.phase ≠ .streaming) (h : r.Told ch) : r.Told ch' := by
  unfold ProgressStream.Told at h ⊢
  cases hr : r.phase with
  | streaming => exact absurd hr hphase
  | ended running =>
      rw [hr] at h
      exact h
  | left => trivial

theorem StreamOK.told_of_frames {r : ProgressStream} (hphase : r.phase = .streaming)
    (h : doneIn (r.written ++ r.hand.toList ++ sub.ch) = r.owed) : r.Told sub.ch := by
  rw [told_streaming hphase, h]
  exact fun _ hi => hi

/-- A stream of which nothing matters to its frames has changed. -/
theorem StreamOK.of_frames {sub' : ProgressSub} (h : StreamOK operations r sub)
    (hregistered : r.phase = .streaming → sub'.registered = true) (hkey : sub'.key = sub.key)
    (hframes : r.phase = .streaming → doneIn sub'.ch = doneIn sub.ch) : StreamOK operations r sub' := by
  have hsame : r.phase = .streaming → doneIn (r.written ++ r.hand.toList ++ sub'.ch) = r.owed := fun hphase => by
    rw [doneIn_append, hframes hphase, ← doneIn_append]
    exact h.frames hphase
  refine ⟨hregistered, hkey.trans h.key, hsame, h.nodup, h.finished, ?_⟩
  by_cases hphase : r.phase = .streaming
  · exact told_of_frames hphase (hsame hphase)
  · exact told_congr hphase h.told

theorem finished_set {i : Nat} {op : ProgressOperation} (hop : operations[i]? = some op)
    (hrunning : op.running = true) (op' : ProgressOperation) : ∀ k, Finished operations k → Finished (operations.set i op') k := by
  rintro k ⟨o, ho, hdone⟩
  refine ⟨o, ?_, hdone⟩
  rw [List.getElem?_set_ne ?_]
  · exact ho
  · rintro rfl
    obtain rfl := Option.some.inj (hop.symm.trans ho)
    rw [hrunning] at hdone
    simp at hdone

namespace ProgressSys

/-! ### Steps -/

theorem last_publish (h : s.Inv) (key : String) (frame : ProgressFrame) (key' : String) (frame' : ProgressFrame)
    (hget : (s.broker.publish key frame).last.get? key' = some frame') : frame'.msg.done = false := by
  unfold OperationProgressBroker.publish at hget
  cases hdone : frame.msg.done with
  | true =>
      simp only [hdone, if_true] at hget
      exact h.last key' frame' (Bucket.mem_erase.mp hget).2
  | false =>
      simp only [hdone, Bool.false_eq_true, if_false] at hget
      rcases Bucket.mem_put hget with ⟨-, rfl⟩ | ⟨-, hold⟩
      · exact hdone
      · exact h.last key' frame' hold

theorem step_take {j : Nat} (hstep : s.step (.take j) = some s') : ∃ r sub frame rest, s.Has j r sub ∧
    sub.ch = frame :: rest ∧ r.phase = .streaming ∧ r.hand = none ∧ s' = { s with
      broker := { s.broker with subs := s.broker.subs.modify j fun sub => { sub with ch := rest } }
      streams := s.streams.set j { r with hand := some frame } } := by
  simp only [step] at hstep
  cases hr : s.streams[j]? with
  | none => simp [hr] at hstep
  | some r =>
      cases hsub : s.broker.subs[j]? with
      | none => simp [hr, hsub] at hstep
      | some sub =>
          cases hch : sub.ch with
          | nil => simp [hr, hsub, hch] at hstep
          | cons frame rest =>
              simp only [hr, hsub, hch, Option.map_some, Option.ite_none_right_eq_some,
                Option.some.injEq] at hstep
              obtain ⟨⟨hphase, hhand⟩, rfl⟩ := hstep
              exact ⟨r, sub, frame, rest, ⟨hr, hsub⟩, hch, hphase, hhand, rfl⟩

theorem step_write {j : Nat} (hstep : s.step (.write j) = some s') : ∃ r frame, s.streams[j]? = some r ∧
    r.phase = .streaming ∧ r.hand = some frame ∧ s' = s.write j r frame := by
  simp only [step] at hstep
  cases hr : s.streams[j]? with
  | none => simp [hr] at hstep
  | some r =>
      cases hphase : r.phase with
      | ended running => simp [hr, hphase] at hstep
      | left => simp [hr, hphase] at hstep
      | streaming =>
          cases hhand : r.hand with
          | none => simp [hr, hphase, hhand] at hstep
          | some frame =>
              simp only [hr, hphase, hhand, Option.some.injEq] at hstep
              exact ⟨r, frame, rfl, hphase, hhand, hstep.symm⟩

theorem inv_begin (h : s.Inv) (key op name : String) :
    Inv { s with operations := s.operations ++ [{ key := key, op := op, name := name }] } := by
  refine ⟨h.aligned, h.last, fun j r sub hhas => (h.streams j r sub hhas).mono ?_⟩
  rintro i ⟨o, ho, hdone⟩
  refine ⟨o, ?_, hdone⟩
  show (s.operations ++ _)[i]? = some o
  rw [List.getElem?_append_left (List.getElem?_eq_some_iff.mp ho).1]
  exact ho

theorem inv_progress (h : s.Inv) {i : Nat} {op : ProgressOperation} (hop : s.operations[i]? = some op)
    (hrunning : op.running = true) (percent : Rat) : (s.progress i op percent).Inv := by
  unfold progress
  split_ifs
  swap
  · exact h
  refine ⟨?_, fun key frame => last_publish h _ _ key frame, fun j r sub' hhas => ?_⟩
  · show s.streams.length = (s.broker.subs.map _).length
    rw [List.length_map]
    exact h.aligned
  · obtain ⟨sub, hsub, rfl⟩ : ∃ sub, s.broker.subs[j]? = some sub ∧ ProgressSub.offer _ _ sub = sub' := by
      simpa [OperationProgressBroker.publish] using hhas.2
    have hok := (h.streams j r sub ⟨hhas.1, hsub⟩).mono (finished_set hop hrunning { op with lastPct := percent })
    exact hok.of_frames (fun hphase => ProgressSub.offer_registered.trans (hok.registered hphase))
      ProgressSub.offer_key fun _ => ProgressSub.offer_notDone rfl

theorem inv_subscribe (h : s.Inv) (key : String) : Inv { s with
    broker := s.broker.subscribe key
    streams := s.streams ++ [{ key := key }] } := by
  refine ⟨?_, h.last, fun j r sub hhas => ?_⟩
  · show (s.streams ++ _).length = (s.broker.subs ++ _).length
    rw [List.length_append, List.length_append, h.aligned]
    rfl
  · obtain ⟨hr, hsub⟩ := hhas
    replace hr : (s.streams ++ [{ key := key }])[j]? = some r := hr
    replace hsub : (s.broker.subs ++ [{ key := key, ch := (s.broker.last.get? key).toList }])[j]? = some sub := hsub
    by_cases hj : j < s.streams.length
    · rw [List.getElem?_append_left hj] at hr
      rw [List.getElem?_append_left (h.aligned ▸ hj)] at hsub
      exact h.streams j r sub ⟨hr, hsub⟩
    · rw [List.getElem?_append_right (by omega), List.getElem?_singleton] at hr
      rw [List.getElem?_append_right (by have := h.aligned; omega), List.getElem?_singleton] at hsub
      split_ifs at hr hsub
      obtain rfl := Option.some.inj hr
      obtain rfl := Option.some.inj hsub
      have hnone : doneIn (s.broker.last.get? key).toList = [] := by
        cases hlast : s.broker.last.get? key with
        | none => rfl
        | some frame => exact doneIn_notDone (h.last key frame hlast)
      exact ⟨fun _ => rfl, rfl, fun _ => hnone, List.nodup_nil, fun i hi => absurd hi List.not_mem_nil,
        fun i hi => absurd hi List.not_mem_nil⟩

/-- One stream and its channel change. -/
theorem inv_set (h : s.Inv) {j : Nat} {r r' : ProgressStream} {sub sub' : ProgressSub} (hhas : s.Has j r sub)
    {subs : List ProgressSub} (hsubs : subs = s.broker.subs.set j sub') (hok : StreamOK s.operations r' sub') :
    Inv { s with broker := { s.broker with subs := subs }, streams := s.streams.set j r' } := by
  subst hsubs
  refine ⟨?_, h.last, fun k q u hk => ?_⟩
  · show (s.streams.set j r').length = (s.broker.subs.set j sub').length
    rw [List.length_set, List.length_set]
    exact h.aligned
  · obtain ⟨hq, hu⟩ := hk
    by_cases hjk : j = k
    · subst hjk
      have hj : j < s.streams.length := (List.getElem?_eq_some_iff.mp hhas.1).1
      rw [List.getElem?_set_self hj] at hq
      rw [List.getElem?_set_self (h.aligned ▸ hj)] at hu
      obtain rfl := Option.some.inj hq
      obtain rfl := Option.some.inj hu
      exact hok
    · rw [List.getElem?_set_ne hjk] at hq hu
      exact h.streams k q u ⟨hq, hu⟩

theorem modify_eq_set {j : Nat} {sub : ProgressSub} (hsub : s.broker.subs[j]? = some sub)
    (f : ProgressSub → ProgressSub) : s.broker.subs.modify j f = s.broker.subs.set j (f sub) := by
  rw [List.modify_eq_set_getElem?, hsub]
  rfl

theorem has_of_stream (h : s.Inv) {j : Nat} {r : ProgressStream} (hr : s.streams[j]? = some r) :
    ∃ sub, s.Has j r sub := by
  have hj : j < s.streams.length := (List.getElem?_eq_some_iff.mp hr).1
  have hsub : j < s.broker.subs.length := h.aligned ▸ hj
  exact ⟨s.broker.subs[j], hr, List.getElem?_eq_getElem hsub⟩

/-- A stream when an operation on its VM comes to its end. -/
def whenFinished (i : Nat) (key : String) (r : ProgressStream) : ProgressStream :=
  if r.phase = .streaming ∧ r.key = key then { r with owed := r.owed ++ [i] } else r

theorem has_finish {i j : Nat} {op : ProgressOperation} {r' : ProgressStream} {sub' : ProgressSub}
    (hhas : (s.finish i op).Has j r' sub') : ∃ r sub, s.Has j r sub ∧ r' = whenFinished i op.key r ∧
      sub' = sub.offer op.key ⟨{ op := op.op, name := op.name, done := true }, i⟩ := by
  obtain ⟨hr, hsub⟩ := hhas
  replace hr : (s.streams.map (whenFinished i op.key))[j]? = some r' := hr
  replace hsub : (s.broker.subs.map _)[j]? = some sub' := hsub
  rw [List.getElem?_map, Option.map_eq_some_iff] at hr hsub
  obtain ⟨r, hr, rfl⟩ := hr
  obtain ⟨sub, hsub, rfl⟩ := hsub
  exact ⟨r, sub, ⟨hr, hsub⟩, rfl, rfl⟩

theorem finish_has (i : Nat) (op : ProgressOperation) {j : Nat} (hhas : s.Has j r sub) :
    (s.finish i op).Has j (whenFinished i op.key r)
      (sub.offer op.key ⟨{ op := op.op, name := op.name, done := true }, i⟩) := by
  refine ⟨?_, ?_⟩
  · show (s.streams.map (whenFinished i op.key))[j]? = _
    rw [List.getElem?_map, hhas.1]
    rfl
  · show (s.broker.subs.map _)[j]? = _
    rw [List.getElem?_map, hhas.2]
    rfl

theorem not_owed (h : s.Inv) {i j : Nat} {op : ProgressOperation} (hop : s.operations[i]? = some op)
    (hrunning : op.running = true) (hhas : s.Has j r sub) : i ∉ r.owed := by
  intro hi
  obtain ⟨o, ho, hdone⟩ := (h.streams j r sub hhas).finished i hi
  obtain rfl := Option.some.inj (hop.symm.trans ho)
  rw [hrunning] at hdone
  simp at hdone

theorem inv_finish (h : s.Inv) {i : Nat} {op : ProgressOperation} (hop : s.operations[i]? = some op)
    (hrunning : op.running = true) (hmeets : s.meets (.finish i) = true) : (s.finish i op).Inv := by
  have hmono := finished_set hop hrunning { op with running := false }
  refine ⟨?_, fun key frame => last_publish h _ _ key frame, fun j r' sub' hafter => ?_⟩
  · show (s.streams.map _).length = (s.broker.subs.map _).length
    rw [List.length_map, List.length_map]
    exact h.aligned
  obtain ⟨r, sub, hhas, rfl, rfl⟩ := has_finish hafter
  have hok := h.streams j r sub hhas
  have hmoved : StreamOK (s.finish i op).operations r sub := hok.mono hmono
  unfold whenFinished
  split_ifs with hstream
  · have hregistered := hok.registered hstream.1
    have hroom := (meets_finish hop).mp hmeets j r sub hhas hstream.1 hstream.2
    have hch := @ProgressSub.offer_room _ ⟨{ op := op.op, name := op.name, done := true }, i⟩ _
      hregistered (hok.key.trans hstream.2) hroom
    have hframes : doneIn (r.written ++ r.hand.toList ++ (sub.ch ++
        [⟨{ op := op.op, name := op.name, done := true }, i⟩])) = r.owed ++ [i] := by
      rw [← List.append_assoc, doneIn_append, hok.frames hstream.1, doneIn_done rfl]
    refine ⟨fun _ => ProgressSub.offer_registered.trans hregistered, ProgressSub.offer_key.trans hok.key,
      fun _ => hch ▸ hframes, ?_, fun k hk => ?_, ?_⟩
    · exact List.nodup_append.mpr ⟨hok.nodup, List.pairwise_singleton _ _, fun a ha b hb hab =>
        not_owed h hop hrunning hhas (List.mem_singleton.mp hb ▸ hab ▸ ha)⟩
    · rcases List.mem_append.mp hk with hk | hk
      · exact hmoved.finished k hk
      · rw [List.mem_singleton.mp hk]
        exact ⟨_, List.getElem?_set_self (List.getElem?_eq_some_iff.mp hop).1, rfl⟩
    · exact StreamOK.told_of_frames (r := { r with owed := r.owed ++ [i] }) hstream.1 (hch ▸ hframes)
  · refine hmoved.of_frames (fun hphase => ProgressSub.offer_registered.trans (hok.registered hphase))
      ProgressSub.offer_key fun hphase => ?_
    rw [ProgressSub.offer_other fun hkey => hstream ⟨hphase, hok.key.symm.trans hkey⟩]

theorem meets_of_told_finish (h : s.Inv) {i : Nat} {op : ProgressOperation} (hop : s.operations[i]? = some op)
    (hrunning : op.running = true) (htold : (s.finish i op).Told) : s.meets (.finish i) = true := by
  refine (meets_finish hop).mpr fun j r sub hhas hphase hkey => ?_
  by_contra hfull
  have htold := htold j _ _ (finish_has i op hhas)
  rw [ProgressSub.offer_full hfull, whenFinished, if_pos ⟨hphase, hkey⟩] at htold
  have hi := (told_streaming (r := { r with owed := r.owed ++ [i] }) hphase).mp htold i
    (List.mem_append_right _ (List.mem_singleton.mpr rfl))
  rw [(h.streams j r sub hhas).frames hphase] at hi
  exact not_owed h hop hrunning hhas hi

theorem inv_write (h : s.Inv) {j : Nat} {frame : ProgressFrame} (hhas : s.Has j r sub)
    (hphase : r.phase = .streaming) (hhand : r.hand = some frame) (hmeets : s.meets (.write j) = true) :
    (s.write j r frame).Inv := by
  have hok := h.streams j r sub hhas
  have hframes := hok.frames hphase
  rw [hhand, Option.toList_some] at hframes
  have hsub : s.broker.subs = s.broker.subs.set j sub := by
    obtain ⟨hj, rfl⟩ := List.getElem?_eq_some_iff.mp hhas.2
    rw [List.set_getElem_self]
  refine inv_set h hhas hsub ?_
  cases hdone : frame.msg.done with
  | false =>
      have hsame : doneIn (r.written ++ [frame] ++ [] ++ sub.ch) = r.owed := by
        rw [List.append_nil]
        exact hframes
      exact ⟨fun _ => hok.registered hphase, hok.key, fun _ => hsame, hok.nodup, hok.finished,
        @StreamOK.told_of_frames sub _ rfl hsame⟩
  | true =>
      obtain ⟨hnone, hlast⟩ := (meets_write hhas hhand).mp hmeets hdone
      refine ⟨fun hp => by simp at hp, hok.key, fun hp => by simp at hp, hok.nodup, hok.finished, ?_, hnone⟩
      intro i hi
      rw [← hframes, doneIn_append, hlast, List.append_nil] at hi
      exact hi

theorem meets_of_told_write (h : s.Inv) {j : Nat} {frame : ProgressFrame} (hhas : s.Has j r sub)
    (hphase : r.phase = .streaming) (hhand : r.hand = some frame) (htold : (s.write j r frame).Told) :
    s.meets (.write j) = true := by
  refine (meets_write hhas hhand).mpr fun hdone => ?_
  have hok := h.streams j r sub hhas
  have hframes := hok.frames hphase
  have hnodup := hok.nodup
  rw [hhand, Option.toList_some, doneIn_append] at hframes
  have hj : j < s.streams.length := (List.getElem?_eq_some_iff.mp hhas.1).1
  obtain ⟨howed, hnone⟩ : (∀ i ∈ r.owed, i ∈ doneIn (r.written ++ [frame])) ∧ s.running r.key = [] := by
    have := htold j _ sub ⟨List.getElem?_set_self hj, hhas.2⟩
    simp only [ProgressStream.Told, hdone, if_true] at this
    exact this
  refine ⟨hnone, List.eq_nil_iff_forall_not_mem.mpr fun i hi => ?_⟩
  rw [← hframes] at hnodup howed
  exact (List.nodup_append.mp hnodup).2.2 i (howed i (List.mem_append_right _ hi)) i hi rfl

theorem inv_take (h : s.Inv) {j : Nat} {frame : ProgressFrame} {rest : List ProgressFrame} (hhas : s.Has j r sub)
    (hphase : r.phase = .streaming) (hhand : r.hand = none) (hch : sub.ch = frame :: rest) :
    Inv { s with
      broker := { s.broker with subs := s.broker.subs.modify j fun sub => { sub with ch := rest } }
      streams := s.streams.set j { r with hand := some frame } } := by
  have hok := h.streams j r sub hhas
  have hframes := hok.frames hphase
  rw [hhand, hch, Option.toList_none, List.append_nil] at hframes
  have hsame : doneIn (r.written ++ [frame] ++ rest) = r.owed := by
    rw [List.append_assoc, List.singleton_append]
    exact hframes
  exact inv_set h hhas (modify_eq_set hhas.2 _) ⟨fun _ => hok.registered hphase, hok.key, fun _ => hsame,
    hok.nodup, hok.finished,
    @StreamOK.told_of_frames { sub with ch := rest } { r with hand := some frame } hphase hsame⟩

theorem inv_leave (h : s.Inv) {j : Nat} (hhas : s.Has j r sub) :
    Inv { s with streams := s.streams.set j { r with phase := .left } } := by
  have hok := h.streams j r sub hhas
  have hsub : s.broker.subs = s.broker.subs.set j sub := by
    obtain ⟨hj, rfl⟩ := List.getElem?_eq_some_iff.mp hhas.2
    rw [List.set_getElem_self]
  exact inv_set h hhas hsub ⟨fun hp => by simp at hp, hok.key, fun hp => by simp at hp, hok.nodup,
    hok.finished, trivial⟩

theorem inv_cancel (h : s.Inv) {j : Nat} (hhas : s.Has j r sub) (hphase : r.phase ≠ .streaming) :
    Inv { s with broker := s.broker.cancel j } := by
  have hstream : s.streams = s.streams.set j r := by
    obtain ⟨hj, rfl⟩ := List.getElem?_eq_some_iff.mp hhas.1
    rw [List.set_getElem_self]
  have hok : StreamOK s.operations r { sub with registered := false } :=
    (h.streams j r sub hhas).of_frames (fun hp => absurd hp hphase) rfl fun _ => rfl
  have hset := inv_set h hhas (modify_eq_set hhas.2 fun sub => { sub with registered := false }) hok
  rw [← hstream] at hset
  exact hset

/-- **A step that meets the condition keeps the invariant.** -/
theorem inv_step (h : s.Inv) {l : ProgressLabel} (hmeets : s.meets l = true) (hstep : s.step l = some s') :
    s'.Inv := by
  cases l with
  | begin key op name =>
      obtain rfl := Option.some.inj hstep
      exact inv_begin h key op name
  | progress i percent =>
      simp only [step] at hstep
      cases hop : s.operations[i]? with
      | none => simp [hop] at hstep
      | some op =>
          simp only [hop, Option.ite_none_right_eq_some, Option.some.injEq] at hstep
          obtain ⟨hrunning, rfl⟩ := hstep
          exact inv_progress h hop hrunning percent
  | finish i =>
      simp only [step] at hstep
      cases hop : s.operations[i]? with
      | none => simp [hop] at hstep
      | some op =>
          simp only [hop, Option.ite_none_right_eq_some, Option.some.injEq] at hstep
          obtain ⟨hrunning, rfl⟩ := hstep
          exact inv_finish h hop hrunning hmeets
  | subscribe key =>
      obtain rfl := Option.some.inj hstep
      exact inv_subscribe h key
  | take j =>
      obtain ⟨r, sub, frame, rest, hhas, hch, hphase, hhand, rfl⟩ := step_take hstep
      exact inv_take h hhas hphase hhand hch
  | write j =>
      obtain ⟨r, frame, hr, hphase, hhand, rfl⟩ := step_write hstep
      obtain ⟨sub, hhas⟩ := has_of_stream h hr
      exact inv_write h hhas hphase hhand hmeets
  | leave j =>
      simp only [step] at hstep
      cases hr : s.streams[j]? with
      | none => simp [hr] at hstep
      | some r =>
          simp only [hr, Option.ite_none_right_eq_some, Option.some.injEq] at hstep
          obtain ⟨-, rfl⟩ := hstep
          obtain ⟨sub, hhas⟩ := has_of_stream h hr
          exact inv_leave h hhas
  | cancel j =>
      simp only [step] at hstep
      cases hr : s.streams[j]? with
      | none => simp [hr] at hstep
      | some r =>
          simp only [hr, Option.ite_none_left_eq_some, Option.some.injEq] at hstep
          obtain ⟨hphase, rfl⟩ := hstep
          obtain ⟨sub, hhas⟩ := has_of_stream h hr
          exact inv_cancel h hhas hphase

theorem told_of_inv (h : s.Inv) : s.Told :=
  fun j r sub hhas => (h.streams j r sub hhas).told

/-- **After a step everyone is told just when the step met the condition.** -/
theorem told_iff_meets (h : s.Inv) {l : ProgressLabel} (hstep : s.step l = some s') : s'.Told ↔ s.meets l = true := by
  refine ⟨fun htold => ?_, fun hmeets => told_of_inv (inv_step h hmeets hstep)⟩
  cases l with
  | finish i =>
      simp only [step] at hstep
      cases hop : s.operations[i]? with
      | none => simp [hop] at hstep
      | some op =>
          simp only [hop, Option.ite_none_right_eq_some, Option.some.injEq] at hstep
          obtain ⟨hrunning, rfl⟩ := hstep
          exact meets_of_told_finish h hop hrunning htold
  | write j =>
      obtain ⟨r, frame, hr, hphase, hhand, rfl⟩ := step_write hstep
      obtain ⟨sub, hhas⟩ := has_of_stream h hr
      exact meets_of_told_write h hhas hphase hhand htold
  | _ => rfl

theorem inv_init : Inv {} :=
  ⟨rfl, fun key frame hget => by simp at hget, fun j r sub hhas => by simp [Has] at hhas⟩

/-- **A run keeps its streams told just when each of its steps meets the condition.** -/
theorem streams_told (ls : List ProgressLabel) (s : ProgressSys) (hrun : Run.exec step {} ls = some s) :
    Run.Guarded step (fun s l => s.meets l = true) {} ls ↔
      ∀ ms u, ms <+: ls → Run.exec step {} ms = some u → u.Told :=
  Run.guarded_iff_always (fun _ _ _ hinv hstep => told_iff_meets hinv hstep)
    (fun _ _ _ hinv hmeets hstep => inv_step hinv hmeets hstep) ls {} s inv_init (told_of_inv inv_init) hrun

/-- A clone of a VM that is watched by a stream with time to spare. -/
def watchedClone : List ProgressLabel :=
  [.begin "vm-1" "clone" "copy", .subscribe "vm-1", .progress 0 0, .take 0, .write 0, .progress 0 50, .finish 0,
    .take 0, .write 0, .take 0, .write 0, .cancel 0]

theorem streams_told_clone : ∃ s, Run.exec step {} watchedClone = some s ∧ s.Told := by
  have hruns : (Run.exec step {} watchedClone).isSome = true := by decide +kernel
  obtain ⟨s, hrun⟩ := Option.isSome_iff_exists.mp hruns
  refine ⟨s, hrun, (streams_told watchedClone s hrun).mp ?_ watchedClone s List.prefix_rfl hrun⟩
  decide +kernel

/-- Eight frames that nobody reads, and the operation's end. -/
def unreadClone : List ProgressLabel :=
  [.begin "vm-1" "clone" "copy", .subscribe "vm-1", .progress 0 0, .progress 0 1, .progress 0 2, .progress 0 3,
    .progress 0 4, .progress 0 5, .progress 0 6, .progress 0 7, .finish 0]

/-- A clone and an export of one VM: the clone ends first. -/
def cloneAndExport : List ProgressLabel :=
  [.begin "vm-1" "clone" "copy", .begin "vm-1" "export" "image", .subscribe "vm-1", .finish 0, .take 0, .write 0]

/-- A client that does not read while eight frames are published misses the one that says done, and
of two operations on one VM the first to end ends the stream. -/
theorem streams_told_not_always :
    ¬ (∀ ls s, Run.exec step {} ls = some s → s.Told) ∧
    (∃ s, Run.exec step {} unreadClone = some s ∧ ¬ s.Told) ∧
    ∃ s, Run.exec step {} cloneAndExport = some s ∧ ¬ s.Told := by
  have hunread : ∃ s, Run.exec step {} unreadClone = some s ∧ ¬ s.Told := by
    have h : (Run.exec step {} unreadClone).any (fun s => !s.Told) = true := by decide +kernel
    simpa [Option.any_eq_true] using h
  have hboth : ∃ s, Run.exec step {} cloneAndExport = some s ∧ ¬ s.Told := by
    have h : (Run.exec step {} cloneAndExport).any (fun s => !s.Told) = true := by decide +kernel
    simpa [Option.any_eq_true] using h
  refine ⟨fun h => ?_, hunread, hboth⟩
  obtain ⟨s, hrun, hnot⟩ := hunread
  exact hnot (h unreadClone s hrun)

end ProgressSys

end Api

end VMSmith
