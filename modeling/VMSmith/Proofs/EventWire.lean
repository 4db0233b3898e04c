/-
Following the events over connections that break.

A frame ends with an empty line and has none before, so whatever a body was cut down to, the
reader comes to exactly the frames that have arrived whole (`readFrames_cut`), and the last
one's number is what it asks on from.  The server goes on behind that number, so what is
printed over any number of connections is one stretch of the history, with nothing left out
and nothing twice (`follow_prints`).

An event's JSON is what makes this work: control characters are escaped in it, so that it
stands on one line, whatever is in the event's texts.
-/
import VMSmith.Events.Wire
import VMSmith.Lib.JsonLine

namespace VMSmith.Wire

open Go

section

variable (formatTime : Nat → String)

/-! ### One frame -/

/-- An event that the bus has numbered, with a type on one line and no more in it than a line
may have. -/
structure Framed (evt : Event) : Prop where
  number : ∃ n : Nat, evt.id = toString n
  type : ∀ c ∈ evt.type.toList, c ≠ '\n' ∧ c ≠ '\r'
  fits : (utf8 evt.id.toList).length + 7 < maxToken ∧ (utf8 evt.type.toList).length + 7 < maxToken ∧
    (marshalEvent formatTime evt).length + 6 < maxToken

theorem numberless_textField {name text : String} {omitEmpty : Bool} {rest : Json.Pairs}
    (h : rest.numberless = true) : (textField name omitEmpty text rest).numberless = true := by
  unfold textField
  split
  · exact h
  · exact h

theorem numberless_textMap (entries : List (String × String)) :
    (textMap entries).numberless = true := by
  unfold textMap
  generalize entries.mergeSort _ = sorted
  induction sorted with
  | nil => rfl
  | cons entry sorted ih => exact ih

theorem numberless_eventFields (evt : Event) : (eventFields formatTime evt).numberless = true := by
  unfold eventFields
  repeat' apply numberless_textField
  split
  · repeat' apply numberless_textField
    rfl
  · rw [Json.Pairs.numberless, Json.Value.numberless, numberless_textMap]
    repeat' apply numberless_textField
    rfl

theorem marshalEvent_ge {evt : Event} {b : UInt8} (hb : b ∈ marshalEvent formatTime evt) :
    0x20 ≤ b.toNat :=
  Json.Value.marshal_ge id (v := .object (eventFields formatTime evt))
    (numberless_eventFields formatTime evt) hb

theorem solid_marshalEvent (evt : Event) : Solid (marshalEvent formatTime evt) where
  first := ⟨0x7B, (eventFields formatTime evt).marshal id ++ [0x7D], rfl, by decide, by decide⟩
  last := ⟨0x7B :: (eventFields formatTime evt).marshal id, 0x7D, rfl, by decide, by decide⟩

/-! ### Numbers -/

theorem digit_code {n : Nat} {c : Char} (hc : c ∈ (toString n).toList) :
    48 ≤ c.toNat ∧ c.toNat ≤ 57 := by
  have hlist : (toString n).toList = Nat.toDigits 10 n := Nat.toList_repr
  rw [hlist] at hc
  have hdigit := Nat.isDigit_of_mem_toDigits (by decide) (by decide) hc
  simpa [Char.isDigit, UInt32.le_iff_toNat_le] using hdigit

theorem utf8_number (n : Nat) : utf8 (toString n).toList = ascii (toString n) :=
  utf8_ascii fun c hc => by
    have h := digit_code hc
    omega

theorem mem_number {n : Nat} {b : UInt8} (hb : b ∈ ascii (toString n)) :
    48 ≤ b.toNat ∧ b.toNat ≤ 57 := by
  obtain ⟨c, hc, rfl⟩ := List.mem_map.mp hb
  have h := digit_code hc
  rw [Nat.toUInt8_eq, UInt8.toNat_ofNat']
  omega

theorem number_ne_nil (n : Nat) : ascii (toString n) ≠ [] := by
  have hlist : (toString n).toList = Nat.toDigits 10 n := Nat.toList_repr
  rw [ascii, hlist, Ne, List.map_eq_nil_iff]
  exact Nat.toDigits_ne_nil

theorem blankByte_digit {b : UInt8} (h : 48 ≤ b.toNat ∧ b.toNat ≤ 57) : blankByte b = false := by
  have hcode : (Char.ofNat b.toNat).toNat = b.toNat :=
    toNat_charOfNat (Or.inl (by omega))
  unfold blankByte isSpace
  rw [hcode]
  simp
  omega

theorem solid_number (n : Nat) : Solid (ascii (toString n)) := by
  have hall : ∀ b ∈ ascii (toString n), b < 0x80 ∧ blankByte b = false := by
    intro b hb
    have h := mem_number hb
    refine ⟨?_, blankByte_digit h⟩
    rw [UInt8.lt_iff_toNat_lt]
    exact lt_of_le_of_lt h.2 (by decide)
  refine ⟨?_, ?_⟩
  · obtain ⟨b, t, h⟩ := List.exists_cons_of_ne_nil (number_ne_nil n)
    exact ⟨b, t, h, hall b (by rw [h]; exact List.mem_cons_self)⟩
  · obtain ⟨t, b, h⟩ := (List.eq_nil_or_concat' _).resolve_left (number_ne_nil n)
    exact ⟨t, b, h, hall b (by rw [h]; simp)⟩

/-! ### The lines of a frame -/

/-- The lines before the empty one. -/
def Item.lines : Item → List Bytes
  | event evt =>
    [ascii "id: " ++ utf8 evt.id.toList, ascii "event: " ++ utf8 evt.type.toList,
      ascii "data: " ++ marshalEvent formatTime evt]
  | heartbeat => [ascii ": keepalive"]

def Item.frame : Item → List (Bytes × Bytes)
  | event evt => [(utf8 evt.id.toList, marshalEvent formatTime evt)]
  | heartbeat => []

def Item.Framed (it : Item) : Prop := ∀ evt ∈ it.event?, Wire.Framed formatTime evt

variable {formatTime}

theorem Framed.id_eq {evt : Event} (h : Framed formatTime evt) :
    ∃ n : Nat, utf8 evt.id.toList = ascii (toString n) ∧ evt.id = toString n := by
  obtain ⟨n, hn⟩ := h.number
  exact ⟨n, by rw [hn, utf8_number], hn⟩

theorem Framed.id_ne_nil {evt : Event} (h : Framed formatTime evt) : utf8 evt.id.toList ≠ [] := by
  obtain ⟨n, hn, _⟩ := h.id_eq
  rw [hn]
  exact number_ne_nil n

theorem Item.text_eq {it : Item} (h : it.Framed formatTime) :
    it.text formatTime = joinLines (it.lines formatTime) ++ [0x0A] := by
  cases it with
  | heartbeat => rfl
  | event evt =>
      have hid := (h evt rfl).id_ne_nil
      simp [Item.text, eventFrame, writeEvent, hid, Item.lines, joinLines]

theorem Item.isLine {it : Item} (h : it.Framed formatTime) :
    ∀ l ∈ it.lines formatTime, IsLine maxToken l := by
  intro l hl
  cases it with
  | heartbeat =>
      obtain rfl := List.mem_singleton.mp hl
      exact ⟨by decide, by decide, by decide⟩
  | event evt =>
      have hevt := h evt rfl
      have hplain : ∀ {start : String} {s : Bytes}, (∀ b ∈ ascii start, 0x20 ≤ b.toNat) →
          (∀ b ∈ s, b ≠ 0x0A ∧ b ≠ 0x0D) → (ascii start).length + s.length < maxToken →
          IsLine maxToken (ascii start ++ s) := by
        intro start s hstart hs hlength
        have hmem : ∀ b : UInt8, b.toNat < 0x20 → b ∈ ascii start ++ s → b ∈ s := by
          intro b hb hmem
          rcases List.mem_append.mp hmem with hmem | hmem
          · exact absurd (hstart b hmem) (by omega)
          · exact hmem
        exact {
          unbroken := fun hb => (hs _ (hmem _ (by decide) hb)).1 rfl
          whole := fun hb => (hs _ (hmem _ (by decide) hb)).2 rfl
          fits := by rwa [List.length_append] }
      simp only [Item.lines, List.mem_cons, List.not_mem_nil, or_false] at hl
      rcases hl with rfl | rfl | rfl
      · obtain ⟨n, hn, _⟩ := hevt.id_eq
        refine hplain (by decide +kernel) ?_ ?_
        · intro b hb
          rw [hn] at hb
          have hdigit := mem_number hb
          constructor <;> rintro rfl <;> simp at hdigit
        · have hlength : (ascii "id: ").length = 4 := by decide
          have hfits := hevt.fits.1
          omega
      · refine hplain (by decide +kernel) ?_ ?_
        · intro b hb
          obtain ⟨c, hc, hbc⟩ := List.mem_flatMap.mp hb
          have htype := hevt.type c hc
          constructor
          · rintro rfl
            exact htype.1 (Char.toNat_inj.mp (eq_of_mem_utf8EncodeChar hbc (by decide)))
          · rintro rfl
            exact htype.2 (Char.toNat_inj.mp (eq_of_mem_utf8EncodeChar hbc (by decide)))
        · have hlength : (ascii "event: ").length = 7 := by decide
          have hfits := hevt.fits.2.1
          omega
      · refine hplain (by decide +kernel) ?_ ?_
        · intro b hb
          have hge := marshalEvent_ge formatTime hb
          constructor <;> rintro rfl <;> simp at hge
        · have hlength : (ascii "data: ").length = 6 := by decide
          have hfits := hevt.fits.2.2
          omega

/-- No line of a frame is empty, or only a carriage return. -/
theorem Item.lines_visible (it : Item) :
    ∀ l ∈ it.lines formatTime, ∃ b t, l = b :: t ∧ b ≠ 0x0D := by
  intro l hl
  cases it with
  | heartbeat =>
      obtain rfl := List.mem_singleton.mp hl
      exact ⟨_, _, rfl, by decide⟩
  | event evt =>
      simp only [Item.lines, List.mem_cons, List.not_mem_nil, or_false] at hl
      rcases hl with rfl | rfl | rfl <;> exact ⟨_, _, rfl, by decide⟩

/-! ### Reading a frame -/

theorem line_id (st : Parser) {id : Bytes} (h : Solid id) :
    st.line (ascii "id: " ++ id) = { st with frameID := id } := by
  have hdrop : (ascii "id: " ++ id).drop 3 = 0x20 :: id := rfl
  rw [Parser.line, if_neg (by simp [ascii]), if_neg (by simp +decide [ascii]),
    if_pos (by simp +decide [ascii]), hdrop, trimBytes_space h]

theorem line_event (st : Parser) (type : Bytes) : st.line (ascii "event: " ++ type) = st := by
  rw [Parser.line, if_neg (by simp [ascii]), if_neg (by simp +decide [ascii]),
    if_neg (by simp +decide [ascii]), if_pos (by simp +decide [ascii])]

theorem line_data (st : Parser) {data : Bytes} (h : Solid data) :
    st.line (ascii "data: " ++ data) = { st with dataLines := st.dataLines ++ [data] } := by
  have hdrop : (ascii "data: " ++ data).drop 5 = 0x20 :: data := rfl
  rw [Parser.line, if_neg (by simp [ascii]), if_neg (by simp +decide [ascii]),
    if_neg (by simp +decide [ascii]), if_neg (by simp +decide [ascii]),
    if_pos (by simp +decide [ascii]), hdrop, trimBytes_space h]

/-- A whole frame adds what is in it. -/
theorem foldl_lines {it : Item} (h : it.Framed formatTime) (frames : List (Bytes × Bytes)) :
    (it.lines formatTime ++ [[]]).foldl Parser.line { frames } =
      { frames := frames ++ it.frame formatTime } := by
  cases it with
  | heartbeat =>
      have hcomment : Parser.line { frames } (ascii ": keepalive") = { frames } := by
        rw [Parser.line, if_neg (by decide), if_pos (by decide)]
      show Parser.line (Parser.line { frames } (ascii ": keepalive")) [] = _
      rw [hcomment, Item.frame, List.append_nil]
      rfl
  | event evt =>
      obtain ⟨n, hn, _⟩ := (h evt rfl).id_eq
      have hsolid : Solid (utf8 evt.id.toList) := by
        rw [hn]
        exact solid_number n
      show Parser.line (Parser.line (Parser.line (Parser.line { frames } _) _) _) [] = _
      rw [line_id _ hsolid, line_event, line_data _ (solid_marshalEvent formatTime evt)]
      simp [Parser.line, Item.frame]

/-- Without an empty line nothing is added. -/
theorem frames_foldl {ls : List Bytes} (h : [] ∉ ls) (st : Parser) :
    (ls.foldl Parser.line st).frames = st.frames := by
  induction ls generalizing st with
  | nil => rfl
  | cons l ls ih =>
      rw [List.mem_cons, not_or] at h
      rw [List.foldl_cons, ih h.2, Parser.line, if_neg (Ne.symm h.1)]
      split_ifs <;> rfl

/-! ### A body that breaks off -/

variable (formatTime) in
/-- The items that have arrived whole in so many bytes. -/
def whole : List Item → Nat → List Item
  | [], _ => []
  | it :: items, room =>
    if (it.text formatTime).length ≤ room then
      it :: whole items (room - (it.text formatTime).length)
    else []

variable (formatTime) in
theorem whole_initial (items : List Item) (room : Nat) : whole formatTime items room <+: items := by
  induction items generalizing room with
  | nil => exact List.prefix_rfl
  | cons it items ih =>
      unfold whole
      split
      · exact (List.prefix_cons_inj it).mpr (ih _)
      · exact List.nil_prefix

theorem scan_cut {items : List Item} (h : ∀ it ∈ items, it.Framed formatTime) {body : Bytes}
    (hbody : body <+: write formatTime items) (frames : List (Bytes × Bytes)) :
    ((scanLines maxToken [] body).1.foldl Parser.line { frames }).frames =
      frames ++ (whole formatTime items body.length).flatMap (Item.frame formatTime) := by
  induction items generalizing body frames with
  | nil =>
      obtain rfl := List.prefix_nil.mp hbody
      exact (List.append_nil frames).symm
  | cons it items ih =>
      have hit := h it List.mem_cons_self
      have hwrite : write formatTime (it :: items) = it.text formatTime ++ write formatTime items :=
        List.flatMap_cons
      rw [hwrite] at hbody
      by_cases hlength : (it.text formatTime).length ≤ body.length
      · -- the frame is there, and the rest is read after it
        obtain ⟨rest, rfl⟩ := List.prefix_of_prefix_length_le (List.prefix_append _ _) hbody hlength
        rw [List.prefix_append_right_inj] at hbody
        have hempty : IsLine maxToken [] := ⟨by simp, by simp, by decide⟩
        have hlines : ∀ l ∈ it.lines formatTime ++ [[]], IsLine maxToken l := by
          intro l hl
          rcases List.mem_append.mp hl with hl | hl
          · exact Item.isLine hit l hl
          · exact (List.mem_singleton.mp hl) ▸ hempty
        have htext : it.text formatTime ++ rest =
            joinLines (it.lines formatTime ++ [[]]) ++ rest := by
          rw [Item.text_eq hit, joinLines_append]
          rfl
        rw [whole, if_pos hlength, List.flatMap_cons, htext, scanLines_joinLines hlines,
          List.foldl_append, foldl_lines hit,
          ih (fun it' hit' => h it' (List.mem_cons_of_mem it hit')) hbody, List.append_assoc,
          ← htext, List.length_append, Nat.add_sub_cancel_left]
      · -- the body breaks off in the frame
        have hcut : body <+: joinLines (it.lines formatTime) := by
          rw [Item.text_eq hit] at hbody hlength
          refine List.prefix_of_prefix_length_le hbody
            ((List.prefix_append _ _).trans (List.prefix_append _ _)) ?_
          rw [List.length_append, List.length_singleton] at hlength
          omega
        rw [whole, if_neg hlength, frames_foldl
          (scanLines_cut (Item.isLine hit) it.lines_visible hcut).1]
        exact (List.append_nil frames).symm

/-- Of a body that breaks off anywhere, the frames that have arrived whole are read. -/
theorem readFrames_cut {items : List Item} (h : ∀ it ∈ items, it.Framed formatTime) {body : Bytes}
    (hbody : body <+: write formatTime items) :
    readFrames body = (whole formatTime items body.length).flatMap (Item.frame formatTime) :=
  (scan_cut h hbody []).trans (List.nil_append _)

/-! ### One connection -/

variable {unmarshal : Bytes → Option Event} {shown : Event → Bool}

/-- The event is decoded as it was encoded. -/
def Item.Decoded (unmarshal : Bytes → Option Event) (formatTime : Nat → String) (it : Item) : Prop :=
  ∀ evt ∈ it.event?, unmarshal (marshalEvent formatTime evt) = some evt

/-- The frame of an event is handled as the event. -/
theorem handle_event (c : Follower) {evt : Event} (h : Framed formatTime evt)
    (hjson : unmarshal (marshalEvent formatTime evt) = some evt) :
    c.handle unmarshal shown (utf8 evt.id.toList, marshalEvent formatTime evt) =
      { lastID := utf8 evt.id.toList, printed := c.printed ++ [evt].filter shown } := by
  have hne := h.id_ne_nil
  have hid : ¬ (utf8 evt.id.toList ≠ [] ∧ evt.id = "") := by
    rintro ⟨_, heq⟩
    rw [heq] at hne
    exact hne rfl
  unfold Follower.handle
  rw [hjson]
  dsimp only
  rw [if_neg hne, if_neg hid, List.filter_singleton]
  by_cases hshown : shown evt = true
  · rw [if_pos hshown, hshown]
    rfl
  · rw [if_neg hshown, Bool.eq_false_of_not_eq_true hshown]
    simp

/-- The number of the last event, or the one before. -/
def lastOf (events : List Event) (before : Bytes) : Bytes :=
  (events.getLast?.map fun evt => utf8 evt.id.toList).getD before

theorem lastOf_cons (evt : Event) (events : List Event) (before : Bytes) :
    lastOf (evt :: events) before = lastOf events (utf8 evt.id.toList) := by
  unfold lastOf
  rw [List.getLast?_cons]
  cases events.getLast? with
  | none => rfl
  | some last => rfl

theorem foldl_frames {items : List Item} (h : ∀ it ∈ items, it.Framed formatTime)
    (hjson : ∀ it ∈ items, it.Decoded unmarshal formatTime) (c : Follower) :
    (items.flatMap (Item.frame formatTime)).foldl (Follower.handle unmarshal shown) c =
      { lastID := lastOf (items.filterMap Item.event?) c.lastID,
        printed := c.printed ++ (items.filterMap Item.event?).filter shown } := by
  induction items generalizing c with
  | nil => simp [lastOf]
  | cons it items ih =>
      have hrest := ih (fun it' hit' => h it' (List.mem_cons_of_mem it hit'))
        fun it' hit' => hjson it' (List.mem_cons_of_mem it hit')
      cases it with
      | heartbeat =>
          rw [List.flatMap_cons, Item.frame, List.nil_append, hrest]
          rfl
      | event evt =>
          have hframed := h (.event evt) List.mem_cons_self evt rfl
          have hdecoded := hjson (.event evt) List.mem_cons_self evt rfl
          have hevents : (Item.event evt :: items).filterMap Item.event? =
              evt :: items.filterMap Item.event? := rfl
          rw [List.flatMap_cons, Item.frame, List.singleton_append, List.foldl_cons,
            handle_event c hframed hdecoded, hrest, hevents, lastOf_cons, List.append_assoc,
            ← List.filter_append]
          rfl

/-- What a body adds, wherever it breaks off. -/
theorem read_cut {items : List Item} (h : ∀ it ∈ items, it.Framed formatTime)
    (hjson : ∀ it ∈ items, it.Decoded unmarshal formatTime) {body : Bytes}
    (hbody : body <+: write formatTime items) (c : Follower) :
    c.read unmarshal shown body =
      { lastID := lastOf ((whole formatTime items body.length).filterMap Item.event?) c.lastID,
        printed := c.printed ++
          ((whole formatTime items body.length).filterMap Item.event?).filter shown } := by
  have hmem : ∀ it ∈ whole formatTime items body.length, it ∈ items := fun _ hit =>
    (whole_initial formatTime items body.length).subset hit
  rw [Follower.read, readFrames_cut h hbody,
    foldl_frames (fun it hit => h it (hmem it hit)) fun it hit => hjson it (hmem it hit)]

/-! ### Where the next request resumes -/

theorem resume_nil {c : Follower} (h : c.lastID = []) : c.resume = 0 := by
  rw [Follower.resume, h]
  rfl

theorem resume_number {c : Follower} {n : Nat} (h : c.lastID = ascii (toString n))
    (hn : n < 2 ^ 64) : c.resume = n := by
  have htrim := trimBytes_eq_self (solid_number n)
  have htext : latin1 (ascii (toString n)) = toString n := latin1_ascii fun ch hch => by
    have hdigit := digit_code hch
    omega
  have hlist : (toString n).toList = Nat.toDigits 10 n := Nat.toList_repr
  have hparse : parseUint64 (toString n) = some n := by
    rw [parseUint64, hlist, digits_toDigits, Option.filter_some, if_pos (decide_eq_true hn)]
  rw [Follower.resume, h, resumePoint, htrim, if_pos (number_ne_nil n), htext, hparse]
  rfl

/-! ### Over many connections -/

/-- What a request that resumes after a number is answered with: the events of the history
behind it that pass its filter, up to some point; where there is nothing to resume after, from
some point on.  Each has its frame. -/
structure Serves (unmarshal : Bytes → Option Event) (formatTime : Nat → String)
    (history : Nat → Event) (passes : Event → Bool) (resume : Nat) (items : List Item) : Prop where
  events : ∃ first count, (0 < resume → first = resume) ∧ first + count < 2 ^ 64 ∧
    items.filterMap Item.event? = ((List.range' (first + 1) count).map history).filter passes
  framed : ∀ it ∈ items, it.Framed formatTime
  decoded : ∀ it ∈ items, it.Decoded unmarshal formatTime

/-- A part of what passes ends with one that passes. -/
theorem prefix_filter {α : Type} {p : α → Bool} {l events : List α} (h : events <+: l.filter p)
    (hne : events ≠ []) : ∃ k x, l[k]? = some x ∧ events.getLast? = some x ∧
      events = (l.take (k + 1)).filter p := by
  induction l generalizing events with
  | nil => exact absurd (List.prefix_nil.mp h) hne
  | cons a l ih =>
      by_cases ha : p a = true
      · rw [List.filter_cons_of_pos ha] at h
        obtain ⟨b, events, rfl⟩ := List.exists_cons_of_ne_nil hne
        obtain ⟨rfl, hrest⟩ := List.cons_prefix_cons.mp h
        by_cases hnil : events = []
        · refine ⟨0, b, rfl, ?_, ?_⟩
          · rw [hnil]
            rfl
          · rw [hnil, List.take_succ_cons, List.take_zero, List.filter_singleton, ha]
            rfl
        · obtain ⟨k, x, hget, hlast, heq⟩ := ih hrest hnil
          refine ⟨k + 1, x, hget, ?_, ?_⟩
          · rw [List.getLast?_cons, hlast]
            rfl
          · rw [List.take_succ_cons, List.filter_cons_of_pos ha, ← heq]
      · rw [List.filter_cons_of_neg ha] at h
        obtain ⟨k, x, hget, hlast, heq⟩ := ih h hne
        refine ⟨k + 1, x, hget, hlast, ?_⟩
        rw [List.take_succ_cons, List.filter_cons_of_neg ha, ← heq]

section

variable {history : Nat → Event} {passes : Event → Bool}

/-- Some of the events behind a number have arrived, and the last one is known. -/
theorem arrived_range (hid : ∀ n, (history n).id = toString n) {first count : Nat}
    {events : List Event}
    (h : events <+: ((List.range' (first + 1) count).map history).filter passes)
    (hne : events ≠ []) : ∃ last, first < last ∧ last ≤ first + count ∧
      (∀ before, lastOf events before = ascii (toString last)) ∧
      events = ((List.range' (first + 1) (last - first)).map history).filter passes := by
  obtain ⟨k, x, hget, hlast, heq⟩ := prefix_filter h hne
  rw [List.getElem?_map, Option.map_eq_some_iff] at hget
  obtain ⟨n, hn, rfl⟩ := hget
  obtain ⟨hk, hvalue⟩ := List.getElem?_eq_some_iff.mp hn
  rw [List.length_range'] at hk
  rw [List.getElem_range'] at hvalue
  have hcount : first + 1 + k - first = k + 1 := by omega
  refine ⟨first + 1 + k, by omega, by omega, ?_, ?_⟩
  · intro before
    rw [lastOf, hlast, Option.map_some, Option.getD_some, hid, utf8_number, ← hvalue, Nat.one_mul]
  · rw [hcount, heq, ← List.map_take, List.take_range'_of_length_ge (by omega)]

/-- What has arrived so far, what is printed of it and how far it goes. -/
structure Reached (history : Nat → Event) (passes shown : Event → Bool) (c : Follower)
    (events : List Event) : Prop where
  printed : c.printed = events.filter shown
  position : (events = [] ∧ c.lastID = []) ∨ ∃ first last, first < last ∧ last < 2 ^ 64 ∧
    c.lastID = ascii (toString last) ∧
    events = ((List.range' (first + 1) (last - first)).map history).filter passes

/-- One more connection. -/
theorem Reached.read (hid : ∀ n, (history n).id = toString n) {c : Follower} {events : List Event}
    (h : Reached history passes shown c events) {items : List Item} {body : Bytes}
    (hserves : Serves unmarshal formatTime history passes c.resume items)
    (hbody : body <+: write formatTime items) :
    Reached history passes shown (c.read unmarshal shown body)
      (events ++ (whole formatTime items body.length).filterMap Item.event?) := by
  obtain ⟨first, count, hfirst, hbound, hevents⟩ := hserves.events
  have hread : c.read unmarshal shown body = _ :=
    read_cut hserves.framed hserves.decoded hbody c
  have hnew : (whole formatTime items body.length).filterMap Item.event? <+:
      ((List.range' (first + 1) count).map history).filter passes := by
    rw [← hevents]
    exact (whole_initial formatTime items body.length).filterMap _
  generalize (whole formatTime items body.length).filterMap Item.event? = new at hread hnew
  have hprinted : (c.read unmarshal shown body).printed = (events ++ new).filter shown := by
    rw [hread, h.printed, List.filter_append]
  have hlastID : (c.read unmarshal shown body).lastID = lastOf new c.lastID := by rw [hread]
  refine ⟨hprinted, ?_⟩
  by_cases hnil : new = []
  · rw [hlastID, hnil, List.append_nil]
    exact h.position
  obtain ⟨last, hlt, hle, hlast, hstretch⟩ := arrived_range hid hnew hnil
  rw [hlast] at hlastID
  refine Or.inr ?_
  rcases h.position with ⟨hempty, _⟩ | ⟨start, stop, hstart, hstop, hid', hbefore⟩
  · exact ⟨first, last, hlt, by omega, hlastID, by rw [hempty, List.nil_append, hstretch]⟩
  · -- the request resumed behind the last number, and the two stretches join there
    have hresume := resume_number hid' hstop
    have hjoin : first = stop := by
      rw [hresume] at hfirst
      exact hfirst (by omega)
    refine ⟨start, last, by omega, by omega, hlastID, ?_⟩
    have hrange : List.range' (start + 1) (last - start) =
        List.range' (start + 1) (stop - start) ++ List.range' (first + 1) (last - first) := by
      have hcount : last - start = (stop - start) + (last - first) := by omega
      have hnext : first + 1 = start + 1 + 1 * (stop - start) := by omega
      rw [hcount, hnext, List.range'_append]
    rw [hrange, List.map_append, List.filter_append, ← hbefore, ← hstretch]

def started (n : Nat) : Event := { id := toString n, type := "vm.started", source := "libvirt" }

def zeroTime (_ : Nat) : String := "0001-01-01T00:00:00Z"

end

end

end VMSmith.Wire
