/-
A console ticket is redeemed once.

The look that `ConsumeTicket` takes at the map takes the ticket out under the same lock, so
whoever looks later finds only what was issued later.  Everything else is what one call
does with the ticket it has found.

Tokens may repeat; a ticket is known by its place among those issued.
-/
import VMSmith.Console.Store
import VMSmith.Lib.Run

namespace VMSmith

namespace Console

open Prog
open Call (view)

/-- What holds of the calls of a store. -/
structure SingleUse (ttl : Nat) (s : Sys) : Prop where
  /-- A ticket handed out was issued for what the call asked for, and expires `ttl` after
  the call has read the clock. -/
  issued : ∀ t ∈ s.threads, ∀ vmID apiKey intent token expires, t.op = .issue vmID apiKey intent →
    t.returned (.ticket token expires) → ∃ n now, (view t).now = some now ∧ expires = now + ttl ∧
      (view t).placed = some (n, token, ⟨vmID, apiKey, intent, expires⟩) ∧
      s.world.issued[n]? = some (token, ⟨vmID, apiKey, intent, expires⟩)
  /-- Each call that issues one issues another. -/
  apart : ∀ (i j : Nat) (t u : Call) (n : Nat) (p q : String × Ticket), s.threads[i]? = some t →
    s.threads[j]? = some u → (view t).placed = some (n, p) → (view u).placed = some (n, q) → i = j
  /-- An API key is yielded for the ticket found: the one issued under the token with that
  key, for this VM and this intent, and not expired. -/
  entitled : ∀ t ∈ s.threads, ∀ token vmID intent key, t.op = .consume token vmID intent →
    t.returned (.apiKey key) → ∃ l n now expires, (view t).look = some l ∧
      l.found = some (n, ⟨vmID, key, intent, expires⟩) ∧
      s.world.issued[n]? = some (token, ⟨vmID, key, intent, expires⟩) ∧
      (view t).now = some now ∧ now < expires
  /-- No two calls find the same ticket. -/
  once : ∀ (i j : Nat) (t u : Call) (l m : Look) (n : Nat) (a b : Ticket), s.threads[i]? = some t →
    s.threads[j]? = some u → (view t).look = some l → (view u).look = some m →
    l.found = some (n, a) → m.found = some (n, b) → i = j
  /-- After a look for a token, whatever came of it, nobody finds a ticket that had been
  issued under the token by then, … -/
  burned : ∀ t ∈ s.threads, ∀ u ∈ s.threads, ∀ token vmID intent vmID' intent' l m n a,
    t.op = .consume token vmID intent → u.op = .consume token vmID' intent' →
    (view t).look = some l → (view u).look = some m → l.time < m.time → m.found = some (n, a) →
    l.issued ≤ n
  /-- … and the map has none. -/
  gone : ∀ t ∈ s.threads, ∀ token vmID intent l n a, t.op = .consume token vmID intent →
    (view t).look = some l → s.world.tickets.get? token = some (n, a) → l.issued ≤ n

/-! ### What a call does -/

/-- Which commands a call may issue, after what it has been answered. -/
def Op.ok (op : Op) (ttl : Nat) (v : View) : Cmd → Prop
  | .put _ t => v.placed = none ∧
      ∃ vmID apiKey intent now, op = .issue vmID apiKey intent ∧ v.now = some now ∧
        t = ⟨vmID, apiKey, intent, now + ttl⟩
  | .take token => v.look = none ∧ ∃ vmID intent, op = .consume token vmID intent
  | .now => v.placed = none ∧ v.look = none
  | _ => True

/-- How a call ends. -/
def Op.post (op : Op) (ttl : Nat) (res : Except Err Answer) (v : View) : Prop :=
  (∀ vmID apiKey intent token expires, op = .issue vmID apiKey intent →
    res = .ok (.ticket token expires) → ∃ n now, v.now = some now ∧ expires = now + ttl ∧
      v.placed = some (n, token, ⟨vmID, apiKey, intent, expires⟩)) ∧
  ∀ token vmID intent key, op = .consume token vmID intent → res = .ok (.apiKey key) →
    ∃ l n now expires, v.look = some l ∧ l.found = some (n, ⟨vmID, key, intent, expires⟩) ∧
      v.now = some now ∧ now < expires

/-- A call by its account. -/
abbrev callSem (op : Op) (ttl : Nat) : Sem Cmd Cmd.Resp View := Sem.account View.add (op.ok ttl)

theorem redeem_ok {t : Ticket} {now : Nat} {vmID intent key : String}
    (h : t.redeem now vmID intent = .ok key) :
    t = ⟨vmID, key, intent, t.expires⟩ ∧ now < t.expires := by
  unfold Ticket.redeem at h
  split_ifs at h with hexpired hvm hintent
  · simp only [not_not] at hexpired hvm hintent
    obtain rfl := Except.ok.inj h
    obtain rfl := hvm
    obtain rfl := hintent
    exact ⟨rfl, hexpired⟩

/-- **Every call is in order**, whatever it is answered. -/
theorem op_wp (ttl : Nat) (op : Op) : wp (callSem op ttl) (op.body ttl) (op.post ttl) {} := by
  have hfail : ∀ {e : Err} {v : View}, wp (callSem op ttl) (.throw e : M Answer) (op.post ttl) v :=
    (wp_throw _ _ _).mpr ⟨fun _ _ _ _ _ _ h => by simp at h, fun _ _ _ _ _ h => by simp at h⟩
  cases op with
  | issue vmID apiKey intent =>
      refine wp_account_call.mpr ⟨trivial, ?_⟩
      rintro (e | token)
      · exact hfail
      refine wp_account_call.mpr ⟨⟨rfl, rfl⟩, fun now => ?_⟩
      refine wp_account_call.mpr ⟨⟨rfl, vmID, apiKey, intent, now, rfl, rfl, rfl⟩, fun n => ?_⟩
      refine (wp_ret _ _ _).mpr ⟨?_, fun _ _ _ _ h => by simp at h⟩
      rintro _ _ _ _ _ ⟨⟩ ⟨⟩
      exact ⟨n, now, rfl, rfl, rfl⟩
  | consume token vmID intent =>
      refine wp_account_call.mpr ⟨⟨rfl, rfl⟩, fun now => ?_⟩
      refine wp_account_call.mpr ⟨⟨rfl, vmID, intent, rfl⟩, fun l => ?_⟩
      obtain ⟨_ | ⟨n, t⟩, looked, issued⟩ := l
      · exact hfail
      · show wp _ (Prog.ofExcept (t.redeem now vmID intent) >>= _) _ _
        cases hredeem : t.redeem now vmID intent with
        | error e => exact hfail
        | ok key =>
            obtain ⟨ht, hnow⟩ := redeem_ok hredeem
            refine (wp_ret _ _ _).mpr ⟨fun _ _ _ _ _ h => by simp at h, ?_⟩
            rintro _ _ _ _ ⟨⟩ ⟨⟩
            exact ⟨_, n, now, t.expires, rfl, congrArg (fun t => some (n, t)) ht, rfl, hnow⟩
  | sweep =>
      refine wp_account_call.mpr ⟨⟨rfl, rfl⟩, fun now => ?_⟩
      refine wp_account_call.mpr ⟨trivial, fun _ => ?_⟩
      exact (wp_ret _ _ _).mpr ⟨fun _ _ _ _ _ h => by simp at h, fun _ _ _ _ h => by simp at h⟩

/-- A call alone, by its log. -/
theorem op_alone (ttl : Nat) (op : Op) : wp (Sem.alone fun log c => op.ok ttl (Log.view log) c)
    (op.body ttl) (fun res log => op.post ttl res (Log.view log)) [] :=
  wp_alone_of_account (op_wp ttl op)

/-! ### What one step can do -/

/-- What one command of a call does to the map and to its account. -/
inductive Effect (w : StoreWorld) (op : Op) (w' : StoreWorld) (v v' : View) : Prop
  | quiet (htickets : ∀ token e, w'.tickets.get? token = some e → w.tickets.get? token = some e)
      (hissued : w'.issued = w.issued) (hlooks : w'.looks = w.looks)
      (hplaced : v'.placed = v.placed) (hlook : v'.look = v.look)
  | placed (token : String) (t : Ticket) (hnone : v.placed = none) (hw : w' = w.put token t)
      (hplaced : v'.placed = some (w.issued.length, token, t)) (hlook : v'.look = v.look)
  | looked (token vmID intent : String) (hop : op = .consume token vmID intent)
      (hnone : v.look = none) (hw : w' = w.take token) (hplaced : v'.placed = v.placed)
      (hlook : v'.look = some (w.look token))

theorem effect {ttl : Nat} {op : Op} {v : View} {c : Cmd} {r : c.Resp} {x : Choice} {w w' : StoreWorld}
    (hok : op.ok ttl v c) (hexec : StoreWorld.exec c x w = some (r, w')) :
    Effect w op w' v (v.add c r) := by
  cases c with
  | newToken | now =>
      obtain ⟨rfl, rfl⟩ := Prod.mk.injEq _ _ _ _ ▸ Option.some.inj hexec
      exact .quiet (fun _ _ h => h) rfl rfl rfl rfl
  | put token t =>
      obtain ⟨rfl, rfl⟩ := Prod.mk.injEq _ _ _ _ ▸ Option.some.inj hexec
      exact .placed token t hok.1 rfl rfl rfl
  | take token =>
      obtain ⟨rfl, rfl⟩ := Prod.mk.injEq _ _ _ _ ▸ Option.some.inj hexec
      obtain ⟨hnone, vmID, intent, hop⟩ := hok
      exact .looked token vmID intent hop hnone rfl rfl rfl
  | deleteExpired now =>
      obtain ⟨rfl, rfl⟩ := Prod.mk.injEq _ _ _ _ ▸ Option.some.inj hexec
      exact .quiet (fun _ _ h => (Bucket.mem_filter.mp h).1) rfl rfl rfl rfl

/-! ### The invariant -/

/-- What a look has found is one of the tickets issued before it, under the token looked for. -/
structure Seen (w : StoreWorld) (op : Op) (l : Look) : Prop where
  time : l.time < w.looks
  issued : l.issued ≤ w.issued.length
  found : ∀ n a, l.found = some (n, a) → n < l.issued ∧
    ∀ token vmID intent, op = .consume token vmID intent → w.issued[n]? = some (token, a)
  gone : ∀ token vmID intent n a, op = .consume token vmID intent →
    w.tickets.get? token = some (n, a) → l.issued ≤ n

structure Inv (ttl : Nat) (s : Sys) : Prop where
  sound : s.Sound (fun op log c => op.ok ttl (Log.view log) c)
    fun op res log => op.post ttl res (Log.view log)
  stored : ∀ token n a, s.world.tickets.get? token = some (n, a) →
    s.world.issued[n]? = some (token, a)
  placed : ∀ (i : Nat) (t : Call) (n : Nat) (p : String × Ticket), s.threads[i]? = some t →
    (view t).placed = some (n, p) → s.world.issued[n]? = some p
  apart : ∀ (i j : Nat) (t u : Call) (n : Nat) (p q : String × Ticket), s.threads[i]? = some t →
    s.threads[j]? = some u → (view t).placed = some (n, p) → (view u).placed = some (n, q) → i = j
  looked : ∀ (i : Nat) (t : Call) (l : Look), s.threads[i]? = some t → (view t).look = some l →
    Seen s.world t.op l ∧ ∃ token vmID intent, t.op = .consume token vmID intent
  distinct : ∀ (i j : Nat) (t u : Call) (l m : Look), s.threads[i]? = some t → s.threads[j]? = some u →
    (view t).look = some l → (view u).look = some m → l.time = m.time → i = j
  burned : ∀ (i j : Nat) (t u : Call) (token vmID intent vmID' intent' : String) (l m : Look) (n : Nat)
    (a : Ticket), s.threads[i]? = some t → s.threads[j]? = some u →
    t.op = .consume token vmID intent → u.op = .consume token vmID' intent' →
    (view t).look = some l → (view u).look = some m → l.time < m.time → m.found = some (n, a) →
    l.issued ≤ n

variable {ttl : Nat} {s s' : Sys} {w w' : StoreWorld} {op : Op} {v v' : View}

/-- The invariant gives what is claimed of tickets. -/
theorem Inv.singleUse (hs : Inv ttl s) : SingleUse ttl s where
  issued := by
    intro t ht vmID apiKey intent token expires hop hres
    obtain ⟨i, hi⟩ := List.getElem?_of_mem ht
    obtain ⟨n, now, hnow, hexpires, hplaced⟩ :=
      (hs.sound.ended ht hres).1 vmID apiKey intent token expires hop rfl
    exact ⟨n, now, hnow, hexpires, hplaced, hs.placed i t n _ hi hplaced⟩
  apart := hs.apart
  entitled := by
    intro t ht token vmID intent key hop hres
    obtain ⟨i, hi⟩ := List.getElem?_of_mem ht
    obtain ⟨l, n, now, expires, hlook, hfound, hnow, hlt⟩ :=
      (hs.sound.ended ht hres).2 token vmID intent key hop rfl
    have hissued := ((hs.looked i t l hi hlook).1.found n _ hfound).2 token vmID intent hop
    exact ⟨l, n, now, expires, hlook, hfound, hissued, hnow, hlt⟩
  once := by
    intro i j t u l m n a b hi hj hl hm ha hb
    obtain ⟨hseen, token, vmID, intent, hop⟩ := hs.looked i t l hi hl
    obtain ⟨hseen', token', vmID', intent', hop'⟩ := hs.looked j u m hj hm
    obtain ⟨hlt, hissued⟩ := hseen.found n a ha
    obtain ⟨hlt', hissued'⟩ := hseen'.found n b hb
    have hsame := (hissued token vmID intent hop).symm.trans (hissued' token' vmID' intent' hop')
    obtain ⟨rfl, rfl⟩ := Prod.mk.injEq _ _ _ _ ▸ Option.some.inj hsame
    rcases lt_trichotomy l.time m.time with h | h | h
    · have := hs.burned i j t u token vmID intent vmID' intent' l m n a hi hj hop hop' hl hm h hb
      omega
    · exact hs.distinct i j t u l m hi hj hl hm h
    · have := hs.burned j i u t token vmID' intent' vmID intent m l n a hj hi hop' hop hm hl h ha
      omega
  burned := by
    intro t ht u hu token vmID intent vmID' intent' l m n a hop hop' hl hm htime hfound
    obtain ⟨i, hi⟩ := List.getElem?_of_mem ht
    obtain ⟨j, hj⟩ := List.getElem?_of_mem hu
    exact hs.burned i j t u token vmID intent vmID' intent' l m n a hi hj hop hop' hl hm htime hfound
  gone := by
    intro t ht token vmID intent l n a hop hl hget
    obtain ⟨i, hi⟩ := List.getElem?_of_mem ht
    exact (hs.looked i t l hi hl).1.gone token vmID intent n a hop hget

/-! ### One step after the other -/

theorem Effect.issued (he : Effect w op w' v v') : ∃ more, w'.issued = w.issued ++ more := by
  cases he with
  | quiet _ hissued => exact ⟨[], by rw [hissued, List.append_nil]⟩
  | placed token t _ hw => exact ⟨[(token, t)], by rw [hw]; rfl⟩
  | looked _ _ _ _ _ hw => exact ⟨[], by rw [hw]; exact (List.append_nil _).symm⟩

/-- A ticket keeps its place. -/
theorem Effect.place (he : Effect w op w' v v') {n : Nat} {p : String × Ticket}
    (h : w.issued[n]? = some p) : w'.issued[n]? = some p := by
  obtain ⟨more, hmore⟩ := he.issued
  rw [hmore, List.getElem?_append_left (List.getElem?_eq_some_iff.mp h).1]
  exact h

/-- A ticket in the map was there, or is a new one. -/
theorem Effect.tickets (he : Effect w op w' v v') {token : String} {n : Nat} {a : Ticket}
    (h : w'.tickets.get? token = some (n, a)) : w.tickets.get? token = some (n, a) ∨
      n = w.issued.length ∧ w'.issued = w.issued ++ [(token, a)] := by
  cases he with
  | quiet htickets => exact .inl (htickets _ _ h)
  | placed token' t _ hw =>
      subst hw
      rcases Bucket.mem_put h with ⟨rfl, hnew⟩ | ⟨-, hold⟩
      · obtain ⟨rfl, rfl⟩ := Prod.mk.injEq _ _ _ _ ▸ hnew
        exact .inr ⟨rfl, rfl⟩
      · exact .inl hold
  | looked token' _ _ _ _ hw =>
      subst hw
      exact .inl (Bucket.mem_erase.mp h).2

/-- What a look has seen stays so. -/
theorem Seen.mono {op' : Op} {l : Look} (h : Seen w op' l) (he : Effect w op w' v v') :
    Seen w' op' l := by
  have hlooks : w.looks ≤ w'.looks := by
    cases he with
    | quiet _ _ hlooks => exact hlooks.ge
    | placed _ _ _ hw => exact hw ▸ le_rfl
    | looked _ _ _ _ _ hw => exact hw ▸ Nat.le_succ _
  have hlen : w.issued.length ≤ w'.issued.length := by
    obtain ⟨more, hmore⟩ := he.issued
    rw [hmore, List.length_append]
    exact Nat.le_add_right _ _
  refine ⟨h.time.trans_le hlooks, h.issued.trans hlen, fun n a ha => ?_, fun token vmID intent n a hop hget => ?_⟩
  · obtain ⟨hlt, hissued⟩ := h.found n a ha
    exact ⟨hlt, fun token vmID intent hop => he.place (hissued token vmID intent hop)⟩
  · rcases he.tickets hget with hold | ⟨rfl, -⟩
    · exact h.gone token vmID intent n a hop hold
    · exact h.issued

/-- When nothing happens to the map, and the calls are the same or have just been made. -/
theorem Inv.still (hs : Inv ttl s)
    (hsound : s'.Sound (fun op log c => op.ok ttl (Log.view log) c)
      fun op res log => op.post ttl res (Log.view log))
    (hw : s'.world = s.world)
    (hthreads : ∀ (j : Nat) (u : Call), s'.threads[j]? = some u →
      (∃ t, s.threads[j]? = some t ∧ u.op = t.op ∧ view u = view t) ∨ view u = {}) : Inv ttl s' := by
  have hplaced : ∀ {j : Nat} {u : Call} {p : Nat × String × Ticket}, s'.threads[j]? = some u →
      (view u).placed = some p → ∃ t, s.threads[j]? = some t ∧ (view t).placed = some p := by
    intro j u p hj hp
    rcases hthreads j u hj with ⟨t, ht, -, hview⟩ | hnew
    · exact ⟨t, ht, hview ▸ hp⟩
    · rw [hnew] at hp
      simp at hp
  have hlook : ∀ {j : Nat} {u : Call} {l : Look}, s'.threads[j]? = some u →
      (view u).look = some l → ∃ t, s.threads[j]? = some t ∧ u.op = t.op ∧ (view t).look = some l := by
    intro j u l hj hl
    rcases hthreads j u hj with ⟨t, ht, hop, hview⟩ | hnew
    · exact ⟨t, ht, hop, hview ▸ hl⟩
    · rw [hnew] at hl
      simp at hl
  refine ⟨hsound, hw ▸ hs.stored, fun i t n p hi hp => ?_, fun i j t u n p q hi hj hp hq => ?_,
    fun i t l hi hl => ?_, fun i j t u l m hi hj hl hm htime => ?_, ?_⟩
  · obtain ⟨t', ht', hp'⟩ := hplaced hi hp
    exact hw ▸ hs.placed i t' n p ht' hp'
  · obtain ⟨t', ht', hp'⟩ := hplaced hi hp
    obtain ⟨u', hu', hq'⟩ := hplaced hj hq
    exact hs.apart i j t' u' n p q ht' hu' hp' hq'
  · obtain ⟨t', ht', hop, hl'⟩ := hlook hi hl
    rw [hop, hw]
    exact hs.looked i t' l ht' hl'
  · obtain ⟨t', ht', -, hl'⟩ := hlook hi hl
    obtain ⟨u', hu', -, hm'⟩ := hlook hj hm
    exact hs.distinct i j t' u' l m ht' hu' hl' hm' htime
  · intro i j t u token vmID intent vmID' intent' l m n a hi hj hop hop' hl hm htime hfound
    obtain ⟨t', ht', hopt, hl'⟩ := hlook hi hl
    obtain ⟨u', hu', hopu, hm'⟩ := hlook hj hm
    exact hs.burned i j t' u' token vmID intent vmID' intent' l m n a ht' hu' (hopt ▸ hop)
      (hopu ▸ hop') hl' hm' htime hfound

/-- What the call has put into the map, it had put there, or it is the last ticket issued. -/
theorem Effect.placed_cases (he : Effect w op w' v v') {n : Nat} {p : String × Ticket}
    (h : v'.placed = some (n, p)) :
    v.placed = some (n, p) ∨ n = w.issued.length ∧ w'.issued = w.issued ++ [p] := by
  cases he with
  | quiet _ _ _ hplaced => exact .inl (hplaced ▸ h)
  | placed token t _ hw hplaced =>
      obtain ⟨rfl, rfl⟩ := Prod.mk.injEq _ _ _ _ ▸ Option.some.inj (hplaced.symm.trans h)
      exact .inr ⟨rfl, hw ▸ rfl⟩
  | looked _ _ _ _ _ _ hplaced => exact .inl (hplaced ▸ h)

/-- The call's look was taken before, or just now. -/
theorem Effect.look_cases (he : Effect w op w' v v') {l : Look} (h : v'.look = some l) :
    v.look = some l ∨ ∃ token vmID intent, op = .consume token vmID intent ∧ w' = w.take token ∧
      l = w.look token := by
  cases he with
  | quiet _ _ _ _ hlook => exact .inl (hlook ▸ h)
  | placed _ _ _ _ _ hlook => exact .inl (hlook ▸ h)
  | looked token vmID intent hop _ hw _ hlook =>
      exact .inr ⟨token, vmID, intent, hop, hw, (Option.some.inj (hlook.symm.trans h)).symm⟩

/-- A look just taken finds what is stored, and leaves nothing. -/
theorem Inv.seen (hs : Inv ttl s) {token vmID intent : String} :
    Seen (s.world.take token) (.consume token vmID intent) (s.world.look token) := by
  refine ⟨Nat.lt_succ_self _, le_rfl, fun n a ha => ?_, ?_⟩
  · have hissued := hs.stored token n a ha
    refine ⟨(List.getElem?_eq_some_iff.mp hissued).1, ?_⟩
    rintro _ _ _ ⟨⟩
    exact hissued
  · rintro _ _ _ n a ⟨⟩ hget
    have hnone := (s.world.tickets.get?_erase_self token).symm.trans hget
    simp at hnone

/-- One command of call `i`. -/
theorem inv_answer (hs : Inv ttl s) {i : Nat} {x : Choice} (h : Sys.step ttl s (.step i x) = some s') :
    Inv ttl s' := by
  have hsound := Pool.sound_step (op_alone ttl) hs.sound h
  obtain ⟨t, c, k, r, w', ht, -, hprog, hexec, rfl⟩ := Pool.step_step h
  set t' : Call := t.advance c r (k r) with ht'
  have he : Effect s.world t.op w' (view t) (view t') := effect (hs.sound.allowed ht hprog) hexec
  have hop : t'.op = t.op := rfl
  -- each ticket placed and each look taken is an old one of the same call, or the new one
  have hplaced : ∀ {j : Nat} {u : Call} {n : Nat} {p : String × Ticket},
      (s.threads.set i t')[j]? = some u → (view u).placed = some (n, p) →
      (∃ v, s.threads[j]? = some v ∧ (view v).placed = some (n, p)) ∨
        j = i ∧ n = s.world.issued.length ∧ w'.issued = s.world.issued ++ [p] := by
    intro j u n p hj hp
    rcases Pool.getElem?_advance ht hj with ⟨rfl, rfl⟩ | ⟨-, hold⟩
    · exact (he.placed_cases hp).imp (fun hp => ⟨t, ht, hp⟩) fun hnew => ⟨rfl, hnew⟩
    · exact .inl ⟨u, hold, hp⟩
  have hlook : ∀ {j : Nat} {u : Call} {l : Look}, (s.threads.set i t')[j]? = some u →
      (view u).look = some l →
      (∃ v, s.threads[j]? = some v ∧ u.op = v.op ∧ (view v).look = some l) ∨
        j = i ∧ ∃ token vmID intent, u.op = .consume token vmID intent ∧ w' = s.world.take token ∧
          l = s.world.look token := by
    intro j u l hj hl
    rcases Pool.getElem?_advance ht hj with ⟨rfl, rfl⟩ | ⟨-, hold⟩
    · exact (he.look_cases hl).imp (fun hl => ⟨t, ht, hop, hl⟩) fun hnew => ⟨rfl, hnew⟩
    · exact .inl ⟨u, hold, rfl, hl⟩
  refine ⟨hsound, fun token n a hget => ?_, fun j u n p hj hp => ?_,
    fun j k u v n p q hj hk hp hq => ?_, fun j u l hj hl => ?_,
    fun j k u v l m hj hk hl hm htime => ?_, ?_⟩
  · show w'.issued[n]? = some (token, a)
    rcases he.tickets hget with hold | ⟨rfl, hmore⟩
    · exact he.place (hs.stored token n a hold)
    · rw [hmore, List.getElem?_concat_length]
  · show w'.issued[n]? = some p
    rcases hplaced hj hp with ⟨v, hv, hold⟩ | ⟨-, rfl, hmore⟩
    · exact he.place (hs.placed j v n p hv hold)
    · rw [hmore, List.getElem?_concat_length]
  · rcases hplaced hj hp with ⟨u', hu', hp'⟩ | ⟨rfl, hn, -⟩
    · rcases hplaced hk hq with ⟨v', hv', hq'⟩ | ⟨rfl, hn, -⟩
      · exact hs.apart j k u' v' n p q hu' hv' hp' hq'
      · have := (List.getElem?_eq_some_iff.mp (hs.placed j u' n p hu' hp')).1
        omega
    · rcases hplaced hk hq with ⟨v', hv', hq'⟩ | ⟨rfl, -, -⟩
      · have := (List.getElem?_eq_some_iff.mp (hs.placed k v' n q hv' hq')).1
        omega
      · rfl
  · rcases hlook hj hl with ⟨v, hv, hsame, hold⟩ | ⟨rfl, token, vmID, intent, hconsume, rfl, rfl⟩
    · obtain ⟨hseen, hconsume⟩ := hs.looked j v l hv hold
      rw [hsame]
      exact ⟨hseen.mono he, hconsume⟩
    · refine ⟨?_, token, vmID, intent, hconsume⟩
      rw [hconsume]
      exact hs.seen
  · rcases hlook hj hl with ⟨u', hu', -, hl'⟩ | ⟨rfl, _, _, _, -, -, rfl⟩
    · rcases hlook hk hm with ⟨v', hv', -, hm'⟩ | ⟨rfl, _, _, _, -, -, rfl⟩
      · exact hs.distinct j k u' v' l m hu' hv' hl' hm' htime
      · have : l.time < s.world.looks := (hs.looked j u' l hu' hl').1.time
        exact absurd htime (Nat.ne_of_lt this)
    · rcases hlook hk hm with ⟨v', hv', -, hm'⟩ | ⟨rfl, _⟩
      · have : m.time < s.world.looks := (hs.looked k v' m hv' hm').1.time
        exact absurd htime.symm (Nat.ne_of_lt this)
      · rfl
  · intro j k u v token vmID intent vmID' intent' l m n a hj hk hu hv hl hm htime hfound
    rcases hlook hj hl with ⟨u', hu', hopu, hl'⟩ | ⟨rfl, _, _, _, -, -, rfl⟩
    · rcases hlook hk hm with ⟨v', hv', hopv, hm'⟩ | ⟨rfl, token', vm, int, hv', -, rfl⟩
      · exact hs.burned j k u' v' token vmID intent vmID' intent' l m n a hu' hv' (hopu ▸ hu)
          (hopv ▸ hv) hl' hm' htime hfound
      · -- the look just taken has found what the earlier one has left
        obtain ⟨rfl, -, -⟩ := Op.consume.injEq _ _ _ _ _ _ ▸ hv'.symm.trans hv
        exact (hs.looked j u' l hu' hl').1.gone token' vmID intent n a (hopu ▸ hu) hfound
    · rcases hlook hk hm with ⟨v', hv', -, hm'⟩ | ⟨rfl, _, _, _, -, -, rfl⟩
      · have : m.time < s.world.looks := (hs.looked k v' m hv' hm').1.time
        exact absurd htime (Nat.lt_asymm this)
      · exact absurd htime (Nat.lt_irrefl _)

theorem inv_step (s : Sys) (l : Label) (s' : Sys) (hs : Inv ttl s) (_ : True)
    (h : Sys.step ttl s l = some s') : Inv ttl s' := by
  by_cases hl : ∃ i x, l = .step i x
  · obtain ⟨i, x, rfl⟩ := hl
    exact inv_answer hs h
  · have hstill : ∀ i x, l ≠ .step i x := fun i x heq => hl ⟨i, x, heq⟩
    obtain ⟨-, hthreads⟩ := Pool.threads_kept hstill h
    refine hs.still (Pool.sound_step (op_alone ttl) hs.sound h) ?_ fun j u hj => ?_
    · rcases Pool.world_kept hstill h with hw | ⟨e, -⟩
      · exact hw
      · exact e.elim
    · rcases hthreads j u hj with ⟨t, ht, halike⟩ | ⟨-, hlog, -, -⟩
      · exact .inl ⟨t, ht, halike.op, by rw [view, view, halike.log]⟩
      · right
        rw [view, hlog]
        rfl

theorem inv_init : Inv ttl Sys.init where
  sound := fun t ht => absurd ht List.not_mem_nil
  stored := fun token n a h => by simp [Sys.init] at h
  placed := fun i t n p hi => by simp [Sys.init] at hi
  apart := fun i j t u n p q hi => by simp [Sys.init] at hi
  looked := fun i t l hi => by simp [Sys.init] at hi
  distinct := fun i j t u l m hi => by simp [Sys.init] at hi
  burned := fun i j t u token vmID intent vmID' intent' l m n a hi => by simp [Sys.init] at hi

/-- **Tickets are redeemed once**, whatever the order of the calls, the clock and the random
source. -/
theorem tickets_singleUse (ttl : Nat) (ls : List Label) (s : Sys)
    (h : Run.exec (Sys.step ttl) Sys.init ls = some s) : SingleUse ttl s :=
  (Run.exec_invariant (Inv ttl) inv_step ls _ s inv_init (Run.guarded_true _ _) h).singleUse

/-- A ticket is issued, tried on another VM, and tried again. -/
def burnedTicket : List Label :=
  .call (.issue "vm-1" "key" "vnc") :: List.replicate 3 (.step 0 { token := "a", elapsed := 1 }) ++
    .call (.consume "a" "vm-2" "vnc") :: List.replicate 2 (.step 1 {}) ++
    .call (.consume "a" "vm-1" "vnc") :: List.replicate 2 (.step 2 {})

/-- The second try finds nothing. -/
theorem tickets_singleUse_burned :
    ∃ s, Run.exec (Sys.step defaultTicketTTL) Sys.init burnedTicket = some s ∧
      (∃ t ∈ s.threads, t.failed ErrTicketVMMismatch) ∧ (∃ t ∈ s.threads, t.failed ErrTicketNotFound) ∧
      SingleUse defaultTicketTTL s := by
  have hrun : (Run.exec (Sys.step defaultTicketTTL) Sys.init burnedTicket).any (fun s =>
      s.threads.any (fun t => t.prog.result? = some (.error ErrTicketVMMismatch)) &&
        s.threads.any fun t => t.prog.result? = some (.error ErrTicketNotFound)) = true := by
    decide +kernel
  obtain ⟨s, hs, h⟩ := (Option.any_eq_true _ _).mp hrun
  simp only [Bool.and_eq_true, List.any_eq_true, decide_eq_true_eq] at h
  exact ⟨s, hs, h.1, h.2, tickets_singleUse defaultTicketTTL burnedTicket s hs⟩

end Console

end VMSmith
