/-
The limiter of request rates.

What an address may still ask for is the level of its bucket, and a request that passes
takes one off it, so the bound over a window is that of anything paid for from a level.
A request looks at no bucket but its own address's, which is why others do not change what
becomes of it.  The empty address is another matter: it is let through, always.
-/
import VMSmith.Lib.Metered
import VMSmith.Api.RateLimit

namespace VMSmith.Api

/-- A request as the limiter sees it. -/
structure Arrival where
  ip : String
  now : ℤ

namespace IPRateLimiter

/-- What becomes of a request. -/
def verdict (l : IPRateLimiter) (a : Arrival) : Bool × ℤ := (l.allow a.ip a.now).1

/-- The limiter after a request. -/
def next (l : IPRateLimiter) (a : Arrival) : IPRateLimiter := (l.allow a.ip a.now).2

/-- The limiter after some requests. -/
def after (l : IPRateLimiter) (arrivals : List Arrival) : IPRateLimiter :=
  arrivals.foldl next l

/-- What becomes of each of some requests. -/
def decisions (l : IPRateLimiter) : List Arrival → List (Arrival × Bool × ℤ)
  | [] => []
  | a :: rest => (a, verdict l a) :: decisions (next l a) rest

/-- The requests of an address that pass from one instant to another, in seconds. -/
def allowedWithin (ip : String) (lo hi : ℚ) (outcomes : List (Arrival × Bool × ℤ)) : ℕ :=
  outcomes.countP fun o =>
    o.1.ip = ip ∧ lo ≤ durationSeconds o.1.now ∧ durationSeconds o.1.now ≤ hi ∧ o.2.1 = true

variable {l : IPRateLimiter} {ip : String} {a : Arrival}

/-! ### One request -/

@[simp] theorem setClient_self {bucket : TokenBucket} :
    (l.setClient ip bucket).clients ip = some bucket := if_pos rfl

theorem setClient_other {other : String} {bucket : TokenBucket} (h : other ≠ ip) :
    (l.setClient ip bucket).clients other = l.clients other := if_neg h

/-- What a limiter is set to. -/
theorem next_settings : (next l a).rate = l.rate ∧ (next l a).burst = l.burst := by
  unfold next allow
  split
  · exact ⟨rfl, rfl⟩
  · split
    · exact ⟨rfl, rfl⟩
    · dsimp only
      split <;> exact ⟨rfl, rfl⟩

theorem next_other (h : a.ip ≠ ip) : (next l a).clients ip = l.clients ip := by
  unfold next allow
  split
  · rfl
  · split
    · exact setClient_other (Ne.symm h)
    · dsimp only
      split <;> exact setClient_other (Ne.symm h)

theorem allow_none {now : ℤ} (hip : ip ≠ "") (h : l.clients ip = none) :
    l.allow ip now = ((true, 0), l.setClient ip ⟨((l.burst - 1 : ℤ) : ℚ), now⟩) := by
  rw [allow, if_neg hip, h]

theorem allow_full {now : ℤ} {bucket : TokenBucket} (hip : ip ≠ "")
    (h : l.clients ip = some bucket) (hfull : 1 ≤ (l.refill bucket now).tokens) :
    l.allow ip now = ((true, 0), l.setClient ip
      { l.refill bucket now with tokens := (l.refill bucket now).tokens - 1 }) := by
  rw [allow, if_neg hip, h]
  exact if_pos hfull

theorem allow_short {now : ℤ} {bucket : TokenBucket} (hip : ip ≠ "")
    (h : l.clients ip = some bucket) (hshort : (l.refill bucket now).tokens < 1) :
    l.allow ip now =
      ((false, ⌈(1 - (l.refill bucket now).tokens) / l.rate * (second : ℚ)⌉),
        l.setClient ip (l.refill bucket now)) := by
  have hneeded : ¬ (1 - (l.refill bucket now).tokens) / l.rate < 0 := by
    rw [not_lt]
    exact div_nonneg (by linarith) l.rate_pos.le
  rw [allow, if_neg hip, h]
  dsimp only
  rw [if_neg (not_le.mpr hshort), if_neg hneeded]

/-! ### The level of a bucket -/

theorem durationSeconds_sub (m n : ℤ) :
    durationSeconds (m - n) = durationSeconds m - durationSeconds n := by
  unfold durationSeconds
  rw [Int.cast_sub, sub_div]

theorem durationSeconds_le {m n : ℤ} (h : m ≤ n) : durationSeconds m ≤ durationSeconds n := by
  unfold durationSeconds second
  have : (m : ℚ) ≤ n := by exact_mod_cast h
  exact div_le_div_of_nonneg_right this (by norm_num)

theorem le_of_durationSeconds {m n : ℤ} (h : durationSeconds m ≤ durationSeconds n) : m ≤ n := by
  unfold durationSeconds second at h
  rw [div_le_div_iff_of_pos_right (by norm_num)] at h
  exact_mod_cast h

/-- What an address could ask for at an instant, in seconds. -/
def level (l : IPRateLimiter) (ip : String) (t : ℚ) : ℚ :=
  match l.clients ip with
  | none => l.burst
  | some bucket => min (l.burst : ℚ) (bucket.tokens + (t - durationSeconds bucket.last) * l.rate)

/-- A bucket holds no less than nothing and no more than the burst, and is not ahead of time. -/
structure Ready (rate : ℚ) (burst : ℤ) (ip : String) (l : IPRateLimiter) (t : ℚ) : Prop where
  rate_eq : l.rate = rate
  burst_eq : l.burst = burst
  bucket : ∀ b, l.clients ip = some b →
    0 ≤ b.tokens ∧ b.tokens ≤ l.burst ∧ durationSeconds b.last ≤ t

theorem one_le_burst : (1 : ℚ) ≤ l.burst := by
  have := l.burst_pos
  exact_mod_cast (by omega : (1 : ℤ) ≤ l.burst)

/-- A bucket brought up to date holds the level. -/
theorem refill_level {bucket : TokenBucket} {now : ℤ} (h : l.clients ip = some bucket)
    (hburst : bucket.tokens ≤ l.burst) (hlast : durationSeconds bucket.last ≤ durationSeconds now) :
    (l.refill bucket now).tokens = level l ip (durationSeconds now) ∧
      durationSeconds (l.refill bucket now).last = durationSeconds now := by
  unfold level refill
  rw [h]
  dsimp only
  rw [durationSeconds_sub]
  by_cases hgt : durationSeconds now - durationSeconds bucket.last > 0
  · rw [if_pos hgt]
    exact ⟨rfl, rfl⟩
  · have heq : durationSeconds bucket.last = durationSeconds now := by linarith
    rw [if_neg hgt, heq, sub_self, zero_mul, add_zero, min_eq_right hburst]
    exact ⟨rfl, rfl⟩

theorem level_le (l : IPRateLimiter) (ip : String) (t : ℚ) : level l ip t ≤ l.burst := by
  unfold level
  split
  · exact le_refl _
  · exact min_le_left _ _

theorem level_of_none {t : ℚ} (h : l.clients ip = none) : level l ip t = l.burst := by
  unfold level
  rw [h]

theorem level_congr {l' : IPRateLimiter} {t : ℚ} (hc : l'.clients ip = l.clients ip)
    (hs : l'.rate = l.rate ∧ l'.burst = l.burst) : level l' ip t = level l ip t := by
  unfold level
  rw [hc, hs.1, hs.2]

variable {rate : ℚ} {burst : ℤ}

theorem Ready.level_nonneg {t : ℚ} (h : Ready rate burst ip l t) : 0 ≤ level l ip t := by
  have hburst : (0 : ℚ) ≤ l.burst := le_trans zero_le_one one_le_burst
  unfold level
  split
  · exact hburst
  · rename_i bucket hb
    obtain ⟨htokens, -, hlast⟩ := h.bucket bucket hb
    have hrise : 0 ≤ (t - durationSeconds bucket.last) * l.rate :=
      mul_nonneg (sub_nonneg.mpr hlast) l.rate_pos.le
    exact le_min hburst (add_nonneg htokens hrise)

theorem Ready.later {t t' : ℚ} (h : Ready rate burst ip l t) (ht : t ≤ t') :
    Ready rate burst ip l t' :=
  ⟨h.rate_eq, h.burst_eq, fun b hb =>
    ⟨(h.bucket b hb).1, (h.bucket b hb).2.1, le_trans (h.bucket b hb).2.2 ht⟩⟩

/-- The level rises at the rate, as long as the burst lets it. -/
theorem level_rises {t t' : ℚ} (ht : t ≤ t') :
    level l ip t' ≤ level l ip t + l.rate * (t' - t) := by
  have hrise : 0 ≤ l.rate * (t' - t) := mul_nonneg l.rate_pos.le (sub_nonneg.mpr ht)
  unfold level
  split
  · linarith
  · rename_i bucket hb
    rw [← min_add_add_right]
    apply min_le_min
    · linarith
    · have : bucket.tokens + (t - durationSeconds bucket.last) * l.rate + l.rate * (t' - t) =
          bucket.tokens + (t' - durationSeconds bucket.last) * l.rate := by ring
      rw [this]

/-- A request leaves the bucket of its address with what its level was, or one less. -/
theorem Ready.allow_self {now : ℤ} (hip : ip ≠ "") (h : Ready rate burst ip l (durationSeconds now)) :
    ∃ b, (l.allow ip now).2.clients ip = some b ∧
      b.tokens = level l ip (durationSeconds now) - (if (l.allow ip now).1.1 then 1 else 0) ∧
      0 ≤ b.tokens ∧ durationSeconds b.last = durationSeconds now := by
  cases hc : l.clients ip with
  | none =>
      have hone := one_le_burst (l := l)
      rw [allow_none hip hc, level_of_none hc]
      refine ⟨_, setClient_self, ?_, ?_, rfl⟩
      · simp
      · simpa using hone
  | some bucket =>
      obtain ⟨-, hburst, hlast⟩ := h.bucket bucket hc
      obtain ⟨htokens, hnow⟩ := refill_level hc hburst hlast
      by_cases hfull : 1 ≤ (l.refill bucket now).tokens
      · rw [allow_full hip hc hfull]
        refine ⟨_, setClient_self, ?_, ?_, hnow⟩
        · simp [htokens]
        · exact sub_nonneg.mpr hfull
      · rw [allow_short hip hc (not_le.mp hfull)]
        refine ⟨_, setClient_self, ?_, ?_, hnow⟩
        · simp [htokens]
        · rw [htokens]
          exact h.level_nonneg

theorem Ready.stays (hip : ip ≠ "") (h : Ready rate burst ip l (durationSeconds a.now)) :
    Ready rate burst ip (next l a) (durationSeconds a.now) := by
  obtain ⟨hrate, hburst⟩ := next_settings (l := l) (a := a)
  refine ⟨hrate.trans h.rate_eq, hburst.trans h.burst_eq, ?_⟩
  rw [hburst]
  intro b hb
  by_cases ha : a.ip = ip
  · subst ha
    obtain ⟨b', hb', htokens, hpos, hlast⟩ := h.allow_self hip
    obtain rfl : b' = b := Option.some.inj (hb'.symm.trans hb)
    refine ⟨hpos, ?_, hlast.le⟩
    have hle := level_le l a.ip (durationSeconds a.now)
    rw [htokens]
    split <;> linarith
  · rw [next_other ha] at hb
    exact h.bucket b hb

/-- A request that passes is paid for. -/
theorem Ready.pays (hip : ip ≠ "") (h : Ready rate burst ip l (durationSeconds a.now)) :
    level (next l a) ip (durationSeconds a.now) +
        (if (a.ip = ip ∧ (verdict l a).1 = true : Bool) then 1 else 0) ≤
      level l ip (durationSeconds a.now) := by
  by_cases ha : a.ip = ip
  · subst ha
    obtain ⟨b, hb, htokens, -, hlast⟩ := h.allow_self hip
    have hlevel : level (next l a) a.ip (durationSeconds a.now) ≤ b.tokens := by
      unfold level
      rw [show (next l a).clients a.ip = some b from hb]
      dsimp only
      rw [hlast, sub_self, zero_mul, add_zero]
      exact min_le_right _ _
    have hsame : (if (a.ip = a.ip ∧ (verdict l a).1 = true : Bool) then 1 else 0 : ℚ) =
        if (l.allow a.ip a.now).1.1 then 1 else 0 := by
      simp [verdict]
    rw [hsame]
    linarith
  · rw [level_congr (next_other ha) next_settings]
    simp [ha]

/-- A limiter's decisions about an address are metered by the level of its bucket. -/
theorem metered (hip : ip ≠ "") (hrate : 0 < rate) :
    Metered rate (burst : ℚ) next (fun a => durationSeconds a.now)
      (fun l a => (a.ip = ip ∧ (verdict l a).1 = true : Bool)) (Ready rate burst ip)
      (fun l t => level l ip t) where
  rate_nonneg := hrate.le
  capped := fun h => h.burst_eq ▸ level_le _ _ _
  solvent := Ready.level_nonneg
  later := Ready.later
  rises := fun h ht => h.rate_eq ▸ level_rises ht
  stays := Ready.stays hip
  pays := Ready.pays hip

theorem allowedWithin_eq {lo hi : ℚ} : ∀ {arrivals : List Arrival} {l : IPRateLimiter},
    allowedWithin ip lo hi (decisions l arrivals) =
      spentWithin next (fun a => durationSeconds a.now)
        (fun l a => (a.ip = ip ∧ (verdict l a).1 = true : Bool)) lo hi l arrivals := by
  intro arrivals
  induction arrivals with
  | nil => intro l; rfl
  | cons a rest ih =>
      intro l
      unfold allowedWithin at ih ⊢
      rw [decisions, List.countP_cons, ih, spentWithin, Nat.add_comm]
      congr 1
      simp only [decide_eq_true_eq]
      congr 1
      apply propext
      tauto

/-! ### Other addresses -/

theorem verdict_congr {l' : IPRateLimiter} (hc : l'.clients a.ip = l.clients a.ip)
    (hs : l'.rate = l.rate ∧ l'.burst = l.burst) :
    verdict l' a = verdict l a ∧ (next l' a).clients a.ip = (next l a).clients a.ip := by
  obtain ⟨hr, hb⟩ := hs
  unfold verdict next
  by_cases hip : a.ip = ""
  · rw [allow, allow, if_pos hip, if_pos hip]
    exact ⟨rfl, hc⟩
  · cases hbucket : l.clients a.ip with
    | none =>
        rw [allow_none hip hbucket, allow_none hip (hc.trans hbucket), hb]
        exact ⟨rfl, by rw [setClient_self, setClient_self]⟩
    | some bucket =>
        have hrefill : l'.refill bucket a.now = l.refill bucket a.now := by
          unfold refill
          rw [hr, hb]
        by_cases hfull : 1 ≤ (l.refill bucket a.now).tokens
        · rw [allow_full hip hbucket hfull, allow_full hip (hc.trans hbucket) (hrefill ▸ hfull),
            hrefill]
          exact ⟨rfl, by rw [setClient_self, setClient_self]⟩
        · have hshort := not_le.mp hfull
          rw [allow_short hip hbucket hshort,
            allow_short hip (hc.trans hbucket) (hrefill ▸ hshort), hrefill, hr]
          exact ⟨rfl, by rw [setClient_self, setClient_self]⟩

/-- What becomes of an address's requests is what would become of them alone. -/
theorem decisions_filter (ip : String) : ∀ {arrivals : List Arrival} {l l' : IPRateLimiter},
    l'.clients ip = l.clients ip → l'.rate = l.rate ∧ l'.burst = l.burst →
      (decisions l arrivals).filter (·.1.ip = ip) =
        decisions l' (arrivals.filter (·.ip = ip)) := by
  intro arrivals
  induction arrivals with
  | nil => intro l l' _ _; rfl
  | cons a rest ih =>
      intro l l' hc hs
      have hnext := next_settings (l := l) (a := a)
      by_cases ha : a.ip = ip
      · subst ha
        obtain ⟨hverdict, hbucket⟩ := verdict_congr hc hs
        have hnext' := next_settings (l := l') (a := a)
        have hrest := ih hbucket ⟨hnext'.1.trans (hs.1.trans hnext.1.symm),
          hnext'.2.trans (hs.2.trans hnext.2.symm)⟩
        rw [decisions, List.filter_cons_of_pos (by simp), List.filter_cons_of_pos (by simp),
          decisions, hverdict, hrest]
      · have hrest := ih (hc.trans (next_other ha).symm)
          ⟨hs.1.trans hnext.1.symm, hs.2.trans hnext.2.symm⟩
        rw [decisions, List.filter_cons_of_neg (by simpa using ha),
          List.filter_cons_of_neg (by simpa using ha), hrest]

/-! ### The retry delay -/

theorem after_settings : ∀ (arrivals : List Arrival) (l : IPRateLimiter),
    (after l arrivals).rate = l.rate ∧ (after l arrivals).burst = l.burst := by
  intro arrivals
  induction arrivals with
  | nil => intro l; exact ⟨rfl, rfl⟩
  | cons a rest ih =>
      intro l
      obtain ⟨hr, hb⟩ := ih (next l a)
      obtain ⟨hr', hb'⟩ := next_settings (l := l) (a := a)
      exact ⟨hr.trans hr', hb.trans hb'⟩

theorem after_other : ∀ {arrivals : List Arrival} {l : IPRateLimiter},
    (∀ a ∈ arrivals, a.ip ≠ ip) → (after l arrivals).clients ip = l.clients ip := by
  intro arrivals
  induction arrivals with
  | nil => intro l _; rfl
  | cons a rest ih =>
      intro l h
      have hrest := ih (l := next l a) (fun a' ha' => h a' (by simp [ha']))
      exact hrest.trans (next_other (h a (by simp)))

/-- What is ready stays ready over the requests up to an instant. -/
theorem Ready.after (hip : ip ≠ "") : ∀ {arrivals : List Arrival} {l : IPRateLimiter} {t t' : ℚ},
    Ready rate burst ip l t → (∀ a ∈ arrivals, t ≤ durationSeconds a.now) →
      (∀ a ∈ arrivals, durationSeconds a.now ≤ t') →
      arrivals.Pairwise (fun a b => a.now ≤ b.now) → t ≤ t' →
      Ready rate burst ip (IPRateLimiter.after l arrivals) t' := by
  intro arrivals
  induction arrivals with
  | nil => intro l t t' h _ _ _ ht; exact h.later ht
  | cons a rest ih =>
      intro l t t' h hfrom hto hsorted _
      rw [List.pairwise_cons] at hsorted
      have hstep := (h.later (hfrom a (by simp))).stays hip
      exact ih hstep (fun b hb => durationSeconds_le (hsorted.1 b hb))
        (fun b hb => hto b (by simp [hb])) hsorted.2 (hto a (by simp))

/-- A refused request that is made again after the delay passes. -/
theorem Ready.retry {t t' : ℤ} (hip : ip ≠ "") (h : Ready rate burst ip l (durationSeconds t))
    {delay : ℤ} (hrefused : (l.allow ip t).1 = (false, delay)) (ht : t + delay ≤ t')
    {others : List Arrival} (hothers : ∀ a ∈ others, a.ip ≠ ip) :
    ((IPRateLimiter.after (l.allow ip t).2 others).allow ip t').1.1 = true := by
  have hsecond : (0 : ℚ) < (second : ℚ) := by norm_num [second]
  cases hc : l.clients ip with
  | none =>
      rw [allow_none hip hc] at hrefused
      exact absurd (congrArg Prod.fst hrefused) (by simp)
  | some bucket =>
      by_cases hfull : 1 ≤ (l.refill bucket t).tokens
      · rw [allow_full hip hc hfull] at hrefused
        exact absurd (congrArg Prod.fst hrefused) (by simp)
      · have hshort := not_le.mp hfull
        obtain ⟨-, hburst, hlast⟩ := h.bucket bucket hc
        obtain ⟨htokens, hnow⟩ := refill_level hc hburst hlast
        rw [allow_short hip hc hshort] at hrefused ⊢
        -- the bucket in the end is the one the refused request left
        have hs := after_settings others (l.setClient ip (l.refill bucket t))
        have hkept : (IPRateLimiter.after (l.setClient ip (l.refill bucket t)) others).clients ip =
            some (l.refill bucket t) := (after_other hothers).trans setClient_self
        dsimp only
        generalize IPRateLimiter.after (l.setClient ip (l.refill bucket t)) others = l' at *
        have hdelay : (1 - (l.refill bucket t).tokens) / l.rate ≤ durationSeconds delay := by
          have hceil := Int.le_ceil ((1 - (l.refill bucket t).tokens) / l.rate * (second : ℚ))
          have heq : ⌈(1 - (l.refill bucket t).tokens) / l.rate * (second : ℚ)⌉ = delay :=
            congrArg Prod.snd hrefused
          rw [heq] at hceil
          exact (le_div_iff₀ hsecond).mpr hceil
        have hgap : durationSeconds delay ≤ durationSeconds t' - durationSeconds t := by
          rw [← durationSeconds_sub]
          exact durationSeconds_le (by omega)
        have hpos : 0 < (1 - (l.refill bucket t).tokens) / l.rate :=
          div_pos (by linarith) l.rate_pos
        have hneeded : 1 ≤ (l.refill bucket t).tokens +
            (durationSeconds t' - durationSeconds t) * l.rate := by
          have hle := le_trans hdelay hgap
          rw [div_le_iff₀ l.rate_pos] at hle
          linarith
        have hlevel : 1 ≤ level l' ip (durationSeconds t') := by
          unfold level
          rw [hkept]
          dsimp only
          rw [hnow, hs.1]
          exact le_min one_le_burst hneeded
        have hcap : (l.refill bucket t).tokens ≤ l'.burst := by
          rw [hs.2, htokens]
          exact level_le _ _ _
        have hstill : durationSeconds (l.refill bucket t).last ≤ durationSeconds t' := by
          rw [hnow]
          linarith
        have hfull' : 1 ≤ (l'.refill (l.refill bucket t) t').tokens := by
          rw [(refill_level hkept hcap hstill).1]
          exact hlevel
        rw [allow_full hip hkept hfull']

/-- The header asks for no less than the delay. -/
theorem delay_le_header {delay : ℤ} (hpos : 0 < delay) :
    delay ≤ ⌈durationSeconds (if delay ≤ 0 then second else delay)⌉ * second := by
  have hsecond : (0 : ℚ) < (second : ℚ) := by norm_num [second]
  rw [if_neg (by omega)]
  have hceil := Int.le_ceil (durationSeconds delay)
  unfold durationSeconds at hceil ⊢
  rw [div_le_iff₀ hsecond] at hceil
  exact_mod_cast hceil

/-- A request that is refused has some time to wait. -/
theorem refused_delay_pos {t delay : ℤ} (hip : ip ≠ "")
    (hrefused : (l.allow ip t).1 = (false, delay)) : 0 < delay := by
  cases hc : l.clients ip with
  | none =>
      rw [allow_none hip hc] at hrefused
      exact absurd (congrArg Prod.fst hrefused) (by simp)
  | some bucket =>
      by_cases hfull : 1 ≤ (l.refill bucket t).tokens
      · rw [allow_full hip hc hfull] at hrefused
        exact absurd (congrArg Prod.fst hrefused) (by simp)
      · have hshort := not_le.mp hfull
        rw [allow_short hip hc hshort] at hrefused
        have hdelay : ⌈(1 - (l.refill bucket t).tokens) / l.rate * (second : ℚ)⌉ = delay :=
          congrArg Prod.snd hrefused
        rw [← hdelay]
        have hneeded : 0 < (1 - (l.refill bucket t).tokens) / l.rate :=
          div_pos (by linarith) l.rate_pos
        exact Int.ceil_pos.mpr (mul_pos hneeded (by norm_num [second]))

/-- A limiter as it is made has every bucket full. -/
theorem newIPRateLimiter_eq (h : newIPRateLimiter rate burst = some l) :
    0 < rate ∧ 0 < burst ∧ l.rate = rate ∧ l.burst = burst ∧ l.clients = fun _ => none := by
  unfold newIPRateLimiter at h
  split at h
  · exact absurd h (by simp)
  · rename_i hpos
    rw [not_or, not_le, not_le] at hpos
    rw [← Option.some.inj h]
    exact ⟨hpos.1, hpos.2, rfl, rfl, rfl⟩

theorem ready_new (h : newIPRateLimiter rate burst = some l) (t : ℚ) : Ready rate burst ip l t := by
  obtain ⟨-, -, hrate, hburst, hclients⟩ := newIPRateLimiter_eq h
  refine ⟨hrate, hburst, ?_⟩
  intro b hb
  rw [hclients] at hb
  exact absurd hb (by simp)

theorem middleware_passes {t : ℤ} (h : (l.allow ip t).1.1 = true) :
    (rateLimitMiddleware (some l) ip t).1 = .next := by
  unfold rateLimitMiddleware
  dsimp only
  rw [if_pos h]

theorem middleware_refuses {t retryAfter : ℤ}
    (h : (rateLimitMiddleware (some l) ip t).1 = .tooManyRequests retryAfter) :
    ∃ delay, (l.allow ip t).1 = (false, delay) ∧
      retryAfter = ⌈durationSeconds (if delay ≤ 0 then second else delay)⌉ := by
  unfold rateLimitMiddleware at h
  dsimp only at h
  cases hallowed : (l.allow ip t).1.1 with
  | true =>
      rw [if_pos hallowed] at h
      exact absurd h (by simp)
  | false =>
      rw [if_neg (by rw [hallowed]; exact Bool.false_ne_true)] at h
      exact ⟨(l.allow ip t).1.2, Prod.ext hallowed rfl, (RateAnswer.tooManyRequests.inj h).symm⟩

theorem after_append (l : IPRateLimiter) (xs ys : List Arrival) :
    l.after (xs ++ ys) = (l.after xs).after ys := List.foldl_append

/-- **The limiter's bound**, for an address that is not empty: what passes in a window, that
other addresses do not count, and that a refused request may pass after its delay, be it the
limiter's in nanoseconds or the header's in seconds. -/
theorem rateLimit_bound (hl : newIPRateLimiter rate burst = some l) (hip : ip ≠ "")
    {arrivals : List Arrival} (hsorted : arrivals.Pairwise fun a b => a.now ≤ b.now) :
    (∀ lo d : ℚ, 0 ≤ d →
      (allowedWithin ip lo (lo + d) (l.decisions arrivals) : ℚ) ≤ burst + rate * d) ∧
    (l.decisions arrivals).filter (·.1.ip = ip) =
      l.decisions (arrivals.filter (·.ip = ip)) ∧
    ∀ earlier others later : List Arrival, ∀ first again : Arrival,
      arrivals = earlier ++ first :: (others ++ again :: later) →
      first.ip = ip → again.ip = ip → (∀ a ∈ others, a.ip ≠ ip) →
      (∀ delay, ((l.after earlier).allow ip first.now).1 = (false, delay) →
        first.now + delay ≤ again.now →
        ((l.after (earlier ++ first :: others)).allow ip again.now).1.1 = true) ∧
      (∀ retryAfter,
        (rateLimitMiddleware (some (l.after earlier)) ip first.now).1 = .tooManyRequests retryAfter →
        first.now + retryAfter * second ≤ again.now →
        (rateLimitMiddleware (some (l.after (earlier ++ first :: others))) ip again.now).1 =
          .next) := by
  obtain ⟨hrate, hburst, -, -, -⟩ := newIPRateLimiter_eq hl
  refine ⟨?_, decisions_filter ip rfl ⟨rfl, rfl⟩, ?_⟩
  · intro lo d hd
    rw [allowedWithin_eq]
    refine (metered hip hrate).spentWithin_le hd (fun a _ => ready_new hl _) ?_ ?_
    · exact hsorted.imp durationSeconds_le
    · exact_mod_cast hburst.le
  · intro earlier others later first again heq hfirst hagain hothers
    subst hfirst
    rw [heq, List.pairwise_append] at hsorted
    have hbefore : ∀ a ∈ earlier, a.now ≤ first.now := fun a ha => hsorted.2.2 a ha first (by simp)
    have hready : Ready rate burst first.ip (l.after earlier) (durationSeconds first.now) := by
      cases earlier with
      | nil => exact ready_new hl _
      | cons a rest =>
          have hhead := (List.pairwise_cons.mp hsorted.1).1
          refine Ready.after hip (ready_new hl (durationSeconds a.now)) ?_ ?_ hsorted.1 ?_
          · intro b hb
            rcases List.mem_cons.mp hb with hb | hb
            · rw [hb]
            · exact durationSeconds_le (hhead b hb)
          · intro b hb
            exact durationSeconds_le (hbefore b hb)
          · exact durationSeconds_le (hbefore a (by simp))
    have hretry : ∀ delay, ((l.after earlier).allow first.ip first.now).1 = (false, delay) →
        first.now + delay ≤ again.now →
        ((l.after (earlier ++ first :: others)).allow first.ip again.now).1.1 = true := by
      intro delay hrefused hlate
      rw [after_append]
      exact hready.retry hip hrefused hlate hothers
    refine ⟨hretry, ?_⟩
    intro retryAfter hrefused hlate
    obtain ⟨delay, hdelay, hheader⟩ := middleware_refuses hrefused
    have hle := delay_le_header (refused_delay_pos hip hdelay)
    rw [← hheader] at hle
    exact middleware_passes (hretry delay hdelay (by omega))

/-- A second request at once has to wait a second, and passes then. -/
theorem rateLimit_bound_retry :
    ∃ l, newIPRateLimiter 1 1 = some l ∧
      ((l.after [⟨"10.0.0.9", 0⟩]).allow "10.0.0.9" 0).1 = (false, second) ∧
      ((l.after [⟨"10.0.0.9", 0⟩, ⟨"10.0.0.9", 0⟩, ⟨"10.0.0.7", 5⟩]).allow "10.0.0.9" second).1.1 =
        true := by
  have hnew : newIPRateLimiter 1 1 = some ⟨fun _ => none, 1, 1, by norm_num, by norm_num⟩ := by
    unfold newIPRateLimiter
    rw [dif_neg (by norm_num)]
  have hrefused : ((IPRateLimiter.after ⟨fun _ => none, 1, 1, by norm_num, by norm_num⟩
      [⟨"10.0.0.9", 0⟩]).allow "10.0.0.9" 0).1 = (false, second) := by
    simp [after, next, allow, refill, setClient, durationSeconds, second]
    norm_num
  refine ⟨_, hnew, hrefused, ?_⟩
  have hsorted : List.Pairwise (fun a b => a.now ≤ b.now) ([⟨"10.0.0.9", 0⟩, ⟨"10.0.0.9", 0⟩,
      ⟨"10.0.0.7", 5⟩, ⟨"10.0.0.9", second⟩] : List Arrival) := by simp [second]
  have hip : "10.0.0.9" ≠ "" := by decide
  obtain ⟨-, -, hretry⟩ := rateLimit_bound hnew hip hsorted
  exact (hretry [⟨"10.0.0.9", 0⟩] [⟨"10.0.0.7", 5⟩] [] ⟨"10.0.0.9", 0⟩ ⟨"10.0.0.9", second⟩ rfl rfl
    rfl (by simp)).1 second hrefused (by simp)

/-- A request that names no address in its `X-Forwarded-For` has the empty one, and is let
through as often as it comes. -/
theorem rateLimit_no_address :
    (∀ splitHostPort xRealIP remoteAddr,
      clientIP splitHostPort ",10.0.0.9" xRealIP remoteAddr = "") ∧
    ¬ ∀ (rate : ℚ) (burst : ℤ) (l : IPRateLimiter) (ip : String) (arrivals : List Arrival)
      (lo d : ℚ), newIPRateLimiter rate burst = some l →
        arrivals.Pairwise (fun a b => a.now ≤ b.now) → 0 ≤ d →
        (allowedWithin ip lo (lo + d) (l.decisions arrivals) : ℚ) ≤ burst + rate * d := by
  constructor
  · intro splitHostPort xRealIP remoteAddr
    simp [clientIP, Go.trimSpace, Go.isSpace]
  · intro h
    have hnew : newIPRateLimiter 1 1 = some ⟨fun _ => none, 1, 1, by norm_num, by norm_num⟩ := by
      unfold newIPRateLimiter
      rw [dif_neg (by norm_num)]
    have hbound := h 1 1 _ "" [⟨"", 0⟩, ⟨"", 0⟩] 0 0 hnew (by simp) le_rfl
    have hcount : allowedWithin "" 0 (0 + 0)
        (decisions ⟨fun _ => none, 1, 1, by norm_num, by norm_num⟩ [⟨"", 0⟩, ⟨"", 0⟩]) = 2 := by
      simp [allowedWithin, decisions, verdict, allow, durationSeconds]
    rw [hcount] at hbound
    norm_num at hbound

end VMSmith.Api.IPRateLimiter
