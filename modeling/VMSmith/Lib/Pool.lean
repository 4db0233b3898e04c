/-
Programs interleaved over one state.

A pool is a state and the calls made so far, each with what is left of its program
and the responses it has received.  A step answers one command of one call, so a
schedule is any interleaving of the calls; calls may be made, and the world may
move by itself, between any two commands.  A restart loses the calls in flight.

`sound_step` is the rule the proofs stand on: what `Prog.wp` says of a call's
program alone stays true of what is left of it, whoever moves.  An invariant of the
pool then only has to look at one command at a time, with the facts the call's own
responses give.
-/
import VMSmith.Lib.Prog
import VMSmith.Lib.Run
import Mathlib.Data.List.Basic
import Mathlib.Algebra.Ring.Int.Defs

/-- One call: what was called, what is left of it, and what it was answered. -/
structure Thread (Op C : Type) (R : C → Type) (ε α : Type) where
  op : Op
  prog : Prog C R ε α
  log : Prog.Log C R := []
  /-- The calls that were in flight when this one was made. -/
  beside : List Nat := []
  /-- Lost in a restart. -/
  lost : Bool := false

/-- The world and every call made so far, in order. -/
structure Pool (Op C : Type) (R : C → Type) (ε α σ : Type) where
  world : σ
  threads : List (Thread Op C R ε α) := []

/-- Whose turn it is. -/
inductive PoolLabel (Op χ E : Type) where
  /-- A call is made. -/
  | call (op : Op)
  /-- The call at this place has its next command answered. -/
  | step (i : Nat) (x : χ)
  /-- The world moves by itself. -/
  | env (e : E)
  /-- Every call in flight is lost, and `op` is called. -/
  | restart (op : Op)
  deriving DecidableEq, Repr

variable {Op C : Type} {R : C → Type} {ε α σ χ E : Type}

namespace Thread

/-- Neither ended nor lost. -/
def inFlight (t : Thread Op C R ε α) : Bool := !t.lost && !t.prog.isDone

/-- The call has returned this. -/
def returned (t : Thread Op C R ε α) (a : α) : Prop := t.prog.result? = some (.ok a)

/-- The call has failed with this. -/
def failed (t : Thread Op C R ε α) (e : ε) : Prop := t.prog.result? = some (.error e)

/-- A call that is neither in flight nor lost has ended. -/
theorem ended_of_not_inFlight {t : Thread Op C R ε α} (h : t.inFlight = false)
    (hlost : t.lost = false) : ∃ res, t.prog.result? = some res := by
  simp only [inFlight, hlost, Bool.not_false, Bool.true_and, Bool.not_eq_false'] at h
  cases hp : t.prog with
  | ret a => exact ⟨_, rfl⟩
  | throw e => exact ⟨_, rfl⟩
  | call c k => simp [hp, Prog.isDone] at h

/-- Answer the next command. -/
def advance (t : Thread Op C R ε α) (c : C) (r : R c) (rest : Prog C R ε α) : Thread Op C R ε α :=
  { t with prog := rest, log := ⟨c, r⟩ :: t.log }

/-- The same call, but for its being lost since. -/
structure Alike (t u : Thread Op C R ε α) : Prop where
  op : u.op = t.op
  prog : u.prog = t.prog
  log : u.log = t.log
  beside : u.beside = t.beside
  lost : t.lost = true → u.lost = true

theorem Alike.refl (t : Thread Op C R ε α) : t.Alike t := ⟨rfl, rfl, rfl, rfl, id⟩

theorem Alike.inFlight {t u : Thread Op C R ε α} (h : t.Alike u) (hu : u.inFlight = true) :
    t.inFlight = true := by
  cases hlost : t.lost with
  | false =>
      simp only [Thread.inFlight, Bool.and_eq_true] at hu ⊢
      exact ⟨by rw [hlost]; rfl, h.prog ▸ hu.2⟩
  | true => simp [Thread.inFlight, h.lost hlost] at hu

end Thread

namespace Pool

/-- The places of the calls in flight. -/
def inFlight (p : Pool Op C R ε α σ) : List Nat :=
  (List.range p.threads.length).filter fun i => (p.threads[i]?.map Thread.inFlight).getD false

/-- No call is in flight. -/
def Quiet (p : Pool Op C R ε α σ) : Prop := ∀ t ∈ p.threads, t.inFlight = false

/-- Add a call. -/
def add (p : Pool Op C R ε α σ) (op : Op) (body : Prog C R ε α) : Pool Op C R ε α σ :=
  { p with threads := p.threads ++ [{ op := op, prog := body, beside := p.inFlight }] }

@[simp] theorem add_world (p : Pool Op C R ε α σ) (op : Op) (body : Prog C R ε α) :
    (p.add op body).world = p.world := rfl

/-- Lose the calls in flight. -/
def lose (p : Pool Op C R ε α σ) : Pool Op C R ε α σ :=
  { p with threads := p.threads.map fun t => if t.inFlight then { t with lost := true } else t }

/-- One step of the pool. -/
def step (body : Op → Prog C R ε α) (exec : (c : C) → χ → σ → Option (R c × σ))
    (env : E → σ → Option σ) (p : Pool Op C R ε α σ) :
    PoolLabel Op χ E → Option (Pool Op C R ε α σ)
  | .call op => some (p.add op (body op))
  | .step i x =>
      match p.threads[i]? with
      | none => none
      | some t =>
          if t.lost then none
          else match t.prog with
            | .call c k =>
                (exec c x p.world).map fun (r, w) =>
                  { world := w, threads := p.threads.set i (t.advance c r (k r)) }
            | _ => none
  | .env e => (env e p.world).map fun w => { p with world := w }
  | .restart op => some (p.lose.add op (body op))

/-! ### What a step can be -/

variable {body : Op → Prog C R ε α} {exec : (c : C) → χ → σ → Option (R c × σ)}
  {env : E → σ → Option σ} {p p' : Pool Op C R ε α σ}

/-- A step of a call answers the next command of its program. -/
theorem step_step {i : Nat} {x : χ} (h : step body exec env p (.step i x) = some p') :
    ∃ t c k r w, p.threads[i]? = some t ∧ t.lost = false ∧ t.prog = .call c k ∧
      exec c x p.world = some (r, w) ∧
      p' = { world := w, threads := p.threads.set i (t.advance c r (k r)) } := by
  simp only [step] at h
  cases ht : p.threads[i]? with
  | none => simp [ht] at h
  | some t =>
      cases hl : t.lost with
      | true => simp [ht, hl] at h
      | false =>
          cases hp : t.prog with
          | ret a => simp [ht, hl, hp] at h
          | throw e => simp [ht, hl, hp] at h
          | call c k =>
              simp only [ht, hl, hp, Bool.false_eq_true, if_false, Option.map_eq_some_iff] at h
              obtain ⟨⟨r, w⟩, hexec, rfl⟩ := h
              exact ⟨t, c, k, r, w, rfl, hl, hp, hexec, rfl⟩

theorem step_env {e : E} (h : step body exec env p (.env e) = some p') :
    ∃ w, env e p.world = some w ∧ p' = { p with world := w } := by
  simp only [step, Option.map_eq_some_iff] at h
  obtain ⟨w, hw, rfl⟩ := h
  exact ⟨w, hw, rfl⟩

/-- After a step of call `i` every other call is as it was. -/
theorem getElem?_advance {i j : Nat} {t u : Thread Op C R ε α} {ts : List (Thread Op C R ε α)}
    (hi : ts[i]? = some t) {t' : Thread Op C R ε α} (hj : (ts.set i t')[j]? = some u) :
    (j = i ∧ u = t') ∨ (j ≠ i ∧ ts[j]? = some u) := by
  by_cases hji : j = i
  · subst hji
    have hlt : j < ts.length := (List.getElem?_eq_some_iff.mp hi).1
    rw [List.getElem?_set_self hlt] at hj
    exact .inl ⟨rfl, (Option.some.inj hj).symm⟩
  · rw [List.getElem?_set_ne (Ne.symm hji)] at hj
    exact .inr ⟨hji, hj⟩

/-- How the number of calls of a kind changes with one of them. -/
theorem countP_advance {q : Thread Op C R ε α → Bool} {i : Nat} {t : Thread Op C R ε α}
    {ts : List (Thread Op C R ε α)} (hi : ts[i]? = some t) (t' : Thread Op C R ε α) :
    (ts.set i t').countP q + (if q t then 1 else 0) = ts.countP q + if q t' then 1 else 0 := by
  induction ts generalizing i with
  | nil => simp at hi
  | cons u ts ih =>
      cases i with
      | zero =>
          obtain rfl : u = t := Option.some.inj hi
          rw [List.set_cons_zero, List.countP_cons, List.countP_cons]
          omega
      | succ i =>
          have := ih (i := i) hi
          rw [List.set_cons_succ, List.countP_cons, List.countP_cons]
          omega

/-- How a sum over the calls changes with one of them. -/
theorem sum_advance {f : Thread Op C R ε α → Int} {i : Nat} {t : Thread Op C R ε α}
    {ts : List (Thread Op C R ε α)} (hi : ts[i]? = some t) (t' : Thread Op C R ε α) :
    ((ts.set i t').map f).sum + f t = (ts.map f).sum + f t' := by
  induction ts generalizing i with
  | nil => simp at hi
  | cons u ts ih =>
      cases i with
      | zero =>
          obtain rfl : u = t := Option.some.inj hi
          rw [List.set_cons_zero, List.map_cons, List.sum_cons, List.map_cons, List.sum_cons]
          omega
      | succ i =>
          have hrest := ih (i := i) hi
          rw [List.set_cons_succ, List.map_cons, List.sum_cons, List.map_cons, List.sum_cons]
          omega

/-- A call found after one was added was there before, or is the one added. -/
theorem getElem?_add {op : Op} {b : Prog C R ε α} {j : Nat} {u : Thread Op C R ε α}
    (hj : (p.add op b).threads[j]? = some u) :
    p.threads[j]? = some u ∨
      (j = p.threads.length ∧ u = { op := op, prog := b, beside := p.inFlight }) := by
  rw [add, List.getElem?_append] at hj
  split_ifs at hj with hlt
  · exact .inl hj
  · rw [List.getElem?_singleton] at hj
    split_ifs at hj with h0
    · exact .inr ⟨by omega, (Option.some.inj hj).symm⟩

theorem getElem?_lose {j : Nat} {u : Thread Op C R ε α} (hj : p.lose.threads[j]? = some u) :
    ∃ t, p.threads[j]? = some t ∧ (u = t ∧ t.inFlight = false ∨ u = { t with lost := true }) := by
  simp only [lose, List.getElem?_map, Option.map_eq_some_iff] at hj
  obtain ⟨t, ht, rfl⟩ := hj
  refine ⟨t, ht, ?_⟩
  cases hf : t.inFlight with
  | true => exact .inr (by simp)
  | false => exact .inl (by simp)

theorem mem_inFlight {j : Nat} :
    j ∈ p.inFlight ↔ ∃ t, p.threads[j]? = some t ∧ t.inFlight = true := by
  simp only [inFlight, List.mem_filter, List.mem_range]
  constructor
  · rintro ⟨-, h⟩
    cases ht : p.threads[j]? with
    | none => simp [ht] at h
    | some t => exact ⟨t, rfl, by simpa [ht] using h⟩
  · rintro ⟨t, ht, hf⟩
    exact ⟨(List.getElem?_eq_some_iff.mp ht).1, by simp [ht, hf]⟩

theorem getElem?_lose_of {j : Nat} {t : Thread Op C R ε α} (hj : p.threads[j]? = some t) :
    ∃ u, p.lose.threads[j]? = some u ∧ t.Alike u := by
  simp only [lose, List.getElem?_map, hj, Option.map_some, Option.some.injEq, exists_eq_left']
  cases t.inFlight with
  | true => exact ⟨rfl, rfl, rfl, rfl, fun _ => rfl⟩
  | false => exact .refl t

/-- When no call moves, the calls stay what they are, and at most one is new. -/
theorem threads_kept {l : PoolLabel Op χ E} (hl : ∀ i x, l ≠ .step i x)
    (h : step body exec env p l = some p') :
    (∀ (j : Nat) (t : Thread Op C R ε α), p.threads[j]? = some t →
      ∃ u, p'.threads[j]? = some u ∧ t.Alike u) ∧
    ∀ (j : Nat) (u : Thread Op C R ε α), p'.threads[j]? = some u →
      (∃ t, p.threads[j]? = some t ∧ t.Alike u) ∨
        (j = p.threads.length ∧ u.log = [] ∧ u.prog = body u.op ∧ u.lost = false) := by
  have hadd : ∀ (q : Pool Op C R ε α σ) (op : Op) (j : Nat) (t : Thread Op C R ε α),
      q.threads[j]? = some t → (q.add op (body op)).threads[j]? = some t := by
    intro q op j t hj
    have hlt := (List.getElem?_eq_some_iff.mp hj).1
    rw [add, List.getElem?_append_left hlt, hj]
  cases l with
  | step i x => exact absurd rfl (hl i x)
  | env e =>
      obtain ⟨w, -, rfl⟩ := step_env h
      exact ⟨fun j t hj => ⟨t, hj, .refl t⟩, fun j u hj => .inl ⟨u, hj, .refl u⟩⟩
  | call op =>
      simp only [step, Option.some.injEq] at h
      subst h
      refine ⟨fun j t hj => ⟨t, hadd p op j t hj, .refl t⟩, fun j u hj => ?_⟩
      rcases getElem?_add hj with hold | ⟨rfl, rfl⟩
      · exact .inl ⟨u, hold, .refl u⟩
      · exact .inr ⟨rfl, rfl, rfl, rfl⟩
  | restart op =>
      simp only [step, Option.some.injEq] at h
      subst h
      refine ⟨fun j t hj => ?_, fun j u hj => ?_⟩
      · obtain ⟨u, hu, halike⟩ := getElem?_lose_of hj
        exact ⟨u, hadd p.lose op j u hu, halike⟩
      · rcases getElem?_add hj with hold | ⟨hlen, rfl⟩
        · obtain ⟨t, ht, ⟨rfl, -⟩ | rfl⟩ := getElem?_lose hold
          · exact .inl ⟨u, ht, .refl u⟩
          · exact .inl ⟨t, ht, rfl, rfl, rfl, rfl, fun _ => rfl⟩
        · refine .inr ⟨?_, rfl, rfl, rfl⟩
          rw [hlen, lose, List.length_map]

/-- A step that is no call's command leaves the world alone, or is the world's own. -/
theorem world_kept {l : PoolLabel Op χ E} (hl : ∀ i x, l ≠ .step i x)
    (h : step body exec env p l = some p') :
    p'.world = p.world ∨ ∃ e, env e p.world = some p'.world := by
  cases l with
  | step i x => exact absurd rfl (hl i x)
  | env e =>
      obtain ⟨w, hw, rfl⟩ := step_env h
      exact .inr ⟨e, hw⟩
  | call op | restart op =>
      simp only [step, Option.some.injEq] at h
      exact .inl (h ▸ rfl)

/-! ### Earlier calls -/

/-- A call made before another and not in flight then is not in flight since. -/
def Ordered (p : Pool Op C R ε α σ) : Prop :=
  ∀ (i : Nat) (t : Thread Op C R ε α) (j : Nat) (u : Thread Op C R ε α),
    p.threads[i]? = some t → p.threads[j]? = some u → j < i → j ∉ t.beside →
    u.inFlight = false

theorem Ordered.add (h : p.Ordered) (op : Op) (b : Prog C R ε α) : (p.add op b).Ordered := by
  intro i t j u hi hj hji hbeside
  rcases getElem?_add hi with hi | ⟨rfl, rfl⟩
  · rcases getElem?_add hj with hj | ⟨rfl, rfl⟩
    · exact h i t j u hi hj hji hbeside
    · have := (List.getElem?_eq_some_iff.mp hi).1
      omega
  · rcases getElem?_add hj with hj | ⟨rfl, rfl⟩
    · cases hf : u.inFlight with
      | false => rfl
      | true => exact absurd (mem_inFlight.mpr ⟨u, hj, hf⟩) hbeside
    · omega

theorem Ordered.lose (p : Pool Op C R ε α σ) : p.lose.Ordered := by
  intro i t j u _ hj _ _
  obtain ⟨u', hj', hu'⟩ := getElem?_lose hj
  rcases hu' with ⟨rfl, hu⟩ | rfl
  · exact hu
  · simp [Thread.inFlight]

/-- What is not in flight does not move, so the order of calls is kept. -/
theorem ordered_step (hs : p.Ordered) {l : PoolLabel Op χ E} (h : step body exec env p l = some p') :
    p'.Ordered := by
  cases l with
  | call op =>
      simp only [step, Option.some.injEq] at h
      exact h ▸ hs.add op (body op)
  | step i x =>
      obtain ⟨t, c, k, r, w, ht, hl, hp, -, rfl⟩ := step_step h
      have hflight : t.inFlight = true := by simp [Thread.inFlight, hl, hp, Prog.isDone]
      intro a u b v ha hb hba hbeside
      have hbeside' : ∃ u', p.threads[a]? = some u' ∧ u'.beside = u.beside := by
        rcases getElem?_advance ht ha with ⟨rfl, rfl⟩ | ⟨-, hold⟩
        · exact ⟨t, ht, rfl⟩
        · exact ⟨u, hold, rfl⟩
      obtain ⟨u', hu', hbs⟩ := hbeside'
      rw [← hbs] at hbeside
      rcases getElem?_advance ht hb with ⟨rfl, -⟩ | ⟨-, hold⟩
      · have := hs a u' b t hu' ht hba hbeside
        rw [hflight] at this
        exact absurd this (by decide)
      · exact hs a u' b v hu' hold hba hbeside
  | env e =>
      obtain ⟨w, -, rfl⟩ := step_env h
      exact hs
  | restart op =>
      simp only [step, Option.some.injEq] at h
      exact h ▸ Ordered.add (Ordered.lose p) op (body op)

/-! ### Calls keep their own promises -/

variable {ok : Op → Prog.Log C R → C → Prop} {post : Op → Except ε α → Prog.Log C R → Prop}

/-- Every call's remaining program is in order after what it was answered. -/
def Sound (ok : Op → Prog.Log C R → C → Prop) (post : Op → Except ε α → Prog.Log C R → Prop)
    (p : Pool Op C R ε α σ) : Prop :=
  ∀ t ∈ p.threads, Prog.wp (Prog.Sem.alone (ok t.op)) t.prog (post t.op) t.log

theorem Sound.add (h : p.Sound ok post) {op : Op}
    (hbody : Prog.wp (Prog.Sem.alone (ok op)) (body op) (post op) []) :
    (p.add op (body op)).Sound ok post := by
  intro t ht
  rcases List.mem_append.mp ht with hold | hnew
  · exact h t hold
  · rw [List.mem_singleton] at hnew
    subst hnew
    exact hbody

theorem Sound.lose (h : p.Sound ok post) : p.lose.Sound ok post := by
  intro t ht
  obtain ⟨u, hu, rfl⟩ := List.mem_map.mp ht
  split_ifs
  · exact h u hu
  · exact h u hu

/-- **Calls stay sound.**  If every program is in order when it is called, what is left
of it is in order after every step of the pool. -/
theorem sound_step (hbody : ∀ op, Prog.wp (Prog.Sem.alone (ok op)) (body op) (post op) [])
    (hs : p.Sound ok post) {l : PoolLabel Op χ E} (h : step body exec env p l = some p') :
    p'.Sound ok post := by
  cases l with
  | call op =>
      simp only [step, Option.some.injEq] at h
      exact h ▸ hs.add (hbody op)
  | step i x =>
      obtain ⟨t, c, k, r, w, ht, -, hp, -, rfl⟩ := step_step h
      have hwp := hs t (List.mem_of_getElem? ht)
      rw [hp, Prog.wp_alone_call] at hwp
      intro u hu
      rcases List.mem_or_eq_of_mem_set hu with hold | rfl
      · exact hs u hold
      · exact hwp.2 r
  | env e =>
      obtain ⟨w, -, rfl⟩ := step_env h
      exact hs
  | restart op =>
      simp only [step, Option.some.injEq] at h
      exact h ▸ hs.lose.add (hbody op)

/-- The command a call is about to issue is in order. -/
theorem Sound.allowed (h : p.Sound ok post) {i : Nat} {t : Thread Op C R ε α} {c : C}
    {k : R c → Prog C R ε α} (ht : p.threads[i]? = some t) (hp : t.prog = .call c k) :
    ok t.op t.log c := by
  have hwp := h t (List.mem_of_getElem? ht)
  rw [hp, Prog.wp_alone_call] at hwp
  exact hwp.1

/-- A call that has ended has kept its promise. -/
theorem Sound.ended (h : p.Sound ok post) {t : Thread Op C R ε α} (ht : t ∈ p.threads)
    {res : Except ε α} (hres : t.prog.result? = some res) : post t.op res t.log := by
  have hwp := h t ht
  cases hp : t.prog with
  | ret a =>
      rw [hp] at hwp hres
      simp only [Prog.result?, Option.some.injEq] at hres
      exact hres ▸ (Prog.wp_ret _ _ _).mp hwp
  | throw e =>
      rw [hp] at hwp hres
      simp only [Prog.result?, Option.some.injEq] at hres
      exact hres ▸ (Prog.wp_throw _ _ _).mp hwp
  | call c k => simp [hp, Prog.result?] at hres

end Pool
