/-
Programs that issue commands.

A program returns, fails, or issues a command and goes on with the response.  What
a command does is not part of the program: one text is run against a state,
interleaved with others step by step, or examined for what it can issue at all.

`Sem` says what a command may be answered with from a state, and which commands
are in order there; `wp` is the weakest precondition of a program under it.  Two
readings of `Sem` matter.  Over a concrete state it is the usual one.  Over the
list of responses received so far, with every response possible, it speaks about a
program alone: whatever the commands answer, each one issued is in order given what
was answered before.  That form survives interleaving, because no other program
can change what this one was answered.
-/
import Mathlib.Data.Option.Basic
import Mathlib.Logic.Basic

/-- A program over commands `C`, where `c` is answered in `R c`. -/
inductive Prog (C : Type) (R : C → Type) (ε α : Type) where
  | ret (a : α)
  | throw (e : ε)
  | call (c : C) (k : R c → Prog C R ε α)

namespace Prog

variable {C : Type} {R : C → Type} {ε ε' α β σ : Type}

/-- Go on with the result, if there is one. -/
def bind : Prog C R ε α → (α → Prog C R ε β) → Prog C R ε β
  | ret a, f => f a
  | throw e, _ => throw e
  | call c k, f => call c fun r => bind (k r) f

instance : Monad (Prog C R ε) where
  pure := ret
  bind := bind

/-- Issue one command. -/
def perform (c : C) : Prog C R ε (R c) := call c ret

/-- Run a program that may fail and hand over how it ended. -/
def attempt : Prog C R ε α → Prog C R ε' (Except ε α)
  | ret a => ret (.ok a)
  | throw e => ret (.error e)
  | call c k => call c fun r => attempt (k r)

/-- A result that may be an error. -/
def ofExcept : Except ε α → Prog C R ε α
  | .ok a => ret a
  | .error e => throw e

/-- The program has returned or failed. -/
def isDone : Prog C R ε α → Bool
  | call _ _ => false
  | _ => true

/-- How a program that is done has ended. -/
def result? : Prog C R ε α → Option (Except ε α)
  | ret a => some (.ok a)
  | throw e => some (.error e)
  | call _ _ => none

@[simp] theorem pure_eq (a : α) : (pure a : Prog C R ε α) = ret a := rfl

@[simp] theorem bind_eq (p : Prog C R ε α) (f : α → Prog C R ε β) : (p >>= f) = p.bind f := rfl

@[simp] theorem ret_bind (a : α) (f : α → Prog C R ε β) : (ret a).bind f = f a := rfl

@[simp] theorem throw_bind (e : ε) (f : α → Prog C R ε β) :
    (throw e : Prog C R ε α).bind f = throw e := rfl

@[simp] theorem call_bind (c : C) (k : R c → Prog C R ε α) (f : α → Prog C R ε β) :
    (call c k).bind f = call c fun r => (k r).bind f := rfl

theorem bind_assoc {γ : Type} (p : Prog C R ε α) (f : α → Prog C R ε β) (g : β → Prog C R ε γ) :
    (p.bind f).bind g = p.bind fun a => (f a).bind g := by
  induction p with
  | ret a => rfl
  | throw e => rfl
  | call c k ih =>
      rw [call_bind, call_bind, call_bind]
      exact congrArg (call c) (funext ih)

/-! ### Meaning -/

/-- What commands do to a state, and which are in order in it. -/
structure Sem (C : Type) (R : C → Type) (σ : Type) where
  allowed : σ → C → Prop
  next : σ → (c : C) → R c → σ → Prop

variable (S : Sem C R σ)

/-- Every command the program issues is in order, and however it ends `Q` holds then. -/
def wp : Prog C R ε α → (Except ε α → σ → Prop) → σ → Prop
  | ret a, Q, s => Q (.ok a) s
  | throw e, Q, s => Q (.error e) s
  | call c k, Q, s => S.allowed s c ∧ ∀ r s', S.next s c r s' → wp (k r) Q s'

/-- The program can end with `res` in `t`. -/
inductive Runs : Prog C R ε α → σ → Except ε α → σ → Prop
  | ret (a : α) (s : σ) : Runs (ret a) s (.ok a) s
  | throw (e : ε) (s : σ) : Runs (throw e) s (.error e) s
  | call {c : C} {k : R c → Prog C R ε α} {s u t : σ} {r : R c} {res : Except ε α}
      (hnext : S.next s c r u) (hrest : Runs (k r) u res t) : Runs (call c k) s res t

variable {S}

@[simp] theorem wp_ret (a : α) (Q : Except ε α → σ → Prop) (s : σ) :
    wp S (ret a : Prog C R ε α) Q s ↔ Q (.ok a) s := Iff.rfl

@[simp] theorem wp_throw (e : ε) (Q : Except ε α → σ → Prop) (s : σ) :
    wp S (throw e : Prog C R ε α) Q s ↔ Q (.error e) s := Iff.rfl

theorem wp_call (c : C) (k : R c → Prog C R ε α) (Q : Except ε α → σ → Prop) (s : σ) :
    wp S (call c k) Q s ↔ S.allowed s c ∧ ∀ r s', S.next s c r s' → wp S (k r) Q s' := Iff.rfl

@[simp] theorem wp_perform (c : C) (Q : Except ε (R c) → σ → Prop) (s : σ) :
    wp S (perform c) Q s ↔ S.allowed s c ∧ ∀ r s', S.next s c r s' → Q (.ok r) s' := Iff.rfl

@[simp] theorem wp_ofExcept (r : Except ε α) (Q : Except ε α → σ → Prop) (s : σ) :
    wp S (ofExcept r) Q s ↔ Q r s := by
  cases r <;> exact Iff.rfl

-- from here on a program's meaning is had by these rules only, never by unfolding it
attribute [irreducible] wp

theorem wp_mono {Q Q' : Except ε α → σ → Prop} (h : ∀ r s, Q r s → Q' r s) :
    ∀ {p : Prog C R ε α} {s : σ}, wp S p Q s → wp S p Q' s := by
  intro p
  induction p with
  | ret a => exact fun hp => (wp_ret _ _ _).mpr (h _ _ ((wp_ret _ _ _).mp hp))
  | throw e => exact fun hp => (wp_throw _ _ _).mpr (h _ _ ((wp_throw _ _ _).mp hp))
  | call c k ih =>
      intro s hp
      rw [wp_call] at hp ⊢
      exact ⟨hp.1, fun r s' hn => ih r (hp.2 r s' hn)⟩

/-- A program in two parts: the second starts where the first returns. -/
theorem wp_bind {p : Prog C R ε α} {f : α → Prog C R ε β} {Q : Except ε β → σ → Prop} {s : σ} :
    wp S (p.bind f) Q s ↔
      wp S p (fun r s' => match r with
        | .ok a => wp S (f a) Q s'
        | .error e => Q (.error e) s') s := by
  induction p generalizing s with
  | ret a => rw [ret_bind, wp_ret]
  | throw e => rw [throw_bind, wp_throw, wp_throw]
  | call c k ih =>
      rw [call_bind, wp_call, wp_call]
      refine and_congr_right fun _ => forall_congr' fun r => forall_congr' fun s' => ?_
      exact imp_congr_right fun _ => ih r

/-- Handing over how a part ended keeps the run going. -/
theorem wp_attempt {p : Prog C R ε α} {Q : Except ε' (Except ε α) → σ → Prop} {s : σ} :
    wp S (p.attempt : Prog C R ε' (Except ε α)) Q s ↔ wp S p (fun r => Q (.ok r)) s := by
  induction p generalizing s with
  | ret a => rw [attempt, wp_ret, wp_ret]
  | throw e => rw [attempt, wp_ret, wp_throw]
  | call c k ih =>
      rw [attempt, wp_call, wp_call]
      refine and_congr_right fun _ => forall_congr' fun r => forall_congr' fun s' => ?_
      exact imp_congr_right fun _ => ih r

/-- What `wp` promises holds at the end of every run. -/
theorem wp_sound {p : Prog C R ε α} {Q : Except ε α → σ → Prop} {s t : σ} {res : Except ε α}
    (h : wp S p Q s) (hrun : Runs S p s res t) : Q res t := by
  induction hrun with
  | ret a s => exact (wp_ret _ _ _).mp h
  | throw e s => exact (wp_throw _ _ _).mp h
  | call hnext hrest ih => exact ih (((wp_call _ _ _ _).mp h).2 _ _ hnext)

/-- A program in two parts runs the second where the first has returned. -/
theorem Runs.bind {p : Prog C R ε α} {f : α → Prog C R ε β} {s t u : σ} {a : α} {res : Except ε β}
    (hp : Runs S p s (.ok a) t) (hf : Runs S (f a) t res u) : Runs S (p >>= f) s res u := by
  rw [bind_eq]
  generalize hres : (.ok a : Except ε α) = res' at hp
  induction hp with
  | ret b s =>
      rw [← Except.ok.inj hres]
      exact hf
  | throw e s => simp at hres
  | call hnext _ ih => exact .call hnext (ih hf hres)

/-- A run of a part is one that hands over how the part ended. -/
theorem Runs.attempt {p : Prog C R ε α} {s t : σ} {res : Except ε α} (h : Runs S p s res t) :
    Runs S (p.attempt : Prog C R ε' (Except ε α)) s (.ok res) t := by
  induction h with
  | ret a s => exact .ret _ s
  | throw e s => exact .ret _ s
  | call hnext _ ih => exact .call hnext ih

/-- Where more is possible a program still runs as it did. -/
theorem Runs.mono {S' : Sem C R σ} (hnext : ∀ s c r s', S.next s c r s' → S'.next s c r s')
    {p : Prog C R ε α} {s t : σ} {res : Except ε α} (hrun : Runs S p s res t) :
    Runs S' p s res t := by
  induction hrun with
  | ret a s => exact .ret a s
  | throw e s => exact .throw e s
  | call hn _ ih => exact .call (hnext _ _ _ _ hn) ih

/-- The program can come to issue `c`, in `t`. -/
inductive Issues (S : Sem C R σ) : Prog C R ε α → σ → C → σ → Prop
  | here (c : C) (k : R c → Prog C R ε α) (s : σ) : Issues S (call c k) s c s
  | later {c c' : C} {k : R c → Prog C R ε α} {s u t : σ} {r : R c} (hnext : S.next s c r u)
      (hrest : Issues S (k r) u c' t) : Issues S (call c k) s c' t

theorem Issues.bind {p : Prog C R ε α} {f : α → Prog C R ε β} {s t : σ} {c : C}
    (h : Issues S p s c t) : Issues S (p >>= f) s c t := by
  rw [bind_eq]
  induction h with
  | here c k s => exact .here c _ s
  | later hnext _ ih => exact .later hnext ih

theorem Issues.attempt {p : Prog C R ε α} {s t : σ} {c : C} (h : Issues S p s c t) :
    Issues S (p.attempt : Prog C R ε' (Except ε α)) s c t := by
  induction h with
  | here c k s => exact .here c _ s
  | later hnext _ ih => exact .later hnext ih

/-- What the second part can come to issue, when the first can return. -/
theorem Runs.issues {p : Prog C R ε α} {f : α → Prog C R ε β} {s t u : σ} {res : Except ε α}
    {a : α} {c : C} (hrun : Runs S p s res t) (ha : res = .ok a) (h : Issues S (f a) t c u) :
    Issues S (p >>= f) s c u := by
  rw [bind_eq]
  induction hrun with
  | ret b s =>
      rw [Except.ok.inj ha]
      exact h
  | throw e s => simp at ha
  | call hnext _ ih => exact .later hnext (ih ha h)

/-- Every command a program can come to issue is in order. -/
theorem wp_issues {p : Prog C R ε α} {Q : Except ε α → σ → Prop} {s t : σ} {c : C}
    (hp : wp S p Q s) (h : Issues S p s c t) : S.allowed t c := by
  induction h with
  | here c k s => exact ((wp_call _ _ _ _).mp hp).1
  | later hnext _ ih => exact ih (((wp_call _ _ _ _).mp hp).2 _ _ hnext)

/-- A property that every command keeps holds after every run. -/
theorem runs_invariant {I : σ → Prop} (hstep : ∀ s c r s', I s → S.next s c r s' → I s')
    {p : Prog C R ε α} {s t : σ} {res : Except ε α} (hs : I s) (hrun : Runs S p s res t) : I t := by
  induction hrun with
  | ret a s => exact hs
  | throw e s => exact hs
  | call hnext _ ih => exact ih (hstep _ _ _ _ hs hnext)

/-! ### What a program can issue at all -/

/-- Every command the program can ever issue satisfies `P`. -/
inductive Only (P : C → Prop) : {α : Type} → Prog C R ε α → Prop
  | ret {α : Type} (a : α) : Only P (ret a)
  | throw {α : Type} (e : ε) : Only P (throw e : Prog C R ε α)
  | call {α : Type} {c : C} {k : R c → Prog C R ε α} (hc : P c) (hk : ∀ r, Only P (k r)) :
      Only P (call c k)

theorem only_perform {P : C → Prop} {c : C} (h : P c) : Only P (perform c : Prog C R ε (R c)) :=
  .call h fun r => .ret r

theorem only_ofExcept (P : C → Prop) (r : Except ε α) : Only P (ofExcept r : Prog C R ε α) := by
  cases r with
  | ok a => exact .ret a
  | error e => exact .throw e

theorem Only.mono {P P' : C → Prop} (h : ∀ c, P c → P' c) {p : Prog C R ε α} (hp : Only P p) :
    Only P' p := by
  induction hp with
  | ret a => exact .ret a
  | throw e => exact .throw e
  | call hc _ ih => exact .call (h _ hc) ih

theorem Only.bind {P : C → Prop} {p : Prog C R ε α} {f : α → Prog C R ε β} (hp : Only P p)
    (hf : ∀ a, Only P (f a)) : Only P (p >>= f) := by
  rw [bind_eq]
  induction hp with
  | ret a => exact hf a
  | throw e => exact .throw e
  | call hc _ ih => exact .call hc ih

theorem Only.attempt {P : C → Prop} {p : Prog C R ε α} (hp : Only P p) :
    Only P (p.attempt : Prog C R ε' (Except ε α)) := by
  induction hp with
  | ret a => exact .ret _
  | throw e => exact .ret _
  | call hc _ ih => exact .call hc ih

/-- A program whose every command is answered, whatever it is, can come to its end. -/
theorem exists_runs (hS : ∀ c s, ∃ r s', S.next s c r s') (p : Prog C R ε α) (s : σ) :
    ∃ res t, Runs S p s res t := by
  induction p generalizing s with
  | ret a => exact ⟨_, _, .ret a s⟩
  | throw e => exact ⟨_, _, .throw e s⟩
  | call c k ih =>
      obtain ⟨r, s', hnext⟩ := hS c s
      obtain ⟨res, t, hrest⟩ := ih r s'
      exact ⟨res, t, .call hnext hrest⟩

/-- A program whose commands are all answered can come to its end. -/
theorem Only.exists_runs {P : C → Prop} (hP : ∀ c s, P c → ∃ r s', S.next s c r s') {p : Prog C R ε α}
    (hp : Only P p) (s : σ) : ∃ res t, Runs S p s res t := by
  induction hp generalizing s with
  | ret a => exact ⟨_, _, .ret a s⟩
  | throw e => exact ⟨_, _, .throw e s⟩
  | call hc _ ih =>
      obtain ⟨r, s', hnext⟩ := hP _ s hc
      obtain ⟨res, t, hrest⟩ := ih r s'
      exact ⟨res, t, .call hnext hrest⟩

/-- Every value the program can ever return satisfies `φ`. -/
inductive Yields {α : Type} (φ : α → Prop) : Prog C R ε α → Prop
  | ret {a : α} (h : φ a) : Yields φ (ret a)
  | throw (e : ε) : Yields φ (throw e)
  | call {c : C} {k : R c → Prog C R ε α} (hk : ∀ r, Yields φ (k r)) : Yields φ (call c k)

theorem Yields.bind {φ : α → Prop} {ψ : β → Prop} {p : Prog C R ε α} {f : α → Prog C R ε β}
    (hp : Yields φ p) (hf : ∀ a, φ a → Yields ψ (f a)) : Yields ψ (p >>= f) := by
  rw [bind_eq]
  induction hp with
  | ret h => exact hf _ h
  | throw e => exact .throw e
  | call _ ih => exact .call ih

theorem yields_true (p : Prog C R ε α) : Yields (fun _ => True) p := by
  induction p with
  | ret a => exact .ret trivial
  | throw e => exact .throw e
  | call c k ih => exact .call ih

theorem Yields.attempt {φ : α → Prop} {p : Prog C R ε α} (hp : Yields φ p) :
    Yields (fun r => ∀ a, r = .ok a → φ a) (p.attempt : Prog C R ε' (Except ε α)) := by
  induction hp with
  | ret h =>
      refine .ret fun a ha => ?_
      rw [← Except.ok.inj ha]
      exact h
  | throw e => exact .ret fun a ha => by simp at ha
  | call _ ih => exact .call ih

/-- The last part decides what is returned. -/
theorem Yields.last {ψ : β → Prop} {p : Prog C R ε α} {f : α → Prog C R ε β}
    (hf : ∀ a, Yields ψ (f a)) : Yields ψ (p >>= f) :=
  (yields_true p).bind fun a _ => hf a

theorem wp_yields {φ : α → Prop} {p : Prog C R ε α} {Q : Except ε α → σ → Prop} {s : σ}
    (hy : Yields φ p) (hp : wp S p Q s) :
    wp S p (fun r s' => Q r s' ∧ ∀ a, r = .ok a → φ a) s := by
  induction hy generalizing s with
  | ret h =>
      rw [wp_ret] at hp ⊢
      refine ⟨hp, fun a ha => ?_⟩
      rw [← Except.ok.inj ha]
      exact h
  | throw e =>
      rw [wp_throw] at hp ⊢
      exact ⟨hp, fun a ha => by simp at ha⟩
  | call _ ih =>
      rw [wp_call] at hp ⊢
      exact ⟨hp.1, fun r s' hn => ih r (hp.2 r s' hn)⟩

/-- **The frame rule.**  What no command of a part touches still holds after it. -/
theorem wp_of_only {P : C → Prop} (I : σ → Prop) (hok : ∀ s c, I s → P c → S.allowed s c)
    (hstep : ∀ s c r s', I s → P c → S.next s c r s' → I s') {p : Prog C R ε α} {s : σ}
    (hp : Only P p) (hs : I s) {Q : Except ε α → σ → Prop} (hQ : ∀ r s', I s' → Q r s') :
    wp S p Q s := by
  induction hp generalizing s with
  | ret a => exact (wp_ret _ _ _).mpr (hQ _ _ hs)
  | throw e => exact (wp_throw _ _ _).mpr (hQ _ _ hs)
  | call hc _ ih =>
      rw [wp_call]
      exact ⟨hok s _ hs hc, fun r s' hn => ih r (hstep s _ r s' hs hc hn)⟩

/-- Every command the program can ever issue satisfies `P`, and it never fails. -/
inductive Returns (P : C → Prop) : {α : Type} → Prog C R ε α → Prop
  | ret {α : Type} (a : α) : Returns P (ret a)
  | call {α : Type} {c : C} {k : R c → Prog C R ε α} (hc : P c) (hk : ∀ r, Returns P (k r)) :
      Returns P (call c k)

theorem returns_perform {P : C → Prop} {c : C} (h : P c) : Returns P (perform c : Prog C R ε (R c)) :=
  .call h fun r => .ret r

theorem Returns.bind {P : C → Prop} {p : Prog C R ε α} {f : α → Prog C R ε β} (hp : Returns P p)
    (hf : ∀ a, Returns P (f a)) : Returns P (p >>= f) := by
  rw [bind_eq]
  induction hp with
  | ret a => exact hf a
  | call hc _ ih => exact .call hc ih

/-- The frame rule, of a part that is sure to return. -/
theorem wp_of_returns {P : C → Prop} (I : σ → Prop) (hok : ∀ s c, I s → P c → S.allowed s c)
    (hstep : ∀ s c r s', I s → P c → S.next s c r s' → I s') {p : Prog C R ε α} {s : σ}
    (hp : Returns P p) (hs : I s) {Q : Except ε α → σ → Prop} (hQ : ∀ a s', I s' → Q (.ok a) s') :
    wp S p Q s := by
  induction hp generalizing s with
  | ret a => exact (wp_ret _ _ _).mpr (hQ _ _ hs)
  | call hc _ ih =>
      rw [wp_call]
      exact ⟨hok s _ hs hc, fun r s' hn => ih r (hstep s _ r s' hs hc hn)⟩

/-! ### Running -/

/-- Run a program against an executable meaning of its commands.  What the outside
world decides at each command comes from `choices`; too few of them, or a choice a
command has no use for, give nothing. -/
def run {χ : Type} (exec : (c : C) → χ → σ → Option (R c × σ)) :
    Prog C R ε α → List χ → σ → Option (Except ε α × σ)
  | ret a, [], s => some (.ok a, s)
  | throw e, [], s => some (.error e, s)
  | call c k, x :: xs, s => (exec c x s).bind fun (r, s') => run exec (k r) xs s'
  | _, _, _ => none

/-- The relation an executable meaning gives. -/
def Sem.ofExec {χ : Type} (exec : (c : C) → χ → σ → Option (R c × σ)) : Sem C R σ where
  allowed := fun _ _ => True
  next := fun s c r s' => ∃ x, exec c x s = some (r, s')

theorem runs_of_run {χ : Type} {exec : (c : C) → χ → σ → Option (R c × σ)} {p : Prog C R ε α}
    {xs : List χ} {s t : σ} {res : Except ε α} (h : run exec p xs s = some (res, t)) :
    Runs (Sem.ofExec exec) p s res t := by
  induction p generalizing xs s with
  | ret a =>
      cases xs with
      | nil =>
          simp only [run, Option.some.injEq, Prod.mk.injEq] at h
          obtain ⟨rfl, rfl⟩ := h
          exact .ret a s
      | cons x xs => simp [run] at h
  | throw e =>
      cases xs with
      | nil =>
          simp only [run, Option.some.injEq, Prod.mk.injEq] at h
          obtain ⟨rfl, rfl⟩ := h
          exact .throw e s
      | cons x xs => simp [run] at h
  | call c k ih =>
      cases xs with
      | nil => simp [run] at h
      | cons x xs =>
          simp only [run, Option.bind_eq_some_iff] at h
          obtain ⟨⟨r, s'⟩, hexec, hrest⟩ := h
          exact .call ⟨x, hexec⟩ (ih r hrest)

/-! ### A program alone -/

/-- The responses a program has received, latest first. -/
abbrev Log (C : Type) (R : C → Type) := List (Σ c : C, R c)

/-- Every response is possible; `ok` says which commands are in order after which
responses. -/
def Sem.alone (ok : Log C R → C → Prop) : Sem C R (Log C R) where
  allowed := ok
  next := fun log c r log' => log' = ⟨c, r⟩ :: log

theorem wp_alone_call {ok : Log C R → C → Prop} {c : C} {k : R c → Prog C R ε α}
    {Q : Except ε α → Log C R → Prop} {log : Log C R} :
    wp (Sem.alone ok) (call c k) Q log ↔
      ok log c ∧ ∀ r, wp (Sem.alone ok) (k r) Q (⟨c, r⟩ :: log) := by
  rw [wp_call]
  refine and_congr_right fun _ => ⟨fun h r => h r _ rfl, ?_⟩
  rintro h r log' rfl
  exact h r

theorem wp_alone_perform {ok : Log C R → C → Prop} {c : C} {f : R c → Prog C R ε α}
    {Q : Except ε α → Log C R → Prop} {log : Log C R} :
    wp (Sem.alone ok) (perform c >>= f) Q log ↔
      ok log c ∧ ∀ r, wp (Sem.alone ok) (f r) Q (⟨c, r⟩ :: log) := by
  rw [bind_eq, perform, call_bind, wp_alone_call]
  rfl

/-! ### Keeping account of the responses

Mostly a program's facts need less than all it has been answered.  An account is what
is kept of it: `add` says what one response changes. -/

section Account

variable {τ : Type} {add : τ → (c : C) → R c → τ} {ok : τ → C → Prop}

/-- The account of a log, from an empty one. -/
def Log.account (add : τ → (c : C) → R c → τ) (empty : τ) : Log C R → τ
  | [] => empty
  | ⟨c, r⟩ :: log => add (account add empty log) c r

/-- Every response is possible; `ok` says which commands are in order with which account. -/
def Sem.account (add : τ → (c : C) → R c → τ) (ok : τ → C → Prop) : Sem C R τ where
  allowed := ok
  next := fun v c r v' => v' = add v c r

theorem wp_account_call {c : C} {k : R c → Prog C R ε α} {Q : Except ε α → τ → Prop} {v : τ} :
    wp (Sem.account add ok) (call c k) Q v ↔
      ok v c ∧ ∀ r, wp (Sem.account add ok) (k r) Q (add v c r) := by
  rw [wp_call]
  refine and_congr_right fun _ => ⟨fun h r => h r _ rfl, ?_⟩
  rintro h r v' rfl
  exact h r

theorem wp_account_perform {c : C} {f : R c → Prog C R ε α} {Q : Except ε α → τ → Prop} {v : τ} :
    wp (Sem.account add ok) (perform c >>= f) Q v ↔
      ok v c ∧ ∀ r, wp (Sem.account add ok) (f r) Q (add v c r) := by
  rw [bind_eq, perform, call_bind, wp_account_call]
  rfl

/-- What holds of a program by its account holds of it alone. -/
theorem wp_alone_of_account {empty : τ} {p : Prog C R ε α} {Q : Except ε α → τ → Prop}
    {log : Log C R} (h : wp (Sem.account add ok) p Q (log.account add empty)) :
    wp (Sem.alone fun log c => ok (log.account add empty) c) p
      (fun r log => Q r (log.account add empty)) log := by
  induction p generalizing log with
  | ret a => exact (wp_ret _ _ _).mpr ((wp_ret _ _ _).mp h)
  | throw e => exact (wp_throw _ _ _).mpr ((wp_throw _ _ _).mp h)
  | call c k ih =>
      rw [wp_account_call] at h
      rw [wp_alone_call]
      exact ⟨h.1, fun r => ih r (h.2 r)⟩

end Account

end Prog
