/-
Calls on a tree of files, any of which may fail.

What a call is answered and what it leaves depend on the tree and on what the outside
decides: whether the call fails, whether two places are on file systems of their own,
and how far a call got that failed on its way.  What a call makes has the bits it asks for
less those of the umask; `chmod` alone sets bits as it is told.
-/
import VMSmith.Lib.FileTree
import VMSmith.Lib.Prog

inductive FileErr where
  | notExist
  | exist
  | notDir
  | crossDevice
  | invalid
  | other (text : String)
  deriving DecidableEq, Repr

def FileErr.text : FileErr → String
  | notExist => "no such file or directory"
  | exist => "file exists"
  | notDir => "not a directory"
  | crossDevice => "invalid cross-device link"
  | invalid => "invalid argument"
  | other text => text

inductive FileKind where
  | regular
  | dir
  | irregular
  deriving DecidableEq, Repr

structure FileInfo where
  kind : FileKind
  perm : FilePerm
  size : Nat

namespace FileEntry

def info : FileEntry → FileInfo
  | file content perm => { kind := .regular, perm, size := content.length }
  | dir perm => { kind := .dir, perm, size := 0 }
  | special => { kind := .irregular, perm := 0, size := 0 }

def withPerm (perm : FilePerm) : FileEntry → FileEntry
  | file content _ => file content perm
  | dir _ => dir perm
  | special => special

end FileEntry

namespace FileTree

/-- Something that is no directory is in the way to `p`, or at it. -/
def blocked (t : FileTree) (p : TreePath) : Bool :=
  p.inits.any fun q => (t.get q).any fun e => !e.isDir

/-- The error of looking at `p`, where there is nothing. -/
def missing (t : FileTree) (p : TreePath) : FileErr := if t.blocked p then .notDir else .notExist

/-- `p` is a name in a directory. -/
def inDir (t : FileTree) (p : TreePath) : Bool :=
  p ≠ [] && (t.get p.dropLast).any FileEntry.isDir

variable {t : FileTree} {p q : TreePath}

theorem blocked_iff : t.blocked p = true ↔ ∃ q e, q <+: p ∧ t.get q = some e ∧ e.isDir = false := by
  unfold blocked
  rw [List.any_eq_true]
  refine exists_congr fun q => ?_
  rw [List.mem_inits, Option.any_eq_true]
  constructor
  · rintro ⟨hqp, e, he, hdir⟩
    exact ⟨e, hqp, he, by simpa using hdir⟩
  · rintro ⟨e, hqp, he, hdir⟩
    exact ⟨hqp, e, he, by simpa using hdir⟩

theorem missing_ne_crossDevice (t : FileTree) (p : TreePath) : t.missing p ≠ .crossDevice := by
  unfold missing
  by_cases h : t.blocked p = true
  · simp [h]
  · simp [h]

theorem inDir_iff : t.inDir p = true ↔ p ≠ [] ∧ ∃ perm, t.get p.dropLast = some (.dir perm) := by
  unfold inDir
  rw [Bool.and_eq_true, decide_eq_true_iff, Option.any_eq_true]
  refine and_congr_right fun _ => ⟨?_, ?_⟩
  · rintro ⟨e, he, hdir⟩
    obtain ⟨perm, rfl⟩ := FileEntry.isDir_iff.mp hdir
    exact ⟨perm, he⟩
  · rintro ⟨perm, he⟩
    exact ⟨_, he, rfl⟩

theorem prefix_dropLast (hqp : q <+: p) (hne : q ≠ p) : q <+: p.dropLast := by
  by_cases hp : p = []
  · rw [hp] at hqp hne
    exact absurd (List.prefix_nil.mp hqp) hne
  · rw [← List.dropLast_concat_getLast hp, List.prefix_concat_iff,
      List.dropLast_concat_getLast hp] at hqp
    exact hqp.resolve_left hne

/-- All that a name in a directory is in is directories. -/
theorem Closed.dir_of_inDir (ht : t.Closed) (hp : t.inDir p = true) (hqp : q <+: p) (hne : q ≠ p) :
    ∃ perm, t.get q = some (.dir perm) := by
  obtain ⟨-, perm, hdir⟩ := inDir_iff.mp hp
  by_cases hq : q = p.dropLast
  · exact ⟨perm, by rw [hq, hdir]⟩
  · exact ht _ _ (by simp [hdir]) (prefix_dropLast hqp hne) hq

end FileTree

inductive FileCall where
  | lstat (p : TreePath)
  /-- All that a walk of `root` visits, in order. -/
  | walk (root : TreePath)
  | rename (old new : TreePath)
  | removeAll (p : TreePath)
  | mkdirAll (p : TreePath) (perm : FilePerm)
  | openFile (p : TreePath)
  /-- Open for writing a file that must not be there. -/
  | create (p : TreePath) (perm : FilePerm)
  /-- Append to `dst` at most `limit` bytes of `src` from `offset` on. -/
  | readFrom (dst src : TreePath) (offset limit : Nat)
  | sync (p : TreePath)
  | close (p : TreePath)
  | chmod (p : TreePath) (perm : FilePerm)

namespace FileCall

def Out : FileCall → Type
  | lstat _ => FileInfo
  | walk _ => List TreePath
  | readFrom _ _ _ _ => Nat
  | _ => Unit

abbrev Resp (c : FileCall) : Type := Except FileErr c.Out

/-- What a call does that no outside failure meets; `apart` says that its two paths are on
different file systems. -/
def act (umask : FilePerm) (apart : Bool) :
    (c : FileCall) → FileTree → Except FileErr (c.Out × FileTree)
  | lstat p, t =>
    match t.get p with
    | none => .error (t.missing p)
    | some e => .ok (e.info, t)
  | walk root, t =>
    match t.get root with
    | none => .error (t.missing root)
    | some _ => .ok (t.walk root, t)
  | rename old new, t =>
    if (t.get new).any FileEntry.isDir then
      if t.get old = none then .error (t.missing old) else .error .exist
    else if !t.inDir new then .error (t.missing new)
    -- a directory is not moved into itself
    else if old.isPrefixOf new && old ≠ new then .error .invalid
    else if apart then .error .crossDevice
    else
      match t.get old with
      | none => .error (t.missing old)
      | some e =>
        if e.isDir ∧ t.get new ≠ none then .error .notDir else .ok ((), t.rename old new)
  | removeAll p, t => .ok ((), t.removeTree p)
  | mkdirAll p perm, t =>
    if t.blocked p then .error .notDir else .ok ((), t.mkdirs p (perm &&& ~~~umask))
  | openFile p, t =>
    match t.get p with
    | none => .error (t.missing p)
    | some _ => .ok ((), t)
  | create p perm, t =>
    if t.get p ≠ none then .error .exist
    else if !t.inDir p then .error (t.missing p)
    else .ok ((), t.put p (.file [] (perm &&& ~~~umask)))
  | readFrom dst src offset limit, t =>
    match t.get src, t.get dst with
    | some (.file content _), some (.file copied perm) =>
      let chunk := (content.drop offset).take limit
      .ok (chunk.length, t.put dst (.file (copied ++ chunk) perm))
    | _, _ => .error .invalid
  | sync _, t => .ok ((), t)
  | close _, t => .ok ((), t)
  | chmod p perm, t =>
    match t.get p with
    | none => .error (t.missing p)
    | some e => .ok ((), t.put p (e.withPerm perm))

section

variable {umask : FilePerm} {apart : Bool} {t t' : FileTree} {p old new : TreePath}
  {perm : FilePerm} {e : FileErr}

theorem act_create_ok {out : Unit} (h : act umask apart (.create p perm) t = .ok (out, t')) :
    t.get p = none ∧ t.inDir p = true ∧ t' = t.put p (.file [] (perm &&& ~~~umask)) := by
  rw [act] at h
  by_cases hget : t.get p = none
  · rw [if_neg (not_not_intro hget)] at h
    by_cases hdir : t.inDir p = true
    · rw [if_neg (by simp [hdir])] at h
      exact ⟨hget, hdir, (congrArg Prod.snd (Except.ok.inj h)).symm⟩
    · rw [if_pos (by simp [hdir])] at h
      simp at h
  · rw [if_pos hget] at h
    simp at h

theorem act_create_error (h : act umask apart (.create p perm) t = .error e) :
    ¬ (t.get p = none ∧ t.inDir p = true) := by
  intro hfree
  rw [act, if_neg (not_not_intro hfree.1), if_neg (by simp [hfree.2])] at h
  simp at h

theorem act_mkdirAll_ok {out : Unit} (h : act umask apart (.mkdirAll p perm) t = .ok (out, t')) :
    t.blocked p = false ∧ t' = t.mkdirs p (perm &&& ~~~umask) := by
  rw [act] at h
  by_cases hblocked : t.blocked p = true
  · rw [if_pos hblocked] at h
    simp at h
  · rw [if_neg hblocked] at h
    exact ⟨Bool.eq_false_of_not_eq_true hblocked, (congrArg Prod.snd (Except.ok.inj h)).symm⟩

theorem act_lstat_ok {out : FileInfo} (h : act umask apart (.lstat p) t = .ok (out, t')) :
    t.get p ≠ none ∧ t' = t := by
  rw [act] at h
  cases hget : t.get p with
  | none => simp [hget] at h
  | some entry =>
    simp only [hget] at h
    exact ⟨by simp, (congrArg Prod.snd (Except.ok.inj h)).symm⟩

theorem act_lstat_error (h : act umask apart (.lstat p) t = .error e) :
    t.get p = none ∧ e = t.missing p := by
  rw [act] at h
  cases hget : t.get p with
  | none =>
    simp only [hget] at h
    exact ⟨rfl, (Except.error.inj h).symm⟩
  | some entry => simp [hget] at h

/-- A rename to where there is nothing. -/
theorem act_rename {entry : FileEntry} (hold : t.get old = some entry) (hnew : t.get new = none) :
    act umask apart (.rename old new) t =
      if t.inDir new = false then .error (t.missing new)
      else if old <+: new then .error .invalid
      else if apart = true then .error .crossDevice
      else .ok ((), t.rename old new) := by
  have hne : old ≠ new := by
    intro heq
    rw [heq, hnew] at hold
    simp at hold
  rw [act]
  simp only [hold, hnew]
  by_cases hdir : t.inDir new = true
  · by_cases hpre : old <+: new
    · simp [hdir, hne, hpre]
    · simp [hdir, hpre]
  · simp [hdir]

theorem act_rename_ok {entry : FileEntry} {out : Unit} (hold : t.get old = some entry)
    (hnew : t.get new = none) (h : act umask apart (.rename old new) t = .ok (out, t')) :
    t.inDir new = true ∧ ¬ old <+: new ∧ t' = t.rename old new := by
  rw [act_rename hold hnew] at h
  by_cases hdir : t.inDir new = false
  · rw [if_pos hdir] at h
    simp at h
  · by_cases hpre : old <+: new
    · rw [if_neg hdir, if_pos hpre] at h
      simp at h
    · rw [if_neg hdir, if_neg hpre] at h
      refine ⟨Bool.eq_true_of_not_eq_false hdir, hpre, ?_⟩
      by_cases hapart : apart = true
      · rw [if_pos hapart] at h
        simp at h
      · rw [if_neg hapart] at h
        exact (congrArg Prod.snd (Except.ok.inj h)).symm

theorem act_rename_crossDevice {entry : FileEntry} (hold : t.get old = some entry)
    (hnew : t.get new = none) (h : act umask apart (.rename old new) t = .error .crossDevice) :
    t.inDir new = true ∧ ¬ old <+: new := by
  rw [act_rename hold hnew] at h
  by_cases hdir : t.inDir new = false
  · rw [if_pos hdir] at h
    exact absurd (Except.error.inj h) (t.missing_ne_crossDevice new)
  · by_cases hpre : old <+: new
    · rw [if_neg hdir, if_pos hpre] at h
      simp at h
    · exact ⟨Bool.eq_true_of_not_eq_false hdir, hpre⟩

theorem act_mkdirAll_error (h : act umask apart (.mkdirAll p perm) t = .error e) :
    t.blocked p = true := by
  by_contra hblocked
  rw [act, if_neg hblocked] at h
  simp at h

end

end FileCall

/-- What the outside decides at a call. -/
structure FileChoice where
  /-- The text of the failure it meets. -/
  fail : Option String := none
  apart : Bool := false
  /-- What a removal that failed has left. -/
  kept : List TreePath := []
  /-- How many bytes, or directories, a call that failed had come to. -/
  done : Nat := 0

/-- Nothing from outside gets in the way. -/
def FileChoice.Calm (x : FileChoice) : Prop := x.fail = none ∧ x.apart = false

namespace FileCall

/-- What a call leaves that failed on its way. -/
def halfway (umask : FilePerm) (x : FileChoice) (t : FileTree) : FileCall → FileTree
  | removeAll p => t.removeSome p x.kept
  | mkdirAll p perm =>
    if t.blocked p then t else t.mkdirs (p.dropLast.take x.done) (perm &&& ~~~umask)
  | readFrom dst src offset limit =>
    match t.get src, t.get dst with
    | some (.file content _), some (.file copied perm) =>
      t.put dst (.file (copied ++ ((content.drop offset).take limit).take x.done) perm)
    | _, _ => t
  | _ => t

def exec (umask : FilePerm) (c : FileCall) (x : FileChoice) (t : FileTree) : c.Resp × FileTree :=
  match x.fail with
  | some text => (.error (.other text), c.halfway umask x t)
  | none =>
    match c.act umask x.apart t with
    | .ok (out, t') => (.ok out, t')
    | .error e => (.error e, t)

/-- Calls answered under the choices that are `free`. -/
def answers (umask : FilePerm) (free : FileChoice → Prop) : Prog.Sem FileCall Resp FileTree where
  allowed := fun _ _ => True
  next := fun t c r t' => ∃ x, free x ∧ c.exec umask x t = (r, t')

variable {umask : FilePerm} {free : FileChoice → Prop} {ε α : Type}

theorem answers_mono {free' : FileChoice → Prop} (hfree : ∀ x, free x → free' x) (t : FileTree)
    (c : FileCall) (resp : c.Resp) (t' : FileTree) (h : (answers umask free).next t c resp t') :
    (answers umask free').next t c resp t' := by
  obtain ⟨x, hx, hexec⟩ := h
  exact ⟨x, hfree x hx, hexec⟩

theorem answers_total {x : FileChoice} (hx : free x) (c : FileCall) (t : FileTree) :
    ∃ resp t', (answers umask free).next t c resp t' :=
  ⟨_, _, x, hx, rfl⟩

theorem runs_perform {c : FileCall} {f : c.Resp → Prog FileCall Resp ε α} {x : FileChoice}
    {t u v : FileTree} {resp : c.Resp} {res : Except ε α} (hx : free x)
    (hexec : c.exec umask x t = (resp, u))
    (hrest : Prog.Runs (answers umask free) (f resp) u res v) :
    Prog.Runs (answers umask free) (Prog.perform c >>= f) t res v :=
  .call ⟨x, hx, hexec⟩ hrest

/-- **What a call can come to.**  It does what it is for, or cannot and leaves the tree alone,
or fails on its way. -/
theorem wp_perform {c : FileCall} {f : c.Resp → Prog FileCall Resp ε α}
    {Q : Except ε α → FileTree → Prop} {t : FileTree}
    (hok : ∀ x out t', free x → x.fail = none → c.act umask x.apart t = .ok (out, t') →
      Prog.wp (answers umask free) (f (.ok out)) Q t')
    (herr : ∀ x e, free x → x.fail = none → c.act umask x.apart t = .error e →
      Prog.wp (answers umask free) (f (.error e)) Q t)
    (hfail : ∀ x text, free x → x.fail = some text →
      Prog.wp (answers umask free) (f (.error (.other text))) Q (c.halfway umask x t)) :
    Prog.wp (answers umask free) (Prog.perform c >>= f) Q t := by
  rw [Prog.bind_eq, Prog.wp_bind, Prog.wp_perform]
  refine ⟨trivial, ?_⟩
  rintro r t' ⟨x, hx, hexec⟩
  unfold exec at hexec
  cases hfl : x.fail with
  | some text =>
    rw [hfl] at hexec
    obtain ⟨rfl, rfl⟩ := Prod.mk.inj hexec
    exact hfail x text hx hfl
  | none =>
    rw [hfl] at hexec
    cases hact : c.act umask x.apart t with
    | ok res =>
      rw [hact] at hexec
      obtain ⟨rfl, rfl⟩ := Prod.mk.inj hexec
      exact hok x res.1 res.2 hx hfl hact
    | error e =>
      rw [hact] at hexec
      obtain ⟨rfl, rfl⟩ := Prod.mk.inj hexec
      exact herr x e hx hfl hact

end FileCall
