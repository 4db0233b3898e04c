/-
A moved directory can be brought back, and is moved whole.

By a rename this is plain.  By a copy it rests on what stands in the staging tree after each
step of the second walk: of the source, what has been visited; of the rest, what an earlier
attempt left.  What has been visited is there as in the source but for the bits of its
directories, which the umask filters: it is here that the copy and the source part.

The source is never written, because the staging tree and the source do not meet.  They do
if the source is itself in a directory of the staging name, and then the very first removal
takes it.
-/
import VMSmith.VM.DirRelocate

namespace VMSmith

open Prog (wp perform wp_bind wp_ret wp_throw)
open FileCall (answers)

variable {umask : FilePerm} {free : FileChoice → Prop} {α : Type}

/-! ### How a part ends -/

/-- Nothing free gets in the way. -/
def Undisturbed (free : FileChoice → Prop) : Prop := ∀ x, free x → x.Calm

theorem Undisturbed.not_fails {x : FileChoice} {text : String} (hx : free x)
    (hfail : x.fail = some text) : ¬ Undisturbed free := by
  intro h
  rw [(h x hx).1] at hfail
  simp at hfail

/-- However a part ends `frame` holds; when it returns so does `post`, and it does if it is
`sure` to. -/
def Ends (sure : Prop) (frame : FileTree → Prop) (post : α → FileTree → Prop) :
    Except String α → FileTree → Prop
  | .ok a, t => frame t ∧ post a t
  | .error _, t => frame t ∧ ¬ sure

namespace DirProg

variable {t : FileTree}

theorem wp_callOrFail {c : FileCall} {Q : Except String c.Out → FileTree → Prop}
    (hok : ∀ x out t', free x → x.fail = none → c.act umask x.apart t = .ok (out, t') →
      Q (.ok out) t')
    (herr : ∀ x e, free x → x.fail = none → c.act umask x.apart t = .error e →
      Q (.error e.text) t)
    (hfail : ∀ x text, free x → x.fail = some text → Q (.error text) (c.halfway umask x t)) :
    wp (answers umask free) (callOrFail c) Q t := by
  unfold callOrFail
  refine FileCall.wp_perform ?_ ?_ ?_
  · intro x out t' hx hfl hact
    exact (wp_ret _ _ _).mpr (hok x out t' hx hfl hact)
  · intro x e hx hfl hact
    exact (wp_throw _ _ _).mpr (herr x e hx hfl hact)
  · intro x text hx hfl
    exact (wp_throw _ _ _).mpr (hfail x text hx hfl)

/-- A call that only the outside can get in the way of. -/
theorem wp_surely {c : FileCall} {out : c.Out} {t' : FileTree}
    {Q : Except String c.Out → FileTree → Prop}
    (hact : ∀ apart, c.act umask apart t = .ok (out, t')) (hok : Q (.ok out) t')
    (hfail : ∀ x text, ¬ Undisturbed free → Q (.error text) (c.halfway umask x t)) :
    wp (answers umask free) (callOrFail c) Q t := by
  refine wp_callOrFail ?_ ?_ ?_
  · intro x out' u _ _ hres
    rw [hact] at hres
    obtain ⟨rfl, rfl⟩ := Prod.mk.inj (Except.ok.inj hres)
    exact hok
  · intro x e _ _ hres
    rw [hact] at hres
    simp at hres
  · intro x text hx hfl
    exact hfail x text (Undisturbed.not_fails hx hfl)

theorem wp_lstat {p : TreePath} {e : FileEntry} {Q : Except String FileInfo → FileTree → Prop}
    (hget : t.get p = some e) (hok : Q (.ok e.info) t)
    (hfail : ∀ text, ¬ Undisturbed free → Q (.error text) t) :
    wp (answers umask free) (callOrFail (.lstat p)) Q t := by
  refine wp_surely (fun apart => ?_) hok fun _ => hfail
  rw [FileCall.act]
  simp only [hget]

theorem wp_walk {root : TreePath} {e : FileEntry}
    {Q : Except String (List TreePath) → FileTree → Prop}
    (hget : t.get root = some e) (hok : Q (.ok (t.walk root)) t)
    (hfail : ∀ text, ¬ Undisturbed free → Q (.error text) t) :
    wp (answers umask free) (callOrFail (.walk root)) Q t := by
  refine wp_surely (fun apart => ?_) hok fun _ => hfail
  rw [FileCall.act]
  simp only [hget]

/-- A part, and what comes after it when it returns. -/
theorem wp_then {β : Type} {p : DirProg β} {f : β → DirProg α}
    {Q : Except String α → FileTree → Prop}
    (h : wp (answers umask free) p (fun res u => match res with
      | .ok a => wp (answers umask free) (f a) Q u
      | .error e => Q (.error e) u) t) :
    wp (answers umask free) (p >>= f) Q t := by
  refine wp_bind.mpr (Prog.wp_mono ?_ h)
  intro res u hres
  cases res with
  | ok a => exact hres
  | error e => exact hres

theorem wp_seq {β : Type} {p : DirProg β} {f : β → DirProg α} {sure sure' : Prop}
    {frame frame' : FileTree → Prop} {post : β → FileTree → Prop} {post' : α → FileTree → Prop}
    (hp : wp (answers umask free) p (Ends sure frame post) t) (hsure : sure' → sure)
    (hframe : ∀ u, frame u → frame' u)
    (hok : ∀ a u, frame u → post a u → wp (answers umask free) (f a) (Ends sure' frame' post') u) :
    wp (answers umask free) (p >>= f) (Ends sure' frame' post') t := by
  refine wp_then (Prog.wp_mono ?_ hp)
  intro res u hres
  cases res with
  | ok a => exact hok a u hres.1 hres.2
  | error e => exact ⟨hframe u hres.1, fun h => hres.2 (hsure h)⟩

/-- A call that changes nothing, whose answer is not looked at. -/
theorem wp_aside {c : FileCall} {f : c.Resp → DirProg α} {Q : Except String α → FileTree → Prop}
    (hact : ∀ apart out t', c.act umask apart t = .ok (out, t') → t' = t)
    (hhalf : ∀ x, c.halfway umask x t = t)
    (h : ∀ resp, wp (answers umask free) (f resp) Q t) :
    wp (answers umask free) (perform c >>= f) Q t := by
  refine FileCall.wp_perform ?_ ?_ ?_
  · intro x out t' _ _ hres
    rw [hact _ _ _ hres]
    exact h _
  · intro x e _ _ _
    exact h _
  · intro x text _ _
    rw [hhalf]
    exact h _

theorem wp_close {p : TreePath} {f : (FileCall.close p).Resp → DirProg α}
    {Q : Except String α → FileTree → Prop}
    (h : ∀ resp, wp (answers umask free) (f resp) Q t) :
    wp (answers umask free) (perform (.close p) >>= f) Q t :=
  wp_aside (fun _ _ _ hact => (congrArg Prod.snd (Except.ok.inj hact)).symm) (fun _ => rfl) h

theorem wp_sync {p : TreePath} {f : (FileCall.sync p).Resp → DirProg α}
    {Q : Except String α → FileTree → Prop}
    (h : ∀ resp, wp (answers umask free) (f resp) Q t) :
    wp (answers umask free) (perform (.sync p) >>= f) Q t :=
  wp_aside (fun _ _ _ hact => (congrArg Prod.snd (Except.ok.inj hact)).symm) (fun _ => rfl) h

/-- What a removal can leave, whether it failed or not. -/
structure Cleared (root : TreePath) (t u : FileTree) : Prop where
  outside : ∀ p, ¬ root <+: p → u.get p = t.get p
  fewer : ∀ p, u.get p = none ∨ u.get p = t.get p
  closed : t.Closed → u.Closed

theorem cleared_removeTree (root : TreePath) (t : FileTree) : Cleared root t (t.removeTree root) where
  outside := fun p hp => by rw [FileTree.get_removeTree, if_neg hp]
  fewer := t.get_drop_eq_or _
  closed := fun ht => ht.removeTree root

theorem cleared_removeSome (root : TreePath) (kept : List TreePath) (t : FileTree) :
    Cleared root t (t.removeSome root kept) where
  outside := fun _ hp => FileTree.get_removeSome_of_not_prefix hp
  fewer := t.get_drop_eq_or _
  closed := fun ht => ht.removeSome root kept

/-- A removal that is not asked how it went. -/
theorem wp_removeAll {root : TreePath} {f : (FileCall.removeAll root).Resp → DirProg α}
    {Q : Except String α → FileTree → Prop}
    (h : ∀ resp u, Cleared root t u → wp (answers umask free) (f resp) Q u) :
    wp (answers umask free) (perform (.removeAll root) >>= f) Q t := by
  refine FileCall.wp_perform ?_ ?_ ?_
  · intro x out u _ _ hact
    obtain ⟨-, rfl⟩ := Prod.mk.inj (Except.ok.inj hact)
    exact h _ _ (cleared_removeTree root t)
  · intro x e _ _ hact
    rw [FileCall.act] at hact
    simp at hact
  · intro x text _ _
    exact h _ _ (cleared_removeSome root x.kept t)

end DirProg

/-! ### One file -/

namespace DirRelocator

open DirProg

variable {r : DirRelocator} {t : FileTree} {src dst : TreePath} {content : List UInt8}
  {perm : FilePerm}

/-- Everything else is as it was. -/
def SameBut (dst : TreePath) (t u : FileTree) : Prop := ∀ p, p ≠ dst → u.get p = t.get p

theorem sameBut_put {e : FileEntry} : SameBut dst t (t.put dst e) := by
  intro p hp
  rw [FileTree.get_put, if_neg hp]

theorem SameBut.trans {u v : FileTree} (h : SameBut dst t u) (h' : SameBut dst u v) :
    SameBut dst t v := fun p hp => (h' p hp).trans (h p hp)

theorem take_length_take (l : List UInt8) (n : Nat) : l.take (l.take n).length = l.take n := by
  rw [List.take_eq_take_iff, List.length_take]
  omega

/-- The rounds left are more than the bytes left, so the copy is whole when they end. -/
theorem wp_copyChunks (hne : src ≠ dst) {bits : FilePerm} (rounds : Nat) :
    ∀ (copied : Nat) (t : FileTree), t.get src = some (.file content perm) →
      t.get dst = some (.file (content.take copied) bits) →
      content.length < copied + rounds →
      wp (answers umask free) (r.copyChunks src dst rounds copied)
        (Ends (Undisturbed free) (SameBut dst t)
          fun _ u => u.get dst = some (.file content bits)) t := by
  induction rounds with
  | zero =>
    intro copied t _ hdst hmore
    rw [List.take_of_length_le (by omega)] at hdst
    unfold copyChunks
    exact (wp_ret _ _ _).mpr ⟨fun _ _ => rfl, hdst⟩
  | succ rounds ih =>
    intro copied t hsrc hdst hmore
    unfold copyChunks
    refine FileCall.wp_perform ?_ ?_ ?_
    · intro x out t' _ _ hact
      rw [FileCall.act] at hact
      simp only [hsrc, hdst] at hact
      obtain ⟨rfl, rfl⟩ := Prod.mk.inj (Except.ok.inj hact)
      dsimp only
      by_cases hend : ((content.drop copied).take r.chunkSize).length = 0
      · rw [if_pos hend]
        have hpos := r.pos
        rw [List.length_take, List.length_drop] at hend
        refine (wp_ret _ _ _).mpr ⟨sameBut_put, ?_⟩
        show FileTree.get _ dst = _
        rw [FileTree.get_put, if_pos rfl, List.take_of_length_le (by omega),
          List.drop_eq_nil_of_le (by omega), List.take_nil, List.append_nil]
      · rw [if_neg hend]
        refine Prog.wp_mono ?_ (ih _ _ ?_ ?_ ?_)
        · intro res u hres
          cases res with
          | ok a => exact ⟨sameBut_put.trans hres.1, hres.2⟩
          | error e => exact ⟨sameBut_put.trans hres.1, hres.2⟩
        · rw [FileTree.get_put, if_neg hne]
          exact hsrc
        · rw [FileTree.get_put, if_pos rfl]
          rw [List.take_add, take_length_take]
        · omega
    · intro x e _ _ hact
      rw [FileCall.act] at hact
      simp only [hsrc, hdst] at hact
      simp at hact
    · intro x text hx hfl
      refine wp_close fun _ => (wp_throw _ _ _).mpr ⟨?_, Undisturbed.not_fails hx hfl⟩
      rw [FileCall.halfway]
      simp only [hsrc, hdst]
      exact sameBut_put

/-- A file is copied with all its bits, where there was none. -/
theorem wp_copyFile (hne : src ≠ dst) (hsrc : t.get src = some (.file content perm)) :
    wp (answers umask free) (r.copyFile src dst content.length perm)
      (Ends (Undisturbed free ∧ t.get dst = none ∧ t.inDir dst = true) (SameBut dst t)
        fun _ u => t.get dst = none ∧ u.get dst = some (.file content perm)) t := by
  unfold copyFile
  have hopen : ∀ apart, (FileCall.openFile src).act umask apart t = .ok ((), t) := by
    intro apart
    rw [FileCall.act]
    simp only [hsrc]
  refine wp_then (wp_surely hopen ?_ fun x text h => ⟨fun _ _ => rfl, fun hsure => h hsure.1⟩)
  refine wp_then (wp_callOrFail ?_ ?_ ?_)
  · intro x out t' _ _ hact
    obtain ⟨hnone, -, rfl⟩ := FileCall.act_create_ok hact
    have hsrc' : (t.put dst (.file [] (perm &&& ~~~umask))).get src = some (.file content perm) := by
      rw [FileTree.get_put, if_neg hne]
      exact hsrc
    have hdst' : (t.put dst (.file [] (perm &&& ~~~umask))).get dst
        = some (.file (content.take 0) (perm &&& ~~~umask)) := by
      rw [FileTree.get_put, if_pos rfl, List.take_zero]
    refine wp_seq (wp_copyChunks hne _ 0 _ hsrc' hdst' (by omega)) And.left
      (fun u => sameBut_put.trans) ?_
    intro _ u hsame hcopied
    have hframe : SameBut dst t u := sameBut_put.trans hsame
    refine FileCall.wp_perform ?_ ?_ ?_
    · intro x out u' _ _ hres
      obtain ⟨-, rfl⟩ := Prod.mk.inj (Except.ok.inj hres)
      refine wp_then (wp_surely (fun _ => rfl) ?_ ?_)
      swap
      · exact fun x text h => ⟨hframe, fun hsure => h hsure.1⟩
      have hchmod : ∀ apart, (FileCall.chmod dst perm).act umask apart u
          = .ok ((), u.put dst (.file content perm)) := by
        intro apart
        rw [FileCall.act]
        simp only [hcopied]
        rfl
      refine wp_surely hchmod ?_ fun x text h => ⟨hframe, fun hsure => h hsure.1⟩
      refine ⟨hframe.trans sameBut_put, hnone, ?_⟩
      rw [FileTree.get_put, if_pos rfl]
    · intro x e _ _ hres
      rw [FileCall.act] at hres
      simp at hres
    · intro x text hx hfl
      refine wp_close fun _ => (wp_throw _ _ _).mpr ⟨hframe, fun hsure => ?_⟩
      exact Undisturbed.not_fails hx hfl hsure.1
  · intro x e hx _ hact
    exact ⟨fun _ _ => rfl, fun hsure => FileCall.act_create_error hact hsure.2⟩
  · intro x text hx hfl
    exact ⟨fun _ _ => rfl, fun hsure => Undisturbed.not_fails hx hfl hsure.1⟩

end DirRelocator

/-! ### The staging tree -/

/-- What a copy of an entry makes of what is in its place.  A directory that is there is used
as it is. -/
def landed (umask : FilePerm) : FileEntry → Option FileEntry → FileEntry
  | .dir _, some (.dir bits) => .dir bits
  | .dir perm, _ => .dir (perm &&& ~~~umask)
  | e, _ => e

/-- Nothing is in the way of a copy of `e`, unless a directory of a directory. -/
def Fits (e : FileEntry) (old : Option FileEntry) : Prop :=
  ∀ o, old = some o → o.isDir = true ∧ e.isDir = true

theorem fits_none {e : FileEntry} : Fits e none := fun _ h => by simp at h

theorem landed_dir {perm : FilePerm} {old : Option FileEntry} (h : Fits (.dir perm) old) :
    ∃ bits, landed umask (.dir perm) old = .dir bits := by
  cases old with
  | none => exact ⟨_, rfl⟩
  | some o =>
    obtain ⟨bits, rfl⟩ := FileEntry.isDir_iff.mp (h o rfl).1
    exact ⟨bits, rfl⟩

/-- A tree to copy from `src` to `stg`. -/
structure Staging (t : FileTree) (src stg : TreePath) : Prop where
  closed : t.Closed
  dir : ∃ perm, t.get src = some (.dir perm)
  plain : ∀ rel, t.get (src ++ rel) ≠ some .special
  home : t.inDir stg = true
  /-- The two do not meet. -/
  apart : ¬ stg <+: src
  apart' : ¬ src <+: stg

/-- What stands in `u` when the copy has come past the paths `visited`. -/
structure Copied (umask : FilePerm) (t : FileTree) (src stg : TreePath) (visited : List TreePath)
    (u : FileTree) : Prop where
  outside : ∀ p, ¬ stg <+: p → u.get p = t.get p
  fits : ∀ rel e, src ++ rel ∈ visited → t.get (src ++ rel) = some e →
    Fits e (t.get (stg ++ rel))
  landed : ∀ rel e, src ++ rel ∈ visited → t.get (src ++ rel) = some e →
    u.get (stg ++ rel) = some (landed umask e (t.get (stg ++ rel)))
  rest : ∀ rel, src ++ rel ∉ visited → u.get (stg ++ rel) = t.get (stg ++ rel)

namespace Staging

variable {t u : FileTree} {src stg : TreePath} {before after : List TreePath} {rel : TreePath}

/-- The source is not in the staging tree. -/
theorem outside (h : Staging t src stg) (rel : TreePath) : ¬ stg <+: src ++ rel := by
  intro hstg
  rcases List.prefix_or_prefix_of_prefix hstg (List.prefix_append src rel) with hp | hp
  · exact h.apart hp
  · exact h.apart' hp

theorem copied_nil (t : FileTree) (src stg : TreePath) : Copied umask t src stg [] t where
  outside := fun _ _ => rfl
  fits := fun _ _ h => absurd h List.not_mem_nil
  landed := fun _ _ h => absurd h List.not_mem_nil
  rest := fun _ _ => rfl

/-- What a path to be copied to is in has been made. -/
theorem standing (h : Staging t src stg) (hwalk : t.walk src = before ++ (src ++ rel) :: after)
    (hu : Copied umask t src stg before u) {q : TreePath} (hq : q <+: stg ++ rel)
    (hne : q ≠ stg ++ rel) : ∃ perm, u.get q = some (.dir perm) := by
  have hmem : src ++ rel ∈ t.walk src := by
    rw [hwalk]
    exact List.mem_append_right _ List.mem_cons_self
  have hentry : t.get (src ++ rel) ≠ none := (FileTree.mem_walk.mp hmem).2
  by_cases hin : stg <+: q
  · obtain ⟨rel', rfl⟩ := hin
    have hrel : rel' <+: rel := (List.prefix_append_right_inj stg).mp hq
    have hne' : src ++ rel' ≠ src ++ rel := fun heq => hne (by rw [List.append_cancel_left heq])
    have hpre : src ++ rel' <+: src ++ rel := (List.prefix_append_right_inj src).mpr hrel
    obtain ⟨perm, hdir⟩ := h.closed _ _ hentry hpre hne'
    have hwalked : src ++ rel' ∈ t.walk src :=
      FileTree.mem_walk.mpr ⟨List.prefix_append src rel', by simp [hdir]⟩
    have hbefore := FileTree.mem_of_walk_eq hwalk hwalked hpre hne'
    obtain ⟨bits, hbits⟩ := landed_dir (hu.fits rel' _ hbefore hdir)
    exact ⟨bits, by rw [hu.landed rel' _ hbefore hdir, hbits]⟩
  · rw [hu.outside q hin]
    rcases List.prefix_or_prefix_of_prefix hq (List.prefix_append stg rel) with hp | hp
    · refine h.closed.dir_of_inDir h.home hp fun heq => hin ?_
      rw [heq]
    · exact absurd hp hin

theorem not_mem_before (hwalk : t.walk src = before ++ (src ++ rel) :: after) :
    src ++ rel ∉ before := by
  have hnodup := FileTree.nodup_walk t src
  rw [hwalk, List.nodup_append] at hnodup
  exact fun hmem => hnodup.2.2 _ hmem _ List.mem_cons_self rfl

/-- Making directories on the way to a path to be copied to touches that path at most. -/
theorem mkdirs_same (h : Staging t src stg) (hwalk : t.walk src = before ++ (src ++ rel) :: after)
    (hu : Copied umask t src stg before u) {target : TreePath} (htarget : target <+: stg ++ rel)
    {perm : FilePerm} : DirRelocator.SameBut (stg ++ rel) u (u.mkdirs target perm) := by
  intro q hq
  rw [FileTree.get_mkdirs, if_neg]
  rintro ⟨hpre, hnone⟩
  obtain ⟨bits, hdir⟩ := h.standing hwalk hu (hpre.trans htarget) hq
  rw [hnone] at hdir
  simp at hdir

/-- The step of the second walk: one more path is there. -/
theorem copied_snoc (hwalk : t.walk src = before ++ (src ++ rel) :: after)
    (hu : Copied umask t src stg before u) {e : FileEntry} (he : t.get (src ++ rel) = some e)
    (hfits : Fits e (t.get (stg ++ rel))) {u' : FileTree}
    (hsame : DirRelocator.SameBut (stg ++ rel) u u')
    (hget : u'.get (stg ++ rel) = some (landed umask e (t.get (stg ++ rel)))) :
    Copied umask t src stg (before ++ [src ++ rel]) u' where
  outside := by
    intro p hp
    rw [hsame p fun heq => hp (by rw [heq]; exact List.prefix_append stg rel)]
    exact hu.outside p hp
  fits := by
    intro rel' e' hmem he'
    rcases List.mem_append.mp hmem with hbefore | hlast
    · exact hu.fits rel' e' hbefore he'
    · have hrel := List.append_cancel_left (List.mem_singleton.mp hlast)
      rw [hrel] at he' ⊢
      rw [he] at he'
      rw [← Option.some.inj he']
      exact hfits
  landed := by
    intro rel' e' hmem he'
    rcases List.mem_append.mp hmem with hbefore | hlast
    · rw [hsame _ fun heq => ?_]
      · exact hu.landed rel' e' hbefore he'
      · rw [List.append_cancel_left heq] at hbefore
        exact not_mem_before hwalk hbefore
    · have hrel := List.append_cancel_left (List.mem_singleton.mp hlast)
      rw [hrel] at he' ⊢
      rw [he] at he'
      rw [← Option.some.inj he']
      exact hget
  rest := by
    intro rel' hmem
    rw [List.mem_append, not_or] at hmem
    rw [hsame _ fun heq => hmem.2 (by rw [List.append_cancel_left heq]; exact List.mem_cons_self)]
    exact hu.rest rel' hmem.1

/-- The copy meets nothing in the staging tree. -/
def Ready (t : FileTree) (src stg : TreePath) : Prop :=
  ∀ rel e, t.get (src ++ rel) = some e → Fits e (t.get (stg ++ rel))

/-- Everything out of the staging tree is as it was. -/
def Outside (stg : TreePath) (t u : FileTree) : Prop := ∀ p, ¬ stg <+: p → u.get p = t.get p

theorem outside_sameBut (hu : Outside stg t u) {u' : FileTree}
    (hsame : DirRelocator.SameBut (stg ++ rel) u u') : Outside stg t u' := by
  intro p hp
  rw [hsame p fun heq => hp (by rw [heq]; exact List.prefix_append stg rel)]
  exact hu p hp

variable {r : DirRelocator}

open DirProg

theorem wp_mkdirAll (h : Staging t src stg) (hwalk : t.walk src = before ++ (src ++ rel) :: after)
    (hu : Copied umask t src stg before u) {perm : FilePerm}
    (he : t.get (src ++ rel) = some (.dir perm)) :
    wp (answers umask free) (callOrFail (.mkdirAll (stg ++ rel) perm))
      (Ends (Undisturbed free ∧ Ready t src stg) (Outside stg t)
        fun _ => Copied umask t src stg (before ++ [src ++ rel])) u := by
  have hold := hu.rest rel (not_mem_before hwalk)
  refine wp_callOrFail ?_ ?_ ?_
  · intro x out u' _ _ hact
    obtain ⟨hblocked, rfl⟩ := FileCall.act_mkdirAll_ok hact
    have hfits : Fits (.dir perm) (t.get (stg ++ rel)) := by
      intro o ho
      refine ⟨?_, rfl⟩
      by_contra hdir
      have hhit := FileTree.blocked_iff.mpr
        ⟨stg ++ rel, o, List.prefix_rfl, hold.trans ho, Bool.eq_false_of_not_eq_true hdir⟩
      rw [hblocked] at hhit
      simp at hhit
    have hcopied := copied_snoc hwalk hu he hfits (h.mkdirs_same hwalk hu List.prefix_rfl) (by
      rw [FileTree.get_mkdirs, hold]
      cases hget : t.get (stg ++ rel) with
      | none =>
        rw [if_pos ⟨List.prefix_rfl, rfl⟩]
        rfl
      | some o =>
        obtain ⟨bits, rfl⟩ := FileEntry.isDir_iff.mp (hfits o hget).1
        rw [if_neg (by simp)]
        rfl)
    exact ⟨hcopied.outside, hcopied⟩
  · intro x e _ _ hact
    refine ⟨hu.outside, fun hsure => ?_⟩
    obtain ⟨q, o, hq, hget, hdir⟩ := FileTree.blocked_iff.mp (FileCall.act_mkdirAll_error hact)
    by_cases heq : q = stg ++ rel
    · rw [heq, hold] at hget
      rw [(hsure.2 rel _ he o hget).1] at hdir
      simp at hdir
    · obtain ⟨bits, hbits⟩ := h.standing hwalk hu hq heq
      rw [hbits] at hget
      rw [← Option.some.inj hget] at hdir
      simp [FileEntry.isDir] at hdir
  · intro x text hx hfl
    refine ⟨?_, fun hsure => Undisturbed.not_fails hx hfl hsure.1⟩
    rw [FileCall.halfway]
    by_cases hblocked : u.blocked (stg ++ rel) = true
    · rw [if_pos hblocked]
      exact hu.outside
    · rw [if_neg hblocked]
      exact outside_sameBut hu.outside (h.mkdirs_same hwalk hu
        ((List.take_prefix _ _).trans (List.dropLast_prefix _)))

/-- **The step of the second walk.** -/
theorem wp_copyEntry (h : Staging t src stg) (hwalk : t.walk src = before ++ (src ++ rel) :: after)
    (hu : Copied umask t src stg before u) :
    wp (answers umask free) (r.copyEntry src stg (src ++ rel))
      (Ends (Undisturbed free ∧ Ready t src stg) (Outside stg t)
        fun _ => Copied umask t src stg (before ++ [src ++ rel])) u := by
  have hmem : src ++ rel ∈ t.walk src := by
    rw [hwalk]
    exact List.mem_append_right _ List.mem_cons_self
  obtain ⟨e, he⟩ := Option.ne_none_iff_exists'.mp (FileTree.mem_walk.mp hmem).2
  have hsrc : u.get (src ++ rel) = some e := (hu.outside _ (h.outside rel)).trans he
  have hold := hu.rest rel (not_mem_before hwalk)
  unfold DirRelocator.copyEntry
  rw [List.drop_left]
  refine wp_then (wp_lstat hsrc ?_ fun text hx => ⟨hu.outside, fun hsure => hx hsure.1⟩)
  cases e with
  | special => exact absurd he (h.plain rel)
  | dir perm => exact wp_mkdirAll h hwalk hu he
  | file content perm =>
    have hne : src ++ rel ≠ stg ++ rel := fun heq =>
      h.outside rel (by rw [heq]; exact List.prefix_append stg rel)
    have hrel : stg ++ rel ≠ [] := fun heq =>
      (FileTree.inDir_iff.mp h.home).1 (List.append_eq_nil_iff.mp heq).1
    obtain ⟨bits, hdir⟩ := h.standing hwalk hu (List.dropLast_prefix _) (by
      intro heq
      have hlen := congrArg List.length heq
      have hpos := List.length_pos_of_ne_nil hrel
      rw [List.length_dropLast] at hlen
      omega)
    refine Prog.wp_mono ?_ (DirRelocator.wp_copyFile hne hsrc)
    intro res u' hres
    cases res with
    | ok a =>
      obtain ⟨hsame, hnone, hget⟩ := hres
      rw [hold] at hnone
      have hcopied := copied_snoc hwalk hu he (by rw [hnone]; exact fits_none) hsame (by
        rw [hget, hnone]
        rfl)
      exact ⟨hcopied.outside, hcopied⟩
    | error msg =>
      refine ⟨outside_sameBut hu.outside hres.1, fun hsure => hres.2 ⟨hsure.1, ?_, ?_⟩⟩
      · rw [hold]
        by_contra hsome
        obtain ⟨o, ho⟩ := Option.ne_none_iff_exists'.mp hsome
        have hfile := (hsure.2 rel _ he o ho).2
        simp [FileEntry.isDir] at hfile
      · exact FileTree.inDir_iff.mpr ⟨hrel, bits, hdir⟩

theorem wp_copyEntries (h : Staging t src stg) (after : List TreePath) :
    ∀ (before : List TreePath) (u : FileTree), t.walk src = before ++ after →
      Copied umask t src stg before u →
      wp (answers umask free) (r.copyEntries src stg after)
        (Ends (Undisturbed free ∧ Ready t src stg) (Outside stg t)
          fun _ => Copied umask t src stg (t.walk src)) u := by
  induction after with
  | nil =>
    intro before u hwalk hu
    rw [List.append_nil] at hwalk
    rw [hwalk]
    unfold DirRelocator.copyEntries
    exact (wp_ret _ _ _).mpr ⟨hu.outside, hu⟩
  | cons p after ih =>
    intro before u hwalk hu
    have hmem : p ∈ t.walk src := by
      rw [hwalk]
      exact List.mem_append_right _ List.mem_cons_self
    obtain ⟨rel, rfl⟩ := (FileTree.mem_walk.mp hmem).1
    unfold DirRelocator.copyEntries
    refine wp_seq (h.wp_copyEntry hwalk hu) id (fun _ => id) ?_
    intro _ u' _ hu'
    refine ih (before ++ [src ++ rel]) u' ?_ hu'
    rw [List.append_assoc, List.singleton_append, hwalk]

theorem wp_inspect (h : Staging t src stg) (paths : List TreePath)
    (hwalk : ∀ p ∈ paths, p ∈ t.walk src) :
    wp (answers umask free) (DirRelocator.inspect paths)
      (Ends (Undisturbed free) (· = t) fun _ _ => True) t := by
  induction paths with
  | nil =>
    unfold DirRelocator.inspect
    exact (wp_ret _ _ _).mpr ⟨rfl, trivial⟩
  | cons p paths ih =>
    have hp := FileTree.mem_walk.mp (hwalk p List.mem_cons_self)
    obtain ⟨rel, rfl⟩ := hp.1
    obtain ⟨e, he⟩ := Option.ne_none_iff_exists'.mp hp.2
    have hrest := ih fun q hq => hwalk q (List.mem_cons_of_mem _ hq)
    unfold DirRelocator.inspect
    refine wp_then (wp_lstat he ?_ fun text hx => ⟨rfl, hx⟩)
    cases e with
    | special => exact absurd he (h.plain rel)
    | dir perm => exact hrest
    | file content perm => exact hrest

/-- **The copy.**  It touches the staging tree only; when it returns, all of the source is there
as it lands; and unless something gets in its way it does return. -/
theorem wp_copyTree (h : Staging t src stg) :
    wp (answers umask free) (r.copyTree src stg)
      (Ends (Undisturbed free ∧ Ready t src stg) (Outside stg t)
        fun _ => Copied umask t src stg (t.walk src)) t := by
  obtain ⟨perm, hdir⟩ := h.dir
  have hsame : Outside stg t t := fun _ _ => rfl
  unfold DirRelocator.copyTree
  refine wp_then (wp_walk hdir ?_ fun text hx => ⟨hsame, fun hsure => hx hsure.1⟩)
  refine wp_seq (h.wp_inspect _ fun _ => id) And.left (fun u hu => by rw [hu]; exact hsame) ?_
  rintro _ u rfl -
  refine wp_then (wp_walk hdir ?_ fun text hx => ⟨hsame, fun hsure => hx hsure.1⟩)
  exact h.wp_copyEntries _ [] _ rfl (copied_nil _ _ _)

end Staging

/-! ### Putting the copy in place -/

/-- `src` and `dst` are as they were. -/
structure Unmoved (src dst : TreePath) (t u : FileTree) : Prop where
  source : ∀ rel, u.get (src ++ rel) = t.get (src ++ rel)
  destination : ∀ rel, u.get (dst ++ rel) = t.get (dst ++ rel)

/-- There is nothing at `dst` but a directory to hold it, and the source is not above it. -/
structure Vacant (t : FileTree) (src dst : TreePath) : Prop where
  empty : t.get dst = none
  home : t.inDir dst = true
  below : ¬ src <+: dst

/-- What a copy leaves at `rel` below the destination. -/
def placed (umask : FilePerm) (t : FileTree) (src stg rel : TreePath) : Option FileEntry :=
  match t.get (src ++ rel) with
  | some e => some (landed umask e (t.get (stg ++ rel)))
  | none => t.get (stg ++ rel)

/-- How putting a copy in place ends, `t` being the tree it is made from. -/
def Places (sure : Prop) (umask : FilePerm) (t : FileTree) (src dst : TreePath) :
    Except String DirRelocation → FileTree → Prop
  | .ok m, u => m = { src, dst, renamed := false } ∧ Staging.Ready t src (partialPath dst) ∧
      (∀ rel, u.get (src ++ rel) = t.get (src ++ rel)) ∧
      ∀ rel, u.get (dst ++ rel) = placed umask t src (partialPath dst) rel
  | .error _, u => Unmoved src dst t u ∧ ¬ sure

theorem length_partialPath {dst : TreePath} (h : dst ≠ []) :
    (partialPath dst).length = dst.length := by
  unfold partialPath
  have hpos := List.length_pos_of_ne_nil h
  rw [List.length_append, List.length_dropLast, List.length_singleton]
  omega

theorem partialPath_ne {dst : TreePath} (h : dst ≠ []) : partialPath dst ≠ dst := by
  intro heq
  unfold partialPath at heq
  nth_rewrite 3 [← List.dropLast_concat_getLast h] at heq
  have hname := List.append_cancel_left heq
  rw [List.getLastD_eq_getLast?, List.getLast?_eq_some_getLast h] at hname
  have hlen := congrArg String.length (List.singleton_inj.mp hname)
  rw [Option.getD_some, String.length_append] at hlen
  have hpos : 0 < (".partial" : String).length := by decide
  omega

/-- The staging name and the destination are apart. -/
theorem not_prefix_partialPath {dst : TreePath} (h : dst ≠ []) : ¬ partialPath dst <+: dst :=
  fun hp => partialPath_ne h (hp.eq_of_length (length_partialPath h))

theorem partialPath_not_prefix {dst : TreePath} (h : dst ≠ []) : ¬ dst <+: partialPath dst :=
  fun hp => partialPath_ne h (hp.eq_of_length (length_partialPath h).symm).symm

theorem dropLast_partialPath (dst : TreePath) : (partialPath dst).dropLast = dst.dropLast := by
  unfold partialPath
  exact List.dropLast_concat

namespace Vacant

variable {t : FileTree} {src dst : TreePath}

theorem ne_nil (h : Vacant t src dst) : dst ≠ [] := (FileTree.inDir_iff.mp h.home).1

/-- The destination and the source are apart too. -/
theorem not_prefix (h : Vacant t src dst) (ht : t.Closed) (hsrc : t.get src ≠ none) (rel : TreePath) :
    ¬ dst <+: src ++ rel := by
  intro hp
  rcases List.prefix_or_prefix_of_prefix hp (List.prefix_append src rel) with hdst | hbelow
  · exact hsrc (ht.get_eq_none h.empty hdst)
  · exact h.below hbelow

theorem not_prefix_src (h : Vacant t src dst) (ht : t.Closed) (hsrc : t.get src ≠ none)
    (rel : TreePath) : ¬ src <+: dst ++ rel := by
  intro hp
  rcases List.prefix_or_prefix_of_prefix hp (List.prefix_append dst rel) with hbelow | hdst
  · exact h.below hbelow
  · refine h.not_prefix ht hsrc [] ?_
    rw [List.append_nil]
    exact hdst

/-- The staging tree is not at the destination. -/
theorem outside (h : Vacant t src dst) (rel : TreePath) : ¬ partialPath dst <+: dst ++ rel := by
  intro hp
  rcases List.prefix_or_prefix_of_prefix hp (List.prefix_append dst rel) with hstg | hdst
  · exact not_prefix_partialPath h.ne_nil hstg
  · exact partialPath_not_prefix h.ne_nil hdst

end Vacant

section

variable {t u : FileTree} {src dst : TreePath} {r : DirRelocator}

open DirProg Staging

theorem unmoved_of_outside (h : Staging t src (partialPath dst)) (hv : Vacant t src dst)
    (hu : Outside (partialPath dst) t u) : Unmoved src dst t u where
  source := fun rel => hu _ (h.outside rel)
  destination := fun rel => hu _ (hv.outside rel)

/-- The copy is complete and can be shown. -/
theorem act_rename_staging {apart : Bool} (h : Staging t src (partialPath dst))
    (hv : Vacant t src dst) (hu : Copied umask t src (partialPath dst) (t.walk src) u) :
    (FileCall.rename (partialPath dst) dst).act umask apart u =
      if apart = true then .error .crossDevice else .ok ((), u.rename (partialPath dst) dst) := by
  obtain ⟨perm, hdir⟩ := h.dir
  have hroot : src ++ [] ∈ t.walk src := by
    rw [List.append_nil]
    exact FileTree.mem_walk.mpr ⟨List.prefix_rfl, by simp [hdir]⟩
  have hstaged := hu.landed [] (.dir perm) hroot (by rw [List.append_nil]; exact hdir)
  rw [List.append_nil] at hstaged
  have hdst : u.get dst = none := by
    rw [hu.outside dst (not_prefix_partialPath hv.ne_nil)]
    exact hv.empty
  have hhome : u.inDir dst = true := by
    obtain ⟨hne, bits, hparent⟩ := FileTree.inDir_iff.mp hv.home
    refine FileTree.inDir_iff.mpr ⟨hne, bits, ?_⟩
    rw [hu.outside _ fun hp => not_prefix_partialPath hne (hp.trans (List.dropLast_prefix dst))]
    exact hparent
  rw [FileCall.act_rename hstaged hdst, if_neg (by simp [hhome]),
    if_neg (not_prefix_partialPath hv.ne_nil)]

theorem placed_of_copied (hu : Copied umask t src (partialPath dst) (t.walk src) u)
    (rel : TreePath) : u.get (partialPath dst ++ rel) = placed umask t src (partialPath dst) rel := by
  unfold placed
  cases he : t.get (src ++ rel) with
  | none => exact hu.rest rel fun hmem => (FileTree.mem_walk.mp hmem).2 he
  | some e =>
    exact hu.landed rel e (FileTree.mem_walk.mpr ⟨List.prefix_append src rel, by simp [he]⟩) he

theorem wp_placeCopy (h : Staging t src (partialPath dst)) (hv : Vacant t src dst) :
    wp (answers umask free) (r.placeCopy src dst)
      (Places (Undisturbed free ∧ Ready t src (partialPath dst)) umask t src dst) t := by
  have hsrc : t.get src ≠ none := by
    obtain ⟨perm, hdir⟩ := h.dir
    simp [hdir]
  unfold DirRelocator.placeCopy
  refine wp_then (Prog.wp_attempt.mpr (Prog.wp_mono ?_ h.wp_copyTree))
  intro res u hres
  cases res with
  | error msg =>
    refine wp_removeAll fun _ v hv' => (wp_throw _ _ _).mpr ⟨?_, hres.2⟩
    exact unmoved_of_outside h hv fun p hp => (hv'.outside p hp).trans (hres.1 p hp)
  | ok _ =>
    obtain ⟨hout, hu⟩ := hres
    refine FileCall.wp_perform ?_ ?_ ?_
    · intro x out v _ _ hact
      rw [act_rename_staging h hv hu] at hact
      by_cases hapart : x.apart = true
      · rw [if_pos hapart] at hact
        simp at hact
      · rw [if_neg hapart] at hact
        obtain ⟨-, rfl⟩ := Prod.mk.inj (Except.ok.inj hact)
        refine wp_sync fun _ => (wp_ret _ _ _).mpr ⟨rfl, ?_, fun rel => ?_, fun rel => ?_⟩
        · intro rel e he
          exact hu.fits rel e (FileTree.mem_walk.mpr ⟨List.prefix_append src rel, by simp [he]⟩) he
        · rw [FileTree.get_rename_of_not_prefix (h.outside rel) (hv.not_prefix h.closed hsrc rel)]
          exact hout _ (h.outside rel)
        · rw [FileTree.get_rename_append]
          exact placed_of_copied hu rel
    · intro x e hx _ hact
      refine wp_removeAll fun _ v hv' => (wp_throw _ _ _).mpr ⟨?_, fun hsure => ?_⟩
      · exact unmoved_of_outside h hv fun p hp => (hv'.outside p hp).trans (hout p hp)
      · rw [act_rename_staging h hv hu, (hsure.1 x hx).2] at hact
        simp at hact
    · intro x text hx hfl
      refine wp_removeAll fun _ v hv' => (wp_throw _ _ _).mpr ⟨?_, fun hsure => ?_⟩
      · exact unmoved_of_outside h hv fun p hp => (hv'.outside p hp).trans (hout p hp)
      · exact Undisturbed.not_fails hx hfl hsure.1

end

/-! ### The whole move -/

/-- A directory with only files and directories in it. -/
structure PlainDir (t : FileTree) (src : TreePath) : Prop where
  closed : t.Closed
  dir : ∃ perm, t.get src = some (.dir perm)
  plain : ∀ rel, t.get (src ++ rel) ≠ some .special

section

variable {t u v : FileTree} {src dst : TreePath} {r : DirRelocator}

open DirProg Staging

theorem PlainDir.some (h : PlainDir t src) : t.get src ≠ none := by
  obtain ⟨perm, hdir⟩ := h.dir
  simp [hdir]

theorem staging_of_cleared (h : PlainDir t src) (hv : Vacant t src dst)
    (hapart : ¬ partialPath dst <+: src) (hu : Cleared (partialPath dst) t u) :
    Staging u src (partialPath dst) := by
  have hsrc : ∀ rel, ¬ partialPath dst <+: src ++ rel := by
    intro rel hp
    rcases List.prefix_or_prefix_of_prefix hp (List.prefix_append src rel) with hstg | hbelow
    · exact hapart hstg
    · have hne : src ≠ partialPath dst := fun heq => hapart (by rw [heq])
      have hparent := FileTree.prefix_dropLast hbelow hne
      rw [dropLast_partialPath] at hparent
      exact hv.below (hparent.trans (List.dropLast_prefix dst))
  have hget : ∀ rel, u.get (src ++ rel) = t.get (src ++ rel) := fun rel => hu.outside _ (hsrc rel)
  have hparent : u.get dst.dropLast = t.get dst.dropLast := hu.outside _ fun hp =>
    not_prefix_partialPath hv.ne_nil (hp.trans (List.dropLast_prefix dst))
  obtain ⟨hne, bits, hhome⟩ := FileTree.inDir_iff.mp hv.home
  obtain ⟨perm, hdir⟩ := h.dir
  have hroot := hget []
  rw [List.append_nil] at hroot
  refine ⟨hu.closed h.closed, ⟨perm, hroot.trans hdir⟩, ?_, ?_, hapart, fun hbelow => ?_⟩
  · intro rel
    rw [hget]
    exact h.plain rel
  · refine FileTree.inDir_iff.mpr ⟨fun hnil => ?_, bits, ?_⟩
    · exact not_prefix_partialPath hne (by rw [hnil]; exact List.nil_prefix)
    · rw [dropLast_partialPath, hparent]
      exact hhome
  · obtain ⟨rel, hrel⟩ := hbelow
    refine hsrc rel ?_
    rw [hrel]

theorem vacant_of_cleared (hv : Vacant t src dst) (hu : Cleared (partialPath dst) t u) :
    Vacant u src dst := by
  obtain ⟨hne, bits, hhome⟩ := FileTree.inDir_iff.mp hv.home
  refine ⟨?_, FileTree.inDir_iff.mpr ⟨hne, bits, ?_⟩, hv.below⟩
  · rw [hu.outside _ (not_prefix_partialPath hne)]
    exact hv.empty
  · rw [hu.outside _ fun hp => not_prefix_partialPath hne (hp.trans (List.dropLast_prefix dst))]
    exact hhome

/-- How a move from `t` ends: as it was, or renamed, or as a copy of what was cleared first. -/
def Relocated (umask : FilePerm) (t : FileTree) (src dst : TreePath) :
    Except String DirRelocation → FileTree → Prop
  | .ok m, u => Vacant t src dst ∧
      ((m = { src, dst, renamed := true } ∧ u = t.rename src dst) ∨
      (m = { src, dst, renamed := false } ∧
        ∃ t₀, Cleared (partialPath dst) t t₀ ∧ Staging t₀ src (partialPath dst) ∧
          Ready t₀ src (partialPath dst) ∧
          (∀ rel, u.get (src ++ rel) = t₀.get (src ++ rel)) ∧
          ∀ rel, u.get (dst ++ rel) = placed umask t₀ src (partialPath dst) rel))
  | .error _, u => Unmoved src dst t u

theorem unmoved_rfl : Unmoved src dst t t := ⟨fun _ => rfl, fun _ => rfl⟩

theorem wp_moveAcross (h : PlainDir t src) (hv : Vacant t src dst)
    (hapart : ¬ partialPath dst <+: src) :
    wp (answers umask free) (r.moveAcross src dst) (Relocated umask t src dst) t := by
  unfold DirRelocator.moveAcross
  refine wp_removeAll fun _ t₀ hcleared => ?_
  have hstaging := staging_of_cleared h hv hapart hcleared
  refine Prog.wp_mono ?_ (wp_placeCopy hstaging (vacant_of_cleared hv hcleared))
  intro res u hres
  cases res with
  | ok m =>
    obtain ⟨hm, hready, hsrc, hdst⟩ := hres
    exact ⟨hv, Or.inr ⟨hm, t₀, hcleared, hstaging, hready, hsrc, hdst⟩⟩
  | error msg =>
    have hsrc := hres.1.source
    have hdst := hres.1.destination
    exact ⟨fun rel => (hsrc rel).trans (hcleared.outside _ (hstaging.outside rel)),
      fun rel => (hdst rel).trans (hcleared.outside _ (hv.outside rel))⟩

theorem wp_renameOrCopy (h : PlainDir t src)
    (hapart : Vacant t src dst → ¬ partialPath dst <+: src) (hempty : t.get dst = none) :
    wp (answers umask free) (r.renameOrCopy src dst) (Relocated umask t src dst) t := by
  obtain ⟨perm, hdir⟩ := h.dir
  unfold DirRelocator.renameOrCopy
  refine FileCall.wp_perform ?_ ?_ ?_
  · intro x out u _ _ hact
    obtain ⟨hhome, hbelow, rfl⟩ := FileCall.act_rename_ok hdir hempty hact
    exact (wp_ret _ _ _).mpr ⟨⟨hempty, hhome, hbelow⟩, Or.inl ⟨rfl, rfl⟩⟩
  · intro x e _ _ hact
    dsimp only
    by_cases hcross : e = .crossDevice
    · rw [if_neg (not_not_intro hcross)]
      rw [hcross] at hact
      obtain ⟨hhome, hbelow⟩ := FileCall.act_rename_crossDevice hdir hempty hact
      have hv : Vacant t src dst := ⟨hempty, hhome, hbelow⟩
      exact wp_moveAcross h hv (hapart hv)
    · rw [if_pos hcross]
      exact (wp_throw _ _ _).mpr unmoved_rfl
  · intro x text _ _
    exact (wp_throw _ _ _).mpr unmoved_rfl

/-- **A move, step by step.**  The calls before the copy leave the tree alone, or are the
renaming itself. -/
theorem wp_relocate (h : PlainDir t src) (hapart : Vacant t src dst → ¬ partialPath dst <+: src) :
    wp (answers umask free) (r.relocate src dst) (Relocated umask t src dst) t := by
  unfold DirRelocator.relocate
  refine FileCall.wp_perform ?_ ?_ ?_
  · intro x out u _ _ hact
    obtain ⟨-, rfl⟩ := FileCall.act_lstat_ok hact
    exact (wp_throw _ _ _).mpr unmoved_rfl
  · intro x e _ _ hact
    obtain ⟨hempty, -⟩ := FileCall.act_lstat_error hact
    dsimp only
    by_cases habsent : e = .notExist
    · rw [if_neg (not_not_intro habsent)]
      exact wp_renameOrCopy h hapart hempty
    · rw [if_pos habsent]
      exact (wp_throw _ _ _).mpr unmoved_rfl
  · intro x text _ _
    exact (wp_throw _ _ _).mpr unmoved_rfl

end

/-- Every way the file system can answer. -/
abbrev anyAnswers (umask : FilePerm) : Prog.Sem FileCall FileCall.Resp FileTree :=
  answers umask fun _ => True

/-- What a move promises: to change nothing if it fails, to leave the source as it was if it is
taken back, and to bring all of it to the destination if it is made final. -/
structure Reversible (umask : FilePerm) (r : DirRelocator) (t : FileTree) (src dst : TreePath) :
    Prop where
  failed : ∀ msg u, Prog.Runs (anyAnswers umask) (r.relocate src dst) t (.error msg) u →
    Unmoved src dst t u
  undone : ∀ m u v, Prog.Runs (anyAnswers umask) (r.relocate src dst) t (.ok m) u →
    Prog.Runs (anyAnswers umask) m.rollback u (.ok ()) v →
    (∀ rel, v.get (src ++ rel) = t.get (src ++ rel)) ∧ ∀ rel, v.get (dst ++ rel) = none
  final : ∀ m u v, Prog.Runs (anyAnswers umask) (r.relocate src dst) t (.ok m) u →
    Prog.Runs (anyAnswers umask) m.commit u (.ok ()) v →
    (∀ rel, v.get (dst ++ rel) = t.get (src ++ rel)) ∧ ∀ rel, v.get (src ++ rel) = none

/-- What a copy of `src` needs to be exact, whatever happens on the way. -/
structure CopiesWell (umask : FilePerm) (t : FileTree) (src stg : TreePath) : Prop where
  /-- The source is not in the staging tree, which is removed first. -/
  apart : ¬ stg <+: src
  /-- The directories have no bit that the umask takes. -/
  bits : ∀ rel perm, t.get (src ++ rel) = some (.dir perm) → perm &&& umask = 0
  /-- Where the copy can come to, an earlier attempt has left nothing that the copy would take
  for its own: each entry is one of the source, with the bits of the source if it is a
  directory. -/
  leftover : ∀ rel o, t.get (stg ++ rel) = some o →
    (rel ≠ [] → ∃ perm, t.get (src ++ rel.dropLast) = some (.dir perm)) →
    ∃ e, t.get (src ++ rel) = some e ∧ (o.isDir = true → e.isDir = true → o = e)

section

variable {t t₀ u v : FileTree} {src dst stg : TreePath} {r : DirRelocator}

open DirProg Staging

theorem and_not_eq_iff {perm umask : FilePerm} : perm &&& ~~~umask = perm ↔ perm &&& umask = 0 := by
  constructor
  · intro h
    ext i hi
    have hbit := congrArg (fun b : FilePerm => b[i]) h
    simp only [BitVec.getElem_and, BitVec.getElem_not] at hbit
    show (perm &&& umask)[i] = (0#9)[i]
    rw [BitVec.getElem_and, BitVec.getElem_zero]
    revert hbit
    cases perm[i] <;> cases umask[i] <;> simp
  · intro h
    ext i hi
    have hbit : (perm &&& umask)[i] = (0#9)[i] := congrArg (fun b : FilePerm => b[i]) h
    rw [BitVec.getElem_and, BitVec.getElem_zero] at hbit
    rw [BitVec.getElem_and, BitVec.getElem_not]
    revert hbit
    cases perm[i] <;> cases umask[i] <;> simp

/-- What holds an entry of the source is a directory of it. -/
theorem dir_dropLast {rel : TreePath} (ht : t.Closed) (he : t.get (src ++ rel) ≠ none)
    (hne : rel ≠ []) : ∃ perm, t.get (src ++ rel.dropLast) = some (.dir perm) := by
  refine ht _ _ he ((List.prefix_append_right_inj src).mpr (List.dropLast_prefix rel)) ?_
  intro heq
  have hlen := congrArg List.length (List.append_cancel_left heq)
  have hpos := List.length_pos_of_ne_nil hne
  rw [List.length_dropLast] at hlen
  omega

/-- Of what an earlier attempt left, a copy that met nothing has nothing that is not the
source's.  By induction on the path: what it is in is a directory of both. -/
theorem get_ne_none_of_leftover (h : CopiesWell umask t src stg) (hdir : t.get src ≠ none)
    (hcleared : Cleared stg t t₀) (hstaging : Staging t₀ src stg) (hready : Ready t₀ src stg)
    (rel : TreePath) : t₀.get (stg ++ rel) ≠ none → t.get (src ++ rel) ≠ none := by
  have hsrc : ∀ rel, t₀.get (src ++ rel) = t.get (src ++ rel) := fun rel =>
    hcleared.outside _ (hstaging.outside rel)
  induction rel using List.reverseRecOn with
  | nil =>
    intro _
    rw [List.append_nil]
    exact hdir
  | append_singleton rel name ih =>
    intro hleft
    obtain ⟨o, ho⟩ := Option.ne_none_iff_exists'.mp hleft
    have hold : t.get (stg ++ (rel ++ [name])) = some o := by
      rcases hcleared.fewer (stg ++ (rel ++ [name])) with hnone | hsame
      · exact absurd hnone hleft
      · rw [← hsame, ho]
    obtain ⟨bits, hparent⟩ := hstaging.closed _ (stg ++ rel) hleft
      ((List.prefix_append_right_inj stg).mpr (List.prefix_append rel [name])) (by
        intro heq
        have hlen := congrArg List.length (List.append_cancel_left heq)
        rw [List.length_append, List.length_singleton] at hlen
        omega)
    obtain ⟨e, he⟩ := Option.ne_none_iff_exists'.mp (ih (by simp [hparent]))
    have hfits := (hready rel e ((hsrc rel).trans he) _ hparent).2
    obtain ⟨perm, rfl⟩ := FileEntry.isDir_iff.mp hfits
    obtain ⟨e', he', -⟩ := h.leftover _ o hold fun _ => ⟨perm, by rw [List.dropLast_concat, he]⟩
    simp [he']

/-- The copy is the source. -/
theorem placed_eq (h : CopiesWell umask t src stg) (hdir : t.get src ≠ none)
    (hcleared : Cleared stg t t₀) (hstaging : Staging t₀ src stg) (hready : Ready t₀ src stg)
    (rel : TreePath) : placed umask t₀ src stg rel = t.get (src ++ rel) := by
  have hsrc : t₀.get (src ++ rel) = t.get (src ++ rel) := hcleared.outside _ (hstaging.outside rel)
  unfold placed
  rw [hsrc]
  cases he : t.get (src ++ rel) with
  | none =>
    by_contra hleft
    exact get_ne_none_of_leftover h hdir hcleared hstaging hready rel hleft he
  | some e =>
    cases e with
    | special => exact absurd (hsrc.trans he) (hstaging.plain rel)
    | file content perm => rfl
    | dir perm =>
      cases hold : t₀.get (stg ++ rel) with
      | none =>
        dsimp only [landed]
        rw [and_not_eq_iff.mpr (h.bits rel perm he)]
      | some o =>
        obtain ⟨bits, rfl⟩ := FileEntry.isDir_iff.mp (hready rel _ (hsrc.trans he) o hold).1
        have hwas : t.get (stg ++ rel) = some (.dir bits) := by
          rcases hcleared.fewer (stg ++ rel) with hnone | hsame
          · rw [hold] at hnone
            simp at hnone
          · rw [← hsame, hold]
        obtain ⟨e', he', hsame⟩ := h.leftover rel _ hwas fun hne => by
          have hsome : t₀.get (src ++ rel) ≠ none := by simp [hsrc, he]
          obtain ⟨perm', hparent⟩ := dir_dropLast hstaging.closed hsome hne
          exact ⟨perm', (hcleared.outside _ (hstaging.outside _)).symm.trans hparent⟩
        rw [he] at he'
        rw [← Option.some.inj he'] at hsame
        dsimp only [landed]
        rw [hsame rfl rfl]

/-! ### Taking it back, and making it final -/

theorem runs_callOrFail {c : FileCall} {out : c.Out}
    (hrun : Prog.Runs (anyAnswers umask) (callOrFail c) u (.ok out) v) :
    ∃ apart, c.act umask apart u = .ok (out, v) := by
  have h : wp (anyAnswers umask) (callOrFail c)
      (fun res w => ∀ out, res = .ok out → ∃ apart, c.act umask apart u = .ok (out, w)) u := by
    refine wp_callOrFail ?_ ?_ ?_
    · intro x out' w _ _ hact out heq
      rw [← Except.ok.inj heq]
      exact ⟨x.apart, hact⟩
    · intro x e _ _ _ out heq
      simp at heq
    · intro x text _ _ out heq
      simp at heq
  exact Prog.wp_sound h hrun out rfl

theorem runs_removeAll {p : TreePath}
    (hrun : Prog.Runs (anyAnswers umask) (callOrFail (.removeAll p)) u (.ok ()) v) :
    v = u.removeTree p := by
  obtain ⟨apart, hact⟩ := runs_callOrFail hrun
  exact (congrArg Prod.snd (Except.ok.inj hact)).symm

/-- A removal of one tree, seen from another that it is not above. -/
theorem get_removeTree_append {a b : TreePath} (h : ∀ rel, ¬ a <+: b ++ rel) (rel : TreePath) :
    (u.removeTree a).get (b ++ rel) = u.get (b ++ rel) := by
  rw [FileTree.get_removeTree, if_neg (h rel)]

theorem get_removeTree_self (u : FileTree) (a rel : TreePath) :
    (u.removeTree a).get (a ++ rel) = none := by
  rw [FileTree.get_removeTree, if_pos (List.prefix_append a rel)]

theorem get_rename_old (hsrc : ∀ rel, ¬ dst <+: src ++ rel) (rel : TreePath) :
    (t.rename src dst).get (src ++ rel) = none := by
  rw [FileTree.get_rename, if_neg (hsrc rel), if_pos (List.prefix_append src rel)]

theorem undone_of_relocated (h : PlainDir t src) {m : DirRelocation}
    (hm : Relocated umask t src dst (.ok m) u)
    (hrun : Prog.Runs (anyAnswers umask) m.rollback u (.ok ()) v) :
    (∀ rel, v.get (src ++ rel) = t.get (src ++ rel)) ∧ ∀ rel, v.get (dst ++ rel) = none := by
  obtain ⟨hv, ⟨rfl, rfl⟩ | ⟨rfl, t₀, hcleared, hstaging, -, hsrc, -⟩⟩ := hm
  · obtain ⟨apart, hact⟩ := runs_callOrFail hrun
    obtain ⟨perm, hdir⟩ := h.dir
    have hold : (t.rename src dst).get dst = some (.dir perm) := by
      have hroot := FileTree.get_rename_append t src dst []
      rw [List.append_nil, List.append_nil] at hroot
      rw [hroot, hdir]
    have hnew : (t.rename src dst).get src = none := by
      have hroot := get_rename_old (t := t) (hv.not_prefix h.closed h.some) []
      rw [List.append_nil] at hroot
      exact hroot
    obtain ⟨-, -, hback⟩ := FileCall.act_rename_ok hold hnew hact
    rw [hback]
    refine ⟨fun rel => ?_, get_rename_old (hv.not_prefix_src h.closed h.some)⟩
    rw [FileTree.get_rename_append, FileTree.get_rename_append]
  · have hremoved := runs_removeAll hrun
    rw [hremoved]
    refine ⟨fun rel => ?_, get_removeTree_self u dst⟩
    dsimp only
    rw [get_removeTree_append (hv.not_prefix h.closed h.some), hsrc]
    exact hcleared.outside _ (hstaging.outside rel)

/-- What is at the destination in the end, and that the source is gone. -/
theorem final_of_relocated (h : PlainDir t src) {m : DirRelocation}
    (hm : Relocated umask t src dst (.ok m) u)
    (hrun : Prog.Runs (anyAnswers umask) m.commit u (.ok ()) v)
    (hcopy : Vacant t src dst → CopiesWell umask t src (partialPath dst)) :
    (∀ rel, v.get (dst ++ rel) = t.get (src ++ rel)) ∧ ∀ rel, v.get (src ++ rel) = none := by
  obtain ⟨hv, ⟨rfl, rfl⟩ | ⟨rfl, t₀, hcleared, hstaging, hready, -, hdst⟩⟩ := hm
  · cases hrun
    exact ⟨FileTree.get_rename_append t src dst, get_rename_old (hv.not_prefix h.closed h.some)⟩
  · have hremoved := runs_removeAll hrun
    rw [hremoved]
    refine ⟨fun rel => ?_, get_removeTree_self u src⟩
    dsimp only
    rw [get_removeTree_append (hv.not_prefix_src h.closed h.some), hdst]
    exact placed_eq (hcopy hv) h.some hcleared hstaging hready rel

theorem reversible_of_copiesWell (h : PlainDir t src)
    (hcopy : Vacant t src dst → CopiesWell umask t src (partialPath dst)) :
    Reversible umask r t src dst := by
  have hend : ∀ res u, Prog.Runs (anyAnswers umask) (r.relocate src dst) t res u →
      Relocated umask t src dst res u := fun res u hrun =>
    Prog.wp_sound (wp_relocate h fun hv => (hcopy hv).apart) hrun
  refine ⟨fun msg u hrun => hend _ u hrun, ?_, ?_⟩
  · intro m u v hrun hback
    exact undone_of_relocated h (hend _ u hrun) hback
  · intro m u v hrun hcommit
    exact final_of_relocated h (hend _ u hrun) hcommit hcopy

/-! ### What a copy needs

A move to another file system is run to its end, with the removal of the staging tree going as
it is told. -/

theorem missing_of_vacant (h : PlainDir t src) (hv : Vacant t src dst) : t.missing dst = .notExist := by
  unfold FileTree.missing
  rw [if_neg]
  intro hblocked
  obtain ⟨q, o, hq, hget, hdir⟩ := FileTree.blocked_iff.mp hblocked
  by_cases heq : q = dst
  · rw [heq, hv.empty] at hget
    simp at hget
  · obtain ⟨perm, hperm⟩ := h.closed.dir_of_inDir hv.home hq heq
    rw [hperm] at hget
    rw [← Option.some.inj hget] at hdir
    simp [FileEntry.isDir] at hdir

theorem exists_runs_any (umask : FilePerm) (p : DirProg α) (t : FileTree) :
    ∃ res u, Prog.Runs (anyAnswers umask) p t res u :=
  Prog.exists_runs (FileCall.answers_total (x := {}) trivial) p t

theorem exists_runs_calm (umask : FilePerm) (p : DirProg α) (t : FileTree) :
    ∃ res u, Prog.Runs (answers umask FileChoice.Calm) p t res u :=
  Prog.exists_runs (FileCall.answers_total (x := {}) ⟨rfl, rfl⟩) p t

theorem undisturbed_calm : Undisturbed FileChoice.Calm := fun _ => id

theorem runs_any {p : DirProg α} {res : Except String α}
    (hrun : Prog.Runs (answers umask free) p t res u) : Prog.Runs (anyAnswers umask) p t res u :=
  hrun.mono (FileCall.answers_mono fun _ _ => trivial)

theorem runs_relocate (h : PlainDir t src) (hv : Vacant t src dst)
    {res : Except String DirRelocation}
    (hrun : Prog.Runs (anyAnswers umask) (r.moveAcross src dst) t res u) :
    Prog.Runs (anyAnswers umask) (r.relocate src dst) t res u := by
  obtain ⟨perm, hdir⟩ := h.dir
  have hlstat : (FileCall.lstat dst).exec umask {} t = (.error .notExist, t) := by
    rw [FileCall.exec]
    simp only [FileCall.act, hv.empty, missing_of_vacant h hv]
  have hrename : (FileCall.rename src dst).exec umask { apart := true } t
      = (.error .crossDevice, t) := by
    rw [FileCall.exec]
    simp only [FileCall.act_rename hdir hv.empty]
    rw [if_neg (by simp [hv.home]), if_neg hv.below]
    rfl
  unfold DirRelocator.relocate
  refine FileCall.runs_perform (x := {}) trivial hlstat ?_
  dsimp only
  rw [if_neg (not_not_intro rfl)]
  unfold DirRelocator.renameOrCopy
  refine FileCall.runs_perform (x := { apart := true }) trivial hrename ?_
  dsimp only
  rw [if_neg (not_not_intro rfl)]
  exact hrun

/-- Where the source is gone with the staging tree, the move fails. -/
theorem wp_placeCopy_gone (hgone : t.get src = none) :
    wp (answers umask free) (r.placeCopy src dst)
      (fun res u => (∃ msg, res = .error msg) ∧ u.get src = none) t := by
  have hcopy : wp (answers umask free) (r.copyTree src (partialPath dst))
      (fun res u => (∃ msg, res = .error msg) ∧ u.get src = none) t := by
    unfold DirRelocator.copyTree
    refine wp_then (wp_callOrFail ?_ ?_ ?_)
    · intro x out u _ _ hact
      rw [FileCall.act] at hact
      simp [hgone] at hact
    · exact fun _ _ _ _ _ => ⟨⟨_, rfl⟩, hgone⟩
    · exact fun _ _ _ _ => ⟨⟨_, rfl⟩, hgone⟩
  unfold DirRelocator.placeCopy
  refine wp_then (Prog.wp_attempt.mpr (Prog.wp_mono ?_ hcopy))
  rintro res u ⟨⟨msg, rfl⟩, hu⟩
  refine wp_removeAll fun _ v hv => (wp_throw _ _ _).mpr ⟨⟨msg, rfl⟩, ?_⟩
  rcases hv.fewer src with hnone | hsame
  · exact hnone
  · rw [hsame, hu]

theorem apart_of_reversible (h : PlainDir t src) (hv : Vacant t src dst)
    (hr : Reversible umask r t src dst) : ¬ partialPath dst <+: src := by
  intro hstg
  have hgone : (t.removeTree (partialPath dst)).get src = none := by
    rw [FileTree.get_removeTree, if_pos hstg]
  obtain ⟨res, u, hplace⟩ :=
    exists_runs_any umask (r.placeCopy src dst) (t.removeTree (partialPath dst))
  obtain ⟨⟨msg, rfl⟩, hu⟩ := Prog.wp_sound (wp_placeCopy_gone hgone) hplace
  have hacross : Prog.Runs (anyAnswers umask) (r.moveAcross src dst) t (.error msg) u :=
    FileCall.runs_perform (x := {}) trivial rfl hplace
  have hsource := (hr.failed msg u (runs_relocate h hv hacross)).source []
  rw [List.append_nil, hu] at hsource
  exact h.some hsource.symm

/-- A copy that meets nothing is made, so it has to be exact. -/
theorem placed_of_reversible (h : PlainDir t src) (hv : Vacant t src dst)
    (hr : Reversible umask r t src dst) {x : FileChoice} {resp : (FileCall.removeAll (partialPath dst)).Resp}
    (hexec : (FileCall.removeAll (partialPath dst)).exec umask x t = (resp, t₀))
    (hcleared : Cleared (partialPath dst) t t₀) (hready : Ready t₀ src (partialPath dst))
    (rel : TreePath) : placed umask t₀ src (partialPath dst) rel = t.get (src ++ rel) := by
  have hstaging := staging_of_cleared h hv (apart_of_reversible h hv hr) hcleared
  have hv₀ := vacant_of_cleared hv hcleared
  obtain ⟨res, u, hplace⟩ := exists_runs_calm umask (r.placeCopy src dst) t₀
  have hplaces := Prog.wp_sound (wp_placeCopy hstaging hv₀) hplace
  cases res with
  | error msg => exact absurd ⟨undisturbed_calm, hready⟩ hplaces.2
  | ok m =>
    obtain ⟨rfl, -, -, hdst⟩ := hplaces
    have hrun := runs_relocate h hv (FileCall.runs_perform (x := x) trivial hexec (runs_any hplace))
    have hcommit : Prog.Runs (anyAnswers umask) (callOrFail (.removeAll src)) u (.ok ())
        (u.removeTree src) := FileCall.runs_perform (x := {}) trivial rfl (.ret _ _)
    have hfinal := (hr.final _ u _ hrun hcommit).1 rel
    rw [get_removeTree_append (hv.not_prefix_src h.closed h.some), hdst] at hfinal
    exact hfinal

theorem bits_of_reversible (h : PlainDir t src) (hv : Vacant t src dst)
    (hr : Reversible umask r t src dst) {rel : TreePath} {perm : FilePerm}
    (hdir : t.get (src ++ rel) = some (.dir perm)) : perm &&& umask = 0 := by
  have hcleared := cleared_removeTree (partialPath dst) t
  have hready : Ready (t.removeTree (partialPath dst)) src (partialPath dst) := by
    intro rel e _
    rw [get_removeTree_self]
    exact fits_none
  have hexact := placed_of_reversible h hv hr (x := {}) rfl hcleared hready rel
  have hstaging := staging_of_cleared h hv (apart_of_reversible h hv hr) hcleared
  unfold placed at hexact
  rw [hcleared.outside _ (hstaging.outside rel), get_removeTree_self, hdir] at hexact
  exact and_not_eq_iff.mp (FileEntry.dir.inj (Option.some.inj hexact))

/-- A removal that leaves just one entry, and what that is in, leaves it for the copy to take
over: everything above it is a directory of the source too. -/
theorem ready_of_kept (h : PlainDir t src) (hstaging : Staging t₀ src stg) {rel : TreePath}
    {o : FileEntry} (ht₀ : t₀ = t.removeSome stg (stg ++ rel).inits)
    (hleft : t.get (stg ++ rel) = some o)
    (hin : rel ≠ [] → ∃ perm, t.get (src ++ rel.dropLast) = some (.dir perm))
    (hfit : ∀ e, t.get (src ++ rel) = some e → Fits e (some o)) : Ready t₀ src stg := by
  have hcleared := cleared_removeSome stg (stg ++ rel).inits t
  rw [← ht₀] at hcleared
  intro rel' e he o' ho'
  rw [hcleared.outside _ (hstaging.outside rel')] at he
  have hwas : t.get (stg ++ rel') = some o' := by
    rcases hcleared.fewer (stg ++ rel') with hnone | hsame
    · rw [ho'] at hnone
      simp at hnone
    · rw [← hsame, ho']
  have hkept : stg ++ rel' ∈ (stg ++ rel).inits := by
    refine FileTree.mem_kept (t := t) (p := stg ++ rel') ?_ (List.prefix_append stg rel')
    rw [← ht₀, ho']
    simp
  have hpre : rel' <+: rel :=
    (List.prefix_append_right_inj stg).mp ((List.mem_inits _ _).mp hkept)
  by_cases heq : rel' = rel
  · rw [heq] at he hwas
    rw [hleft] at hwas
    exact hfit e he o' hwas
  · obtain ⟨bits, hbits⟩ := h.closed _ (stg ++ rel') (by simp [hleft])
      ((List.prefix_append_right_inj stg).mpr hpre) fun heq' =>
        heq (List.append_cancel_left heq')
    rw [hbits] at hwas
    have hne : rel ≠ [] := by
      intro hnil
      rw [hnil] at hpre heq
      exact heq (List.prefix_nil.mp hpre)
    obtain ⟨perm, hparent⟩ := hin hne
    refine ⟨by rw [← Option.some.inj hwas]; rfl, ?_⟩
    have hbelow := FileTree.prefix_dropLast hpre heq
    by_cases hlast : rel' = rel.dropLast
    · rw [hlast, hparent] at he
      rw [← Option.some.inj he]
      rfl
    · obtain ⟨perm', hdir⟩ := h.closed _ (src ++ rel') (by simp [hparent])
        ((List.prefix_append_right_inj src).mpr hbelow) fun heq' =>
          hlast (List.append_cancel_left heq')
      rw [hdir] at he
      rw [← Option.some.inj he]
      rfl

theorem leftover_of_reversible (h : PlainDir t src) (hv : Vacant t src dst)
    (hr : Reversible umask r t src dst) {rel : TreePath} {o : FileEntry}
    (hleft : t.get (partialPath dst ++ rel) = some o)
    (hin : rel ≠ [] → ∃ perm, t.get (src ++ rel.dropLast) = some (.dir perm)) :
    ∃ e, t.get (src ++ rel) = some e ∧ (o.isDir = true → e.isDir = true → o = e) := by
  by_cases hfit : ∀ e, t.get (src ++ rel) = some e → Fits e (some o)
  swap
  · obtain ⟨e, he⟩ := not_forall.mp hfit
    obtain ⟨he, hclash⟩ := Classical.not_imp.mp he
    refine ⟨e, he, fun ho hdir => absurd ?_ hclash⟩
    intro o' ho'
    rw [← Option.some.inj ho']
    exact ⟨ho, hdir⟩
  have hcleared := cleared_removeSome (partialPath dst) (partialPath dst ++ rel).inits t
  have hstaging := staging_of_cleared h hv (apart_of_reversible h hv hr) hcleared
  have hexact : placed umask (t.removeSome (partialPath dst) (partialPath dst ++ rel).inits) src
      (partialPath dst) rel = t.get (src ++ rel) :=
    placed_of_reversible h hv hr
      (x := { fail := some "", kept := (partialPath dst ++ rel).inits }) rfl hcleared
      (ready_of_kept h hstaging rfl hleft hin hfit) rel
  unfold placed at hexact
  rw [hcleared.outside _ (hstaging.outside rel),
    FileTree.get_removeSome_of_kept fun q hq => (List.mem_inits _ _).mpr hq, hleft] at hexact
  cases he : t.get (src ++ rel) with
  | none =>
    rw [he] at hexact
    simp at hexact
  | some e =>
    refine ⟨e, rfl, fun ho hdir => ?_⟩
    rw [he] at hexact
    obtain ⟨bits, rfl⟩ := FileEntry.isDir_iff.mp ho
    obtain ⟨perm, rfl⟩ := FileEntry.isDir_iff.mp hdir
    exact Option.some.inj hexact

/-- **When a move keeps its promises.**  Whatever fails and whichever way it goes, exactly if
nothing is moved at all, or a copy of the source can only be exact. -/
theorem relocate_reversible_iff (umask : FilePerm) (r : DirRelocator) {t : FileTree}
    {src : TreePath} (h : PlainDir t src) (dst : TreePath) :
    Reversible umask r t src dst ↔
      (Vacant t src dst → CopiesWell umask t src (partialPath dst)) := by
  refine ⟨fun hr hv => ?_, reversible_of_copiesWell h⟩
  exact ⟨apart_of_reversible h hv hr, fun _ _ hdir => bits_of_reversible h hv hr hdir,
    fun _ _ hleft hin => leftover_of_reversible h hv hr hleft hin⟩

end

/-- A VM's directory with the bits `perm`, and a place to move it to. -/
def vmTree (perm : FilePerm) : FileTree :=
  .ofEntries [([], .dir 0o755), (["mnt"], .dir 0o755), (["vms"], .dir 0o755),
    (["vms", "web"], .dir perm), (["vms", "web", "disk.qcow2"], .file [81, 70, 73] 0o660)]

theorem plainDir_vmTree (perm : FilePerm) : PlainDir (vmTree perm) ["vms", "web"] where
  closed := FileTree.closed_ofEntries rfl
  dir := ⟨perm, rfl⟩
  plain := by
    intro rel h
    have hmem := FileTree.mem_of_get_ofEntries h
    simp at hmem

theorem vacant_vmTree (perm : FilePerm) : Vacant (vmTree perm) ["vms", "web"] ["mnt", "web"] where
  empty := rfl
  home := rfl
  below := by decide

/-- Directories of 755 are moved well under the usual umask. -/
theorem relocate_reversible_755 :
    Reversible 0o022 newDirRelocator (vmTree 0o755) ["vms", "web"] ["mnt", "web"] := by
  refine (relocate_reversible_iff 0o022 newDirRelocator (plainDir_vmTree 0o755) _).mpr fun _ => ?_
  refine ⟨by decide, fun rel perm h => ?_, fun rel o h => ?_⟩
  · have hmem := FileTree.mem_of_get_ofEntries h
    obtain ⟨-, rfl⟩ : rel = [] ∧ perm = 0o755 := by simpa using hmem
    decide
  · have hmem := FileTree.mem_of_get_ofEntries h
    simp [partialPath] at hmem

/-- A directory that its group may write in is not, if it is moved to another file system. -/
theorem relocate_group_writable :
    ¬ Reversible 0o022 newDirRelocator (vmTree 0o775) ["vms", "web"] ["mnt", "web"] := by
  intro hr
  have hdir : (vmTree 0o775).get (["vms", "web"] ++ []) = some (.dir 0o775) := rfl
  have hbits := bits_of_reversible (plainDir_vmTree 0o775) (vacant_vmTree 0o775) hr hdir
  exact absurd hbits (by decide)

end VMSmith
