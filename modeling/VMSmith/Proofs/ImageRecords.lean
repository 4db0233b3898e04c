/-
Image records and image files stay together.

Two requests for one name write one file and store two records for it; a deletion takes
away a file another record was given since; an update brings back a record deleted
since.  `Clear` is the condition on a step that excludes these: an image file is written
only where no record has its file and nobody else is about to put or remove one, a new
record is stored only under an ID never used, an old one only while it is still stored,
and a record whose file is gone does get deleted.

The proof follows two kinds of calls in flight.  One that is making an image has written
a file and not stored the record; nobody else may use that path until it has.  One that
is aiming at a record has read it and will remove its file; until then no other record
may have that path.
-/
import VMSmith.Proofs.ImageCalls

namespace VMSmith

open Go (Bytes)

open Images (ovaWorkRootPath)

namespace ImageCall

/-- It has tried to write the file and has not stored a record for it. -/
def making (t : ImageCall) (p : HostPath) : Bool :=
  t.inFlight && (view t).registered.isEmpty && p ∈ (view t).attempted

/-- It has read a record with this file and may still remove the file. -/
def aiming (t : ImageCall) (p : HostPath) : Bool :=
  t.inFlight && !t.op.updates &&
    (view t).fetched.any fun r => r.2.path = p && r.1 ∉ (view t).dropped

def pending (t : ImageCall) (p : HostPath) : Bool := making t p || aiming t p

theorem making_iff {t : ImageCall} {p : HostPath} : making t p = true ↔
    t.inFlight = true ∧ (view t).registered = [] ∧ p ∈ (view t).attempted := by
  simp [making, and_assoc]

theorem aiming_iff {t : ImageCall} {p : HostPath} : aiming t p = true ↔
    t.inFlight = true ∧ t.op.updates = false ∧
      ∃ r ∈ (view t).fetched, r.2.path = p ∧ r.1 ∉ (view t).dropped := by
  simp [aiming, and_assoc]

theorem pending_iff {t : ImageCall} {p : HostPath} :
    pending t p = true ↔ making t p = true ∨ aiming t p = true := by
  rw [pending, Bool.or_eq_true]

/-- The file of the record read under this ID has been removed. -/
def Unlinked (v : ImageView) (id : String) : Prop := ∃ r ∈ v.fetched, r.1 = id ∧ r.2.path ∈ v.removed

end ImageCall

open ImageCall

namespace ImageSys

/-- No record has this file, and no other call is about to put or remove it. -/
def freeFor (cfg : StorageConfig) (s : ImageSys) (i : Nat) (p : HostPath) : Bool :=
  !p.within (ovaWorkRootPath cfg) && s.world.images.values.all (·.path ≠ p) &&
    (List.range s.threads.length).all fun j => j = i || (s.threads[j]?).all fun u => !pending u p

/-- No call has stored a record under this ID. -/
def unused (s : ImageSys) (id : String) : Bool :=
  s.threads.all fun u => (view u).registered.all (·.id ≠ id)

/-- Call `i` may have this command answered so. -/
def admits (cfg : StorageConfig) (s : ImageSys) (i : Nat) (t : ImageCall) (x : ImageChoice) :
    ImageCmd → Bool
  | .convert _ _ p => freeFor cfg s i p
  | .writeFile p _ => freeFor cfg s i p
  | .putImage img => x.choice.fail.isSome ||
      if t.op.makes then unused s img.id else (s.world.images.get? img.id).isSome
  | .deleteImage id => x.choice.fail.isNone ||
      (view t).fetched.all fun r => r.1 ≠ id || r.2.path ∉ (view t).removed
  | _ => true

def clear (cfg : StorageConfig) (s : ImageSys) (i : Nat) (t : ImageCall) (x : ImageChoice) : Bool :=
  match t.prog with
  | .call c _ => admits cfg s i t x c
  | _ => true

/-- The condition on a step; the daemon is not restarted. -/
def Clear (cfg : StorageConfig) (s : ImageSys) : ImageLabel → Prop
  | .step i x => ∀ t ∈ s.threads[i]?, clear cfg s i t x = true
  | .restart _ => False
  | _ => True

instance (cfg : StorageConfig) : ∀ (s : ImageSys) (l : ImageLabel), Decidable (Clear cfg s l)
  | _, .step _ _ => inferInstanceAs (Decidable (∀ _ ∈ _, _))
  | _, .call _ => .isTrue trivial
  | _, .env _ => .isTrue trivial
  | _, .restart _ => .isFalse id

/-- A call has made this image with this content. -/
def Made (s : ImageSys) (img : Image) (b : Bytes) : Prop :=
  ∃ t ∈ s.threads, t.op.makes = true ∧ img ∈ (view t).registered ∧ (img.path, b) ∈ (view t).contents

theorem freeFor_iff {cfg : StorageConfig} {s : ImageSys} {i : Nat} {p : HostPath} :
    freeFor cfg s i p = true ↔ p.within (ovaWorkRootPath cfg) = false ∧
      (∀ id img, s.world.images.get? id = some img → img.path ≠ p) ∧
      ∀ (j : Nat) (u : ImageCall), s.threads[j]? = some u → j ≠ i → pending u p = false := by
  simp only [freeFor, Bool.and_eq_true, Bool.not_eq_true', List.all_eq_true, decide_eq_true_eq,
    Bucket.mem_values, List.mem_range, Bool.or_eq_true, and_assoc]
  refine and_congr_right fun _ => and_congr ?_ ?_
  · exact ⟨fun h id img himg => h img ⟨id, himg⟩, fun h img ⟨id, himg⟩ => h id img himg⟩
  · constructor
    · intro h j u hu hji
      have := (h j (List.getElem?_eq_some_iff.mp hu).1).resolve_left hji
      simpa [hu] using this
    · intro h j hj
      by_cases hji : j = i
      · exact .inl hji
      · right
        cases hu : s.threads[j]? with
        | none => rfl
        | some u => simp [h j u hu hji]

/-- What one command of a call does to records and files, and to its account. -/
inductive Effect (cfg : StorageConfig) (s : ImageSys) (i : Nat) (op : ImageOp) (w' : ImageWorld)
    (v v' : ImageView) : Prop
  | quiet (hi : w'.images = s.world.images)
      (hf : ∀ p, p.within (ovaWorkRootPath cfg) = false → w'.files p = s.world.files p)
      (hv : v' = v)
  | sized (p : HostPath) (b : Bytes) (hi : w'.images = s.world.images)
      (hf : w'.files = s.world.files) (hb : s.world.files p = some b)
      (hregistered : v.registered = []) (hremoved : v.removed = [])
      (hv : v' = { v with sizes := (p, b.length) :: v.sizes })
  | fetched (id : String) (img : Image) (hi : w'.images = s.world.images)
      (hf : w'.files = s.world.files) (hstored : s.world.images.get? id = some img)
      (hdropped : v.dropped = []) (hrefused : v.refused = [])
      (hv : v' = { v with fetched := (id, img) :: v.fetched })
  | wrote (p : HostPath) (b? : Option Bytes) (hmakes : op.makes = true) (hattempted : v.attempted = [])
      (hregistered : v.registered = []) (hsizes : v.sizes = []) (hfree : freeFor cfg s i p = true)
      (hi : w'.images = s.world.images) (hf : ∀ q, q ≠ p → w'.files q = s.world.files q)
      (hb : ∀ b, b? = some b → w'.files p = some b)
      (hv : v' = { v with attempted := p :: v.attempted,
                          contents := (b?.map (p, ·)).toList ++ v.contents })
  | made (img : Image) (b : Bytes) (hmakes : op.makes = true) (hregistered : v.registered = [])
      (hremoved : v.removed = []) (hfetched : v.fetched = []) (hb : (img.path, b) ∈ v.contents)
      (hsize : img.sizeBytes = b.length ∨ (img.path, img.sizeBytes) ∈ v.sizes)
      (hfresh : unused s img.id = true) (hi : w'.images = s.world.images.put img.id img)
      (hf : w'.files = s.world.files) (hv : v' = { v with registered := img :: v.registered })
  | updated (img : Image) (r : String × Image) (hupdates : op.updates = true) (hr : r ∈ v.fetched)
      (hsame : img.Same r.2) (hstored : (s.world.images.get? img.id).isSome)
      (hi : w'.images = s.world.images.put img.id img)
      (hf : w'.files = s.world.files) (hv : v' = { v with registered := img :: v.registered })
  | removed (p : HostPath) (hupdates : op.updates = false)
      (hwhy : p.within (ovaWorkRootPath cfg) = true ∨
        (p ∈ v.attempted ∧ v.registered = [] ∧ v.fetched = []) ∨
        ∃ r ∈ v.fetched, r.2.path = p ∧ v.dropped = [] ∧ v.refused = [])
      (hi : w'.images = s.world.images) (hf : ∀ q, q ≠ p → w'.files q = s.world.files q)
      (hv : v' = { v with removed := p :: v.removed })
  | dropped (id : String) (hr : ∃ r ∈ v.fetched, r.1 = id)
      (hi : w'.images = s.world.images.erase id) (hf : w'.files = s.world.files)
      (hv : v' = { v with dropped := id :: v.dropped })
  | refused (id : String) (hsafe : ¬ Unlinked v id) (hi : w'.images = s.world.images)
      (hf : w'.files = s.world.files) (hv : v' = { v with refused := id :: v.refused })

variable {cfg : StorageConfig} {s s' : ImageSys} {i : Nat} {t : ImageCall} {x : ImageChoice}
  {w' : ImageWorld}

theorem files_setLeftover {w : ImageWorld} {p q : HostPath} (hq : q ≠ p) :
    (w.setLeftover x p).files q = w.files q := by
  unfold ImageWorld.setLeftover
  split
  · rfl
  · exact if_neg hq

theorem images_setLeftover {w : ImageWorld} {p : HostPath} : (w.setLeftover x p).images = w.images := by
  unfold ImageWorld.setLeftover
  split <;> rfl

theorem effect {c : ImageCmd} {r : c.Resp} (hok : t.op.ok cfg (view t) c)
    (hclear : admits cfg s i t x c = true) (hexec : ImageWorld.exec c x s.world = some (r, w')) :
    Effect cfg s i t.op w' (view t) ((view t).add c r) := by
  cases c with
  | getImage id =>
      rcases fallible_eq hexec with ⟨e, rfl, rfl⟩ | ⟨img, -, hact, rfl⟩
      · exact .quiet rfl (fun _ _ => rfl) rfl
      · split at hact
        · next hstored =>
            simp only [Except.ok.injEq, Prod.mk.injEq] at hact
            obtain ⟨rfl, rfl⟩ := hact
            exact .fetched id _ rfl rfl hstored hok.1 hok.2 rfl
        · simp at hact
  | putImage img =>
      change Except Err Unit at r
      rcases fallible_ok hexec with ⟨-, ⟨e, rfl⟩, rfl⟩ | ⟨hx, rfl, rfl⟩
      · exact .quiet rfl (fun _ _ => rfl) rfl
      · rw [admits, hx, Option.isSome_none, Bool.false_or] at hclear
        rcases hok with ⟨hmakes, hreg, hrem, hfet, b, hb, hsize⟩ | ⟨hupdates, r, hr, hsame⟩
        · rw [if_pos hmakes] at hclear
          exact .made img b hmakes hreg hrem hfet hb hsize hclear rfl rfl rfl
        · have hmakes : t.op.makes = false := by
            cases h : t.op <;> simp_all [ImageOp.makes, ImageOp.updates]
          rw [if_neg (by simp [hmakes])] at hclear
          exact .updated img r hupdates hr hsame hclear rfl rfl rfl
  | deleteImage id =>
      change Except Err Unit at r
      rcases fallible_ok hexec with ⟨hx, ⟨e, rfl⟩, rfl⟩ | ⟨-, rfl, rfl⟩
      · refine .refused id ?_ rfl rfl rfl
        rintro ⟨r, hr, hid, hremoved⟩
        obtain ⟨e, he⟩ := Option.isSome_iff_exists.mp hx
        simp only [admits, he, Option.isNone_some, Bool.false_or, List.all_eq_true] at hclear
        have := hclear r hr
        simp [hid, hremoved] at this
      · exact .dropped id hok.2 rfl rfl rfl
  | convert args source p =>
      obtain ⟨hmakes, hatt, hreg, hsizes⟩ := hok
      simp only [ImageWorld.exec] at hexec
      split at hexec
      · simp only [Option.some.injEq, Prod.mk.injEq] at hexec
        obtain ⟨rfl, rfl⟩ := hexec
        exact .wrote p none hmakes hatt hreg hsizes hclear images_setLeftover
          (fun q hq => files_setLeftover hq) (by simp) rfl
      · simp only [Option.some.injEq, Prod.mk.injEq] at hexec
        obtain ⟨rfl, rfl⟩ := hexec
        refine .wrote p (some x.data) hmakes hatt hreg hsizes hclear rfl (fun q hq => if_neg hq) ?_ rfl
        rintro b ⟨⟩
        exact if_pos rfl
  | writeFile p data =>
      obtain ⟨hmakes, hatt, hreg, hsizes⟩ := hok
      simp only [ImageWorld.exec] at hexec
      split at hexec
      · simp only [Option.some.injEq, Prod.mk.injEq] at hexec
        obtain ⟨rfl, rfl⟩ := hexec
        exact .wrote p none hmakes hatt hreg hsizes hclear images_setLeftover
          (fun q hq => files_setLeftover hq) (by simp) rfl
      · simp only [Option.some.injEq, Prod.mk.injEq] at hexec
        obtain ⟨rfl, rfl⟩ := hexec
        refine .wrote p (some data) hmakes hatt hreg hsizes hclear rfl (fun q hq => if_neg hq) ?_ rfl
        rintro b ⟨⟩
        exact if_pos rfl
  | stat p =>
      rcases fallible_eq hexec with ⟨e, rfl, rfl⟩ | ⟨n, -, hact, rfl⟩
      · exact .quiet rfl (fun _ _ => rfl) rfl
      · split at hact
        · next b hb =>
            simp only [Except.ok.injEq, Prod.mk.injEq] at hact
            obtain ⟨rfl, rfl⟩ := hact
            exact .sized p b rfl rfl hb hok.1 hok.2 rfl
        · simp at hact
  | remove p =>
      rcases fallible_eq hexec with ⟨e, rfl, rfl⟩ | ⟨u, -, hact, rfl⟩
      · exact .quiet rfl (fun _ _ => rfl) rfl
      · split at hact
        · simp only [Except.ok.injEq, Prod.mk.injEq] at hact
          obtain ⟨-, rfl⟩ := hact
          exact .removed p hok.1 hok.2 rfl (fun q hq => if_neg hq) rfl
        · simp at hact
  | removeAll dir =>
      change Except Err Unit at r
      rcases fallible_ok hexec with ⟨-, ⟨e, rfl⟩, rfl⟩ | ⟨-, rfl, rfl⟩
      · exact .quiet rfl (fun _ _ => rfl) rfl
      · refine .quiet rfl (fun p hp => if_neg fun hin => ?_) rfl
        rw [HostPath.within_trans hin hok] at hp
        exact absurd hp (by decide)
  | createTemp dir pattern =>
      rcases fallible_eq hexec with ⟨e, rfl, rfl⟩ | ⟨name, -, hact, rfl⟩
      · exact .quiet rfl (fun _ _ => rfl) rfl
      · dsimp only at hact
        split at hact
        · simp at hact
        · simp only [Except.ok.injEq, Prod.mk.injEq] at hact
          obtain ⟨-, rfl⟩ := hact
          refine .quiet rfl (fun p hp => if_neg ?_) rfl
          rintro rfl
          rw [show dir = _ from hok, HostPath.within_join] at hp
          exact absurd hp (by decide)
  | mkdirAll p =>
      change Except Err Unit at r
      rcases fallible_ok hexec with ⟨-, ⟨e, rfl⟩, rfl⟩ | ⟨-, rfl, rfl⟩
      · exact .quiet rfl (fun _ _ => rfl) rfl
      · exact .quiet rfl (fun _ _ => rfl) rfl
  | mkdirTemp dir pattern =>
      rcases fallible_ok hexec with ⟨-, ⟨e, rfl⟩, rfl⟩ | ⟨-, rfl, rfl⟩
      · exact .quiet rfl (fun _ _ => rfl) rfl
      · exact .quiet rfl (fun _ _ => rfl) rfl
  | unpackOVA a b =>
      rcases fallible_ok hexec with ⟨-, ⟨e, rfl⟩, rfl⟩ | ⟨-, rfl, rfl⟩
      · exact .quiet rfl (fun _ _ => rfl) rfl
      · exact .quiet rfl (fun _ _ => rfl) rfl
  | freeBytes p =>
      rcases fallible_ok hexec with ⟨-, ⟨e, rfl⟩, rfl⟩ | ⟨-, rfl, rfl⟩
      · exact .quiet rfl (fun _ _ => rfl) rfl
      · exact .quiet rfl (fun _ _ => rfl) rfl
  | vm c =>
      obtain ⟨⟨r', vm⟩, -, heq⟩ := Option.map_eq_some_iff.mp hexec
      simp only [Prod.mk.injEq] at heq
      obtain ⟨rfl, rfl⟩ := heq
      exact .quiet rfl (fun _ _ => rfl) rfl

/-! ### The invariant -/

/-- What holds of one call's account. -/
structure Fair (cfg : StorageConfig) (s : ImageSys) (op : ImageOp) (v : ImageView) : Prop where
  makes : v.attempted ≠ [] → op.makes = true
  outside : ∀ p ∈ v.attempted, p.within (ovaWorkRootPath cfg) = false
  written : ∀ p b, (p, b) ∈ v.contents → p ∈ v.attempted
  once : ∀ p b p' b', (p, b) ∈ v.contents → (p', b') ∈ v.contents → b = b'
  sizes : ∀ p n b, (p, n) ∈ v.sizes → (p, b) ∈ v.contents → n = b.length
  read : ∀ r ∈ v.fetched, r.2.id = r.1 ∧ ∃ old b, s.Made old b ∧ r.2.Same old
  gone : ∀ id ∈ v.dropped, s.world.images.get? id = none ∧ ∃ old b, s.Made old b ∧ old.id = id
  spared : ∀ id, Unlinked v id → id ∉ v.refused

structure Inv (cfg : StorageConfig) (s : ImageSys) : Prop where
  sound : s.Sound (fun op log c => op.ok cfg (ImageLog.view log) c)
    fun op res log => op.post res (ImageLog.view log)
  kept : ∀ t ∈ s.threads, t.lost = false
  fair : ∀ t ∈ s.threads, Fair cfg s t.op (view t)
  keyed : ∀ id img, s.world.images.get? id = some img → img.id = id
  stored : ∀ id img, s.world.images.get? id = some img → ∃ old b, s.Made old b ∧ img.Same old
  unique : ∀ img b img' b', s.Made img b → s.Made img' b' → img.id = img'.id → img = img' ∧ b = b'
  sized : ∀ img b, s.Made img b → b.length = img.sizeBytes
  apart : ∀ id id' img img', s.world.images.get? id = some img →
    s.world.images.get? id' = some img' → img.path = img'.path → id = id'
  present : ∀ id img, s.world.images.get? id = some img → ∀ old b, s.Made old b → old.id = id →
    s.world.files img.path = some b ∨ ∃ t ∈ s.threads, Unlinked (view t) id
  making : ∀ (i : Nat) (t : ImageCall) (p : HostPath), s.threads[i]? = some t → making t p = true →
    (∀ id img, s.world.images.get? id = some img → img.path ≠ p) ∧
    (∀ (j : Nat) (u : ImageCall), s.threads[j]? = some u → j ≠ i → pending u p = false) ∧
    (p ∉ (view t).removed → ∀ b, (p, b) ∈ (view t).contents → s.world.files p = some b)
  aiming : ∀ t ∈ s.threads, t.inFlight = true → t.op.updates = false → ∀ r ∈ (view t).fetched,
    r.1 ∉ (view t).dropped → ∀ id img, s.world.images.get? id = some img →
      img.path = r.2.path → id = r.1

theorem inv_init (files : HostPath → Option Bytes) (vm : World) : Inv cfg (init files vm) where
  sound := by intro t ht; simp [init] at ht
  kept := by intro t ht; simp [init] at ht
  fair := by intro t ht; simp [init] at ht
  keyed := by intro id img h; simp [init] at h
  stored := by intro id img h; simp [init] at h
  unique := by rintro img b img' b' ⟨t, ht, -⟩; simp [init] at ht
  sized := by rintro img b ⟨t, ht, -⟩; simp [init] at ht
  apart := by intro id id' img img' h; simp [init] at h
  present := by intro id img h; simp [init] at h
  making := by intro i t p h; simp [init] at h
  aiming := by intro t ht; simp [init] at ht

/-- Call `i` has had one command answered. -/
structure Moved (cfg : StorageConfig) (s s' : ImageSys) (i : Nat) (t t' : ImageCall) : Prop where
  here : s.threads[i]? = some t
  threads : s'.threads = s.threads.set i t'
  op : t'.op = t.op
  flight : t.inFlight = true
  lost : t'.lost = false
  effect : Effect cfg s i t.op s'.world (view t) (view t')

/-- The step makes this image. -/
structure New (s s' : ImageSys) (t t' : ImageCall) (img : Image) : Prop where
  makes : t.op.makes = true
  registered : (view t).registered = []
  removed : (view t).removed = []
  fetched : (view t).fetched = []
  content : ∃ b, (img.path, b) ∈ (view t).contents ∧
    (img.sizeBytes = b.length ∨ (img.path, img.sizeBytes) ∈ (view t).sizes)
  fresh : s.unused img.id = true
  images : s'.world.images = s.world.images.put img.id img
  files : s'.world.files = s.world.files
  account : view t' = { view t with registered := img :: (view t).registered }

/-- What is made is new under its ID. -/
theorem New.not_made {t' : ImageCall} {img old : Image} {b : Bytes} (hnew : New s s' t t' img)
    (h : s.Made old b) : old.id ≠ img.id := by
  obtain ⟨u, hu, -, hreg, -⟩ := h
  have := List.all_eq_true.mp (List.all_eq_true.mp hnew.fresh u hu) old hreg
  simpa using this

/-- A step makes one image at most. -/
theorem New.inj {t' : ImageCall} {img img' : Image} (h : New s s' t t' img)
    (h' : New s s' t t' img') : img = img' := by
  have := h.account.symm.trans h'.account
  simp only [ImageView.mk.injEq, List.cons.injEq] at this
  exact this.2.2.2.1.1

/-- A file that a call has made lies outside the work directory. -/
theorem Inv.outside (hs : Inv cfg s) {old : Image} {b : Bytes} (h : s.Made old b) :
    old.path.within (ovaWorkRootPath cfg) = false := by
  obtain ⟨u, hu, -, -, hcont⟩ := h
  exact (hs.fair u hu).outside _ ((hs.fair u hu).written _ _ hcont)

namespace Moved

variable {t' : ImageCall} (m : Moved cfg s s' i t t') (hs : Inv cfg s)

include m

theorem mem {u : ImageCall} (hu : u ∈ s'.threads) : u = t' ∨ u ∈ s.threads := by
  rw [m.threads] at hu
  exact (List.mem_or_eq_of_mem_set hu).symm

theorem self_mem : t ∈ s.threads := List.mem_of_getElem? m.here

theorem self_mem' : t' ∈ s'.threads := by
  rw [m.threads]
  exact List.mem_set (List.getElem?_eq_some_iff.mp m.here).1 t'

/-- What a call has made, read and removed it has for good. -/
theorem grows : (∀ img ∈ (view t).registered, img ∈ (view t').registered) ∧
    (∀ c ∈ (view t).contents, c ∈ (view t').contents) ∧
    (∀ r ∈ (view t).fetched, r ∈ (view t').fetched) ∧
    (∀ p ∈ (view t).removed, p ∈ (view t').removed) := by
  have hcons : ∀ {α : Type} {a : α} {l : List α} (b : α), b ∈ l → b ∈ a :: l :=
    fun _ h => List.mem_cons_of_mem _ h
  cases m.effect with
  | quiet _ _ hv | sized _ _ _ _ _ _ _ hv | dropped _ _ _ _ hv | refused _ _ _ _ hv =>
      rw [hv]
      exact ⟨fun _ h => h, fun _ h => h, fun _ h => h, fun _ h => h⟩
  | fetched _ _ _ _ _ _ _ hv =>
      rw [hv]
      exact ⟨fun _ h => h, fun _ h => h, hcons, fun _ h => h⟩
  | wrote _ _ _ _ _ _ _ _ _ _ hv =>
      rw [hv]
      exact ⟨fun _ h => h, fun _ h => List.mem_append_right _ h, fun _ h => h, fun _ h => h⟩
  | made _ _ _ _ _ _ _ _ _ _ _ hv | updated _ _ _ _ _ _ _ _ hv =>
      rw [hv]
      exact ⟨hcons, fun _ h => h, fun _ h => h, fun _ h => h⟩
  | removed _ _ _ _ _ hv =>
      rw [hv]
      exact ⟨fun _ h => h, fun _ h => h, fun _ h => h, hcons⟩

theorem made_mono {img : Image} {b : Bytes} (h : s.Made img b) : s'.Made img b := by
  obtain ⟨u, hu, hmakes, hreg, hcont⟩ := h
  obtain ⟨j, hj⟩ := List.getElem?_of_mem hu
  by_cases hji : j = i
  · subst hji
    obtain rfl := Option.some.inj (m.here.symm.trans hj)
    exact ⟨t', m.self_mem', m.op ▸ hmakes, m.grows.1 _ hreg, m.grows.2.1 _ hcont⟩
  · refine ⟨u, ?_, hmakes, hreg, hcont⟩
    rw [m.threads]
    exact List.mem_of_getElem? (by rw [List.getElem?_set_ne (Ne.symm hji)]; exact hj)

theorem unlinked_mono {id : String} (h : ∃ u ∈ s.threads, Unlinked (view u) id) :
    ∃ u ∈ s'.threads, Unlinked (view u) id := by
  obtain ⟨u, hu, r, hr, hid, hremoved⟩ := h
  obtain ⟨j, hj⟩ := List.getElem?_of_mem hu
  by_cases hji : j = i
  · subst hji
    obtain rfl := Option.some.inj (m.here.symm.trans hj)
    exact ⟨t', m.self_mem', r, m.grows.2.2.1 _ hr, hid, m.grows.2.2.2 _ hremoved⟩
  · refine ⟨u, ?_, r, hr, hid, hremoved⟩
    rw [m.threads]
    exact List.mem_of_getElem? (by rw [List.getElem?_set_ne (Ne.symm hji)]; exact hj)

/-- A step makes at most one image, and says which. -/
theorem made_back {img : Image} {b : Bytes} (h : s'.Made img b) :
    s.Made img b ∨ (New s s' t t' img ∧ (img.path, b) ∈ (view t).contents) := by
  obtain ⟨u, hu, hmakes, hreg, hcont⟩ := h
  rcases m.mem hu with rfl | hu
  swap
  · exact .inl ⟨u, hu, hmakes, hreg, hcont⟩
  rw [m.op] at hmakes
  have hold : (view u).registered = (view t).registered → (view u).contents = (view t).contents →
      s.Made img b := fun hr hc => ⟨t, m.self_mem, hmakes, hr ▸ hreg, hc ▸ hcont⟩
  cases m.effect with
  | quiet _ _ hv | sized _ _ _ _ _ _ _ hv | fetched _ _ _ _ _ _ _ hv | removed _ _ _ _ _ hv
  | dropped _ _ _ _ hv | refused _ _ _ _ hv => exact .inl (hold (by rw [hv]) (by rw [hv]))
  | wrote _ _ _ _ hregistered _ _ _ _ _ hv =>
      rw [hv, show (view t).registered = [] from hregistered] at hreg
      exact absurd hreg List.not_mem_nil
  | made new c hmakes' hregistered hremoved hfetched hb hsize hfresh hi hf hv =>
      rw [hv] at hreg hcont
      have himg : img = new := by simpa [hregistered] using hreg
      subst himg
      exact .inr ⟨⟨hmakes', hregistered, hremoved, hfetched, ⟨c, hb, hsize⟩, hfresh, hi, hf, hv⟩, hcont⟩
  | updated _ _ hupdates _ _ _ _ _ _ =>
      cases hop : t.op <;> simp_all [ImageOp.makes, ImageOp.updates]

/-- A call that is now about a path was so before, has just written there where that was
free, or has just read a record with that file. -/
theorem pending_back {p : HostPath} (h : pending t' p = true) :
    pending t p = true ∨ freeFor cfg s i p = true ∨
      ∃ id img, s.world.images.get? id = some img ∧ img.path = p := by
  rw [pending_iff, making_iff, aiming_iff, m.op] at h
  have hmaking : (view t).registered = [] → p ∈ (view t).attempted → pending t p = true :=
    fun hr ha => pending_iff.mpr (.inl (making_iff.mpr ⟨m.flight, hr, ha⟩))
  have haiming : ∀ r, t.op.updates = false → r ∈ (view t).fetched → r.2.path = p →
      r.1 ∉ (view t).dropped → pending t p = true :=
    fun r hu hr hp hd => pending_iff.mpr (.inr (aiming_iff.mpr ⟨m.flight, hu, r, hr, hp, hd⟩))
  cases m.effect with
  | quiet _ _ hv | sized _ _ _ _ _ _ _ hv | removed _ _ _ _ _ hv | refused _ _ _ _ hv =>
      rw [hv] at h
      rcases h with ⟨-, hr, ha⟩ | ⟨-, hu, r, hr, hp, hd⟩
      · exact .inl (hmaking hr ha)
      · exact .inl (haiming r hu hr hp hd)
  | fetched id img _ _ hstored _ _ hv =>
      rw [hv] at h
      rcases h with ⟨-, hr, ha⟩ | ⟨-, hu, r, hr, hp, hd⟩
      · exact .inl (hmaking hr ha)
      · rcases List.mem_cons.mp hr with rfl | hr
        · exact .inr (.inr ⟨id, img, hstored, hp⟩)
        · exact .inl (haiming r hu hr hp hd)
  | wrote q b? _ hattempted hregistered _ hfree _ _ _ hv =>
      rw [hv] at h
      rcases h with ⟨-, -, ha⟩ | ⟨-, hu, r, hr, hp, hd⟩
      · rcases List.mem_cons.mp ha with rfl | ha
        · exact .inr (.inl hfree)
        · exact .inl (hmaking hregistered ha)
      · exact .inl (haiming r hu hr hp hd)
  | made _ _ _ _ _ _ _ _ _ _ _ hv | updated _ _ _ _ _ _ _ _ hv =>
      rw [hv] at h
      rcases h with ⟨-, hr, -⟩ | ⟨-, hu, r, hr, hp, hd⟩
      · exact absurd hr (by simp)
      · exact .inl (haiming r hu hr hp hd)
  | dropped _ _ _ _ hv =>
      rw [hv] at h
      rcases h with ⟨-, hr, ha⟩ | ⟨-, hu, r, hr, hp, hd⟩
      · exact .inl (hmaking hr ha)
      · exact .inl (haiming r hu hr hp fun hmem => hd (List.mem_cons_of_mem _ hmem))

/-- A file outside the work directory that is nobody's to write is left alone, unless the
call removes it for a record it has read. -/
theorem file_kept {p : HostPath} (hout : p.within (ovaWorkRootPath cfg) = false)
    (hnot : freeFor cfg s i p = false) (hmaking : making t p = false) :
    s'.world.files p = s.world.files p ∨ (aiming t p = true ∧ p ∈ (view t').removed ∧
      ∃ r ∈ (view t).fetched, r.2.path = p ∧ r.1 ∉ (view t).dropped) := by
  cases m.effect with
  | quiet _ hf _ => exact .inl (hf p hout)
  | sized _ _ _ hf _ _ _ _ | fetched _ _ _ hf _ _ _ _ | made _ _ _ _ _ _ _ _ _ _ hf _
  | updated _ _ _ _ _ _ _ hf _ | dropped _ _ _ hf _ | refused _ _ _ hf _ => exact .inl (by rw [hf])
  | wrote q _ _ _ _ _ hfree' _ hf _ _ =>
      refine .inl (hf p ?_)
      rintro rfl
      rw [hnot] at hfree'
      exact absurd hfree' (by decide)
  | removed q hupdates hwhy _ hf hv =>
      by_cases hpq : p = q
      swap
      · exact .inl (hf p hpq)
      subst hpq
      rcases hwhy with hin | ⟨hatt, hreg, -⟩ | ⟨r, hr, hp, hdropped, -⟩
      · rw [hout] at hin
        exact absurd hin (by decide)
      · rw [making_iff.mpr ⟨m.flight, hreg, hatt⟩] at hmaking
        exact absurd hmaking (by decide)
      · have hmem : r.1 ∉ (view t).dropped := by simp [hdropped]
        refine .inr ⟨aiming_iff.mpr ⟨m.flight, hupdates, r, hr, hp, hmem⟩, ?_, r, hr, hp, hmem⟩
        rw [hv]
        exact List.mem_cons_self

/-- A call that does not write keeps its files, but for those it removes. -/
theorem wrote_or_kept :
    (∃ p b?, freeFor cfg s i p = true ∧ (view t).attempted = [] ∧
      (∀ b, b? = some b → s'.world.files p = some b) ∧ s'.world.images = s.world.images ∧
      view t' = { view t with attempted := p :: (view t).attempted,
                              contents := (b?.map (p, ·)).toList ++ (view t).contents }) ∨
    ((view t').attempted = (view t).attempted ∧ (view t').contents = (view t).contents ∧
      ∀ p, p.within (ovaWorkRootPath cfg) = false → p ∉ (view t').removed →
        s'.world.files p = s.world.files p) := by
  cases m.effect with
  | wrote p b? _ hattempted _ _ hfree hi _ hb hv =>
      exact .inl ⟨p, b?, hfree, hattempted, hb, hi, hv⟩
  | quiet _ hf hv => exact .inr ⟨by rw [hv], by rw [hv], fun p hp _ => hf p hp⟩
  | sized _ _ _ hf _ _ _ hv | fetched _ _ _ hf _ _ _ hv | made _ _ _ _ _ _ _ _ _ _ hf hv
  | updated _ _ _ _ _ _ _ hf hv | dropped _ _ _ hf hv | refused _ _ _ hf hv =>
      exact .inr ⟨by rw [hv], by rw [hv], fun p _ _ => by rw [hf]⟩
  | removed q _ _ _ hf hv =>
      refine .inr ⟨by rw [hv], by rw [hv], fun p _ hp => hf p ?_⟩
      rintro rfl
      rw [hv] at hp
      exact hp List.mem_cons_self

/-- What a call has read it had read before, or the record is stored. -/
theorem fetched_back {r : String × Image} (hr : r ∈ (view t').fetched) :
    r ∈ (view t).fetched ∨
      (s.world.images.get? r.1 = some r.2 ∧ s'.world.images = s.world.images) := by
  cases m.effect with
  | fetched id img hi _ hstored _ _ hv =>
      rw [hv] at hr
      rcases List.mem_cons.mp hr with rfl | hr
      · exact .inr ⟨hstored, hi⟩
      · exact .inl hr
  | quiet _ _ hv | sized _ _ _ _ _ _ _ hv | wrote _ _ _ _ _ _ _ _ _ _ hv
  | made _ _ _ _ _ _ _ _ _ _ _ hv | updated _ _ _ _ _ _ _ _ hv | removed _ _ _ _ _ hv
  | dropped _ _ _ _ hv | refused _ _ _ _ hv =>
      rw [hv] at hr
      exact .inl hr

theorem dropped_mono {id : String} (h : id ∈ (view t).dropped) : id ∈ (view t').dropped := by
  cases m.effect with
  | dropped _ _ _ _ hv =>
      rw [hv]
      exact List.mem_cons_of_mem _ h
  | quiet _ _ hv | sized _ _ _ _ _ _ _ hv | fetched _ _ _ _ _ _ _ hv
  | wrote _ _ _ _ _ _ _ _ _ _ hv | made _ _ _ _ _ _ _ _ _ _ _ hv | updated _ _ _ _ _ _ _ _ hv
  | removed _ _ _ _ _ hv | refused _ _ _ _ hv =>
      rw [hv]
      exact h

/-- The image made in this step is made. -/
theorem made_new {img : Image} (hnew : New s s' t t' img) {b : Bytes}
    (hb : (img.path, b) ∈ (view t).contents) : s'.Made img b := by
  refine ⟨t', m.self_mem', m.op ▸ hnew.makes, ?_, m.grows.2.1 _ hb⟩
  rw [hnew.account]
  exact List.mem_cons_self

include hs

/-- Where a record comes from: it was there, but for what an update changed, or is new. -/
theorem image_back {id : String} {img : Image} (h : s'.world.images.get? id = some img) :
    (∃ cur, s.world.images.get? id = some cur ∧ img.Same cur) ∨ (img.id = id ∧ New s s' t t' img) := by
  cases m.effect with
  | quiet hi _ _ | sized _ _ hi _ _ _ _ _ | fetched _ _ hi _ _ _ _ _ | wrote _ _ _ _ _ _ _ hi _ _ _
  | removed _ _ _ hi _ _ | refused _ _ hi _ _ =>
      rw [hi] at h
      exact .inl ⟨img, h, rfl, rfl, rfl⟩
  | dropped id' _ hi _ _ =>
      rw [hi] at h
      exact .inl ⟨img, (Bucket.mem_erase.mp h).2, rfl, rfl, rfl⟩
  | made new c hmakes hregistered hremoved hfetched hb hsize hfresh hi hf hv =>
      rw [hi] at h
      rcases Bucket.mem_put h with ⟨rfl, rfl⟩ | ⟨-, hold⟩
      · exact .inr ⟨rfl, hmakes, hregistered, hremoved, hfetched, ⟨c, hb, hsize⟩, hfresh, hi, hf, hv⟩
      · exact .inl ⟨img, hold, rfl, rfl, rfl⟩
  | updated new r hupdates hr hsame hstored hi hf hv =>
      rw [hi] at h
      rcases Bucket.mem_put h with ⟨rfl, rfl⟩ | ⟨-, hold⟩
      · obtain ⟨cur, hcur⟩ := Option.isSome_iff_exists.mp hstored
        obtain ⟨old, b, hmade, hcursame⟩ := hs.stored _ _ hcur
        obtain ⟨-, old', b', hmade', hrsame⟩ := (hs.fair t m.self_mem).read r hr
        have hid : old.id = old'.id := by
          rw [← hcursame.id, ← hrsame.id, ← hsame.id, hs.keyed _ _ hcur]
        obtain ⟨rfl, rfl⟩ := hs.unique _ _ _ _ hmade hmade' hid
        refine .inl ⟨cur, hcur, (hs.keyed _ _ hcur).symm, ?_, ?_⟩
        · rw [hsame.path, hrsame.path, hcursame.path]
        · rw [hsame.sizeBytes, hrsame.sizeBytes, hcursame.sizeBytes]
      · exact .inl ⟨img, hold, rfl, rfl, rfl⟩

/-- What has been made under an ID and is not stored does not come back. -/
theorem none_kept {id : String} (h : s.world.images.get? id = none)
    (hmade : ∃ old b, s.Made old b ∧ old.id = id) : s'.world.images.get? id = none := by
  cases hget : s'.world.images.get? id with
  | none => rfl
  | some img =>
      obtain ⟨old, b, hold, rfl⟩ := hmade
      rcases m.image_back hs hget with ⟨cur, hcur, -⟩ | ⟨hid, hnew⟩
      · rw [h] at hcur
        exact absurd hcur (by simp)
      · exact absurd hid.symm (hnew.not_made hold)

/-- Who makes an image has its path to itself. -/
theorem new_making {img : Image} (hnew : New s s' t t' img) : ImageCall.making t img.path = true := by
  obtain ⟨b, hb, -⟩ := hnew.content
  exact making_iff.mpr ⟨m.flight, hnew.registered, (hs.fair t m.self_mem).written _ _ hb⟩

/-! #### One field after the other -/

theorem fair_step : ∀ u ∈ s'.threads, Fair cfg s' u.op (view u) := by
  have hmono : ∀ {op : ImageOp} {v : ImageView}, Fair cfg s op v → Fair cfg s' op v := by
    intro op v h
    refine { h with read := fun r hr => ?_, gone := fun id hid => ?_ }
    · obtain ⟨hid, old, b, hmade, hsame⟩ := h.read r hr
      exact ⟨hid, old, b, m.made_mono hmade, hsame⟩
    · obtain ⟨hnone, old, b, hmade, hold⟩ := h.gone id hid
      exact ⟨m.none_kept hs hnone ⟨old, b, hmade, hold⟩, old, b, m.made_mono hmade, hold⟩
  intro u hu
  rcases m.mem hu with rfl | hu
  swap
  · exact hmono (hs.fair u hu)
  have hfair := hs.fair t m.self_mem
  have h := hmono hfair
  rw [m.op]
  cases m.effect with
  | quiet _ _ hv => exact hv ▸ h
  | sized p b _ _ hb hregistered hremoved hv =>
      rw [hv]
      refine { h with sizes := fun q n c hmem hc => ?_ }
      rcases List.mem_cons.mp hmem with heq | hmem
      · simp only [Prod.mk.injEq] at heq
        obtain ⟨rfl, rfl⟩ := heq
        have hmaking : ImageCall.making t q = true :=
          making_iff.mpr ⟨m.flight, hregistered, hfair.written _ _ hc⟩
        have hfile := (hs.making i t q m.here hmaking).2.2 (by simp [hremoved]) c hc
        rw [hb] at hfile
        rw [Option.some.inj hfile]
      · exact h.sizes q n c hmem hc
  | fetched id img _ _ hstored hdropped hrefused hv =>
      rw [hv]
      refine { h with read := fun r hr => ?_, spared := fun id' hun => ?_ }
      · rcases List.mem_cons.mp hr with rfl | hr
        · obtain ⟨old, b, hmade, hsame⟩ := hs.stored id img hstored
          exact ⟨hs.keyed id img hstored, old, b, m.made_mono hmade, hsame⟩
        · exact h.read r hr
      · rw [show (view t).refused = [] from hrefused]
        exact List.not_mem_nil
  | wrote p b? hmakes hattempted hregistered hsizes hfree hi hf hb hv =>
      rw [hv]
      have hempty : (view t).contents = [] := by
        refine List.eq_nil_iff_forall_not_mem.mpr fun c hc => ?_
        have := h.written c.1 c.2 hc
        rw [hattempted] at this
        exact List.not_mem_nil this
      have hnew : ∀ q c, (q, c) ∈ (b?.map (p, ·)).toList ++ (view t).contents → q = p ∧ b? = some c := by
        intro q c hc
        rw [hempty, List.append_nil, Option.mem_toList, Option.map_eq_some_iff] at hc
        obtain ⟨b, hb, heq⟩ := hc
        simp only [Prod.mk.injEq] at heq
        obtain ⟨rfl, rfl⟩ := heq
        exact ⟨rfl, hb⟩
      refine { h with
        makes := fun _ => hmakes, outside := fun q hq => ?_, written := fun q c hc => ?_
        once := fun q c q' c' hc hc' => ?_, sizes := fun q n c hmem _ => ?_ }
      · rcases List.mem_cons.mp hq with rfl | hq
        · exact (freeFor_iff.mp hfree).1
        · exact h.outside q hq
      · exact (hnew q c hc).1 ▸ List.mem_cons_self
      · exact Option.some.inj ((hnew q c hc).2.symm.trans (hnew q' c' hc').2)
      · rw [show (view t).sizes = [] from hsizes] at hmem
        exact absurd hmem List.not_mem_nil
  | made img b hmakes hregistered hremoved hfetched hb hsize hfresh hi hf hv =>
      rw [hv]
      exact { h with }
  | updated img r hupdates hr hsame hstored hi hf hv =>
      rw [hv]
      exact { h with }
  | removed p hupdates hwhy hi hf hv =>
      rw [hv]
      refine { h with spared := fun id hun => ?_ }
      obtain ⟨r, hr, rfl, hmem⟩ := hun
      rcases List.mem_cons.mp hmem with rfl | hmem
      · rcases hwhy with hin | ⟨-, -, hfetched⟩ | ⟨-, -, -, -, hrefused⟩
        · obtain ⟨-, old, b, hmade, hsame⟩ := hfair.read r hr
          rw [hsame.path, hs.outside hmade] at hin
          exact absurd hin (by decide)
        · rw [show (view t).fetched = [] from hfetched] at hr
          exact absurd hr List.not_mem_nil
        · rw [show (view t).refused = [] from hrefused]
          exact List.not_mem_nil
      · exact h.spared r.1 ⟨r, hr, rfl, hmem⟩
  | dropped id hr hi hf hv =>
      rw [hv]
      refine { h with gone := fun id' hid' => ?_ }
      rcases List.mem_cons.mp hid' with rfl | hid'
      · obtain ⟨r, hr, rfl⟩ := hr
        obtain ⟨hid, old, b, hmade, hsame⟩ := h.read r hr
        exact ⟨by rw [hi]; exact Bucket.get?_erase_self _ _, old, b, hmade, hsame.id.symm.trans hid⟩
      · exact h.gone id' hid'
  | refused id hsafe hi hf hv =>
      rw [hv]
      refine { h with spared := fun id' hun => ?_ }
      intro hmem
      rcases List.mem_cons.mp hmem with rfl | hmem
      · exact hsafe hun
      · exact h.spared id' hun hmem

theorem keyed_step {id : String} {img : Image} (h : s'.world.images.get? id = some img) :
    img.id = id := by
  rcases m.image_back hs h with ⟨cur, hcur, hsame⟩ | ⟨hid, -⟩
  · rw [hsame.id, hs.keyed id cur hcur]
  · exact hid

theorem stored_step {id : String} {img : Image} (h : s'.world.images.get? id = some img) :
    ∃ old b, s'.Made old b ∧ img.Same old := by
  rcases m.image_back hs h with ⟨cur, hcur, hsame⟩ | ⟨-, hnew⟩
  · obtain ⟨old, b, hmade, hcursame⟩ := hs.stored id cur hcur
    exact ⟨old, b, m.made_mono hmade, hsame.id.trans hcursame.id, hsame.path.trans hcursame.path,
      hsame.sizeBytes.trans hcursame.sizeBytes⟩
  · obtain ⟨b, hb, -⟩ := hnew.content
    exact ⟨img, b, m.made_new hnew hb, rfl, rfl, rfl⟩

theorem unique_step {img img' : Image} {b b' : Bytes} (h : s'.Made img b) (h' : s'.Made img' b')
    (hid : img.id = img'.id) : img = img' ∧ b = b' := by
  rcases m.made_back h with h | ⟨hnew, hb⟩
  · rcases m.made_back h' with h' | ⟨hnew', -⟩
    · exact hs.unique _ _ _ _ h h' hid
    · exact absurd hid (hnew'.not_made h)
  · rcases m.made_back h' with h' | ⟨hnew', hb'⟩
    · exact absurd hid.symm (hnew.not_made h')
    · exact ⟨hnew.inj hnew', (hs.fair t m.self_mem).once _ _ _ _ hb hb'⟩

theorem sized_step {img : Image} {b : Bytes} (h : s'.Made img b) : b.length = img.sizeBytes := by
  rcases m.made_back h with h | ⟨hnew, hb⟩
  · exact hs.sized img b h
  · obtain ⟨c, hc, hsize⟩ := hnew.content
    have hfair := hs.fair t m.self_mem
    obtain rfl := hfair.once _ _ _ _ hb hc
    rcases hsize with hsize | hsize
    · exact hsize.symm
    · exact (hfair.sizes _ _ _ hsize hc).symm

theorem apart_step {id id' : String} {img img' : Image} (h : s'.world.images.get? id = some img)
    (h' : s'.world.images.get? id' = some img') (hpath : img.path = img'.path) : id = id' := by
  rcases m.image_back hs h with ⟨cur, hcur, hsame⟩ | ⟨hid, hnew⟩
  · rcases m.image_back hs h' with ⟨cur', hcur', hsame'⟩ | ⟨-, hnew'⟩
    · exact hs.apart id id' cur cur' hcur hcur' (by rw [← hsame.path, hpath, hsame'.path])
    · have := (hs.making i t _ m.here (m.new_making hs hnew')).1 id cur hcur
      exact absurd (hsame.path.symm.trans hpath) this
  · rcases m.image_back hs h' with ⟨cur', hcur', hsame'⟩ | ⟨hid', hnew'⟩
    · have := (hs.making i t _ m.here (m.new_making hs hnew)).1 id' cur' hcur'
      exact absurd (hsame'.path.symm.trans hpath.symm) this
    · rw [← hid, ← hid', hnew.inj hnew']

theorem present_step {id : String} {img old : Image} {b : Bytes}
    (h : s'.world.images.get? id = some img) (hmade : s'.Made old b) (hid : old.id = id) :
    s'.world.files img.path = some b ∨ ∃ u ∈ s'.threads, Unlinked (view u) id := by
  rcases m.image_back hs h with ⟨cur, hcur, hsame⟩ | ⟨himg, hnew⟩
  · have hold : s.Made old b := by
      refine (m.made_back hmade).resolve_right fun ⟨hnew, _⟩ => ?_
      obtain ⟨old', b', hmade', hsame'⟩ := hs.stored id cur hcur
      refine hnew.not_made hmade' ?_
      rw [← hsame'.id, hs.keyed id cur hcur, hid]
    rcases hs.present id cur hcur old b hold hid with hfile | hun
    · have hout : cur.path.within (ovaWorkRootPath cfg) = false := by
        obtain ⟨old', b', hmade', hsame'⟩ := hs.stored id cur hcur
        rw [hsame'.path]
        exact hs.outside hmade'
      have hnot : freeFor cfg s i cur.path = false := by
        refine Bool.eq_false_iff.mpr fun hfree => ?_
        exact (freeFor_iff.mp hfree).2.1 id cur hcur rfl
      have hmaking : making t cur.path = false := by
        refine Bool.eq_false_iff.mpr fun hmaking => ?_
        exact (hs.making i t _ m.here hmaking).1 id cur hcur rfl
      rw [hsame.path]
      rcases m.file_kept hout hnot hmaking with hkept | ⟨haim, hremoved, r, hr, hpath, hdropped⟩
      · exact .inl (hkept.trans hfile)
      · obtain ⟨-, hupdates, -⟩ := aiming_iff.mp haim
        have hrid := hs.aiming t m.self_mem m.flight hupdates r hr hdropped id cur hcur hpath.symm
        exact .inr ⟨t', m.self_mem', r, m.grows.2.2.1 r hr, hrid.symm, hpath ▸ hremoved⟩
    · exact .inr (m.unlinked_mono hun)
  · rcases m.made_back hmade with hold | ⟨hnew', hb⟩
    · exact absurd (hid.trans himg.symm) (hnew.not_made hold)
    · obtain rfl := hnew.inj hnew'
      left
      rw [hnew.files]
      refine (hs.making i t _ m.here (m.new_making hs hnew)).2.2 ?_ b hb
      rw [hnew.removed]
      exact List.not_mem_nil

theorem making_step (j : Nat) (u : ImageCall) (p : HostPath) (hu : s'.threads[j]? = some u)
    (hmaking : making u p = true) :
    (∀ id img, s'.world.images.get? id = some img → img.path ≠ p) ∧
    (∀ (k : Nat) (v : ImageCall), s'.threads[k]? = some v → k ≠ j → pending v p = false) ∧
    (p ∉ (view u).removed → ∀ b, (p, b) ∈ (view u).contents → s'.world.files p = some b) := by
  rw [m.threads] at hu
  rcases Pool.getElem?_advance m.here hu with ⟨rfl, rfl⟩ | ⟨hji, hold⟩
  · have hothers : ∀ (k : Nat) (v : ImageCall), s'.threads[k]? = some v → k ≠ j →
        s.threads[k]? = some v := by
      intro k v hv hkj
      rwa [m.threads, List.getElem?_set_ne (Ne.symm hkj)] at hv
    obtain ⟨-, hreg', hatt'⟩ := making_iff.mp hmaking
    have hreg : (view t).registered = [] := by
      refine List.eq_nil_iff_forall_not_mem.mpr fun img himg => ?_
      have := m.grows.1 img himg
      rw [hreg'] at this
      exact List.not_mem_nil this
    rcases m.wrote_or_kept with ⟨q, b?, hfree, hatt, hb, hi, hv⟩ | ⟨hatt, hcont, hfiles⟩
    · -- the call has just written the file where the path was free
      have hp : p = q := by
        rw [hv] at hatt'
        simpa [hatt] using hatt'
      subst hp
      obtain ⟨-, hstored, halone⟩ := freeFor_iff.mp hfree
      refine ⟨fun id img himg => hstored id img (hi ▸ himg),
        fun k v hv hkj => halone k v (hothers k v hv hkj) hkj, fun _ b hmem => hb b ?_⟩
      rw [hv] at hmem
      rcases List.mem_append.mp hmem with hmem | hmem
      · simpa using hmem
      · have := (hs.fair t m.self_mem).written _ _ hmem
        rw [hatt] at this
        exact absurd this List.not_mem_nil
    · have hold : making t p = true := making_iff.mpr ⟨m.flight, hreg, hatt ▸ hatt'⟩
      obtain ⟨hstored, halone, hfile⟩ := hs.making j t p m.here hold
      refine ⟨fun id img himg hp => ?_,
        fun k v hv hkj => halone k v (hothers k v hv hkj) hkj, fun hremoved b hmem => ?_⟩
      · rcases m.image_back hs himg with ⟨cur, hcur, hsame⟩ | ⟨-, hnew⟩
        · exact hstored id cur hcur (hsame.path.symm.trans hp)
        · rw [hnew.account] at hreg'
          exact absurd hreg' (List.cons_ne_nil _ _)
      · have hout := (hs.fair t m.self_mem).outside p (hatt ▸ hatt')
        rw [hfiles p hout hremoved]
        exact hfile (fun hmem => hremoved (m.grows.2.2.2 p hmem)) b (hcont ▸ hmem)
  · -- another call: what call `i` does is not about this path
    obtain ⟨hstored, halone, hfile⟩ := hs.making j u p hold hmaking
    have hfree : pending t p = false := halone i t m.here (Ne.symm hji)
    have hnot : freeFor cfg s i p = false := by
      refine Bool.eq_false_iff.mpr fun h => ?_
      have := (freeFor_iff.mp h).2.2 j u hold hji
      rw [pending_iff.mpr (.inl hmaking)] at this
      exact absurd this (by decide)
    refine ⟨fun id img himg hp => ?_, fun k v hv hkj => ?_, fun hremoved b hb => ?_⟩
    · rcases m.image_back hs himg with ⟨cur, hcur, hsame⟩ | ⟨-, hnew⟩
      · exact hstored id cur hcur (hsame.path.symm.trans hp)
      · rw [← hp, pending_iff.mpr (.inl (m.new_making hs hnew))] at hfree
        exact absurd hfree (by decide)
    · rw [m.threads] at hv
      rcases Pool.getElem?_advance m.here hv with ⟨rfl, rfl⟩ | ⟨-, hv⟩
      · refine Bool.eq_false_iff.mpr fun h => ?_
        rcases m.pending_back h with h | h | ⟨id, img, himg, hp⟩
        · rw [hfree] at h
          exact absurd h (by decide)
        · rw [hnot] at h
          exact absurd h (by decide)
        · exact hstored id img himg hp
      · exact halone k v hv hkj
    · have hnot_making : making t p = false := by
        refine Bool.eq_false_iff.mpr fun h => ?_
        rw [pending_iff.mpr (.inl h)] at hfree
        exact absurd hfree (by decide)
      have hout := (hs.fair u (List.mem_of_getElem? hold)).outside p (making_iff.mp hmaking).2.2
      rcases m.file_kept hout hnot hnot_making with hkept | ⟨haim, -⟩
      · exact hkept.trans (hfile hremoved b hb)
      · rw [pending_iff.mpr (.inr haim)] at hfree
        exact absurd hfree (by decide)

theorem aiming_step : ∀ u ∈ s'.threads, u.inFlight = true → u.op.updates = false →
    ∀ r ∈ (view u).fetched, r.1 ∉ (view u).dropped → ∀ id img,
      s'.world.images.get? id = some img → img.path = r.2.path → id = r.1 := by
  intro u hu hflight hupdates r hr hdropped id img himg hpath
  obtain ⟨j, hj⟩ := List.getElem?_of_mem hu
  rw [m.threads] at hj
  rcases Pool.getElem?_advance m.here hj with ⟨rfl, rfl⟩ | ⟨hji, hold⟩
  · rw [m.op] at hupdates
    rcases m.fetched_back hr with hr | ⟨hstored, hi⟩
    · have hdropped' : r.1 ∉ (view t).dropped := fun h => hdropped (m.dropped_mono h)
      rcases m.image_back hs himg with ⟨cur, hcur, hsame⟩ | ⟨-, hnew⟩
      · exact hs.aiming t m.self_mem m.flight hupdates r hr hdropped' id cur hcur
          (hsame.path.symm.trans hpath)
      · rw [hnew.fetched] at hr
        exact absurd hr List.not_mem_nil
    · rw [hi] at himg
      exact hs.apart id r.1 img r.2 himg hstored hpath
  · rcases m.image_back hs himg with ⟨cur, hcur, hsame⟩ | ⟨-, hnew⟩
    · exact hs.aiming u (List.mem_of_getElem? hold) hflight hupdates r hr hdropped id cur hcur
        (hsame.path.symm.trans hpath)
    · -- the path of a new image is nobody else's to remove
      have hfree := (hs.making i t _ m.here (m.new_making hs hnew)).2.1 j u hold hji
      rw [pending_iff.mpr (.inr (aiming_iff.mpr ⟨hflight, hupdates, r, hr, hpath.symm, hdropped⟩))]
        at hfree
      exact absurd hfree (by decide)

end Moved

/-! ### The run -/

/-- A call that is only begun has made nothing. -/
theorem made_begun {op : ImageOp} {body : ImageM Unit} {img : Image} {b : Bytes} :
    Made (s.add op body) img b ↔ s.Made img b := by
  constructor
  · rintro ⟨u, hu, hmakes, hreg, hcont⟩
    rcases List.mem_append.mp hu with hu | hu
    · exact ⟨u, hu, hmakes, hreg, hcont⟩
    · obtain rfl := List.mem_singleton.mp hu
      exact absurd hreg List.not_mem_nil
  · rintro ⟨u, hu, h⟩
    exact ⟨u, List.mem_append_left _ hu, h⟩

theorem fair_empty {op : ImageOp} : Fair cfg s op {} where
  makes := fun h => absurd rfl h
  outside := fun _ h => absurd h List.not_mem_nil
  written := fun _ _ h => absurd h List.not_mem_nil
  once := fun _ _ _ _ h => absurd h List.not_mem_nil
  sizes := fun _ _ _ h => absurd h List.not_mem_nil
  read := fun _ h => absurd h List.not_mem_nil
  gone := fun _ h => absurd h List.not_mem_nil
  spared := fun _ _ => List.not_mem_nil

theorem inv_begun {d : Daemon} (hs : Inv d.cfg.storage s) {op : ImageOp}
    (hsound : (s.add op (op.body d)).Sound (fun op log c => op.ok d.cfg.storage (ImageLog.view log) c)
      fun op res log => op.post res (ImageLog.view log)) :
    Inv d.cfg.storage (s.add op (op.body d)) where
  sound := hsound
  kept := by
    intro u hu
    rcases List.mem_append.mp hu with hu | hu
    · exact hs.kept u hu
    · exact List.mem_singleton.mp hu ▸ rfl
  fair := by
    intro u hu
    rcases List.mem_append.mp hu with hu | hu
    · have h := hs.fair u hu
      exact { h with
        read := by simpa only [made_begun] using h.read
        gone := by simpa only [made_begun, Pool.add_world] using h.gone }
    · obtain rfl := List.mem_singleton.mp hu
      exact fair_empty
  keyed := hs.keyed
  stored := by simpa only [made_begun, Pool.add_world] using hs.stored
  unique := by simpa only [made_begun] using hs.unique
  sized := by simpa only [made_begun] using hs.sized
  apart := hs.apart
  present := by
    intro id img himg old b hmade hid
    rcases hs.present id img himg old b (made_begun.mp hmade) hid with h | ⟨u, hu, h⟩
    · exact .inl h
    · exact .inr ⟨u, List.mem_append_left _ hu, h⟩
  making := by
    intro j u p hu hmaking
    rcases Pool.getElem?_add hu with hold | ⟨rfl, rfl⟩
    · obtain ⟨hstored, halone, hfile⟩ := hs.making j u p hold hmaking
      refine ⟨hstored, fun k v hv hkj => ?_, hfile⟩
      rcases Pool.getElem?_add hv with hv | ⟨rfl, rfl⟩
      · exact halone k v hv hkj
      · refine Bool.eq_false_iff.mpr fun h => ?_
        rcases pending_iff.mp h with h | h
        · exact absurd (making_iff.mp h).2.2 List.not_mem_nil
        · obtain ⟨-, -, r, hr, -⟩ := aiming_iff.mp h
          exact absurd hr List.not_mem_nil
    · exact absurd (making_iff.mp hmaking).2.2 List.not_mem_nil
  aiming := by
    intro u hu hflight hupdates r hr
    rcases List.mem_append.mp hu with hu | hu
    · exact hs.aiming u hu hflight hupdates r hr
    · obtain rfl := List.mem_singleton.mp hu
      exact absurd hr List.not_mem_nil

/-- Nothing here depends on the VM manager's side of the world. -/
theorem inv_drift (hs : Inv cfg s) (vm : World) :
    Inv cfg { s with world := { s.world with vm := vm } } where
  sound := hs.sound
  kept := hs.kept
  fair := fun t ht => { hs.fair t ht with }
  keyed := hs.keyed
  stored := hs.stored
  unique := hs.unique
  sized := hs.sized
  apart := hs.apart
  present := hs.present
  making := hs.making
  aiming := hs.aiming

theorem inv_step {d : Daemon} (s : ImageSys) (l : ImageLabel) (s' : ImageSys)
    (hs : Inv d.cfg.storage s) (hclear : Clear d.cfg.storage s l) (h : step d s l = some s') :
    Inv d.cfg.storage s' := by
  have hbody : ∀ op : ImageOp, Prog.wp (Prog.Sem.alone fun log c => op.ok d.cfg.storage
      (ImageLog.view log) c) (op.body d) (fun res log => op.post res (ImageLog.view log)) [] :=
    fun op => Prog.wp_alone_of_account (op.body_wp d)
  have hsound := Pool.sound_step hbody hs.sound h
  cases l with
  | call op =>
      obtain rfl := Option.some.inj h
      exact inv_begun hs hsound
  | restart op => exact hclear.elim
  | env e =>
      obtain ⟨w, hw, rfl⟩ := Pool.step_env h
      obtain rfl := Option.some.inj hw
      exact inv_drift hs e
  | step i x =>
      obtain ⟨t, c, k, r, w, ht, hl, hp, hexec, rfl⟩ := Pool.step_step h
      have hadmits : admits d.cfg.storage s i t x c = true := by
        have := hclear t ht
        rwa [clear, hp] at this
      have m : Moved d.cfg.storage s { world := w, threads := s.threads.set i (t.advance c r (k r)) }
          i t (t.advance c r (k r)) :=
        ⟨ht, rfl, rfl, by simp [Thread.inFlight, hl, hp, Prog.isDone], hl,
          effect (hs.sound.allowed ht hp) hadmits hexec⟩
      exact {
        sound := hsound
        kept := fun u hu => (m.mem hu).elim (fun h => h ▸ m.lost) (hs.kept u)
        fair := m.fair_step hs
        keyed := fun id img => m.keyed_step hs
        stored := fun id img => m.stored_step hs
        unique := fun img b img' b' => m.unique_step hs
        sized := fun img b => m.sized_step hs
        apart := fun id id' img img' => m.apart_step hs
        present := fun id img h old b => m.present_step hs h
        making := m.making_step hs
        aiming := m.aiming_step hs }

end ImageSys

end VMSmith
