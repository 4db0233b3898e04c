/-
Where image files lie.

The three requests that make an image pass its name on to `imagePath`, which cleans
the path, and none of them looks for separators or dots in it.  So the file lies
directly in the images directory exactly when the components of the name before its
last one lead from there back to there; with no slash in the name there are none.

`confinement` answers a request's commands from any world at all, changed by anybody
in between.  The one thing that must hold there is that a record under an ID the
request has registered still has the path it registered, since the cleanup of a
failed import removes the file of the record it reads back.
-/
import VMSmith.Api.ImageRequests

namespace VMSmith

open Go (Bytes)

open Prog

namespace ImageRequest

/-- The request passes the checks made before anything is written. -/
def accepts : ImageRequest → Bool
  | create req =>
      (Api.validateCreateImageRequest req.vmID req.name).isOk &&
        (Api.validateImageDescription req.description).isOk && (Api.normalizeTags req.tags).isOk
  | upload req =>
      req.imageName ≠ "" && (Api.validateImageDescription (Go.trimSpace req.description)).isOk &&
        (Api.normalizeTags (Api.parseTagFormValues req.tags)).isOk &&
        (Api.validateUploadedImage req.filename req.data).isOk
  | importOVA req => Go.hasSuffix (Go.toLower (Go.trimSpace req.filename)) ".ova"

end ImageRequest

/-- What a request may do to files: write and remove images directly in the images
directory, and keep its spool and what it unpacks in the work directory. -/
def ImageCmd.Confined (cfg : StorageConfig) : ImageCmd → Prop
  | .convert _ _ p => p.directlyIn cfg.imagesDir
  | .writeFile p _ => p.directlyIn cfg.imagesDir
  | .remove p => p.directlyIn cfg.imagesDir ∨
      ∃ r, p = (Images.ovaWorkRootPath cfg).join ("upload-" ++ r ++ ".ova")
  | .removeAll p => ∃ r, p = (Images.ovaWorkRootPath cfg).join ("import-" ++ r)
  | .createTemp dir _ => dir = Images.ovaWorkRootPath cfg
  | .mkdirTemp dir _ => dir = Images.ovaWorkRootPath cfg
  | .unpackOVA _ p => ∃ r, p = (Images.ovaWorkRootPath cfg).join ("import-" ++ r)
  | .mkdirAll p => p = cfg.imagesDir ∨ p = Images.ovaWorkRootPath cfg
  | _ => True

/-- A record under an ID the request has registered has the path it registered. -/
def Honest (log : ImageLog) (v : ImageWorld) : Prop :=
  ∀ img ∈ log.view.registered, ∀ rec, v.images.get? img.id = some rec → rec.path = img.path

/-- Every command is answered from some world; the request keeps to its places. -/
def confinement (cfg : StorageConfig) : Sem ImageCmd ImageCmd.Resp ImageLog where
  allowed := fun _ c => c.Confined cfg
  next := fun log c r log' =>
    log' = ⟨c, r⟩ :: log ∧ ∃ v x w, Honest log v ∧ v.exec c x = some (r, w)

/-- The components of a name before its last one, walked from the images directory. -/
def imageDirOf (cfg : StorageConfig) (name : String) : HostPath :=
  (HostPath.parents name).foldl HostPath.cleanStep cfg.imagesDir

namespace Images

variable {cfg : StorageConfig}

theorem imagePath_eq (name : String) :
    imagePath cfg name = (imageDirOf cfg name).join (HostPath.leaf name ++ ".qcow2") :=
  HostPath.resolve_append (by decide) (by decide)

/-- An image's file lies where its name leads. -/
theorem imagePath_directlyIn {name : String} {d : HostPath} :
    (imagePath cfg name).directlyIn d ↔ imageDirOf cfg name = d := by
  rw [imagePath_eq, HostPath.join_directlyIn]

end Images

/-- A name without a slash leads nowhere else. -/
theorem imageDirOf_plain (cfg : StorageConfig) {name : String} (h : '/' ∉ name.toList) :
    imageDirOf cfg name = cfg.imagesDir := by
  rw [imageDirOf, HostPath.parents_eq_nil h]
  rfl

/-! ### Parts of a request -/

/-- The commands of the VM manager are in order wherever those of the image manager are. -/
theorem only_vmCall {P : ImageCmd → Prop} (h : ∀ c, P (.vm c)) {α : Type} (p : M α) :
    Only P (vmCall p) := by
  induction p with
  | ret a => exact .ret a
  | throw e => exact .throw e
  | call c k ih => exact .call (h c) ih

theorem only_imageCall {P : ImageCmd → Prop} {c : ImageCmd} (h : P c) : Only P (imageCall c) :=
  only_perform h

theorem writes_wrapped (P : ImageCmd → Prop) {α : Type} (context : String) (r : Except Err α) :
    Only P (wrapped context r) := only_ofExcept P _

theorem only_refuseIf (P : ImageCmd → Prop) (c : Prop) [Decidable c] (e : Err) :
    Only P (refuseIf c e) := by
  unfold refuseIf
  split
  · exact .throw e
  · exact .ret ()

/-- What follows a check only has to keep to its places when the check is passed. -/
theorem only_checked {P : ImageCmd → Prop} {α β : Type} {r : Except Err α} {f : α → ImageM β}
    (h : ∀ a, r = .ok a → Only P (f a)) : Only P (Prog.ofExcept r >>= f) := by
  cases r with
  | ok a => exact h a rfl
  | error e => exact .throw e

theorem only_unlessRefused {P : ImageCmd → Prop} {β : Type} {c : Prop} [Decidable c] {e : Err}
    {f : Unit → ImageM β} (h : ¬ c → Only P (f ())) : Only P (refuseIf c e >>= f) := by
  by_cases hc : c
  · rw [refuseIf, if_pos hc]
    exact .throw e
  · rw [refuseIf, if_neg hc]
    exact h hc

theorem only_removeQuietly {P : ImageCmd → Prop} {p : HostPath} (h : P (.remove p)) :
    Only P (removeQuietly p) :=
  .bind (only_imageCall h) fun _ => .ret ()

theorem only_vm {cfg : StorageConfig} {α : Type} (p : M α) :
    Only (ImageCmd.Confined cfg) (vmCall p) := only_vmCall (fun _ => trivial) p

namespace Images

variable {cfg : StorageConfig} {name : String} (h : imageDirOf cfg name = cfg.imagesDir)

/-- Storing a record, or removing its file again. -/
theorem only_registerOrRemove {img : Image} (hp : img.path.directlyIn cfg.imagesDir) :
    Only (ImageCmd.Confined cfg) (registerOrRemove img) := by
  unfold registerOrRemove
  refine .bind (only_imageCall trivial) fun r => ?_
  cases r with
  | error e => exact .bind (only_removeQuietly (.inl hp)) fun _ => .throw e
  | ok u => exact .ret img

include h

theorem only_createImage (vmDiskPath : HostPath) (sourceVM : String) (opts : CreateImageOptions) :
    Only (ImageCmd.Confined cfg) (createImage cfg vmDiskPath name sourceVM opts) := by
  unfold createImage
  refine .bind (.bind (only_imageCall (imagePath_directlyIn.mpr h)) fun _ => writes_wrapped _ _ _)
    fun _ => ?_
  refine .bind (.bind (only_imageCall trivial) fun _ => only_ofExcept _ _) fun _ => ?_
  refine .bind (only_imageCall trivial) fun _ => ?_
  exact .bind (.bind (only_imageCall trivial) fun _ => only_ofExcept _ _) fun _ => .ret _

theorem only_importImage (src : Bytes) (opts : CreateImageOptions) :
    Only (ImageCmd.Confined cfg) (importImage cfg name src opts) := by
  unfold importImage
  refine .bind (.bind (only_imageCall (.inl rfl)) fun _ => only_ofExcept _ _) fun _ => ?_
  refine .bind (.bind (only_imageCall (imagePath_directlyIn.mpr h)) fun _ => writes_wrapped _ _ _)
    fun _ => ?_
  exact .bind (only_imageCall trivial) fun _ =>
    only_registerOrRemove (imagePath_directlyIn.mpr h)

end Images

/-! ### The cleanup of a failed import

The file it removes is that of the record it reads back, so what has been registered
has to be carried along. -/

section Cleanup

variable {cfg : StorageConfig} {α β : Type} {log : ImageLog}

/-- A part that keeps to its places stays in order whatever it is answered. -/
theorem wp_only {p : ImageM α} (hp : Only (ImageCmd.Confined cfg) p) {Q : Except Err α → ImageLog → Prop}
    (hQ : ∀ r log', Q r log') : wp (confinement cfg) p Q log := by
  have hok : ∀ (s : ImageLog) (c : ImageCmd), True → c.Confined cfg →
      (confinement cfg).allowed s c := fun _ _ _ hc => hc
  exact wp_of_only _ hok (fun _ _ _ _ _ _ _ => trivial) hp trivial fun r log' _ => hQ r log'

/-- Then what comes after it decides. -/
theorem wp_then {p : ImageM α} {f : α → ImageM β} {Q : Except Err β → ImageLog → Prop}
    (hp : Only (ImageCmd.Confined cfg) p) (hf : ∀ a log', wp (confinement cfg) (f a) Q log')
    (hQ : ∀ e log', Q (.error e) log') : wp (confinement cfg) (p >>= f) Q log := by
  rw [bind_eq, wp_bind]
  refine wp_only hp fun r log' => ?_
  cases r with
  | ok a => exact hf a log'
  | error e => exact hQ e log'

theorem mem_registered_cons {img : Image} {c : ImageCmd} {r : c.Resp}
    (h : img ∈ log.view.registered) : img ∈ (ImageLog.view (⟨c, r⟩ :: log)).registered := by
  show img ∈ (log.view.add c r).registered
  unfold ImageView.add
  split
  all_goals first
    | exact List.mem_cons_of_mem _ h
    | exact h

/-- What has been registered stays so. -/
theorem wp_registered {img : Image} {p : ImageM α} (hp : Only (ImageCmd.Confined cfg) p)
    (hmem : img ∈ log.view.registered) {Q : Except Err α → ImageLog → Prop}
    (hQ : ∀ r log', img ∈ log'.view.registered → Q r log') : wp (confinement cfg) p Q log := by
  have hok : ∀ (s : ImageLog) (c : ImageCmd), img ∈ s.view.registered → c.Confined cfg →
      (confinement cfg).allowed s c := fun _ _ _ hc => hc
  have hstep : ∀ (s : ImageLog) (c : ImageCmd) (r : c.Resp) (s' : ImageLog),
      img ∈ s.view.registered → c.Confined cfg → (confinement cfg).next s c r s' →
      img ∈ s'.view.registered := by
    rintro s c r s' hs - ⟨rfl, -⟩
    exact mem_registered_cons hs
  exact wp_of_only _ hok hstep hp hmem hQ

/-- What holds of the result of a part still does when the deferred rest has run. -/
theorem wp_deferred {part : ImageM α} {last : ImageM Unit} {Q : Except Err α → ImageLog → Prop}
    (hlast : Only (ImageCmd.Confined cfg) last) (hkeep : ∀ r a log', Q r log' → Q r (a :: log'))
    (hQ : ∀ e log', Q (.error e) log') (h : wp (confinement cfg) part Q log) :
    wp (confinement cfg) (deferred part last) Q log := by
  unfold deferred
  rw [bind_eq, wp_bind, wp_attempt]
  refine wp_mono (fun r log' hr => ?_) h
  have hok : ∀ (s : ImageLog) (c : ImageCmd), Q r s → c.Confined cfg →
      (confinement cfg).allowed s c := fun _ _ _ hc => hc
  have hstep : ∀ (s : ImageLog) (c : ImageCmd) (a : c.Resp) (s' : ImageLog),
      Q r s → c.Confined cfg → (confinement cfg).next s c a s' → Q r s' := by
    rintro s c a s' hs - ⟨rfl, -⟩
    exact hkeep r _ s hs
  show wp _ (last >>= fun _ => Prog.ofExcept r) Q log'
  rw [bind_eq, wp_bind]
  refine wp_of_only _ hok hstep hlast hr fun r' log'' hr'' => ?_
  cases r' with
  | ok u => exact (wp_ofExcept _ _ _).mpr hr''
  | error e => exact hQ e log''

/-- The random names the system gives have the pattern asked for. -/
theorem temp_name {v w : ImageWorld} {x : ImageChoice} {dir : HostPath} {pre suf name : String} :
    (v.exec (.mkdirTemp dir (pre, suf)) x = some (.ok name, w) → ∃ t, name = pre ++ t ++ suf) ∧
    (v.exec (.createTemp dir (pre, suf)) x = some (.ok name, w) → ∃ t, name = pre ++ t ++ suf) := by
  constructor
  · intro h
    have h : fallible x.choice v (.ok (pre ++ x.choice.text ++ suf, v)) = some (.ok name, w) := h
    rcases fallible_eq h with ⟨e, he, -⟩ | ⟨a, -, hact, hr⟩
    · simp at he
    · simp only [Except.ok.injEq, Prod.mk.injEq] at hact hr
      exact ⟨_, hr.trans hact.1.symm⟩
  · intro h
    rcases fallible_eq h with ⟨e, he, -⟩ | ⟨a, -, hact, hr⟩
    · simp at he
    · dsimp only at hact
      split at hact
      · simp at hact
      · simp only [Except.ok.injEq, Prod.mk.injEq] at hact hr
        exact ⟨_, hr.trans hact.1.symm⟩

theorem wp_mkdirTemp {pre suf context : String} {f : String → ImageM α}
    {Q : Except Err α → ImageLog → Prop}
    (hf : ∀ t log', wp (confinement cfg) (f (pre ++ t ++ suf)) Q log')
    (hQ : ∀ e log', Q (.error e) log') :
    wp (confinement cfg) ((imageCall (.mkdirTemp (Images.ovaWorkRootPath cfg) (pre, suf)) >>=
      wrapped context) >>= f) Q log := by
  refine (wp_call _ _ _ _).mpr ⟨rfl, ?_⟩
  rintro (e | name) log' ⟨-, v, x, w, -, hexec⟩
  · exact (wp_throw _ _ _).mpr (hQ _ _)
  · obtain ⟨t, rfl⟩ := temp_name.1 hexec
    exact hf t log'

theorem wp_createTemp {pre suf context : String} {f : String → ImageM α}
    {Q : Except Err α → ImageLog → Prop}
    (hf : ∀ t log', wp (confinement cfg) (f (pre ++ t ++ suf)) Q log')
    (hQ : ∀ e log', Q (.error e) log') :
    wp (confinement cfg) ((imageCall (.createTemp (Images.ovaWorkRootPath cfg) (pre, suf)) >>=
      wrapped context) >>= f) Q log := by
  refine (wp_call _ _ _ _).mpr ⟨rfl, ?_⟩
  rintro (e | name) log' ⟨-, v, x, w, -, hexec⟩
  · exact (wp_throw _ _ _).mpr (hQ _ _)
  · obtain ⟨t, rfl⟩ := temp_name.2 hexec
    exact hf t log'

theorem wp_ovaWorkRoot {f : HostPath → ImageM α} {Q : Except Err α → ImageLog → Prop}
    (hf : ∀ log', wp (confinement cfg) (f (Images.ovaWorkRootPath cfg)) Q log')
    (hQ : ∀ e log', Q (.error e) log') :
    wp (confinement cfg) (Images.ovaWorkRoot cfg >>= f) Q log := by
  refine (wp_call _ _ _ _).mpr ⟨.inr rfl, ?_⟩
  rintro (e | u) log' -
  · exact (wp_throw _ _ _).mpr (hQ _ _)
  · exact hf log'

/-- What an import hands on: its image is registered, in its place. -/
def Handed (cfg : StorageConfig) (r : Except Err Images.OVAImportResult) (log : ImageLog) : Prop :=
  ∀ res, r = .ok res → res.image.path.directlyIn cfg.imagesDir ∧ res.image ∈ log.view.registered

theorem wp_registerOrRemove {img : Image} (hp : img.path.directlyIn cfg.imagesDir) :
    wp (confinement cfg) (Images.registerOrRemove img)
      (fun r log' => ∀ i, r = .ok i → i = img ∧ img ∈ log'.view.registered) log := by
  unfold Images.registerOrRemove
  refine (wp_call _ _ _ _).mpr ⟨trivial, ?_⟩
  rintro (e | u) log' ⟨rfl, -⟩
  · have hremove : Only (ImageCmd.Confined cfg) (removeQuietly img.path) :=
      only_removeQuietly (.inl hp)
    have herr : ∀ (e' : Err) (log' : ImageLog), ∀ i, (.error e' : Except Err Image) = .ok i →
        i = img ∧ img ∈ log'.view.registered := fun _ _ i hi => by simp at hi
    show wp _ (removeQuietly img.path >>= fun _ => .throw e) _ _
    exact wp_then hremove (fun _ _ => (wp_throw _ _ _).mpr (herr _ _)) herr
  · refine (wp_ret _ _ _).mpr ?_
    rintro i hi
    exact ⟨(Except.ok.inj hi).symm, List.mem_cons_self⟩

theorem wp_convertOVA {name : String} (h : imageDirOf cfg name = cfg.imagesDir) (ovaPath : HostPath)
    (ova : UnpackedOVA) :
    wp (confinement cfg) (Images.convertOVA cfg ovaPath name ova) (Handed cfg) log := by
  have hpath := Images.imagePath_directlyIn.mpr h
  have herr : ∀ e log', Handed cfg (.error e) log' := fun e log' res hres => by simp at hres
  unfold Images.convertOVA
  refine wp_then (.bind (only_imageCall (.inl rfl)) fun _ => only_ofExcept _ _) (fun _ _ => ?_) herr
  refine wp_then (only_imageCall trivial) (fun found _ => ?_) herr
  cases found with
  | ok size => exact (wp_throw _ _ _).mpr (herr _ _)
  | error _ =>
      refine wp_then (only_imageCall hpath) (fun converted _ => ?_) herr
      cases converted with
      | error e =>
          have hremove : Only (ImageCmd.Confined cfg) (removeQuietly (Images.imagePath cfg name)) :=
            only_removeQuietly (.inl hpath)
          refine wp_then hremove (fun _ _ => ?_) herr
          exact (wp_throw _ _ _).mpr (herr _ _)
      | ok data =>
          refine wp_then (.bind (only_imageCall trivial) fun _ => only_ofExcept _ _)
            (fun _ _ => ?_) herr
          refine wp_then (only_imageCall trivial) (fun _ _ => ?_) herr
          rw [bind_eq, wp_bind]
          refine wp_mono (fun r log' hr => ?_) (wp_registerOrRemove hpath)
          cases r with
          | error e => exact herr e log'
          | ok img =>
              obtain ⟨rfl, hmem⟩ := hr img rfl
              refine (wp_ret _ _ _).mpr ?_
              rintro res hres
              rw [← Except.ok.inj hres]
              exact ⟨hpath, hmem⟩

theorem wp_importOVA {name : String} (h : imageDirOf cfg name = cfg.imagesDir) (ovaPath : HostPath) :
    wp (confinement cfg) (Images.importOVA cfg ovaPath name) (Handed cfg) log := by
  have herr : ∀ e log', Handed cfg (.error e) log' := fun e log' res hres => by simp at hres
  unfold Images.importOVA
  refine wp_ovaWorkRoot (fun _ => ?_) herr
  refine wp_mkdirTemp (fun t _ => ?_) herr
  have hdir : ∃ r, (Images.ovaWorkRootPath cfg).join ("import-" ++ t ++ "") =
      (Images.ovaWorkRootPath cfg).join ("import-" ++ r) := ⟨t, by rw [String.append_empty]⟩
  refine wp_deferred (.bind (only_imageCall hdir) fun _ => .ret ()) ?_ herr ?_
  · intro r a log' hr res hres
    exact (hr res hres).imp_right mem_registered_cons
  · refine wp_then (.bind (only_imageCall hdir) fun _ => only_ofExcept _ _) (fun ova _ => ?_) herr
    exact wp_convertOVA h ovaPath ova

/-- Deleting what has been registered removes its file and no other. -/
theorem wp_deleteImage {img : Image} (hp : img.path.directlyIn cfg.imagesDir)
    (hmem : img ∈ log.view.registered) :
    wp (confinement cfg) (Images.deleteImage img.id) (fun _ _ => True) log := by
  unfold Images.deleteImage
  refine (wp_call _ _ _ _).mpr ⟨trivial, ?_⟩
  rintro (e | rec) log' ⟨-, v, x, w, hhonest, hexec⟩
  · exact (wp_throw _ _ _).mpr trivial
  · have hrec : rec.path = img.path := by
      refine hhonest img hmem rec ?_
      rcases fallible_eq hexec with ⟨e, he, -⟩ | ⟨a, -, hact, hr⟩
      · simp at he
      · split at hact
        · next heq =>
            simp only [Except.ok.injEq, Prod.mk.injEq] at hact hr
            rw [heq, hact.1, hr]
        · simp at hact
    have hremove : Only (ImageCmd.Confined cfg) (removeQuietly rec.path) :=
      only_removeQuietly (.inl (hrec ▸ hp))
    refine wp_only (.bind hremove fun _ => ?_) fun _ _ => trivial
    exact .bind (only_imageCall trivial) fun _ => only_ofExcept _ _

end Cleanup

/-! ### The requests -/

namespace ImageRequest

variable {d : Daemon}

/-- The VM of an imported appliance is made, or its image deleted again. -/
theorem createOrCleanup_confined {req : Api.ImportVMOVARequest} {res : Images.OVAImportResult}
    {log : ImageLog} (hp : res.image.path.directlyIn d.cfg.storage.imagesDir)
    (hmem : res.image ∈ log.view.registered) :
    wp (confinement d.cfg.storage) (Api.createOrCleanup d req res) (fun _ _ => True) log := by
  unfold Api.createOrCleanup
  rw [bind_eq, wp_bind, wp_attempt]
  refine wp_registered (only_vm _) hmem fun r log' hmem' => ?_
  cases r with
  | error e =>
      show wp _ (_ >>= fun _ => Prog.throw e) _ _
      rw [bind_eq, wp_bind, wp_attempt]
      refine wp_mono (fun _ _ _ => ?_) (wp_deleteImage hp hmem')
      exact (wp_throw _ _ _).mpr trivial
  | ok vm => exact wp_only (.bind (only_vm _) fun _ => .ret vm) fun _ _ => trivial

theorem importVMOVA_confined {req : Api.ImportVMOVARequest} {log : ImageLog}
    (h : imageDirOf d.cfg.storage req.chosenName = d.cfg.storage.imagesDir) :
    wp (confinement d.cfg.storage) (Api.importVMOVA d req) (fun _ _ => True) log := by
  have herr : ∀ (e : Err) (log' : ImageLog), True := fun _ _ => trivial
  unfold Api.importVMOVA
  refine wp_then (only_refuseIf _ _ _) (fun _ _ => ?_) herr
  refine wp_ovaWorkRoot (fun _ => ?_) herr
  refine wp_createTemp (fun t _ => ?_) herr
  refine wp_deferred (only_removeQuietly (.inr ⟨t, rfl⟩)) (fun _ _ _ _ => trivial) herr ?_
  rw [bind_eq, wp_bind]
  refine wp_mono (fun r log' hr => ?_) (wp_importOVA h _)
  cases r with
  | error e => exact trivial
  | ok res => exact createOrCleanup_confined (hr res rfl).1 (hr res rfl).2

/-- A request whose name leads to the images directory keeps to its places. -/
theorem handler_confined {req : ImageRequest}
    (h : imageDirOf d.cfg.storage req.imageName = d.cfg.storage.imagesDir) :
    wp (confinement d.cfg.storage) (req.handler d) (fun _ _ => True) [] := by
  cases req with
  | create req =>
      refine wp_only (.bind ?_ fun _ => .ret ()) fun _ _ => trivial
      unfold Api.createImage
      refine .bind (only_ofExcept _ _) fun _ => .bind (only_ofExcept _ _) fun _ => ?_
      refine .bind (only_ofExcept _ _) fun tags => .bind (only_vm _) fun vm => ?_
      refine .bind (Images.only_createImage h _ _ _) fun img => ?_
      exact .bind (only_vm _) fun _ => .ret img
  | upload req =>
      refine wp_only (.bind ?_ fun _ => .ret ()) fun _ _ => trivial
      unfold Api.uploadImage
      refine .bind (only_refuseIf _ _ _) fun _ => .bind (only_ofExcept _ _) fun _ => ?_
      refine .bind (only_ofExcept _ _) fun tags => .bind (only_ofExcept _ _) fun _ => ?_
      refine .bind (.bind (only_imageCall trivial) fun _ => writes_wrapped _ _ _) fun free => ?_
      refine .bind (only_refuseIf _ _ _) fun _ => ?_
      exact .bind (Images.only_importImage h _ _) fun img => .bind (only_vm _) fun _ => .ret img
  | importOVA req =>
      show wp _ (Api.importVMOVA d req >>= fun _ => .ret ()) _ _
      rw [bind_eq, wp_bind]
      refine wp_mono (fun r log _ => ?_) (importVMOVA_confined h)
      cases r with
      | ok vm => exact (wp_ret _ _ _).mpr trivial
      | error e => exact trivial

/-- A request that is refused touches no file. -/
theorem refused_confined {d : Daemon} {req : ImageRequest} (h : req.accepts = false) :
    Only (ImageCmd.Confined d.cfg.storage) (req.handler d) := by
  cases req with
  | create req =>
      refine .bind ?_ fun _ => .ret ()
      refine only_checked fun _ hspec => only_checked fun _ hdesc => only_checked fun _ htags => ?_
      rw [accepts, hspec, hdesc, htags] at h
      exact absurd h (by simp [Except.isOk, Except.toBool])
  | upload req =>
      refine .bind ?_ fun _ => .ret ()
      refine only_unlessRefused fun hname => only_checked fun _ hdesc => ?_
      refine only_checked fun _ htags => only_checked fun _ hdata => ?_
      rw [accepts, hdesc, htags, hdata] at h
      exact absurd h (by simp [Except.isOk, Except.toBool, hname])
  | importOVA req =>
      refine .bind ?_ fun _ => .ret ()
      refine only_unlessRefused fun hova => ?_
      exact absurd h (by simpa [accepts] using hova)

end ImageRequest

/-! ### A request that passes the checks comes to write its file -/

/-- The image file a command writes. -/
def ImageCmd.written? : ImageCmd → Option HostPath
  | .convert _ _ p => some p
  | .writeFile p _ => some p
  | _ => none

/-- A file that may be written lies in the images directory. -/
theorem written_directlyIn {cfg : StorageConfig} {c : ImageCmd} {p : HostPath} (h : c.Confined cfg)
    (hc : c.written? = some p) : p.directlyIn cfg.imagesDir := by
  unfold ImageCmd.written? at hc
  split at hc
  · exact Option.some.inj hc ▸ h
  · exact Option.some.inj hc ▸ h
  · simp at hc

/-- The program can come to write the file. -/
def CanWrite (cfg : StorageConfig) {α : Type} (prog : ImageM α) (log : ImageLog) (p : HostPath) : Prop :=
  ∃ c log', Issues (confinement cfg) prog log c log' ∧ c.written? = some p

section Writing

variable {cfg : StorageConfig} {α β : Type} {log log' : ImageLog} {p : HostPath}

/-- Before anything is registered every world is an honest one. -/
theorem answered {c : ImageCmd} {r : c.Resp} (hlog : log.view.registered = []) {v w : ImageWorld}
    {x : ImageChoice} (hexec : v.exec c x = some (r, w)) :
    (confinement cfg).next log c r (⟨c, r⟩ :: log) := by
  refine ⟨rfl, v, x, w, ?_, hexec⟩
  intro img himg
  simp [hlog] at himg

theorem CanWrite.bind {prog : ImageM α} {f : α → ImageM β} (h : CanWrite cfg prog log p) :
    CanWrite cfg (prog >>= f) log p := by
  obtain ⟨c, log', hissues, hc⟩ := h
  exact ⟨c, log', hissues.bind, hc⟩

theorem CanWrite.attempt {prog : ImageM α} (h : CanWrite cfg prog log p) :
    CanWrite cfg (prog.attempt : ImageM (Except Err α)) log p := by
  obtain ⟨c, log', hissues, hc⟩ := h
  exact ⟨c, log', hissues.attempt, hc⟩

/-- Once the first part has returned, the second comes to write. -/
theorem CanWrite.after {prog : ImageM α} {f : α → ImageM β} {a : α}
    (hrun : Runs (confinement cfg) prog log (.ok a) log') (h : CanWrite cfg (f a) log' p) :
    CanWrite cfg (prog >>= f) log p := by
  obtain ⟨c, log'', hissues, hc⟩ := h
  exact ⟨c, log'', hrun.issues rfl hissues, hc⟩

/-- The next command writes it. -/
theorem CanWrite.now {c : ImageCmd} {k : c.Resp → ImageM α} (h : c.written? = some p) :
    CanWrite cfg (.call c k) log p := ⟨c, log, .here c k log, h⟩

/-- A check that is passed. -/
theorem CanWrite.ofExcept {r : Except Err α} {f : α → ImageM β} {a : α} (hr : r = .ok a)
    (h : CanWrite cfg (f a) log p) : CanWrite cfg (Prog.ofExcept r >>= f) log p := by
  rw [hr]
  exact h

theorem CanWrite.refuseIf {q : Prop} [Decidable q] {e : Err} {f : Unit → ImageM β} (hq : ¬ q)
    (h : CanWrite cfg (f ()) log p) : CanWrite cfg (VMSmith.refuseIf q e >>= f) log p := by
  rw [VMSmith.refuseIf, if_neg hq]
  exact h

theorem ok_of_isOk {r : Except Err α} (h : r.isOk = true) : ∃ a, r = .ok a := by
  cases r with
  | ok a => exact ⟨a, rfl⟩
  | error e => exact absurd h (by simp [Except.isOk, Except.toBool])

/-- A VM that is found, and libvirt that does not know it. -/
theorem runs_get (id : String) : ∃ vm log, Runs (confinement cfg) (vmCall (Manager.get id)) []
    (.ok vm) log := by
  let stored : ImageWorld := { vm := { store := { vms := Bucket.empty.put id webVM } } }
  have hget : stored.exec (.vm (.store (.getVM id))) {} = some (.ok webVM, stored) := by
    simp [stored, ImageWorld.exec, World.exec, StoreState.exec, fallible]
  have hlookup : stored.exec (.vm (.virt (.lookupDomainByName webVM.name))) {} =
      some (.error (.ext "Domain not found"), stored) := rfl
  exact ⟨_, _, .call (answered rfl hget) (.call (answered rfl hlookup) (.ret _ _))⟩

end Writing

namespace ImageRequest

variable {d : Daemon}

/-- Whoever passes the checks can come to write the file of the name. -/
theorem canWrite {req : ImageRequest} (h : req.accepts = true) :
    CanWrite d.cfg.storage (req.handler d) [] (Images.imagePath d.cfg.storage req.imageName) := by
  cases req with
  | create req =>
      simp only [accepts, Bool.and_eq_true] at h
      obtain ⟨⟨hspec, hdesc⟩, htags⟩ := h
      obtain ⟨_, hspec⟩ := ok_of_isOk hspec
      obtain ⟨_, hdesc⟩ := ok_of_isOk hdesc
      obtain ⟨tags, htags⟩ := ok_of_isOk htags
      obtain ⟨vm, log, hget⟩ := runs_get req.vmID
      refine .bind (.ofExcept hspec (.ofExcept hdesc (.ofExcept htags (.after hget (.bind ?_)))))
      exact .bind (.bind (.now rfl))
  | upload req =>
      simp only [accepts, Bool.and_eq_true, decide_eq_true_eq] at h
      obtain ⟨⟨⟨hname, hdesc⟩, htags⟩, hdata⟩ := h
      obtain ⟨_, hdesc⟩ := ok_of_isOk hdesc
      obtain ⟨tags, htags⟩ := ok_of_isOk htags
      obtain ⟨_, hdata⟩ := ok_of_isOk hdata
      have hfree : ∀ dir : HostPath, ({} : ImageWorld).exec (.freeBytes dir)
          { choice := { nat := req.data.length } } = some (.ok req.data.length, {}) := fun _ => rfl
      have hmkdir : ∀ dir : HostPath, ({} : ImageWorld).exec (.mkdirAll dir) {} = some (.ok (), {}) :=
        fun _ => rfl
      refine .bind (.refuseIf hname (.ofExcept hdesc (.ofExcept htags (.ofExcept hdata ?_))))
      refine .after (.call (answered rfl (hfree _)) (.ret _ _)) ?_
      refine .refuseIf (lt_irrefl _) (.bind ?_)
      exact .after (.call (answered rfl (hmkdir _)) (.ret _ _)) (.bind (.now rfl))
  | importOVA req =>
      have hmkdir : ∀ dir : HostPath, ({} : ImageWorld).exec (.mkdirAll dir) {} = some (.ok (), {}) :=
        fun _ => rfl
      have htemp : ∀ dir : HostPath, ({} : ImageWorld).exec (.createTemp dir ("upload-", ".ova")) {} =
          some (.ok "upload-.ova", _) := fun _ => rfl
      have hdir : ∀ dir : HostPath, ({} : ImageWorld).exec (.mkdirTemp dir ("import-", "")) {} =
          some (.ok "import-", {}) := fun _ => rfl
      have hunpack : ∀ a b : HostPath, ({} : ImageWorld).exec (.unpackOVA a b) {} =
          some (.ok {}, {}) := fun _ _ => rfl
      have hstat : ∀ p : HostPath, ({} : ImageWorld).exec (.stat p) {} =
          some (.error (.ext ("stat " ++ p.toText ++ ": no such file or directory")), {}) :=
        fun _ => rfl
      refine .bind (.refuseIf (by simpa [accepts] using h) ?_)
      refine .after (.call (answered rfl (hmkdir _)) (.ret _ _)) ?_
      refine .after (.call (answered rfl (htemp _)) (.ret _ _)) (.bind (.attempt (.bind ?_)))
      refine .after (.call (answered rfl (hmkdir _)) (.ret _ _)) ?_
      refine .after (.call (answered rfl (hdir _)) (.ret _ _)) (.bind (.attempt ?_))
      refine .after (.call (answered rfl (hunpack _ _)) (.ret _ _)) ?_
      refine .after (.call (answered rfl (hmkdir _)) (.ret _ _)) ?_
      refine .after (.call (answered rfl (hstat _)) (.ret _ _)) ?_
      exact .bind (.now rfl)

/-- **Image files are confined exactly by their names.**  A request keeps to the images
directory, whatever it is answered, if and only if it is refused or the part of its
image's name before the last slash leads from the images directory back to it. -/
theorem imagePath_confined (d : Daemon) (req : ImageRequest) :
    wp (confinement d.cfg.storage) (req.handler d) (fun _ _ => True) [] ↔
      (req.accepts = true → imageDirOf d.cfg.storage req.imageName = d.cfg.storage.imagesDir) := by
  constructor
  · intro hwp haccepts
    obtain ⟨c, log, hissues, hc⟩ := canWrite haccepts
    exact Images.imagePath_directlyIn.mp (written_directlyIn (wp_issues hwp hissues) hc)
  · intro h
    by_cases haccepts : req.accepts = true
    · exact handler_confined (h haccepts)
    · rw [Bool.not_eq_true] at haccepts
      exact wp_only (refused_confined haccepts) fun _ _ => trivial

/-- An upload named after the disk of a VM. -/
def diskUpload : ImageRequest :=
  .upload { name := "../vms/vm-1/disk", filename := "base.qcow2", data := [0] }

/-- A world with the disk of `webVM` in it. -/
def diskWorld : ImageWorld := ({} : ImageWorld).setFile webVM.diskPath (some [1, 2, 3])

/-- The upload is accepted and overwrites the disk, so it does not keep to its places. -/
theorem upload_overwrites_disk :
    (∃ xs w, run ImageWorld.exec (diskUpload.handler .plain) xs diskWorld = some (.ok (), w) ∧
      diskWorld.files webVM.diskPath = some [1, 2, 3] ∧ w.files webVM.diskPath = some [0]) ∧
    ¬ ∀ req : ImageRequest, wp (confinement Daemon.plain.cfg.storage) (req.handler .plain)
        (fun _ _ => True) [] := by
  constructor
  · exact ⟨[{ choice := { nat := 1 } }, {}, {}, {}, {}, {}, {}], _, rfl, rfl, rfl⟩
  · intro hall
    have haccepts : diskUpload.accepts = true := by decide
    obtain ⟨c, log, hissues, hc⟩ := canWrite haccepts
    exact absurd (written_directlyIn (wp_issues (hall diskUpload) hissues) hc) (by decide)

end ImageRequest

end VMSmith
