/-
What an image request does, whatever it is answered.

A request that makes an image writes one file, once, before it stores one record for
it; it removes that file only while it has not stored the record, and from then on only
the file of a record it has read back.  An update stores a record it has read, with its
ID, path and size; a deletion removes the file of the record it has read and then has
its record deleted or refused.
-/
import VMSmith.Api.ImageRequests

namespace VMSmith

open Go (Bytes)

open Prog

/-- One record but for what an update may change. -/
structure Image.Same (img old : Image) : Prop where
  id : img.id = old.id
  path : img.path = old.path
  sizeBytes : img.sizeBytes = old.sizeBytes

theorem Images.ImageUpdateSpec.apply_same (patch : Images.ImageUpdateSpec) (img : Image) (now : Nat) :
    Image.Same { patch.apply img with updatedAt := now } img := by
  unfold Images.ImageUpdateSpec.apply
  exact ⟨rfl, rfl, rfl⟩

namespace ImageOp

/-- Which commands a request may issue, after what it has been answered. -/
def ok (cfg : StorageConfig) (op : ImageOp) (v : ImageView) : ImageCmd → Prop
  | .convert _ _ _ => op.makes = true ∧ v.attempted = [] ∧ v.registered = [] ∧ v.sizes = []
  | .writeFile _ _ => op.makes = true ∧ v.attempted = [] ∧ v.registered = [] ∧ v.sizes = []
  | .stat _ => v.registered = [] ∧ v.removed = []
  | .putImage img =>
      (op.makes = true ∧ v.registered = [] ∧ v.removed = [] ∧ v.fetched = [] ∧
        ∃ b, (img.path, b) ∈ v.contents ∧
          (img.sizeBytes = b.length ∨ (img.path, img.sizeBytes) ∈ v.sizes)) ∨
      (op.updates = true ∧ ∃ r ∈ v.fetched, img.Same r.2)
  | .getImage _ => v.dropped = [] ∧ v.refused = []
  | .deleteImage id => op.updates = false ∧ ∃ r ∈ v.fetched, r.1 = id
  | .remove p => op.updates = false ∧ (p.within (Images.ovaWorkRootPath cfg) = true ∨
      (p ∈ v.attempted ∧ v.registered = [] ∧ v.fetched = []) ∨
      ∃ r ∈ v.fetched, r.2.path = p ∧ v.dropped = [] ∧ v.refused = [])
  | .removeAll p => p.within (Images.ovaWorkRootPath cfg) = true
  | .createTemp dir _ => dir = Images.ovaWorkRootPath cfg
  | _ => True

/-- Every record read for deletion has been deleted or refused. -/
def Settled (v : ImageView) : Prop := ∀ r ∈ v.fetched, r.1 ∈ v.dropped ∨ r.1 ∈ v.refused

/-- How a request ends. -/
def post (op : ImageOp) (res : Except Err Unit) (v : ImageView) : Prop :=
  (op.updates = true → v.removed = []) ∧ (op.updates = false → Settled v) ∧
    ∀ id, op = .delete id → res = .ok () → id ∈ v.dropped

end ImageOp

/-- A request by its account. -/
abbrev imageSem (cfg : StorageConfig) (op : ImageOp) : Sem ImageCmd ImageCmd.Resp ImageView :=
  Sem.account ImageView.add (op.ok cfg)

section Rules

variable {cfg : StorageConfig} {op : ImageOp} {α β : Type} {v : ImageView}

/-- The VM manager's commands leave the account as it is. -/
theorem wp_vm {p : M α} {Q : Except Err α → ImageView → Prop} (hQ : ∀ r, Q r v) :
    wp (imageSem cfg op) (vmCall p) Q v := by
  induction p with
  | ret a => exact (wp_ret _ _ _).mpr (hQ _)
  | throw e => exact (wp_throw _ _ _).mpr (hQ _)
  | call c k ih => exact wp_account_call.mpr ⟨trivial, fun r => ih r⟩

theorem wp_vmCall {p : M α} {f : α → ImageM β} {Q : Except Err β → ImageView → Prop}
    (hf : ∀ a, wp (imageSem cfg op) (f a) Q v) (hQ : ∀ e, Q (.error e) v) :
    wp (imageSem cfg op) (vmCall p >>= f) Q v := by
  rw [bind_eq, wp_bind]
  refine wp_vm fun r => ?_
  cases r with
  | ok a => exact hf a
  | error e => exact hQ e

theorem wp_vmCall_attempt {p : M α} {f : Except Err α → ImageM β}
    {Q : Except Err β → ImageView → Prop} (hf : ∀ r, wp (imageSem cfg op) (f r) Q v) :
    wp (imageSem cfg op) ((vmCall p).attempt >>= f) Q v := by
  rw [bind_eq, wp_bind, wp_attempt]
  exact wp_vm hf

/-- A check. -/
theorem wp_check {r : Except Err α} {f : α → ImageM β} {Q : Except Err β → ImageView → Prop}
    (hf : ∀ a, wp (imageSem cfg op) (f a) Q v) (hQ : ∀ e, Q (.error e) v) :
    wp (imageSem cfg op) (Prog.ofExcept r >>= f) Q v := by
  cases r with
  | ok a => exact hf a
  | error e => exact (wp_throw _ _ _).mpr (hQ e)

theorem wp_refuseIf {c : Prop} [Decidable c] {e : Err} {f : Unit → ImageM β}
    {Q : Except Err β → ImageView → Prop} (hf : wp (imageSem cfg op) (f ()) Q v)
    (hQ : ∀ e, Q (.error e) v) : wp (imageSem cfg op) (refuseIf c e >>= f) Q v := by
  by_cases hc : c
  · rw [refuseIf, if_pos hc]
    exact (wp_throw _ _ _).mpr (hQ e)
  · rw [refuseIf, if_neg hc]
    exact hf

end Rules

/-- What comes last, and cannot fail, keeps what holds of the part before it. -/
theorem wp_deferred_part {cfg : StorageConfig} {op : ImageOp} {α : Type} {v : ImageView}
    {part : ImageM α} {last : ImageM Unit} {Q : Except Err α → ImageView → Prop}
    (h : wp (imageSem cfg op) part Q v)
    (hlast : ∀ r v', Q r v' → wp (imageSem cfg op) last (fun r' v'' => r' = .ok () ∧ Q r v'') v') :
    wp (imageSem cfg op) (deferred part last) Q v := by
  unfold deferred
  rw [bind_eq, wp_bind, wp_attempt]
  refine wp_mono (fun r v' hr => ?_) h
  show wp _ (last >>= fun _ => Prog.ofExcept r) Q v'
  rw [bind_eq, wp_bind]
  refine wp_mono (fun r' v'' hr'' => ?_) (hlast r v' hr)
  obtain ⟨rfl, hq⟩ := hr''
  exact (wp_ofExcept _ _ _).mpr hq

namespace Images

variable {cfg : StorageConfig} {op : ImageOp} {α : Type} {v : ImageView}

/-- No record has been read yet, so none deleted. -/
structure Unread (v : ImageView) : Prop where
  fetched : v.fetched = []
  dropped : v.dropped = []
  refused : v.refused = []

/-- Nothing has been written, stored, read or removed yet. -/
structure Untouched (v : ImageView) : Prop extends Unread v where
  attempted : v.attempted = []
  sizes : v.sizes = []
  registered : v.registered = []
  removed : v.removed = []

/-- Read no record so far, whatever came of it. -/
abbrev StillUnread {α : Type} (_ : Except Err α) (v : ImageView) : Prop := Unread v

theorem Unread.removeQuietly {p : HostPath} {f : Unit → ImageM α} {Q : Except Err α → ImageView → Prop}
    (hok : op.ok cfg v (.remove p)) (hf : ∀ v', v'.fetched = v.fetched → v'.dropped = v.dropped →
      v'.refused = v.refused → wp (imageSem cfg op) (f ()) Q v') :
    wp (imageSem cfg op) (removeQuietly p >>= f) Q v := by
  refine wp_account_call.mpr ⟨hok, ?_⟩
  rintro (e | u)
  · exact hf _ rfl rfl rfl
  · exact hf _ rfl rfl rfl

theorem wp_createImage (hop : op.makes = true) (h : Untouched v) (vmDiskPath : HostPath)
    (name sourceVM : String) (opts : CreateImageOptions) :
    wp (imageSem cfg op) (createImage cfg vmDiskPath name sourceVM opts) StillUnread v := by
  have hunread : Unread v := h.toUnread
  refine wp_account_call.mpr ⟨⟨hop, h.attempted, h.registered, h.sizes⟩, ?_⟩
  rintro (e | b)
  · exact (wp_throw _ _ _).mpr ⟨hunread.fetched, hunread.dropped, hunread.refused⟩
  refine wp_account_call.mpr ⟨⟨h.registered, h.removed⟩, ?_⟩
  rintro (e | n)
  · exact (wp_throw _ _ _).mpr ⟨hunread.fetched, hunread.dropped, hunread.refused⟩
  refine wp_account_call.mpr ⟨trivial, fun now => ?_⟩
  refine wp_account_call.mpr
    ⟨.inl ⟨hop, h.registered, h.removed, h.fetched, b, List.mem_cons_self, .inr List.mem_cons_self⟩, ?_⟩
  rintro (e | u)
  · exact (wp_throw _ _ _).mpr ⟨hunread.fetched, hunread.dropped, hunread.refused⟩
  · exact (wp_ret _ _ _).mpr ⟨hunread.fetched, hunread.dropped, hunread.refused⟩

/-- Storing the record of a file that has been written, or removing the file. -/
theorem wp_registerOrRemove (hop : op.makes = true) {img : Image} {b : Bytes} (h : Unread v)
    (hregistered : v.registered = []) (hremoved : v.removed = [])
    (hattempted : img.path ∈ v.attempted) (hwritten : (img.path, b) ∈ v.contents)
    (hsize : img.sizeBytes = b.length ∨ (img.path, img.sizeBytes) ∈ v.sizes) :
    wp (imageSem cfg op) (registerOrRemove img) StillUnread v := by
  have hupdates : op.updates = false := by cases op <;> simp_all [ImageOp.makes, ImageOp.updates]
  refine wp_account_call.mpr
    ⟨.inl ⟨hop, hregistered, hremoved, h.fetched, b, hwritten, hsize⟩, ?_⟩
  rintro (e | u)
  · refine Unread.removeQuietly ⟨hupdates, .inr (.inl ⟨hattempted, hregistered, h.fetched⟩)⟩ ?_
    intro v' hf hd hr
    exact (wp_throw _ _ _).mpr ⟨hf.trans h.fetched, hd.trans h.dropped, hr.trans h.refused⟩
  · exact (wp_ret _ _ _).mpr ⟨h.fetched, h.dropped, h.refused⟩

theorem wp_importImage (hop : op.makes = true) (h : Untouched v) (name : String) (src : Bytes)
    (opts : CreateImageOptions) :
    wp (imageSem cfg op) (importImage cfg name src opts) StillUnread v := by
  have hunread : Unread v := h.toUnread
  refine wp_account_call.mpr ⟨trivial, ?_⟩
  rintro (e | u)
  · exact (wp_throw _ _ _).mpr hunread
  refine wp_account_call.mpr ⟨⟨hop, h.attempted, h.registered, h.sizes⟩, ?_⟩
  rintro (e | u)
  · exact (wp_throw _ _ _).mpr ⟨hunread.fetched, hunread.dropped, hunread.refused⟩
  refine wp_account_call.mpr ⟨trivial, fun now => ?_⟩
  exact wp_registerOrRemove hop ⟨hunread.fetched, hunread.dropped, hunread.refused⟩
    h.registered h.removed List.mem_cons_self List.mem_cons_self (.inl rfl)

theorem wp_convertOVA (hop : op.makes = true) (h : Untouched v) (ovaPath : HostPath) (name : String)
    (ova : UnpackedOVA) :
    wp (imageSem cfg op) (convertOVA cfg ovaPath name ova) StillUnread v := by
  have hunread : Unread v := h.toUnread
  have hupdates : op.updates = false := by cases op <;> simp_all [ImageOp.makes, ImageOp.updates]
  refine wp_account_call.mpr ⟨trivial, ?_⟩
  rintro (e | u)
  · exact (wp_throw _ _ _).mpr hunread
  refine wp_account_call.mpr ⟨⟨h.registered, h.removed⟩, ?_⟩
  rintro (e | n)
  swap
  · exact (wp_throw _ _ _).mpr ⟨hunread.fetched, hunread.dropped, hunread.refused⟩
  refine wp_account_call.mpr ⟨⟨hop, h.attempted, h.registered, h.sizes⟩, ?_⟩
  rintro (e | b)
  · refine Unread.removeQuietly
      ⟨hupdates, .inr (.inl ⟨List.mem_cons_self, h.registered, h.fetched⟩)⟩ ?_
    intro v' hf hd hr
    exact (wp_throw _ _ _).mpr ⟨hf.trans h.fetched, hd.trans h.dropped, hr.trans h.refused⟩
  refine wp_account_call.mpr ⟨⟨h.registered, h.removed⟩, ?_⟩
  rintro (e | n)
  · exact (wp_throw _ _ _).mpr ⟨hunread.fetched, hunread.dropped, hunread.refused⟩
  refine wp_account_call.mpr ⟨trivial, fun now => ?_⟩
  rw [ret_bind, bind_eq, wp_bind]
  refine wp_mono (fun r v' hr => ?_) (wp_registerOrRemove hop
    ⟨hunread.fetched, hunread.dropped, hunread.refused⟩ h.registered h.removed List.mem_cons_self
    List.mem_cons_self (.inr List.mem_cons_self))
  cases r with
  | ok img => exact (wp_ret _ _ _).mpr hr
  | error e => exact hr

theorem wp_importOVA (hop : op.makes = true) (h : Untouched v) (ovaPath : HostPath) (name : String) :
    wp (imageSem cfg op) (importOVA cfg ovaPath name) StillUnread v := by
  have hunread : Unread v := h.toUnread
  refine wp_account_call.mpr ⟨trivial, ?_⟩
  rintro (e | u)
  · exact (wp_throw _ _ _).mpr hunread
  refine wp_account_call.mpr ⟨trivial, ?_⟩
  rintro (e | dir)
  · exact (wp_throw _ _ _).mpr hunread
  refine wp_deferred_part ?_ fun r v' hr => ?_
  · refine wp_account_call.mpr ⟨trivial, ?_⟩
    rintro (e | ova)
    · exact (wp_throw _ _ _).mpr hunread
    exact wp_convertOVA hop h ovaPath name ova
  · refine wp_account_call.mpr ⟨HostPath.within_join _ _, ?_⟩
    rintro (e | u)
    · exact (wp_ret _ _ _).mpr ⟨rfl, hr⟩
    · exact (wp_ret _ _ _).mpr ⟨rfl, hr⟩

/-- An update stores the record it has read, with its ID, path and size. -/
theorem wp_updateImage (hop : op.updates = true) (h : Unread v) (hremoved : v.removed = [])
    (id : String) (patch : ImageUpdateSpec) :
    wp (imageSem cfg op) (updateImage id patch) (fun _ v' => v'.removed = []) v := by
  refine wp_account_call.mpr ⟨⟨h.dropped, h.refused⟩, ?_⟩
  rintro (e | img)
  · exact (wp_throw _ _ _).mpr hremoved
  dsimp only [Prog.bind, Prog.ofExcept]
  generalize patch.changes img = changes
  cases changes with
  | false => exact (wp_ret _ _ _).mpr hremoved
  | true =>
      refine wp_account_call.mpr ⟨trivial, fun now => ?_⟩
      refine wp_account_call.mpr ⟨.inr ⟨hop, (id, img), List.mem_cons_self, patch.apply_same img now⟩, ?_⟩
      rintro (e | u)
      · exact (wp_throw _ _ _).mpr hremoved
      · exact (wp_ret _ _ _).mpr hremoved

/-- A record read for deletion ends up deleted or refused. -/
theorem wp_deleteImage (hop : op.updates = false) (h : Unread v) (id : String) :
    wp (imageSem cfg op) (deleteImage id)
      (fun r v' => ImageOp.Settled v' ∧ (r = .ok () → id ∈ v'.dropped)) v := by
  refine wp_account_call.mpr ⟨⟨h.dropped, h.refused⟩, ?_⟩
  rintro (e | img)
  · refine (wp_throw _ _ _).mpr ⟨fun r hr => ?_, fun hr => by simp at hr⟩
    rw [show (ImageView.add v (.getImage id) (.error e)).fetched = [] from h.fetched] at hr
    exact absurd hr List.not_mem_nil
  refine Unread.removeQuietly
    ⟨hop, .inr (.inr ⟨(id, img), List.mem_cons_self, rfl, h.dropped, h.refused⟩)⟩ ?_
  intro v' hf hd hr
  have hfetched : v'.fetched = [(id, img)] := by
    rw [hf, show (ImageView.add v (.getImage id) (.ok img)).fetched = (id, img) :: v.fetched from rfl,
      h.fetched]
  refine wp_account_call.mpr ⟨⟨hop, (id, img), by simp [hfetched], rfl⟩, ?_⟩
  have hread : ∀ r ∈ v'.fetched, r.1 = id := by simp [hfetched]
  rintro (e | u)
  · exact (wp_throw _ _ _).mpr
      ⟨fun r hmem => .inr (hread r hmem ▸ List.mem_cons_self), fun hr => by simp at hr⟩
  · exact (wp_ret _ _ _).mpr
      ⟨fun r hmem => .inl (hread r hmem ▸ List.mem_cons_self), fun _ => List.mem_cons_self⟩

end Images

namespace ImageOp

variable {cfg : StorageConfig} {op : ImageOp} {v : ImageView}

open Images

theorem untouched : Untouched {} := ⟨⟨rfl, rfl, rfl⟩, rfl, rfl, rfl, rfl⟩

/-- A request that makes an image may end having read no record. -/
theorem post_unread {req : ImageRequest} {res : Except Err Unit} (h : Unread v) :
    (ImageOp.make req).post res v := by
  refine ⟨fun hu => by simp [updates] at hu, fun _ r hr => ?_, fun id hid => by simp at hid⟩
  rw [h.fetched] at hr
  exact absurd hr List.not_mem_nil

/-- A part that reads no record, and what comes after it. -/
theorem wp_part {α β : Type} {p : ImageM α} {f : α → ImageM β} {Q : Except Err β → ImageView → Prop}
    (hp : wp (imageSem cfg op) p StillUnread v)
    (hf : ∀ a v', Unread v' → wp (imageSem cfg op) (f a) Q v')
    (hQ : ∀ e v', Unread v' → Q (.error e) v') : wp (imageSem cfg op) (p >>= f) Q v := by
  rw [bind_eq, wp_bind]
  refine wp_mono (fun r v' hr => ?_) hp
  cases r with
  | ok a => exact hf a v' hr
  | error e => exact hQ e v' hr

variable {d : Daemon}

theorem createImage_wp (hop : op.makes = true) (req : Api.CreateImageRequest) :
    wp (imageSem d.cfg.storage op) (Api.createImage d req) StillUnread {} := by
  have hunread : Unread {} := untouched.toUnread
  unfold Api.createImage
  refine wp_check (fun _ => ?_) fun _ => hunread
  refine wp_check (fun _ => ?_) fun _ => hunread
  refine wp_check (fun tags => ?_) fun _ => hunread
  refine wp_vmCall (fun vm => ?_) fun _ => hunread
  refine wp_part (wp_createImage hop untouched _ _ _ _) (fun img v' h => ?_) fun _ _ h => h
  exact wp_vmCall (fun _ => (wp_ret _ _ _).mpr h) fun _ => h

theorem uploadImage_wp (hop : op.makes = true) (req : Api.UploadImageRequest) :
    wp (imageSem d.cfg.storage op) (Api.uploadImage d req) StillUnread {} := by
  have hunread : Unread {} := untouched.toUnread
  unfold Api.uploadImage
  refine wp_refuseIf ?_ fun _ => hunread
  refine wp_check (fun _ => ?_) fun _ => hunread
  refine wp_check (fun tags => ?_) fun _ => hunread
  refine wp_check (fun _ => ?_) fun _ => hunread
  refine wp_account_call.mpr ⟨trivial, ?_⟩
  rintro (e | free)
  · exact (wp_throw _ _ _).mpr hunread
  refine wp_refuseIf ?_ fun _ => hunread
  refine wp_part (wp_importImage hop untouched _ _ _) (fun img v' h => ?_) fun _ _ h => h
  exact wp_vmCall (fun _ => (wp_ret _ _ _).mpr h) fun _ => h

/-- The VM is made, or its image deleted again. -/
theorem createOrCleanup_wp (hop : op.makes = true) (h : Unread v) (req : Api.ImportVMOVARequest)
    (result : OVAImportResult) :
    wp (imageSem cfg op) (Api.createOrCleanup d req result) (fun _ v' => Settled v') v := by
  have hupdates : op.updates = false := by cases op <;> simp_all [makes, updates]
  have hsettled : Settled v := by
    intro r hr
    rw [h.fetched] at hr
    exact absurd hr List.not_mem_nil
  unfold Api.createOrCleanup
  refine wp_vmCall_attempt fun res => ?_
  cases res with
  | error e =>
      show wp _ (_ >>= fun _ => Prog.throw e) _ _
      rw [bind_eq, wp_bind, wp_attempt]
      refine wp_mono (fun r v' hr => ?_) (wp_deleteImage hupdates h _)
      exact (wp_throw _ _ _).mpr hr.1
  | ok vm => exact wp_vmCall (fun _ => (wp_ret _ _ _).mpr hsettled) fun _ => hsettled

theorem importVMOVA_wp (hop : op.makes = true) (req : Api.ImportVMOVARequest) :
    wp (imageSem d.cfg.storage op) (Api.importVMOVA d req) (fun _ v => Settled v) {} := by
  have hupdates : op.updates = false := by cases op <;> simp_all [makes, updates]
  have hnone : Settled {} := fun r hr => by simp at hr
  unfold Api.importVMOVA
  refine wp_refuseIf ?_ fun _ => hnone
  refine wp_account_call.mpr ⟨trivial, ?_⟩
  rintro (e | u)
  · exact (wp_throw _ _ _).mpr hnone
  refine wp_account_call.mpr ⟨rfl, ?_⟩
  rintro (e | spool)
  · exact (wp_throw _ _ _).mpr hnone
  refine wp_deferred_part ?_ fun r v' hr => ?_
  · refine wp_part (wp_importOVA hop untouched _ _) (fun res v' h => ?_) fun e v' h r hr => ?_
    · exact createOrCleanup_wp hop h req res
    · rw [h.fetched] at hr
      exact absurd hr List.not_mem_nil
  · refine wp_account_call.mpr ⟨⟨hupdates, .inl (HostPath.within_join _ _)⟩, ?_⟩
    rintro (e | u)
    · exact (wp_ret _ _ _).mpr ⟨rfl, hr⟩
    · exact (wp_ret _ _ _).mpr ⟨rfl, hr⟩

theorem updateImage_wp (hop : op.updates = true) (id : String) (patch : ImageUpdateSpec) :
    wp (imageSem cfg op) (Api.updateImage id patch) (fun _ v => v.removed = []) {} := by
  unfold Api.updateImage
  refine wp_check (fun _ => ?_) fun _ => rfl
  refine wp_check (fun tags => ?_) fun _ => rfl
  rw [bind_eq, wp_bind]
  refine wp_mono (fun r v hr => ?_) (wp_updateImage hop untouched.toUnread rfl id _)
  cases r with
  | ok img => exact wp_vmCall (fun _ => (wp_ret _ _ _).mpr hr) fun _ => hr
  | error e => exact hr

/-- **Every request keeps to its rules**, whatever it is answered. -/
theorem body_wp (d : Daemon) (op : ImageOp) :
    wp (imageSem d.cfg.storage op) (op.body d) op.post {} := by
  have hend : ∀ {α : Type} {p : ImageM α} {Q : Except Err α → ImageView → Prop},
      wp (imageSem d.cfg.storage op) p Q {} →
      (∀ a v, Q (.ok a) v → op.post (.ok ()) v) → (∀ e v, Q (.error e) v → op.post (.error e) v) →
      wp (imageSem d.cfg.storage op) (do let _ ← p; return ()) op.post {} := by
    intro α p Q hp hok herr
    rw [bind_eq, wp_bind]
    refine wp_mono (fun r v hr => ?_) hp
    cases r with
    | ok a => exact (wp_ret _ _ _).mpr (hok a v hr)
    | error e => exact herr e v hr
  cases op with
  | make req =>
      cases req with
      | create req => exact hend (createImage_wp rfl req) (fun _ _ => post_unread) fun _ _ => post_unread
      | upload req => exact hend (uploadImage_wp rfl req) (fun _ _ => post_unread) fun _ _ => post_unread
      | importOVA req =>
          refine hend (importVMOVA_wp rfl req) (fun _ v h => ?_) fun _ v h => ?_
          · exact ⟨fun hu => by simp [updates] at hu, fun _ => h, fun id hid => by simp at hid⟩
          · exact ⟨fun hu => by simp [updates] at hu, fun _ => h, fun id hid => by simp at hid⟩
  | update id patch =>
      refine hend (updateImage_wp rfl id patch) (fun _ v h => ?_) fun _ v h => ?_
      · exact ⟨fun _ => h, fun hu => by simp [updates] at hu, fun id hid => by simp at hid⟩
      · exact ⟨fun _ => h, fun hu => by simp [updates] at hu, fun id hid => by simp at hid⟩
  | delete id =>
      show wp _ (Images.deleteImage id >>= fun _ => _) _ _
      rw [bind_eq, wp_bind]
      refine wp_mono (fun r v hr => ?_) (wp_deleteImage rfl untouched.toUnread id)
      have hpost : ∀ r', (r' = .ok () → id ∈ v.dropped) → (ImageOp.delete id).post r' v := by
        refine fun r' h => ⟨fun hu => by simp [updates] at hu, fun _ => hr.1, fun id' hid hres => ?_⟩
        obtain rfl := ImageOp.delete.inj hid
        exact h hres
      cases r with
      | error e => exact hpost _ hr.2
      | ok u => exact wp_vm fun r' => hpost r' fun _ => hr.2 rfl

end ImageOp

end VMSmith
