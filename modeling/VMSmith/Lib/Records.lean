/-
Records that several writers write back whole.

Part of a record is its configuration.  Some writes lay a patch over it, the others mean to
leave it alone; but every write stores the whole record, so it also stores whatever its
writer took the rest to be.  What the configuration should be is `laid`: the one at the
start, with the patches laid over it in the order they were written.

`Kept` says that a bucket of records is what its history calls for.  A write keeps it that
way if it goes over a record that is still there and changes in its configuration just what
it is for.
-/
import VMSmith.Lib.Bucket

namespace Records

variable {K P C V : Type} [LinearOrder K]

/-- What a write is for. -/
inductive Write (P : Type) where
  | patch (p : P)
  /-- Another part of the record. -/
  | touch
  deriving DecidableEq, Repr

inductive Mark (K P : Type) where
  | wrote (key : K) (why : Write P)
  | deleted (key : K)
  deriving DecidableEq, Repr

/-- The configuration that a write makes of the one there is. -/
def Write.lay (apply : P → C → C) : Write P → C → C
  | patch p, c => apply p c
  | touch, c => c

/-- A configuration after the patches of a history, latest first. -/
def laid (apply : P → C → C) (key : K) : List (Mark K P) → C → C
  | [], c => c
  | .wrote k why :: marks, c =>
      if k = key then why.lay apply (laid apply key marks c) else laid apply key marks c
  | .deleted _ :: marks, c => laid apply key marks c

/-- The records are those at the start but for the deleted ones, with the patches laid over
their configurations. -/
structure Kept (apply : P → C → C) (config : V → C) (first now : Bucket K V)
    (history : List (Mark K P)) : Prop where
  config : ∀ key v, now.get? key = some v →
    ∃ old, first.get? key = some old ∧ config v = laid apply key history (config old)
  kept : ∀ key old, first.get? key = some old → .deleted key ∉ history → (now.get? key).isSome
  gone : ∀ key, .deleted key ∈ history → now.get? key = none

variable {apply : P → C → C} {config : V → C} {first now : Bucket K V} {history : List (Mark K P)}

theorem kept_init (first : Bucket K V) : Kept apply config first first [] where
  config := fun _ v h => ⟨v, h, rfl⟩
  kept := fun _ _ h _ => Option.isSome_iff_exists.mpr ⟨_, h⟩
  gone := fun _ h => absurd h List.not_mem_nil

/-- A write over a record that is there and has the configuration its writer knows of. -/
theorem Kept.put (h : Kept apply config first now history) {key : K} {v cur : V} {why : Write P}
    (hcur : now.get? key = some cur) (hconfig : config v = why.lay apply (config cur)) :
    Kept apply config first (now.put key v) (.wrote key why :: history) where
  config := by
    intro key' v' hv'
    rcases Bucket.mem_put hv' with ⟨rfl, rfl⟩ | ⟨hne, hold⟩
    · obtain ⟨old, hold, hc⟩ := h.config key' cur hcur
      exact ⟨old, hold, by rw [laid, if_pos rfl, ← hc, hconfig]⟩
    · obtain ⟨old, hfirst, hc⟩ := h.config key' v' hold
      exact ⟨old, hfirst, by rw [laid, if_neg (Ne.symm hne), hc]⟩
  kept := by
    intro key' old hold hdel
    rw [Bucket.get?_put]
    split_ifs
    · rfl
    · exact h.kept key' old hold fun hmem => hdel (List.mem_cons_of_mem _ hmem)
  gone := by
    intro key' hdel
    have hgone := h.gone key' (by simpa using hdel)
    have hne : key' ≠ key := by
      rintro rfl
      rw [hgone] at hcur
      simp at hcur
    rw [Bucket.get?_put_ne _ _ hne, hgone]

theorem Kept.delete (h : Kept apply config first now history) (key : K) :
    Kept apply config first (now.erase key) (.deleted key :: history) where
  config := fun key' v hv => h.config key' v (Bucket.mem_erase.mp hv).2
  kept := by
    intro key' old hold hdel
    rw [List.mem_cons, not_or] at hdel
    have hne : key' ≠ key := fun heq => hdel.1 (heq ▸ rfl)
    rw [Bucket.get?_erase_ne _ hne]
    exact h.kept key' old hold hdel.2
  gone := by
    intro key' hdel
    by_cases hkey : key' = key
    · rw [hkey, Bucket.get?_erase_self]
    · rw [Bucket.get?_erase_ne _ hkey]
      exact h.gone key' ((List.mem_cons.mp hdel).resolve_left fun heq => hkey (by simpa using heq))

end Records
