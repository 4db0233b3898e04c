/-
The logged query does not depend on the credentials in it.

The server reads two credentials from a query, both by `URL.Query`, which takes the text
apart by itself: it decodes names and values and drops what it cannot decode.  The
redactor takes the text apart once more.  What matters is that both cut at the same
places and decode a name alike, so that a part which assigns a credential, in whatever
spelling, is one whose value the redactor replaces.
-/
import VMSmith.Api.Middleware
import Mathlib.Data.List.Forall2

namespace VMSmith.Api

open Go Query

/-- The parameters that `extractAPIKey` and `ProxyConsole` read. -/
def credentialParams : List Bytes := [ascii "api_key", ascii "ticket"]

/-- The part assigns a value to a credential. -/
def AssignsCredential (part : Bytes) : Prop :=
  ∃ name value, assigns part = some (name, value) ∧ name ∈ credentialParams

/-- Two parts that are the same, or the same name with different values of a credential. -/
def SameButCredential (part part' : Bytes) : Prop :=
  part = part' ∨
    (keyText part = keyText part' ∧ (AssignsCredential part ∨ AssignsCredential part'))

/-- Two raw queries of which each has the other's parts but for the values of
credentials. -/
def SameButCredentials (raw raw' : Bytes) : Prop :=
  List.Forall₂ SameButCredential (split 0x26 raw) (split 0x26 raw')

/-- The redactor keeps of a credential what stands before its value. -/
theorem redactQueryPart_of_assigns {part other : Bytes} (h : AssignsCredential part)
    (hkey : keyText other = keyText part) :
    redactQueryPart other = keyText part ++ ascii "=REDACTED" := by
  obtain ⟨name, value, hassigns, hname⟩ := h
  have hdecoded := assigns_key hassigns
  have hsensitive : name ∈ sensitiveQueryKeys := by
    simp only [credentialParams, List.mem_cons, List.not_mem_nil, or_false] at hname
    rcases hname with rfl | rfl <;> simp [sensitiveQueryKeys]
  have hother : other ≠ [] := by
    rintro rfl
    rw [← hkey] at hdecoded
    have hempty : name = [] := (Option.some.inj hdecoded).symm
    subst hempty
    exact absurd hsensitive (by decide)
  unfold redactQueryPart
  dsimp only
  rw [if_neg hother, hkey, hdecoded, Option.getD_some, if_pos hsensitive]

theorem redactQueryPart_same {part part' : Bytes} (h : SameButCredential part part') :
    redactQueryPart part = redactQueryPart part' := by
  rcases h with rfl | ⟨hkey, h | h⟩
  · rfl
  · rw [redactQueryPart_of_assigns h rfl, redactQueryPart_of_assigns h hkey.symm]
  · rw [redactQueryPart_of_assigns h hkey, redactQueryPart_of_assigns h rfl]

theorem SameButCredential.symm {part part' : Bytes} (h : SameButCredential part part') :
    SameButCredential part' part := by
  rcases h with rfl | ⟨hkey, h⟩
  · exact .inl rfl
  · exact .inr ⟨hkey.symm, h.symm⟩

theorem SameButCredentials.symm {raw raw' : Bytes} (h : SameButCredentials raw raw') :
    SameButCredentials raw' raw :=
  h.flip.imp fun _ _ hpart => SameButCredential.symm hpart

/-- A part without a name assigns no credential. -/
theorem eq_nil_of_same {part : Bytes} (h : SameButCredential [] part) : part = [] := by
  rcases h with h | ⟨hkey, h⟩
  · exact h.symm
  · by_contra hpart
    have hredact : ∀ other, keyText other = [] → redactQueryPart other = ascii "=REDACTED" := by
      intro other hother
      rcases h with h | h
      · exact redactQueryPart_of_assigns h hother
      · rw [redactQueryPart_of_assigns h (hother.trans hkey), ← hkey]
        rfl
    exact absurd (hredact [] rfl) (by decide)

theorem SameButCredentials.eq_nil {raw : Bytes} (h : SameButCredentials [] raw) : raw = [] := by
  unfold SameButCredentials at h
  have hnil : split 0x26 [] = [[]] := rfl
  rw [hnil, List.forall₂_cons_left_iff] at h
  obtain ⟨part, rest, hpart, hrest, hsplit⟩ := h
  rw [List.forall₂_nil_left_iff.mp hrest, eq_nil_of_same hpart] at hsplit
  have hraw : join 0x26 (split 0x26 raw) = raw := List.intercalate_splitOn 0x26
  rw [← hraw, hsplit]
  rfl

/-- A query is empty or not whatever its credentials are. -/
theorem SameButCredentials.nil_iff {raw raw' : Bytes} (h : SameButCredentials raw raw') :
    raw = [] ↔ raw' = [] := by
  constructor
  · rintro rfl
    exact h.eq_nil
  · rintro rfl
    exact h.symm.eq_nil

theorem redactSensitiveRawQuery_same {raw raw' : Bytes} (h : SameButCredentials raw raw') :
    redactSensitiveRawQuery raw = redactSensitiveRawQuery raw' := by
  have hparts : (split 0x26 raw).map redactQueryPart = (split 0x26 raw').map redactQueryPart := by
    rw [← List.forall₂_eq_eq_eq, List.forall₂_map_left_iff, List.forall₂_map_right_iff]
    exact h.imp fun _ _ hpart => redactQueryPart_same hpart
  unfold redactSensitiveRawQuery
  rw [hparts]
  by_cases hraw : raw = []
  · rw [if_pos hraw, if_pos (h.nil_iff.mp hraw)]
  · rw [if_neg hraw, if_neg (fun h' => hraw (h.nil_iff.mpr h'))]

/--
Two requests whose raw queries differ in the values of credentials only are logged alike,
the query along with everything else.
-/
theorem requestLogger_query (formatNumber : Bytes → Bytes) (statusText : Nat → Bytes) (r : Request)
    (answer : Response) (raw raw' : Bytes) (h : SameButCredentials raw raw') :
    requestLogger formatNumber statusText { r with rawQuery := raw } answer =
      requestLogger formatNumber statusText { r with rawQuery := raw' } answer := by
  have hsnippet : ∀ q, bodySnippet formatNumber { r with rawQuery := q } =
      bodySnippet formatNumber r := fun _ => rfl
  unfold requestLogger
  simp only [hsnippet, redactSensitiveRawQuery_same h, h.nil_iff]

/-- A ticket spelled with an escape, given twice, beside an API key and a part that cannot be
decoded. -/
theorem requestLogger_query_ticket :
    requestLogger id (fun _ => [])
        { method := ascii "GET", path := ascii "/console",
          rawQuery := ascii "a=1&%74icket=x&%zz=2&&ticket=%41&api_key",
          contentLength := 0, body := [], remoteAddr := [] }
        { status := 200, size := 0, durationMs := 0 } =
      requestLogger id (fun _ => [])
        { method := ascii "GET", path := ascii "/console",
          rawQuery := ascii "a=1&%74icket=y%2b&%zz=2&&ticket=&api_key=k",
          contentLength := 0, body := [], remoteAddr := [] }
        { status := 200, size := 0, durationMs := 0 } := by
  have hsame : SameButCredentials (ascii "a=1&%74icket=x&%zz=2&&ticket=%41&api_key")
      (ascii "a=1&%74icket=y%2b&%zz=2&&ticket=&api_key=k") := by
    have hsplit : split 0x26 (ascii "a=1&%74icket=x&%zz=2&&ticket=%41&api_key") =
        [ascii "a=1", ascii "%74icket=x", ascii "%zz=2", [], ascii "ticket=%41",
          ascii "api_key"] := by decide +kernel
    have hsplit' : split 0x26 (ascii "a=1&%74icket=y%2b&%zz=2&&ticket=&api_key=k") =
        [ascii "a=1", ascii "%74icket=y%2b", ascii "%zz=2", [], ascii "ticket=",
          ascii "api_key=k"] := by decide +kernel
    have hx : AssignsCredential (ascii "%74icket=x") := ⟨ascii "ticket", ascii "x", by decide +kernel⟩
    have hticket : AssignsCredential (ascii "ticket=%41") :=
      ⟨ascii "ticket", ascii "A", by decide +kernel⟩
    have hkey : AssignsCredential (ascii "api_key") := ⟨ascii "api_key", [], by decide +kernel⟩
    unfold SameButCredentials
    rw [hsplit, hsplit']
    exact .cons (.inl rfl) (.cons (.inr ⟨by decide +kernel, .inl hx⟩) (.cons (.inl rfl)
      (.cons (.inl rfl) (.cons (.inr ⟨by decide +kernel, .inl hticket⟩)
        (.cons (.inr ⟨by decide +kernel, .inl hkey⟩) .nil)))))
  exact requestLogger_query id (fun _ => [])
    { method := ascii "GET", path := ascii "/console", rawQuery := [], contentLength := 0,
      body := [], remoteAddr := [] }
    { status := 200, size := 0, durationMs := 0 } _ _ hsame

end VMSmith.Api
