/-
API keys and the roles they carry.

The middleware classifies a request by its method and by how its path ends.  It sees the
decoded path, whatever spelling the router went by.
-/
import VMSmith.Lib.UrlPath
import VMSmith.Lib.GoStrings
import VMSmith.Types.VM

namespace VMSmith.Api

open Go

inductive Role
  | viewer | operator | admin
  deriving DecidableEq, Repr

namespace Role

def rank : Role → Nat
  | viewer => 1
  | operator => 2
  | admin => 3

instance : LT Role := ⟨fun a b => a.rank < b.rank⟩

instance : LE Role := ⟨fun a b => a.rank ≤ b.rank⟩

instance (a b : Role) : Decidable (a < b) := inferInstanceAs (Decidable (a.rank < b.rank))

instance (a b : Role) : Decidable (a ≤ b) := inferInstanceAs (Decidable (a.rank ≤ b.rank))

def text : Role → String
  | viewer => "viewer"
  | operator => "operator"
  | admin => "admin"

end Role

/-- What of a request the router and the middleware look at. -/
structure Call where
  method : Bytes
  url : Url.Path
  rawQuery : Bytes := []
  /-- The first `Authorization` header. -/
  authorization : Bytes := []

/-- `operatorPOSTSuffixes`. -/
def operatorPOSTSuffixes : List Bytes :=
  ["/start", "/stop", "/force-stop", "/restart", "/reboot", "/suspend", "/resume",
    "/console/ticket", "/run-now"].map ascii

/-- What a middleware answers in the handler's place. -/
structure Refusal where
  status : Nat
  error : Err
  deriving DecidableEq, Repr

/-- `requestRole`: without authentication every caller is an administrator. -/
def requestRole (role : Option Role) : Role := role.getD .admin

end VMSmith.Api
