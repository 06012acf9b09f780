import Orisun.Admin.BoundaryRuntime

/-!
# Queries of the catalog

`replayCatalog` reads the lifecycle events of all boundaries, or of one, page by page from an
inclusive cursor, and applies each to a catalog. Every page is read from the log as it is then.
-/

namespace Orisun.Admin

section Query

-- how an event's data decodes, and the boundary that data which does not decode carries
variable (decode : Event → AdminEvent) (carries : Event → String → Bool)

namespace Catalog

/-- `lifecycleQuery`: the lifecycle events, of one boundary if a name is given. -/
def lifecycleQuery (name : String) (e : Event) : Bool :=
  match decode e with
  | .other _ => false
  | .undecodable _ => name == "" || carries e name
  | event => name == "" || isLifecycle name event

end Catalog

-- the log as each page's read sees it
variable (query : Event → Bool) (snapshots : ℕ → List Event)

end Query

end Orisun.Admin
