/-!
What the user may choose about lowering.
-/

namespace Reentry

structure LowerOptions where
  /-- Whether assembled code is checked. -/
  verify : Bool := true
  /-- Whether assertion messages start with the source position. -/
  sourceLocations : Bool := true
deriving DecidableEq, Repr, Inhabited

end Reentry
