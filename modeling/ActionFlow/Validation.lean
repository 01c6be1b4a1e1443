import ActionFlow.Graph
import ActionFlow.LowerError

/-!
# Label uniqueness

A graph is valid when no region of it defines a label twice. The same label in two regions is no
conflict.
-/

namespace ActionFlow.Graph

/-- The first label of a region, in written order, that an earlier block already has. -/
def repeatedLabel? (g : Graph) : Option Label :=
  Label.firstRepeat [] (regionLabels g)

/-- A graph and all regions below it, in the order in which they are checked. -/
def regions (g : Graph) : List Graph :=
  g :: innerRegions g

/-- Accepts a graph when each of its regions defines every label once. -/
def validate (g : Graph) : Except LowerError Unit :=
  match (regions g).findSome? repeatedLabel? with
  | some label => .error (.duplicateLabel label)
  | none => .ok ()

end ActionFlow.Graph
