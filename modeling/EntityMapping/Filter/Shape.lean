import EntityMapping.Bson.Basic
/-!
# Plane shapes

Shapes in legacy coordinates, for criteria about places.
-/

namespace EntityMapping

/-- A point by its two coordinates. -/
structure Point where
  /-- The first coordinate. -/
  x : Binary64
  /-- The second coordinate. -/
  y : Binary64

/-- A point as an array of its coordinates. -/
def Point.toBson (point : Point) : Bson :=
  .array [.double point.x, .double point.y]

/-- A shape. -/
inductive Shape where
  /-- An upright rectangle by two corners. -/
  | box (bottomLeft upperRight : Point)
  /-- A circle in the plane. -/
  | center (center : Point) (radius : Binary64)
  /-- A circle on the sphere. -/
  | centerSphere (center : Point) (radius : Binary64)
  /-- A polygon by its corners. -/
  | polygon (corners : List Point)

namespace Shape

/-- The key of a shape in a filter document. -/
def geometry : Shape → String
  | box _ _ => "$box"
  | center _ _ => "$center"
  | centerSphere _ _ => "$centerSphere"
  | polygon _ => "$polygon"

/-- The coordinates of a shape. -/
def coordinates : Shape → List Bson
  | box bottomLeft upperRight => [bottomLeft.toBson, upperRight.toBson]
  | center middle radius => [middle.toBson, .double radius]
  | centerSphere middle radius => [middle.toBson, .double radius]
  | polygon corners => corners.map Point.toBson

/-- The document of a shape. -/
def document (shape : Shape) : Document :=
  [(shape.geometry, .array shape.coordinates)]

end Shape

end EntityMapping
