/-!
# Relationships

A named edge from one entity to another.  Whatever its direction, going through an edge means that the
owner's local column equals the target's remote column, or that a row of the junction table links the
two.
-/

namespace SchemaSearch.Schema

/-- How many targets an owner may have. -/
inductive Cardinality where
  | toOne | toMany
  deriving DecidableEq, Repr

/-- Which side holds the key: the owner (or the junction row), or the target. -/
inductive KeySide where
  | owner | target
  deriving DecidableEq, Repr

/-- The table between two entities that are related many to many. -/
structure Junction where
  table : String
  /-- The column that equals the owner's local column. -/
  ownerColumn : String
  /-- The column that equals the target's remote column. -/
  targetColumn : String
  deriving DecidableEq, Repr

/-- A relationship of an entity. -/
structure Edge where
  name : String
  /-- The table of the entity at the other end. -/
  target : String
  cardinality : Cardinality
  keySide : KeySide
  localColumn : String
  remoteColumn : String
  junction : Option Junction
  deriving DecidableEq, Repr

namespace Edge

/-- A key of the owner that names one target. -/
def toOne (name target foreignKey targetKey : String) : Edge :=
  ⟨name, target, .toOne, .owner, foreignKey, targetKey, none⟩

/-- A key of many targets that names the owner. -/
def reverseMany (name target key targetForeignKey : String) : Edge :=
  ⟨name, target, .toMany, .target, key, targetForeignKey, none⟩

/-- A key of one target that names the owner. -/
def reverseOne (name target key targetForeignKey : String) : Edge :=
  ⟨name, target, .toOne, .target, key, targetForeignKey, none⟩

/-- A relationship through a junction table. -/
def manyToMany (name target key : String) (junction : Junction) (targetKey : String) : Edge :=
  ⟨name, target, .toMany, .owner, key, targetKey, some junction⟩

/-- Whether discovery follows the edge; it does not go through junction tables. -/
def isTraversable (e : Edge) : Bool := e.junction.isNone

/-- Whether the edge is a key of its owner, and so may end a path. -/
def isForeignKey (e : Edge) : Bool :=
  e.cardinality == .toOne && e.keySide == .owner && e.junction.isNone

/-- What tells edges apart for discovery. -/
def label (e : Edge) : String × String := (e.name, e.target)

end Edge

end SchemaSearch.Schema
