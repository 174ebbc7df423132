import SchemaSearch.Schema.Path
import SchemaSearch.Proofs.Store.Groups

/-!
# Related rows

What a relationship means on the rows of a database.  A row of the target is related to an owner if its
remote column equals the owner's local column, neither of them NULL, or if a row of the junction table
links the two.  From one hop follow the rows that a chain of hops reaches, and the left join of a chain,
which keeps an owner without related rows.
-/

namespace SchemaSearch

open Query Schema Store

/-! ## One hop -/

/-- Whether an owner with this key is related to a row of the target. -/
def Schema.Edge.links (db : Database) (edge : Edge) (key : Value) (target : Row) : Bool :=
  match edge.junction with
  | none => key.meets (target.get edge.remoteColumn)
  | some junction =>
    (db.rows junction.table).any fun link =>
      key.meets (link.get junction.ownerColumn)
        && (link.get junction.targetColumn).meets (target.get edge.remoteColumn)

/-- The rows that are related to an owner. -/
def Schema.Edge.related (db : Database) (edge : Edge) (owner : Row) : List Row :=
  (db.rows edge.target).filter (edge.links db (owner.get edge.localColumn))

/-! ## Chains of hops -/

namespace Store

/-- The rows at the far end of a chain of related rows, one row for each hop. -/
def reached (db : Database) : List Hop → Row → List Row
  | [], row => [row]
  | hop :: hops, row => (hop.edge.related db row).flatMap (reached db hops)

/-- One result of joining the hops of a path from the left. -/
inductive Joined where
  /-- Every hop found a row; this is the last. -/
  | found (row : Row)
  /-- The owner has no related row through the hop, so all that follows is NULL. -/
  | lone (hop : Hop) (owner : Row)
  deriving DecidableEq, Repr

namespace Joined

/-- The value of a column of the last table. -/
def get (joined : Joined) (column : String) : Value :=
  match joined with
  | .found row => row.get column
  | .lone _ _ => .null

/-- Whether the join ended at a key that is not NULL and names a row that is not there. -/
def dangles : Joined → Bool
  | .found _ => false
  | .lone hop owner => hop.edge.isForeignKey && owner.get hop.edge.localColumn != .null

end Joined

/-- The left join of the hops of a path, from one row. -/
def leftJoin (db : Database) : List Hop → Row → List Joined
  | [], row => [.found row]
  | hop :: hops, row =>
    match hop.edge.related db row with
    | [] => [.lone hop row]
    | rows => rows.flatMap (leftJoin db hops)

end Store

end SchemaSearch
