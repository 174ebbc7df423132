import SchemaSearch.Proofs.Predicate.Comparison
import SchemaSearch.Proofs.Store.Related

/-!
# Hops

The condition of a hop asks whether a key is among the keys of related rows.  Here it is said what that
is worth: always known, and true exactly where some related row fulfils what is asked of the targets, or
where a missing row counts and none is there.  One lemma for a membership, one for a hop, and by
induction one for a chain of hops (`truth_chain`).
-/

namespace SchemaSearch

open Query Schema Store

/-! ## What a hop and a chain ask -/

/-- Whether an owner fulfils the condition of a hop, given what is asked of its targets. -/
def Schema.Hop.holds (db : Database) (hop : Hop) (missingCounts : Bool) (good : Row → Bool)
    (owner : Row) : Bool :=
  (hop.edge.related db owner).any good
    || missingCounts && (owner.get hop.edge.localColumn == .null
      || !hop.edge.isForeignKey && (hop.edge.related db owner).isEmpty)

/-- Whether a row fulfils what a chain of hops asks, given what is asked of the last row. -/
def chainHolds (db : Database) (missingCounts : Bool) (good : Row → Bool) : List Hop → Row → Bool
  | [], row => good row
  | hop :: hops, row => hop.holds db missingCounts (chainHolds db missingCounts good hops) row

/-- The hops start from one table and end at another, each where the last one arrived. -/
def Leads : String → List Hop → String → Prop
  | first, [], last => first = last
  | first, hop :: hops, last => hop.owner = first ∧ Leads hop.edge.target hops last

/-! ## Memberships -/

section Membership

variable {db : Database} {edge : Edge} {targets : Condition} {good : Row → Bool}

theorem related_any (db : Database) (edge : Edge) (owner : Row) (good : Row → Bool) :
    (edge.related db owner).any good
      = (db.rows edge.target).any fun row =>
          edge.links db (owner.get edge.localColumn) row && good row := by
  rw [Edge.related, List.any_filter]

/-- A membership of a key that is not NULL is known: the key has a link to a good target, or has not. -/
theorem truth_membershipOf (htargets : ∀ row env, (truth db ((edge.target, row) :: env) targets).holds
      = (row.get edge.remoteColumn != .null && good row))
    {column : Column} {env : Bindings} (hv : valueOf env column ≠ .null) (negated : Bool) :
    truth db env (match edge.junction with
      | none => .within column negated ⟨edge.target, edge.remoteColumn⟩ targets
      | some junction =>
        .within column negated ⟨junction.table, junction.ownerColumn⟩
          (.all [.within ⟨junction.table, junction.targetColumn⟩ false
              ⟨edge.target, edge.remoteColumn⟩ targets,
            .test (.isNotNull ⟨junction.table, junction.ownerColumn⟩)]))
      = .ofBool (negated != (db.rows edge.target).any fun row =>
          edge.links db (valueOf env column) row && good row) := by
  unfold Edge.links
  cases edge.junction with
  | none => exact truth_within htargets hv negated
  | some junction =>
    -- a link counts if it leads to a good target, and its owner side is not NULL
    have hlinks : ∀ link inner, (truth db ((junction.table, link) :: inner)
          (.all [.within ⟨junction.table, junction.targetColumn⟩ false
              ⟨edge.target, edge.remoteColumn⟩ targets,
            .test (.isNotNull ⟨junction.table, junction.ownerColumn⟩)])).holds
        = (link.get junction.ownerColumn != .null && (db.rows edge.target).any fun row =>
            (link.get junction.targetColumn).meets (row.get edge.remoteColumn) && good row) := by
      intro link inner
      rw [truth_all, List.map_cons, List.map_singleton, truth_isNotNull, valueOf_head]
      show (Truth.and _ ((Truth.ofBool _).and .true)).holds = _
      rw [Truth.and_true, Truth.holds_and, Truth.holds_ofBool, Bool.and_comm,
        holds_within htargets, valueOf_head]
    refine (truth_within hlinks hv negated).trans ?_
    congr 2
    rw [Bool.eq_iff_iff]
    simp only [List.any_eq_true, Bool.and_eq_true]
    constructor
    · rintro ⟨link, hlink, howner, row, hrow, htarget, hgood⟩
      exact ⟨row, hrow, ⟨link, hlink, howner, htarget⟩, hgood⟩
    · rintro ⟨row, hrow, ⟨link, hlink, howner, htarget⟩, hgood⟩
      exact ⟨link, hlink, howner, row, hrow, htarget, hgood⟩

end Membership

/-! ## One hop -/

section Hop

variable {db : Database} {hop : Hop} {rows : Condition} {good : Row → Bool}

/-- Nothing is related to an owner without a key. -/
theorem related_eq_nil {edge : Edge} {owner : Row} (hnull : owner.get edge.localColumn = .null) :
    edge.related db owner = [] := by
  rw [Edge.related, List.filter_eq_nil_iff]
  intro target _
  rw [hnull, Edge.links]
  cases edge.junction with
  | none => exact Bool.false_ne_true
  | some junction =>
    rw [Bool.not_eq_true, List.any_eq_false]
    intro link _
    exact Bool.false_ne_true

/-- The membership of a hop, for an owner with a key. -/
theorem truth_membership (hrows : ∀ row env, truth db ((hop.edge.target, row) :: env) rows
      = .ofBool (good row)) {owner : Row} (hkey : owner.get hop.edge.localColumn ≠ .null)
    (env : Bindings) :
    truth db ((hop.owner, owner) :: env)
        (hop.edge.membership ⟨hop.owner, hop.edge.localColumn⟩ false (some rows))
      = .ofBool ((hop.edge.related db owner).any good) := by
  have hvalue := valueOf_head env hop.owner hop.edge.localColumn owner
  have htargets : ∀ row env, (truth db ((hop.edge.target, row) :: env)
        ((Condition.all [.test (.isNotNull ⟨hop.edge.target, hop.edge.remoteColumn⟩)]).merge rows)).holds
      = (row.get hop.edge.remoteColumn != .null && good row) := by
    intro row env
    rw [truth_merge, truth_all, List.map_singleton, truth_isNotNull, valueOf_head, hrows]
    show ((Truth.and _ .true).and _).holds = _
    rw [Truth.and_true, Truth.and_ofBool, Truth.holds_ofBool]
  refine (truth_membershipOf htargets (hvalue ▸ hkey) false).trans ?_
  rw [hvalue, related_any, Bool.false_bne]

/-- The negated membership of a hop, for an owner with a key: no row is related. -/
theorem truth_noMembership {owner : Row} (hkey : owner.get hop.edge.localColumn ≠ .null)
    (env : Bindings) :
    truth db ((hop.owner, owner) :: env)
        (hop.edge.membership ⟨hop.owner, hop.edge.localColumn⟩ true none)
      = .ofBool (hop.edge.related db owner).isEmpty := by
  have hvalue := valueOf_head env hop.owner hop.edge.localColumn owner
  have htargets : ∀ row env, (truth db ((hop.edge.target, row) :: env)
        (Condition.all [.test (.isNotNull ⟨hop.edge.target, hop.edge.remoteColumn⟩)])).holds
      = (row.get hop.edge.remoteColumn != .null && true) := by
    intro row env
    rw [truth_all, List.map_singleton, truth_isNotNull, valueOf_head]
    show (Truth.and _ .true).holds = _
    rw [Truth.and_true, Truth.holds_ofBool, Bool.and_true]
  refine (truth_membershipOf htargets (hvalue ▸ hkey) true).trans ?_
  rw [hvalue, ← related_any, Bool.true_bne]
  cases hop.edge.related db owner <;> rfl

theorem truth_keyIsNull (db : Database) (hop : Hop) (owner : Row) (env : Bindings) :
    truth db ((hop.owner, owner) :: env) (.test (.isNull ⟨hop.owner, hop.edge.localColumn⟩))
      = .ofBool (owner.get hop.edge.localColumn == .null) := by
  rw [truth_isNull, valueOf_head]

theorem truth_keyIsNotNull (db : Database) (hop : Hop) (owner : Row) (env : Bindings) :
    truth db ((hop.owner, owner) :: env) (.test (.isNotNull ⟨hop.owner, hop.edge.localColumn⟩))
      = .ofBool (owner.get hop.edge.localColumn != .null) := by
  rw [truth_isNotNull, valueOf_head]

/-- An owner without a key fulfils the condition of a hop just if missing rows count.  Its memberships
may be unknown, but each stands next to a test of the key that decides. -/
theorem truth_hop_of_null {owner : Row} (hkey : owner.get hop.edge.localColumn = .null)
    (missingCounts : Bool) (env : Bindings) :
    truth db ((hop.owner, owner) :: env) (hop.condition missingCounts rows)
      = .ofBool missingCounts := by
  have hisNull := truth_keyIsNull db hop owner env
  have hisNotNull := truth_keyIsNotNull db hop owner env
  rw [hkey] at hisNull hisNotNull
  cases missingCounts with
  | false =>
    simp only [Hop.condition, Bool.false_eq_true, if_false, truth_all, List.map_cons, hisNotNull]
    rfl
  | true =>
    cases hforeign : hop.edge.isForeignKey <;>
    · simp only [Hop.condition, hforeign, Bool.false_eq_true, if_true, if_false, truth_any,
        List.map_cons, hisNull]
      rfl

/-- An owner with a key fulfils it by a good related row, or without any where missing rows count and
the key is not its own. -/
theorem truth_hop_of_key (hrows : ∀ row env, truth db ((hop.edge.target, row) :: env) rows
      = .ofBool (good row)) {owner : Row} (hkey : owner.get hop.edge.localColumn ≠ .null)
    (missingCounts : Bool) (env : Bindings) :
    truth db ((hop.owner, owner) :: env) (hop.condition missingCounts rows)
      = .ofBool ((hop.edge.related db owner).any good
        || missingCounts && (!hop.edge.isForeignKey && (hop.edge.related db owner).isEmpty)) := by
  have hisNull := truth_keyIsNull db hop owner env
  rw [beq_eq_false_iff_ne.mpr hkey] at hisNull
  have hrelated : truth db ((hop.owner, owner) :: env) (.all
        [.test (.isNotNull ⟨hop.owner, hop.edge.localColumn⟩),
          hop.edge.membership ⟨hop.owner, hop.edge.localColumn⟩ false (some rows)])
      = .ofBool ((hop.edge.related db owner).any good) := by
    rw [truth_all, List.map_cons, List.map_singleton, truth_keyIsNotNull, truth_membership hrows hkey,
      bne_iff_ne.mpr hkey]
    refine (Truth.all_map_ofBool [true, (hop.edge.related db owner).any good]).trans ?_
    simp
  cases missingCounts with
  | false =>
    simp only [Hop.condition, Bool.false_eq_true, if_false, hrelated, Bool.false_and, Bool.or_false]
  | true =>
    cases hforeign : hop.edge.isForeignKey with
    | true =>
      simp only [Hop.condition, hforeign, if_true, truth_any, List.map_cons, List.map_nil, hisNull,
        hrelated]
      refine (Truth.any_map_ofBool [false, (hop.edge.related db owner).any good]).trans ?_
      simp
    | false =>
      simp only [Hop.condition, hforeign, Bool.false_eq_true, if_true, if_false, truth_any,
        List.map_cons, List.map_nil, hisNull, hrelated, truth_noMembership hkey]
      refine (Truth.any_map_ofBool [false, (hop.edge.related db owner).isEmpty,
        (hop.edge.related db owner).any good]).trans ?_
      simp [Bool.or_comm]

/-- The condition of a hop is known if the one on its targets is. -/
theorem truth_hop (hrows : ∀ row env, truth db ((hop.edge.target, row) :: env) rows
      = .ofBool (good row)) (missingCounts : Bool) (owner : Row) (env : Bindings) :
    truth db ((hop.owner, owner) :: env) (hop.condition missingCounts rows)
      = .ofBool (hop.holds db missingCounts good owner) := by
  by_cases hkey : owner.get hop.edge.localColumn = .null
  · rw [truth_hop_of_null hkey, Hop.holds, related_eq_nil hkey, hkey]
    cases missingCounts <;> rfl
  · have hmissing : (owner.get hop.edge.localColumn == .null) = false := beq_eq_false_iff_ne.mpr hkey
    rw [truth_hop_of_key hrows hkey, Hop.holds, hmissing, Bool.false_or]

end Hop

/-! ## Chains -/

/-- The condition of a chain of hops is known if the one on its last table is. -/
theorem truth_chain {db : Database} {leaf : Condition} {good : Row → Bool} {last : String}
    (hleaf : ∀ row env, truth db ((last, row) :: env) leaf = .ofBool (good row))
    (missingCounts : Bool) :
    ∀ (hops : List Hop) {first : String}, Leads first hops last → ∀ row env,
      truth db ((first, row) :: env)
          (hops.foldr (fun hop rows => hop.condition missingCounts rows) leaf)
        = .ofBool (chainHolds db missingCounts good hops row)
  | [], _, hleads, row, env => by
    subst hleads
    exact hleaf row env
  | hop :: hops, _, ⟨howner, hleads⟩, row, env => by
    subst howner
    exact truth_hop (truth_chain hleaf missingCounts hops hleads) missingCounts row env

/-- Without counting missing rows, a chain asks for one row that it reaches. -/
theorem chainHolds_false (db : Database) (good : Row → Bool) :
    ∀ (hops : List Hop) (row : Row),
      chainHolds db false good hops row = (reached db hops row).any good
  | [], row => by
    rw [chainHolds, reached, List.any_cons, List.any_nil, Bool.or_false]
  | hop :: hops, row => by
    rw [chainHolds, Hop.holds, Bool.false_and, Bool.or_false, reached, List.any_flatMap]
    exact congrArg _ (funext (chainHolds_false db good hops))

/-! ## Paths -/

/-- The hops of a path lead from its entity to the table of its column. -/
theorem leads_of_follow (r : Registry) :
    ∀ (names : List String) {e : Entity} {t : Target}, r.follow e names = some t →
      Leads e.name t.hops t.table
  | [], _, _, h => by cases h
  | [last], e, t, h => by
    rw [Registry.follow] at h
    split at h
    · cases h
    · unfold Entity.column? at h
      split at h
      · cases h
        rfl
      · split at h
        · cases h
          rfl
        · cases h
  | name :: next :: rest, e, t, h => by
    rw [Registry.follow] at h
    split at h
    · cases h
    · split at h
      · cases h
      · split at h
        · cases h
        · rename_i edge _ target htarget
          obtain ⟨found, hfound, rfl⟩ := Option.map_eq_some_iff.mp h
          refine ⟨rfl, ?_⟩
          rw [← Registry.name_of_get? htarget]
          exact leads_of_follow r (next :: rest) hfound
    -- the equation is that of a name with others behind it
    · intro hlast
      cases hlast

/-- The hops of a path lead from its root to the table of its column. -/
theorem leads_of_resolve {r : Registry} {root path : String} {t : Target}
    (h : r.resolve root path = .ok t) : Leads root t.hops t.table := by
  obtain ⟨e, he, hfollow⟩ := Registry.follow_of_resolve h
  rw [← Registry.name_of_get? he]
  exact leads_of_follow r _ hfollow

/-- The condition of one field is known, and holds where the chain of the path leads to a value that
passes the lookup, or to a missing row that counts. -/
theorem truth_fieldCondition {r : Registry} {root path : String} {target : Target} {lookup : Lookup}
    {c : Condition} (hpath : r.resolve root path = .ok target)
    (hc : fieldCondition path target lookup = .ok c) (db : Database) (row : Row) (env : Bindings) :
    truth db ((root, row) :: env) c = .ofBool (chainHolds db lookup.countsMissing
      (fun last => lookup.accepts target.kind (last.get target.column)) target.hops row) := by
  obtain ⟨leaf, hleaf, hfold⟩ := bind_eq_ok hc
  cases hfold
  exact truth_chain (truth_leafCondition hleaf db) lookup.countsMissing target.hops
    (leads_of_resolve hpath) row env

end SchemaSearch
