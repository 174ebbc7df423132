import SchemaSearch.Proofs.Json.Brackets
import SchemaSearch.Proofs.Search.Texts

/-!
# Bodies and query strings of some pairs

A query string gives one pair after another; a JSON body names each key once, with all its values.  The
parameters are the same, but for the query string having texts only.

Main statements: the parameters of a body of some pairs are those of the pairs (`Params.ofJson_body`), and
the parameters of a query string are the texts of those (`Params.ofQuery_eq_asTexts`).
-/

namespace SchemaSearch

/-- A value with a text form: a text, a number or a boolean. -/
def Scalar : Type := { value : Json // value.scalarText.isSome = true }

/-- The text form of a scalar. -/
def Scalar.text (s : Scalar) : String := s.val.scalarText.get s.property

theorem Scalar.scalarText_val (s : Scalar) : s.val.scalarText = some s.text := (Option.some_get _).symm

theorem Json.isScalar_of_scalarText {value : Json} {s : String} (h : value.scalarText = some s) :
    value.isScalar = true := by
  cases value with
  | list items => cases h
  | object members => cases h
  | _ => rfl

/-- The values that one member of a body gives its key: a list gives all its items. -/
def Json.values : Json → List Json
  | .list items => items
  | value => [value]

theorem Json.values_of_isScalar {value : Json} (h : value.isScalar = true) : value.values = [value] := by
  cases value with
  | list items => cases h
  | _ => rfl

/-- The members of a body for some pairs: the keys in the order in which they first come, each with all its
values in a list, or with its only value. -/
structure IsBodyOf (members pairs : List (String × Json)) : Prop where
  keys : Table.keys members = (pairs.map (·.1)).eraseDups
  values : ∀ member ∈ members, member.2 = .list ((pairs.filter (·.1 == member.1)).map (·.2))
    ∨ (pairs.filter (·.1 == member.1)).map (·.2) = [member.2]

namespace Params

/-! ## Bodies -/

/-- A body that names no key twice gives each key the values of its member. -/
theorem ofJson_object {members : List (String × Json)} (h : (Table.keys members).Nodup) :
    ofJson (.object members) = .ok ⟨Table.mapValues Json.values members⟩ := by
  have hadd : ∀ (p : Params) (key : String) (value : Json), key ∉ p.keys →
      p.addMember (key, value) = ⟨p.entries ++ [(key, value.values)]⟩ := by
    intro p key value hfresh
    cases value <;> exact congrArg mk (Table.upsert_of_not_mem _ _ hfresh)
  suffices hfold : ∀ (members : List (String × Json)) (p : Params),
      (p.keys ++ Table.keys members).Nodup →
        members.foldl addMember p = ⟨p.entries ++ Table.mapValues Json.values members⟩ from
    congrArg Except.ok (hfold members empty h)
  intro members
  induction members with
  | nil =>
    intro p _
    rw [Table.mapValues, List.map_nil, List.append_nil]
    rfl
  | cons member members ih =>
    intro p hnodup
    obtain ⟨key, value⟩ := member
    have hfresh : key ∉ p.keys := by
      intro hmem
      have hdisjoint := (List.nodup_append.mp hnodup).2.2
      exact hdisjoint key hmem key List.mem_cons_self rfl
    have hkeys : keys ⟨p.entries ++ [(key, value.values)]⟩ = p.keys ++ [key] := by
      rw [keys, Table.keys, List.map_append]
      rfl
    rw [List.foldl_cons, hadd p key value hfresh, ih]
    · rw [List.append_assoc]
      rfl
    · rw [hkeys, List.append_assoc]
      exact hnodup

/-- The parameters of a body of some pairs are those of the pairs. -/
theorem ofJson_body {members pairs : List (String × Json)}
    (hscalar : ∀ pair ∈ pairs, pair.2.isScalar = true) (h : IsBodyOf members pairs) :
    ofJson (.object members) = .ok (ofPairs pairs) := by
  have hkeys : Table.keys members = (ofPairs pairs).keys := h.keys.trans (keys_ofPairs pairs).symm
  have hnodup := nodup_keys_ofPairs pairs
  have hentries := entries_eq_map_keys hnodup
  rw [← hkeys, Table.keys, List.map_map] at hentries
  suffices hmembers : Table.mapValues Json.values members = (ofPairs pairs).entries by
    rw [ofJson_object (hkeys ▸ hnodup), hmembers]
  rw [hentries]
  apply List.map_congr_left
  intro member hmember
  rw [Function.comp_apply, getAll_ofPairs]
  apply congrArg (Prod.mk member.1)
  rcases h.values member hmember with hlist | hbare
  · rw [hlist]
    rfl
  · rw [hbare]
    apply Json.values_of_isScalar
    -- a bare value is that of a pair, so it is no list that would be taken apart
    have hmem : member.2 ∈ (pairs.filter (·.1 == member.1)).map (·.2) := by
      rw [hbare]
      exact List.mem_singleton_self _
    obtain ⟨pair, hpair, hvalue⟩ := List.mem_map.mp hmem
    rw [← hvalue]
    exact hscalar pair (List.mem_filter.mp hpair).1

/-! ## Query strings -/

/-- A query string of the text forms of some pairs gives their texts. -/
theorem ofQuery_eq_asTexts {query : String} {pairs : List (String × Scalar)}
    (h : Text.FormData.read query = pairs.map fun pair => (pair.1, pair.2.text)) :
    ofQuery query = (ofPairs (pairs.map fun pair => (pair.1, pair.2.val))).asTexts := by
  rw [ofQuery, h, ← ofPairs_asTexts, List.map_map, List.map_map]
  congr 1
  apply List.map_congr_left
  intro pair _
  simp only [Function.comp_apply, Json.asText_of_scalarText pair.2.scalarText_val]

end Params

end SchemaSearch
