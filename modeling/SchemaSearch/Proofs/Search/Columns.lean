import SchemaSearch.Proofs.Search.Conservation
import SchemaSearch.Proofs.Search.Meanings
import SchemaSearch.Proofs.Search.Scopes

/-!
# Fields lead to columns

A predicate is compiled when it is demanded, and compiles only where every one of its fields leads to a
column.  So a scope never demands anything of a path that leads nowhere: what narrows it by a predicate
keeps that, and nothing else touches its predicates.

Main statement: every field that a prepared search asks for leads to a column of its root
(`Prepared.grounded_scope`).
-/

namespace SchemaSearch

open Query Schema

/-- Each field of a predicate that becomes a condition leads to a column. -/
theorem Predicate.exists_resolve_of_compile {r : Registry} {root : String} {p : Predicate} {c : Condition}
    (h : p.compile r root = .ok c) {leaf : String × Lookup} (hleaf : leaf ∈ p.leaves) :
    ∃ target, r.resolve root leaf.1 = .ok target := by
  have hcompiles : p.compiles r root = true := by
    rw [compiles, h]
    rfl
  rw [compiles_eq_all, List.all_eq_true] at hcompiles
  obtain ⟨condition, hcondition⟩ := isOk_iff.mp (hcompiles leaf hleaf)
  rw [compile] at hcondition
  obtain ⟨target, htarget, _⟩ := bind_eq_ok hcondition
  exact ⟨target, htarget⟩

namespace Scope

/-- Every field that is demanded leads to a column. -/
def Grounded (s : Scope) : Prop :=
  ∀ leaf ∈ Predicate.leavesOf s.predicates, ∃ target, s.registry.resolve s.root.name leaf.1 = .ok target

/-- Nothing is demanded of the whole entity. -/
theorem grounded_ofEntity (r : Registry) (e : Entity) : (ofEntity r e).Grounded := by
  intro leaf hleaf
  cases hleaf

theorem Grounded.filter {s s' : Scope} (hs : s.Grounded) {p : Predicate} (h : s.filter p = .ok s') :
    s'.Grounded := by
  have hleaves := leaves_filter h
  obtain ⟨c, hc, rfl⟩ := filter_eq_ok h
  intro leaf hleaf
  rw [hleaves, List.mem_append] at hleaf
  rcases hleaf with hold | hnew
  · exact hs leaf hold
  · exact Predicate.exists_resolve_of_compile hc hnew

end Scope

/-- Every field that a prepared search asks for leads to a column of its root. -/
theorem Prepared.grounded_scope {r : Registry} {c : SearchConfig} {root : String} {p : Params} {s : Prepared}
    (h : Prepared.ofParams r c root p = .ok s) :
    ∀ leaf ∈ Predicate.leavesOf s.scope.predicates, ∃ target, r.resolve root leaf.1 = .ok target := by
  obtain ⟨e, steps, _, hscope⟩ := Prepared.exists_run h
  have hgrounded : s.scope.Grounded := by
    rw [hscope]
    exact Scope.run_induction (fun _ _ _ hs hfilter => hs.filter hfilter) (fun _ _ hs => hs) steps
      (Scope.grounded_ofEntity r e)
  obtain ⟨_, hroot, hregistry, rfl⟩ := Prepared.exists_root h
  intro leaf hleaf
  obtain ⟨target, htarget⟩ := hgrounded leaf hleaf
  rw [hregistry, Registry.name_of_get? hroot] at htarget
  exact ⟨target, htarget⟩

end SchemaSearch
