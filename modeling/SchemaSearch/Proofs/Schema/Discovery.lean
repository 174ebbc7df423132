import SchemaSearch.Schema.Discovery
import SchemaSearch.Service.Resource

/-!
# What a walk discovers

A walk takes an entity from its stack, finds what the edges of that entity reach for the first time, and
puts all of it on the stack.  Edges are told by their labels and not by the entities at their ends, so an
entity may be found more than once, by edges of several names, and cycles, loops and parallel edges end
nothing early.  Every label is found once, and there are no more of them than edges; so every walk ends,
and it ends when nothing is left to find.

Main statement: what is nested in a root are the labels of the edges that are followed from it and from
every entity it reaches, each once, and the limit of the walk cuts off none (`discover_followed`).
-/

namespace SchemaSearch.Schema.Registry

variable {r : Registry}

/-! ## Followed edges -/

/-- Whether an edge leaves an entity, goes through no junction table and ends at a registered one. -/
def Follows (r : Registry) (parent : Entity) (edge : Edge) (target : Entity) : Prop :=
  edge ∈ parent.relationships ∧ edge.isTraversable = true ∧ r.get? edge.target = some target

/-- The entities that are reached over such edges. -/
inductive Reaches (r : Registry) (root : Entity) : Entity → Prop
  /-- The root is reached over none. -/
  | root : Reaches r root root
  /-- One edge more. -/
  | step {parent target : Entity} {edge : Edge} (hparent : Reaches r root parent)
    (hedge : r.Follows parent edge target) : Reaches r root target

/-- Edges with one label end at one entity. -/
theorem Follows.target_unique {parent parent' target target' : Entity} {edge edge' : Edge}
    (h : r.Follows parent edge target) (h' : r.Follows parent' edge' target')
    (hlabel : edge.label = edge'.label) : target = target' := by
  have htarget : edge.target = edge'.target := congrArg Prod.snd hlabel
  have hsome := h.2.2
  rw [htarget] at hsome
  exact Option.some.inj (hsome.symm.trans h'.2.2)

/-! ## One entity of a walk -/

section Entity

variable {parent : Found}

/-- The first edge is followed and finds its target, or it finds nothing: then it is not to be followed,
was seen, or ends nowhere. -/
theorem newlyFound_cons (parent : Found) (seen : List (String × String)) (edge : Edge)
    (edges : List Edge) :
    (∃ target : Found, edge.isTraversable = true ∧ r.get? edge.target = some target.entity
        ∧ target.label = edge.label ∧ edge.label ∉ seen
        ∧ r.newlyFound parent seen (edge :: edges)
          = target :: r.newlyFound parent (edge.label :: seen) edges)
      ∨ ((edge.isTraversable = true → edge.label ∈ seen ∨ r.get? edge.target = none)
        ∧ r.newlyFound parent seen (edge :: edges) = r.newlyFound parent seen edges) := by
  rw [newlyFound]
  split
  · rename_i hnew
    obtain ⟨htraversable, hseen⟩ := Bool.and_eq_true_iff.mp hnew
    have hunseen : edge.label ∉ seen := by simpa using hseen
    split
    · rename_i target htarget
      have hlabel : (edge.name, target.name) = edge.label := congrArg _ (name_of_get? htarget)
      exact .inl ⟨⟨edge.name, parent.leadOf edge, target⟩, htraversable, htarget, hlabel, hunseen, rfl⟩
    · rename_i htarget
      exact .inr ⟨fun _ => .inr htarget, rfl⟩
  · rename_i hold
    refine .inr ⟨fun htraversable => .inl ?_, rfl⟩
    rw [htraversable] at hold
    simpa using hold

/-- What is found for the first time is at the end of an edge of its label, which was not seen. -/
theorem follows_of_mem_newlyFound {f : Found} :
    ∀ {edges : List Edge} {seen : List (String × String)}, f ∈ r.newlyFound parent seen edges →
      ∃ edge ∈ edges, edge.isTraversable = true ∧ r.get? edge.target = some f.entity
        ∧ f.label = edge.label ∧ f.label ∉ seen
  | edge :: edges, seen, h => by
    obtain ⟨target, htraversable, htarget, hlabel, hunseen, heq⟩ | ⟨_, heq⟩ :=
      newlyFound_cons parent seen edge edges
    · rw [heq] at h
      rcases List.mem_cons.mp h with rfl | h
      · exact ⟨edge, List.mem_cons_self, htraversable, htarget, hlabel, hlabel ▸ hunseen⟩
      · obtain ⟨other, hmem, hother, hget, hsame, hfresh⟩ := follows_of_mem_newlyFound h
        exact ⟨other, List.mem_cons_of_mem _ hmem, hother, hget, hsame,
          fun hseen => hfresh (List.mem_cons_of_mem _ hseen)⟩
    · rw [heq] at h
      obtain ⟨other, hmem, hother⟩ := follows_of_mem_newlyFound h
      exact ⟨other, List.mem_cons_of_mem _ hmem, hother⟩

/-- Nothing is found twice for the first time. -/
theorem nodup_newlyFound : ∀ (edges : List Edge) (seen : List (String × String)),
    ((r.newlyFound parent seen edges).map (·.label)).Nodup
  | [], _ => List.nodup_nil
  | edge :: edges, seen => by
    obtain ⟨target, _, _, hlabel, _, heq⟩ | ⟨_, heq⟩ := newlyFound_cons parent seen edge edges
    · rw [heq, List.map_cons, List.nodup_cons, hlabel]
      refine ⟨fun hmem => ?_, nodup_newlyFound edges _⟩
      obtain ⟨f, hf, hsame⟩ := List.mem_map.mp hmem
      obtain ⟨_, _, _, _, _, hfresh⟩ := follows_of_mem_newlyFound hf
      exact hfresh (hsame ▸ List.mem_cons_self)
    · rw [heq]
      exact nodup_newlyFound edges seen

/-- An edge that is to be followed is found for the first time, or it was seen. -/
theorem label_mem_newlyFound {edge : Edge} {target : Entity} (htraversable : edge.isTraversable = true)
    (htarget : r.get? edge.target = some target) :
    ∀ {edges : List Edge} {seen : List (String × String)}, edge ∈ edges →
      edge.label ∈ (r.newlyFound parent seen edges).map (·.label) ∨ edge.label ∈ seen
  | other :: edges, seen, h => by
    obtain ⟨found, _, _, hlabel, _, heq⟩ | ⟨hskipped, heq⟩ := newlyFound_cons parent seen other edges
    · rw [heq, List.map_cons, hlabel]
      rcases List.mem_cons.mp h with rfl | h
      · exact .inl List.mem_cons_self
      · rcases label_mem_newlyFound htraversable htarget h with hnew | hold
        · exact .inl (List.mem_cons_of_mem _ hnew)
        · rcases List.mem_cons.mp hold with hsame | hold
          · exact .inl (hsame ▸ List.mem_cons_self)
          · exact .inr hold
    · rw [heq]
      rcases List.mem_cons.mp h with rfl | h
      · refine .inr ((hskipped htraversable).resolve_right fun hnone => ?_)
        cases hnone.symm.trans htarget
      · exact label_mem_newlyFound htraversable htarget h

end Entity

/-! ## Walks without a limit -/

/-- What the entities on a stack find, with no limit to the walk but its end. -/
inductive Walks (r : Registry) : List Found → List (String × String) → List Found → Prop
  /-- The walk ends with an empty stack. -/
  | done {seen : List (String × String)} : Walks r [] seen []
  /-- The entity found last is taken from the stack, and what it finds is put there. -/
  | pop {parent : Found} {stack found : List Found} {seen : List (String × String)}
    (hrest : Walks r
      ((r.newlyFound parent seen parent.entity.relationships).reverse ++ stack)
      ((r.newlyFound parent seen parent.entity.relationships).map (·.label) ++ seen) found) :
    Walks r (parent :: stack) seen (r.newlyFound parent seen parent.entity.relationships ++ found)

/-- A walk finds one thing. -/
theorem Walks.unique {stack found found' : List Found} {seen : List (String × String)}
    (h : r.Walks stack seen found) (h' : r.Walks stack seen found') : found = found' := by
  induction h generalizing found' with
  | done => cases h'; rfl
  | pop _ ih =>
    cases h' with
    | pop hrest => rw [ih hrest]

/-- All that a walk finds is at the end of an edge that is followed from an entity on its stack, or from
one that such edges reach. -/
theorem Walks.sound {root : Entity} {stack found : List Found} {seen : List (String × String)}
    (h : r.Walks stack seen found) (hstack : ∀ f ∈ stack, r.Reaches root f.entity) :
    ∀ f ∈ found, ∃ parent edge, r.Reaches root parent ∧ r.Follows parent edge f.entity
      ∧ f.label = edge.label := by
  induction h with
  | done => exact fun f hf => absurd hf List.not_mem_nil
  | @pop parent stack found seen _ ih =>
    have hparent := hstack parent List.mem_cons_self
    have hnew : ∀ f ∈ r.newlyFound parent seen parent.entity.relationships,
        ∃ edge, r.Follows parent.entity edge f.entity ∧ f.label = edge.label := by
      intro f hf
      obtain ⟨edge, hmem, htraversable, htarget, hlabel, _⟩ := follows_of_mem_newlyFound hf
      exact ⟨edge, ⟨hmem, htraversable, htarget⟩, hlabel⟩
    have hpushed : ∀ f ∈ (r.newlyFound parent seen parent.entity.relationships).reverse ++ stack,
        r.Reaches root f.entity := by
      intro f hf
      rcases List.mem_append.mp hf with hf | hf
      · obtain ⟨edge, hedge, _⟩ := hnew f (List.mem_reverse.mp hf)
        exact hparent.step hedge
      · exact hstack f (List.mem_cons_of_mem _ hf)
    intro f hf
    rcases List.mem_append.mp hf with hf | hf
    · obtain ⟨edge, hedge, hlabel⟩ := hnew f hf
      exact ⟨parent.entity, edge, hparent, hedge, hlabel⟩
    · exact ih hpushed f hf

/-- A walk finds no label twice, and none that was seen. -/
theorem Walks.nodup {stack found : List Found} {seen : List (String × String)}
    (h : r.Walks stack seen found) :
    (found.map (·.label)).Nodup ∧ ∀ label ∈ found.map (·.label), label ∉ seen := by
  induction h with
  | done => exact ⟨List.nodup_nil, fun label hlabel => absurd hlabel List.not_mem_nil⟩
  | @pop parent stack found seen _ ih =>
    obtain ⟨hnodup, hunseen⟩ := ih
    rw [List.map_append]
    refine ⟨List.nodup_append.mpr ⟨nodup_newlyFound _ _, hnodup, ?_⟩, ?_⟩
    · rintro label hnew _ hlater rfl
      exact hunseen label hlater (List.mem_append_left _ hnew)
    · intro label hlabel
      rcases List.mem_append.mp hlabel with hnew | hlater
      · obtain ⟨f, hf, rfl⟩ := List.mem_map.mp hnew
        obtain ⟨_, _, _, _, _, hfresh⟩ := follows_of_mem_newlyFound hf
        exact hfresh
      · exact fun hseen => hunseen label hlater (List.mem_append_right _ hseen)

/-- A walk finds the label of every edge that is followed from its stack or from what it finds, or the
label was seen. -/
theorem Walks.complete {stack found : List Found} {seen : List (String × String)}
    (h : r.Walks stack seen found) : ∀ parent ∈ stack ++ found, ∀ edge target,
      r.Follows parent.entity edge target → edge.label ∈ found.map (·.label) ∨ edge.label ∈ seen := by
  induction h with
  | done => exact fun parent hparent => absurd hparent List.not_mem_nil
  | @pop parent stack found seen _ ih =>
    intro owner howner edge target hedge
    rw [List.map_append]
    obtain rfl | hlater : owner = parent
        ∨ owner ∈ ((r.newlyFound parent seen parent.entity.relationships).reverse ++ stack)
          ++ found := by
      simp only [List.cons_append, List.mem_cons, List.mem_append, List.mem_reverse] at howner ⊢
      rcases howner with h | h | h | h
      · exact .inl h
      · exact .inr (.inl (.inr h))
      · exact .inr (.inl (.inl h))
      · exact .inr (.inr h)
    · obtain ⟨hmem, htraversable, htarget⟩ := hedge
      exact (label_mem_newlyFound htraversable htarget hmem).imp_left (List.mem_append_left _)
    · -- the rest of the walk has seen the labels that its first entity found
      rcases ih owner hlater edge target hedge with hfound | hseen
      · exact .inl (List.mem_append_right _ hfound)
      · exact (List.mem_append.mp hseen).imp_left (List.mem_append_left _)

/-! ## The limit of a walk -/

/-- The labels of all edges. -/
def labels (r : Registry) : List (String × String) :=
  r.entities.flatMap fun e => e.relationships.map (·.label)

/-- The labels that are left. -/
def unseen (r : Registry) (seen : List (String × String)) : List (String × String) :=
  r.labels.filter fun label => label ∉ seen

theorem length_labels (r : Registry) : r.labels.length = r.edgeCount := by
  unfold labels edgeCount
  induction r.entities with
  | nil => rfl
  | cons e entities ih =>
    rw [List.flatMap_cons, List.length_append, List.length_map, ih, List.foldr_cons]

theorem mem_unseen {label : String × String} {seen : List (String × String)} :
    label ∈ r.unseen seen ↔ label ∈ r.labels ∧ label ∉ seen := by
  rw [unseen, List.mem_filter, decide_eq_true_iff]

/-- A label that is seen is one less left. -/
theorem length_unseen_cons {label : String × String} {seen : List (String × String)}
    (h : label ∈ r.unseen seen) : (r.unseen (label :: seen)).length < (r.unseen seen).length := by
  have hless : r.unseen (label :: seen) = (r.unseen seen).filter (· ≠ label) := by
    rw [unseen, unseen, List.filter_filter]
    refine List.filter_congr fun other _ => ?_
    simp only [List.mem_cons, not_or, ne_eq, Bool.decide_and]
  rw [hless, List.length_filter_lt_length_iff_exists]
  exact ⟨label, h, by simp⟩

/-- As many labels less are left as are seen for the first time. -/
theorem length_unseen_append {seen : List (String × String)} :
    ∀ {new : List (String × String)}, new.Nodup → (∀ label ∈ new, label ∈ r.unseen seen) →
      new.length + (r.unseen (new ++ seen)).length ≤ (r.unseen seen).length
  | [], _, _ => by
    rw [List.length_nil, Nat.zero_add]
    exact Nat.le_refl _
  | label :: new, hnodup, hnew => by
    obtain ⟨hnotin, hnodup⟩ := List.nodup_cons.mp hnodup
    have hrest := length_unseen_append hnodup fun other hmem => hnew other (List.mem_cons_of_mem _ hmem)
    obtain ⟨hlabel, hunseen⟩ := mem_unseen.mp (hnew label List.mem_cons_self)
    have hleft : label ∈ r.unseen (new ++ seen) :=
      mem_unseen.mpr ⟨hlabel, fun hmem => (List.mem_append.mp hmem).elim hnotin hunseen⟩
    have hless := length_unseen_cons hleft
    rw [List.length_cons, List.cons_append]
    omega

/-- A walk with fuel for its stack and for all labels that are left ends by itself. -/
theorem walks_walk : ∀ (fuel : Nat) {stack : List Found} {seen : List (String × String)},
    (∀ f ∈ stack, f.entity ∈ r.entities) → stack.length + (r.unseen seen).length ≤ fuel →
      r.Walks stack seen (r.walk fuel stack seen)
  | 0, [], _, _, _ => .done
  | _ + 1, [], _, _, _ => .done
  | 0, _ :: _, _, _, hfuel => by
    rw [List.length_cons] at hfuel
    omega
  | fuel + 1, parent :: stack, seen, hstack, hfuel => by
    refine .pop (walks_walk fuel ?_ ?_)
    · intro f hf
      rcases List.mem_append.mp hf with hf | hf
      · obtain ⟨_, _, _, htarget, _⟩ := follows_of_mem_newlyFound (List.mem_reverse.mp hf)
        exact mem_of_get? htarget
      · exact hstack f (List.mem_cons_of_mem _ hf)
    · have hnew : ∀ label ∈ (r.newlyFound parent seen parent.entity.relationships).map (·.label),
          label ∈ r.unseen seen := by
        intro label hlabel
        obtain ⟨f, hf, rfl⟩ := List.mem_map.mp hlabel
        obtain ⟨edge, hedge, _, _, hsame, hfresh⟩ := follows_of_mem_newlyFound hf
        refine mem_unseen.mpr ⟨?_, hfresh⟩
        rw [hsame]
        exact List.mem_flatMap.mpr ⟨parent.entity, hstack parent List.mem_cons_self,
          List.mem_map_of_mem hedge⟩
      -- what is put on the stack is paid for by the labels that are no longer left
      have hleft := length_unseen_append (nodup_newlyFound _ _) hnew
      rw [List.length_map] at hleft
      rw [List.length_cons] at hfuel
      rw [List.length_append, List.length_reverse]
      omega

/-- The limit of a walk from a registered root is no limit. -/
theorem walks_nested {name : String} {root : Entity} (h : r.get? name = some root) :
    r.Walks [Found.root root] [] (r.nested root) := by
  refine walks_walk _ ?_ ?_
  · intro f hf
    rw [List.mem_singleton.mp hf]
    exact mem_of_get? h
  · have hall : (r.unseen []).length ≤ r.labels.length := List.length_filter_le _ _
    rw [length_labels] at hall
    rw [List.length_singleton]
    omega

/-! ## Discoveries -/

section Found

variable {root : Entity} {found : List Found}

theorem reaches_of_mem_root : ∀ f ∈ [Found.root root], r.Reaches root f.entity := by
  intro f hf
  rw [List.mem_singleton.mp hf]
  exact .root

/-- The label of an edge is found with the entity at its end. -/
theorem Walks.exists_of_follows (h : r.Walks [Found.root root] [] found) {parent : Found}
    (hparent : parent ∈ Found.root root :: found) {edge : Edge} {target : Entity}
    (hedge : r.Follows parent.entity edge target) :
    ∃ f ∈ found, f.label = edge.label ∧ f.entity = target := by
  have hlabel := (h.complete parent hparent edge target hedge).resolve_right List.not_mem_nil
  obtain ⟨f, hf, hlabel⟩ := List.mem_map.mp hlabel
  obtain ⟨_, edge', _, hedge', hlabel'⟩ := h.sound reaches_of_mem_root f hf
  exact ⟨f, hf, hlabel, hedge'.target_unique hedge (hlabel'.symm.trans hlabel)⟩

/-- Every entity that is reached is the root or is found. -/
theorem Walks.exists_of_reaches (h : r.Walks [Found.root root] [] found) {e : Entity}
    (he : r.Reaches root e) : ∃ f ∈ Found.root root :: found, f.entity = e := by
  induction he with
  | root => exact ⟨Found.root root, List.mem_cons_self, rfl⟩
  | step _ hedge ih =>
    obtain ⟨parent, hparent, rfl⟩ := ih
    obtain ⟨f, hf, _, hentity⟩ := h.exists_of_follows hparent hedge
    exact ⟨f, List.mem_cons_of_mem _ hf, hentity⟩

end Found

/-- A discovery starts with its root.  What is nested in it is what a walk without a limit finds; its
labels are those of the edges that are followed from the root and from every entity it reaches, each
once; and every entity at the end of such an edge is found. -/
theorem discover_followed {name : String} {root : Entity} (h : r.get? name = some root) :
    ∃ found, r.discover name = .ok (Found.root root :: found)
      ∧ (∀ walked, r.Walks [Found.root root] [] walked ↔ walked = found)
      ∧ (found.map (·.label)).Nodup
      ∧ (∀ label, label ∈ found.map (·.label) ↔ ∃ parent edge target,
          r.Reaches root parent ∧ r.Follows parent edge target ∧ edge.label = label)
      ∧ ∀ parent edge target, r.Reaches root parent → r.Follows parent edge target →
        ∃ f ∈ found, f.entity = target := by
  have hwalks := walks_nested h
  have hfollowed : ∀ parent edge target, r.Reaches root parent → r.Follows parent edge target →
      ∃ f ∈ r.nested root, f.label = edge.label ∧ f.entity = target := by
    intro parent edge target hparent hedge
    obtain ⟨p, hp, rfl⟩ := hwalks.exists_of_reaches hparent
    exact hwalks.exists_of_follows hp hedge
  refine ⟨r.nested root, ?_, ?_, hwalks.nodup.1, ?_, ?_⟩
  · rw [discover, entity, h]
    rfl
  · intro walked
    refine ⟨fun hwalked => hwalked.unique hwalks, ?_⟩
    rintro rfl
    exact hwalks
  · intro label
    constructor
    · intro hlabel
      obtain ⟨f, hf, rfl⟩ := List.mem_map.mp hlabel
      obtain ⟨parent, edge, hparent, hedge, hsame⟩ := hwalks.sound reaches_of_mem_root f hf
      exact ⟨parent, edge, f.entity, hparent, hedge, hsame.symm⟩
    · rintro ⟨parent, edge, target, hparent, hedge, rfl⟩
      obtain ⟨f, hf, hlabel, _⟩ := hfollowed parent edge target hparent hedge
      exact List.mem_map.mpr ⟨f, hf, hlabel⟩
  · intro parent edge target hparent hedge
    obtain ⟨f, hf, _, hentity⟩ := hfollowed parent edge target hparent hedge
    exact ⟨f, hf, hentity⟩

/-- Questions reach themselves over their answers, and the walk from them finds that; their owners are not
registered. -/
theorem discover_followed_sample :
    ∃ found, Service.registry.discover "questions" = .ok (Found.root Service.questions.entity :: found)
      ∧ (∃ f ∈ found, f.entity = Service.questions.entity)
      ∧ ("owner", "users") ∉ found.map (·.label) := by
  have hroot : Service.registry.get? "questions" = some Service.questions.entity := rfl
  obtain ⟨found, hdiscover, _, _, hlabels, hfound⟩ := discover_followed hroot
  have hanswers : Service.registry.Follows Service.questions.entity
      (.reverseMany "answers" "answers" "question_id" "question_id") Service.answers.entity :=
    ⟨by decide, rfl, rfl⟩
  have hquestion : Service.registry.Follows Service.answers.entity
      (.toOne "question" "questions" "question_id" "question_id") Service.questions.entity :=
    ⟨by decide, rfl, rfl⟩
  refine ⟨found, hdiscover, hfound _ _ _ (Reaches.root.step hanswers) hquestion, ?_⟩
  intro howner
  obtain ⟨_, edge, target, _, ⟨_, _, htarget⟩, hlabel⟩ := (hlabels _).mp howner
  rw [show edge.target = "users" from congrArg Prod.snd hlabel] at htarget
  have hnone : Service.registry.get? "users" = none := rfl
  cases hnone.symm.trans htarget

end SchemaSearch.Schema.Registry
