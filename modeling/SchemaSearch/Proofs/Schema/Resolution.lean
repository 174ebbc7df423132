import SchemaSearch.Proofs.Schema.Paths

/-!
# Where paths lead

A path can be described without following it.  It is split where a separator ends for the first time; its
names then lead from entity to entity, each by the first relationship that is declared under it; and the last
name shows a column, that of a field or, where there is no such field, the key of a relationship that its
owner holds.  Names may be declared more than once, entities may be related in circles, and targets need not
be registered.

Main statement: a path is resolved to what it leads to, through hops that join up, and a path that leads
nowhere is an unknown field (`resolve_iff_finds`).
-/

namespace SchemaSearch.Schema

/-! ## Splitting -/

/-- The names of a path: a separator ends behind each name but the last, and none ends before. -/
inductive IsSplit : String → List String → Prop
  /-- A text without a separator is one name. -/
  | last {name : String} (h : Text.contains name pathSeparator = false) : IsSplit name [name]
  /-- One name more in front. -/
  | more {name path : String} {names : List String}
    (h : Text.contains (name ++ "_") pathSeparator = false) (hrest : IsSplit path names) :
    IsSplit (Renames.join name path) (name :: names)

theorem IsSplit.ne_nil {path : String} {names : List String} (h : IsSplit path names) : names ≠ [] := by
  cases h with
  | last _ => exact List.cons_ne_nil _ _
  | more _ _ => exact List.cons_ne_nil _ _

theorem contains_append_mark (name : String) :
    Text.contains (name ++ "_") pathSeparator = Text.occurs ['_', '_'] (name.toList ++ ['_']) := by
  rw [Text.contains, String.toList_append]
  rfl

theorem toList_join (name path : String) :
    (Renames.join name path).toList = name.toList ++ '_' :: '_' :: path.toList := by
  rw [Renames.join, String.toList_append, String.toList_append, List.append_assoc]
  rfl

theorem occurs_append_mark {cs : List Char} (h : Text.occurs ['_', '_'] (cs ++ ['_']) = false) :
    Text.occurs ['_', '_'] cs = false ∧ cs.getLast? ≠ some '_' := by
  induction cs with
  | nil => exact ⟨rfl, by simp⟩
  | cons c cs ih =>
    rw [List.cons_append, Text.occurs, Bool.or_eq_false_iff] at h
    obtain ⟨hfirst, hrest⟩ := h
    obtain ⟨hinside, hlast⟩ := ih hrest
    cases cs with
    | nil =>
      have hc : '_' ≠ c := by
        rintro rfl
        cases hfirst
      exact ⟨by simp [Text.occurs, List.isPrefixOf], by simpa using hc.symm⟩
    | cons d cs =>
      rw [List.getLast?_cons_cons, Text.occurs, Bool.or_eq_false_iff]
      exact ⟨⟨hfirst, hinside⟩, hlast⟩

/-- A name that ends at the separator behind it is the first name. -/
theorem segments_join_of_mark {name : String} (h : Text.contains (name ++ "_") pathSeparator = false)
    (path : String) : segments (Renames.join name path) = name :: segments path := by
  rw [contains_append_mark] at h
  obtain ⟨hinside, hlast⟩ := occurs_append_mark h
  rw [segments, toList_join, segmentsOf_append hinside hlast, List.map_cons, String.ofList_toList]
  rfl

/-- A character in front of which no separator starts makes the first name of a path longer. -/
theorem IsSplit.cons {c : Char} {rest : List Char} (hfirst : ['_', '_'].isPrefixOf (c :: rest) = false)
    {name : String} {names : List String} (h : IsSplit (String.ofList rest) (name :: names)) :
    IsSplit (String.ofList (c :: rest)) (String.ofList (c :: name.toList) :: names) := by
  generalize hpath : String.ofList rest = path at h
  obtain rfl : rest = path.toList := by rw [← hpath, String.toList_ofList]
  cases h with
  | last hnone =>
    refine .last ?_
    rw [Text.contains, String.toList_ofList, Text.occurs]
    exact Bool.or_eq_false_iff.mpr ⟨hfirst, hnone⟩
  | @more _ path _ hmark hrest =>
    have hjoin : String.ofList (c :: (Renames.join name path).toList)
        = Renames.join (String.ofList (c :: name.toList)) path := by
      rw [← String.toList_inj, toList_join, toList_join, String.toList_ofList, String.toList_ofList]
      rfl
    rw [hjoin]
    refine .more ?_ hrest
    rw [contains_append_mark] at hmark ⊢
    rw [String.toList_ofList, List.cons_append, Text.occurs, hmark, Bool.or_false]
    -- what starts in front of the name with its mark starts in front of the whole path
    rw [toList_join] at hfirst
    cases hname : name.toList with
    | nil =>
      rw [hname] at hfirst
      exact hfirst
    | cons d ds =>
      rw [hname] at hfirst
      exact hfirst

/-- What stands behind a separator is split by itself. -/
theorem isSplit_segmentsOf (cs : List Char) :
    IsSplit (String.ofList cs) ((segmentsOf cs).map String.ofList) := by
  induction cs using segmentsOf.induct with
  | case1 => exact .last rfl
  | case2 rest ih =>
    have hjoin : String.ofList ('_' :: '_' :: rest) = Renames.join "" (String.ofList rest) := by
      rw [← String.toList_inj, toList_join, String.toList_ofList]
      simp
    rw [segmentsOf, hjoin]
    exact .more rfl ih
  | case3 c rest hpair hnone ih =>
    rw [hnone] at ih
    exact absurd rfl ih.ne_nil
  | case4 c rest hpair name names hsegments ih =>
    have hfirst : ['_', '_'].isPrefixOf (c :: rest) = false := by
      rw [Bool.eq_false_iff, ne_eq, List.isPrefixOf_iff_prefix, List.cons_prefix_cons]
      rintro ⟨rfl, tail, htail⟩
      exact hpair tail rfl htail.symm
    rw [hsegments] at ih
    rw [segmentsOf_cons hfirst, hsegments]
    have hlonger := ih.cons hfirst
    rwa [String.toList_ofList] at hlonger

/-- A path has the names that it is split into, and no others. -/
theorem segments_eq_iff {path : String} {names : List String} :
    segments path = names ↔ IsSplit path names := by
  constructor
  · rintro rfl
    have hsplit := isSplit_segmentsOf path.toList
    rwa [String.ofList_toList] at hsplit
  · intro h
    induction h with
    | last h => exact segments_single h
    | more h _ ih => rw [segments_join_of_mark h, ih]

/-! ## Names that lead from entity to entity -/

/-- The first item of a list that is declared under a name. -/
def IsFirstNamed {α : Type} (nameOf : α → String) (items : List α) (name : String) (item : α) : Prop :=
  nameOf item = name
    ∧ ∃ before after, items = before ++ item :: after ∧ ∀ other ∈ before, nameOf other ≠ name

theorem find?_eq_some_iff_first {α : Type} {nameOf : α → String} {items : List α} {name : String} {item : α} :
    items.find? (nameOf · == name) = some item ↔ IsFirstNamed nameOf items name item := by
  rw [List.find?_eq_some_iff_append, IsFirstNamed, beq_iff_eq]
  simp only [Bool.not_eq_true', beq_eq_false_iff_ne]

/-- The column that the last name of a path shows in its entity: that of a field or, where no field has the
name, the key of a relationship that the entity holds. -/
inductive Entity.Shows (e : Entity) (name : String) : String → FieldKind → Prop
  | field {field : Field} (h : IsFirstNamed Field.name e.fields name field) :
    Shows e name field.name field.kind
  | key {edge : Edge} (hnone : ∀ field ∈ e.fields, field.name ≠ name)
    (h : IsFirstNamed Edge.name e.relationships name edge) (hkey : edge.isForeignKey = true) :
    Shows e name edge.localColumn (e.kindOf edge.localColumn)

theorem Entity.column?_eq_some_iff {e : Entity} {name : String} {t : Target} :
    e.column? name = some t ↔ t.hops = [] ∧ t.table = e.name ∧ e.Shows name t.column t.kind := by
  constructor
  · intro h
    unfold column? at h
    split at h
    · rename_i field hfield
      cases h
      exact ⟨rfl, rfl, .field (find?_eq_some_iff_first.mp hfield)⟩
    · rename_i hnone
      split at h
      · rename_i edge hedge
        cases h
        obtain ⟨hfound, hkey⟩ := Option.filter_eq_some_iff.mp hedge
        refine ⟨rfl, rfl, .key ?_ (find?_eq_some_iff_first.mp hfound) hkey⟩
        simpa [field?] using hnone
      · cases h
  · obtain ⟨hops, table, column, kind⟩ := t
    rintro ⟨rfl, rfl, hshows⟩
    dsimp only at hshows ⊢
    cases hshows with
    | field h =>
      have hfound := find?_eq_some_iff_first.mpr h
      rw [column?, field?, hfound]
    | key hnone h hkey =>
      have hfound := find?_eq_some_iff_first.mpr h
      have hnone' : e.field? name = none := by simpa [field?] using hnone
      rw [column?, hnone', relationship?, hfound, Option.filter_some, if_pos hkey]

namespace Registry

variable {r : Registry}

/-- Names that lead from one entity to another, and the hops that they make. -/
inductive Leads (r : Registry) : Entity → List String → List Hop → Entity → Prop
  /-- Without names an entity is not left. -/
  | here {e : Entity} : Leads r e [] [] e
  /-- A name stands for the first relationship under it, and its target is registered. -/
  | onward {e next last : Entity} {name : String} {names : List String} {edge : Edge} {hops : List Hop}
    (hname : name ≠ "") (hedge : IsFirstNamed Edge.name e.relationships name edge)
    (htarget : r.get? edge.target = some next) (hrest : Leads r next names hops last) :
    Leads r e (name :: names) (⟨e.name, edge⟩ :: hops) last

/-- Hops that join up: each starts at a registered entity that declares its edge, and the next one starts
where that edge ends. -/
inductive JoinsUp (r : Registry) : String → List Hop → String → Prop
  | nil {table : String} : JoinsUp r table [] table
  | cons {table last : String} {e : Entity} {edge : Edge} {hops : List Hop}
    (howner : r.get? table = some e) (hdeclared : edge ∈ e.relationships)
    (hrest : JoinsUp r edge.target hops last) : JoinsUp r table (⟨table, edge⟩ :: hops) last

theorem Leads.joinsUp {e last : Entity} {names : List String} {hops : List Hop}
    (h : r.Leads e names hops last) (he : r.get? e.name = some e) : r.JoinsUp e.name hops last.name := by
  induction h with
  | here => exact .nil
  | @onward e next last name names edge hops _ hedge htarget _ ih =>
    obtain ⟨-, before, after, hedges, -⟩ := hedge
    have hnext := name_of_get? htarget
    rw [hnext] at ih
    exact .cons he (by simp [hedges]) (ih htarget)

/-- What names lead to: all but the last lead to an entity, and the last shows a column of it. -/
def Finds (r : Registry) (e : Entity) (names : List String) (t : Target) : Prop :=
  ∃ before last final, names = before ++ [last] ∧ r.Leads e before t.hops final ∧ last ≠ ""
    ∧ t.table = final.name ∧ final.Shows last t.column t.kind

theorem finds_single_iff {e : Entity} {last : String} {t : Target} :
    r.Finds e [last] t ↔ last ≠ "" ∧ e.column? last = some t := by
  rw [Entity.column?_eq_some_iff]
  constructor
  · rintro ⟨before, name, final, hnames, hleads, hlast, htable, hshows⟩
    obtain ⟨rfl, hsame⟩ := List.append_eq_singleton_iff.mp hnames.symm |>.resolve_right (by simp)
    cases hsame
    generalize hhops : t.hops = hops at hleads
    cases hleads
    exact ⟨hlast, rfl, htable, hshows⟩
  · rintro ⟨hlast, hhops, htable, hshows⟩
    refine ⟨[], last, e, rfl, ?_, hlast, htable, hshows⟩
    rw [hhops]
    exact .here

theorem finds_cons_iff {e : Entity} {name next : String} {rest : List String} {t : Target} :
    r.Finds e (name :: next :: rest) t ↔ name ≠ "" ∧ ∃ edge target found,
      IsFirstNamed Edge.name e.relationships name edge ∧ r.get? edge.target = some target
        ∧ r.Finds target (next :: rest) found ∧ t = { found with hops := ⟨e.name, edge⟩ :: found.hops } := by
  constructor
  · rintro ⟨before, last, final, hnames, hleads, hlast, htable, hshows⟩
    obtain ⟨hops, table, column, kind⟩ := t
    cases hleads with
    | here => cases hnames
    | @onward _ target _ _ names edge hops hname hedge htarget hrest =>
      rw [List.cons_append, List.cons.injEq] at hnames
      obtain ⟨rfl, hnames⟩ := hnames
      exact ⟨hname, edge, target, ⟨hops, table, column, kind⟩, hedge, htarget,
        ⟨names, last, final, hnames, hrest, hlast, htable, hshows⟩, rfl⟩
  · rintro ⟨hname, edge, target, found, hedge, htarget, hfinds, rfl⟩
    obtain ⟨before, last, final, hnames, hleads, hlast, htable, hshows⟩ := hfinds
    exact ⟨name :: before, last, final, by rw [hnames]; rfl, .onward hname hedge htarget hleads, hlast, htable,
      hshows⟩

theorem follow_cons_iff {e : Entity} {name next : String} {rest : List String} {t : Target} :
    r.follow e (name :: next :: rest) = some t ↔ name ≠ "" ∧ ∃ edge target found,
      IsFirstNamed Edge.name e.relationships name edge ∧ r.get? edge.target = some target
        ∧ r.follow target (next :: rest) = some found
        ∧ t = { found with hops := ⟨e.name, edge⟩ :: found.hops } := by
  rw [follow.eq_3 _ _ _ _ (List.cons_ne_nil next rest)]
  constructor
  · intro h
    split at h
    · cases h
    · rename_i hname
      split at h
      · cases h
      · rename_i edge hedge
        split at h
        · cases h
        · rename_i target htarget
          obtain ⟨found, hfound, rfl⟩ := Option.map_eq_some_iff.mp h
          exact ⟨fun hempty => hname (String.isEmpty_iff.mpr hempty), edge, target, found,
            find?_eq_some_iff_first.mp hedge, htarget, hfound, rfl⟩
  · rintro ⟨hname, edge, target, found, hedge, htarget, hfound, rfl⟩
    have hedge' : e.relationship? name = some edge := find?_eq_some_iff_first.mpr hedge
    rw [if_neg fun hempty => hname (String.isEmpty_iff.mp hempty), hedge']
    dsimp only
    rw [htarget]
    dsimp only
    rw [hfound, Option.map_some]

/-- Names are followed to what they lead to. -/
theorem follow_eq_some_iff {names : List String} : ∀ {e : Entity} {t : Target},
    r.follow e names = some t ↔ r.Finds e names t := by
  induction names with
  | nil =>
    intro e t
    simp [follow, Finds]
  | cons name rest ih =>
    intro e t
    cases rest with
    | nil =>
      rw [follow, finds_single_iff]
      simp
    | cons next rest =>
      rw [follow_cons_iff, finds_cons_iff]
      simp only [ih]

/-! ## Paths -/

/-- Resolving a path is splitting it, going where its names lead, and nothing else.  From a registered root
it finds what the names of the path lead to, over hops that join up; and a path whose names lead nowhere is
an unknown field, which is told with the root and the whole path. -/
theorem resolve_iff_finds {r : Registry} {root : String} {e : Entity} (hroot : r.get? root = some e)
    (path : String) :
    (∀ t, r.resolve root path = .ok t ↔ ∃ names, IsSplit path names ∧ r.Finds e names t)
      ∧ (∀ t, r.resolve root path = .ok t → r.JoinsUp root t.hops t.table)
      ∧ ((∃ t, r.resolve root path = .ok t) ∨ r.resolve root path = .error (.unknownField root path)) := by
  have hname := name_of_get? hroot
  have hfinds : ∀ t, r.resolve root path = .ok t ↔ ∃ names, IsSplit path names ∧ r.Finds e names t := by
    intro t
    constructor
    · intro h
      obtain ⟨e', he', hfollow⟩ := follow_of_resolve h
      cases hroot.symm.trans he'
      exact ⟨_, segments_eq_iff.mp rfl, follow_eq_some_iff.mp hfollow⟩
    · rintro ⟨names, hsplit, h⟩
      apply resolve_eq_ok
      rw [toOption_resolve hroot, segments_eq_iff.mpr hsplit, follow_eq_some_iff.mpr h]
  refine ⟨hfinds, ?_, ?_⟩
  · intro t h
    obtain ⟨names, -, before, last, final, -, hleads, -, htable, -⟩ := (hfinds t).mp h
    rw [htable, ← hname]
    exact hleads.joinsUp (by rw [hname, hroot])
  · cases hresolve : r.resolve root path with
    | ok t => exact .inl ⟨t, rfl⟩
    | error error => exact .inr (by rw [resolve_error hroot hresolve])

/-- Notes that stand below each other: two relationships of one name, one to an entity that is not registered,
and a field that starts with the mark of which separators are made. -/
def notes : Entity where
  name := "notes"
  fields := [⟨"_body", .text⟩, ⟨"above_id", .uuid⟩]
  relationships :=
    [.toOne "above" "notes" "above_id" "id", .reverseMany "above" "notes" "id" "above_id",
      .toOne "author" "users" "author_id" "id"]
  renames := .empty

/-- Three marks are a separator and the first one of the field; four are an empty name between two
separators; and an author has a key, but no fields. -/
theorem resolve_iff_finds_sample :
    (∃ t, Registry.resolve ⟨[notes]⟩ "notes" "above__above___body" = .ok t
        ∧ JoinsUp ⟨[notes]⟩ "notes" t.hops "notes" ∧ t.hops.length = 2 ∧ t.column = "_body")
      ∧ Finds ⟨[notes]⟩ notes ["author"] ⟨[], "notes", "author_id", .other⟩
      ∧ Registry.resolve ⟨[notes]⟩ "notes" "above____body" = .error (.unknownField "notes" "above____body")
      ∧ Registry.resolve ⟨[notes]⟩ "notes" "author__name" = .error (.unknownField "notes" "author__name") := by
  have hroot : Registry.get? ⟨[notes]⟩ "notes" = some notes := rfl
  refine ⟨?_, ?_, ?_, ?_⟩
  · obtain ⟨-, hjoins, -⟩ := resolve_iff_finds hroot "above__above___body"
    exact ⟨_, rfl, hjoins _ rfl, rfl, rfl⟩
  · obtain ⟨hfinds, -, -⟩ := resolve_iff_finds hroot "author"
    obtain ⟨names, hsplit, h⟩ := (hfinds _).mp rfl
    rwa [← segments_eq_iff.mpr hsplit] at h
  · exact (resolve_iff_finds hroot "above____body").2.2.resolve_left fun ⟨_, h⟩ => by cases h
  · exact (resolve_iff_finds hroot "author__name").2.2.resolve_left fun ⟨_, h⟩ => by cases h

end Registry

end SchemaSearch.Schema
