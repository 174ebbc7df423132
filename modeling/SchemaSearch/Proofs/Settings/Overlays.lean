import Mathlib.Data.List.Induction
import SchemaSearch.Proofs.Tables
import SchemaSearch.Settings.Environment

/-!
# Settings laid over each other

Each named setting is laid over what is there by a change at its path.  A change is seen where its path
leads, and nowhere that another path leads which takes another key at some step; so what one variable sets
stays until a variable sets it again, and it makes no difference to anything else.

Main statements: what a path leads to after a change (`at?_changeAt_self`, `at?_changeAt_of_isApart`), and what
two layers have in common that differ in one setting (`AgreeBut.changeAt`).
-/

namespace SchemaSearch.Setting

variable {root root' value : Setting} {change : Setting → Setting} {path : List Step} {names : List String}

/-! ## Where a path leads -/

/-- What some names lead to, from table to table. -/
def at? : List String → Setting → Option Setting
  | [], root => some root
  | name :: names, root => (Table.find? name root.entries).bind (at? names)

/-- Whether a path leads past some names: both take a key at some step, and not the same one. -/
def isApart : List Step → List String → Bool
  | .key name :: path, other :: names => if keyOf name = other then isApart path names else true
  | _, _ => false

/-- A path of names that are kept as they are. -/
def AreKeys (names : List String) : Prop := ∀ name ∈ names, keyOf name = name

instance (names : List String) : Decidable (AreKeys names) :=
  inferInstanceAs (Decidable (∀ name ∈ names, keyOf name = name))

/-- A changed setting is where its path leads. -/
theorem at?_changeAt_self : ∀ {names : List String}, AreKeys names → ∀ root : Setting,
    at? names (changeAt (fun _ => value) (names.map .key) root) = some value
  | [], _, _ => rfl
  | name :: names, hkeys, root => by
    have hrest : AreKeys names := fun other hother => hkeys other (List.mem_cons_of_mem name hother)
    rw [List.map_cons, changeAt, at?, entries, hkeys name List.mem_cons_self, Table.find?_upsert_self,
      Option.bind_some]
    cases Table.find? name root.entries with
    | none => exact at?_changeAt_self hrest .missing
    | some found => exact at?_changeAt_self hrest found

/-- What other names lead to stays. -/
theorem at?_changeAt_of_isApart : ∀ {path : List Step} {names : List String}, isApart path names = true →
    ∀ root : Setting, at? names (changeAt change path root) = at? names root
  | .key name :: path, other :: names, h, root => by
    rw [isApart] at h
    rw [changeAt, at?, at?, entries]
    split at h
    · rename_i hsame
      rw [hsame, Table.find?_upsert_self, Option.bind_some]
      cases Table.find? other root.entries with
      | none =>
        rw [Option.elim_none, at?_changeAt_of_isApart h, Option.bind_none]
        cases names with
        | nil => cases path <;> simp [isApart] at h
        | cons next names => rfl
      | some found => exact at?_changeAt_of_isApart h found
    · rename_i hne
      rw [Table.find?_upsert_of_ne (Ne.symm hne)]

/-! ## Two layers that differ in one setting -/

/-- Whether two settings have everything in common but what some names lead to. -/
def AgreeBut : List String → Setting → Setting → Prop
  | [], _, _ => True
  | name :: names, root, root' =>
    (∀ other, other ≠ name → Table.find? other root.entries = Table.find? other root'.entries)
      ∧ AgreeBut names ((Table.find? name root.entries).getD .missing)
        ((Table.find? name root'.entries).getD .missing)

theorem AgreeBut.refl : ∀ (names : List String) (root : Setting), AgreeBut names root root
  | [], _ => trivial
  | name :: names, root =>
    ⟨fun _ _ => rfl, AgreeBut.refl names ((Table.find? name root.entries).getD .missing)⟩

/-- What a change at a key leaves there, whether there was something or not. -/
theorem getD_find?_upsert (name : String) (change : Setting → Setting) (entries : List (String × Setting)) :
    (Table.find? name (Table.upsert name change (change .missing) entries)).getD .missing
      = change ((Table.find? name entries).getD .missing) := by
  rw [Table.find?_upsert_self]
  cases Table.find? name entries <;> rfl

/-- Changes of one key leave two tables in common what they had, under all other keys. -/
theorem find?_upsert_congr {key other : String} {change change' : Setting → Setting} {fresh fresh' : Setting}
    {entries entries' : List (String × Setting)} (hne : other ≠ key)
    (h : Table.find? other entries = Table.find? other entries') :
    Table.find? other (Table.upsert key change fresh entries)
      = Table.find? other (Table.upsert key change' fresh' entries') := by
  rw [Table.find?_upsert_of_ne hne, Table.find?_upsert_of_ne hne, h]

/-- The same change of both, past the names in which they differ. -/
theorem AgreeBut.changeAt : ∀ {path : List Step} {names : List String} {root root' : Setting},
    isApart path names = true → AgreeBut names root root' →
      AgreeBut names (root.changeAt change path) (root'.changeAt change path)
  | .key key :: path, name :: names, root, root', hapart, ⟨hothers, hrest⟩ => by
    rw [isApart] at hapart
    rw [Setting.changeAt, Setting.changeAt]
    split at hapart
    · rename_i hsame
      subst hsame
      refine ⟨fun other hne => find?_upsert_congr hne (hothers other hne), ?_⟩
      rw [entries, entries, getD_find?_upsert, getD_find?_upsert]
      exact AgreeBut.changeAt hapart hrest
    · rename_i hne
      refine ⟨fun other hother => ?_, ?_⟩
      · rw [entries, entries]
        by_cases hkey : other = keyOf key
        · rw [hkey, Table.find?_upsert_self, Table.find?_upsert_self, hothers _ hne]
        · exact find?_upsert_congr hkey (hothers other hother)
      · rw [entries, entries, Table.find?_upsert_of_ne (Ne.symm hne), Table.find?_upsert_of_ne (Ne.symm hne)]
        exact hrest

/-- A change of the one setting in which they differ. -/
theorem AgreeBut.changeAt_right : ∀ {names : List String} {root root' : Setting}, AreKeys names →
    AgreeBut names root root' → AgreeBut names root (Setting.changeAt change (names.map .key) root')
  | [], _, _, _, _ => trivial
  | name :: names, root, root', hkeys, ⟨hothers, hrest⟩ => by
    have htail : AreKeys names := fun other hother => hkeys other (List.mem_cons_of_mem name hother)
    rw [List.map_cons, Setting.changeAt, hkeys name List.mem_cons_self]
    refine ⟨fun other hne => ?_, ?_⟩
    · rw [hothers other hne, entries, Table.find?_upsert_of_ne hne]
    · rw [entries.eq_1, getD_find?_upsert]
      exact AgreeBut.changeAt_right htail hrest

/-! ## Layers of named settings -/

/-- Whether a setting is no table. -/
def IsNoTable (value : Setting) : Prop := ∀ entries, value ≠ .table entries

/-- A path in two parts is taken one after the other. -/
theorem changeAt_append : ∀ before after : List Step,
    changeAt change (before ++ after) = changeAt (changeAt change after) before
  | [], _ => rfl
  | .key name :: before, after => by
    funext root
    rw [List.cons_append, changeAt, changeAt, changeAt_append before after]
  | .index n :: before, after => by
    funext root
    rw [List.cons_append, changeAt, changeAt, changeAt_append before after]

theorem assign_concat (root value : Setting) (before : List Step) (last : Step) :
    root.assign (before ++ [last]) value = changeAt (putStep value last) before root := by
  rw [assign, List.reverse_append]
  simp

theorem exists_concat (hpath : path ≠ []) : ∃ before last, path = before ++ [last] :=
  ⟨path.dropLast, path.getLast hpath, (List.dropLast_concat_getLast hpath).symm⟩

/-- A setting that is no table takes the place of whatever its path leads to. -/
theorem assign_eq_changeAt (hvalue : value.IsNoTable) (hpath : path ≠ []) :
    root.assign path value = changeAt (fun _ => value) path root := by
  obtain ⟨before, last, rfl⟩ := exists_concat hpath
  have hlast : putStep value last = changeAt (fun _ => value) [last] := by
    funext root
    cases last with
    | key name =>
      cases value with
      | table entries => exact absurd rfl (hvalue entries)
      | _ => rfl
    | index n => rfl
  rw [assign_concat, changeAt_append, hlast]

/-- A path starts with a key. -/
theorem exists_pathOf (name : String) : ∃ key path, pathOf name = .key key :: path := by
  unfold pathOf readPath?
  dsimp only
  split
  · exact ⟨name, [], rfl⟩
  · cases readSteps name.toList.length (name.toList.dropWhile isNameChar) with
    | none => exact ⟨name, [], rfl⟩
    | some steps => exact ⟨_, steps, rfl⟩

theorem pathOf_ne_nil (name : String) : pathOf name ≠ [] := by
  obtain ⟨key, path, hpath⟩ := exists_pathOf name
  rw [hpath]
  exact List.cons_ne_nil _ _

/-- Whatever is laid over a setting makes it a table. -/
theorem exists_overlay (root : Setting) (entry : String × Setting) :
    ∃ entries, overlay root entry = .table entries := by
  obtain ⟨key, path, hpath⟩ := exists_pathOf entry.1
  obtain ⟨before, last, hconcat⟩ := exists_concat (List.cons_ne_nil (Step.key key) path)
  rw [overlay, hpath, hconcat, assign_concat]
  cases before with
  | nil =>
    obtain ⟨rfl, -⟩ := List.cons.inj hconcat
    cases entry.2 <;> exact ⟨_, rfl⟩
  | cons first before =>
    obtain ⟨rfl, -⟩ := List.cons.inj hconcat
    exact ⟨_, rfl⟩

/-- Whether a layer sets a name to one value, and all else in it leads past what the name leads to. -/
structure Sets (layer : List (String × Setting)) (name : String) (names : List String) (value : Setting) :
    Prop where
  noTable : ∀ entry ∈ layer, entry.2.IsNoTable
  only : ∀ entry ∈ layer, entry = (name, value) ∨ isApart (pathOf entry.1) names = true

section Layers

variable {name : String}

theorem Sets.of_cons {entry : String × Setting} {layer : List (String × Setting)}
    (h : Sets (entry :: layer) name names value) : Sets layer name names value :=
  ⟨fun other hother => h.noTable other (List.mem_cons_of_mem entry hother),
    fun other hother => h.only other (List.mem_cons_of_mem entry hother)⟩

theorem Sets.overlay_eq {entry : String × Setting} {layer : List (String × Setting)}
    (h : Sets (entry :: layer) name names value) (root : Setting) :
    overlay root entry = changeAt (fun _ => entry.2) (pathOf entry.1) root :=
  assign_eq_changeAt (h.noTable entry List.mem_cons_self) (pathOf_ne_nil entry.1)

/-- No path leads past what it leads to. -/
theorem isApart_self : ∀ {names : List String}, AreKeys names → isApart (names.map .key) names = false
  | [], _ => rfl
  | name :: names, hkeys => by
    rw [List.map_cons, isApart, if_pos (hkeys name List.mem_cons_self)]
    exact isApart_self fun other hother => hkeys other (List.mem_cons_of_mem name hother)

variable (hpath : pathOf name = names.map .key) (hkeys : AreKeys names)

include hpath hkeys

/-- What a name was set to stays. -/
theorem at?_foldl_of_at? : ∀ {layer : List (String × Setting)} {root : Setting},
    Sets layer name names value → at? names root = some value → at? names (layer.foldl overlay root) = some value
  | [], _, _, h => h
  | entry :: layer, root, hsets, h => by
    rw [List.foldl_cons]
    refine at?_foldl_of_at? hsets.of_cons ?_
    rw [hsets.overlay_eq]
    rcases hsets.only entry List.mem_cons_self with rfl | hapart
    · rw [hpath]
      exact at?_changeAt_self hkeys root
    · rw [at?_changeAt_of_isApart hapart, h]

/-- A layer that sets a name does so whatever it is laid over. -/
theorem at?_foldl_of_mem : ∀ {layer : List (String × Setting)}, Sets layer name names value →
    (name, value) ∈ layer → ∀ root : Setting, at? names (layer.foldl overlay root) = some value
  | entry :: layer, hsets, hmem, root => by
    rw [List.foldl_cons]
    rcases List.mem_cons.mp hmem with rfl | hmem
    · refine at?_foldl_of_at? hpath hkeys hsets.of_cons ?_
      rw [hsets.overlay_eq, hpath]
      exact at?_changeAt_self hkeys root
    · exact at?_foldl_of_mem hsets.of_cons hmem (overlay root entry)

/-- Without a name, a layer makes the same of everything else. -/
theorem AgreeBut.foldl_overlay : ∀ {layer : List (String × Setting)} {root root' : Setting},
    Sets layer name names value → AgreeBut names root root' →
      AgreeBut names ((layer.filter (·.1 ≠ name)).foldl overlay root) (layer.foldl overlay root')
  | [], _, _, _, h => h
  | entry :: layer, root, root', hsets, h => by
    rw [List.filter_cons, List.foldl_cons, hsets.overlay_eq]
    by_cases hname : entry.1 = name
    · rw [if_neg (by simpa using hname), hname, hpath]
      exact AgreeBut.foldl_overlay hsets.of_cons (h.changeAt_right hkeys)
    · have hapart : isApart (pathOf entry.1) names = true :=
        (hsets.only entry List.mem_cons_self).resolve_left fun hentry => hname (congrArg Prod.fst hentry)
      rw [if_pos (by simpa using hname), List.foldl_cons, hsets.overlay_eq]
      exact AgreeBut.foldl_overlay hsets.of_cons (h.changeAt hapart)

end Layers

/-! ## Variables -/

section Variables

variable {env : List (String × String)} {name : String}

theorem ofVariables_concat (env : List (String × String)) (last : String × String) :
    ofVariables (env ++ [last])
      = match nameOfVariable last.1 with
        | some name => Table.insert name (ofVariable name last.2) (ofVariables env)
        | none => ofVariables env := by
  rw [ofVariables, List.foldl_append]
  rfl

/-- Every setting of a layer of variables comes from one of them. -/
theorem exists_held {entry : String × Setting} (h : entry ∈ ofVariables env) :
    ∃ held ∈ env, nameOfVariable held.1 = some entry.1 ∧ entry.2 = ofVariable entry.1 held.2 := by
  induction env using List.reverseRecOn with
  | nil => cases h
  | append_singleton env last ih =>
    rw [ofVariables_concat] at h
    have hbefore : entry ∈ ofVariables env →
        ∃ held ∈ env ++ [last], nameOfVariable held.1 = some entry.1
          ∧ entry.2 = ofVariable entry.1 held.2 := by
      intro h
      obtain ⟨held, hheld, hfrom⟩ := ih h
      exact ⟨held, List.mem_append_left _ hheld, hfrom⟩
    split at h
    · rename_i name hname
      rcases Table.mem_insert h with rfl | h
      · exact ⟨last, List.mem_append_right _ (List.mem_singleton_self last), hname, rfl⟩
      · exact hbefore h
    · exact hbefore h

/-- What a variable sets is no table. -/
theorem isNoTable_ofVariable (name held : String) : (ofVariable name held).IsNoTable := by
  intro entries h
  unfold ofVariable at h
  split at h
  · rename_i scalar hscalar
    subst h
    unfold scalarOfText? at hscalar
    split at hscalar
    · cases hscalar
    · split at hscalar
      · cases hscalar
      · simp at hscalar
  · split at h <;> cases h

section Alone

variable {variableName held : String} (hname : nameOfVariable variableName = some name)

include hname

/-- What a variable sets when the paths of all others lead past what it sets. -/
theorem sets_ofVariables (honly : ∀ other ∈ env, other = (variableName, held)
      ∨ ∀ otherName ∈ nameOfVariable other.1, isApart (pathOf otherName) names = true) :
    Sets (ofVariables env) name names (ofVariable name held) := by
  constructor
  · intro entry hentry
    obtain ⟨_, _, _, hvalue⟩ := exists_held hentry
    rw [hvalue]
    exact isNoTable_ofVariable _ _
  · intro entry hentry
    obtain ⟨other, hother, hnamed, hvalue⟩ := exists_held hentry
    rcases honly other hother with rfl | hapart
    · cases hname.symm.trans hnamed
      exact .inl (Prod.ext rfl hvalue)
    · exact .inr (hapart entry.1 hnamed)

theorem mem_ofVariables (hmem : (variableName, held) ∈ env)
    (honly : ∀ other ∈ env, other = (variableName, held) ∨ nameOfVariable other.1 ≠ some name) :
    (name, ofVariable name held) ∈ ofVariables env := by
  suffices hfound : Table.find? name (ofVariables env) = some (ofVariable name held) from Table.mem_of_find? hfound
  induction env using List.reverseRecOn with
  | nil => cases hmem
  | append_singleton env last ih =>
    rw [ofVariables_concat]
    rcases honly last (List.mem_append_right _ (List.mem_singleton_self last)) with rfl | hother
    · simp only [hname]
      rw [Table.insert, Table.find?_upsert_self]
      cases Table.find? name (ofVariables env) <;> rfl
    · have hbefore : (variableName, held) ∈ env := by
        refine (List.mem_append.mp hmem).resolve_right fun hlast => hother ?_
        rw [← List.mem_singleton.mp hlast, hname]
      have hfound := ih hbefore fun other hmem => honly other (List.mem_append_left _ hmem)
      split
      · rename_i otherName hnamed
        have hne : name ≠ otherName := fun hsame => hother (by rw [hsame, hnamed])
        rw [Table.insert, Table.find?_upsert_of_ne hne, hfound]
      · exact hfound

/-- Without the variable that sets it, a layer is without a name. -/
theorem ofVariables_filter
    (honly : ∀ other ∈ env, other = (variableName, held) ∨ nameOfVariable other.1 ≠ some name) :
    ofVariables (env.filter (· ≠ (variableName, held))) = (ofVariables env).filter (·.1 ≠ name) := by
  induction env using List.reverseRecOn with
  | nil => rfl
  | append_singleton env last ih =>
    have hbefore := ih fun other hmem => honly other (List.mem_append_left _ hmem)
    rw [List.filter_append, List.filter_cons, List.filter_nil, ofVariables_concat]
    rcases honly last (List.mem_append_right _ (List.mem_singleton_self last)) with rfl | hother
    · rw [if_neg (by simp), List.append_nil, hbefore]
      simp only [hname]
      exact (Table.filter_insert_self ..).symm
    · have hkept : last ≠ (variableName, held) := fun hsame => hother (by rw [hsame, hname])
      rw [if_pos (by simpa using hkept), ofVariables_concat, hbefore]
      split
      · rename_i otherName hnamed
        have hne : otherName ≠ name := fun hsame => hother (by rw [← hsame, hnamed])
        exact (Table.filter_insert_of_ne hne ..).symm
      · rfl

end Alone

end Variables

end SchemaSearch.Setting
