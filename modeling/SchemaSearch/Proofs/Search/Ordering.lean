import SchemaSearch.Proofs.Search.Operators
import SchemaSearch.Proofs.Text.Pieces
import SchemaSearch.Service.Resource

/-!
# Written orders

A client orders by a path or by an alias, with a `-` in front for the greatest first.  Before the order is
read, the first alias that occurs anywhere in the text is replaced everywhere in it: an alias is found
even in the middle of a path, or of another alias.

Main statement: what a written order sorts by, and that it is what it names as long as no other alias
occurs in it (`ordersBy_written`).  Otherwise it need not be (`not_ordersBy_contained`).
-/

namespace SchemaSearch

open Query Schema

/-! ## Replacing a whole text -/

namespace Text

/-- Nothing is left of a match that reaches to the end. -/
theorem replaceFrom_length (pattern replacement : List Char) (cs : List Char) :
    replaceFrom pattern replacement cs.length cs = [] := by
  induction cs with
  | nil => rfl
  | cons c cs ih => exact ih

/-- A text that is the pattern becomes the replacement. -/
theorem replaceAll_self (pattern replacement : List Char) :
    replaceAll pattern replacement pattern = replacement := by
  cases pattern with
  | nil => exact List.append_nil replacement
  | cons c cs =>
    have hmatch : (c :: cs).isPrefixOf (c :: cs) = true :=
      List.isPrefixOf_iff_prefix.mpr (List.prefix_refl _)
    show replaceFrom (c :: cs) replacement 0 (c :: cs) = replacement
    rw [replaceFrom, if_pos hmatch]
    show replacement ++ replaceFrom (c :: cs) replacement cs.length cs = replacement
    rw [replaceFrom_length, List.append_nil]

/-- A text does not begin with its own tail, unless it repeats one character. -/
theorem not_isPrefixOf_cons {c : Char} :
    ∀ {pattern : List Char}, (∃ x ∈ pattern, x ≠ c) → pattern.isPrefixOf (c :: pattern) = false
  | [], h => by
    obtain ⟨x, hx, _⟩ := h
    cases hx
  | d :: pattern, ⟨x, hx, hne⟩ => by
    rw [List.isPrefixOf]
    by_cases hd : d = c
    · subst hd
      have htail : x ∈ pattern := (List.mem_cons.mp hx).resolve_left hne
      rw [not_isPrefixOf_cons ⟨x, htail, hne⟩, Bool.and_false]
    · rw [beq_false_of_ne hd, Bool.false_and]

/-- A character in front of the pattern stays in front of the replacement. -/
theorem replaceAll_cons_self {c : Char} {pattern : List Char} (h : ∃ x ∈ pattern, x ≠ c)
    (replacement : List Char) : replaceAll pattern replacement (c :: pattern) = c :: replacement := by
  have hnone := not_isPrefixOf_cons h
  have hself := replaceAll_self pattern replacement
  cases pattern with
  | nil =>
    obtain ⟨x, hx, _⟩ := h
    cases hx
  | cons d ds =>
    -- no match begins at the character in front, so the first one is the whole pattern
    show replaceFrom (d :: ds) replacement 0 (c :: d :: ds) = c :: replacement
    rw [replaceFrom, hnone, if_neg Bool.false_ne_true]
    exact congrArg (c :: ·) hself

/-- A text without blanks at its ends has none at either. -/
theorem trimEnd_of_trim {cs : List Char} (h : trim cs = cs) : trimStart cs = cs ∧ trimEnd cs = cs := by
  have hstart : trimStart cs = cs := by
    refine (List.dropWhile_suffix isBlank).eq_of_length_le ?_
    calc cs.length = (trim cs).length := by rw [h]
      _ ≤ (trimStart cs).length := by
        rw [trim, trimEnd, List.length_reverse]
        exact Nat.le_trans (List.dropWhile_suffix isBlank).length_le (Nat.le_of_eq List.length_reverse)
  refine ⟨hstart, ?_⟩
  rw [trim, hstart] at h
  exact h

/-- What is not blank may be written in front of a text without blanks at its ends. -/
theorem trim_cons {c : Char} {cs : List Char} (hc : isBlank c = false) (h : trim cs = cs) :
    trim (c :: cs) = c :: cs := by
  have hfront : trimStart (c :: cs) = c :: cs := by
    rw [trimStart, List.dropWhile_cons, hc, if_neg Bool.false_ne_true]
  have hend : trimStart cs.reverse = cs.reverse := by
    rw [← List.reverse_inj, List.reverse_reverse]
    exact (trimEnd_of_trim h).2
  have hback : trimStart (cs.reverse ++ [c]) = cs.reverse ++ [c] := by
    rw [trimStart] at hend ⊢
    rw [List.dropWhile_append, hend]
    split
    · rename_i hempty
      rw [List.isEmpty_iff.mp hempty, List.dropWhile_cons, hc, if_neg Bool.false_ne_true]
      rfl
    · rfl
  rw [trim, hfront, trimEnd, List.reverse_cons, hback, List.reverse_append, List.reverse_reverse]
  rfl

end Text

/-! ## What a text is ordered by -/

namespace SortOrder

/-- How a client writes an order by a name. -/
def written : Direction → String → String
  | .ascending, name => name
  | .descending, name => "-" ++ name

theorem toList_written (direction : Direction) (name : String) :
    (written direction name).toList = match direction with
      | .ascending => name.toList
      | .descending => '-' :: name.toList := by
  cases direction with
  | ascending => rfl
  | descending => exact String.toList_append

/-- A written order is split into what it was written with. -/
theorem split_written {name : String} (htrim : Text.trim name.toList = name.toList)
    (hdash : name.toList.head? ≠ some '-') (direction : Direction) :
    split (Text.trim (written direction name).toList) = (name.toList, direction) := by
  rw [toList_written]
  cases direction with
  | ascending =>
    show split (Text.trim name.toList) = _
    rw [htrim]
    unfold split
    split
    · rename_i field hfield
      rw [hfield] at hdash
      exact absurd rfl hdash
    · rfl
  | descending =>
    show split (Text.trim ('-' :: name.toList)) = _
    rw [Text.trim_cons (by decide) htrim]
    rfl

/-- No field is without a name. -/
theorem resolve_nil_ne_ok (r : Registry) (root : String) (target : Target) :
    r.resolve root "" ≠ .ok target := by
  intro h
  have hempty : segments "" = [""] := by decide
  unfold Registry.resolve at h
  rw [hempty] at h
  split at h
  · cases h
  · cases h

/-- An order is read if its field leads somewhere, and sorts by where it leads. -/
theorem read_eq_ok_iff {value root : String} {r : Registry} {order : SortOrder} :
    read value r root = .ok order ↔
      split (Text.trim value.toList) = (order.field.toList, order.direction)
        ∧ ∃ target, r.resolve root order.field = .ok target
          ∧ order.key = keyOf root target order.direction := by
  obtain ⟨field, direction, key⟩ := order
  obtain ⟨cs, d, hsplit⟩ : ∃ cs d, split (Text.trim value.toList) = (cs, d) := ⟨_, _, rfl⟩
  simp only [read, hsplit]
  constructor
  · intro h
    split at h
    · cases h
    · split at h
      · rename_i target htarget
        cases h
        exact ⟨by rw [String.toList_ofList], target, htarget, rfl⟩
      · cases h
  · rintro ⟨hwritten, target, htarget, hkey⟩
    cases hwritten
    -- an order without a field is refused, but no field without a name leads anywhere
    have hsome : field.toList.isEmpty = false := by
      cases hempty : field.toList.isEmpty with
      | false => rfl
      | true =>
        have hfield : field = "" := by simpa using hempty
        exact absurd htarget (hfield ▸ resolve_nil_ne_ok r root target)
    rw [hsome, if_neg Bool.false_ne_true, String.ofList_toList, htarget, hkey]

end SortOrder

/-! ## Searches with nothing but an order -/

section Orders

variable {r : Registry} {c : SearchConfig} {root : String} {t : Transformer} {text : String}

/-- The text of an order that is read in place of the one that is written. -/
def Schema.Renames.expanded (renames : Renames) (text : String) : String :=
  (renames.expandText text).getD text

theorem Schema.Renames.expandOrder_text (renames : Renames) (text : String) :
    renames.expandOrder (.text text) = .text (renames.expanded text) := by
  rw [Renames.expandOrder, Renames.expanded, Json.scalarText, Option.bind_some]
  cases renames.expandText text <;> rfl

/-- A search with nothing but an order shows the whole root, in the order that is read once an alias is
replaced. -/
theorem Prepared.ofParams_order {e : Entity} (hroot : r.get? root = some e)
    (ht : Transformer.ofRoot r root = .ok t) (hfilter : orderParam ∈ c.searchFilters)
    (hinactive : c.includeInactiveParam ≠ orderParam) (hnamed : t.renames.get? orderParam = none)
    (hboolean : orderParam ∉ t.booleans) :
    Prepared.ofParams r c root (.ofPairs [(orderParam, .text text)])
      = (fun order => ⟨(Scope.ofEntity r e).restrictToActive, order, ⟨1, max c.defaultPageSize 1⟩⟩) <$>
          SortOrder.read (t.renames.expanded text) r root := by
  have htarget : t.renames.targetOf orderParam = orderParam := by
    rw [Renames.targetOf, hnamed]
    rfl
  have hprocess : t.process (.ofPairs [(orderParam, .text text)])
      = .ok ⟨[(orderParam, [.text (t.renames.expanded text)])]⟩ := by
    have hcoerced : Params.coerceBooleans ⟨[(orderParam, [.text text])]⟩ t.booleans
        = .ok ⟨[(orderParam, [.text text])]⟩ := by
      refine Params.coerceBooleans_eq_self fun name hname => Params.getAll_single_of_ne ?_ _
      rintro rfl
      exact hboolean hname
    have hrenamed : Params.applyRenames ⟨[(orderParam, [.text text])]⟩ t.renames
        = ⟨[(orderParam, [.text text])]⟩ := by
      simp only [Params.applyRenames, List.foldl, htarget]
      rfl
    show (Params.coerceBooleans ⟨[(orderParam, [.text text])]⟩ t.booleans >>= _) = _
    rw [hcoerced, ok_bind, hrenamed, ← Renames.expandOrder_text]
    rfl
  have hplain : DateBounds.isBoundKey orderParam = false := by decide
  have hnarrowed : Narrowed.ofParams r c root (.ofPairs [(orderParam, .text text)])
      = .ok ⟨Scope.ofEntity r e, ⟨[(orderParam, [.text (t.renames.expanded text)])]⟩, false⟩ := by
    refine Narrowed.ofParams_plain hroot ht hprocess (Params.getAll_single_of_ne hinactive.symm _)
      fun key hkey => ?_
    rw [List.mem_singleton.mp hkey]
    exact hplain
  have hsearch : Prepared.searchFields c (Scope.ofEntity r e)
      ⟨[(orderParam, [.text (t.renames.expanded text)])]⟩ = .ok (Scope.ofEntity r e) := by
    have hnone : Params.without ⟨[(orderParam, [.text (t.renames.expanded text)])]⟩ c.searchFilters
        = ⟨[]⟩ := by
      have hgone : (!c.searchFilters.contains orderParam) = false := by simpa using hfilter
      rw [Params.without_eq, List.filter_cons, hgone, if_neg Bool.false_ne_true, List.filter_nil]
    show Scope.searchTerms _ _ _ = _
    rw [Scope.searchTerms, Params.termPredicates, Params.terms, hnone]
    rfl
  rw [Prepared.ofParams_eq, hnarrowed, ok_bind, Narrowed.finish, hsearch, ok_bind]
  show SortOrder.read (t.renames.expanded text) r root >>= _ = _
  cases SortOrder.read (t.renames.expanded text) r root <;> rfl

/-- A search is prepared and sorts by where a path leads. -/
def Prepared.OrdersBy (r : Registry) (c : SearchConfig) (root : String) (p : Params) (path : String)
    (direction : Direction) : Prop :=
  ∃ s target, Prepared.ofParams r c root p = .ok s ∧ r.resolve root path = .ok target
    ∧ s.order = ⟨path, direction, SortOrder.keyOf root target direction⟩

/-- The first alias that occurs in a text, with its path. -/
def Schema.Renames.firstIn? (renames : Renames) (text : String) : Option (String × String) :=
  renames.entries.find? fun entry => Text.contains text entry.1

/-- The first alias in a text that is found under a name is the alias of that name. -/
theorem Schema.Renames.get?_of_firstIn? {renames : Renames} {text name path : String}
    (hname : Text.contains text name = true) (h : renames.firstIn? text = some (name, path)) :
    renames.get? name = some path := by
  obtain ⟨entries⟩ := renames
  unfold Renames.firstIn? at h
  unfold Renames.get?
  induction entries with
  | nil => cases h
  | cons entry rest ih =>
    obtain ⟨key, target⟩ := entry
    rw [List.find?_cons] at h
    rw [Table.find?]
    -- the name occurs in the text, so the search for an alias goes no further than its first entry
    by_cases hkey : key = name
    · subst hkey
      rw [hname] at h
      cases h
      rw [if_pos rfl]
    · rw [if_neg hkey]
      split at h
      · cases h
        exact absurd rfl hkey
      · exact ih h

/-- Where an alias occurs that is written, some alias is found. -/
theorem Schema.Renames.firstIn?_ne_none {renames : Renames} {text name path : String}
    (hname : Text.contains text name = true) (h : renames.get? name = some path) :
    renames.firstIn? text ≠ none := by
  obtain ⟨entries⟩ := renames
  unfold Renames.firstIn?
  unfold Renames.get? at h
  induction entries with
  | nil => cases h
  | cons entry rest ih =>
    obtain ⟨key, target⟩ := entry
    rw [List.find?_cons]
    rw [Table.find?] at h
    by_cases hkey : key = name
    · subst hkey
      rw [hname]
      exact Option.some_ne_none _
    · rw [if_neg hkey] at h
      split
      · exact Option.some_ne_none _
      · exact ih h

/-- Every alias of a root leads somewhere. -/
theorem resolve_of_renames {renames : Renames} {name path : String} (h : r.renames root = .ok renames)
    (hpath : renames.get? name = some path) : ∃ target, r.resolve root path = .ok target := by
  obtain ⟨e, _, h⟩ := bind_eq_ok h
  simp only at h
  split at h
  · cases h
  · rename_i hnone
    cases h
    have hmem := Table.mem_of_find? hpath
    have hleads := List.find?_eq_none.mp hnone _ hmem
    cases hresolve : r.resolve root path with
    | ok target => exact ⟨target, rfl⟩
    | error error =>
      rw [hresolve] at hleads
      exact absurd rfl hleads

theorem contains_written (direction : Direction) (name : String) :
    Text.contains (SortOrder.written direction name) name = true := by
  rw [Text.contains, SortOrder.toList_written]
  cases direction with
  | ascending => exact Text.occurs_iff_isInfix.mpr (List.infix_refl _)
  | descending => exact Text.occurs_iff_isInfix.mpr (List.infix_cons (List.infix_refl _))

/-- A written name is replaced by what it stands for, if no other alias is found in front of it. -/
theorem expanded_written {renames : Renames} {direction : Direction} {name : String}
    (hfirst : ∀ key path, renames.firstIn? (SortOrder.written direction name) = some (key, path) →
      key = name)
    (hname : direction = .descending → ∃ x ∈ name.toList, x ≠ '-') :
    renames.expanded (SortOrder.written direction name)
      = SortOrder.written direction (renames.targetOf name) := by
  have hcontains := contains_written direction name
  unfold Renames.expanded Renames.expandText Renames.targetOf
  show ((renames.firstIn? (SortOrder.written direction name)).map _).getD _ = _
  cases hfound : renames.firstIn? (SortOrder.written direction name) with
  | none =>
    cases hpath : renames.get? name with
    | none => rfl
    | some path => exact absurd hfound (Renames.firstIn?_ne_none hcontains hpath)
  | some entry =>
    obtain ⟨key, path⟩ := entry
    have hkey := hfirst key path hfound
    subst hkey
    rw [Renames.get?_of_firstIn? hcontains hfound]
    show Text.replace (SortOrder.written direction key) key path = SortOrder.written direction path
    rw [← String.toList_inj, Text.replace, String.toList_ofList, SortOrder.toList_written,
      SortOrder.toList_written]
    cases direction with
    | ascending => exact Text.replaceAll_self key.toList path.toList
    | descending => exact Text.replaceAll_cons_self (hname rfl) path.toList

/-- A written order sorts by the path that is left of it once the first alias that occurs in it is
replaced; that is the path its name stands for, in the direction it is written with, if no other alias
occurs in it. -/
theorem ordersBy_written (ht : Transformer.ofRoot r root = .ok t) (hfilter : orderParam ∈ c.searchFilters)
    (hinactive : c.includeInactiveParam ≠ orderParam) (hnamed : t.renames.get? orderParam = none)
    (hboolean : orderParam ∉ t.booleans) (name : String) (direction : Direction) :
    (∀ path sorted,
      Prepared.OrdersBy r c root (.ofPairs [(orderParam, .text (SortOrder.written direction name))]) path
          sorted ↔
        (∃ target, r.resolve root path = .ok target)
          ∧ SortOrder.split (Text.trim
              (t.renames.expanded (SortOrder.written direction name)).toList) = (path.toList, sorted))
    ∧ ((t.renames.get? name = none → ∃ target, r.resolve root name = .ok target) →
      Text.trim (t.renames.targetOf name).toList = (t.renames.targetOf name).toList →
      (t.renames.targetOf name).toList.head? ≠ some '-' →
      (direction = .descending → ∃ x ∈ name.toList, x ≠ '-') →
      (∀ key path, t.renames.firstIn? (SortOrder.written direction name) = some (key, path) →
        key = name) →
      Prepared.OrdersBy r c root (.ofPairs [(orderParam, .text (SortOrder.written direction name))])
        (t.renames.targetOf name) direction) := by
  obtain ⟨e, hroot, hrenames, _⟩ := Transformer.ofRoot_eq_ok ht
  have hread : ∀ path sorted,
      Prepared.OrdersBy r c root (.ofPairs [(orderParam, .text (SortOrder.written direction name))]) path
          sorted ↔
        (∃ target, r.resolve root path = .ok target)
          ∧ SortOrder.split (Text.trim
              (t.renames.expanded (SortOrder.written direction name)).toList) = (path.toList, sorted) := by
    intro path sorted
    unfold Prepared.OrdersBy
    rw [Prepared.ofParams_order hroot ht hfilter hinactive hnamed hboolean]
    constructor
    · rintro ⟨s, target, hs, htarget, horder⟩
      obtain ⟨order, hread, rfl⟩ := map_eq_ok hs
      cases horder
      exact ⟨⟨target, htarget⟩, (SortOrder.read_eq_ok_iff.mp hread).1⟩
    · rintro ⟨⟨target, htarget⟩, hsplit⟩
      have hread : SortOrder.read (t.renames.expanded (SortOrder.written direction name)) r root
          = .ok ⟨path, sorted, SortOrder.keyOf root target sorted⟩ :=
        SortOrder.read_eq_ok_iff.mpr ⟨hsplit, target, htarget, rfl⟩
      rw [hread]
      exact ⟨_, target, rfl, htarget, rfl⟩
  refine ⟨hread, fun hresolves htrim hdash hname hfirst => (hread _ _).mpr ⟨?_, ?_⟩⟩
  · cases hpath : t.renames.get? name with
    | none =>
      rw [Renames.targetOf, hpath]
      exact hresolves hpath
    | some path =>
      rw [Renames.targetOf, hpath]
      exact resolve_of_renames hrenames hpath
  · rw [expanded_written hfirst hname, SortOrder.split_written htrim hdash]

end Orders

/-- Questions by the greatest of their topics first. -/
theorem ordersBy_written_sample :
    Prepared.OrdersBy Service.registry .standard "questions"
      (.ofPairs [("order_by", .text "-topic")]) "topics__title" .descending := by
  have ht : Transformer.ofRoot Service.registry "questions" = .ok ⟨_, _⟩ := rfl
  refine (ordersBy_written (c := .standard) ht (by decide) (by decide) rfl (by decide) "topic"
    .descending).2 ?_ (by decide) (by decide) (fun _ => ⟨'t', by decide, by decide⟩) ?_
  · intro hnone
    cases hnone
  · intro key path hfirst
    cases hfirst
    rfl

/-- What is asked of orders by names that lead somewhere and fulfil a condition. -/
def OrdersByNames (side : Transformer → String → Prop) : Prop :=
  ∀ (r : Registry) (root name : String) (t : Transformer) (direction : Direction),
    Transformer.ofRoot r root = .ok t → side t name →
    (t.renames.get? name = none → ∃ target, r.resolve root name = .ok target) →
    Prepared.OrdersBy r .standard root (.ofPairs [(orderParam, .text (SortOrder.written direction name))])
      (t.renames.targetOf name) direction

/-- A path that contains an alias is refused, and an alias that contains another one sorts by a third
field. -/
theorem not_ordersBy_contained :
    ¬ OrdersByNames (fun t name => t.renames.get? name = none)
    ∧ ¬ OrdersByNames fun t name => t.renames.get? name ≠ none := by
  constructor
  · intro h
    obtain ⟨s, _, hs, _⟩ := h Service.registry "questions" "topics__title" _ .ascending rfl rfl
      fun _ => ⟨_, rfl⟩
    have hrefused : Prepared.ofParams Service.registry .standard "questions"
        (.ofPairs [("order_by", .text "topics__title")])
          = .error (.invalidOrdering "topics__titles__title") := rfl
    cases hrefused.symm.trans hs
  · intro h
    obtain ⟨s, target, hs, _, horder⟩ := h (.ofEntities [⟨"notes", [⟨"title", .text⟩, ⟨"author", .text⟩,
        ⟨"author_name", .text⟩], [], .ofPairs [("by", "author"), ("by_name", "title")]⟩]) "notes" "by_name"
      _ .ascending rfl (by decide) (fun hnone => by cases hnone)
    have hsorted : (·.order.field) <$> Prepared.ofParams (.ofEntities [⟨"notes", [⟨"title", .text⟩,
        ⟨"author", .text⟩, ⟨"author_name", .text⟩], [],
        .ofPairs [("by", "author"), ("by_name", "title")]⟩]) .standard "notes"
        (.ofPairs [(orderParam, .text (SortOrder.written .ascending "by_name"))])
          = .ok "author_name" := rfl
    rw [hs] at hsorted
    have hfield : s.order.field = "author_name" := Except.ok.inj hsorted
    have hnamed : s.order.field = "title" := congrArg SortOrder.field horder
    exact absurd (hnamed.symm.trans hfield) (by decide)

end SchemaSearch
