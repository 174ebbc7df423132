import SchemaSearch.Proofs.Search.Identifiers
import SchemaSearch.Proofs.Search.Substituted
import SchemaSearch.Service.Resource

/-!
# What clients write into a query

The text of a prepared query is made of a fixed vocabulary, whole numbers, names that the registry declares and
aliases of sort keys; what a client sends stands between the quotes of values, and nowhere else.  So another
pattern in the place of one that a client sends is another value in the text, and no other change.

Some keys do more than search: a key that the order, the operator, the page or the activity of records is read
from steers the search by its value as well, and the values of a boolean field have to be booleans even where
the key is an alias of a text.

Main statement: `client_text_stays_in_values`, with a page number and a boolean alias where patterns are not
free (`not_patternsAreFree`).
-/

namespace SchemaSearch

open Query Schema

/-- To a reader of their texts, two queries differ in one value and nothing else. -/
def Query.Select.OneValueApart (value value' : String) (q q' : Select) : Prop :=
  OneApart (fun l l' => l = .quoted .value value ∧ l' = .quoted .value value') (lexemes q.sql) (lexemes q'.sql)

/-- Under a key whose path is searched, parameters have one pattern value of a field on texts replaced by
another of the same kind. -/
structure PatternReplaced (r : Registry) (c : SearchConfig) (root : String) (t : Transformer) (key : String)
    (kind : PatternKind) (value value' : String) (p p' : Params) : Prop where
  transformer : Transformer.ofRoot r root = .ok t
  searched : c.namesField (t.renames.targetOf key) = true
  apart : ∃ n field target, Narrowed.ofParams r c root p = .ok n ∧ r.resolve root field = .ok target
    ∧ target.kind = .text
    ∧ p.Apart key
      (Json.Replaces (Operator.ofParams? n.params) (t.renames.targetOf key) field kind value value') p'

/-- Whatever the registry, the root, the configuration and the parameters of a prepared search: its text is
written from a fixed vocabulary, whole numbers, values and names, and all that a reader of SQL finds between
double quotes are names that the registry declares and aliases of sort keys; no quote is left open.  And if one
pattern value of a field on texts is replaced by another of its kind, under a key that steers nothing, the
search is prepared all the same, and to a reader of SQL its text differs in the literal of the value alone. -/
theorem client_text_stays_in_values {r : Registry} {c : SearchConfig} {root : String} {p : Params}
    {s : Prepared} (h : Prepared.ofParams r c root p = .ok s) :
    (∃ tokens, Written (fun name => r.Declares name ∨ SortOrder.IsAlias name) s.query.sql tokens
      ∧ lexemes s.query.sql = tokens.flatMap Token.lexemes)
    ∧ (∀ name, .quoted .name name ∈ lexemes s.query.sql → r.Declares name ∨ SortOrder.IsAlias name)
    ∧ (∀ quote content, .unclosed quote content ∉ lexemes s.query.sql)
    ∧ ∀ {t key kind value value' p'}, PatternReplaced r c root t key kind value value' p p' →
      t.SteersNothing c key →
      ∃ s', Prepared.ofParams r c root p' = .ok s'
        ∧ s.query.OneValueApart (kind.pattern value) (kind.pattern value') s'.query := by
  obtain ⟨tokens, hwritten⟩ := Prepared.exists_written h
  have hread := hwritten.read
  refine ⟨⟨tokens, hwritten, hread⟩, ?_, ?_, ?_⟩
  · intro name hname
    rw [hread] at hname
    exact hwritten.allowed _ (Token.mem_of_quoted hname)
  · intro quote content hopen
    rw [hread] at hopen
    exact Token.unclosed_notMem hopen
  · rintro t key kind value value' p' ⟨ht, hnames, n, field, target, hn, htarget, htext, hapart⟩ hsteers
    obtain ⟨s', hs', horder, hpage, hswapped⟩ :=
      Prepared.exists_swapped ht hn htarget htext hnames hsteers hapart h
    refine ⟨s', hs', Differ.lexemes_apart ?_⟩
    refine Select.differ ?_ ?_ ?_ rfl rfl hswapped.condition
    · rw [Prepared.query, Prepared.query, hswapped.root]
    · rw [Prepared.query, Prepared.query, horder]
    · rw [Prepared.query, Prepared.query, hpage]

/-- A tree of two titles under `AND`, and an order by related rows. -/
def nestedTitle (title : String) : Params :=
  ⟨[("operator", [.text "AND"]),
    ("_OR", [.object [("title", .text "how"), ("topics__title", .text title)]]),
    ("order_by", [.text "-answers__created_at"])]⟩

/-- A title that would end its literal, if quotes were not doubled, and one in its place. -/
theorem client_text_stays_in_values_sample :
    ∃ s s', Prepared.ofParams Service.registry .standard "questions" (nestedTitle "x' OR \"a\" = 'b") = .ok s
      ∧ Prepared.ofParams Service.registry .standard "questions" (nestedTitle "billing") = .ok s'
      ∧ (∀ name, .quoted .name name ∈ lexemes s.query.sql →
        Service.registry.Declares name ∨ SortOrder.IsAlias name)
      ∧ PatternKind.start.pattern "x' OR \"a\" = 'b" = "X' OR \"A\" = 'B%"
      ∧ s.query.OneValueApart (PatternKind.start.pattern "x' OR \"a\" = 'b")
        (PatternKind.start.pattern "billing") s'.query := by
  have hs : Prepared.ofParams Service.registry .standard "questions" (nestedTitle "x' OR \"a\" = 'b")
      = .ok _ := rfl
  obtain ⟨t, hreplaced, hsteers⟩ : ∃ t, PatternReplaced Service.registry .standard "questions" t "_OR" .start
      "x' OR \"a\" = 'b" "billing" (nestedTitle "x' OR \"a\" = 'b") (nestedTitle "billing")
      ∧ t.SteersNothing .standard "_OR" :=
    ⟨_, ⟨rfl, rfl, _, "topics__title", _, rfl, rfl, rfl, .tail _ (.head ⟨rfl, rfl,
      .single (.node rfl rfl rfl (.field [_] [] rfl (.scalar ⟨rfl, rfl⟩)))⟩ _)⟩, by decide, by decide⟩
  obtain ⟨_, hnames, _, hfree⟩ := client_text_stays_in_values hs
  obtain ⟨s', hs', happart⟩ := hfree hreplaced hsteers
  exact ⟨_, s', hs, hs', hnames, by decide, happart⟩

/-! ## Keys that steer -/

/-- Under some keys, a pattern of a prepared search may be replaced by any other of its kind. -/
def PatternsAreFree (asked : Transformer → SearchConfig → String → Prop) : Prop :=
  ∀ {r c root p s t key kind value value' p'}, Prepared.ofParams r c root p = .ok s →
    PatternReplaced r c root t key kind value value' p p' → asked t c key →
    ∃ s', Prepared.ofParams r c root p' = .ok s'
      ∧ s.query.OneValueApart (kind.pattern value) (kind.pattern value') s'.query

/-- Notes whose texts are named like the parameters that steer, and a boolean that is an alias of a text. -/
def steeringNotes : Registry :=
  .ofEntities [⟨"notes", [⟨"title", .text⟩, ⟨"order_by", .text⟩, ⟨"operator", .text⟩, ⟨"page", .text⟩,
    ⟨"per_page", .text⟩, ⟨"include_inactive", .text⟩, ⟨"is_active", .boolean⟩], [],
    .ofPairs [("is_active", "title")]⟩]

/-- A configuration under which every key is searched. -/
def unfiltered : SearchConfig := ⟨[], 100, "title", "include_inactive"⟩

/-- One key with one text. -/
def oneText (key value : String) : Params := ⟨[(key, [.text value])]⟩

section OneText

variable {t : Transformer} {key field value value' : String}

theorem patternReplaced_oneText {n : Narrowed} {target : Target}
    (ht : Transformer.ofRoot steeringNotes "notes" = .ok t) (hkey : t.renames.targetOf key = field)
    (hsearched : unfiltered.namesField field = true)
    (hn : Narrowed.ofParams steeringNotes unfiltered "notes" (oneText key value) = .ok n)
    (htarget : steeringNotes.resolve "notes" field = .ok target) (htext : target.kind = .text)
    (h : (Json.text value).Replaces (Operator.ofParams? n.params) field field .start value value'
      (.text value')) :
    PatternReplaced steeringNotes unfiltered "notes" t key .start value value' (oneText key value)
      (oneText key value') := by
  subst hkey
  exact ⟨ht, hsearched, n, _, target, hn, htarget, htext, .single ⟨rfl, rfl, .single h⟩⟩

/-- A pattern that would leave a search without a result may not take the place of another. -/
theorem not_free_of_error {asked : Transformer → SearchConfig → String → Prop} {s : Prepared}
    {error : SearchError} (key value value' : String)
    (hs : Prepared.ofParams steeringNotes unfiltered "notes" (oneText key value) = .ok s)
    (hreplaced : PatternReplaced steeringNotes unfiltered "notes" t key .start value value' (oneText key value)
      (oneText key value')) (hasked : asked t unfiltered key)
    (herror : Prepared.ofParams steeringNotes unfiltered "notes" (oneText key value') = .error error) :
    ¬ PatternsAreFree asked := by
  intro hfree
  obtain ⟨s', hs', _⟩ := hfree hs hreplaced hasked
  rw [herror] at hs'
  cases hs'

end OneText

/-- A page number that is searched as a text also says which rows are taken, so the text of the query differs in
more than the literal.  No pattern is free under a key that steers, nor under an alias of a text that is a
boolean field. -/
theorem not_patternsAreFree :
    (∃ t s s', PatternReplaced steeringNotes unfiltered "notes" t "page" .start "1" "2" (oneText "page" "1")
        (oneText "page" "2")
      ∧ Prepared.ofParams steeringNotes unfiltered "notes" (oneText "page" "1") = .ok s
      ∧ Prepared.ofParams steeringNotes unfiltered "notes" (oneText "page" "2") = .ok s'
      ∧ ¬ s.query.OneValueApart (PatternKind.start.pattern "1") (PatternKind.start.pattern "2") s'.query)
    ∧ (∀ steering ∈ [orderParam, Operator.param, Page.param, Page.sizeParam, unfiltered.includeInactiveParam],
      ¬ PatternsAreFree fun t _ key => key ∉ t.booleans ∧ t.renames.targetOf key = steering)
    ∧ ¬ PatternsAreFree fun t c key => t.renames.targetOf key ∉
      [orderParam, Operator.param, Page.param, Page.sizeParam, c.includeInactiveParam] := by
  refine ⟨?_, ?_, ?_⟩
  · have hreplaced : ∃ t, PatternReplaced steeringNotes unfiltered "notes" t "page" .start "1" "2"
        (oneText "page" "1") (oneText "page" "2") :=
      ⟨_, patternReplaced_oneText rfl rfl rfl rfl rfl rfl (.plain rfl rfl ⟨rfl, rfl⟩)⟩
    obtain ⟨t, hreplaced⟩ := hreplaced
    refine ⟨t, _, _, hreplaced, rfl, rfl, fun hapart => ?_⟩
    -- the texts are not even of one length
    exact absurd (OneApart.length_eq hapart) (by decide +kernel)
  · intro steering hsteering
    simp only [List.mem_cons, List.not_mem_nil, or_false] at hsteering
    rcases hsteering with rfl | rfl | rfl | rfl | rfl
    · exact not_free_of_error "order_by" "title" "x" rfl
        (patternReplaced_oneText rfl rfl rfl rfl rfl rfl (.plain rfl rfl ⟨rfl, rfl⟩)) ⟨by decide, rfl⟩ rfl
    · exact not_free_of_error "operator" "AND" "x" rfl
        (patternReplaced_oneText rfl rfl rfl rfl rfl rfl (.value rfl rfl rfl rfl (.scalar ⟨rfl, rfl⟩)))
        ⟨by decide, rfl⟩ rfl
    · exact not_free_of_error "page" "1" "x" rfl
        (patternReplaced_oneText rfl rfl rfl rfl rfl rfl (.plain rfl rfl ⟨rfl, rfl⟩)) ⟨by decide, rfl⟩ rfl
    · exact not_free_of_error "per_page" "1" "x" rfl
        (patternReplaced_oneText rfl rfl rfl rfl rfl rfl (.plain rfl rfl ⟨rfl, rfl⟩)) ⟨by decide, rfl⟩ rfl
    · exact not_free_of_error "include_inactive" "true" "x" rfl
        (patternReplaced_oneText rfl rfl rfl rfl rfl rfl (.plain rfl rfl ⟨rfl, rfl⟩)) ⟨by decide, rfl⟩ rfl
  · exact not_free_of_error "is_active" "yes" "maybe" rfl
      (patternReplaced_oneText rfl rfl rfl rfl rfl rfl (.plain rfl rfl ⟨rfl, rfl⟩)) (by decide) rfl

end SchemaSearch
