import SchemaSearch.Proofs.Predicate.Meaning
import SchemaSearch.Proofs.Predicate.Patterns
import SchemaSearch.Search.Term

/-!
# Searching for a stored text by itself

The pattern is put in upper case by the full mapping, the stored text by that of ASCII.  So a stored text is
found by a part of itself as far as the full mapping does no more than that of ASCII.

Main statements: what a prefix or an infix of a stored text selects (`selects_own_text`), and a stored text
that is not found by its first word (`not_findsOwnText`).
-/

namespace SchemaSearch

open Query Schema Store CodePoint

section Parts

variable {cs rest : List Char}

/-- Upper case is a prefix of the text just if it is nothing to a pattern. -/
theorem folded_upper_prefix_iff :
    folded (Text.upper cs) <+: folded (cs ++ rest) ↔ ∀ c ∈ cs, Text.isAsciiCased c = true := by
  induction cs with
  | nil => exact iff_of_true List.nil_prefix fun c hc => absurd hc List.not_mem_nil
  | cons c cs ih =>
    rw [List.forall_mem_cons, ← ih, Text.upper, List.flatMap_cons, folded_append]
    cases hc : Text.isAsciiCased c with
    | true =>
      rw [folded_upperChar hc]
      show (_ :: folded (Text.upper cs)) <+: ((ofChar c).toUpper :: folded (cs ++ rest)) ↔ _
      rw [List.prefix_cons_inj, eq_self, true_and]
    | false =>
      obtain ⟨p, tail, hfolded, hother⟩ := head_folded_upperChar hc
      rw [hfolded]
      refine iff_of_false (fun hfront => ?_) (fun h => Bool.false_ne_true h.1)
      exact hother (List.cons_prefix_cons.mp hfront).1

end Parts

/-! ## Searching -/

/-- A column of a row holds a text without NUL. -/
def Store.Row.HoldsText (row : Row) (column v : String) : Prop :=
  row.get column = .text v ∧ '\x00' ∉ v.toList

/-- The condition of a value that a client sends for a path. -/
def Predicate.ofSent (r : Registry) (root path value : String) : Except SearchError Condition :=
  Predicate.ofTerm path (.text value) >>= Predicate.compile r root

section Sent

variable {r : Registry} {root path s v : String} {target : Target}

/-- A short text is looked up as its first character says. -/
theorem ofTerm_text (h : s.utf8ByteSize ≤ maxValueBytes) :
    Predicate.ofTerm path (.text s) = .ok (.field path (Lookup.ofText s)) := by
  have hshort : ¬ maxValueBytes < s.utf8ByteSize := by omega
  simp only [Predicate.ofTerm, Lookup.ofValue, Json.scalarText, if_neg hshort]
  rfl

theorem ofText_caret (s : String) : Lookup.ofText ("^" ++ s) = .startsWith s := by
  have hchars : ("^" ++ s).toList = '^' :: s.toList := String.toList_append
  rw [Lookup.ofText, hchars]
  exact congrArg Lookup.startsWith String.ofList_toList

theorem ofText_dollar (s : String) : Lookup.ofText ("$" ++ s) = .contains s := by
  have hchars : ("$" ++ s).toList = '$' :: s.toList := String.toList_append
  rw [Lookup.ofText, hchars]
  exact congrArg Lookup.contains String.ofList_toList

/-- A mark and a text are sent as a lookup of the text. -/
theorem ofSent_mark {mark : String} (hmark : mark.utf8ByteSize = 1) (hsize : s.utf8ByteSize ≤ 9999) :
    Predicate.ofSent r root path (mark ++ s)
      = (Predicate.field path (Lookup.ofText (mark ++ s))).compile r root := by
  have hshort : (mark ++ s).utf8ByteSize ≤ maxValueBytes := by
    rw [String.utf8ByteSize_append, hmark, maxValueBytes]
    omega
  rw [Predicate.ofSent, ofTerm_text hshort]
  rfl

/-- Texts in a column of texts can be searched for. -/
theorem exists_compile_of_text (hpath : r.resolve root path = .ok target) (hkind : target.kind = .text)
    {lookup : Lookup} (hlookup : lookup = .startsWith s ∨ lookup = .contains s) :
    ∃ c, (Predicate.field path lookup).compile r root = .ok c := by
  rw [Predicate.compile_field hpath, fieldCondition, leafCondition, hkind]
  rcases hlookup with rfl | rfl <;> exact ⟨_, rfl⟩

/-- A stored text passes what is a prefix or an infix of it once it is in upper case. -/
theorem accepts_text_iff (hs : '\x00' ∉ s.toList) (hv : '\x00' ∉ v.toList) :
    ((Lookup.startsWith s).accepts .text (.text v) = true
        ↔ folded (Text.upper s.toList) <+: folded v.toList)
      ∧ ((Lookup.contains s).accepts .text (.text v) = true
        ↔ folded (Text.upper s.toList) <:+: folded v.toList) := by
  have hpoints : (Value.text v).codePoints = some (CodePoint.ofText v) := rfl
  rw [accepts_of_ne_null rfl _ Value.noConfusion, accepts_of_ne_null rfl _ Value.noConfusion,
    ← map_toUpper_ofText hv]
  exact ⟨isLike_startPattern hs hpoints, isLike_containsPattern hs hpoints⟩

/-- A stored text is found by a part of itself as far as upper case does no more than that of ASCII; by a
prefix, in a column of the root, it is found just so far. -/
theorem selects_own_text (hpath : r.resolve root path = .ok target) (hkind : target.kind = .text)
    (hsize : s.utf8ByteSize ≤ 9999) :
    ∃ starts contains, Predicate.ofSent r root path ("^" ++ s) = .ok starts
      ∧ Predicate.ofSent r root path ("$" ++ s) = .ok contains
      ∧ (∀ db row v, ∀ last ∈ reached db target.hops row, last.HoldsText target.column v →
          (∀ c ∈ s.toList, Text.isAsciiCased c = true) →
          (s.toList <+: v.toList → selects db root starts row = true)
          ∧ (s.toList <:+: v.toList → selects db root contains row = true))
      ∧ ∀ db row v, target.hops = [] → row.HoldsText target.column v →
          (s.toList <+: v.toList →
            (selects db root starts row = true ↔ ∀ c ∈ s.toList, Text.isAsciiCased c = true))
          ∧ (s.toList <:+: v.toList →
            (selects db root contains row = true ↔ folded (Text.upper s.toList) <:+: folded v.toList)) := by
  obtain ⟨starts, hstarts⟩ := exists_compile_of_text (s := s) hpath hkind (.inl rfl)
  obtain ⟨contains, hcontains⟩ := exists_compile_of_text (s := s) hpath hkind (.inr rfl)
  have hselects : ∀ db row, selects db root starts row = true ↔ ∃ last ∈ reached db target.hops row,
      (Lookup.startsWith s).accepts .text (last.get target.column) = true := fun db row =>
    hkind ▸ Predicate.selects_field_iff hpath rfl hstarts
  have hselects' : ∀ db row, selects db root contains row = true ↔ ∃ last ∈ reached db target.hops row,
      (Lookup.contains s).accepts .text (last.get target.column) = true := fun db row =>
    hkind ▸ Predicate.selects_field_iff hpath rfl hcontains
  refine ⟨starts, contains, ?_, ?_, ?_, ?_⟩
  · rw [ofSent_mark rfl hsize, ofText_caret, hstarts]
  · rw [ofSent_mark rfl hsize, ofText_dollar, hcontains]
  · intro db row v last hlast ⟨hcolumn, hv⟩ hcased
    refine ⟨fun hfront => (hselects db row).mpr ⟨last, hlast, ?_⟩,
      fun hpart => (hselects' db row).mpr ⟨last, hlast, ?_⟩⟩
    · rw [hcolumn, (accepts_text_iff (fun hmem => hv (hfront.subset hmem)) hv).1, folded_upper hcased]
      exact hfront.map _
    · rw [hcolumn, (accepts_text_iff (fun hmem => hv (hpart.subset hmem)) hv).2, folded_upper hcased]
      exact hpart.map _
  · intro db row v hhops ⟨hcolumn, hv⟩
    rw [hselects, hselects', hhops, reached]
    simp only [List.mem_singleton, exists_eq_left]
    rw [hcolumn]
    refine ⟨fun hfront => ?_, fun hpart => ?_⟩
    · rw [(accepts_text_iff (fun hmem => hv (hfront.subset hmem)) hv).1]
      obtain ⟨rest, hrest⟩ := hfront
      rw [← hrest]
      exact folded_upper_prefix_iff
    · exact (accepts_text_iff (fun hmem => hv (hpart.subset hmem)) hv).2

end Sent

/-- The sample's sixth question is found by its topic, whose title starts with a capital letter. -/
theorem selects_own_text_sample :
    ∃ starts contains, Predicate.ofSent Service.registry "questions" "topics__title" "^Élan v" = .ok starts
      ∧ Predicate.ofSent Service.registry "questions" "topics__title" "$Élan v" = .ok contains
      ∧ selects Service.sampleDatabase "questions" starts (Service.sampleQuestions.getD 5 ⟨[]⟩) = true
      ∧ selects Service.sampleDatabase "questions" contains (Service.sampleQuestions.getD 5 ⟨[]⟩) = true := by
  have hpath : Service.registry.resolve "questions" "topics__title" = .ok
      ⟨[⟨"questions", .manyToMany "topics" "question_topics" "question_id"
        ⟨"questions_topics", "question_id", "question_topic_id"⟩ "question_topic_id"⟩],
        "question_topics", "title", .text⟩ := rfl
  obtain ⟨starts, contains, hstarts, hcontains, hrows, -⟩ := selects_own_text (s := "Élan v") hpath rfl (by decide)
  have htopic : Service.sampleTopics.getD 3 ⟨[]⟩ ∈ reached Service.sampleDatabase
      [⟨"questions", .manyToMany "topics" "question_topics" "question_id"
        ⟨"questions_topics", "question_id", "question_topic_id"⟩ "question_topic_id"⟩]
      (Service.sampleQuestions.getD 5 ⟨[]⟩) := by
    decide
  have htext : (Service.sampleTopics.getD 3 ⟨[]⟩).HoldsText "title" "Élan vital" := ⟨rfl, by decide⟩
  have hcased : "Élan v".toList.all Text.isAsciiCased = true := rfl
  obtain ⟨hfront, hpart⟩ := hrows _ _ _ _ htopic htext (List.all_eq_true.mp hcased)
  exact ⟨starts, contains, hstarts, hcontains, hfront (by decide), hpart (by decide)⟩

/-- The demand that a text in a column of texts is found by its parts. -/
def FindsOwnText (r : Registry) (root path s : String) : Prop :=
  ∀ target, r.resolve root path = .ok target → target.kind = .text → ∀ db row v,
    ∀ last ∈ reached db target.hops row, last.get target.column = .text v →
      (s.toList <+: v.toList → ∃ c, Predicate.ofSent r root path ("^" ++ s) = .ok c ∧ selects db root c row = true)
      ∧ (s.toList <:+: v.toList →
        ∃ c, Predicate.ofSent r root path ("$" ++ s) = .ok c ∧ selects db root c row = true)

/-- The sixth question of the sample is not found by the first word of its title. -/
theorem not_findsOwnText :
    ¬ ∀ (r : Registry) (root path s : String), s.utf8ByteSize ≤ 9999 → FindsOwnText r root path s := by
  intro h
  have htitle : (Service.sampleQuestions.getD 5 ⟨[]⟩).get "title" = .text "Où est l'été?" := rfl
  obtain ⟨c, hc, hfound⟩ := (h Service.registry "questions" "title" "Où" (by decide) _ rfl rfl
    Service.sampleDatabase (Service.sampleQuestions.getD 5 ⟨[]⟩) _ _ (List.mem_singleton.mpr rfl) htitle).1 (by decide)
  cases hc
  exact Bool.false_ne_true hfound

end SchemaSearch
