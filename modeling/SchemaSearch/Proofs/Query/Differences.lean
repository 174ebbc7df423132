import SchemaSearch.Proofs.Apart
import SchemaSearch.Proofs.Query.Writing

/-!
# Queries that differ in one value

What is written around a value does not depend on it: neither the parentheses nor the words and names.  Two
conditions that differ in the pattern of one test, at any depth, are written alike but for that pattern, and so
are the queries that they are the conditions of.

Main statement: a reader of two such queries sees nothing differ but the one value (`Select.differ` with
`Differ.lexemes_apart`).
-/

namespace SchemaSearch.Query

/-! ## One value apart -/

/-- Any name will do. -/
abbrev AnyName (_ : String) : Prop := True

/-- Two texts that are written alike but for one value. -/
def Differ (value value' : String) (a a' : String) : Prop :=
  ∃ before after, Written AnyName a (before ++ .quoted .value value :: after)
    ∧ Written AnyName a' (before ++ .quoted .value value' :: after)

namespace Differ

variable {value value' a a' b w : String} {xs : List Token}

/-- The one value is all that a reader of the two texts sees differ. -/
theorem lexemes_apart (h : Differ value value' a a') :
    OneApart (fun l l' => l = .quoted .value value ∧ l' = .quoted .value value') (lexemes a) (lexemes a') := by
  obtain ⟨before, after, h, h'⟩ := h
  rw [h.read, h'.read, List.flatMap_append, List.flatMap_append]
  exact .append_left _ (.head ⟨rfl, rfl⟩ _)

theorem follow (h : Differ value value' a a') (hb : Written AnyName b xs)
    (hfree : ∀ next ∈ xs.head?, next.isQuoted = false) : Differ value value' (a ++ b) (a' ++ b) := by
  obtain ⟨before, after, h, h'⟩ := h
  refine ⟨before, after ++ xs, ?_, ?_⟩
  · simpa only [List.append_assoc, List.cons_append] using h.follow hb hfree
  · simpa only [List.append_assoc, List.cons_append] using h'.follow hb hfree

theorem before (h : Differ value value' a a') (hw : w ∈ vocabulary) : Differ value value' (a ++ w) (a' ++ w) :=
  h.follow (.word hw) fun _ hnext => Option.some.inj hnext ▸ rfl

theorem after (hw : w ∈ vocabulary) (h : Differ value value' a a') :
    Differ value value' (w ++ a) (w ++ a') := by
  obtain ⟨before, after, h, h'⟩ := h
  exact ⟨.word w :: before, after, .after hw h, .after hw h'⟩

theorem between_left (h : Differ value value' a a') (hw : w ∈ vocabulary)
    (hb : Written AnyName b xs) : Differ value value' (a ++ w ++ b) (a' ++ w ++ b) := by
  rw [String.append_assoc, String.append_assoc]
  exact h.follow (.after hw hb) fun _ hnext => Option.some.inj hnext ▸ rfl

theorem between_right (hb : Written AnyName b xs) (hw : w ∈ vocabulary)
    (h : Differ value value' a a') : Differ value value' (b ++ w ++ a) (b ++ w ++ a') := by
  obtain ⟨before, after, h, h'⟩ := h
  refine ⟨xs ++ .word w :: before, after, ?_, ?_⟩
  · simpa only [List.append_assoc, List.cons_append] using hb.between hw h
  · simpa only [List.append_assoc, List.cons_append] using hb.between hw h'

end Differ

/-! ## Phrases that differ in a value -/

namespace Phrase

/-- Two phrases of one form that are written alike but for one value. -/
structure Differ (value value' : String) (p p' : Phrase) : Prop where
  form : p.form = p'.form
  text : Query.Differ value value' p.text p'.text

variable {value value' : String} {p p' q : Phrase}

theorem Differ.operand (h : p.Differ value value' p') (bare : Bool) :
    Query.Differ value value' (p.operand bare) (p'.operand bare) := by
  cases bare with
  | true => exact h.text
  | false => exact .before (.after (by decide) h.text) (by decide)

theorem Differ.join_left (h : p.Differ value value' p') (hq : q.IsWritten AnyName) (joint : Joint) :
    (join joint p q).Differ value value' (join joint p' q) := by
  obtain ⟨right, hright⟩ := hq.operand q.form.isBare
  refine ⟨rfl, ?_⟩
  rw [join, join, ← h.form]
  exact ((h.operand _).between_left (by decide) (written_word joint)).between_left (by decide) hright

theorem Differ.join_right (hq : q.IsWritten AnyName) (h : p.Differ value value' p') (joint : Joint) :
    (join joint q p).Differ value value' (join joint q p') := by
  obtain ⟨left, hleft⟩ := hq.operand (q.form.isBare || q.form == .joined joint)
  refine ⟨rfl, ?_⟩
  rw [join, join, ← h.form]
  exact .between_right (hleft.between (by decide) (written_word joint)) (by decide) (h.operand _)

theorem Differ.negate (h : p.Differ value value' p') : p.negate.Differ value value' p'.negate := by
  refine ⟨rfl, ?_⟩
  rw [Phrase.negate, Phrase.negate, ← h.form]
  exact .after (by decide) (h.operand _)

theorem Differ.foldl (h : p.Differ value value' p') (joint : Joint) {ps : List Phrase}
    (hps : ∀ q ∈ ps, q.IsWritten AnyName) :
    (ps.foldl (join joint) p).Differ value value' (ps.foldl (join joint) p') := by
  induction ps generalizing p p' with
  | nil => exact h
  | cons q ps ih =>
    exact ih (h.join_left (hps q List.mem_cons_self) joint) fun other hother =>
      hps other (List.mem_cons_of_mem _ hother)

theorem differ_foldl {ps ps' : List Phrase} (h : OneApart (Differ value value') ps ps') (joint : Joint)
    (hps : ∀ q ∈ ps, q.IsWritten AnyName) (hq : q.IsWritten AnyName) :
    (ps.foldl (join joint) q).Differ value value' (ps'.foldl (join joint) q) := by
  induction h generalizing q with
  | head h rest =>
    exact (Differ.join_right hq h joint).foldl joint fun other hother =>
      hps other (List.mem_cons_of_mem _ hother)
  | tail p _ ih =>
    exact ih (fun other hother => hps other (List.mem_cons_of_mem _ hother))
      (hq.join (hps p List.mem_cons_self) joint)

theorem differ_joinAll {ps ps' : List Phrase} (h : OneApart (Differ value value') ps ps') (joint : Joint)
    (hps : ∀ q ∈ ps, q.IsWritten AnyName) :
    (joinAll joint ps).Differ value value' (joinAll joint ps') := by
  cases h with
  | head h rest => exact h.foldl joint fun other hother => hps other (List.mem_cons_of_mem _ hother)
  | tail p h =>
    exact differ_foldl h joint (fun other hother => hps other (List.mem_cons_of_mem _ hother))
      (hps p List.mem_cons_self)

end Phrase

theorem Column.written_any (c : Column) : ∃ tokens, Written AnyName c.sql tokens :=
  Column.exists_written ⟨trivial, trivial⟩

theorem Operand.written_any (operand : Operand) : ∃ tokens, Written AnyName operand.sql tokens :=
  Operand.exists_written ⟨trivial, trivial⟩

theorem SortKey.named_any (key : SortKey) : key.Named AnyName := by
  cases key with
  | column c => exact ⟨trivial, trivial⟩
  | related extreme value sources =>
    exact ⟨⟨trivial, trivial⟩, fun _ _ => ⟨trivial, trivial, ⟨trivial, trivial⟩, trivial, trivial⟩⟩

/-! ## Conditions that differ in a pattern -/

namespace Condition

/-- Two conditions that differ in the pattern of one test. -/
inductive Swap (pattern pattern' : String) : Condition → Condition → Prop
  | test (operand : Operand) :
    Swap pattern pattern' (.test (.matchesPattern operand pattern)) (.test (.matchesPattern operand pattern'))
  | within (column : Column) (negated : Bool) (key : Column) {rows rows' : Condition}
    (h : Swap pattern pattern' rows rows') :
    Swap pattern pattern' (.within column negated key rows) (.within column negated key rows')
  | group (joint : Joint) (negated : Bool) (before after : List Condition) {c c' : Condition}
    (h : Swap pattern pattern' c c') :
    Swap pattern pattern' (.group joint negated (before ++ c :: after))
      (.group joint negated (before ++ c' :: after))

theorem isWritten_any (c : Condition) : c.phrase.IsWritten AnyName :=
  isWritten_phrase fun _ _ => ⟨trivial, trivial⟩

theorem phrases_eq_map (cs : List Condition) : phrases cs = cs.map phrase := by
  induction cs with
  | nil => rfl
  | cons c cs ih => rw [phrases, ih, List.map_cons]

/-- Conditions that differ in a pattern are written alike but for it. -/
theorem Swap.differ {pattern pattern' : String} {c c' : Condition} (h : Swap pattern pattern' c c') :
    c.phrase.Differ pattern pattern' c'.phrase := by
  induction h with
  | test operand =>
    obtain ⟨tokens, hoperand⟩ := operand.written_any
    have hvalue : Query.Differ pattern pattern' (sqlText pattern) (sqlText pattern') :=
      ⟨[], [], .value pattern, .value pattern'⟩
    exact ⟨rfl, (Query.Differ.between_right ((Written.after (by decide) hoperand)) (by decide)
      hvalue).between_left (by decide) (.value "\\")⟩
  | within column negated key h ih =>
    obtain ⟨left, hleft⟩ := column.written_any
    obtain ⟨right, hright⟩ := key.written_any
    have hin : (if negated then " NOT IN (" else " IN (") ∈ vocabulary := by cases negated <;> decide
    have hfront := (((hleft.before hin).between (w := "SELECT ") (by decide) hright).between (w := " FROM ")
      (by decide) (.name (a := key.table) trivial))
    exact ⟨rfl, (Query.Differ.between_right hfront (by decide) ih.text).before (by decide)⟩
  | @group joint negated before after c c' h ih =>
    have hparts : OneApart (Phrase.Differ pattern pattern') (phrases (before ++ c :: after))
        (phrases (before ++ c' :: after)) := by
      rw [phrases_eq_map, phrases_eq_map, List.map_append, List.map_append]
      exact .append_left _ (.head ih _)
    have hwritten : ∀ q ∈ phrases (before ++ c :: after), q.IsWritten AnyName := by
      intro q hq
      rw [phrases_eq_map] at hq
      obtain ⟨part, _, rfl⟩ := List.mem_map.mp hq
      exact isWritten_any part
    have hjoined := Phrase.differ_joinAll hparts joint hwritten
    rw [phrase, phrase]
    cases negated with
    | true => exact hjoined.negate
    | false => exact hjoined

end Condition

/-- Queries whose conditions differ in a pattern are written alike but for it. -/
theorem Select.differ {pattern pattern' : String} {q q' : Select} (htable : q.table = q'.table)
    (horder : q.order = q'.order) (hwindow : q.window = q'.window) {c c' : Condition}
    (hc : q.condition = some c) (hc' : q'.condition = some c') (h : c.Swap pattern pattern' c') :
    Differ pattern pattern' q.sql q'.sql := by
  have hkeys : ∀ o ∈ q.order, o.1.Named AnyName := fun o _ => o.1.named_any
  obtain ⟨order, ho, hofree⟩ := exists_written_order hkeys
  obtain ⟨window, hw, hwfree⟩ := exists_written_window AnyName q.window
  have hfront : Written AnyName ("SELECT * FROM " ++ sqlName q.table) _ :=
    .after (by decide) (.name trivial)
  unfold Select.sql
  rw [← htable, ← horder, ← hwindow, hc, hc']
  dsimp only
  rw [← String.append_assoc, ← String.append_assoc]
  exact ((Differ.between_right hfront (by decide) h.differ.text).follow ho hofree).follow hw hwfree

end SchemaSearch.Query
