import SchemaSearch.Proofs.Query.Lexemes
import SchemaSearch.Proofs.Search.References

/-!
# What queries are written from

Every printer of the query language writes words of the vocabulary between the names of its columns and tables,
its values and its numbers.  So whoever reads the text of a query finds the names that the query refers to,
whatever its values are.

Main statement: a query is written with the names that it refers to and no others (`Select.exists_written`).
-/

namespace SchemaSearch.Query

/-! ## Columns, values and tests -/

/-- The names of a column are as demanded. -/
def Column.Named (names : String → Prop) (c : Column) : Prop := names c.table ∧ names c.name

section Tests

variable {names : String → Prop}

theorem Column.exists_written {c : Column} (h : c.Named names) : ∃ tokens, Written names c.sql tokens :=
  ⟨_, (Written.name h.1).between (by decide) (.name h.2)⟩

theorem Literal.exists_written (names : String → Prop) (v : Literal) :
    ∃ tokens, Written names v.sql tokens := by
  cases v with
  | text s => exact ⟨_, .value s⟩
  | boolean b => cases b <;> exact ⟨_, .word (by decide)⟩
  | integer n => exact ⟨_, .number n⟩
  | uuid u => exact ⟨_, .value u.toText⟩
  | dateTime m => exact ⟨_, .value m.literalText⟩
  | date m => exact ⟨_, .value m.dateText⟩

theorem Operand.exists_written {operand : Operand} (h : operand.base.Named names) :
    ∃ tokens, Written names operand.sql tokens := by
  obtain ⟨tokens, hbase⟩ := Column.exists_written h
  cases operand with
  | column c => exact ⟨_, hbase⟩
  | castToText c => exact ⟨_, (Written.after (by decide) hbase).before (by decide)⟩

/-- Values with commas between them. -/
theorem exists_written_values (names : String → Prop) : ∀ values : List Literal, values ≠ [] →
    ∃ tokens, Written names (", ".intercalate (values.map Literal.sql)) tokens
  | [v], _ => by
    rw [List.map_singleton, String.intercalate_singleton]
    exact v.exists_written names
  | v :: next :: values, _ => by
    obtain ⟨first, hfirst⟩ := v.exists_written names
    obtain ⟨rest, hrest⟩ := exists_written_values names (next :: values) (List.cons_ne_nil _ _)
    rw [List.map_cons, List.map_cons, String.intercalate_cons_cons]
    exact ⟨_, hfirst.between (by decide) hrest⟩

theorem exists_written_membership {operand : String} {tokens : List Token}
    (h : Written names operand tokens) (values : List Literal) :
    ∃ tokens, Written names (membershipSql operand values) tokens := by
  cases values with
  | nil => exact ⟨_, .word (w := "1 = 2") (by decide)⟩
  | cons v values =>
    obtain ⟨inner, hinner⟩ := exists_written_values names (v :: values) (List.cons_ne_nil _ _)
    exact ⟨_, (h.between (by decide) hinner).before (by decide)⟩

theorem Test.exists_written {t : Test} (h : t.column.Named names) : ∃ tokens, Written names t.sql tokens := by
  cases t with
  | isNull c | isNotNull c =>
    obtain ⟨column, hcolumn⟩ := Column.exists_written h
    exact ⟨_, hcolumn.before (by decide)⟩
  | equals c v | atLeast c v | atMost c v =>
    obtain ⟨column, hcolumn⟩ := Column.exists_written h
    obtain ⟨value, hvalue⟩ := v.exists_written names
    exact ⟨_, hcolumn.between (by decide) hvalue⟩
  | matchesPattern operand pattern =>
    obtain ⟨tokens, hoperand⟩ := Operand.exists_written h
    exact ⟨_, (((Written.after (by decide) hoperand).between (by decide) (.value pattern)).between
      (by decide) (.value "\\"))⟩
  | oneOf operand values =>
    obtain ⟨tokens, hoperand⟩ := Operand.exists_written h
    exact exists_written_membership hoperand values
  | between c low high =>
    obtain ⟨column, hcolumn⟩ := Column.exists_written h
    obtain ⟨lower, hlow⟩ := low.exists_written names
    obtain ⟨upper, hhigh⟩ := high.exists_written names
    exact ⟨_, (hcolumn.between (by decide) hlow).between (by decide) hhigh⟩

end Tests

/-! ## Phrases -/

namespace Phrase

/-- A phrase whose text is written with names as demanded. -/
def IsWritten (names : String → Prop) (p : Phrase) : Prop := ∃ tokens, Written names p.text tokens

variable {names : String → Prop} {p q : Phrase}

theorem IsWritten.operand (h : p.IsWritten names) (bare : Bool) :
    ∃ tokens, Written names (p.operand bare) tokens := by
  obtain ⟨tokens, hp⟩ := h
  cases bare with
  | true => exact ⟨_, hp⟩
  | false => exact ⟨_, (Written.after (by decide) hp).before (by decide)⟩

theorem written_word (joint : Joint) : Written names joint.word [.word joint.word] :=
  .word (by cases joint <;> decide)

theorem IsWritten.join (hp : p.IsWritten names) (hq : q.IsWritten names) (joint : Joint) :
    (join joint p q).IsWritten names := by
  obtain ⟨left, hleft⟩ := hp.operand (p.form.isBare || p.form == .joined joint)
  obtain ⟨right, hright⟩ := hq.operand q.form.isBare
  exact ⟨_, (hleft.between (by decide) (written_word joint)).between (by decide) hright⟩

theorem IsWritten.negate (h : p.IsWritten names) : p.negate.IsWritten names := by
  obtain ⟨tokens, hp⟩ := h.operand p.form.isBare
  exact ⟨_, .after (by decide) hp⟩

theorem isWritten_foldl (joint : Joint) {ps : List Phrase} (hp : p.IsWritten names)
    (hps : ∀ q ∈ ps, q.IsWritten names) : (ps.foldl (join joint) p).IsWritten names := by
  induction ps generalizing p with
  | nil => exact hp
  | cons q ps ih =>
    exact ih (hp.join (hps q List.mem_cons_self) joint) fun other hother =>
      hps other (List.mem_cons_of_mem _ hother)

theorem isWritten_joinAll (joint : Joint) {ps : List Phrase} (hps : ∀ p ∈ ps, p.IsWritten names) :
    (joinAll joint ps).IsWritten names := by
  cases ps with
  | nil => cases joint <;> exact ⟨_, .word (by decide)⟩
  | cons p ps =>
    exact isWritten_foldl joint (hps p List.mem_cons_self) fun q hq => hps q (List.mem_cons_of_mem _ hq)

end Phrase

/-! ## Conditions -/

namespace Condition

variable {names : String → Prop}

mutual

/-- A condition is written with the names of its columns. -/
theorem isWritten_phrase : ∀ {c : Condition}, (∀ column ∈ c.columns, column.Named names) →
    c.phrase.IsWritten names
  | .test t, h => Test.exists_written (h t.column (List.mem_singleton_self _))
  | .within column negated key rows, h => by
    obtain ⟨left, hleft⟩ := Column.exists_written (h column List.mem_cons_self)
    obtain ⟨right, hright⟩ := Column.exists_written (h key (List.mem_cons_of_mem _ List.mem_cons_self))
    have htable := (h key (List.mem_cons_of_mem _ List.mem_cons_self)).1
    obtain ⟨inner, hinner⟩ := isWritten_phrase fun other hother =>
      h other (List.mem_cons_of_mem _ (List.mem_cons_of_mem _ hother))
    have hin : (if negated then " NOT IN (" else " IN (") ∈ vocabulary := by cases negated <;> decide
    exact ⟨_, ((((hleft.before hin).between (by decide) hright).between (by decide) (.name htable)).between
      (by decide) hinner).before (by decide)⟩
  | .group joint negated items, h => by
    have hjoined := Phrase.isWritten_joinAll joint (isWritten_phrases h)
    rw [phrase]
    cases negated with
    | true => exact hjoined.negate
    | false => exact hjoined

theorem isWritten_phrases : ∀ {cs : List Condition},
    (∀ column ∈ gatherAll (fun t => [t.column]) (fun column key => [column, key]) cs, column.Named names) →
    ∀ p ∈ phrases cs, p.IsWritten names
  | [], _ => by simp [phrases]
  | c :: cs, h => by
    rw [gatherAll] at h
    intro p hp
    rw [phrases] at hp
    rcases List.mem_cons.mp hp with rfl | hp
    · exact isWritten_phrase fun column hcolumn => h column (List.mem_append_left _ hcolumn)
    · exact isWritten_phrases (fun column hcolumn => h column (List.mem_append_right _ hcolumn)) p hp

end

end Condition

/-! ## Sort keys and queries -/

/-- The names of a source are as demanded. -/
structure Source.Named (names : String → Prop) (s : Source) : Prop where
  table : names s.table
  tableAlias : names s.tableAlias
  left : s.left.Named names
  right : s.right.Named names

/-- The names of a sort key are as demanded. -/
def SortKey.Named (names : String → Prop) : SortKey → Prop
  | .column c => c.Named names
  | .related _ value sources => value.Named names ∧ ∀ s ∈ sources, s.Named names

section Keys

variable {names : String → Prop}

theorem Source.exists_written_tie {s : Source} (h : s.Named names) : ∃ tokens, Written names s.tie tokens := by
  obtain ⟨left, hleft⟩ := Column.exists_written h.left
  obtain ⟨right, hright⟩ := Column.exists_written h.right
  exact ⟨_, hleft.between (by decide) hright⟩

theorem Source.written_named {s : Source} (h : s.Named names) :
    Written names s.named [.quoted .name s.table, .word " AS ", .quoted .name s.tableAlias] :=
  (Written.name h.table).between (by decide) (.name h.tableAlias)

/-- A text that is followed by more sources. -/
theorem exists_written_joins {a : String} {sources : List Source} (ha : ∃ tokens, Written names a tokens)
    (h : ∀ s ∈ sources, s.Named names) :
    ∃ tokens, Written names
      (a ++ String.join (sources.map fun s => " INNER JOIN " ++ s.named ++ " ON " ++ s.tie)) tokens := by
  induction sources generalizing a with
  | nil =>
    rw [List.map_nil, String.join_nil, String.append_empty]
    exact ha
  | cons s sources ih =>
    have hs := h s List.mem_cons_self
    obtain ⟨tokens, ha⟩ := ha
    obtain ⟨tie, htie⟩ := Source.exists_written_tie hs
    rw [List.map_cons, String.join_cons, ← String.append_assoc, ← String.append_assoc, ← String.append_assoc,
      ← String.append_assoc]
    exact ih ⟨_, (ha.between (by decide) (Source.written_named hs)).between (by decide) htie⟩
      fun other hother => h other (List.mem_cons_of_mem _ hother)

theorem SortKey.exists_written {key : SortKey} (h : key.Named names) :
    ∃ tokens, Written names key.sql tokens := by
  cases key with
  | column c => exact Column.exists_written h
  | related extreme value sources =>
    obtain ⟨hvalue, hsources⟩ := h
    obtain ⟨column, hcolumn⟩ := Column.exists_written hvalue
    have hword : Written names extreme.word [.word extreme.word] := .word (by cases extreme <;> decide)
    have hstart := (Written.after (w := "(SELECT ") (by decide) hword).between (w := "(") (by decide) hcolumn
    cases sources with
    | nil => exact ⟨_, hstart.before (by decide)⟩
    | cons first rest =>
      have hfirst := hsources first List.mem_cons_self
      obtain ⟨tie, htie⟩ := Source.exists_written_tie hfirst
      obtain ⟨joined, hjoined⟩ := exists_written_joins
        ⟨_, hstart.between (w := ") FROM ") (by decide) (Source.written_named hfirst)⟩
        fun s hs => hsources s (List.mem_cons_of_mem _ hs)
      exact ⟨_, (hjoined.between (by decide) htie).before (by decide)⟩

/-- Whether a text may follow any other. -/
def IsFree (tokens : List Token) : Prop := ∀ next ∈ tokens.head?, next.isQuoted = false

theorem exists_written_condition {condition : Option Condition}
    (h : ∀ c ∈ condition, ∀ column ∈ c.columns, column.Named names) :
    ∃ tokens, Written names (match condition with
      | some c => " WHERE " ++ c.sql
      | none => "") tokens ∧ IsFree tokens := by
  cases condition with
  | none => exact ⟨[], .nothing, by simp [IsFree]⟩
  | some c =>
    obtain ⟨tokens, hc⟩ := Condition.isWritten_phrase (h c rfl)
    exact ⟨_, .after (by decide) hc, fun _ hnext => Option.some.inj hnext ▸ rfl⟩

theorem exists_written_order {order : Option (SortKey × Direction)} (h : ∀ o ∈ order, o.1.Named names) :
    ∃ tokens, Written names (match order with
      | some (key, direction) => " ORDER BY " ++ key.sql ++ " " ++ direction.word
      | none => "") tokens ∧ IsFree tokens := by
  cases order with
  | none => exact ⟨[], .nothing, by simp [IsFree]⟩
  | some o =>
    obtain ⟨key, direction⟩ := o
    obtain ⟨tokens, hkey⟩ := SortKey.exists_written (h _ rfl)
    have hword : Written names direction.word [.word direction.word] :=
      .word (by cases direction <;> decide)
    exact ⟨_, (Written.after (by decide) hkey).between (by decide) hword,
      fun _ hnext => Option.some.inj hnext ▸ rfl⟩

theorem exists_written_window (names : String → Prop) (window : Option Window) :
    ∃ tokens, Written names (match window with
      | some w => " LIMIT " ++ toString w.limit ++ " OFFSET " ++ toString w.offset
      | none => "") tokens ∧ IsFree tokens := by
  cases window with
  | none => exact ⟨[], .nothing, by simp [IsFree]⟩
  | some w =>
    have hlimit : Written names (toString w.limit) [.number w.limit] := .number w.limit
    have hoffset : Written names (toString w.offset) [.number w.offset] := .number w.offset
    exact ⟨_, (Written.after (by decide) hlimit).between (by decide) hoffset,
      fun _ hnext => Option.some.inj hnext ▸ rfl⟩

/-- A query is written with the names that it refers to. -/
theorem Select.exists_written {q : Select} (htable : names q.table)
    (hcondition : ∀ c ∈ q.condition, ∀ column ∈ c.columns, column.Named names)
    (horder : ∀ o ∈ q.order, o.1.Named names) : ∃ tokens, Written names q.sql tokens := by
  obtain ⟨condition, hc, hcfree⟩ := exists_written_condition hcondition
  obtain ⟨order, ho, hofree⟩ := exists_written_order horder
  obtain ⟨window, hw, hwfree⟩ := exists_written_window names q.window
  have htable : Written names ("SELECT * FROM " ++ sqlName q.table) _ := .after (by decide) (.name htable)
  exact ⟨_, ((htable.follow hc hcfree).follow ho hofree).follow hw hwfree⟩

end Keys

end SchemaSearch.Query
