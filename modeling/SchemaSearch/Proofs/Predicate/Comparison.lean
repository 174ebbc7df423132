import SchemaSearch.Predicate.Compile
import SchemaSearch.Proofs.Outcome
import SchemaSearch.Proofs.Store.Groups

/-!
# Comparisons

What a lookup asks of a stored value, said without conditions.  Boolean, UUID, integer and text fields
compare whole values where the text of a lookup stands for one; everything else compares the text form
with a pattern or a list; bounds compare the stored text of moments.  Floating-point numbers are no stored
values here, so fields of kind `float` are read as columns of other values.

Main statement: the test on the last column of a path is known on every row, and holds where the value
passes the lookup (`truth_leafCondition`).
-/

namespace SchemaSearch

open Query Schema Store

/-! ## Whole values and text forms -/

/-- The value that a text stands for as a whole, for fields whose values are compared as such. -/
def Schema.FieldKind.wholeValue? (kind : FieldKind) (s : String) : Option Value :=
  match kind with
  | .boolean => (classifyBoolean s).map fun b => .integer (if b then 1 else 0)
  | .uuid => (Uuid.read s).map fun u => .blob u.bytes
  | .integer => (Decimal.readSigned (Text.trim s.toList)).map .integer
  | .text => some (.text s)
  | .dateTime | .date | .float | .other => none

/-- The stored form of a moment in a field of a kind. -/
def Schema.FieldKind.storedMoment (kind : FieldKind) (m : Moment) : Value :=
  match kind with
  | .date => .text m.dateText
  | _ => .text m.storedText

/-- Whether the text form of a value, in upper case, matches a pattern. -/
def Store.Value.isLike (v : Value) (pattern : String) : Bool :=
  v.codePoints.any fun text => Pattern.isLike (text.map CodePoint.toUpper) pattern

/-! ## Lookups -/

namespace Lookup

/-- Whether a value that is not NULL passes the comparison of a lookup on a field of a kind. -/
def compares (kind : FieldKind) (v : Value) : Lookup → Bool
  | .startsWith s =>
    match kind with
    | .boolean => kind.wholeValue? s == some v
    | .uuid =>
      match kind.wholeValue? s with
      | some whole => v == whole
      | none => v.isLike (startPattern s)
    | _ => v.isLike (startPattern s)
  | .contains s =>
    match kind with
    | .boolean => kind.wholeValue? s == some v
    | _ => v.isLike (containsPattern s)
  | .oneOf values =>
    match kind with
    | .boolean | .uuid | .integer | .text => values.any fun s => kind.wholeValue? s == some v
    | .dateTime | .date | .float | .other => values.any fun s => v.textForm == some s
  | .range start finish =>
    (kind.storedMoment start).sortsBefore v && v.sortsBefore (kind.storedMoment finish)
  | .atLeast start => (kind.storedMoment start).sortsBefore v
  | .atMost finish => v.sortsBefore (kind.storedMoment finish)
  | .isNull expected => !expected

/-- Whether a value passes a lookup on a field of a kind.  NULL passes nothing but the lookup that asks
for it. -/
def accepts (kind : FieldKind) (v : Value) : Lookup → Bool
  | .isNull expected => (v == .null) == expected
  | lookup => v != .null && lookup.compares kind v

end Lookup

/-! ## Whole values -/

theorem ofLiteral_ne_null (l : Literal) : Value.ofLiteral l ≠ .null := by
  cases l <;> simp [Value.ofLiteral]

theorem castToText_ne_null {v : Value} (hv : v ≠ .null) : v.castToText ≠ .null := by
  unfold Value.castToText
  split
  · exact nofun
  · exact hv

/-- The text form of a value is that of its cast. -/
theorem castToText_beq_text (v : Value) (s : String) :
    (v.castToText == .text s) = (v.textForm == some s) := by
  unfold Value.castToText
  cases hform : v.textForm with
  | none =>
    have hne : v ≠ .text s := by
      rintro rfl
      cases hform
    exact beq_false_of_ne hne
  | some t =>
    rw [Bool.eq_iff_iff]
    simp

theorem beq_of_wholeValue? {kind : FieldKind} {s : String} {w : Value}
    (h : kind.wholeValue? s = some w) (v : Value) : (v == w) = (kind.wholeValue? s == some v) := by
  rw [h, Bool.eq_iff_iff, beq_iff_eq, beq_iff_eq, Option.some.injEq]
  exact eq_comm

section Parsers

variable {path s : String}

theorem wholeValue?_of_parseBoolean {b : Bool} (h : parseBoolean path s = .ok b) :
    FieldKind.boolean.wholeValue? s = some (.ofLiteral (.boolean b)) := by
  unfold parseBoolean at h
  split at h
  · rename_i token htoken
    cases h
    rw [FieldKind.wholeValue?, htoken]
    rfl
  · cases h

theorem wholeValue?_of_parseUuid {u : Uuid} (h : parseUuid path s = .ok u) :
    FieldKind.uuid.wholeValue? s = some (.ofLiteral (.uuid u)) := by
  unfold parseUuid at h
  split at h
  · rename_i found hfound
    cases h
    rw [FieldKind.wholeValue?, hfound]
    rfl
  · cases h

theorem wholeValue?_of_parseInteger {n : Int} (h : parseInteger path s = .ok n) :
    FieldKind.integer.wholeValue? s = some (.ofLiteral (.integer n)) := by
  unfold parseInteger at h
  split at h
  · rename_i found hfound
    cases h
    rw [FieldKind.wholeValue?, hfound]
    rfl
  · cases h

end Parsers

/-! ## What a test asks -/

/-- A test of one column that is known on every value but NULL, and true on those that `asks` names. -/
structure Query.Test.Asks (t : Test) (c : Column) (asks : Value → Bool) : Prop where
  column : t.column = c
  truthOn : ∀ v, v ≠ .null → truthOn v t = .ofBool (asks v)

section Tests

variable {path : String} {c : Column} {kind : FieldKind} {lookup : Lookup} {t : Test}

theorem asks_congr {asks asks' : Value → Bool} (h : t.Asks c asks) (hasks : ∀ v, asks v = asks' v) :
    t.Asks c asks' :=
  ⟨h.column, fun v hv => (h.truthOn v hv).trans (congrArg Truth.ofBool (hasks v))⟩

theorem asks_equals (c : Column) (l : Literal) : (Test.equals c l).Asks c (· == .ofLiteral l) :=
  ⟨rfl, fun _ hv => Value.equals_eq_ofBool hv (ofLiteral_ne_null l)⟩

theorem asks_matchesPattern (operand : Operand) (pattern : String) :
    (Test.matchesPattern operand pattern).Asks operand.base (·.isLike pattern) := by
  refine ⟨rfl, fun v hv => ?_⟩
  cases v with
  | null => exact absurd rfl hv
  | integer n => rfl
  | text s => rfl
  | blob bytes => rfl

theorem asks_oneOf {β : Type} (operand : Operand) (f : β → Literal) (bs : List β) :
    (Test.oneOf operand (bs.map f)).Asks operand.base
      fun v => bs.any fun b => operandValue v operand == .ofLiteral (f b) := by
  refine ⟨rfl, fun v hv => ?_⟩
  have hoperand : operandValue v operand ≠ .null := by
    cases operand with
    | column c => exact hv
    | castToText c => exact castToText_ne_null hv
  show (operandValue v operand).isAmong ((bs.map f).map .ofLiteral) = _
  rw [List.map_map, Value.isAmong_eq_ofBool hoperand, List.any_map]
  · exact congrArg Truth.ofBool (congrArg bs.any (funext fun b => Value.meets_eq_beq hoperand _))
  · intro key hkey
    obtain ⟨b, _, rfl⟩ := List.mem_map.mp hkey
    exact ofLiteral_ne_null (f b)

/-- Equality with a value that was read. -/
theorem asks_read {s : String} {l : Literal} (h : kind.wholeValue? s = some (.ofLiteral l)) :
    (Test.equals c l).Asks c fun v => kind.wholeValue? s == some v :=
  asks_congr (asks_equals c l) (beq_of_wholeValue? h)

/-- Membership among values that were read. -/
theorem asks_members {β : Type} {read : String → Except SearchError β} {literal : β → Literal}
    (hread : ∀ s b, read s = .ok b → kind.wholeValue? s = some (.ofLiteral (literal b)))
    {values : List String} {bs : List β} (h : values.mapM read = .ok bs) :
    (Test.oneOf (.column c) (bs.map literal)).Asks c
      fun v => values.any fun s => kind.wholeValue? s == some v := by
  refine asks_congr (asks_oneOf (.column c) literal bs) fun v => ?_
  exact any_of_mapM (fun s b hb => beq_of_wholeValue? (hread s b hb) v) h

/-! ## Tests by kind -/

/-- What a test on text asks of a value that is shown as `shown`. -/
def Lookup.comparesText (v shown : Value) : Lookup → Bool
  | .startsWith s => v.isLike (startPattern s)
  | .contains s => v.isLike (containsPattern s)
  | .oneOf values => values.any fun s => shown == .text s
  | .isNull _ | .range _ _ | .atLeast _ | .atMost _ => false

theorem asks_patternTest {operand : Operand} (h : patternTest path operand lookup = .ok t) :
    t.Asks operand.base fun v => lookup.comparesText v (operandValue v operand) := by
  cases lookup with
  | startsWith s =>
    cases h
    exact asks_matchesPattern operand _
  | contains s =>
    cases h
    exact asks_matchesPattern operand _
  | oneOf values =>
    cases h
    exact asks_oneOf operand Literal.text values
  | isNull _ | range _ _ | atLeast _ | atMost _ => cases h

/-- A test on the text form, for kinds that read the lookup so. -/
theorem asks_castTest (path : String) (h : patternTest path (.castToText c) lookup = .ok t)
    (hkind : ∀ v, lookup.comparesText v v.castToText = lookup.compares kind v) :
    t.Asks c (lookup.compares kind) := asks_congr (asks_patternTest h) hkind

theorem members_castToText (v : Value) (values : List String) :
    (values.any fun s => v.castToText == .text s) = values.any fun s => v.textForm == some s :=
  congrArg values.any (funext fun s => castToText_beq_text v s)

theorem asks_booleanTest (h : booleanTest path c lookup = .ok t) :
    t.Asks c (lookup.compares .boolean) := by
  cases lookup with
  | startsWith s | contains s =>
    obtain ⟨b, hb, ht⟩ := bind_eq_ok h
    cases ht
    exact asks_read (wholeValue?_of_parseBoolean hb)
  | oneOf values =>
    obtain ⟨bs, hbs, ht⟩ := bind_eq_ok h
    cases ht
    exact asks_members (fun _ _ => wholeValue?_of_parseBoolean) hbs
  | isNull _ | range _ _ | atLeast _ | atMost _ => cases h

theorem asks_temporalTest (hkind : kind = .dateTime ∨ kind = .date) {bound : Moment → Literal}
    (hbound : ∀ m, Value.ofLiteral (bound m) = kind.storedMoment m)
    (h : temporalTest path bound c lookup = .ok t) : t.Asks c (lookup.compares kind) := by
  have hlow : ∀ m (v : Value), v ≠ .null → (Value.ofLiteral (bound m)).atMost v
      = .ofBool ((kind.storedMoment m).sortsBefore v) := by
    intro m v hv
    rw [Value.atMost, Value.compareBy_eq_ofBool _ (ofLiteral_ne_null _) hv, hbound]
  have hhigh : ∀ m (v : Value), v ≠ .null → v.atMost (.ofLiteral (bound m))
      = .ofBool (v.sortsBefore (kind.storedMoment m)) := by
    intro m v hv
    rw [Value.atMost, Value.compareBy_eq_ofBool _ hv (ofLiteral_ne_null _), hbound]
  cases lookup with
  | range start finish =>
    cases h
    refine ⟨rfl, fun v hv => ?_⟩
    show ((Value.ofLiteral (bound start)).atMost v).and (v.atMost (.ofLiteral (bound finish))) = _
    rw [hlow start v hv, hhigh finish v hv, Truth.and_ofBool]
    rfl
  | atLeast start =>
    cases h
    exact ⟨rfl, hlow start⟩
  | atMost finish =>
    cases h
    exact ⟨rfl, hhigh finish⟩
  | startsWith s | contains s =>
    refine asks_castTest path h ?_
    rcases hkind with rfl | rfl <;> exact fun v => rfl
  | oneOf values =>
    refine asks_castTest path h ?_
    rcases hkind with rfl | rfl <;> exact fun v => members_castToText v values
  | isNull _ => cases h

theorem asks_uuidTest (h : uuidTest path c lookup = .ok t) : t.Asks c (lookup.compares .uuid) := by
  cases lookup with
  | startsWith s =>
    simp only [uuidTest] at h
    -- a whole UUID is compared as a value, any other text as a pattern
    split at h
    · rename_i u hu
      cases h
      refine asks_congr (asks_equals c _) fun v => ?_
      simp only [Lookup.compares, FieldKind.wholeValue?, hu, Option.map_some, Value.ofLiteral]
    · rename_i hu
      refine asks_congr (asks_patternTest h) fun v => ?_
      simp only [Lookup.compares, Lookup.comparesText, FieldKind.wholeValue?, hu, Option.map_none]
  | contains s => exact asks_castTest path h fun v => rfl
  | oneOf values =>
    obtain ⟨us, hus, ht⟩ := bind_eq_ok h
    cases ht
    exact asks_members (fun _ _ => wholeValue?_of_parseUuid) hus
  | isNull _ | range _ _ | atLeast _ | atMost _ => cases h

theorem asks_integerTest (h : integerTest path c lookup = .ok t) :
    t.Asks c (lookup.compares .integer) := by
  cases lookup with
  | startsWith s | contains s => exact asks_castTest path h fun v => rfl
  | oneOf values =>
    obtain ⟨ns, hns, ht⟩ := bind_eq_ok h
    cases ht
    exact asks_members (fun _ _ => wholeValue?_of_parseInteger) hns
  | isNull _ | range _ _ | atLeast _ | atMost _ => cases h

theorem asks_textTest (h : patternTest path (.column c) lookup = .ok t) :
    t.Asks c (lookup.compares .text) := by
  refine asks_congr (asks_patternTest h) fun v => ?_
  cases lookup with
  | startsWith s | contains s => rfl
  | oneOf values => exact congrArg values.any (funext fun s => beq_of_wholeValue? rfl v)
  | isNull _ | range _ _ | atLeast _ | atMost _ => cases h

/-- Fields without values of their own are compared through their text form. -/
theorem asks_plainTest (hkind : kind = .float ∨ kind = .other)
    (h : patternTest path (.castToText c) lookup = .ok t) : t.Asks c (lookup.compares kind) := by
  refine asks_castTest path h fun v => ?_
  cases lookup with
  | startsWith s | contains s => rcases hkind with rfl | rfl <;> rfl
  | oneOf values => rcases hkind with rfl | rfl <;> exact members_castToText v values
  | isNull _ | range _ _ | atLeast _ | atMost _ => cases h

/-- The test of a comparison asks what the lookup compares. -/
theorem asks_leafTest (h : leafTest path kind c lookup = .ok t) (hlookup : lookup.isAboutNull = false) :
    t.Asks c (lookup.compares kind) := by
  cases lookup with
  | isNull expected => cases hlookup
  | _ =>
    -- a comparison is read by the kind of its field alone
    simp only [leafTest] at h
    cases kind with
    | boolean => exact asks_booleanTest h
    | dateTime => exact asks_temporalTest (.inl rfl) (fun _ => rfl) h
    | date => exact asks_temporalTest (.inr rfl) (fun _ => rfl) h
    | text => exact asks_textTest h
    | uuid => exact asks_uuidTest h
    | integer => exact asks_integerTest h
    | float => exact asks_plainTest (.inl rfl) h
    | other => exact asks_plainTest (.inr rfl) h

end Tests

/-! ## The condition on the last table -/

section Leaf

variable {path : String} {target : Target} {lookup : Lookup} {cond : Condition}

/-- A lookup about NULL makes one test. -/
theorem leafCondition_isNull (path : String) (target : Target) (expected : Bool) :
    leafCondition path target (.isNull expected)
      = .ok (.all [.test (if expected then .isNull ⟨target.table, target.column⟩
          else .isNotNull ⟨target.table, target.column⟩)]) := by
  cases expected <;> rfl

/-- A comparison also demands that its column is not NULL. -/
theorem leafCondition_comparison (hlookup : lookup.isAboutNull = false)
    (h : leafCondition path target lookup = .ok cond) :
    ∃ t, leafTest path target.kind ⟨target.table, target.column⟩ lookup = .ok t
      ∧ cond = .all [.test t, .test (.isNotNull ⟨target.table, target.column⟩)] := by
  obtain ⟨t, ht, h⟩ := bind_eq_ok h
  simp only [hlookup] at h
  cases h
  exact ⟨t, ht, rfl⟩

theorem eq_isNull_of_isAboutNull (h : lookup.isAboutNull = true) :
    ∃ expected, lookup = .isNull expected := by
  cases lookup with
  | isNull expected => exact ⟨expected, rfl⟩
  | _ => cases h

theorem accepts_comparison (hlookup : lookup.isAboutNull = false) (kind : FieldKind) (v : Value) :
    lookup.accepts kind v = (v != .null && lookup.compares kind v) := by
  cases lookup with
  | isNull expected => cases hlookup
  | _ => rfl

theorem accepts_of_ne_null (hlookup : lookup.isAboutNull = false) (kind : FieldKind) {v : Value}
    (hv : v ≠ .null) : lookup.accepts kind v = lookup.compares kind v := by
  rw [accepts_comparison hlookup, bne_iff_ne.mpr hv, Bool.true_and]

/-- The condition on the last table is known, and holds where the value passes the lookup. -/
theorem truth_leafCondition (h : leafCondition path target lookup = .ok cond) (db : Database)
    (row : Row) (env : Bindings) :
    truth db ((target.table, row) :: env) cond
      = .ofBool (lookup.accepts target.kind (row.get target.column)) := by
  have hvalue : valueOf ((target.table, row) :: env) ⟨target.table, target.column⟩
      = row.get target.column := valueOf_head env _ _ row
  cases hlookup : lookup.isAboutNull with
  | true =>
    obtain ⟨expected, rfl⟩ := eq_isNull_of_isAboutNull hlookup
    rw [leafCondition_isNull] at h
    cases h
    rw [truth_all, List.map_singleton]
    refine (Truth.and_true _).trans ?_
    cases expected with
    | true =>
      refine (truth_isNull db _ _).trans ?_
      rw [hvalue, Lookup.accepts, beq_true]
    | false =>
      refine (truth_isNotNull db _ _).trans ?_
      rw [hvalue, Lookup.accepts, beq_false]
      rfl
  | false =>
    obtain ⟨t, ht, rfl⟩ := leafCondition_comparison hlookup h
    have hasks := asks_leafTest ht hlookup
    have htest : truth db ((target.table, row) :: env) (.test t)
        = truthOn (row.get target.column) t := by
      rw [truth, testTruth, hasks.column, hvalue]
    rw [truth_all, List.map_cons, List.map_singleton, htest, truth_isNotNull, hvalue,
      accepts_comparison hlookup]
    show (truthOn _ t).and ((Truth.ofBool _).and .true) = _
    rw [Truth.and_true]
    by_cases hnull : row.get target.column = .null
    · -- whatever the comparison says of NULL, the demand next to it is false
      rw [hnull]
      cases truthOn .null t <;> rfl
    · rw [hasks.truthOn _ hnull, Truth.and_ofBool, Bool.and_comm]

end Leaf

end SchemaSearch
