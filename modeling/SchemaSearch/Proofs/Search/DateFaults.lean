import SchemaSearch.Proofs.Predicate.Times
import SchemaSearch.Proofs.Search.Causes
import SchemaSearch.Proofs.Search.Ordering
import SchemaSearch.Proofs.Search.Steering

/-!
# What is wrong with date bounds

Bounds are checked before anything is compiled: each carries a moment, all name one field, the field leads to
a column of dates, and a range is not empty.  A field that stands for a path is not checked, so a bound on it
reaches the column, which refuses it if it is none of dates.

Main statement: a search by dates fails by a flaw of its bounds if there is one, else by the column of an
alias if that is none of dates, and else it succeeds (`Scope.searchDates_outcome`).
-/

namespace SchemaSearch

open Query Schema

namespace DateBounds

/-! ## Flaws -/

/-- The keys that set a bound. -/
def boundKeys (p : Params) : List String := p.keys.filter isBoundKey

/-- The moment of the last value for a bound. -/
def lastMoment (p : Params) (mark : String) : Option Moment :=
  (p.lastBound mark).bind fun value => value.scalarText.bind Moment.read

/-- What is wrong with the bounds that some parameters set, and how it is told. -/
inductive Flaw (s : Scope) (p : Params) (renames : Renames) : DateFault → Prop
  | badFormat {key : String} (hkey : key ∈ boundKeys p) (hmoment : moment? p key = .none) :
      Flaw s p renames .badFormat
  | mixedAttributes {key other : String} (hkey : key ∈ boundKeys p) (hother : other ∈ boundKeys p)
      (hfields : fieldOf key ≠ fieldOf other) : Flaw s p renames .mixedAttributes
  | unknownAttribute {key : String} (hkey : key ∈ boundKeys p) (halias : renames.get? (fieldOf key) = .none)
      (hnowhere : ∀ target, s.registry.resolve s.root.name (fieldOf key) ≠ .ok target) :
      Flaw s p renames .unknownAttribute
  | notTemporal {key : String} {target : Target} (hkey : key ∈ boundKeys p)
      (halias : renames.get? (fieldOf key) = .none)
      (htarget : s.registry.resolve s.root.name (fieldOf key) = .ok target)
      (hkind : target.kind.isTemporal = false) : Flaw s p renames .notTemporal
  | emptyRange {start finish : Moment} (hstart : lastMoment p startMark = some start)
      (hfinish : lastMoment p finishMark = some finish) (hbefore : start.before finish = false) :
      Flaw s p renames .emptyRange

/-- A bound is set on an alias of a path whose column is none of dates. -/
def BoundsAlias (s : Scope) (p : Params) (renames : Renames) (path : String) : Prop :=
  ∃ key ∈ boundKeys p, ∃ target, renames.get? (fieldOf key) = some path
    ∧ s.registry.resolve s.root.name path = .ok target ∧ target.kind.isTemporal = false

/-! ## Taking the bounds -/

variable {p : Params}

/-- A bound that cannot be taken lacks a moment, or names another field than the one that is set. -/
theorem error_of_record {error : SearchError} {b : DateBounds} {key : String} (h : b.record p key = .error error) :
    (error = .date .badFormat ∧ moment? p key = .none)
      ∨ error = .date .mixedAttributes ∧ ∃ field ∈ b.field, field ≠ fieldOf key := by
  rw [record_eq] at h
  cases hmixed : b.field.any (· != fieldOf key) with
  | true =>
    rw [hmixed, if_pos rfl] at h
    cases h
    obtain ⟨field, hfield, hne⟩ := (Option.any_eq_true _ _).mp hmixed
    exact .inr ⟨rfl, field, hfield, bne_iff_ne.mp hne⟩
  | false =>
    rw [hmixed, if_neg Bool.false_ne_true] at h
    cases hmoment : moment? p key with
    | none =>
      rw [hmoment] at h
      cases h
      exact .inl ⟨rfl, rfl⟩
    | some m =>
      rw [hmoment] at h
      cases h

/-- Bounds that cannot be taken lack a moment, or name two fields. -/
theorem error_of_foldlM_record {error : SearchError} : ∀ {keys : List String} {b : DateBounds},
    keys.foldlM (fun b key => b.record p key) b = .error error →
      (error = .date .badFormat ∧ ∃ key ∈ keys, moment? p key = .none)
      ∨ error = .date .mixedAttributes ∧ ∃ key ∈ keys, ∃ field,
        field ≠ fieldOf key ∧ (field ∈ b.field ∨ ∃ other ∈ keys, fieldOf other = field)
  | [], b, h => by cases h
  | key :: keys, b, h => by
    rw [List.foldlM_cons] at h
    cases hrecord : b.record p key with
    | error found =>
      rw [hrecord] at h
      cases h
      obtain ⟨rfl, hnone⟩ | ⟨rfl, field, hfield, hne⟩ := error_of_record hrecord
      · exact .inl ⟨rfl, key, List.mem_cons_self, hnone⟩
      · exact .inr ⟨rfl, key, List.mem_cons_self, field, hne, .inl hfield⟩
    | ok next =>
      obtain ⟨-, -, rfl⟩ := record_eq_ok_iff.mp hrecord
      rw [hrecord, ok_bind] at h
      -- from here on the first key's field is the one that is set
      obtain ⟨rfl, other, hother, hnone⟩ | ⟨rfl, other, hother, field, hne, hset⟩ := error_of_foldlM_record h
      · exact .inl ⟨rfl, other, List.mem_cons_of_mem _ hother, hnone⟩
      · refine .inr ⟨rfl, other, List.mem_cons_of_mem _ hother, field, hne, .inr ?_⟩
        rw [field_set] at hset
        obtain hset | ⟨third, hthird, hfield⟩ := hset
        · exact ⟨key, List.mem_cons_self, Option.some.inj hset⟩
        · exact ⟨third, List.mem_cons_of_mem _ hthird, hfield⟩

/-- What is taken are the moments of the last values, all for one field. -/
theorem ofParams_eq_ok {b : DateBounds} {key : String} (hkey : key ∈ boundKeys p)
    (h : ofParams p = .ok b) :
    ∃ field, (∀ key ∈ boundKeys p, fieldOf key = field ∧ (moment? p key).isSome = true)
      ∧ b = ⟨some field, lastMoment p startMark, lastMoment p finishMark⟩ := by
  obtain ⟨⟨field, -, hkeys⟩, rfl⟩ := foldlM_record_eq_ok_iff.mp h
  refine ⟨field, hkeys, eq_of_parts ?_ ?_ ?_⟩
  · have hsome : (p.keys.filter isBoundKey).isEmpty ≠ true := mt List.isEmpty_iff.mp (List.ne_nil_of_mem hkey)
    rw [field_foldl_set fun key hkey => (hkeys key hkey).1, if_neg hsome]
  · rw [start_foldl_set, startKeys_eq, show none.start = .none from rfl, moment_eq_lastBound]
    rfl
  · rw [finish_foldl_set, finishKeys_eq, show none.finish = .none from rfl, moment_eq_lastBound]
    rfl

/-- Where every key carries a moment, one of the two bounds is set. -/
theorem lastMoment_ne_none {key : String} (hkey : key ∈ boundKeys p)
    (hmoments : ∀ key ∈ boundKeys p, (moment? p key).isSome = true) :
    lastMoment p startMark ≠ .none ∨ lastMoment p finishMark ≠ .none := by
  have hlast : ∀ mark, key ∈ p.keys.filter (steers? · == some mark) →
      (mark = startMark ∨ mark = finishMark) → lastMoment p mark ≠ .none := by
    intro mark hmem hmark
    obtain ⟨last, hlast⟩ := Option.isSome_iff_exists.mp
      (List.getLast?_isSome.mpr (List.ne_nil_of_mem hmem))
    have hsteers := List.mem_of_getLast? hlast
    have hbound : last ∈ boundKeys p :=
      List.mem_filter.mpr ⟨(List.mem_filter.mp hsteers).1, isBoundKey_of_steers? hmark hsteers⟩
    rw [lastMoment, ← moment_eq_lastBound, foldl_last, hlast]
    exact Option.isSome_iff_ne_none.mp (hmoments last hbound)
  obtain ⟨hmem, hbound⟩ := List.mem_filter.mp hkey
  have hsteers := steers?_bound hbound
  cases hside : Text.contains key startMark with
  | true =>
    rw [hside, if_pos rfl] at hsteers
    exact .inl (hlast _ (List.mem_filter.mpr ⟨hmem, by rw [hsteers]; exact beq_self_eq_true _⟩) (.inl rfl))
  | false =>
    rw [hside, if_neg Bool.false_ne_true] at hsteers
    exact .inr (hlast _ (List.mem_filter.mpr ⟨hmem, by rw [hsteers]; exact beq_self_eq_true _⟩) (.inr rfl))

/-- Bounds are a lookup, unless they are an empty range. -/
theorem lookup?_outcome {b : DateBounds} (h : b.start ≠ .none ∨ b.finish ≠ .none) :
    (∃ start finish, b.start = some start ∧ b.finish = some finish ∧ start.before finish = false
        ∧ b.lookup? = .error (.date .emptyRange))
      ∨ (∀ start finish, b.start = some start → b.finish = some finish → start.before finish = true)
        ∧ ∃ lookup, lookup.bounds ≠ [] ∧ b.lookup? = .ok (some lookup) := by
  obtain ⟨field, start?, finish?⟩ := b
  cases start? with
  | none =>
    cases finish? with
    | none => simp at h
    | some finish => exact .inr ⟨fun _ _ h => (nomatch h), .atMost finish, List.cons_ne_nil _ _, rfl⟩
  | some start =>
    cases finish? with
    | none => exact .inr ⟨fun _ _ _ h => (nomatch h), .atLeast start, List.cons_ne_nil _ _, rfl⟩
    | some finish =>
      cases hbefore : start.before finish with
      | false => exact .inl ⟨start, finish, rfl, rfl, hbefore, by simp [lookup?, hbefore]⟩
      | true =>
        refine .inr ⟨?_, .range start finish, List.cons_ne_nil _ _, by simp [lookup?, hbefore]⟩
        intro start' finish' hstart hfinish
        cases hstart
        cases hfinish
        exact hbefore

/-- The flaws of bounds that can be taken: their field leads nowhere or to no date, or the range is empty. -/
theorem Flaw.of_taken {s : Scope} {renames : Renames} {field : String} {fault : DateFault}
    (hkeys : ∀ key ∈ boundKeys p, fieldOf key = field ∧ (moment? p key).isSome = true)
    (h : Flaw s p renames fault) :
    (renames.get? field = .none ∧ ∀ target, s.registry.resolve s.root.name field = .ok target →
        target.kind.isTemporal = false)
      ∨ ∃ start finish, lastMoment p startMark = some start ∧ lastMoment p finishMark = some finish
        ∧ start.before finish = false := by
  cases h with
  | badFormat hkey hmoment =>
    have hsome := (hkeys _ hkey).2
    rw [hmoment] at hsome
    cases hsome
  | mixedAttributes hkey hother hfields =>
    rw [(hkeys _ hkey).1, (hkeys _ hother).1] at hfields
    exact absurd rfl hfields
  | unknownAttribute hkey halias hnowhere =>
    rw [(hkeys _ hkey).1] at halias hnowhere
    exact .inl ⟨halias, fun target htarget => absurd htarget (hnowhere target)⟩
  | notTemporal hkey halias htarget hkind =>
    rw [(hkeys _ hkey).1] at halias htarget
    refine .inl ⟨halias, fun target' htarget' => ?_⟩
    rw [htarget] at htarget'
    cases htarget'
    exact hkind
  | emptyRange hstart hfinish hbefore => exact .inr ⟨_, _, hstart, hfinish, hbefore⟩

/-! ## The path of a field -/

/-- Where a field leads that may be bounded: an alias to the column of its path, any other field to its own
column, if that is one of dates. -/
inductive LeadsTo (s : Scope) (renames : Renames) (field : String) : String → Target → Prop
  | aliased {path : String} {target : Target} (halias : renames.get? field = some path)
      (htarget : s.registry.resolve s.root.name path = .ok target) : LeadsTo s renames field path target
  | itself {target : Target} (halias : renames.get? field = .none)
      (htarget : s.registry.resolve s.root.name field = .ok target) (hkind : target.kind.isTemporal = true) :
      LeadsTo s renames field field target

section Leading

variable {s : Scope} {renames : Renames} {field path : String} {target : Target}

theorem LeadsTo.resolve (h : LeadsTo s renames field path target) :
    s.registry.resolve s.root.name path = .ok target := by
  cases h with
  | aliased _ htarget => exact htarget
  | itself _ htarget _ => exact htarget

/-- A field leads to a column, or it is a flaw. -/
theorem pathOf_outcome (hs : s.IsRegistered) (hrenames : s.registry.renames s.root.name = .ok renames)
    {key : String} (hkey : key ∈ boundKeys p) :
    (∃ fault, Flaw s p renames fault ∧ pathOf s renames (fieldOf key) = .error (.date fault))
      ∨ ∃ path target, pathOf s renames (fieldOf key) = .ok path
        ∧ LeadsTo s renames (fieldOf key) path target := by
  unfold pathOf
  cases halias : renames.get? (fieldOf key) with
  | some path =>
    obtain ⟨target, htarget⟩ := resolve_of_renames hrenames halias
    exact .inr ⟨path, target, rfl, .aliased halias htarget⟩
  | none =>
    cases htarget : s.registry.resolve s.root.name (fieldOf key) with
    | error error =>
      obtain rfl := Registry.resolve_error hs htarget
      refine .inl ⟨.unknownAttribute, .unknownAttribute hkey halias ?_, rfl⟩
      intro target hfound
      rw [htarget] at hfound
      cases hfound
    | ok target =>
      cases hkind : target.kind.isTemporal with
      | true => exact .inr ⟨fieldOf key, target, by simp [hkind], .itself halias htarget hkind⟩
      | false => exact .inl ⟨.notTemporal, .notTemporal hkey halias htarget hkind, by simp [hkind]⟩

/-- Bounds that can be taken have no flaw, if their field leads to a column and the range is not empty. -/
theorem LeadsTo.not_flaw (h : LeadsTo s renames field path target)
    (hkeys : ∀ key ∈ boundKeys p, fieldOf key = field ∧ (moment? p key).isSome = true)
    (hrange : ∀ start finish, lastMoment p startMark = some start → lastMoment p finishMark = some finish →
      start.before finish = true) (fault : DateFault) : ¬ Flaw s p renames fault := by
  intro hflaw
  rcases hflaw.of_taken hkeys with ⟨halias, hkind⟩ | ⟨start, finish, hstart, hfinish, hbefore⟩
  · cases h with
    | aliased hpath _ =>
      rw [halias] at hpath
      cases hpath
    | itself _ htarget htemporal =>
      rw [hkind target htarget] at htemporal
      cases htemporal
  · rw [hrange start finish hstart hfinish] at hbefore
    cases hbefore

/-- A column that is none of dates is that of an alias. -/
theorem LeadsTo.boundsAlias (h : LeadsTo s renames field path target) {key : String} (hkey : key ∈ boundKeys p)
    (hfield : fieldOf key = field) (hkind : target.kind.isTemporal = false) : BoundsAlias s p renames path := by
  cases h with
  | aliased halias htarget => exact ⟨key, hkey, target, by rw [hfield, halias], htarget, hkind⟩
  | itself _ _ htemporal =>
    rw [hkind] at htemporal
    cases htemporal

theorem LeadsTo.not_boundsAlias (h : LeadsTo s renames field path target)
    (hfields : ∀ key ∈ boundKeys p, fieldOf key = field) (hkind : target.kind.isTemporal = true)
    (path' : String) : ¬ BoundsAlias s p renames path' := by
  rintro ⟨key, hkey, target', halias, htarget', hkind'⟩
  rw [hfields key hkey] at halias
  cases h with
  | aliased hpath htarget =>
    obtain rfl : path = path' := Option.some.inj (hpath.symm.trans halias)
    rw [htarget] at htarget'
    cases htarget'
    rw [hkind] at hkind'
    cases hkind'
  | itself hnone _ _ =>
    rw [hnone] at halias
    cases halias

end Leading

/-- Without a key that sets a bound nothing is wrong. -/
theorem Flaw.exists_key {s : Scope} {renames : Renames} {fault : DateFault} (h : Flaw s p renames fault) :
    ∃ key, key ∈ boundKeys p := by
  cases h with
  | badFormat hkey _ | mixedAttributes hkey _ _ | unknownAttribute hkey _ _ | notTemporal hkey _ _ _ =>
    exact ⟨_, hkey⟩
  | emptyRange hstart _ _ =>
    obtain ⟨value, hvalue, _⟩ := Option.bind_eq_some_iff.mp hstart
    obtain ⟨key, hlast, _⟩ := Option.bind_eq_some_iff.mp hvalue
    have hsteers := List.mem_of_getLast? hlast
    exact ⟨key, List.mem_filter.mpr
      ⟨(List.mem_filter.mp hsteers).1, isBoundKey_of_steers? (.inl rfl) hsteers⟩⟩

end DateBounds

/-! ## Whole searches -/

namespace Scope

open DateBounds

variable {s : Scope} {p : Params} {renames : Renames}

/-- Bounds that can be taken are compiled for the column that their path leads to. -/
theorem searchDates_of_taken {field path : String} {bounds : DateBounds} {lookup : Lookup}
    (hbounds : ofParams p = .ok bounds) (hfield : bounds.field = some field)
    (hpath : pathOf s renames field = .ok path) (hlookup : bounds.lookup? = .ok (some lookup)) :
    s.searchDates p renames = s.filter (.field path lookup) >>= fun narrowed =>
      .ok (narrowed, p.without (boundKeys p)) := by
  simp only [searchDates, hbounds, ok_bind, hfield, hpath, hlookup]
  rfl

/-- A search by dates whose bounds can be taken. -/
theorem searchDates_outcome_of_taken (hs : s.IsRegistered)
    (hrenames : s.registry.renames s.root.name = .ok renames) {key : String} (hkey : key ∈ boundKeys p)
    {bounds : DateBounds} (hbounds : ofParams p = .ok bounds) :
    (∃ fault, Flaw s p renames fault ∧ s.searchDates p renames = .error (.date fault))
      ∨ (∀ fault, ¬ Flaw s p renames fault)
        ∧ ((∃ path, BoundsAlias s p renames path
            ∧ s.searchDates p renames = .error (.invalidParameter path .notTemporal))
          ∨ (∀ path, ¬ BoundsAlias s p renames path) ∧ ∃ result, s.searchDates p renames = .ok result) := by
  obtain ⟨field, hkeys, rfl⟩ := ofParams_eq_ok hkey hbounds
  obtain rfl : fieldOf key = field := (hkeys key hkey).1
  rcases pathOf_outcome hs hrenames hkey with ⟨fault, hflaw, hpath⟩ | ⟨path, target, hpath, hleads⟩
  · refine .inl ⟨fault, hflaw, ?_⟩
    simp only [searchDates, hbounds, ok_bind, hpath]
    rfl
  have hset := lastMoment_ne_none hkey fun key hkey => (hkeys key hkey).2
  have hset' := @lookup?_outcome ⟨some (fieldOf key), lastMoment p startMark, lastMoment p finishMark⟩ hset
  rcases hset' with ⟨start, finish, hstart, hfinish, hbefore, hlookup⟩
    | ⟨hrange, lookup, hbounded, hlookup⟩
  · refine .inl ⟨.emptyRange, .emptyRange hstart hfinish hbefore, ?_⟩
    simp only [searchDates, hbounds, ok_bind, hpath, hlookup]
    rfl
  -- from here on nothing is wrong but, perhaps, the column of an alias
  refine .inr ⟨hleads.not_flaw hkeys hrange, ?_⟩
  rw [searchDates_of_taken hbounds rfl hpath hlookup, filter]
  cases hkind : target.kind.isTemporal with
  | false =>
    refine .inl ⟨path, hleads.boundsAlias hkey rfl hkind, ?_⟩
    rw [compile_of_bounds_eq_error hleads.resolve hkind hbounded]
    rfl
  | true =>
    obtain ⟨c, hc⟩ := exists_compile_of_bounds hleads.resolve hkind hbounded
    exact .inr ⟨hleads.not_boundsAlias (fun key hkey => (hkeys key hkey).1) hkind, _, by rw [hc]; rfl⟩

/-- A search by dates from a registered root fails by a flaw of its bounds if they have one.  If they have
none it fails where they are set on an alias whose column is none of dates, by the refusal of that column;
and else it succeeds. -/
theorem searchDates_outcome (hs : s.IsRegistered)
    (hrenames : s.registry.renames s.root.name = .ok renames) (p : Params) :
    (∃ fault, Flaw s p renames fault ∧ s.searchDates p renames = .error (.date fault))
      ∨ (∀ fault, ¬ Flaw s p renames fault)
        ∧ ((∃ path, BoundsAlias s p renames path
            ∧ s.searchDates p renames = .error (.invalidParameter path .notTemporal))
          ∨ (∀ path, ¬ BoundsAlias s p renames path) ∧ ∃ result, s.searchDates p renames = .ok result) := by
  by_cases hnone : boundKeys p = []
  · have hno : ∀ key, key ∉ boundKeys p := by
      rw [hnone]
      exact fun key => List.not_mem_nil
    refine .inr ⟨fun fault hflaw => ?_, .inr ⟨?_, _, searchDates_eq_self ?_ s renames⟩⟩
    · obtain ⟨key, hkey⟩ := hflaw.exists_key
      exact hno key hkey
    · rintro path ⟨key, hkey, -⟩
      exact hno key hkey
    · intro key hkey
      exact Bool.eq_false_iff.mpr (List.filter_eq_nil_iff.mp hnone key hkey)
  · obtain ⟨key, hkey⟩ := List.exists_mem_of_ne_nil _ hnone
    cases hbounds : ofParams p with
    | ok bounds => exact searchDates_outcome_of_taken hs hrenames hkey hbounds
    | error error =>
      have hfails : s.searchDates p renames = .error error := by
        simp only [searchDates, hbounds]
        rfl
      rcases error_of_foldlM_record hbounds with ⟨rfl, key, hkey, hmoment⟩ | ⟨rfl, key, hkey, field, hne, hset⟩
      · exact .inl ⟨_, .badFormat hkey hmoment, hfails⟩
      · rcases hset with hset | ⟨other, hother, rfl⟩
        · cases hset
        · exact .inl ⟨_, .mixedAttributes hother hkey hne, hfails⟩

end Scope

/-- The questions of the service. -/
def questionScope : Scope := .ofEntity Service.registry Service.questions.entity

/-- An empty range of topics, an alias of their titles. -/
def topicsBackwards : Params :=
  ⟨[("topic_date_end", [.text "2024-01-01"]), ("page", [.text "2"]), ("topic_date_start", [.text "2024-06-01"])]⟩

/-- The range is a flaw, though the column of the alias is none of dates. -/
theorem searchDates_outcome_sample :
    ∃ renames, questionScope.registry.renames questionScope.root.name = .ok renames
      ∧ questionScope.IsRegistered
      ∧ ∃ fault, DateBounds.Flaw questionScope topicsBackwards renames fault
        ∧ questionScope.searchDates topicsBackwards renames = .error (.date fault) := by
  have hregistered : questionScope.IsRegistered := rfl
  refine ⟨Service.registry.mergedRenames Service.questions.entity, rfl, hregistered, ?_⟩
  have hflaw : DateBounds.Flaw questionScope topicsBackwards
      (Service.registry.mergedRenames Service.questions.entity) .emptyRange :=
    @DateBounds.Flaw.emptyRange _ _ _ ⟨2024, 6, 1, 0, 0, 0, 0⟩ ⟨2024, 1, 1, 0, 0, 0, 0⟩ (by decide +kernel)
      (by decide +kernel) (by decide)
  rcases Scope.searchDates_outcome hregistered rfl topicsBackwards with hfails | ⟨hflawless, -⟩
  · exact hfails
  · exact absurd hflaw (hflawless _)

/-- A lower bound on an alias of a text is refused by its column, and not by a fault of the dates. -/
theorem not_searchDates_failsOnly_date :
    ¬ ∀ (s : Scope) (p : Params) (renames : Renames), s.IsRegistered →
      s.registry.renames s.root.name = .ok renames →
      FailsOnly (fun error => ∃ fault, error = .date fault) (s.searchDates p renames) := by
  intro h
  have hrefused : questionScope.searchDates ⟨[("topic_date_start", [.text "2024-01-01"])]⟩
      (Service.registry.mergedRenames Service.questions.entity)
      = .error (.invalidParameter "topics__title" .notTemporal) := by rfl
  obtain ⟨fault, hfault⟩ := h questionScope _ _ rfl rfl _ hrefused
  cases hfault

end SchemaSearch
