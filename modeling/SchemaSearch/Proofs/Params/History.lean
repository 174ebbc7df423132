import Mathlib.Data.List.DropRight
import SchemaSearch.Proofs.Search.Additions

/-!
# Parameters and their history

Parameters are an ordered multimap.  The history of their changes, from the first key that was sent on, tells
what a key carries and where it stands: its values are those that were added since it was last set or taken
out, behind the list that it was set to, and the keys stand in the order in which they came in, where a key
that was taken out comes in anew.

Main statements: parameters follow their history through every change (`Params.Follows.step`), and nothing
else does (`Params.Follows.unique`).
-/

namespace SchemaSearch.Params

/-! ## Changes -/

/-- A change of parameters. -/
inductive Change where
  | push (key : String) (value : Json)
  | setAll (key : String) (values : List Json)
  | remove (key : String)
  | without (excluded : List String)
  deriving Repr

namespace Change

/-- What a change makes of parameters. -/
def apply (p : Params) : Change → Params
  | .push key value => p.push key value
  | .setAll key values => p.setAll key values
  | .remove key => (p.extract key).2
  | .without excluded => p.without excluded

/-- The key that a change adds to or sets. -/
def key? : Change → Option String
  | .push key _ | .setAll key _ => some key
  | .remove _ | .without _ => none

/-- Whether a change takes a key out. -/
def removes (key : String) : Change → Bool
  | .push _ _ | .setAll _ _ => false
  | .remove gone => gone == key
  | .without excluded => excluded.contains key

/-- The values that a key starts over with: the list that it is set to, or none once it is taken out. -/
def resets? (key : String) (c : Change) : Option (List Json) :=
  match c with
  | .setAll k values => if k = key then some values else none
  | .push _ _ | .remove _ | .without _ => if c.removes key then some [] else none

/-- The value that a change adds to a key. -/
def pushed? (key : String) : Change → Option Json
  | .push k value => if k = key then some value else none
  | .setAll _ _ | .remove _ | .without _ => none

variable {c : Change} {key : String}

theorem removes_of_key? {named : String} (h : c.key? = some named) : c.removes key = false := by
  cases c with
  | push _ _ | setAll _ _ => rfl
  | remove _ | without _ => cases h

theorem key?_of_removes (h : c.removes key = true) : c.key? = none := by
  apply Option.eq_none_iff_forall_ne_some.mpr
  intro named hnamed
  rw [removes_of_key? hnamed] at h
  cases h

theorem resets?_of_removes (h : c.removes key = true) : c.resets? key = some [] := by
  cases c with
  | push _ _ => cases h
  | setAll _ _ => cases h
  | remove _ => exact if_pos h
  | without _ => exact if_pos h

theorem resets?_of_ne (hother : c.key? ≠ some key) (hstays : c.removes key = false) :
    c.resets? key = none := by
  cases c with
  | setAll k _ => exact if_neg fun h => hother (congrArg some h)
  | push _ _ | remove _ | without _ => simp [resets?, hstays]

theorem pushed?_of_ne (hother : c.key? ≠ some key) : c.pushed? key = none := by
  cases c with
  | push k _ => exact if_neg fun h => hother (congrArg some h)
  | setAll _ _ | remove _ | without _ => rfl

end Change

/-- Parameters behind some changes. -/
def after (p : Params) (changes : List Change) : Params := changes.foldl Change.apply p

theorem after_append (p : Params) (changes later : List Change) :
    p.after (changes ++ later) = (p.after changes).after later := List.foldl_append

/-! ## What a history tells -/

/-- The values of a key: those that were added since it last started over, behind what it started with. -/
def valuesIn (history : List Change) (key : String) : List Json :=
  (history.filterMap (Change.resets? key)).getLast?.getD []
    ++ (history.rtakeWhile fun c => (c.resets? key).isNone).filterMap (Change.pushed? key)

/-- When a key came in: at the first change that names it since it was last taken out. -/
def enteredAt? (history : List Change) (key : String) : Option Nat :=
  let stay := history.rtakeWhile fun c => !c.removes key
  (stay.findIdx? fun c => c.key? == some key).map (history.length - stay.length + ·)

/-- Whether a key came in before another, where both are there. -/
def CameBefore (history : List Change) (key other : String) : Prop :=
  ∃ i j, enteredAt? history key = some i ∧ enteredAt? history other = some j ∧ i < j

section Tells

variable {history : List Change} {key : String}

theorem valuesIn_concat (history : List Change) (c : Change) (key : String) :
    valuesIn (history ++ [c]) key
      = (c.resets? key).getD (valuesIn history key ++ (c.pushed? key).toList) := by
  unfold valuesIn
  rw [List.filterMap_append, List.rtakeWhile_concat]
  cases hreset : c.resets? key with
  | none =>
    cases hpushed : c.pushed? key <;> simp [hreset, hpushed]
  | some values => simp [hreset]

theorem enteredAt?_concat (history : List Change) (c : Change) (key : String) :
    enteredAt? (history ++ [c]) key
      = if c.removes key then none
        else (enteredAt? history key).or (if c.key? = some key then some history.length else none) := by
  unfold enteredAt?
  rw [List.rtakeWhile_concat]
  cases hremoves : c.removes key with
  | true => simp
  | false =>
    have hstay : (history.rtakeWhile fun c => !c.removes key).length ≤ history.length :=
      (List.rtakeWhile_suffix _ _).length_le
    simp only [Bool.not_false, if_true, Bool.false_eq_true, if_false, List.findIdx?_append,
      List.length_append, List.length_singleton]
    cases List.findIdx? (fun c => c.key? == some key) (history.rtakeWhile fun c => !c.removes key) with
    | some i => simp
    | none =>
      by_cases hkey : c.key? = some key
      · simp [List.findIdx?_singleton, hkey]
        omega
      · simp [List.findIdx?_singleton, hkey]

/-- When a key came in does not change until it is taken out. -/
theorem enteredAt?_of_stays {c : Change} {i : Nat} (h : enteredAt? history key = some i)
    (hstays : c.removes key = false) : enteredAt? (history ++ [c]) key = some i := by
  rw [enteredAt?_concat, hstays, h]
  rfl

theorem enteredAt?_of_comesIn {c : Change} (h : enteredAt? history key = none)
    (hkey : c.key? = some key) : enteredAt? (history ++ [c]) key = some history.length := by
  rw [enteredAt?_concat, Change.removes_of_key? hkey, h]
  simp [hkey]

theorem enteredAt?_lt {i : Nat} (h : enteredAt? history key = some i) : i < history.length := by
  induction history using List.reverseRecOn generalizing i with
  | nil => simp [enteredAt?] at h
  | append_singleton history c ih =>
    rw [enteredAt?_concat] at h
    rw [List.length_append, List.length_singleton]
    split at h
    · cases h
    · rcases Option.or_eq_some_iff.mp h with hbefore | ⟨_, hnow⟩
      · have := ih hbefore
        omega
      · split at hnow
        · cases hnow
          omega
        · cases hnow

end Tells

/-! ## What a change does -/

section Apply

variable {p : Params} {key : String}

theorem keys_remove (p : Params) (key : String) : (p.remove key).keys = p.keys.erase key :=
  Table.keys_erase key p.entries

/-- The keys that are not taken out keep their order; a key that was not there comes behind them. -/
theorem keys_apply (hkeys : p.keys.Nodup) (c : Change) :
    (c.apply p).keys
      = p.keys.filter (fun key => !c.removes key) ++ c.key?.toList.filter (fun key => key ∉ p.keys) := by
  cases c with
  | push key value =>
    show (p.push key value).keys = _
    rw [keys_push]
    by_cases hkey : key ∈ p.keys <;> simp [Change.removes, Change.key?, hkey]
  | setAll key values =>
    show (p.setAll key values).keys = _
    rw [keys_setAll]
    by_cases hkey : key ∈ p.keys <;> simp [Change.removes, Change.key?, hkey]
  | remove gone =>
    show (p.remove gone).keys = _
    rw [keys_remove, hkeys.erase_eq_filter]
    simp [Change.removes, Change.key?, bne, BEq.comm]
  | without excluded =>
    show (p.without excluded).keys = _
    simp [keys_without, Change.removes, Change.key?]

/-- A key that a change neither names nor takes out is left as it is. -/
theorem find?_apply {c : Change} (hother : c.key? ≠ some key) (hstays : c.removes key = false) :
    (c.apply p).find? key = p.find? key := by
  cases c with
  | push k value =>
    have hne : key ≠ k := fun h => hother (congrArg some h.symm)
    exact Table.find?_upsert_of_ne hne _ _ p.entries
  | setAll k values =>
    have hne : key ≠ k := fun h => hother (congrArg some h.symm)
    exact Table.find?_upsert_of_ne hne _ _ p.entries
  | remove gone =>
    have hne : gone ≠ key := beq_eq_false_iff_ne.mp hstays
    exact Table.find?_erase_of_ne hne.symm p.entries
  | without excluded =>
    have hkeep : (!excluded.contains key) = true := by
      rw [show excluded.contains key = false from hstays]
      rfl
    show Table.find? key (p.entries.filter fun entry => !excluded.contains entry.1) = _
    rw [Table.find?_filter (fun k => !excluded.contains k), hkeep, if_pos rfl]
    rfl

/-- A key that is taken out is there no more. -/
theorem find?_apply_of_removes (hkeys : p.keys.Nodup) {c : Change} (h : c.removes key = true) :
    (c.apply p).find? key = none := by
  apply Table.find?_eq_none
  show key ∉ (c.apply p).keys
  rw [keys_apply hkeys, Change.key?_of_removes h]
  simp [h]

/-- A change starts the values of a key over, or adds what it pushes. -/
theorem getAll_apply (hkeys : p.keys.Nodup) (c : Change) (key : String) :
    (c.apply p).getAll key = (c.resets? key).getD (p.getAll key ++ (c.pushed? key).toList) := by
  show ((c.apply p).find? key).getD [] = _
  cases hremoves : c.removes key with
  | true =>
    rw [find?_apply_of_removes hkeys hremoves, Change.resets?_of_removes hremoves]
    rfl
  | false =>
    by_cases hkey : c.key? = some key
    · cases c with
      | push k value =>
        cases hkey
        show (p.push key value).getAll key = _
        simp [Change.resets?, Change.removes, Change.pushed?]
      | setAll k values =>
        cases hkey
        show (p.setAll key values).getAll key = _
        simp [Change.resets?]
      | remove gone => cases hkey
      | without excluded => cases hkey
    · rw [find?_apply hkey hremoves, Change.resets?_of_ne hkey hremoves, Change.pushed?_of_ne hkey]
      exact (List.append_nil _).symm

end Apply

/-! ## Following a history -/

/-- Parameters are what a history tells: a key is there if it came in, keys stand in the order in which they
came in, and each has its values. -/
structure Follows (p : Params) (history : List Change) : Prop where
  there : ∀ key, key ∈ p.keys ↔ ∃ i, enteredAt? history key = some i
  sorted : p.keys.Pairwise (CameBefore history)
  values : ∀ key, p.getAll key = valuesIn history key

theorem CameBefore.ne {history : List Change} {key other : String} (h : CameBefore history key other) :
    key ≠ other := by
  obtain ⟨i, j, hi, hj, hlt⟩ := h
  rintro rfl
  cases hi.symm.trans hj
  omega

namespace Follows

variable {p q : Params} {history : List Change}

/-- Keys that stand in the order in which they came in are distinct. -/
theorem nodup (h : p.Follows history) : p.keys.Nodup := h.sorted.imp CameBefore.ne

theorem empty : Params.empty.Follows [] where
  there key := by simp [keys, Params.empty, Table.keys, enteredAt?]
  sorted := .nil
  values _ := rfl

/-- A change keeps the parameters in step with their history. -/
theorem step (h : p.Follows history) (c : Change) : (c.apply p).Follows (history ++ [c]) where
  there key := by
    rw [keys_apply h.nodup, enteredAt?_concat]
    cases hremoves : c.removes key with
    | true => simp [hremoves, Change.key?_of_removes hremoves]
    | false =>
      have hthere := h.there key
      cases hentered : enteredAt? history key with
      | some i => simp [hremoves, hthere, hentered]
      | none => simp [hremoves, hthere, hentered]
  sorted := by
    rw [keys_apply h.nodup, List.pairwise_append]
    refine ⟨?_, ?_, ?_⟩
    · apply (h.sorted.filter _).imp_of_mem
      rintro key other hkey hother ⟨i, j, hi, hj, hlt⟩
      have hstays := (List.mem_filter.mp hkey).2
      have hstays' := (List.mem_filter.mp hother).2
      rw [Bool.not_eq_true'] at hstays hstays'
      exact ⟨i, j, enteredAt?_of_stays hi hstays, enteredAt?_of_stays hj hstays', hlt⟩
    · -- at most one key comes in
      apply List.Pairwise.filter
      cases c.key? <;> simp
    · intro key hkey other hother
      obtain ⟨hold, hstays⟩ := List.mem_filter.mp hkey
      obtain ⟨hnamed, hfresh⟩ := List.mem_filter.mp hother
      obtain ⟨i, hi⟩ := (h.there key).mp hold
      have hnever : enteredAt? history other = none := by
        apply Option.eq_none_iff_forall_ne_some.mpr
        intro j hj
        exact of_decide_eq_true hfresh ((h.there other).mpr ⟨j, hj⟩)
      rw [Bool.not_eq_true'] at hstays
      rw [Option.mem_toList] at hnamed
      exact ⟨i, history.length, enteredAt?_of_stays hi hstays, enteredAt?_of_comesIn hnever hnamed,
        enteredAt?_lt hi⟩
  values key := by rw [getAll_apply h.nodup, valuesIn_concat, h.values key]

/-- What one change keeps, all of them keep. -/
theorem after (h : p.Follows history) (changes : List Change) :
    (p.after changes).Follows (history ++ changes) := by
  induction changes using List.reverseRecOn with
  | nil => simpa [Params.after] using h
  | append_singleton changes c ih =>
    rw [after_append, ← List.append_assoc]
    exact ih.step c

/-- A history tells all there is to parameters. -/
theorem unique (hp : p.Follows history) (hq : q.Follows history) : q = p := by
  have hperm : q.keys.Perm p.keys := by
    rw [List.perm_ext_iff_of_nodup hq.nodup hp.nodup]
    exact fun key => (hq.there key).trans (hp.there key).symm
  have hsame : q.keys = p.keys := by
    refine hperm.eq_of_pairwise ?_ hq.sorted hp.sorted
    rintro key other _ _ ⟨i, j, hi, hj, hlt⟩ ⟨j', i', hj', hi', hlt'⟩
    cases hi.symm.trans hi'
    cases hj.symm.trans hj'
    omega
  exact eq_of_getAll hp.nodup hsame fun key => (hq.values key).trans (hp.values key).symm

end Follows

/-! ## Changing in place -/

section InPlace

variable {p : Params}

theorem nodup_keys_apply (hkeys : p.keys.Nodup) (c : Change) : (c.apply p).keys.Nodup := by
  cases c with
  | push key value => exact nodup_keys_push hkeys key value
  | setAll key values => exact nodup_keys_setAll hkeys key values
  | remove key =>
    show (p.remove key).keys.Nodup
    rw [keys_remove]
    exact hkeys.erase key
  | without excluded =>
    show (p.without excluded).keys.Nodup
    rw [keys_without]
    exact hkeys.filter _

/-- By induction on the changes: what none of them takes out stays in front, in the order it had. -/
theorem keys_stay (hkeys : p.keys.Nodup) (changes : List Change) :
    (p.keys.filter fun key => changes.all fun c => !c.removes key) <+: (p.after changes).keys := by
  induction changes generalizing p with
  | nil => simp [after]
  | cons c changes ih =>
    refine List.IsPrefix.trans ?_ (ih (nodup_keys_apply hkeys c))
    rw [keys_apply hkeys, List.filter_append, List.filter_filter]
    simp only [List.all_cons, Bool.and_comm]
    exact List.prefix_append _ _

/-- What the next change does to parameters, and what later ones do to their keys. -/
structure ChangesInPlace (p : Params) : Prop where
  /-- Every key that a change is not about is left as it is. -/
  others : ∀ (c : Change) key, c.key? ≠ some key → c.removes key = false →
    (c.apply p).find? key = p.find? key
  /-- Taking a key out gives its values back, if it is there. -/
  givesBack : ∀ key, (p.extract key).1 = if key ∈ p.keys then some (p.getAll key) else none
  /-- A key that is taken out is there no more. -/
  leaves : ∀ (c : Change) key, c.removes key = true → (c.apply p).find? key = none
  /-- Keys keep their places in front as long as they are not taken out. -/
  stays : ∀ later : List Change,
    (p.keys.filter fun key => later.all fun c => !c.removes key) <+: (p.after later).keys
  /-- A key that is not there comes in at the end. -/
  enters : ∀ (c : Change) key, c.key? = some key → key ∉ p.keys → (c.apply p).keys = p.keys ++ [key]
  /-- Leaving keys out leaves the others in their order, each with its values. -/
  without : ∀ excluded, (p.without excluded).keys = p.keys.filter (fun key => key ∉ excluded)
    ∧ ∀ key, (p.without excluded).find? key = if key ∈ excluded then none else p.find? key

theorem changesInPlace (hkeys : p.keys.Nodup) : p.ChangesInPlace where
  others c key := find?_apply
  givesBack key := by
    show p.find? key = _
    split
    · rename_i hkey
      obtain ⟨values, hvalues⟩ := Table.exists_find?_of_mem hkey
      rw [getAll, find?, hvalues]
      rfl
    · rename_i hkey
      exact Table.find?_eq_none hkey
  leaves c key := find?_apply_of_removes hkeys
  stays := keys_stay hkeys
  enters c key hkey hfresh := by
    rw [keys_apply hkeys, hkey]
    simp [Change.removes_of_key? hkey, hfresh]
  without excluded := by
    refine ⟨by simp [keys_without], fun key => ?_⟩
    split
    · rename_i hgone
      have hremoves : (Change.without excluded).removes key = true := by simpa [Change.removes] using hgone
      exact find?_apply_of_removes hkeys hremoves
    · rename_i hkept
      have hstays : (Change.without excluded).removes key = false := by simpa [Change.removes] using hkept
      exact find?_apply (fun h => by cases h) hstays

end InPlace

/-! ## From the first key on -/

/-- The change that a member of a JSON object makes. -/
def Change.ofMember : String × Json → Change
  | (key, .list values) => .setAll key values
  | (key, value) => .push key value

/-- How parameters are made from a query string, a JSON body or pairs. -/
inductive ComesFrom : Params → List Change → Prop
  | query (query : String) :
    ComesFrom (ofQuery query) ((Text.FormData.read query).map fun pair => .push pair.1 (.text pair.2))
  | body {members : List (String × Json)} {p : Params} (h : ofJson (.object members) = .ok p) :
    ComesFrom p (members.map Change.ofMember)
  | pairs (pairs : List (String × Json)) :
    ComesFrom (ofPairs pairs) (pairs.map fun pair => .push pair.1 pair.2)

theorem addMember_eq : addMember = fun p member => (Change.ofMember member).apply p := by
  funext p member
  obtain ⟨key, value⟩ := member
  cases value <;> rfl

theorem ofPairs_eq_after (pairs : List (String × Json)) :
    ofPairs pairs = empty.after (pairs.map fun pair => .push pair.1 pair.2) := by
  rw [after, List.foldl_map]
  rfl

theorem ComesFrom.eq_after {p : Params} {origin : List Change} (h : p.ComesFrom origin) :
    p = empty.after origin := by
  cases h with
  | query query =>
    rw [ofQuery, ofPairs_eq_after, List.map_map]
    rfl
  | body h =>
    cases h
    rw [after, List.foldl_map, addMember_eq]
  | pairs pairs => exact ofPairs_eq_after pairs

/-- Parameters are an ordered multimap: however they were made and are changed, their keys are distinct, and
what is there, in which order and with which values, is what the whole history tells.  A change leaves all but
its own keys as they are. -/
theorem ordered_multimap {start : Params} {origin : List Change} (h : start.ComesFrom origin)
    (changes : List Change) :
    (start.after changes).keys.Nodup ∧ (start.after changes).Follows (origin ++ changes)
      ∧ (start.after changes).ChangesInPlace := by
  have hstart : start.Follows origin := by
    rw [h.eq_after]
    exact Follows.empty.after origin
  have hfollows := hstart.after changes
  exact ⟨hfollows.nodup, hfollows, changesInPlace hfollows.nodup⟩

/-- A body with two tags, a page and a key without values. -/
def tagged : List (String × Json) :=
  [("tag", .list [.text "a", .text "b"]), ("page", .text "1"), ("owner", .list [])]

/-- Changes that take the tags out and put one in anew, and set what was left out. -/
def retagged : List Change :=
  [.remove "tag", .push "page" (.text "2"), .push "tag" (.text "c"), .without ["owner", "format"],
    .setAll "owner" []]

theorem ordered_multimap_sample :
    ∃ start, ofJson (.object tagged) = .ok start
      ∧ (start.after retagged).getAll "tag" = [.text "c"]
      ∧ (start.after retagged).getAll "page" = [.text "1", .text "2"]
      ∧ "owner" ∈ (start.after retagged).keys
      ∧ ((start.after retagged).without ["owner"]).keys = ["page", "tag"] := by
  have hbody : ofJson (.object tagged) = .ok (tagged.foldl addMember .empty) := rfl
  obtain ⟨_, hfollows, hplace⟩ := ordered_multimap (.body hbody) retagged
  refine ⟨_, hbody, hfollows.values "tag", hfollows.values "page", (hfollows.there "owner").mpr ⟨7, rfl⟩, ?_⟩
  exact (hplace.without ["owner"]).1

end SchemaSearch.Params
