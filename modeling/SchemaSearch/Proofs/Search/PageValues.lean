import SchemaSearch.Proofs.Decimal.Numerals
import SchemaSearch.Proofs.Search.Controls
import SchemaSearch.Service.Resource

/-!
# Values of pages and orders

A page, a page size and an order are read from the text of the last value under their keys.  The null value, lists
and objects have no text, and where the last value is one of these, nothing is asked for: the default is taken, as
if the key had not been sent.

Main statement: pages are read where the last values denote numbers that fit or have no text, and values without
text do nothing (`mute_values_default`).
-/

namespace SchemaSearch

open Schema

/-! ## Values -/

namespace Json

/-- Whether a value has no text. -/
def isMute : Json → Bool
  | .null | .list _ | .object _ => true
  | .bool _ | .number _ | .text _ => false

/-- A text denotes a whole number up to white space around it, and a whole number denotes itself. -/
inductive Denotes : Json → Int → Prop
  | text {s : String} {n : Int} (h : Decimal.Denotes (Text.trim s.toList) n) : Denotes (.text s) n
  | number {n : Int} : Denotes (.number (.whole n)) n

theorem scalarText_eq_none_iff {value : Json} : value.scalarText = none ↔ value.isMute = true := by
  cases value <;> simp [scalarText, isMute]

theorem Denotes.isMute_eq_false {value : Json} {n : Int} (h : value.Denotes n) : value.isMute = false := by
  cases h <;> rfl

/-- What a value denotes is what its text denotes. -/
theorem denotes_iff {value : Json} {s : String} {n : Int} (h : value.scalarText = some s) :
    value.Denotes n ↔ Decimal.Denotes (Text.trim s.toList) n := by
  cases value with
  | text t =>
    cases h
    exact ⟨fun hn => by cases hn with | text hn => exact hn, .text⟩
  | number m =>
    cases h
    cases m with
    | whole m =>
      have hm := Decimal.denotes_toString m
      rw [Number.toText, hm.trim_eq]
      constructor
      · intro hn
        cases hn
        exact hm
      · intro hn
        rw [hn.unique hm]
        exact .number
    | real x =>
      refine iff_of_false (fun hn => nomatch hn) ?_
      exact x.not_denotes_toText n
  | bool b =>
    cases h
    refine iff_of_false (fun hn => nomatch hn) fun hn => ?_
    -- no letter of `true` or `false` is a digit or a sign
    cases b with
    | true => exact absurd (hn.isDigit_or 'e' (by decide)) (by decide)
    | false => exact absurd (hn.isDigit_or 'e' (by decide)) (by decide)
  | null => cases h
  | list _ => cases h
  | object _ => cases h

end Json

namespace Params

/-- A key says nothing: it has no value, or a last one without text. -/
def Mute (p : Params) (key : String) : Prop := ∀ value, p.get? key = some value → value.isMute = true

/-- The last value of a key denotes a number of 64 bits. -/
def Names (p : Params) (key : String) (n : Int) : Prop :=
  ∃ value, p.get? key = some value ∧ value.Denotes n ∧ Decimal.minSigned ≤ n ∧ n ≤ Decimal.maxSigned

variable {p : Params} {key : String} {n : Int}

theorem mute_iff : p.Mute key ↔ p.getText? key = none := by
  rw [getText?, Option.bind_eq_none_iff]
  exact forall_congr' fun value => imp_congr_right fun _ => Json.scalarText_eq_none_iff.symm

/-- A key that says nothing names no number. -/
theorem Mute.not_names (h : p.Mute key) : ¬ p.Names key n := by
  rintro ⟨value, hvalue, hn, _⟩
  have hmute := h value hvalue
  rw [hn.isMute_eq_false] at hmute
  cases hmute

end Params

/-! ## Pages -/

namespace Page

variable {p : Params} {key : String} {defaultSize : Nat} {page : Page}

/-- A key that says nothing asks for nothing, and any other asks for the number that it names. -/
theorem readKey_eq_ok_iff {asked : Option Int} :
    readKey p key = .ok asked ↔ p.Mute key ∧ asked = none ∨ ∃ n, asked = some n ∧ p.Names key n := by
  cases htext : p.getText? key with
  | none =>
    have hmute := Params.mute_iff.mpr htext
    have hread : readKey p key = .ok none := by rw [readKey, htext]
    rw [hread, Except.ok.injEq, eq_comm]
    refine ⟨fun h => .inl ⟨hmute, h⟩, ?_⟩
    rintro (⟨_, h⟩ | ⟨n, _, hn⟩)
    · exact h
    · exact absurd hn hmute.not_names
  | some s =>
    have hsome : ¬ p.Mute key := by
      rw [Params.mute_iff, htext]
      exact Option.some_ne_none s
    obtain ⟨value, hvalue, hs⟩ := Option.bind_eq_some_iff.mp htext
    have hnames : ∀ n, p.Names key n ↔ Decimal.readSigned (Text.trim s.toList) = some n := by
      intro n
      rw [Decimal.readSigned_eq_some_iff, ← Json.denotes_iff hs, Params.Names, hvalue]
      simp
    cases hread : Decimal.readSigned (Text.trim s.toList) with
    | none =>
      have hrefused : readKey p key = .error .pageNotInteger := by simp only [readKey, htext, hread]
      rw [hrefused]
      simp [hnames, hsome, hread]
    | some m =>
      have hasked : readKey p key = .ok (some m) := by simp only [readKey, htext, hread]
      rw [hasked]
      simp [hnames, hsome, hread, eq_comm]

/-- What some parameters ask of pages, where a key that lacks a value stands for its default. -/
structure IsAsked (lacks : String → Prop) (p : Params) (defaultSize : Nat) (page : Page) : Prop where
  number : lacks param ∧ page.number = 1 ∨ p.Names param page.number
  size : lacks sizeParam ∧ page.size = max defaultSize 1 ∨ 0 < page.size ∧ p.Names sizeParam page.size

theorem sizeOf_eq_ok_iff {asked : Option Int} {size : Nat} :
    sizeOf defaultSize asked = .ok size ↔
      asked = none ∧ size = max defaultSize 1 ∨ 0 < size ∧ asked = some (size : Int) := by
  cases asked with
  | none => simp [sizeOf, eq_comm]
  | some n =>
    rw [sizeOf]
    split
    · rename_i hpos
      simp only [Except.ok.injEq, reduceCtorEq, false_and, false_or, Option.some_inj]
      omega
    · rename_i hneg
      simp only [reduceCtorEq, false_and, false_or, Option.some_inj, false_iff]
      omega

/-- A page is read if each of its keys says nothing or names a number, which for the size is positive. -/
theorem ofParams_eq_ok_iff : ofParams p defaultSize = .ok page ↔ page.IsAsked p.Mute p defaultSize := by
  constructor
  · intro h
    obtain ⟨number, hnumber, h⟩ := bind_eq_ok h
    obtain ⟨asked, hasked, h⟩ := bind_eq_ok h
    obtain ⟨size, hsize, h⟩ := bind_eq_ok h
    cases h
    constructor
    · obtain ⟨hmute, rfl⟩ | ⟨n, rfl, hn⟩ := readKey_eq_ok_iff.mp hnumber
      · exact .inl ⟨hmute, rfl⟩
      · exact .inr hn
    · obtain ⟨rfl, hdefault⟩ | ⟨hpos, rfl⟩ := sizeOf_eq_ok_iff.mp hsize
      · obtain ⟨hmute, _⟩ | ⟨n, hn, _⟩ := readKey_eq_ok_iff.mp hasked
        · exact .inl ⟨hmute, hdefault⟩
        · cases hn
      · obtain ⟨_, hnone⟩ | ⟨n, hn, hnames⟩ := readKey_eq_ok_iff.mp hasked
        · cases hnone
        · cases hn
          exact .inr ⟨hpos, hnames⟩
  · rintro ⟨hnumber, hsize⟩
    obtain ⟨number, hread, hpage⟩ : ∃ number, readKey p param = .ok number ∧ number.getD 1 = page.number := by
      obtain ⟨hmute, hone⟩ | hnames := hnumber
      · exact ⟨none, readKey_eq_ok_iff.mpr (.inl ⟨hmute, rfl⟩), hone.symm⟩
      · exact ⟨some page.number, readKey_eq_ok_iff.mpr (.inr ⟨_, rfl, hnames⟩), rfl⟩
    obtain ⟨asked, hasked, hfits⟩ : ∃ asked, readKey p sizeParam = .ok asked
        ∧ sizeOf defaultSize asked = .ok page.size := by
      obtain ⟨hmute, hdefault⟩ | ⟨hpos, hnames⟩ := hsize
      · exact ⟨none, readKey_eq_ok_iff.mpr (.inl ⟨hmute, rfl⟩),
          sizeOf_eq_ok_iff.mpr (.inl ⟨rfl, hdefault⟩)⟩
      · exact ⟨some page.size, readKey_eq_ok_iff.mpr (.inr ⟨_, rfl, hnames⟩),
          sizeOf_eq_ok_iff.mpr (.inr ⟨hpos, rfl⟩)⟩
    rw [ofParams, hread, ok_bind, hasked, ok_bind, hfits, ok_bind, hpage]

/-- Nothing that is sent is passed over, on a page that is read, if the keys that say nothing have no value. -/
theorem isAsked_get?_iff (h : page.IsAsked p.Mute p defaultSize) :
    page.IsAsked (fun key => p.get? key = none) p defaultSize ↔
      ∀ key ∈ [param, sizeParam], p.Mute key → p.get? key = none := by
  constructor
  · rintro ⟨hnumber, hsize⟩ key hkey hmute
    simp only [List.mem_cons, List.not_mem_nil, or_false] at hkey
    obtain rfl | rfl := hkey
    · exact (hnumber.resolve_right hmute.not_names).1
    · exact (hsize.resolve_right fun hnames => hmute.not_names hnames.2).1
  · intro hnone
    exact ⟨h.number.imp_left (And.imp_left (hnone param (by decide))),
      h.size.imp_left (And.imp_left (hnone sizeParam (by decide)))⟩

end Page

/-! ## Keys that say nothing -/

section Searches

variable {r : Registry} {c : SearchConfig} {root key : String} {t : Transformer} {p q : Params}

theorem Params.Mute.expandOrder (h : p.Mute key) (renames : Renames) : (p.expandOrder renames).Mute key := by
  by_cases horder : key = orderParam
  · subst horder
    intro value hvalue
    rw [get?, getAll_expandOrder_self, List.getLast?_map, Option.map_eq_some_iff] at hvalue
    obtain ⟨sent, hsent, rfl⟩ := hvalue
    -- there is no text to replace aliases in
    have hmute := h sent hsent
    rw [Renames.expandOrder, Json.scalarText_eq_none_iff.mpr hmute]
    exact hmute
  · intro value hvalue
    rw [get?, getAll_expandOrder horder] at hvalue
    exact h value hvalue

/-- A key that says nothing, and stands for itself alone, says nothing behind the stages in front of the search. -/
theorem Narrowed.mute_params {n : Narrowed} (ht : Transformer.ofRoot r root = .ok t) (hboolean : key ∉ t.booleans)
    (hparam : key ≠ c.includeInactiveParam) (hbound : DateBounds.isBoundKey key = false)
    (hself : ∀ k ∈ p.keys, t.renames.targetOf k = key ↔ k = key) (hkeys : p.keys.Nodup) (hmute : p.Mute key)
    (h : Narrowed.ofParams r c root p = .ok n) : n.params.Mute key := by
  obtain ⟨t', transformed, _, _, ht', htransformed, _⟩ := ofParams_eq_ok h
  cases ht'.symm.trans ht
  obtain ⟨coerced, hcoerced, rfl⟩ := process_eq_ok htransformed
  have hsame := (Params.coerced_coerceBooleans hcoerced).keys
  have hrenamed : (coerced.applyRenames t.renames).Mute key := by
    intro value hvalue
    rw [Params.get?, Params.getAll_applyRenames_self (hsame ▸ hkeys) (hsame ▸ hself),
      Params.getAll_coerceBooleans hboolean hcoerced] at hvalue
    exact hmute value hvalue
  intro value hvalue
  rw [Params.get?, getAll_transformed ht htransformed hparam hbound h] at hvalue
  exact hrenamed.expandOrder t.renames value hvalue

/-- Where the last value has no text, the key may as well be left out. -/
theorem Params.Mute.getText?_without (h : p.Mute key) (other : String) :
    (p.without [key]).getText? other = p.getText? other := by
  by_cases hother : other = key
  · subst hother
    rw [mute_iff.mp h, getText?, get?, getAll_without_of_mem List.mem_cons_self]
    rfl
  · exact Params.getText?_without (fun hmem => hother (List.mem_singleton.mp hmem)) p

/-- An order or a page that says nothing is not seen when a search is finished. -/
theorem Narrowed.finish_without_mute (n : Narrowed) (hmute : n.params.Mute key) (hfilter : key ∈ c.searchFilters)
    (hoperator : Operator.param ∉ [key]) :
    Narrowed.finish { n with params := n.params.without [key] } r c root = n.finish r c root := by
  have hsearch := n.searchFields_without hfilter hoperator
  have horder : Prepared.orderText c (n.params.without [key]) = Prepared.orderText c n.params :=
    Prepared.orderText_congr c (hmute.getText?_without orderParam)
  have hpage : Page.ofParams (n.params.without [key]) c.defaultPageSize
      = Page.ofParams n.params c.defaultPageSize :=
    Page.ofParams_congr _ (hmute.getText?_without Page.param) (hmute.getText?_without Page.sizeParam)
  unfold finish
  simp only [hsearch, horder, hpage]

/-- An order, a page or a page size without text is passed over: the search is the one without it. -/
theorem Prepared.ofParams_without_mute (ht : Transformer.ofRoot r root = .ok t)
    (hkey : key ∈ [orderParam, Page.param, Page.sizeParam]) (hfilter : key ∈ c.searchFilters)
    (hboolean : key ∉ t.booleans) (hparam : key ≠ c.includeInactiveParam)
    (hself : ∀ k ∈ p.keys, t.renames.targetOf k = key ↔ k = key) (hkeys : p.keys.Nodup) (hmute : p.Mute key) :
    Prepared.ofParams r c root (p.without [key]) = Prepared.ofParams r c root p := by
  have hoperators : ∀ k ∈ [orderParam, Page.param, Page.sizeParam], Operator.param ∉ [k] := by decide
  have hbounds : ∀ k ∈ [orderParam, Page.param, Page.sizeParam], DateBounds.isBoundKey k = false := by decide
  have hnarrow := Narrowed.ofParams_without (c := c) ht hboolean hparam.symm (hbounds key hkey) hself
  rw [Prepared.ofParams_eq, Prepared.ofParams_eq, hnarrow, bind_map_left]
  cases hn : Narrowed.ofParams r c root p with
  | error error => rfl
  | ok n =>
    have hsaid := Narrowed.mute_params ht hboolean hparam (hbounds key hkey) hself hkeys hmute hn
    exact n.finish_without_mute hsaid hfilter (hoperators key hkey)

end Searches

/-- A page is read where every key names a number that fits or says nothing, and fails alike everywhere else.  So
whatever is sent is read or refused, if no key has a last value without text; such a key is passed over, as is an
order in a search. -/
theorem mute_values_default (p : Params) (defaultSize : Nat) :
    (∀ page, Page.ofParams p defaultSize = .ok page ↔ page.IsAsked p.Mute p defaultSize)
    ∧ (∀ error, Page.ofParams p defaultSize = .error error → error = .pageNotInteger)
    ∧ (∀ page, Page.ofParams p defaultSize = .ok page →
        (page.IsAsked (fun key => p.get? key = none) p defaultSize ↔
          ∀ key ∈ [Page.param, Page.sizeParam], p.Mute key → p.get? key = none))
    ∧ ∀ (r : Registry) (c : SearchConfig) (root key : String) (t : Transformer),
      Transformer.ofRoot r root = .ok t → key ∈ [orderParam, Page.param, Page.sizeParam] →
      key ∈ c.searchFilters → key ∉ t.booleans → key ≠ c.includeInactiveParam →
      (∀ k ∈ p.keys, t.renames.targetOf k = key ↔ k = key) → p.keys.Nodup → p.Mute key →
      Prepared.ofParams r c root (p.without [key]) = Prepared.ofParams r c root p := by
  have hfails := @failsOnly_page (· = .pageNotInteger) rfl p defaultSize
  refine ⟨fun _ => Page.ofParams_eq_ok_iff, hfails, fun page hpage => ?_, ?_⟩
  · exact Page.isAsked_get?_iff (Page.ofParams_eq_ok_iff.mp hpage)
  · intro r c root key t ht hkey hfilter hboolean hparam hself hkeys hmute
    exact Prepared.ofParams_without_mute ht hkey hfilter hboolean hparam hself hkeys hmute

/-- The third page, of the default size where the size is null; and an order that is null, in front of a title. -/
theorem mute_values_default_sample :
    Page.ofParams ⟨[("page", [.text " +3"]), ("per_page", [.null])]⟩ 20 = .ok ⟨3, 20⟩
    ∧ Prepared.ofParams Service.registry .standard "questions" ⟨[("title", [.text "x"])]⟩
      = Prepared.ofParams Service.registry .standard "questions"
          ⟨[("order_by", [.null]), ("title", [.text "x"])]⟩ := by
  constructor
  · refine ((mute_values_default _ 20).1 ⟨3, 20⟩).mpr ⟨.inr ?_, .inl ⟨?_, rfl⟩⟩
    · have hdigit : Decimal.DenotesNat ['3'] 3 := @Decimal.DenotesNat.digit 3 (by decide)
      have hthree : Decimal.Denotes ['+', '3'] 3 := .plus hdigit
      exact ⟨.text " +3", rfl, .text hthree, by decide, by decide⟩
    · intro value hvalue
      cases hvalue
      rfl
  · have ht : Transformer.ofRoot Service.registry "questions" = .ok ⟨_, _⟩ := rfl
    refine (mute_values_default ⟨[("order_by", [.null]), ("title", [.text "x"])]⟩ 20).2.2.2 Service.registry
      .standard "questions" "order_by" _ ht (by decide) (by decide) (by decide) (by decide) (by decide)
      (by decide) ?_
    intro value hvalue
    cases hvalue
    rfl

/-- A page that is null is read as the first one, and an order that is null is no reason to refuse a search. -/
theorem not_values_refused :
    (¬ ∀ (p : Params) (defaultSize : Nat) (page : Page), Page.ofParams p defaultSize = .ok page →
      page.IsAsked (fun key => p.get? key = none) p defaultSize)
    ∧ ¬ ∀ (r : Registry) (c : SearchConfig) (root : String) (p : Params) (value : Json) (s : Prepared),
      p.get? orderParam = some value → value.isMute = true → Prepared.ofParams r c root p ≠ .ok s := by
  constructor
  · intro h
    have hasked := h ⟨[("page", [.null])]⟩ 100 ⟨1, 100⟩ rfl
    obtain ⟨hnone, _⟩ | ⟨value, hvalue, hn, _⟩ := hasked.number
    · cases hnone
    · cases hvalue
      cases hn
  · intro h
    exact h Service.registry .standard "questions" ⟨[("order_by", [.null])]⟩ .null _ rfl rfl rfl

end SchemaSearch
