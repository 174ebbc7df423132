import SchemaSearch.Proofs.Search.Controls
import SchemaSearch.Proofs.Search.Encodings
import SchemaSearch.Proofs.Search.Ordering

/-!
# The order of searches that ask for none

A search without an order has the one that its settings give.  Aliases are for clients: the order of the
settings is read as it stands, and only one that is sent has its aliases replaced.

Main statement: sending the order of the settings changes nothing if no alias occurs in it, and has the
path of an alias in its place if it names one (`default_order_sent`).  In general it is not the same
(`not_defaultAsSent`).
-/

namespace SchemaSearch

open Query Schema

/-- The order of a root is asked for under one key, which asks for nothing else: it is no field to search, no
flag, no boolean and no alias, and no other key stands for it. -/
structure Transformer.OrdersAlone (t : Transformer) (c : SearchConfig) (p : Params) : Prop where
  filter : orderParam ∈ c.searchFilters
  flag : c.includeInactiveParam ≠ orderParam
  boolean : orderParam ∉ t.booleans
  unnamed : t.renames.get? orderParam = none
  absent : ∀ key ∈ p.keys, t.renames.targetOf key ≠ orderParam

section Defaults

variable {r : Registry} {c : SearchConfig} {root : String} {p : Params} {t : Transformer}

/-! ## An order that is put in -/

namespace Transformer.OrdersAlone

variable (h : t.OrdersAlone c p)

include h

theorem targetOf_order : t.renames.targetOf orderParam = orderParam := by
  rw [Renames.targetOf, h.unnamed]
  rfl

theorem fresh : orderParam ∉ p.keys := fun hmem => h.absent orderParam hmem h.targetOf_order

/-- Once an order is put in, its key is the only one that stands for it. -/
theorem targetOf_eq_iff_insertAt (place : Nat) (values : List Json) :
    ∀ key ∈ (p.insertAt place orderParam values).keys,
      t.renames.targetOf key = orderParam ↔ key = orderParam := by
  intro key hkey
  rcases Params.mem_keys_insertAt.mp hkey with rfl | hkey
  · exact iff_of_true h.targetOf_order rfl
  · refine iff_of_false (h.absent key hkey) ?_
    rintro rfl
    exact h.fresh hkey

end Transformer.OrdersAlone

/-- Orders come through to the search with their aliases replaced. -/
theorem Narrowed.getAll_order {n : Narrowed} (ht : Transformer.ofRoot r root = .ok t)
    (hflag : c.includeInactiveParam ≠ orderParam) (hboolean : orderParam ∉ t.booleans)
    (hself : ∀ key ∈ p.keys, t.renames.targetOf key = orderParam ↔ key = orderParam) (hkeys : p.keys.Nodup)
    (h : Narrowed.ofParams r c root p = .ok n) :
    n.params.getAll orderParam = (p.getAll orderParam).map t.renames.expandOrder := by
  obtain ⟨t', transformed, _, _, ht', htransformed, _⟩ := ofParams_eq_ok h
  cases ht'.symm.trans ht
  obtain ⟨coerced, hcoerced, rfl⟩ := process_eq_ok htransformed
  have hsame := (Params.coerced_coerceBooleans hcoerced).keys
  rw [getAll_transformed ht htransformed hflag.symm (by decide) h, Params.getAll_expandOrder_self,
    Params.getAll_applyRenames_self (hsame ▸ hkeys) (hsame ▸ hself),
    Params.getAll_coerceBooleans hboolean hcoerced]

/-- A search with an order is the one without it whose settings give that order, its aliases replaced. -/
theorem Prepared.ofParams_insertAt_order (ht : Transformer.ofRoot r root = .ok t) (hkeys : p.keys.Nodup)
    (halone : t.OrdersAlone c p) (place : Nat) (text : String) :
    Prepared.ofParams r c root (p.insertAt place orderParam [.text text])
      = Prepared.ofParams r { c with defaultOrder := t.renames.expanded text } root p := by
  have hself := halone.targetOf_eq_iff_insertAt place [.text text]
  have hnarrow := Narrowed.ofParams_without ht halone.boolean halone.flag (by decide) hself
  rw [Params.without_insertAt halone.fresh] at hnarrow
  -- dates, flags and aliases do not look at the order of the settings
  have hsettings : Narrowed.ofParams r { c with defaultOrder := t.renames.expanded text } root p
      = Narrowed.ofParams r c root p := rfl
  rw [Prepared.ofParams_eq, Prepared.ofParams_eq, hsettings, hnarrow, bind_map_left]
  cases hn : Narrowed.ofParams r c root (p.insertAt place orderParam [.text text]) with
  | error error => rfl
  | ok n =>
    have hsent : n.params.getAll orderParam = [.text (t.renames.expanded text)] := by
      rw [Narrowed.getAll_order ht halone.flag halone.boolean hself
        (Params.nodup_keys_insertAt hkeys halone.fresh place _) hn, Params.getAll_insertAt halone.fresh,
        List.map_singleton, Renames.expandOrder_text]
    have hasked : n.params.getText? orderParam = some (t.renames.expanded text) := by
      rw [Params.getText?, Params.get?, hsent]
      rfl
    have hgone : (n.params.without [orderParam]).getText? orderParam = none := by
      rw [Params.getText?, Params.get?, Params.getAll_without_of_mem List.mem_cons_self]
      rfl
    have hsearch : Prepared.searchFields { c with defaultOrder := t.renames.expanded text } n.scope
        (n.params.without [orderParam]) = Prepared.searchFields c n.scope n.params :=
      n.searchFields_without halone.filter (by decide)
    have hpage : Page.ofParams (n.params.without [orderParam]) c.defaultPageSize
        = Page.ofParams n.params c.defaultPageSize := Page.ofParams_without (by decide) (by decide) _ _
    show n.finish r c root = Narrowed.finish { n with params := n.params.without [orderParam] } r
      { c with defaultOrder := t.renames.expanded text } root
    simp only [Narrowed.finish, Prepared.orderText, hasked, hgone, hsearch, hpage, Option.getD_some,
      Option.getD_none]

/-! ## The order of the settings -/

theorem Schema.Renames.expanded_of_firstIn?_eq_none {renames : Renames} {text : String}
    (h : renames.firstIn? text = none) : renames.expanded text = text := by
  rw [Renames.expanded, Renames.expandText]
  show ((renames.firstIn? text).map _).getD text = text
  rw [h]
  rfl

/-- A search that is asked for no order has the one that its settings are read as. -/
theorem Prepared.read_default {s : Prepared} (ht : Transformer.ofRoot r root = .ok t)
    (hkeys : p.keys.Nodup) (halone : t.OrdersAlone c p) (h : Prepared.ofParams r c root p = .ok s) :
    SortOrder.read c.defaultOrder r root = .ok s.order := by
  rw [Prepared.ofParams_eq] at h
  obtain ⟨n, hn, h⟩ := bind_eq_ok h
  have hself : ∀ key ∈ p.keys, t.renames.targetOf key = orderParam ↔ key = orderParam := by
    intro key hkey
    refine iff_of_false (halone.absent key hkey) ?_
    rintro rfl
    exact halone.fresh hkey
  have hnone : p.getAll orderParam = [] := by
    by_contra hsome
    exact halone.fresh (Params.mem_keys_of_getAll hsome)
  have hasked : n.params.getText? orderParam = none := by
    rw [Params.getText?, Params.get?, Narrowed.getAll_order ht halone.flag halone.boolean hself hkeys hn, hnone]
    rfl
  obtain ⟨searched, _, h⟩ := bind_eq_ok h
  obtain ⟨order, horder, h⟩ := bind_eq_ok h
  obtain ⟨page, _, h⟩ := bind_eq_ok h
  cases h
  rw [Prepared.orderText, hasked] at horder
  exact horder

end Defaults

/-- The order of the settings is read as it stands.  To send it changes nothing if no alias occurs in it; if
it names an alias, and no other alias is found in it, it is the search whose settings give the path of that
alias. -/
theorem default_order_sent {r : Registry} {c : SearchConfig} {root : String} {p : Params}
    (hkeys : p.keys.Nodup)
    (halone : ∀ t, Transformer.ofRoot r root = .ok t → t.OrdersAlone c p) (place : Nat) :
    (∀ s, Prepared.ofParams r c root p = .ok s → SortOrder.read c.defaultOrder r root = .ok s.order)
    ∧ ((∀ t, Transformer.ofRoot r root = .ok t → t.renames.firstIn? c.defaultOrder = none) →
      Prepared.ofParams r c root (p.insertAt place orderParam [.text c.defaultOrder])
        = Prepared.ofParams r c root p)
    ∧ ∀ t direction name path, Transformer.ofRoot r root = .ok t → t.renames.get? name = some path →
      c.defaultOrder = SortOrder.written direction name →
      (∀ key path, t.renames.firstIn? c.defaultOrder = some (key, path) → key = name) →
      (direction = .descending → ∃ x ∈ name.toList, x ≠ '-') →
      Prepared.ofParams r c root (p.insertAt place orderParam [.text c.defaultOrder])
        = Prepared.ofParams r { c with defaultOrder := SortOrder.written direction path } root p := by
  refine ⟨fun s hs => ?_, fun hfree => ?_, fun t direction name path ht hpath hdefault hfirst hname => ?_⟩
  · obtain ⟨n, hn, _⟩ := bind_eq_ok (Prepared.ofParams_eq r c root p ▸ hs)
    obtain ⟨t, _, _, _, ht, _⟩ := Narrowed.ofParams_eq_ok hn
    exact Prepared.read_default ht hkeys (halone t ht) hs
  · cases ht : Transformer.ofRoot r root with
    | error error =>
      -- a root that does not exist has no search at all
      rw [Prepared.ofParams, Prepared.ofParams, ht]
      rfl
    | ok t =>
      rw [Prepared.ofParams_insertAt_order ht hkeys (halone t ht) place,
        Renames.expanded_of_firstIn?_eq_none (hfree t ht)]
  · rw [hdefault] at hfirst
    have hexpanded : t.renames.expanded c.defaultOrder = SortOrder.written direction path := by
      rw [hdefault, expanded_written hfirst hname, Renames.targetOf, hpath]
      rfl
    rw [Prepared.ofParams_insertAt_order ht hkeys (halone t ht) place, hexpanded]

/-- The standard settings with another order. -/
def orderedBy (order : String) : SearchConfig := { SearchConfig.standard with defaultOrder := order }

/-- A client who sends the settings' order by an alias is understood, and so is one who sends the standard
order. -/
theorem default_order_sent_sample :
    (∃ s, Prepared.ofParams Service.registry (orderedBy "-topics__title") "questions"
          ⟨[("title", [.text "x"])]⟩ = .ok s
        ∧ Prepared.ofParams Service.registry (orderedBy "-topic") "questions"
          (Params.insertAt ⟨[("title", [.text "x"])]⟩ 0 "order_by" [.text "-topic"]) = .ok s)
    ∧ ∃ s, Prepared.ofParams Service.registry .standard "questions" ⟨[("title", [.text "x"])]⟩ = .ok s
        ∧ SortOrder.read "-created_at" Service.registry "questions" = .ok s.order
        ∧ Prepared.ofParams Service.registry .standard "questions"
          (Params.insertAt ⟨[("title", [.text "x"])]⟩ 1 "order_by" [.text "-created_at"]) = .ok s := by
  have ht : Transformer.ofRoot Service.registry "questions" = .ok ⟨_, _⟩ := rfl
  have halone : ∀ order t, Transformer.ofRoot Service.registry "questions" = .ok t →
      t.OrdersAlone (orderedBy order) ⟨[("title", [.text "x"])]⟩ := by
    intro order t ht'
    cases ht.symm.trans ht'
    have hsettings : orderParam ∈ SearchConfig.standard.searchFilters
        ∧ SearchConfig.standard.includeInactiveParam ≠ orderParam := by decide
    exact ⟨hsettings.1, hsettings.2, by decide, rfl, by decide⟩
  constructor
  · obtain ⟨_, _, halias⟩ := default_order_sent (p := ⟨[("title", [.text "x"])]⟩) (by decide)
      (halone "-topic") 0
    have hsent := halias _ .descending "topic" "topics__title" ht rfl rfl
      (fun key path hfirst => by cases hfirst; rfl) (fun _ => ⟨'t', by decide, by decide⟩)
    exact ⟨_, rfl, hsent.trans rfl⟩
  · obtain ⟨hread, hplain, _⟩ := default_order_sent (p := ⟨[("title", [.text "x"])]⟩) (by decide)
      (halone "-created_at") 1
    refine ⟨_, rfl, hread _ rfl, (hplain fun t ht' => ?_).trans rfl⟩
    cases ht.symm.trans ht'
    rfl

/-- What is asked of the order of the settings where they fulfil a condition: to send it changes nothing. -/
def DefaultAsSent (side : Transformer → SearchConfig → Params → Prop) : Prop :=
  ∀ (r : Registry) (c : SearchConfig) (root : String) (p : Params) (t : Transformer) (place : Nat),
    Transformer.ofRoot r root = .ok t → p.keys.Nodup → orderParam ∉ p.keys → side t c p →
    SameOutcome (Prepared.ofParams r c root p)
      (Prepared.ofParams r c root (p.insertAt place orderParam [.text c.defaultOrder]))

/-- The standard settings without search filters, so that an order is searched like a field. -/
def searchesOrders : SearchConfig := { SearchConfig.standard with searchFilters := [] }

theorem SameOutcome.isOk_eq {α : Type} {x y : Except SearchError α} (h : SameOutcome x y) :
    x.isOk = y.isOk := by
  cases h <;> rfl

/-- An alias is an order for clients alone, and where the order is no search filter it is searched like a
field. -/
theorem not_defaultAsSent :
    ¬ DefaultAsSent (fun t c p => t.OrdersAlone c p)
    ∧ ¬ DefaultAsSent fun t c _ => t.renames.firstIn? c.defaultOrder = none := by
  have ht : Transformer.ofRoot Service.registry "questions" = .ok ⟨_, _⟩ := rfl
  constructor
  · intro h
    have hsame := h Service.registry (orderedBy "-topic") "questions" ⟨[]⟩ _ 0 ht (by decide) (by decide)
      ⟨by decide, by decide, by decide, rfl, by decide⟩
    -- the settings' order is refused, the same order of a client is not
    exact Bool.false_ne_true hsame.isOk_eq
  · intro h
    have hsame := h Service.registry searchesOrders "questions" ⟨[]⟩ _ 0 ht (by decide) (by decide) rfl
    -- a client's order is refused as an unknown field, the settings' order is not
    exact Bool.false_ne_true hsame.isOk_eq.symm

end SchemaSearch
