import SchemaSearch.Proofs.Search.Narrowing
import SchemaSearch.Proofs.Service.Pages

/-!
# Rows with one key

An order names one key, and rows with one key may be listed either way, each time the rows are listed
anew.  Every listing has the same keys in the same places, so only such rows change their places.  They
do no harm on one page; where they stand on two, the pages of different listings may both have a row, and
another row may be on none.

Main statements: two pages share no row, whatever the listings, just if no key is on both, and a row is
sure to be on a page just if all rows with its key are on one (`shareNone_iff_keys`); an order by a key
that rows share keeps neither (`not_shareNone`).
-/

namespace SchemaSearch

open Query Schema Store

/-- Pages are never without a size. -/
theorem Page.size_pos {defaultSize size : Nat} {asked : Option Int}
    (h : sizeOf defaultSize asked = .ok size) : 0 < size := by
  cases asked with
  | none =>
    cases h
    exact Nat.lt_of_lt_of_le Nat.zero_lt_one (Nat.le_max_right _ _)
  | some n =>
    rw [sizeOf] at h
    split at h
    · cases h
      omega
    · cases h

theorem Prepared.size_pos {r : Registry} {c : SearchConfig} {root : String} {p : Params} {s : Prepared}
    (h : ofParams r c root p = .ok s) : 0 < s.page.size := by
  rw [ofParams_eq] at h
  obtain ⟨n, _, h⟩ := bind_eq_ok h
  obtain ⟨_, _, h⟩ := bind_eq_ok h
  obtain ⟨_, _, h⟩ := bind_eq_ok h
  obtain ⟨page, hpage, h⟩ := bind_eq_ok h
  cases h
  obtain ⟨_, _, hpage⟩ := bind_eq_ok hpage
  obtain ⟨_, _, hpage⟩ := bind_eq_ok hpage
  obtain ⟨size, hsize, hpage⟩ := bind_eq_ok hpage
  cases hpage
  exact Page.size_pos hsize

namespace Service

section Places

variable {db : Database} {s : Prepared} {rows rows' : List Row}

/-! ## Places in a listing -/

/-- Whether rows are a listing is told by the rows, in any order, and by their keys in this one. -/
theorem isListing_iff : IsListing db s rows ↔
    rows.Perm (selectedRows db s.query.table s.query.condition)
      ∧ (rows.map (sortKey db s)).Pairwise fun a b => s.order.direction.admits a b = true := by
  rw [List.pairwise_map]
  exact Iff.rfl

/-- All listings have the same keys in the same places. -/
theorem IsListing.map_sortKey_eq (h : IsListing db s rows) (h' : IsListing db s rows') :
    rows.map (sortKey db s) = rows'.map (sortKey db s) := by
  have hperm := (h.1.trans h'.1.symm).map (sortKey db s)
  refine List.Perm.eq_of_pairwise ?_ (isListing_iff.mp h).2 (isListing_iff.mp h').2 hperm
  intro a b _ _ hab hba
  exact Direction.admits_antisymm hab hba

/-- What has a place in one listing has one in every other, and the two have one key. -/
theorem IsListing.exists_at (h : IsListing db s rows) (h' : IsListing db s rows') {i : Nat} {row : Row}
    (hrow : rows[i]? = some row) :
    ∃ other, rows'[i]? = some other ∧ sortKey db s other = sortKey db s row := by
  have hkeys := congrArg (·[i]?) (h.map_sortKey_eq h')
  simp only [List.getElem?_map, hrow, Option.map_some] at hkeys
  exact Option.map_eq_some_iff.mp hkeys.symm

/-- Of distinct rows each has one place. -/
theorem IsListing.getElem?_inj (h : IsListing db s rows)
    (hnodup : (selectedRows db s.query.table s.query.condition).Nodup) {i j : Nat} {row : Row}
    (hi : rows[i]? = some row) (hj : rows[j]? = some row) : i = j := by
  obtain ⟨hlt, _⟩ := List.getElem?_eq_some_iff.mp hi
  exact (List.getElem?_inj hlt (h.1.nodup_iff.mpr hnodup)).mp (hi.trans hj.symm)

/-- Two rows with one key may change places. -/
theorem IsListing.exists_swap (h : IsListing db s rows) {i j : Nat} {row other : Row}
    (hrow : rows[i]? = some row) (hother : rows[j]? = some other)
    (hkey : sortKey db s other = sortKey db s row) :
    ∃ swapped, IsListing db s swapped ∧ swapped[j]? = some row := by
  obtain ⟨hi, hrow⟩ := List.getElem?_eq_some_iff.mp hrow
  obtain ⟨hj, hother⟩ := List.getElem?_eq_some_iff.mp hother
  have hsame : ∀ (k : Nat) (hk : k < rows.length), sortKey db s rows[k] = sortKey db s row →
      (rows.map (sortKey db s)).set k (sortKey db s row) = rows.map (sortKey db s) := by
    intro k hk hrowk
    have hk' : k < (rows.map (sortKey db s)).length := by rwa [List.length_map]
    have hat : (rows.map (sortKey db s))[k] = sortKey db s row := by rw [List.getElem_map, hrowk]
    rw [← hat, List.set_getElem_self]
  have hkeys : ((rows.set i rows[j]).set j rows[i]).map (sortKey db s) = rows.map (sortKey db s) := by
    rw [List.map_set, List.map_set, hrow, hother, hkey, hsame i hi (by rw [hrow]),
      hsame j hj (by rw [hother, hkey])]
  refine ⟨(rows.set i rows[j]).set j rows[i], isListing_iff.mpr ⟨?_, ?_⟩, ?_⟩
  · exact (List.set_set_perm hi hj).trans h.1
  · rw [hkeys]
    exact (isListing_iff.mp h).2
  · rw [List.getElem?_set_self (by rwa [List.length_set]), hrow]

/-! ## Pages of different listings -/

/-- The rows on a page of a search, when they are listed in some order. -/
def pageRows (s : Prepared) (rows : List Row) (number : Int) : List Row :=
  (fetchFrom rows ⟨number, s.page.size⟩).2

/-- Whether the rows with the key of a row are on one page and on no other. -/
def IsKeyOn (db : Database) (s : Prepared) (row : Row) (number : Int) : Prop :=
  ∀ m, ∀ other ∈ (fetch db (s.atPage m)).2, sortKey db s other = sortKey db s row → m = number

theorem fetch_rows (db : Database) (s : Prepared) (number : Int) :
    (fetch db (s.atPage number)).2 = pageRows s (listed db s) number :=
  congrArg Prod.snd (fetch_eq db (s.atPage number))

variable (hsize : 0 < s.page.size) (hcount : total db s ≤ Decimal.maxUnsigned)

include hsize hcount

theorem IsListing.mem_pageRows (h : IsListing db s rows) {row : Row} {number : Int} :
    row ∈ pageRows s rows number
      ↔ ∃ i : Nat, rows[i]? = some row ∧ number = (i / s.page.size : Nat) + 1 := by
  have hrows : rows.length ≤ Decimal.maxUnsigned := by
    rw [h.length_eq]
    exact hcount
  rw [pageRows, fetchFrom_rows hrows]
  exact Page.mem_slice ⟨number, s.page.size⟩ hsize

theorem mem_fetch {row : Row} {number : Int} : row ∈ (fetch db (s.atPage number)).2
    ↔ ∃ i : Nat, (listed db s)[i]? = some row ∧ number = (i / s.page.size : Nat) + 1 := by
  rw [fetch_rows]
  exact (isListing_listed db s).mem_pageRows hsize hcount

/-- Two pages share no row, however the rows are listed for each of them, just if no key is on both. -/
theorem shareNone_iff {m n : Int} :
    (∀ rows rows', IsListing db s rows → IsListing db s rows' →
        ∀ row ∈ pageRows s rows m, row ∉ pageRows s rows' n)
      ↔ ∀ a ∈ (fetch db (s.atPage m)).2, ∀ b ∈ (fetch db (s.atPage n)).2,
        sortKey db s a ≠ sortKey db s b := by
  have hlisted := isListing_listed db s
  constructor
  · intro hnone a ha b hb hkey
    obtain ⟨i, hi, rfl⟩ := (mem_fetch hsize hcount).mp ha
    obtain ⟨j, hj, rfl⟩ := (mem_fetch hsize hcount).mp hb
    -- for the second page let the row of the first be listed in the place of the other
    obtain ⟨swapped, hswapped, hrow⟩ := hlisted.exists_swap hi hj hkey.symm
    refine hnone _ _ hlisted hswapped a ?_ ?_
    · exact (hlisted.mem_pageRows hsize hcount).mpr ⟨i, hi, rfl⟩
    · exact (hswapped.mem_pageRows hsize hcount).mpr ⟨j, hrow, rfl⟩
  · intro hkeys rows rows' hrows hrows' row hrow hrow'
    obtain ⟨i, hi, hm⟩ := (hrows.mem_pageRows hsize hcount).mp hrow
    obtain ⟨j, hj, hn⟩ := (hrows'.mem_pageRows hsize hcount).mp hrow'
    obtain ⟨a, ha, hakey⟩ := hrows.exists_at hlisted hi
    obtain ⟨b, hb, hbkey⟩ := hrows'.exists_at hlisted hj
    refine hkeys a ?_ b ?_ (hakey.trans hbkey.symm)
    · exact (mem_fetch hsize hcount).mpr ⟨i, ha, hm⟩
    · exact (mem_fetch hsize hcount).mpr ⟨j, hb, hn⟩

/-- A row whose key is on one page is on that page, however the rows are listed, and on no other. -/
theorem IsKeyOn.mem_pageRows {row : Row} {number : Int} (h : IsKeyOn db s row number)
    (hrow : row ∈ selectedRows db s.query.table s.query.condition) (hrows : IsListing db s rows)
    (m : Int) : row ∈ pageRows s rows m ↔ m = number := by
  have hplace : ∀ i : Nat, rows[i]? = some row → ((i / s.page.size : Nat) : Int) + 1 = number := by
    intro i hi
    obtain ⟨other, hother, hkey⟩ := hrows.exists_at (isListing_listed db s) hi
    exact h _ other ((mem_fetch hsize hcount).mpr ⟨i, hother, rfl⟩) hkey
  rw [hrows.mem_pageRows hsize hcount]
  constructor
  · rintro ⟨i, hi, rfl⟩
    exact hplace i hi
  · rintro rfl
    obtain ⟨i, hi⟩ := List.mem_iff_getElem?.mp (hrows.1.mem_iff.mpr hrow)
    exact ⟨i, hi, (hplace i hi).symm⟩

/-- A row that no other has the key of has a page of its own. -/
theorem exists_isKeyOn_of_unshared (hnodup : (selectedRows db s.query.table s.query.condition).Nodup)
    {row : Row} (hrow : row ∈ selectedRows db s.query.table s.query.condition)
    (hunshared : ∀ other ∈ selectedRows db s.query.table s.query.condition,
      sortKey db s other = sortKey db s row → other = row) :
    ∃ number, IsKeyOn db s row number := by
  have hlisted := isListing_listed db s
  obtain ⟨i, hi⟩ := List.mem_iff_getElem?.mp (hlisted.1.mem_iff.mpr hrow)
  refine ⟨(i / s.page.size : Nat) + 1, fun m other hother hkey => ?_⟩
  obtain ⟨j, hj, hm⟩ := (mem_fetch hsize hcount).mp hother
  obtain rfl := hunshared other (hlisted.1.mem_iff.mp (List.mem_of_getElem? hj)) hkey
  rwa [hlisted.getElem?_inj hnodup hj hi] at hm

/-- A row that is on some page, however the rows are listed for each page, has its key on one page. -/
theorem exists_isKeyOn_of_mem (hnodup : (selectedRows db s.query.table s.query.condition).Nodup)
    {row : Row} (hrow : row ∈ selectedRows db s.query.table s.query.condition)
    (hfound : ∀ listing : Int → List Row, (∀ n, IsListing db s (listing n)) →
      ∃ n, row ∈ pageRows s (listing n) n) :
    ∃ number, IsKeyOn db s row number := by
  have hlisted := isListing_listed db s
  obtain ⟨i, hi⟩ := List.mem_iff_getElem?.mp (hlisted.1.mem_iff.mpr hrow)
  obtain ⟨own, hown⟩ : ∃ own : Int, own = (i / s.page.size : Nat) + 1 := ⟨_, rfl⟩
  refine ⟨own, fun m other hother hkey => ?_⟩
  obtain ⟨j, hj, hm⟩ := (mem_fetch hsize hcount).mp hother
  obtain ⟨swapped, hswapped, hswap⟩ := hlisted.exists_swap hi hj hkey
  -- for its own page let the row be listed in the place of the other, so that only that page can have it
  have hlistings : ∀ n, IsListing db s (if n = own then swapped else listed db s) := by
    intro n
    split
    · exact hswapped
    · exact hlisted
  obtain ⟨n, hn⟩ := hfound _ hlistings
  by_cases hnown : n = own
  · rw [if_pos hnown] at hn
    obtain ⟨k, hk, hnk⟩ := (hswapped.mem_pageRows hsize hcount).mp hn
    obtain rfl := hswapped.getElem?_inj hnodup hk hswap
    rw [hm, ← hnk, hnown]
  · rw [if_neg hnown] at hn
    obtain ⟨k, hk, hnk⟩ := (hlisted.mem_pageRows hsize hcount).mp hn
    obtain rfl := hlisted.getElem?_inj hnodup hk hi
    exact absurd (hnk.trans hown.symm) hnown

end Places

/-- An order decides between two rows just if their keys differ.  However the rows of an accepted search
are listed for each page, two pages share no row just if no key is on both.  A row whose key is on one
page is always on that one and on no other, and a row with a key of its own is such a row; of distinct
rows no other is sure to be on a page at all. -/
theorem shareNone_iff_keys {r : Registry} {c : SearchConfig} {root : String} {p : Params} {s : Prepared}
    (h : Prepared.ofParams r c root p = .ok s) {db : Database}
    (hcount : total db s ≤ Decimal.maxUnsigned) :
    (∀ a b, (s.order.direction.admits (sortKey db s a) (sortKey db s b) = true
        ∧ s.order.direction.admits (sortKey db s b) (sortKey db s a) = true)
      ↔ sortKey db s a = sortKey db s b)
    ∧ (∀ m n : Int, (∀ rows rows', IsListing db s rows → IsListing db s rows' →
          ∀ row ∈ pageRows s rows m, row ∉ pageRows s rows' n)
        ↔ ∀ a ∈ (fetch db (s.atPage m)).2, ∀ b ∈ (fetch db (s.atPage n)).2,
          sortKey db s a ≠ sortKey db s b)
    ∧ ∀ row ∈ selectedRows db s.query.table s.query.condition,
      (∀ n, IsKeyOn db s row n → ∀ rows, IsListing db s rows →
          ∀ m, row ∈ pageRows s rows m ↔ m = n)
      ∧ ((selectedRows db s.query.table s.query.condition).Nodup →
        ((∀ other ∈ selectedRows db s.query.table s.query.condition,
            sortKey db s other = sortKey db s row → other = row) → ∃ n, IsKeyOn db s row n)
        ∧ ((∀ listing : Int → List Row, (∀ n, IsListing db s (listing n)) →
            ∃ n, row ∈ pageRows s (listing n) n) → ∃ n, IsKeyOn db s row n)) := by
  have hsize := Prepared.size_pos h
  refine ⟨fun a b => ⟨?_, ?_⟩, fun m n => shareNone_iff hsize hcount, fun row hrow => ⟨?_, ?_⟩⟩
  · rintro ⟨hab, hba⟩
    exact Direction.admits_antisymm hab hba
  · intro hkey
    rw [hkey]
    exact ⟨Direction.admits_refl _ _, Direction.admits_refl _ _⟩
  · intro n hon rows hrows m
    exact hon.mem_pageRows hsize hcount hrow hrows m
  · intro hnodup
    exact ⟨exists_isKeyOn_of_unshared hsize hcount hnodup hrow,
      exists_isKeyOn_of_mem hsize hcount hnodup hrow⟩

/-- The active questions of the sample were created at different times, so each has a page of its own. -/
theorem shareNone_iff_keys_sample :
    ∃ s, Prepared.ofParams registry .standard "questions" (.ofPairs [("per_page", .text "3")]) = .ok s
      ∧ ∀ row ∈ selectedRows sampleDatabase "questions" s.query.condition,
        ∃ n, ∀ rows, IsListing sampleDatabase s rows → ∀ m, row ∈ pageRows s rows m ↔ m = n := by
  obtain ⟨s, hs, hcount, htable, hnodup, hkeys⟩ : ∃ s, Prepared.ofParams registry .standard "questions"
      (.ofPairs [("per_page", .text "3")]) = .ok s ∧ total sampleDatabase s ≤ Decimal.maxUnsigned
      ∧ s.query.table = "questions"
      ∧ (selectedRows sampleDatabase s.query.table s.query.condition).Nodup
      ∧ ∀ row ∈ selectedRows sampleDatabase s.query.table s.query.condition,
        ∀ other ∈ selectedRows sampleDatabase s.query.table s.query.condition,
          sortKey sampleDatabase s other = sortKey sampleDatabase s row → other = row :=
    ⟨_, rfl, by decide, rfl, by decide, by decide⟩
  refine ⟨s, hs, fun row hrow => ?_⟩
  rw [← htable] at hrow
  obtain ⟨_, _, hrows⟩ := shareNone_iff_keys hs hcount
  obtain ⟨hsure, hdistinct⟩ := hrows row hrow
  obtain ⟨n, hn⟩ := (hdistinct hnodup).1 (hkeys row hrow)
  exact ⟨n, hsure n hn⟩

/-! ## Shared keys -/

/-- What is asked of every accepted search of distinct rows that can be counted. -/
def OfAccepted (asked : Database → Prepared → Prop) : Prop :=
  ∀ (r : Registry) (c : SearchConfig) (root : String) (p : Params) (s : Prepared) (db : Database),
    Prepared.ofParams r c root p = .ok s → total db s ≤ Decimal.maxUnsigned →
    (selectedRows db s.query.table s.query.condition).Nodup → asked db s

/-- A question that was created together with others. -/
def twin (id : Nat) : Row :=
  sampleQuestion id "twin" none none none "2024-01-10 00:00:00" "2024-01-10 00:00:00" none

/-- Two questions that were created together. -/
def twins : Database := ⟨[("questions", [twin 1, twin 2])]⟩

/-- Rows with one key are left in any order.  With one row on a page and the rows listed anew for each,
the same row may be on both pages, and the other one on none. -/
theorem not_shareNone :
    ¬ OfAccepted (fun db s => ∀ a ∈ selectedRows db s.query.table s.query.condition,
        ∀ b ∈ selectedRows db s.query.table s.query.condition, a ≠ b →
        ¬ (s.order.direction.admits (sortKey db s a) (sortKey db s b) = true
          ∧ s.order.direction.admits (sortKey db s b) (sortKey db s a) = true))
    ∧ ¬ OfAccepted (fun db s => ∀ m n rows rows', m ≠ n → IsListing db s rows → IsListing db s rows' →
        ∀ row ∈ pageRows s rows m, row ∉ pageRows s rows' n)
    ∧ ¬ OfAccepted (fun db s => ∀ listing : Int → List Row, (∀ n, IsListing db s (listing n)) →
        ∀ row ∈ selectedRows db s.query.table s.query.condition,
          ∃ n, row ∈ pageRows s (listing n) n) := by
  obtain ⟨s, hs, hone, hcount, hnodup, hrows, hrows'⟩ : ∃ s,
      Prepared.ofParams registry .standard "questions" (.ofPairs [("per_page", .text "1")]) = .ok s
      ∧ s.page.size = 1 ∧ total twins s ≤ Decimal.maxUnsigned
      ∧ (selectedRows twins s.query.table s.query.condition).Nodup
      ∧ IsListing twins s [twin 1, twin 2] ∧ IsListing twins s [twin 2, twin 1] :=
    ⟨_, rfl, rfl, by decide, by decide, ⟨by decide, by decide⟩, ⟨by decide, by decide⟩⟩
  have hsize := Prepared.size_pos hs
  have hfirst := hrows.1.mem_iff.mp List.mem_cons_self
  have hsecond := hrows'.1.mem_iff.mp List.mem_cons_self
  refine ⟨fun h => ?_, fun h => ?_, fun h => ?_⟩
  · have hkey := (List.cons.inj (hrows.map_sortKey_eq hrows')).1
    refine h _ _ _ _ s twins hs hcount hnodup _ hfirst _ hsecond (by decide) ?_
    rw [hkey]
    exact ⟨Direction.admits_refl _ _, Direction.admits_refl _ _⟩
  · refine h _ _ _ _ s twins hs hcount hnodup 1 2 _ _ (by decide) hrows hrows' (twin 1) ?_ ?_
    · exact (hrows.mem_pageRows hsize hcount).mpr ⟨0, rfl, by rw [hone]; rfl⟩
    · exact (hrows'.mem_pageRows hsize hcount).mpr ⟨1, rfl, by rw [hone]; rfl⟩
  · have hlistings : ∀ n : Int,
        IsListing twins s (if n = 1 then [twin 1, twin 2] else [twin 2, twin 1]) := by
      intro n
      split
      · exact hrows
      · exact hrows'
    obtain ⟨n, hn⟩ := h _ _ _ _ s twins hs hcount hnodup _ hlistings _ hsecond
    by_cases hpage : n = 1
    · rw [if_pos hpage] at hn
      obtain ⟨i, hi, hplace⟩ := (hrows.mem_pageRows hsize hcount).mp hn
      rw [hone, Nat.div_one] at hplace
      obtain rfl : i = 0 := by omega
      revert hi
      decide
    · rw [if_neg hpage] at hn
      obtain ⟨i, hi, hplace⟩ := (hrows'.mem_pageRows hsize hcount).mp hn
      rw [hone, Nat.div_one] at hplace
      have hplace' : [twin 2, twin 1][0]? = some (twin 2) := rfl
      obtain rfl := hrows'.getElem?_inj hnodup hi hplace'
      exact hpage (by omega)

end Service

end SchemaSearch
