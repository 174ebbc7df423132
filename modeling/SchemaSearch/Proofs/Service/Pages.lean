import SchemaSearch.Proofs.Store.Order
import SchemaSearch.Service.Api
import SchemaSearch.Service.Sample

/-!
# Pages of a listing

A search is answered from a listing of the rows it finds.  Rows with one key may be listed in any order,
so everything here is said of every listing that the order allows, and the listing that is in fact used
is one of them.  Offsets are 64-bit numbers; a page whose offset is none of them lies behind any listing
that can be counted.

Main statement: a page is the slice of the listing that its number and its size name, the pages together
are the listing, and following the mark of a next page reads all of it (`fetch_pages`).
-/

namespace SchemaSearch

open Query Store

/-! ## Slices -/

namespace Page

/-- The rows of a listing that are on a page, counted without any limit. -/
def slice (page : Page) (rows : List Row) : List Row :=
  if page.number < 1 then [] else (rows.drop ((page.number - 1).toNat * page.size)).take page.size

variable {rows : List Row} {size : Nat}

theorem slice_of_lt_one {page : Page} (h : page.number < 1) : page.slice rows = [] := if_pos h

theorem slice_of_one_le {page : Page} (h : 1 ≤ page.number) :
    page.slice rows = (rows.drop ((page.number - 1).toNat * page.size)).take page.size :=
  if_neg (Int.not_lt.mpr h)

/-- The page behind `k` others. -/
theorem slice_succ (k : Nat) :
    (Page.mk (k + 1) size).slice rows = (rows.drop (k * size)).take size := by
  have hk : ((k : Int) + 1 - 1).toNat = k := by omega
  rw [slice_of_one_le (by show (1 : Int) ≤ k + 1; omega)]
  show (rows.drop (((k : Int) + 1 - 1).toNat * size)).take size = _
  rw [hk]

/-- A page has rows if the listing does not end in front of it. -/
theorem slice_succ_ne_nil (hsize : 0 < size) (k : Nat) :
    (Page.mk (k + 1) size).slice rows ≠ [] ↔ k * size < rows.length := by
  rw [slice_succ, ← List.length_pos_iff, List.length_take, List.length_drop]
  omega

/-- A page and what is behind it are what is behind the pages in front of it. -/
theorem slice_append_drop (k : Nat) :
    (Page.mk (k + 1) size).slice rows ++ rows.drop ((k + 1) * size) = rows.drop (k * size) := by
  rw [slice_succ, Nat.succ_mul, ← List.drop_drop, List.take_append_drop]

/-- The first pages hold the first rows. -/
theorem flatMap_slice (n : Nat) :
    ((List.range n).flatMap fun k : Nat => (Page.mk (k + 1) size).slice rows) = rows.take (n * size) := by
  induction n with
  | zero => rw [Nat.zero_mul, List.take_zero]; rfl
  | succ n ih =>
    rw [List.range_succ, List.flatMap_append, ih, List.flatMap_singleton, slice_succ,
      Nat.succ_mul, List.take_add]

/-- A page above zero comes behind some others. -/
theorem exists_eq_succ {page : Page} (h : 1 ≤ page.number) : ∃ k : Nat, page = ⟨k + 1, page.size⟩ := by
  obtain ⟨k, hk⟩ := Int.le.dest h
  have hnumber : page.number = k + 1 := by omega
  exact ⟨k, by rw [← hnumber]⟩

/-- A row is on the page that its place in the listing leads to. -/
theorem mem_slice (page : Page) (hsize : 0 < page.size) {row : Row} :
    row ∈ page.slice rows ↔ ∃ i : Nat, rows[i]? = some row ∧ page.number = (i / page.size : Nat) + 1 := by
  rcases Int.lt_or_le page.number 1 with hlow | hhigh
  · rw [slice_of_lt_one hlow]
    refine ⟨fun h => (List.not_mem_nil h).elim, ?_⟩
    rintro ⟨i, _, hnumber⟩
    have hplace := Int.natCast_nonneg (i / page.size)
    omega
  · obtain ⟨k, hk⟩ := exists_eq_succ hhigh
    generalize page.size = size at hk hsize ⊢
    subst hk
    have hplace : ∀ i : Nat, ((k : Int) + 1 = (i / size : Nat) + 1) ↔ i / size = k := by omega
    simp only [slice_succ, List.mem_iff_getElem?, List.getElem?_take, List.getElem?_drop, hplace]
    constructor
    · rintro ⟨m, hm⟩
      obtain ⟨hlt, hrow⟩ := Option.ite_none_right_eq_some.mp hm
      refine ⟨k * size + m, hrow, ?_⟩
      rw [Nat.mul_comm, Nat.mul_add_div hsize, Nat.div_eq_of_lt hlt, Nat.add_zero]
    · rintro ⟨i, hrow, rfl⟩
      refine ⟨i % size, ?_⟩
      rw [if_pos (Nat.mod_lt i hsize), Nat.mul_comm, Nat.div_add_mod]
      exact hrow

theorem offset_of_lt_one {page : Page} (h : page.number < 1) : page.offset = none := if_pos h

theorem offset_succ (k : Nat) :
    (Page.mk (k + 1) size).offset
      = if k * size ≤ Decimal.maxUnsigned then some (k * size) else none := by
  have hone : ¬ ((k : Int) + 1 < 1) := by omega
  have hk : ((k : Int) + 1 - 1).toNat = k := by omega
  rw [offset, if_neg hone]
  show (if ((k : Int) + 1 - 1).toNat * size ≤ Decimal.maxUnsigned then _ else _) = _
  rw [hk]

end Page

/-- The same search of another page. -/
def Prepared.atPage (s : Prepared) (number : Int) : Prepared := { s with page := ⟨number, s.page.size⟩ }

namespace Service

/-! ## Listings -/

/-- The sort key of a row. -/
def sortKey (db : Database) (s : Prepared) (row : Row) : Value :=
  keyValue db s.scope.root.name row s.order.key

/-- All rows that a search finds, in order. -/
def listed (db : Database) (s : Prepared) : List Row := run db { s.query with window := none }

/-- Whether some rows are those that a search finds, each as often as it is found, and each may stand in
front of all behind it. -/
def IsListing (db : Database) (s : Prepared) (rows : List Row) : Prop :=
  rows.Perm (selectedRows db s.query.table s.query.condition)
    ∧ rows.Pairwise fun a b => s.order.direction.admits (sortKey db s a) (sortKey db s b) = true

theorem isListing_listed (db : Database) (s : Prepared) : IsListing db s (listed db s) :=
  ⟨sortRows_perm db _ _ _ _, pairwise_sortRows db _ _ _ _⟩

theorem IsListing.length_eq {db : Database} {s : Prepared} {rows : List Row} (h : IsListing db s rows) :
    rows.length = total db s := h.1.length_eq

/-- What is fetched of a page when the rows are listed in some order. -/
def fetchFrom (rows : List Row) (page : Page) : PageInfo × List Row :=
  let items := match page.offset with
    | some offset => if offset < rows.length then cut ⟨page.size, offset⟩ rows else []
    | none => []
  (page.info items.length rows.length, items)

/-- A search fetches its page of its own listing. -/
theorem fetch_eq (db : Database) (s : Prepared) : fetch db s = fetchFrom (listed db s) s.page := by
  have hlength : (listed db s).length = total db s := (isListing_listed db s).length_eq
  have hitems : (if reachesPage db s then run db s.query else [])
      = match s.page.offset with
        | some offset =>
          if offset < (listed db s).length then cut ⟨s.page.size, offset⟩ (listed db s) else []
        | none => [] := by
    rw [hlength, reachesPage]
    cases hoffset : s.page.offset with
    | none => rfl
    | some offset =>
      have hrun : run db s.query = cut ⟨s.page.size, offset⟩ (listed db s) := by
        rw [run, Prepared.query, hoffset]
        rfl
      rw [hrun, Option.any_some]
      simp only [decide_eq_true_eq]
  rw [fetch, fetchFrom, hitems, hlength]

/-! ## Fetched pages -/

section Fetched

variable {rows : List Row} {size : Nat}

/-- What is fetched of a page is its slice. -/
theorem fetchFrom_rows (hcount : rows.length ≤ Decimal.maxUnsigned) (page : Page) :
    (fetchFrom rows page).2 = page.slice rows := by
  rcases Int.lt_or_le page.number 1 with hlow | hhigh
  · rw [fetchFrom, Page.offset_of_lt_one hlow, Page.slice_of_lt_one hlow]
  · obtain ⟨k, hk⟩ := Page.exists_eq_succ hhigh
    rw [hk, fetchFrom, Page.offset_succ, Page.slice_succ]
    by_cases hoffset : k * page.size < rows.length
    · have hfits : k * page.size ≤ Decimal.maxUnsigned := by omega
      rw [if_pos hfits]
      exact if_pos hoffset
    · -- behind the listing nothing is fetched, whether or not the offset can be counted
      rw [List.drop_eq_nil_of_le (Nat.le_of_not_lt hoffset), List.take_nil]
      split
      · rename_i offset heq
        obtain ⟨_, hsome⟩ := Option.ite_none_right_eq_some.mp heq
        cases hsome
        exact if_neg hoffset
      · rfl

/-- A page says that there is a next one just if the next one has rows. -/
theorem hasNext_fetchFrom (hcount : rows.length ≤ Decimal.maxUnsigned) (hsize : 0 < size) (k : Nat) :
    (fetchFrom rows ⟨k + 1, size⟩).1.hasNext = true ↔ (k + 1) * size < rows.length := by
  have hitems : ((Page.mk (k + 1) size).slice rows).length = min size (rows.length - k * size) := by
    rw [Page.slice_succ, List.length_take, List.length_drop]
  have hnext : (fetchFrom rows ⟨k + 1, size⟩).1.hasNext
      = (Page.mk (k + 1) size).offset.any fun offset =>
          min (offset + ((Page.mk (k + 1) size).slice rows).length) Decimal.maxUnsigned < rows.length := by
    rw [← fetchFrom_rows hcount]
    rfl
  rw [hnext, hitems, Page.offset_succ, Nat.succ_mul]
  split
  · rw [Option.any_some, decide_eq_true_iff]
    omega
  · -- an offset that cannot be counted lies behind the listing, and so does the next page
    rw [Option.any_none]
    exact ⟨fun h => (Bool.false_ne_true h).elim, fun h => by omega⟩

/-- Below the first page none is said to be next. -/
theorem hasNext_of_lt_one {page : Page} (h : page.number < 1) :
    (fetchFrom rows page).1.hasNext = false := by
  show page.offset.any _ = false
  rw [Page.offset_of_lt_one h, Option.any_none]

/-! ## Reading on -/

/-- The rows that are read from a page on, as long as there is said to be a next one. -/
inductive Reads (rows : List Row) (size : Nat) : Int → List Row → Prop
  /-- No page is said to be next. -/
  | last {number : Int} (h : (fetchFrom rows ⟨number, size⟩).1.hasNext = false) :
    Reads rows size number (fetchFrom rows ⟨number, size⟩).2
  /-- Some page is said to be next, and is read on from. -/
  | next {number : Int} {rest : List Row} (h : (fetchFrom rows ⟨number, size⟩).1.hasNext = true)
    (hrest : Reads rows size (number + 1) rest) :
    Reads rows size number ((fetchFrom rows ⟨number, size⟩).2 ++ rest)

/-- Whoever reads on behind `k` pages has read all rows behind them once there is no next page. -/
theorem Reads.eq_drop (hcount : rows.length ≤ Decimal.maxUnsigned) (hsize : 0 < size) {number : Int}
    {found : List Row} (h : Reads rows size number found) :
    ∀ k : Nat, number = k + 1 → found = rows.drop (k * size) := by
  induction h with
  | last hlast =>
    -- no page is next, so the slice is cut off by the end of the listing alone
    rintro k rfl
    have hend : rows.length ≤ (k + 1) * size := by
      refine Nat.le_of_not_lt fun hlt => ?_
      rw [(hasNext_fetchFrom hcount hsize k).mpr hlt] at hlast
      cases hlast
    rw [Nat.succ_mul] at hend
    rw [fetchFrom_rows hcount, Page.slice_succ, List.take_of_length_le]
    rw [List.length_drop]
    omega
  | next _ _ ih =>
    rintro k rfl
    rw [fetchFrom_rows hcount, ih (k + 1) rfl, Page.slice_append_drop]

/-- Reading on ends. -/
theorem reads_drop (hcount : rows.length ≤ Decimal.maxUnsigned) (hsize : 0 < size) (k : Nat) :
    Reads rows size (k + 1) (rows.drop (k * size)) := by
  by_cases hnext : (k + 1) * size < rows.length
  · rw [← Page.slice_append_drop, ← fetchFrom_rows hcount]
    exact .next ((hasNext_fetchFrom hcount hsize k).mpr hnext) (reads_drop hcount hsize (k + 1))
  · have hlast : (fetchFrom rows ⟨k + 1, size⟩).1.hasNext = false :=
      Bool.eq_false_iff.mpr fun h => hnext ((hasNext_fetchFrom hcount hsize k).mp h)
    have hread := Reads.last hlast
    rwa [hread.eq_drop hcount hsize k rfl] at hread
  termination_by rows.length - k * size
  decreasing_by
    rw [Nat.succ_mul] at hnext ⊢
    omega

/-- A search fetches its pages from a listing of its rows.  Of every such listing, a page is the slice that
its number and its size name, it tells how long the slice and the listing are, and it says that there is
a next page just if the next page has rows.  The pages one after another are the listing, and reading on
from the first page ends with all of it.  The rows have to be as few as can be counted. -/
theorem fetch_pages {db : Database} {s : Prepared} (hsize : 0 < s.page.size)
    (hcount : total db s ≤ Decimal.maxUnsigned) :
    (IsListing db s (listed db s)
      ∧ ∀ number, fetch db (s.atPage number) = fetchFrom (listed db s) ⟨number, s.page.size⟩)
    ∧ ∀ rows, IsListing db s rows →
      (∀ number, ∃ info, fetchFrom rows ⟨number, s.page.size⟩
            = (info, (Page.mk number s.page.size).slice rows)
          ∧ info.pageCount = ((Page.mk number s.page.size).slice rows).length
          ∧ info.totalCount = rows.length
          ∧ (info.hasNext = true
            ↔ 1 ≤ number ∧ (fetchFrom rows ⟨number + 1, s.page.size⟩).2 ≠ []))
      ∧ (∀ n : Nat, rows.length ≤ n * s.page.size →
          ((List.range n).flatMap fun k : Nat => (fetchFrom rows ⟨k + 1, s.page.size⟩).2) = rows)
      ∧ ∀ found, Reads rows s.page.size 1 found ↔ found = rows := by
  refine ⟨⟨isListing_listed db s, fun number => fetch_eq db (s.atPage number)⟩, ?_⟩
  intro rows hrows
  have hrowCount : rows.length ≤ Decimal.maxUnsigned := by
    rw [hrows.length_eq]
    exact hcount
  refine ⟨fun number => ?_, fun n hn => ?_, fun found => ?_⟩
  · have hitems := fetchFrom_rows hrowCount ⟨number, s.page.size⟩
    refine ⟨_, Prod.ext rfl hitems, congrArg List.length hitems, rfl, ?_⟩
    rw [fetchFrom_rows hrowCount]
    rcases Int.lt_or_le number 1 with hlow | hhigh
    · rw [hasNext_of_lt_one hlow]
      exact ⟨fun h => (Bool.false_ne_true h).elim, fun h => by omega⟩
    · obtain ⟨k, rfl⟩ : ∃ k : Nat, number = k + 1 := ⟨(number - 1).toNat, by omega⟩
      rw [hasNext_fetchFrom hrowCount hsize, and_iff_right hhigh]
      exact (Page.slice_succ_ne_nil hsize (k + 1)).symm
  · calc ((List.range n).flatMap fun k : Nat => (fetchFrom rows ⟨k + 1, s.page.size⟩).2)
        = (List.range n).flatMap fun k : Nat => (Page.mk (k + 1) s.page.size).slice rows := by
          simp only [fetchFrom_rows hrowCount]
      _ = rows.take (n * s.page.size) := Page.flatMap_slice n
      _ = rows := List.take_of_length_le hn
  · constructor
    · intro hreads
      have hall := hreads.eq_drop hrowCount hsize 0 rfl
      rwa [Nat.zero_mul, List.drop_zero] at hall
    · rintro rfl
      have hreads := reads_drop hrowCount hsize 0
      rwa [Nat.zero_mul, List.drop_zero] at hreads

end Fetched

/-- Seven questions of the sample are active: two full pages of three, and one more. -/
theorem fetch_pages_sample :
    ∃ s, Prepared.ofParams registry .standard "questions" (.ofPairs [("per_page", .text "3")]) = .ok s
      ∧ (listed sampleDatabase s).length = 7
      ∧ (fetch sampleDatabase (s.atPage 3)).2 = (listed sampleDatabase s).drop 6
      ∧ (fetch sampleDatabase (s.atPage 2)).1.hasNext = true
      ∧ Reads (listed sampleDatabase s) 3 1 (listed sampleDatabase s) := by
  obtain ⟨s, hs, hsize, htotal⟩ : ∃ s, Prepared.ofParams registry .standard "questions"
      (.ofPairs [("per_page", .text "3")]) = .ok s ∧ s.page.size = 3 ∧ total sampleDatabase s = 7 :=
    ⟨_, rfl, rfl, by decide⟩
  have hpositive : 0 < s.page.size := by omega
  have hcount : total sampleDatabase s ≤ Decimal.maxUnsigned := by rw [htotal]; decide
  obtain ⟨⟨hlisting, hfetch⟩, hpages⟩ := fetch_pages hpositive hcount
  obtain ⟨hslice, _, hreads⟩ := hpages _ hlisting
  have hlength : (listed sampleDatabase s).length = 7 := hlisting.length_eq.trans htotal
  rw [hsize] at hfetch hslice hreads
  have hthird : (fetch sampleDatabase (s.atPage 3)).2 = (listed sampleDatabase s).drop 6 := by
    obtain ⟨info, hpage, _⟩ := hslice 3
    rw [hfetch, hpage]
    exact List.take_of_length_le (by rw [List.length_drop, hlength]; decide)
  refine ⟨s, hs, hlength, hthird, ?_, (hreads _).mpr rfl⟩
  obtain ⟨info, hpage, _, _, hnext⟩ := hslice 2
  rw [hfetch, hpage, hnext, ← hfetch]
  refine ⟨by decide, ?_⟩
  rw [show (2 : Int) + 1 = 3 from rfl, hthird, ← List.length_pos_iff, List.length_drop, hlength]
  decide

end Service

end SchemaSearch
