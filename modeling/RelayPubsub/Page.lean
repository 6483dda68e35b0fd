import RelayPubsub.Lib.Numeral
import RelayPubsub.Model

/-!
# Pages of a listing

`paginate` of `src/model.rs`: the block of a list that starts at the offset the
page token names, and the token of the next one. An offset is a `usize`, and the
sum of the offset and the page size wraps around as it does in a release build.

A client reads a listing by *walking* its pages (`RelayPubsub.walk`), and may ask
for another number of items at every request. Whatever it asks for, the walk over
a list ends, and the pages one after another are the list
(`RelayPubsub.walked_walk`): the token of a page is the offset at which the page
stopped. A token that a client makes up is as good, unless the sum overflows
(`RelayPubsub.pageSafe_iff`).
-/

namespace RelayPubsub

open Lib

structure Page (α : Type) where
  items : List α
  nextPageToken : Text

/-- The number of items on a page. -/
def pageLimit (pageSize : Int32) : ℕ :=
  if pageSize ≤ 0 then 100 else (clamp (UInt32.ofInt pageSize.toInt) 1 1000).toNat

/-- The offset a page starts at; a token that is no number is the start. -/
def pageStart (pageToken : Text) : ℕ :=
  if pageToken = [] then 0 else (parseUsize pageToken).getD 0

def paginate {α : Type} (items : List α) (pageSize : Int32) (pageToken : Text) : Page α :=
  let start := pageStart pageToken
  let stop := min ((start + pageLimit pageSize) % 2 ^ 64) items.length
  { items := if start ≤ stop then (items.take stop).drop start else []
    nextPageToken := if stop < items.length then decimal stop else [] }

section Paginate

variable {α : Type} {items : List α}

/-- A page holds nothing but items of the list. -/
theorem mem_of_mem_paginate {pageSize : Int32} {pageToken : Text} {x : α}
    (h : x ∈ (paginate items pageSize pageToken).items) : x ∈ items := by
  unfold paginate at h
  dsimp only at h
  split at h
  · exact List.mem_of_mem_take (List.mem_of_mem_drop h)
  · cases h

/-- **Every item of a list is on some page.** -/
theorem exists_mem_paginate (hlen : items.length < 2 ^ 64) {x : α} (h : x ∈ items) :
    ∃ pageToken, x ∈ (paginate items 1 pageToken).items := by
  obtain ⟨i, hi, rfl⟩ := List.mem_iff_getElem.mp h
  have hstart : pageStart (decimal i) = i := by
    unfold pageStart
    rw [if_neg (decimal_ne_nil i), parseUsize_decimal (hi.trans hlen), Option.getD_some]
  have hstop : min ((i + pageLimit 1) % 2 ^ 64) items.length = i + 1 := by
    have hlimit : pageLimit 1 = 1 := by decide
    rw [hlimit, Nat.mod_eq_of_lt (by omega)]
    omega
  refine ⟨decimal i, ?_⟩
  unfold paginate
  dsimp only
  rw [hstart, hstop, if_pos (Nat.le_succ i)]
  refine List.mem_of_getElem? (i := 0) ?_
  rw [List.getElem?_drop, List.getElem?_take, if_pos (by omega), Nat.add_zero,
    List.getElem?_eq_getElem hi]

end Paginate

/-! ### Walking the pages -/

section Walk

variable {α : Type}

/-- The pages from the one with a given token on, in at most `n` requests. -/
def walkFrom (request : Int32 → Text → Page α) (sizes : ℕ → Int32) (pageToken : Text) :
    ℕ → List (Page α)
  | 0 => []
  | n + 1 =>
    let page := request (sizes 0) pageToken
    page :: if page.nextPageToken = [] then []
      else walkFrom request (fun k => sizes (k + 1)) page.nextPageToken n

/-- **A walk** of at most `n` requests: the first one has the empty token, each later
one the token of the page before it, and the one after which there is no token is the
last. The `k`-th request asks for `sizes k` items. -/
def walk (request : Int32 → Text → Page α) (sizes : ℕ → Int32) (n : ℕ) : List (Page α) :=
  walkFrom request sizes [] n

/-- A walk whose requests may fail, from the page with a given token on; it fails with the
first request that does. -/
def walkFromOrFail {ε : Type} (request : Int32 → Text → Except ε (Page α)) (sizes : ℕ → Int32)
    (pageToken : Text) : ℕ → Except ε (List (Page α))
  | 0 => .ok []
  | n + 1 => do
    let page ← request (sizes 0) pageToken
    if page.nextPageToken = [] then return [page]
    let pages ← walkFromOrFail request (fun k => sizes (k + 1)) page.nextPageToken n
    return page :: pages

/-- **A walk whose requests may fail.** -/
def walkOrFail {ε : Type} (request : Int32 → Text → Except ε (Page α)) (sizes : ℕ → Int32) (n : ℕ) :
    Except ε (List (Page α)) :=
  walkFromOrFail request sizes [] n

/-- The pages of requests that do not fail. -/
theorem walkFromOrFail_eq {ε : Type} {request : Int32 → Text → Except ε (Page α)}
    {page : Int32 → Text → Page α} (h : ∀ pageSize pageToken,
      request pageSize pageToken = .ok (page pageSize pageToken)) :
    ∀ (n : ℕ) (sizes : ℕ → Int32) (pageToken : Text),
      walkFromOrFail request sizes pageToken n = .ok (walkFrom page sizes pageToken n) := by
  intro n
  induction n with
  | zero => exact fun _ _ => rfl
  | succ n ih =>
    intro sizes pageToken
    simp only [walkFromOrFail, walkFrom, h, ih, bind, Except.bind]
    split_ifs <;> rfl

/-- **The pages of a walk that came to the end of a list**, having visited each item
of it once and in order. -/
structure Walked (items : List α) (pages : List (Page α)) : Prop where
  /-- The last page has no token. -/
  ends : ∃ page, pages.getLast? = some page ∧ page.nextPageToken = []
  /-- The pages before the last one have a token, and items. -/
  going : ∀ page ∈ pages.dropLast, page.nextPageToken ≠ [] ∧ page.items ≠ []
  size : ∀ page ∈ pages, page.items.length ≤ 1000
  visits : (pages.map (·.items)).flatten = items

theorem pageLimit_bounds (pageSize : Int32) :
    1 ≤ pageLimit pageSize ∧ pageLimit pageSize ≤ 1000 := by
  unfold pageLimit
  split_ifs with hnonpos
  · omega
  · rw [toNat_clamp (by decide)]
    simp only [UInt32.reduceToNat]
    omega

variable {items : List α} {pageSize : Int32} {pageToken : Text}

/-- **A page whose end does not overflow** is a block of the list. -/
theorem paginate_items (hfits : pageStart pageToken + pageLimit pageSize < 2 ^ 64) :
    (paginate items pageSize pageToken).items =
      (items.drop (pageStart pageToken)).take (pageLimit pageSize) := by
  unfold paginate
  dsimp only
  generalize pageStart pageToken = start at hfits ⊢
  rw [Nat.mod_eq_of_lt hfits]
  split
  · rw [List.drop_take, List.take_eq_take_iff, List.length_drop]
    omega
  · rw [List.drop_eq_nil_of_le (by omega), List.take_nil]

/-- The token of such a page: none at the end of the list, and else the offset after the
page. -/
theorem paginate_nextPageToken (hfits : pageStart pageToken + pageLimit pageSize < 2 ^ 64) :
    (paginate items pageSize pageToken).nextPageToken =
      if pageStart pageToken + pageLimit pageSize < items.length then
        decimal (pageStart pageToken + pageLimit pageSize)
      else [] := by
  unfold paginate
  dsimp only
  rw [Nat.mod_eq_of_lt hfits]
  by_cases h : pageStart pageToken + pageLimit pageSize < items.length
  · rw [min_eq_left h.le, if_pos h]
  · rw [min_eq_right (not_lt.mp h), if_neg (lt_irrefl _), if_neg h]

/-- The offset in a token is read back. -/
theorem pageStart_decimal {n : ℕ} (h : n < 2 ^ 64) : pageStart (decimal n) = n := by
  rw [pageStart, if_neg (decimal_ne_nil n), parseUsize_decimal h, Option.getD_some]

/-- A walk over what is left of a list from an offset on. -/
theorem walked_walkFrom (hlen : items.length < 2 ^ 63) :
    ∀ (n : ℕ) (sizes : ℕ → Int32) (pageToken : Text), pageStart pageToken ≤ items.length →
      items.length - pageStart pageToken < n →
      Walked (items.drop (pageStart pageToken)) (walkFrom (paginate items) sizes pageToken n) := by
  intro n
  induction n with
  | zero => exact fun _ _ _ hn => absurd hn (Nat.not_lt_zero _)
  | succ n ih =>
    intro sizes pageToken hle hn
    have hlimit := pageLimit_bounds (sizes 0)
    have hfits : pageStart pageToken + pageLimit (sizes 0) < 2 ^ 64 := by omega
    have hitems : (paginate items (sizes 0) pageToken).items = _ := paginate_items hfits
    have hnext : (paginate items (sizes 0) pageToken).nextPageToken = _ :=
      paginate_nextPageToken hfits
    rw [walkFrom]
    generalize pageStart pageToken = start at hle hn hfits hitems hnext ⊢
    generalize paginate items (sizes 0) pageToken = page at hitems hnext ⊢
    generalize pageLimit (sizes 0) = limit at hlimit hfits hitems hnext
    have hsize : page.items.length ≤ 1000 := by
      rw [hitems, List.length_take]
      omega
    by_cases hend : start + limit < items.length
    · -- the walk goes on from the offset after this page
      rw [if_pos hend] at hnext
      have hstart : pageStart page.nextPageToken = start + limit := by
        rw [hnext, pageStart_decimal (by omega)]
      have hgoing : page.nextPageToken ≠ [] := hnext ▸ decimal_ne_nil _
      have hrest := ih (fun k => sizes (k + 1)) page.nextPageToken (by omega) (by omega)
      rw [hstart] at hrest
      rw [if_neg hgoing]
      generalize walkFrom _ _ _ _ = rest at hrest
      obtain ⟨last, hlast, htoken⟩ := hrest.ends
      have hne : rest ≠ [] := by
        rintro rfl
        cases hlast
      refine ⟨⟨last, ?_, htoken⟩, ?_, ?_, ?_⟩
      · rw [List.getLast?_cons, hlast, Option.getD_some]
      · rw [List.dropLast_cons_of_ne_nil hne]
        intro p hp
        rcases List.mem_cons.mp hp with rfl | hp
        · refine ⟨hgoing, List.ne_nil_of_length_pos ?_⟩
          rw [hitems, List.length_take, List.length_drop]
          omega
        · exact hrest.going p hp
      · exact List.forall_mem_cons.mpr ⟨hsize, hrest.size⟩
      · rw [List.map_cons, List.flatten_cons, hrest.visits, hitems, ← List.drop_drop,
          List.take_append_drop]
    · rw [if_neg hend] at hnext
      rw [if_pos hnext]
      refine ⟨⟨page, rfl, hnext⟩, fun _ hp => (List.not_mem_nil hp).elim, ?_, ?_⟩
      · exact List.forall_mem_cons.mpr ⟨hsize, fun _ hp => (List.not_mem_nil hp).elim⟩
      · rw [List.map_cons, List.map_nil, List.flatten_singleton, hitems, List.take_of_length_le]
        rw [List.length_drop]
        omega

/-- **A walk over a list visits every item once**, whatever page sizes are asked for, and
takes no more requests than there are items, and one. -/
theorem walked_walk (hlen : items.length < 2 ^ 63) (sizes : ℕ → Int32) {n : ℕ}
    (hn : items.length < n) : Walked items (walk (paginate items) sizes n) := by
  have h := walked_walkFrom hlen n sizes [] (Nat.zero_le _) (by rwa [pageStart, if_pos rfl])
  rwa [pageStart, if_pos rfl, List.drop_zero] at h

end Walk

/-! ### Tokens that a client makes up -/

section Token

variable {α : Type}

/-- **`paginate` built with overflow checks**: nothing where the sum of the offset and the
page size overflows, and the call panics. -/
def paginateOrPanic (items : List α) (pageSize : Int32) (pageToken : Text) : Option (Page α) :=
  if pageStart pageToken + pageLimit pageSize < 2 ^ 64 then some (paginate items pageSize pageToken)
  else none

/-- **The page arithmetic of a request is safe.** -/
structure PageSafe (items : List α) (pageSize : Int32) (pageToken : Text) : Prop where
  total : paginateOrPanic items pageSize pageToken = some (paginate items pageSize pageToken)
  /-- The items are those from the offset in the token on. -/
  block : (paginate items pageSize pageToken).items =
    (items.drop (pageStart pageToken)).take (pageLimit pageSize)
  /-- The next page starts further on. -/
  progress : (paginate items pageSize pageToken).nextPageToken ≠ [] →
    pageStart pageToken < pageStart (paginate items pageSize pageToken).nextPageToken

variable {items : List α} {pageSize : Int32} {pageToken : Text}

/-- No number is read from the empty token either. -/
theorem pageStart_eq (pageToken : Text) : pageStart pageToken = (parseUsize pageToken).getD 0 := by
  unfold pageStart
  split_ifs with hempty
  · subst hempty
    rfl
  · rfl

/-- The sum fits exactly if it does for a number in the token. -/
theorem fits_iff : pageStart pageToken + pageLimit pageSize < 2 ^ 64 ↔
    ∀ start, parseUsize pageToken = some start → start + pageLimit pageSize < 2 ^ 64 := by
  have hlimit := pageLimit_bounds pageSize
  rw [pageStart_eq]
  rcases parseUsize pageToken with - | start
  · simp only [Option.getD_none, reduceCtorEq, false_imp_iff, implies_true, iff_true]
    omega
  · simp

/-- **The next page of a client goes back, in a build without overflow checks**, exactly if
the sum overflows to an offset within the list. -/
theorem goesBack_iff :
    ((paginate items pageSize pageToken).nextPageToken ≠ [] ∧
        pageStart (paginate items pageSize pageToken).nextPageToken ≤ pageStart pageToken) ↔
      2 ^ 64 ≤ pageStart pageToken + pageLimit pageSize ∧
        pageStart pageToken + pageLimit pageSize - 2 ^ 64 < items.length := by
  have hlimit := pageLimit_bounds pageSize
  have hstart : pageStart pageToken < 2 ^ 64 := by
    rw [pageStart_eq]
    rcases hparse : parseUsize pageToken with - | start
    · exact Nat.two_pow_pos 64
    · exact of_decide_eq_true (Option.filter_eq_some_iff.mp hparse).2
  unfold paginate
  dsimp only
  generalize pageStart pageToken = start at hstart ⊢
  generalize pageLimit pageSize = limit at hlimit ⊢
  have hmod : (start + limit) % 2 ^ 64 < 2 ^ 64 := Nat.mod_lt _ (Nat.two_pow_pos 64)
  split
  · -- there is a token, which is read back
    rename_i hstop
    have hread : pageStart (decimal (min ((start + limit) % 2 ^ 64) items.length)) = _ :=
      pageStart_decimal (by omega)
    rw [hread, and_iff_right (decimal_ne_nil _)]
    omega
  · rename_i hstop
    refine iff_of_false (fun h => h.1 rfl) ?_
    omega

/-- **Page arithmetic is safe exactly if the number in the token, where there is one, leaves
room for a page.** -/
theorem pageSafe_iff (items : List α) (pageSize : Int32) (pageToken : Text) :
    PageSafe items pageSize pageToken ↔
      ∀ start, parseUsize pageToken = some start → start + pageLimit pageSize < 2 ^ 64 := by
  rw [← fits_iff]
  constructor
  · intro h
    by_contra hoverflow
    have htotal := h.total
    rw [paginateOrPanic, if_neg hoverflow] at htotal
    cases htotal
  · intro hfits
    refine ⟨if_pos hfits, paginate_items hfits, fun htoken => ?_⟩
    by_contra hback
    have hgoes := goesBack_iff.mp ⟨htoken, not_lt.mp hback⟩
    omega

/-- With the greatest `usize` in the token, a page of one item of a list of one overflows;
without overflow checks it has no items, and the token of the first page. -/
theorem greatestToken_unsafe :
    ¬PageSafe [()] 1 "18446744073709551615" ∧
      (paginate [()] 1 "18446744073709551615").items = [] ∧
      (paginate [()] 1 "18446744073709551615").nextPageToken = "0".toList := by
  refine ⟨fun h => ?_, by decide +kernel, by decide +kernel⟩
  have htoken := h.progress (by decide +kernel)
  revert htoken
  decide +kernel

end Token

end RelayPubsub
