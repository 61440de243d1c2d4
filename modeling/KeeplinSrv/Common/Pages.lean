import KeeplinSrv.Common.Query

/-!
# Following pages

A list that is handed out page by page: a request with a token returns a page and the
token for the next one, or none after the last. Following the tokens from the beginning
ends, and it has collected the whole list, if a request with the token of the last item
handed out so far returns the next items of the list, and a token whenever the page is
full (`follows_of_pageOf`).
-/

namespace KeeplinSrv.Common

variable {α τ ε : Type}

/-- A page and the token of the next one. -/
structure Page (α τ : Type) where
  items : List α
  next : Option τ
  deriving DecidableEq

/-- The first page of what is left; a full page has the token of its last item. -/
def pageOf (token : α → τ) (limit : ℕ) (rest : List α) : Page α τ :=
  ⟨rest.take limit,
    if limit ≤ (rest.take limit).length then (rest.take limit).getLast?.map token else none⟩

/-- Following the tokens from `cursor` on until there is none returns `pages`. -/
inductive Follows (request : Option τ → Except ε (Page α τ)) : Option τ → List (List α) → Prop
  | last {cursor items} (h : request cursor = .ok ⟨items, none⟩) : Follows request cursor [items]
  | more {cursor items next pages} (h : request cursor = .ok ⟨items, some next⟩)
      (rest : Follows request (some next) pages) : Follows request cursor (items :: pages)

section

variable {request : Option τ → Except ε (Page α τ)} {cursor : Option τ}
variable {pages pages' : List (List α)} {token : α → τ} {limit : ℕ} {all rest : List α}

/-- There is one way to follow them. -/
theorem Follows.unique (h : Follows request cursor pages) (h' : Follows request cursor pages') :
    pages = pages' := by
  induction h generalizing pages' with
  | last hpage =>
    cases h' with
    | last hpage' => cases hpage.symm.trans hpage'; rfl
    | more hpage' => cases hpage.symm.trans hpage'
  | more hpage _ ih =>
    cases h' with
    | last hpage' => cases hpage.symm.trans hpage'
    | more hpage' rest =>
      cases hpage.symm.trans hpage'
      rw [ih rest]

theorem pageOf_of_lt (h : rest.length < limit) : pageOf token limit rest = ⟨rest, none⟩ := by
  unfold pageOf
  rw [List.take_of_length_le h.le, if_neg (not_le.mpr h)]

theorem pageOf_of_le (h : limit ≤ rest.length) :
    pageOf token limit rest = ⟨rest.take limit, (rest.take limit).getLast?.map token⟩ := by
  unfold pageOf
  rw [List.length_take, min_eq_left h, if_pos le_rfl]

/-- Requests that hand out what is left after the item of their token. -/
theorem follows_of_pageOf (hlimit : 0 < limit)
    (hrequest : ∀ before rest, all = before ++ rest →
      request (before.getLast?.map token) = .ok (pageOf token limit rest)) :
    ∃ pages, Follows request none pages ∧ pages.flatten = all := by
  have hfrom : ∀ n before rest, rest.length = n → all = before ++ rest →
      ∃ pages, Follows request (before.getLast?.map token) pages ∧ pages.flatten = rest := by
    intro n
    induction n using Nat.strong_induction_on with
    | _ n ih =>
      intro before rest hn hall
      have hpage := hrequest before rest hall
      rcases Nat.lt_or_ge rest.length limit with hlast | hfull
      · rw [pageOf_of_lt hlast] at hpage
        exact ⟨[rest], .last hpage, by simp⟩
      · rw [pageOf_of_le hfull] at hpage
        have hne : rest.take limit ≠ [] := by
          intro hnil
          have hlength := congrArg List.length hnil
          rw [List.length_take, min_eq_left hfull, List.length_nil] at hlength
          omega
        have hnext : (before ++ rest.take limit).getLast? = (rest.take limit).getLast? :=
          List.getLast?_append_of_ne_nil _ hne
        -- what is left gets shorter, since a page of a positive limit is not empty
        obtain ⟨pages, hpages, hflat⟩ := ih (rest.drop limit).length
          (by rw [List.length_drop]; omega) (before ++ rest.take limit) (rest.drop limit) rfl
          (by rw [List.append_assoc, List.take_append_drop, hall])
        rw [hnext, List.getLast?_eq_some_getLast hne, Option.map_some] at hpages
        rw [List.getLast?_eq_some_getLast hne, Option.map_some] at hpage
        refine ⟨rest.take limit :: pages, .more hpage hpages, ?_⟩
        rw [List.flatten_cons, hflat, List.take_append_drop]
  exact hfrom all.length [] all rfl rfl

/-- The pages after `last` of a list in order are what comes after it. -/
theorem filter_after_last {lt : α → α → Prop} [DecidableRel lt] {before rest : List α}
    {last : α} (hsorted : (before ++ rest).Pairwise lt) (hlast : before.getLast? = some last)
    (hasymm : ∀ a b, lt a b → ¬ lt b a) :
    (before ++ rest).filter (fun a => lt last a) = rest := by
  obtain ⟨init, rfl⟩ := List.getLast?_eq_some_iff.mp hlast
  obtain ⟨hbefore, -, hrest⟩ := List.pairwise_append.mp hsorted
  rw [List.filter_append]
  have hnone : (init ++ [last]).filter (fun a => lt last a) = [] := by
    rw [List.filter_eq_nil_iff]
    intro a ha hlt
    have hlt := of_decide_eq_true hlt
    rcases List.mem_append.mp ha with ha | ha
    · have ha := (List.pairwise_append.mp hbefore).2.2 a ha last (List.mem_singleton_self last)
      exact hasymm a last ha hlt
    · rw [List.mem_singleton.mp ha] at hlt
      exact hasymm last last hlt hlt
  have hall : rest.filter (fun a => lt last a) = rest := by
    rw [List.filter_eq_self]
    intro a ha
    exact decide_eq_true (hrest last (by simp) a ha)
  rw [hnone, hall, List.nil_append]

/-- The rows after the last one of a page, asked for by its key. -/
theorem orderBy_after_last {κ : Type} [LinearOrder κ] {key : α → κ} {row : κ → Option α}
    {rows : Multiset α} (h : ∀ a ∈ rows, row (key a) = some a) (hnodup : rows.Nodup)
    {before : List α} {last : α} (hsplit : orderBy key row rows = before ++ rest)
    (hlast : before.getLast? = some last) :
    orderBy key row (rows.filter fun a => decide (key a < key last) = true) = rest := by
  have hsorted := pairwise_orderBy h hnodup
  rw [hsplit] at hsorted
  rw [orderBy_filter h hnodup, hsplit]
  exact filter_after_last hsorted hlast fun a b hab => hab.asymm

end

end KeeplinSrv.Common
