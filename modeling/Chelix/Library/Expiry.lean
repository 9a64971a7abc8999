import Mathlib.Data.Finset.Card

/-!
# Deadlines and sliding windows

Times are natural numbers.  A deadline that has been reached and no deadline at all cannot be
told apart from then on, so a store may forget the first; `AgreeFrom` is that relation.  A
window keeps the entries that are younger than its width; a queue of instants that is pruned from
the front stands for all instants as far as later windows reach, `Tracks`.
-/

namespace Chelix.Library

open List

/-! ## Deadlines -/

/-- The time left until a deadline, and nothing once it is reached. -/
def remaining (deadline : Option ℕ) (now : ℕ) : Option ℕ :=
  deadline.bind fun until_ => if now < until_ then some (until_ - now) else none

@[simp] theorem remaining_none (now : ℕ) : remaining none now = none := rfl

theorem remaining_eq_some_iff {deadline : Option ℕ} {now left : ℕ} :
    remaining deadline now = some left ↔
      ∃ until_, deadline = some until_ ∧ now + left = until_ ∧ 0 < left := by
  cases deadline with
  | none => simp
  | some until_ =>
    simp only [remaining, Option.bind_some, Option.ite_none_right_eq_some, Option.some.injEq,
      exists_eq_left']
    omega

theorem remaining_eq_none_of_le {until_ now : ℕ} (h : until_ ≤ now) :
    remaining (some until_) now = none := by
  rw [remaining, Option.bind_some, if_neg (by omega)]

theorem remaining_eq_none_of_later {deadline : Option ℕ} {now later : ℕ}
    (h : remaining deadline now = none) (hle : now ≤ later) :
    remaining deadline later = none := by
  cases deadline with
  | none => rfl
  | some until_ =>
    apply remaining_eq_none_of_le
    by_contra hlt
    rw [remaining, Option.bind_some, if_pos (by omega)] at h
    cases h

/-- From `now` on the two deadlines leave the same time. -/
def AgreeFrom (now : ℕ) (a b : Option ℕ) : Prop :=
  ∀ later, now ≤ later → remaining a later = remaining b later

namespace AgreeFrom

variable {now later : ℕ} {a b : Option ℕ}

theorem refl (now : ℕ) (a : Option ℕ) : AgreeFrom now a a := fun _ _ => rfl

theorem mono (h : AgreeFrom now a b) (hle : now ≤ later) : AgreeFrom later a b :=
  fun t ht => h t (hle.trans ht)

theorem forget (h : AgreeFrom now a b) (hnone : remaining a now = none) :
    AgreeFrom now none b := by
  intro t ht
  rw [← h t ht, remaining_eq_none_of_later hnone ht, remaining_none]

end AgreeFrom

/-! ## Windows -/

section Window

variable {α : Type*}

/-- The entries that are younger than `width`. -/
def within (width now : ℕ) (entries : List (α × ℕ)) : List (α × ℕ) :=
  entries.filter fun entry => now - entry.2 < width

theorem mem_within {width now : ℕ} {entries : List (α × ℕ)} {entry : α × ℕ} :
    entry ∈ within width now entries ↔ entry ∈ entries ∧ now - entry.2 < width := by
  rw [within, mem_filter, decide_eq_true_eq]

/-- The distinct keys of a list of entries. -/
def keys [DecidableEq α] (entries : List (α × ℕ)) : Finset α := (entries.map Prod.fst).toFinset

theorem mem_keys [DecidableEq α] {entries : List (α × ℕ)} {a : α} :
    a ∈ keys entries ↔ ∃ t, (a, t) ∈ entries := by
  simp only [keys, mem_toFinset, mem_map, Prod.exists, exists_and_right, exists_eq_right]

theorem keys_subset [DecidableEq α] {entries others : List (α × ℕ)}
    (h : ∀ entry ∈ entries, entry ∈ others) : keys entries ⊆ keys others := by
  intro a ha
  obtain ⟨t, ht⟩ := mem_keys.mp ha
  exact mem_keys.mpr ⟨t, h _ ht⟩

theorem card_insert_eq_card_erase_add_one [DecidableEq α] (s : Finset α) (a : α) :
    (insert a s).card = (s.erase a).card + 1 := by
  have heq : insert a s = insert a (s.erase a) := by
    ext b
    by_cases hb : b = a <;> simp [hb]
  rw [heq, Finset.card_insert_of_notMem (Finset.notMem_erase a s)]

end Window

/-! ## Queues of instants -/

section Queue

variable {queue : List ℕ}

/-- The instants of a queue before a bound are dropped from the front. -/
def pruneBefore (bound : ℕ) (queue : List ℕ) : List ℕ := queue.dropWhile (· < bound)

theorem pruneBefore_eq_filter (h : queue.Pairwise (· ≤ ·)) (bound : ℕ) :
    pruneBefore bound queue = queue.filter (bound ≤ ·) := by
  unfold pruneBefore
  induction queue with
  | nil => rfl
  | cons t queue ih =>
    obtain ⟨hfirst, hrest⟩ := pairwise_cons.mp h
    by_cases ht : t < bound
    · have hold : ¬ decide (bound ≤ t) = true := by simpa using ht
      rw [dropWhile_cons_of_pos (by simpa using ht), ih hrest, filter_cons, if_neg hold]
    · have hall : ∀ a ∈ t :: queue, decide (bound ≤ a) = true := by
        refine forall_mem_cons.mpr ⟨by simpa using ht, fun a ha => ?_⟩
        have hle := hfirst a ha
        simp only [decide_eq_true_eq]
        omega
      rw [dropWhile_cons_of_neg (by simpa using ht), filter_eq_self.mpr hall]

/-- **A pruned queue stands for all instants from a window on**: it holds the same as they do from
any bound that a later window can have. -/
structure Tracks (width now : ℕ) (queue instants : List ℕ) : Prop where
  sorted : queue.Pairwise (· ≤ ·)
  le_now : ∀ t ∈ queue, t ≤ now
  same : ∀ bound, now - width ≤ bound →
    queue.filter (bound ≤ ·) = instants.filter (bound ≤ ·)

namespace Tracks

variable {width now later : ℕ} {instants : List ℕ}

theorem nil (width now : ℕ) : Tracks width now [] [] :=
  ⟨List.Pairwise.nil, fun _ h => absurd h not_mem_nil, fun _ _ => rfl⟩

theorem mono (h : Tracks width now queue instants) (hle : now ≤ later) :
    Tracks width later queue instants :=
  ⟨h.sorted, fun t ht => (h.le_now t ht).trans hle, fun bound hbound => h.same bound (by omega)⟩

theorem pruneBefore_eq (h : Tracks width now queue instants) :
    pruneBefore (now - width) queue = instants.filter (now - width ≤ ·) := by
  rw [pruneBefore_eq_filter h.sorted, h.same _ le_rfl]

theorem prune (h : Tracks width now queue instants) :
    Tracks width now (pruneBefore (now - width) queue) instants := by
  rw [pruneBefore_eq_filter h.sorted]
  refine ⟨h.sorted.filter _, fun t ht => h.le_now t (mem_filter.mp ht).1, ?_⟩
  intro bound hbound
  rw [filter_filter, ← h.same bound hbound]
  refine filter_congr fun t _ => ?_
  rw [Bool.eq_iff_iff, Bool.and_eq_true, decide_eq_true_iff, decide_eq_true_iff]
  omega

theorem push (h : Tracks width now queue instants) :
    Tracks width now (queue ++ [now]) (instants ++ [now]) := by
  refine ⟨pairwise_append.mpr ⟨h.sorted, pairwise_singleton _ _, ?_⟩, ?_, ?_⟩
  · intro t ht last hlast
    rw [mem_singleton.mp hlast]
    exact h.le_now t ht
  · intro t ht
    rcases mem_append.mp ht with ht | ht
    · exact h.le_now t ht
    · exact (mem_singleton.mp ht).le
  · intro bound hbound
    rw [filter_append, filter_append, h.same bound hbound]

end Tracks

end Queue

end Chelix.Library
