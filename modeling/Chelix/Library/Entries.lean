import Mathlib.Data.List.AList
import Mathlib.Data.List.Count

/-!
# Tables of entries

Association lists with one entry for each key, whose entries can be filtered and counted.  A
table of the source language that has no order is one of these, read by its lookups.
-/

namespace Chelix.Library

variable {κ ν : Type*}

abbrev Entries (κ ν : Type*) := AList fun _ : κ => ν

namespace Entries

/-- The entries that a test keeps. -/
def retain (p : κ → ν → Bool) (s : Entries κ ν) : Entries κ ν :=
  ⟨s.entries.filter fun entry => p entry.1 entry.2, s.nodupKeys.sublist List.filter_sublist⟩

/-- How many entries satisfy a test. -/
def count (p : ν → Bool) (s : Entries κ ν) : ℕ :=
  s.entries.countP fun entry => p entry.2

theorem count_retain_le (q : κ → ν → Bool) (p : ν → Bool) (s : Entries κ ν) :
    (s.retain q).count p ≤ s.count p :=
  List.filter_sublist.countP_le

variable [DecidableEq κ]

theorem lookup_retain (p : κ → ν → Bool) (s : Entries κ ν) (key : κ) :
    (s.retain p).lookup key = (s.lookup key).filter (p key) := by
  ext value
  rw [← Option.mem_def, AList.mem_lookup_iff, ← Option.mem_def, Option.mem_filter_iff,
    AList.mem_lookup_iff]
  simp only [retain, List.mem_filter]

theorem lookup_insert (s : Entries κ ν) (a b : κ) (value : ν) :
    AList.lookup b (AList.insert a value s) = if b = a then some value else s.lookup b := by
  split
  · case isTrue h =>
    subst h
    exact AList.lookup_insert s
  · case isFalse h => exact AList.lookup_insert_ne h

theorem count_insert_le (p : ν → Bool) (s : Entries κ ν) (key : κ) (value : ν) :
    count p (AList.insert key value s) ≤ s.count p + 1 := by
  unfold count
  rw [AList.entries_insert, List.countP_cons]
  have h := (List.kerase_sublist key s.entries).countP_le (p := fun entry => p entry.2)
  split <;> omega

theorem count_insert_of_not {p : ν → Bool} (s : Entries κ ν) (key : κ) {value : ν}
    (hvalue : p value = false) : count p (AList.insert key value s) ≤ s.count p := by
  unfold count
  rw [AList.entries_insert, List.countP_cons_of_neg (by simp [hvalue])]
  exact (List.kerase_sublist key s.entries).countP_le

end Entries

end Chelix.Library
