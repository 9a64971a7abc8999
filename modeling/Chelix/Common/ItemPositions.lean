import Chelix.Common.ProviderOutput

/-!
# Positions of provider items

An adapter that gets no positions from its provider hands them out itself, densely and in the
order in which the identities first appear.  What the allocator promises is carried by it: a
position that was handed out is below the next one, and no two identities share one.
-/

namespace Chelix.Common

/-- Assigns a stable position to every provider item identity in one segment. -/
structure ItemPositionAllocator where
  assigned : ProviderItemId → Option ProviderItemPosition
  nextPosition : ℕ
  lt_next : ∀ id position, assigned id = some position → position < nextPosition
  injective : ∀ id id' position,
    assigned id = some position → assigned id' = some position → id = id'

namespace ItemPositionAllocator

def empty : ItemPositionAllocator where
  assigned := fun _ => none
  nextPosition := 0
  lt_next := by simp
  injective := by simp

/-- The allocator after `itemId` has been seen. -/
def allocate (a : ItemPositionAllocator) (itemId : ProviderItemId) : ItemPositionAllocator :=
  match a.assigned itemId with
  | some _ => a
  | none =>
    { assigned := Function.update a.assigned itemId (some a.nextPosition)
      nextPosition := a.nextPosition + 1
      lt_next := by
        intro id position h
        by_cases hid : id = itemId
        · subst hid
          rw [Function.update_self, Option.some.injEq] at h
          exact h ▸ Nat.lt_succ_self _
        · rw [Function.update_of_ne hid] at h
          exact Nat.lt_succ_of_lt (a.lt_next id position h)
      injective := by
        intro id id' position h h'
        by_cases hid : id = itemId <;> by_cases hid' : id' = itemId
        · exact hid.trans hid'.symm
        · rw [hid, Function.update_self, Option.some.injEq] at h
          rw [Function.update_of_ne hid'] at h'
          exact absurd (h ▸ a.lt_next id' position h') (Nat.lt_irrefl _)
        · rw [Function.update_of_ne hid] at h
          rw [hid', Function.update_self, Option.some.injEq] at h'
          exact absurd (h' ▸ a.lt_next id position h) (Nat.lt_irrefl _)
        · rw [Function.update_of_ne hid] at h
          rw [Function.update_of_ne hid'] at h'
          exact a.injective id id' position h h' }

/-- The position of `itemId`, and the allocator that remembers it. -/
def positionFor (a : ItemPositionAllocator) (itemId : ProviderItemId) :
    ProviderItemPosition × ItemPositionAllocator :=
  ((a.assigned itemId).getD a.nextPosition, a.allocate itemId)

end ItemPositionAllocator

end Chelix.Common
