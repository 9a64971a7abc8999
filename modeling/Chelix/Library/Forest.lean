import Chelix.Library.KeyedSort
import Mathlib.Algebra.Order.Ring.Int
import Mathlib.Data.List.Perm.Subperm
import Mathlib.Data.List.ProdSigma

/-!
# Parents

Each key has at most one parent, given by a function; a key that is not among the nodes has none,
but a parent need not be among the nodes.
-/

namespace Chelix.Library

open Relation List Function

variable {α : Type*}

/-- The second key is the parent of the first. -/
def Up (parent : α → Option α) (a b : α) : Prop := parent a = some b

/-- Following the parents from a key never leads back to it. -/
def Acyclic (parent : α → Option α) : Prop := ∀ a, ¬ TransGen (Up parent) a a

theorem acyclic_of_forall_eq_none {parent : α → Option α} (h : ∀ a, parent a = none) :
    Acyclic parent := by
  intro a hcycle
  obtain ⟨b, hstep, -⟩ := TransGen.head'_iff.mp hcycle
  rw [Up, h a] at hstep
  cases hstep

theorem Acyclic.mono {parent parent' : α → Option α} (h : Acyclic parent)
    (hsub : ∀ a b, parent' a = some b → parent a = some b) : Acyclic parent' :=
  fun a hcycle => h a (TransGen.mono hsub _ _ hcycle)

section Update

variable [DecidableEq α] {parent : α → Option α} {key : α} {new : Option α}

theorem reaches_update_iff {a : α} :
    ReflTransGen (Up (update parent key new)) a key ↔
      ReflTransGen (Up parent) a key := by
  constructor
  · intro h
    induction h using ReflTransGen.head_induction_on with
    | refl => exact .refl
    | @head a b hstep _ ih =>
      by_cases heq : a = key
      · rw [heq]
      · rw [Up, update_of_ne heq] at hstep
        exact .head hstep ih
  · intro h
    induction h using ReflTransGen.head_induction_on with
    | refl => exact .refl
    | @head a b hstep _ ih =>
      by_cases heq : a = key
      · rw [heq]
      · refine .head ?_ ih
        rw [Up, update_of_ne heq]
        exact hstep

theorem reaches_of_update {a b : α}
    (h : TransGen (Up (update parent key new)) a b) :
    TransGen (Up parent) a b ∨ ∃ p, new = some p ∧
      ReflTransGen (Up (update parent key new)) a key ∧
      ReflTransGen (Up (update parent key new)) p b := by
  have hsplit : ∀ {b c : α}, Up (update parent key new) b c →
      Up parent b c ∨ b = key ∧ new = some c := by
    intro b c hstep
    by_cases heq : b = key
    · rw [Up, heq, update_self] at hstep
      exact .inr ⟨heq, hstep⟩
    · rw [Up, update_of_ne heq] at hstep
      exact .inl hstep
  induction h with
  | @single b hstep =>
    rcases hsplit hstep with hold | ⟨rfl, hnew⟩
    · exact .inl (.single hold)
    · exact .inr ⟨b, hnew, .refl, .refl⟩
  | @tail b c hway hstep ih =>
    rcases ih with hold | ⟨p, hnew, hto, hfrom⟩
    · rcases hsplit hstep with hlast | ⟨rfl, hnew⟩
      · exact .inl (hold.tail hlast)
      · exact .inr ⟨c, hnew, hway.to_reflTransGen, .refl⟩
    · exact .inr ⟨p, hnew, hto, hfrom.tail hstep⟩

/-- **A key may get a parent from which no way leads up to the key.** -/
theorem acyclic_update_iff (h : Acyclic parent) {p : α} :
    Acyclic (update parent key (some p)) ↔ ¬ ReflTransGen (Up parent) p key := by
  constructor
  · intro hacyclic hreaches
    refine hacyclic key (.head' ?_ (reaches_update_iff.mpr hreaches))
    rw [Up, update_self]
  · intro hnot a hcycle
    rcases reaches_of_update hcycle with hold | ⟨q, hnew, hto, hfrom⟩
    · exact h a hold
    · cases hnew
      exact hnot (reaches_update_iff.mp (hfrom.trans hto))

theorem Acyclic.update_none (h : Acyclic parent) :
    Acyclic (update parent key none) := by
  refine h.mono fun a b hstep => ?_
  by_cases heq : a = key
  · rw [heq, update_self] at hstep
    cases hstep
  · rwa [update_of_ne heq] at hstep

theorem Acyclic.update_of_leaf (h : Acyclic parent) (hleaf : ∀ a, parent a ≠ some key)
    (hself : new ≠ some key) : Acyclic (update parent key new) := by
  cases new with
  | none => exact h.update_none
  | some p =>
    refine (acyclic_update_iff h).mpr fun hreaches => ?_
    rcases ReflTransGen.cases_tail_iff _ _ _ |>.mp hreaches with heq | ⟨a, -, hstep⟩
    · exact hself (by rw [heq])
    · exact hleaf a hstep

end Update

/-! ## The way up -/

section Ancestors

variable [DecidableEq α] (parent : α → Option α)

/-- A key and its ancestors, each added once; the fuel bounds the steps. -/
def ancestors : ℕ → List α → α → List α
  | 0, seen, _ => seen
  | fuel + 1, seen, key =>
    if key ∈ seen then seen
    else
      match parent key with
      | none => key :: seen
      | some p => ancestors fuel (key :: seen) p

variable {parent} {nodes : List α}

theorem mem_ancestors_of_seen (hnodes : ∀ a b, parent a = some b → a ∈ nodes) :
    ∀ (fuel : ℕ) (seen : List α) (key : α), seen.Nodup → seen ⊆ nodes →
      nodes.length < fuel + seen.length →
      (∀ a ∈ seen, ∀ b, parent a = some b → b ∈ seen ∨ b = key) →
      ∀ x, x ∈ ancestors parent fuel seen key ↔ x ∈ seen ∨ ReflTransGen (Up parent) key x := by
  intro fuel
  induction fuel with
  | zero =>
    intro seen key hnodup hsub hfuel
    have hle := (subperm_of_subset hnodup hsub).length_le
    omega
  | succ fuel ih =>
    intro seen key hnodup hsub hfuel hclosed x
    rw [ancestors]
    split
    · next hmem =>
        -- Everything above a key that was seen was seen.
        have habove : ∀ y, ReflTransGen (Up parent) key y → y ∈ seen := by
          intro y hy
          induction hy with
          | refl => exact hmem
          | tail _ hstep ih =>
            rcases hclosed _ ih _ hstep with hseen | rfl
            · exact hseen
            · exact hmem
        exact ⟨.inl, fun h => h.elim id (habove x)⟩
    · next hnot =>
        split
        · next hnone =>
            have hself : ReflTransGen (Up parent) key x ↔ x = key := by
              constructor
              · intro hx
                rcases ReflTransGen.cases_head hx with heq | ⟨b, hstep, -⟩
                · exact heq.symm
                · rw [Up, hnone] at hstep
                  cases hstep
              · rintro rfl
                exact .refl
            rw [hself, mem_cons, or_comm]
        · next p hp =>
            have hkey : key ∈ nodes := hnodes key p hp
            have hlength : nodes.length < fuel + (key :: seen).length := by
              rw [length_cons]
              omega
            have hclosed' : ∀ a ∈ key :: seen, ∀ b, parent a = some b →
                b ∈ key :: seen ∨ b = p := by
              intro a ha b hb
              rcases mem_cons.mp ha with rfl | ha
              · exact .inr (Option.some.inj (hb.symm.trans hp))
              · rcases hclosed a ha b hb with hb | rfl
                · exact .inl (mem_cons_of_mem _ hb)
                · exact .inl mem_cons_self
            rw [ih (key :: seen) p (nodup_cons.mpr ⟨hnot, hnodup⟩)
              (cons_subset.mpr ⟨hkey, hsub⟩) hlength hclosed' x]
            have hhead : ReflTransGen (Up parent) key x ↔
                x = key ∨ ReflTransGen (Up parent) p x := by
              constructor
              · intro hx
                rcases ReflTransGen.cases_head hx with heq | ⟨b, hstep, hrest⟩
                · exact .inl heq.symm
                · cases hstep.symm.trans hp
                  exact .inr hrest
              · rintro (rfl | hx)
                · exact .refl
                · exact .head hp hx
            rw [hhead, mem_cons]
            tauto

/-- **What the way up finds**: with one step more than there are nodes, the key and everything
above it. -/
theorem mem_ancestors_iff (hnodes : ∀ a b, parent a = some b → a ∈ nodes) {key x : α} :
    x ∈ ancestors parent (nodes.length + 1) [] key ↔ ReflTransGen (Up parent) key x := by
  rw [mem_ancestors_of_seen hnodes _ _ _ nodup_nil (nil_subset _) (by simp) nofun]
  exact ⟨fun h => h.elim (fun hnil => absurd hnil not_mem_nil) id, .inr⟩

end Ancestors

/-! ## The ways down -/

/-- The key is so many steps below the root. -/
def DepthAt (parent : α → Option α) (root : α) : ℕ → α → Prop
  | 0, key => key = root
  | depth + 1, key => ∃ p, parent key = some p ∧ DepthAt parent root depth p

section Depth

variable {parent : α → Option α} {root : α}

theorem exists_depthAt_iff {key : α} :
    (∃ depth, DepthAt parent root depth key) ↔ ReflTransGen (Up parent) key root := by
  constructor
  · rintro ⟨depth, h⟩
    induction depth generalizing key with
    | zero =>
      obtain rfl : key = root := h
      exact .refl
    | succ depth ih =>
      obtain ⟨p, hp, hdepth⟩ := h
      exact .head hp (ih hdepth)
  · intro h
    induction h using ReflTransGen.head_induction_on with
    | refl => exact ⟨0, rfl⟩
    | head hstep _ ih =>
      obtain ⟨depth, hdepth⟩ := ih
      exact ⟨depth + 1, _, hstep, hdepth⟩

theorem DepthAt.unique (hacyclic : Acyclic parent) {depth depth' : ℕ} {key : α}
    (h : DepthAt parent root depth key) (h' : DepthAt parent root depth' key) :
    depth = depth' := by
  have hroot : ∀ {depth : ℕ}, ¬ DepthAt parent root (depth + 1) root := by
    rintro depth ⟨p, hp, hdepth⟩
    exact hacyclic root (.head' hp (exists_depthAt_iff.mp ⟨depth, hdepth⟩))
  induction depth generalizing depth' key with
  | zero =>
    cases depth' with
    | zero => rfl
    | succ depth' =>
      obtain rfl : key = root := h
      exact absurd h' hroot
  | succ depth ih =>
    cases depth' with
    | zero =>
      obtain rfl : key = root := h'
      exact absurd h hroot
    | succ depth' =>
      obtain ⟨p, hp, hdepth⟩ := h
      obtain ⟨p', hp', hdepth'⟩ := h'
      cases hp.symm.trans hp'
      rw [ih hdepth hdepth']

theorem DepthAt.lt_length {nodes : List α} (hacyclic : Acyclic parent)
    (hnodes : ∀ a b, parent a = some b → a ∈ nodes) (hroot : root ∈ nodes) {depth : ℕ} {key : α}
    (h : DepthAt parent root depth key) : depth < nodes.length := by
  have hway : ∃ way : List α, way.length = depth + 1 ∧ way.Nodup ∧ way ⊆ nodes ∧
      ∀ y ∈ way, ReflTransGen (Up parent) key y := by
    induction depth generalizing key with
    | zero =>
      obtain rfl : key = root := h
      refine ⟨[key], rfl, nodup_singleton key, ?_, fun y hy => ?_⟩
      · exact cons_subset.mpr ⟨hroot, nil_subset _⟩
      · rw [mem_singleton.mp hy]
    | succ depth ih =>
      obtain ⟨p, hp, hdepth⟩ := h
      obtain ⟨way, hlength, hnodup, hsub, hreach⟩ := ih hdepth
      refine ⟨key :: way, by rw [length_cons, hlength], ?_, ?_, fun y hy => ?_⟩
      · refine nodup_cons.mpr ⟨fun hmem => ?_, hnodup⟩
        exact hacyclic key (.head' hp (hreach key hmem))
      · exact cons_subset.mpr ⟨hnodes key p hp, hsub⟩
      · rcases mem_cons.mp hy with rfl | hy
        · exact .refl
        · exact .head hp (hreach y hy)
  obtain ⟨way, hlength, hnodup, hsub, -⟩ := hway
  have hle := (subperm_of_subset hnodup hsub).length_le
  omega

end Depth

section Descend

variable [DecidableEq α] (nodes : List α) (parent : α → Option α)

def childrenOf (key : α) : List α := nodes.filter fun a => parent a = some key

/-- The level at some depth and those below it, each key with its depth; the fuel bounds the number
of levels. -/
def descend : ℕ → ℕ → List α → Option (List (α × ℕ))
  | _, _, [] => some []
  | 0, _, _ :: _ => none
  | fuel + 1, depth, key :: level =>
    (descend fuel (depth + 1) ((key :: level).flatMap (childrenOf nodes parent))).map
      ((key :: level).map (·, depth) ++ ·)

/-- The root, if it is a node, and what lies below it, the deepest level first and each level in
the order of the keys. -/
def leafToRoot [LinearOrder α] (fuel : ℕ) (root : α) : Option (List α) :=
  (descend nodes parent fuel 0 (nodes.filter (· = root))).map fun rows =>
    (sortByKey (fun row => toLex (-(row.2 : ℤ), row.1)) rows).map (·.1)

variable {nodes parent} {root : α}

/-- The level at a depth has each of its keys once. -/
structure LevelAt (nodes : List α) (parent : α → Option α) (root : α) (depth : ℕ)
    (level : List α) : Prop where
  nodup : level.Nodup
  mem_iff : ∀ key, key ∈ level ↔ root ∈ nodes ∧ DepthAt parent root depth key

theorem LevelAt.next (hnodup : nodes.Nodup) (hnodes : ∀ a b, parent a = some b → a ∈ nodes)
    {depth : ℕ} {level : List α} (h : LevelAt nodes parent root depth level) :
    LevelAt nodes parent root (depth + 1) (level.flatMap (childrenOf nodes parent)) where
  nodup := by
    refine nodup_flatMap.mpr ⟨fun key _ => hnodup.filter _, ?_⟩
    refine h.nodup.imp fun hne => ?_
    intro key hkey hkey'
    have hp := of_decide_eq_true (mem_filter.mp hkey).2
    have hp' := of_decide_eq_true (mem_filter.mp hkey').2
    exact hne (Option.some.inj (hp.symm.trans hp'))
  mem_iff key := by
    simp only [mem_flatMap, childrenOf, mem_filter, decide_eq_true_eq, h.mem_iff]
    constructor
    · rintro ⟨p, ⟨hroot, hdepth⟩, -, hp⟩
      exact ⟨hroot, p, hp, hdepth⟩
    · rintro ⟨hroot, p, hp, hdepth⟩
      exact ⟨p, ⟨hroot, hdepth⟩, hnodes key p hp, hp⟩

/-- What a descent from a level finds. -/
structure Descended (parent : α → Option α) (root : α) (present : Prop) (depth : ℕ)
    (rows : List (α × ℕ)) : Prop where
  nodup : (rows.map (·.1)).Nodup
  mem_iff : ∀ row, row ∈ rows ↔ present ∧ depth ≤ row.2 ∧ DepthAt parent root row.2 row.1

/-- **The descent has an end** where there is no cycle, and finds every key below the level once,
with its depth. -/
theorem exists_descend (hacyclic : Acyclic parent) (hnodup : nodes.Nodup)
    (hnodes : ∀ a b, parent a = some b → a ∈ nodes) :
    ∀ (fuel depth : ℕ) (level : List α), LevelAt nodes parent root depth level →
      nodes.length ≤ fuel + depth →
      ∃ rows, descend nodes parent fuel depth level = some rows ∧
        Descended parent root (root ∈ nodes) depth rows := by
  -- Below an empty level there is nothing.
  have hempty : ∀ depth, LevelAt nodes parent root depth [] → ∀ d key, depth ≤ d →
      ¬ (root ∈ nodes ∧ DepthAt parent root d key) := by
    intro depth hlevel d key hle hkey
    obtain ⟨steps, rfl⟩ := Nat.exists_eq_add_of_le hle
    induction steps generalizing key with
    | zero => exact not_mem_nil ((hlevel.mem_iff key).mpr hkey)
    | succ steps ih =>
      obtain ⟨hroot, p, -, hdepth⟩ := hkey
      exact ih p (Nat.le_add_right _ _) ⟨hroot, hdepth⟩
  intro fuel
  induction fuel with
  | zero =>
    intro depth level hlevel hfuel
    cases level with
    | nil =>
      refine ⟨[], rfl, nodup_nil, fun row => ?_⟩
      refine iff_of_false not_mem_nil fun ⟨hroot, hle, hdepth⟩ => ?_
      exact hempty depth hlevel row.2 row.1 hle ⟨hroot, hdepth⟩
    | cons key level =>
      obtain ⟨hroot, hdepth⟩ := (hlevel.mem_iff key).mp mem_cons_self
      have hlt := hdepth.lt_length hacyclic hnodes hroot
      omega
  | succ fuel ih =>
    intro depth level hlevel hfuel
    cases level with
    | nil =>
      refine ⟨[], rfl, nodup_nil, fun row => ?_⟩
      refine iff_of_false not_mem_nil fun ⟨hroot, hle, hdepth⟩ => ?_
      exact hempty depth hlevel row.2 row.1 hle ⟨hroot, hdepth⟩
    | cons key level =>
      obtain ⟨rows, hrows, hdescended⟩ :=
        ih (depth + 1) _ (hlevel.next hnodup hnodes) (by omega)
      refine ⟨(key :: level).map (·, depth) ++ rows, ?_, ?_, fun row => ?_⟩
      · rw [descend, hrows, Option.map_some]
      · rw [map_append, List.map_map]
        refine nodup_append.mpr ⟨?_, hdescended.nodup, ?_⟩
        · show ((key :: level).map fun a => a).Nodup
          rw [map_id']
          exact hlevel.nodup
        · rintro a hlevelMem _ hrowsMem rfl
          rw [mem_map] at hlevelMem hrowsMem
          obtain ⟨a, ha, rfl⟩ := hlevelMem
          obtain ⟨⟨b, d⟩, hb, hab⟩ := hrowsMem
          obtain rfl : b = a := hab
          obtain ⟨-, hle, hdepth⟩ := (hdescended.mem_iff _).mp hb
          have hunique := hdepth.unique hacyclic ((hlevel.mem_iff b).mp ha).2
          replace hle : depth + 1 ≤ d := hle
          replace hunique : d = depth := hunique
          omega
      · rw [mem_append, mem_map, hdescended.mem_iff]
        constructor
        · rintro (⟨a, ha, rfl⟩ | ⟨hroot, hle, hdepth⟩)
          · obtain ⟨hroot, hdepth⟩ := (hlevel.mem_iff a).mp ha
            exact ⟨hroot, le_rfl, hdepth⟩
          · exact ⟨hroot, (Nat.le_succ _).trans hle, hdepth⟩
        · rintro ⟨hroot, hle, hdepth⟩
          rcases hle.eq_or_lt with heq | hlt
          · refine .inl ⟨row.1, (hlevel.mem_iff _).mpr ⟨hroot, ?_⟩, ?_⟩
            · rw [heq]
              exact hdepth
            · rw [heq]
          · exact .inr ⟨hroot, hlt, hdepth⟩

/-- **The tree below a root**: finite, every key below the root once, and no key before one of
those below it. -/
theorem exists_leafToRoot [LinearOrder α] (hacyclic : Acyclic parent) (hnodup : nodes.Nodup)
    (hnodes : ∀ a b, parent a = some b → a ∈ nodes) (root : α) :
    ∃ keys, leafToRoot nodes parent nodes.length root = some keys ∧ keys.Nodup ∧
      (∀ key, key ∈ keys ↔ root ∈ nodes ∧ ReflTransGen (Up parent) key root) ∧
      keys.Pairwise fun key later => parent later ≠ some key := by
  have hlevel : LevelAt nodes parent root 0 (nodes.filter (· = root)) := by
    refine ⟨hnodup.filter _, fun key => ?_⟩
    rw [mem_filter, decide_eq_true_eq]
    exact ⟨fun ⟨hmem, heq⟩ => ⟨heq ▸ hmem, heq⟩, fun ⟨hmem, heq⟩ => ⟨heq ▸ hmem, heq⟩⟩
  obtain ⟨rows, hrows, hdescended⟩ :=
    exists_descend hacyclic hnodup hnodes nodes.length 0 _ hlevel le_rfl
  have hperm := perm_sortByKey (fun row : α × ℕ => toLex (-(row.2 : ℤ), row.1)) rows
  refine ⟨_, by rw [leafToRoot, hrows, Option.map_some],
    (hperm.map _).nodup_iff.mpr hdescended.nodup, fun key => ?_, ?_⟩
  · rw [(hperm.map _).mem_iff, mem_map, ← exists_depthAt_iff]
    constructor
    · rintro ⟨row, hrow, rfl⟩
      obtain ⟨hroot, -, hdepth⟩ := (hdescended.mem_iff row).mp hrow
      exact ⟨hroot, row.2, hdepth⟩
    · rintro ⟨hroot, depth, hdepth⟩
      exact ⟨(key, depth), (hdescended.mem_iff _).mpr ⟨hroot, Nat.zero_le _, hdepth⟩, rfl⟩
  · rw [pairwise_map]
    have hsorted := pairwise_sortByKey (fun row : α × ℕ => toLex (-(row.2 : ℤ), row.1)) rows
    refine hsorted.imp_of_mem fun {row later} hrow hlater hle hparent => ?_
    rw [mem_sortByKey] at hrow hlater
    -- A later row is not deeper, but a child is.
    have hdepth := ((hdescended.mem_iff row).mp hrow).2.2
    have hdepth' := ((hdescended.mem_iff later).mp hlater).2.2
    have hbelow : later.2 = row.2 + 1 := hdepth'.unique hacyclic ⟨row.1, hparent, hdepth⟩
    have hfirst : -(row.2 : ℤ) ≤ -(later.2 : ℤ) := by
      rcases Prod.Lex.toLex_le_toLex.mp hle with hlt | ⟨heq, -⟩
      · exact hlt.le
      · exact heq.le
    omega

end Descend

end Chelix.Library
