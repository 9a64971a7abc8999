import Chelix.Library.Search
import Mathlib.Data.Set.Basic

/-!
# Stripping spans from a text

Passes work on what the passes before them left.  Each looks for the first opening of its kind, cuts
out the span that begins there, and goes on behind it.  Where the two sides of a cut meet, they may
form an opening that nothing looks for any more.  What passes may leave of a text is read in the text
itself, with spans left out.
-/

namespace Chelix.Library

open List

variable {α : Type*}

/-! ## Passes -/

/-- Every opening of a pass is one that the pass leaves alone, by what follows it. -/
def Quiet (opens : Set (List α)) (harmless : List α → List α → Prop) (text : List α) : Prop :=
  ∀ o ∈ opens, ∀ x y, text = x ++ (o ++ y) → harmless o y

/-- A pass: where in a text its next span begins and ends, if it does not go to the end of the
text.  A span is one by itself, and so is what goes to the end. -/
structure StripPass (α : Type*) where
  opens : Set (List α)
  harmless : List α → List α → Prop
  next : List α → Option (ℕ × Option ℕ)
  nil_notMem : [] ∉ opens
  harmless_sublist : ∀ o y y', harmless o y → y'.Sublist y → harmless o y'
  next_eq_none_iff : ∀ rest, next rest = none ↔ Quiet opens harmless rest
  first : ∀ rest start stop, next rest = some (start, stop) →
    ∀ o ∈ opens, ∀ j, OccursAt o rest j → start ≤ j
  stop_bounds : ∀ rest start stop, next rest = some (start, some stop) →
    start < stop ∧ stop ≤ rest.length
  next_span : ∀ rest start stop, next rest = some (start, some stop) →
    next ((rest.drop start).take (stop - start)) = some (0, some (stop - start))
  next_rest : ∀ rest start, next rest = some (start, none) →
    next (rest.drop start) = some (0, none)

/-- The loop of a pass over the rest of a text.  Each turn consumes an opening. -/
def stripLoop (next : List α → Option (ℕ × Option ℕ)) : ℕ → List α → List α
  | 0, rest => rest
  | fuel + 1, rest =>
    match next rest with
    | none => rest
    | some (start, none) => rest.take start
    | some (start, some stop) => rest.take start ++ stripLoop next fuel (rest.drop stop)

def strip (next : List α → Option (ℕ × Option ℕ)) (text : List α) : List α :=
  stripLoop next (text.length + 1) text

section Quiet

variable {P : StripPass α} {text out rest : List α}

theorem Quiet.of_part (h : Quiet P.opens P.harmless text) (hout : out <:+: text) :
    Quiet P.opens P.harmless out := by
  obtain ⟨u, v, rfl⟩ := hout
  rintro o ho x y rfl
  refine P.harmless_sublist o (y ++ v) y (h o ho (u ++ x) (y ++ v) ?_)
    (sublist_append_left _ _)
  simp only [append_assoc]

theorem strip_of_quiet (h : Quiet P.opens P.harmless text) : strip P.next text = text := by
  unfold strip stripLoop
  rw [(P.next_eq_none_iff text).mpr h]

theorem stripAll_of_quiet {passes : List (StripPass α)}
    (h : ∀ P ∈ passes, Quiet P.opens P.harmless text) :
    passes.foldl (fun text P => strip P.next text) text = text := by
  induction passes with
  | nil => rfl
  | cons P passes ih =>
    rw [foldl_cons, strip_of_quiet (h P mem_cons_self)]
    exact ih fun Q hQ => h Q (mem_cons_of_mem P hQ)

theorem StripPass.take_ne {start : ℕ} {stop : Option ℕ} (h : P.next rest = some (start, stop))
    {o : List α} (ho : o ∈ P.opens) (x y : List α) : rest.take start ≠ x ++ (o ++ y) := by
  intro heq
  have hocc : OccursAt o rest x.length := by
    refine ⟨y ++ rest.drop start, ?_⟩
    conv_rhs => rw [← take_append_drop start rest, heq]
    simp only [append_assoc, drop_left]
  have hle := P.first rest start stop h o ho _ hocc
  have hlen := congrArg List.length heq
  have hpos : o.length ≠ 0 := fun h => P.nil_notMem (length_eq_zero_iff.mp h ▸ ho)
  rw [length_take, length_append, length_append] at hlen
  omega

end Quiet

/-! ## Reading a text -/

section Reading

variable (passes : List (StripPass α))

def OpensOf (k : ℕ) : Set (List α) := {o | ∃ P, passes[k]? = some P ∧ o ∈ P.opens}

/-- What a pass cuts out as one span. -/
def IsSpan (k : ℕ) (b : List α) : Prop :=
  ∃ P, passes[k]? = some P ∧ P.next b = some (0, some b.length)

/-- What a pass cuts off to the end. -/
def IsRest (k : ℕ) (w : List α) : Prop := ∃ P, passes[k]? = some P ∧ P.next w = some (0, none)

/-- From one place in a text, `w` is read up to another, where spans of the passes before the `n`th
may be left out.  Such a span is read with spans of the passes before its own left out. -/
inductive Leads : ℕ → List α → List α → List α → Prop
  | done {n : ℕ} {s : List α} : Leads n s [] s
  | take {n : ℕ} {c : α} {s w e : List α} (h : Leads n s w e) : Leads n (c :: s) (c :: w) e
  | across {n k : ℕ} {s b s₁ w e : List α} (hk : k < n) (hb : IsSpan passes k b)
      (hspan : Leads k s b s₁) (h : Leads n s₁ w e) : Leads n s w e

/-- `p` and then `q` are read with a span between them that the `lo`th pass or a later one cuts
out. -/
def Across (lo n : ℕ) (s p q e : List α) : Prop :=
  ∃ k b u v, lo ≤ k ∧ k < n ∧ IsSpan passes k b ∧ Leads passes n s p u ∧ Leads passes k u b v ∧
    Leads passes n v q e

/-- **No opening is spliced**: none is read across a span that its own pass or a later one cuts
out. -/
def NoSplice (text : List α) : Prop :=
  ∀ k, ∀ token ∈ OpensOf passes k, ∀ p q, p ++ q = token → p ≠ [] → q ≠ [] →
    ∀ s e, s <:+ text → ¬Across passes k passes.length s p q e

/-- From a place in a text, only what the passes from the `lo`th to the `n`th cut off is left, up
to what counts as the end. -/
inductive Ends (lo : ℕ) (final : List α → Prop) : ℕ → List α → Prop
  | final {n : ℕ} {e : List α} (h : final e) : Ends lo final n e
  | cut {n k : ℕ} {e w e' : List α} (hlo : lo ≤ k) (hk : k < n) (hw : IsRest passes k w)
      (hread : Leads passes k e w e') (h : Ends lo final k e') : Ends lo final n e

/-- What is read from a place becomes the end of the text by a cut: a span in it or behind it is cut
out, or all that follows is. -/
def Uncovered (lo : ℕ) (final : List α → Prop) (n : ℕ) (s w : List α) : Prop :=
  (∃ p q e, w = p ++ q ∧ Across passes lo n s p q e ∧ Ends passes lo final n e) ∨
    ∃ k r e e', lo ≤ k ∧ k < n ∧ IsRest passes k r ∧ Leads passes n s w e ∧
      Leads passes k e r e' ∧ Ends passes lo final k e'

variable {passes} {n n' : ℕ} {s w w' e e' : List α}

namespace Leads

theorem isSuffix (h : Leads passes n s w e) : e <:+ s := by
  induction h with
  | done => exact suffix_rfl
  | take _ ih => exact ih.trans (suffix_cons _ _)
  | across _ _ _ _ ihspan ih => exact ih.trans ihspan

theorem sublist (h : Leads passes n s w e) : w.Sublist s := by
  induction h with
  | done => exact nil_sublist _
  | take _ ih => exact ih.cons_cons _
  | across _ _ hspan _ _ ih => exact ih.trans hspan.isSuffix.sublist

theorem append (h : Leads passes n s w e) (h' : Leads passes n e w' e') :
    Leads passes n s (w ++ w') e' := by
  induction h with
  | done => exact h'
  | take _ ih => exact .take (ih h')
  | across hk hb hspan _ _ ih => exact .across hk hb hspan (ih h')

theorem split (h : Leads passes n s (w ++ w') e) :
    ∃ u, Leads passes n s w u ∧ Leads passes n u w' e := by
  generalize hv : w ++ w' = v at h
  induction h generalizing w with
  | done =>
    obtain ⟨rfl, rfl⟩ := append_eq_nil_iff.mp hv
    exact ⟨_, .done, .done⟩
  | @take n c s v e h ih =>
    cases w with
    | nil =>
      rw [nil_append] at hv
      subst hv
      exact ⟨_, .done, .take h⟩
    | cons d w =>
      rw [cons_append] at hv
      obtain ⟨rfl, hrest⟩ := List.cons.inj hv
      obtain ⟨u, hfirst, hsecond⟩ := ih hrest
      exact ⟨u, .take hfirst, hsecond⟩
  | across hk hb hspan _ _ ih =>
    obtain ⟨u, hfirst, hsecond⟩ := ih hv
    exact ⟨u, .across hk hb hspan hfirst, hsecond⟩

theorem mono (h : Leads passes n s w e) (hle : n ≤ n') : Leads passes n' s w e := by
  induction h with
  | done => exact .done
  | take _ ih => exact .take (ih hle)
  | across hk hb hspan _ _ ih => exact .across (Nat.lt_of_lt_of_le hk hle) hb hspan (ih hle)

theorem straight (n : ℕ) (w e : List α) : Leads passes n (w ++ e) w e := by
  induction w with
  | nil => exact .done
  | cons c w ih => exact .take ih

end Leads

theorem Across.mono {lo : ℕ} {p q : List α} (h : Across passes lo n s p q e) (hle : n ≤ n') :
    Across passes lo n' s p q e := by
  obtain ⟨k, b, u, v, hlo, hk, hb, hp, hspan, hq⟩ := h
  exact ⟨k, b, u, v, hlo, Nat.lt_of_lt_of_le hk hle, hb, hp.mono hle, hspan, hq.mono hle⟩

variable {lo : ℕ} {final : List α → Prop}

theorem Ends.mono (h : Ends passes lo final n e) (hle : n ≤ n') : Ends passes lo final n' e := by
  cases h with
  | final h => exact .final h
  | cut hlo hk hw hread h => exact .cut hlo (Nat.lt_of_lt_of_le hk hle) hw hread h

theorem Uncovered.mono (h : Uncovered passes lo final n s w) (hle : n ≤ n') :
    Uncovered passes lo final n' s w := by
  rcases h with ⟨p, q, e, hw, hacross, hend⟩ | ⟨k, r, e, e', hlo, hk, hr, hw, hread, hend⟩
  · exact .inl ⟨p, q, e, hw, hacross.mono hle, hend.mono hle⟩
  · exact .inr ⟨k, r, e, e', hlo, Nat.lt_of_lt_of_le hk hle, hr, hw.mono hle, hread, hend⟩

/-! A simple condition: all spans end with one character, and where it stands in the text, what
follows it occurs in no opening but at its beginning. -/

section Final

variable {z : α} (hspans : ∀ k b, IsSpan passes k b → ∃ body, b = body ++ [z])

include hspans

/-- A place stands behind what is read last before it, or behind the end of a span. -/
def Behind (z : α) (s w e : List α) : Prop :=
  (w = [] ∧ e = s) ∨ ∃ x c, s = x ++ c :: e ∧ (w.getLast? = some c ∨ c = z)

omit hspans in
theorem Behind.of_final {body : List α} (h : Behind z s (body ++ [z]) e) :
    ∃ x, s = x ++ z :: e := by
  rcases h with ⟨hnil, -⟩ | ⟨x, c, rfl, hc⟩
  · exact absurd hnil (append_ne_nil_of_right_ne_nil _ (cons_ne_nil _ _))
  · refine ⟨x, ?_⟩
    rcases hc with hc | rfl
    · rw [getLast?_append, getLast?_singleton, Option.some_or, Option.some.injEq] at hc
      rw [hc]
    · rfl

theorem Leads.behind (h : Leads passes n s w e) : Behind z s w e := by
  induction h with
  | done => exact .inl ⟨rfl, rfl⟩
  | @take n c s w e h ih =>
    refine .inr ?_
    rcases ih with ⟨rfl, rfl⟩ | ⟨x, d, rfl, hd⟩
    · exact ⟨[], c, rfl, .inl rfl⟩
    · refine ⟨c :: x, d, rfl, hd.imp_left fun hd => ?_⟩
      rw [List.getLast?_cons, hd]
      rfl
  | across hk hb hspan h ihspan ih =>
    obtain ⟨body, rfl⟩ := hspans _ _ hb
    obtain ⟨x, rfl⟩ := ihspan.of_final
    refine .inr ?_
    rcases ih with ⟨rfl, rfl⟩ | ⟨x', d, rfl, hd⟩
    · exact ⟨x, z, rfl, .inr rfl⟩
    · exact ⟨x ++ z :: x', d, by simp only [append_assoc, cons_append], hd⟩

theorem Leads.behind_span {k : ℕ} {b : List α} (hb : IsSpan passes k b)
    (h : Leads passes n s b e) : ∃ x, s = x ++ z :: e := by
  obtain ⟨body, rfl⟩ := hspans k b hb
  exact (h.behind hspans).of_final

theorem Leads.follows {c : α} {q front text : List α} (h : Leads passes n s w e) (hw : w = c :: q)
    (htext : text = front ++ z :: s) : [z, c] <:+: text := by
  induction h generalizing front with
  | done => cases hw
  | take _ _ =>
    obtain ⟨rfl, -⟩ := List.cons.inj hw
    exact ⟨front, _, by rw [htext, append_assoc]; rfl⟩
  | across _ hb hspan _ _ ih =>
    obtain ⟨x, rfl⟩ := hspan.behind_span hspans hb
    exact ih hw (show text = (front ++ z :: x) ++ z :: _ by rw [htext, append_assoc, cons_append])

theorem noSplice_of_follows {text : List α}
    (h : ∀ c, [z, c] <:+: text → ∀ k, ∀ o ∈ OpensOf passes k, c ∉ o.tail) :
    NoSplice passes text := by
  rintro k token htoken p q hpq hp hq s e hs ⟨j, b, u, v, -, -, hb, hpread, hspan, hqread⟩
  obtain ⟨front, rfl⟩ := hpread.isSuffix.trans hs
  obtain ⟨x, rfl⟩ := hspan.behind_span hspans hb
  obtain ⟨c, q, rfl⟩ := exists_cons_of_ne_nil hq
  obtain ⟨d, p, rfl⟩ := exists_cons_of_ne_nil hp
  have hinfix : [z, c] <:+: front ++ (x ++ z :: v) :=
    hqread.follows hspans rfl (append_assoc _ _ _).symm
  refine h c hinfix k token htoken ?_
  rw [← hpq]
  exact mem_append_right p mem_cons_self

end Final

end Reading

/-! ## What is left -/

/-- What the passes from the `m`th on leave of the rest of a text, in terms of the text: it is read
there up to the end; openings of the passes so far were there before; and what it ends with was the
end before, or became it by a cut. -/
structure Leaves (passes : List (StripPass α)) (lo : ℕ) (final : List α → Prop) (m n : ℕ)
    (s rest out : List α) : Prop where
  reads : ∃ e, Leads passes n s out e ∧ Ends passes lo final n e
  sublist : out.Sublist rest
  keeps : ∀ k ≤ m, ∀ o ∈ OpensOf passes k, ∀ x y, out = x ++ (o ++ y) →
    ∃ x' y', rest = x' ++ (o ++ y') ∧ y.Sublist y'
  tails : ∀ front tail, out = front ++ tail → tail ≠ [] →
    (∃ front', rest = front' ++ tail) ∨ ∃ s', s' <:+ s ∧ Uncovered passes lo final n s' tail

section Passes

variable {passes : List (StripPass α)} {lo m n n' : ℕ} {final : List α → Prop}
  {text s rest out last e : List α} {P : StripPass α}

theorem Leaves.refl (h : Leads passes m s rest e) (hend : Ends passes lo final m e) (hle : m ≤ n) :
    Leaves passes lo final m n s rest rest where
  reads := ⟨e, h.mono hle, hend.mono hle⟩
  sublist := List.Sublist.refl _
  keeps := fun _ _ _ _ x y heq => ⟨x, y, heq, List.Sublist.refl _⟩
  tails := fun front _ heq _ => .inl ⟨front, heq⟩

theorem Leaves.trans {m' : ℕ} (h : Leaves passes lo final m n s rest out)
    (h' : Leaves passes lo final m' n' s out last) (hm : m ≤ m') (hn : n ≤ n') :
    Leaves passes lo final m n' s rest last where
  reads := h'.reads
  sublist := h'.sublist.trans h.sublist
  keeps := by
    intro k hk o ho x y heq
    obtain ⟨x₁, y₁, heq₁, hsub₁⟩ := h'.keeps k (Nat.le_trans hk hm) o ho x y heq
    obtain ⟨x₂, y₂, heq₂, hsub₂⟩ := h.keeps k hk o ho x₁ y₁ heq₁
    exact ⟨x₂, y₂, heq₂, hsub₁.trans hsub₂⟩
  tails := by
    intro front tail heq hne
    rcases h'.tails front tail heq hne with ⟨front', heq'⟩ | hturned
    · rcases h.tails front' tail heq' hne with hsame | ⟨s', hs', hturned⟩
      · exact .inl hsame
      · exact .inr ⟨s', hs', hturned.mono hn⟩
    · exact .inr hturned

theorem Leaves.quiet {k : ℕ} {Q : StripPass α} (h : Leaves passes lo final m n s rest out)
    (hQ : passes[k]? = some Q) (hk : k ≤ m) (hquiet : Quiet Q.opens Q.harmless rest) :
    Quiet Q.opens Q.harmless out := by
  intro o ho x y heq
  obtain ⟨x', y', heq', hsub⟩ := h.keeps k hk o ⟨Q, hQ, ho⟩ x y heq
  exact Q.harmless_sublist o y' y (hquiet o ho x' y' heq') hsub

/-- **The loop of a pass** leaves a text that is quiet for it. -/
theorem stripLoop_spec (hP : passes[m]? = some P) (hlo : lo ≤ m) (hno : NoSplice passes text)
    {fuel : ℕ} (hfuel : rest.length < fuel) (hs : s <:+ text) (hread : Leads passes m s rest e)
    (hend : Ends passes lo final m e) :
    Leaves passes lo final m (m + 1) s rest (stripLoop P.next fuel rest) ∧
      Quiet P.opens P.harmless (stripLoop P.next fuel rest) := by
  have hlen : m + 1 ≤ passes.length := (List.getElem?_eq_some_iff.mp hP).1
  induction fuel generalizing s rest with
  | zero => exact absurd hfuel (Nat.not_lt_zero _)
  | succ fuel ih =>
    unfold stripLoop
    cases hnext : P.next rest with
    | none => exact ⟨.refl hread hend (Nat.le_succ m), (P.next_eq_none_iff rest).mp hnext⟩
    | some span =>
      obtain ⟨start, stop⟩ := span
      cases stop with
      | none =>
        -- what follows the opening is cut off
        dsimp only
        rw [← take_append_drop start rest] at hread
        obtain ⟨u, hfront, hback⟩ := hread.split
        have hrest : IsRest passes m (rest.drop start) := ⟨P, hP, P.next_rest rest start hnext⟩
        refine ⟨⟨⟨u, hfront.mono (Nat.le_succ m), .cut hlo (Nat.lt_succ_self m) hrest hback hend⟩,
          take_sublist _ _, fun k hk o ho x y heq => ?_, fun front tail heq hne => .inr ?_⟩,
          fun o ho x y heq => absurd heq (P.take_ne hnext ho x y)⟩
        · refine ⟨x, y ++ rest.drop start, ?_, sublist_append_left _ _⟩
          conv_lhs => rw [← take_append_drop start rest]
          rw [heq]
          simp only [append_assoc]
        · rw [heq] at hfront
          obtain ⟨s', hbefore, htail⟩ := hfront.split
          exact ⟨s', hbefore.isSuffix, .inr ⟨m, rest.drop start, u, e, hlo, Nat.lt_succ_self m,
            hrest, htail.mono (Nat.le_succ m), hback, hend⟩⟩
      | some stop =>
        -- a span is cut out, and the loop goes on behind it
        dsimp only
        obtain ⟨hlt, hle⟩ := P.stop_bounds rest start stop hnext
        have hparts : rest = rest.take start ++
            ((rest.drop start).take (stop - start) ++ rest.drop stop) := by
          conv_lhs => rw [← take_append_drop start rest,
            ← take_append_drop (stop - start) (rest.drop start)]
          rw [drop_drop, Nat.add_sub_cancel' (Nat.le_of_lt hlt)]
        have hspan : IsSpan passes m ((rest.drop start).take (stop - start)) := by
          refine ⟨P, hP, ?_⟩
          rw [P.next_span rest start stop hnext, length_take, length_drop,
            Nat.min_eq_left (by omega)]
        have hread' := hread
        rw [hparts] at hread'
        obtain ⟨u, hfront, hread'⟩ := hread'.split
        obtain ⟨v, hcut, hback⟩ := hread'.split
        have hv : v <:+ text := (hcut.isSuffix.trans hfront.isSuffix).trans hs
        obtain ⟨hleaves, hquiet⟩ := ih (by rw [length_drop]; omega) hv hback
        obtain ⟨e', hout, hend'⟩ := hleaves.reads
        -- no opening of the passes so far lies across the seam
        have hseam : ∀ k ≤ m, ∀ o ∈ OpensOf passes k, ∀ p q x y, p ≠ [] → q ≠ [] → o = p ++ q →
            rest.take start = x ++ p → stripLoop P.next fuel (rest.drop stop) ≠ q ++ y := by
          intro k hk o ho p q x y hp hq hpq hx hy
          rw [hx] at hfront
          obtain ⟨s', hbefore, hpread⟩ := hfront.split
          rw [hy] at hout
          obtain ⟨v', hqread, -⟩ := hout.split
          exact hno k o ho p q hpq.symm hp hq s' v' (hbefore.isSuffix.trans hs)
            ⟨m, _, u, v, hk, hlen, hspan, hpread.mono (by omega), hcut, hqread.mono hlen⟩
        -- where an opening of the result can lie
        have hplace : ∀ k ≤ m, ∀ o ∈ OpensOf passes k, ∀ x y,
            rest.take start ++ stripLoop P.next fuel (rest.drop stop) = x ++ (o ++ y) →
            (∃ z, rest.take start = x ++ (o ++ z) ∧
              y = z ++ stripLoop P.next fuel (rest.drop stop)) ∨
            ∃ z, stripLoop P.next fuel (rest.drop stop) = z ++ (o ++ y) := by
          intro k hk o ho x y heq
          rcases append_eq_append_iff.mp heq with ⟨z, rfl, hz⟩ | ⟨p, hp, hz⟩
          · exact .inr ⟨z, hz⟩
          · rcases append_eq_append_iff.mp hz with ⟨z, rfl, hy⟩ | ⟨q, hq, hy⟩
            · exact .inl ⟨z, hp, hy⟩
            · by_cases hpnil : p = []
              · subst hpnil
                exact .inr ⟨[], by rw [hy, nil_append, hq, nil_append]⟩
              · by_cases hqnil : q = []
                · subst hqnil
                  rw [append_nil] at hq
                  refine .inl ⟨[], by rw [append_nil, hq, hp], ?_⟩
                  rw [nil_append, hy, nil_append]
                · exact absurd hy (hseam k hk o ho p q x y hpnil hqnil hq hp)
        refine ⟨⟨⟨e', ?_, hend'⟩, ?_, fun k hk o ho x y heq => ?_, fun front tail heq hne => ?_⟩,
          fun o ho x y heq => ?_⟩
        · exact (hfront.mono (Nat.le_succ m)).append (.across (Nat.lt_succ_self m) hspan hcut hout)
        · conv_rhs => rw [hparts]
          exact (List.Sublist.refl _).append (hleaves.sublist.trans (sublist_append_right _ _))
        · rcases hplace k hk o ho x y heq with ⟨z, hz, rfl⟩ | ⟨z, hz⟩
          · refine ⟨x, z ++ ((rest.drop start).take (stop - start) ++ rest.drop stop), ?_,
              (List.Sublist.refl _).append (hleaves.sublist.trans (sublist_append_right _ _))⟩
            conv_lhs => rw [hparts, hz]
            simp only [append_assoc]
          · obtain ⟨x', y', hx', hsub⟩ := hleaves.keeps k hk o ho z y hz
            refine ⟨rest.take start ++ ((rest.drop start).take (stop - start) ++ x'), y', ?_, hsub⟩
            conv_lhs => rw [hparts, hx']
            simp only [append_assoc]
        · rcases append_eq_append_iff.mp heq with ⟨z, -, hz⟩ | ⟨z, hz, htail⟩
          · rcases hleaves.tails z tail hz hne with ⟨front', hfront'⟩ | ⟨s', hs', hturned⟩
            · refine .inl ⟨rest.take start ++ ((rest.drop start).take (stop - start) ++ front'), ?_⟩
              conv_lhs => rw [hparts, hfront']
              simp only [append_assoc]
            · exact .inr ⟨s', (hs'.trans hcut.isSuffix).trans hfront.isSuffix, hturned⟩
          · rw [hz] at hfront
            obtain ⟨s', hbefore, hzread⟩ := hfront.split
            exact .inr ⟨s', hbefore.isSuffix, .inl ⟨z, _, e', htail,
              ⟨m, _, u, v, hlo, Nat.lt_succ_self m, hspan, hzread.mono (Nat.le_succ m), hcut, hout⟩,
              hend'⟩⟩
        · rcases hplace m (le_refl m) o ⟨P, hP, ho⟩ x y heq with ⟨z, hz, -⟩ | ⟨z, hz⟩
          · exact absurd hz (P.take_ne hnext ho x z)
          · exact hquiet o ho z y hz

/-- **A list of passes** leaves a text that is quiet for each of them. -/
theorem stripAll_spec {before now : List (StripPass α)} (hpasses : before ++ now <+: passes)
    (hlo : lo ≤ before.length) (hno : NoSplice passes text) (hs : s <:+ text)
    (hread : Leads passes before.length s rest e) (hend : Ends passes lo final before.length e) :
    Leaves passes lo final before.length (before.length + now.length) s rest
        (now.foldl (fun text P => strip P.next text) rest) ∧
      ∀ P ∈ now, Quiet P.opens P.harmless (now.foldl (fun text P => strip P.next text) rest) := by
  induction now generalizing before rest e with
  | nil => exact ⟨.refl hread hend (Nat.le_refl _), nofun⟩
  | cons P now ih =>
    have hlength : (before ++ [P]).length = before.length + 1 := by
      rw [length_append, length_singleton]
    have hP : passes[before.length]? = some P := by
      obtain ⟨after, rfl⟩ := hpasses
      rw [append_assoc, List.getElem?_append_right (le_refl _), Nat.sub_self]
      rfl
    obtain ⟨hfirst, hquiet⟩ := stripLoop_spec hP hlo hno (Nat.lt_succ_self rest.length) hs hread hend
    obtain ⟨e', hread', hend'⟩ := hfirst.reads
    rw [← hlength] at hread' hend'
    have hprefix : before ++ [P] ++ now <+: passes := by
      rwa [append_assoc, singleton_append]
    obtain ⟨hothers, hquiets⟩ := ih hprefix (by omega) hread' hend'
    rw [hlength] at hothers
    have hcount : before.length + 1 + now.length = before.length + (P :: now).length := by
      rw [length_cons]
      omega
    rw [hcount] at hothers
    refine ⟨hfirst.trans hothers (Nat.le_succ _) (by rw [length_cons]; omega), fun Q hQ => ?_⟩
    rcases mem_cons.mp hQ with rfl | hQ
    · exact hothers.quiet hP (Nat.le_succ _) hquiet
    · exact hquiets Q hQ

end Passes

end Chelix.Library
