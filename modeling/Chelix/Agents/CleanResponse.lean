import Chelix.Agents.ResponseSanitizer

/-!
# Cleaned responses

Each pass cuts spans out of what the passes before it left.  As long as no opening is read across a
span that is cut out later, no cut forms an opening again.
-/

namespace Chelix.Agents

open Library List

/-! ## The passes -/

theorem earliest_eq_none {a b : Option ℕ} : earliest a b = none ↔ a = none ∧ b = none := by
  cases a <;> cases b <;> simp [earliest]

variable {rest : List Char} {start : ℕ}

theorem earliest_find {a b : List Char} (ha : a ≠ []) (hb : b ≠ [])
    (h : earliest (find a rest) (find b rest) = some start) :
    (OccursAt a rest start ∨ OccursAt b rest start) ∧
      ∀ j, OccursAt a rest j ∨ OccursAt b rest j → start ≤ j := by
  cases hfa : find a rest with
  | none =>
    have hna := (find_eq_none_iff ha).mp hfa
    cases hfb : find b rest with
    | none =>
      rw [hfa, hfb] at h
      cases h
    | some k =>
      rw [hfa, hfb] at h
      obtain rfl : k = start := Option.some.inj h
      obtain ⟨hocc, hfirst⟩ := (find_eq_some_iff hb).mp hfb
      exact ⟨.inr hocc, fun j hj => hj.elim (fun hj => absurd hj (hna j)) (hfirst j)⟩
  | some i =>
    obtain ⟨hocc, hfirst⟩ := (find_eq_some_iff ha).mp hfa
    cases hfb : find b rest with
    | none =>
      rw [hfa, hfb] at h
      obtain rfl : i = start := Option.some.inj h
      have hnb := (find_eq_none_iff hb).mp hfb
      exact ⟨.inl hocc, fun j hj => hj.elim (hfirst j) fun hj => absurd hj (hnb j)⟩
    | some k =>
      obtain ⟨hocc', hfirst'⟩ := (find_eq_some_iff hb).mp hfb
      rw [hfa, hfb] at h
      have hmin : min i k = start := Option.some.inj h
      refine ⟨?_, fun j hj => ?_⟩
      · rcases Nat.le_total i k with hle | hle
        · left
          rw [← hmin, Nat.min_eq_left hle]
          exact hocc
        · right
          rw [← hmin, Nat.min_eq_right hle]
          exact hocc'
      · rcases hj with hj | hj
        · have := hfirst j hj
          omega
        · have := hfirst' j hj
          omega

variable {o : List Char}

theorem occursAt_iff {k : ℕ} (ho : o ≠ []) :
    OccursAt o rest k ↔ ∃ x y, rest = x ++ (o ++ y) ∧ x.length = k := by
  constructor
  · intro h
    have hlen := h.length_le ho
    obtain ⟨y, hy⟩ := h
    refine ⟨rest.take k, y, ?_, ?_⟩
    · rw [hy, take_append_drop]
    · rw [length_take]
      omega
  · rintro ⟨x, y, rfl, rfl⟩
    unfold OccursAt
    rw [drop_left]
    exact prefix_append _ _

theorem find_take {k n : ℕ} (ho : o ≠ []) (h : find o rest = some k) (hn : k + o.length ≤ n) :
    find o (rest.take n) = some k := by
  obtain ⟨hocc, hfirst⟩ := (find_eq_some_iff ho).mp h
  have hlen := hocc.length_le ho
  have hall {j : ℕ} (hj : OccursAt o (rest.take n) j) : OccursAt o rest j := by
    have happend := hj.append (rest.drop n)
    rwa [take_append_drop] at happend
  refine (find_eq_some_iff ho).mpr ⟨?_, fun j hj => hfirst j (hall hj)⟩
  rw [← take_append_drop n rest] at hocc
  refine hocc.of_append ?_
  rw [length_take]
  omega

theorem find_zero (ho : o ≠ []) (h : OccursAt o rest 0) : find o rest = some 0 :=
  (find_eq_some_iff ho).mpr ⟨h, fun j _ => Nat.zero_le j⟩

theorem earliest_zero {a b : Option ℕ} (h : a = some 0 ∨ b = some 0) : earliest a b = some 0 := by
  rcases h with rfl | rfl
  · cases b <;> simp [earliest]
  · cases a <;> simp [earliest]

/-- An opening is harmless where the text has no end of a tag any more. -/
def Unended (o y : List Char) : Prop := '>' ∉ o ∧ '>' ∉ y

theorem openExact_ne_nil (tag : List Char) : openExact tag ≠ [] := cons_ne_nil _ _

theorem openWithSpace_ne_nil (tag : List Char) : openWithSpace tag ≠ [] := cons_ne_nil _ _

theorem closeTag_ne_nil (tag : List Char) : closeTag tag ≠ [] := cons_ne_nil _ _

theorem openPipe_ne_nil (tag : List Char) : openPipe tag ≠ [] := cons_ne_nil _ _

theorem closePipe_ne_nil (tag : List Char) : closePipe tag ≠ [] := cons_ne_nil _ _

theorem mem_drop_of_occursAt {x y : List Char} (heq : rest = x ++ (o ++ y)) (hle : start ≤ x.length)
    {c : Char} (hc : c ∈ o ∨ c ∈ y) : c ∈ rest.drop start := by
  rw [heq, drop_append_of_le_length hle]
  exact mem_append_right _ (mem_append.mpr hc)

theorem find_gt {l : List Char} : find ['>'] l = none ↔ '>' ∉ l := by
  rw [find_eq_none_iff (cons_ne_nil _ _)]
  constructor
  · intro h hmem
    obtain ⟨x, y, hxy⟩ := append_of_mem hmem
    refine h x.length ((occursAt_iff (cons_ne_nil _ _)).mpr ⟨x, y, ?_, rfl⟩)
    rw [hxy]
    rfl
  · intro h j hj
    obtain ⟨x, y, hxy, -⟩ := (occursAt_iff (cons_ne_nil _ _)).mp hj
    refine h ?_
    rw [hxy]
    exact mem_append_right _ (mem_append_left _ (mem_singleton_self _))

variable {tag : List Char} {stop : Option ℕ}

theorem nextXmlTag_eq_some_iff :
    nextXmlTag tag rest = some (start, stop) ↔ ∃ gtPos,
      earliest (find (openExact tag) rest) (find (openWithSpace tag) rest) = some start ∧
      find ['>'] (rest.drop start) = some gtPos ∧
      (find (closeTag tag) (rest.drop (start + gtPos + 1))).map (fun closePos =>
        start + gtPos + 1 + closePos + (closeTag tag).length) = stop := by
  unfold nextXmlTag
  cases hstart : earliest (find (openExact tag) rest) (find (openWithSpace tag) rest) with
  | none => simp
  | some first =>
    cases hgt : find ['>'] (rest.drop first) with
    | none =>
      simp only [hgt, Option.some.injEq]
      constructor
      · nofun
      · rintro ⟨gtPos, rfl, hfind, -⟩
        rw [hgt] at hfind
        cases hfind
    | some gtPos =>
      have hiff : (∃ gtPos', some first = some start ∧ find ['>'] (rest.drop start) = some gtPos' ∧
          (find (closeTag tag) (rest.drop (start + gtPos' + 1))).map (fun closePos =>
            start + gtPos' + 1 + closePos + (closeTag tag).length) = stop) ↔
          first = start ∧ (find (closeTag tag) (rest.drop (first + gtPos + 1))).map
            (fun closePos => first + gtPos + 1 + closePos + (closeTag tag).length) = stop := by
        constructor
        · rintro ⟨gtPos', heq, hfind, hstop⟩
          obtain rfl := Option.some.inj heq
          obtain rfl := Option.some.inj (hgt.symm.trans hfind)
          exact ⟨rfl, hstop⟩
        · rintro ⟨rfl, hstop⟩
          exact ⟨gtPos, rfl, hgt, hstop⟩
      rw [hiff]
      simp only [hgt]
      cases find (closeTag tag) (rest.drop (first + gtPos + 1)) <;> simp

theorem nextXmlTag_drop (h : nextXmlTag tag rest = some (start, stop)) :
    nextXmlTag tag (rest.drop start) = some (0, stop.map (· - start)) := by
  obtain ⟨gtPos, hstart, hgt, rfl⟩ := nextXmlTag_eq_some_iff.mp h
  refine nextXmlTag_eq_some_iff.mpr ⟨gtPos, earliest_zero ?_, ?_, ?_⟩
  · exact (earliest_find (openExact_ne_nil tag) (openWithSpace_ne_nil tag) hstart).1.imp
      (fun hocc => find_zero (openExact_ne_nil tag) hocc)
      fun hocc => find_zero (openWithSpace_ne_nil tag) hocc
  · rwa [drop_zero]
  · rw [drop_drop, Option.map_map, show start + (0 + gtPos + 1) = start + gtPos + 1 by omega]
    refine Option.map_congr fun closePos _ => ?_
    dsimp only [Function.comp]
    omega

theorem nextXmlTag_span {stop : ℕ} (h : nextXmlTag tag rest = some (start, some stop)) :
    nextXmlTag tag ((rest.drop start).take (stop - start)) = some (0, some (stop - start)) := by
  obtain ⟨gtPos, hstart, hgt, hstop⟩ := nextXmlTag_eq_some_iff.mp (nextXmlTag_drop h)
  obtain ⟨closePos, hclose, hstop⟩ := Option.map_eq_some_iff.mp hstop
  have hlen : (closeTag tag).length = tag.length + 3 := by
    unfold closeTag
    simp
  dsimp only at hstop
  rw [Nat.zero_add] at hclose hstop
  rw [drop_zero] at hgt
  refine nextXmlTag_eq_some_iff.mpr ⟨gtPos, earliest_zero ?_, ?_, ?_⟩
  · refine (earliest_find (openExact_ne_nil tag) (openWithSpace_ne_nil tag) hstart).1.imp
      (fun hocc => ?_) fun hocc => ?_
    · refine find_take (openExact_ne_nil tag) (find_zero (openExact_ne_nil tag) hocc) ?_
      rw [show (openExact tag).length = tag.length + 2 by simp [openExact]]
      omega
    · refine find_take (openWithSpace_ne_nil tag) (find_zero (openWithSpace_ne_nil tag) hocc) ?_
      rw [show (openWithSpace tag).length = tag.length + 2 by simp [openWithSpace]]
      omega
  · rw [drop_zero]
    exact find_take (cons_ne_nil _ _) hgt (by rw [length_singleton]; omega)
  · rw [Nat.zero_add, drop_take, find_take (closeTag_ne_nil tag) hclose (by omega), Option.map_some,
      hstop]

theorem nextXmlTag_cases (tag rest : List Char) :
    (nextXmlTag tag rest = none ∧
        ((∀ j, ¬OccursAt (openExact tag) rest j ∧ ¬OccursAt (openWithSpace tag) rest j) ∨
          ∃ start, earliest (find (openExact tag) rest) (find (openWithSpace tag) rest) =
            some start ∧ '>' ∉ rest.drop start)) ∨
      ∃ start stop, nextXmlTag tag rest = some (start, stop) ∧
        earliest (find (openExact tag) rest) (find (openWithSpace tag) rest) = some start ∧
        '>' ∈ rest.drop start ∧ ∀ k ∈ stop, start < k ∧ k ≤ rest.length := by
  unfold nextXmlTag
  cases hstart : earliest (find (openExact tag) rest) (find (openWithSpace tag) rest) with
  | none =>
    obtain ⟨hexact, hspace⟩ := earliest_eq_none.mp hstart
    refine .inl ⟨rfl, .inl fun j => ⟨?_, ?_⟩⟩
    · exact (find_eq_none_iff (openExact_ne_nil tag)).mp hexact j
    · exact (find_eq_none_iff (openWithSpace_ne_nil tag)).mp hspace j
  | some start =>
    cases hgt : find ['>'] (rest.drop start) with
    | none => exact .inl ⟨by simp only [hgt], .inr ⟨start, rfl, find_gt.mp hgt⟩⟩
    | some gtPos =>
      have hmem : '>' ∈ rest.drop start := by
        by_contra hnot
        rw [find_gt.mpr hnot] at hgt
        cases hgt
      cases hclose : find (closeTag tag) (rest.drop (start + gtPos + 1)) with
      | none =>
        refine .inr ⟨start, none, ?_, rfl, hmem, fun k hk => by cases hk⟩
        simp only [hgt, hclose]
      | some closePos =>
        refine .inr ⟨start, some (start + gtPos + 1 + closePos + (closeTag tag).length), ?_, rfl,
          hmem, ?_⟩
        · simp only [hgt, hclose]
        · intro k hk
          obtain rfl := Option.some.inj hk
          have hne : closeTag tag ≠ [] := cons_ne_nil _ _
          have hlen := ((find_eq_some_iff hne).mp hclose).1.length_le hne
          have hpos := length_pos_iff.mpr hne
          rw [length_drop] at hlen
          omega

/-- The pass over the elements of a tag. -/
def xmlPass (tag : List Char) : StripPass Char where
  opens := {openExact tag, openWithSpace tag}
  harmless := Unended
  next := nextXmlTag tag
  nil_notMem := by
    rintro (h | h)
    · exact openExact_ne_nil tag h.symm
    · exact openWithSpace_ne_nil tag h.symm
  harmless_sublist := by
    rintro o y y' ⟨ho, hy⟩ hsub
    exact ⟨ho, fun hmem => hy (hsub.subset hmem)⟩
  next_eq_none_iff := by
    intro rest
    rcases nextXmlTag_cases tag rest with ⟨hnone, hcase⟩ | ⟨start, stop, hsome, hstart, hgt, -⟩
    · refine ⟨fun _ => ?_, fun _ => hnone⟩
      rintro o ho x y heq
      have hocc : ∀ o', o' = o → o ≠ [] → OccursAt o' rest x.length := by
        rintro o' rfl hne
        exact (occursAt_iff hne).mpr ⟨x, y, heq, rfl⟩
      rcases hcase with hnever | ⟨start, hstart, hgt⟩
      · rcases ho with rfl | rfl
        · exact absurd (hocc _ rfl (openExact_ne_nil tag)) (hnever _).1
        · exact absurd (hocc _ rfl (openWithSpace_ne_nil tag)) (hnever _).2
      · obtain ⟨-, hfirst⟩ :=
          earliest_find (openExact_ne_nil tag) (openWithSpace_ne_nil tag) hstart
        have hle : start ≤ x.length := by
          rcases ho with rfl | rfl
          · exact hfirst _ (.inl (hocc _ rfl (openExact_ne_nil tag)))
          · exact hfirst _ (.inr (hocc _ rfl (openWithSpace_ne_nil tag)))
        exact ⟨fun hmem => hgt (mem_drop_of_occursAt heq hle (.inl hmem)),
          fun hmem => hgt (mem_drop_of_occursAt heq hle (.inr hmem))⟩
    · refine ⟨fun h => ?_, fun hquiet => ?_⟩
      · rw [hsome] at h
        cases h
      · obtain ⟨hocc, -⟩ := earliest_find (openExact_ne_nil tag) (openWithSpace_ne_nil tag) hstart
        have hharm : ∀ o, o = openExact tag ∨ o = openWithSpace tag → o ≠ [] →
            OccursAt o rest start → '>' ∉ rest.drop start := by
          intro o ho hne hocc hmem
          obtain ⟨x, y, heq, hx⟩ := (occursAt_iff hne).mp hocc
          obtain ⟨hopen, hbehind⟩ := hquiet o ho x y heq
          rw [heq, ← hx, List.drop_left] at hmem
          exact (List.mem_append.mp hmem).elim hopen hbehind
        rcases hocc with hocc | hocc
        · exact absurd hgt (hharm _ (.inl rfl) (openExact_ne_nil tag) hocc)
        · exact absurd hgt (hharm _ (.inr rfl) (openWithSpace_ne_nil tag) hocc)
  first := by
    intro rest start stop h o ho j hj
    rcases nextXmlTag_cases tag rest with ⟨hnone, -⟩ | ⟨start', stop', hsome, hstart, -, -⟩
    · rw [hnone] at h
      cases h
    · rw [hsome] at h
      cases h
      have hfirst := (earliest_find (openExact_ne_nil tag) (openWithSpace_ne_nil tag) hstart).2
      rcases ho with rfl | rfl
      · exact hfirst j (.inl hj)
      · exact hfirst j (.inr hj)
  stop_bounds := by
    intro rest start stop h
    rcases nextXmlTag_cases tag rest with ⟨hnone, -⟩ | ⟨start', stop', hsome, -, -, hstop⟩
    · rw [hnone] at h
      cases h
    · rw [hsome] at h
      cases h
      exact hstop stop rfl
  next_span := fun _ _ _ h => nextXmlTag_span h
  next_rest := fun _ _ h => nextXmlTag_drop h

/-- Nothing is harmless behind a token. -/
def Never (_ _ : List Char) : Prop := False

theorem quiet_never_iff {token : List Char} (hne : token ≠ []) :
    Quiet {token} Never rest ↔ find token rest = none := by
  rw [find_eq_none_iff hne]
  constructor
  · intro h j hj
    obtain ⟨x, y, heq, -⟩ := (occursAt_iff hne).mp hj
    exact h token rfl x y heq
  · rintro h o rfl x y heq
    exact h x.length ((occursAt_iff hne).mpr ⟨x, y, heq, rfl⟩)

theorem nextPipeTag_eq_some_iff :
    nextPipeTag tag rest = some (start, stop) ↔ find (openPipe tag) rest = some start ∧
      (find (closePipe tag) (rest.drop (start + (openPipe tag).length))).map (fun closePos =>
        start + (openPipe tag).length + closePos + (closePipe tag).length) = stop := by
  unfold nextPipeTag
  cases find (openPipe tag) rest with
  | none => simp
  | some first =>
    simp only [Option.some.injEq]
    have hiff : (first = start ∧ (find (closePipe tag) (rest.drop
        (start + (openPipe tag).length))).map (fun closePos =>
          start + (openPipe tag).length + closePos + (closePipe tag).length) = stop) ↔
        first = start ∧ (find (closePipe tag) (rest.drop (first + (openPipe tag).length))).map
          (fun closePos => first + (openPipe tag).length + closePos + (closePipe tag).length) =
            stop := by
      refine and_congr_right ?_
      rintro rfl
      exact Iff.rfl
    rw [hiff]
    cases find (closePipe tag) (rest.drop (first + (openPipe tag).length)) <;> simp

theorem nextPipeTag_drop (h : nextPipeTag tag rest = some (start, stop)) :
    nextPipeTag tag (rest.drop start) = some (0, stop.map (· - start)) := by
  obtain ⟨hstart, rfl⟩ := nextPipeTag_eq_some_iff.mp h
  obtain ⟨hocc, -⟩ := (find_eq_some_iff (openPipe_ne_nil tag)).mp hstart
  refine nextPipeTag_eq_some_iff.mpr ⟨find_zero (openPipe_ne_nil tag) hocc, ?_⟩
  rw [drop_drop, Option.map_map, Nat.zero_add]
  refine Option.map_congr fun closePos _ => ?_
  dsimp only [Function.comp]
  omega

theorem nextPipeTag_span {stop : ℕ} (h : nextPipeTag tag rest = some (start, some stop)) :
    nextPipeTag tag ((rest.drop start).take (stop - start)) = some (0, some (stop - start)) := by
  obtain ⟨hstart, hstop⟩ := nextPipeTag_eq_some_iff.mp (nextPipeTag_drop h)
  obtain ⟨closePos, hclose, hstop⟩ := Option.map_eq_some_iff.mp hstop
  dsimp only at hstop
  rw [Nat.zero_add] at hclose hstop
  refine nextPipeTag_eq_some_iff.mpr
    ⟨find_take (openPipe_ne_nil tag) hstart (by omega), ?_⟩
  rw [Nat.zero_add, drop_take, find_take (closePipe_ne_nil tag) hclose (by omega),
    Option.map_some, hstop]

theorem nextToken_eq_some_iff {token : List Char} :
    nextToken token rest = some (start, stop) ↔
      find token rest = some start ∧ stop = some (start + token.length) := by
  unfold nextToken
  rw [Option.map_eq_some_iff]
  constructor
  · rintro ⟨first, hfind, heq⟩
    obtain ⟨rfl, rfl⟩ := Prod.mk.inj heq
    exact ⟨hfind, rfl⟩
  · rintro ⟨hfind, rfl⟩
    exact ⟨start, hfind, rfl⟩

/-- A pass whose spans begin at the matches of one token. -/
def matchPass (token : List Char) (hne : token ≠ [])
    (next : List Char → Option (ℕ × Option ℕ))
    (hnone : ∀ rest, next rest = none ↔ find token rest = none)
    (hsome : ∀ rest start stop, next rest = some (start, stop) → find token rest = some start ∧
      ∀ k ∈ stop, start < k ∧ k ≤ rest.length)
    (hspan : ∀ rest start stop, next rest = some (start, some stop) →
      next ((rest.drop start).take (stop - start)) = some (0, some (stop - start)))
    (hrest : ∀ rest start, next rest = some (start, none) →
      next (rest.drop start) = some (0, none)) : StripPass Char where
  opens := {token}
  harmless := Never
  next := next
  nil_notMem := fun h => hne h.symm
  harmless_sublist := fun _ _ _ h _ => h
  next_eq_none_iff := fun rest => (hnone rest).trans (quiet_never_iff hne).symm
  first := by
    rintro rest start stop h o rfl j hj
    exact ((find_eq_some_iff hne).mp (hsome rest start stop h).1).2 j hj
  stop_bounds := fun rest start stop h => (hsome rest start (some stop) h).2 stop rfl
  next_span := hspan
  next_rest := hrest

def pipePass (tag : List Char) : StripPass Char :=
  matchPass (openPipe tag) (openPipe_ne_nil tag) (nextPipeTag tag)
    (by
      intro rest
      unfold nextPipeTag
      cases find (openPipe tag) rest with
      | none => simp
      | some start =>
        dsimp only
        split <;> simp)
    (by
      intro rest start stop h
      obtain ⟨hstart, hstop⟩ := nextPipeTag_eq_some_iff.mp h
      refine ⟨hstart, fun k hk => ?_⟩
      rw [Option.mem_def.mp hk] at hstop
      obtain ⟨closePos, hclose, rfl⟩ := Option.map_eq_some_iff.mp hstop
      have hlen := ((find_eq_some_iff (closePipe_ne_nil tag)).mp hclose).1.length_le
        (closePipe_ne_nil tag)
      have hpos := length_pos_iff.mpr (closePipe_ne_nil tag)
      rw [length_drop] at hlen
      omega)
    (fun _ _ _ h => nextPipeTag_span h) fun _ _ h => nextPipeTag_drop h

/-- The pass over a token between pipes. -/
def tokenPass (name : List Char) : StripPass Char :=
  matchPass (openPipe name) (openPipe_ne_nil name) (nextToken (openPipe name))
    (by
      intro rest
      unfold nextToken
      rw [Option.map_eq_none_iff])
    (by
      intro rest start stop h
      obtain ⟨hstart, rfl⟩ := nextToken_eq_some_iff.mp h
      refine ⟨hstart, fun k hk => ?_⟩
      obtain rfl := Option.some.inj hk
      have hlen := ((find_eq_some_iff (openPipe_ne_nil name)).mp hstart).1.length_le
        (openPipe_ne_nil name)
      have hpos := length_pos_iff.mpr (openPipe_ne_nil name)
      omega)
    (by
      intro rest start stop h
      obtain ⟨hstart, hstop⟩ := nextToken_eq_some_iff.mp h
      obtain rfl := Option.some.inj hstop
      obtain ⟨hocc, -⟩ := (find_eq_some_iff (openPipe_ne_nil name)).mp hstart
      rw [Nat.add_sub_cancel_left]
      exact nextToken_eq_some_iff.mpr ⟨find_take (openPipe_ne_nil name)
        (find_zero (openPipe_ne_nil name) hocc) (Nat.zero_add _).le, by rw [Nat.zero_add]⟩)
    (by
      intro rest start h
      cases (nextToken_eq_some_iff.mp h).2)

def internalPasses : List (StripPass Char) :=
  internalTags.flatMap fun tag => [xmlPass tag, pipePass tag]

/-- The names of the tokens that are stripped on their own. -/
def standaloneNames : List (List Char) :=
  ["eot_id", "end", "im_end", "im_start", "begin_of_text", "end_of_text", "python_tag", "eom_id",
    "start_header_id", "end_header_id"].map String.toList

def standalonePasses : List (StripPass Char) := standaloneNames.map tokenPass

def reasoningPasses : List (StripPass Char) := reasoningTags.map xmlPass

/-- The passes before the end of the text is looked at. -/
def firstPasses : List (StripPass Char) := internalPasses ++ standalonePasses

def allPasses : List (StripPass Char) := firstPasses ++ reasoningPasses

theorem standalonePipeTokens_eq : standalonePipeTokens = standaloneNames.map openPipe := by decide

theorem stripStandalone_stripInternal (text : List Char) :
    stripStandalonePipeTokens (stripInternalTags text) =
      firstPasses.foldl (fun text P => strip P.next text) text := by
  unfold stripStandalonePipeTokens stripInternalTags firstPasses
  rw [foldl_append, standalonePipeTokens_eq, foldl_map]
  unfold internalPasses standalonePasses
  rw [foldl_flatMap, foldl_map]
  rfl

theorem stripReasoningPatterns_eq (text : List Char) :
    stripReasoningPatterns text =
      reasoningPasses.foldl (fun text P => strip P.next text) text := by
  unfold stripReasoningPatterns reasoningPasses
  rw [foldl_map]
  rfl

/-! ## Trailing stop tokens -/

/-- What stands between the pipes of a control token of any name. -/
def IsStopContent (content : List Char) : Prop :=
  content ≠ [] ∧ ∀ c ∈ content, isStopChar c = true

/-- A text ends with a control token. -/
def EndsWithStop (text : List Char) : Prop :=
  ∃ front content, text = front ++ openPipe content ∧ IsStopContent content

/-- White space and control tokens. -/
inductive Stops : List Char → Prop
  | space {l : List Char} (h : ∀ c ∈ l, isWhiteSpace c = true) : Stops l
  | token {space content rest : List Char} (hspace : ∀ c ∈ space, isWhiteSpace c = true)
      (hcontent : IsStopContent content) (h : Stops rest) :
      Stops (space ++ (openPipe content ++ rest))

theorem Stops.append {a b : List Char} (ha : Stops a) (hb : Stops b) : Stops (a ++ b) := by
  induction ha with
  | @space l hl =>
    cases hb with
    | space hb =>
      refine .space fun c hc => ?_
      rcases mem_append.mp hc with hc | hc
      · exact hl c hc
      · exact hb c hc
    | token hspace hcontent h =>
      rw [← append_assoc]
      refine .token (fun c hc => ?_) hcontent h
      rcases mem_append.mp hc with hc | hc
      · exact hl c hc
      · exact hspace c hc
  | token hspace hcontent _ ih =>
    rw [append_assoc, append_assoc]
    exact .token hspace hcontent ih

/-- The search for the last `<|` finds an opening, if there is one. -/
theorem occursAt_trailing {trimmed : List Char} (h : rfind "<|".toList trimmed = some start) :
    ∃ front behind, trimmed = front ++ '<' :: '|' :: behind ∧ front.length = start := by
  have hocc := occursAt_rfind (cons_ne_nil _ _) h
  obtain ⟨front, behind, heq, hlen⟩ := (occursAt_iff (cons_ne_nil _ _)).mp hocc
  exact ⟨front, behind, heq, hlen⟩

theorem rfind_of_stop {front content : List Char} (hcontent : ∀ c ∈ content, isStopChar c = true) :
    rfind "<|".toList (front ++ openPipe content) = some front.length := by
  have hne : "<|".toList ≠ [] := cons_ne_nil _ _
  have hscan := leftmost_matchPositions hne (front ++ openPipe content)
  have hocc : OccursAt "<|".toList (front ++ openPipe content) front.length :=
    (occursAt_iff hne).mpr ⟨front, content ++ ['|', '>'], rfl, rfl⟩
  -- an opening that begins later would begin in the content or in its end
  have hlast : ∀ j, OccursAt "<|".toList (front ++ openPipe content) j → j ≤ front.length := by
    intro j hj
    by_contra hlt
    have hget := hj.getElem? (i := 0) (by decide)
    rw [Nat.add_zero, List.getElem?_append_right (by omega)] at hget
    have hmem : '<' ∈ ('|' :: (content ++ ['|', '>'])) := by
      have hstep : j - front.length = (j - front.length - 1) + 1 := by omega
      unfold openPipe at hget
      rw [hstep, List.getElem?_cons_succ] at hget
      exact mem_of_getElem? hget
    rcases mem_cons.mp hmem with h | hmem
    · exact absurd h (by decide)
    · rcases mem_append.mp hmem with hmem | hmem
      · exact absurd (hcontent _ hmem) (by decide)
      · exact absurd hmem (by decide)
  obtain ⟨k, hk, hle, hlt⟩ := hscan.covers _ hocc
  have hkeq : k = front.length := by
    have hlen : "<|".toList.length = 2 := rfl
    rw [hlen] at hlt
    by_contra hne'
    -- two openings do not overlap
    have hback : front.length = k + 1 := by omega
    have hget := (hscan.occurs k hk).getElem? (i := 1) (by decide)
    have hget' := hocc.getElem? (i := 0) (by decide)
    rw [Nat.add_zero, hback, hget] at hget'
    exact absurd hget' (by decide)
  unfold rfind
  have hne' : matchPositions "<|".toList (front ++ openPipe content) ≠ [] := ne_nil_of_mem hk
  rw [List.getLast?_eq_some_getLast hne', Option.some.injEq]
  refine Nat.le_antisymm (hlast _ (hscan.occurs _ (getLast_mem hne'))) ?_
  rw [← hkeq]
  obtain ⟨init, hinit⟩ : ∃ init, matchPositions "<|".toList (front ++ openPipe content) =
      init ++ [(matchPositions "<|".toList (front ++ openPipe content)).getLast hne'] :=
    ⟨_, (dropLast_append_getLast hne').symm⟩
  have hapart := hscan.apart
  rw [hinit] at hapart hk
  rcases mem_append.mp hk with hk | hk
  · have := (pairwise_append.mp hapart).2.2 k hk _ (mem_singleton_self _)
    omega
  · exact (mem_singleton.mp hk).le

theorem find_close_of_stop {content : List Char} (hne : content ≠ [])
    (hcontent : ∀ c ∈ content, isStopChar c = true) :
    find "|>".toList (openPipe content) = some (content.length + 2) := by
  have hclose : "|>".toList ≠ [] := cons_ne_nil _ _
  refine (find_eq_some_iff hclose).mpr ⟨?_, fun j hj => ?_⟩
  · refine (occursAt_iff hclose).mpr ⟨'<' :: '|' :: content, [], ?_, rfl⟩
    unfold openPipe
    simp
  · by_contra hlt
    have hget := hj.getElem? (i := 0) (by decide)
    have hget' := hj.getElem? (i := 1) (by decide)
    unfold openPipe at hget hget'
    obtain ⟨c, content, rfl⟩ := exists_cons_of_ne_nil hne
    rcases j with _ | _ | j
    · have hc : '<' = '|' := Option.some.inj hget
      exact absurd hc (by decide)
    · have hc : c = '>' := Option.some.inj hget'
      have := hcontent c mem_cons_self
      rw [hc] at this
      exact absurd this (by decide)
    · rw [Nat.add_zero, List.getElem?_cons_succ, List.getElem?_cons_succ,
        List.getElem?_append_left (by omega)] at hget
      exact absurd (hcontent _ (mem_of_getElem? hget)) (by decide)

variable {text : List Char}

/-- **A text that ends with a control token** has it as its trailing stop token. -/
theorem trailingStop_of_stop (h : EndsWithStop text) :
    ∃ start, trailingStop text = some (some start) := by
  obtain ⟨front, content, rfl, hne, hcontent⟩ := h
  refine ⟨front.length, ?_⟩
  unfold trailingStop
  rw [rfind_of_stop hcontent]
  simp only [drop_left, find_close_of_stop hne hcontent]
  have htake : ((openPipe content).take (content.length + 2)).drop 2 = content := by
    unfold openPipe
    rw [take_succ_cons, take_succ_cons, drop_succ_cons, drop_succ_cons,
      drop_zero, take_left]
  have hlen : (openPipe content).length = content.length + 4 := by
    unfold openPipe
    simp
  rw [if_neg (by omega), htake]
  exact if_pos ⟨by omega, hne, all_eq_true.mpr hcontent⟩

/-- Behind the opening that the search for the last `<|` finds there is none. -/
theorem not_infix_of_rfind {front behind : List Char}
    (h : rfind "<|".toList (front ++ '<' :: '|' :: behind) = some front.length) :
    ¬"<|".toList <:+: behind := by
  have hscan := leftmost_matchPositions (show "<|".toList ≠ [] by decide)
    (front ++ '<' :: '|' :: behind)
  obtain ⟨init, hinit⟩ := List.getLast?_eq_some_iff.mp h
  rintro ⟨x, y, hxy⟩
  have hocc : OccursAt "<|".toList (front ++ '<' :: '|' :: behind) (front.length + 2 + x.length) := by
    refine (occursAt_iff (by decide)).mpr ⟨front ++ '<' :: '|' :: x, y, ?_, ?_⟩
    · rw [← hxy]
      simp
    · rw [length_append, length_cons, length_cons]
      omega
  obtain ⟨k, hk, hle, hlt⟩ := hscan.covers _ hocc
  rw [show "<|".toList.length = 2 from rfl] at hlt
  have hkeq : k ≤ front.length := by
    have hapart := hscan.apart
    unfold rfind at h
    rw [hinit] at hk hapart
    rcases mem_append.mp hk with hk | hk
    · have hbefore := (pairwise_append.mp hapart).2.2 k hk _ (mem_singleton_self _)
      omega
    · exact (mem_singleton.mp hk).le
  omega

/-- What is taken for a stop token is one, and the slice of its content exists unless the last
opening is closed at once. -/
theorem trailingStop_cases (text : List Char) :
    trailingStop text = some none ∨
      (∃ front content, trailingStop text = some (some front.length) ∧
        text = front ++ openPipe content ∧ IsStopContent content) ∨
      (trailingStop text = none ∧ ∃ front w, text = front ++ ("<|>".toList ++ w) ∧
        ¬"<|".toList <:+: w) := by
  have hclosene : "|>".toList ≠ [] := cons_ne_nil _ _
  unfold trailingStop
  cases hstart : rfind "<|".toList text with
  | none => exact .inl rfl
  | some start =>
    obtain ⟨front, behind, rfl, rfl⟩ := occursAt_trailing hstart
    simp only [drop_left]
    cases hclose : find "|>".toList ('<' :: '|' :: behind) with
    | none => exact .inl rfl
    | some close =>
      obtain ⟨hocc, -⟩ := (find_eq_some_iff hclosene).mp hclose
      obtain ⟨x, y, heq, hx⟩ := (occursAt_iff hclosene).mp hocc
      simp only
      split
      · rename_i hlt
        refine .inr (.inr ⟨rfl, ?_⟩)
        -- the opening is closed at once
        rcases x with _ | ⟨c, _ | ⟨d, content⟩⟩
        · exact absurd (List.cons.inj heq).1 (by decide)
        · have hbehind := (List.cons.inj (List.cons.inj heq).2).2
          refine ⟨front, y, ?_, fun hinfix => ?_⟩
          · rw [hbehind]
            rfl
          · refine not_infix_of_rfind hstart ?_
            rw [hbehind]
            exact hinfix.trans (suffix_cons '>' y).isInfix
        · rw [length_cons, length_cons] at hx
          omega
      · rename_i hge
        split
        · rename_i hstop
          obtain ⟨hend, hne, hall⟩ := hstop
          refine .inr (.inl ⟨front, _, rfl, ?_, hne, all_eq_true.mp hall⟩)
          obtain ⟨c, d, content, rfl⟩ : ∃ c d content, x = c :: d :: content := by
            rcases x with _ | ⟨c, _ | ⟨d, content⟩⟩
            · rw [length_nil] at hx
              omega
            · rw [length_singleton] at hx
              omega
            · exact ⟨c, d, content, rfl⟩
          have hlens := congrArg List.length heq
          simp only [length_cons, length_append] at hlens hend hx
          have hclosed : "|>".toList.length = 2 := rfl
          have hy : y = [] := length_eq_zero_iff.mp (by omega)
          subst hy
          rw [append_nil] at heq
          rw [heq, ← hx, take_left' (by simp)]
          have hc : c = '<' := (List.cons.inj heq).1.symm
          have hd : d = '|' := (List.cons.inj (List.cons.inj heq).2).1.symm
          rw [hc, hd]
          rfl
        · exact .inl rfl

/-- What is left of a text without its trailing stop tokens; there is no result only where the last
`<|` before them is closed at once. -/
theorem stripTrailingFrom_spec {fuel : ℕ} (hfuel : text.length < fuel) :
    (∃ out stops, stripTrailingFrom fuel text = some out ∧ text = out ++ stops ∧ Stops stops ∧
      ¬EndsWithStop (trimEnd out)) ∨
    ∃ front w stops, text = front ++ (("<|>".toList ++ w) ++ stops) ∧ ¬"<|".toList <:+: w ∧
      Stops stops := by
  induction fuel generalizing text with
  | zero => exact absurd hfuel (Nat.not_lt_zero _)
  | succ fuel ih =>
    obtain ⟨space, hspace, hspaces⟩ := trimEnd_append_space text
    unfold stripTrailingFrom
    rcases trailingStop_cases (trimEnd text) with hnone |
      ⟨front, content, hsome, htrim, hcontent⟩ | ⟨-, front, w, htrim, hw⟩
    · refine .inl ⟨text, [], by simp only [hnone], (append_nil _).symm, .space nofun, fun hends => ?_⟩
      obtain ⟨start, hstart⟩ := trailingStop_of_stop hends
      rw [hnone] at hstart
      cases hstart
    · have htext : text = front ++ (openPipe content ++ space) := by
        rw [← append_assoc, ← htrim, hspace]
      have hstop : Stops (openPipe content ++ space) := by
        have htoken : Stops ([] ++ (openPipe content ++ space)) :=
          .token nofun hcontent (.space hspaces)
        rwa [nil_append] at htoken
      have hlen : front.length < fuel := by
        have hlength := congrArg List.length htext
        have hpos := length_pos_iff.mpr (openPipe_ne_nil content)
        rw [length_append, length_append] at hlength
        omega
      rcases ih hlen with ⟨out, stops, hout, hfront, hstops, hends⟩ |
        ⟨front', w, stops, hfront, hw, hstops⟩
      · refine .inl ⟨out, stops ++ (openPipe content ++ space), ?_, ?_, hstops.append hstop, hends⟩
        · simp only [hsome]
          rwa [htrim, take_left]
        · rw [htext]
          conv_lhs => rw [hfront]
          rw [append_assoc]
      · refine .inr ⟨front', w, stops ++ (openPipe content ++ space), ?_, hw, hstops.append hstop⟩
        rw [htext]
        conv_lhs => rw [hfront]
        simp only [append_assoc]
    · refine .inr ⟨front, w, space, ?_, hw, .space hspaces⟩
      conv_lhs => rw [← hspace, htrim]
      rw [append_assoc]

/-! ## Cleaned responses -/

/-- A text without listed tags and tokens. -/
structure Clean (text : List Char) : Prop where
  tags : ∀ tag ∈ internalTags, ¬openExact tag <:+: text ∧ ¬openPipe tag <:+: text
  variants : ∀ tag ∈ reasoningTags, ¬openExact tag <:+: text
  tokens : ∀ token ∈ standalonePipeTokens, ¬token <:+: text

/-- From a place in a text, the first passes leave stop tokens and white space at most. -/
def Closing (e : List Char) : Prop :=
  ∃ stops e', Stops stops ∧ Leads allPasses firstPasses.length e stops e' ∧
    Ends allPasses 0 (· = []) firstPasses.length e'

/-- From a place in a text, nothing is left. -/
def AtEnd (e : List Char) : Prop := Ends allPasses firstPasses.length Closing allPasses.length e

/-- The texts in which no cut puts an opening together: none is read across a span that its own
pass or a later one cuts out.  A `<|` that is closed at once does not become the last one, and no
stop token becomes the end by a cut of the last passes. -/
structure Unspliced (text : List Char) : Prop where
  apart : NoSplice allPasses text
  closed : ∀ s, s <:+ text → ∀ w e, ¬"<|".toList <:+: w →
    Leads allPasses allPasses.length s ("<|>".toList ++ w) e → ¬AtEnd e
  settled : ∀ s, s <:+ text → ∀ content space, IsStopContent content →
    (∀ c ∈ space, isWhiteSpace c = true) →
      ¬Uncovered allPasses firstPasses.length Closing allPasses.length s (openPipe content ++ space)

theorem not_infix_of_quiet {opens : Set (List Char)} {harmless : List Char → List Char → Prop}
    (h : Quiet opens harmless text) (ho : o ∈ opens) (hharm : ∀ y, ¬harmless o y) :
    ¬o <:+: text := by
  rintro ⟨x, y, rfl⟩
  exact hharm y (h o ho x y (append_assoc _ _ _))

theorem unended_openExact (tag y : List Char) : ¬Unended (openExact tag) y := by
  rintro ⟨hopen, -⟩
  refine hopen (mem_cons_of_mem _ (mem_append_right _ (mem_singleton_self _)))

theorem mem_firstPasses_xml (h : tag ∈ internalTags) :
    xmlPass tag ∈ firstPasses :=
  mem_append_left _ (mem_flatMap.mpr ⟨tag, h, mem_cons_self⟩)

theorem mem_firstPasses_pipe (h : tag ∈ internalTags) :
    pipePass tag ∈ firstPasses :=
  mem_append_left _ (mem_flatMap.mpr ⟨tag, h, mem_cons_of_mem _ mem_cons_self⟩)

theorem clean_of_quiet (hfirst : ∀ P ∈ firstPasses, Quiet P.opens P.harmless text)
    (hreasoning : ∀ P ∈ reasoningPasses, Quiet P.opens P.harmless text) : Clean text where
  tags := by
    intro tag htag
    exact ⟨not_infix_of_quiet (hfirst _ (mem_firstPasses_xml htag)) (.inl rfl)
      (unended_openExact tag),
      not_infix_of_quiet (hfirst _ (mem_firstPasses_pipe htag)) rfl fun _ h => h⟩
  variants := by
    intro tag htag
    exact not_infix_of_quiet (hreasoning _ (mem_map_of_mem htag)) (.inl rfl)
      (unended_openExact tag)
  tokens := by
    intro token htoken
    rw [standalonePipeTokens_eq] at htoken
    obtain ⟨name, hname, rfl⟩ := mem_map.mp htoken
    have hmem : tokenPass name ∈ firstPasses := mem_append_right _ (mem_map_of_mem hname)
    exact not_infix_of_quiet (hfirst _ hmem) rfl fun _ h => h

/-- A text that is quiet for every pass and at its end is not changed by cleaning it, but for the
white space at its ends. -/
theorem cleanResponse_of_quiet (hfirst : ∀ P ∈ firstPasses, Quiet P.opens P.harmless text)
    (hreasoning : ∀ P ∈ reasoningPasses, Quiet P.opens P.harmless text)
    (hclosed : ∀ front w, text = front ++ ("<|>".toList ++ w) → "<|".toList <:+: w)
    (hends : ¬EndsWithStop text) (htrim : trimEnd text = text) :
    cleanResponse text = some (trimText text) := by
  have hstop : stripTrailingStopTokens text = some text := by
    unfold stripTrailingStopTokens stripTrailingFrom
    rw [htrim]
    rcases trailingStop_cases text with hnone | ⟨front, content, -, heq, hcontent⟩ |
      ⟨-, front, w, heq, hw⟩
    · rw [hnone]
    · exact absurd ⟨front, content, heq, hcontent⟩ hends
    · exact absurd (hclosed front w heq) hw
  unfold cleanResponse
  rw [stripStandalone_stripInternal, stripAll_of_quiet hfirst, hstop, Option.map_some,
    stripReasoningPatterns_eq, stripAll_of_quiet hreasoning]

theorem trimEnd_openPipe (content : List Char) : trimEnd (openPipe content) = openPipe content := by
  have hshape : openPipe content = ('<' :: '|' :: (content ++ ['|'])) ++ ['>'] := by
    unfold openPipe
    simp
  have hend : trimEnd ['>'] = ['>'] := by decide
  rw [hshape, trimEnd_append _ (by rw [hend]; exact cons_ne_nil _ _), hend]

theorem endsWithStop_trimEnd (h : EndsWithStop (trimText text)) : EndsWithStop (trimEnd text) := by
  obtain ⟨front, content, heq, hcontent⟩ := h
  have hnil : trimEnd (trimStart text) ≠ [] := by
    intro hnil
    unfold trimText at heq
    rw [hnil] at heq
    exact openPipe_ne_nil content (append_eq_nil_iff.mp heq.symm).2
  obtain ⟨space, hspace⟩ : trimStart text <:+ text := dropWhile_suffix _
  refine ⟨space ++ front, content, ?_, hcontent⟩
  rw [← hspace, trimEnd_append space hnil, append_assoc, ← heq]
  rfl

theorem not_infix_append_space {w space : List Char} (hw : ¬"<|".toList <:+: w)
    (hspace : ∀ c ∈ space, isWhiteSpace c = true) : ¬"<|".toList <:+: w ++ space := by
  rintro ⟨x, y, hxy⟩
  have hpipe : '|' ∉ space := fun hmem => absurd (hspace _ hmem) (by decide)
  rw [append_assoc] at hxy
  rcases append_eq_append_iff.mp hxy with ⟨z, rfl, hz⟩ | ⟨z, rfl, hz⟩
  · rcases append_eq_append_iff.mp hz with ⟨z', rfl, -⟩ | ⟨z', hz', hspace'⟩
    · exact hw ⟨x, z', append_assoc _ _ _⟩
    · cases z' with
      | nil =>
        rw [append_nil] at hz'
        exact hw ⟨x, [], by rw [hz', append_nil]⟩
      | cons c z' =>
        have hmem : '|' ∈ c :: z' := by
          have hlast := congrArg List.getLast? hz'
          rw [List.getLast?_append] at hlast
          exact mem_of_getLast? (by simpa using hlast.symm)
        exact hpipe (hspace' ▸ mem_append_left _ hmem)
  · refine hpipe (hz ▸ mem_append_right _ (mem_append_left _ ?_))
    decide

theorem span_ends (k : ℕ) (b : List Char) (h : IsSpan allPasses k b) :
    ∃ body, b = body ++ ['>'] := by
  obtain ⟨P, hP, hnext⟩ := h
  have hclosed {close : List Char} {i j : ℕ} (hclose : ∃ body, close = body ++ ['>'])
      (hfind : find close (b.drop i) = some j) (hlen : i + j + close.length = b.length) :
      ∃ body, b = body ++ ['>'] := by
    obtain ⟨body, rfl⟩ := hclose
    have hne : body ++ ['>'] ≠ [] := append_ne_nil_of_right_ne_nil _ (cons_ne_nil _ _)
    obtain ⟨x, y, heq, rfl⟩ := (occursAt_iff hne).mp ((find_eq_some_iff hne).mp hfind).1
    have hy : y = [] := by
      have hlength := congrArg List.length heq
      rw [length_drop, length_append, length_append] at hlength
      exact length_eq_zero_iff.mp (by omega)
    subst hy
    refine ⟨b.take i ++ (x ++ body), ?_⟩
    conv_lhs => rw [← take_append_drop i b, heq]
    simp only [append_assoc, append_nil]
  have htag (tag : List Char) : ∃ body, closeTag tag = body ++ ['>'] :=
    ⟨'<' :: '/' :: tag, rfl⟩
  have hxml {tag : List Char} (h : nextXmlTag tag b = some (0, some b.length)) :
      ∃ body, b = body ++ ['>'] := by
    obtain ⟨gtPos, -, -, hstop⟩ := nextXmlTag_eq_some_iff.mp h
    obtain ⟨closePos, hclose, hlen⟩ := Option.map_eq_some_iff.mp hstop
    exact hclosed (htag tag) hclose hlen
  rcases mem_append.mp (mem_of_getElem? hP) with hP | hP
  · rcases mem_append.mp hP with hP | hP
    · obtain ⟨tag, -, hP⟩ := mem_flatMap.mp hP
      rcases mem_cons.mp hP with rfl | hP
      · exact hxml hnext
      · obtain rfl := mem_singleton.mp hP
        obtain ⟨-, hstop⟩ := nextPipeTag_eq_some_iff.mp hnext
        obtain ⟨closePos, hclose, hlen⟩ := Option.map_eq_some_iff.mp hstop
        exact hclosed ⟨'<' :: '|' :: '/' :: (tag ++ ['|']), by simp [closePipe]⟩ hclose hlen
    · obtain ⟨name, -, rfl⟩ := mem_map.mp hP
      obtain ⟨hstart, hlen⟩ := nextToken_eq_some_iff.mp hnext
      refine hclosed (i := 0) ⟨'<' :: '|' :: (name ++ ['|']), by simp [openPipe]⟩ hstart ?_
      exact (Option.some.inj hlen).symm
  · obtain ⟨tag, -, rfl⟩ := mem_map.mp hP
    exact hxml hnext

/-- The openings of the passes. -/
def openings : List (List Char) :=
  (internalTags ++ reasoningTags).flatMap (fun tag => [openExact tag, openWithSpace tag]) ++
    (internalTags ++ standaloneNames).map openPipe

theorem mem_openings {k : ℕ} (h : o ∈ OpensOf allPasses k) : o ∈ openings := by
  obtain ⟨P, hP, ho⟩ := h
  have hxml {tag : List Char} (htag : tag ∈ internalTags ++ reasoningTags)
      (ho : o ∈ (xmlPass tag).opens) : o ∈ openings := by
    refine mem_append_left _ (mem_flatMap.mpr ⟨tag, htag, ?_⟩)
    rcases ho with rfl | rfl
    · exact mem_cons_self
    · exact mem_cons_of_mem _ mem_cons_self
  rcases mem_append.mp (mem_of_getElem? hP) with hP | hP
  · rcases mem_append.mp hP with hP | hP
    · obtain ⟨tag, htag, hP⟩ := mem_flatMap.mp hP
      rcases mem_cons.mp hP with rfl | hP
      · exact hxml (mem_append_left _ htag) ho
      · obtain rfl := mem_singleton.mp hP
        obtain rfl : o = openPipe tag := ho
        exact mem_append_right _ (mem_map_of_mem (mem_append_left _ htag))
    · obtain ⟨name, hname, rfl⟩ := mem_map.mp hP
      obtain rfl : o = openPipe name := ho
      exact mem_append_right _ (mem_map_of_mem (mem_append_right _ hname))
  · obtain ⟨tag, htag, rfl⟩ := mem_map.mp hP
    exact hxml (mem_append_right _ htag) ho

theorem unspliced_of_follows (hpipe : '|' ∉ text)
    (h : ∀ c ∈ text, ['>', c] <:+: text → ∀ o ∈ openings, c ∉ o.tail) : Unspliced text where
  apart := by
    refine noSplice_of_follows span_ends fun c hwithin k o ho => ?_
    exact h c (hwithin.subset (mem_cons_of_mem _ mem_cons_self)) hwithin o (mem_openings ho)
  closed := by
    intro s hs w e _ hread _
    exact hpipe (hs.subset (hread.sublist.subset (mem_append_left w (by decide))))
  settled := by
    intro s hs content space _ _ huncovered
    have hmem : '|' ∈ openPipe content ++ space :=
      mem_append_left _ (mem_cons_of_mem _ mem_cons_self)
    rcases huncovered with ⟨p, q, e, heq, ⟨k, b, u, v, -, -, -, hp, hspan, hq⟩, -⟩ |
      ⟨k, r, e, e', -, -, -, hread, -⟩
    · rcases mem_append.mp (heq ▸ hmem) with hmem | hmem
      · exact hpipe (hs.subset (hp.sublist.subset hmem))
      · exact hpipe (hs.subset (hp.isSuffix.subset (hspan.isSuffix.subset
          (hq.sublist.subset hmem))))
    · exact hpipe (hs.subset (hread.sublist.subset hmem))

end Chelix.Agents
