import Chelix.Agents.ToolLoopDetector
import Chelix.Library.JsonParts
import Chelix.Library.Separated

/-!
# What the canonical text tells apart

The canonical text of arguments is read from its front: its first character says what kind of
value it is, and a delimiter ends it.  Strings are quoted without an escape, so this works for
values without quotation marks.
-/

namespace Chelix.Agents

open Library List

/-! ## Plain values -/

def isNumberChar (c : Char) : Bool := c.isDigit || c = '-' || c = '+' || c = '.' || c = 'e'

/-- The numbers that the parser makes, but for the negative zero: a negative integer is below
zero, and the text of a float has a point or an exponent. -/
def isPlainNumber : JsonNumber → Bool
  | .posInt _ => true
  | .negInt n => n < 0
  | .float text =>
    text.toList.all isNumberChar && (text.toList.any fun c => c = '.' || c = 'e') &&
      text ≠ "-0.0"

def isPlainString (s : String) : Bool := s.toList.all fun c => c ≠ '"'

/-- No string of a value holds a quotation mark, and no number is the negative zero. -/
def Plain (value : Json) : Prop := value.all isPlainNumber isPlainString = true

instance (value : Json) : Decidable (Plain value) := inferInstanceAs (Decidable (_ = true))

theorem plain_arr_iff {elems : List Json} : Plain (.arr elems) ↔ ∀ v ∈ elems, Plain v :=
  Json.allList_iff _ _

theorem plain_obj_iff {fields : List (String × Json)} :
    Plain (.obj fields) ↔ ∀ f ∈ fields, isPlainString f.1 = true ∧ Plain f.2 :=
  Json.allFields_iff _ _

/-! ## The text as a list of characters -/

def canonicalText (value : Json) : List Char := (canonicalize value).toList

def canonicalField (field : String × Json) : List Char :=
  '"' :: (field.1.toList ++ '"' :: ':' :: canonicalText field.2)

theorem canonicalizeList_eq (elems : List Json) :
    canonicalizeList elems = elems.map canonicalize := by
  induction elems with
  | nil => rfl
  | cons first rest ih => rw [canonicalizeList, ih, map_cons]

theorem canonicalizeFields_eq (fields : List (String × Json)) :
    canonicalizeFields fields = fields.map fun f => (f.1, canonicalize f.2) := by
  induction fields with
  | nil => rfl
  | cons first rest ih => rw [canonicalizeFields, ih, map_cons]

theorem toList_quote (s : String) : (quote s).toList = '"' :: (s.toList ++ ['"']) := by
  unfold quote
  rw [String.toList_append, String.toList_append]
  rfl

theorem canonicalText_arr (elems : List Json) :
    canonicalText (.arr elems) = '[' :: (separated ',' (elems.map canonicalText) ++ [']']) := by
  unfold canonicalText
  rw [canonicalize, canonicalizeList_eq, String.toList_append, String.toList_append,
    String.toList_intercalate, map_map]
  rfl

theorem canonicalText_obj (fields : List (String × Json)) :
    canonicalText (.obj fields) =
      '\x7b' :: (separated ',' ((sortByKey Prod.fst fields).map canonicalField) ++ ['\x7d']) := by
  have hfield : ∀ f : String × Json, (quote f.1 ++ ":" ++ canonicalize f.2).toList =
      canonicalField f := by
    intro f
    rw [String.toList_append, String.toList_append, toList_quote]
    unfold canonicalField canonicalText
    simp
  unfold canonicalText
  rw [canonicalize, canonicalizeFields_eq, Json.sortByKey_map_fst, String.toList_append,
    String.toList_append, String.toList_intercalate, map_map, map_map]
  have hmap : ((String.toList ∘ fun field : String × String => quote field.1 ++ ":" ++ field.2) ∘
      fun f : String × Json => (f.1, canonicalize f.2)) = canonicalField :=
    funext hfield
  rw [hmap]
  rfl

/-! ## Numbers -/

theorem toList_negInt {n : ℤ} (hn : n < 0) :
    (toString n).toList = '-' :: (toString n.natAbs).toList := by
  cases n with
  | ofNat n => exact absurd hn (Int.not_lt.mpr (Int.natCast_nonneg n))
  | negSucc n =>
    have htext : toString (Int.negSucc n) = "-" ++ toString (n + 1) := rfl
    rw [htext, String.toList_append]
    rfl

theorem isNumberChar_of_mem {n : JsonNumber} (h : isPlainNumber n = true) :
    ∀ c ∈ n.toString.toList, isNumberChar c = true := by
  have hdigit : ∀ {c : Char}, c.isDigit = true → isNumberChar c = true := by
    intro c hc
    unfold isNumberChar
    simp [hc]
  intro c hc
  cases n with
  | posInt n => exact hdigit (isDigit_of_mem_toString hc)
  | negInt n =>
    have hn : n < 0 := of_decide_eq_true h
    have hc' : c ∈ (toString n).toList := hc
    rw [toList_negInt hn] at hc'
    rcases mem_cons.mp hc' with rfl | hc'
    · decide
    · exact hdigit (isDigit_of_mem_toString hc')
  | float text =>
    unfold isPlainNumber at h
    simp only [Bool.and_eq_true] at h
    exact all_eq_true.mp h.1.1 c hc

theorem exists_point {text : String} (h : isPlainNumber (.float text) = true) :
    ∃ c ∈ text.toList, c = '.' ∨ c = 'e' := by
  unfold isPlainNumber at h
  simp only [Bool.and_eq_true] at h
  obtain ⟨c, hc, hpoint⟩ := any_eq_true.mp h.1.2
  refine ⟨c, hc, ?_⟩
  simpa using hpoint

/-- The text of a float is not that of an integer, with or without a sign. -/
theorem float_ne_digits {text : String} (h : isPlainNumber (.float text) = true) (n : ℕ)
    (sign : List Char) (hsign : ∀ c ∈ sign, c = '-') :
    text.toList ≠ sign ++ (toString n).toList := by
  intro heq
  obtain ⟨c, hc, hpoint⟩ := exists_point h
  rw [heq] at hc
  rcases mem_append.mp hc with hc | hc
  · rw [hsign c hc] at hpoint
    exact absurd hpoint (by decide)
  · have hdigit := isDigit_of_mem_toString hc
    rcases hpoint with rfl | rfl <;> exact absurd hdigit (by decide)

theorem toString_ne_sign (n : ℕ) (rest : List Char) : (toString n).toList ≠ '-' :: rest := by
  intro heq
  have hmem : '-' ∈ (toString n).toList := by
    rw [heq]
    exact mem_cons_self
  exact absurd (isDigit_of_mem_toString hmem) (by decide)

/-- **A number** is determined by its text. -/
theorem number_inj {n m : JsonNumber} (hn : isPlainNumber n = true) (hm : isPlainNumber m = true)
    (h : n.toString.toList = m.toString.toList) : n = m := by
  have hneg {k : ℤ} (hk : isPlainNumber (.negInt k) = true) : k < 0 := of_decide_eq_true hk
  cases n with
  | posInt n =>
    cases m with
    | posInt m => exact congrArg _ (toList_toString_injective h)
    | negInt m => exact absurd (h.trans (toList_negInt (hneg hm))) (toString_ne_sign n _)
    | float text =>
      exact absurd h.symm (float_ne_digits hm n [] fun c hc => absurd hc not_mem_nil)
  | negInt n =>
    have hsign := toList_negInt (hneg hn)
    cases m with
    | posInt m => exact absurd (h.symm.trans hsign) (toString_ne_sign m _)
    | negInt m =>
      have habs := (hsign.symm.trans h).trans (toList_negInt (hneg hm))
      have hnat : n.natAbs = m.natAbs := toList_toString_injective (List.cons.inj habs).2
      have := hneg hn
      have := hneg hm
      exact congrArg _ (by omega)
    | float text =>
      exact absurd (h.symm.trans hsign)
        (float_ne_digits hm n.natAbs ['-'] fun c hc => mem_singleton.mp hc)
  | float text =>
    cases m with
    | posInt m =>
      exact absurd h (float_ne_digits hn m [] fun c hc => absurd hc not_mem_nil)
    | negInt m =>
      exact absurd (h.trans (toList_negInt (hneg hm)))
        (float_ne_digits hn m.natAbs ['-'] fun c hc => mem_singleton.mp hc)
    | float text' => exact congrArg _ (String.toList_inj.mp h)

/-! ## The kind of a value -/

inductive JsonKind where
  | null
  | bool
  | num
  | str
  | arr
  | obj
  deriving DecidableEq

def kindOf : Json → JsonKind
  | .null => .null
  | .bool _ => .bool
  | .num _ => .num
  | .str _ => .str
  | .arr _ => .arr
  | .obj _ => .obj

/-- The kind of the value that a text begins with. -/
def kindOfChar (c : Char) : JsonKind :=
  if c = 'n' then .null
  else if c = 't' ∨ c = 'f' then .bool
  else if c = '"' then .str
  else if c = '[' then .arr
  else if c = '\x7b' then .obj
  else .num

theorem kindOfChar_of_isNumberChar {c : Char} (h : isNumberChar c = true) :
    kindOfChar c = .num := by
  have hne : ∀ d ∈ ['n', 't', 'f', '"', '[', '\x7b'], c ≠ d := by
    rintro d hd rfl
    have hall : (['n', 't', 'f', '"', '[', '\x7b'].all fun d => !isNumberChar d) = true := by decide
    have hnot := all_eq_true.mp hall c hd
    rw [h] at hnot
    cases hnot
  unfold kindOfChar
  simp only [forall_mem_cons] at hne
  obtain ⟨h₁, h₂, h₃, h₄, h₅, h₆, -⟩ := hne
  rw [if_neg h₁, if_neg (not_or.mpr ⟨h₂, h₃⟩), if_neg h₄, if_neg h₅, if_neg h₆]

theorem number_ne_nil {n : JsonNumber} (h : isPlainNumber n = true) : n.toString.toList ≠ [] := by
  have hdigits (k : ℕ) : (toString k).toList ≠ [] := by
    have htext : (toString k).toList = Nat.toDigits 10 k := Nat.toList_repr
    rw [htext]
    exact Nat.toDigits_ne_nil
  cases n with
  | posInt n => exact hdigits n
  | negInt n =>
    have htext : (JsonNumber.negInt n).toString.toList = '-' :: (toString n.natAbs).toList :=
      toList_negInt (of_decide_eq_true h)
    rw [htext]
    exact cons_ne_nil _ _
  | float text =>
    obtain ⟨c, hc, -⟩ := exists_point h
    exact ne_nil_of_mem hc

theorem exists_head {value : Json} (h : Plain value) :
    ∃ c rest, canonicalText value = c :: rest ∧ kindOfChar c = kindOf value := by
  cases value with
  | null => exact ⟨'n', _, rfl, rfl⟩
  | bool b =>
    cases b with
    | true => exact ⟨'t', _, rfl, rfl⟩
    | false => exact ⟨'f', _, rfl, rfl⟩
  | num n =>
    obtain ⟨c, rest, hcons⟩ := exists_cons_of_ne_nil (number_ne_nil h)
    refine ⟨c, rest, hcons, kindOfChar_of_isNumberChar (isNumberChar_of_mem h c ?_)⟩
    rw [hcons]
    exact mem_cons_self
  | str s => exact ⟨'"', _, toList_quote s, rfl⟩
  | arr elems => exact ⟨'[', _, canonicalText_arr elems, rfl⟩
  | obj fields => exact ⟨'\x7b', _, canonicalText_obj fields, rfl⟩

theorem kindOf_eq {a b : Json} (ha : Plain a) (hb : Plain b) {x y : List Char}
    (h : canonicalText a ++ x = canonicalText b ++ y) : kindOf a = kindOf b := by
  obtain ⟨c, rest, hc, hkind⟩ := exists_head ha
  obtain ⟨c', rest', hc', hkind'⟩ := exists_head hb
  rw [hc, hc'] at h
  rw [← hkind, ← hkind', (List.cons.inj h).1]

/-! ## Reading a value -/

def isDelimiter (c : Char) : Bool := c = ',' || c = ']' || c = '\x7d'

theorem isNumberChar_of_isDelimiter {c : Char} (h : isDelimiter c = true) :
    isNumberChar c = false := by
  unfold isDelimiter at h
  simp only [Bool.or_eq_true, decide_eq_true_eq] at h
  rcases h with (rfl | rfl) | rfl <;> decide

theorem head?_canonicalText {value : Json} (h : Plain value) (rest : List Char) :
    (canonicalText value ++ rest).head? ≠ some ']' := by
  intro heq
  obtain ⟨c, l, hc, hkind⟩ := exists_head h
  rw [hc] at heq
  obtain rfl : c = ']' := Option.some.inj heq
  have hnum : kindOf value = .num := hkind.symm.trans (by decide)
  cases value with
  | num n =>
    have hmem : ']' ∈ n.toString.toList := by
      have htext : n.toString.toList = ']' :: l := hc
      rw [htext]
      exact mem_cons_self
    exact absurd (isNumberChar_of_mem h _ hmem) (by decide)
  | null | bool b | str s | arr elems | obj fields => cases hnum

theorem quoted_inj {s t : String} (hs : isPlainString s = true) (ht : isPlainString t = true)
    {x y : List Char} (h : s.toList ++ '"' :: x = t.toList ++ '"' :: y) : s = t ∧ x = y := by
  have hquote (l : List Char) : ∀ c ∈ ('"' :: l).head?, decide (c ≠ '"') = false := by
    intro c hc
    obtain rfl : '"' = c := Option.some.inj hc
    rfl
  obtain ⟨heq, hrest⟩ := append_inj_of_head? (all_eq_true.mp hs) (all_eq_true.mp ht)
    (hquote x) (hquote y) h
  exact ⟨String.toList_inj.mp heq, (List.cons.inj hrest).2⟩

/-- **A value can be read off the front of a text.** -/
theorem canonicalText_inj (a : Json) : Plain a → ∀ b, Plain b → ∀ x y,
    Delimited isDelimiter x → Delimited isDelimiter y →
      canonicalText a ++ x = canonicalText b ++ y → a.normalize = b.normalize ∧ x = y := by
  induction a using Json.induct with
  | hnull =>
    intro ha b hb x y _ _ h
    have hkind := kindOf_eq ha hb h
    cases b with
    | null => exact ⟨rfl, append_cancel_left h⟩
    | bool _ | num _ | str _ | arr _ | obj _ => cases hkind
  | hbool p =>
    intro ha b hb x y _ _ h
    have hkind := kindOf_eq ha hb h
    cases b with
    | bool q =>
      cases p with
      | true =>
        cases q with
        | true => exact ⟨rfl, append_cancel_left h⟩
        | false => exact absurd (List.cons.inj h).1 (by decide)
      | false =>
        cases q with
        | true => exact absurd (List.cons.inj h).1 (by decide)
        | false => exact ⟨rfl, append_cancel_left h⟩
    | null | num _ | str _ | arr _ | obj _ => cases hkind
  | hnum n =>
    intro ha b hb x y hx hy h
    have hkind := kindOf_eq ha hb h
    cases b with
    | num m =>
      have hend {z : List Char} (hz : Delimited isDelimiter z) :
          ∀ c ∈ z.head?, isNumberChar c = false :=
        fun c hc => isNumberChar_of_isDelimiter (hz c hc)
      obtain ⟨htext, hrest⟩ := append_inj_of_head? (isNumberChar_of_mem ha)
        (isNumberChar_of_mem hb) (hend hx) (hend hy) h
      exact ⟨congrArg _ (congrArg _ (number_inj ha hb htext)), hrest⟩
    | null | bool _ | str _ | arr _ | obj _ => cases hkind
  | hstr s =>
    intro ha b hb x y _ _ h
    have hkind := kindOf_eq ha hb h
    cases b with
    | str t =>
      have htext (u : String) (z : List Char) :
          canonicalText (.str u) ++ z = '"' :: (u.toList ++ '"' :: z) := by
        have hquote : canonicalText (.str u) = '"' :: (u.toList ++ ['"']) := toList_quote u
        rw [hquote, cons_append, append_assoc, singleton_append]
      rw [htext, htext] at h
      obtain ⟨rfl, hrest⟩ := quoted_inj ha hb (List.cons.inj h).2
      exact ⟨rfl, hrest⟩
    | null | bool _ | num _ | arr _ | obj _ => cases hkind
  | harr elems ih =>
    intro ha b hb x y _ _ h
    have hkind := kindOf_eq ha hb h
    cases b with
    | arr elems' =>
      have ha' := plain_arr_iff.mp ha
      have hb' := plain_arr_iff.mp hb
      rw [canonicalText_arr, canonicalText_arr, cons_append, cons_append] at h
      have hbody := (List.cons.inj h).2
      rw [append_assoc, append_assoc] at hbody
      obtain ⟨hparts, hrest⟩ := @separated_inj _ _ isDelimiter ',' ']' canonicalText canonicalText
        (fun v w => v.normalize = w.normalize) (by decide) rfl rfl elems elems'
        (fun v hv w hw x y hx hy heq => ih v hv (ha' v hv) w (hb' w hw) x y hx hy heq)
        (fun v hv rest => head?_canonicalText (ha' v hv) rest)
        (fun w hw rest => head?_canonicalText (hb' w hw) rest) x y hbody
      refine ⟨?_, hrest⟩
      rw [Json.normalize_arr, Json.normalize_arr]
      exact congrArg _ (forall₂_eq_eq_eq ▸
        (forall₂_map_left_iff.mpr (forall₂_map_right_iff.mpr hparts)))
    | null | bool _ | num _ | str _ | obj _ => cases hkind
  | hobj fields ih =>
    intro ha b hb x y _ _ h
    have hkind := kindOf_eq ha hb h
    cases b with
    | obj fields' =>
      have ha' : ∀ f ∈ sortByKey Prod.fst fields, isPlainString f.1 = true ∧ Plain f.2 :=
        fun f hf => plain_obj_iff.mp ha f ((mem_sortByKey _).mp hf)
      have hb' : ∀ f ∈ sortByKey Prod.fst fields', isPlainString f.1 = true ∧ Plain f.2 :=
        fun f hf => plain_obj_iff.mp hb f ((mem_sortByKey _).mp hf)
      rw [canonicalText_obj, canonicalText_obj, cons_append, cons_append] at h
      have hbody := (List.cons.inj h).2
      rw [append_assoc, append_assoc] at hbody
      have hread : ∀ f ∈ sortByKey Prod.fst fields, ∀ g ∈ sortByKey Prod.fst fields', ∀ x y,
          Delimited isDelimiter x → Delimited isDelimiter y →
          canonicalField f ++ x = canonicalField g ++ y →
            ((f.1, f.2.normalize) = (g.1, g.2.normalize)) ∧ x = y := by
        intro f hf g hg x y hx hy heq
        unfold canonicalField at heq
        simp only [cons_append, append_assoc] at heq
        obtain ⟨hname, hvalue⟩ := quoted_inj (ha' f hf).1 (hb' g hg).1 (List.cons.inj heq).2
        obtain ⟨hnormal, hrest⟩ := ih f ((mem_sortByKey _).mp hf) (ha' f hf).2 g.2 (hb' g hg).2 x y
          hx hy (List.cons.inj hvalue).2
        exact ⟨Prod.ext hname hnormal, hrest⟩
      have hstart (f : String × Json) (rest : List Char) :
          (canonicalField f ++ rest).head? ≠ some '\x7d' := by
        intro heq
        exact absurd (Option.some.inj heq) (by decide)
      obtain ⟨hparts, hrest⟩ := @separated_inj _ _ isDelimiter ',' '\x7d' canonicalField
        canonicalField (fun f g => (f.1, f.2.normalize) = (g.1, g.2.normalize)) (by decide) rfl rfl
        _ _ hread (fun f _ => hstart f) (fun g _ => hstart g) x y hbody
      refine ⟨?_, hrest⟩
      rw [Json.normalize_obj, Json.normalize_obj]
      exact congrArg _ (forall₂_eq_eq_eq ▸
        (forall₂_map_left_iff.mpr (forall₂_map_right_iff.mpr hparts)))
    | null | bool _ | num _ | str _ | arr _ => cases hkind

end Chelix.Agents
