import Chelix.Sessions.ChannelListing

/-!
# What the listings of channel sessions hold

* **`listings_exact_iff`**: when listings are exact.
-/

namespace Chelix.Sessions

open Chelix.Library List Json

/-! ## Letters -/

theorem toNat_toLower (c : Char) : c.toLower.toNat =
    if 65 ≤ c.toNat ∧ c.toNat ≤ 90 then c.toNat + 32 else c.toNat := by
  have hle : (c.val ≥ 'A'.val ∧ c.val ≤ 'Z'.val) ↔ 65 ≤ c.toNat ∧ c.toNat ≤ 90 := Iff.rfl
  unfold Char.toLower
  split
  · next h =>
    rw [if_pos (hle.mp h)]
    have hsmall := (hle.mp h).2
    show (c.val + ('a'.val - 'A'.val)).toNat = c.toNat + 32
    rw [UInt32.toNat_add]
    exact Nat.mod_eq_of_lt (by show c.toNat + 32 < 2 ^ 32; omega)
  · next h => rw [if_neg (mt hle.mpr h)]

theorem escapeChar_cases (c : Char) :
    (escapeChar c = [c] ∧ c ≠ '"' ∧ c ≠ '\\') ∨
      (c = '"' ∧ escapeChar c = ['\\', '"']) ∨
      (∃ z, z ≠ '"' ∧ escapeChar c = ['\\', z]) ∨
      ∃ more, '"' ∉ more ∧ escapeChar c = '\\' :: 'u' :: more := by
  by_cases hquote : c = '"'
  · exact .inr (.inl ⟨hquote, by rw [hquote]; rfl⟩)
  by_cases hslash : c = '\\'
  · exact .inr (.inr (.inl ⟨'\\', by decide, by rw [hslash]; rfl⟩))
  unfold escapeChar
  rw [if_neg hquote, if_neg hslash]
  split
  · exact .inr (.inr (.inl ⟨'b', by decide, rfl⟩))
  split
  · exact .inr (.inr (.inl ⟨'t', by decide, rfl⟩))
  split
  · exact .inr (.inr (.inl ⟨'n', by decide, rfl⟩))
  split
  · exact .inr (.inr (.inl ⟨'f', by decide, rfl⟩))
  split
  · exact .inr (.inr (.inl ⟨'r', by decide, rfl⟩))
  split
  · next hsmall =>
    have hdigit : ∀ n < 16, hexDigit n ≠ '"' := by decide
    refine .inr (.inr (.inr ⟨_, ?_, rfl⟩))
    have h₁ := hdigit (c.toNat / 16) (by omega)
    have h₂ := hdigit (c.toNat % 16) (by omega)
    simp only [mem_cons, not_mem_nil, or_false, not_or]
    exact ⟨by decide, by decide, Ne.symm h₁, Ne.symm h₂⟩
  · exact .inl ⟨rfl, hquote, hslash⟩

/-- A letter that is no capital. -/
def IsSmall (c : Char) : Prop := 97 ≤ c.toNat ∧ c.toNat ≤ 122

instance (c : Char) : Decidable (IsSmall c) := inferInstanceAs (Decidable (_ ∧ _))

theorem likeLetter_iff {c a : Char} :
    likeLetter c a = true ↔ c = '_' ∨ c.toLower = a.toLower := by
  rw [likeLetter, Bool.or_eq_true, decide_eq_true_iff, decide_eq_true_iff]

theorem isLetter_of_likeLetter {c a : Char} (hc : IsSmall c) (h : likeLetter c a = true) :
    65 ≤ a.toNat ∧ a.toNat ≤ 90 ∨ 97 ≤ a.toNat ∧ a.toNat ≤ 122 := by
  obtain ⟨hlow, hhigh⟩ := hc
  rcases likeLetter_iff.mp h with rfl | heq
  · exact absurd hlow (by decide)
  · have hnat := congrArg Char.toNat heq
    rw [toNat_toLower, toNat_toLower] at hnat
    split at hnat <;> split at hnat <;> omega

theorem eq_of_toLower_eq {c a : Char} (ha : ¬ (65 ≤ a.toNat ∧ a.toNat ≤ 90))
    (ha' : ¬ (97 ≤ a.toNat ∧ a.toNat ≤ 122)) (h : c.toLower = a.toLower) : c = a := by
  have hnat := congrArg Char.toNat h
  rw [toNat_toLower, toNat_toLower, if_neg ha] at hnat
  refine Char.toNat_inj.mp ?_
  split at hnat
  · omega
  · exact hnat

theorem not_letter_of_escaped {a z : Char} {more : List Char}
    (h : escapeChar a = '\\' :: z :: more) :
    ¬ (65 ≤ a.toNat ∧ a.toNat ≤ 90) ∧ ¬ (97 ≤ a.toNat ∧ a.toNat ≤ 122) := by
  have hne : escapeChar a ≠ [a] := by
    rw [h]
    exact fun heq => cons_ne_nil _ _ (List.cons.inj heq).2
  by_cases hquote : a = '"'
  · subst hquote
    decide
  by_cases hslash : a = '\\'
  · subst hslash
    decide
  by_cases hsmall : a.toNat < 32
  · omega
  · refine absurd ?_ hne
    unfold escapeChar
    rw [if_neg hquote, if_neg hslash, if_neg (by omega), if_neg (by omega), if_neg (by omega),
      if_neg (by omega), if_neg (by omega), if_neg hsmall]

/-! ## Where a pattern begins -/

/-- A text begins with an instance of a pattern, before some rest. -/
def Begins (pattern text rest : List Char) : Prop :=
  ∃ front, text = front ++ rest ∧ List.Forall₂ (fun c a => likeLetter c a = true) pattern front

/-- A part of a text before some rest is an instance of a pattern. -/
def Occurs (pattern text rest : List Char) : Prop :=
  ∃ gap back, text = gap ++ back ∧ Begins pattern back rest

theorem begins_nil_iff {text rest : List Char} : Begins [] text rest ↔ text = rest := by
  constructor
  · rintro ⟨front, rfl, hfront⟩
    cases hfront
    rfl
  · rintro rfl
    exact ⟨[], rfl, .nil⟩

theorem begins_cons_iff {c a : Char} {pattern text rest : List Char} :
    Begins (c :: pattern) (a :: text) rest ↔
      likeLetter c a = true ∧ Begins pattern text rest := by
  constructor
  · rintro ⟨front, htext, hfront⟩
    cases hfront with
    | cons hletter hfront =>
      obtain ⟨rfl, rfl⟩ := List.cons.inj htext
      exact ⟨hletter, _, rfl, hfront⟩
  · rintro ⟨hletter, front, rfl, hfront⟩
    exact ⟨a :: front, rfl, .cons hletter hfront⟩

theorem not_begins_nil {c : Char} {pattern rest : List Char} : ¬ Begins (c :: pattern) [] rest := by
  rintro ⟨front, htext, hfront⟩
  cases hfront
  cases htext

theorem occurs_cons_iff {c : Char} {pattern text rest : List Char} :
    Occurs pattern (c :: text) rest ↔
      Begins pattern (c :: text) rest ∨ Occurs pattern text rest := by
  constructor
  · rintro ⟨gap, back, htext, hback⟩
    cases gap with
    | nil =>
      rw [htext]
      exact .inl hback
    | cons a gap =>
      obtain ⟨rfl, rfl⟩ := List.cons.inj htext
      exact .inr ⟨gap, back, rfl, hback⟩
  · rintro (h | ⟨gap, back, rfl, hback⟩)
    · exact ⟨[], _, rfl, h⟩
    · exact ⟨c :: gap, back, rfl, hback⟩

/-- Of two letters at the same place one does not stand for the other. -/
def clash (key other : List Char) : Bool := (key.zip other).any fun e => !likeLetter e.1 e.2

theorem not_begins_of_clash {key other pattern text rest : List Char}
    (h : clash key other = true) : ¬ Begins (key ++ pattern) (other ++ text) rest := by
  induction key generalizing other with
  | nil => cases h
  | cons c key ih =>
    cases other with
    | nil => cases h
    | cons a other =>
      rw [clash, zip_cons_cons, any_cons, Bool.or_eq_true] at h
      rw [cons_append, cons_append, begins_cons_iff, not_and_or]
      rcases h with hletter | hrest
      · exact .inl (by simpa using hletter)
      · exact .inr (ih hrest)

theorem begins_same {key pattern text rest : List Char} :
    Begins (key ++ pattern) (key ++ text) rest ↔ Begins pattern text rest := by
  induction key with
  | nil => rfl
  | cons c key ih =>
    rw [cons_append, cons_append, begins_cons_iff, ih]
    exact and_iff_right (likeLetter_iff.mpr (.inr rfl))

/-! ## Values -/

/-- A value as it is written, without the quotes. -/
def escaped (value : List Char) : List Char := value.flatMap Json.escapeChar

theorem escaped_cons (a : Char) (value : List Char) :
    escaped (a :: value) = escapeChar a ++ escaped value := rfl

/-- The name of a field: an underscore between small letters. -/
def IsKey (key : List Char) : Prop :=
  ∃ front x back, key = front ++ '_' :: x :: back ∧ front ≠ [] ∧ (∀ c ∈ front, IsSmall c) ∧
    IsSmall x ∧ x ≠ 'u' ∧ ∀ c ∈ back, IsSmall c

section Inside

variable {d : Char} {text rest pattern : List Char}

theorem begins_small {letters : List Char} (hletters : ∀ c ∈ letters, IsSmall c)
    {value : List Char}
    (h : Begins (letters ++ pattern) (escaped value ++ '"' :: d :: text) rest) :
    ∃ later, Begins pattern (escaped later ++ '"' :: d :: text) rest := by
  induction letters generalizing value with
  | nil => exact ⟨value, h⟩
  | cons c letters ih =>
    obtain ⟨hc, hrest⟩ := forall_mem_cons.mp hletters
    cases value with
    | nil =>
      have hquote := isLetter_of_likeLetter hc (begins_cons_iff.mp h).1
      exact absurd hquote (by decide)
    | cons a value =>
      have hslash : ∀ z more, escapeChar a ≠ '\\' :: z :: more := by
        intro z more heq
        rw [escaped_cons, heq] at h
        exact absurd (isLetter_of_likeLetter hc (begins_cons_iff.mp h).1) (by decide)
      rcases escapeChar_cases a with ⟨heq, -⟩ | ⟨-, heq⟩ | ⟨z, -, heq⟩ | ⟨more, -, heq⟩
      · rw [escaped_cons, heq] at h
        exact ih hrest (begins_cons_iff.mp h).2
      · exact absurd heq (hslash _ _)
      · exact absurd heq (hslash _ _)
      · exact absurd heq (hslash _ _)

theorem begins_underscore {x : Char} (hx : IsSmall x) (hu : x ≠ 'u') (hd : d = ',' ∨ d = '\x7d')
    {value : List Char}
    (h : Begins ('_' :: x :: pattern) (escaped value ++ '"' :: d :: text) rest) :
    ∃ later, Begins pattern (escaped later ++ '"' :: d :: text) rest := by
  cases value with
  | nil =>
    have hletter := isLetter_of_likeLetter hx (begins_cons_iff.mp (begins_cons_iff.mp h).2).1
    rcases hd with rfl | rfl <;> exact absurd hletter (by decide)
  | cons a value =>
    rcases escapeChar_cases a with ⟨heq, -⟩ | ⟨-, heq⟩ | ⟨z, -, heq⟩ | ⟨more, -, heq⟩
    · rw [escaped_cons, heq] at h
      refine @begins_small d text rest pattern [x] ?_ value (begins_cons_iff.mp h).2
      exact forall_mem_singleton.mpr hx
    · rw [escaped_cons, heq] at h
      have hletter := isLetter_of_likeLetter hx (begins_cons_iff.mp (begins_cons_iff.mp h).2).1
      exact absurd hletter (by decide)
    · rw [escaped_cons, heq] at h
      exact ⟨value, (begins_cons_iff.mp (begins_cons_iff.mp h).2).2⟩
    · rw [escaped_cons, heq] at h
      rcases likeLetter_iff.mp (begins_cons_iff.mp (begins_cons_iff.mp h).2).1 with rfl | hlower
      · exact absurd hx (by decide)
      · -- an escape by number begins with a letter that is not asked for
        have hnat := congrArg Char.toNat hlower
        have hu' : 'u'.toNat = 117 := rfl
        rw [toNat_toLower, toNat_toLower, hu'] at hnat
        obtain ⟨hlow, hhigh⟩ := hx
        refine absurd (Char.toNat_inj.mp ?_) hu
        rw [hu']
        split at hnat <;> split at hnat <;> omega

/-- **No field begins inside of a value.** -/
theorem not_begins_inside {key : List Char} (hkey : IsKey key) (hd : d = ',' ∨ d = '\x7d')
    (value : List Char) :
    ¬ Begins (key ++ '"' :: ':' :: pattern) (escaped value ++ '"' :: d :: text) rest := by
  obtain ⟨front, x, back, rfl, -, hfront, hx, hu, hback⟩ := hkey
  intro h
  rw [append_assoc] at h
  obtain ⟨later, h⟩ := begins_small hfront h
  obtain ⟨later, h⟩ := begins_underscore hx hu hd h
  obtain ⟨later, h⟩ := begins_small hback h
  cases later with
  | nil =>
    have hcolon := (begins_cons_iff.mp (begins_cons_iff.mp h).2).1
    rcases hd with rfl | rfl <;> exact absurd hcolon (by decide)
  | cons a later =>
    have hquote : ∀ b more, escapeChar a = b :: more → b ≠ '"' → False := by
      intro b more heq hb
      rw [escaped_cons, heq] at h
      rcases likeLetter_iff.mp (begins_cons_iff.mp h).1 with hunder | hlower
      · exact absurd hunder (by decide)
      · exact hb (eq_of_toLower_eq (by decide) (by decide) hlower.symm)
    rcases escapeChar_cases a with ⟨heq, ha, -⟩ | ⟨-, heq⟩ | ⟨z, -, heq⟩ | ⟨more, -, heq⟩
    · exact hquote _ _ heq ha
    · exact hquote _ _ heq (by decide)
    · exact hquote _ _ heq (by decide)
    · exact hquote _ _ heq (by decide)

end Inside

/-- A value that a pattern may name as it is: without wildcards and escapes. -/
def Plain (value : List Char) : Prop :=
  ∀ c ∈ value, c ≠ '%' ∧ c ≠ '_' ∧ Json.escapeChar c = [c]

instance (value : List Char) : Decidable (Plain value) :=
  List.decidableBAll (fun c => c ≠ '%' ∧ c ≠ '_' ∧ Json.escapeChar c = [c]) value

/-- Two values differ in the case of ASCII letters only. -/
def SameLetters (value other : List Char) : Prop :=
  value.map Char.toLower = other.map Char.toLower

instance (value other : List Char) : Decidable (SameLetters value other) :=
  inferInstanceAs (Decidable (_ = _))

theorem ne_of_plain {c : Char} (h : escapeChar c = [c]) : c ≠ '"' ∧ c ≠ '\\' := by
  constructor
  · rintro rfl
    cases h
  · rintro rfl
    cases h

/-- **A plain value stands for the values that differ in case only.** -/
theorem begins_value_iff {value other text rest : List Char} (hvalue : Plain value) :
    Begins (value ++ ['"']) (escaped other ++ '"' :: text) rest ↔
      SameLetters value other ∧ rest = text := by
  have hquote : ∀ (a : Char) (more : List Char), a ≠ '"' → ¬ Begins ['"'] (a :: more) rest := by
    intro a more ha h
    rcases likeLetter_iff.mp (begins_cons_iff.mp h).1 with hunder | hlower
    · exact absurd hunder (by decide)
    · exact ha (eq_of_toLower_eq (by decide) (by decide) hlower.symm)
  induction value generalizing other with
  | nil =>
    cases other with
    | nil =>
      show Begins ['"'] ('"' :: text) rest ↔ _
      rw [begins_cons_iff, begins_nil_iff]
      exact ⟨fun h => ⟨rfl, h.2.symm⟩, fun h => ⟨by decide, h.2.symm⟩⟩
    | cons a other =>
      refine iff_of_false ?_ fun h => cons_ne_nil _ _ h.1.symm
      rw [escaped_cons]
      rcases escapeChar_cases a with ⟨heq, ha, -⟩ | ⟨-, heq⟩ | ⟨z, -, heq⟩ | ⟨more, -, heq⟩
      · rw [heq]
        exact hquote _ _ ha
      · rw [heq]
        exact hquote _ _ (by decide)
      · rw [heq]
        exact hquote _ _ (by decide)
      · rw [heq]
        exact hquote _ _ (by decide)
  | cons c value ih =>
    obtain ⟨⟨hpercent, hunder, hescape⟩, hrest⟩ := forall_mem_cons.mp hvalue
    have hletter : ∀ a : Char, likeLetter c a = true ↔ c.toLower = a.toLower := fun a =>
      likeLetter_iff.trans (or_iff_right hunder)
    cases other with
    | nil =>
      refine iff_of_false (fun h => ?_) fun h => cons_ne_nil _ _ h.1
      have hlower := (hletter '"').mp (begins_cons_iff.mp h).1
      exact (ne_of_plain hescape).1 (eq_of_toLower_eq (by decide) (by decide) hlower)
    | cons a other =>
      have hsame : SameLetters (c :: value) (a :: other) ↔
          c.toLower = a.toLower ∧ SameLetters value other := List.cons.injEq _ _ _ _ ▸ Iff.rfl
      have hslash : ∀ z more, escapeChar a = '\\' :: z :: more →
          (Begins (c :: value ++ ['"']) (escaped (a :: other) ++ '"' :: text) rest ↔
            SameLetters (c :: value) (a :: other) ∧ rest = text) := by
        intro z more heq
        refine iff_of_false (fun h => ?_) fun h => ?_
        · rw [escaped_cons, heq] at h
          have hlower := (hletter '\\').mp (begins_cons_iff.mp h).1
          exact (ne_of_plain hescape).2 (eq_of_toLower_eq (by decide) (by decide) hlower)
        · -- a letter that is escaped has no cases
          have hcap : ¬ (65 ≤ a.toNat ∧ a.toNat ≤ 90) ∧ ¬ (97 ≤ a.toNat ∧ a.toNat ≤ 122) :=
            not_letter_of_escaped heq
          rw [eq_of_toLower_eq hcap.1 hcap.2 (hsame.mp h.1).1, heq] at hescape
          cases hescape
      rcases escapeChar_cases a with ⟨heq, -⟩ | ⟨-, heq⟩ | ⟨z, -, heq⟩ | ⟨more, -, heq⟩
      · rw [escaped_cons, heq, hsame, and_assoc]
        exact begins_cons_iff.trans (and_congr (hletter a) (ih hrest))
      · exact hslash _ _ heq
      · exact hslash _ _ heq
      · exact hslash _ _ heq

/-! ## Fields -/

section Fields

variable {key value pattern rest : List Char}

variable {text : List Char}

theorem occurs_skip {c : Char} (hc : c ≠ '"') :
    Occurs ('"' :: pattern) (c :: text) rest ↔ Occurs ('"' :: pattern) text rest := by
  rw [occurs_cons_iff]
  refine or_iff_right fun h => ?_
  rcases likeLetter_iff.mp (begins_cons_iff.mp h).1 with hunder | hlower
  · exact absurd hunder (by decide)
  · exact hc (eq_of_toLower_eq (by decide) (by decide) hlower.symm)

theorem occurs_skip_all {text skipped : List Char} (h : '"' ∉ skipped) :
    Occurs ('"' :: pattern) (skipped ++ text) rest ↔ Occurs ('"' :: pattern) text rest := by
  induction skipped with
  | nil => rfl
  | cons c skipped ih =>
    obtain ⟨hc, hrest⟩ := not_or.mp (mt mem_cons.mpr h)
    rw [cons_append, occurs_skip (Ne.symm hc), ih hrest]

theorem not_begins_key (hkey : IsKey key) {c : Char}
    (hc : ¬ (65 ≤ c.toNat ∧ c.toNat ≤ 90 ∨ 97 ≤ c.toNat ∧ c.toNat ≤ 122)) :
    ¬ Begins (key ++ pattern) (c :: text) rest := by
  obtain ⟨front, x, back, rfl, hne, hfront, -⟩ := hkey
  intro h
  obtain ⟨first, front, rfl⟩ := exists_cons_of_ne_nil hne
  exact hc (isLetter_of_likeLetter (hfront first mem_cons_self) (begins_cons_iff.mp h).1)

theorem occurs_skip_value (hkey : IsKey key) {d : Char} (hd : d = ',' ∨ d = '\x7d')
    (other : List Char) :
    Occurs (patternPart key value) (escaped other ++ '"' :: d :: text) rest ↔
      Occurs (patternPart key value) (d :: text) rest := by
  induction other with
  | nil =>
    show Occurs (patternPart key value) ('"' :: d :: text) rest ↔ _
    rw [occurs_cons_iff]
    refine or_iff_right fun h => not_begins_key hkey ?_ (begins_cons_iff.mp h).2
    rcases hd with rfl | rfl <;> decide
  | cons a other ih =>
    rw [escaped_cons, append_assoc, ← ih]
    rcases escapeChar_cases a with ⟨heq, ha, -⟩ | ⟨-, heq⟩ | ⟨z, hz, heq⟩ | ⟨more, hmore, heq⟩
    · rw [heq]
      exact occurs_skip_all (by simpa using Ne.symm ha)
    · rw [heq]
      refine (occurs_skip (by decide)).trans (occurs_cons_iff.trans (or_iff_right fun h => ?_))
      exact not_begins_inside hkey hd other (begins_cons_iff.mp h).2
    · rw [heq]
      exact occurs_skip_all (by simpa using Ne.symm hz)
    · rw [heq]
      exact occurs_skip_all (by simpa using hmore)

theorem occurs_field (hkey : IsKey key) {d : Char} (hd : d = ',' ∨ d = '\x7d')
    {name : List Char} (hname : '"' ∉ name) (other : List Char) :
    Occurs (patternPart key value) (fieldText name other ++ d :: text) rest ↔
      Begins (key ++ '"' :: ':' :: '"' :: (value ++ ['"']))
        (name ++ '"' :: ':' :: '"' :: (escaped other ++ '"' :: d :: text)) rest ∨
      Occurs (patternPart key value) (d :: text) rest := by
  have htext : fieldText name other ++ d :: text =
      '"' :: (name ++ '"' :: ':' :: '"' :: (escaped other ++ '"' :: d :: text)) := by
    simp [fieldText, escaped]
  have hcolon : ¬ Begins (key ++ '"' :: ':' :: '"' :: (value ++ ['"']))
      (':' :: '"' :: (escaped other ++ '"' :: d :: text)) rest := not_begins_key hkey (by decide)
  have hvalue : ¬ Begins (key ++ '"' :: ':' :: '"' :: (value ++ ['"']))
      (escaped other ++ '"' :: d :: text) rest := not_begins_inside hkey hd other
  rw [htext, patternPart, occurs_cons_iff, begins_cons_iff, occurs_skip_all hname, occurs_cons_iff,
    begins_cons_iff, occurs_skip (by decide), occurs_cons_iff, begins_cons_iff]
  have hlast : Occurs (patternPart key value) (escaped other ++ '"' :: d :: text) rest ↔
      Occurs (patternPart key value) (d :: text) rest := occurs_skip_value hkey hd other
  rw [patternPart] at hlast
  rw [hlast]
  have hquote : likeLetter '"' '"' = true := by decide
  tauto

/-- **At its own field a part of a pattern finds the value**, and otherwise looks further. -/
theorem occurs_field_iff (hkey : IsKey key) {d : Char} (hd : d = ',' ∨ d = '\x7d')
    (hname : '"' ∉ key) (hvalue : Plain value) (other : List Char) :
    Occurs (patternPart key value) (fieldText key other ++ d :: text) rest ↔
      (SameLetters value other ∧ rest = d :: text) ∨
        Occurs (patternPart key value) (d :: text) rest := by
  rw [occurs_field hkey hd hname, begins_same, begins_cons_iff, begins_cons_iff, begins_cons_iff,
    begins_value_iff hvalue]
  have hquote : likeLetter '"' '"' = true := by decide
  have hcolon : likeLetter ':' ':' = true := by decide
  tauto

theorem occurs_other_field_iff (hkey : IsKey key) {d : Char} (hd : d = ',' ∨ d = '\x7d')
    {name : List Char} (hname : '"' ∉ name) (hclash : clash key name = true) (other : List Char)
 :
    Occurs (patternPart key value) (fieldText name other ++ d :: text) rest ↔
      Occurs (patternPart key value) (d :: text) rest := by
  rw [occurs_field hkey hd hname]
  exact or_iff_right (not_begins_of_clash hclash)

end Fields

/-! ## Bindings -/

theorem isKey_of_all {front back : List Char} {x : Char} (hne : front ≠ [])
    (hfront : (front.all fun c => decide (IsSmall c)) = true) (hx : IsSmall x) (hu : x ≠ 'u')
    (hback : (back.all fun c => decide (IsSmall c)) = true) :
    IsKey (front ++ '_' :: x :: back) :=
  ⟨front, x, back, rfl, hne, fun c hc => of_decide_eq_true (all_eq_true.mp hfront c hc), hx,
    hu, fun c hc => of_decide_eq_true (all_eq_true.mp hback c hc)⟩

theorem isKey_channelType : IsKey "channel_type".toList :=
  @isKey_of_all "channel".toList "ype".toList 't' (by decide) (by decide) (by decide) (by decide)
    (by decide)

theorem isKey_accountId : IsKey "account_id".toList :=
  @isKey_of_all "account".toList "d".toList 'i' (by decide) (by decide) (by decide) (by decide)
    (by decide)

theorem isKey_chatId : IsKey "chat_id".toList :=
  @isKey_of_all "chat".toList "d".toList 'i' (by decide) (by decide) (by decide) (by decide)
    (by decide)

/-- The text of a binding after the chat. -/
def threadText (thread : Option (List Char)) : List Char :=
  (match thread with
    | none => []
    | some thread => ',' :: fieldText "thread_id".toList thread) ++ ['\x7d']

theorem threadText_eq_cons (thread : Option (List Char)) :
    ∃ d text, threadText thread = d :: text ∧ (d = ',' ∨ d = '\x7d') := by
  cases thread with
  | none => exact ⟨'\x7d', [], rfl, .inr rfl⟩
  | some thread => exact ⟨',', fieldText "thread_id".toList thread ++ ['\x7d'], rfl, .inl rfl⟩

section Bindings

variable {key value rest : List Char}

theorem not_occurs_end : ¬ Occurs (patternPart key value) ['\x7d'] rest := by
  rw [patternPart, occurs_skip (by decide)]
  rintro ⟨gap, back, heq, hbegins⟩
  obtain ⟨-, rfl⟩ := nil_eq_append_iff.mp heq
  exact not_begins_nil hbegins

theorem not_occurs_threadText (hkey : IsKey key)
    (hclash : clash key "thread_id".toList = true) (thread : Option (List Char)) :
    ¬ Occurs (patternPart key value) (threadText thread) rest := by
  cases thread with
  | none => exact not_occurs_end
  | some thread =>
    have htext : threadText (some thread) =
        ',' :: (fieldText "thread_id".toList thread ++ ['\x7d']) := rfl
    rw [htext, patternPart, occurs_skip (by decide), ← patternPart,
      occurs_other_field_iff hkey (.inr rfl) (by decide) hclash]
    exact not_occurs_end

theorem occurs_chat_iff (hvalue : Plain value) (chat : List Char) (thread : Option (List Char)) :
    Occurs (patternPart "chat_id".toList value)
        (',' :: (fieldText "chat_id".toList chat ++ threadText thread)) rest ↔
      SameLetters value chat ∧ rest = threadText thread := by
  obtain ⟨d, text, heq, hd⟩ := threadText_eq_cons thread
  have hthread := @not_occurs_threadText _ value rest isKey_chatId (by decide) thread
  rw [patternPart, occurs_skip (by decide), ← patternPart]
  rw [heq] at hthread ⊢
  rw [occurs_field_iff isKey_chatId hd (by decide) hvalue]
  exact or_iff_left hthread

theorem occurs_account_iff (hvalue : Plain value) (account chat : List Char)
    (thread : Option (List Char)) :
    Occurs (patternPart "account_id".toList value) (',' :: (fieldText "account_id".toList account ++
        ',' :: (fieldText "chat_id".toList chat ++ threadText thread))) rest ↔
      SameLetters value account ∧
        rest = ',' :: (fieldText "chat_id".toList chat ++ threadText thread) := by
  obtain ⟨d, text, heq, hd⟩ := threadText_eq_cons thread
  have hthread := @not_occurs_threadText _ value rest isKey_accountId (by decide) thread
  rw [patternPart, occurs_skip (by decide), ← patternPart,
    occurs_field_iff isKey_accountId (.inl rfl) (by decide) hvalue]
  refine or_iff_left ?_
  rw [patternPart, occurs_skip (by decide), ← patternPart]
  rw [heq] at hthread ⊢
  rwa [occurs_other_field_iff isKey_accountId hd (by decide) (by decide)]

theorem occurs_channel_iff (hvalue : Plain value) (binding : PersistedChannelBinding) :
    Occurs (patternPart "channel_type".toList value) binding.toText rest ↔
      SameLetters value binding.channelType ∧
        rest = ',' :: (fieldText "account_id".toList binding.accountId ++
          ',' :: (fieldText "chat_id".toList binding.chatId ++ threadText binding.threadId)) := by
  obtain ⟨d, text, heq, hd⟩ := threadText_eq_cons binding.threadId
  have hthread := @not_occurs_threadText _ value rest isKey_channelType (by decide)
    binding.threadId
  have htext : binding.toText = '\x7b' :: (fieldText "channel_type".toList binding.channelType ++
      ',' :: (fieldText "account_id".toList binding.accountId ++
      ',' :: (fieldText "chat_id".toList binding.chatId ++ threadText binding.threadId))) := rfl
  rw [htext, patternPart, occurs_skip (by decide), ← patternPart,
    occurs_field_iff isKey_channelType (.inl rfl) (by decide) hvalue]
  refine or_iff_left ?_
  rw [patternPart, occurs_skip (by decide), ← patternPart,
    occurs_other_field_iff isKey_channelType (.inl rfl) (by decide) (by decide), patternPart,
    occurs_skip (by decide), ← patternPart]
  rw [heq] at hthread ⊢
  rwa [occurs_other_field_iff isKey_channelType hd (by decide) (by decide)]

theorem like_part_iff {part pattern text : List Char} (hpart : '%' ∉ part) :
    like ('%' :: (part ++ pattern)) text = true ↔
      ∃ rest, Occurs part text rest ∧ like pattern rest = true := by
  have hplain : ∀ c ∈ part, decide (c = '%') = false := fun c hc =>
    decide_eq_false fun heq => hpart (heq ▸ hc)
  unfold like
  rw [fits_wildcard_iff (by decide)]
  constructor
  · rintro ⟨gap, back, rfl, hback⟩
    obtain ⟨front, rest, rfl, hfront, hrest⟩ := (fits_append_iff hplain).mp hback
    exact ⟨rest, ⟨gap, front ++ rest, rfl, front, rfl, hfront⟩, hrest⟩
  · rintro ⟨rest, ⟨gap, back, rfl, front, rfl, hfront⟩, hrest⟩
    exact ⟨gap, front ++ rest, rfl, (fits_append_iff hplain).mpr ⟨front, rest, rfl, hfront, hrest⟩⟩

theorem like_everything (text : List Char) : like ['%'] text = true := by
  unfold like
  exact (fits_wildcard_iff (by decide)).mpr ⟨text, [], (append_nil _).symm, rfl⟩

theorem notMem_patternPart (hkey : '%' ∉ key) (hvalue : Plain value) :
    '%' ∉ patternPart key value := by
  have hnot : '%' ∉ value := fun hmem => (hvalue _ hmem).1 rfl
  simp [patternPart, hkey, hnot]

variable {channelType accountId chatId : List Char}

/-- **A binding is listed for an account if its fields differ in case only.** -/
theorem like_accountPattern_iff (htype : Plain channelType) (haccount : Plain accountId)
    (binding : PersistedChannelBinding) :
    like (accountPattern channelType accountId) binding.toText = true ↔
      SameLetters channelType binding.channelType ∧ SameLetters accountId binding.accountId := by
  unfold accountPattern
  rw [like_part_iff (notMem_patternPart (by decide) htype)]
  constructor
  · rintro ⟨rest, hoccurs, hlike⟩
    obtain ⟨hsame, rfl⟩ := (occurs_channel_iff htype binding).mp hoccurs
    obtain ⟨rest, hoccurs, -⟩ :=
      (like_part_iff (notMem_patternPart (by decide) haccount)).mp hlike
    exact ⟨hsame, ((occurs_account_iff haccount _ _ _).mp hoccurs).1⟩
  · rintro ⟨htypes, haccounts⟩
    refine ⟨_, (occurs_channel_iff htype binding).mpr ⟨htypes, rfl⟩, ?_⟩
    refine (like_part_iff (notMem_patternPart (by decide) haccount)).mpr
      ⟨_, (occurs_account_iff haccount _ _ _).mpr ⟨haccounts, rfl⟩, like_everything _⟩

/-- **A binding is listed for a chat if its fields differ in case only.** -/
theorem like_channelPattern_iff (htype : Plain channelType) (haccount : Plain accountId)
    (hchat : Plain chatId) (binding : PersistedChannelBinding) :
    like (channelPattern channelType accountId chatId) binding.toText = true ↔
      SameLetters channelType binding.channelType ∧ SameLetters accountId binding.accountId ∧
        SameLetters chatId binding.chatId := by
  unfold channelPattern
  rw [like_part_iff (notMem_patternPart (by decide) htype)]
  constructor
  · rintro ⟨rest, hoccurs, hlike⟩
    obtain ⟨htypes, rfl⟩ := (occurs_channel_iff htype binding).mp hoccurs
    obtain ⟨rest, hoccurs, hlike⟩ :=
      (like_part_iff (notMem_patternPart (by decide) haccount)).mp hlike
    obtain ⟨haccounts, rfl⟩ := (occurs_account_iff haccount _ _ _).mp hoccurs
    obtain ⟨rest, hoccurs, -⟩ := (like_part_iff (notMem_patternPart (by decide) hchat)).mp hlike
    exact ⟨htypes, haccounts, ((occurs_chat_iff hchat _ _).mp hoccurs).1⟩
  · rintro ⟨htypes, haccounts, hchats⟩
    refine ⟨_, (occurs_channel_iff htype binding).mpr ⟨htypes, rfl⟩, ?_⟩
    refine (like_part_iff (notMem_patternPart (by decide) haccount)).mpr
      ⟨_, (occurs_account_iff haccount _ _ _).mpr ⟨haccounts, rfl⟩, ?_⟩
    exact (like_part_iff (notMem_patternPart (by decide) hchat)).mpr
      ⟨_, (occurs_chat_iff hchat _ _).mpr ⟨hchats, rfl⟩, like_everything _⟩

end Bindings

/-! ## Listings -/

theorem mem_listing_iff {rows : List ChannelSessionRow} {pattern : List Char}
    {row : ChannelSessionRow} :
    row ∈ sortByKey ChannelSessionRow.createdAt (rows.filter fun row => row.isLike pattern) ↔
      row ∈ rows ∧ ∃ binding, row.channelBinding = some binding ∧
        like pattern binding.toText = true := by
  rw [(perm_sortByKey _ _).mem_iff, mem_filter]
  refine and_congr_right fun _ => ?_
  unfold ChannelSessionRow.isLike
  rw [Option.any_eq_true]

/-- A listing is exact if it takes what is wanted only. -/
theorem exact_iff {rows : List ChannelSessionRow} {pattern : List Char}
    {wanted near : PersistedChannelBinding → Prop}
    (hlike : ∀ binding, like pattern binding.toText = true ↔ near binding)
    (hnear : ∀ binding, wanted binding → near binding) :
    (∀ row, row ∈ sortByKey ChannelSessionRow.createdAt
        (rows.filter fun row => row.isLike pattern) ↔
      row ∈ rows ∧ ∃ binding, row.channelBinding = some binding ∧ wanted binding) ↔
    ∀ row ∈ rows, ∀ binding, row.channelBinding = some binding → near binding →
      wanted binding := by
  simp only [mem_listing_iff, hlike]
  constructor
  · intro h row hrow binding hbinding hbindingNear
    obtain ⟨-, found, hfound, hwanted⟩ := (h row).mp ⟨hrow, binding, hbinding, hbindingNear⟩
    rw [hbinding] at hfound
    rwa [Option.some.inj hfound]
  · intro h row
    refine and_congr_right fun hrow => exists_congr fun binding => ?_
    refine and_congr_right fun hbinding => ?_
    exact ⟨h row hrow binding hbinding, hnear binding⟩

/-- **When listings are exact**: for ids without wildcards, quotes, backslashes and control
characters, if no binding differs from them in the case of letters only. -/
theorem listings_exact_iff (rows : List ChannelSessionRow)
    {channelType accountId chatId : List Char} (htype : Plain channelType)
    (haccount : Plain accountId) (hchat : Plain chatId) :
    ((∀ row, row ∈ listChannelSessions rows channelType accountId chatId ↔
        row ∈ rows ∧ ∃ binding, row.channelBinding = some binding ∧
          (binding.channelType = channelType ∧ binding.accountId = accountId ∧
            binding.chatId = chatId)) ↔
      ∀ row ∈ rows, ∀ binding, row.channelBinding = some binding →
        (SameLetters channelType binding.channelType ∧ SameLetters accountId binding.accountId ∧
          SameLetters chatId binding.chatId) →
        (binding.channelType = channelType ∧ binding.accountId = accountId ∧
          binding.chatId = chatId)) ∧
    ((∀ row, row ∈ listAccountSessions rows channelType accountId ↔
        row ∈ rows ∧ ∃ binding, row.channelBinding = some binding ∧
          (binding.channelType = channelType ∧ binding.accountId = accountId)) ↔
      ∀ row ∈ rows, ∀ binding, row.channelBinding = some binding →
        (SameLetters channelType binding.channelType ∧ SameLetters accountId binding.accountId) →
        (binding.channelType = channelType ∧ binding.accountId = accountId)) := by
  constructor
  · refine exact_iff (like_channelPattern_iff htype haccount hchat) fun binding => ?_
    rintro ⟨rfl, rfl, rfl⟩
    exact ⟨rfl, rfl, rfl⟩
  · refine exact_iff (like_accountPattern_iff htype haccount) fun binding => ?_
    rintro ⟨rfl, rfl⟩
    exact ⟨rfl, rfl⟩

def sessionOf (accountId : String) : ChannelSessionRow where
  key := accountId
  createdAt := 0
  channelBinding := some ⟨"telegram".toList, accountId.toList, "7".toList, none⟩

theorem listings_exact_iff_two_accounts :
    sessionOf "a" ∈
        listAccountSessions [sessionOf "a", sessionOf "b"] "telegram".toList "a".toList ↔
      sessionOf "a" ∈ [sessionOf "a", sessionOf "b"] ∧
        ∃ binding, (sessionOf "a").channelBinding = some binding ∧
          (binding.channelType = "telegram".toList ∧ binding.accountId = "a".toList) := by
  refine (@listings_exact_iff [sessionOf "a", sessionOf "b"] "telegram".toList "a".toList
    "7".toList (by decide) (by decide) (by decide)).2.mpr ?_ (sessionOf "a")
  intro row hrow binding hbinding hsame
  rcases List.mem_pair.mp hrow with rfl | rfl
  · cases hbinding
    exact ⟨rfl, rfl⟩
  · cases hbinding
    exact absurd hsame.2 (by decide)

theorem other_account_listed : ¬ ∀ (rows : List ChannelSessionRow)
    (channelType accountId : List Char) (row : ChannelSessionRow),
    row ∈ listAccountSessions rows channelType accountId →
      ∃ binding, row.channelBinding = some binding ∧ binding.accountId = accountId := by
  intro h
  have hlike : (sessionOf "myXbot").isLike (accountPattern "telegram".toList "my_bot".toList) =
      true := by
    decide
  have hmem : sessionOf "myXbot" ∈
      listAccountSessions [sessionOf "myXbot"] "telegram".toList "my_bot".toList := by
    refine (perm_sortByKey _ _).mem_iff.mpr (List.mem_filter.mpr ⟨List.mem_cons_self, hlike⟩)
  obtain ⟨binding, hbinding, haccount⟩ := h _ _ _ _ hmem
  cases hbinding
  revert haccount
  decide

end Chelix.Sessions
