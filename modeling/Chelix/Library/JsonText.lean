import Mathlib.Data.List.Chain

/-!
# The text of JSON

A JSON text is a list of tokens with blanks between them.
-/

namespace Chelix.Library

open List

/-! ## Tokens -/

inductive Bracket where
  | brace
  | square
  deriving DecidableEq

namespace Bracket

def openChar : Bracket → Char
  | brace => '{'
  | square => '['

def closeChar : Bracket → Char
  | brace => '}'
  | square => ']'

end Bracket

/-- What stands between the quotes of a string: a backslash escapes the character after it, and a
quote is escaped. -/
inductive StringBody : List Char → Prop
  | nil : StringBody []
  | plain {c : Char} {body : List Char} :
      c ≠ '"' → c ≠ '\\' → StringBody body → StringBody (c :: body)
  | escape {c : Char} {body : List Char} : StringBody body → StringBody ('\\' :: c :: body)

structure StringToken where
  body : List Char
  wellFormed : StringBody body

/-- The characters of numbers and of `true`, `false` and `null`. -/
def isWordChar (c : Char) : Bool :=
  c.isAlphanum || c = '+' || c = '-' || c = '.'

structure WordToken where
  chars : List Char
  nonempty : chars ≠ []
  wellFormed : ∀ c ∈ chars, isWordChar c = true

inductive Token where
  | str (s : StringToken)
  | word (w : WordToken)
  | comma
  | colon
  | opener (b : Bracket)
  | closer (b : Bracket)

namespace Token

def text : Token → List Char
  | str s => '"' :: (s.body ++ ['"'])
  | word w => w.chars
  | comma => [',']
  | colon => [':']
  | opener b => [b.openChar]
  | closer b => [b.closeChar]

end Token

/-! ## Values -/

/-- What some tokens are: a value, or what stands between brackets. -/
inductive Part where
  | value
  | entries (b : Bracket)

/-- The tokens of a value, and those of elements or members with commas between them. -/
inductive JsonTokens : Part → List Token → Prop
  | str (s : StringToken) : JsonTokens .value [.str s]
  | word (w : WordToken) : JsonTokens .value [.word w]
  | empty (b : Bracket) : JsonTokens .value [.opener b, .closer b]
  | brackets (b : Bracket) {tokens : List Token} :
      JsonTokens (.entries b) tokens → JsonTokens .value (.opener b :: (tokens ++ [.closer b]))
  | element {tokens : List Token} :
      JsonTokens .value tokens → JsonTokens (.entries .square) tokens
  | member (s : StringToken) {tokens : List Token} :
      JsonTokens .value tokens → JsonTokens (.entries .brace) (.str s :: .colon :: tokens)
  | more {b : Bracket} {tokens tokens' : List Token} :
      JsonTokens (.entries b) tokens → JsonTokens (.entries b) tokens' →
      JsonTokens (.entries b) (tokens ++ .comma :: tokens')

/-- The brackets that are open after some tokens, the last one first; a bracket that is closed must
be the last one. -/
def nest : List Token → List Bracket → Option (List Bracket)
  | [], stack => some stack
  | .opener b :: tokens, stack => nest tokens (b :: stack)
  | .closer b :: tokens, stack =>
    match stack with
    | b' :: rest => if b = b' then nest tokens rest else none
    | [] => none
  | .str _ :: tokens, stack | .word _ :: tokens, stack | .comma :: tokens, stack
  | .colon :: tokens, stack => nest tokens stack

theorem nest_append (tokens tokens' : List Token) (stack : List Bracket) :
    nest (tokens ++ tokens') stack = (nest tokens stack).bind (nest tokens') := by
  induction tokens generalizing stack with
  | nil => rfl
  | cons token tokens ih =>
    cases token with
    | opener b => exact ih (b :: stack)
    | closer b =>
      cases stack with
      | nil => rfl
      | cons b' rest =>
        change (if b = b' then nest (tokens ++ tokens') rest else none) =
          (if b = b' then nest tokens rest else none).bind (nest tokens')
        split
        · exact ih rest
        · rfl
    | str s | word w | comma | colon => exact ih stack

theorem nest_closers {closers stack : List Bracket}
    (h : nest (closers.map .closer) stack = some []) :
    stack = closers := by
  induction closers generalizing stack with
  | nil => exact Option.some.inj h
  | cons b closers ih =>
    cases stack with
    | nil => cases h
    | cons b' rest =>
      change (if b = b' then nest (closers.map .closer) rest else none) = some [] at h
      split at h
      · rename_i heq
        rw [heq, ih h]
      · cases h

variable {tokens : List Token}

theorem JsonTokens.nest_eq {part : Part} (h : JsonTokens part tokens) (stack : List Bracket) :
    nest tokens stack = some stack := by
  induction h generalizing stack with
  | str s | word w => rfl
  | empty b =>
    change (if b = b then some stack else none) = some stack
    exact if_pos rfl
  | brackets b _ ih =>
    change nest (_ ++ [.closer b]) (b :: stack) = some stack
    rw [nest_append, ih]
    change (if b = b then some stack else none) = some stack
    exact if_pos rfl
  | element _ ih | member s _ ih => exact ih stack
  | more _ _ ih ih' =>
    rw [nest_append, ih]
    exact ih' stack

/-- A comma with a closing bracket after it. -/
inductive TrailingComma : Token → Token → Prop
  | intro (b : Bracket) : TrailingComma .comma (.closer b)

/-- Tokens none of which is a comma with a closing bracket after it. -/
def NoTrailingComma (tokens : List Token) : Prop :=
  tokens.IsChain fun a b => ¬TrailingComma a b

/-- Tokens that begin with no closing bracket, end with no comma, and have no comma with a closing
bracket after it. -/
structure Tidy (tokens : List Token) : Prop where
  begins : ∃ token ∈ tokens.head?, ∀ b, token ≠ .closer b
  ends : ∃ token ∈ tokens.getLast?, token ≠ .comma
  inside : NoTrailingComma tokens

namespace Tidy

theorem noTrailingComma_append {tokens' : List Token} (h : Tidy tokens)
    (h' : NoTrailingComma tokens') : NoTrailingComma (tokens ++ tokens') := by
  obtain ⟨last, hlast, hcomma⟩ := h.ends
  refine isChain_append.mpr ⟨h.inside, h', fun token htoken next _ htrailing => ?_⟩
  obtain rfl := Option.some.inj (hlast.symm.trans htoken)
  cases htrailing
  exact hcomma rfl

end Tidy

theorem JsonTokens.tidy {part : Part} (h : JsonTokens part tokens) : Tidy tokens := by
  induction h with
  | str s | word w => exact ⟨⟨_, rfl, nofun⟩, ⟨_, rfl, nofun⟩, isChain_singleton _⟩
  | empty b =>
    exact ⟨⟨_, rfl, nofun⟩, ⟨_, rfl, nofun⟩,
      isChain_cons_cons.mpr ⟨nofun, isChain_singleton _⟩⟩
  | brackets b _ ih =>
    refine ⟨⟨_, rfl, nofun⟩, ⟨.closer b, ?_, nofun⟩, ?_⟩
    · rw [← cons_append, List.getLast?_concat]
      rfl
    · refine isChain_cons.mpr ⟨fun _ _ => nofun, ?_⟩
      exact ih.noTrailingComma_append (isChain_singleton _)
  | element _ ih => exact ih
  | member s _ ih =>
    obtain ⟨last, hlast, hcomma⟩ := ih.ends
    refine ⟨⟨_, rfl, nofun⟩, ⟨last, ?_, hcomma⟩, ?_⟩
    · exact mem_getLast?_cons (mem_getLast?_cons hlast)
    · refine isChain_cons.mpr ⟨fun _ _ => nofun, ?_⟩
      exact isChain_cons.mpr ⟨fun _ _ => nofun, ih.inside⟩
  | more _ _ ih ih' =>
    obtain ⟨first, hfirst, hcloser⟩ := ih.begins
    obtain ⟨last, hlast, hcomma⟩ := ih'.ends
    refine ⟨⟨first, mem_head?_append_of_mem_head? hfirst, hcloser⟩,
      ⟨last, mem_getLast?_append_of_mem_getLast? (mem_getLast?_cons hlast), hcomma⟩, ?_⟩
    refine ih.noTrailingComma_append (isChain_cons.mpr ⟨?_, ih'.inside⟩)
    intro token htoken htrailing
    obtain ⟨first', hfirst', hcloser'⟩ := ih'.begins
    obtain rfl := Option.some.inj (hfirst'.symm.trans htoken)
    cases htrailing
    exact hcloser' _ rfl

/-! ## Texts -/

def isBlankChar (c : Char) : Bool :=
  c = ' ' || c = '\t' || c = '\n' || c = '\r'

def IsGap (text : List Char) : Prop := ∀ c ∈ text, isBlankChar c = true

theorem ne_of_test {p : Char → Bool} {c d : Char} (hc : p c = true) (hd : p d = false) : c ≠ d := by
  rintro rfl
  rw [hc] at hd
  cases hd

/-- A text with the tokens of a list and blanks between them. -/
inductive Spaced : List Token → List Char → Prop
  | nil {gap : List Char} : IsGap gap → Spaced [] gap
  | cons {gap text : List Char} {token : Token} {tokens : List Token} :
      IsGap gap → Spaced tokens text → Spaced (token :: tokens) (gap ++ (token.text ++ text))

theorem IsGap.nil : IsGap [] := fun _ hc => absurd hc not_mem_nil

variable {gap : List Char}

theorem IsGap.append {gap' : List Char} (h : IsGap gap) (h' : IsGap gap') :
    IsGap (gap ++ gap') := fun c hc =>
  (mem_append.mp hc).elim (h c) (h' c)

variable {text : List Char}

theorem Spaced.of_gap (hgap : IsGap gap) (h : Spaced tokens text) :
    Spaced tokens (gap ++ text) := by
  cases h with
  | nil hgap' => exact .nil (hgap.append hgap')
  | cons hgap' h =>
    rw [← append_assoc]
    exact .cons (hgap.append hgap') h

theorem Spaced.append {tokens' : List Token} {text' : List Char} (h : Spaced tokens text)
    (h' : Spaced tokens' text') : Spaced (tokens ++ tokens') (text ++ text') := by
  induction h with
  | nil hgap => exact .of_gap hgap h'
  | cons hgap _ ih =>
    rw [append_assoc, append_assoc]
    exact .cons hgap ih

theorem spaced_closers (closers : List Bracket) :
    Spaced (closers.map .closer) (closers.map Bracket.closeChar) := by
  induction closers with
  | nil => exact .nil .nil
  | cons b closers ih => exact show Spaced _ ([] ++ _) from .cons .nil ih

/-! ## Reading the tokens -/

theorem Token.text_eq_cons (token : Token) : ∃ c chars, token.text = c :: chars ∧
    isBlankChar c = false := by
  cases token with
  | str s | comma | colon => exact ⟨_, _, rfl, rfl⟩
  | word w =>
    obtain ⟨c, chars, hchars⟩ := exists_cons_of_ne_nil w.nonempty
    have hc : isWordChar c = true := w.wellFormed c (hchars ▸ mem_cons_self)
    refine ⟨c, chars, hchars, ?_⟩
    unfold isBlankChar
    simp [ne_of_test hc (show isWordChar ' ' = false from rfl),
      ne_of_test hc (show isWordChar '\t' = false from rfl),
      ne_of_test hc (show isWordChar '\n' = false from rfl),
      ne_of_test hc (show isWordChar '\r' = false from rfl)]
  | opener b | closer b => exact ⟨_, _, rfl, by cases b <;> rfl⟩

/-- Whether a text has the tokens of a list and blanks between them. -/
def isSpaced : List Token → List Char → Bool
  | [], text => text.all isBlankChar
  | token :: tokens, text =>
    token.text.isPrefixOf (text.dropWhile isBlankChar) &&
      isSpaced tokens ((text.dropWhile isBlankChar).drop token.text.length)

theorem dropWhile_append_token (h : IsGap gap) (token : Token) (text : List Char) :
    (gap ++ (token.text ++ text)).dropWhile isBlankChar = token.text ++ text := by
  obtain ⟨c, chars, htext, hblank⟩ := token.text_eq_cons
  rw [dropWhile_append_of_pos h, htext, cons_append,
    dropWhile_cons_of_neg (ne_true_of_eq_false hblank)]

theorem isSpaced_iff : isSpaced tokens text = true ↔ Spaced tokens text := by
  constructor
  · intro h
    induction tokens generalizing text with
    | nil => exact .nil (all_eq_true.mp h)
    | cons token tokens ih =>
      unfold isSpaced at h
      rw [Bool.and_eq_true] at h
      obtain ⟨hpre, hrest⟩ := h
      obtain ⟨rest, hrest'⟩ := isPrefixOf_iff_prefix.mp hpre
      rw [← hrest', drop_left] at hrest
      rw [← takeWhile_append_dropWhile (p := isBlankChar) (l := text), ← hrest']
      exact .cons (all_eq_true.mp all_takeWhile) (ih hrest)
  · intro h
    induction h with
    | nil hgap => exact all_eq_true.mpr hgap
    | @cons gap text token tokens hgap _ ih =>
      unfold isSpaced
      rw [dropWhile_append_token hgap, drop_left, ih, Bool.and_true]
      exact isPrefixOf_iff_prefix.mpr (prefix_append _ _)

instance (tokens : List Token) (text : List Char) : Decidable (Spaced tokens text) :=
  decidable_of_iff _ isSpaced_iff

theorem Spaced.cancel {rest : List Token} {front : List Char} (h : Spaced tokens front)
    (hall : Spaced (tokens ++ rest) (front ++ text)) :
    ∃ gap, IsGap gap ∧ Spaced rest (gap ++ text) := by
  induction h with
  | @nil gap hgap => exact ⟨gap, hgap, hall⟩
  | @cons gap front token tokens hgap _ ih =>
    rw [append_assoc, append_assoc] at hall
    generalize htext : gap ++ (token.text ++ (front ++ text)) = whole at hall
    cases hall with
    | cons hgap' hrest =>
      have hdrop := congrArg (List.dropWhile isBlankChar) htext
      rw [dropWhile_append_token hgap, dropWhile_append_token hgap'] at hdrop
      rw [← append_cancel_left hdrop] at hrest
      exact ih hrest

end Chelix.Library
