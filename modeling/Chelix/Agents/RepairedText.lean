import Mathlib
import Chelix.Agents.JsonRepair

/-!
# What the repair recovers

A text with comments between its tokens, with trailing commas, and without some of its last
closing brackets is the text of a value; it is not JSON.
-/

namespace Chelix.Agents

open Chelix.Library List

/-! ## Decorated texts -/

/-- What may stand between two tokens: blanks, and comments with the end of their line. -/
inductive Filler : List Char → Prop
  | nil : Filler []
  | blank {c : Char} {text : List Char} : isBlankChar c = true → Filler text → Filler (c :: text)
  | comment {line text : List Char} :
      '\n' ∉ line → Filler text → Filler ('/' :: '/' :: (line ++ '\n' :: text))

/-- What may stand at the end: the last comment may lack the end of its line. -/
inductive LastFiller : List Char → Prop
  | filler {text : List Char} : Filler text → LastFiller text
  | comment {text line : List Char} :
      Filler text → '\n' ∉ line → LastFiller (text ++ '/' :: '/' :: line)

/-- A text with the tokens of a list, and a trailing comma before some of the closing brackets.  A
comma dangles if the bracket it stands before is gone. -/
inductive Decorated (between atEnd : List Char → Prop) :
    (dangling : Bool) → List Token → List Char → Prop
  | done {filler : List Char} : atEnd filler → Decorated between atEnd false [] filler
  | dangling {filler filler' : List Char} :
      between filler → atEnd filler' → Decorated between atEnd true [] (filler ++ ',' :: filler')
  | token {dangling : Bool} {filler text : List Char} {token : Token} {tokens : List Token} :
      between filler → Decorated between atEnd dangling tokens text →
      Decorated between atEnd dangling (token :: tokens) (filler ++ (token.text ++ text))
  | trailing {dangling : Bool} {filler filler' text : List Char} {b : Bracket}
      {tokens : List Token} :
      between filler → between filler' → Decorated between atEnd dangling tokens text →
      Decorated between atEnd dangling (.closer b :: tokens)
        (filler ++ ',' :: (filler' ++ b.closeChar :: text))

/-! ## The first pass -/

theorem stripComments_code (prevChar prevChar' : Char) (chars : List Char) :
    stripComments .code prevChar chars = stripComments .code prevChar' chars := by
  cases chars <;> rfl

variable {c : Char}

theorem stripComments_char (h : c ≠ '"' ∧ c ≠ '/') (prevChar : Char) (chars : List Char) :
    stripComments .code prevChar (c :: chars) = c :: stripComments .code prevChar chars := by
  conv_lhs => unfold stripComments
  rw [if_neg h.1, if_neg fun hslash => h.2 hslash.1]
  exact congrArg (cons c) (stripComments_code ..)

variable {plain : List Char}

theorem stripComments_plain (h : ∀ c ∈ plain, c ≠ '"' ∧ c ≠ '/') (prevChar : Char)
    (chars : List Char) :
    stripComments .code prevChar (plain ++ chars) =
      plain ++ stripComments .code prevChar chars := by
  induction plain with
  | nil => rfl
  | cons c plain ih =>
    rw [cons_append, cons_append, stripComments_char (h c mem_cons_self),
      ih fun c' hc' => h c' (mem_cons_of_mem _ hc')]

theorem plain_of_blank (h : isBlankChar c = true) : c ≠ '"' ∧ c ≠ '/' :=
  ⟨ne_of_test h rfl, ne_of_test h rfl⟩

theorem stripComments_line {line : List Char} (h : '\n' ∉ line) (prevChar : Char)
    (chars : List Char) :
    stripComments .comment prevChar (line ++ '\n' :: chars) =
      '\n' :: stripComments .code '\n' chars := by
  induction line with
  | nil => rfl
  | cons c line ih =>
    rw [mem_cons, not_or] at h
    rw [cons_append]
    conv_lhs => unfold stripComments
    rw [if_neg (Ne.symm h.1)]
    exact ih h.2

theorem stripComments_lastLine {line : List Char} (h : '\n' ∉ line) (prevChar : Char) :
    stripComments .comment prevChar line = [] := by
  induction line with
  | nil => rfl
  | cons c line ih =>
    rw [mem_cons, not_or] at h
    unfold stripComments
    rw [if_neg (Ne.symm h.1)]
    exact ih h.2

variable {filler : List Char}

theorem stripComments_filler (h : Filler filler) (prevChar : Char) (chars : List Char) :
    ∃ gap, IsGap gap ∧
      stripComments .code prevChar (filler ++ chars) =
        gap ++ stripComments .code prevChar chars := by
  induction h generalizing prevChar with
  | nil => exact ⟨[], .nil, rfl⟩
  | @blank c text hc _ ih =>
    obtain ⟨gap, hgap, hstrip⟩ := ih prevChar
    refine ⟨c :: gap, fun c' hc' => ?_, ?_⟩
    · rcases mem_cons.mp hc' with rfl | hc'
      · exact hc
      · exact hgap c' hc'
    · rw [cons_append, cons_append, stripComments_char (plain_of_blank hc), hstrip]
  | @comment line text hline _ ih =>
    obtain ⟨gap, hgap, hstrip⟩ := ih '\n'
    refine ⟨'\n' :: gap, fun c' hc' => ?_, ?_⟩
    · rcases mem_cons.mp hc' with rfl | hc'
      · rfl
      · exact hgap c' hc'
    · have hslash : '\n' ∉ '/' :: line := by
        rw [mem_cons, not_or]
        exact ⟨by decide, hline⟩
      have hrest := stripComments_line hslash '\n' (text ++ chars)
      rw [hstrip, stripComments_code '\n' prevChar chars] at hrest
      have happend : '/' :: '/' :: (line ++ '\n' :: text) ++ chars =
          '/' :: ('/' :: line ++ '\n' :: (text ++ chars)) := by simp
      rw [happend]
      conv_lhs => unfold stripComments
      rw [if_neg (by decide), if_pos ⟨rfl, rfl⟩]
      exact hrest

theorem stripComments_lastFiller (h : LastFiller filler) (prevChar : Char) :
    IsGap (stripComments .code prevChar filler) := by
  cases h with
  | filler h =>
    obtain ⟨gap, hgap, hstrip⟩ := stripComments_filler h prevChar []
    rw [append_nil] at hstrip
    rw [hstrip]
    exact hgap.append .nil
  | @comment text line h hline =>
    obtain ⟨gap, hgap, hstrip⟩ := stripComments_filler h prevChar ('/' :: '/' :: line)
    have hslash : '\n' ∉ '/' :: line := by
      rw [mem_cons, not_or]
      exact ⟨by decide, hline⟩
    rw [hstrip]
    refine hgap.append ?_
    unfold stripComments
    rw [if_neg (by decide), if_pos ⟨rfl, rfl⟩, stripComments_lastLine hslash]
    exact .nil

variable {body : List Char}

/-- A string is kept, up to the quote that ends it, unless its last character is a backslash. -/
theorem stripComments_body (h : StringBody body) (prevChar : Char)
    (hlast : (body.getLast?.getD prevChar) ≠ '\\') (chars : List Char) :
    stripComments .string prevChar (body ++ '"' :: chars) =
      body ++ '"' :: stripComments .code '"' chars := by
  induction h generalizing prevChar with
  | nil =>
    change '"' :: stripComments (if '"' = '"' ∧ prevChar ≠ '\\' then .code else .string) '"' chars =
      _
    rw [if_pos ⟨rfl, hlast⟩]
    rfl
  | @plain c body hquote hescape _ ih =>
    rw [getLast?_cons, Option.getD_some] at hlast
    rw [cons_append, cons_append]
    conv_lhs => unfold stripComments
    rw [if_neg fun h => hquote h.1, ih c hlast]
  | @escape c body _ ih =>
    rw [getLast?_cons, getLast?_cons, Option.getD_some, Option.getD_some] at hlast
    rw [cons_append, cons_append, cons_append, cons_append]
    change '\\' :: stripComments (if '\\' = '"' ∧ prevChar ≠ '\\' then .code else .string) '\\'
      (c :: (body ++ '"' :: chars)) = _
    rw [if_neg fun h => absurd h.1 (by decide)]
    conv_lhs => unfold stripComments
    rw [if_neg fun h => h.2 rfl, ih c hlast]

/-- A string whose last character is a backslash. -/
def EndsInBackslash : Token → Prop
  | .str s => s.body.getLast? = some '\\'
  | _ => False

theorem plain_of_wordChar (h : isWordChar c = true) : c ≠ '"' ∧ c ≠ '/' :=
  ⟨ne_of_test h rfl, ne_of_test h rfl⟩

theorem plain_closeChar (b : Bracket) : b.closeChar ≠ '"' ∧ b.closeChar ≠ '/' := by
  cases b <;> decide

variable {token : Token}

theorem stripComments_token (h : ¬EndsInBackslash token) (prevChar : Char) (chars : List Char) :
    stripComments .code prevChar (token.text ++ chars) =
      token.text ++ stripComments .code prevChar chars := by
  cases token with
  | str s =>
    have hlast : s.body.getLast?.getD '"' ≠ '\\' := by
      cases hlast : s.body.getLast? with
      | none => decide
      | some c => exact fun hc => h (hlast.trans (congrArg some hc))
    have hbody := stripComments_body s.wellFormed '"' hlast chars
    change stripComments .code prevChar ('"' :: (s.body ++ ['"']) ++ chars) = _
    rw [cons_append, append_assoc]
    conv_lhs => unfold stripComments
    rw [if_pos rfl]
    change '"' :: stripComments .string '"' (s.body ++ '"' :: chars) = _
    rw [hbody, stripComments_code '"' prevChar]
    simp [Token.text]
  | word w => exact stripComments_plain (fun c hc => plain_of_wordChar (w.wellFormed c hc)) ..
  | comma | colon => exact stripComments_char (by decide) ..
  | opener b => exact stripComments_char (by cases b <;> decide) ..
  | closer b => exact stripComments_char (plain_closeChar b) ..

variable {dangling : Bool} {tokens : List Token} {text : List Char}

/-- **The first pass** takes the comments out of a text in which no string ends in a backslash. -/
theorem decorated_stripComments (h : Decorated Filler LastFiller dangling tokens text)
    (hstrings : ∀ token ∈ tokens, ¬EndsInBackslash token) (prevChar : Char) :
    Decorated IsGap IsGap dangling tokens (stripComments .code prevChar text) := by
  induction h with
  | done h => exact .done (stripComments_lastFiller h prevChar)
  | @dangling filler filler' h h' =>
    obtain ⟨gap, hgap, hstrip⟩ := stripComments_filler h prevChar (',' :: filler')
    rw [hstrip]
    exact .dangling hgap (stripComments_lastFiller h' ',')
  | @token dangling filler text token tokens h _ ih =>
    obtain ⟨gap, hgap, hstrip⟩ := stripComments_filler h prevChar (token.text ++ text)
    rw [hstrip, stripComments_token (hstrings token mem_cons_self)]
    exact .token hgap (ih fun token htoken => hstrings token (mem_cons_of_mem _ htoken))
  | @trailing dangling filler filler' text b tokens h h' _ ih =>
    obtain ⟨gap, hgap, hstrip⟩ :=
      stripComments_filler h prevChar (',' :: (filler' ++ b.closeChar :: text))
    obtain ⟨gap', hgap', hstrip'⟩ := stripComments_filler h' prevChar (b.closeChar :: text)
    rw [hstrip, stripComments_char (by decide), hstrip', stripComments_char (plain_closeChar b)]
    refine .trailing hgap hgap' (ih fun token htoken => ?_)
    exact hstrings token (mem_cons_of_mem _ htoken)

/-- A text without two slashes has no comments for the first pass, wherever its strings end. -/
theorem stripComments_of_noSlashes (h : ¬['/', '/'] <:+: text) (strip : Strip)
    (hstrip : strip ≠ .comment) (prevChar : Char) : stripComments strip prevChar text = text := by
  induction text generalizing strip prevChar with
  | nil => cases strip <;> rfl
  | cons c text ih =>
    have hrest : ¬['/', '/'] <:+: text := fun hin => h (hin.trans (suffix_cons c text).isInfix)
    cases strip with
    | comment => exact absurd rfl hstrip
    | string =>
      unfold stripComments
      rw [ih hrest _ (by split <;> exact Strip.noConfusion)]
    | code =>
      unfold stripComments
      split
      · rw [ih hrest .string Strip.noConfusion]
      · split
        · rename_i hslash
          obtain ⟨rfl, hhead⟩ := hslash
          cases text with
          | nil => cases hhead
          | cons c text =>
            obtain rfl := Option.some.inj hhead
            exact absurd (List.IsPrefix.isInfix ⟨text, rfl⟩) h
        · rw [ih hrest .code Strip.noConfusion]

theorem isGap_of_noSlashes (hfiller : Filler filler) (h : ¬['/', '/'] <:+: filler) :
    IsGap filler := by
  induction hfiller with
  | nil => exact .nil
  | @blank c text hc _ ih =>
    intro c' hc'
    rcases mem_cons.mp hc' with rfl | hc'
    · exact hc
    · exact ih (fun hin => h (hin.trans (suffix_cons c text).isInfix)) c' hc'
  | comment _ _ _ => exact absurd (List.IsPrefix.isInfix ⟨_, rfl⟩) h

theorem isGap_last_of_noSlashes (hfiller : LastFiller filler) (h : ¬['/', '/'] <:+: filler) :
    IsGap filler := by
  cases hfiller with
  | filler hfiller => exact isGap_of_noSlashes hfiller h
  | @comment text line _ _ => exact absurd ⟨text, line, by simp⟩ h

/-- A decorated text without two slashes has no comments. -/
theorem Decorated.of_noSlashes (h : Decorated Filler LastFiller dangling tokens text)
    (hslashes : ¬['/', '/'] <:+: text) : Decorated IsGap IsGap dangling tokens text := by
  have hpart {part text : List Char} (h : ¬['/', '/'] <:+: text) (hpart : part <:+: text) :
      ¬['/', '/'] <:+: part := fun hin => h (hin.trans hpart)
  induction h with
  | done h => exact .done (isGap_last_of_noSlashes h hslashes)
  | @dangling filler filler' h h' =>
    refine .dangling (isGap_of_noSlashes h (hpart hslashes ?_))
      (isGap_last_of_noSlashes h' (hpart hslashes ?_))
    · exact (prefix_append _ _).isInfix
    · exact ((suffix_cons _ _).trans (suffix_append _ _)).isInfix
  | @token dangling filler text token tokens h _ ih =>
    refine .token (isGap_of_noSlashes h (hpart hslashes ?_)) (ih (hpart hslashes ?_))
    · exact (prefix_append _ _).isInfix
    · exact ((suffix_append _ _).trans (suffix_append _ _)).isInfix
  | @trailing dangling filler filler' text b tokens h h' _ ih =>
    refine .trailing (isGap_of_noSlashes h (hpart hslashes ?_))
      (isGap_of_noSlashes h' (hpart hslashes ?_)) (ih (hpart hslashes ?_))
    · exact (prefix_append _ _).isInfix
    · exact (prefix_append _ _).isInfix.trans
        ((suffix_cons _ _).trans (suffix_append _ _)).isInfix
    · exact ((((suffix_cons _ _).trans (suffix_append _ _)).trans
        (suffix_cons _ _)).trans (suffix_append _ _)).isInfix

/-! ## The second pass -/

theorem byteChars_of_ascii (h : ∀ c ∈ text, c.toNat < 128) : byteChars text = text := by
  unfold byteChars
  induction text with
  | nil => rfl
  | cons c text ih =>
    have hc : c.toNat < 128 := h c mem_cons_self
    have hsize : c.utf8Size = 1 := Char.utf8Size_eq_one_iff.mpr (by
      change c.val.toNat ≤ 127
      have : c.val.toNat < 128 := hc
      omega)
    rw [flatMap_cons, map_append, ih fun c' hc' => h c' (mem_cons_of_mem _ hc'),
      String.utf8EncodeChar_eq_singleton hsize]
    have hbyte : c.val.toUInt8.toNat = c.toNat := by
      rw [UInt32.toNat_toUInt8]
      exact Nat.mod_eq_of_lt (by change c.toNat < 256; omega)
    change Char.ofNat c.val.toUInt8.toNat :: text = c :: text
    rw [hbyte, Char.ofNat_toNat]

theorem dropTrailingCommas_char (h : c ≠ '"' ∧ c ≠ ',') (chars : List Char) :
    dropTrailingCommas .code (c :: chars) = c :: dropTrailingCommas .code chars := by
  conv_lhs => unfold dropTrailingCommas
  rw [if_neg fun hcomma => h.2 hcomma.1]
  unfold Scan.next
  simp only
  rw [if_neg h.1]

theorem dropTrailingCommas_plain (h : ∀ c ∈ plain, c ≠ '"' ∧ c ≠ ',') (chars : List Char) :
    dropTrailingCommas .code (plain ++ chars) = plain ++ dropTrailingCommas .code chars := by
  induction plain with
  | nil => rfl
  | cons c plain ih =>
    rw [cons_append, cons_append, dropTrailingCommas_char (h c mem_cons_self),
      ih fun c' hc' => h c' (mem_cons_of_mem _ hc')]

theorem dropTrailingCommas_body (h : StringBody body) (chars : List Char) :
    dropTrailingCommas .string (body ++ '"' :: chars) =
      body ++ '"' :: dropTrailingCommas .code chars := by
  induction h with
  | nil => rfl
  | @plain c body hquote hescape _ ih =>
    rw [cons_append, cons_append]
    conv_lhs => unfold dropTrailingCommas
    unfold Scan.next
    simp only
    rw [if_neg hescape, if_neg hquote, ih]
  | @escape c body _ ih =>
    change '\\' :: c :: dropTrailingCommas .string (body ++ '"' :: chars) = _
    rw [ih]
    rfl

theorem dropTrailingCommas_token (h : token ≠ .comma) (chars : List Char) :
    dropTrailingCommas .code (token.text ++ chars) =
      token.text ++ dropTrailingCommas .code chars := by
  cases token with
  | str s =>
    have hbody := dropTrailingCommas_body s.wellFormed chars
    change dropTrailingCommas .code ('"' :: (s.body ++ ['"']) ++ chars) = _
    rw [cons_append, append_assoc]
    change '"' :: dropTrailingCommas .string (s.body ++ '"' :: chars) = _
    rw [hbody]
    simp [Token.text]
  | word w =>
    refine dropTrailingCommas_plain (fun c hc => ?_) chars
    exact ⟨ne_of_test (w.wellFormed c hc) rfl, ne_of_test (w.wellFormed c hc) rfl⟩
  | comma => exact absurd rfl h
  | colon => exact dropTrailingCommas_char (by decide) chars
  | opener b | closer b => exact dropTrailingCommas_char (by cases b <;> decide) chars

variable {gap : List Char}

theorem dropWhile_gap (h : IsGap gap) (chars : List Char) :
    (gap ++ chars).dropWhile isAsciiWhitespace = chars.dropWhile isAsciiWhitespace := by
  induction gap with
  | nil => rfl
  | cons c gap ih =>
    have hc : isAsciiWhitespace c = true := by
      have hblank := h c mem_cons_self
      simp only [isBlankChar, Bool.or_eq_true, decide_eq_true_eq] at hblank
      rcases hblank with ((rfl | rfl) | rfl) | rfl <;> rfl
    rw [cons_append, dropWhile_cons_of_pos hc]
    exact ih fun c' hc' => h c' (mem_cons_of_mem _ hc')

theorem closerFollows_closer (h : IsGap gap) (b : Bracket) (chars : List Char) :
    closerFollows (gap ++ b.closeChar :: chars) = true := by
  unfold closerFollows
  rw [dropWhile_gap h]
  cases b <;> rfl

/-- The first character of a token is no blank, and closes a bracket only if the token does. -/
theorem token_text_eq_cons (token : Token) : ∃ c chars, token.text = c :: chars ∧
    isAsciiWhitespace c = false ∧ ((∀ b, token ≠ .closer b) → c ≠ '}' ∧ c ≠ ']') := by
  cases token with
  | str s => exact ⟨'"', _, rfl, rfl, fun _ => by decide⟩
  | word w =>
    obtain ⟨c, chars, hchars⟩ := exists_cons_of_ne_nil w.nonempty
    have hc : isWordChar c = true := w.wellFormed c (hchars ▸ mem_cons_self)
    refine ⟨c, chars, hchars, ?_, fun _ => ⟨ne_of_test hc rfl, ne_of_test hc rfl⟩⟩
    unfold isAsciiWhitespace
    simp [ne_of_test hc (show isWordChar '\t' = false from rfl),
      ne_of_test hc (show isWordChar '\n' = false from rfl),
      ne_of_test hc (show isWordChar '\x0c' = false from rfl),
      ne_of_test hc (show isWordChar '\r' = false from rfl),
      ne_of_test hc (show isWordChar ' ' = false from rfl)]
  | comma => exact ⟨',', _, rfl, rfl, fun _ => by decide⟩
  | colon => exact ⟨':', _, rfl, rfl, fun _ => by decide⟩
  | opener b => exact ⟨b.openChar, _, rfl, by cases b <;> rfl, fun _ => by cases b <;> decide⟩
  | closer b => exact ⟨b.closeChar, _, rfl, by cases b <;> rfl, fun h => absurd rfl (h b)⟩

theorem closerFollows_eq_false (h : Decorated IsGap IsGap dangling tokens text)
    (hhead : ∀ token ∈ tokens.head?, ∀ b, token ≠ .closer b) : closerFollows text = false := by
  unfold closerFollows
  cases h with
  | done hgap =>
    have hdrop := dropWhile_gap hgap []
    rw [append_nil] at hdrop
    rw [hdrop]
    rfl
  | dangling hgap _ =>
    rw [dropWhile_gap hgap]
    rfl
  | @token _ _ _ token _ hgap _ =>
    obtain ⟨c, chars, htext, hblank, hcloser⟩ := token_text_eq_cons token
    obtain ⟨hbrace, hsquare⟩ := hcloser (hhead token rfl)
    rw [dropWhile_gap hgap, htext, cons_append,
      dropWhile_cons_of_neg (ne_true_of_eq_false hblank)]
    simp [hbrace, hsquare]
  | @trailing _ _ _ _ b _ _ _ _ => exact absurd rfl (hhead (.closer b) rfl b)

/-- **The second pass** takes the trailing commas out, except for one that dangles. -/
theorem dropTrailingCommas_decorated (h : Decorated IsGap IsGap dangling tokens text)
    (hno : NoTrailingComma tokens) :
    ∃ front gap, Spaced tokens front ∧ IsGap gap ∧
      dropTrailingCommas .code text = front ++ if dangling then ',' :: gap else [] := by
  have hgap_plain {gap : List Char} (hgap : IsGap gap) (chars : List Char) :
      dropTrailingCommas .code (gap ++ chars) = gap ++ dropTrailingCommas .code chars :=
    dropTrailingCommas_plain
      (fun c hc => ⟨ne_of_test (hgap c hc) rfl, ne_of_test (hgap c hc) rfl⟩) chars
  have hgap_all {gap : List Char} (hgap : IsGap gap) : dropTrailingCommas .code gap = gap := by
    have hkeep := hgap_plain hgap []
    rw [append_nil] at hkeep
    exact hkeep.trans (append_nil gap)
  induction h with
  | @done filler hgap => exact ⟨filler, [], .nil hgap, .nil, (hgap_all hgap).trans (by simp)⟩
  | @dangling filler filler' hgap hgap' =>
    have hfollows : closerFollows filler' = false := by
      have hrest : Decorated IsGap IsGap false [] filler' := .done hgap'
      exact closerFollows_eq_false hrest nofun
    refine ⟨filler, filler', .nil hgap, hgap', ?_⟩
    rw [hgap_plain hgap]
    conv_lhs => unfold dropTrailingCommas
    rw [hfollows, if_neg fun h => Bool.false_ne_true h.2]
    exact congrArg (fun l => filler ++ ',' :: l) (hgap_all hgap')
  | @token _ filler text token tokens hgap hrest ih =>
    obtain ⟨hnext, hno⟩ := isChain_cons.mp hno
    obtain ⟨front, gap, hfront, hlast, hdrop⟩ := ih hno
    have htoken : dropTrailingCommas .code (token.text ++ text) =
        token.text ++ dropTrailingCommas .code text := by
      by_cases hcomma : token = .comma
      · have hfollows : closerFollows text = false := by
          refine closerFollows_eq_false hrest fun next hhead b hb => hnext next hhead ?_
          rw [hcomma, hb]
          exact .intro b
        rw [hcomma]
        change dropTrailingCommas .code (',' :: text) = ',' :: dropTrailingCommas .code text
        conv_lhs => unfold dropTrailingCommas
        rw [hfollows, if_neg fun h => Bool.false_ne_true h.2]
        rfl
      · exact dropTrailingCommas_token hcomma text
    refine ⟨_, gap, .cons hgap hfront, hlast, ?_⟩
    rw [hgap_plain hgap, htoken, hdrop]
    simp only [append_assoc]
  | @trailing _ filler filler' text b tokens hgap hgap' _ ih =>
    obtain ⟨-, hno⟩ := isChain_cons.mp hno
    obtain ⟨front, gap, hfront, hlast, hdrop⟩ := ih hno
    have hcomma : dropTrailingCommas .code (',' :: (filler' ++ b.closeChar :: text)) =
        dropTrailingCommas .code (filler' ++ b.closeChar :: text) := by
      conv_lhs => unfold dropTrailingCommas
      rw [if_pos ⟨rfl, closerFollows_closer hgap' b text⟩]
    have hcloser : dropTrailingCommas .code (b.closeChar :: text) =
        b.closeChar :: dropTrailingCommas .code text :=
      dropTrailingCommas_char (by cases b <;> decide) text
    have hspaced : Spaced (.closer b :: tokens) (filler ++ filler' ++ ([b.closeChar] ++ front)) :=
      .cons (hgap.append hgap') hfront
    refine ⟨_, gap, hspaced, hlast, ?_⟩
    rw [hgap_plain hgap, hcomma, hgap_plain hgap', hcloser, hdrop]
    simp

/-! ## The third pass -/

theorem scanClosers_char (h : c ≠ '"') (stack chars : List Char) :
    scanClosers .code stack (c :: chars) = scanClosers .code (pushCloser stack c) chars := by
  conv_lhs => unfold scanClosers
  unfold Scan.next
  simp only
  rw [if_neg h]

theorem pushCloser_plain (h : c ≠ '{' ∧ c ≠ '[' ∧ c ≠ '}' ∧ c ≠ ']') (stack : List Char) :
    pushCloser stack c = stack := by
  unfold pushCloser
  rw [if_neg h.1, if_neg h.2.1, if_neg fun hc => hc.1.elim h.2.2.1 h.2.2.2]

theorem scanClosers_plain (h : ∀ c ∈ plain, c ≠ '"' ∧ c ≠ '{' ∧ c ≠ '[' ∧ c ≠ '}' ∧ c ≠ ']')
    (stack chars : List Char) :
    scanClosers .code stack (plain ++ chars) = scanClosers .code stack chars := by
  induction plain with
  | nil => rfl
  | cons c plain ih =>
    obtain ⟨hquote, hbracket⟩ := h c mem_cons_self
    rw [cons_append, scanClosers_char hquote, pushCloser_plain hbracket]
    exact ih fun c' hc' => h c' (mem_cons_of_mem _ hc')

theorem scanClosers_body (h : StringBody body) (stack chars : List Char) :
    scanClosers .string stack (body ++ '"' :: chars) = scanClosers .code stack chars := by
  induction h with
  | nil => rfl
  | @plain c body hquote hescape _ ih =>
    rw [cons_append]
    conv_lhs => unfold scanClosers
    unfold Scan.next
    simp only
    rw [if_neg hescape, if_neg hquote, ih]
  | @escape c body _ ih => exact ih

theorem scanClosers_spaced (h : Spaced tokens text) {stack stack' : List Bracket}
    (hnest : nest tokens stack = some stack') :
    scanClosers .code (stack.map Bracket.closeChar) text =
      (.code, stack'.map Bracket.closeChar) := by
  have hgap_plain {gap : List Char} (hgap : IsGap gap) (stack chars : List Char) :
      scanClosers .code stack (gap ++ chars) = scanClosers .code stack chars :=
    scanClosers_plain (fun c hc => ⟨ne_of_test (hgap c hc) rfl, ne_of_test (hgap c hc) rfl,
      ne_of_test (hgap c hc) rfl, ne_of_test (hgap c hc) rfl, ne_of_test (hgap c hc) rfl⟩) stack
      chars
  induction h generalizing stack with
  | @nil gap hgap =>
    have hkeep := hgap_plain hgap (stack.map Bracket.closeChar) []
    rw [append_nil] at hkeep
    rw [hkeep, Option.some.inj hnest]
    rfl
  | @cons gap text token tokens hgap _ ih =>
    rw [hgap_plain hgap]
    cases token with
    | str s =>
      rw [← ih hnest]
      change scanClosers .code _ ('"' :: (s.body ++ ['"']) ++ text) = _
      rw [cons_append, append_assoc]
      exact scanClosers_body s.wellFormed _ text
    | word w =>
      rw [← ih hnest]
      refine scanClosers_plain (fun c hc => ?_) _ _
      have hword := w.wellFormed c hc
      exact ⟨ne_of_test hword rfl, ne_of_test hword rfl, ne_of_test hword rfl,
        ne_of_test hword rfl, ne_of_test hword rfl⟩
    | comma | colon => exact ih hnest
    | opener b =>
      rw [← ih hnest]
      cases b <;> rfl
    | closer b =>
      cases stack with
      | nil => cases hnest
      | cons b' rest =>
        change (if b = b' then nest tokens rest else none) = some stack' at hnest
        split at hnest
        · rename_i heq
          subst heq
          rw [← ih hnest]
          cases b <;> rfl
        · cases hnest

/-- **The third pass** finds the closing brackets that are gone. -/
theorem missingClosers_eq {closers : List Bracket} (h : Spaced tokens text)
    (hnest : nest (tokens ++ closers.map .closer) [] = some []) :
    missingClosers text = closers.map Bracket.closeChar := by
  rw [nest_append] at hnest
  obtain ⟨stack, hstack, hclosers⟩ := Option.bind_eq_some_iff.mp hnest
  obtain rfl := nest_closers hclosers
  have hscan := scanClosers_spaced h hstack
  unfold missingClosers
  rw [map_nil] at hscan
  rw [hscan]
  rfl

/-! ## The repair -/

/-- A token without characters that take more than one byte. -/
def IsAscii : Token → Prop
  | .str s => ∀ c ∈ s.body, c.toNat < 128
  | _ => True

theorem ascii_of_blank (h : isBlankChar c = true) : c.toNat < 128 := by
  simp only [isBlankChar, Bool.or_eq_true, decide_eq_true_eq] at h
  rcases h with ((rfl | rfl) | rfl) | rfl <;> decide

theorem ascii_of_wordChar (h : isWordChar c = true) : c.toNat < 128 := by
  simp only [isWordChar, Char.isAlphanum, Char.isAlpha, Char.isUpper, Char.isLower, Char.isDigit,
    Bool.or_eq_true, Bool.and_eq_true, decide_eq_true_eq, ge_iff_le, UInt32.le_iff_toNat_le] at h
  rcases h with ((h | rfl) | rfl) | rfl
  · change c.val.toNat < 128
    have hz : 'z'.val.toNat = 122 := rfl
    have hZ : 'Z'.val.toNat = 90 := rfl
    have h9 : '9'.val.toNat = 57 := rfl
    omega
  all_goals decide

theorem ascii_token (h : IsAscii token) : ∀ c ∈ token.text, c.toNat < 128 := by
  cases token with
  | str s =>
    intro c hc
    rcases mem_cons.mp hc with rfl | hc
    · decide
    · rcases mem_append.mp hc with hc | hc
      · exact h c hc
      · rw [mem_singleton.mp hc]
        decide
  | word w => exact fun c hc => ascii_of_wordChar (w.wellFormed c hc)
  | comma | colon => exact forall_mem_singleton.mpr (by decide)
  | opener b | closer b => exact forall_mem_singleton.mpr (by cases b <;> decide)

theorem ascii_decorated (h : Decorated IsGap IsGap dangling tokens text)
    (hascii : ∀ token ∈ tokens, IsAscii token) : ∀ c ∈ text, c.toNat < 128 := by
  have hgap_ascii {gap : List Char} (hgap : IsGap gap) : ∀ c ∈ gap, c.toNat < 128 := fun c hc =>
    ascii_of_blank (hgap c hc)
  induction h with
  | done hgap => exact hgap_ascii hgap
  | dangling hgap hgap' =>
    rw [forall_mem_append]
    refine ⟨hgap_ascii hgap, forall_mem_cons.mpr ⟨by decide, hgap_ascii hgap'⟩⟩
  | token hgap _ ih =>
    obtain ⟨htoken, hascii⟩ := forall_mem_cons.mp hascii
    rw [forall_mem_append, forall_mem_append]
    exact ⟨hgap_ascii hgap, ascii_token htoken, ih hascii⟩
  | @trailing _ _ _ _ b _ hgap hgap' _ ih =>
    obtain ⟨htoken, hascii⟩ := forall_mem_cons.mp hascii
    rw [forall_mem_append, forall_mem_cons, forall_mem_append,
      forall_mem_cons]
    exact ⟨hgap_ascii hgap, by decide, hgap_ascii hgap', by cases b <;> decide, ih hascii⟩

theorem filler_of_gap (h : IsGap gap) : Filler gap := by
  induction gap with
  | nil => exact .nil
  | cons c gap ih =>
    exact .blank (h c mem_cons_self) (ih fun c' hc' => h c' (mem_cons_of_mem _ hc'))

variable {kept : List Token} {front : List Char}

/-- A text with blanks only, and what follows it. -/
theorem Decorated.of_spaced (h : Spaced kept front)
    (hrest : ∀ gap, IsGap gap → Decorated Filler LastFiller dangling tokens (gap ++ text)) :
    Decorated Filler LastFiller dangling (kept ++ tokens) (front ++ text) := by
  induction h with
  | nil hgap => exact hrest _ hgap
  | cons hgap _ ih =>
    rw [append_assoc, append_assoc]
    exact .token (filler_of_gap hgap) ih

theorem decorated_of_spaced (h : Spaced kept front) :
    Decorated Filler LastFiller false kept front := by
  have hall : Decorated Filler LastFiller false (kept ++ []) (front ++ []) :=
    .of_spaced h fun gap hgap => .done (.filler (filler_of_gap (hgap.append .nil)))
  rwa [append_nil, append_nil] at hall

/-- A text of some tokens, without some of the last closing brackets, and with comments and trailing
commas; `kept` are the tokens that are left. -/
def Damaged (tokens kept : List Token) (dangling : Bool) (text : List Char) : Prop :=
  ∃ closers : List Bracket, tokens = kept ++ closers.map .closer ∧
    (dangling = true → closers ≠ []) ∧ Decorated Filler LastFiller dangling kept text

/-- What reads the texts of some tokens as a value, and no text that is damaged. -/
structure Reads (fromStr : FromStr) (tokens : List Token) (value : Json) : Prop where
  spaced : ∀ text, Spaced tokens text → fromStr text = some value
  strict : ∀ kept dangling text, Damaged tokens kept dangling text → ¬Spaced tokens text →
    fromStr text = none

theorem not_spaced_of_missing (hnest : nest tokens [] = some []) (h : missingClosers text ≠ []) :
    ¬Spaced tokens text := by
  intro hall
  have hnone : missingClosers text = ([] : List Bracket).map Bracket.closeChar :=
    missingClosers_eq hall (by rwa [map_nil, append_nil])
  exact h hnone

theorem not_spaced_of_trailing {closers : List Token} {b : Bracket} (h : Spaced kept front) :
    ¬Spaced (kept ++ .closer b :: closers) (front ++ ',' :: (gap ++ text)) := by
  intro hall
  obtain ⟨gap', hgap', hrest⟩ := h.cancel hall
  generalize htext : gap' ++ ',' :: (gap ++ text) = whole at hrest
  cases hrest with
  | @cons _ rest _ _ hgap'' _ =>
    have hdrop := congrArg (dropWhile isBlankChar) htext
    have hcomma := dropWhile_append_token hgap' .comma (gap ++ text)
    rw [dropWhile_append_token hgap'' (.closer b) rest] at hdrop
    have hhead := head_eq_of_cons_eq (hcomma.symm.trans hdrop)
    cases b <;> exact absurd hhead (by decide)

/-- **The repair recovers the value** of a damaged text that is read as it is.  If no string has a
character of several bytes, and either no string ends in a backslash or the text has no two
slashes, then it recovers the value of any other if and only if no trailing comma lost the bracket
it stood before. -/
theorem repairJson_damaged_iff {fromStr : FromStr} {tokens kept : List Token} {value : Json}
    {dangling : Bool} {text : List Char} (hjson : JsonTokens .value tokens)
    (hreads : Reads fromStr tokens value) (h : Damaged tokens kept dangling text)
    (hkept : Spaced tokens text ∨
      (∀ token ∈ kept, IsAscii token) ∧
        ((∀ token ∈ kept, ¬EndsInBackslash token) ∨ ¬['/', '/'] <:+: text)) :
    repairJson fromStr text = some value ↔ Spaced tokens text ∨ dangling = false := by
  unfold repairJson
  by_cases hspaced : Spaced tokens text
  · rw [hreads.spaced text hspaced]
    exact iff_of_true rfl (.inl hspaced)
  rw [hreads.strict kept dangling text h hspaced, or_iff_right hspaced]
  obtain ⟨closers, rfl, hdangling, hdecorated⟩ := h
  obtain ⟨hascii, hstrings⟩ := hkept.resolve_left hspaced
  have hno : NoTrailingComma kept := (isChain_append.mp hjson.tidy.inside).1
  have hnest := hjson.nest_eq []
  have hstrip : Decorated IsGap IsGap dangling kept (stripComments .code '\x00' text) := by
    rcases hstrings with hstrings | hslashes
    · exact decorated_stripComments hdecorated hstrings _
    · rw [stripComments_of_noSlashes hslashes .code Strip.noConfusion]
      exact hdecorated.of_noSlashes hslashes
  obtain ⟨front, gap, hfront, hgap, hcleaned⟩ := dropTrailingCommas_decorated hstrip hno
  simp only [byteChars_of_ascii (ascii_decorated hstrip hascii), hcleaned]
  cases dangling with
  | false =>
    rw [if_neg Bool.false_ne_true, append_nil]
    refine iff_of_true ?_ rfl
    by_cases hclosers : closers = []
    · subst hclosers
      rw [hreads.spaced front (by simpa using hfront)]
    · have hmissing := missingClosers_eq hfront hnest
      have hne : missingClosers front ≠ [] := by
        rw [hmissing]
        exact fun hnil => hclosers (map_eq_nil_iff.mp hnil)
      rw [hreads.strict kept false front ⟨closers, rfl, nofun, decorated_of_spaced hfront⟩
        (not_spaced_of_missing hnest hne), hmissing]
      exact hreads.spaced _ (hfront.append (spaced_closers closers))
  | true =>
    rw [if_pos rfl]
    refine iff_of_false ?_ nofun
    obtain ⟨b, closers, rfl⟩ := exists_cons_of_ne_nil (hdangling rfl)
    have hcomma : Spaced (kept ++ [.comma]) (front ++ ',' :: gap) :=
      hfront.append (show Spaced _ ([] ++ ([','] ++ gap)) from .cons .nil (.nil hgap))
    have hopen : nest ((kept ++ [.comma]) ++ (b :: closers).map .closer) [] = some [] := by
      rw [nest_append] at hnest
      rw [append_assoc, nest_append]
      exact hnest
    have hmissing := missingClosers_eq hcomma hopen
    have hdangles : Decorated Filler LastFiller true kept (front ++ ',' :: gap) := by
      rw [← append_nil kept]
      exact .of_spaced hfront fun gap' hgap' =>
        .dangling (filler_of_gap hgap') (.filler (filler_of_gap hgap))
    have hclosed : Decorated Filler LastFiller false (kept ++ (b :: closers).map .closer)
        (front ++ ',' :: (gap ++ b.closeChar :: closers.map Bracket.closeChar)) :=
      .of_spaced hfront fun gap' hgap' => .trailing (filler_of_gap hgap') (filler_of_gap hgap)
        (decorated_of_spaced (spaced_closers closers))
    have hnone := hreads.strict kept true _ ⟨b :: closers, rfl, fun _ => cons_ne_nil _ _,
      hdangles⟩ (not_spaced_of_missing hnest (hmissing ▸ cons_ne_nil _ _))
    have hnone' := hreads.strict _ false _ ⟨[], (append_nil _).symm, nofun, hclosed⟩
      (not_spaced_of_trailing hfront)
    rw [hnone, hmissing]
    simp only [append_assoc, cons_append, map_cons]
    rw [hnone']
    exact nofun

/-! ## Two texts -/

/-- What reads the texts of some tokens as a value, and those of some other tokens as another. -/
def readsTwo (tokens tokens' : List Token) (value value' : Json) : FromStr := fun text =>
  if Spaced tokens text then some value else if Spaced tokens' text then some value' else none

theorem reads_readsTwo {tokens' : List Token} (value value' : Json)
    (h : ∀ kept dangling text, Damaged tokens kept dangling text → ¬Spaced tokens text →
      ¬Spaced tokens' text) : Reads (readsTwo tokens tokens' value value') tokens value where
  spaced text hspaced := if_pos hspaced
  strict kept dangling text hdamaged hspaced := by
    unfold readsTwo
    rw [if_neg hspaced, if_neg (h kept dangling text hdamaged hspaced)]

def wordOne : WordToken where
  chars := ['1']
  nonempty := cons_ne_nil _ _
  wellFormed := forall_mem_singleton.mpr (by decide)

/-- `[1]` -/
def oneTokens : List Token := [.opener .square, .word wordOne, .closer .square]

theorem repairJson_damaged_one : ∃ fromStr value,
    Reads fromStr oneTokens value ∧
    Damaged oneTokens [.opener .square, .word wordOne] false "[1 // one".toList ∧
    repairJson fromStr "[1 // one".toList = some value := by
  have hjson : JsonTokens .value oneTokens := .brackets .square (.element (.word wordOne))
  have hreads : Reads (readsTwo oneTokens oneTokens (.arr [.num (.posInt 1)]) .null) oneTokens
      (.arr [.num (.posInt 1)]) := reads_readsTwo _ _ fun _ _ _ _ h => h
  have hlast : LastFiller ([' '] ++ '/' :: '/' :: " one".toList) :=
    .comment (.blank rfl .nil) (by decide)
  have hdamaged : Damaged oneTokens [.opener .square, .word wordOne] false
      "[1 // one".toList :=
    ⟨[.square], rfl, nofun, show Decorated Filler LastFiller false _ ([] ++ (['['] ++ ([] ++
      (['1'] ++ ([' '] ++ '/' :: '/' :: " one".toList))))) from .token .nil (.token .nil
        (.done hlast))⟩
  refine ⟨_, _, hreads, hdamaged, (repairJson_damaged_iff hjson hreads hdamaged (.inr ⟨?_, ?_⟩)).mpr
    (.inr rfl)⟩
  · exact forall_mem_cons.mpr ⟨trivial, forall_mem_singleton.mpr trivial⟩
  · exact .inl (forall_mem_cons.mpr ⟨id, forall_mem_singleton.mpr id⟩)

def accent : StringToken where
  body := ['é']
  wellFormed := .plain (by decide) (by decide) .nil

/-- The bytes of the accent, each as a character. -/
def accentBytes : StringToken where
  body := ['Ã', '©']
  wellFormed := .plain (by decide) (by decide) (.plain (by decide) (by decide) .nil)

def arrayOf (s : StringToken) : List Token := [.opener .square, .str s, .closer .square]

theorem mem_of_decorated (h : Decorated Filler LastFiller dangling tokens text)
    (htoken : token ∈ tokens) (hc : c ∈ token.text) : c ∈ text := by
  induction h with
  | done _ | dangling _ _ => cases htoken
  | token _ _ ih =>
    rcases mem_cons.mp htoken with rfl | htoken
    · exact mem_append_right _ (mem_append_left _ hc)
    · exact mem_append_right _ (mem_append_right _ (ih htoken))
  | trailing _ _ _ ih =>
    refine mem_append_right _ (mem_cons_of_mem _ (mem_append_right _ ?_))
    rcases mem_cons.mp htoken with rfl | htoken
    · rw [mem_singleton.mp hc]
      exact mem_cons_self
    · exact mem_cons_of_mem _ (ih htoken)

theorem mem_of_spaced (h : Spaced tokens text) (hc : c ∈ text) :
    isBlankChar c = true ∨ ∃ token ∈ tokens, c ∈ token.text := by
  induction h with
  | nil hgap => exact .inl (hgap c hc)
  | @cons _ _ token _ hgap _ ih =>
    rcases mem_append.mp hc with hc | hc
    · exact .inl (hgap c hc)
    · rcases mem_append.mp hc with hc | hc
      · exact .inr ⟨token, mem_cons_self, hc⟩
      · exact (ih hc).imp_right fun ⟨token', hmem, hc⟩ => ⟨token', mem_cons_of_mem _ hmem, hc⟩

theorem repairJson_accent : ∃ fromStr,
    JsonTokens .value (arrayOf accent) ∧ Reads fromStr (arrayOf accent) (.arr [.str "é"]) ∧
    Damaged (arrayOf accent) (arrayOf accent) false "[\"é\",]".toList ∧
    repairJson fromStr "[\"é\",]".toList = some (.arr [.str "Ã©"]) := by
  refine ⟨readsTwo (arrayOf accent) (arrayOf accentBytes) (.arr [.str "é"]) (.arr [.str "Ã©"]),
    .brackets .square (.element (.str accent)), reads_readsTwo _ _ ?_, ?_, ?_⟩
  · rintro kept dangling text ⟨closers, htokens, -, hdecorated⟩ - hspaced
    have hmem : Token.str accent ∈ kept := by
      have hall : Token.str accent ∈ kept ++ closers.map .closer := by
        rw [← htokens]
        exact mem_cons_of_mem _ mem_cons_self
      refine (mem_append.mp hall).resolve_right fun hcloser => ?_
      obtain ⟨b, -, hb⟩ := mem_map.mp hcloser
      cases hb
    have hc : 'é' ∈ text := mem_of_decorated hdecorated hmem (by decide)
    rcases mem_of_spaced hspaced hc with hblank | ⟨token, htoken, hc⟩
    · exact absurd hblank (by decide)
    · have hnone : ∀ token ∈ arrayOf accentBytes, 'é' ∉ token.text :=
        forall_mem_cons.mpr ⟨by decide, forall_mem_cons.mpr ⟨by decide,
          forall_mem_singleton.mpr (by decide)⟩⟩
      exact hnone token htoken hc
  · exact ⟨[], rfl, nofun, show Decorated Filler LastFiller false _ ([] ++ (['['] ++ ([] ++
      (['"', 'é', '"'] ++ ([] ++ ',' :: ([] ++ ']' :: [])))))) from
        .token .nil (.token .nil (.trailing .nil .nil (.done (.filler .nil))))⟩
  · rfl

end Chelix.Agents
