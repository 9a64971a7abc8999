import Chelix.Agents.ToolResult
import Chelix.Library.Delimited

/-!
# What the scan for data URIs reads

The text that the loop over the tags goes through, as the pieces of its turns: some plain text,
and the data URI behind it if the turn takes one.
-/

namespace Chelix.Agents

open Option

open Library List

/-- The parts of a data URI. -/
structure DataUri where
  mime : List Char
  payload : List Char

namespace DataUri

def text (u : DataUri) : List Char := base64Tag ++ (u.mime ++ (base64Marker ++ u.payload))

def placeholder (u : DataUri) : List Char := blobPlaceholder u.mime (utf8Len u.text)

/-- The text after a tag goes on as a data URI: the payload is behind the first marker, long
enough, and goes as far as there are base64 bytes. -/
structure Behind (u : DataUri) (afterTag rest : List Char) : Prop where
  marker : FirstMatch base64Marker afterTag u.mime (u.payload ++ rest)
  bytes : ∀ c ∈ u.payload, isBase64Byte c = true
  long : blobMinLen ≤ u.payload.length
  whole : ∀ c ∈ rest.head?, isBase64Byte c = false

end DataUri

/-- One turn of the loop. -/
structure Piece where
  plain : List Char
  uri : Option DataUri

namespace Piece

def source (p : Piece) : List Char := p.plain ++ (p.uri.map DataUri.text).getD []

def rendered (p : Piece) : List Char := p.plain ++ (p.uri.map DataUri.placeholder).getD []

end Piece

/-- The turns of the loop over a text. -/
inductive Base64Scan : List Char → List Piece → Prop
  | done {text : List Char} : (∀ j, ¬OccursAt base64Tag text j) →
      Base64Scan text [⟨text, none⟩]
  | skip {text front afterTag : List Char} {pieces : List Piece} :
      FirstMatch base64Tag text front afterTag → (∀ u rest, ¬DataUri.Behind u afterTag rest) →
      Base64Scan afterTag pieces → Base64Scan text (⟨front ++ base64Tag, none⟩ :: pieces)
  | take {text front afterTag rest : List Char} {u : DataUri} {pieces : List Piece} :
      FirstMatch base64Tag text front afterTag → u.Behind afterTag rest →
      Base64Scan rest pieces → Base64Scan text (⟨front, some u⟩ :: pieces)

theorem base64Tag_ne_nil : base64Tag ≠ [] := by decide

theorem base64Marker_ne_nil : base64Marker ≠ [] := by decide

/-! ## Base64 bytes -/

theorem utf8Size_of_isBase64Byte {c : Char} (h : isBase64Byte c = true) : c.utf8Size = 1 := by
  have hle : c.val ≤ 0x7f := by
    unfold isBase64Byte Char.isAlphanum Char.isAlpha Char.isUpper Char.isLower Char.isDigit at h
    simp only [Bool.or_eq_true, Bool.and_eq_true, decide_eq_true_eq] at h
    rw [UInt32.le_iff_toNat_le]
    rcases h with ((((h | h) | h) | rfl) | rfl) | rfl <;>
      simp_all [UInt32.le_iff_toNat_le] <;> omega
  unfold Char.utf8Size
  exact if_pos hle

theorem utf8Len_of_isBase64Byte {text : List Char} (h : ∀ c ∈ text, isBase64Byte c = true) :
    utf8Len text = text.length := by
  induction text with
  | nil => rfl
  | cons c text ih =>
    rw [utf8Len_cons, length_cons, utf8Size_of_isBase64Byte (h c mem_cons_self),
      ih fun c' hc' => h c' (mem_cons_of_mem c hc')]
    omega

/-! ## One turn -/

namespace DataUri

variable {u : DataUri} {afterTag rest : List Char}

theorem utf8Len_text (u : DataUri) :
    utf8Len u.text =
      utf8Len base64Tag + (utf8Len u.mime + utf8Len base64Marker + utf8Len u.payload) := by
  unfold text
  rw [utf8Len_append, utf8Len_append, utf8Len_append]
  omega

theorem Behind.afterTag_eq (h : u.Behind afterTag rest) :
    afterTag = u.mime ++ (base64Marker ++ (u.payload ++ rest)) := h.marker.eq

theorem Behind.text_append (h : u.Behind afterTag rest) :
    base64Tag ++ afterTag = u.text ++ rest := by
  rw [h.afterTag_eq]
  unfold text
  simp only [append_assoc]

theorem Behind.dataBlob_eq (h : u.Behind afterTag rest) :
    dataBlob afterTag = some (some (u.placeholder, utf8Len u.text)) := by
  have hcut : splitAtByte (utf8Len u.mime) afterTag =
      some (u.mime, base64Marker ++ (u.payload ++ rest)) := by
    rw [h.afterTag_eq]
    exact splitAtByte_utf8Len _ _
  have hpayload : splitAtByte (utf8Len u.mime + utf8Len base64Marker) afterTag =
      some (u.mime ++ base64Marker, u.payload ++ rest) := by
    rw [h.afterTag_eq, ← utf8Len_append, ← append_assoc]
    exact splitAtByte_utf8Len _ _
  have hlen : ((u.payload ++ rest).takeWhile isBase64Byte).length = utf8Len u.payload := by
    rw [takeWhile_append_of_head? h.bytes h.whole, utf8Len_of_isBase64Byte h.bytes]
  have hlong : blobMinLen ≤ utf8Len u.payload := by
    rw [utf8Len_of_isBase64Byte h.bytes]
    exact h.long
  have htotal : utf8Len base64Tag + (utf8Len u.mime + utf8Len base64Marker) + utf8Len u.payload =
      utf8Len u.text := by
    rw [utf8Len_text]
    omega
  unfold dataBlob
  rw [h.marker.findByte_eq base64Marker_ne_nil]
  simp only [hcut, hpayload, bind_eq_bind, bind_some, hlen, if_pos hlong, htotal]
  rfl

theorem dataBlob_eq_none (h : ∀ u rest, ¬DataUri.Behind u afterTag rest) :
    dataBlob afterTag = some none := by
  unfold dataBlob
  rcases @exists_firstMatch _ afterTag base64Marker_ne_nil with hnone | ⟨mime, back, hfirst⟩
  · rw [findByte_eq_none base64Marker_ne_nil hnone]
  · rw [hfirst.findByte_eq base64Marker_ne_nil]
    have hcut : splitAtByte (utf8Len mime) afterTag = some (mime, base64Marker ++ back) := by
      rw [hfirst.eq]
      exact splitAtByte_utf8Len _ _
    have hpayload : splitAtByte (utf8Len mime + utf8Len base64Marker) afterTag =
        some (mime ++ base64Marker, back) := by
      rw [hfirst.eq, ← utf8Len_append, ← append_assoc]
      exact splitAtByte_utf8Len _ _
    simp only [hcut, hpayload, bind_eq_bind, bind_some]
    refine if_neg fun hlong => ?_
    refine h ⟨mime, back.takeWhile isBase64Byte⟩ (back.dropWhile isBase64Byte) ⟨?_, ?_, hlong, ?_⟩
    · rw [takeWhile_append_dropWhile]
      exact hfirst
    · intro c hc
      exact all_eq_true.mp all_takeWhile c hc
    · intro c hc
      have hhead := List.head?_dropWhile_not isBase64Byte back
      rw [mem_def.mp hc] at hhead
      exact hhead

end DataUri

theorem splitAtByte_firstMatch {needle text front back : List Char}
    (h : FirstMatch needle text front back) :
    splitAtByte (utf8Len front) text = some (front, needle ++ back) ∧
      splitAtByte (utf8Len front + utf8Len needle) text = some (front ++ needle, back) := by
  rw [h.eq]
  refine ⟨splitAtByte_utf8Len _ _, ?_⟩
  rw [← utf8Len_append, ← append_assoc]
  exact splitAtByte_utf8Len _ _

/-! ## The loop -/

namespace Base64Scan

variable {text : List Char} {pieces : List Piece}

theorem stripBase64From_eq (h : Base64Scan text pieces) {fuel : ℕ} (hfuel : text.length < fuel) :
    stripBase64From fuel text = some (pieces.flatMap Piece.rendered) := by
  induction h generalizing fuel with
  | done hnone =>
    obtain ⟨fuel, rfl⟩ := Nat.exists_eq_add_of_lt hfuel
    unfold stripBase64From
    rw [findByte_eq_none base64Tag_ne_nil hnone]
    simp [Piece.rendered]
  | @skip text front afterTag pieces htag hno hrest ih =>
    obtain ⟨fuel, rfl⟩ : ∃ n, fuel = n + 1 := ⟨fuel - 1, by omega⟩
    obtain ⟨hcut, hcut'⟩ := splitAtByte_firstMatch htag
    have hlen := congrArg List.length htag.eq
    have hpos := length_pos_iff.mpr base64Tag_ne_nil
    rw [length_append, length_append] at hlen
    have hloop := @ih fuel (by omega)
    unfold stripBase64From
    rw [htag.findByte_eq base64Tag_ne_nil]
    simp only [hcut, hcut', DataUri.dataBlob_eq_none hno, hloop, bind_eq_bind,
      bind_some]
    rw [flatMap_cons]
    simp [Piece.rendered]
  | @take text front afterTag rest u pieces htag hu hrest ih =>
    obtain ⟨fuel, rfl⟩ : ∃ n, fuel = n + 1 := ⟨fuel - 1, by omega⟩
    obtain ⟨hcut, hcut'⟩ := splitAtByte_firstMatch htag
    have hnext : splitAtByte (utf8Len front + utf8Len u.text) text =
        some (front ++ u.text, rest) := by
      rw [htag.eq, hu.text_append, ← utf8Len_append, ← append_assoc]
      exact splitAtByte_utf8Len _ _
    have hlen := congrArg List.length htag.eq
    have hpos := length_pos_iff.mpr base64Tag_ne_nil
    rw [hu.text_append] at hlen
    unfold DataUri.text at hlen
    simp only [length_append] at hlen
    have hloop := @ih fuel (by omega)
    unfold stripBase64From
    rw [htag.findByte_eq base64Tag_ne_nil]
    simp only [hcut, hcut', hu.dataBlob_eq, hnext, hloop, bind_eq_bind, bind_some]
    rw [flatMap_cons]
    simp [Piece.rendered]

/-- **The loop** replaces the data URIs of its turns and keeps the rest. -/
theorem stripBase64Blobs_eq (h : Base64Scan text pieces) :
    stripBase64Blobs text = some (pieces.flatMap Piece.rendered) :=
  h.stripBase64From_eq (Nat.lt_succ_self _)

end Base64Scan

theorem exists_base64Scan (text : List Char) : ∃ pieces, Base64Scan text pieces := by
  induction hn : text.length using Nat.strong_induction_on generalizing text with
  | _ n ih =>
    rcases @exists_firstMatch _ text base64Tag_ne_nil with hnone | ⟨front, afterTag, htag⟩
    · exact ⟨_, .done hnone⟩
    · have hpos := length_pos_iff.mpr base64Tag_ne_nil
      have hlen := congrArg List.length htag.eq
      rw [length_append, length_append] at hlen
      by_cases hu : ∃ u rest, DataUri.Behind u afterTag rest
      · obtain ⟨u, rest, hu⟩ := hu
        have hlen' := congrArg List.length hu.afterTag_eq
        simp only [length_append] at hlen'
        obtain ⟨pieces, hpieces⟩ := ih rest.length (by omega) rest rfl
        exact ⟨_, .take htag hu hpieces⟩
      · have hno : ∀ u rest, ¬DataUri.Behind u afterTag rest := fun u rest h => hu ⟨u, rest, h⟩
        obtain ⟨pieces, hpieces⟩ := ih afterTag.length (by omega) afterTag rfl
        exact ⟨_, .skip htag hno hpieces⟩

theorem sanitizeToolResult_eq (text : List Char) :
    ∃ result, sanitizeToolResult text = some result := by
  obtain ⟨pieces, hpieces⟩ := exists_base64Scan text
  unfold sanitizeToolResult
  rw [hpieces.stripBase64Blobs_eq]
  exact ⟨_, rfl⟩

end Chelix.Agents
