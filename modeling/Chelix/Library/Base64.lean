import Mathlib.Data.List.Basic

/-!
# Base64

The standard alphabet with padding.  Three bytes are four digits of six bits each, and a rest of
one or two bytes is padded; a text whose padding or last bits are not those of a rest is refused.
-/

namespace Chelix.Library.Base64

def alphabet : List Char :=
  "ABCDEFGHIJKLMNOPQRSTUVWXYZabcdefghijklmnopqrstuvwxyz0123456789+/".toList

def digit (v : ℕ) : Char := alphabet.getD v 'A'

def value? (c : Char) : Option ℕ := alphabet.idxOf? c

def encode : List UInt8 → List Char
  | [] => []
  | [a] => [digit (a.toNat / 4), digit (a.toNat % 4 * 16), '=', '=']
  | [a, b] =>
    [digit (a.toNat / 4), digit (a.toNat % 4 * 16 + b.toNat / 16), digit (b.toNat % 16 * 4), '=']
  | a :: b :: c :: rest =>
    digit (a.toNat / 4) :: digit (a.toNat % 4 * 16 + b.toNat / 16) ::
      digit (b.toNat % 16 * 4 + c.toNat / 64) :: digit (c.toNat % 64) :: encode rest

def decodeOne (w x : Char) : Option (List UInt8) := do
  let w ← value? w
  let x ← value? x
  guard (x % 16 = 0)
  return [UInt8.ofNat (w * 4 + x / 16)]

def decodeTwo (w x y : Char) : Option (List UInt8) := do
  let w ← value? w
  let x ← value? x
  let y ← value? y
  guard (y % 4 = 0)
  return [UInt8.ofNat (w * 4 + x / 16), UInt8.ofNat (x % 16 * 16 + y / 4)]

/-- Three bytes of four digits. -/
def decodeThree (w x y z : Char) : Option (List UInt8) := do
  let w ← value? w
  let x ← value? x
  let y ← value? y
  let z ← value? z
  return [UInt8.ofNat (w * 4 + x / 16), UInt8.ofNat (x % 16 * 16 + y / 4),
    UInt8.ofNat (y % 4 * 64 + z)]

def decode : List Char → Option (List UInt8)
  | [] => some []
  | [w, x, '=', '='] => decodeOne w x
  | [w, x, y, '='] => decodeTwo w x y
  | w :: x :: y :: z :: rest => do
    let block ← decodeThree w x y z
    let bytes ← decode rest
    return block ++ bytes
  | _ => none

/-! ## The round trip -/

theorem value?_digit {v : ℕ} (h : v < 64) : value? (digit v) = some v := by
  have hall : ∀ v : Fin 64, value? (digit v) = some (v : ℕ) := by decide +kernel
  exact hall ⟨v, h⟩

theorem digit_ne_pad {v : ℕ} (h : v < 64) : digit v ≠ '=' := by
  intro heq
  have hvalue := value?_digit h
  rw [heq] at hvalue
  have hpad : value? '=' = none := by decide +kernel
  rw [hpad] at hvalue
  cases hvalue

theorem byte_eq {a : UInt8} {n : ℕ} (h : n = a.toNat) : UInt8.ofNat n = a := by
  rw [h]
  exact UInt8.ofNat_toNat

theorem decodeOne_digits (a : UInt8) :
    decodeOne (digit (a.toNat / 4)) (digit (a.toNat % 4 * 16)) = some [a] := by
  have ha := a.toNat_lt
  unfold decodeOne
  rw [value?_digit (by omega), value?_digit (by omega)]
  show (guard (a.toNat % 4 * 16 % 16 = 0) >>= fun _ => some [_]) = _
  rw [guard, if_pos (by omega)]
  show some [_] = _
  rw [byte_eq (a := a) (by omega)]

theorem decodeTwo_digits (a b : UInt8) :
    decodeTwo (digit (a.toNat / 4)) (digit (a.toNat % 4 * 16 + b.toNat / 16))
      (digit (b.toNat % 16 * 4)) = some [a, b] := by
  have ha := a.toNat_lt
  have hb := b.toNat_lt
  unfold decodeTwo
  rw [value?_digit (by omega), value?_digit (by omega), value?_digit (by omega)]
  show (guard (b.toNat % 16 * 4 % 4 = 0) >>= fun _ => some [_, _]) = _
  rw [guard, if_pos (by omega)]
  show some [_, _] = _
  rw [byte_eq (a := a) (by omega), byte_eq (a := b) (by omega)]

theorem decodeThree_digits (a b c : UInt8) :
    decodeThree (digit (a.toNat / 4)) (digit (a.toNat % 4 * 16 + b.toNat / 16))
      (digit (b.toNat % 16 * 4 + c.toNat / 64)) (digit (c.toNat % 64)) = some [a, b, c] := by
  have ha := a.toNat_lt
  have hb := b.toNat_lt
  have hc := c.toNat_lt
  unfold decodeThree
  rw [value?_digit (by omega), value?_digit (by omega), value?_digit (by omega),
    value?_digit (by omega)]
  simp only [Option.bind_eq_bind, Option.bind_some]
  show some [_, _, _] = _
  rw [byte_eq (a := a) (by omega), byte_eq (a := b) (by omega), byte_eq (a := c) (by omega)]

/-- A block without padding comes before the rest. -/
theorem decode_block {w x y z : Char} (rest : List Char) (hz : z ≠ '=') :
    decode (w :: x :: y :: z :: rest) = (do
      let block ← decodeThree w x y z
      let bytes ← decode rest
      return block ++ bytes) := by
  rw [decode]
  · intro _ h
    exact absurd h hz
  · intro h
    exact absurd h hz

/-- **The bytes of a text are those that it was made of.** -/
theorem decode_encode (bytes : List UInt8) : decode (encode bytes) = some bytes := by
  induction bytes using encode.induct with
  | case1 => rfl
  | case2 a => exact decodeOne_digits a
  | case3 a b =>
    have hb := b.toNat_lt
    rw [encode, decode, decodeTwo_digits]
    exact digit_ne_pad (by omega)
  | case4 a b c rest ih =>
    have hc := c.toNat_lt
    rw [encode, decode_block _ (digit_ne_pad (by omega)), decodeThree_digits, ih]
    rfl

end Chelix.Library.Base64
