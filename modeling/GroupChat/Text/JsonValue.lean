import GroupChat.Text.Json

/-!
# JSON values in use

What the language makes of a value that came as JSON: whether it counts as true, and whether it
has a text.  A number counts as false when it is read as zero, which the very small ones are.
The text of an object is found by calling its `toString`; a member of this name hides the
inherited function and is not one, so then there is no text.
-/

namespace GroupChat
namespace Text
namespace Json

/-- The number some digits denote. -/
def natOfDigits (digits : List Char) : ℕ := digits.foldl (fun n d => 10 * n + (d.toNat - '0'.toNat)) 0

/-- A number, as it was written, is read as zero.  It is the mantissa without its point, times
ten to the exponent less the digits after the point, and what does not exceed half of the
smallest positive number is rounded to zero. -/
def isZeroNumber (literal : List Char) : Bool :=
  let mantissa := literal.takeWhile fun c => c ≠ 'e' ∧ c ≠ 'E'
  let exponent := (literal.dropWhile fun c => c ≠ 'e' ∧ c ≠ 'E').drop 1
  let magnitude := natOfDigits (exponent.filter Char.isDigit)
  let digits := natOfDigits (mantissa.filter Char.isDigit)
  let places := ((mantissa.dropWhile (· ≠ '.')).filter Char.isDigit).length
  if exponent.head? = some '-' then digits * 2 ^ 1075 ≤ 10 ^ (places + magnitude)
  else digits * 10 ^ magnitude * 2 ^ 1075 ≤ 10 ^ places

/-- What counts as true. -/
def truthy : Json → Bool
  | null => false
  | bool b => b
  | number literal => !isZeroNumber literal
  | string s => s ≠ []
  | array _ => true
  | object _ => true

mutual

/-- The value has a text. -/
def hasText : Json → Bool
  | array items => allHaveTexts items
  | object members => !members.any fun m => m.1 = JsString.ofString "toString"
  | _ => true

/-- The items of an array have, so that they can be joined. -/
def allHaveTexts : List Json → Bool
  | [] => true
  | item :: items => hasText item && allHaveTexts items

end

end Json
end Text
end GroupChat
