import GroupChat.Text.JsString
import Mathlib.Data.Rat.Defs

/-!
# Values of the language

A value of any type, as far as the program looks at values it does not know: whether it counts
as true, whether it is an array, what text it has, and whether it can be written as JSON.  Each
of these can throw, and then there is none.

A primitive and a plain array answer as the language has it.  Any other object is given by its
answers, since getters, proxies and methods of its own may make them whatever they like.
-/

namespace GroupChat
namespace Text

/-- A number of the language. -/
inductive JsNumber where
  | finite (x : ℚ)
  | infinity
  | negInfinity
  | nan
deriving DecidableEq

/-- `x >= n` -/
def JsNumber.atLeast (n : ℕ) : JsNumber → Bool
  | .finite x => decide ((n : ℚ) ≤ x)
  | .infinity => true
  | .negInfinity | .nan => false

inductive JsValue where
  | undefined
  | null
  | bool (b : Bool)
  /-- A number, by the text it prints as. -/
  | number (printed : JsString)
  | bigint (n : ℤ)
  | string (s : JsString)
  | symbol (description : JsString)
  /-- An array as a literal makes it. -/
  | array (items : List JsValue)
  /-- Any other object: whether it is an array, whether it inherits from `Error`, whether its
  `stack` can be read, the value of its `join(', ')`, its text, and whether it can be written
  as JSON. -/
  | object (isArray isError : Option Bool) (hasStack : Bool) (joined : Option JsValue)
      (text : Option JsString) (serialises : Bool)

namespace JsValue

/-- `undefined` or `null`. -/
def nullish : JsValue → Bool
  | undefined | null => true
  | _ => false

/-- What counts as true. -/
def truthy : JsValue → Bool
  | undefined | null => false
  | bool b => b
  | number printed => printed ≠ JsString.ofString "0" ∧ printed ≠ JsString.ofString "NaN"
  | bigint n => n ≠ 0
  | string s => s ≠ []
  | symbol _ | array _ | object .. => true

mutual

/-- The text of a value in a template. -/
def text : JsValue → Option JsString
  | undefined => some (JsString.ofString "undefined")
  | null => some (JsString.ofString "null")
  | bool b => some (JsString.ofString (if b then "true" else "false"))
  | number printed => some printed
  | bigint n => some (JsString.ofString (toString n))
  | string s => some s
  | symbol _ => none
  | array items => (itemTexts items).map (List.intercalate (JsString.ofString ","))
  | object _ _ _ _ text _ => text

/-- The texts of the items of an array that is joined. -/
def itemTexts : List JsValue → Option (List JsString)
  | [] => some []
  | item :: items => do
    let itemText ← if item.nullish then some [] else text item
    let rest ← itemTexts items
    return itemText :: rest

end

/-- `String(value)`, which also prints a symbol. -/
def printed : JsValue → Option JsString
  | symbol description =>
    some (JsString.ofString "Symbol(" ++ description ++ JsString.ofString ")")
  | value => value.text

/-- `value.join(', ')` -/
def join : JsValue → Option JsValue
  | array items =>
    (itemTexts items).map fun texts => string (List.intercalate (JsString.ofString ", ") texts)
  | object _ _ _ joined _ _ => joined
  | _ => none

/-- `Array.isArray(value)` -/
def isArray : JsValue → Option Bool
  | array _ => some true
  | object isArray _ _ _ _ _ => isArray
  | _ => some false

/-- `value instanceof Error` -/
def isError : JsValue → Option Bool
  | object _ isError _ _ _ _ => isError
  | _ => some false

/-- `value.stack` can be read. -/
def hasStack : JsValue → Bool
  | object _ _ hasStack _ _ _ => hasStack
  | _ => true

mutual

/-- The value can be written as JSON. -/
def serialises : JsValue → Bool
  | bigint _ => false
  | array items => allSerialise items
  | object _ _ _ _ _ serialises => serialises
  | _ => true

def allSerialise : List JsValue → Bool
  | [] => true
  | item :: items => serialises item && allSerialise items

end

end JsValue
end Text
end GroupChat
