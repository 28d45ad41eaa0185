import GroupChat.Common.Exception
import GroupChat.Text.Base64Url
import GroupChat.Text.IsoDate
import GroupChat.Text.Json
import GroupChat.Text.Utf8

/-!
# Pagination cursors

A cursor is a position in the history: the moment and the id of a message.  To
the client it is a black box, the URL form of base64 of a JSON object with the
two values.  `decodeCursor` reverses the encoding and turns everything it cannot
use into one client error.

How `Date` reads a text that is not in the form `toISOString` prints is left to
the platform, so it is a parameter.  `decodeCursor_encodeCursor` does not depend
on it.
-/

namespace GroupChat
namespace Common

open Database Text

/-- What a platform makes of a text it is given as a date, when the text is not
in the printed form; `none` is `Invalid Date`. -/
abbrev DateReader := JsString → Option Instant

/-- The moment and the id of a message. -/
structure KeysetCursor where
  createdAt : Instant
  /-- The tiebreaker; decoding checks only that it is a string. -/
  id : JsString
deriving DecidableEq

/-- `new Date(text)`. -/
def newDate (otherForms : DateReader) (text : JsString) : Option Instant :=
  match text.ascii?.bind fun s => readIso s.toList with
  | some f => timeClip (timeOf f)
  | none => otherForms text

/-- The members of a cursor's JSON object. -/
def KeysetCursor.payload (cursor : KeysetCursor) : List (String × JsString) :=
  [("createdAt", JsString.ofString (toISOString cursor.createdAt)), ("id", cursor.id)]

def encodeCursor (cursor : KeysetCursor) : JsString :=
  Base64Url.encode (Utf8.encode (Json.stringifyRecord cursor.payload))

/-- The error of every cursor that cannot be used. -/
def invalidCursor : Exception := .badRequest "Invalid pagination cursor"

def decodeCursor (otherForms : DateReader) (raw : JsString) : Except Exception KeysetCursor :=
  match Json.parse (Utf8.decode (Base64Url.decode raw)) with
  | none => .error invalidCursor
  | some parsed =>
    match parsed.get? "id", parsed.get? "createdAt" with
    | some (.string id), some (.string createdAt) =>
      match newDate otherForms createdAt with
      | some t => .ok ⟨t, id⟩
      | none => .error invalidCursor
    | _, _ => .error invalidCursor

/-! ## Round trip -/

/-- A printed moment is read without asking the platform. -/
theorem newDate_toISOString (otherForms : DateReader) (t : Instant) :
    newDate otherForms (JsString.ofString (toISOString t)) = some t := by
  have hascii : (JsString.ofString (toISOString t)).ascii? = some (toISOString t) := by
    refine ascii?_ofString fun c hc => ?_
    unfold toISOString at hc
    rw [String.toList_ofList] at hc
    exact toNat_lt_of_mem_isoText hc
  obtain ⟨f, hf, htime⟩ := Option.map_eq_some_iff.mp (readIso_toISOString t)
  unfold newDate
  rw [hascii, Option.bind_some, hf]
  show timeClip (timeOf f) = some t
  rw [htime, timeClip_val]

theorem get?_createdAt (cursor : KeysetCursor) :
    (Json.ofRecord cursor.payload).get? "createdAt" =
      some (.string (JsString.ofString (toISOString cursor.createdAt))) := by
  have hne : JsString.ofString "id" ≠ JsString.ofString "createdAt" := by decide
  rw [Json.get?_ofRecord, KeysetCursor.payload, List.reverse_cons, List.reverse_singleton,
    List.singleton_append, List.find?_cons_of_neg (by simpa using hne),
    List.find?_cons_of_pos (by simp), Option.map_some]

theorem get?_id (cursor : KeysetCursor) :
    (Json.ofRecord cursor.payload).get? "id" = some (.string cursor.id) := by
  rw [Json.get?_ofRecord, KeysetCursor.payload, List.reverse_cons, List.reverse_singleton,
    List.singleton_append, List.find?_cons_of_pos (by simp), Option.map_some]

/-- **Round trip.**  An encoded cursor decodes to the cursor, whatever its id. -/
theorem decodeCursor_encodeCursor (otherForms : DateReader) (cursor : KeysetCursor) :
    decodeCursor otherForms (encodeCursor cursor) = .ok cursor := by
  unfold decodeCursor encodeCursor
  have hparse : Json.parse (Json.stringifyRecord cursor.payload) =
      some (Json.ofRecord cursor.payload) := Json.parse_stringifyRecord _ _
  rw [Base64Url.decode_encode, Utf8.decode_encode, hparse]
  dsimp only
  rw [get?_id, get?_createdAt]
  dsimp only
  rw [newDate_toISOString]

/-- An encoded cursor is not the empty string, which stands for no cursor. -/
theorem encodeCursor_ne_nil (cursor : KeysetCursor) : encodeCursor cursor ≠ [] := by
  refine Base64Url.encode_ne_nil fun hnil => ?_
  have hback := Utf8.decode_encode (Json.stringifyRecord cursor.payload)
  rw [hnil] at hback
  cases hback

end Common
end GroupChat
