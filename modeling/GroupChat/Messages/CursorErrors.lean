import GroupChat.Messages.Page
import GroupChat.Text.JsonGrammar

/-!
# Cursors from outside

A cursor comes back from the client as a string, and the client may send any string.
`decodeCursor` answers what it cannot decode with an exception for status 400.  Of
the two values of a decoded cursor it has checked one: `createdAt` is the text of a
date.  The `id` need only be a string, and the query compares it with a `uuid`
column.

`CursorIsSafe` is what the answers should be: whatever decodes names an
identifier, and `findPage` returns a page or the exception for status 400.
`cursorIsSafe_iff` says for which strings that is so.  The condition is on the string
and not on what the decoder makes of it: `Carries` is what the string spells in base64,
what these bytes are read as in UTF-8, and what that text derives in the grammar of JSON.
-/

namespace GroupChat
namespace Messages

open Common Database Text

/-! ## What the query is sent -/

/-- The string has the shape of an identifier. -/
def isUuidString (id : JsString) : Bool := (id.ascii?.map isUuid).getD false

/-- `takes` are the instants that can be compared with the `createdAt` column; a
statement with another instant fails. -/
structure QueryHost extends Host where
  takes : Instant → Bool

/-- `findPage`, with the failure of a statement that carries an instant the column does
not take. -/
def answerPage (host : QueryHost) (rows : MessageTable) (groupId : Uuid) (limit : PageSize)
    (cursor : Option JsString) : Except Exception Page :=
  match positionOf host.toHost cursor with
  | .ok (some (createdAt, _)) =>
    if host.takes createdAt then findPage host.toHost rows groupId limit cursor
    else .error .fault
  | _ => findPage host.toHost rows groupId limit cursor

/-! ## What decodes -/

/-- The string is the base64 of the UTF-8 of a JSON text of the value. -/
def Carries (raw : JsString) (v : Json) : Prop :=
  ∃ bytes text, Base64Url.Spells raw bytes ∧ Utf8.Reads bytes text ∧
    Json.Derives (.element v) text

theorem parse_eq_some_iff_carries {raw : JsString} {v : Json} :
    Json.parse (Utf8.decode (Base64Url.decode raw)) = some v ↔ Carries raw v := by
  constructor
  · intro h
    exact ⟨_, _, Base64Url.decode_eq_iff.mp rfl, Utf8.decode_eq_iff.mp rfl,
      Json.parse_eq_some_iff.mp h⟩
  · rintro ⟨bytes, text, hspells, hreads, hderives⟩
    rw [Base64Url.decode_eq_iff.mpr hspells, Utf8.decode_eq_iff.mpr hreads]
    exact Json.parse_eq_some_iff.mpr hderives

/-- **What decodes**: an object with two strings, one of which is a date.  Of a name that is
repeated the last member counts. -/
theorem decodeCursor_eq_ok_iff {otherForms : DateReader} {raw : JsString}
    {cursor : KeysetCursor} :
    decodeCursor otherForms raw = .ok cursor ↔
      ∃ members createdAt, Carries raw (.object members) ∧
        Json.LastNamed members "id" (.string cursor.id) ∧
        Json.LastNamed members "createdAt" (.string createdAt) ∧
        newDate otherForms createdAt = some cursor.createdAt := by
  unfold decodeCursor
  constructor
  · intro h
    split at h
    · cases h
    · next parsed hparsed =>
      split at h
      · next id createdAt hid hcreatedAt =>
        split at h
        · next t ht =>
          obtain rfl := Except.ok.inj h
          obtain ⟨members, rfl⟩ := Json.exists_object_of_get? hid
          exact ⟨members, createdAt, parse_eq_some_iff_carries.mp hparsed,
            Json.get?_object_iff.mp hid, Json.get?_object_iff.mp hcreatedAt, ht⟩
        · cases h
      · cases h
  · rintro ⟨members, createdAt, hcarries, hid, hcreatedAt, ht⟩
    rw [parse_eq_some_iff_carries.mpr hcarries]
    dsimp only
    rw [Json.get?_object_iff.mpr hid, Json.get?_object_iff.mpr hcreatedAt]
    dsimp only
    rw [ht]

/-- What does not decode is answered with the one exception. -/
theorem decodeCursor_eq_or (otherForms : DateReader) (raw : JsString) :
    decodeCursor otherForms raw = .error invalidCursor ∨
      ∃ cursor, decodeCursor otherForms raw = .ok cursor := by
  unfold decodeCursor
  split
  · exact Or.inl rfl
  · split
    · split
      · exact Or.inr ⟨_, rfl⟩
      · exact Or.inl rfl
    · exact Or.inl rfl

/-- The empty string decodes to nothing. -/
theorem ne_nil_of_decodeCursor {otherForms : DateReader} {raw : JsString} {cursor : KeysetCursor}
    (h : decodeCursor otherForms raw = .ok cursor) : raw ≠ [] := by
  rintro rfl
  have hnone : decodeCursor otherForms [] = .error invalidCursor := rfl
  rw [hnone] at h
  cases h

/-! ## What the answers should be -/

variable {host : QueryHost} {raw : JsString} {cursor : KeysetCursor}

/-- What decodes names an identifier, and the answer is a page or the exception for
status 400. -/
structure CursorIsSafe (host : QueryHost) (raw : JsString) : Prop where
  decoded : decodeCursor host.date raw = .error invalidCursor ∨
    ∃ cursor, decodeCursor host.date raw = .ok cursor ∧ isUuidString cursor.id = true
  answered : ∀ rows groupId limit,
    answerPage host rows groupId limit (some raw) = .error invalidCursor ∨
      ∃ page, answerPage host rows groupId limit (some raw) = .ok page
  /-- The empty string stands for no cursor. -/
  refused : decodeCursor host.date raw = .error invalidCursor → raw ≠ [] →
    ∀ rows groupId limit, answerPage host rows groupId limit (some raw) = .error invalidCursor

/-- The string carries an object with a string for the id and the text of a date, where the
id has not the shape of an identifier, or the column does not take the date. -/
def CarriesUnusable (host : QueryHost) (raw : JsString) : Prop :=
  ∃ members id createdAt t, Carries raw (.object members) ∧
    Json.LastNamed members "id" (.string id) ∧
    Json.LastNamed members "createdAt" (.string createdAt) ∧
    newDate host.date createdAt = some t ∧ (isUuidString id = false ∨ host.takes t = false)

theorem carriesUnusable_iff :
    CarriesUnusable host raw ↔ ∃ cursor, decodeCursor host.date raw = .ok cursor ∧
      (isUuidString cursor.id = false ∨ host.takes cursor.createdAt = false) := by
  constructor
  · rintro ⟨members, id, createdAt, t, hcarries, hid, hcreatedAt, ht, hbad⟩
    exact ⟨⟨t, id⟩,
      decodeCursor_eq_ok_iff.mpr ⟨members, createdAt, hcarries, hid, hcreatedAt, ht⟩, hbad⟩
  · rintro ⟨cursor, hdecode, hbad⟩
    obtain ⟨members, createdAt, hcarries, hid, hcreatedAt, ht⟩ :=
      decodeCursor_eq_ok_iff.mp hdecode
    exact ⟨members, cursor.id, createdAt, cursor.createdAt, hcarries, hid, hcreatedAt, ht, hbad⟩

/-! ## When they are that -/

theorem positionOf_of_error (h : decodeCursor host.date raw = .error invalidCursor)
    (hraw : raw ≠ []) : positionOf host.toHost (some raw) = .error invalidCursor := by
  unfold positionOf
  dsimp only
  rw [if_neg hraw, h]

/-- A cursor with an identifier names a position. -/
theorem exists_positionOf (h : decodeCursor host.date raw = .ok cursor)
    (hid : isUuidString cursor.id = true) :
    ∃ id, positionOf host.toHost (some raw) = .ok (some (cursor.createdAt, id)) := by
  have huuid : ∃ id, host.uuidParam cursor.id = some id := by
    obtain ⟨s, hs, hshape⟩ : ∃ s, cursor.id.ascii? = some s ∧ isUuid s = true := by
      unfold isUuidString at hid
      cases hs : cursor.id.ascii? with
      | none => exact absurd hid (by simp [hs])
      | some s => exact ⟨s, rfl, by simpa [hs] using hid⟩
    obtain ⟨id, hspells⟩ := exists_spells hshape
    refine ⟨id, ?_⟩
    unfold Host.uuidParam
    rw [hs]
    dsimp only
    rw [if_pos hshape, hspells.2]
  obtain ⟨id, huuid⟩ := huuid
  refine ⟨id, ?_⟩
  unfold positionOf
  dsimp only
  rw [if_neg (ne_nil_of_decodeCursor h), h]
  dsimp only
  rw [huuid]

/-- A string that does not decode is answered with the exception. -/
theorem answerPage_of_error (h : decodeCursor host.date raw = .error invalidCursor)
    (hraw : raw ≠ []) (rows : MessageTable) (groupId : Uuid) (limit : PageSize) :
    answerPage host rows groupId limit (some raw) = .error invalidCursor := by
  have hposition := positionOf_of_error h hraw
  unfold answerPage findPage
  rw [hposition]

/-- No cursor is answered with a page. -/
theorem answerPage_empty (rows : MessageTable) (groupId : Uuid) (limit : PageSize) :
    ∃ page, answerPage host rows groupId limit (some []) = .ok page := by
  unfold answerPage findPage
  exact ⟨_, rfl⟩

/-- A cursor with an identifier is answered with a page, if the column takes its date. -/
theorem answerPage_of_ok (h : decodeCursor host.date raw = .ok cursor)
    (hid : isUuidString cursor.id = true) (rows : MessageTable) (groupId : Uuid)
    (limit : PageSize) :
    (host.takes cursor.createdAt = true →
        ∃ page, answerPage host rows groupId limit (some raw) = .ok page) ∧
      (host.takes cursor.createdAt = false →
        answerPage host rows groupId limit (some raw) = .error .fault) := by
  obtain ⟨id, hposition⟩ := exists_positionOf h hid
  unfold answerPage findPage
  rw [hposition]
  dsimp only
  constructor
  · intro htakes
    rw [if_pos htakes]
    exact ⟨_, rfl⟩
  · intro htakes
    rw [if_neg (by simp [htakes])]

/-- **Cursors are safe, apart from those that carry what the query cannot use.**  Every
cursor the program makes is read back.  For every string the decoder and the page are as
they should be exactly if the string does not carry a date and an id of which one is
unusable. -/
theorem cursorIsSafe_iff (host : QueryHost) :
    (∀ cursor, decodeCursor host.date (encodeCursor cursor) = .ok cursor) ∧
      ∀ raw, CursorIsSafe host raw ↔ ¬CarriesUnusable host raw := by
  refine ⟨decodeCursor_encodeCursor host.date, fun raw => ?_⟩
  rw [carriesUnusable_iff]
  rcases decodeCursor_eq_or host.date raw with herror | ⟨cursor, hok⟩
  · refine iff_of_true ⟨Or.inl herror, fun rows groupId limit => ?_, fun h hraw => ?_⟩ ?_
    · by_cases hraw : raw = []
      · rw [hraw]
        exact Or.inr (answerPage_empty rows groupId limit)
      · exact Or.inl (answerPage_of_error herror hraw rows groupId limit)
    · exact answerPage_of_error h hraw
    · rintro ⟨cursor, hok, -⟩
      rw [herror] at hok
      cases hok
  · have hunique : ∀ cursor', decodeCursor host.date raw = .ok cursor' → cursor' = cursor :=
      fun cursor' h => (Except.ok.inj (hok.symm.trans h)).symm
    constructor
    · rintro hsafe ⟨cursor', hok', hbad⟩
      obtain rfl := hunique cursor' hok'
      have hid : isUuidString cursor'.id = true := by
        rcases hsafe.decoded with herror | ⟨cursor, hok'', hid⟩
        · rw [hok] at herror
          cases herror
        · rw [← hunique cursor hok'']
          exact hid
      rcases hbad with hbad | hbad
      · exact Bool.false_ne_true (hbad.symm.trans hid)
      · -- the statement fails, whatever it is about
        have hfault := (answerPage_of_ok hok hid Table.empty 0 ⟨1, by decide⟩).2 hbad
        rcases hsafe.answered Table.empty 0 ⟨1, by decide⟩ with h | ⟨page, h⟩
        · rw [hfault] at h
          cases h
        · rw [hfault] at h
          cases h
    · intro hgood
      have hid : isUuidString cursor.id = true :=
        Bool.of_not_eq_false fun h => hgood ⟨cursor, hok, Or.inl h⟩
      have htakes : host.takes cursor.createdAt = true :=
        Bool.of_not_eq_false fun h => hgood ⟨cursor, hok, Or.inr h⟩
      refine ⟨Or.inr ⟨cursor, hok, hid⟩, fun rows groupId limit => Or.inr ?_, fun h => ?_⟩
      · exact (answerPage_of_ok hok hid rows groupId limit).1 htakes
      · rw [hok] at h
        cases h

/-- A host on which only identifiers are compared with the `uuid` column. -/
def strictHost : QueryHost := ⟨⟨fun _ => none, fun _ => none⟩, fun _ => true⟩

/-- The epoch, with a text that is no identifier. -/
def namelessCursor : KeysetCursor := ⟨epoch, JsString.ofString "x"⟩

/-- **A cursor from outside makes the statement fail.** -/
theorem not_cursorIsSafe_nameless :
    ¬CursorIsSafe strictHost (encodeCursor namelessCursor) ∧
      answerPage strictHost Table.empty 0 ⟨1, by decide⟩ (some (encodeCursor namelessCursor)) =
        .error .fault := by
  have hok := decodeCursor_encodeCursor strictHost.date namelessCursor
  constructor
  · intro hsafe
    rcases hsafe.decoded with herror | ⟨cursor, hok', hid⟩
    · rw [hok] at herror
      cases herror
    · rw [hok] at hok'
      obtain rfl := Except.ok.inj hok'
      exact absurd hid (by decide)
  · have hposition : positionOf strictHost.toHost (some (encodeCursor namelessCursor)) =
        .error .fault := by
      unfold positionOf
      dsimp only
      rw [if_neg (encodeCursor_ne_nil _), hok]
      rfl
    unfold answerPage findPage
    rw [hposition]

end Messages
end GroupChat
