import GroupChat.Chat.Rooms
import GroupChat.Text.Length
import GroupChat.Text.Trim

/-!
# Two ways to send

A message can be sent as an HTTP request, whose body is validated against
`CreateMessageDto`, and as a socket event, whose handler repeats the rule by
hand.  Both trim the content, refuse an empty one and refuse one that is too
long, and both leave the rest to the same service call.

They do not measure the length alike.  The validator counts characters and the
handler counts code units, so `sendsAgree_iff` is an exact condition and not an
unconditional agreement: the two part at a trimmed content of more than four
thousand units that is at most four thousand characters to the validator.
-/

namespace GroupChat
namespace Messages

open Chat Common Database Groups Text

def MESSAGE_CONTENT_MAX_LENGTH : ℕ := 4000

/-- The service call a send leads to. -/
structure Send where
  groupId : String
  senderId : Uuid
  content : JsString
deriving DecidableEq

/-! ## The HTTP request -/

/-- `CreateMessageDto` under the validation pipe: the content it passes on, or
the texts of its errors. -/
def createMessageDto (validator : Validator) (content : JsString) :
    Except (List String) JsString :=
  let content := content.trim
  if validator.length content < 1 then .error ["Message content cannot be empty"]
  else if MESSAGE_CONTENT_MAX_LENGTH < validator.length content then
    .error ["content must be shorter than or equal to 4000 characters"]
  else .ok content

/-- The text of an exception a guard or a pipe throws. -/
def textOf : Exception → String
  | .badRequest message | .unauthorized message | .forbidden message | .notFound message
  | .conflict message => message
  | .prisma _ | .fault => "Internal server error"

/-- `POST /groups/:id/messages`: the guard, the pipes, and the handler. -/
def postMessage (validator : Validator) (t : Tables) (userId : Uuid) (id : String)
    (content : JsString) : Except (List String) Send :=
  match assertMember t userId id with
  | .error e => .error [textOf e]
  | .ok _ =>
    match parseUuidPipe id with
    | .error e => .error [textOf e]
    | .ok groupId =>
      match createMessageDto validator content with
      | .error errors => .error errors
      | .ok content => .ok ⟨groupId, userId, content⟩

/-! ## The socket event -/

/-- The check of the content in `send_message`. -/
def checkContent (content : Option JsString) : Except String JsString :=
  let content := (content.getD []).trim
  if content = [] ∨ MESSAGE_CONTENT_MAX_LENGTH < content.length then
    .error "Message must be 1–4000 characters"
  else .ok content

/-- `send_message`; both fields of the body may be missing. -/
def sendMessage (t : Tables) (userId : Uuid) (groupId : Option String)
    (content : Option JsString) : Except String Send :=
  let groupId := groupId.getD ""
  match checkContent content with
  | .error message => .error message
  | .ok content =>
    match assertMember t userId groupId with
    | .ok _ => .ok ⟨groupId, userId, content⟩
    | .error (.forbidden _) => .error notAMemberMessage
    | .error _ => .error "Something went wrong"

/-! ## Agreement -/

/-- Both accept and lead to the same service call, or both refuse. -/
def SendsAgree (validator : Validator) (t : Tables) (userId : Uuid) (groupId : String)
    (content : JsString) : Prop :=
  ∀ send, postMessage validator t userId groupId content = .ok send ↔
    sendMessage t userId (some groupId) (some content) = .ok send

/-- The two lengths are on the same side of the bound. -/
def SameSide (validator : Validator) (content : JsString) : Prop :=
  content.length ≤ MESSAGE_CONTENT_MAX_LENGTH ∨
    MESSAGE_CONTENT_MAX_LENGTH < validator.length content

variable {validator : Validator} {t : Tables} {userId g : Uuid} {groupId : String} {row : GroupMember}

/-- What a member's request leads to. -/
theorem postMessage_eq_ok (h : Spells groupId g) (hrow : membership t g userId = some row)
    {content : JsString} {send : Send} :
    postMessage validator t userId groupId content = .ok send ↔
      content.trim ≠ [] ∧ validator.length content.trim ≤ MESSAGE_CONTENT_MAX_LENGTH ∧
        ⟨groupId, userId, content.trim⟩ = send := by
  have hpipe : parseUuidPipe groupId = .ok groupId := if_pos h.1
  unfold postMessage
  rw [assertMember_of_spells h hrow, hpipe]
  dsimp only
  unfold createMessageDto
  dsimp only
  rw [← validator.length_pos_iff]
  split_ifs with hempty hlong
  · simp [Nat.not_lt.mpr (Nat.lt_one_iff.mp hempty).le]
  · simp [Nat.not_le.mpr hlong]
  · simp [Nat.pos_of_ne_zero (by omega : validator.length content.trim ≠ 0), Nat.not_lt.mp hlong]

/-- What a member's event leads to. -/
theorem sendMessage_eq_ok (h : Spells groupId g) (hrow : membership t g userId = some row)
    {content : JsString} {send : Send} :
    sendMessage t userId (some groupId) (some content) = .ok send ↔
      content.trim ≠ [] ∧ content.trim.length ≤ MESSAGE_CONTENT_MAX_LENGTH ∧
        ⟨groupId, userId, content.trim⟩ = send := by
  unfold sendMessage checkContent
  simp only [Option.getD_some]
  rw [assertMember_of_spells h hrow]
  split_ifs with hrefused
  · constructor
    · exact fun hok => absurd hok (by simp)
    · rintro ⟨hne, hle, -⟩
      rcases hrefused with hnil | hlong
      · exact absurd hnil hne
      · exact absurd hle (Nat.not_le.mpr hlong)
  · rw [not_or, Nat.not_lt] at hrefused
    simp [hrefused.1, hrefused.2]

/-- **When the two ways to send agree.**  For a member and any content whatsoever
they agree exactly if the number of code units of the trimmed content and its length
to the validator are on the same side of the bound. -/
theorem sendsAgree_iff (h : Spells groupId g) (hrow : membership t g userId = some row)
    (content : JsString) :
    SendsAgree validator t userId groupId content ↔ SameSide validator content.trim := by
  have hle : validator.length content.trim ≤ content.trim.length :=
    validator.length_le content.trim
  unfold SendsAgree SameSide
  constructor
  · intro hagree
    by_contra hside
    rw [not_or, Nat.not_le, Nat.not_lt] at hside
    have hne : content.trim ≠ [] := by
      intro hnil
      rw [hnil, List.length_nil] at hside
      omega
    have hpost : postMessage validator t userId groupId content =
        .ok ⟨groupId, userId, content.trim⟩ :=
      (postMessage_eq_ok h hrow).mpr ⟨hne, hside.2, rfl⟩
    have hsend := (sendMessage_eq_ok h hrow).mp ((hagree _).mp hpost)
    exact absurd hsend.2.1 (Nat.not_le.mpr hside.1)
  · intro hside send
    rw [postMessage_eq_ok h hrow, sendMessage_eq_ok h hrow]
    refine and_congr_right fun _ => and_congr_left fun _ => ?_
    constructor
    · intro hcount
      rcases hside with hlength | hlong
      · exact hlength
      · exact absurd hcount (Nat.not_le.mpr hlong)
    · exact hle.trans

/-- The condition at one member and one content. -/
theorem sendsAgree_hello_iff :
    SendsAgree sequenceValidator (oneMember 1) 0 (printUuid 1) (JsString.ofString " hello ") ↔
      SameSide sequenceValidator (JsString.ofString " hello ").trim :=
  sendsAgree_iff (spells_printUuid 1) (membership_oneMember 1) _

/-! ## A content the two disagree on -/

/-- Two thousand and one characters, each of them a surrogate pair. -/
def manyPairs : JsString := (List.replicate 2001 [0xD83D, 0xDE00]).flatten

theorem trim_manyPairs : manyPairs.trim = manyPairs := by
  have hmem : ∀ u ∈ manyPairs, ¬isSpace u := by
    intro u hu
    obtain ⟨l, hl, hu⟩ := List.mem_flatten.mp hu
    rw [List.eq_of_mem_replicate hl] at hu
    rcases List.mem_cons.mp hu with rfl | hu
    · decide
    · rw [List.mem_singleton.mp hu]
      decide
  exact trim_eq_self (fun u hu => hmem u (List.mem_of_head? hu))
    (fun u hu => hmem u (List.mem_of_getLast? hu))

/-- A request with the pairs is accepted, by any validator. -/
theorem postMessage_manyPairs (validator : Validator) :
    postMessage validator (oneMember 1) 0 (printUuid 1) manyPairs =
      .ok ⟨printUuid 1, 0, manyPairs.trim⟩ := by
  have hcount : validator.length manyPairs = 2001 :=
    validator.length_flatten_replicate (by decide) (by decide) 2001
  refine (postMessage_eq_ok (spells_printUuid 1) (membership_oneMember 1)).mpr ⟨?_, ?_, rfl⟩
  · rw [trim_manyPairs, ← validator.length_pos_iff, hcount]
    omega
  · rw [trim_manyPairs, hcount]
    unfold MESSAGE_CONTENT_MAX_LENGTH
    omega

/-- **The two do not always agree.**  The request is accepted and the event is
refused. -/
theorem not_sendsAgree_manyPairs :
    ¬ SendsAgree sequenceValidator (oneMember 1) 0 (printUuid 1) manyPairs := by
  have hlength : manyPairs.length = 2001 * 2 := by
    unfold manyPairs
    rw [List.length_flatten, List.map_replicate, List.sum_replicate]
    rfl
  rw [SendsAgree]
  intro hagree
  have hsend := (sendMessage_eq_ok (spells_printUuid 1) (membership_oneMember 1)).mp
    ((hagree _).mp (postMessage_manyPairs sequenceValidator))
  have hle := hsend.2.1
  rw [trim_manyPairs, hlength] at hle
  unfold MESSAGE_CONTENT_MAX_LENGTH at hle
  omega

end Messages
end GroupChat
