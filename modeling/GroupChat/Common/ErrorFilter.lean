import GroupChat.Text.JsValue
import Mathlib.Algebra.Order.Ring.Rat
import Mathlib.Data.Nat.Cast.Order.Ring
import Mathlib.Tactic.NormNum

/-!
# The error envelope

`AllExceptionsFilter` is the last to see whatever a request throws, and answers it with one
shape of body.  What is thrown can be any value, and what it carries is read through casts: the
`meta` of a database error, the payload of an HTTP exception and its `message`.  A cast does
not check, so a value of another type than the cast says makes the filter throw itself, or
write a body that is not the envelope.

`enveloped_iff` is the exact condition under which the filter answers with an envelope.  What
it does not recognise it never shows (`undisclosed`), under no condition.
-/

namespace GroupChat
namespace Common
namespace ErrorFilter

open Text

/-! ## The body -/

inductive ErrorCode where
  | VALIDATION_ERROR
  | UNAUTHORIZED
  | FORBIDDEN
  | NOT_FOUND
  | CONFLICT
  | BAD_REQUEST
  | INTERNAL_ERROR
  | SERVICE_UNAVAILABLE
deriving DecidableEq

/-- `ErrorResponse`, as it is built: the cast message may be any value. -/
structure ErrorResponse where
  success : Bool
  code : ErrorCode
  message : JsValue
  details : Option JsValue

/-- A body without details. -/
def errorResponse (code : ErrorCode) (message : JsValue) : ErrorResponse :=
  ⟨false, code, message, none⟩

/-- The body can be written as JSON. -/
def ErrorResponse.serialises (body : ErrorResponse) : Bool :=
  body.message.serialises && body.details.all JsValue.serialises

def textValue (s : String) : JsValue := .string (JsString.ofString s)

/-! ## What is thrown -/

/-- The `meta` of a database error; reading its `target` may throw. -/
structure Meta where
  target : Option JsValue

/-- A `PrismaClientKnownRequestError`. -/
structure PrismaError where
  code : String
  meta? : Option Meta
  /-- Its `stack` can be read. -/
  hasStack : Bool

/-- The payload of an HTTP exception: a text, an object or a function, with what comes of each
reading of its `message`. -/
inductive Payload where
  | text (s : JsString)
  | object (message again : Option JsValue)
  | function (message : Option JsValue)

/-- An `HttpException`. -/
structure HttpException where
  status : JsNumber
  response : Payload
  message : JsString
  hasStack : Bool

inductive Thrown where
  | prisma (e : PrismaError)
  | http (e : HttpException)
  /-- Neither of them. -/
  | value (v : JsValue)

/-! ## Database errors -/

structure MappedPrismaError where
  status : ℕ
  code : ErrorCode
  message : JsString

/-- `error.meta?.target` -/
def PrismaError.target (e : PrismaError) : Option JsValue :=
  match e.meta? with
  | none => some .undefined
  | some m => m.target

/-- `target?.join(', ')` -/
def joined (target : JsValue) : Option JsValue :=
  if target.nullish then some .undefined else target.join

/-- The message for a unique constraint, from the joined target. -/
def conflictMessage (target : JsValue) : Option JsString :=
  if target.truthy then
    target.text.map fun text =>
      JsString.ofString "A record with this " ++ text ++ JsString.ofString " already exists"
  else some (JsString.ofString "A record with these values already exists")

/-- The message of a unique constraint. -/
def uniqueMessage (e : PrismaError) : Option JsString := do
  let target ← e.target
  let columns ← joined target
  conflictMessage columns

/-- `mapPrismaError`; `none` where it throws. -/
def mapPrismaError (e : PrismaError) : Option MappedPrismaError :=
  if e.code = "P2002" then (uniqueMessage e).map fun message => ⟨409, .CONFLICT, message⟩
  else if e.code = "P2025" then
    some ⟨404, .NOT_FOUND, JsString.ofString "The requested record does not exist"⟩
  else if e.code = "P2003" then
    some ⟨400, .BAD_REQUEST, JsString.ofString "Referenced record does not exist"⟩
  else some ⟨500, .INTERNAL_ERROR, JsString.ofString "A database error occurred"⟩

/-! ## HTTP exceptions -/

def codeForStatus (status : JsNumber) : ErrorCode :=
  if status = .finite 400 then .BAD_REQUEST
  else if status = .finite 401 then .UNAUTHORIZED
  else if status = .finite 403 then .FORBIDDEN
  else if status = .finite 404 then .NOT_FOUND
  else if status = .finite 409 then .CONFLICT
  else if status = .finite 503 then .SERVICE_UNAVAILABLE
  else if status.atLeast 500 then .INTERNAL_ERROR
  else .BAD_REQUEST

/-- The payload is an object whose `message` is an array, and this is what is read of it again. -/
def Payload.details : Payload → Option (Option JsValue)
  | .text _ | .function _ => some none
  | .object message again => do
    let message ← message
    let isArray ← message.isArray
    if isArray then again.map some else some none

/-- The message of a payload that carries no details.  That of an object has been read once. -/
def Payload.messageOr (exceptionMessage : JsString) : Payload → Option JsValue
  | .text s => some (.string s)
  | .object _ message | .function message =>
    message.map fun m => if m.nullish then .string exceptionMessage else m

/-- `fromHttpException`; `none` where it throws. -/
def fromHttpException (e : HttpException) : Option (JsNumber × ErrorResponse) := do
  match ← e.response.details with
  | some details =>
    return (e.status, ⟨false, .VALIDATION_ERROR, textValue "Request validation failed", details⟩)
  | none =>
    let message ← e.response.messageOr e.message
    return (e.status, errorResponse (codeForStatus e.status) message)

/-! ## The filter -/

/-- `buildError`; to find out the class of a value its prototypes are read. -/
def buildError : Thrown → Option (JsNumber × ErrorResponse)
  | .prisma e => (mapPrismaError e).map fun m =>
    (.finite m.status, errorResponse m.code (.string m.message))
  | .http e => fromHttpException e
  | .value v => v.isError.map fun _ =>
    (.finite 500, errorResponse .INTERNAL_ERROR (textValue "An unexpected error occurred"))

/-- The status is logged as a fault, with the stack. -/
def isFault (status : JsNumber) : Bool := status.atLeast 500 && status ≠ .finite 503

/-- What is logged of a fault can be read: the stack of an error, and else the text. -/
def logsFault : Thrown → Bool
  | .prisma e => e.hasStack
  | .http e => e.hasStack
  | .value v =>
    match v.isError with
    | none => false
    | some true => v.hasStack
    | some false => v.printed.isSome

/-- What is known of the framework: the statuses its `response.status` takes without throwing. -/
structure Framework where
  accepts : JsNumber → Bool

/-- What comes of a call of the filter: the bodies it wrote, and whether it threw. -/
structure Outcome where
  written : List (JsNumber × ErrorResponse)
  threw : Bool

/-- `catch` -/
def catches (framework : Framework) (exception : Thrown) : Outcome :=
  match buildError exception with
  | none => ⟨[], true⟩
  | some (status, body) =>
    if isFault status && !logsFault exception then ⟨[], true⟩
    else if framework.accepts status && body.serialises then ⟨[(status, body)], false⟩
    else ⟨[], true⟩

/-! ## One envelope -/

/-- Two values the filter does not recognise, which differ in what they carry. -/
inductive SameKind : Thrown → Thrown → Prop
  | prisma {e e' : PrismaError} (he : e.code ∉ ["P2002", "P2025", "P2003"])
    (he' : e'.code ∉ ["P2002", "P2025", "P2003"]) : SameKind (.prisma e) (.prisma e')
  | value (v v' : JsValue) : SameKind (.value v) (.value v')

/-- The filter does not throw and writes one body, an envelope, which shows nothing of a value
that is not recognised. -/
structure Enveloped (framework : Framework) (exception : Thrown) : Prop where
  one : ∃ status body, catches framework exception = ⟨[(status, body)], false⟩ ∧
    body.success = false ∧ ∃ s, body.message = .string s
  undisclosed : ∀ other, SameKind exception other → ∀ reply reply',
    (catches framework exception).written = [reply] →
      (catches framework other).written = [reply'] → reply = reply'

/-- A unique constraint names its columns in an array of texts, or not at all; and where the
filter logs a fault, there is a stack. -/
def PrismaError.Answerable (e : PrismaError) : Prop :=
  if e.code = "P2002" then
    ∃ target columns, e.target = some target ∧ joined target = some columns ∧
      (columns.truthy = true → columns.text.isSome = true)
  else e.code = "P2025" ∨ e.code = "P2003" ∨ e.hasStack = true

/-- The value is a text, or there is none. -/
def TextOrMissing (v : JsValue) : Prop := v.nullish = true ∨ ∃ s, v = .string s

/-- The `message` of an object is an array and can then be written, or it is no array and is then
a text or missing; that of a function is a text or missing. -/
def Payload.Answerable : Payload → Prop
  | .text _ => True
  | .object message again => ∃ m read, message = some m ∧ again = some read ∧
      (m.isArray = some true ∧ read.serialises = true ∨
        m.isArray = some false ∧ TextOrMissing read)
  | .function message => ∃ m, message = some m ∧ TextOrMissing m

/-- The payload can be answered, with the status the exception asks for. -/
def HttpException.Answerable (framework : Framework) (e : HttpException) : Prop :=
  e.response.Answerable ∧ framework.accepts e.status = true ∧
    (isFault e.status = true → e.hasStack = true)

/-- Of any other value it is enough that it can be logged. -/
def Answerable (framework : Framework) : Thrown → Prop
  | .prisma e => e.Answerable
  | .http e => e.Answerable framework
  | .value v => logsFault (.value v) = true

variable {framework : Framework} {exception : Thrown}

/-- **When the filter writes a body.** -/
theorem catches_eq_iff {status : JsNumber} {body : ErrorResponse} :
    catches framework exception = ⟨[(status, body)], false⟩ ↔
      buildError exception = some (status, body) ∧
        (isFault status = true → logsFault exception = true) ∧
          framework.accepts status = true ∧ body.serialises = true := by
  unfold catches
  cases hbuild : buildError exception with
  | none => simp
  | some reply =>
    obtain ⟨status', body'⟩ := reply
    dsimp only
    rw [Option.some.injEq]
    split
    · rename_i hfault
      rw [Bool.and_eq_true, Bool.not_eq_true'] at hfault
      refine iff_of_false (by simp) ?_
      rintro ⟨heq, hlogs, -⟩
      obtain ⟨rfl, rfl⟩ := Prod.mk.inj heq
      rw [hlogs hfault.1] at hfault
      cases hfault.2
    · rename_i hfault
      have hlogs : isFault status' = true → logsFault exception = true := by
        intro h
        rw [h, Bool.true_and, Bool.not_eq_true', Bool.not_eq_false] at hfault
        exact hfault
      split
      · rename_i hwritten
        rw [Bool.and_eq_true] at hwritten
        constructor
        · intro h
          simp only [Outcome.mk.injEq, List.cons.injEq, and_true] at h
          obtain ⟨rfl, rfl⟩ := Prod.mk.inj h
          exact ⟨rfl, hlogs, hwritten⟩
        · rintro ⟨heq, -⟩
          rw [heq]
      · rename_i hwritten
        rw [Bool.and_eq_true] at hwritten
        refine iff_of_false (by simp) ?_
        rintro ⟨heq, -, haccepts⟩
        obtain ⟨rfl, rfl⟩ := Prod.mk.inj heq
        exact hwritten haccepts

theorem isFault_natCast (n : ℕ) :
    isFault (.finite n) = true ↔ 500 ≤ n ∧ n ≠ 503 := by
  unfold isFault JsNumber.atLeast
  rw [Bool.and_eq_true, decide_eq_true_eq, decide_eq_true_eq, Nat.cast_le, Ne,
    JsNumber.finite.injEq]
  norm_cast

/-! ## Each kind of exception -/

/-- What an envelope is, of an answer. -/
def Answers (framework : Framework) (exception : Thrown) : Prop :=
  ∃ status body, catches framework exception = ⟨[(status, body)], false⟩ ∧
    body.success = false ∧ ∃ s, body.message = .string s

/-- A body that was built is answered if it is an envelope that can be written. -/
theorem answers_of_build {status : JsNumber} {body : ErrorResponse}
    (hbuild : buildError exception = some (status, body)) :
    Answers framework exception ↔
      (isFault status = true → logsFault exception = true) ∧ framework.accepts status = true ∧
        body.serialises = true ∧ body.success = false ∧ ∃ s, body.message = .string s := by
  constructor
  · rintro ⟨status', body', hcatches, henvelope⟩
    obtain ⟨hbuild', hlogs, haccepts, hserialises⟩ := catches_eq_iff.mp hcatches
    obtain ⟨rfl, rfl⟩ := Prod.mk.inj (Option.some.inj (hbuild.symm.trans hbuild'))
    exact ⟨hlogs, haccepts, hserialises, henvelope⟩
  · rintro ⟨hlogs, haccepts, hserialises, henvelope⟩
    exact ⟨status, body, catches_eq_iff.mpr ⟨hbuild, hlogs, haccepts, hserialises⟩, henvelope⟩

/-- An error with a message of the program's own is answered if a fault has its stack. -/
theorem answers_iff_of_build {status : ℕ} {code : ErrorCode} {message : JsString}
    (hbuild : buildError exception =
      some (.finite status, errorResponse code (.string message)))
    (haccepts : framework.accepts (.finite status) = true) :
    Answers framework exception ↔
      (isFault (.finite status) = true → logsFault exception = true) := by
  rw [answers_of_build hbuild]
  exact ⟨And.left, fun hlogs => ⟨hlogs, haccepts, rfl, rfl, message, rfl⟩⟩

/-- No body is built, and nothing is answered. -/
theorem not_answers_of_build (hbuild : buildError exception = none) :
    ¬ Answers framework exception := by
  rintro ⟨status, body, hcatches, -⟩
  rw [(catches_eq_iff.mp hcatches).1] at hbuild
  cases hbuild

/-- The statuses the filter chooses itself are taken. -/
def AcceptsStatuses (framework : Framework) : Prop :=
  ∀ status : ℕ, 100 ≤ status → status ≤ 999 → framework.accepts (.finite status) = true

theorem exists_uniqueMessage_iff (e : PrismaError) :
    (∃ message, uniqueMessage e = some message) ↔
      ∃ target columns, e.target = some target ∧ joined target = some columns ∧
        (columns.truthy = true → columns.text.isSome = true) := by
  have hmessage : ∀ columns, (∃ message, conflictMessage columns = some message) ↔
      (columns.truthy = true → columns.text.isSome = true) := by
    intro columns
    unfold conflictMessage
    split
    · rename_i htruthy
      rw [forall_prop_of_true htruthy, ← Option.isSome_iff_exists, Option.isSome_map]
    · rename_i htruthy
      exact iff_of_true ⟨_, rfl⟩ fun h => absurd h htruthy
  unfold uniqueMessage
  constructor
  · rintro ⟨message, h⟩
    obtain ⟨target, htarget, h⟩ := Option.bind_eq_some_iff.mp h
    obtain ⟨columns, hcolumns, h⟩ := Option.bind_eq_some_iff.mp h
    exact ⟨target, columns, htarget, hcolumns, (hmessage columns).mp ⟨message, h⟩⟩
  · rintro ⟨target, columns, htarget, hcolumns, h⟩
    obtain ⟨message, hsome⟩ := (hmessage columns).mpr h
    refine ⟨message, ?_⟩
    rw [htarget, Option.bind_eq_bind, Option.bind_some, hcolumns, Option.bind_some, hsome]

theorem answers_prisma_of_map {e : PrismaError} {m : MappedPrismaError}
    (hmap : mapPrismaError e = some m) (haccepts : framework.accepts (.finite m.status) = true) :
    Answers framework (.prisma e) ↔ (isFault (.finite m.status) = true → e.hasStack = true) := by
  have hbuild : buildError (.prisma e) =
      some (.finite m.status, errorResponse m.code (.string m.message)) :=
    congrArg (Option.map _) hmap
  exact answers_iff_of_build hbuild haccepts

theorem answers_prisma_iff (haccepts : AcceptsStatuses framework) (e : PrismaError) :
    Answers framework (.prisma e) ↔ e.Answerable := by
  have hnotFault : ∀ {m : MappedPrismaError}, m.status < 500 →
      (isFault (.finite m.status) = true → e.hasStack = true) := by
    intro m hlt hfault
    have hle := ((isFault_natCast m.status).mp hfault).1
    omega
  unfold PrismaError.Answerable
  by_cases hunique : e.code = "P2002"
  · have hmap : mapPrismaError e = (uniqueMessage e).map fun message => ⟨409, .CONFLICT, message⟩ :=
      if_pos hunique
    rw [if_pos hunique, ← exists_uniqueMessage_iff]
    cases hmessage : uniqueMessage e with
    | none =>
      rw [hmessage, Option.map_none] at hmap
      exact iff_of_false (not_answers_of_build (congrArg (Option.map _) hmap)) (by simp)
    | some message =>
      rw [hmessage, Option.map_some] at hmap
      refine iff_of_true ?_ ⟨message, rfl⟩
      exact (answers_prisma_of_map hmap (haccepts 409 (by omega) (by omega))).mpr
        (hnotFault (show 409 < 500 by omega))
  rw [if_neg hunique]
  by_cases hmissing : e.code = "P2025"
  · have hmap : mapPrismaError e = some _ := (if_neg hunique).trans (if_pos hmissing)
    refine iff_of_true ?_ (Or.inl hmissing)
    exact (answers_prisma_of_map hmap (haccepts 404 (by omega) (by omega))).mpr
      (hnotFault (show 404 < 500 by omega))
  by_cases hreference : e.code = "P2003"
  · have hmap : mapPrismaError e = some _ :=
      (if_neg hunique).trans ((if_neg hmissing).trans (if_pos hreference))
    refine iff_of_true ?_ (Or.inr (Or.inl hreference))
    exact (answers_prisma_of_map hmap (haccepts 400 (by omega) (by omega))).mpr
      (hnotFault (show 400 < 500 by omega))
  · have hmap : mapPrismaError e = some _ :=
      (if_neg hunique).trans ((if_neg hmissing).trans (if_neg hreference))
    have hfault : isFault (.finite (500 : ℕ)) = true := (isFault_natCast 500).mpr (by omega)
    rw [answers_prisma_of_map hmap (haccepts 500 (by omega) (by omega)),
      forall_prop_of_true hfault]
    simp [hmissing, hreference]

/-- **Any other value** is answered if it can be logged. -/
theorem answers_value_iff (haccepts : AcceptsStatuses framework) (v : JsValue) :
    Answers framework (.value v) ↔ logsFault (.value v) = true := by
  cases hclass : v.isError with
  | none =>
    refine iff_of_false (not_answers_of_build ?_) ?_
    · unfold buildError
      dsimp only
      rw [hclass, Option.map_none]
    · unfold logsFault
      dsimp only
      rw [hclass]
      exact Bool.false_ne_true
  | some isError =>
    have hbuild : buildError (.value v) = some (.finite (500 : ℕ),
        errorResponse .INTERNAL_ERROR (textValue "An unexpected error occurred")) := by
      unfold buildError
      dsimp only
      rw [hclass, Option.map_some]
      rfl
    have hfault : isFault (.finite (500 : ℕ)) = true := (isFault_natCast 500).mpr (by omega)
    rw [textValue] at hbuild
    rw [answers_iff_of_build hbuild (haccepts 500 (by omega) (by omega)),
      forall_prop_of_true hfault]

/-! ### HTTP exceptions -/

/-- A `message` that falls back on the exception's own is a text if it was one or is missing. -/
theorem exists_fallback_iff (message : JsString) (m : JsValue) :
    (∃ s, (if m.nullish then .string message else m) = .string s) ↔ TextOrMissing m := by
  unfold TextOrMissing
  by_cases hnullish : m.nullish = true
  · rw [if_pos hnullish]
    exact iff_of_true ⟨message, rfl⟩ (Or.inl hnullish)
  · rw [if_neg hnullish]
    exact (or_iff_right hnullish).symm

/-- A payload that leads to an envelope: it carries details that can be written, or its
message is a text. -/
theorem answerable_iff (response : Payload) (message : JsString) :
    response.Answerable ↔
      (∃ details, response.details = some (some details) ∧ details.serialises = true) ∨
        response.details = some none ∧ ∃ s, response.messageOr message = some (.string s) := by
  cases response with
  | text s => exact iff_of_true trivial (Or.inr ⟨rfl, s, rfl⟩)
  | function read =>
    cases read with
    | none => simp [Payload.Answerable, Payload.details, Payload.messageOr]
    | some m => simp [Payload.Answerable, Payload.details, Payload.messageOr, exists_fallback_iff]
  | object read again =>
    cases read with
    | none => simp [Payload.Answerable, Payload.details]
    | some m =>
      cases harray : m.isArray with
      | none => simp [Payload.Answerable, Payload.details, harray]
      | some isArray =>
        cases again with
        | none =>
          cases isArray <;>
            simp [Payload.Answerable, Payload.details, Payload.messageOr, harray]
        | some m' =>
          cases isArray <;>
            simp [Payload.Answerable, Payload.details, Payload.messageOr, harray,
              exists_fallback_iff]

theorem answers_http_iff (e : HttpException) :
    Answers framework (.http e) ↔ e.Answerable framework := by
  unfold HttpException.Answerable
  rw [answerable_iff e.response e.message]
  have hbuild : buildError (.http e) = fromHttpException e := rfl
  unfold fromHttpException at hbuild
  cases hdetails : e.response.details with
  | none =>
    rw [hdetails] at hbuild
    exact iff_of_false (not_answers_of_build hbuild) (by simp)
  | some details =>
    cases details with
    | some details =>
      rw [hdetails] at hbuild
      rw [answers_of_build hbuild]
      constructor
      · rintro ⟨hlogs, haccepts, hserialises, -⟩
        exact ⟨Or.inl ⟨details, rfl, hserialises⟩, haccepts, hlogs⟩
      · rintro ⟨⟨details', heq, hserialises⟩ | ⟨hnone, -⟩, haccepts, hlogs⟩
        · obtain rfl := Option.some.inj (Option.some.inj heq)
          exact ⟨hlogs, haccepts, hserialises, rfl, _, rfl⟩
        · cases hnone
    | none =>
      rw [hdetails] at hbuild
      cases hmessage : e.response.messageOr e.message with
      | none =>
        rw [Option.bind_eq_bind, Option.bind_some, hmessage] at hbuild
        exact iff_of_false (not_answers_of_build hbuild) (by simp)
      | some m =>
        rw [Option.bind_eq_bind, Option.bind_some, hmessage] at hbuild
        rw [answers_of_build hbuild]
        constructor
        · rintro ⟨hlogs, haccepts, -, -, s, hs⟩
          exact ⟨Or.inr ⟨rfl, s, congrArg some hs⟩, haccepts, hlogs⟩
        · rintro ⟨⟨details, heq, -⟩ | ⟨-, s, hs⟩, haccepts, hlogs⟩
          · cases Option.some.inj heq
          · obtain rfl := Option.some.inj hs
            exact ⟨hlogs, haccepts, rfl, rfl, s, rfl⟩

/-! ## Nothing is disclosed -/

/-- What is written was built. -/
theorem build_of_written {reply : JsNumber × ErrorResponse}
    (h : (catches framework exception).written = [reply]) :
    buildError exception = some reply := by
  unfold catches at h
  split at h
  · cases h
  · rename_i status body hbuild
    split at h
    · cases h
    · split at h
      · rw [hbuild, List.singleton_inj.mp h]
      · cases h

/-- **A value that is not recognised shows in nothing.** -/
theorem undisclosed {other : Thrown} (hkind : SameKind exception other)
    {reply reply' : JsNumber × ErrorResponse}
    (h : (catches framework exception).written = [reply])
    (h' : (catches framework other).written = [reply']) : reply = reply' := by
  have hbuild := build_of_written h
  have hbuild' := build_of_written h'
  cases hkind with
  | prisma he he' =>
    have hmap : ∀ {e : PrismaError}, e.code ∉ ["P2002", "P2025", "P2003"] → mapPrismaError e =
        some ⟨500, .INTERNAL_ERROR, JsString.ofString "A database error occurred"⟩ := by
      intro e he
      simp only [List.mem_cons, List.not_mem_nil, or_false, not_or] at he
      exact (if_neg he.1).trans ((if_neg he.2.1).trans (if_neg he.2.2))
    have hsame := (congrArg (Option.map _) (hmap he)).symm.trans hbuild
    have hsame' := (congrArg (Option.map _) (hmap he')).symm.trans hbuild'
    exact Option.some.inj (hsame.symm.trans hsame')
  | value v v' =>
    obtain ⟨-, -, hreply⟩ := Option.map_eq_some_iff.mp hbuild
    obtain ⟨-, -, hreply'⟩ := Option.map_eq_some_iff.mp hbuild'
    exact hreply.symm.trans hreply'

/-- **When the filter answers with an envelope.** -/
theorem enveloped_iff (framework : Framework) (haccepts : AcceptsStatuses framework)
    (exception : Thrown) : Enveloped framework exception ↔ Answerable framework exception := by
  have hone : Answers framework exception ↔ Answerable framework exception := by
    cases exception with
    | prisma e => exact answers_prisma_iff haccepts e
    | http e => exact answers_http_iff e
    | value v => exact answers_value_iff haccepts v
  rw [← hone]
  exact ⟨Enveloped.one, fun h => ⟨h, fun other hkind reply reply' => undisclosed hkind⟩⟩

/-- The framework takes the whole numbers of three digits. -/
def threeDigits : Framework where
  accepts
    | .finite x => x.den = 1 ∧ 100 ≤ x ∧ x ≤ 999
    | _ => false

theorem acceptsStatuses_threeDigits : AcceptsStatuses threeDigits := by
  intro status hlow hhigh
  have hlow' : (100 : ℚ) ≤ status := by exact_mod_cast hlow
  have hhigh' : (status : ℚ) ≤ 999 := by exact_mod_cast hhigh
  exact decide_eq_true ⟨Rat.den_natCast status, hlow', hhigh'⟩

/-- A unique constraint that is reported by its name. -/
def namedConstraint : Thrown := .prisma ⟨"P2002", some ⟨some (textValue "users_email_key")⟩, true⟩

/-- **A constraint that is reported by its name is not answered.** -/
theorem not_enveloped_namedConstraint : ¬ Enveloped threeDigits namedConstraint := by
  rintro ⟨⟨status, body, hcatches, -⟩, -⟩
  have hthrown : catches threeDigits namedConstraint = ⟨[], true⟩ := rfl
  rw [hthrown] at hcatches
  cases hcatches

/-- The same constraint, reported by its columns, is answered. -/
theorem enveloped_iff_columns :
    Enveloped threeDigits
      (.prisma ⟨"P2002", some ⟨some (.array [textValue "email"])⟩, true⟩) :=
  (enveloped_iff threeDigits acceptsStatuses_threeDigits _).mpr
    ⟨.array [textValue "email"], textValue "email", rfl, rfl, fun _ => rfl⟩

end ErrorFilter
end Common
end GroupChat
