import GroupChat.Chat.Rooms
import GroupChat.Common.Cursor
import GroupChat.Messages.SummaryMessages
import GroupChat.Summary.Pipeline
import GroupChat.Text.Trim

/-!
# One summary flow, end to end

`buildSummaryFlow` nests five jobs, and each runs when the one below it has
returned.  The jobs are worked on by three processors in three processes, which
know each other only by a queue name, a job name and the value of the child.  That
value is an object of which nothing is known when it is read, so here it is a
`ReturnValue`: every member may be missing.

`runFlow` runs a flow with nobody else around.  `summary_flow_is_consistent` says
what becomes of the flow of a group: when a summary is due, one row, one broadcast
of that row, and a prompt with a line for each message of the window and no other;
otherwise nothing.
-/

namespace GroupChat
namespace Summary
namespace Flow

open Chat Common Database Messages Text

/-! ## Jobs -/

def AI_QUEUE : String := "ai-queue"
def SUMMARY_QUEUE : String := "summary-queue"
def NOTIFICATION_QUEUE : String := "notification-queue"

def JOB_GROUP_SUMMARY : String := "group-summary"
def JOB_FETCH : String := "fetch-messages"
def JOB_GENERATE : String := "generate-ai-summary"
def JOB_SAVE : String := "save-summary"
def JOB_PUBLISH : String := "publish-summary"

def stageJobId (stage : String) (groupId : JsString) (bucketStart : ℤ) : JsString :=
  JsString.ofString (stage ++ ":") ++ groupId ++ JsString.ofString (":" ++ toString bucketStart)

/-- The payload of a job; `since` crosses as a text. -/
structure JobData where
  groupId : JsString
  since : Option String := none

inductive FlowJob where
  | mk (name queueName : String) (data : JobData) (jobId : JsString) (children : List FlowJob)

def FlowJob.jobId : FlowJob → JsString
  | .mk _ _ _ jobId _ => jobId

/-- One group's pipeline; the leaf runs first. -/
def buildSummaryFlow (groupId : JsString) (since : Instant) (bucketStart : ℤ) : FlowJob :=
  .mk JOB_GROUP_SUMMARY SUMMARY_QUEUE { groupId := groupId }
    (stageJobId JOB_GROUP_SUMMARY groupId bucketStart)
    [ .mk JOB_PUBLISH NOTIFICATION_QUEUE { groupId := groupId }
        (stageJobId JOB_PUBLISH groupId bucketStart)
        [ .mk JOB_SAVE SUMMARY_QUEUE { groupId := groupId }
            (stageJobId JOB_SAVE groupId bucketStart)
            [ .mk JOB_GENERATE AI_QUEUE { groupId := groupId }
                (stageJobId JOB_GENERATE groupId bucketStart)
                [ .mk JOB_FETCH SUMMARY_QUEUE
                    { groupId := groupId, since := some (toISOString since) }
                    (stageJobId JOB_FETCH groupId bucketStart) [] ] ] ] ]

/-- What a stage may return, and its parent may find. -/
structure ReturnValue where
  skipped : Option Bool := none
  reason : Option SkipReason := none
  groupId : Option JsString := none
  transcript : Option (List TranscriptLine) := none
  summaryText : Option String := none
  message : Option Message := none
  published : Option Bool := none
  done : Option Bool := none
deriving DecidableEq

/-- The values of the children, under their job ids. -/
abbrev ChildrenValues := List (JsString × Option ReturnValue)

/-- The value of the only child. -/
def firstChildValue (values : ChildrenValues) : Option ReturnValue :=
  values.head?.bind Prod.snd

/-! ## The world of the stages -/

/-- What the model is asked. -/
structure Prompt where
  system : String
  prompt : String
deriving DecidableEq

/-- What the flow does not decide: the names of the users, the reply of the model, and
the id and the moment of an insert. -/
structure Env where
  userName : Uuid → Option String
  reply : String
  id : Uuid
  now : Instant
  otherForms : DateReader

/-- The message table, what the model was asked, and what was sent to the rooms. -/
structure World where
  rows : MessageTable
  prompts : List Prompt
  broadcasts : List Broadcast

def SUMMARY_SYSTEM_PROMPT : String :=
  "You summarize a group chat from the last day. Produce a concise digest (2-4 sentences) " ++
  "covering the key topics, any decisions, and open questions or action items. " ++
  "Be neutral and factual. If there is nothing substantive, say so briefly."

def TRANSCRIPT_UNKNOWN_SENDER : String := "Unknown"

/-- One message as the model sees it. -/
def transcriptLine (sender content : String) : String := sender ++ ": " ++ content

def summaryUserPrompt (transcript : String) : String :=
  "Summarize this conversation:\n\n" ++ transcript

/-- `AiSummaryService.summarize`. -/
def summarize (env : Env) (w : World) (messages : List TranscriptLine) : String × World :=
  let transcript := "\n".intercalate (messages.map fun m => transcriptLine m.sender m.content)
  let prompt : Prompt := ⟨SUMMARY_SYSTEM_PROMPT, summaryUserPrompt transcript⟩
  (trimText env.reply, { w with prompts := w.prompts ++ [prompt] })

/-- `NotificationPublisher.broadcastNewMessage`. -/
def broadcastNewMessage (w : World) (message : Message) : World :=
  { w with broadcasts := w.broadcasts ++
      [⟨roomFor (printUuid message.groupId), "new_message", .messageCreated message⟩] }

/-! ## Stages -/

/-- What a stage comes to. -/
abbrev Outcome := Except Exception (Option ReturnValue × World)

/-- The two fields the model needs. -/
def toTranscript (env : Env) (m : Message) : TranscriptLine :=
  ⟨(m.senderId.bind env.userName).getD TRANSCRIPT_UNKNOWN_SENDER, m.content⟩

/-- The text of an id. -/
def idText (id : Uuid) : JsString := JsString.ofString (printUuid id)

/-- The id a text is, as a value of a `uuid` column. -/
def readId (text : JsString) : Option Uuid := text.ascii?.bind readUuid

theorem readId_idText (id : Uuid) : readId (idText id) = some id := by
  unfold readId idText
  rw [ascii?_ofString fun c hc => toNat_lt_of_mem_printUuid hc, Option.bind_some,
    (spells_printUuid id).2]

theorem idText_injective : Function.Injective idText := by
  intro a b h
  unfold idText at h
  exact printUuid_injective (JsString.ofString_injective h)

/-- `fetch-messages`. -/
def fetch (env : Env) (w : World) (data : JobData) : Outcome :=
  let since := data.since.bind fun text => newDate env.otherForms (JsString.ofString text)
  match readId data.groupId, since with
  | some groupId, some since =>
    if hasSummarySince w.rows groupId since.val then
      .ok (some { skipped := some true, reason := some .exists }, w)
    else
      let rows := findForSummary w.rows groupId since.val
      if rows.length = 0 then .ok (some { skipped := some true, reason := some .empty }, w)
      else
        .ok (some
          { skipped := some false
            groupId := some data.groupId
            transcript := some (rows.map (toTranscript env)) }, w)
  -- a text that is no id, or no date, makes the query fail
  | _, _ => .error .fault

/-- `generate-ai-summary`. -/
def generate (env : Env) (w : World) (values : ChildrenValues) : Outcome :=
  match firstChildValue values with
  | none => .ok (some { skipped := some true, reason := some .empty }, w)
  | some child =>
    if child.skipped = some true then
      .ok (some { skipped := some true, reason := some (child.reason.getD .empty) }, w)
    else
      match child.transcript with
      | none => .error .fault
      | some transcript =>
        let (summaryText, w) := summarize env w transcript
        if summaryText = "" then
          .ok (some { skipped := some true, reason := some .blank }, w)
        else
          .ok (some
            { skipped := some false
              groupId := child.groupId
              summaryText := some summaryText }, w)

/-- `save-summary`. -/
def save (env : Env) (w : World) (values : ChildrenValues) : Outcome :=
  match firstChildValue values with
  | none => .ok (some { skipped := some true }, w)
  | some child =>
    if child.skipped = some true then .ok (some { skipped := some true }, w)
    else
      match child.groupId.bind readId, child.summaryText with
      | some groupId, some summaryText =>
        let message := persistAiSummary groupId summaryText env.id env.now
        match w.rows.find? env.id with
        | some _ => .error (.prisma .P2002)
        | none =>
          .ok (some { skipped := some false, message := some message },
            { w with rows := w.rows.put message })
      | _, _ => .error .fault

/-- `publish-summary`. -/
def publish (w : World) (values : ChildrenValues) : Outcome :=
  match firstChildValue values with
  | none => .ok (some { published := some false }, w)
  | some child =>
    if child.skipped = some true then .ok (some { published := some false }, w)
    else
      match child.message with
      | none => .error .fault
      | some message => .ok (some { published := some true }, broadcastNewMessage w message)

/-- `group-summary`. -/
def groupSummary (w : World) (values : ChildrenValues) : Outcome :=
  let published := ((firstChildValue values).bind ReturnValue.published).getD false
  .ok (some { done := some true, published := some published }, w)

/-- `SummaryProcessor.process`: one processor for three of the jobs. -/
def processSummary (env : Env) (w : World) (name : String) (data : JobData)
    (values : ChildrenValues) : Outcome :=
  if name = JOB_FETCH then fetch env w data
  else if name = JOB_SAVE then save env w values
  else if name = JOB_GROUP_SUMMARY then groupSummary w values
  else .ok (none, w)

/-- The worker that drains a queue; a queue without one is an error here. -/
def work (env : Env) (w : World) (queueName name : String) (data : JobData)
    (values : ChildrenValues) : Outcome :=
  if queueName = SUMMARY_QUEUE then processSummary env w name data values
  else if queueName = AI_QUEUE then generate env w values
  else if queueName = NOTIFICATION_QUEUE then publish w values
  else .error .fault

mutual

/-- A job runs when its children have returned. -/
def runFlow (env : Env) (w : World) : FlowJob → Outcome
  | .mk name queueName data _ children => do
    let (values, w) ← runChildren env w children
    work env w queueName name data values

def runChildren (env : Env) (w : World) :
    List FlowJob → Except Exception (ChildrenValues × World)
  | [] => .ok ([], w)
  | job :: jobs => do
    let (value, w) ← runFlow env w job
    let (values, w) ← runChildren env w jobs
    return ((job.jobId, value) :: values, w)

end

/-! ## The flow as a chain -/

theorem ok_bind {α β : Type} (a : α) (f : α → Except Exception β) :
    ((Except.ok a : Except Exception α) >>= f) = f a := rfl

variable {env : Env} {w w' : World} {g : Uuid} {since : Instant} {bucketStart : ℤ}

theorem firstChildValue_singleton (jobId : JsString) (value : Option ReturnValue) :
    firstChildValue [(jobId, value)] = value := rfl

/-- A job with one child. -/
theorem runFlow_single (env : Env) (w : World) (name queueName : String) (data : JobData)
    (jobId : JsString) (job : FlowJob) :
    runFlow env w (.mk name queueName data jobId [job]) = (do
      let (value, w) ← runFlow env w job
      work env w queueName name data [(job.jobId, value)]) := by
  rw [runFlow, runChildren]
  cases runFlow env w job with
  | error e => rfl
  | ok result => rfl

/-- Each job has a worker on its queue. -/
theorem work_generate (data : JobData) (values : ChildrenValues) :
    work env w AI_QUEUE JOB_GENERATE data values = generate env w values := by
  rw [work, if_neg (by decide), if_pos rfl]

theorem work_save (data : JobData) (values : ChildrenValues) :
    work env w SUMMARY_QUEUE JOB_SAVE data values = save env w values := by
  rw [work, if_pos rfl, processSummary, if_neg (by decide), if_pos rfl]

theorem work_publish (data : JobData) (values : ChildrenValues) :
    work env w NOTIFICATION_QUEUE JOB_PUBLISH data values = publish w values := by
  rw [work, if_neg (by decide), if_neg (by decide), if_pos rfl]

theorem work_groupSummary (data : JobData) (values : ChildrenValues) :
    work env w SUMMARY_QUEUE JOB_GROUP_SUMMARY data values = groupSummary w values := by
  rw [work, if_pos rfl, processSummary, if_neg (by decide), if_neg (by decide), if_pos rfl]

theorem work_fetch (data : JobData) (values : ChildrenValues) :
    work env w SUMMARY_QUEUE JOB_FETCH data values = fetch env w data := by
  rw [work, if_pos rfl, processSummary, if_pos rfl]

theorem runFlow_leaf (data : JobData) (jobId : JsString) :
    runFlow env w (.mk JOB_FETCH SUMMARY_QUEUE data jobId []) = fetch env w data := by
  rw [runFlow, runChildren]
  exact work_fetch data []

/-- The stages above `generate`. -/
def finish (env : Env) (w : World) (groupId : JsString) (bucketStart : ℤ)
    (generated : Option ReturnValue) : Outcome := do
  let (saved, w) ← save env w [(stageJobId JOB_GENERATE groupId bucketStart, generated)]
  let (published, w) ← publish w [(stageJobId JOB_SAVE groupId bucketStart, saved)]
  groupSummary w [(stageJobId JOB_PUBLISH groupId bucketStart, published)]

/-- **The flow is its five stages, one after the other.** -/
theorem runFlow_buildSummaryFlow (env : Env) (w : World) (groupId : JsString) (since : Instant)
    (bucketStart : ℤ) :
    runFlow env w (buildSummaryFlow groupId since bucketStart) = (do
      let (fetched, w) ← fetch env w ⟨groupId, some (toISOString since)⟩
      let (generated, w) ← generate env w [(stageJobId JOB_FETCH groupId bucketStart, fetched)]
      finish env w groupId bucketStart generated) := by
  unfold buildSummaryFlow finish
  simp only [runFlow_single, runFlow_leaf, bind_assoc, FlowJob.jobId, work_generate, work_save,
    work_publish, work_groupSummary]

/-! ## What each stage hands on -/

/-- The row of a summary. -/
def summaryRow (env : Env) (g : Uuid) : Message :=
  persistAiSummary g (trimText env.reply) env.id env.now

/-- The prompt of a transcript. -/
def promptOf (env : Env) (rows : List Message) : Prompt :=
  ⟨SUMMARY_SYSTEM_PROMPT, summaryUserPrompt ("\n".intercalate
    (rows.map fun m => transcriptLine (toTranscript env m).sender m.content))⟩

theorem fetch_idText (env : Env) (w : World) (g : Uuid) (since : Instant) :
    fetch env w ⟨idText g, some (toISOString since)⟩ =
      if hasSummarySince w.rows g since.val then
        .ok (some { skipped := some true, reason := some .exists }, w)
      else if (findForSummary w.rows g since.val).length = 0 then
        .ok (some { skipped := some true, reason := some .empty }, w)
      else
        .ok (some
          { skipped := some false
            groupId := some (idText g)
            transcript := some ((findForSummary w.rows g since.val).map (toTranscript env)) }, w) := by
  unfold fetch
  dsimp only
  rw [readId_idText, Option.bind_some, newDate_toISOString]

/-- The world after the model was asked. -/
def World.asked (w : World) (env : Env) (rows : List Message) : World :=
  { w with prompts := w.prompts ++ [promptOf env rows] }

/-- The world after a summary was saved and published. -/
def World.posted (w : World) (message : Message) : World :=
  broadcastNewMessage { w with rows := w.rows.put message } message

/-- What `fetch` returns of a transcript. -/
def fetchedValue (env : Env) (g : Uuid) (rows : List Message) : ReturnValue :=
  { skipped := some false
    groupId := some (idText g)
    transcript := some (rows.map (toTranscript env)) }

/-- What `generate` returns of a reply. -/
def generatedValue (env : Env) (g : Uuid) : ReturnValue :=
  { skipped := some false
    groupId := some (idText g)
    summaryText := some (trimText env.reply) }

/-- What the root returns. -/
def rootValue (published : Bool) : ReturnValue :=
  { done := some true, published := some published }

theorem generate_of_skipped {jobId : JsString} {value : ReturnValue}
    (hskipped : value.skipped = some true) :
    generate env w [(jobId, some value)] =
      .ok (some { skipped := some true, reason := some (value.reason.getD .empty) }, w) := by
  unfold generate
  exact if_pos hskipped

theorem generate_of_transcript {values : ChildrenValues} {child : ReturnValue}
    {lines : List TranscriptLine} (hchild : firstChildValue values = some child)
    (hskipped : child.skipped ≠ some true) (htranscript : child.transcript = some lines) :
    generate env w values =
      .ok (some (if (summarize env w lines).1 = "" then
          { skipped := some true, reason := some .blank }
        else
          { skipped := some false
            groupId := child.groupId
            summaryText := some (summarize env w lines).1 }), (summarize env w lines).2) := by
  unfold generate
  rw [hchild]
  dsimp only
  rw [if_neg hskipped, htranscript]
  dsimp only
  split_ifs
  · rfl
  · rfl

theorem generate_fetchedValue (env : Env) (w : World) (g : Uuid) (rows : List Message)
    (jobId : JsString) :
    generate env w [(jobId, some (fetchedValue env g rows))] =
      .ok (some (if trimText env.reply = "" then { skipped := some true, reason := some .blank }
        else generatedValue env g), w.asked env rows) := by
  have hprompt : (summarize env w (rows.map (toTranscript env))) =
      (trimText env.reply, w.asked env rows) := by
    unfold summarize World.asked promptOf
    rw [List.map_map]
    rfl
  rw [generate_of_transcript (firstChildValue_singleton jobId _) (by simp [fetchedValue]) rfl,
    hprompt]
  rfl

/-- A skip goes up the chain. -/
theorem finish_of_skipped {groupId : JsString} {value : ReturnValue}
    (hskipped : value.skipped = some true) :
    finish env w groupId bucketStart (some value) = .ok (some (rootValue false), w) := by
  have hsave : ∀ jobId, save env w [(jobId, some value)] =
      .ok (some { skipped := some true }, w) := by
    intro jobId
    unfold save
    exact if_pos hskipped
  unfold finish
  rw [hsave]
  rfl

/-- A summary is saved and published. -/
theorem finish_generatedValue (hid : w.rows.find? env.id = none) :
    finish env w (idText g) bucketStart (some (generatedValue env g)) =
      .ok (some (rootValue true), w.posted (summaryRow env g)) := by
  have hsave : ∀ jobId, save env w [(jobId, some (generatedValue env g))] =
      .ok (some { skipped := some false, message := some (summaryRow env g) },
        { w with rows := w.rows.put (summaryRow env g) }) := by
    intro jobId
    unfold save
    rw [firstChildValue_singleton]
    dsimp only [generatedValue]
    rw [if_neg (by decide), Option.bind_some, readId_idText]
    dsimp only
    rw [hid]
    rfl
  unfold finish
  rw [hsave]
  rfl

/-! ## When a summary is due -/

/-- The messages of the window. -/
def InWindow (g : Uuid) (since : Instant) (m : Message) : Prop :=
  m.groupId = g ∧ m.type = .user ∧ m.deletedAt = none ∧ since ≤ m.createdAt

/-- The group has no summary since the bound, there is something to summarise, and the
model has said something. -/
structure IsDue (env : Env) (rows : MessageTable) (g : Uuid) (since : Instant) : Prop where
  noSummary : ∀ m ∈ rows, ¬ (m.groupId = g ∧ m.type = .aiSummary ∧ since ≤ m.createdAt)
  hasMessages : ∃ m ∈ rows, InWindow g since m
  hasReply : trimText env.reply ≠ ""

theorem hasSummarySince_eq_false_iff {rows : MessageTable} :
    hasSummarySince rows g since.val = false ↔
      ∀ m ∈ rows, ¬ (m.groupId = g ∧ m.type = .aiSummary ∧ since ≤ m.createdAt) := by
  rw [← Bool.not_eq_true, hasSummarySince_iff, not_exists]
  exact forall_congr' fun m => not_and

theorem mem_findForSummary_iff {rows : MessageTable} {m : Message} :
    m ∈ findForSummary rows g since.val ↔ m ∈ rows ∧ InWindow g since m := by
  rw [mem_findForSummary]
  unfold InWindow
  constructor
  · rintro ⟨hm, hg, htype, hsince, hdeleted⟩
    exact ⟨hm, hg, htype, hdeleted, hsince⟩
  · rintro ⟨hm, hg, htype, hdeleted, hsince⟩
    exact ⟨hm, hg, htype, hsince, hdeleted⟩

/-- **What becomes of the flow.** -/
theorem runFlow_eq (hid : w.rows.find? env.id = none) :
    runFlow env w (buildSummaryFlow (idText g) since bucketStart) =
      if hasSummarySince w.rows g since.val then .ok (some (rootValue false), w)
      else if (findForSummary w.rows g since.val).length = 0 then .ok (some (rootValue false), w)
      else
        let asked := w.asked env (findForSummary w.rows g since.val)
        if trimText env.reply = "" then .ok (some (rootValue false), asked)
        else .ok (some (rootValue true), asked.posted (summaryRow env g)) := by
  rw [runFlow_buildSummaryFlow, fetch_idText]
  split_ifs with hsummary hempty hblank
  · rw [ok_bind]
    dsimp only
    rw [generate_of_skipped rfl, ok_bind]
    exact finish_of_skipped rfl
  · rw [ok_bind]
    dsimp only
    rw [generate_of_skipped rfl, ok_bind]
    exact finish_of_skipped rfl
  · rw [ok_bind]
    dsimp only
    rw [← fetchedValue, generate_fetchedValue, if_pos hblank, ok_bind]
    exact finish_of_skipped rfl
  · rw [ok_bind]
    dsimp only
    rw [← fetchedValue, generate_fetchedValue, if_neg hblank, ok_bind]
    exact finish_generatedValue hid

/-! ## The whole flow -/

/-- The name a message goes by in the transcript: that of its author, or `Unknown` where there
is no author or the author's row is gone. -/
inductive AuthorName (env : Env) (m : Message) : String → Prop
  | known {id : Uuid} {name : String} (hsender : m.senderId = some id)
      (hname : env.userName id = some name) : AuthorName env m name
  | unknown (h : ∀ id, m.senderId = some id → env.userName id = none) :
      AuthorName env m "Unknown"

/-- The line of a message: a name, a colon and the content. -/
def IsLine (env : Env) (m : Message) (line : String) : Prop :=
  ∃ name, AuthorName env m name ∧ line = name ++ ": " ++ m.content

/-- The prompt is the instruction and then a line for each of the messages, in their order. -/
def AsksAbout (env : Env) (rows : List Message) (prompt : String) : Prop :=
  ∃ lines, List.Forall₂ (IsLine env) rows lines ∧
    prompt = "Summarize this conversation:\n\n" ++ "\n".intercalate lines

theorem isLine_transcriptLine (env : Env) (m : Message) :
    IsLine env m (transcriptLine (toTranscript env m).sender m.content) := by
  refine ⟨(toTranscript env m).sender, ?_, rfl⟩
  unfold toTranscript
  dsimp only
  cases hsender : m.senderId with
  | none => exact .unknown fun id hid => by rw [hsender] at hid; cases hid
  | some id =>
    cases hname : env.userName id with
    | none =>
      rw [Option.bind_some, hname]
      refine .unknown fun id' hid => ?_
      obtain rfl := Option.some.inj (hsender.symm.trans hid)
      exact hname
    | some name =>
      rw [Option.bind_some, hname]
      exact .known hsender hname

theorem asksAbout_promptOf (env : Env) (rows : List Message) :
    AsksAbout env rows (promptOf env rows).prompt := by
  refine ⟨rows.map fun m => transcriptLine (toTranscript env m).sender m.content, ?_, rfl⟩
  rw [List.forall₂_map_right_iff, List.forall₂_same]
  exact fun m _ => isLine_transcriptLine env m

/-- What a flow does that posts its summary. -/
structure Posts (env : Env) (g : Uuid) (since : Instant) (w w' : World)
    (value : ReturnValue) : Prop where
  published : value.published = some true
  /-- One row, which is the only one sent, once, to the room of the group. -/
  row : ∃ row : Message, row ∉ w.rows ∧ row.groupId = g ∧ row.senderId = none ∧
    row.type = .aiSummary ∧ row.content = trimText env.reply ∧
    (∀ m, m ∈ w'.rows ↔ m = row ∨ m ∈ w.rows) ∧
    w'.broadcasts = w.broadcasts ++
      [⟨roomFor (printUuid g), "new_message", .messageCreated row⟩]
  /-- The model was asked once, about the messages of the window, oldest first. -/
  transcript : ∃ (rows : List Message) (prompt : String), rows.Nodup ∧
    (∀ m, m ∈ rows ↔ m ∈ w.rows ∧ InWindow g since m) ∧
    rows.Pairwise (fun m m' => m.createdAt ≤ m'.createdAt) ∧ AsksAbout env rows prompt ∧
    w'.prompts = w.prompts ++ [⟨SUMMARY_SYSTEM_PROMPT, prompt⟩]

/-- What a flow does that has nothing to post. -/
structure Skips (w w' : World) (value : ReturnValue) : Prop where
  published : value.published = some false
  rows : w'.rows = w.rows
  broadcasts : w'.broadcasts = w.broadcasts

theorem pairwise_findForSummary (rows : MessageTable) (groupId : Uuid) (since : ℤ) :
    (findForSummary rows groupId since).Pairwise fun m m' => m.createdAt ≤ m'.createdAt := by
  let oldest : Message → Message → Prop := fun m m' => m.createdAt ≤ m'.createdAt
  have : Std.Total oldest := ⟨fun m m' => le_total m.createdAt m'.createdAt⟩
  have : IsTrans Message oldest := ⟨fun _ _ _ h h' => le_trans h h'⟩
  exact List.pairwise_insertionSort oldest _

theorem nodup_findForSummary (rows : MessageTable) (groupId : Uuid) (since : ℤ) :
    (findForSummary rows groupId since).Nodup := by
  have hrows : rows.rows.Nodup := List.Nodup.of_map _ rows.nodup
  exact (List.perm_insertionSort _ _).nodup_iff.mpr (hrows.filter _)

/-- A flow that leaves the rows alone inserts nothing. -/
theorem Skips.no_insert {value : ReturnValue} (h : Skips w w' value) :
    ¬ ∃ m ∈ w'.rows, m ∉ w.rows ∧ m.type = .aiSummary := by
  rintro ⟨m, hm, hnew, -⟩
  exact hnew (h.rows ▸ hm)

theorem Posts.inserts {value : ReturnValue} (h : Posts env g since w w' value) :
    ∃ m ∈ w'.rows, m ∉ w.rows ∧ m.type = .aiSummary := by
  obtain ⟨row, hnew, -, -, htype, -, hrows, -⟩ := h.row
  exact ⟨row, (hrows row).mpr (Or.inl rfl), hnew, htype⟩

/-- **The flow posts** when all three conditions hold. -/
theorem posts_posted (hid : w.rows.find? env.id = none) :
    Posts env g since w ((w.asked env (findForSummary w.rows g since.val)).posted (summaryRow env g))
      (rootValue true) := by
  have hfresh : ∀ m ∈ w.rows, m.id ≠ env.id := Table.find?_eq_none_iff.mp hid
  refine ⟨rfl, ⟨summaryRow env g, fun hmem => hfresh _ hmem rfl, rfl, rfl, rfl, rfl, fun m => ?_,
    rfl⟩, ⟨findForSummary w.rows g since.val, _, nodup_findForSummary _ _ _,
    fun m => mem_findForSummary_iff, pairwise_findForSummary _ _ _, asksAbout_promptOf env _, rfl⟩⟩
  refine Table.mem_put.trans (or_congr_right (and_iff_left_of_imp fun hm => ?_))
  exact hfresh m hm

/-- **The flow of a group is consistent end to end.**  For every table, group, bound and
reply, with a fresh id for the insert and nobody else around: the flow inserts a summary
exactly if one is due; then it posts that one row and says so; otherwise it does nothing
and says so. -/
theorem summary_flow_is_consistent (env : Env) (w : World) (g : Uuid) (since : Instant)
    (bucketStart : ℤ) (hid : w.rows.find? env.id = none) :
    ∃ value w', runFlow env w (buildSummaryFlow (idText g) since bucketStart) =
        .ok (some value, w') ∧
      ((∃ m ∈ w'.rows, m ∉ w.rows ∧ m.type = .aiSummary) ↔ IsDue env w.rows g since) ∧
      (IsDue env w.rows g since → Posts env g since w w' value) ∧
      (¬ IsDue env w.rows g since → Skips w w' value) := by
  have hskips : ∀ {w' : World}, w'.rows = w.rows → w'.broadcasts = w.broadcasts →
      ¬ IsDue env w.rows g since →
      ((∃ m ∈ w'.rows, m ∉ w.rows ∧ m.type = .aiSummary) ↔ IsDue env w.rows g since) ∧
      (IsDue env w.rows g since → Posts env g since w w' (rootValue false)) ∧
      (¬ IsDue env w.rows g since → Skips w w' (rootValue false)) := by
    intro w' hrows hbroadcasts hdue
    have hskip : Skips w w' (rootValue false) := ⟨rfl, hrows, hbroadcasts⟩
    exact ⟨iff_of_false hskip.no_insert hdue, fun h => absurd h hdue, fun _ => hskip⟩
  rw [runFlow_eq hid]
  split_ifs with hsummary hempty hblank
  · refine ⟨_, _, rfl, hskips rfl rfl fun hdue => ?_⟩
    exact Bool.false_ne_true
      ((hasSummarySince_eq_false_iff.mpr hdue.noSummary).symm.trans hsummary)
  · refine ⟨_, _, rfl, hskips rfl rfl fun hdue => ?_⟩
    obtain ⟨m, hm, hwindow⟩ := hdue.hasMessages
    have hmem : m ∈ findForSummary w.rows g since.val := mem_findForSummary_iff.mpr ⟨hm, hwindow⟩
    rw [List.length_eq_zero_iff.mp hempty] at hmem
    exact List.not_mem_nil hmem
  · exact ⟨_, _, rfl, hskips rfl rfl fun hdue => hdue.hasReply hblank⟩
  · have hdue : IsDue env w.rows g since := by
      refine ⟨hasSummarySince_eq_false_iff.mp (Bool.eq_false_iff.mpr hsummary), ?_, hblank⟩
      obtain ⟨m, hm⟩ := List.exists_mem_of_length_pos (Nat.pos_of_ne_zero hempty)
      exact ⟨m, mem_findForSummary_iff.mp hm⟩
    have hposts : Posts env g since w
        ((w.asked env (findForSummary w.rows g since.val)).posted (summaryRow env g))
        (rootValue true) := posts_posted hid
    exact ⟨_, _, rfl, iff_of_true hposts.inserts hdue, fun _ => hposts, fun h => absurd hdue h⟩

/-! ## One flow -/

/-- User 5 has written one message in group 2. -/
def oneMessage : World :=
  ⟨Table.empty.put ⟨1, 2, some 5, "hello", .user, epoch, none, none, none, none, none⟩, [], []⟩

/-- The model answers between blanks. -/
def someReply : Env := ⟨fun _ => some "Ann", " They said hello.\n", 9, epoch, fun _ => none⟩

theorem summary_flow_is_consistent_oneMessage :
    ∃ value w', runFlow someReply oneMessage (buildSummaryFlow (idText 2) epoch 0) =
      .ok (some value, w') ∧ Posts someReply 2 epoch oneMessage w' value := by
  obtain ⟨value, w', hrun, -, hposts, -⟩ :=
    summary_flow_is_consistent someReply oneMessage 2 epoch 0 rfl
  refine ⟨value, w', hrun, hposts ⟨fun m hm => ?_, ?_, by decide⟩⟩
  · obtain ⟨rfl, -⟩ | hm := Table.mem_put.mp hm
    · exact fun h => absurd h.2.1 (by decide)
    · exact absurd hm.1 (Table.not_mem_empty m)
  · exact ⟨_, Table.mem_put_self _ _, rfl, rfl, rfl, le_refl epoch⟩

end Flow
end Summary
end GroupChat
