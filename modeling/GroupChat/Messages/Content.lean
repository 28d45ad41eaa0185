import GroupChat.Messages.Sends

/-!
# What is stored respects the limits

Message content enters through five doors: two that create a message from a
text, one that edits one, one that uploads a file with a caption, and the
deletion, which blanks it.  Each door prepares the content by a rule of its own
before it calls the service, and the column behind them is unbounded.

`limitsHold_iff` says when the rows keep to the limits of the domain: in the runs
in which no upload with a caption of more than four thousand characters, as the
validator counts them, reaches its insert.  The other doors need no condition, in any
interleaving.
-/

namespace GroupChat
namespace Messages

open Common Database Text Transition

/-! ## The doors -/

/-- What a client can ask for, once the guard and the pipes have passed the ids. -/
inductive Input where
  | post (groupId senderId : Uuid) (content : JsString)
  | patch (groupId messageId userId : Uuid) (content : JsString)
  /-- The caption is a field of the form, which may be missing. -/
  | upload (groupId senderId : Uuid) (caption : Option JsString) (attachment : Attachment)
  | delete (groupId messageId userId : Uuid)
  /-- The socket event; the content may be missing. -/
  | send (groupId senderId : Uuid) (content : Option JsString)

variable {validator : Validator}

/-- The content of an HTTP body, as a text to store.  A string with a stray half
of a surrogate pair has none, and the statement that carries it fails. -/
def bodyContent (validator : Validator) (content : JsString) : Option String :=
  match createMessageDto validator content with
  | .error _ => none
  | .ok content => content.text?

/-- The caption of an upload, trimmed by hand and not validated. -/
def caption (content : Option JsString) : Option String := (content.getD []).trim.text?

/-- The content of a socket event. -/
def eventContent (content : Option JsString) : Option String :=
  match checkContent content with
  | .error _ => none
  | .ok content => content.text?

/-- The service call an input leads to, if it is not refused. -/
def Input.request (validator : Validator) : Input → Option Request
  | .post groupId senderId content => (bodyContent validator content).map (.create groupId senderId)
  | .patch groupId messageId userId content =>
    (bodyContent validator content).map (.edit groupId messageId userId)
  | .upload groupId senderId content attachment =>
    (caption content).map fun text => .createWithAttachment groupId senderId text attachment
  | .delete groupId messageId userId => some (.softDelete groupId messageId userId)
  | .send groupId senderId content => (eventContent content).map (.create groupId senderId)

/-- What may happen next. -/
inductive Act where
  /-- A client calls. -/
  | input (c : ℕ) (i : Input)
  /-- A call that was made takes its next step. -/
  | service (a : Action)

/-- The service behind its doors: a call is made only through one of them. -/
def serve (validator : Validator) (s : State) : Act → Option State
  | .input c i =>
    match i.request validator with
    | none => some s
    | some r => step s (.request c r)
  | .service (.request _ _) => none
  | .service a => step s a

theorem request_upload (groupId senderId : Uuid) (content : Option JsString)
    (attachment : Attachment) :
    Input.request validator (.upload groupId senderId content attachment) =
      (caption content).map fun text =>
        .createWithAttachment groupId senderId text attachment :=
  rfl

/-- An input that is not refused makes its call. -/
theorem serve_input {s : State} {c : ℕ} {i : Input} {r : Request} (h : i.request validator = some r) :
    serve validator s (.input c i) = step s (.request c r) := by
  show (match i.request validator with
    | none => some s
    | some r => step s (.request c r)) = _
  rw [h]

/-! ## The limits -/

/-- The content of a message that was written as a text. -/
structure WellWritten (validator : Validator) (content : String) : Prop where
  trimmed : (JsString.ofString content).trim = JsString.ofString content
  bounded : validator.length (JsString.ofString content) ≤ MESSAGE_CONTENT_MAX_LENGTH
  nonempty : content ≠ ""

/-- The limits of the domain. -/
structure RespectsLimits (validator : Validator) (m : Message) : Prop where
  trimmed : (JsString.ofString m.content).trim = JsString.ofString m.content
  bounded : validator.length (JsString.ofString m.content) ≤ MESSAGE_CONTENT_MAX_LENGTH
  nonempty : m.content ≠ "" ∨ m.attachmentUrl.isSome

/-- Every user message that is not deleted respects the limits. -/
def LimitsHold (validator : Validator) (rows : MessageTable) : Prop :=
  ∀ m ∈ rows, m.type = .user → m.deletedAt = none → RespectsLimits validator m

/-- The upload about to insert its message has a caption of at most four thousand
characters. -/
def CaptionFits (validator : Validator) (s : State) (act : Act) : Prop :=
  ∀ c id now data attachment, act = .service (.statement c id now) →
    s.calls c = .persisting data → s.rows.find? id = none → data.attachment = some attachment →
      validator.length (JsString.ofString data.content) ≤ MESSAGE_CONTENT_MAX_LENGTH

/-! ## What comes through the doors -/

theorem wellWritten_of_text? {us : JsString} {s : String} (h : us.trim.text? = some s)
    (hne : us.trim ≠ []) (hcount : validator.length us.trim ≤ MESSAGE_CONTENT_MAX_LENGTH) :
    WellWritten validator s := by
  have hback : JsString.ofString s = us.trim := ofString_of_text? h
  refine ⟨?_, ?_, ?_⟩
  · rw [hback, trim_trim]
  · rw [hback]
    exact hcount
  · rintro rfl
    exact hne hback.symm

theorem wellWritten_of_bodyContent {content : JsString} {s : String}
    (h : bodyContent validator content = some s) : WellWritten validator s := by
  unfold bodyContent createMessageDto at h
  dsimp only at h
  split_ifs at h with hempty hlong
  refine wellWritten_of_text? h ?_ (Nat.not_lt.mp hlong)
  rw [← validator.length_pos_iff]
  omega

theorem wellWritten_of_eventContent {content : Option JsString} {s : String}
    (h : eventContent content = some s) : WellWritten validator s := by
  unfold eventContent checkContent at h
  dsimp only at h
  split_ifs at h with hrefused
  rw [not_or, Nat.not_lt] at hrefused
  exact wellWritten_of_text? h hrefused.1 ((validator.length_le _).trans hrefused.2)

/-- What a call may still write. -/
def Prepared (validator : Validator) : Call → Prop
  | .persisting data => data.type = .user ∧
    (JsString.ofString data.content).trim = JsString.ofString data.content ∧
      (data.attachment = none → WellWritten validator data.content)
  | .asserting _ _ _ (.edit content) => WellWritten validator content
  | .updating _ (.edit content) => WellWritten validator content
  | _ => True

/-- **Every door prepares what it lets in**; only the caption of an upload is not
measured. -/
theorem prepared_of_request {i : Input} {r : Request} (h : i.request validator = some r) :
    Prepared validator r.start := by
  cases i with
  | post groupId senderId content =>
    obtain ⟨s, hs, rfl⟩ := Option.map_eq_some_iff.mp h
    have hwritten : WellWritten validator s := wellWritten_of_bodyContent hs
    exact ⟨rfl, hwritten.trimmed, fun _ => hwritten⟩
  | patch groupId messageId userId content =>
    obtain ⟨s, hs, rfl⟩ := Option.map_eq_some_iff.mp h
    exact wellWritten_of_bodyContent hs
  | upload groupId senderId content attachment =>
    obtain ⟨s, hs, rfl⟩ := Option.map_eq_some_iff.mp h
    refine ⟨rfl, ?_, fun hnone => absurd hnone (by simp)⟩
    show (JsString.ofString s).trim = JsString.ofString s
    rw [ofString_of_text? hs, trim_trim]
  | delete groupId messageId userId =>
    rw [← Option.some.inj h]
    trivial
  | send groupId senderId content =>
    obtain ⟨s, hs, rfl⟩ := Option.map_eq_some_iff.mp h
    have hwritten : WellWritten validator s := wellWritten_of_eventContent hs
    exact ⟨rfl, hwritten.trimmed, fun _ => hwritten⟩

/-! ## One step -/

/-- Every call still writes only what a door prepared. -/
def CallsPrepared (validator : Validator) (s : State) : Prop := ∀ c, Prepared validator (s.calls c)

theorem CallsPrepared.goto {s u : State} (h : CallsPrepared validator s) {c : ℕ} {pc : Call}
    (hu : u.calls = Function.update s.calls c pc) (hpc : Prepared validator pc) :
    CallsPrepared validator u := by
  intro d
  rw [hu]
  by_cases hd : d = c
  · subst hd
    rw [Function.update_self]
    exact hpc
  · rw [Function.update_of_ne hd]
    exact h d

/-- A call's own steps prepare nothing new. -/
theorem CallsPrepared.of_step {s t : State} {a : Action} (hs : CallsPrepared validator s)
    (h : step s a = some t) (ha : ∀ c r, a = .request c r → Prepared validator r.start) :
    CallsPrepared validator t := by
  cases a with
  | request c r =>
    simp only [step] at h
    split at h
    · rw [← Option.some.inj h]
      exact hs.goto rfl (ha c r rfl)
    · cases h
  | statement c id now =>
    have hc : Prepared validator (s.calls c) := hs c
    simp only [step] at h
    split at h
    · rw [← Option.some.inj h]
      unfold State.insert
      split
      · exact hs.goto rfl trivial
      · exact hs.goto rfl trivial
    · next groupId messageId userId change hpc =>
      split at h
      · rw [← Option.some.inj h]
        exact hs.goto rfl trivial
      · rw [← Option.some.inj h]
        refine hs.goto rfl ?_
        rw [hpc] at hc
        cases change with
        | edit content => exact hc
        | softDelete => trivial
    · rw [← Option.some.inj h]
      unfold State.update
      split
      · exact hs.goto rfl trivial
      · exact hs.goto rfl trivial
    · cases h
  | emit c =>
    simp only [step] at h
    split at h
    · rw [← Option.some.inj h]
      exact hs.goto rfl trivial
    · cases h
  | fault c =>
    simp only [step] at h
    split at h
    · rw [← Option.some.inj h]
      exact hs.goto rfl trivial
    · rw [← Option.some.inj h]
      exact hs.goto rfl trivial
    · rw [← Option.some.inj h]
      exact hs.goto rfl trivial
    · cases h

/-- A step behind the doors is a step of the service, or none at all. -/
theorem serve_cases {s t : State} {act : Act} (h : serve validator s act = some t) :
    t = s ∨
      (∃ c i r, act = .input c i ∧ i.request validator = some r ∧ step s (.request c r) = some t) ∨
      ∃ a, act = .service a ∧ (∀ c r, a ≠ .request c r) ∧ step s a = some t := by
  cases act with
  | input c i =>
    cases hr : i.request validator with
    | none =>
      simp only [serve, hr] at h
      exact Or.inl (Option.some.inj h).symm
    | some r =>
      rw [serve_input hr] at h
      exact Or.inr (Or.inl ⟨c, i, r, rfl, hr, h⟩)
  | service a =>
    cases a with
    | request c r => cases h
    | statement c id now => exact Or.inr (Or.inr ⟨_, rfl, by simp, h⟩)
    | emit c => exact Or.inr (Or.inr ⟨_, rfl, by simp, h⟩)
    | fault c => exact Or.inr (Or.inr ⟨_, rfl, by simp, h⟩)

theorem CallsPrepared.of_serve {s t : State} {act : Act} (hs : CallsPrepared validator s)
    (h : serve validator s act = some t) : CallsPrepared validator t := by
  rcases serve_cases h with rfl | ⟨c, i, r, -, hr, hstep⟩ | ⟨a, -, ha, hstep⟩
  · exact hs
  · refine hs.of_step hstep fun c' r' hrequest => ?_
    cases hrequest
    exact prepared_of_request hr
  · exact hs.of_step hstep fun c r hrequest => absurd hrequest (ha c r)

/-- The row an edit leaves behind respects the limits. -/
theorem respectsLimits_edit {content : String} (h : WellWritten validator content) (now : Instant)
    (m : Message) : RespectsLimits validator ((Change.edit content).apply now m) :=
  ⟨h.trimmed, h.bounded, Or.inl h.nonempty⟩

/-- **The exact step condition.**  From rows that respect the limits, a step keeps
them exactly if the upload it may be inserting has a caption that fits. -/
theorem limitsHold_serve_iff {s t : State} {act : Act} (hs : CallsPrepared validator s)
    (hrows : LimitsHold validator s.rows) (h : serve validator s act = some t) :
    LimitsHold validator t.rows ↔ CaptionFits validator s act := by
  constructor
  · rintro ht c id now data attachment rfl hpc hfree hattachment
    have hprepared : Prepared validator (s.calls c) := hs c
    rw [hpc] at hprepared
    have ht' : t.rows = s.rows.put (data.toRow id now) := by
      have hinsert : s.rows.find? (data.toRow id now).id = none := hfree
      simp only [serve, step, hpc, State.insert, hinsert, Option.some.injEq] at h
      rw [← h]
      rfl
    refine (ht (data.toRow id now) ?_ hprepared.1 rfl).bounded
    rw [ht']
    exact Table.mem_put_self _ _
  · intro hfits m hm huser hlive
    rcases serve_cases h with rfl | ⟨c, i, r, rfl, hr, hstep⟩ | ⟨a, rfl, ha, hstep⟩
    · exact hrows m hm huser hlive
    · have hsame : t.rows = s.rows := by
        simp only [step] at hstep
        split at hstep
        · rw [← Option.some.inj hstep]
          rfl
        · cases hstep
      rw [hsame] at hm
      exact hrows m hm huser hlive
    · rcases rows_of_step hstep with hsame | ⟨x, hins, hput⟩ | ⟨change, now, x, hover, hput⟩
      · rw [hsame] at hm
        exact hrows m hm huser hlive
      · rw [hput, Table.mem_put] at hm
        rcases hm with rfl | ⟨hm, -⟩
        · obtain ⟨c, id, now, data, rfl, hpc, rfl, hfree⟩ := hins
          have hprepared : Prepared validator (s.calls c) := hs c
          rw [hpc] at hprepared
          obtain ⟨-, htrimmed, hwritten⟩ := hprepared
          cases hattachment : data.attachment with
          | none =>
            have hw := hwritten hattachment
            exact ⟨hw.trimmed, hw.bounded, Or.inl hw.nonempty⟩
          | some attachment =>
            refine ⟨htrimmed, hfits c id now data attachment rfl hpc hfree hattachment, Or.inr ?_⟩
            show (data.attachment.map Attachment.url).isSome
            rw [hattachment]
            rfl
        · exact hrows m hm huser hlive
      · rw [hput, Table.mem_put] at hm
        rcases hm with rfl | ⟨hm, -⟩
        · obtain ⟨c, id, messageId, rfl, hpc, -⟩ := hover
          have hprepared : Prepared validator (s.calls c) := hs c
          rw [hpc] at hprepared
          cases change with
          | edit content => exact respectsLimits_edit hprepared now x
          | softDelete => cases hlive
        · exact hrows m hm huser hlive

/-! ## Whole runs -/

/-- **When what is stored respects the limits.**  Along a run of calls from an
empty table every live user message respects the limits exactly if no upload with
a caption of more than four thousand characters reaches its insert. -/
theorem limitsHold_iff (validator : Validator) (acts : List Act) :
    AllStates (serve validator) (fun s => LimitsHold validator s.rows) (start Table.empty) acts ↔
      AllSteps (serve validator) (CaptionFits validator) (start Table.empty) acts := by
  have hcalls : CallsPrepared validator (start Table.empty) := fun _ => trivial
  have hrows : LimitsHold validator (start Table.empty).rows := fun m hm =>
    absurd hm (Table.not_mem_empty m)
  exact allStates_iff_allSteps (fun _ _ _ hs h => CallsPrepared.of_serve hs h)
    (fun _ _ _ hs hlimits h => limitsHold_serve_iff hs hlimits h) hcalls hrows acts

/-! ## An upload with a long caption -/

/-- A caption of four thousand and one letters. -/
def longCaption : JsString := List.replicate 4001 0x61

/-- The caption's upload, and its insert. -/
def longCaptionRun : List Act :=
  [.input 0 (.upload 1 2 (some longCaption) ⟨"url", "name", "mime"⟩),
    .service (.statement 0 3 epoch)]

theorem scalars_replicate_letter (n : ℕ) :
    scalars (List.replicate n 0x61) = List.replicate n (.char 'a') := by
  induction n with
  | zero => rfl
  | succ n ih =>
    cases n with
    | zero => rfl
    | succ n =>
      rw [List.replicate_succ, List.replicate_succ]
      rw [List.replicate_succ] at ih
      unfold scalars
      rw [if_neg (by decide), if_neg (by decide), ih]
      rfl

theorem trim_longCaption : longCaption.trim = longCaption :=
  trim_eq_self (fun u hu => by rw [List.eq_of_mem_replicate (List.mem_of_head? hu)]; decide)
    (fun u hu => by rw [List.eq_of_mem_replicate (List.mem_of_getLast? hu)]; decide)

/-- The caption is let in as it is. -/
theorem caption_longCaption :
    caption (some longCaption) = some (String.ofList (List.replicate 4001 'a')) := by
  have hread : ∀ n : ℕ, (List.replicate n (Scalar.char 'a')).mapM Scalar.char? =
      some (List.replicate n 'a') := by
    intro n
    induction n with
    | zero => rfl
    | succ n ih =>
      rw [List.replicate_succ, List.mapM_cons, ih]
      rfl
  unfold caption JsString.text?
  rw [Option.getD_some, trim_longCaption]
  unfold longCaption
  rw [scalars_replicate_letter, hread, Option.map_some]

theorem length_longCaption (validator : Validator) : validator.length longCaption = 4001 := by
  have hplain : ∀ u ∈ longCaption, ¬IsSelector u := by
    intro u hu
    rw [List.eq_of_mem_replicate hu]
    decide
  rw [validator.length_eq _ hplain]
  unfold longCaption
  rw [scalars_replicate_letter, List.length_replicate]

/-- The caption is stored as it is, whatever the validator. -/
theorem longCaption_stored (validator : Validator) :
    ¬ AllStates (serve validator) (fun s => LimitsHold validator s.rows) (start Table.empty)
        longCaptionRun := by
  intro h
  have hrequest : Input.request validator
      (.upload 1 2 (some longCaption) ⟨"url", "name", "mime"⟩) =
        some (.createWithAttachment 1 2 (String.ofList (List.replicate 4001 'a'))
          ⟨"url", "name", "mime"⟩) := by
    rw [request_upload, caption_longCaption, Option.map_some]
  have hback : JsString.ofString (String.ofList (List.replicate 4001 'a')) = longCaption := by
    have htext : longCaption.trim.text? = some (String.ofList (List.replicate 4001 'a')) :=
      caption_longCaption
    rw [ofString_of_text? htext, trim_longCaption]
  generalize String.ofList (List.replicate 4001 'a') = text at hrequest hback
  have hcall : serve validator (start Table.empty)
      (.input 0 (.upload 1 2 (some longCaption) ⟨"url", "name", "mime"⟩)) =
      some ((start Table.empty).goto 0
        (.persisting ⟨1, some 2, text, .user, some ⟨"url", "name", "mime"⟩⟩)) := by
    rw [serve_input hrequest]
    rfl
  have hcalls : CallsPrepared validator (start Table.empty) := fun _ => trivial
  have hinserting : CallsPrepared validator ((start Table.empty).goto 0
      (.persisting ⟨1, some 2, text, .user, some ⟨"url", "name", "mime"⟩⟩)) :=
    hcalls.of_serve hcall
  obtain ⟨-, hrest⟩ := h
  obtain ⟨hrows, hstored⟩ := hrest _ hcall
  have hafter := hstored _ rfl
  have hfits := (limitsHold_serve_iff hinserting hrows rfl).mp hafter 0 3 epoch _ _ rfl rfl rfl rfl
  rw [hback, length_longCaption] at hfits
  unfold MESSAGE_CONTENT_MAX_LENGTH at hfits
  omega

/-- **The limits do not always hold.** -/
theorem not_limitsHold_longCaptionRun :
    ¬ AllStates (serve sequenceValidator) (fun s => LimitsHold sequenceValidator s.rows)
        (start Table.empty) longCaptionRun :=
  longCaption_stored sequenceValidator

end Messages
end GroupChat
