import GroupChat.Client.GroupMessages
import GroupChat.Client.Members
import GroupChat.Transition.Run

/-!
# The cache and the sessions of a page lifetime

What requests bring and what the socket brings goes into one cache, which is created with
the page and outlives the sessions.  A logout clears the tokens and the user, and closes the
socket; a forced logout does the same.  Neither touches the cache, whose entries are under
keys that do not name the user.

`seesNothing_iff` says what the next user can see of it.  The data the hooks return before
an answer arrives, and when it is a refusal, does not depend on what earlier sessions
fetched or received exactly if every entry they filled has been taken out again: by the
collection of entries that nothing has used for a while, or, for the detail of a group, by
leaving it.
-/

namespace GroupChat
namespace Client
namespace QueryCache

open Common Database Groups Messages Transition
open Messages.Broadcasts (Snapshot)

/-! ## The cache -/

structure GroupSummary where
  group : Group
  /-- The number of its members and of its messages. -/
  count : Option (ℕ × ℕ)
deriving DecidableEq

/-- `groupKeys` and `messageKeys`. -/
inductive QueryKey where
  /-- `groupKeys.all` -/
  | all
  | detail (id : Uuid)
  | history (groupId : Uuid)
  | live (groupId : Uuid)
  | search (groupId : Uuid) (q : String)
deriving DecidableEq

/-- The data under a key. -/
abbrev QueryKey.Data : QueryKey → Type
  | .all => List GroupSummary
  | .detail _ => GroupDetail
  | .history _ => List MessagePage
  | .live _ | .search _ _ => List Snapshot

/-- The entries, of which there are none at first. -/
abbrev Cache := (key : QueryKey) → Option key.Data

def Cache.empty : Cache := fun _ => none

/-- An updater that returns nothing leaves the entry as it is. -/
def Cache.setQueryData (c : Cache) (key : QueryKey) (update : Option key.Data → Option key.Data) :
    Cache :=
  match update (c key) with
  | none => c
  | some data => Function.update c key (some data)

def Cache.removeQueries (c : Cache) (key : QueryKey) : Cache := Function.update c key none

/-! ## What fills it -/

/-- What a request brings. -/
inductive Response where
  | groups (data : List GroupSummary)
  | group (id : Uuid) (data : GroupDetail)
  /-- The pages of the history, after a fetch of all or of one more. -/
  | messages (groupId : Uuid) (pages : List MessagePage)
  | search (groupId : Uuid) (q : String) (data : List Snapshot)
deriving DecidableEq

def Response.key : Response → QueryKey
  | .groups _ => .all
  | .group id _ => .detail id
  | .messages groupId _ => .history groupId
  | .search groupId q _ => .search groupId q

def Response.data : (r : Response) → r.key.Data
  | .groups data => data
  | .group _ data => data
  | .messages _ pages => pages
  | .search _ _ data => data

def Cache.fetched (c : Cache) (r : Response) : Cache := Function.update c r.key (some r.data)

/-- What the socket brings, with the group it names. -/
inductive Push where
  | message (groupId : Uuid) (e : ServerEvent)
  | memberJoined (groupId : Uuid) (member : GroupMemberView)
  | memberLeft (groupId userId : Uuid)
  | ownerChanged (groupId previousOwnerId newOwnerId : Uuid)
  | readReceipt (groupId userId : Uuid) (lastReadAt : Instant)
deriving DecidableEq

/-- The members of a cached detail; where nothing is cached, nothing happens. -/
def Cache.setMembers (c : Cache) (groupId : Uuid)
    (update : List GroupMemberView → List GroupMemberView) : Cache :=
  c.setQueryData (.detail groupId) fun (old : Option GroupDetail) =>
    old.map fun detail => { detail with members := update detail.members }

/-- The live buffer is created where there is none. -/
def Cache.setLive (c : Cache) (groupId : Uuid) (e : ServerEvent) : Cache :=
  c.setQueryData (.live groupId) fun (old : Option (List Snapshot)) =>
    some (e.onLive (old.getD []))

def Cache.setHistory (c : Cache) (groupId : Uuid) (e : ServerEvent) : Cache :=
  c.setQueryData (.history groupId) fun (old : Option (List MessagePage)) =>
    old.map (List.map e.onPage)

/-- The handlers of `SocketProvider`. -/
def Cache.received (c : Cache) : Push → Cache
  | .message groupId (.newMessage message) => c.setLive groupId (.newMessage message)
  | .message groupId e => (c.setLive groupId e).setHistory groupId e
  | .memberJoined groupId member =>
    c.setMembers groupId fun members => onMemberJoined members member
  | .memberLeft groupId userId => c.setMembers groupId fun members => onMemberLeft members userId
  | .ownerChanged groupId previousOwnerId newOwnerId =>
    c.setMembers groupId fun members => onOwnerChanged members previousOwnerId newOwnerId
  | .readReceipt groupId userId lastReadAt =>
    c.setMembers groupId fun members => onReadReceipt members userId lastReadAt

/-! ## Sessions -/

/-- The user who is logged in, and the cache. -/
structure Page where
  user : Option Uuid
  cache : Cache

def Page.start : Page := ⟨none, .empty⟩

inductive Act where
  | login (userId : Uuid)
  | logout
  /-- The tokens could not be refreshed. -/
  | forcedLogout
  /-- A request is answered; its session may be over by then. -/
  | fetched (r : Response)
  /-- The socket, which is open while a user is logged in, brings something. -/
  | received (p : Push)
  /-- `useLeaveGroup` has succeeded. -/
  | left (id : Uuid)
  /-- An entry has not been used for a while. -/
  | collected (key : QueryKey)
deriving DecidableEq

def Page.step (s : Page) : Act → Option Page
  | .login userId => if s.user.isNone then some { s with user := some userId } else none
  | .logout => if s.user.isSome then some { s with user := none } else none
  | .forcedLogout => some { s with user := none }
  | .fetched r => some { s with cache := s.cache.fetched r }
  | .received p => if s.user.isSome then some { s with cache := s.cache.received p } else none
  | .left id =>
    if s.user.isSome then some { s with cache := s.cache.removeQueries (.detail id) } else none
  | .collected key => some { s with cache := s.cache.removeQueries key }

/-! ## What a user sees -/

/-- Where the requests of the user stand: without an answer, or refused. -/
inductive Asked where
  | pending
  | refused
deriving DecidableEq

/-- What `useQuery` returns. -/
structure QueryResult (D : Type*) where
  data : Option D
  isLoading : Bool
deriving DecidableEq

/-- A refusal leaves the data as it is. -/
def queryResult {D : Type*} (data : Option D) (asked : Asked) : QueryResult D :=
  ⟨data, data.isNone && asked = .pending⟩

def Cache.useGroups (c : Cache) (asked : Asked) : QueryResult (List GroupSummary) :=
  queryResult (c .all) asked

def Cache.useGroup (c : Cache) (id : Uuid) (asked : Asked) : QueryResult GroupDetail :=
  queryResult (c (.detail id)) asked

/-- What `useGroupMessages` returns. -/
structure GroupMessages where
  messages : List Snapshot
  isLoading : Bool
  hasOlder : Bool
deriving DecidableEq

def groupMessages (history : Option (List MessagePage)) (live : Option (List Snapshot))
    (asked : Asked) : GroupMessages where
  messages := Client.messages history (live.getD [])
  isLoading := (queryResult history asked).isLoading
  hasOlder := ((history.getD []).getLast?.bind MessagePage.nextCursor).isSome

def Cache.useGroupMessages (c : Cache) (groupId : Uuid) (asked : Asked) : GroupMessages :=
  groupMessages (c (.history groupId)) (c (.live groupId)) asked

/-- Two caches look the same on every page. -/
def LooksSame (c c' : Cache) : Prop :=
  ∀ asked, c.useGroups asked = c'.useGroups asked ∧
    (∀ id, c.useGroup id asked = c'.useGroup id asked) ∧
    ∀ groupId, c.useGroupMessages groupId asked = c'.useGroupMessages groupId asked

/-! ## What is left in the cache -/

/-- The data of an entry shows in what a hook returns. -/
def Shows : (key : QueryKey) → Option key.Data → Prop
  | .all, data | .detail _, data | .history _, data => data ≠ none
  | .live _, (data : Option (List Snapshot)) => data.getD [] ≠ []
  | .search _ _, _ => False

/-- The entry is in the cache, and shows. -/
def Cache.Filled (c : Cache) (key : QueryKey) : Prop := Shows key (c key)

/-- The entry of these keys that an act fills. -/
def Act.fills : Act → Option QueryKey
  | .fetched (.groups _) => some .all
  | .fetched (.group id _) => some (.detail id)
  | .fetched (.messages groupId _) => some (.history groupId)
  | .received (.message groupId (.newMessage _)) => some (.live groupId)
  | _ => none

/-- The entry an act takes out. -/
def Act.removes : Act → Option QueryKey
  | .left id => some (.detail id)
  | .collected key => some key
  | _ => none

/-- Every entry that is filled is taken out later. -/
def LeavesNothing : List Act → Prop
  | [] => True
  | a :: after =>
    (∀ key ∈ a.fills, ∃ b ∈ after, b.removes = some key) ∧ LeavesNothing after

/-- The act brings data into the page. -/
def Act.brings : Act → Bool
  | .fetched _ | .received _ => true
  | _ => false

/-- What goes on besides. -/
def besides (acts : List Act) : List Act := acts.filter fun a => !a.brings

instance decidableLeavesNothing : ∀ acts, Decidable (LeavesNothing acts)
  | [] => isTrue trivial
  | a :: after =>
    haveI : Decidable (LeavesNothing after) := decidableLeavesNothing after
    inferInstanceAs (Decidable ((∀ key ∈ a.fills, ∃ b ∈ after, b.removes = some key) ∧
      LeavesNothing after))

/-! ## One act -/

variable {c c' : Cache} {key : QueryKey}

theorem not_shows_none (key : QueryKey) : ¬ Shows key none := by
  cases key with
  | all | detail _ | history _ => exact fun h => h rfl
  | live _ => exact fun h => h rfl
  | search _ _ => exact id

theorem filled_update (changed : QueryKey) (data : Option changed.Data) :
    Cache.Filled (Function.update c changed data) key ↔
      changed = key ∧ Shows changed data ∨ changed ≠ key ∧ c.Filled key := by
  unfold Cache.Filled
  by_cases h : changed = key
  · subst h
    rw [Function.update_self]
    simp
  · rw [Function.update_of_ne (Ne.symm h)]
    simp [h]

theorem filled_removeQueries (removed : QueryKey) :
    (c.removeQueries removed).Filled key ↔ removed ≠ key ∧ c.Filled key := by
  unfold Cache.removeQueries
  rw [filled_update]
  exact or_iff_right fun h => not_shows_none removed h.2

/-- What an updater makes of the entries, if it makes an entry show only when `fills`. -/
theorem filled_setQueryData {changed : QueryKey}
    {update : Option changed.Data → Option changed.Data} (fills : Prop)
    (hsome : ∀ data, update (c changed) = some data →
      (Shows changed (some data) ↔ fills ∨ c.Filled changed))
    (hnone : update (c changed) = none → ¬ fills) :
    (c.setQueryData changed update).Filled key ↔ changed = key ∧ fills ∨ c.Filled key := by
  unfold Cache.setQueryData
  split
  · rename_i hupdate
    exact (or_iff_right fun h => hnone hupdate h.2).symm
  · rename_i data hupdate
    rw [filled_update, hsome data hupdate]
    by_cases h : changed = key
    · subst h
      simp
    · simp [h]

theorem filled_fetched (r : Response) :
    (c.fetched r).Filled key ↔ (Act.fetched r).fills = some key ∨ c.Filled key := by
  unfold Cache.fetched
  rw [filled_update]
  have hnew : ∀ changed, changed = key ∧ True ∨ changed ≠ key ∧ c.Filled key ↔
      some changed = some key ∨ c.Filled key := by
    intro changed
    by_cases h : changed = key <;> simp [h]
  cases r with
  | groups data =>
    rw [show Shows (Response.groups data).key (some (Response.groups data).data) ↔ True from
      iff_true_intro (Option.some_ne_none data)]
    exact hnew .all
  | group id data =>
    rw [show Shows (Response.group id data).key (some (Response.group id data).data) ↔ True from
      iff_true_intro (Option.some_ne_none data)]
    exact hnew (.detail id)
  | messages groupId pages =>
    rw [show Shows (Response.messages groupId pages).key (some (Response.messages groupId pages).data)
      ↔ True from iff_true_intro (Option.some_ne_none pages)]
    exact hnew (.history groupId)
  | search groupId q data =>
    constructor
    · rintro (⟨-, hfalse⟩ | ⟨-, hfilled⟩)
      · exact hfalse.elim
      · exact Or.inr hfilled
    · rintro (hfills | hfilled)
      · cases hfills
      · refine Or.inr ⟨fun h => ?_, hfilled⟩
        rw [← h] at hfilled
        exact hfilled

theorem filled_setMembers (groupId : Uuid)
    (update : List GroupMemberView → List GroupMemberView) :
    (c.setMembers groupId update).Filled key ↔ c.Filled key := by
  refine (filled_setQueryData False (fun data hdata => ?_) fun _ => id).trans ?_
  · change Option.map _ (c (.detail groupId)) = some data at hdata
    obtain ⟨detail, hdetail, -⟩ := Option.map_eq_some_iff.mp hdata
    refine iff_of_true (Option.some_ne_none data) (Or.inr ?_)
    show c (.detail groupId) ≠ none
    rw [hdetail]
    exact Option.some_ne_none detail
  · simp

theorem filled_setHistory (groupId : Uuid) (e : ServerEvent) :
    (c.setHistory groupId e).Filled key ↔ c.Filled key := by
  refine (filled_setQueryData False (fun data hdata => ?_) fun _ => id).trans ?_
  · change Option.map _ (c (.history groupId)) = some data at hdata
    obtain ⟨pages, hpages, -⟩ := Option.map_eq_some_iff.mp hdata
    refine iff_of_true (Option.some_ne_none data) (Or.inr ?_)
    show c (.history groupId) ≠ none
    rw [hpages]
    exact Option.some_ne_none pages
  · simp

/-- Only a new message makes an empty buffer show. -/
theorem onLive_ne_nil_iff {e : ServerEvent} {live : List Snapshot} :
    e.onLive live ≠ [] ↔ (∃ m, e = .newMessage m) ∨ live ≠ [] := by
  cases e with
  | newMessage m =>
    refine iff_of_true ?_ (Or.inl ⟨m, rfl⟩)
    obtain ⟨x, hx, -⟩ := exists_mem_onLive_iff.mpr (Or.inr ⟨m, rfl, rfl⟩)
    exact List.ne_nil_of_mem hx
  | messageUpdated m =>
    show live.map _ ≠ [] ↔ _
    simp
  | reactionUpdated messageId reactions =>
    show live.map _ ≠ [] ↔ _
    simp

theorem filled_setLive (groupId : Uuid) (e : ServerEvent) :
    (c.setLive groupId e).Filled key ↔
      (Act.received (.message groupId e)).fills = some key ∨ c.Filled key := by
  refine (filled_setQueryData (∃ m, e = .newMessage m) (fun data hdata => ?_) fun h => ?_).trans ?_
  · rw [← hdata]
    exact onLive_ne_nil_iff
  · cases h
  · refine or_congr_left ?_
    cases e with
    | newMessage m => simp [Act.fills]
    | messageUpdated m => simp [Act.fills]
    | reactionUpdated messageId reactions => simp [Act.fills]

theorem filled_received (p : Push) :
    (c.received p).Filled key ↔ (Act.received p).fills = some key ∨ c.Filled key := by
  have hmembers : ∀ groupId update, (c.setMembers groupId update).Filled key ↔
      none = some key ∨ c.Filled key := by
    intro groupId update
    rw [filled_setMembers]
    simp
  cases p with
  | message groupId e =>
    cases e with
    | newMessage m => exact filled_setLive groupId _
    | messageUpdated m => exact (filled_setHistory groupId _).trans (filled_setLive groupId _)
    | reactionUpdated messageId reactions =>
      exact (filled_setHistory groupId _).trans (filled_setLive groupId _)
  | memberJoined groupId member =>
    exact hmembers groupId fun members => onMemberJoined members member
  | memberLeft groupId userId => exact hmembers groupId fun members => onMemberLeft members userId
  | ownerChanged groupId previousOwnerId newOwnerId =>
    exact hmembers groupId fun members => onOwnerChanged members previousOwnerId newOwnerId
  | readReceipt groupId userId lastReadAt =>
    exact hmembers groupId fun members => onReadReceipt members userId lastReadAt

/-- **What an act does to the entries that show.** -/
theorem filled_step {s t : Page} {a : Act} (h : s.step a = some t) :
    t.cache.Filled key ↔
      a.fills = some key ∨ a.removes ≠ some key ∧ s.cache.Filled key := by
  have hsame : s.cache.Filled key ↔
      (none : Option QueryKey) = some key ∨ none ≠ some key ∧ s.cache.Filled key := by simp
  have hremoved : ∀ removed : QueryKey, (s.cache.removeQueries removed).Filled key ↔
      none = some key ∨ some removed ≠ some key ∧ s.cache.Filled key := by
    intro removed
    rw [filled_removeQueries]
    simp
  have hbrought : ∀ {P Q : Prop}, (P ↔ Q ∨ s.cache.Filled key) →
      (P ↔ Q ∨ (none : Option QueryKey) ≠ some key ∧ s.cache.Filled key) := by
    intro P Q hPQ
    simpa using hPQ
  cases a with
  | login userId =>
    simp only [Page.step] at h
    split_ifs at h
    rw [← Option.some.inj h]
    exact hsame
  | logout =>
    simp only [Page.step] at h
    split_ifs at h
    rw [← Option.some.inj h]
    exact hsame
  | forcedLogout =>
    rw [← Option.some.inj h]
    exact hsame
  | fetched r =>
    rw [← Option.some.inj h]
    exact hbrought (filled_fetched r)
  | received p =>
    simp only [Page.step] at h
    split_ifs at h
    rw [← Option.some.inj h]
    exact hbrought (filled_received p)
  | left id =>
    simp only [Page.step] at h
    split_ifs at h
    rw [← Option.some.inj h]
    exact hremoved (.detail id)
  | collected removed =>
    rw [← Option.some.inj h]
    exact hremoved removed

/-! ## Whole runs -/

/-- The entry is filled, and not taken out afterwards. -/
def Left (key : QueryKey) : List Act → Prop
  | [] => False
  | a :: after => (a.fills = some key ∧ ∀ b ∈ after, b.removes ≠ some key) ∨ Left key after

theorem left_cons {a : Act} {after : List Act} :
    Left key (a :: after) ↔
      (a.fills = some key ∧ ∀ b ∈ after, b.removes ≠ some key) ∨ Left key after := Iff.rfl

theorem leavesNothing_iff {acts : List Act} : LeavesNothing acts ↔ ∀ key, ¬ Left key acts := by
  induction acts with
  | nil => exact iff_of_true trivial fun key h => h
  | cons a after ih =>
    have hhead : (∀ key ∈ a.fills, ∃ b ∈ after, b.removes = some key) ↔
        ∀ key, ¬ (a.fills = some key ∧ ∀ b ∈ after, b.removes ≠ some key) := by
      refine forall_congr' fun key => ?_
      rw [not_and]
      refine forall_congr' fun _ => ?_
      push Not
      exact Iff.rfl
    unfold LeavesNothing Left
    rw [hhead, ih, ← forall_and]
    exact forall_congr' fun key => not_or.symm

/-- **What shows at the end of a run.** -/
theorem filled_exec {acts : List Act} {s t : Page} (h : exec Page.step s acts = some t) :
    t.cache.Filled key ↔
      Left key acts ∨ (∀ b ∈ acts, b.removes ≠ some key) ∧ s.cache.Filled key := by
  induction acts generalizing s with
  | nil =>
    rw [← Option.some.inj h]
    simp [Left]
  | cons a after ih =>
    obtain ⟨u, hsu, hut⟩ := exists_of_exec_cons h
    rw [ih hut, filled_step hsu, left_cons, List.forall_mem_cons]
    tauto

/-- From the opening of the page on, what shows is what is left. -/
theorem filled_iff_left {acts : List Act} {s : Page}
    (h : exec Page.step .start acts = some s) : s.cache.Filled key ↔ Left key acts := by
  rw [filled_exec h]
  exact or_iff_left fun hstart => not_shows_none key hstart.2

/-! ## What the next user sees -/

/-- Where nothing shows, every page is as on a fresh cache. -/
theorem looksSame_empty (h : ∀ key, ¬ c.Filled key) : LooksSame c .empty := by
  intro asked
  have hgroups : c .all = none := not_not.mp (h .all)
  have hdetail : ∀ id, c (.detail id) = none := fun id => not_not.mp (h (.detail id))
  have hhistory : ∀ groupId, c (.history groupId) = none :=
    fun groupId => not_not.mp (h (.history groupId))
  have hlive : ∀ groupId, Option.getD (c (.live groupId)) [] = [] :=
    fun groupId => not_not.mp (h (.live groupId))
  refine ⟨?_, fun id => ?_, fun groupId => ?_⟩
  · unfold Cache.useGroups
    rw [hgroups]
    rfl
  · unfold Cache.useGroup
    rw [hdetail]
    rfl
  · unfold Cache.useGroupMessages groupMessages
    rw [hhistory, hlive]
    rfl

/-- Where every page is as on a fresh cache, nothing shows. -/
theorem not_filled_of_looksSame_empty (h : LooksSame c .empty) (key : QueryKey) :
    ¬ c.Filled key := by
  obtain ⟨hgroups, hdetail, hmessages⟩ := h .pending
  cases key with
  | all =>
    exact not_not.mpr (congrArg QueryResult.data hgroups)
  | detail id =>
    exact not_not.mpr (congrArg QueryResult.data (hdetail id))
  | history groupId =>
    have hloading : ((c (.history groupId)).isNone && true) = true :=
      congrArg GroupMessages.isLoading (hmessages groupId)
    rw [Bool.and_true, Option.isNone_iff_eq_none] at hloading
    exact not_not.mpr hloading
  | live groupId =>
    have hnil : Client.messages (c (.history groupId)) (Option.getD (c (.live groupId)) []) = [] :=
      congrArg GroupMessages.messages (hmessages groupId)
    refine not_not.mpr (List.eq_nil_iff_forall_not_mem.mpr fun x hx => ?_)
    obtain ⟨y, hy, -⟩ := exists_mem_messages_iff.mpr (Or.inr ⟨x, hx, rfl⟩)
    rw [hnil] at hy
    exact absurd hy List.not_mem_nil
  | search groupId q => exact id

theorem LooksSame.symm (h : LooksSame c c') : LooksSame c' c :=
  fun asked => ⟨(h asked).1.symm, fun id => ((h asked).2.1 id).symm,
    fun groupId => ((h asked).2.2 groupId).symm⟩

theorem LooksSame.trans {c'' : Cache} (h : LooksSame c c') (h' : LooksSame c' c'') :
    LooksSame c c'' :=
  fun asked => ⟨(h asked).1.trans (h' asked).1,
    fun id => ((h asked).2.1 id).trans ((h' asked).2.1 id),
    fun groupId => ((h asked).2.2 groupId).trans ((h' asked).2.2 groupId)⟩

/-! ## The run without the data -/

/-- What brings data leaves the user alone. -/
theorem user_of_brings {s t : Page} {a : Act} (h : s.step a = some t) (hbrings : a.brings = true) :
    t.user = s.user := by
  cases a with
  | fetched r =>
    rw [← Option.some.inj h]
  | received p =>
    simp only [Page.step] at h
    split_ifs at h
    rw [← Option.some.inj h]
  | login | logout | forcedLogout | left | collected => cases hbrings

/-- Whether an act may happen, and who is the user then, does not depend on the cache. -/
theorem step_user {s t : Page} {a : Act} (h : s.step a = some t) (cache : Cache) :
    ∃ t' : Page, Page.step ⟨s.user, cache⟩ a = some t' ∧ t'.user = t.user := by
  cases a with
  | login userId =>
    simp only [Page.step] at h ⊢
    split_ifs at h with huser
    rw [if_pos huser, ← Option.some.inj h]
    exact ⟨_, rfl, rfl⟩
  | logout =>
    simp only [Page.step] at h ⊢
    split_ifs at h with huser
    rw [if_pos huser, ← Option.some.inj h]
    exact ⟨_, rfl, rfl⟩
  | received p =>
    simp only [Page.step] at h ⊢
    split_ifs at h with huser
    rw [if_pos huser, ← Option.some.inj h]
    exact ⟨_, rfl, rfl⟩
  | left id =>
    simp only [Page.step] at h ⊢
    split_ifs at h with huser
    rw [if_pos huser, ← Option.some.inj h]
    exact ⟨_, rfl, rfl⟩
  | forcedLogout | fetched r | collected key =>
    rw [← Option.some.inj h]
    exact ⟨_, rfl, rfl⟩

/-- **What goes on besides goes on without the data too.** -/
theorem exec_besides {acts : List Act} {s t : Page} (h : exec Page.step s acts = some t)
    (cache : Cache) : ∃ t', exec Page.step ⟨s.user, cache⟩ (besides acts) = some t' := by
  induction acts generalizing s cache with
  | nil => exact ⟨_, rfl⟩
  | cons a after ih =>
    obtain ⟨u, hsu, hut⟩ := exists_of_exec_cons h
    unfold besides
    by_cases hbrings : a.brings = true
    · -- what it brings is left out, and the user is the same
      rw [List.filter_cons_of_neg (by simp [hbrings]), ← user_of_brings hsu hbrings]
      exact ih hut cache
    · obtain ⟨u', hsu', huser⟩ := step_user hsu cache
      rw [List.filter_cons_of_pos (by simp [hbrings])]
      obtain ⟨t', ht'⟩ := ih hut u'.cache
      rw [← huser] at ht'
      exact ⟨t', by rw [exec_cons_of_step hsu']; exact ht'⟩

theorem leavesNothing_of_brings {acts : List Act} (h : ∀ a ∈ acts, a.brings = false) :
    LeavesNothing acts := by
  induction acts with
  | nil => trivial
  | cons a after ih =>
    refine ⟨fun key hkey => ?_, ih fun b hb => h b (List.mem_cons_of_mem a hb)⟩
    have hbrings := h a List.mem_cons_self
    cases a with
    | fetched r | received p => cases hbrings
    | login | logout | forcedLogout | left | collected => cases hkey

theorem brings_of_mem_besides {acts : List Act} : ∀ a ∈ besides acts, a.brings = false := by
  intro a ha
  simpa using (List.mem_filter.mp ha).2

theorem besides_besides (acts : List Act) : besides (besides acts) = besides acts := by
  unfold besides
  rw [List.filter_filter]
  simp

/-- **The next user sees nothing exactly if nothing is left.**  After a run, every page
looks as after each run that differs only in what was fetched and received and leaves
nothing in the cache, if and only if the run leaves nothing in the cache itself. -/
theorem seesNothing_iff (acts : List Act) {s : Page} (h : exec Page.step .start acts = some s) :
    (∀ acts' s', exec Page.step .start acts' = some s' → besides acts' = besides acts →
      LeavesNothing acts' → LooksSame s.cache s'.cache) ↔ LeavesNothing acts := by
  have hempty : ∀ {acts' : List Act} {s' : Page}, exec Page.step .start acts' = some s' →
      LeavesNothing acts' → LooksSame s'.cache .empty := by
    intro acts' s' hs' hnothing
    refine looksSame_empty fun key => ?_
    rw [filled_iff_left hs']
    exact leavesNothing_iff.mp hnothing key
  constructor
  · intro hsame
    obtain ⟨s', hs'⟩ := exec_besides h .empty
    have hnothing : LeavesNothing (besides acts) := leavesNothing_of_brings brings_of_mem_besides
    have hlooks : LooksSame s.cache .empty :=
      (hsame (besides acts) s' hs' (besides_besides acts) hnothing).trans (hempty hs' hnothing)
    refine leavesNothing_iff.mpr fun key => ?_
    rw [← filled_iff_left h]
    exact not_filled_of_looksSame_empty hlooks key
  · intro hnothing acts' s' hs' _ hnothing'
    exact (hempty h hnothing).trans (hempty hs' hnothing').symm

/-! ## Two runs -/

/-- A group of user 5. -/
def privateGroup : Group := ⟨2, "private", 5, epoch⟩

/-- User 5 leaves the group and logs out, and the list of groups is collected before user 6
logs in. -/
def forgottenRun : List Act :=
  [ .login 5, .fetched (.groups [⟨privateGroup, none⟩]), .fetched (.group 2 ⟨privateGroup, []⟩),
    .left 2, .logout, .collected .all, .login 6 ]

theorem seesNothing_iff_forgottenRun :
    ∃ s, exec Page.step .start forgottenRun = some s ∧
      ∀ acts' s', exec Page.step .start acts' = some s' → besides acts' = besides forgottenRun →
        LeavesNothing acts' → LooksSame s.cache s'.cache :=
  ⟨_, rfl, (seesNothing_iff forgottenRun rfl).mpr (by decide)⟩

/-- User 5 fetches the list of groups; the session ends, and user 6 logs in. -/
def handoverRun (ending : Act) : List Act :=
  [.login 5, .fetched (.groups [⟨privateGroup, none⟩]), ending, .login 6]

/-- **The next user sees the groups of the last one**, however the session ended. -/
theorem not_looksSame_handoverRun :
    (∃ s s', exec Page.step .start (handoverRun .logout) = some s ∧
      exec Page.step .start (besides (handoverRun .logout)) = some s' ∧
      ¬ LooksSame s.cache s'.cache) ∧
    ∃ s s', exec Page.step .start (handoverRun .forcedLogout) = some s ∧
      exec Page.step .start (besides (handoverRun .forcedLogout)) = some s' ∧
      ¬ LooksSame s.cache s'.cache := by
  constructor
  · exact ⟨_, _, rfl, rfl, fun h => absurd (h .pending).1 (by decide)⟩
  · exact ⟨_, _, rfl, rfl, fun h => absurd (h .pending).1 (by decide)⟩

end QueryCache
end Client
end GroupChat
