import GroupChat.Chat.Convergence

/-!
# The last message of a socket

A client says `join_group` when it opens the page of a group and `leave_group` when
it closes it.  The first waits for a membership query before it enters the room, the
second leaves at once, so a page that is closed before the query is back is left
first and entered afterwards.

`inRoom_iff_lastMessage_iff` says exactly when the room is what the last message
asked for.  The run is any run of the room: other sockets come and go, other members
leave the group.  What is fixed is the one socket, which stays connected, and its
user, who is a member whenever a query reads the tables.
-/

namespace GroupChat
namespace Chat
namespace Presence

open Common Database Groups Transition

/-! ## Messages -/

inductive Message where
  | joinGroup
  | leaveGroup
deriving DecidableEq

/-- The message of this socket that is delivered. -/
def Action.message (socket : Socket) : Action → Option Message
  | .joinGroup _ socket' => if socket' = socket then some .joinGroup else none
  | .leaveGroup _ socket' => if socket' = socket then some .leaveGroup else none
  | _ => none

/-- The last message of the socket. -/
def lastMessage (socket : Socket) (acts : List Action) : Option Message :=
  (acts.filterMap (Action.message socket)).getLast?

/-- The handler works on a `join_group` of the socket and has not entered the room. -/
def Handler.Asks (socket : Socket) : Handler → Prop
  | .asserting socket' | .joining socket' => socket' = socket
  | _ => False

/-- A `join_group` of the socket is under way. -/
def State.Joining (s : State) (socket : Socket) : Prop := ∃ h, (s.handlers h).Asks socket

/-- The last message is a `leave_group`, and a `join_group` was under way when it was
delivered. -/
def LeftWhileJoining (userOf : Socket → Uuid) (groupId : String) (socket : Socket)
    (acts : List Action) : Prop :=
  ∃ before h after s, acts = before ++ .leaveGroup h socket :: after ∧
    (∀ a ∈ after, a.message socket = none) ∧
    exec (step userOf groupId) start before = some s ∧ s.Joining socket

/-- The user of the socket is a member wherever it is asked, does not leave the group,
and the socket stays connected. -/
def Undisturbed (userOf : Socket → Uuid) (g : Uuid) (socket : Socket) : Action → Prop
  | .assertMember _ t => (membership t g (userOf socket)).isSome
  | .memberLeft _ userId => userId ≠ userOf socket
  | .disconnecting _ socket' => socket' ≠ socket
  | _ => True

variable {userOf : Socket → Uuid} {groupId : String} {g : Uuid} {socket : Socket} {s t : State}
  {acts : List Action} {a : Action}

theorem lastMessage_append_of_none (ha : a.message socket = none) :
    lastMessage socket (acts ++ [a]) = lastMessage socket acts := by
  rw [lastMessage, List.filterMap_append, List.filterMap_cons_none ha, List.filterMap_nil,
    List.append_nil, lastMessage]

theorem lastMessage_append_of_some {m : Message} (ha : a.message socket = some m) :
    lastMessage socket (acts ++ [a]) = some m := by
  rw [lastMessage, List.filterMap_append, List.filterMap_cons_some ha, List.filterMap_nil,
    List.getLast?_concat]

/-! ## How the condition grows with the run -/

/-- Where a run that is one action longer can be cut: at the new action, or before. -/
theorem cut_append_singleton {before after : List Action} {b : Action}
    (h : acts ++ [a] = before ++ b :: after) :
    (acts = before ∧ a = b ∧ after = []) ∨
      ∃ rest, after = rest ++ [a] ∧ acts = before ++ b :: rest := by
  rcases List.eq_nil_or_concat' after with rfl | ⟨rest, last, rfl⟩
  · obtain ⟨hacts, hlast⟩ := List.append_inj' h rfl
    exact Or.inl ⟨hacts, List.singleton_inj.mp hlast, rfl⟩
  · rw [← List.cons_append, ← List.append_assoc] at h
    obtain ⟨hacts, hlast⟩ := List.append_inj' h rfl
    obtain rfl := List.singleton_inj.mp hlast
    exact Or.inr ⟨rest, rfl, hacts⟩

/-- What is not a message of the socket changes nothing. -/
theorem leftWhileJoining_append_of_none (ha : a.message socket = none) :
    LeftWhileJoining userOf groupId socket (acts ++ [a]) ↔
      LeftWhileJoining userOf groupId socket acts := by
  constructor
  · rintro ⟨before, h, after, s, hacts, hafter, hexec, hjoining⟩
    rcases cut_append_singleton hacts with ⟨-, rfl, -⟩ | ⟨rest, rfl, rfl⟩
    · exact absurd ha (by simp [Action.message])
    · exact ⟨before, h, rest, s, rfl, fun b hb => hafter b (List.mem_append_left _ hb), hexec,
        hjoining⟩
  · rintro ⟨before, h, after, s, rfl, hafter, hexec, hjoining⟩
    refine ⟨before, h, after ++ [a], s, ?_, ?_, hexec, hjoining⟩
    · rw [List.append_assoc, List.cons_append]
    · intro b hb
      rcases List.mem_append.mp hb with hb | hb
      · exact hafter b hb
      · rwa [List.mem_singleton.mp hb]

/-- The last action is a message of the socket: it is the one the condition is about. -/
theorem leftWhileJoining_append_of_some {m : Message} (ha : a.message socket = some m) :
    LeftWhileJoining userOf groupId socket (acts ++ [a]) ↔
      ∃ h s, a = .leaveGroup h socket ∧ exec (step userOf groupId) start acts = some s ∧
        s.Joining socket := by
  constructor
  · rintro ⟨before, h, after, s, hacts, hafter, hexec, hjoining⟩
    rcases cut_append_singleton hacts with ⟨rfl, ha, -⟩ | ⟨rest, rfl, -⟩
    · exact ⟨h, s, ha, hexec, hjoining⟩
    · have hnone := hafter a (List.mem_append_right _ List.mem_cons_self)
      exact absurd (ha.symm.trans hnone) (by simp)
  · rintro ⟨h, s, rfl, hexec, hjoining⟩
    exact ⟨acts, h, [], s, rfl, fun b hb => absurd hb List.not_mem_nil, hexec, hjoining⟩

theorem lastMessage_of_leftWhileJoining (h : LeftWhileJoining userOf groupId socket acts) :
    lastMessage socket acts = some .leaveGroup := by
  obtain ⟨before, h, after, s, rfl, hafter, -, -⟩ := h
  have hleave : (Action.leaveGroup h socket).message socket = some .leaveGroup := if_pos rfl
  rw [lastMessage, List.filterMap_append, List.filterMap_cons_some hleave,
    List.filterMap_eq_nil_iff.mpr hafter, List.getLast?_concat]

/-! ## What a run does to the socket -/

/-- Nothing but its own `leave_group` will take the socket out of the room. -/
structure Stays (userOf : Socket → Uuid) (socket : Socket) (s : State) : Prop where
  inv : Inv s
  isOpen : socket ∉ s.gone
  leaves : socket ∉ s.leaves
  evicting : ∀ h userId, (s.handlers h = .evicting userId ∨
    ∃ sockets, s.handlers h = .leaving userId sockets) → userId ≠ userOf socket

theorem stays_start : Stays userOf socket start :=
  ⟨inv_start, List.not_mem_nil, List.not_mem_nil, fun h userId hpc => by simp [start] at hpc⟩

/-- A handler has gone on, and works on no eviction unless it did. -/
theorem evicting_goto (hs : Stays userOf socket s) {h : ℕ} {pc : Handler}
    (hpc : ∀ userId, (pc = .evicting userId ∨ ∃ sockets, pc = .leaving userId sockets) →
      userId ≠ userOf socket) (h' : ℕ) (userId : Uuid)
    (h'pc : Function.update s.handlers h pc h' = .evicting userId ∨
      ∃ sockets, Function.update s.handlers h pc h' = .leaving userId sockets) :
    userId ≠ userOf socket := by
  by_cases hh : h' = h
  · rw [hh, Function.update_self] at h'pc
    exact hpc userId h'pc
  · rw [Function.update_of_ne hh] at h'pc
    exact hs.evicting h' userId h'pc

/-- **The socket stays** while its user does and its connection does. -/
theorem stays_of_step (hs : Stays userOf socket s) (ha : Undisturbed userOf g socket a)
    (hstep : step userOf groupId s a = some t) : Stays userOf socket t := by
  have hinv : Inv t := inv_of_step hs.inv hstep
  cases stepped_of_step hstep with
  | joinGroup | join | leaveNoGroup | leaveGroup | closeFirst | close | fetch | fetchListed
  | emit =>
    exact ⟨hinv, hs.isOpen, hs.leaves, evicting_goto hs (by simp)⟩
  | assertMember pc =>
    refine ⟨hinv, hs.isOpen, hs.leaves, evicting_goto hs fun userId hpc => ?_⟩
    rcases onAssertMember_cases _ _ with h | ⟨ack, h⟩ <;> rw [h] at hpc <;> simp at hpc
  | disconnectOutside pc hopen hout =>
    refine ⟨hinv, fun hmem => ?_, hs.leaves, evicting_goto hs (by simp)⟩
    exact (List.mem_cons.mp hmem).elim (fun h => ha h.symm) hs.isOpen
  | disconnecting pc hopen hin =>
    refine ⟨hinv, fun hmem => ?_, hs.leaves, evicting_goto hs (by simp)⟩
    exact (List.mem_cons.mp hmem).elim (fun h => ha h.symm) hs.isOpen
  | memberLeft pc =>
    refine ⟨hinv, hs.isOpen, hs.leaves, evicting_goto hs fun userId hpc => ?_⟩
    rcases hpc with hpc | ⟨sockets, hpc⟩
    · exact Handler.evicting.inj hpc ▸ ha
    · exact absurd hpc (by simp)
  | fetchDeparted pc =>
    refine ⟨hinv, hs.isOpen, hs.leaves, evicting_goto hs fun userId hpc => ?_⟩
    rcases hpc with hpc | ⟨sockets, hpc⟩
    · exact absurd hpc (by simp)
    · obtain ⟨rfl, -⟩ := Handler.leaving.inj hpc
      exact hs.evicting _ _ (Or.inl pc)
  | evict pc =>
    rename_i h userId sockets
    refine ⟨hinv, hs.isOpen, fun hmem => ?_, evicting_goto hs (by simp)⟩
    rcases List.mem_append.mp hmem with hmem | hmem
    · exact hs.leaves hmem
    · have hown : userOf socket = userId := by simpa using (List.mem_filter.mp hmem).2
      exact hs.evicting h userId (Or.inr ⟨sockets, pc⟩) hown.symm
  | leave hmem =>
    exact ⟨hinv, hs.isOpen, fun h => hs.leaves (List.mem_of_mem_erase h), hs.evicting⟩

/-- The socket is in the room or about to be. -/
def State.Entering (s : State) (socket : Socket) : Prop := socket ∈ s.room ∨ s.Joining socket

/-- Handler `h` and the others. -/
theorem entering_goto_iff {h : ℕ} {pc : Handler} {room gone leaves : List Socket}
    {emitted : List Payload} :
    State.Entering ⟨room, gone, leaves, Function.update s.handlers h pc, emitted⟩ socket ↔
      (socket ∈ room ∨ pc.Asks socket) ∨ ∃ h' ≠ h, (s.handlers h').Asks socket := by
  rw [or_assoc]
  exact or_congr_right (Function.exists_update_iff s.handlers fun _ pc => pc.Asks socket)

theorem entering_iff (s : State) (h : ℕ) :
    s.Entering socket ↔
      (socket ∈ s.room ∨ (s.handlers h).Asks socket) ∨ ∃ h' ≠ h, (s.handlers h').Asks socket := by
  rw [← entering_goto_iff, Function.update_eq_self]

/-- A handler goes on, and the socket is in the room or asks to be exactly if it was or
did. -/
theorem entering_goto {h : ℕ} {pc : Handler} {room gone leaves : List Socket}
    {emitted : List Payload}
    (hsame : socket ∈ room ∨ pc.Asks socket ↔ socket ∈ s.room ∨ (s.handlers h).Asks socket) :
    State.Entering ⟨room, gone, leaves, Function.update s.handlers h pc, emitted⟩ socket ↔
      s.Entering socket := by
  rw [entering_goto_iff, entering_iff s h, hsame]

theorem mem_without_of_ne {room : List Socket} {x : Socket} (h : x ≠ socket) :
    socket ∈ without room x ↔ socket ∈ room :=
  mem_without.trans (and_iff_left h.symm)

/-- **Between its messages the socket enters the room, or does not, as it would.** -/
theorem entering_of_step (hid : Spells groupId g) (hs : Stays userOf socket s)
    (ha : Undisturbed userOf g socket a) (hmessage : a.message socket = none)
    (hstep : step userOf groupId s a = some t) : t.Entering socket ↔ s.Entering socket := by
  cases stepped_of_step hstep with
  | joinGroup pc hopen =>
    rename_i h x
    have hne : x ≠ socket := by simpa [Action.message] using hmessage
    refine entering_goto (or_congr_right ?_)
    rw [pc]
    exact iff_false_intro hne
  | assertMember pc =>
    rename_i h t x
    refine entering_goto (or_congr_right ?_)
    rw [pc]
    by_cases hx : x = socket
    · obtain ⟨row, hrow⟩ := Option.isSome_iff_exists.mp ha
      rw [hx, assertMember_of_spells hid hrow]
      exact iff_of_true rfl rfl
    · refine iff_of_false (fun hasks => ?_) hx
      rcases onAssertMember_cases x (Chat.assertMember t (userOf x) groupId) with hpc | ⟨ack, hpc⟩
      · rw [hpc] at hasks
        exact hx hasks
      · rw [hpc] at hasks
        exact hasks
  | join pc =>
    rename_i h x
    refine entering_goto ?_
    rw [pc, mem_letIn]
    by_cases hx : x = socket
    · exact iff_of_true (Or.inl (Or.inr ⟨hx.symm, hx ▸ hs.isOpen⟩)) (Or.inr hx)
    · have hleft : ¬ (socket = x ∧ x ∉ s.gone) := fun h => hx h.1.symm
      have hright : ¬ (Handler.joining x).Asks socket := hx
      rw [or_iff_left hleft, or_iff_left hright]
      exact or_iff_left id
  | leaveNoGroup pc hopen hempty =>
    refine entering_goto (or_congr_right ?_)
    rw [pc]
    exact Iff.rfl
  | leaveGroup pc hopen hne =>
    rename_i h x
    have hx : x ≠ socket := by simpa [Action.message] using hmessage
    refine entering_goto (or_congr (mem_without_of_ne hx) ?_)
    rw [pc]
    exact Iff.rfl
  | disconnectOutside pc | disconnecting pc | memberLeft pc | fetch pc | fetchListed pc
  | fetchDeparted pc | evict pc | emit pc =>
    refine entering_goto (or_congr_right ?_)
    rw [pc]
    exact Iff.rfl
  | closeFirst pc =>
    rename_i h x
    have hx : x ≠ socket := fun hx => hs.isOpen (hx ▸ hs.inv.gone h x (Or.inl pc))
    refine entering_goto (or_congr (mem_without_of_ne hx) ?_)
    rw [pc]
    exact Iff.rfl
  | close pc =>
    rename_i h x userIds
    have hx : x ≠ socket := fun hx => hs.isOpen (hx ▸ hs.inv.gone h x (Or.inr ⟨userIds, pc⟩))
    refine entering_goto (or_congr (mem_without_of_ne hx) ?_)
    rw [pc]
    exact Iff.rfl
  | leave hmem =>
    exact or_congr_left (mem_without_of_ne fun hx => hs.leaves (hx ▸ hmem))

/-- After a `leave_group` the socket comes back exactly if a `join_group` is under
way. -/
theorem entering_of_leaveGroup {h : ℕ} (hid : Spells groupId g)
    (hstep : step userOf groupId s (.leaveGroup h socket) = some t) :
    t.Entering socket ↔ s.Joining socket := by
  cases stepped_of_step hstep with
  | leaveNoGroup pc hopen hempty =>
    rw [hempty] at hid
    exact absurd hid.1 (by decide)
  | leaveGroup pc hopen hne =>
    have hgone : ¬ (socket ∈ without s.room socket ∨ (Handler.fetching none).Asks socket) :=
      not_or.mpr ⟨fun hmem => (mem_without.mp hmem).2 rfl, id⟩
    refine entering_goto_iff.trans ((or_iff_right hgone).trans ?_)
    constructor
    · rintro ⟨h', -, hasks⟩
      exact ⟨h', hasks⟩
    · rintro ⟨h', hasks⟩
      refine ⟨h', ?_, hasks⟩
      rintro rfl
      rw [pc] at hasks
      exact hasks

/-! ## Runs -/

/-- What a run has come to, by the last message of the socket. -/
structure Followed (userOf : Socket → Uuid) (groupId : String) (socket : Socket)
    (acts : List Action) (s : State) : Prop where
  exec : exec (step userOf groupId) start acts = some s
  stays : Stays userOf socket s
  none : lastMessage socket acts = none → ¬ s.Entering socket
  joinGroup : lastMessage socket acts = some .joinGroup → s.Entering socket
  leaveGroup : lastMessage socket acts = some .leaveGroup →
    (s.Entering socket ↔ LeftWhileJoining userOf groupId socket acts)

theorem followed_start : Followed userOf groupId socket [] start := by
  refine ⟨rfl, stays_start, fun _ => ?_, fun h => absurd h (by simp [lastMessage]),
    fun h => absurd h (by simp [lastMessage])⟩
  rintro (hmem | ⟨h, hasks⟩)
  · exact List.not_mem_nil hmem
  · exact hasks

theorem followed_of_step (hid : Spells groupId g) (hs : Followed userOf groupId socket acts s)
    (ha : Undisturbed userOf g socket a) (hstep : step userOf groupId s a = some t) :
    Followed userOf groupId socket (acts ++ [a]) t := by
  have hexec : Transition.exec (step userOf groupId) start (acts ++ [a]) = some t := by
    rw [exec_append, hs.exec, Option.bind_some, exec_cons_of_step hstep, exec_nil]
  have hstays := stays_of_step hs.stays ha hstep
  cases hm : a.message socket with
  | none =>
    have hsame := entering_of_step hid hs.stays ha hm hstep
    refine ⟨hexec, hstays, ?_, ?_, ?_⟩
    · rw [lastMessage_append_of_none hm, hsame]
      exact hs.none
    · rw [lastMessage_append_of_none hm, hsame]
      exact hs.joinGroup
    · rw [lastMessage_append_of_none hm, hsame, leftWhileJoining_append_of_none hm]
      exact hs.leaveGroup
  | some m =>
    have hlast : lastMessage socket (acts ++ [a]) = some m := lastMessage_append_of_some hm
    cases a with
    | joinGroup h x =>
      obtain ⟨rfl, rfl⟩ : x = socket ∧ Message.joinGroup = m := by
        simpa [Action.message] using hm
      refine ⟨hexec, hstays, fun h => ?_, fun _ => ?_, fun h => ?_⟩
      · exact absurd (hlast.symm.trans h) (by simp)
      · cases stepped_of_step hstep with
        | joinGroup pc hopen => exact entering_goto_iff.mpr (Or.inl (Or.inr rfl))
      · exact absurd (hlast.symm.trans h) (by simp)
    | leaveGroup h x =>
      obtain ⟨rfl, rfl⟩ : x = socket ∧ Message.leaveGroup = m := by
        simpa [Action.message] using hm
      refine ⟨hexec, hstays, fun h => ?_, fun h => ?_, fun _ => ?_⟩
      · exact absurd (hlast.symm.trans h) (by simp)
      · exact absurd (hlast.symm.trans h) (by simp)
      · rw [entering_of_leaveGroup hid hstep, leftWhileJoining_append_of_some hm]
        constructor
        · exact fun hjoining => ⟨h, s, rfl, hs.exec, hjoining⟩
        · rintro ⟨h', s', -, hexec', hjoining⟩
          rw [hs.exec] at hexec'
          rwa [Option.some.inj hexec']
    | assertMember | join | disconnecting | close | memberLeft | fetchSockets | evict | leave
    | emit => exact absurd hm (by simp [Action.message])

/-- With every handler finished no `join_group` is under way. -/
theorem Finished.entering_iff (hfinished : Finished s) :
    s.Entering socket ↔ socket ∈ s.room := by
  refine or_iff_left ?_
  rintro ⟨h, hasks⟩
  have hrest := hfinished h
  cases hpc : s.handlers h <;> simp_all [Handler.isAtRest, Handler.Asks]

/-- **When the room follows the last message.**  In every run in which the socket stays
connected and its user a member, once all handlers have finished: the socket is in
the room exactly if its last message was `join_group`, precisely when the last
message was not a `leave_group` delivered while a `join_group` was under way. -/
theorem inRoom_iff_lastMessage_iff (userOf : Socket → Uuid) {groupId : String} {g : Uuid}
    (hid : Spells groupId g) (socket : Socket) {acts : List Action} {s : State}
    (hrun : exec (step userOf groupId) start acts = some s)
    (hacts : ∀ a ∈ acts, Undisturbed userOf g socket a) (hfinished : Finished s) :
    (socket ∈ s.room ↔ lastMessage socket acts = some .joinGroup) ↔
      ¬ LeftWhileJoining userOf groupId socket acts := by
  have hsteps : AllSteps (step userOf groupId) (fun _ a => Undisturbed userOf g socket a) start
      acts := AllSteps.of_mem fun a ha _ => hacts a ha
  have hfollowed : Followed userOf groupId socket ([] ++ acts) s :=
    hsteps.of_exec_append (fun as a s t hs ha hst => followed_of_step hid hs ha hst)
      followed_start hrun
  rw [List.nil_append] at hfollowed
  have hroom : s.Entering socket ↔ socket ∈ s.room := hfinished.entering_iff
  have hlast : LeftWhileJoining userOf groupId socket acts →
      lastMessage socket acts = some .leaveGroup := lastMessage_of_leftWhileJoining
  cases hm : lastMessage socket acts with
  | none =>
    refine iff_of_true (iff_of_false ?_ (by simp)) fun hleft => ?_
    · exact hroom.not.mp (hfollowed.none hm)
    · exact absurd (hm.symm.trans (hlast hleft)) (by simp)
  | some m =>
    cases m with
    | joinGroup =>
      refine iff_of_true (iff_of_true (hroom.mp (hfollowed.joinGroup hm)) rfl) fun hleft => ?_
      exact absurd (hm.symm.trans (hlast hleft)) (by simp)
    | leaveGroup =>
      rw [← hfollowed.leaveGroup hm, hroom]
      simp

/-! ## Two runs -/

/-- A page is opened, and closed after its socket has entered the room. -/
def openedPageRun : List Action :=
  joinRun (oneMember someGroup) 0 7 ++ [.emit 0, .leaveGroup 1 7, .fetchSockets 1, .emit 1]

/-- A page is opened and closed again before the membership query is back. -/
def closedPageRun : List Action :=
  [.joinGroup 0 7, .leaveGroup 1 7, .fetchSockets 1, .emit 1, .assertMember 0 (oneMember someGroup),
    .join 0, .fetchSockets 0, .emit 0]

/-- The user of both runs is a member when it is asked. -/
theorem undisturbed_oneMember (h : ℕ) :
    Undisturbed (fun _ => 0) someGroup 7 (.assertMember h (oneMember someGroup)) := by
  rw [Undisturbed, membership_oneMember]
  rfl

theorem inRoom_iff_lastMessage_iff_openedPageRun :
    ∃ s, exec (step (fun _ => 0) someGroupId) start openedPageRun = some s ∧
      ((7 ∈ s.room ↔ lastMessage 7 openedPageRun = some .joinGroup) ↔
        ¬ LeftWhileJoining (fun _ => 0) someGroupId 7 openedPageRun) := by
  have hmember : Chat.assertMember (oneMember someGroup) 0 someGroupId = .ok _ :=
    assertMember_of_spells spells_someGroupId (membership_oneMember someGroup)
  have hacts : ∀ a ∈ openedPageRun, Undisturbed (fun _ => 0) someGroup 7 a := by
    simp only [openedPageRun, joinRun, List.cons_append, List.nil_append, List.forall_mem_cons]
    exact ⟨trivial, undisturbed_oneMember 0, trivial, trivial, trivial, trivial, trivial, trivial,
      fun a ha => absurd ha List.not_mem_nil⟩
  have hend : ∃ s, exec (step (fun _ => 0) someGroupId) start openedPageRun = some s ∧
      Finished s := by
    rw [openedPageRun, exec_append, exec_joinRun rfl (by decide) hmember, Option.bind_some]
    refine ⟨_, rfl, fun c => ?_⟩
    rcases c with _ | _ | c
    · rfl
    · rfl
    · rfl
  obtain ⟨s, hs, hfinished⟩ := hend
  exact ⟨s, hs, inRoom_iff_lastMessage_iff (fun _ => 0) spells_someGroupId 7 hs hacts hfinished⟩

/-- **A closed page stays subscribed.**  The last message is `leave_group`, everything has
finished, and the socket is in the room. -/
theorem not_inRoom_iff_lastMessage :
    ¬ ∀ (userOf : Socket → Uuid) (groupId : String) (g : Uuid) (socket : Socket)
        (acts : List Action) (s : State), Spells groupId g →
        exec (step userOf groupId) start acts = some s →
        (∀ a ∈ acts, Undisturbed userOf g socket a) → Finished s →
        (socket ∈ s.room ↔ lastMessage socket acts = some .joinGroup) := by
  intro h
  have hacts : ∀ a ∈ closedPageRun, Undisturbed (fun _ => 0) someGroup 7 a := by
    simp only [closedPageRun, List.forall_mem_cons]
    exact ⟨trivial, trivial, trivial, trivial, undisturbed_oneMember 0, trivial, trivial, trivial,
      fun a ha => absurd ha List.not_mem_nil⟩
  have hend : ∃ s, exec (step (fun _ => 0) someGroupId) start closedPageRun = some s ∧
      Finished s ∧ 7 ∈ s.room := by
    refine ⟨_, rfl, fun c => ?_, by decide⟩
    rcases c with _ | _ | c
    · rfl
    · rfl
    · rfl
  obtain ⟨s, hs, hfinished, hroom⟩ := hend
  have hlast := (h _ _ _ 7 _ s spells_someGroupId hs hacts hfinished).mp hroom
  exact absurd hlast (by decide)

end Presence
end Chat
end GroupChat
