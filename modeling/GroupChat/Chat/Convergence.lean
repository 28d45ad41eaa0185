import GroupChat.Chat.Presence

/-!
# Presence converges, where the last word is right

A list of users is read at one moment and sent at a later one.  Two broadcasts that
overlap may be sent in the other order, and then the older list is what everyone
keeps; a closing connection may send a list read before others came; and a leave
that the adapter still has to carry out is not in the list its own handler reads.

`Converging` is what a run has to keep: the last event lists the room, or a handler
that will say so is still running.  `converging_iff` says that it is kept by exactly
the steps that meet `Corrected`, and `presence_converges` draws the consequence for
the states in which every handler has finished.
-/

namespace GroupChat
namespace Chat
namespace Presence

open Common Database Groups Transition

/-! ## What a list is to say -/

/-- The list names each user with a socket in the room exactly once, and nobody
else. -/
def Lists (userOf : Socket → Uuid) (room : List Socket) (userIds : List Uuid) : Prop :=
  userIds.Nodup ∧ ∀ u, u ∈ userIds ↔ ∃ socket ∈ room, userOf socket = u

theorem lists_iff {userOf : Socket → Uuid} {room : List Socket} {userIds : List Uuid} :
    (userIds.Nodup ∧ (∀ u ∈ userIds, ∃ socket ∈ room, userOf socket = u) ∧
        ∀ socket ∈ room, userOf socket ∈ userIds) ↔
      Lists userOf room userIds := by
  refine and_congr_right fun _ => ?_
  constructor
  · rintro ⟨hsound, hcomplete⟩ u
    refine ⟨hsound u, ?_⟩
    rintro ⟨socket, hmem, rfl⟩
    exact hcomplete socket hmem
  · intro h
    exact ⟨fun u => (h u).mp, fun socket hmem => (h _).mpr ⟨socket, hmem, rfl⟩⟩

instance (userOf : Socket → Uuid) (room : List Socket) (userIds : List Uuid) :
    Decidable (Lists userOf room userIds) :=
  -- along the list: there are too many identifiers to go through
  haveI : Decidable (∀ u ∈ userIds, ∃ socket ∈ room, userOf socket = u) :=
    List.decidableBAll _ userIds
  decidable_of_iff _ lists_iff

theorem nodup_eraseDups {α : Type} [DecidableEq α] (l : List α) : l.eraseDups.Nodup := by
  -- the recursion goes on with the list without its first element
  induction hn : l.length using Nat.strong_induction_on generalizing l with
  | _ n ih =>
    cases l with
    | nil => exact List.nodup_nil
    | cons a l =>
      have hshort : (l.filter fun b => !b == a).length < n := by
        rw [← hn]
        exact Nat.lt_succ_of_le (List.length_filter_le _ l)
      have hhead : a ∉ (l.filter fun b => !b == a).eraseDups := by
        rw [List.mem_eraseDups, List.mem_filter]
        simp
      rw [List.eraseDups_cons]
      exact List.nodup_cons.mpr ⟨hhead, ih _ hshort _ rfl⟩

theorem mem_presentUsers {userOf : Socket → Uuid} {exclude : Option Socket}
    {sockets : List Socket} {u : Uuid} :
    u ∈ presentUsers userOf exclude sockets ↔
      ∃ socket ∈ sockets, some socket ≠ exclude ∧ userOf socket = u := by
  rw [presentUsers, List.mem_eraseDups, List.mem_map]
  refine exists_congr fun socket => ?_
  rw [List.mem_filter, decide_eq_true_eq, and_assoc]

/-- **What is read is the room at that moment**, without the excluded socket. -/
theorem lists_presentUsers {userOf : Socket → Uuid} {exclude : Option Socket}
    {sockets room : List Socket}
    (h : ∀ socket, socket ∈ room ↔ socket ∈ sockets ∧ some socket ≠ exclude) :
    Lists userOf room (presentUsers userOf exclude sockets) := by
  refine ⟨nodup_eraseDups _, fun u => ?_⟩
  rw [mem_presentUsers]
  refine exists_congr fun socket => ?_
  rw [h socket, and_assoc]

/-! ## What is kept -/

/-- The room is empty, or the last presence event lists it. -/
def Shown (userOf : Socket → Uuid) (room : List Socket) (emitted : List Payload) : Prop :=
  room = [] ∨ ∃ p, emitted.getLast? = some p ∧ Lists userOf room p.userIds

/-- The handler will send a list that is right for this room, or has yet to read
one. -/
def Handler.Carries (userOf : Socket → Uuid) (room : List Socket) : Handler → Prop
  | .joining _ | .disconnecting _ | .evicting _ | .leaving _ _ | .fetching _ => True
  | .closing socket userIds => Lists userOf (without room socket) userIds
  | .emitting userIds => Lists userOf room userIds
  | .idle | .asserting _ | .ended _ => False

/-- The room is shown, or a handler will show it. -/
def Converging (userOf : Socket → Uuid) (s : State) : Prop :=
  Shown userOf s.room s.emitted ∨ ∃ h, (s.handlers h).Carries userOf s.room

/-- A list is sent while it is right, or while another handler will send one that is;
and a socket that is taken out of the room after its handler has read it leaves a
room that is shown, or that a handler will show. -/
def Corrected (userOf : Socket → Uuid) (s : State) : Action → Prop
  | .emit h => ∀ userIds, s.handlers h = .emitting userIds →
      s.room = [] ∨ Lists userOf s.room userIds ∨
        ∃ h' ≠ h, (s.handlers h').Carries userOf s.room
  | .close h => ∀ socket userIds, s.handlers h = .closing socket userIds →
      Shown userOf (without s.room socket) s.emitted ∨
        Lists userOf (without s.room socket) userIds ∨
        ∃ h' ≠ h, (s.handlers h').Carries userOf (without s.room socket)
  | .leave socket => Shown userOf (without s.room socket) s.emitted ∨
      ∃ h, (s.handlers h).Carries userOf (without s.room socket)
  | _ => True

/-- What the steps rely on: closing connections are marked, and one that has left the
room does not come back. -/
structure Inv (s : State) : Prop where
  gone : ∀ h socket, (s.handlers h = .disconnecting socket ∨
    ∃ userIds, s.handlers h = .closing socket userIds) → socket ∈ s.gone
  excluded : ∀ h socket, s.handlers h = .fetching (some socket) →
    socket ∈ s.gone ∧ socket ∉ s.room

variable {userOf : Socket → Uuid} {groupId : String} {s t : State}

theorem inv_start : Inv start :=
  ⟨fun h socket hpc => by simp [start] at hpc, fun h socket hpc => by simp [start] at hpc⟩

/-- A handler has gone on, the connections that close are marked, and no closed one
has entered the room. -/
theorem Inv.goto (hs : Inv s) {h : ℕ} {pc : Handler} {room gone leaves : List Socket}
    {emitted : List Payload} (hgone : ∀ socket ∈ s.gone, socket ∈ gone)
    (hroom : ∀ socket ∈ room, socket ∈ s.gone → socket ∈ s.room)
    (hclosing : ∀ socket, (pc = .disconnecting socket ∨ ∃ userIds, pc = .closing socket userIds) →
      socket ∈ gone)
    (hfetching : ∀ socket, pc = .fetching (some socket) → socket ∈ gone ∧ socket ∉ room) :
    Inv ⟨room, gone, leaves, Function.update s.handlers h pc, emitted⟩ := by
  constructor
  · intro h' socket hpc
    dsimp only at hpc
    by_cases hh : h' = h
    · rw [hh, Function.update_self] at hpc
      exact hclosing socket hpc
    · rw [Function.update_of_ne hh] at hpc
      exact hgone socket (hs.gone h' socket hpc)
  · intro h' socket hpc
    dsimp only at hpc ⊢
    by_cases hh : h' = h
    · rw [hh, Function.update_self] at hpc
      exact hfetching socket hpc
    · rw [Function.update_of_ne hh] at hpc
      obtain ⟨hmem, hout⟩ := hs.excluded h' socket hpc
      exact ⟨hgone socket hmem, fun hin => hout (hroom socket hin hmem)⟩

theorem onAssertMember_cases (socket : Socket) (answer : Except Exception GroupMember) :
    onAssertMember socket answer = .joining socket ∨
      ∃ ack, onAssertMember socket answer = .ended ack := by
  unfold onAssertMember
  split
  · exact Or.inl rfl
  · exact Or.inr ⟨_, rfl⟩
  · exact Or.inr ⟨_, rfl⟩

/-- **Every step keeps it.** -/
theorem inv_of_step {a : Action} (hs : Inv s) (hstep : step userOf groupId s a = some t) :
    Inv t := by
  have hsame : ∀ socket ∈ s.room, socket ∈ s.gone → socket ∈ s.room := fun _ h _ => h
  have hless : ∀ {x : Socket}, ∀ socket ∈ without s.room x, socket ∈ s.gone → socket ∈ s.room :=
    fun _ h _ => (mem_without.mp h).1
  cases stepped_of_step hstep with
  | joinGroup | memberLeft | leaveNoGroup | fetchDeparted | emit | evict =>
    exact hs.goto (fun _ h => h) hsame (by simp) (by simp)
  | assertMember pc =>
    refine hs.goto (fun _ h => h) hsame (fun socket hpc => ?_) (fun socket hpc => ?_)
    · rcases onAssertMember_cases _ _ with h | ⟨ack, h⟩ <;> rw [h] at hpc <;> simp at hpc
    · rcases onAssertMember_cases _ _ with h | ⟨ack, h⟩ <;> rw [h] at hpc <;> simp at hpc
  | join pc =>
    refine hs.goto (fun _ h => h) (fun socket hin hgone => ?_) (by simp) (by simp)
    rcases mem_letIn.mp hin with hin | ⟨rfl, hopen⟩
    · exact hin
    · exact absurd hgone hopen
  | leaveGroup pc hopen hne =>
    exact hs.goto (fun _ h => h) hless (by simp) (by simp)
  | disconnectOutside pc hopen hout =>
    exact hs.goto (fun _ => List.mem_cons_of_mem _) hsame (by simp) (by simp)
  | disconnecting pc hopen hin =>
    refine hs.goto (fun _ => List.mem_cons_of_mem _) hsame (fun socket hpc => ?_) (by simp)
    rcases hpc with hpc | ⟨userIds, hpc⟩
    · obtain rfl := Handler.disconnecting.inj hpc
      exact List.mem_cons_self
    · exact absurd hpc (by simp)
  | closeFirst pc =>
    refine hs.goto (fun _ h => h) hless (by simp) (fun socket hpc => ?_)
    obtain rfl := Option.some.inj (Handler.fetching.inj hpc)
    exact ⟨hs.gone _ _ (Or.inl pc), fun hin => (mem_without.mp hin).2 rfl⟩
  | close pc =>
    exact hs.goto (fun _ h => h) hless (by simp) (by simp)
  | fetch pc =>
    exact hs.goto (fun _ h => h) hsame (by simp) (by simp)
  | fetchListed pc =>
    refine hs.goto (fun _ h => h) hsame (fun socket hpc => ?_) (by simp)
    rcases hpc with hpc | ⟨userIds, hpc⟩
    · exact absurd hpc (by simp)
    · obtain ⟨rfl, -⟩ := Handler.closing.inj hpc
      exact hs.gone _ _ (Or.inl pc)
  | leave hmem =>
    exact ⟨hs.gone, fun h socket hpc =>
      ⟨(hs.excluded h socket hpc).1, fun hin => (hs.excluded h socket hpc).2 (mem_without.mp hin).1⟩⟩

/-! ## The exact step condition -/

theorem converging_start : Converging userOf start := Or.inl (Or.inl rfl)

/-- A handler goes on and carries the room. -/
theorem converging_of_carries {h : ℕ} {pc : Handler} {room gone leaves : List Socket}
    {emitted : List Payload} (hpc : pc.Carries userOf room) :
    Converging userOf ⟨room, gone, leaves, Function.update s.handlers h pc, emitted⟩ :=
  Or.inr ⟨h, by simpa only [Function.update_self] using hpc⟩

/-- A handler goes on and carries what it carried, while the room and the events stay. -/
theorem Converging.goto (hs : Converging userOf s) {h : ℕ} {pc : Handler} {gone : List Socket}
    (hpc : (s.handlers h).Carries userOf s.room → pc.Carries userOf s.room) :
    Converging userOf ⟨s.room, gone, s.leaves, Function.update s.handlers h pc, s.emitted⟩ := by
  rcases hs with hshown | hsome
  · exact Or.inl hshown
  · exact Or.inr (exists_of_moved hsome hpc)

/-- What is on its way once handler `h` has gone on. -/
theorem converging_update_iff {h : ℕ} {pc : Handler} {room gone leaves : List Socket}
    {emitted : List Payload} :
    Converging userOf ⟨room, gone, leaves, Function.update s.handlers h pc, emitted⟩ ↔
      Shown userOf room emitted ∨ pc.Carries userOf room ∨
        ∃ h' ≠ h, (s.handlers h').Carries userOf room :=
  or_congr_right (Function.exists_update_iff s.handlers fun _ pc => pc.Carries userOf room)

theorem shown_emit_iff {room : List Socket} {emitted : List Payload} {p : Payload} :
    Shown userOf room (emitted ++ [p]) ↔ room = [] ∨ Lists userOf room p.userIds := by
  refine or_congr_right ?_
  rw [List.getLast?_concat]
  constructor
  · rintro ⟨p', hp, hlists⟩
    obtain rfl := Option.some.inj hp
    exact hlists
  · exact fun h => ⟨p, rfl, h⟩

/-- **One step keeps it exactly if it is corrected.** -/
theorem converging_step_iff {a : Action} (hinv : Inv s) (hs : Converging userOf s)
    (hstep : step userOf groupId s a = some t) :
    Converging userOf t ↔ Corrected userOf s a := by
  cases stepped_of_step hstep with
  | joinGroup pc | leaveNoGroup pc | memberLeft pc =>
    refine iff_of_true (hs.goto fun hc => ?_) trivial
    rw [pc] at hc
    exact hc.elim
  | disconnectOutside pc hopen hout =>
    refine iff_of_true (hs.goto fun hc => ?_) trivial
    rw [pc] at hc
    exact hc.elim
  | assertMember pc =>
    refine iff_of_true (hs.goto fun hc => ?_) trivial
    rw [pc] at hc
    exact hc.elim
  | join pc | leaveGroup pc | disconnecting pc | fetchDeparted pc | evict pc =>
    exact iff_of_true (converging_of_carries trivial) trivial
  | closeFirst pc =>
    refine iff_of_true (converging_of_carries trivial) fun socket userIds hpc => ?_
    exact absurd (pc.symm.trans hpc) (by simp)
  | fetch pc =>
    rename_i h exclude
    refine iff_of_true (converging_of_carries ?_) trivial
    -- an excluded socket has left the room for good
    refine lists_presentUsers fun socket => (and_iff_left_of_imp fun hin => ?_).symm
    rintro rfl
    exact (hinv.excluded h socket pc).2 hin
  | fetchListed pc =>
    refine iff_of_true (converging_of_carries ?_) trivial
    refine lists_presentUsers fun socket => ?_
    rw [mem_without, Ne, Ne, Option.some.injEq]
  | close pc =>
    refine converging_update_iff.trans ?_
    constructor
    · intro h socket userIds hpc
      obtain ⟨rfl, rfl⟩ := Handler.closing.inj (pc.symm.trans hpc)
      exact h
    · exact fun h => h _ _ pc
  | leave hmem => exact Iff.rfl
  | emit pc =>
    rename_i h userIds
    refine converging_update_iff.trans ?_
    rw [shown_emit_iff, or_assoc]
    constructor
    · intro hafter userIds' hpc
      obtain rfl := Handler.emitting.inj (pc.symm.trans hpc)
      exact hafter.imp_right fun h => h.imp_right fun h => h.resolve_left id
    · exact fun hafter => (hafter userIds pc).imp_right fun h => h.imp_right Or.inr

/-! ## Runs -/

/-- What is on its way stays on its way exactly if every step is corrected. -/
theorem converging_iff (userOf : Socket → Uuid) (groupId : String) (acts : List Action) :
    AllStates (step userOf groupId) (Converging userOf) start acts ↔
      AllSteps (step userOf groupId) (Corrected userOf) start acts :=
  allStates_iff_allSteps (fun _ _ _ hs h => inv_of_step hs h)
    (fun _ _ _ hinv hs h => converging_step_iff hinv hs h) inv_start converging_start acts

/-- With every handler finished the room is shown. -/
theorem Converging.shown (hs : Converging userOf s) (hfinished : Finished s) :
    Shown userOf s.room s.emitted := by
  refine hs.resolve_right ?_
  rintro ⟨h, hcarries⟩
  have hrest := hfinished h
  cases hpc : s.handlers h <;> simp_all [Handler.isAtRest, Handler.Carries]

/-- **Presence converges when the last word is right.**  In every run whose steps are
all corrected, in every state in which all handlers have finished and the room is not
empty, the last presence event lists each user with a socket in the room exactly
once, and nobody else. -/
theorem presence_converges (userOf : Socket → Uuid) (groupId : String) (acts : List Action)
    (h : AllSteps (step userOf groupId) (Corrected userOf) start acts) :
    AllStates (step userOf groupId) (fun s => Finished s → s.room ≠ [] →
        ∃ p, s.emitted.getLast? = some p ∧ Lists userOf s.room p.userIds) start acts :=
  ((converging_iff userOf groupId acts).mpr h).mono fun _ hs hfinished hne =>
    (hs.shown hfinished).resolve_left hne

/-! ## Two runs -/

/-- The list a handler has read is the room as it is. -/
def Handler.Current (userOf : Socket → Uuid) (room : List Socket) : Handler → Prop
  | .emitting userIds => Lists userOf room userIds
  | .closing socket userIds => Lists userOf (without room socket) userIds
  | _ => True

instance (userOf : Socket → Uuid) (room : List Socket) :
    ∀ pc : Handler, Decidable (pc.Current userOf room)
  | .emitting userIds => inferInstanceAs (Decidable (Lists userOf room userIds))
  | .closing socket userIds => inferInstanceAs (Decidable (Lists userOf (without room socket) userIds))
  | .idle | .asserting _ | .joining _ | .disconnecting _ | .evicting _ | .leaving .. | .fetching _
  | .ended _ => isTrue trivial

/-- No list is outdated when it is sent or when its socket goes; and a dispatched leave takes
effect before one of the first handlers reads the room. -/
def Prompt (userOf : Socket → Uuid) (s : State) : Action → Prop
  | .emit h | .close h => (s.handlers h).Current userOf s.room
  | .leave _ => ∃ h < 8, s.handlers h = .fetching none
  | _ => True

instance (userOf : Socket → Uuid) (s : State) : ∀ a, Decidable (Prompt userOf s a)
  | .emit h | .close h => inferInstanceAs (Decidable ((s.handlers h).Current userOf s.room))
  | .leave _ => inferInstanceAs (Decidable (∃ h < 8, s.handlers h = .fetching none))
  | .joinGroup .. | .assertMember .. | .join _ | .leaveGroup .. | .disconnecting ..
  | .memberLeft .. | .fetchSockets _ | .evict _ => isTrue trivial

theorem Prompt.corrected {a : Action} (h : Prompt userOf s a) : Corrected userOf s a := by
  cases a with
  | emit h' =>
    intro userIds hpc
    rw [Prompt, hpc] at h
    exact Or.inr (Or.inl h)
  | close h' =>
    intro socket userIds hpc
    rw [Prompt, hpc] at h
    exact Or.inr (Or.inl h)
  | leave socket =>
    obtain ⟨h', -, hpc⟩ := h
    refine Or.inr ⟨h', ?_⟩
    rw [hpc]
    trivial
  | joinGroup | assertMember | join | leaveGroup | disconnecting | memberLeft | fetchSockets
  | evict => trivial

/-- A socket enters the room, up to the reading of the room. -/
def joinRun (t : Tables) (h : ℕ) (socket : Socket) : List Action :=
  [.joinGroup h socket, .assertMember h t, .join h, .fetchSockets h]

/-- A member's open connection is admitted, and the room is read with it. -/
theorem exec_joinRun {t : Tables} {h : ℕ} {socket : Socket} {row : GroupMember}
    (hidle : s.handlers h = .idle) (hopen : socket ∉ s.gone)
    (hmember : Chat.assertMember t (userOf socket) groupId = .ok row) :
    exec (step userOf groupId) s (joinRun t h socket) =
      some ⟨s.letIn socket, s.gone, s.leaves,
        Function.update s.handlers h (.emitting (presentUsers userOf none (s.letIn socket))),
        s.emitted⟩ := by
  simp only [joinRun, exec_cons, exec_nil, step, hidle, if_neg hopen, Option.bind_some, State.goto,
    Function.update_self, hmember, onAssertMember, Function.update_idem]
  rfl

/-- Joining is prompt whatever comes after it. -/
theorem prompt_joinRun {t : Tables} {h : ℕ} {socket : Socket} {row : GroupMember}
    {acts : List Action} (hidle : s.handlers h = .idle) (hopen : socket ∉ s.gone)
    (hmember : Chat.assertMember t (userOf socket) groupId = .ok row)
    (hrest : AllSteps (step userOf groupId) (Prompt userOf)
      ⟨s.letIn socket, s.gone, s.leaves,
        Function.update s.handlers h (.emitting (presentUsers userOf none (s.letIn socket))),
        s.emitted⟩ acts) :
    AllSteps (step userOf groupId) (Prompt userOf) s (joinRun t h socket ++ acts) := by
  refine AllSteps.append (AllSteps.of_mem fun a ha t => ?_) fun u hu => ?_
  · simp only [joinRun, List.mem_cons, List.not_mem_nil, or_false] at ha
    rcases ha with rfl | rfl | rfl | rfl <;> trivial
  · rw [exec_joinRun hidle hopen hmember] at hu
    rw [← Option.some.inj hu]
    exact hrest

/-- The group of the runs, and its text. -/
def someGroup : Uuid := 0x0198a3f25b6c7d8e9fa00b1c2d3e7c01

def someGroupId : String := "0198a3f2-5b6c-7d8e-9fa0-0b1c2d3e7c01"

theorem spells_someGroupId : Spells someGroupId someGroup := by decide

/-- A user with two tabs closes one of them. -/
def closedTabRun : List Action :=
  joinRun (oneMember someGroup) 0 1 ++ (joinRun (oneMember someGroup) 1 2 ++
    [.emit 0, .emit 1, .disconnecting 2 2, .fetchSockets 2, .close 2, .emit 2])

theorem presence_converges_closedTabRun :
    AllStates (step (fun _ => 0) someGroupId) (fun s => Finished s → s.room ≠ [] →
        ∃ p, s.emitted.getLast? = some p ∧ Lists (fun _ => 0) s.room p.userIds) start
      closedTabRun := by
  have hmember : Chat.assertMember (oneMember someGroup) 0 someGroupId = .ok _ :=
    assertMember_of_spells spells_someGroupId (membership_oneMember someGroup)
  have hprompt : AllSteps (step (fun _ => 0) someGroupId) (Prompt fun _ => 0) start
      closedTabRun := by
    refine prompt_joinRun rfl (by decide) hmember (prompt_joinRun rfl (by decide) hmember ?_)
    decide
  exact presence_converges (fun _ => 0) someGroupId closedTabRun
    (hprompt.mono fun _ _ h => h.corrected)

/-- Users 0 and 6 are members of the group. -/
def twoUsers : Tables := (oneMember someGroup).put (.member (newMember 1 someGroup 6 .member epoch))

/-- Socket 3 is of user 6, all others are of user 0. -/
def ownerOfSocket (socket : Socket) : Uuid := if socket = 3 then 6 else 0

/-- Two users join at the same time; the first broadcast has read the room before the
second user entered it, and is sent last. -/
def overtakenRun : List Action :=
  joinRun twoUsers 0 1 ++ (joinRun twoUsers 1 3 ++ [.emit 1, .emit 0])

/-- **An overtaken list stays.** -/
theorem not_presence_converges_overtakenRun :
    ¬ AllStates (step ownerOfSocket someGroupId) (fun s => Finished s → s.room ≠ [] →
        ∃ p, s.emitted.getLast? = some p ∧ Lists ownerOfSocket s.room p.userIds) start
      overtakenRun := by
  intro h
  have hfirst : Chat.assertMember twoUsers (ownerOfSocket 1) someGroupId =
      .ok (newMember 0 someGroup 0 .member epoch) :=
    assertMember_of_spells spells_someGroupId (by decide)
  have hsecond : Chat.assertMember twoUsers (ownerOfSocket 3) someGroupId =
      .ok (newMember 1 someGroup 6 .member epoch) :=
    assertMember_of_spells spells_someGroupId (by decide)
  have hend : ∃ s, exec (step ownerOfSocket someGroupId) start overtakenRun = some s ∧
      Finished s ∧ s.room = [1, 3] ∧ s.emitted.getLast? = some ⟨someGroupId, [0]⟩ := by
    rw [overtakenRun, exec_append, exec_joinRun rfl (by decide) hfirst, Option.bind_some,
      exec_append, exec_joinRun rfl (by decide) hsecond, Option.bind_some]
    refine ⟨_, rfl, fun c => ?_, by decide, by decide⟩
    match c with
    | 0 | 1 => rfl
    | c + 2 => rfl
  obtain ⟨s, hs, hfinished, hroom, hlast⟩ := hend
  obtain ⟨p, hp, hlists⟩ := h.last hs hfinished (by rw [hroom]; simp)
  rw [hlast] at hp
  rw [← Option.some.inj hp, hroom] at hlists
  exact absurd hlists (by decide)

end Presence
end Chat
end GroupChat
