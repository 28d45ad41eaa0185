import GroupChat.Auth.WholeCalls

/-!
# Purging keeps reuse detection

Reuse is detected by finding a row that still exists with `revokedAt` set, so a
purge that deleted such rows too early would turn a replay into an unknown token.
`purgeExpired` looks at `expiresAt` only, with a grace period.

`purge_keeps_reuse_detection` has two parts.  A token that was consumed or revoked
and is presented again within the grace period is answered as reuse, and from then
on no token of its family is accepted, whichever calls follow.  And a purge takes
nothing from a token that has not expired: compared with the same calls without
the purges, `rotate` refuses no such token that it would have accepted, and
`revokeByToken` finds its row.

The comparison with the run without purges is a simulation, `Behind`.  The two runs
drift apart, because a replay of a long expired token burns the family in one of
them and is unknown in the other; what is kept is that a row that is live without
the purges is the same live row with them, or has expired.
-/

namespace GroupChat
namespace Auth

open Common Database Transition

variable {cfg : Config} {s t u : Server} {a : Request × Input}

/-! ## What is spent stays spent -/

/-- No row of the family is live, and the family is one that was used. -/
structure FamilyDead (s : Server) (familyId : Uuid) : Prop where
  known : ∃ r ∈ s.log.issued, r.familyId = familyId
  dead : ∀ r ∈ s.tokens, r.familyId = familyId → r.live = false

/-- The row of a token is not live, or is gone. -/
structure TokenDead (s : Server) (r : RefreshToken) : Prop where
  issued : r ∈ s.log.issued
  dead : ∀ x ∈ s.tokens, x.asIssued = r → x.live = false

/-- **A dead family stays dead.** -/
theorem Served.familyDead (h : Served cfg s t a) {familyId : Uuid}
    (hdead : FamilyDead s familyId) : FamilyDead t familyId := by
  obtain ⟨r, hr, hfamily⟩ := hdead.known
  refine ⟨⟨r, h.grows r hr, hfamily⟩, fun x hx hxfamily => Bool.eq_false_iff.mpr fun hlive => ?_⟩
  rcases h.old_of_live hx hlive with hold | ⟨-, hfresh | ⟨existing, hmem, hwas, heq⟩⟩
  · exact absurd hlive (by simp [hdead.dead x hold hxfamily])
  · exact hfresh r hr (hfamily.trans hxfamily.symm)
  · exact absurd hwas (by simp [hdead.dead existing hmem (heq.trans hxfamily)])

/-- **A spent token stays spent.** -/
theorem Served.tokenDead (h : Served cfg s t a) {r : RefreshToken} (hdead : TokenDead s r) :
    TokenDead t r := by
  refine ⟨h.grows r hdead.issued, fun x hx hxr => Bool.eq_false_iff.mpr fun hlive => ?_⟩
  rcases h.old_of_live hx hlive with hold | ⟨hfresh, -⟩
  · exact absurd hlive (by simp [hdead.dead x hold hxr])
  · refine (hfresh r hdead.issued).1 ?_
    rw [← hxr, RefreshToken.asIssued_id]

/-- A token within its grace period still has its row. -/
def Kept (cfg : Config) (s : Server) : Prop :=
  ∀ r ∈ s.log.issued, s.now ≤ r.expiresAt + cfg.purgeGraceMs → ∃ x ∈ s.tokens, x.asIssued = r

theorem kept_start (now : ℤ) : Kept cfg (Server.start now) :=
  fun r h => absurd h (Table.not_mem_empty r)

/-- No row disappears but by a purge. -/
theorem Served.asIssued_mem (h : Served cfg s t a) (hs : s.Inv)
    (hnot : a.1 ≠ .purgeExpired) {x : RefreshToken} (hx : x ∈ s.tokens) :
    ∃ y ∈ t.tokens, y.asIssued = x.asIssued := by
  have hold : ∀ {new : RefreshToken}, FreshToken s.log new → x.id ≠ new.id := by
    intro new hfresh
    have hne := (hfresh x.asIssued (hs.issued x hx)).1
    exact hne
  cases h with
  | same htokens hlog => exact ⟨x, htokens ▸ hx, rfl⟩
  | opened new htokens hlog hlive hfresh hfamily =>
    refine ⟨x, ?_, rfl⟩
    rw [htokens]
    exact (Table.mem_put_of_key_ne (hold hfresh)).mpr hx
  | exchanged existing new now hmem hwas htokens hlog hlive hfresh hfamily =>
    rw [htokens]
    by_cases hid : x.id = existing.id
    · obtain rfl : x = existing := Table.eq_of_key_eq hx hmem hid
      exact ⟨x.revoke now, (Table.mem_put_of_key_ne (x := x.revoke now) (hold hfresh)).mpr
        (Table.mem_put_self s.tokens (x.revoke now)), rfl⟩
    · exact ⟨x, (Table.mem_put_of_key_ne (hold hfresh)).mpr
        ((Table.mem_put_of_key_ne (r := existing.revoke now) hid).mpr hx), rfl⟩
  | revoked existing now hmem htokens hlog =>
    rw [htokens]
    by_cases hif : x.familyId = existing.familyId ∧ x.live = true
    · exact ⟨x.revoke now, mem_revokeFamily.mpr (Or.inl ⟨x, hx, hif.1, hif.2, rfl⟩), rfl⟩
    · exact ⟨x, mem_revokeFamily.mpr (Or.inr ⟨hx, hif⟩), rfl⟩
  | purged hrequest htokens hlog => exact absurd hrequest hnot

/-- A row issued by a call is in the table. -/
theorem Served.mem_of_issued (h : Served cfg s t a) {r : RefreshToken} (hr : r ∈ t.log.issued) :
    r ∈ s.log.issued ∨ r ∈ t.tokens := by
  cases h with
  | same _ hlog | revoked _ _ _ _ hlog | purged _ _ hlog =>
    rw [hlog] at hr
    exact Or.inl hr
  | opened new htokens hlog _ _ _ | exchanged _ new _ _ _ htokens hlog _ _ _ =>
    rw [hlog, Log.issue, Table.mem_put] at hr
    rcases hr with rfl | ⟨hold, -⟩
    · exact Or.inr (htokens ▸ Table.mem_put_self _ _)
    · exact Or.inl hold

/-- **The grace period is kept.** -/
theorem kept_of_serve (hs : s.Inv) (hkept : Kept cfg s) (h : serve cfg s a = some t) :
    Kept cfg t := by
  have hserved : Served cfg s t a := served_of_serve h
  obtain ⟨hle, hnow, -⟩ := serve_eq_some h
  intro r hr hgrace
  rw [hnow] at hgrace
  rcases hserved.mem_of_issued hr with hold | hmem
  · obtain ⟨x, hx, hxr⟩ := hkept r hold (le_trans hle hgrace)
    by_cases hreq : a.1 = .purgeExpired
    · refine ⟨x, ?_, hxr⟩
      have hexp : ¬ x.expiresAt < a.2.now - cfg.purgeGraceMs := by
        have heq : x.expiresAt = r.expiresAt := by rw [← hxr]; rfl
        omega
      have htokens : t.tokens = (wholeCall cfg s.tokens a.2 .purgeExpired).1 :=
        hreq ▸ (serve_eq_some h).2.2.1
      rw [htokens]
      exact Table.mem_filter.mpr ⟨hx, by simpa using hexp⟩
    · obtain ⟨y, hy, hyx⟩ := hserved.asIssued_mem hs hreq hx
      exact ⟨y, hy, hyx.trans hxr⟩
  · exact ⟨r, hmem, RefreshToken.asIssued_of_live ((hserved.inv hs).live r hr)⟩

/-! ## Without the purges -/

/-- What a run without purges, `t'` and `log'`, has to do with one with them. -/
structure Behind (t' : Tokens) (log' : Log) (t : Tokens) (log : Log) (now : ℤ) : Prop where
  issued : ∀ r ∈ t', Issued log' r
  grows : log'.Grows log
  /-- No row is missing. -/
  kept : ∀ r ∈ log'.issued, ∃ x ∈ t', x.asIssued = r
  /-- A live row is live with the purges too, or was purged after it expired. -/
  live : ∀ r ∈ t', r.live = true → r ∈ t ∨ r.expiresAt < now ∧ Unused t r.id
  /-- A token that was not issued without the purges was refused there with its family. -/
  refused : ∀ r ∈ log.issued, r ∉ log'.issued →
    ∀ x ∈ t', x.familyId = r.familyId → x.live = false

section Behind

variable {t' t₁ t₂ : Tokens} {log' log₂ : Log} {now now₂ : ℤ}

theorem Behind.later (h : Behind t' log' t₂ log₂ now) (hnow : now ≤ now₂) :
    Behind t' log' t₂ log₂ now₂ :=
  { h with live := fun r hr hlive => (h.live r hr hlive).imp_right fun hexp =>
      ⟨lt_of_lt_of_le hexp.1 hnow, hexp.2⟩ }

/-- Rows may die on the side without purges. -/
theorem Behind.left (h : Behind t' log' t₂ log₂ now) (hissued : ∀ r ∈ t₁, Issued log' r)
    (hkept : ∀ r ∈ t', ∃ x ∈ t₁, x.asIssued = r.asIssued)
    (hlive : ∀ r ∈ t₁, r.live = true → r ∈ t') : Behind t₁ log' t₂ log₂ now where
  issued := hissued
  grows := h.grows
  kept r hr := by
    obtain ⟨x, hx, hxr⟩ := h.kept r hr
    obtain ⟨y, hy, hyx⟩ := hkept x hx
    exact ⟨y, hy, hyx.trans hxr⟩
  live r hr hl := h.live r (hlive r hr hl) hl
  refused r hr hnot x hx hfamily :=
    Bool.eq_false_iff.mpr fun hl =>
      absurd hl (by simp [h.refused r hr hnot x (hlive x hx hl) hfamily])

/-- On the side with purges a row may go that is not live on the other. -/
theorem Behind.right (h : Behind t' log' t₂ log₂ now)
    (hlive : ∀ r ∈ t', r.live = true → r ∈ t₂ → r ∈ t₁ ∨ r.expiresAt < now ∧ Unused t₁ r.id)
    (hunused : ∀ id, Unused t₂ id → Unused t₁ id) : Behind t' log' t₁ log₂ now := by
  refine ⟨h.issued, h.grows, h.kept, fun r hr hl => ?_, h.refused⟩
  rcases h.live r hr hl with hold | ⟨hexp, hun⟩
  · exact hlive r hr hl hold
  · exact Or.inr ⟨hexp, hunused _ hun⟩

theorem Behind.fresh (h : Behind t' log' t₂ log₂ now) {new : RefreshToken}
    (hfresh : FreshToken log₂ new) : FreshToken log' new :=
  fun r hr => hfresh r (h.grows r hr)

theorem Behind.id_ne (h : Behind t' log' t₂ log₂ now) {new r : RefreshToken}
    (hfresh : FreshToken log₂ new) (hr : r ∈ t') : r.id ≠ new.id :=
  have hne := (hfresh _ (h.grows _ (h.issued r hr))).1
  hne

/-- Both sides issue the same row. -/
theorem Behind.both (h : Behind t' log' t₂ log₂ now) {new : RefreshToken}
    (hnew : new.live = true) (hfresh : FreshToken log₂ new)
    (hfamily : ∀ r ∈ log₂.issued, r ∉ log'.issued → r.familyId ≠ new.familyId) :
    Behind (t'.put new) (log'.issue new) (t₂.put new) (log₂.issue new) now where
  issued r hr := by
    rcases Table.mem_put.mp hr with rfl | ⟨hold, -⟩
    · exact Log.issued_issue log' hnew
    · exact (h.issued r hold).mono (Log.grows_issue (h.fresh hfresh))
  grows r hr := by
    rcases Table.mem_put.mp hr with rfl | ⟨hold, hid⟩
    · exact Table.mem_put_self _ _
    · exact Table.mem_put.mpr (Or.inr ⟨h.grows r hold, hid⟩)
  kept r hr := by
    rcases Table.mem_put.mp hr with rfl | ⟨hold, -⟩
    · exact ⟨r, Table.mem_put_self _ _, RefreshToken.asIssued_of_live hnew⟩
    · obtain ⟨x, hx, hxr⟩ := h.kept r hold
      exact ⟨x, (Table.mem_put_of_key_ne (h.id_ne hfresh hx)).mpr hx, hxr⟩
  live r hr hl := by
    rcases Table.mem_put.mp hr with rfl | ⟨hold, hid⟩
    · exact Or.inl (Table.mem_put_self _ _)
    · rcases h.live r hold hl with hmem | ⟨hexp, hun⟩
      · exact Or.inl ((Table.mem_put_of_key_ne hid).mpr hmem)
      · refine Or.inr ⟨hexp, fun x hx => ?_⟩
        rcases Table.mem_put.mp hx with rfl | ⟨hx, -⟩
        · exact hid.symm
        · exact hun x hx
  refused r hr hnot x hx hxfamily := by
    rcases Table.mem_put.mp hr with rfl | ⟨hold, hid⟩
    · exact absurd (Table.mem_put_self _ _) hnot
    · have hnot' : r ∉ log'.issued := fun hmem =>
        hnot (Table.mem_put.mpr (Or.inr ⟨hmem, hid⟩))
      rcases Table.mem_put.mp hx with rfl | ⟨hx, -⟩
      · exact absurd hxfamily.symm (hfamily r hold hnot')
      · exact h.refused r hold hnot' x hx hxfamily

/-- Only the side with purges issues a row, of a family that is dead on the other. -/
theorem Behind.only (h : Behind t' log' t₂ log₂ now) {new : RefreshToken}
    (hfresh : FreshToken log₂ new)
    (hdead : ∀ x ∈ t', x.familyId = new.familyId → x.live = false) :
    Behind t' log' (t₂.put new) (log₂.issue new) now where
  issued := h.issued
  grows r hr := Log.grows_issue hfresh r (h.grows r hr)
  kept := h.kept
  live r hr hl := by
    rcases h.live r hr hl with hmem | ⟨hexp, hun⟩
    · exact Or.inl ((Table.mem_put_of_key_ne (h.id_ne hfresh hr)).mpr hmem)
    · refine Or.inr ⟨hexp, fun x hx => ?_⟩
      rcases Table.mem_put.mp hx with rfl | ⟨hx, -⟩
      · exact (h.id_ne hfresh hr).symm
      · exact hun x hx
  refused r hr hnot x hx hxfamily := by
    rcases Table.mem_put.mp hr with rfl | ⟨hold, -⟩
    · exact hdead x hx hxfamily
    · exact h.refused r hold hnot x hx hxfamily

/-- The family of a token is revoked without the purges. -/
theorem Behind.revokeLeft (h : Behind t' log' t₂ log₂ now) (familyId : Uuid) (at_ : ℤ) :
    Behind (revokeFamily t' familyId at_) log' t₂ log₂ now := by
  refine h.left (fun r hr => issued_of_mem_revokeFamily h.issued hr) (fun r hr => ?_)
    fun r hr hl => ((mem_revokeFamily_of_live hl).mp hr).1
  by_cases hif : r.familyId = familyId ∧ r.live = true
  · exact ⟨r.revoke at_, mem_revokeFamily.mpr (Or.inl ⟨r, hr, hif.1, hif.2, rfl⟩), rfl⟩
  · exact ⟨r, mem_revokeFamily.mpr (Or.inr ⟨hr, hif⟩), rfl⟩

/-- A family that is dead without the purges is revoked with them. -/
theorem Behind.revokeRight (h : Behind t' log' t₂ log₂ now) {familyId : Uuid} (at_ : ℤ)
    (hdead : ∀ x ∈ t', x.familyId = familyId → x.live = false) :
    Behind t' log' (revokeFamily t₂ familyId at_) log₂ now := by
  refine h.right (fun r hr hl hmem => Or.inl ?_) fun id hun x hx => ?_
  · refine (mem_revokeFamily_of_live hl).mpr ⟨hmem, fun hfamily => ?_⟩
    exact absurd hl (by simp [hdead r hr hfamily])
  · rcases mem_revokeFamily.mp hx with ⟨x', hx', -, -, rfl⟩ | ⟨hx, -⟩
    · exact hun x' hx'
    · exact hun x hx

/-- A token is consumed without the purges. -/
theorem Behind.consumeLeft (h : Behind t' log' t₂ log₂ now) {r : RefreshToken} (hr : r ∈ t')
    (at_ : ℤ) : Behind (t'.put (r.revoke at_)) log' t₂ log₂ now := by
  refine h.left (fun x hx => ?_) (fun x hx => ?_) fun x hx hl => ?_
  · rcases Table.mem_put.mp hx with rfl | ⟨hold, -⟩
    · exact (h.issued r hr).revoke at_
    · exact h.issued x hold
  · by_cases hid : x.id = r.id
    · obtain rfl : x = r := Table.eq_of_key_eq hx hr hid
      exact ⟨x.revoke at_, Table.mem_put_self _ _, rfl⟩
    · exact ⟨x, (Table.mem_put_of_key_ne (r := r.revoke at_) hid).mpr hx, rfl⟩
  · rcases Table.mem_put.mp hx with rfl | ⟨hold, -⟩
    · exact absurd hl (by simp)
    · exact hold

/-- A token that is not live without the purges is consumed with them. -/
theorem Behind.consumeRight (h : Behind t' log' t₂ log₂ now) {r : RefreshToken} (hr : r ∈ t₂)
    (at_ : ℤ) (hdead : ∀ x ∈ t', x.id = r.id → x.live = false) :
    Behind t' log' (t₂.put (r.revoke at_)) log₂ now := by
  refine h.right (fun x hx hl hmem => Or.inl ?_) fun id hun x hx => ?_
  · refine (Table.mem_put_of_key_ne (r := r.revoke at_) fun hid => ?_).mpr hmem
    exact absurd hl (by simp [hdead x hx hid])
  · rcases Table.mem_put.mp hx with rfl | ⟨hold, -⟩
    · exact hun r hr
    · exact hun x hold

/-- Rows that expired are purged. -/
theorem Behind.purge (h : Behind t' log' t₂ log₂ now) {cutoff : ℤ} (hcutoff : cutoff ≤ now) :
    Behind t' log' (t₂.filter fun r => ¬ r.expiresAt < cutoff) log₂ now := by
  refine h.right (fun r hr hl hmem => ?_) fun id hun x hx => hun x (Table.mem_filter.mp hx).1
  by_cases hexp : r.expiresAt < cutoff
  · refine Or.inr ⟨lt_of_lt_of_le hexp hcutoff, fun x hx hid => ?_⟩
    obtain ⟨hx, hkeep⟩ := Table.mem_filter.mp hx
    obtain rfl : x = r := Table.eq_of_key_eq hx hmem hid
    exact absurd hkeep (by simpa using hexp)
  · exact Or.inl (Table.mem_filter.mpr ⟨hmem, by simpa using hexp⟩)

end Behind

/-- The two runs, between calls. -/
structure Server.Behind (s' s : Server) : Prop where
  inv' : s'.Inv
  inv : s.Inv
  now : s'.now ≤ s.now
  behind : Auth.Behind s'.tokens s'.log s.tokens s.log s.now

section Sync

variable {s' : Server} {rawToken hash : String} {input : Input} {existing : RefreshToken}

/-- A token found with the purges is the same token without them, or is unknown there
and its family is dead. -/
theorem Server.Behind.found (h : s'.Behind s) (hfind : findByHash s.tokens hash = some existing) :
    findByHash s'.tokens hash = none ∧
        (∀ x ∈ s'.tokens, x.familyId = existing.familyId → x.live = false) ∨
      ∃ x, findByHash s'.tokens hash = some x ∧ x.asIssued = existing.asIssued ∧
        (x.live = true → x = existing) := by
  obtain ⟨hmem, rfl⟩ := findByHash_eq_some hfind
  by_cases hissued : existing.asIssued ∈ s'.log.issued
  · obtain ⟨x, hx, hxr⟩ := h.behind.kept _ hissued
    obtain ⟨hid, -, hhash, -, -⟩ := RefreshToken.fields_eq hxr
    refine Or.inr ⟨x, hhash ▸ h.inv'.findByHash hx, hxr, fun hlive => ?_⟩
    rcases h.behind.live x hx hlive with hold | ⟨-, hun⟩
    · exact Table.eq_of_key_eq hold hmem hid
    · exact absurd hid.symm (hun existing hmem)
  · have hfamily := h.behind.refused existing.asIssued (h.inv.issued existing hmem) hissued
    refine Or.inl ⟨?_, hfamily⟩
    rw [Option.eq_none_iff_forall_not_mem]
    intro x hx
    obtain ⟨hxmem, hhash⟩ := findByHash_eq_some hx
    have hxissued : x.asIssued ∈ s'.log.issued := h.inv'.issued x hxmem
    have hsame : x.asIssued = existing.asIssued :=
      h.inv.tokenHash _ (h.behind.grows _ hxissued) _ (h.inv.issued existing hmem) hhash
    exact hissued (hsame ▸ hxissued)

/-- A live and unexpired token is the same with the purges. -/
theorem Server.Behind.found_of_live (h : s'.Behind s)
    (hfind : findByHash s'.tokens hash = some existing) (hlive : existing.live = true)
    (hexp : s.now < existing.expiresAt) : findByHash s.tokens hash = some existing := by
  obtain ⟨hmem, rfl⟩ := findByHash_eq_some hfind
  rcases h.behind.live existing hmem hlive with hold | ⟨hlapsed, -⟩
  · exact h.inv.findByHash hold
  · exact absurd hexp (not_lt.mpr hlapsed.le)

/-- Tokens found for one hash on both sides are of one family. -/
theorem Server.Behind.familyId_eq (h : s'.Behind s) {x : RefreshToken}
    (hfind' : findByHash s'.tokens hash = some x) (hfind : findByHash s.tokens hash = some existing) :
    x.familyId = existing.familyId := by
  rcases h.found hfind with ⟨hnone, -⟩ | ⟨y, hy, hyr, -⟩
  · exact absurd (hnone.symm.trans hfind') (by simp)
  · obtain rfl : y = x := Option.some.inj (hy.symm.trans hfind')
    exact (RefreshToken.fields_eq hyr).2.2.2.1

/-- **One exchange on both sides.** -/
theorem Server.Behind.rotate (h : s'.Behind s) (hnow : s.now ≤ input.now)
    {result' result : Tokens × Call} (hrot' : Rotation cfg s'.tokens rawToken input result')
    (hrot : Rotation cfg s.tokens rawToken input result)
    (hfresh : ∀ r ∈ inserted cfg input (.rotate rawToken) result.2, FreshToken s.log r) :
    (∀ r ∈ inserted cfg input (.rotate rawToken) result'.2,
        r ∈ inserted cfg input (.rotate rawToken) result.2) ∧
      Auth.Behind result'.1 (s'.log.add (inserted cfg input (.rotate rawToken) result'.2))
        result.1 (s.log.add (inserted cfg input (.rotate rawToken) result.2)) input.now := by
  have hbehind := h.behind.later hnow
  cases hrot' with
  | refused message hother hlapsed =>
    refine ⟨fun r hr => absurd hr (by simp [inserted]), ?_⟩
    cases hrot with
    | refused => exact hbehind
    | reused existing hfind hdead =>
      rcases h.found hfind with ⟨-, hfamily⟩ | ⟨x, hx, -, hsame⟩
      · exact hbehind.revokeRight _ hfamily
      · have hlive := (hlapsed x hx).1
        exact absurd (hsame hlive ▸ hlive) (by simp [hdead])
    | exchanged existing hfind hlive hexp huser =>
      have hmem := (findByHash_eq_some hfind).1
      rcases h.found hfind with ⟨-, hfamily⟩ | ⟨x, hx, -, hsame⟩
      · refine (hbehind.consumeRight hmem _ fun x hx hid => hfamily x hx ?_).only
          (hfresh _ rfl) hfamily
        exact ((hbehind.issued x hx).mono hbehind.grows).familyId_eq (h.inv.issued _ hmem) hid
      · obtain ⟨hxlive, hor⟩ := hlapsed x hx
        obtain rfl : x = existing := hsame hxlive
        rcases hor with hle | hno
        · exact absurd hexp (not_lt.mpr hle)
        · exact absurd huser (by simp [hno])
  | reused x hfind' hdead' =>
    refine ⟨fun r hr => absurd hr (by simp [inserted, AfterRevoke.call]), ?_⟩
    have hleft := hbehind.revokeLeft x.familyId input.now
    have hfamily : ∀ y ∈ revokeFamily s'.tokens x.familyId input.now,
        y.familyId = x.familyId → y.live = false := fun y hy hyx =>
      Bool.eq_false_iff.mpr fun hlive => ((mem_revokeFamily_of_live hlive).mp hy).2 hyx
    cases hrot with
    | refused => exact hleft
    | reused existing hfind hdead =>
      have heq : x.familyId = existing.familyId := h.familyId_eq hfind' hfind
      exact hleft.revokeRight _ (heq ▸ hfamily)
    | exchanged existing hfind hlive hexp huser =>
      have hmem := (findByHash_eq_some hfind).1
      have heq : x.familyId = existing.familyId := h.familyId_eq hfind' hfind
      refine (hleft.consumeRight hmem _ fun z hz hid => hfamily z hz ?_).only
        (hfresh _ rfl) (heq ▸ hfamily)
      rw [heq]
      exact ((hleft.issued z hz).mono hleft.grows).familyId_eq (h.inv.issued _ hmem) hid
  | exchanged x hfind' hlive' hexp' huser' =>
    have hfound := h.found_of_live hfind' hlive' (lt_of_le_of_lt hnow hexp')
    cases hrot with
    | refused message hother hlapsed =>
      rcases (hlapsed x hfound).2 with hle | hno
      · exact absurd hexp' (not_lt.mpr hle)
      · exact absurd huser' (by simp [hno])
    | reused existing hfind hdead =>
      obtain rfl : existing = x := Option.some.inj (hfind.symm.trans hfound)
      exact absurd hlive' (by simp [hdead])
    | exchanged existing hfind hlive hexp huser =>
      obtain rfl : existing = x := Option.some.inj (hfind.symm.trans hfound)
      have hmem' := (findByHash_eq_some hfind').1
      have hmem := (findByHash_eq_some hfind).1
      have hconsumed := (hbehind.consumeLeft hmem' input.now).consumeRight hmem input.now
        fun y hy hid => by
          rcases Table.mem_put.mp hy with rfl | ⟨-, hne⟩
          · rfl
          · exact absurd hid hne
      refine ⟨fun r hr => hr, hconsumed.both rfl (hfresh _ rfl) fun r hr hnot heq => ?_⟩
      exact absurd hlive (by simp [hbehind.refused r hr hnot existing hmem' heq.symm])

/-- A call that is served with the purges is served without them. -/
theorem Server.Behind.exists_serve (h : s'.Behind s) (hserve : serve cfg s a = some t)
    (hins : ∀ r ∈ inserted cfg a.2 a.1 (s'.reply cfg a.1 a.2),
      r ∈ inserted cfg a.2 a.1 (s.reply cfg a.1 a.2))
    (hbehind : Auth.Behind (wholeCall cfg s'.tokens a.2 a.1).1
      (s'.log.add (inserted cfg a.2 a.1 (s'.reply cfg a.1 a.2)))
      (wholeCall cfg s.tokens a.2 a.1).1
      (s.log.add (inserted cfg a.2 a.1 (s.reply cfg a.1 a.2))) a.2.now) :
    ∃ t', serve cfg s' a = some t' ∧ t'.Behind t := by
  obtain ⟨hle, hnow, htokens, hlog, hfresh⟩ := serve_eq_some hserve
  have hfresh' : ∀ r ∈ inserted cfg a.2 a.1 (s'.reply cfg a.1 a.2),
      FreshValues s'.log a.2 a.1 r := by
    intro r hr
    have hr' := hfresh r (hins r hr)
    refine ⟨h.behind.fresh hr'.1, fun userId heq x hx => ?_⟩
    exact hr'.2 userId heq x (h.behind.grows x hx)
  have hserve' : serve cfg s' a = some ⟨(wholeCall cfg s'.tokens a.2 a.1).1,
      s'.log.add (inserted cfg a.2 a.1 (s'.reply cfg a.1 a.2)), a.2.now⟩ :=
    if_pos ⟨h.now.trans hle, hfresh'⟩
  refine ⟨_, hserve', (served_of_serve hserve').inv h.inv', (served_of_serve hserve).inv h.inv,
    hnow.ge, ?_⟩
  rw [htokens, hlog, hnow]
  exact hbehind

/-- **One call on both sides.** -/
theorem Server.Behind.of_serve (h : s'.Behind s) (hnot : a.1 ≠ .purgeExpired)
    (hserve : serve cfg s a = some t) : ∃ t', serve cfg s' a = some t' ∧ t'.Behind t := by
  obtain ⟨hle, -, -, -, hfresh⟩ := serve_eq_some hserve
  obtain ⟨request, input⟩ := a
  have hbehind := h.behind.later hle
  cases request with
  | issueForNewSession userId =>
    have hnew := hfresh (newRow cfg input userId input.familyId) rfl
    refine h.exists_serve hserve (fun r hr => hr) (hbehind.both rfl hnew.1 fun r hr _ heq => ?_)
    exact hnew.2 userId rfl r hr heq
  | rotate rawToken =>
    obtain ⟨hins, hrotated⟩ := h.rotate hle (rotation cfg s'.tokens rawToken input)
      (rotation cfg s.tokens rawToken input) fun r hr => (hfresh r hr).1
    exact h.exists_serve hserve hins hrotated
  | revokeByToken rawToken =>
    have hnone : ∀ x : Server,
        inserted cfg input (.revokeByToken rawToken)
          (x.reply cfg (.revokeByToken rawToken) input) = none := by
      intro x
      simp only [Server.reply, wholeCall, revokeByToken]
      split <;> rfl
    refine h.exists_serve hserve (fun r hr => absurd hr (by simp [hnone s'])) ?_
    rw [hnone, hnone]
    simp only [wholeCall, revokeByToken]
    cases hfind' : findByHash s'.tokens (cfg.hashToken rawToken) with
    | none =>
      cases hfind : findByHash s.tokens (cfg.hashToken rawToken) with
      | none => exact hbehind
      | some existing =>
        rcases h.found hfind with ⟨-, hfamily⟩ | ⟨x, hx, -, -⟩
        · exact hbehind.revokeRight _ hfamily
        · exact absurd (hfind'.symm.trans hx) (by simp)
    | some x =>
      have hleft := hbehind.revokeLeft x.familyId input.now
      cases hfind : findByHash s.tokens (cfg.hashToken rawToken) with
      | none => exact hleft
      | some existing =>
        rcases h.found hfind with ⟨hunknown, -⟩ | ⟨y, hy, hyr, -⟩
        · exact absurd (hunknown.symm.trans hfind') (by simp)
        · obtain rfl : y = x := Option.some.inj (hy.symm.trans hfind')
          refine hleft.revokeRight _ fun z hz hfamily => Bool.eq_false_iff.mpr fun hlive => ?_
          refine ((mem_revokeFamily_of_live hlive).mp hz).2 ?_
          rw [hfamily, (RefreshToken.fields_eq hyr).2.2.2.1]
  | purgeExpired => exact absurd rfl hnot

/-- **One purge, on one side.** -/
theorem Server.Behind.of_purge (hgrace : 0 ≤ cfg.purgeGraceMs) (h : s'.Behind s)
    (hrequest : a.1 = .purgeExpired) (hserve : serve cfg s a = some t) : s'.Behind t := by
  obtain ⟨hle, hnow, htokens, -, -⟩ := serve_eq_some hserve
  refine ⟨h.inv', (served_of_serve hserve).inv h.inv, hnow ▸ h.now.trans hle, ?_⟩
  have hlog : t.log = s.log := by
    cases served_of_serve hserve with
    | same _ hlog | revoked _ _ _ _ hlog | purged _ _ hlog => exact hlog
    | opened new _ _ _ _ _ | exchanged _ new _ _ _ _ _ _ _ _ =>
      obtain ⟨-, -, -, hlog, -⟩ := serve_eq_some hserve
      rw [hlog, hrequest]
      rfl
  rw [htokens, hlog, hnow, hrequest]
  exact (h.behind.later hle).purge (by omega)

end Sync

/-- The same calls without the purges. -/
def withoutPurges (as : List (Request × Input)) : List (Request × Input) :=
  as.filter fun a => a.1 ≠ .purgeExpired

theorem Server.Behind.of_exec (hgrace : 0 ≤ cfg.purgeGraceMs) {s' : Server}
    {as : List (Request × Input)} (h : s'.Behind s) (hs : exec (serve cfg) s as = some u) :
    ∃ u', exec (serve cfg) s' (withoutPurges as) = some u' ∧ u'.Behind u := by
  induction as generalizing s s' with
  | nil =>
    obtain rfl : s = u := Option.some.inj hs
    exact ⟨s', rfl, h⟩
  | cons a as ih =>
    obtain ⟨t, hst, htu⟩ := exists_of_exec_cons hs
    by_cases hreq : a.1 = .purgeExpired
    · have hskip : withoutPurges (a :: as) = withoutPurges as :=
        List.filter_cons_of_neg (by simpa using hreq)
      rw [hskip]
      exact ih (h.of_purge hgrace hreq hst) htu
    · have hkeep : withoutPurges (a :: as) = a :: withoutPurges as :=
        List.filter_cons_of_pos (by simpa using hreq)
      obtain ⟨t', hst', ht⟩ := h.of_serve hreq hst
      rw [hkeep, exec_cons_of_step hst']
      exact ih ht htu

/-! ## Runs -/

/-- What holds in every state of a run. -/
theorem inv_of_exec {as : List (Request × Input)} {now : ℤ}
    (hs : exec (serve cfg) (Server.start now) as = some s) : s.Inv ∧ Kept cfg s := by
  refine (reach_of_exec hs).invariant (P := fun s => s.Inv ∧ Kept cfg s) ?_
    ⟨Server.inv_start now, kept_start now⟩
  rintro s a t ⟨hinv, hkept⟩ - hst
  exact ⟨(served_of_serve hst).inv hinv, kept_of_serve hinv hkept hst⟩

/-- The token was consumed or revoked earlier in the run. -/
def Spent (cfg : Config) (now : ℤ) (as : List (Request × Input)) (r : RefreshToken) : Prop :=
  ∃ before after v, as = before ++ after ∧
    exec (serve cfg) (Server.start now) before = some v ∧
    ∃ x ∈ v.tokens, x.asIssued = r ∧ x.live = false

/-- From here on `rotate` accepts no token of the family, whichever calls follow. -/
def RefusedFromNowOn (cfg : Config) (s : Server) (familyId : Uuid) : Prop :=
  ∀ bs u, exec (serve cfg) s bs = some u → ∀ r ∈ u.log.issued, r.familyId = familyId →
    ∀ rawToken input, cfg.hashToken rawToken = r.tokenHash →
      (u.reply cfg (.rotate rawToken) input).accepted = false

/-- A token that was spent earlier is not live. -/
theorem tokenDead_of_spent {as : List (Request × Input)} {now : ℤ} {r : RefreshToken}
    (hs : exec (serve cfg) (Server.start now) as = some s) (hspent : Spent cfg now as r) :
    TokenDead s r := by
  obtain ⟨before, after, v, rfl, hv, x, hx, rfl, hdead⟩ := hspent
  rw [exec_append, hv, Option.bind_some] at hs
  have hvinv := (inv_of_exec hv).1
  have hstart : TokenDead v x.asIssued := by
    refine ⟨hvinv.issued x hx, fun y hy hyx => ?_⟩
    rw [Server.eq_of_asIssued_eq hy hx hyx, hdead]
  exact (reach_of_exec hs).invariant (fun _ _ _ h _ hst => (served_of_serve hst).tokenDead h) hstart

/-- A dead family is refused for good. -/
theorem FamilyDead.refusedFromNowOn {familyId : Uuid} (h : FamilyDead s familyId)
    (hs : s.Inv) : RefusedFromNowOn cfg s familyId := by
  intro bs u hu r hr hfamily rawToken input hhash
  obtain ⟨hdead, hinv⟩ : FamilyDead u familyId ∧ u.Inv := by
    refine (reach_of_exec hu).invariant (P := fun s => FamilyDead s familyId ∧ s.Inv)
      (fun _ _ _ h _ hst => ?_) ⟨h, hs⟩
    exact ⟨(served_of_serve hst).familyDead h.1, (served_of_serve hst).inv h.2⟩
  have hreply : u.reply cfg (.rotate rawToken) input = (rotate cfg u.tokens rawToken input).2 :=
    rfl
  rw [hreply]
  have hrot := rotation cfg u.tokens rawToken input
  generalize rotate cfg u.tokens rawToken input = result at hrot
  cases hrot with
  | refused | reused => rfl
  | exchanged existing hfind hlive _ _ =>
    obtain ⟨hmem, hexisting⟩ := findByHash_eq_some hfind
    have hsame : existing.asIssued = r :=
      hinv.tokenHash _ (hinv.issued existing hmem) r hr (hexisting.trans hhash)
    have hfam : existing.familyId = familyId := by
      rw [← hfamily, ← hsame]
      rfl
    exact absurd hlive (by simp [hdead.dead existing hmem hfam])

/-- A token that is not accepted where it lapses is the one that is answered as reuse. -/
theorem rotate_of_tokenDead {r : RefreshToken} {rawToken : String} {input : Input}
    (hs : s.Inv) (hkept : Kept cfg s) (hdead : TokenDead s r)
    (hhash : cfg.hashToken rawToken = r.tokenHash) (hle : s.now ≤ input.now)
    (hgrace : input.now ≤ r.expiresAt + cfg.purgeGraceMs) :
    rotate cfg s.tokens rawToken input =
      (revokeFamily s.tokens r.familyId input.now, AfterRevoke.reuseDetected.call) := by
  obtain ⟨x, hx, hxr⟩ := hkept r hdead.issued (hle.trans hgrace)
  have hr : r.asIssued = r := RefreshToken.asIssued_of_live (hs.live r hdead.issued)
  obtain ⟨-, -, hxhash, hxfamily, -⟩ := RefreshToken.fields_eq (hxr.trans hr.symm)
  have hfind : findByHash s.tokens (cfg.hashToken rawToken) = some x := by
    rw [hhash, ← hxhash]
    exact hs.findByHash hx
  rw [rotate_of_dead hfind (hdead.dead x hx hxr), hxfamily]

/-- A token that has not expired and was not spent is accepted. -/
theorem accepted_of_not_spent (hgrace : 0 ≤ cfg.purgeGraceMs) {now : ℤ}
    {as : List (Request × Input)} (hs : exec (serve cfg) (Server.start now) as = some s)
    {r : RefreshToken} (hr : r ∈ s.log.issued) {rawToken : String} {input : Input}
    (hhash : cfg.hashToken rawToken = r.tokenHash) (hle : s.now ≤ input.now)
    (hexp : input.now < r.expiresAt) (huser : input.userExists = true)
    (hspent : ¬ Spent cfg now as r) :
    (s.reply cfg (.rotate rawToken) input).accepted = true := by
  obtain ⟨hinv, hkept⟩ := inv_of_exec hs
  obtain ⟨x, hx, hxr⟩ := hkept r hr (by omega)
  have hlive : x.live = true := by
    by_contra hdead
    exact hspent ⟨as, [], s, by simp, hs, x, hx, hxr, Bool.eq_false_iff.mpr hdead⟩
  obtain rfl : x = r := by rw [← hxr, RefreshToken.asIssued_of_live hlive]
  have hfind : findByHash s.tokens (cfg.hashToken rawToken) = some x := by
    rw [hhash]
    exact hinv.findByHash hx
  have hreply : s.reply cfg (.rotate rawToken) input = (rotate cfg s.tokens rawToken input).2 :=
    rfl
  rw [hreply, rotate_of_live hfind hlive hexp huser]
  rfl

/-- **Purging keeps reuse detection.**  After any calls, a token that was spent and is
presented within the grace period is answered as reuse, and its family is refused from
then on.  For a token that has not expired, `rotate` accepts it if it would have without
the purges, and in any case if it was not spent; and `revokeByToken` leaves no live row
in its family. -/
theorem purge_keeps_reuse_detection (cfg : Config) (hgrace : 0 ≤ cfg.purgeGraceMs) (now : ℤ)
    (as : List (Request × Input)) (s : Server)
    (hs : exec (serve cfg) (Server.start now) as = some s) :
    (∀ r, Spent cfg now as r → ∀ rawToken input, cfg.hashToken rawToken = r.tokenHash →
      s.now ≤ input.now → input.now ≤ r.expiresAt + cfg.purgeGraceMs →
        s.reply cfg (.rotate rawToken) input = AfterRevoke.reuseDetected.call ∧
          ∃ t, serve cfg s (.rotate rawToken, input) = some t ∧
            RefusedFromNowOn cfg t r.familyId) ∧
      ∃ s', exec (serve cfg) (Server.start now) (withoutPurges as) = some s' ∧
        ∀ r ∈ s.log.issued, ∀ rawToken input, cfg.hashToken rawToken = r.tokenHash →
          s.now ≤ input.now → input.now < r.expiresAt →
            ((s'.reply cfg (.rotate rawToken) input).accepted = true →
              (s.reply cfg (.rotate rawToken) input).accepted = true) ∧
            (input.userExists = true → ¬ Spent cfg now as r →
              (s.reply cfg (.rotate rawToken) input).accepted = true) ∧
            ∀ x ∈ (wholeCall cfg s.tokens input (.revokeByToken rawToken)).1,
              x.familyId = r.familyId → x.live = false := by
  obtain ⟨hinv, hkept⟩ := inv_of_exec hs
  constructor
  · intro r hspent rawToken input hhash hle hend
    have hrot := rotate_of_tokenDead hinv hkept (tokenDead_of_spent hs hspent) hhash hle hend
    have hreply : s.reply cfg (.rotate rawToken) input = AfterRevoke.reuseDetected.call :=
      congrArg Prod.snd hrot
    have hserve : serve cfg s (.rotate rawToken, input) =
        some ⟨revokeFamily s.tokens r.familyId input.now, s.log, input.now⟩ := by
      rw [serve, hreply, wholeCall, hrot]
      exact if_pos ⟨hle, fun r hr => absurd hr (Option.not_mem_none r)⟩
    refine ⟨hreply, _, hserve, FamilyDead.refusedFromNowOn ⟨⟨r, ?_, rfl⟩, fun x hx hfamily => ?_⟩
      ((served_of_serve hserve).inv hinv)⟩
    · exact (tokenDead_of_spent hs hspent).issued
    · exact Bool.eq_false_iff.mpr fun hlive =>
        ((mem_revokeFamily_of_live hlive).mp hx).2 hfamily
  · have hstart : (Server.start now).Behind (Server.start now) :=
      ⟨Server.inv_start now, Server.inv_start now, le_rfl,
        ⟨(Server.inv_start now).issued, Log.Grows.refl _,
          fun r h => absurd h (Table.not_mem_empty r), fun r h => absurd h (Table.not_mem_empty r),
          fun r h => absurd h (Table.not_mem_empty r)⟩⟩
    obtain ⟨s', hs', hbehind⟩ := hstart.of_exec hgrace hs
    refine ⟨s', hs', fun r hr rawToken input hhash hle hexp => ⟨fun hacc => ?_, fun huser hspent =>
      accepted_of_not_spent hgrace hs hr hhash hle hexp huser hspent, fun x hx hfamily => ?_⟩⟩
    · have hreply : ∀ x : Server,
          x.reply cfg (.rotate rawToken) input = (rotate cfg x.tokens rawToken input).2 :=
        fun _ => rfl
      rw [hreply] at hacc ⊢
      have hrot := rotation cfg s'.tokens rawToken input
      generalize rotate cfg s'.tokens rawToken input = result at hrot hacc
      cases hrot with
      | refused | reused => exact absurd hacc (by simp [Call.accepted, AfterRevoke.call])
      | exchanged existing hfind hlive hexp' huser =>
        have hfound := hbehind.found_of_live hfind hlive (lt_of_le_of_lt hle hexp')
        rw [rotate_of_live hfound hlive hexp' huser]
        rfl
    · obtain ⟨y, hy, hyr⟩ := hkept r hr (by omega)
      have hr' : r.asIssued = r := RefreshToken.asIssued_of_live (hinv.live r hr)
      obtain ⟨-, -, hyhash, hyfamily, -⟩ := RefreshToken.fields_eq (hyr.trans hr'.symm)
      have hfind : findByHash s.tokens (cfg.hashToken rawToken) = some y := by
        rw [hhash, ← hyhash]
        exact hinv.findByHash hy
      rw [wholeCall, revokeByToken, hfind] at hx
      refine Bool.eq_false_iff.mpr fun hlive => ?_
      exact ((mem_revokeFamily_of_live hlive).mp hx).2 (hfamily.trans hyfamily.symm)

/-- Tokens live for a second, and a tenth of a second longer in the table. -/
def graceConfig : Config := ⟨id, 1000, 100⟩

/-- A login, an exchange, and a purge after the first token has expired. -/
def replayedLateRun : List (Request × Input) :=
  [ (.issueForNewSession 5, ⟨1, "t0", 9, 0, true, 0⟩), (.rotate "t0", ⟨2, "t1", 0, 500, true, 0⟩),
    (.purgeExpired, ⟨0, "", 0, 1050, true, 0⟩) ]

/-- The first token as it was issued. -/
def replayedToken : RefreshToken := ⟨1, 5, "t0", 9, 1000, none, 0⟩

/-- The exchanged token is replayed at the end of its grace period, and the token it was
exchanged for is refused with it. -/
theorem purge_keeps_reuse_detection_replayedLateRun :
    ∃ s, exec (serve graceConfig) (Server.start 0) replayedLateRun = some s ∧
      s.reply graceConfig (.rotate "t0") ⟨3, "t2", 0, 1100, true, 0⟩ =
        AfterRevoke.reuseDetected.call ∧
      ∃ t, serve graceConfig s (.rotate "t0", ⟨3, "t2", 0, 1100, true, 0⟩) = some t ∧
        RefusedFromNowOn graceConfig t 9 := by
  have hrun : ∃ s, exec (serve graceConfig) (Server.start 0) replayedLateRun = some s := by
    rw [← Option.isSome_iff_exists]
    decide
  obtain ⟨s, hs⟩ := hrun
  have hnow : (exec (serve graceConfig) (Server.start 0) replayedLateRun).map Server.now =
      some 1050 := by
    decide
  have hlater : s.now ≤ 1100 := by
    rw [hs, Option.map_some] at hnow
    rw [Option.some.inj hnow]
    decide
  have hbefore : ∃ v, exec (serve graceConfig) (Server.start 0) (replayedLateRun.take 2) =
      some v ∧ ∃ x ∈ v.tokens, x.asIssued = replayedToken ∧ x.live = false := by
    refine ⟨_, rfl, replayedToken.revoke 500, ?_, rfl, rfl⟩
    decide
  obtain ⟨v, hv, x, hx, hxr, hdead⟩ := hbefore
  refine ⟨s, hs, ?_⟩
  exact (purge_keeps_reuse_detection graceConfig (by decide) 0 replayedLateRun s hs).1
    replayedToken ⟨_, replayedLateRun.drop 2, v, rfl, hv, x, hx, hxr, hdead⟩ "t0"
    ⟨3, "t2", 0, 1100, true, 0⟩ rfl hlater (by decide)

end Auth
end GroupChat
