import GroupChat.Auth.Invariant

/-!
# A refresh token is used once

However many requests present one token at the same moment, and whatever logouts,
purges and failures run beside them, at most one of them comes back with a new
pair: the claim matches only while the row is live, and it holds the row until the
replacement is committed with it.  So the rows of a family form a chain, whose last
row is the only one that can be live.
-/

namespace GroupChat
namespace Auth

open Transition

/-- Each family has at most one live row. -/
def OneLivePerFamily (t : Tokens) : Prop :=
  ∀ r ∈ t, ∀ r' ∈ t, r.live = true → r'.live = true → r.familyId = r'.familyId → r = r'

/-- For no token have two calls of `rotate` returned a new pair. -/
def UsedOnce (cfg : Config) (s : State) : Prop :=
  ∀ c c' raw raw' existing existing' newRaw newRaw',
    s.calls c = .rotated raw existing newRaw → s.calls c' = .rotated raw' existing' newRaw' →
    cfg.hashToken raw = cfg.hashToken raw' → c = c'

theorem Inv.usedOnce {cfg : Config} {s : State} (hs : Inv cfg s) : UsedOnce cfg s := by
  intro c c' raw raw' existing existing' newRaw newRaw' hc hc' hhash
  have hpres := hs.calls c
  have hpres' := hs.calls c'
  rw [hc] at hpres
  rw [hc'] at hpres'
  obtain ⟨-, hpres, -⟩ := hpres
  obtain ⟨-, hpres', -⟩ := hpres'
  have hsame : existing.asIssued = existing'.asIssued := by
    refine hs.tokenHash _ hpres.issued _ hpres'.issued ?_
    show existing.tokenHash = existing'.tokenHash
    rw [hpres.tokenHash, hpres'.tokenHash, hhash]
  have hid : existing.asIssued.id = existing'.asIssued.id := by rw [hsame]
  exact hs.oneUse c c' _ _ _ _ _ _ hc hc' hid

/-- A call that has returned a new pair is on record from then on. -/
theorem rotated_of_step {cfg : Config} {s t : State} {a : Action} (h : step cfg s a = some t)
    {c : ℕ} {raw newRaw : String} {existing : RefreshToken}
    (hc : s.calls c = .rotated raw existing newRaw) : t.calls c = .rotated raw existing newRaw := by
  obtain ⟨e, hdec, hperf⟩ := Option.bind_eq_some_iff.mp h
  by_cases hca : c = a.call
  · subst hca
    cases a with
    | request c r | statement c input | commit c | fault c =>
      have hcall : s.calls c = .rotated raw existing newRaw := hc
      simp [decide?, statement, hcall, Call.running] at hdec
  · rw [(Database.System.frame_of_perform hperf).calls_of_ne c hca, hc]

/-- **Refresh tokens are used once.**  In every committed state of every run each
family has at most one live row and no token has brought a new pair to two calls;
and a call that has brought one stays on record, so the latter is about the whole
run. -/
theorem refresh_tokens_used_once (cfg : Config) (acts : List Action) :
    AllStates (step cfg) (fun s => OneLivePerFamily s.store.committed ∧ UsedOnce cfg s) start acts ∧
      ∀ s a t c raw existing newRaw, step cfg s a = some t →
        s.calls c = .rotated raw existing newRaw → t.calls c = .rotated raw existing newRaw := by
  constructor
  · have hinv : AllStates (step cfg) (Inv cfg) start acts :=
      AllStates.of_invariant (fun _ _ _ hs h => inv_of_step hs h) (inv_start cfg) acts
    exact hinv.mono fun s hs => ⟨hs.oneLive, hs.usedOnce⟩
  · exact fun s a t c raw existing newRaw h hc => rotated_of_step h hc

end Auth
end GroupChat
