import GroupChat.Summary.Flow
import GroupChat.Text.Marks
import Mathlib

/-!
# The ids of the jobs of a flow

The queue drops a job whose id it knows, and that is what keeps a tick that fires
again from running a second flow.  An id is the name of the stage, the group and the
window, with colons between them.  The group may be any string, colons included, but
the name has no colon and neither has the number: the first colon ends the name and
the last one begins the number (`stageJobId_inj`).

`jobIds_identify` reads this on two flows: they share all of their ids or none, and
all of them exactly if they are of one group and one window.
-/

namespace GroupChat
namespace Summary
namespace Flow

open Database Text

/-! ## The jobs of a flow -/

mutual

/-- The jobs of a flow, as name and id, the root first. -/
def FlowJob.stages : FlowJob → List (String × JsString)
  | .mk name _ _ jobId children => (name, jobId) :: stagesOf children

def stagesOf : List FlowJob → List (String × JsString)
  | [] => []
  | job :: jobs => job.stages ++ stagesOf jobs

end

/-- The ids of the jobs of a flow. -/
def FlowJob.jobIds (flow : FlowJob) : List JsString := flow.stages.map Prod.snd

/-- `Math.floor(now / windowMs) * windowMs`. -/
def windowStart (windowMs now : ℤ) : ℤ := now / windowMs * windowMs

/-- The boundary a tick snaps to. -/
theorem windowStart_windowMs (config : Config) (now : Instant) :
    windowStart config.windowMs now.val = config.bucketStart now := rfl

variable {stage stage' : String} {groupId groupId' : JsString} {bucket bucket' windowMs t t' : ℤ}

theorem windowStart_inj (hwindow : 0 < windowMs) :
    windowStart windowMs t = windowStart windowMs t' ↔ t / windowMs = t' / windowMs := by
  unfold windowStart
  exact ⟨fun h => Int.eq_of_mul_eq_mul_right hwindow.ne' h, fun h => by rw [h]⟩

/-- The stages of a summary flow. -/
def stageNames : List String :=
  [JOB_GROUP_SUMMARY, JOB_PUBLISH, JOB_SAVE, JOB_GENERATE, JOB_FETCH]

theorem nodup_stageNames : stageNames.Nodup := by decide

theorem stages_buildSummaryFlow (groupId : JsString) (since : Instant) (bucket : ℤ) :
    (buildSummaryFlow groupId since bucket).stages =
      stageNames.map fun stage => (stage, stageJobId stage groupId bucket) := rfl

theorem jobIds_buildSummaryFlow (groupId : JsString) (since : Instant) (bucket : ℤ) :
    (buildSummaryFlow groupId since bucket).jobIds =
      stageNames.map fun stage => stageJobId stage groupId bucket := rfl

/-! ## An id and its parts -/

theorem mark_not_mem_stageNames : ∀ stage ∈ stageNames, ':' ∉ stage.toList := by decide

theorem mark_not_mem_repr (n : ℕ) : ':' ∉ (Nat.repr n).toList := by
  intro h
  rw [Nat.repr, String.toList_ofList] at h
  exact absurd (Nat.isDigit_of_mem_toDigits (by decide) (by decide) h) (by decide)

/-- A number has no colon. -/
theorem mark_not_mem_toString (bucket : ℤ) : ':' ∉ (toString bucket).toList := by
  cases bucket with
  | ofNat n => exact mark_not_mem_repr n
  | negSucc n =>
    intro h
    have hmem : ':' ∈ ("-" ++ Nat.repr (n + 1)).toList := h
    rw [String.toList_append, List.mem_append] at hmem
    rcases hmem with hsign | hdigits
    · exact absurd hsign (by decide)
    · exact mark_not_mem_repr (n + 1) hdigits

/-- The mark as an element of a string. -/
def mark : CodeUnit := 0x3A

/-- Only the mark is written with the mark. -/
theorem mark_not_mem_ofString {s : String} (h : ':' ∉ s.toList) : mark ∉ JsString.ofString s := by
  intro hmem
  obtain ⟨c, hc, hmark⟩ := List.mem_flatMap.mp hmem
  have hvalid : c.toNat < 0xD800 ∨ 0xDFFF < c.toNat ∧ c.toNat < 0x110000 := c.valid
  have hnumber : mark.toNat = 58 := rfl
  unfold unitsOfChar at hmark
  split_ifs at hmark with hsmall
  · rw [List.mem_singleton.mp hmark, UInt16.toNat_ofNat_of_lt' hsmall] at hnumber
    have hcolon : c = ':' := Char.ext (UInt32.toNat_inj.mp hnumber)
    exact h (hcolon ▸ hc)
  · rcases List.mem_pair.mp hmark with hhigh | hlow
    · rw [hhigh, UInt16.toNat_ofNat'] at hnumber
      omega
    · rw [hlow, UInt16.toNat_ofNat'] at hnumber
      omega

theorem stageJobId_eq (stage : String) (groupId : JsString) (bucket : ℤ) :
    stageJobId stage groupId bucket = JsString.ofString stage ++
      mark :: (groupId ++ mark :: JsString.ofString (toString bucket)) := by
  have happend : ∀ s t : String,
      JsString.ofString (s ++ t) = JsString.ofString s ++ JsString.ofString t := by
    intro s t
    unfold JsString.ofString
    rw [String.toList_append, List.flatMap_append]
  have hcolon : JsString.ofString ":" = [mark] := rfl
  unfold stageJobId
  rw [happend, happend, hcolon, List.append_assoc, List.append_assoc]
  rfl

/-- **An id determines its parts**, whatever the group. -/
theorem stageJobId_inj (hstage : ':' ∉ stage.toList) (hstage' : ':' ∉ stage'.toList)
    (h : stageJobId stage groupId bucket = stageJobId stage' groupId' bucket') :
    stage = stage' ∧ groupId = groupId' ∧ bucket = bucket' := by
  rw [stageJobId_eq, stageJobId_eq] at h
  obtain ⟨hname, hrest⟩ :=
    append_cons_inj (mark_not_mem_ofString hstage) (mark_not_mem_ofString hstage') h
  -- the group may have colons of its own, so the second mark is looked for from the right
  obtain ⟨hgroup, hbucket⟩ := append_cons_inj_right
    (mark_not_mem_ofString (mark_not_mem_toString bucket))
    (mark_not_mem_ofString (mark_not_mem_toString bucket')) hrest
  exact ⟨JsString.ofString_injective hname, hgroup,
    Int.repr_injective (JsString.ofString_injective hbucket)⟩

/-! ## Two flows -/

theorem nodup_jobIds (groupId : JsString) (since : Instant) (bucket : ℤ) :
    (buildSummaryFlow groupId since bucket).jobIds.Nodup := by
  rw [jobIds_buildSummaryFlow]
  refine nodup_stageNames.map_on fun stage hstage stage' hstage' h => ?_
  exact (stageJobId_inj (mark_not_mem_stageNames stage hstage)
    (mark_not_mem_stageNames stage' hstage') h).1

/-- Flows that share an id are of one group and one window. -/
theorem eq_of_mem_jobIds {since since' : Instant} {jobId : JsString}
    (h : jobId ∈ (buildSummaryFlow groupId since bucket).jobIds)
    (h' : jobId ∈ (buildSummaryFlow groupId' since' bucket').jobIds) :
    groupId = groupId' ∧ bucket = bucket' := by
  rw [jobIds_buildSummaryFlow, List.mem_map] at h h'
  obtain ⟨stage, hstage, rfl⟩ := h
  obtain ⟨stage', hstage', heq⟩ := h'
  obtain ⟨-, hgroup, hbucket⟩ := stageJobId_inj (mark_not_mem_stageNames stage' hstage')
    (mark_not_mem_stageNames stage hstage) heq
  exact ⟨hgroup.symm, hbucket.symm⟩

/-- **The ids of a flow identify its group and its window.**  For all strings and all moments:
the five ids of a flow are distinct; two flows of one group and one window have the same id
at every stage; two other flows have no id in common. -/
theorem jobIds_identify (windowMs : ℤ) (hwindow : 0 < windowMs) (g₁ g₂ : JsString)
    (since₁ since₂ : Instant) (t₁ t₂ : ℤ) :
    let flow₁ := buildSummaryFlow g₁ since₁ (windowStart windowMs t₁)
    let flow₂ := buildSummaryFlow g₂ since₂ (windowStart windowMs t₂)
    (flow₁.jobIds.length = 5 ∧ flow₁.jobIds.Nodup) ∧
      (g₁ = g₂ ∧ t₁ / windowMs = t₂ / windowMs → flow₁.stages = flow₂.stages) ∧
      (¬ (g₁ = g₂ ∧ t₁ / windowMs = t₂ / windowMs) → flow₁.jobIds.Disjoint flow₂.jobIds) := by
  refine ⟨⟨rfl, nodup_jobIds _ _ _⟩, ?_, ?_⟩
  · rintro ⟨rfl, hfloor⟩
    rw [stages_buildSummaryFlow, stages_buildSummaryFlow, (windowStart_inj hwindow).mpr hfloor]
  · intro hdifferent jobId h₁ h₂
    obtain ⟨hgroup, hbucket⟩ := eq_of_mem_jobIds h₁ h₂
    exact hdifferent ⟨hgroup, (windowStart_inj hwindow).mp hbucket⟩

/-- A group whose text ends like the start of another id, on both sides of a boundary. -/
theorem jobIds_identify_boundary :
    (buildSummaryFlow (JsString.ofString "a:1") epoch (windowStart 1000 999)).jobIds.Disjoint
      (buildSummaryFlow (JsString.ofString "a") epoch (windowStart 1000 1000)).jobIds :=
  (jobIds_identify 1000 (by decide) (JsString.ofString "a:1") (JsString.ofString "a") epoch epoch
    999 1000).2.2 (by decide)

end Flow
end Summary
end GroupChat
