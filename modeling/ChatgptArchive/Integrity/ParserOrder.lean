import ChatgptArchive.Integrity.ApplyCalls

/-!
# The order of the parsers of an archive

A plan is made for a parser that stands after the current one, under the text that spells its name
and its version.
-/

namespace ChatgptArchive

open ReparseEngine

def StandsLater (versions : List ParserId) (current target : ParserId) : Prop :=
  current ∈ versions ∧ target ∈ versions ∧ versions.idxOf current < versions.idxOf target

instance (versions : List ParserId) (current target : ParserId) :
    Decidable (StandsLater versions current target) := inferInstanceAs (Decidable (_ ∧ _ ∧ _))

theorem idxOf_of_findIdx? {versions : List ParserId} {parser : ParserId} {i : Nat}
    {p : ParserId → Bool} (h : versions.findIdx? p = some i) (hp : p parser = true)
    (hunique : ∀ other ∈ versions, p other = true → other = parser) :
    parser ∈ versions ∧ versions.idxOf parser = i := by
  obtain ⟨hlt, hat, hbefore⟩ := List.findIdx?_eq_some_iff_getElem.mp h
  have hsame : versions[i] = parser := hunique _ (List.getElem_mem hlt) hat
  refine ⟨hsame ▸ List.getElem_mem hlt, ?_⟩
  rw [List.idxOf, List.findIdx_eq hlt]
  refine ⟨by rw [hsame, beq_self_eq_true], fun j hj => ?_⟩
  refine beq_eq_false_iff_ne.mpr fun heq => hbefore j hj ?_
  rw [heq]
  exact hp

namespace ReparseEngine

variable {engine : ReparseEngine} {plan : EvidencePlan} {store : ReparseStore} {now : Instant}

theorem applyTransaction_exports (stored : List BlobRef) :
    (engine.applyTransaction now store plan stored).1.db.exports = store.db.exports := by
  unfold applyTransaction
  split
  · rfl
  split
  · split
    · rfl
    · split
      · rfl
      · rename_i db hwrite
        exact (Database.writeReparse_tables hwrite).2.1
  · rfl

theorem advance_exports (progress : ApplyProgress) :
    (engine.advance now store plan progress).1.db.exports = store.db.exports := by
  cases progress with
  | storing stored =>
    rw [advance]
    split
    · rfl
    · exact applyTransaction_exports stored
  | _ => rfl

end ReparseEngine

theorem ApplyCalls.step_exports (engine : ReparseEngine) (plan : EvidencePlan) (s : ApplyCalls)
    (action : CallAction) : (s.step engine plan action).store.db.exports = s.store.db.exports := by
  cases action with
  | start id =>
    rw [step]
    split <;> rfl
  | advance id now =>
    rw [step]
    split
    · rfl
    · rename_i progress _
      have hexports := @advance_exports engine plan s.store now progress
      split <;> rename_i heq <;> rwa [heq] at hexports

theorem ApplyCalls.alone_exports (engine : ReparseEngine) (now : Instant) (store : ReparseStore)
    (plan : EvidencePlan) : (alone engine now store plan).store.db.exports = store.db.exports :=
  Run.run_preserves (P := fun s : ApplyCalls => s.store.db.exports = store.db.exports)
    (fun s action h => (step_exports engine plan s action).trans h) rfl

namespace ReparseSequence

variable {engine : ReparseEngine} {s : ReparseSequence} {store : ReparseStore}

/-- The plan's parser stands after the one that was current, as the text that spells it finds it,
among the versions that are compatible with the archive. -/
structure MadeOver (engine : ReparseEngine) (exports : List ExportRow)
    (planned : Option ParserId × EvidencePlan) : Prop where
  row : ∃ row ∈ exports, row.id = planned.2.exportId ∧ planned.2.registryFingerprint =
    engine.registry.compatibleVersions planned.2.inventory row.acquisitionMode
  newer : ∃ current currentIndex targetIndex, planned.1 = some current ∧
    (planned.2.registryFingerprint.findIdx? fun parser => parser.text = current.text) =
      some currentIndex ∧
    (planned.2.registryFingerprint.findIdx? fun parser =>
      parser = planned.2.report.targetParser) = some targetIndex ∧
    currentIndex < targetIndex

theorem MadeOver.of_plan {faults : PlanCall → Option ReparseError} {tenantId archiveId : Uuid}
    {targetParser : ParserId} {plan : EvidencePlan}
    (h : (engine.plan faults store tenantId archiveId targetParser).2 = .ok plan) :
    MadeOver engine store.db.exports (store.currentParser plan.exportId, plan) := by
  obtain ⟨prepared, hprepared, parsed, -, -, -, rfl⟩ := plan_eq_ok h
  obtain ⟨current, currentIndex, targetIndex, hparser, hrest⟩ := hprepared.current
  exact ⟨⟨prepared.row, List.mem_of_find?_eq_some hprepared.row, rfl, hprepared.compatible⟩,
    current, currentIndex, targetIndex, hparser, hrest⟩

/-- The parser that is current when a plan is applied is the one that was current when it was made,
and no other compatible identity is spelled like it. -/
def Undisplaced (s : ReparseSequence) : ReparseCall → Prop
  | .plan _ _ _ _ => True
  | .apply index _ => ∀ planned ∈ s.plans[index]?,
      s.store.currentParser planned.2.exportId = planned.1 ∧
      ∀ parser ∈ planned.2.registryFingerprint, ∀ current ∈ planned.1,
        parser.text = current.text → parser = current

instance (s : ReparseSequence) (call : ReparseCall) : Decidable (s.Undisplaced call) :=
  match call with
  | .plan _ _ _ _ => isTrue trivial
  | .apply index _ => inferInstanceAs (Decidable (∀ planned ∈ s.plans[index]?, _ ∧ _))

structure Orderly (engine : ReparseEngine) (rows : List ExportRow) (s : ReparseSequence) :
    Prop where
  exports : s.store.db.exports = rows
  plans : ∀ planned ∈ s.plans, MadeOver engine rows planned

theorem Orderly.step {rows : List ExportRow} (h : Orderly engine rows s) (call : ReparseCall) :
    Orderly engine rows (s.step engine call) := by
  cases call with
  | plan faults tenantId archiveId targetParser =>
    have hexports : (engine.plan faults s.store tenantId archiveId targetParser).1.db.exports =
        s.store.db.exports := by
      unfold plan
      split <;> rfl
    simp only [ReparseSequence.step]
    split
    · rename_i store plan heq
      rw [heq] at hexports
      refine ⟨hexports.trans h.exports, List.forall_mem_append.mpr ⟨h.plans, ?_⟩⟩
      intro planned hplanned
      rw [List.mem_singleton.mp hplanned, ← h.exports]
      exact .of_plan (congrArg Prod.snd heq)
    · rename_i store e heq
      rw [heq] at hexports
      exact ⟨hexports.trans h.exports, h.plans⟩
  | apply index now =>
    simp only [ReparseSequence.step]
    split
    · exact ⟨(ApplyCalls.alone_exports ..).trans h.exports, h.plans⟩
    · exact h

end ReparseSequence

/-- After any sequence of plans and applies, the parser of an apply that commits stands after the one
that is current just before, if that is still the one its plan was made over and no other identity is
spelled like it. -/
theorem applied_stands_later (engine : ReparseEngine) (store : ReparseStore)
    (calls : List ReparseCall) (index : Nat) (now : Instant)
    (hundisplaced : (ReparseSequence.run engine store calls).Undisplaced (.apply index now)) :
    let s := ReparseSequence.run engine store calls
    ∀ planned, s.plans[index]? = some planned → s.commits engine index now →
      ∃ current, s.store.currentParser planned.2.exportId = some current ∧
        ∃ row ∈ s.store.db.exports, row.id = planned.2.exportId ∧
          StandsLater (engine.registry.compatibleVersions planned.2.inventory row.acquisitionMode)
            current planned.2.report.targetParser := by
  intro s planned hplanned _
  obtain ⟨hcurrent, hspelled⟩ := hundisplaced planned hplanned
  have horderly : ReparseSequence.Orderly engine store.db.exports s :=
    Run.run_preserves (P := ReparseSequence.Orderly engine store.db.exports)
      (fun s call h => h.step call) ⟨rfl, fun _ h => by cases h⟩
  have hmade := horderly.plans planned (List.mem_of_getElem? hplanned)
  obtain ⟨current, currentIndex, targetIndex, hparser, hat, htarget, hnewer⟩ := hmade.newer
  obtain ⟨row, hrow, hid, hversions⟩ := hmade.row
  obtain ⟨hcurrentMem, hcurrentIdx⟩ := idxOf_of_findIdx? hat (decide_eq_true rfl)
    fun other hother htext => hspelled other hother current hparser (of_decide_eq_true htext)
  obtain ⟨htargetMem, htargetIdx⟩ := idxOf_of_findIdx? htarget (decide_eq_true rfl)
    fun other _ hsame => of_decide_eq_true hsame
  refine ⟨current, hcurrent.trans hparser, row, horderly.exports ▸ hrow, hid, ?_⟩
  rw [← hversions]
  exact ⟨hcurrentMem, htargetMem, by rwa [hcurrentIdx, htargetIdx]⟩

/-! ## Three versions that read the same -/

def steadyEngine : ReparseEngine :=
  { revisingEngine with
    registry := ⟨[declaredVersion "1" none,
      declaredVersion "2" (some (fixedParser (parsedBy "2" "hello"))),
      declaredVersion "3" (some (fixedParser (parsedBy "3" "hello")))]⟩ }

theorem applied_stands_later_third :
    let s := ReparseSequence.run steadyEngine importedStore
      [.plan (fun _ => none) 1 3 ⟨"export", "2"⟩, .apply 0 2,
        .plan (fun _ => none) 1 3 ⟨"export", "3"⟩]
    s.commits steadyEngine 1 3 ∧ ∃ planned, s.plans[1]? = some planned ∧
      ∃ current, s.store.currentParser planned.2.exportId = some current ∧
        ∃ row ∈ s.store.db.exports, row.id = planned.2.exportId ∧
          StandsLater (steadyEngine.registry.compatibleVersions planned.2.inventory
            row.acquisitionMode) current planned.2.report.targetParser := by
  intro s
  have hundisplaced : s.Undisplaced (.apply 1 3) := by decide +kernel
  have hcommits : s.commits steadyEngine 1 3 := by decide +kernel
  have hsome : s.plans[1]?.isSome = true := by decide +kernel
  obtain ⟨planned, hplanned⟩ := Option.isSome_iff_exists.mp hsome
  exact ⟨hcommits, planned, hplanned,
    applied_stands_later steadyEngine importedStore _ 1 3 hundisplaced planned hplanned hcommits⟩

/-- Both plans are made over the first version; the third version is applied, then the second. -/
theorem applied_second_after_third :
    let s := ReparseSequence.run steadyEngine importedStore
      [.plan (fun _ => none) 1 3 ⟨"export", "2"⟩, .plan (fun _ => none) 1 3 ⟨"export", "3"⟩,
        .apply 1 2]
    s.commits steadyEngine 0 3 ∧ s.store.currentParser 2 = some ⟨"export", "3"⟩ ∧
      s.plans[0]?.map (·.2.report.targetParser) = some ⟨"export", "2"⟩ ∧
      (s.step steadyEngine (.apply 0 3)).store.currentParser 2 = some ⟨"export", "2"⟩ ∧
      ¬ StandsLater (steadyEngine.registry.compatibleVersions plainInventory .consumerExport)
        ⟨"export", "3"⟩ ⟨"export", "2"⟩ := by
  decide +kernel

end ChatgptArchive
