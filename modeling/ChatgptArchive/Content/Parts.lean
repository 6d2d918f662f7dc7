import ChatgptArchive.ContractProjection

/-!
# Content parts read back

`persist_parts` adds a revision when the parts differ from the latest one, and the projection reads
the revision with the highest number. A difference is one of number, position or payload: a part of
another kind is none.
-/

namespace ChatgptArchive

open List

namespace Database

variable {db : Database} {messageId : Uuid} {latest : Nat}

def insertedPart (messageId : Uuid) (revision : Nat) (id : Uuid) (part : ParsedContentPart) :
    ContentPartRow :=
  { id, messageId, revision, ordinal := part.ordinal, partKind := part.kind
    payload := part.payload, blobRef := none }

theorem insertParts_contentParts (messageId : Uuid) (revision : Nat)
    (parts : List ParsedContentPart) : ∀ db : Database, ∃ added : List ContentPartRow,
      (insertParts messageId revision db parts).contentParts = db.contentParts ++ added ∧
      (∀ p ∈ added, p.messageId = messageId ∧ p.revision = revision) ∧
      added.map (fun p => (p.ordinal, p.partKind, p.payload)) =
        parts.map fun p => (p.ordinal, p.kind, p.payload) := by
  induction parts with
  | nil => exact fun db => ⟨[], (append_nil _).symm, fun _ h => absurd h not_mem_nil, rfl⟩
  | cons part parts ih =>
    intro db
    obtain ⟨added, hparts, hrows, hcontent⟩ := ih (insertPart messageId revision db part)
    refine ⟨insertedPart messageId revision db.nextUuid part :: added, ?_, fun p hp => ?_, ?_⟩
    · rw [insertParts, hparts]
      exact append_assoc db.contentParts [insertedPart messageId revision db.nextUuid part] added
    · rcases mem_cons.mp hp with rfl | hp
      · exact ⟨rfl, rfl⟩
      · exact hrows p hp
    · rw [map_cons, map_cons, hcontent]
      rfl

/-- Parts of a later revision than the stored ones are the latest, in their order. -/
theorem latestParts_insertParts {revision : Nat}
    (habove : ∀ p ∈ db.partsOf messageId, p.revision < revision) {parts : List ParsedContentPart}
    (hordinals : parts.map (·.ordinal) = List.range parts.length) (hne : parts ≠ []) :
    ((insertParts messageId revision db parts).latestParts messageId).map
        (fun p => (p.partKind, p.payload)) =
      parts.map fun p => (p.kind, p.payload) := by
  obtain ⟨added, hparts, hrows, hcontent⟩ := insertParts_contentParts messageId revision parts db
  have hlength : added.length = parts.length := by
    simpa using congrArg List.length hcontent
  have hpartsOf : (insertParts messageId revision db parts).partsOf messageId =
      db.partsOf messageId ++ added := by
    rw [partsOf, hparts, filter_append, partsOf]
    congr 1
    exact filter_eq_self.mpr fun p hp => by simp [(hrows p hp).1]
  have hlatest : (insertParts messageId revision db parts).latestPartRevision messageId =
      some revision := by
    rw [latestPartRevision, hpartsOf, List.max?_eq_some_iff]
    constructor
    · obtain ⟨p, hp⟩ := exists_mem_of_ne_nil added fun hnil => by
        rw [hnil, length_nil] at hlength
        exact hne (eq_nil_of_length_eq_zero hlength.symm)
      exact mem_map.mpr ⟨p, mem_append_right _ hp, (hrows p hp).2⟩
    · intro r hr
      obtain ⟨p, hp, rfl⟩ := mem_map.mp hr
      rcases mem_append.mp hp with hp | hp
      · exact Nat.le_of_lt (habove p hp)
      · exact Nat.le_of_eq (hrows p hp).2
  have hat : ((db.partsOf messageId ++ added).filter fun p => p.revision = revision) = added := by
    rw [filter_append, filter_eq_nil_iff.mpr fun p hp => by
      simp [Nat.ne_of_lt (habove p hp)], nil_append]
    exact filter_eq_self.mpr fun p hp => by simp [(hrows p hp).2]
  have hsorted : added.Pairwise fun a b => a.ordinal ≤ b.ordinal := by
    have hrange : added.map (·.ordinal) = List.range parts.length := by
      have hfirst := congrArg (List.map Prod.fst) hcontent
      simp only [map_map, Function.comp_def] at hfirst
      exact hfirst.trans hordinals
    have hpairwise : (added.map (·.ordinal)).Pairwise (· ≤ ·) := by
      rw [hrange]
      exact pairwise_lt_range.imp Nat.le_of_lt
    exact pairwise_map.mp hpairwise
  rw [latestParts, hlatest]
  dsimp only
  rw [partsAt, hpartsOf, hat, hsorted.insertionSort_eq]
  have hpairs := congrArg (List.map Prod.snd) hcontent
  simpa [map_map, Function.comp_def] using hpairs

theorem revision_le_latest (hlatest : db.latestPartRevision messageId = some latest)
    {p : ContentPartRow} (hp : p ∈ db.partsOf messageId) : p.revision ≤ latest :=
  (List.max?_eq_some_iff.mp hlatest).2 _ (mem_map_of_mem hp)

theorem partsOf_eq_nil_iff :
    db.partsOf messageId = [] ↔ db.latestPartRevision messageId = none := by
  rw [latestPartRevision, List.max?_eq_none_iff, map_eq_nil_iff]

theorem latestParts_ne_nil (hlatest : db.latestPartRevision messageId = some latest) :
    db.latestParts messageId ≠ [] := by
  obtain ⟨p, hp, hrevision⟩ := mem_map.mp (List.max?_eq_some_iff.mp hlatest).1
  intro hnil
  rw [latestParts, hlatest] at hnil
  have hmem : p ∈ db.partsAt messageId latest := by
    rw [partsAt, mem_insertionSort, mem_filter]
    exact ⟨hp, by simpa using hrevision⟩
  dsimp only at hnil
  rw [hnil] at hmem
  exact absurd hmem not_mem_nil

/-- The parts of a message read back as they were written exactly when the list is not empty or
nothing was stored before, and parts that are stored already with the same payloads are stored
with the same kinds. -/
theorem persistParts_latestParts_iff (db : Database) (messageId : Uuid)
    {parts : List ParsedContentPart}
    (hordinals : parts.map (·.ordinal) = List.range parts.length) :
    ((db.persistParts messageId parts).latestParts messageId).map
          (fun p => (p.partKind, p.payload)) =
        parts.map (fun p => (p.kind, p.payload)) ↔
      (parts = [] → db.partsOf messageId = []) ∧
      (partsUnchanged (db.latestParts messageId) parts = true →
        (db.latestParts messageId).map (·.partKind) = parts.map (·.kind)) := by
  unfold persistParts
  split
  case h_2 hnone =>
    -- the first revision
    have hempty : db.partsOf messageId = [] := partsOf_eq_nil_iff.mpr hnone
    have hlatest : db.latestParts messageId = [] := by rw [latestParts, hnone]
    by_cases hne : parts = []
    · subst hne
      simp [insertParts, hlatest, hempty]
    · refine iff_of_true (latestParts_insertParts (by simp [hempty]) hordinals hne)
        ⟨fun _ => hempty, fun hunchanged => ?_⟩
      rw [hlatest, partsUnchanged, decide_eq_true_eq, List.map_nil] at hunchanged
      exact absurd (List.map_eq_nil_iff.mp hunchanged.symm) hne
  case h_1 latest hlatest =>
    have hstored : db.latestParts messageId = db.partsAt messageId latest := by
      rw [latestParts, hlatest]
    have hnonempty := latestParts_ne_nil hlatest
    rw [← hstored]
    split
    · -- nothing is written: the payloads agree
      rename_i hunchanged
      have hpayloads : (db.latestParts messageId).map (·.payload) = parts.map (·.payload) := by
        rw [partsUnchanged, decide_eq_true_eq] at hunchanged
        simpa [List.map_map, Function.comp_def] using congrArg (List.map Prod.snd) hunchanged
      constructor
      · intro hread
        refine ⟨fun hnil => ?_, fun _ => ?_⟩
        · rw [hnil, List.map_nil, List.map_eq_nil_iff] at hread
          exact absurd hread hnonempty
        · simpa [List.map_map, Function.comp_def] using congrArg (List.map Prod.fst) hread
      · rintro ⟨-, hkinds⟩
        rw [← List.zip_map', ← List.zip_map', hkinds hunchanged, hpayloads]
    · rename_i hchanged
      by_cases hne : parts = []
      · subst hne
        refine iff_of_false (fun hread => ?_) fun hempty => ?_
        · exact hnonempty (List.map_eq_nil_iff.mp hread)
        · rw [partsOf_eq_nil_iff.mp (hempty.1 rfl)] at hlatest
          cases hlatest
      · refine iff_of_true (latestParts_insertParts (fun p hp => ?_) hordinals hne)
          ⟨fun hnil => absurd hnil hne, fun hunchanged => absurd hunchanged hchanged⟩
        exact Nat.lt_succ_of_le (revision_le_latest hlatest hp)

def onePart (kind : ContentPartKind) : Database :=
  empty.persistParts 7 [⟨0, kind, .string "text"⟩]

theorem onePart_replaced :
    (((onePart .text).persistParts 7 [⟨0, .text, .string "other"⟩]).latestParts 7).map
          (fun p => (p.partKind, p.payload)) =
        [(⟨0, .text, .string "other"⟩ : ParsedContentPart)].map (fun p => (p.kind, p.payload)) ↔
      ([(⟨0, .text, .string "other"⟩ : ParsedContentPart)] = [] → (onePart .text).partsOf 7 = []) ∧
      (partsUnchanged ((onePart .text).latestParts 7) [⟨0, .text, .string "other"⟩] = true →
        ((onePart .text).latestParts 7).map (·.partKind) =
          [(⟨0, .text, .string "other"⟩ : ParsedContentPart)].map (·.kind)) :=
  persistParts_latestParts_iff (onePart .text) 7 rfl

/-- A message presented without parts keeps the part it had, and a part presented with another kind
keeps its kind. -/
theorem onePart_kept :
    (((onePart .text).persistParts 7 []).latestParts 7).map (fun p => (p.partKind, p.payload)) =
        [(.text, .string "text")] ∧
      (((onePart .unknown).persistParts 7 [⟨0, .text, .string "text"⟩]).latestParts 7).map
        (fun p => (p.partKind, p.payload)) = [(.unknown, .string "text")] := by
  decide +kernel

end Database

end ChatgptArchive
