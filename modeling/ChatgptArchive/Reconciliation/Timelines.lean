import ChatgptArchive.Reconciliation.AppendOnly
import Mathlib.Data.List.TakeWhile

/-!
# Timelines of observations

A history tells of every archive from the first one that presents its identity on: an archive adds
one observation for each occurrence of the identity, or a single one that says it is missing.
-/

namespace ChatgptArchive

open Std KeyedMap List History

/-! ## The timeline of an identity -/

abbrev Mark := String × ObservationState

def visit (occurrences : ArchiveSnapshot → Nat) (snapshot : ArchiveSnapshot) : List Mark :=
  if occurrences snapshot = 0 then [(snapshot.archiveId, .missingFromLatestSnapshot)]
  else replicate (occurrences snapshot) (snapshot.archiveId, .present)

def timeline (occurrences : ArchiveSnapshot → Nat) (snapshots : List ArchiveSnapshot) :
    List Mark :=
  (snapshots.dropWhile fun snapshot => occurrences snapshot = 0).flatMap (visit occurrences)

def History.marks (h : History) : List Mark := h.observations.map fun o => (o.archiveId, o.state)

section Timeline

variable {occurrences : ArchiveSnapshot → Nat} {snapshots : List ArchiveSnapshot}

theorem visit_ne_nil (snapshot : ArchiveSnapshot) : visit occurrences snapshot ≠ [] := by
  by_cases h : occurrences snapshot = 0
  · rw [visit, if_pos h]
    exact cons_ne_nil _ _
  · rw [visit, if_neg h]
    simpa [replicate_eq_nil_iff] using h

theorem timeline_eq_nil : timeline occurrences snapshots = [] ↔
    snapshots.dropWhile (fun snapshot => occurrences snapshot = 0) = [] := by
  rw [timeline, flatMap_eq_nil_iff]
  refine ⟨fun h => ?_, fun h => by simp [h]⟩
  cases hrest : snapshots.dropWhile (fun snapshot => occurrences snapshot = 0) with
  | nil => rfl
  | cons snapshot rest => exact absurd (h snapshot (by simp [hrest])) (visit_ne_nil snapshot)

theorem exists_of_timeline_ne_nil (h : timeline occurrences snapshots ≠ []) :
    ∃ snapshot ∈ snapshots, occurrences snapshot ≠ 0 := by
  by_contra hnone
  apply h
  rw [timeline_eq_nil, dropWhile_eq_nil_iff]
  intro snapshot hmem
  by_contra hoccurs
  exact hnone ⟨snapshot, hmem, fun hzero => hoccurs (decide_eq_true hzero)⟩

theorem timeline_concat (snapshot : ArchiveSnapshot) :
    timeline occurrences (snapshots ++ [snapshot]) =
      if occurrences snapshot = 0 ∧ timeline occurrences snapshots = [] then []
      else timeline occurrences snapshots ++ visit occurrences snapshot := by
  have hempty := @timeline_eq_nil occurrences snapshots
  rw [timeline, dropWhile_append]
  by_cases hseen : timeline occurrences snapshots = []
  · rw [hempty.mp hseen, hseen, isEmpty_nil, if_pos rfl]
    by_cases hoccurs : occurrences snapshot = 0
    · simp [hoccurs]
    · simp [hoccurs]
  · have hnonempty : (snapshots.dropWhile fun s => occurrences s = 0).isEmpty = false :=
      isEmpty_eq_false_iff.mpr (mt hempty.mpr hseen)
    rw [hnonempty, if_neg Bool.false_ne_true, if_neg fun h => hseen h.2, flatMap_append,
      flatMap_singleton, ← timeline]

end Timeline

/-! ## Maps of marked histories -/

def Marked {α : Type} (marks : α → List Mark) (expected : String → List Mark)
    (entries : TreeMap String α) : Prop :=
  ∀ k, (entries[k]?).map marks = if expected k = [] then none else some (expected k)

namespace Marked

variable {α ρ : Type} {marks : α → List Mark} {expected expected' : String → List Mark}
  {entries : TreeMap String α}

theorem empty : Marked marks (fun _ => []) (∅ : TreeMap String α) := fun k => by
  rw [TreeMap.getElem?_emptyc]
  rfl

variable (h : Marked marks expected entries)
include h

theorem congr (heq : ∀ k, expected k = expected' k) :
    Marked marks expected' entries := fun k => heq k ▸ h k

theorem getD {fresh : String → α} (hfresh : ∀ k, marks (fresh k) = []) (k : String) :
    marks (entries.getD k (fresh k)) = expected k := by
  have hk := h k
  rw [TreeMap.getD_eq_getD_getElem?]
  cases hlookup : entries[k]? with
  | none =>
    rw [hlookup] at hk
    by_cases hnil : expected k = []
    · rw [Option.getD_none, hfresh, hnil]
    · rw [if_neg hnil] at hk
      cases hk
  | some a =>
    rw [hlookup] at hk
    by_cases hnil : expected k = []
    · rw [if_pos hnil] at hk
      cases hk
    · rw [if_neg hnil] at hk
      exact Option.some.inj hk

theorem of_mem_values {key : α → String}
    (hkeyed : Keyed key entries) {a : α} (ha : a ∈ values entries) :
    marks a = expected (key a) ∧ expected (key a) ≠ [] := by
  have hk := h (key a)
  rw [hkeyed.mem_values_iff.mp ha] at hk
  by_cases hnil : expected (key a) = []
  · rw [if_pos hnil] at hk
    cases hk
  · rw [if_neg hnil] at hk
    exact ⟨Option.some.inj hk, hnil⟩

theorem updateEach {recordKey : ρ → String}
    {fresh : String → α} {update : α → ρ → α} {mark : Mark} (hfresh : ∀ k, marks (fresh k) = [])
    (hupdate : ∀ a record, marks (update a record) = marks a ++ [mark]) (records : List ρ) :
    Marked marks (fun k => expected k ++ replicate ((records.map recordKey).count k) mark)
      (updateEach recordKey fresh update entries records) := by
  induction records generalizing expected entries with
  | nil => exact h.congr fun k => by simp
  | cons record records ih =>
    have hinsert : Marked marks
        (fun k => if recordKey record = k then expected k ++ [mark] else expected k)
        (entries.insert (recordKey record)
          (update (entries.getD (recordKey record) (fresh (recordKey record))) record)) := by
      intro k
      rw [TreeMap.getElem?_insert]
      by_cases hk : recordKey record = k
      · subst hk
        simp [hupdate, h.getD hfresh]
      · rw [if_neg fun heq => hk (LawfulEqCmp.eq_of_compare heq), h k]
        simp only [if_neg hk]
    refine (ih hinsert).congr fun k => ?_
    by_cases hk : recordKey record = k
    · simp [hk, replicate_succ]
    · simp [hk]

theorem recordMissing {f : String → α → α} {presentIds : List String} {mark : Mark}
    (hpresent : ∀ k a, presentIds.contains k = true → f k a = a)
    (hmissing : ∀ k a, presentIds.contains k = false → marks (f k a) = marks a ++ [mark]) :
    Marked marks
      (fun k => if presentIds.contains k = false ∧ expected k ≠ [] then expected k ++ [mark]
        else expected k) (entries.map f) := by
  intro k
  rw [TreeMap.getElem?_map, Option.map_map]
  have hk := h k
  cases hlookup : entries[k]? with
  | none =>
    rw [hlookup] at hk
    by_cases hnil : expected k = []
    · simp [hnil]
    · rw [if_neg hnil] at hk
      cases hk
  | some a =>
    rw [hlookup] at hk
    by_cases hnil : expected k = []
    · rw [if_pos hnil] at hk
      cases hk
    · rw [if_neg hnil] at hk
      have ha : marks a = expected k := Option.some.inj hk
      -- only a tracked key that is not presented gets the mark
      cases hcontains : presentIds.contains k with
      | true =>
        simp only [Option.map_some, Function.comp_apply, hpresent k a hcontains, ha, hcontains,
          Bool.true_eq_false, false_and, if_false, if_neg hnil]
      | false =>
        simp only [Option.map_some, Function.comp_apply, hmissing k a hcontains, ha, hcontains,
          true_and, ne_eq, hnil, not_false_eq_true, if_true, append_eq_nil_iff, false_and,
          if_false]

end Marked

def Timed {α ρ : Type} (marks : α → List Mark) (recordKey : ρ → String)
    (records : ArchiveSnapshot → List ρ) (snapshots : List ArchiveSnapshot)
    (entries : TreeMap String α) : Prop :=
  Marked marks (fun k => timeline (fun snapshot => ((records snapshot).map recordKey).count k)
    snapshots) entries

/-- One archive: its records mark their histories and the others are marked as missing. -/
theorem Timed.reconciled {α ρ : Type} {marks : α → List Mark} {recordKey : ρ → String}
    {records : ArchiveSnapshot → List ρ} {snapshots : List ArchiveSnapshot}
    {entries : TreeMap String α} (h : Timed marks recordKey records snapshots entries)
    {fresh : String → α} {update : α → ρ → α} {f : String → α → α} (snapshot : ArchiveSnapshot)
    (hfresh : ∀ k, marks (fresh k) = []) (hupdate : ∀ a record,
      marks (update a record) = marks a ++ [(snapshot.archiveId, .present)])
    (hpresent : ∀ k a, ((records snapshot).map recordKey).contains k = true → f k a = a)
    (hmissing : ∀ k a, ((records snapshot).map recordKey).contains k = false →
      marks (f k a) = marks a ++ [(snapshot.archiveId, .missingFromLatestSnapshot)]) :
    Timed marks recordKey records (snapshots ++ [snapshot])
      ((updateEach recordKey fresh update entries (records snapshot)).map f) := by
  refine ((h.updateEach hfresh hupdate (records snapshot)).recordMissing hpresent
    hmissing).congr fun k => ?_
  rw [timeline_concat, visit]
  by_cases hcount : ((records snapshot).map recordKey).count k = 0
  · have hout : ((records snapshot).map recordKey).contains k = false := by
      simpa using count_eq_zero.mp hcount
    rw [hout, hcount, replicate_zero, append_nil, if_pos rfl]
    by_cases hnil : timeline (fun s => ((records s).map recordKey).count k) snapshots = []
    · rw [if_neg fun h => h.2 hnil, if_pos ⟨rfl, hnil⟩, hnil]
    · rw [if_pos ⟨rfl, hnil⟩, if_neg fun h => hnil h.2]
  · have hin : ((records snapshot).map recordKey).contains k = true :=
      contains_iff_mem.mpr (count_pos_iff.mp (Nat.pos_of_ne_zero hcount))
    rw [hin, if_neg fun h => Bool.false_ne_true h.1.symm, if_neg fun h => hcount h.1, if_neg hcount]

/-! ## The archives in order -/

theorem History.marks_recordPresent (h : History) (archiveId : String) (digest : EvidenceDigest)
    (orphaned : Bool) :
    (recordPresent h archiveId digest orphaned).2.marks = h.marks ++ [(archiveId, .present)] := by
  simp [marks, recordPresent]

theorem History.marks_recordMissing (h : History) (archiveId : String) :
    (h.recordMissing archiveId).marks = h.marks ++ [(archiveId, .missingFromLatestSnapshot)] := by
  simp [marks, recordMissing, missingObservation]

namespace Histories

variable {snapshots : List ArchiveSnapshot} {h : Histories}

structure Timed (snapshots : List ArchiveSnapshot) (h : Histories) : Prop where
  conversations : ChatgptArchive.Timed (fun h : ConversationHistory => h.marks)
    ParsedConversation.externalId (·.parsed.conversations) snapshots h.conversations
  projects : ChatgptArchive.Timed (fun h : ProjectHistory => h.marks)
    ParsedProject.externalId (·.parsed.projects) snapshots h.projects
  canvasDocuments : ChatgptArchive.Timed marks
    ParsedCanvasDocument.externalId (·.parsed.canvasDocuments) snapshots h.canvasDocuments
  assets : ChatgptArchive.Timed marks
    ParsedAsset.externalId (·.parsed.assets) snapshots h.assets

theorem timed_empty : empty.Timed [] := ⟨.empty, .empty, .empty, .empty⟩

theorem timed_observeEach {ρ : Type} {recordKey : ρ → String} {digest : ρ → EvidenceDigest}
    {records : ArchiveSnapshot → List ρ} {entries : TreeMap String History}
    (h : ChatgptArchive.Timed marks recordKey records snapshots entries)
    (snapshot : ArchiveSnapshot) :
    ChatgptArchive.Timed marks recordKey records (snapshots ++ [snapshot])
      (recordMissing ((records snapshot).map recordKey) snapshot.archiveId
        (observeEach recordKey digest (fun _ => false) snapshot.archiveId entries
          (records snapshot))) := by
  refine h.reconciled snapshot (fun _ => rfl) (fun h record => h.marks_recordPresent _ _ _)
    (fun k h hin => if_pos hin) (fun k h hout => ?_)
  rw [hout, if_neg Bool.false_ne_true, marks_recordMissing]

theorem Timed.reconcileSnapshot (htimed : h.Timed snapshots) (snapshot : ArchiveSnapshot) :
    (h.reconcileSnapshot snapshot).Timed (snapshots ++ [snapshot]) where
  conversations := by
    simp only [Histories.reconcileSnapshot, reconcileConversations, observeConversations_histories]
    refine htimed.conversations.reconciled snapshot (fun _ => rfl)
      (fun h record => h.toHistory.marks_recordPresent _ _ _) (fun k h hin => if_pos hin)
      (fun k h hout => ?_)
    rw [hout, if_neg Bool.false_ne_true]
    exact h.toHistory.marks_recordMissing _
  projects := by
    refine htimed.projects.reconciled snapshot (fun _ => rfl)
      (fun h record => h.toHistory.marks_recordPresent _ _ _) (fun k h hin => if_pos hin)
      (fun k h hout => ?_)
    rw [hout, if_neg Bool.false_ne_true]
    exact h.toHistory.marks_recordMissing _
  canvasDocuments := timed_observeEach htimed.canvasDocuments snapshot
  assets := timed_observeEach htimed.assets snapshot

theorem Timed.reconcileSnapshots (htimed : h.Timed snapshots) (later : List ArchiveSnapshot) :
    (later.foldl Histories.reconcileSnapshot h).Timed (snapshots ++ later) := by
  induction later generalizing snapshots h with
  | nil =>
    rw [append_nil]
    exact htimed
  | cons snapshot later ih =>
    rw [append_cons]
    exact ih (htimed.reconcileSnapshot snapshot)

end Histories

/-- The history of an identity that occurs in one of the archives, observed from the first such
archive on. -/
def History.TimedBy (occurrences : String → ArchiveSnapshot → Nat)
    (snapshots : List ArchiveSnapshot) (h : History) : Prop :=
  h.marks = timeline (occurrences h.externalId) snapshots ∧
    ∃ snapshot ∈ snapshots, occurrences h.externalId snapshot ≠ 0

/-- Every history has the timeline of its identity, and every identity that occurs has a history. -/
theorem reconcile_timelines (snapshots : List ArchiveSnapshot) :
    (∀ h ∈ (reconcile snapshots).conversations, h.toHistory.TimedBy (fun id snapshot =>
      (snapshot.parsed.conversations.map (·.externalId)).count id) snapshots) ∧
    (∀ h ∈ (reconcile snapshots).projects, h.toHistory.TimedBy (fun id snapshot =>
      (snapshot.parsed.projects.map (·.externalId)).count id) snapshots) ∧
    (∀ h ∈ (reconcile snapshots).canvasDocuments, h.TimedBy (fun id snapshot =>
      (snapshot.parsed.canvasDocuments.map (·.externalId)).count id) snapshots) ∧
    (∀ h ∈ (reconcile snapshots).assets, h.TimedBy (fun id snapshot =>
      (snapshot.parsed.assets.map (·.externalId)).count id) snapshots) ∧
    (reconcile snapshots).Covers snapshots := by
  have htells := (Histories.tells_empty.reconcileSnapshots snapshots).1
  have htimed := Histories.timed_empty.reconcileSnapshots snapshots
  rw [List.nil_append] at htells htimed
  refine ⟨fun h hmem => ?_, fun h hmem => ?_, fun h hmem => ?_, fun h hmem => ?_, htells.covers⟩
  · have hmarks := htimed.conversations.of_mem_values htells.conversations.keyed hmem
    exact ⟨hmarks.1, exists_of_timeline_ne_nil hmarks.2⟩
  · have hmarks := htimed.projects.of_mem_values htells.projects.keyed hmem
    exact ⟨hmarks.1, exists_of_timeline_ne_nil hmarks.2⟩
  · have hmarks := htimed.canvasDocuments.of_mem_values htells.canvasDocuments.keyed hmem
    exact ⟨hmarks.1, exists_of_timeline_ne_nil hmarks.2⟩
  · have hmarks := htimed.assets.of_mem_values htells.assets.keyed hmem
    exact ⟨hmarks.1, exists_of_timeline_ne_nil hmarks.2⟩

/-- A conversation that the second archive presents first, twice, and the third one not at all. -/
example :
    let archive (id : String) (conversations : List String) : ArchiveSnapshot :=
      ⟨id, .ofRecords [] (conversations.map fun c => .ofMessages c [])⟩
    (reconcile [archive "1" ["a"], archive "2" ["a", "b", "b"], archive "3" ["a"]]).conversations.map
        (fun h => (h.externalId, h.toHistory.marks)) =
      [("a", [("1", .present), ("2", .present), ("3", .present)]),
        ("b", [("2", .present), ("2", .present), ("3", .missingFromLatestSnapshot)])] := by
  decide +kernel

end ChatgptArchive
