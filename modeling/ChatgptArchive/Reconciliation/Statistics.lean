import ChatgptArchive.Reconciliation.AppendOnly
import Mathlib.Algebra.BigOperators.Group.List.Basic
import Mathlib.Algebra.Group.Prod
import Mathlib.Algebra.Order.Ring.Nat
import Mathlib.Tactic.Abel

/-!
# Statistics of a reconciliation

The counters of each archive's report are updated record by record. What they add is what the
histories gain, so the totals of the cumulative report are those of the final histories.
-/

namespace ChatgptArchive

open List ConversationHistory

variable {presented : List ParsedConversation}

open Std KeyedMap

/-! ## Sums over the values of a map -/

section Total

variable {α M : Type} [AddCommMonoid M]

def total (weight : α → M) (entries : TreeMap String α) : M := ((values entries).map weight).sum

variable {weight : α → M} {entries : TreeMap String α} {k : String} {a b : α} {d : M}

theorem toList_perm_of_lookup (h : entries[k]? = some a) :
    entries.toList.Perm ((k, a) :: entries.toList.filter fun x => decide ¬(k == x.1) = true) := by
  have hnodup : entries.toList.Nodup :=
    TreeMap.distinct_keys_toList.imp fun {x y} hne (heq : x = y) =>
      hne (heq ▸ ReflCmp.compare_self)
  apply (perm_ext_iff_of_nodup hnodup _).mpr
  · intro entry
    obtain ⟨k', a'⟩ := entry
    rw [mem_cons, mem_filter, TreeMap.mem_toList_iff_getElem?_eq_some, Prod.mk.injEq]
    by_cases hk : k' = k
    · subst hk
      simp [h, eq_comm]
    · simp [hk, Ne.symm hk]
  · apply nodup_cons.mpr ⟨fun hmem => _, hnodup.filter _⟩
    intro hmem
    simpa using (mem_filter.mp hmem).2

/-- A value that replaces another, or a fresh one, changes the total by what it is heavier. -/
theorem total_insert (weight : α → M) (fresh : String → α) (hfresh : weight (fresh k) = 0)
    (h : weight b = weight (entries.getD k (fresh k)) + d) :
    total weight (entries.insert k b) = total weight entries + d := by
  have hinserted : total weight (entries.insert k b) = weight b + ((entries.toList.filter
      fun x => decide ¬(k == x.1) = true).map fun x => weight x.2).sum := by
    rw [total, values, map_map, (TreeMap.toList_insert_perm.map _).sum_eq]
    rfl
  rw [TreeMap.getD_eq_getD_getElem?] at h
  cases hlookup : entries[k]? with
  | none =>
    have hkept : (entries.toList.filter fun x => decide ¬(k == x.1) = true) = entries.toList := by
      refine filter_eq_self.mpr fun x hx => decide_eq_true fun heq => ?_
      rw [beq_iff_eq.mp heq, TreeMap.mem_toList_iff_getElem?_eq_some.mp hx] at hlookup
      cases hlookup
    rw [hlookup, Option.getD_none, hfresh, zero_add] at h
    rw [hinserted, hkept, h, add_comm, total, values, map_map]
    rfl
  | some a =>
    rw [hlookup, Option.getD_some] at h
    rw [hinserted, h, total, values, map_map, ((toList_perm_of_lookup hlookup).map _).sum_eq,
      map_cons, sum_cons, add_right_comm]
    rfl

theorem total_index {key : α → String} {list : List α} (h : (list.map key).Nodup) :
    total weight (index key list) = (list.map weight).sum := by
  have hkeyed : Keyed key (index key list) := fun k a hk => ((getElem?_index h).mp hk).2
  apply List.Perm.sum_eq
  apply List.Perm.map
  apply (perm_ext_iff_of_nodup hkeyed.nodup_values.of_map h.of_map).mpr
  intro a
  rw [hkeyed.mem_values_iff, getElem?_index h]
  simp

end Total

/-! ## Tallies -/

abbrev Tally := ℕ × ℕ × ℕ × ℕ

def RevisionStatistics.tally (s : RevisionStatistics) : Tally :=
  (s.newRevisions, s.newRevisions + s.reusedRevisions, s.presentConversationObservations,
    s.missingConversationObservations)

def History.observed (state : ObservationState) (h : History) : ℕ :=
  h.observations.countP (·.state = state)

def History.messageTally (h : MessageHistory) : Tally :=
  (h.revisions.length, h.observed .present, 0, 0)

def ConversationHistory.tally (h : ConversationHistory) : Tally :=
  (h.revisions.length, h.revisions.length, h.observed .present,
    h.observed .missingFromLatestSnapshot) + (h.messages.map History.messageTally).sum

theorem RevisionStatistics.tally_add (s t : RevisionStatistics) :
    (addStatistics s t).tally = s.tally + t.tally := by
  simp only [tally, addStatistics, Prod.mk_add_mk, Prod.mk.injEq, true_and, and_true]
  omega

theorem RevisionStatistics.tally_count (s : RevisionStatistics) (created : Bool) :
    (s.count created).tally = s.tally + (created.toNat, 1, 0, 0) := by
  cases created with
  | false => simp [tally, count, Nat.add_assoc]
  | true => simp [tally, count, Nat.add_right_comm]

theorem recordPresent_revisions (h : History) (archiveId : String) (digest : EvidenceDigest)
    (orphaned : Bool) : (recordPresent h archiveId digest orphaned).2.revisions.length =
      h.revisions.length + (recordPresent h archiveId digest orphaned).1.toNat := by
  simp only [recordPresent]
  cases h.revisions.any (·.digest = digest) <;> simp

theorem recordPresent_observed (h : History) (archiveId : String) (digest : EvidenceDigest)
    (orphaned : Bool) (state : ObservationState) :
    (recordPresent h archiveId digest orphaned).2.observed state =
      h.observed state + if state = .present then 1 else 0 := by
  cases state <;> simp [recordPresent, History.observed]

theorem messageTally_recordPresent (h : MessageHistory) (archiveId : String)
    (digest : EvidenceDigest) (orphaned : Bool) :
    let recorded := recordPresent h archiveId digest orphaned
    recorded.2.messageTally = h.messageTally + (recorded.1.toNat, 1, 0, 0) := by
  intro recorded
  rw [History.messageTally, History.messageTally, recordPresent_revisions, recordPresent_observed]
  rfl

/-! ## One conversation -/

theorem observeMessages_tally (conversationId archiveId : String)
    (orphanedMessages : List (String × String)) (messages : List ParsedMessage)
    (state : TreeMap String MessageHistory × RevisionStatistics) :
    ∃ d,
      let state' :=
        messages.foldl (observeMessage conversationId archiveId orphanedMessages) state
      total History.messageTally state'.1 = total History.messageTally state.1 + d ∧
        state'.2.tally = state.2.tally + d := by
  induction messages generalizing state with
  | nil => exact ⟨0, (add_zero _).symm, (add_zero _).symm⟩
  | cons message messages ih =>
    obtain ⟨d, hhistories, hstatistics⟩ :=
      ih (observeMessage conversationId archiveId orphanedMessages state message)
    let created := recordPresent (state.1.getD message.externalId (.fresh message.externalId))
      archiveId (.message message) (orphanedMessages.contains (conversationId, message.externalId))
    have hinsert : total History.messageTally
        (observeMessage conversationId archiveId orphanedMessages state message).1 =
          total History.messageTally state.1 + (created.1.toNat, 1, 0, 0) := by
      apply total_insert History.messageTally .fresh rfl
      exact messageTally_recordPresent _ archiveId _ _
    refine ⟨(created.1.toNat, 1, 0, 0) + d, ?_, ?_⟩
    · rw [← add_assoc, ← hinsert]
      exact hhistories
    · rw [← add_assoc, ← RevisionStatistics.tally_count]
      exact hstatistics

theorem observeConversation_tally {h : ConversationHistory}
    (hdistinct : (h.messages.map (·.externalId)).Nodup) (conversation : ParsedConversation)
    (archiveId : String) (orphanedMessages : List (String × String)) :
    let observed := observeConversation h conversation archiveId orphanedMessages
    observed.1.tally = h.tally + (observed.2.tally + (0, 0, 1, 0)) := by
  intro observed
  let created := recordPresent h.toHistory archiveId
    (.conversation (conversationDigest conversation)) false
  obtain ⟨d, hmessages, hstatistics⟩ := observeMessages_tally conversation.externalId archiveId
    orphanedMessages conversation.messages (index (·.externalId) h.messages,
      { RevisionStatistics.zero with newRevisions := if created.1 then 1 else 0 })
  have hstats : observed.2.tally = (created.1.toNat, created.1.toNat, 0, 0) + d := by
    refine hstatistics.trans ?_
    cases created.1 <;> rfl
  have hnested : (observed.1.messages.map History.messageTally).sum =
      (h.messages.map History.messageTally).sum + d := by
    rw [← total_index hdistinct]
    exact hmessages
  have hheader : (observed.1.revisions.length, observed.1.revisions.length,
      observed.1.observed .present, observed.1.observed .missingFromLatestSnapshot) =
      ((h.revisions.length, h.revisions.length, h.observed .present,
        h.observed .missingFromLatestSnapshot) : Tally) +
        ((created.1.toNat, created.1.toNat, 0, 0) + (0, 0, 1, 0)) := by
    show ((created.2.revisions.length, created.2.revisions.length, created.2.observed .present,
      created.2.observed .missingFromLatestSnapshot) : Tally) = _
    rw [recordPresent_revisions, recordPresent_observed, recordPresent_observed]
    rfl
  rw [tally, tally, hheader, hnested, hstats]
  abel

/-! ## One archive -/

theorem observeConversations_tally (archiveId : String) (orphanedMessages : List (String × String))
    (conversations : List ParsedConversation)
    (state : TreeMap String ConversationHistory × RevisionStatistics)
    (htold : ConversationsTold presented state.1) :
    ∃ d, let state' := observeConversations archiveId orphanedMessages state conversations
      total tally state'.1 = total tally state.1 +
        (d + (0, 0, conversations.length, 0)) ∧ state'.2.tally = state.2.tally + d := by
  induction conversations generalizing presented state with
  | nil => exact ⟨0, (add_zero _).symm, (add_zero _).symm⟩
  | cons conversation conversations ih =>
    have hconversation := htold conversation.externalId
    have hobserved := hconversation.2.observed conversation archiveId orphanedMessages
    obtain ⟨d, hhistories, hstatistics⟩ := @ih (presented ++ [conversation])
      (state.1.insert conversation.externalId (observeConversation
          (state.1.getD conversation.externalId (.fresh conversation.externalId)) conversation
          archiveId orphanedMessages).1,
        addStatistics state.2 (observeConversation
          (state.1.getD conversation.externalId (.fresh conversation.externalId)) conversation
          archiveId orphanedMessages).2)
      (htold.insert (hobserved.1.trans hconversation.1) hobserved.2)
    have hinsert := total_insert tally .fresh rfl
      (observeConversation_tally hconversation.2.messages.distinct conversation archiveId
        orphanedMessages)
    refine ⟨(observeConversation (state.1.getD conversation.externalId
      (.fresh conversation.externalId)) conversation archiveId orphanedMessages).2.tally + d,
      hhistories.trans ?_, hstatistics.trans ?_⟩
    · rw [hinsert, length_cons]
      have hlength : ((0, 0, conversations.length + 1, 0) : Tally) =
          (0, 0, 1, 0) + (0, 0, conversations.length, 0) := by
        rw [Nat.add_comm]
        rfl
      rw [hlength]
      abel
    · rw [RevisionStatistics.tally_add, add_assoc]

theorem tally_recordMissing (present : Bool) (archiveId : String) (h : ConversationHistory) :
    (if present then h else
      { h with toHistory := h.toHistory.recordMissing archiveId }).tally =
      h.tally + (0, 0, 0, (!present).toNat) := by
  cases present with
  | true => exact (add_zero _).symm
  | false =>
    have hheader : ∀ state, (h.toHistory.recordMissing archiveId).observed state =
        h.observed state + if state = .missingFromLatestSnapshot then 1 else 0 := by
      intro state
      cases state <;> simp [History.recordMissing, History.observed, missingObservation]
    show (_, _, (h.toHistory.recordMissing archiveId).observed _,
      (h.toHistory.recordMissing archiveId).observed _) + _ = _
    rw [hheader, hheader, tally, add_right_comm]
    rfl

theorem recordMissingConversations_tally (presentIds : List String) (archiveId : String)
    (histories : TreeMap String ConversationHistory) :
    total tally (recordMissingConversations presentIds archiveId histories) =
      total tally histories +
        (0, 0, 0, missingConversations presentIds histories) := by
  rw [total, total, values, values, recordMissingConversations, TreeMap.toList_map,
    missingConversations, ← TreeMap.map_fst_toList_eq_keys, map_map, map_map,
    map_map, countP_map]
  induction histories.toList with
  | nil => rfl
  | cons entry entries ih =>
    have hcount : ∀ (n : ℕ) (b : Bool), ((0, 0, 0, n + if b = true then 1 else 0) : Tally) =
        (0, 0, 0, b.toNat) + (0, 0, 0, n) := by
      intro n b
      cases b <;> simp [Nat.add_comm]
    rw [map_cons, sum_cons, ih, map_cons, sum_cons, countP_cons, hcount]
    simp only [Function.comp_apply, tally_recordMissing]
    abel

theorem reconcileConversations_tally {histories : TreeMap String ConversationHistory}
    (htold : ConversationsTold presented histories) (snapshot : ArchiveSnapshot) :
    let reconciled := Histories.reconcileConversations histories snapshot
    total tally reconciled.1 =
      total tally histories + reconciled.2.tally := by
  intro reconciled
  let start : RevisionStatistics := { RevisionStatistics.zero with
    presentConversationObservations := snapshot.parsed.conversations.length }
  let observed := observeConversations snapshot.archiveId (graphEvidence snapshot).orphanedMessages
    (histories, start) snapshot.parsed.conversations
  obtain ⟨d, hhistories, hstatistics⟩ := observeConversations_tally snapshot.archiveId
    (graphEvidence snapshot).orphanedMessages snapshot.parsed.conversations (histories, start)
    htold
  have hmissing := recordMissingConversations_tally
    (snapshot.parsed.conversations.map (·.externalId)) snapshot.archiveId observed.1
  have hcounted : reconciled.2.tally = observed.2.tally + (0, 0, 0, missingConversations
      (snapshot.parsed.conversations.map (·.externalId)) observed.1) := rfl
  have hpresented : start.tally = (0, 0, snapshot.parsed.conversations.length, 0) := rfl
  calc total tally reconciled.1
      = total tally observed.1 + (0, 0, 0, missingConversations
          (snapshot.parsed.conversations.map (·.externalId)) observed.1) := hmissing
    _ = total tally histories + (d + start.tally) + (0, 0, 0,
          missingConversations (snapshot.parsed.conversations.map (·.externalId)) observed.1) := by
        rw [hpresented]
        exact congrArg (· + _) hhistories
    _ = total tally histories + reconciled.2.tally := by
        rw [hcounted, show observed.2.tally = start.tally + d from hstatistics]
        abel

/-! ## The archives in order -/

namespace Histories

def Tallied (h : Histories) : Prop :=
  total tally h.conversations =
    (h.archiveReports.foldl (fun statistics report =>
      addStatistics statistics report.revisionStatistics) .zero).tally

theorem Tells.tallied {snapshots : List ArchiveSnapshot} {h : Histories} (htells : h.Tells snapshots)
    (htallied : h.Tallied) (later : List ArchiveSnapshot) :
    (later.foldl Histories.reconcileSnapshot h).Tallied := by
  induction later generalizing snapshots h with
  | nil => exact htallied
  | cons snapshot later ih =>
    apply ih (htells.reconcileSnapshot snapshot)
    rw [Tallied, Histories.reconcileSnapshot, foldl_append, foldl_cons, foldl_nil,
      RevisionStatistics.tally_add, ← htallied]
    exact reconcileConversations_tally htells.conversations snapshot

end Histories

/-- The totals of the cumulative report are those of the histories. -/
theorem reconcile_statistics (snapshots : List ArchiveSnapshot) :
    let result := reconcile snapshots
    let report := result.cumulativeReport
    let presentMessages := (((result.conversations.flatMap (·.messages)).flatMap
      (·.observations)).filter (·.state = .present)).length
    report.revisionStatistics.newRevisions =
      report.conversationRevisions + report.messageRevisions ∧
    report.messageRevisions ≤ presentMessages ∧
    report.revisionStatistics.reusedRevisions = presentMessages - report.messageRevisions ∧
    report.revisionStatistics.presentConversationObservations =
      ((result.conversations.flatMap (·.observations)).filter (·.state = .present)).length ∧
    report.revisionStatistics.missingConversationObservations =
      ((result.conversations.flatMap (·.observations)).filter
        (·.state = .missingFromLatestSnapshot)).length := by
  intro result report presentMessages
  have htallied : Histories.Tallied _ :=
    Histories.tells_empty.tallied (by rfl) snapshots
  have hsum : ∀ conversations : List ConversationHistory,
      (conversations.map ConversationHistory.tally).sum =
        ((conversations.flatMap (·.revisions)).length +
            ((conversations.flatMap (·.messages)).flatMap (·.revisions)).length,
          (conversations.flatMap (·.revisions)).length +
            (((conversations.flatMap (·.messages)).flatMap (·.observations)).filter
              (·.state = .present)).length,
          ((conversations.flatMap (·.observations)).filter (·.state = .present)).length,
          ((conversations.flatMap (·.observations)).filter
            (·.state = .missingFromLatestSnapshot)).length) := by
    intro conversations
    induction conversations with
    | nil => rfl
    | cons h conversations ih =>
      have hmessages : (h.messages.map History.messageTally).sum =
          ((h.messages.flatMap (·.revisions)).length,
            ((h.messages.flatMap (·.observations)).filter (·.state = .present)).length, 0, 0) := by
        induction h.messages with
        | nil => rfl
        | cons m messages ih =>
          simp [ih, History.messageTally, History.observed, List.countP_eq_length_filter]
      rw [List.map_cons, List.sum_cons, ih, ConversationHistory.tally, hmessages]
      simp only [List.flatMap_cons, List.flatMap_append, List.length_append, List.filter_append,
        Prod.mk_add_mk, Prod.mk.injEq, History.observed, List.countP_eq_length_filter]
      refine ⟨?_, ?_, rfl, rfl⟩
      · omega
      · omega
  rw [Histories.Tallied, total, hsum] at htallied
  simp only [RevisionStatistics.tally, Prod.mk.injEq] at htallied
  have hnew : report.conversationRevisions + report.messageRevisions =
      report.revisionStatistics.newRevisions := htallied.1
  have hpresented : report.conversationRevisions + presentMessages =
      report.revisionStatistics.newRevisions + report.revisionStatistics.reusedRevisions :=
    htallied.2.1
  refine ⟨hnew.symm, ?_, ?_, htallied.2.2.1.symm, htallied.2.2.2.symm⟩
  · omega
  · omega

end ChatgptArchive
