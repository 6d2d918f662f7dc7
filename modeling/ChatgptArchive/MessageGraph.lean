import ChatgptArchive.Ancestry
import ChatgptArchive.ContractProjection

/-!
# The message graph of a fact

The messages of a conversation's fact, from rows with any parents, roles and provider ids. A row is
emitted when its role is representable and its provider id is a contract id; the parent of an
emitted message is looked for among its ancestors. The walk stops at the first ancestor with a
representable role and a provider id, whether or not that id is a contract id.
-/

namespace ChatgptArchive

open Ancestry Option MessageRow

/-- What the projection reads of a message row to place it in the graph. A row need not have a
provider id. -/
structure MessageHeader where
  id : Uuid
  externalId : Option String
  parent : Option Uuid
  role : MessageRole
  deriving DecidableEq, Repr

structure GraphMessage (ι : Type*) where
  externalMessageId : ι
  authorRole : AiAuthorRole
  parentMessageId : Option ι
  deriving DecidableEq, Repr

namespace MessageHeader

variable {ι : Type*} (parse : String → Option ι)

def localId (row : MessageHeader) : Option ι := row.externalId.bind parse

def byId (rows : List MessageHeader) (id : Uuid) : Option MessageHeader :=
  rows.find? fun row => row.id = id

def nearestRepresentedParent (rows : List MessageHeader) :
    Nat → List Uuid → Option Uuid → Option ι
  | 0, _, _ => none
  | _, _, none => none
  | fuel + 1, seen, some parentId =>
    if parentId ∈ seen then none
    else match byId rows parentId with
      | none => none
      | some parent =>
        match (authorRole parent.role).isSome, parent.externalId with
        | true, some externalId => parse externalId
        | _, _ => nearestRepresentedParent rows fuel (parentId :: seen) parent.parent

def message (rows : List MessageHeader) (row : MessageHeader) : Option (GraphMessage ι) :=
  (authorRole row.role).bind fun role =>
    (row.localId parse).map fun externalId =>
      { externalMessageId := externalId, authorRole := role
        parentMessageId := nearestRepresentedParent parse rows (rows.length + 1) [row.id]
          row.parent }

def conversationMessages (rows : List MessageHeader) : List (GraphMessage ι) :=
  rows.filterMap (message parse rows)

def isEmitted (row : MessageHeader) : Bool :=
  (authorRole row.role).isSome && (row.localId parse).isSome

def isNamed (row : MessageHeader) : Bool :=
  (authorRole row.role).isSome && row.externalId.isSome

def parentIn (rows : List MessageHeader) : MessageHeader → Option MessageHeader :=
  parentOf (byId rows) (·.parent)

end MessageHeader

def MessageRow.header (row : MessageRow) : MessageHeader :=
  ⟨row.id, some row.externalId, row.parentMessageId, row.role⟩

/-! ## The database's messages -/

namespace MessageHeader

theorem byId_map_header (rows : List MessageRow) (id : Uuid) :
    byId (rows.map header) id =
      (rows.find? fun m => m.id = id).map header := by
  rw [byId, List.find?_map]
  rfl

theorem nearestRepresentedParent_map_header (contracts : Contracts) (rows : List MessageRow)
    (fuel : Nat) : ∀ (seen : List Uuid) (cursor : Option Uuid),
      nearestRepresentedParent (parseText contracts.entityLocalId) (rows.map header) fuel
          seen cursor =
        ChatgptArchive.nearestRepresentedParent contracts rows fuel seen cursor := by
  induction fuel with
  | zero => exact fun _ _ => rfl
  | succ fuel ih =>
    intro seen cursor
    cases cursor with
    | none => rfl
    | some parentId =>
      rw [nearestRepresentedParent, ChatgptArchive.nearestRepresentedParent, byId_map_header]
      simp only [List.contains_eq_mem, decide_eq_true_eq]
      split
      · rfl
      · cases rows.find? fun m => m.id = parentId with
        | none => rfl
        | some parent =>
          dsimp only [map_some, header]
          cases (authorRole parent.role).isSome with
          | true => rfl
          | false => exact ih (parentId :: seen) parent.parentMessageId

theorem contractMessage_header (contracts : Contracts) (db : Database) (rows : List MessageRow)
    (parserName parserVersion : String) (row : MessageRow) :
    (db.contractMessage contracts rows parserName parserVersion row).map
        (fun m => ⟨m.externalMessageId, m.authorRole, m.parentMessageId⟩) =
      row.header.message (parseText contracts.entityLocalId) (rows.map header) := by
  rw [Database.contractMessage, message, List.length_map, nearestRepresentedParent_map_header]
  dsimp only [header, localId, bind_some]
  cases authorRole row.role with
  | none => rfl
  | some role => cases parseText contracts.entityLocalId row.externalId <;> rfl

/-! ## The parents -/

variable {ι : Type*} {parse : String → Option ι} {rows : List MessageHeader}
  {row a : MessageHeader}

theorem indexes_byId (hids : (rows.map (·.id)).Nodup) :
    Indexes rows (·.id) (byId rows) where
  found {id a} hfound := ⟨List.mem_of_find?_eq_some hfound, by simpa using List.find?_some hfound⟩
  finds {a} ha := Table.find?_of_key hids ha (decide_eq_true rfl) fun _ => of_decide_eq_true

theorem nearestRepresentedParent_eq (fuel : Nat) : ∀ (seen : List Uuid) (cursor : Option Uuid),
    nearestRepresentedParent parse rows fuel seen cursor =
      (walk (byId rows) (·.parent) isNamed fuel seen cursor).bind (·.localId parse) := by
  induction fuel with
  | zero => exact fun _ _ => rfl
  | succ fuel ih =>
    intro seen cursor
    cases cursor with
    | none => rfl
    | some parentId =>
      rw [nearestRepresentedParent, walk]
      split
      · rfl
      · cases byId rows parentId with
        | none => rfl
        | some parent =>
          dsimp only
          unfold isNamed
          cases (authorRole parent.role).isSome <;> cases hext : parent.externalId <;>
            simp only [Bool.false_and, Bool.true_and, Bool.and_self, isSome_none,
              isSome_some, Bool.false_eq_true, if_false, if_true, bind_some, localId,
              hext] <;> exact ih _ _

theorem message_eq_some {m : GraphMessage ι} (h : row.message parse rows = some m) :
    row.isEmitted parse = true ∧ row.localId parse = some m.externalMessageId ∧
      m.parentMessageId =
        nearestRepresentedParent parse rows (rows.length + 1) [row.id] row.parent := by
  obtain ⟨role, hrole, hmessage⟩ := bind_eq_some_iff.mp h
  obtain ⟨externalId, hid, rfl⟩ := map_eq_some_iff.mp hmessage
  refine ⟨?_, hid, rfl⟩
  rw [isEmitted, hrole, hid]
  rfl

theorem exists_message_of_isEmitted (h : row.isEmitted parse = true) :
    ∃ m, row.message parse rows = some m := by
  obtain ⟨hrole, hid⟩ := Bool.and_eq_true_iff.mp h
  obtain ⟨role, hrole⟩ := isSome_iff_exists.mp hrole
  obtain ⟨externalId, hid⟩ := isSome_iff_exists.mp hid
  rw [message, hrole, bind_some, hid, map_some]
  exact ⟨_, rfl⟩

theorem isNamed_of_isEmitted (h : row.isEmitted parse = true) : row.isNamed = true := by
  obtain ⟨hrole, hid⟩ := Bool.and_eq_true_iff.mp h
  rw [isNamed, hrole, Bool.true_and]
  cases hext : row.externalId with
  | none =>
    rw [localId, hext] at hid
    cases hid
  | some x => rfl

theorem isEmitted_of_localId {i : ι} (hnamed : row.isNamed = true)
    (hid : row.localId parse = some i) : row.isEmitted parse = true := by
  rw [isEmitted, (Bool.and_eq_true_iff.mp hnamed).1, hid]
  rfl

/-- The parent of an emitted message: the id of the nearest named row above it, if that is another
row. -/
theorem parentMessageId_eq_some (hids : (rows.map (·.id)).Nodup) (hrow : row ∈ rows)
    {m : GraphMessage ι} (hm : row.message parse rows = some m) {i : ι} :
    m.parentMessageId = some i ↔ ∃ a, Nearest (parentIn rows) (isNamed · = true) row a ∧ a ≠ row ∧
      a.localId parse = some i := by
  obtain ⟨hemitted, -, hparent⟩ := message_eq_some hm
  rw [hparent, nearestRepresentedParent_eq, bind_eq_some_iff]
  refine exists_congr fun a => ?_
  rw [walk_eq_some (indexes_byId hids) hrow (isNamed_of_isEmitted hemitted), and_assoc]
  rfl

/-- The parent is that of the emitted graph: the nearest other emitted row above, and absent when
there is none. -/
def FollowsGraph (parse : String → Option ι) (rows : List MessageHeader) (row : MessageHeader)
    (parent : Option ι) : Prop :=
  ∀ i, parent = some i ↔ ∃ a, Nearest (parentIn rows) (isEmitted parse · = true) row a ∧ a ≠ row ∧
    a.localId parse = some i

/-- No other emitted row lies above a nearest named row that is not emitted. -/
def NamedAreEmitted (parse : String → Option ι) (rows : List MessageHeader) (row : MessageHeader) :
    Prop :=
  ∀ a b, Nearest (parentIn rows) (isNamed · = true) row a → a.isEmitted parse = false →
    Nearest (parentIn rows) (isEmitted parse · = true) row b → b = row

theorem Nearest.mem {P : MessageHeader → Prop} (h : Nearest (parentIn rows) P row a) : a ∈ rows := by
  induction h with
  | here hparent _ =>
    obtain ⟨id, -, hfind⟩ := bind_eq_some_iff.mp hparent
    exact List.mem_of_find?_eq_some hfind
  | up _ _ _ ih => exact ih

theorem followsGraph_iff (hids : (rows.map (·.id)).Nodup) (hrow : row ∈ rows) {m : GraphMessage ι}
    (hm : row.message parse rows = some m) :
    FollowsGraph parse rows row m.parentMessageId ↔ NamedAreEmitted parse rows row := by
  have hnamed : ∀ z : MessageHeader, z.isEmitted parse = true → z.isNamed = true :=
    fun _ => isNamed_of_isEmitted
  constructor
  · intro hfollows a b ha hsilent hb
    by_contra hne
    -- the graph has a parent, the walk has stopped below it
    obtain ⟨i, hi⟩ := isSome_iff_exists.mp (Bool.and_eq_true_iff.mp hb.holds).2
    obtain ⟨a', ha', -, hid⟩ :=
      (parentMessageId_eq_some hids hrow hm).mp ((hfollows i).mpr ⟨b, hb, hne, hi⟩)
    rw [ha'.unique ha] at hid
    rw [isEmitted_of_localId ha.holds hid] at hsilent
    cases hsilent
  · intro hcond i
    rw [parentMessageId_eq_some hids hrow hm]
    constructor
    · rintro ⟨a, ha, hne, hid⟩
      exact ⟨a, ha.strengthen hnamed (isEmitted_of_localId ha.holds hid), hne, hid⟩
    · rintro ⟨b, hb, hne, hid⟩
      obtain ⟨a, ha⟩ := hb.exists_weaker hnamed
      cases hemitted : a.isEmitted parse with
      | true =>
        rw [hb.unique (ha.strengthen hnamed hemitted)] at hne hid
        exact ⟨a, ha, hne, hid⟩
      | false => exact absurd (hcond a b ha hemitted hb) hne

/-- An emitted message has the parent of the emitted graph exactly when the walk is not stopped by
a row that is left out. The parent it has is another message of the same fact in any case. -/
theorem message_parent_iff (hids : (rows.map (·.id)).Nodup)
    (hparse : ∀ s t i, parse s = some i → parse t = some i → s = t) (hrow : row ∈ rows)
    {m : GraphMessage ι} (hm : row.message parse rows = some m) :
    (FollowsGraph parse rows row m.parentMessageId ↔ NamedAreEmitted parse rows row) ∧
      ∀ i, m.parentMessageId = some i → ∃ a ∈ rows, a ≠ row ∧
        (∃ n, a.message parse rows = some n ∧ n.externalMessageId = i) ∧
        ((∀ b ∈ rows, ∀ c ∈ rows, b.externalId.isSome = true → b.externalId = c.externalId → b = c) →
          i ≠ m.externalMessageId) := by
  refine ⟨followsGraph_iff hids hrow hm, fun i hi => ?_⟩
  obtain ⟨a, ha, hne, hid⟩ := (parentMessageId_eq_some hids hrow hm).mp hi
  have hmem : a ∈ rows := Nearest.mem ha
  obtain ⟨n, hn⟩ := exists_message_of_isEmitted (isEmitted_of_localId ha.holds hid)
  have hown : n.externalMessageId = i :=
    Option.some.inj ((message_eq_some hn).2.1.symm.trans hid)
  refine ⟨a, hmem, hne, ⟨n, hn, hown⟩, ?_⟩
  rintro hunique rfl
  -- one contract id is one provider id, which is one row's
  obtain ⟨s, hs, hsi⟩ := Option.bind_eq_some_iff.mp hid
  obtain ⟨t, ht, hti⟩ := Option.bind_eq_some_iff.mp (message_eq_some hm).2.1
  rw [hparse s t _ hsi hti] at hs
  exact hne (hunique a hmem row hrow (by rw [hs]; rfl) (hs.trans ht.symm))

def nonempty (text : String) : Option String := if text = "" then none else some text

def threeRows (middle : Option String) : List MessageHeader :=
  [⟨0, some "a", none, .user⟩, ⟨1, middle, some 0, .user⟩, ⟨2, some "c", some 1, .user⟩]

theorem threeRows_follows :
    ∃ m, (⟨2, some "c", some 1, .user⟩ : MessageHeader).message nonempty (threeRows none) =
        some m ∧
      (FollowsGraph nonempty (threeRows none) ⟨2, some "c", some 1, .user⟩ m.parentMessageId ↔
        NamedAreEmitted nonempty (threeRows none) ⟨2, some "c", some 1, .user⟩) ∧
      ∀ i, m.parentMessageId = some i → ∃ a ∈ threeRows none, a ≠ ⟨2, some "c", some 1, .user⟩ ∧
        (∃ n, a.message nonempty (threeRows none) = some n ∧ n.externalMessageId = i) ∧
        ((∀ b ∈ threeRows none, ∀ c ∈ threeRows none, b.externalId.isSome = true →
          b.externalId = c.externalId → b = c) → i ≠ m.externalMessageId) := by
  refine ⟨_, rfl, message_parent_iff (by decide) (fun s t i hs ht => ?_) (by decide) rfl⟩
  unfold nonempty at hs ht
  split at hs <;> split at ht <;> cases hs <;> cases ht
  rfl

/-- The middle message is left out for its id. The last one is emitted without a parent, although
the first is emitted and above it. -/
theorem threeRows_orphaned :
    conversationMessages nonempty (threeRows (some "")) =
        [⟨"a", .user, none⟩, ⟨"c", .user, none⟩] ∧
      Nearest (parentIn (threeRows (some ""))) (isEmitted nonempty · = true)
        ⟨2, some "c", some 1, .user⟩ ⟨0, some "a", none, .user⟩ :=
  ⟨by decide, .up (y := ⟨1, some "", some 0, .user⟩) (by decide) (by decide)
    (.here (by decide) (by decide))⟩

end MessageHeader

end ChatgptArchive
