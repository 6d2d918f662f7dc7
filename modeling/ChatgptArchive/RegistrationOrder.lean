import ChatgptArchive.ParserRegistry

/-!
# The order of registration

The compatible parsers are listed by a stable sort, so the order in which parsers were registered
shows exactly where two compatible identities compare equal. Identities of one name compare equal
when their versions split at the separators into the same parts.
-/

namespace ChatgptArchive

open List ParserRegistry

variable {left right : ParserId}

/-! ## The order of identities -/

instance : Std.OrientedCmp VersionPart.compare where
  eq_swap {a b} := by
    cases a <;> cases b <;> simp only [VersionPart.compare, Ordering.swap]
    · exact Std.OrientedCmp.eq_swap
    · exact Std.OrientedCmp.eq_swap

instance : Std.TransCmp VersionPart.compare where
  isLE_trans {a b c} hab hbc := by
    cases a <;> cases b <;> cases c <;> simp only [VersionPart.compare] at hab hbc ⊢
    -- numbers come first, so a mixed chain is decided by its constructors
    case number.number.number => exact Std.TransCmp.isLE_trans hab hbc
    case text.text.text => exact Std.TransCmp.isLE_trans hab hbc
    all_goals first | rfl | exact absurd hab (by decide) | exact absurd hbc (by decide)

instance : Std.LawfulEqCmp VersionPart.compare where
  eq_of_compare {a b} h := by
    cases a <;> cases b <;> simp only [VersionPart.compare] at h
    case number.number => rw [Std.LawfulEqCmp.eq_of_compare h]
    case text.text => rw [String.ofList_injective (Std.LawfulEqCmp.eq_of_compare h)]
    all_goals cases h

theorem compareParts_eq (as bs : List VersionPart) :
    compareParts as bs = List.compareLex VersionPart.compare as bs := by
  induction as generalizing bs with
  | nil => cases bs <;> rfl
  | cons a as ih =>
    cases bs with
    | nil => rfl
    | cons b bs => rw [compareParts, ih, List.compareLex_cons_cons]

theorem compareVersions_eq_iff {left right : String} :
    compareVersions left right = .eq ↔ versionParts left = versionParts right := by
  rw [compareVersions, compareParts_eq]
  exact Std.LawfulEqCmp.compare_eq_iff_eq

instance : Std.TransCmp ParserId.compare := by
  have h : ParserId.compare = compareLex (compareOn ParserId.name)
      (fun a b => List.compareLex VersionPart.compare (versionParts a.version)
        (versionParts b.version)) := by
    funext a b
    rw [ParserId.compare, compareVersions, compareParts_eq]
    rfl
  rw [h]
  have hversions : Std.TransCmp fun a b : ParserId =>
      List.compareLex VersionPart.compare (versionParts a.version) (versionParts b.version) :=
    { eq_swap := Std.OrientedCmp.eq_swap, isLE_trans := Std.TransCmp.isLE_trans }
  infer_instance

theorem ParserId.notAfter_iff : left.notAfter right ↔ (left.compare right).isLE = true := by
  rw [ParserId.notAfter]
  cases left.compare right <;> decide

instance : Std.Total ParserId.notAfter where
  total a b := by
    rw [ParserId.notAfter, ParserId.notAfter, @Std.OrientedCmp.eq_swap _ ParserId.compare _ a b]
    cases b.compare a <;> decide

instance : IsTrans ParserId ParserId.notAfter where
  trans a b c hab hbc := by
    rw [ParserId.notAfter_iff] at *
    exact Std.TransCmp.isLE_trans hab hbc

/-! ## Tied identities -/

/-- Two parts of a version count as one: they are the same text, or texts of the same number. -/
def SpelledAlike (left right : List Char) : Prop :=
  left = right ∨ ∃ value, parseU64 left = some value ∧ parseU64 right = some value

/-- Two identities of one name whose versions split into parts that count as the same. -/
def ParserId.Tied (left right : ParserId) : Prop :=
  left.name = right.name ∧
    Forall₂ SpelledAlike (left.version.toList.splitOnP isVersionSeparator)
      (right.version.toList.splitOnP isVersionSeparator)

theorem versionPart_eq_iff {left right : List Char} :
    versionPart left = versionPart right ↔ SpelledAlike left right := by
  unfold versionPart SpelledAlike
  cases hleft : parseU64 left with
  | none =>
    cases hright : parseU64 right with
    | none => simp
    | some value =>
      -- a part that parses and one that does not are never alike
      have hne : left ≠ right := by
        rintro rfl
        rw [hleft] at hright
        cases hright
      simp [hne]
  | some value =>
    cases hright : parseU64 right with
    | none =>
      have hne : left ≠ right := by
        rintro rfl
        rw [hleft] at hright
        cases hright
      simp [hne]
    | some other =>
      have heq : left = right → value = other := by
        rintro rfl
        exact Option.some.inj (hleft.symm.trans hright)
      simp only [VersionPart.number.injEq, Option.some.injEq]
      exact ⟨fun h => .inr ⟨other, h, rfl⟩, fun h => h.elim heq fun ⟨_, hv, ho⟩ => hv.trans ho.symm⟩

theorem ParserId.compare_eq_iff : left.compare right = .eq ↔ left.Tied right := by
  rw [ParserId.compare, Ordering.then_eq_eq, compareVersions_eq_iff,
    Std.LawfulEqCmp.compare_eq_iff_eq, ParserId.Tied, versionParts, versionParts,
    ← List.forall₂_eq_eq_eq, List.forall₂_map_left_iff, List.forall₂_map_right_iff]
  simp only [versionPart_eq_iff]

theorem eq_of_orderedInsert_comm {α : Type*} {r : α → α → Prop} [DecidableRel r] {a b : α}
    (hab : r a b) (hba : r b a) (htied : ∀ c, r a c ↔ r b c) {l : List α}
    (h : (l.orderedInsert r b).orderedInsert r a = (l.orderedInsert r a).orderedInsert r b) :
    a = b := by
  induction l with
  | nil => simpa [hab, hba] using congrArg List.head? h
  | cons c l ih =>
    by_cases hc : r b c
    · simpa [hc, (htied c).mpr hc, hab, hba] using congrArg List.head? h
    · have hac : ¬r a c := fun hac => hc ((htied c).mp hac)
      simp only [List.orderedInsert, hc, hac, if_false, List.cons.injEq, true_and] at h
      exact ih h

theorem ParserId.Tied.eq_of_orderedInsert {a b : ParserId} (htied : a.Tied b) {l : List ParserId}
    (h : (l.orderedInsert ParserId.notAfter b).orderedInsert ParserId.notAfter a =
      (l.orderedInsert ParserId.notAfter a).orderedInsert ParserId.notAfter b) : a = b := by
  have hab : a.compare b = .eq := ParserId.compare_eq_iff.mpr htied
  have hba : b.compare a = .eq := Std.OrientedCmp.eq_symm hab
  refine eq_of_orderedInsert_comm ?_ ?_ (fun c => ?_) h
  · rw [ParserId.notAfter, hab]
    decide
  · rw [ParserId.notAfter, hba]
    decide
  · rw [ParserId.notAfter, ParserId.notAfter, Std.TransCmp.congr_left hab]

/-! ## Registries of the same parsers -/

def ParserRegistry.ofParsers {ε : Type} (parsers : List (RegisteredParser ε)) :
    Except RegistryError (ParserRegistry ε) :=
  parsers.foldlM registerParser empty

def parserFingerprint (sha256Hex : List UInt8 → String) (toVec : List ParserId → List UInt8)
    (parsers : List ParserId) : String :=
  sha256Hex (toVec parsers)

section Registries

variable {ε : Type} {parsers order : List (RegisteredParser ε)} {inventory : ArchiveInventory}
  {mode : AcquisitionMode}

theorem ParserRegistry.foldlM_registerParser (registered : List (RegisteredParser ε))
    (h : ((registered ++ parsers).map (·.declaration.id)).Nodup) :
    parsers.foldlM registerParser ⟨registered⟩ = .ok ⟨registered ++ parsers⟩ := by
  induction parsers generalizing registered with
  | nil => rw [append_nil]; rfl
  | cons parser parsers ih =>
    have hnew : (registered.any fun item => item.declaration.id = parser.declaration.id) =
        false := by
      rw [map_append, map_cons] at h
      have hnotin := (nodup_append.mp h).2.2
      simp only [any_eq_false, decide_eq_true_eq]
      intro item hitem heq
      exact hnotin _ (mem_map_of_mem hitem) _ (mem_cons_self ..) heq
    rw [foldlM_cons, registerParser, hnew, if_neg Bool.false_ne_true]
    show parsers.foldlM registerParser ⟨registered ++ [parser]⟩ = _
    rw [append_cons] at h
    rw [ih _ h, ← append_cons]

theorem ParserRegistry.ofParsers_eq (h : (parsers.map (·.declaration.id)).Nodup) :
    ofParsers parsers = .ok ⟨parsers⟩ :=
  foldlM_registerParser [] h

theorem ParserRegistry.select_congr {registry registry' : ParserRegistry ε}
    (h : registry.compatibleVersions inventory mode = registry'.compatibleVersions inventory mode) :
    registry.select inventory mode = registry'.select inventory mode := by
  rw [select, select, h]

theorem ParserRegistry.compatibleVersions_perm (hperm : order.Perm parsers)
    (huntied : ∀ a ∈ parsers, ∀ b ∈ parsers, compatible a.declaration inventory mode →
      compatible b.declaration inventory mode → a.declaration.id.Tied b.declaration.id →
      a.declaration.id = b.declaration.id) :
    compatibleVersions ⟨order⟩ inventory mode =
      compatibleVersions ⟨parsers⟩ inventory mode := by
  have hids := (hperm.filter fun item => compatible item.declaration inventory mode).map
    fun item => item.declaration.id
  have hsorted := ((perm_insertionSort ParserId.notAfter _).trans hids).trans
    (perm_insertionSort ParserId.notAfter _).symm
  apply hsorted.eq_of_pairwise _ (pairwise_insertionSort _ _) (pairwise_insertionSort _ _)
  intro a b ha hb hab hba
  rw [mem_insertionSort, mem_map] at ha hb
  obtain ⟨x, hx, rfl⟩ := ha
  obtain ⟨y, hy, rfl⟩ := hb
  obtain ⟨hxin, hxc⟩ := mem_filter.mp hx
  obtain ⟨hyin, hyc⟩ := mem_filter.mp hy
  apply huntied x (hperm.subset hxin) y hyin hxc hyc
  rw [← ParserId.compare_eq_iff]
  rw [ParserId.notAfter_iff] at hab hba
  exact Std.OrientedCmp.isLE_antisymm hab hba

end Registries

/-- Parsers of distinct identities give every order of registration the same answers exactly when
no two compatible ones are tied. -/
theorem registrationOrder_irrelevant_iff {ε : Type} (sha256Hex : List UInt8 → String)
    (toVec : List ParserId → List UInt8) (parsers : List (RegisteredParser ε))
    (hids : (parsers.map (·.declaration.id)).Nodup) (inventory : ArchiveInventory)
    (mode : AcquisitionMode) :
    (∀ order registry registry', order.Perm parsers →
      ParserRegistry.ofParsers parsers = .ok registry →
      ParserRegistry.ofParsers order = .ok registry' →
      registry'.compatibleVersions inventory mode = registry.compatibleVersions inventory mode ∧
      registry'.select inventory mode = registry.select inventory mode ∧
      parserFingerprint sha256Hex toVec (registry'.compatibleVersions inventory mode) =
        parserFingerprint sha256Hex toVec (registry.compatibleVersions inventory mode)) ↔
    ∀ a ∈ parsers, ∀ b ∈ parsers, compatible a.declaration inventory mode →
      compatible b.declaration inventory mode → a.declaration.id.Tied b.declaration.id →
      a.declaration.id = b.declaration.id := by
  have hregistry : ∀ {order : List (RegisteredParser ε)}, order.Perm parsers →
      ParserRegistry.ofParsers order = .ok ⟨order⟩ := fun hperm =>
    ParserRegistry.ofParsers_eq ((hperm.map _).nodup_iff.mpr hids)
  constructor
  · intro hsame a ha b hb hac hbc htied
    by_contra hne
    -- register `a` and `b` first, in either order: the sort inserts them last and keeps the order
    have hlead : ∀ {l : List (RegisteredParser ε)} {c}, c ∈ l → ∃ rest, l.Perm (c :: rest) := by
      intro l c hc
      obtain ⟨before, after, rfl⟩ := List.append_of_mem hc
      exact ⟨before ++ after, List.perm_middle⟩
    obtain ⟨others, hothers⟩ := hlead ha
    have hb' : b ∈ others :=
      (List.mem_cons.mp (hothers.subset hb)).resolve_left fun heq => hne (heq ▸ rfl)
    obtain ⟨rest, hlast⟩ := hlead hb'
    have hrest : parsers.Perm (a :: b :: rest) := hothers.trans (hlast.cons a)
    have hswapped := hrest.trans (List.Perm.swap b a rest)
    have hab := (hsame _ _ _ hrest.symm (hregistry (.refl _)) (hregistry hrest.symm)).1
    have hba := (hsame _ _ _ hswapped.symm (hregistry (.refl _)) (hregistry hswapped.symm)).1
    have heq := hab.trans hba.symm
    simp only [ParserRegistry.compatibleVersions, List.filter_cons, hac, hbc, if_true,
      List.map_cons, List.insertionSort_cons] at heq
    exact hne (htied.eq_of_orderedInsert heq)
  · intro huntied order registry registry' hperm hok hok'
    rw [hregistry (.refl _), Except.ok.injEq] at hok
    rw [hregistry hperm, Except.ok.injEq] at hok'
    subst hok hok'
    have hversions := ParserRegistry.compatibleVersions_perm hperm huntied
    exact ⟨hversions, ParserRegistry.select_congr hversions, by rw [hversions]⟩

def parserOf (version : String) : RegisteredParser Unit :=
  ⟨⟨⟨"synthetic-conversations", version⟩, [.consumerExport], ∅⟩, none⟩

theorem registrationOrder_irrelevant_versions :
    ParserRegistry.compatibleVersions ⟨[parserOf "0.10", parserOf "0.9"]⟩ ⟨[], 0, 0, ∅⟩
        .consumerExport =
      ParserRegistry.compatibleVersions ⟨[parserOf "0.9", parserOf "0.10"]⟩ ⟨[], 0, 0, ∅⟩
        .consumerExport :=
  ((registrationOrder_irrelevant_iff (fun _ => "") (fun _ => [])
    [parserOf "0.9", parserOf "0.10"] (by decide) ⟨[], 0, 0, ∅⟩ .consumerExport).mpr
      (by
        have huntied : ∀ a ∈ [parserOf "0.9", parserOf "0.10"],
            ∀ b ∈ [parserOf "0.9", parserOf "0.10"],
            a.declaration.id.compare b.declaration.id = .eq →
              a.declaration.id = b.declaration.id := by decide
        intro a ha b hb _ _ htied
        exact huntied a ha b hb (ParserId.compare_eq_iff.mpr htied))
      [parserOf "0.10", parserOf "0.9"] _ _ (List.Perm.swap ..) rfl rfl).1

/-- Two versions of one parser that differ in a separator are listed as they were registered. -/
theorem registrationOrder_shows :
    ([parserOf "1.0", parserOf "1-0"].map (·.declaration.id)).Nodup ∧
    [parserOf "1-0", parserOf "1.0"].Perm [parserOf "1.0", parserOf "1-0"] ∧
    ∃ registry registry',
      ParserRegistry.ofParsers [parserOf "1.0", parserOf "1-0"] = .ok registry ∧
      ParserRegistry.ofParsers [parserOf "1-0", parserOf "1.0"] = .ok registry' ∧
      registry'.compatibleVersions ⟨[], 0, 0, ∅⟩ .consumerExport ≠
        registry.compatibleVersions ⟨[], 0, 0, ∅⟩ .consumerExport ∧
      registry'.select ⟨[], 0, 0, ∅⟩ .consumerExport ≠
        registry.select ⟨[], 0, 0, ∅⟩ .consumerExport := by
  refine ⟨by decide, List.Perm.swap .., _, _, rfl, rfl, ?_, ?_⟩
  · decide
  · decide

end ChatgptArchive
