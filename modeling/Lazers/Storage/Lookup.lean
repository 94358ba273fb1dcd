import Lazers.Storage.Termination

/-!
# Looking a name up

`find_in_directory` and `read_dir` go over a directory with the same three loops, written twice.
What they get to see of it are its `Contents`: the entries of its clusters up to the one that ends
it, or to the end of its chain. On these entries a search is `searchOf` and a listing is
`listingOf`, and both are about the entries in use (`liveEntries`).
-/

namespace Lazers.Storage

/-! ## The entries in use -/

/-- **The entries in use**, up to the end entry if there is one. -/
def liveEntries (entries : List (List UInt8)) : List (List UInt8) :=
  (entries.takeWhile fun entry => !isEndEntry entry).filter fun entry => !isHiddenEntry entry

/-- What the 32 bytes of an entry say about its file. -/
def fileOf (entry : List UInt8) : FatDirectoryEntry where
  firstCluster := (readLeU16 entry 20 <<< 16) ||| readLeU16 entry 26
  size := readLeU32 entry 28
  isDirectory := (entry.getD 11 0).toNat &&& fatAttributeDirectory ≠ 0

/-- **The first entry in use with the name.** -/
def firstNamed (shortName : List UInt8) (entries : List (List UInt8)) :
    Option FatDirectoryEntry :=
  ((liveEntries entries).find? fun entry => entry.take 11 = shortName).map fileOf

/-- What the loops of `find_in_directory` make of some entries. -/
def searchOf (shortName : List UInt8) (entries : List (List UInt8)) : Fat32.Scan :=
  match firstNamed shortName entries with
  | some entry => .found entry
  | none => if entries.any isEndEntry then .ended else .next

section

variable {shortName entry : List UInt8} {entries : List (List UInt8)}

theorem liveEntries_cons_of_end (h : isEndEntry entry = true) :
    liveEntries (entry :: entries) = [] := by
  simp [liveEntries, h]

theorem liveEntries_cons_of_hidden (hend : isEndEntry entry = false)
    (h : isHiddenEntry entry = true) : liveEntries (entry :: entries) = liveEntries entries := by
  simp [liveEntries, hend, h]

theorem liveEntries_cons (hend : isEndEntry entry = false) (h : isHiddenEntry entry = false) :
    liveEntries (entry :: entries) = entry :: liveEntries entries := by
  simp [liveEntries, hend, h]

theorem searchOf_cons_of_end (h : isEndEntry entry = true) :
    searchOf shortName (entry :: entries) = .ended := by
  simp [searchOf, firstNamed, liveEntries_cons_of_end h, h]

theorem searchOf_cons_of_match (hend : isEndEntry entry = false)
    (hlive : isHiddenEntry entry = false) (h : entry.take 11 = shortName) :
    searchOf shortName (entry :: entries) = .found (fileOf entry) := by
  simp [searchOf, firstNamed, liveEntries_cons hend hlive, h]

theorem searchOf_cons_of_passedOver (h : PassedOver shortName entry) :
    searchOf shortName (entry :: entries) = searchOf shortName entries := by
  obtain ⟨hend, hpast⟩ := h
  have hfirst : firstNamed shortName (entry :: entries) = firstNamed shortName entries := by
    cases hhidden : isHiddenEntry entry with
    | true => rw [firstNamed, firstNamed, liveEntries_cons_of_hidden hend hhidden]
    | false =>
      have hother : entry.take 11 ≠ shortName := hpast.resolve_left (by rw [hhidden]; simp)
      rw [firstNamed, firstNamed, liveEntries_cons hend hhidden, List.find?_cons_of_neg (by simpa)]
  rw [searchOf, searchOf, hfirst, List.any_cons, hend, Bool.false_or]

/-- An entry ends a search, is what it is for, or is passed over. -/
theorem entry_cases (shortName entry : List UInt8) :
    isEndEntry entry = true ∨
      (isEndEntry entry = false ∧ isHiddenEntry entry = false ∧ entry.take 11 = shortName) ∨
      PassedOver shortName entry := by
  cases hend : isEndEntry entry with
  | true => exact .inl rfl
  | false =>
    refine .inr ?_
    cases hhidden : isHiddenEntry entry with
    | true => exact .inr ⟨hend, .inl hhidden⟩
    | false =>
      by_cases hname : entry.take 11 = shortName
      · exact .inl ⟨rfl, rfl, hname⟩
      · exact .inr ⟨hend, .inr hname⟩

/-- **One part after the other.** -/
theorem searchOf_append (entries' : List (List UInt8)) :
    searchOf shortName (entries ++ entries') =
      match searchOf shortName entries with
      | .next => searchOf shortName entries'
      | stop => stop := by
  induction entries with
  | nil => rfl
  | cons entry rest ih =>
    rw [List.cons_append]
    obtain hend | ⟨hend, hlive, hname⟩ | hpast := entry_cases shortName entry
    · rw [searchOf_cons_of_end hend, searchOf_cons_of_end hend]
    · rw [searchOf_cons_of_match hend hlive hname, searchOf_cons_of_match hend hlive hname]
    · rw [searchOf_cons_of_passedOver hpast, searchOf_cons_of_passedOver hpast, ih]

/-- A search goes on only if no entry ends the directory. -/
theorem any_isEndEntry_of_searchOf (h : searchOf shortName entries = .next) :
    entries.any isEndEntry = false := by
  rw [searchOf] at h
  split at h
  · cases h
  · split_ifs at h with hend
    simpa using hend

end

namespace Fat32

/-! ## Sectors and clusters -/

/-- The loop of `find_in_directory` over a sector. -/
theorem findInSector_eq (shortName : List UInt8) (sector : Sector) (rounds offset : Nat) :
    findInSector shortName sector rounds offset =
      searchOf shortName (entriesFrom sector rounds offset) := by
  induction rounds generalizing offset with
  | zero => rfl
  | succ rounds ih =>
    rw [findInSector, entriesFrom]
    generalize (sector.toList.drop offset).take fatDirectoryEntrySize = entry
    obtain hend | ⟨hend, hlive, hname⟩ | ⟨hend, hpast⟩ := entry_cases shortName entry
    · rw [searchOf_cons_of_end hend, if_pos (of_decide_eq_true hend)]
    · rw [searchOf_cons_of_match hend hlive hname, if_neg (of_decide_eq_false hend)]
      simp only [isHiddenEntry, decide_eq_false_iff_not, not_or] at hlive
      rw [if_neg hlive.1, if_neg (by tauto), if_pos hname]
      rfl
    · rw [searchOf_cons_of_passedOver ⟨hend, hpast⟩, if_neg (of_decide_eq_false hend), ← ih]
      simp only [isHiddenEntry, decide_eq_true_eq] at hpast
      split_ifs <;> first | rfl | (exfalso; tauto)

variable (fs : Fat32)

/-- The search of a cluster of which the first sectors can be read, if these are all or if the
directory ends in them. -/
theorem outcome_findInCluster_eq (shortName : List UInt8) {clusterLba m rounds sectorIndex : Nat}
    {entries : List (List UInt8)} (hm : m ≤ rounds)
    (hentries : fs.sectorEntries clusterLba m sectorIndex = .ok entries)
    (hwhole : m = rounds ∨ entries.any isEndEntry = true) :
    outcome (fs.findInCluster shortName clusterLba rounds sectorIndex) =
      match searchOf shortName entries with
      | .found entry => .ok (some entry)
      | .ended => .error (.storage .fileNotFound)
      | .next => .ok none := by
  induction m generalizing rounds sectorIndex entries with
  | zero =>
    cases hentries
    obtain rfl | hend := hwhole
    · rfl
    · cases hend
  | succ m ih =>
    obtain ⟨sector, rest, hsector, hrest, rfl⟩ := fs.sectorEntries_succ_eq_ok.mp hentries
    obtain ⟨rounds, rfl⟩ : ∃ n, rounds = n + 1 := ⟨rounds - 1, by omega⟩
    rw [outcome_findInCluster_succ, hsector, searchOf_append]
    dsimp only
    rw [findInSector_eq, ← entriesOf]
    cases hsearch : searchOf shortName (entriesOf sector) with
    | found _ => rfl
    | ended => rfl
    | next =>
      refine ih (by omega) hrest ?_
      rw [List.any_append, any_isEndEntry_of_searchOf hsearch, Bool.false_or] at hwhole
      exact hwhole.imp_left Nat.succ.inj

/-- A listing that ends in a cluster has read the sectors up to the end entry. -/
theorem entries_of_outcome_listCluster {capacity clusterLba rounds sectorIndex : Nat}
    {written names : List UInt8} (hroom : written.length ≤ capacity)
    (h : outcome (fs.listCluster capacity clusterLba rounds sectorIndex written) =
      .ok (.ended names)) :
    ∃ m ≤ rounds, ∃ entries, fs.sectorEntries clusterLba m sectorIndex = .ok entries ∧
      listingOf capacity entries written = .ended names := by
  induction rounds generalizing sectorIndex written with
  | zero => cases h
  | succ rounds ih =>
    rw [outcome_listCluster_succ fs _ _ _ _ hroom] at h
    cases hsector : fs.device.sector (wrap64 (clusterLba + sectorIndex)) with
    | error e =>
      rw [hsector] at h
      cases h
    | ok sector =>
      rw [hsector] at h
      dsimp only at h
      cases hlisting : listingOf capacity (entriesOf sector) written with
      | tooSmall =>
        rw [hlisting] at h
        cases h
      | ended names' =>
        rw [hlisting] at h
        cases h
        refine ⟨1, by omega, entriesOf sector ++ [],
          fs.sectorEntries_succ_eq_ok.mpr ⟨sector, [], hsector, rfl, rfl⟩, ?_⟩
        rw [List.append_nil, hlisting]
      | next written' =>
        rw [hlisting] at h
        obtain ⟨m, hm, rest, hrest, hended⟩ := ih (length_le_of_listingOf hlisting) h
        refine ⟨m + 1, by omega, _,
          fs.sectorEntries_succ_eq_ok.mpr ⟨sector, rest, hsector, hrest, rfl⟩, ?_⟩
        rw [listingOf_append rest hroom, hlisting]
        exact hended

/-! ## Directories -/

/-- **What a scan gets to see of a directory**: the entries of cluster after cluster, up to a
sector that ends it, or to the end of the chain. -/
inductive Contents : (start : Nat) → (entries : List (List UInt8)) → Prop where
  | ended {cluster clusterLba m : Nat} {entries : List (List UInt8)}
      (hlba : fs.clusterToLba cluster = .ok clusterLba) (hm : m ≤ fs.sectorsPerCluster)
      (hentries : fs.sectorEntries clusterLba m 0 = .ok entries)
      (hend : entries.any isEndEntry = true) : Contents cluster entries
  | last {cluster : Nat} {entries : List (List UInt8)} (h : fs.IsLast cluster)
      (hentries : fs.clusterEntries cluster = .ok entries) : Contents cluster entries
  | link {cluster next : Nat} {entries rest : List (List UInt8)} (h : fs.Link cluster next)
      (hentries : fs.clusterEntries cluster = .ok entries) (hrest : Contents next rest) :
      Contents cluster (entries ++ rest)

/-- A directory with a complete, readable chain has contents: what is in the chain. -/
theorem contents_of_chain {start : Nat} {clusters : List Nat} {entries : List (List UInt8)}
    (hchain : fs.Chain start clusters) (hentries : fs.chainEntries clusters = .ok entries) :
    fs.Contents start entries := by
  induction hchain generalizing entries with
  | last h =>
    obtain ⟨first, others, hfirst, hothers, rfl⟩ := fs.chainEntries_cons_eq_ok.mp hentries
    cases hothers
    rw [List.append_nil]
    exact .last h hfirst
  | link h _ ih =>
    obtain ⟨first, others, hfirst, hothers, rfl⟩ := fs.chainEntries_cons_eq_ok.mp hentries
    exact .link h hfirst (ih hothers)

/-- What a search of a directory returns. -/
def searchResult : Scan → Except Stop FatDirectoryEntry
  | .found entry => .ok entry
  | .ended | .next => .error (.storage .fileNotFound)

/-- **The search of a directory.** -/
theorem outcome_findInChain_of_contents (shortName : List UInt8) {start : Nat}
    {entries : List (List UInt8)} (h : fs.Contents start entries) :
    ∃ enough, ∀ fuel, enough ≤ fuel →
      outcome (fs.findInChain shortName fuel start) =
        searchResult (searchOf shortName entries) := by
  induction h with
  | ended hlba hm hentries hend =>
    refine ⟨1, fun fuel hfuel => ?_⟩
    obtain ⟨fuel, rfl⟩ : ∃ n, fuel = n + 1 := ⟨fuel - 1, by omega⟩
    rw [outcome_findInChain_succ, hlba]
    dsimp only
    rw [fs.outcome_findInCluster_eq shortName hm hentries (.inr hend)]
    cases hsearch : searchOf shortName _ with
    | found _ => rfl
    | ended => rfl
    | next =>
      rw [any_isEndEntry_of_searchOf hsearch] at hend
      cases hend
  | last h hentries =>
    obtain ⟨clusterLba, hlba, hsectors⟩ := fs.clusterEntries_eq_ok.mp hentries
    refine ⟨1, fun fuel hfuel => ?_⟩
    obtain ⟨fuel, rfl⟩ : ∃ n, fuel = n + 1 := ⟨fuel - 1, by omega⟩
    rw [outcome_findInChain_succ, hlba]
    dsimp only
    rw [fs.outcome_findInCluster_eq shortName (Nat.le_refl _) hsectors (.inl rfl),
      fs.outcome_nextCluster_of_isLast h]
    cases searchOf shortName _ with
    | found _ => rfl
    | ended => rfl
    | next => rfl
  | link h hentries _ ih =>
    obtain ⟨clusterLba, hlba, hsectors⟩ := fs.clusterEntries_eq_ok.mp hentries
    obtain ⟨enough, hrest⟩ := ih
    refine ⟨enough + 1, fun fuel hfuel => ?_⟩
    obtain ⟨fuel, rfl⟩ : ∃ n, fuel = n + 1 := ⟨fuel - 1, by omega⟩
    rw [outcome_findInChain_succ, hlba, searchOf_append]
    dsimp only
    rw [fs.outcome_findInCluster_eq shortName (Nat.le_refl _) hsectors (.inl rfl),
      fs.outcome_nextCluster_eq_ok.mpr h]
    cases searchOf shortName _ with
    | found _ => rfl
    | ended => rfl
    | next => exact hrest fuel (by omega)

theorem searchResult_searchOf (shortName : List UInt8) (entries : List (List UInt8)) :
    searchResult (searchOf shortName entries) =
      match firstNamed shortName entries with
      | some entry => .ok entry
      | none => .error (.storage .fileNotFound) := by
  rw [searchOf]
  cases firstNamed shortName entries with
  | some _ => rfl
  | none =>
    dsimp only
    split_ifs
    · rfl
    · rfl

/-- **Looking a component up** returns the first entry in use with its name. -/
theorem outcome_findInDirectory_of_contents {start : Nat} {entries : List (List UInt8)}
    (hcontents : fs.Contents start entries) {c : String} {e : Vector UInt8 11}
    (hc : makeShortName c = .ok e) :
    ∃ enough, ∀ fuel, enough ≤ fuel →
      outcome (fs.findInDirectory fuel start c) =
        match firstNamed e.toList entries with
        | some entry => .ok entry
        | none => .error (.storage .fileNotFound) := by
  obtain ⟨enough, hsearch⟩ := fs.outcome_findInChain_of_contents e.toList hcontents
  refine ⟨enough, fun fuel hfuel => ?_⟩
  rw [findInDirectory, outcome_liftResult_bind, hc]
  exact (hsearch fuel hfuel).trans (searchResult_searchOf _ _)

end Fat32

end Lazers.Storage
