import Lazers.Storage.Reads

/-!
# Directories on disk

A directory is a chain of clusters, a cluster a run of sectors, a sector sixteen
entries. The loops of `find_in_directory` and `read_dir` walk the three levels; here
the contents are flattened into one list of entries (`chainEntries`) and the loops are
described by what they do on it (`listingOf`, `PassedOver`).

`read_dir_lists_iff`: a directory is listed exactly when one of its entries is the end
entry. One that fills its last cluster is reported as missing.
-/

namespace Lazers.Storage

/-! ## Entries -/

/-- The entries of a sector from an offset on. -/
def entriesFrom (sector : Sector) : (rounds entryOffset : Nat) → List (List UInt8)
  | 0, _ => []
  | rounds + 1, entryOffset =>
    (sector.toList.drop entryOffset).take fatDirectoryEntrySize ::
      entriesFrom sector rounds (entryOffset + fatDirectoryEntrySize)

/-- **The entries of a sector.** -/
def entriesOf (sector : Sector) : List (List UInt8) :=
  entriesFrom sector (sectorSize / fatDirectoryEntrySize) 0

/-- The entry that ends a directory. -/
def isEndEntry (entry : List UInt8) : Bool := entry.getD 0 0 = 0x00

/-- A deleted entry, a piece of a long name, or a volume label. -/
def isHiddenEntry (entry : List UInt8) : Bool :=
  entry.getD 0 0 = 0xe5 ∨ (entry.getD 11 0).toNat = fatAttributeLongName ∨
    (entry.getD 11 0).toNat &&& fatAttributeVolumeId ≠ 0

/-- A search for a name goes past the entry. -/
def PassedOver (shortName entry : List UInt8) : Prop :=
  isEndEntry entry = false ∧ (isHiddenEntry entry = true ∨ entry.take 11 ≠ shortName)

/-- The line of a listing for one entry. -/
def listedName (entry : List UInt8) : List UInt8 :=
  if isHiddenEntry entry ∨ isDotEntry (displayShortName (entry.take 11)) then []
  else displayShortName (entry.take 11) ++ [10]

/-- **The listing of a directory**: the names of its entries, up to the end entry if there is
one. -/
def listing (entries : List (List UInt8)) : List UInt8 :=
  (entries.takeWhile fun entry => !isEndEntry entry).flatMap listedName

/-- What the loops of `read_dir` make of some entries. -/
def listingOf (capacity : Nat) (entries : List (List UInt8)) (written : List UInt8) :
    Fat32.Listing :=
  if (written ++ listing entries).length > capacity then .tooSmall
  else if entries.any isEndEntry then .ended (written ++ listing entries)
  else .next (written ++ listing entries)

section

variable {entry : List UInt8} {entries : List (List UInt8)} {written : List UInt8} {capacity : Nat}

theorem listing_cons_of_end (h : isEndEntry entry = true) : listing (entry :: entries) = [] := by
  simp [listing, h]

theorem listing_cons (h : isEndEntry entry = false) :
    listing (entry :: entries) = listedName entry ++ listing entries := by
  simp [listing, h]

theorem listingOf_cons (h : isEndEntry entry = false) :
    listingOf capacity (entry :: entries) written =
      listingOf capacity entries (written ++ listedName entry) := by
  rw [listingOf, listingOf, listing_cons h, ← List.append_assoc, List.any_cons, h, Bool.false_or]

theorem listingOf_cons_of_end (h : isEndEntry entry = true) (hroom : written.length ≤ capacity) :
    listingOf capacity (entry :: entries) written = .ended written := by
  rw [listingOf, listing_cons_of_end h, List.append_nil, if_neg (by omega), List.any_cons, h,
    Bool.true_or, if_pos rfl]

theorem listingOf_of_full (h : written.length > capacity) :
    listingOf capacity entries written = .tooSmall := by
  rw [listingOf, if_pos]
  rw [List.length_append]
  omega

theorem listingOf_nil (hroom : written.length ≤ capacity) :
    listingOf capacity [] written = .next written := by
  rw [listingOf, listing, List.takeWhile_nil, List.flatMap_nil, List.append_nil,
    if_neg (by omega)]
  rfl

theorem length_le_of_listingOf {written' : List UInt8}
    (h : listingOf capacity entries written = .next written') : written'.length ≤ capacity := by
  rw [listingOf] at h
  split_ifs at h with hfull hend
  cases h
  omega

/-- **One part after the other.** -/
theorem listingOf_append (entries' : List (List UInt8)) (hroom : written.length ≤ capacity) :
    listingOf capacity (entries ++ entries') written =
      match listingOf capacity entries written with
      | .next written => listingOf capacity entries' written
      | stop => stop := by
  induction entries generalizing written with
  | nil => rw [List.nil_append, listingOf_nil hroom]
  | cons entry rest ih =>
    rw [List.cons_append]
    cases hend : isEndEntry entry with
    | true => rw [listingOf_cons_of_end hend hroom, listingOf_cons_of_end hend hroom]
    | false =>
      rw [listingOf_cons hend, listingOf_cons hend]
      by_cases hfull : (written ++ listedName entry).length > capacity
      · rw [listingOf_of_full hfull, listingOf_of_full hfull]
      · exact ih (by omega)

end

namespace Fat32

/-! ## Sectors -/

/-- The loop of `find_in_directory` over a sector. -/
theorem findInSector_eq_next_iff (shortName : List UInt8) (sector : Sector) (rounds offset : Nat) :
    findInSector shortName sector rounds offset = .next ↔
      ∀ entry ∈ entriesFrom sector rounds offset, PassedOver shortName entry := by
  induction rounds generalizing offset with
  | zero => simp [findInSector, entriesFrom]
  | succ rounds ih =>
    rw [findInSector, entriesFrom, List.forall_mem_cons, ← ih]
    generalize (sector.toList.drop offset).take fatDirectoryEntrySize = entry
    simp only [PassedOver, isEndEntry, isHiddenEntry]
    split_ifs <;> simp_all

/-- The loop of `read_dir` over a sector. -/
theorem listSector_eq (capacity : Nat) (sector : Sector) (rounds offset : Nat)
    {written : List UInt8} (hroom : written.length ≤ capacity) :
    listSector capacity sector rounds offset written =
      listingOf capacity (entriesFrom sector rounds offset) written := by
  induction rounds generalizing offset written with
  | zero => exact (listingOf_nil hroom).symm
  | succ rounds ih =>
    rw [listSector, entriesFrom]
    dsimp only
    generalize (sector.toList.drop offset).take fatDirectoryEntrySize = entry
    cases hend : isEndEntry entry with
    | true =>
      rw [listingOf_cons_of_end hend hroom, if_pos (of_decide_eq_true hend)]
    | false =>
      rw [listingOf_cons hend, if_neg (of_decide_eq_false hend)]
      -- The skip rules and the dot entries write nothing.
      by_cases hsilent : isHiddenEntry entry ∨ isDotEntry (displayShortName (entry.take 11))
      · rw [listedName, if_pos hsilent, List.append_nil, ← ih _ hroom]
        simp only [isHiddenEntry, decide_eq_true_eq] at hsilent
        split_ifs <;> first | rfl | (exfalso; tauto)
      · rw [listedName, if_neg hsilent]
        simp only [isHiddenEntry, decide_eq_true_eq, not_or] at hsilent
        rw [if_neg hsilent.1.1, if_neg (by tauto), if_neg hsilent.2]
        split_ifs with hfull
        · rw [listingOf_of_full]
          rw [List.length_append, List.length_append, List.length_singleton]
          exact hfull
        · rw [List.append_assoc, ih]
          rw [List.length_append, List.length_append, List.length_singleton]
          omega

/-! ## Clusters -/

variable (fs : Fat32)

/-- The entries in the sectors of a cluster, from the `sectorIndex`-th on. -/
def sectorEntries (clusterLba : Nat) : (rounds sectorIndex : Nat) →
    Except StorageError (List (List UInt8))
  | 0, _ => .ok []
  | rounds + 1, sectorIndex => do
    let sector ← fs.device.sector (wrap64 (clusterLba + sectorIndex))
    let rest ← sectorEntries clusterLba rounds (sectorIndex + 1)
    return entriesOf sector ++ rest

/-- **The entries of a cluster**, if it is in range and can be read. -/
def clusterEntries (cluster : Nat) : Except StorageError (List (List UInt8)) := do
  fs.sectorEntries (← fs.clusterToLba cluster) fs.sectorsPerCluster 0

theorem clusterEntries_eq_ok {cluster : Nat} {entries : List (List UInt8)} :
    fs.clusterEntries cluster = .ok entries ↔ ∃ clusterLba,
      fs.clusterToLba cluster = .ok clusterLba ∧
        fs.sectorEntries clusterLba fs.sectorsPerCluster 0 = .ok entries := by
  rw [clusterEntries]
  cases fs.clusterToLba cluster with
  | error e => simp [bind, Except.bind]
  | ok clusterLba => simp [bind, Except.bind]

theorem sectorEntries_succ_eq_ok {clusterLba rounds sectorIndex : Nat}
    {entries : List (List UInt8)} :
    fs.sectorEntries clusterLba (rounds + 1) sectorIndex = .ok entries ↔ ∃ sector rest,
      fs.device.sector (wrap64 (clusterLba + sectorIndex)) = .ok sector ∧
        fs.sectorEntries clusterLba rounds (sectorIndex + 1) = .ok rest ∧
          entries = entriesOf sector ++ rest := by
  rw [sectorEntries]
  cases fs.device.sector (wrap64 (clusterLba + sectorIndex)) with
  | error e => simp [bind, Except.bind]
  | ok sector =>
    cases fs.sectorEntries clusterLba rounds (sectorIndex + 1) with
    | error e => simp [bind, Except.bind]
    | ok rest => simp [bind, Except.bind, pure, Except.pure, eq_comm]

theorem outcome_findInCluster_succ (shortName : List UInt8)
    (clusterLba rounds sectorIndex : Nat) :
    outcome (fs.findInCluster shortName clusterLba (rounds + 1) sectorIndex) =
      match fs.device.sector (wrap64 (clusterLba + sectorIndex)) with
      | .ok sector =>
        match findInSector shortName sector (sectorSize / fatDirectoryEntrySize) 0 with
        | .found entry => .ok (some entry)
        | .ended => .error (.storage .fileNotFound)
        | .next => outcome (fs.findInCluster shortName clusterLba rounds (sectorIndex + 1))
      | .error e => .error (.storage e) := by
  rw [findInCluster, outcome_readSector_bind]
  · cases fs.device.sector (wrap64 (clusterLba + sectorIndex)) with
    | error e => rfl
    | ok sector =>
      dsimp only
      cases findInSector shortName sector (sectorSize / fatDirectoryEntrySize) 0 with
      | found entry => rfl
      | ended => rfl
      | next => rfl
  · intro sector
    split
    · exact .value _
    · exact .failure _
    · exact fs.determined_findInCluster _ _ _ _

/-- A search comes through a cluster when it passes over all its entries. -/
theorem outcome_findInCluster_eq_none (shortName : List UInt8)
    (clusterLba rounds sectorIndex : Nat) :
    outcome (fs.findInCluster shortName clusterLba rounds sectorIndex) = .ok none ↔
      ∃ entries, fs.sectorEntries clusterLba rounds sectorIndex = .ok entries ∧
        ∀ entry ∈ entries, PassedOver shortName entry := by
  induction rounds generalizing sectorIndex with
  | zero => simp [findInCluster, sectorEntries]
  | succ rounds ih =>
    rw [outcome_findInCluster_succ]
    simp only [sectorEntries_succ_eq_ok]
    cases fs.device.sector (wrap64 (clusterLba + sectorIndex)) with
    | error e => simp
    | ok sector =>
      have hscan := findInSector_eq_next_iff shortName sector
        (sectorSize / fatDirectoryEntrySize) 0
      dsimp only
      cases hfound : findInSector shortName sector (sectorSize / fatDirectoryEntrySize) 0 with
      | next =>
        rw [hfound] at hscan
        have hpassed := hscan.mp rfl
        rw [ih]
        constructor
        · rintro ⟨rest, hrest, hall⟩
          refine ⟨_, ⟨sector, rest, rfl, hrest, rfl⟩, fun entry hentry => ?_⟩
          obtain hhere | hthere := List.mem_append.mp hentry
          · exact hpassed entry hhere
          · exact hall entry hthere
        · rintro ⟨_, ⟨_, rest, hsector, hrest, rfl⟩, hall⟩
          exact ⟨rest, hrest, fun entry hentry => hall entry (List.mem_append_right _ hentry)⟩
      | found _ | ended =>
        -- Some entry of this sector is not passed over.
        refine ⟨fun h => (by cases h), ?_⟩
        rintro ⟨_, ⟨_, rest, hsector, -, rfl⟩, hall⟩
        cases hsector
        have hnext := hscan.mpr fun entry hentry => hall entry (List.mem_append_left _ hentry)
        rw [hfound] at hnext
        cases hnext

theorem outcome_findInCluster_ne (shortName : List UInt8) (clusterLba rounds sectorIndex : Nat) :
    outcome (fs.findInCluster shortName clusterLba rounds sectorIndex) ≠ .error .outOfFuel := by
  induction rounds generalizing sectorIndex with
  | zero => exact fun h => by cases h
  | succ rounds ih =>
    rw [outcome_findInCluster_succ]
    split
    · split
      · exact fun h => by cases h
      · exact fun h => by cases h
      · exact ih _
    · exact fun h => by cases h

theorem outcome_listCluster_succ (capacity clusterLba rounds sectorIndex : Nat)
    {written : List UInt8} (hroom : written.length ≤ capacity) :
    outcome (fs.listCluster capacity clusterLba (rounds + 1) sectorIndex written) =
      match fs.device.sector (wrap64 (clusterLba + sectorIndex)) with
      | .ok sector =>
        match listingOf capacity (entriesOf sector) written with
        | .next written =>
          outcome (fs.listCluster capacity clusterLba rounds (sectorIndex + 1) written)
        | stop => .ok stop
      | .error e => .error (.storage e) := by
  rw [listCluster, outcome_readSector_bind]
  · cases fs.device.sector (wrap64 (clusterLba + sectorIndex)) with
    | error e => rfl
    | ok sector =>
      dsimp only
      rw [listSector_eq capacity sector _ _ hroom, ← entriesOf]
      cases listingOf capacity (entriesOf sector) written with
      | ended _ => rfl
      | tooSmall => rfl
      | next _ => rfl
  · intro sector
    split
    · exact fs.determined_listCluster _ _ _ _ _
    · exact .value _

/-- The listing of a cluster that can be read. -/
theorem outcome_listCluster_eq {capacity clusterLba rounds sectorIndex : Nat}
    {written : List UInt8} {entries : List (List UInt8)} (hroom : written.length ≤ capacity)
    (hentries : fs.sectorEntries clusterLba rounds sectorIndex = .ok entries) :
    outcome (fs.listCluster capacity clusterLba rounds sectorIndex written) =
      .ok (listingOf capacity entries written) := by
  induction rounds generalizing sectorIndex written entries with
  | zero =>
    cases hentries
    rw [listingOf_nil hroom]
    rfl
  | succ rounds ih =>
    obtain ⟨sector, rest, hsector, hrest, rfl⟩ := fs.sectorEntries_succ_eq_ok.mp hentries
    rw [outcome_listCluster_succ fs _ _ _ _ hroom, hsector, listingOf_append rest hroom]
    dsimp only
    cases hlisting : listingOf capacity (entriesOf sector) written with
    | ended _ => rfl
    | tooSmall => rfl
    | next written' => exact ih (length_le_of_listingOf hlisting) hrest

/-- The listing goes on past a cluster only if all of it was read. -/
theorem outcome_listCluster_eq_next {capacity : Nat} (clusterLba rounds sectorIndex : Nat)
    {written written' : List UInt8} (hroom : written.length ≤ capacity) :
    outcome (fs.listCluster capacity clusterLba rounds sectorIndex written) =
        .ok (.next written') ↔
      ∃ entries, fs.sectorEntries clusterLba rounds sectorIndex = .ok entries ∧
        listingOf capacity entries written = .next written' := by
  constructor
  · intro h
    induction rounds generalizing sectorIndex written with
    | zero =>
      cases h
      exact ⟨[], rfl, listingOf_nil hroom⟩
    | succ rounds ih =>
      rw [outcome_listCluster_succ fs _ _ _ _ hroom] at h
      cases hsector : fs.device.sector (wrap64 (clusterLba + sectorIndex)) with
      | error e =>
        rw [hsector] at h
        cases h
      | ok sector =>
        rw [hsector] at h
        dsimp only at h
        cases hlisting : listingOf capacity (entriesOf sector) written with
        | ended _ =>
          rw [hlisting] at h
          cases h
        | tooSmall =>
          rw [hlisting] at h
          cases h
        | next written₁ =>
          rw [hlisting] at h
          obtain ⟨rest, hrest, hnext⟩ := ih _ (length_le_of_listingOf hlisting) h
          refine ⟨_, fs.sectorEntries_succ_eq_ok.mpr ⟨sector, rest, hsector, hrest, rfl⟩, ?_⟩
          rw [listingOf_append rest hroom, hlisting]
          exact hnext
  · rintro ⟨entries, hentries, hnext⟩
    rw [fs.outcome_listCluster_eq hroom hentries, hnext]

theorem outcome_listCluster_ne {capacity : Nat} (clusterLba rounds sectorIndex : Nat)
    {written : List UInt8} (hroom : written.length ≤ capacity) :
    outcome (fs.listCluster capacity clusterLba rounds sectorIndex written) ≠
      .error .outOfFuel := by
  induction rounds generalizing sectorIndex written with
  | zero => exact fun h => by cases h
  | succ rounds ih =>
    rw [outcome_listCluster_succ fs _ _ _ _ hroom]
    split
    · split
      · exact ih _ (length_le_of_listingOf ‹_›)
      · exact fun h => by cases h
    · exact fun h => by cases h

/-! ## Chains -/

/-- The sector of the file allocation table with the entry of a cluster. -/
def fatSector (cluster : Nat) : Nat :=
  wrap64 (wrap64 (fs.partitionStartLba + fs.reservedSectorCount) + cluster * 4 / sectorSize)

/-- **The entry of a cluster in the file allocation table.** -/
def fatEntry (cluster : Nat) : Except StorageError Nat :=
  (fs.device.sector (fs.fatSector cluster)).map fun sector =>
    readLeU32 sector.toList (cluster * 4 % sectorSize) &&& 0x0fffffff

/-- A chain goes on from one cluster to another. -/
def Link (cluster next : Nat) : Prop :=
  fs.fatEntry cluster = .ok next ∧ 2 ≤ next ∧ next < fatEntryBadCluster

/-- A chain ends with the cluster. -/
def IsLast (cluster : Nat) : Prop :=
  ∃ mark, fs.fatEntry cluster = .ok mark ∧ fatEntryEndOfChain ≤ mark

/-- **A cluster chain**, from its first cluster to the end-of-chain mark. -/
inductive Chain : (start : Nat) → (clusters : List Nat) → Prop where
  | last {cluster : Nat} (h : fs.IsLast cluster) : Chain cluster [cluster]
  | link {cluster next : Nat} {rest : List Nat} (h : fs.Link cluster next)
      (hrest : Chain next rest) : Chain cluster (cluster :: rest)

theorem outcome_nextCluster (cluster : Nat) :
    outcome (fs.nextCluster cluster) = match fs.fatEntry cluster with
      | .error e => .error (.storage e)
      | .ok entry =>
        if entry = fatEntryBadCluster ∨ entry < 2 then .error (.storage .invalidFat32BootSector)
        else if entry ≥ fatEntryEndOfChain then .error (.storage .fileNotFound)
        else .ok entry := by
  have hdetermined : ∀ sector : Sector, Determined (
      let entry := readLeU32 sector.toList (cluster * 4 % sectorSize) &&& 0x0fffffff
      if entry = fatEntryBadCluster ∨ entry < 2 then throw (.storage .invalidFat32BootSector)
      else if entry ≥ fatEntryEndOfChain then throw (.storage .fileNotFound)
      else return entry : DiskM Nat) := by
    intro sector
    dsimp only
    split_ifs
    · exact .failure _
    · exact .failure _
    · exact .value _
  rw [nextCluster, fatEntry, fatSector]
  dsimp only
  rw [outcome_readSector_bind _ _ hdetermined]
  cases fs.device.sector _ with
  | error e => rfl
  | ok sector =>
    dsimp only [Except.map]
    split_ifs
    · rfl
    · rfl
    · rfl

theorem outcome_nextCluster_eq_ok {cluster next : Nat} :
    outcome (fs.nextCluster cluster) = .ok next ↔ fs.Link cluster next := by
  rw [outcome_nextCluster, Link]
  cases fs.fatEntry cluster with
  | error e => simp
  | ok entry =>
    dsimp only
    split_ifs with hbad hend
    · constructor
      · exact fun h => by cases h
      · rintro ⟨h, hlow, hhigh⟩
        cases h
        omega
    · constructor
      · exact fun h => by cases h
      · rintro ⟨h, hlow, hhigh⟩
        cases h
        rw [fatEntryBadCluster, fatEntryEndOfChain] at *
        omega
    · constructor
      · intro h
        cases h
        rw [fatEntryBadCluster, fatEntryEndOfChain] at *
        exact ⟨rfl, by omega, by omega⟩
      · rintro ⟨h, -⟩
        cases h
        rfl

theorem outcome_nextCluster_of_isLast {cluster : Nat} (h : fs.IsLast cluster) :
    outcome (fs.nextCluster cluster) = .error (.storage .fileNotFound) := by
  obtain ⟨mark, hmark, hend⟩ := h
  have hbad : ¬ (mark = fatEntryBadCluster ∨ mark < 2) := by
    rw [fatEntryEndOfChain] at hend
    rw [fatEntryBadCluster]
    omega
  rw [outcome_nextCluster, hmark]
  dsimp only
  rw [if_neg hbad, if_pos hend]

theorem outcome_nextCluster_ne (cluster : Nat) :
    outcome (fs.nextCluster cluster) ≠ .error .outOfFuel := by
  rw [outcome_nextCluster]
  split
  · exact fun h => by cases h
  · split_ifs
    · exact fun h => by cases h
    · exact fun h => by cases h
    · exact fun h => by cases h

theorem outcome_listChain_succ (capacity fuel cluster : Nat) (written : List UInt8) :
    outcome (fs.listChain capacity (fuel + 1) cluster written) =
      match fs.clusterToLba cluster with
      | .error e => .error (.storage e)
      | .ok clusterLba =>
        outcome (fs.listCluster capacity clusterLba fs.sectorsPerCluster 0 written) >>= fun
          | .ended written => .ok written
          | .tooSmall => .error (.storage .bufferTooSmall)
          | .next written => outcome (fs.nextCluster cluster) >>= fun next =>
            outcome (fs.listChain capacity fuel next written) := by
  rw [listChain, outcome_liftResult_bind]
  cases fs.clusterToLba cluster with
  | error e => rfl
  | ok clusterLba =>
    dsimp only
    rw [outcome_bind (fs.determined_listCluster _ _ _ _ _)]
    · congr 1
      funext result
      cases result with
      | ended _ => rfl
      | tooSmall => rfl
      | next _ => exact outcome_bind (fs.determined_nextCluster _) fun _ =>
          fs.determined_listChain _ _ _ _
    · intro result
      cases result with
      | ended _ => exact .value _
      | tooSmall => exact .failure _
      | next _ => exact (fs.determined_nextCluster _).bind fun _ => fs.determined_listChain _ _ _ _

/-- One cluster of a listing. -/
theorem outcome_listChain_of_entries {capacity cluster : Nat} {written : List UInt8}
    {entries : List (List UInt8)} (hroom : written.length ≤ capacity)
    (hentries : fs.clusterEntries cluster = .ok entries) (fuel : Nat) :
    outcome (fs.listChain capacity (fuel + 1) cluster written) =
      match listingOf capacity entries written with
      | .ended written => .ok written
      | .tooSmall => .error (.storage .bufferTooSmall)
      | .next written => outcome (fs.nextCluster cluster) >>= fun next =>
        outcome (fs.listChain capacity fuel next written) := by
  obtain ⟨clusterLba, hlba, hsectors⟩ := fs.clusterEntries_eq_ok.mp hentries
  rw [outcome_listChain_succ, hlba]
  dsimp only
  rw [fs.outcome_listCluster_eq hroom hsectors]
  cases listingOf capacity entries written with
  | ended _ => rfl
  | tooSmall => rfl
  | next _ => rfl

/-- **The entries of a directory**, cluster after cluster. -/
def chainEntries : (clusters : List Nat) → Except StorageError (List (List UInt8))
  | [] => .ok []
  | cluster :: rest => do
    let entries ← fs.clusterEntries cluster
    let others ← chainEntries rest
    return entries ++ others

theorem chainEntries_cons_eq_ok {cluster : Nat} {rest : List Nat} {entries : List (List UInt8)} :
    fs.chainEntries (cluster :: rest) = .ok entries ↔ ∃ first others,
      fs.clusterEntries cluster = .ok first ∧ fs.chainEntries rest = .ok others ∧
        entries = first ++ others := by
  rw [chainEntries]
  cases fs.clusterEntries cluster with
  | error e => simp [bind, Except.bind]
  | ok first =>
    cases fs.chainEntries rest with
    | error e => simp [bind, Except.bind]
    | ok others => simp [bind, Except.bind, pure, Except.pure, eq_comm]

/-- **The listing of a chain.** Running past its last cluster is reported as a missing file. -/
theorem outcome_listChain_of_chain {capacity start fuel : Nat} {clusters : List Nat}
    {entries : List (List UInt8)} {written : List UInt8} (hchain : fs.Chain start clusters)
    (hentries : fs.chainEntries clusters = .ok entries) (hroom : written.length ≤ capacity)
    (hfuel : clusters.length ≤ fuel) :
    outcome (fs.listChain capacity fuel start written) =
      match listingOf capacity entries written with
      | .ended written => .ok written
      | .tooSmall => .error (.storage .bufferTooSmall)
      | .next _ => .error (.storage .fileNotFound) := by
  induction hchain generalizing fuel entries written with
  | last h =>
    obtain ⟨first, others, hfirst, hothers, rfl⟩ := fs.chainEntries_cons_eq_ok.mp hentries
    cases hothers
    obtain ⟨fuel, rfl⟩ := Nat.exists_eq_add_of_le' hfuel
    rw [List.append_nil, List.length_singleton, fs.outcome_listChain_of_entries hroom hfirst,
      fs.outcome_nextCluster_of_isLast h]
    rfl
  | link h hrest ih =>
    obtain ⟨first, others, hfirst, hothers, rfl⟩ := fs.chainEntries_cons_eq_ok.mp hentries
    rw [List.length_cons] at hfuel
    obtain ⟨fuel, rfl⟩ : ∃ n, fuel = n + 1 := ⟨fuel - 1, by omega⟩
    rw [fs.outcome_listChain_of_entries hroom hfirst, listingOf_append others hroom,
      fs.outcome_nextCluster_eq_ok.mpr h]
    cases hlisting : listingOf capacity first written with
    | ended _ => rfl
    | tooSmall => rfl
    | next written' => exact ih hothers (length_le_of_listingOf hlisting) (by omega)

/-! ## `read_dir` -/

/-- The components of a path. -/
def pathComponents (path : String) : List String := (split path '/').filter (· ≠ "")

theorem resolveAbsolute_eq (fuel : Nat) (path : String) :
    fs.resolveAbsolute fuel path =
      if startsWith path '/' = false then throw (.storage .pathNotAbsolute)
      else if pathComponents path = [] then return .rootDirectory
      else fs.resolveFrom fuel (pathComponents path) fs.rootCluster := by
  rw [resolveAbsolute, ← pathComponents]
  cases pathComponents path with
  | nil => rfl
  | cons component rest => rfl

/-- The path names a directory that starts at the cluster. -/
def Opens (path : String) (start : Nat) : Prop :=
  ∃ fuel resolved, outcome (fs.resolveAbsolute fuel path) = .ok resolved ∧
    fs.directoryCluster resolved = .ok start

theorem listChain_prolongs (capacity : Nat) {fuel fuel' : Nat} (h : fuel ≤ fuel') (cluster : Nat)
    (written : List UInt8) : EStateM.Prolongs Stop.outOfFuel
      (fs.listChain capacity fuel cluster written)
      (fs.listChain capacity fuel' cluster written) := by
  induction fuel generalizing fuel' cluster written with
  | zero => exact fun log => .inr ⟨log, rfl⟩
  | succ fuel ih =>
    obtain ⟨fuel', rfl⟩ : ∃ n, fuel' = n + 1 := ⟨fuel' - 1, by omega⟩
    refine (EStateM.Prolongs.refl _).bind fun clusterLba => ?_
    refine (EStateM.Prolongs.refl _).bind fun result => ?_
    cases result with
    | ended _ => exact .refl _
    | tooSmall => exact .refl _
    | next _ => exact (EStateM.Prolongs.refl _).bind fun next => ih (by omega) next _

theorem readDir_prolongs {fuel fuel' : Nat} (h : fuel ≤ fuel') (path : String) (capacity : Nat) :
    EStateM.Prolongs Stop.outOfFuel (fs.readDir fuel path capacity)
      (fs.readDir fuel' path capacity) :=
  (fs.resolveAbsolute_prolongs h path).bind fun _ =>
    (EStateM.Prolongs.refl _).bind fun start => fs.listChain_prolongs capacity h start []

/-- `read_dir` of a path that names a directory. -/
theorem outcome_readDir_of_opens {path : String} {start : Nat} (h : fs.Opens path start)
    (capacity : Nat) : ∃ fuel, ∀ fuel', fuel ≤ fuel' →
      outcome (fs.readDir fuel' path capacity) =
        outcome (fs.listChain capacity fuel' start []) := by
  obtain ⟨fuel, resolved, hresolved, hstart⟩ := h
  refine ⟨fuel, fun fuel' hle => ?_⟩
  have hmore : outcome (fs.resolveAbsolute fuel' path) = .ok resolved := by
    rw [outcome_of_prolongs (fs.resolveAbsolute_prolongs hle path) (by rw [hresolved]; simp),
      hresolved]
  rw [readDir, outcome_bind (fs.determined_resolveAbsolute _ _), hmore]
  · show outcome (liftResult (fs.directoryCluster resolved) >>= _) = _
    rw [outcome_liftResult_bind, hstart]
  · exact fun _ => (Determined.liftResult _).bind fun _ => fs.determined_listChain _ _ _ _

/-- With enough fuel the end entry decides. -/
theorem outcome_readDir_of_chain {path : String} {start capacity : Nat} {clusters : List Nat}
    {entries : List (List UInt8)} (hpath : fs.Opens path start)
    (hchain : fs.Chain start clusters) (hentries : fs.chainEntries clusters = .ok entries)
    (hroom : (listing entries).length ≤ capacity) : ∃ enough, ∀ fuel, enough ≤ fuel →
      outcome (fs.readDir fuel path capacity) =
        if entries.any isEndEntry then .ok (listing entries)
        else .error (.storage .fileNotFound) := by
  obtain ⟨fuel₀, hreadDir⟩ := fs.outcome_readDir_of_opens hpath capacity
  refine ⟨max fuel₀ clusters.length, fun fuel hfuel => ?_⟩
  rw [hreadDir fuel (by omega), fs.outcome_listChain_of_chain hchain hentries
    (Nat.zero_le _) (by omega), listingOf, List.nil_append, if_neg (by omega)]
  split_ifs
  · rfl
  · rfl

/-- A value that was returned is the outcome with more fuel, too. -/
theorem outcome_readDir_of_ok {fuel fuel' capacity : Nat} {path : String} {names : List UInt8}
    (h : outcome (fs.readDir fuel path capacity) = .ok names) (hle : fuel ≤ fuel') :
    outcome (fs.readDir fuel' path capacity) = .ok names := by
  rw [outcome_of_prolongs (fs.readDir_prolongs hle path capacity) (by rw [h]; simp), h]

/-- **Directory listing.** For every directory with a complete, readable chain and every buffer
large enough, `read_dir` returns the names of the directory if and only if it has an end
entry. -/
theorem read_dir_lists_iff {path : String} {start capacity : Nat} {clusters : List Nat}
    {entries : List (List UInt8)} (hpath : fs.Opens path start)
    (hchain : fs.Chain start clusters) (hentries : fs.chainEntries clusters = .ok entries)
    (hroom : (listing entries).length ≤ capacity) :
    (∃ fuel, outcome (fs.readDir fuel path capacity) = .ok (listing entries)) ↔
      ∃ entry ∈ entries, isEndEntry entry = true := by
  obtain ⟨enough, hlong⟩ := fs.outcome_readDir_of_chain hpath hchain hentries hroom
  rw [← List.any_eq_true]
  constructor
  · rintro ⟨fuel, hok⟩
    have hmore := fs.outcome_readDir_of_ok hok (Nat.le_max_left fuel enough)
    rw [hlong _ (Nat.le_max_right _ _)] at hmore
    split_ifs at hmore with hend
    exact hend
  · intro hend
    refine ⟨_, (hlong _ (Nat.le_refl _)).trans ?_⟩
    rw [if_pos hend]

/-! ## Small volumes -/

/-- A boot sector with one reserved sector and one table of one sector. -/
def bootSector (sectorsPerCluster totalSectors rootCluster : UInt8) : Sector :=
  sectorOf ([0xeb, 0x58, 0x90] ++ strBytes "MSWIN4.1" ++ [0, 2, sectorsPerCluster, 1, 0, 1, 0, 0,
    totalSectors, 0, 0xf8, 0, 0] ++ List.replicate 12 0 ++ [1, 0, 0, 0, 0, 0, 0, 0,
    rootCluster, 0, 0, 0])

/-- The partition of a small disk, which starts at its first sector. -/
def smallPartition : GptPartition where
  typeGuid := List.replicate 16 1
  startLba := 0
  sectorCount := 100
  name := List.replicate 36 0

/-- A disk without a partition table: boot sector, table, and one sector
repeated for the data. -/
def smallDisk (boot table data : Sector) : BlockDevice :=
  ⟨fun lba => .ok (if lba = 0 then boot else if lba = 1 then table else data)⟩

/-- A table that says `entry` for cluster 2. -/
def tableOf (entry : List UInt8) : Sector := sectorOf (List.replicate 8 0 ++ entry)

/-- The filesystem on a small disk. -/
def smallVolume (table data : Sector) : Fat32 where
  device := smallDisk (bootSector 1 100 2) table data
  partitionStartLba := 0
  partitionSectorCount := 100
  sectorsPerCluster := 1
  reservedSectorCount := 1
  rootCluster := 2
  firstDataSector := 2

/-- The fields of a mounted filesystem other than its device. -/
def fields (fs : Fat32) : Nat × Nat × Nat × Nat × Nat × Nat :=
  (fs.partitionStartLba, fs.partitionSectorCount, fs.sectorsPerCluster, fs.reservedSectorCount,
    fs.rootCluster, fs.firstDataSector)

/-- Two filesystems with the same fields on one device. -/
theorem mount_of_fields {fs : Fat32} {partition : GptPartition}
    (h : (outcome (mount fs.device partition)).toOption.map fields = some fs.fields) :
    outcome (mount fs.device partition) = .ok fs := by
  cases hmount : outcome (mount fs.device partition) with
  | error e =>
    rw [hmount] at h
    cases h
  | ok fs' =>
    rw [hmount] at h
    have hdevice := (mount_eq hmount).1
    cases fs with
    | mk device _ _ _ _ _ _ =>
      cases fs' with
      | mk device' _ _ _ _ _ _ =>
        cases hdevice
        cases h
        rfl

/-- The end-of-chain mark. -/
def endMark : List UInt8 := [0xff, 0xff, 0xff, 0x0f]

/-- A root directory with one entry. -/
def listedVolume : Fat32 :=
  smallVolume (tableOf endMark) (sectorOf (directoryEntry "BIN        " 16 3))

/-- A sector with the same entry sixteen times. -/
def filledSector (entry : List UInt8) (h : entry.length = fatDirectoryEntrySize) : Sector :=
  ⟨⟨(List.replicate 16 entry).flatten⟩, by
    show (List.replicate 16 entry).flatten.length = sectorSize
    rw [List.length_flatten, List.map_replicate, h]
    rfl⟩

/-- A root directory that fills its cluster. -/
def fullVolume : Fat32 :=
  smallVolume (tableOf endMark)
    (filledSector (directoryEntry "BIN        " 16 3) (by decide +kernel))

/-- The entries of a chain, with what was computed of them. -/
theorem entries_of_facts (clusters : List Nat) (names : List UInt8) (ends : Bool)
    (h : (fs.chainEntries clusters).toOption.map (fun es => (listing es, es.any isEndEntry)) =
      some (names, ends)) :
    ∃ entries, fs.chainEntries clusters = .ok entries ∧ listing entries = names ∧
      entries.any isEndEntry = ends := by
  cases hentries : fs.chainEntries clusters with
  | error e =>
    rw [hentries] at h
    cases h
  | ok entries =>
    rw [hentries] at h
    cases h
    exact ⟨entries, rfl, rfl, rfl⟩

theorem opens_root : fs.Opens "/" fs.rootCluster := by
  refine ⟨0, .rootDirectory, ?_, rfl⟩
  have hsplit : (split "/" '/').filter (· ≠ "") = [] := by decide
  rw [resolveAbsolute, if_neg (by decide), hsplit]
  rfl

/-- One entry and the end of the directory. -/
theorem read_dir_lists_bin :
    ∃ fuel, outcome (listedVolume.readDir fuel "/" 512) = .ok (strBytes "BIN\n") := by
  have hchain : listedVolume.Chain 2 [2] := .last ⟨0x0fffffff, by decide +kernel, by decide⟩
  obtain ⟨entries, hentries, hnames, hend⟩ :=
    listedVolume.entries_of_facts [2] (strBytes "BIN\n") true (by decide +kernel)
  have hroom : (listing entries).length ≤ 512 := by
    rw [hnames]
    decide +kernel
  rw [← hnames]
  exact (listedVolume.read_dir_lists_iff listedVolume.opens_root hchain hentries hroom).mpr
    (List.any_eq_true.mp hend)

/-- **A full directory**: sixteen entries in the one sector of the one cluster. -/
theorem read_dir_rejects_full_directory :
    ¬ ∀ device partition fs path start capacity clusters entries,
      outcome (mount device partition) = .ok fs → fs.Opens path start →
      fs.Chain start clusters → fs.chainEntries clusters = .ok entries →
      (listing entries).length ≤ capacity →
      ∃ fuel, outcome (fs.readDir fuel path capacity) = .ok (listing entries) := by
  intro hclaim
  have hmount : outcome (mount fullVolume.device smallPartition) = .ok fullVolume :=
    mount_of_fields (by decide +kernel)
  have hchain : fullVolume.Chain 2 [2] := .last ⟨0x0fffffff, by decide +kernel, by decide⟩
  obtain ⟨entries, hentries, hnames, hend⟩ := fullVolume.entries_of_facts [2]
    (List.replicate 16 (strBytes "BIN\n")).flatten false (by decide +kernel)
  have hroom : (listing entries).length ≤ 512 := by
    rw [hnames]
    decide +kernel
  obtain ⟨fuel, hok⟩ := hclaim _ _ _ _ _ 512 _ _ hmount fullVolume.opens_root hchain hentries hroom
  obtain ⟨enough, hlong⟩ :=
    fullVolume.outcome_readDir_of_chain fullVolume.opens_root hchain hentries hroom
  have hmore := fullVolume.outcome_readDir_of_ok hok (Nat.le_max_left fuel enough)
  rw [hlong _ (Nat.le_max_right _ _), hend] at hmore
  cases hmore

end Fat32

end Lazers.Storage
