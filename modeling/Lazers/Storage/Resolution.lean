import Lazers.Storage.FileContents
import Lazers.Storage.PathLookup

/-!
# What a path leads to

`Resolves` follows the components of a path through the directories of a volume, one rule for each
way that a step can end: the component is no short name, no entry has the name, the entry is a file
with components left, the entry is the last, or the walk goes on below. `GivesFile` and
`ListsDirectory` say what is at the end for a reader with a buffer: the bytes of a file or the names
in a directory, or why there are none.

`resolve_absolute`, `read_file_into` and `read_dir` follow these rules on every volume that holds
its directories (`resolveAbsolute_resolves`, `readFileInto_gives`, `readDir_lists`).
-/

namespace Lazers.Storage.Fat32

variable (fs : Fat32) (content : Nat → List (List UInt8))

/-- **Where components lead**, from the directory at a cluster. -/
inductive Resolves : (components : List String) → (cluster : Nat) →
    Except StorageError FatResolvedPath → Prop where
  | here (cluster : Nat) : Resolves [] cluster (.ok .rootDirectory)
  | badName {component : String} {rest : List String} {cluster : Nat} {e : StorageError}
      (refused : makeShortName component = .error e) :
      Resolves (component :: rest) cluster (.error e)
  | missing {component : String} {rest : List String} {cluster : Nat} {name : Vector UInt8 11}
      (accepted : makeShortName component = .ok name)
      (none : entryNamed content name cluster = none) :
      Resolves (component :: rest) cluster (.error .fileNotFound)
  | last {component : String} {cluster : Nat} {name : Vector UInt8 11} {entry : FatDirectoryEntry}
      (accepted : makeShortName component = .ok name)
      (found : entryNamed content name cluster = some entry) :
      Resolves [component] cluster (.ok (resolvedOf entry))
  | throughFile {component : String} {rest : List String} {cluster : Nat} {name : Vector UInt8 11}
      {entry : FatDirectoryEntry} (accepted : makeShortName component = .ok name)
      (found : entryNamed content name cluster = some entry) (isFile : entry.isDirectory = false)
      (more : rest ≠ []) : Resolves (component :: rest) cluster (.error .fileNotFound)
  | down {component : String} {rest : List String} {cluster : Nat} {name : Vector UInt8 11}
      {entry : FatDirectoryEntry} {r : Except StorageError FatResolvedPath}
      (accepted : makeShortName component = .ok name)
      (found : entryNamed content name cluster = some entry)
      (isDirectory : entry.isDirectory = true) (more : rest ≠ [])
      (below : Resolves rest entry.firstCluster r) : Resolves (component :: rest) cluster r

variable {fs content}

/-- The rules give one answer. -/
theorem Resolves.unique {components : List String} {cluster : Nat}
    {r r' : Except StorageError FatResolvedPath} (h : Resolves content components cluster r)
    (h' : Resolves content components cluster r') : r = r' := by
  -- two rules for one step disagree on the name, on the entry, or on what is left of the path
  induction h with
  | here _ =>
    cases h'
    rfl
  | badName refused =>
    cases h' with
    | badName refused' =>
      cases refused.symm.trans refused'
      rfl
    | missing accepted _ => cases refused.symm.trans accepted
    | last accepted _ => cases refused.symm.trans accepted
    | throughFile accepted _ _ _ => cases refused.symm.trans accepted
    | down accepted _ _ _ _ => cases refused.symm.trans accepted
  | missing accepted none =>
    cases h' with
    | badName refused => cases accepted.symm.trans refused
    | missing _ _ => rfl
    | last accepted' found | throughFile accepted' found _ _ | down accepted' found _ _ _ =>
      cases accepted.symm.trans accepted'
      cases none.symm.trans found
  | last accepted found =>
    cases h' with
    | badName refused => cases accepted.symm.trans refused
    | missing accepted' none =>
      cases accepted.symm.trans accepted'
      cases none.symm.trans found
    | last accepted' found' =>
      cases accepted.symm.trans accepted'
      cases found.symm.trans found'
      rfl
    | throughFile _ _ _ more => exact absurd rfl more
    | down _ _ _ more _ => exact absurd rfl more
  | throughFile accepted found isFile more =>
    cases h' with
    | badName refused => cases accepted.symm.trans refused
    | missing _ _ => rfl
    | last _ _ => exact absurd rfl more
    | throughFile _ _ _ _ => rfl
    | down accepted' found' isDirectory _ _ =>
      cases accepted.symm.trans accepted'
      cases found.symm.trans found'
      cases isFile.symm.trans isDirectory
  | down accepted found isDirectory more _ ih =>
    cases h' with
    | badName refused => cases accepted.symm.trans refused
    | missing accepted' none =>
      cases accepted.symm.trans accepted'
      cases none.symm.trans found
    | last _ _ => exact absurd rfl more
    | throughFile accepted' found' isFile _ =>
      cases accepted.symm.trans accepted'
      cases found.symm.trans found'
      cases isFile.symm.trans isDirectory
    | down accepted' found' _ _ below' =>
      cases accepted.symm.trans accepted'
      cases found.symm.trans found'
      exact ih below'

/-- A step that finds an entry, or does not. -/
theorem outcome_findInDirectory_of_holds (hvolume : fs.Holds content) {cluster : Nat}
    (hreached : fs.Reached content cluster) {component : String} {name : Vector UInt8 11}
    (hname : makeShortName component = .ok name) :
    ∃ enough, ∀ fuel, enough ≤ fuel →
      outcome (fs.findInDirectory fuel cluster component) =
        match entryNamed content name cluster with
        | some entry => .ok entry
        | none => .error (.storage .fileNotFound) :=
  fs.outcome_findInDirectory_of_contents (hvolume cluster hreached) hname

/-- The components are looked up one by one. -/
theorem resolveFrom_resolves (hvolume : fs.Holds content) {components : List String}
    (hne : components ≠ []) {cluster : Nat} (hreached : fs.Reached content cluster) :
    ∃ enough r, Resolves content components cluster r ∧ ∀ fuel, enough ≤ fuel →
      outcome (fs.resolveFrom fuel components cluster) = r.mapError Stop.storage := by
  induction components generalizing cluster with
  | nil => exact absurd rfl hne
  | cons component rest ih =>
    cases hname : makeShortName component with
    | error e =>
      refine ⟨0, .error e, .badName hname, fun fuel _ => ?_⟩
      rw [outcome_resolveFrom_cons, findInDirectory, hname]
      rfl
    | ok name =>
      obtain ⟨enough, hfind⟩ := outcome_findInDirectory_of_holds hvolume hreached hname
      cases hentry : entryNamed content name cluster with
      | none =>
        refine ⟨enough, .error .fileNotFound, .missing hname hentry, fun fuel hfuel => ?_⟩
        rw [outcome_resolveFrom_cons, hfind fuel hfuel, hentry]
        rfl
      | some entry =>
        rw [hentry] at hfind
        by_cases hlast : rest = []
        · subst hlast
          refine ⟨enough, .ok (resolvedOf entry), .last hname hentry, fun fuel hfuel => ?_⟩
          rw [outcome_resolveFrom_cons, hfind fuel hfuel, resolvedOf]
          show (if entry.isDirectory = true then _ else _) = _
          split_ifs
          · rfl
          · rfl
        · cases hdirectory : entry.isDirectory with
          | false =>
            refine ⟨enough, .error .fileNotFound, .throughFile hname hentry hdirectory hlast,
              fun fuel hfuel => ?_⟩
            rw [outcome_resolveFrom_cons, hfind fuel hfuel]
            show (if rest = [] then _ else if entry.isDirectory = false then _ else _) = _
            rw [if_neg hlast, if_pos hdirectory]
            rfl
          | true =>
            -- Below, the directory is one that components lead to.
            obtain ⟨enough', r, hresolves, hdeeper⟩ :=
              ih hlast (.sub hreached hname hentry hdirectory)
            refine ⟨max enough enough', r, .down hname hentry hdirectory hlast hresolves,
              fun fuel hfuel => ?_⟩
            rw [outcome_resolveFrom_cons, hfind fuel (by omega)]
            show (if rest = [] then _ else if entry.isDirectory = false then _ else _) = _
            rw [if_neg hlast, if_neg (by rw [hdirectory]; decide), hdeeper fuel (by omega)]

/-- **`resolve_absolute` follows the rules**, from the root. -/
theorem resolveAbsolute_resolves (hvolume : fs.Holds content) {path : String}
    (habsolute : startsWith path '/' = true) :
    ∃ enough r, Resolves content (pathComponents path) fs.rootCluster r ∧ ∀ fuel, enough ≤ fuel →
      outcome (fs.resolveAbsolute fuel path) = r.mapError Stop.storage := by
  by_cases hroot : pathComponents path = []
  · refine ⟨0, .ok .rootDirectory, ?_, fun fuel _ => ?_⟩
    · rw [hroot]
      exact .here _
    · rw [resolveAbsolute_eq, if_neg (by simp [habsolute]), if_pos hroot]
      rfl
  · obtain ⟨enough, r, hresolves, hresolve⟩ := resolveFrom_resolves hvolume hroot .root
    refine ⟨enough, r, hresolves, fun fuel hfuel => ?_⟩
    rw [resolveAbsolute_eq, if_neg (by simp [habsolute]), if_neg hroot, hresolve fuel hfuel]

/-! ## Files -/

variable (fs content)

/-- **What a path gives a reader** with a buffer of `room` bytes. -/
inductive GivesFile (room : Nat) (path : String) : Except StorageError (List UInt8) → Prop where
  | nowhere {e : StorageError}
      (resolves : Resolves content (pathComponents path) fs.rootCluster (.error e)) :
      GivesFile room path (.error e)
  | directory {resolved : FatResolvedPath}
      (resolves : Resolves content (pathComponents path) fs.rootCluster (.ok resolved))
      (noFile : ∀ entry, resolved ≠ .file entry) : GivesFile room path (.error .notAFile)
  | tooLarge {entry : FatDirectoryEntry}
      (resolves : Resolves content (pathComponents path) fs.rootCluster (.ok (.file entry)))
      (large : room < entry.size) : GivesFile room path (.error .bufferTooSmall)
  | contents {entry : FatDirectoryEntry} {clusters : List Nat}
      (resolves : Resolves content (pathComponents path) fs.rootCluster (.ok (.file entry)))
      (fits : entry.size ≤ room)
      (held : fs.HoldsFile entry.firstCluster entry.size clusters) :
      GivesFile room path (.ok ((fs.chainContents clusters).take entry.size))
  | unreadable {entry : FatDirectoryEntry} {e : StorageError}
      (resolves : Resolves content (pathComponents path) fs.rootCluster (.ok (.file entry)))
      (fits : entry.size ≤ room)
      (broken : ∀ clusters, ¬ fs.HoldsFile entry.firstCluster entry.size clusters) :
      GivesFile room path (.error e)

variable {fs content}

/-- A path that is to be opened must lead to a file. -/
def openedFile : Except StorageError FatResolvedPath → Except Stop FatDirectoryEntry
  | .ok (.file entry) => .ok entry
  | .ok _ => .error (.storage .notAFile)
  | .error e => .error (.storage e)

theorem outcome_openAbsolute_of_resolve {fuel : Nat} {path : String}
    {r : Except StorageError FatResolvedPath}
    (h : outcome (fs.resolveAbsolute fuel path) = r.mapError Stop.storage) :
    outcome (fs.openAbsolute fuel path) = openedFile r := by
  rw [openAbsolute, outcome_bind (fs.determined_resolveAbsolute fuel path), h]
  · cases r with
    | error e => rfl
    | ok resolved => cases resolved <;> rfl
  · intro resolved
    cases resolved with
    | file entry => exact .value _
    | rootDirectory => exact .failure _
    | directory cluster => exact .failure _

/-- **`read_file_into` follows the rules.** -/
theorem readFileInto_gives (hpos : 0 < fs.sectorsPerCluster) (hvolume : fs.Holds content)
    {path : String} (habsolute : startsWith path '/' = true) (room : Nat) :
    ∃ enough, ∀ fuel, enough ≤ fuel → ∃ r, GivesFile fs content room path r ∧
      outcome (readFileInto fs fuel path room) = r.mapError Stop.storage := by
  obtain ⟨enough, resolved, hresolves, hresolve⟩ := resolveAbsolute_resolves hvolume habsolute
  have hopen : ∀ fuel, enough ≤ fuel →
      outcome (fs.openAbsolute fuel path) = openedFile resolved := fun fuel hfuel =>
    outcome_openAbsolute_of_resolve (hresolve fuel hfuel)
  -- a path that does not open gives its error, whatever the fuel
  have hrefused : ∀ e, openedFile resolved = .error (.storage e) →
      GivesFile fs content room path (.error e) →
      ∃ enough, ∀ fuel, enough ≤ fuel → ∃ r, GivesFile fs content room path r ∧
        outcome (readFileInto fs fuel path room) = r.mapError Stop.storage := by
    intro e hopened hgives
    refine ⟨enough, fun fuel hfuel => ⟨.error e, hgives, ?_⟩⟩
    rw [outcome_readFileInto, hopen fuel hfuel, hopened]
    rfl
  cases resolved with
  | error e => exact hrefused e rfl (.nowhere hresolves)
  | ok resolved =>
    cases resolved with
    | rootDirectory => exact hrefused _ rfl (.directory hresolves fun _ h => (by cases h))
    | directory cluster => exact hrefused _ rfl (.directory hresolves fun _ h => (by cases h))
    | file entry =>
      refine ⟨max enough (entry.size + 1), fun fuel hfuel => ?_⟩
      have hread : outcome (readFileInto fs fuel path room) =
          outcome (fs.readFile fuel entry room) := by
        rw [outcome_readFileInto, hopen fuel (by omega)]
        rfl
      rw [hread, readFile]
      by_cases hlarge : room < entry.size
      · refine ⟨_, .tooLarge hresolves hlarge, ?_⟩
        rw [if_pos hlarge]
        rfl
      · rw [if_neg hlarge]
        obtain ⟨hheld, hbroken⟩ :=
          fs.outcome_readChain hpos entry.firstCluster (by omega : entry.size < fuel) []
        by_cases hholds : ∃ clusters, fs.HoldsFile entry.firstCluster entry.size clusters
        · -- the chain has clusters enough, and the bytes in order are the file
          obtain ⟨clusters, hholds⟩ := hholds
          refine ⟨_, .contents hresolves (by omega) hholds, ?_⟩
          rw [hheld clusters hholds]
          rfl
        · rw [not_exists] at hholds
          obtain ⟨e, herror⟩ := hbroken hholds
          refine ⟨.error e, .unreadable hresolves (by omega) hholds, ?_⟩
          rw [herror]
          rfl

/-! ## Directories -/

/-- A cluster is listed up to the sector with the end entry. -/
theorem outcome_listCluster_of_end {capacity clusterLba m rounds sectorIndex : Nat}
    {written : List UInt8} {entries : List (List UInt8)} (hm : m ≤ rounds)
    (hroom : written.length ≤ capacity)
    (hentries : fs.sectorEntries clusterLba m sectorIndex = .ok entries)
    (hend : entries.any isEndEntry = true) :
    outcome (fs.listCluster capacity clusterLba rounds sectorIndex written) =
      .ok (listingOf capacity entries written) := by
  induction m generalizing rounds sectorIndex written entries with
  | zero =>
    cases hentries
    cases hend
  | succ m ih =>
    obtain ⟨rounds, rfl⟩ : ∃ n, rounds = n + 1 := ⟨rounds - 1, by omega⟩
    obtain ⟨sector, rest, hsector, hrest, rfl⟩ := fs.sectorEntries_succ_eq_ok.mp hentries
    rw [outcome_listCluster_succ fs _ _ _ _ hroom, hsector, listingOf_append rest hroom]
    dsimp only
    cases hlisting : listingOf capacity (entriesOf sector) written with
    | ended _ => rfl
    | tooSmall => rfl
    | next written' =>
      -- A sector that was gone past has no end entry, so it is in the rest.
      have hnone : (entriesOf sector).any isEndEntry = false := by
        rw [listingOf] at hlisting
        split_ifs at hlisting with _ hany
        exact Bool.eq_false_iff.mpr hany
      rw [List.any_append, hnone, Bool.false_or] at hend
      exact ih (by omega) (length_le_of_listingOf hlisting) hrest hend

/-- What a listing returns. -/
def listingResult : Listing → Except StorageError (List UInt8)
  | .ended written => .ok written
  | .tooSmall => .error .bufferTooSmall
  | .next _ => .error .fileNotFound

theorem outcome_listChain_of_contents {start : Nat} {entries : List (List UInt8)}
    (h : fs.Contents start entries) (capacity : Nat) : ∃ enough, ∀ fuel written, enough ≤ fuel →
      written.length ≤ capacity → outcome (fs.listChain capacity fuel start written) =
        (listingResult (listingOf capacity entries written)).mapError Stop.storage := by
  induction h with
  | ended hlba hm hentries hend =>
    refine ⟨1, fun fuel written hfuel hroom => ?_⟩
    obtain ⟨fuel, rfl⟩ : ∃ n, fuel = n + 1 := ⟨fuel - 1, by omega⟩
    rw [outcome_listChain_succ, hlba]
    dsimp only
    rw [outcome_listCluster_of_end hm hroom hentries hend]
    cases hlisting : listingOf capacity _ written with
    | ended _ => rfl
    | tooSmall => rfl
    | next _ =>
      -- with an end entry the listing never goes on to another cluster
      rw [listingOf, hend, if_pos rfl] at hlisting
      split_ifs at hlisting
  | last h hentries =>
    refine ⟨1, fun fuel written hfuel hroom => ?_⟩
    obtain ⟨fuel, rfl⟩ : ∃ n, fuel = n + 1 := ⟨fuel - 1, by omega⟩
    rw [fs.outcome_listChain_of_entries hroom hentries, fs.outcome_nextCluster_of_isLast h]
    cases listingOf capacity _ written with
    | ended _ => rfl
    | tooSmall => rfl
    | next _ => rfl
  | @link _ next _ rest h hentries _ ih =>
    obtain ⟨enough, hrest⟩ := ih
    refine ⟨enough + 1, fun fuel written hfuel hroom => ?_⟩
    obtain ⟨fuel, rfl⟩ : ∃ n, fuel = n + 1 := ⟨fuel - 1, by omega⟩
    rw [fs.outcome_listChain_of_entries hroom hentries, listingOf_append rest hroom,
      fs.outcome_nextCluster_eq_ok.mpr h]
    cases hlisting : listingOf capacity _ written with
    | ended _ => rfl
    | tooSmall => rfl
    | next written' => exact hrest fuel written' (by omega) (length_le_of_listingOf hlisting)

/-- A directory that components lead to. -/
theorem Resolves.reached {components : List String} {cluster : Nat}
    {r : Except StorageError FatResolvedPath} (h : Resolves content components cluster r)
    (hreached : fs.Reached content cluster) {directory : Nat}
    (hr : r = .ok (.directory directory)) : fs.Reached content directory := by
  induction h with
  | here _ => cases hr
  | badName _ => cases hr
  | missing _ _ => cases hr
  | throughFile _ _ _ _ => cases hr
  | @last _ _ _ entry accepted found =>
    cases hdirectory : entry.isDirectory with
    | false =>
      rw [resolvedOf, hdirectory] at hr
      cases hr
    | true =>
      rw [resolvedOf, hdirectory] at hr
      cases hr
      exact .sub hreached accepted found hdirectory
  | down accepted found isDirectory _ _ ih =>
    exact ih (.sub hreached accepted found isDirectory) hr

variable (fs content)

/-- **What a path lists** into a buffer of `room` bytes. A directory without an end entry is taken
for a missing one. -/
inductive ListsDirectory (room : Nat) (path : String) :
    Except StorageError (List UInt8) → Prop where
  | nowhere {e : StorageError}
      (resolves : Resolves content (pathComponents path) fs.rootCluster (.error e)) :
      ListsDirectory room path (.error e)
  | file {entry : FatDirectoryEntry}
      (resolves : Resolves content (pathComponents path) fs.rootCluster (.ok (.file entry))) :
      ListsDirectory room path (.error .notADirectory)
  | tooSmall {resolved : FatResolvedPath} {cluster : Nat}
      (resolves : Resolves content (pathComponents path) fs.rootCluster (.ok resolved))
      (directory : fs.directoryCluster resolved = .ok cluster)
      (large : room < (listing (content cluster)).length) :
      ListsDirectory room path (.error .bufferTooSmall)
  | listed {resolved : FatResolvedPath} {cluster : Nat}
      (resolves : Resolves content (pathComponents path) fs.rootCluster (.ok resolved))
      (directory : fs.directoryCluster resolved = .ok cluster)
      (fits : (listing (content cluster)).length ≤ room)
      (ends : ∃ entry ∈ content cluster, isEndEntry entry = true) :
      ListsDirectory room path (.ok (listing (content cluster)))
  | unended {resolved : FatResolvedPath} {cluster : Nat}
      (resolves : Resolves content (pathComponents path) fs.rootCluster (.ok resolved))
      (directory : fs.directoryCluster resolved = .ok cluster)
      (fits : (listing (content cluster)).length ≤ room)
      (full : ∀ entry ∈ content cluster, isEndEntry entry = false) :
      ListsDirectory room path (.error .fileNotFound)

variable {fs content}

/-- The listing of the directory that a path resolved to. -/
theorem lists_of_directory {room cluster : Nat} {path : String} {resolved : FatResolvedPath}
    (hresolves : Resolves content (pathComponents path) fs.rootCluster (.ok resolved))
    (hdirectory : fs.directoryCluster resolved = .ok cluster) :
    ListsDirectory fs content room path (listingResult (listingOf room (content cluster) [])) := by
  rw [listingOf, List.nil_append]
  split_ifs with hlarge hend
  · exact .tooSmall hresolves hdirectory hlarge
  · exact .listed hresolves hdirectory (by omega) (List.any_eq_true.mp hend)
  · rw [List.any_eq_true, not_exists] at hend
    refine .unended hresolves hdirectory (by omega) fun entry hentry => ?_
    exact Bool.eq_false_iff.mpr fun hthis => hend entry ⟨hentry, hthis⟩

/-- **`read_dir` follows the rules.** -/
theorem readDir_lists (hvolume : fs.Holds content) {path : String}
    (habsolute : startsWith path '/' = true) (room : Nat) :
    ∃ enough r, ListsDirectory fs content room path r ∧ ∀ fuel, enough ≤ fuel →
      outcome (fs.readDir fuel path room) = r.mapError Stop.storage := by
  obtain ⟨enough, resolved, hresolves, hresolve⟩ := resolveAbsolute_resolves hvolume habsolute
  have hread : ∀ fuel, enough ≤ fuel → outcome (fs.readDir fuel path room) =
      resolved.mapError Stop.storage >>= fun resolved => outcome
        (liftResult (fs.directoryCluster resolved) >>= fun start =>
          fs.listChain room fuel start []) := by
    intro fuel hfuel
    rw [readDir, outcome_bind (fs.determined_resolveAbsolute _ _), hresolve fuel hfuel]
    exact fun _ => (Determined.liftResult _).bind fun _ => fs.determined_listChain _ _ _ _
  cases resolved with
  | error e =>
    refine ⟨enough, .error e, .nowhere hresolves, fun fuel hfuel => ?_⟩
    rw [hread fuel hfuel]
    rfl
  | ok resolved =>
    cases hdirectory : fs.directoryCluster resolved with
    | error e =>
      cases resolved with
      | rootDirectory => cases hdirectory
      | directory cluster => cases hdirectory
      | file entry =>
        refine ⟨enough, .error .notADirectory, .file hresolves, fun fuel hfuel => ?_⟩
        rw [hread fuel hfuel]
        rfl
    | ok cluster =>
      have hreached : fs.Reached content cluster := by
        cases resolved with
        | rootDirectory =>
          cases hdirectory
          exact .root
        | directory _ =>
          cases hdirectory
          exact hresolves.reached .root rfl
        | file entry => cases hdirectory
      obtain ⟨enough', hlist⟩ := outcome_listChain_of_contents (hvolume cluster hreached) room
      refine ⟨max enough enough', _, lists_of_directory hresolves hdirectory, fun fuel hfuel => ?_⟩
      rw [hread fuel (by omega)]
      show outcome (liftResult (fs.directoryCluster resolved) >>= _) = _
      rw [outcome_liftResult_bind, hdirectory]
      exact hlist fuel [] (by omega) (Nat.zero_le _)

end Lazers.Storage.Fat32
