import Lazers.Lib.Walk
import Lazers.Storage.Directory
import Mathlib.Data.Set.Finite.List
import Mathlib.Order.Interval.Finset.Nat

/-!
# Which scans return

The loops of `find_in_directory` and `read_dir` follow the file allocation table until
something stops them, and nothing but the disk does: there is no length, no bound and no
record of the clusters seen. A search goes on from a cluster to the next when it has
passed over all entries of the first (`SearchStep`), a listing when it has moreover found
room for the names (`ListStep`).

`directory_scans_return_iff`: each scan returns, after finitely many sector reads,
exactly when its walk does not come back to where it was. There are finitely many
clusters to go to, so this is `Walk.ends_iff_not_loops`.
-/

namespace Lazers.Storage

open Relation Walk

/-- The operation has returned within its fuel. -/
def Returns {α : Type} (x : DiskM α) : Prop := outcome x ≠ .error .outOfFuel

namespace Fat32

variable (fs : Fat32)

/-! ## Searching one directory -/

/-- A search for the name goes on from one cluster to another. -/
def SearchStep (shortName : List UInt8) (cluster next : Nat) : Prop :=
  (∃ entries, fs.clusterEntries cluster = .ok entries ∧
    ∀ entry ∈ entries, PassedOver shortName entry) ∧ fs.Link cluster next

/-- The first entry of the cluster that a search does not pass over is the one it is for. -/
def HoldsMatch (shortName : List UInt8) (cluster : Nat) (entry : FatDirectoryEntry) : Prop :=
  ∃ clusterLba, fs.clusterToLba cluster = .ok clusterLba ∧
    outcome (fs.findInCluster shortName clusterLba fs.sectorsPerCluster 0) = .ok (some entry)

theorem outcome_findInChain_succ (shortName : List UInt8) (fuel cluster : Nat) :
    outcome (fs.findInChain shortName (fuel + 1) cluster) =
      match fs.clusterToLba cluster with
      | .error e => .error (.storage e)
      | .ok clusterLba =>
        outcome (fs.findInCluster shortName clusterLba fs.sectorsPerCluster 0) >>= fun
          | some entry => .ok entry
          | none => outcome (fs.nextCluster cluster) >>= fun next =>
            outcome (fs.findInChain shortName fuel next) := by
  rw [findInChain, outcome_liftResult_bind]
  cases fs.clusterToLba cluster with
  | error e => rfl
  | ok clusterLba =>
    dsimp only
    rw [outcome_bind (fs.determined_findInCluster _ _ _ _)]
    · congr 1
      funext found
      cases found with
      | some _ => rfl
      | none => exact outcome_bind (fs.determined_nextCluster _) fun _ =>
          fs.determined_findInChain _ _ _
    · intro found
      cases found with
      | some _ => exact .value _
      | none => exact (fs.determined_nextCluster _).bind fun _ => fs.determined_findInChain _ _ _

/-- **One cluster of a search.** -/
theorem findInChain_cases (shortName : List UInt8) (cluster : Nat) :
    (∃ next, fs.SearchStep shortName cluster next ∧ ∀ fuel,
      outcome (fs.findInChain shortName (fuel + 1) cluster) =
        outcome (fs.findInChain shortName fuel next)) ∨
    (∃ entry, fs.HoldsMatch shortName cluster entry ∧ ∀ fuel,
      outcome (fs.findInChain shortName (fuel + 1) cluster) = .ok entry) ∨
    ((∀ next, ¬ fs.SearchStep shortName cluster next) ∧
      (∀ entry, ¬ fs.HoldsMatch shortName cluster entry) ∧ ∃ e, ∀ fuel,
      outcome (fs.findInChain shortName (fuel + 1) cluster) = .error (.storage e)) := by
  simp only [outcome_findInChain_succ, SearchStep, HoldsMatch, clusterEntries_eq_ok]
  cases fs.clusterToLba cluster with
  | error e =>
    refine .inr (.inr ⟨?_, ?_, e, fun _ => rfl⟩)
    · rintro next ⟨⟨entries, ⟨clusterLba, hlba, -⟩, -⟩, -⟩
      cases hlba
    · rintro entry ⟨clusterLba, hlba, -⟩
      cases hlba
  | ok clusterLba =>
    dsimp only
    have hnone := fs.outcome_findInCluster_eq_none shortName clusterLba fs.sectorsPerCluster 0
    have hfuel := fs.outcome_findInCluster_ne shortName clusterLba fs.sectorsPerCluster 0
    cases hfound : outcome (fs.findInCluster shortName clusterLba fs.sectorsPerCluster 0) with
    | error e =>
      rw [hfound] at hnone hfuel
      cases e with
      | outOfFuel => exact absurd rfl hfuel
      | storage e =>
        refine .inr (.inr ⟨?_, ?_, e, fun _ => rfl⟩)
        · rintro next ⟨⟨entries, ⟨lba, hlba, hentries⟩, hall⟩, -⟩
          cases hlba
          cases hnone.mpr ⟨entries, hentries, hall⟩
        · rintro entry ⟨lba, hlba, hmatch⟩
          cases hlba
          rw [hfound] at hmatch
          cases hmatch
    | ok found =>
      rw [hfound] at hnone
      cases found with
      | some entry => exact .inr (.inl ⟨entry, ⟨clusterLba, rfl, hfound⟩, fun _ => rfl⟩)
      | none =>
        obtain ⟨entries, hentries, hall⟩ := hnone.mp rfl
        have hlink : ∀ next, outcome (fs.nextCluster cluster) = .ok next ↔
          fs.Link cluster next := fun _ => fs.outcome_nextCluster_eq_ok
        have hnextFuel := fs.outcome_nextCluster_ne cluster
        cases hnext : outcome (fs.nextCluster cluster) with
        | ok next =>
          exact .inl ⟨next, ⟨⟨entries, ⟨clusterLba, rfl, hentries⟩, hall⟩,
            (hlink next).mp hnext⟩, fun _ => rfl⟩
        | error e =>
          cases e with
          | outOfFuel => exact absurd hnext hnextFuel
          | storage e =>
            refine .inr (.inr ⟨?_, ?_, e, fun _ => rfl⟩)
            · rintro next ⟨-, hstep⟩
              rw [(hlink next).mpr hstep] at hnext
              cases hnext
            · rintro entry ⟨lba, hlba, hmatch⟩
              cases hlba
              rw [hfound] at hmatch
              cases hmatch

/-- A search that goes on has found nothing. -/
theorem SearchStep.not_holdsMatch {shortName : List UInt8} {cluster next : Nat}
    {entry : FatDirectoryEntry} (h : fs.SearchStep shortName cluster next) :
    ¬ fs.HoldsMatch shortName cluster entry := by
  rintro ⟨clusterLba, hlba, hmatch⟩
  obtain ⟨⟨entries, hentries, hall⟩, -⟩ := h
  obtain ⟨lba, hlba', hsectors⟩ := fs.clusterEntries_eq_ok.mp hentries
  cases hlba.symm.trans hlba'
  rw [(fs.outcome_findInCluster_eq_none shortName clusterLba _ 0).mpr ⟨entries, hsectors, hall⟩]
    at hmatch
  cases hmatch

theorem HoldsMatch.functional {shortName : List UInt8} {cluster : Nat}
    {entry entry' : FatDirectoryEntry} (h : fs.HoldsMatch shortName cluster entry)
    (h' : fs.HoldsMatch shortName cluster entry') : entry = entry' := by
  obtain ⟨clusterLba, hlba, hmatch⟩ := h
  obtain ⟨lba, hlba', hmatch'⟩ := h'
  cases hlba.symm.trans hlba'
  exact Option.some.inj (Except.ok.inj (hmatch.symm.trans hmatch'))

theorem SearchStep.functional {shortName : List UInt8} {cluster next next' : Nat}
    (h : fs.SearchStep shortName cluster next) (h' : fs.SearchStep shortName cluster next') :
    next = next' := by
  have heq := h.2.1.symm.trans h'.2.1
  exact Except.ok.inj heq

/-- There are finitely many clusters to go to. -/
theorem finite_link : {next | ∃ cluster, fs.Link cluster next}.Finite := by
  refine (Set.finite_Iio fatEntryBadCluster).subset ?_
  rintro next ⟨cluster, h⟩
  exact h.2.2

theorem finite_searchStep (shortName : List UInt8) :
    {next | ∃ cluster, fs.SearchStep shortName cluster next}.Finite := by
  refine fs.finite_link.subset ?_
  rintro next ⟨cluster, h⟩
  exact ⟨cluster, h.2⟩

theorem findInChain_returns_iff (shortName : List UInt8) (cluster : Nat) :
    (∃ fuel, Returns (fs.findInChain shortName fuel cluster)) ↔
      ¬ Loops (fs.SearchStep shortName) cluster := by
  rw [← ends_iff_not_loops (fs.finite_searchStep shortName)]
  refine exists_rounds_iff_ends (fun fuel cluster =>
    Returns (fs.findInChain shortName fuel cluster)) (I := fun _ => True) trivial
    (fun _ _ _ _ => trivial) (fun x y z hy hz => hy.functional fs hz) (fun x h => h rfl)
    fun fuel x _ => ?_
  rw [Returns]
  obtain ⟨next, hstep, heq⟩ | ⟨entry, hmatch, heq⟩ | ⟨hstuck, -, e, heq⟩ :=
    fs.findInChain_cases shortName x
  · rw [heq fuel]
    constructor
    · intro hreturns y hy
      rwa [hy.functional fs hstep]
    · exact fun hall => hall next hstep
  · rw [heq fuel]
    exact ⟨fun _ y hy => absurd hmatch (hy.not_holdsMatch fs), fun _ h => by cases h⟩
  · rw [heq fuel]
    exact ⟨fun _ y hy => absurd hy (hstuck y), fun _ h => by cases h⟩

/-- What a search finds. -/
theorem findInChain_eq_ok_iff (shortName : List UInt8) (cluster : Nat)
    (entry : FatDirectoryEntry) :
    (∃ fuel, outcome (fs.findInChain shortName fuel cluster) = .ok entry) ↔
      ∃ last, ReflTransGen (fs.SearchStep shortName) cluster last ∧
        fs.HoldsMatch shortName last entry := by
  constructor
  · rintro ⟨fuel, hok⟩
    induction fuel generalizing cluster with
    | zero => cases hok
    | succ fuel ih =>
      obtain ⟨next, hstep, heq⟩ | ⟨entry', hmatch, heq⟩ | ⟨-, -, e, heq⟩ :=
        fs.findInChain_cases shortName cluster
      · rw [heq fuel] at hok
        obtain ⟨last, hreach, hmatch⟩ := ih next hok
        exact ⟨last, hreach.head hstep, hmatch⟩
      · rw [heq fuel] at hok
        cases hok
        exact ⟨cluster, .refl, hmatch⟩
      · rw [heq fuel] at hok
        cases hok
  · rintro ⟨last, hreach, hmatch⟩
    induction hreach using ReflTransGen.head_induction_on with
    | refl =>
      obtain ⟨next, hstep, -⟩ | ⟨entry', hmatch', heq⟩ | ⟨-, hnone, -⟩ :=
        fs.findInChain_cases shortName last
      · exact absurd hmatch (hstep.not_holdsMatch fs)
      · exact ⟨1, by rw [heq 0, hmatch'.functional fs hmatch]⟩
      · exact absurd hmatch (hnone entry)
    | @head x y hstep _ ih =>
      obtain ⟨fuel, hok⟩ := ih
      obtain ⟨next, hstep', heq⟩ | ⟨entry', hmatch', -⟩ | ⟨hstuck, -⟩ :=
        fs.findInChain_cases shortName x
      · exact ⟨fuel + 1, by rw [heq fuel, hstep'.functional fs hstep, hok]⟩
      · exact absurd hmatch' (hstep.not_holdsMatch fs)
      · exact absurd hstep (hstuck y)

/-- A search of a directory for a component comes to an end. -/
def SearchEnds (component : String) (cluster : Nat) : Prop :=
  ∀ shortName, makeShortName component = .ok shortName →
    ¬ Loops (fs.SearchStep shortName.toList) cluster

/-- The directory at a cluster has an entry for the component, before its end. -/
def Found (cluster : Nat) (component : String) (entry : FatDirectoryEntry) : Prop :=
  ∃ shortName last, makeShortName component = .ok shortName ∧
    ReflTransGen (fs.SearchStep shortName.toList) cluster last ∧
    fs.HoldsMatch shortName.toList last entry

theorem findInDirectory_returns_iff (cluster : Nat) (component : String) :
    (∃ fuel, Returns (fs.findInDirectory fuel cluster component)) ↔
      fs.SearchEnds component cluster := by
  simp only [Returns, findInDirectory, outcome_liftResult_bind, SearchEnds]
  cases makeShortName component with
  | error e => simp
  | ok shortName =>
    have h := fs.findInChain_returns_iff shortName.toList cluster
    constructor
    · rintro hfuel name hname
      cases hname
      exact h.mp hfuel
    · intro hends
      exact h.mpr (hends shortName rfl)

theorem findInDirectory_eq_ok_iff (cluster : Nat) (component : String)
    (entry : FatDirectoryEntry) :
    (∃ fuel, outcome (fs.findInDirectory fuel cluster component) = .ok entry) ↔
      fs.Found cluster component entry := by
  simp only [findInDirectory, outcome_liftResult_bind, Found]
  cases makeShortName component with
  | error e => simp
  | ok shortName =>
    refine (fs.findInChain_eq_ok_iff shortName.toList cluster entry).trans ?_
    constructor
    · rintro ⟨last, h⟩
      exact ⟨shortName, last, rfl, h⟩
    · rintro ⟨name, last, hname, h⟩
      cases hname
      exact ⟨last, h⟩

/-! ## Resolving a path -/

/-- The searches that the components call for, from a cluster on. -/
inductive Searches : (components : List String) → (cluster : Nat) → (component : String) →
    (directory : Nat) → Prop where
  | here {component : String} {rest : List String} {cluster : Nat} :
      Searches (component :: rest) cluster component cluster
  | deeper {component sought : String} {rest : List String} {cluster directory : Nat}
      {entry : FatDirectoryEntry} (found : fs.Found cluster component entry)
      (isDirectory : entry.isDirectory = true)
      (searches : Searches rest entry.firstCluster sought directory) :
      Searches (component :: rest) cluster sought directory

/-- The entry that the components lead to, from a cluster on. -/
inductive Located : (components : List String) → (cluster : Nat) → FatDirectoryEntry → Prop where
  | last {component : String} {cluster : Nat} {entry : FatDirectoryEntry}
      (found : fs.Found cluster component entry) : Located [component] cluster entry
  | step {component : String} {rest : List String} {cluster : Nat}
      {entry located : FatDirectoryEntry} (found : fs.Found cluster component entry)
      (isDirectory : entry.isDirectory = true)
      (rest_located : Located rest entry.firstCluster located) :
      Located (component :: rest) cluster located

theorem outcome_resolveFrom_cons (fuel : Nat) (component : String) (rest : List String)
    (cluster : Nat) :
    outcome (fs.resolveFrom fuel (component :: rest) cluster) =
      outcome (fs.findInDirectory fuel cluster component) >>= fun entry =>
        if rest = [] then
          if entry.isDirectory then .ok (.directory entry.firstCluster) else .ok (.file entry)
        else if entry.isDirectory = false then .error (.storage .fileNotFound)
        else outcome (fs.resolveFrom fuel rest entry.firstCluster) := by
  rw [resolveFrom, outcome_bind (fs.determined_findInDirectory _ _ _)]
  · congr 1
    funext entry
    split_ifs
    · rfl
    · rfl
    · rfl
    · rfl
  · intro entry
    split_ifs
    · exact .value _
    · exact .value _
    · exact .failure _
    · exact fs.determined_resolveFrom _ _ _

/-- What a search returned, with any fuel that suffices. -/
theorem outcome_findInDirectory_of_found {cluster fuel : Nat} {component : String}
    {entry : FatDirectoryEntry} (h : fs.Found cluster component entry)
    (hreturns : Returns (fs.findInDirectory fuel cluster component)) :
    outcome (fs.findInDirectory fuel cluster component) = .ok entry := by
  obtain ⟨fuel', hok⟩ := (fs.findInDirectory_eq_ok_iff cluster component entry).mpr h
  have hmax := outcome_of_prolongs
    (fs.findInDirectory_prolongs (Nat.le_max_left fuel fuel') cluster component) hreturns
  have hmax' := outcome_of_prolongs
    (fs.findInDirectory_prolongs (Nat.le_max_right fuel fuel') cluster component)
    (by rw [hok]; simp)
  rw [← hmax, hmax', hok]

/-- **Resolving returns** exactly when every search it calls for ends. -/
theorem resolveFrom_returns_iff (components : List String) (cluster : Nat) :
    (∃ fuel, Returns (fs.resolveFrom fuel components cluster)) ↔
      ∀ component directory, fs.Searches components cluster component directory →
        fs.SearchEnds component directory := by
  induction components generalizing cluster with
  | nil =>
    constructor
    · intro _ component directory h
      cases h
    · exact fun _ => ⟨0, fun h => by cases h⟩
  | cons component rest ih =>
    simp only [Returns, outcome_resolveFrom_cons] at ih ⊢
    constructor
    · rintro ⟨fuel, hreturns⟩ sought directory hsearch
      have hfind : Returns (fs.findInDirectory fuel cluster component) := by
        intro hout
        rw [hout] at hreturns
        exact hreturns rfl
      cases hsearch with
      | here => exact (fs.findInDirectory_returns_iff cluster component).mp ⟨fuel, hfind⟩
      | @deeper _ _ _ _ _ entry found isDirectory searches =>
        refine (ih entry.firstCluster).mp ⟨fuel, ?_⟩ sought directory searches
        have hrest : rest ≠ [] := fun h => by
          subst h
          cases searches
        rw [fs.outcome_findInDirectory_of_found found hfind] at hreturns
        simpa only [bind, Except.bind, hrest, isDirectory, if_false, Bool.true_eq_false]
          using hreturns
    · intro hends
      obtain ⟨fuel, hfind⟩ := (fs.findInDirectory_returns_iff cluster component).mpr
        (hends component cluster .here)
      cases hfound : outcome (fs.findInDirectory fuel cluster component) with
      | error e =>
        refine ⟨fuel, ?_⟩
        rw [hfound]
        intro hout
        cases hout
        exact hfind hfound
      | ok entry =>
        have hentry := (fs.findInDirectory_eq_ok_iff cluster component entry).mp ⟨fuel, hfound⟩
        by_cases hdeeper : rest ≠ [] ∧ entry.isDirectory = true
        · obtain ⟨fuel', hrest⟩ := (ih entry.firstCluster).mpr fun sought directory h =>
            hends sought directory (.deeper hentry hdeeper.2 h)
          refine ⟨max fuel fuel', ?_⟩
          rw [outcome_of_prolongs (fs.findInDirectory_prolongs (Nat.le_max_left _ _) _ _) hfind,
            hfound]
          simp only [bind, Except.bind, hdeeper.1, hdeeper.2, if_false, Bool.true_eq_false]
          rw [outcome_of_prolongs (fs.resolveFrom_prolongs (Nat.le_max_right _ _) _ _) hrest]
          exact hrest
        · refine ⟨fuel, ?_⟩
          rw [hfound]
          simp only [bind, Except.bind]
          split_ifs
          · exact fun h => by cases h
          · exact fun h => by cases h
          · exact fun h => by cases h
          · exact absurd ⟨‹_›, by simpa using ‹¬ entry.isDirectory = false›⟩ hdeeper

/-- What resolving makes of the entry it comes to. -/
def resolvedOf (entry : FatDirectoryEntry) : FatResolvedPath :=
  if entry.isDirectory then .directory entry.firstCluster else .file entry

theorem located_of_resolveFrom {fuel cluster : Nat} {components : List String}
    {resolved : FatResolvedPath}
    (h : outcome (fs.resolveFrom fuel components cluster) = .ok resolved) :
    ∃ entry, fs.Located components cluster entry ∧ resolved = resolvedOf entry := by
  induction components generalizing cluster with
  | nil => cases h
  | cons component rest ih =>
    rw [outcome_resolveFrom_cons] at h
    cases hfound : outcome (fs.findInDirectory fuel cluster component) with
    | error e =>
      rw [hfound] at h
      cases h
    | ok entry =>
      have hentry := (fs.findInDirectory_eq_ok_iff cluster component entry).mp ⟨fuel, hfound⟩
      rw [hfound] at h
      simp only [bind, Except.bind] at h
      split_ifs at h with hrest hdirectory hfile
      · cases h
        subst hrest
        exact ⟨entry, .last hentry, by rw [resolvedOf, if_pos hdirectory]⟩
      · cases h
        subst hrest
        exact ⟨entry, .last hentry, by rw [resolvedOf, if_neg hdirectory]⟩
      · obtain ⟨located, hlocated, hresolved⟩ := ih h
        exact ⟨located, .step hentry (by simpa using hfile) hlocated, hresolved⟩

theorem resolveFrom_of_located {cluster : Nat} {components : List String}
    {entry : FatDirectoryEntry} (h : fs.Located components cluster entry) :
    ∃ fuel, outcome (fs.resolveFrom fuel components cluster) = .ok (resolvedOf entry) := by
  induction h with
  | last found =>
    obtain ⟨fuel, hok⟩ := (fs.findInDirectory_eq_ok_iff _ _ _).mpr found
    refine ⟨fuel, ?_⟩
    rw [outcome_resolveFrom_cons, hok, resolvedOf]
    simp only [bind, Except.bind, if_true]
    split_ifs
    · rfl
    · rfl
  | @step _ rest _ _ _ found isDirectory rest_located ih =>
    obtain ⟨fuel, hok⟩ := (fs.findInDirectory_eq_ok_iff _ _ _).mpr found
    obtain ⟨fuel', hrest⟩ := ih
    have hne : rest ≠ [] := fun h => by
      subst h
      cases rest_located
    refine ⟨max fuel fuel', ?_⟩
    rw [outcome_resolveFrom_cons, outcome_of_prolongs (fs.findInDirectory_prolongs
      (Nat.le_max_left fuel fuel') _ _) (by rw [hok]; simp), hok]
    simp only [bind, Except.bind, hne, isDirectory, if_false, Bool.true_eq_false]
    rw [outcome_of_prolongs (fs.resolveFrom_prolongs (Nat.le_max_right fuel fuel') _ _)
      (by rw [hrest]; simp), hrest]

/-- Every search that resolving the path calls for comes to an end. -/
def ResolveEnds (path : String) : Prop :=
  startsWith path '/' = true → ∀ component directory,
    fs.Searches (pathComponents path) fs.rootCluster component directory →
      fs.SearchEnds component directory

/-- The path names a directory that starts at the cluster. -/
def NamesDirectory (path : String) (start : Nat) : Prop :=
  startsWith path '/' = true ∧
    ((pathComponents path = [] ∧ start = fs.rootCluster) ∨
      ∃ entry, fs.Located (pathComponents path) fs.rootCluster entry ∧
        entry.isDirectory = true ∧ start = entry.firstCluster)

theorem resolveAbsolute_returns_iff (path : String) :
    (∃ fuel, Returns (fs.resolveAbsolute fuel path)) ↔ fs.ResolveEnds path := by
  simp only [resolveAbsolute_eq, ResolveEnds]
  cases startsWith path '/' with
  | false =>
    refine ⟨fun _ h => absurd h Bool.false_ne_true, fun _ => ⟨0, ?_⟩⟩
    rw [if_pos rfl]
    exact fun h => by cases h
  | true =>
    simp only [Bool.true_eq_false, if_false, forall_const]
    rw [← resolveFrom_returns_iff]
    by_cases hnil : pathComponents path = []
    · simp only [hnil, if_true]
      exact ⟨fun _ => ⟨0, fun h => by cases h⟩, fun _ => ⟨0, fun h => by cases h⟩⟩
    · simp only [hnil, if_false]

/-- A directory is named exactly when resolving opens it. -/
theorem opens_iff_namesDirectory (path : String) (start : Nat) :
    fs.Opens path start ↔ fs.NamesDirectory path start := by
  simp only [Opens, NamesDirectory, resolveAbsolute_eq]
  cases startsWith path '/' with
  | false => simp
  | true =>
    simp only [Bool.true_eq_false, if_false, true_and]
    by_cases hnil : pathComponents path = []
    · simp only [hnil, if_true, true_and, outcome_pure]
      constructor
      · rintro ⟨fuel, resolved, hresolved, hstart⟩
        cases hresolved
        exact .inl (Except.ok.inj hstart).symm
      · rintro (rfl | ⟨entry, hlocated, -⟩)
        · exact ⟨0, .rootDirectory, rfl, rfl⟩
        · cases hlocated
    · simp only [hnil, if_false, false_and, false_or]
      constructor
      · rintro ⟨fuel, resolved, hresolved, hstart⟩
        obtain ⟨entry, hlocated, rfl⟩ := fs.located_of_resolveFrom hresolved
        rw [resolvedOf] at hstart
        split_ifs at hstart with hdirectory
        · exact ⟨entry, hlocated, hdirectory, (Except.ok.inj hstart).symm⟩
        · cases hstart
      · rintro ⟨entry, hlocated, hdirectory, rfl⟩
        obtain ⟨fuel, hok⟩ := fs.resolveFrom_of_located hlocated
        refine ⟨fuel, _, hok, ?_⟩
        rw [resolvedOf, if_pos hdirectory]
        rfl

/-! ## Listing a directory -/

/-- A listing goes on from one cluster to another, with what it has written. -/
def ListStep (capacity : Nat) (here there : Nat × List UInt8) : Prop :=
  (∃ entries, fs.clusterEntries here.1 = .ok entries ∧
    (∀ entry ∈ entries, isEndEntry entry = false) ∧
    there.2 = here.2 ++ listing entries ∧ there.2.length ≤ capacity) ∧
  fs.Link here.1 there.1

theorem listingOf_eq_next_iff {capacity : Nat} {entries : List (List UInt8)}
    {written written' : List UInt8} :
    listingOf capacity entries written = .next written' ↔
      (∀ entry ∈ entries, isEndEntry entry = false) ∧ written' = written ++ listing entries ∧
        written'.length ≤ capacity := by
  have hany : (∀ entry ∈ entries, isEndEntry entry = false) ↔ entries.any isEndEntry = false := by
    simp
  rw [listingOf, hany]
  split_ifs with hfull hend
  · constructor
    · exact fun h => by cases h
    · rintro ⟨-, rfl, hle⟩
      omega
  · simp [hend]
  · simp only [Listing.next.injEq, Bool.not_eq_true] at hend ⊢
    constructor
    · rintro rfl
      exact ⟨hend, rfl, by omega⟩
    · rintro ⟨-, rfl, -⟩
      rfl

/-- **One cluster of a listing.** -/
theorem listChain_cases {capacity : Nat} {x : Nat × List UInt8} (hroom : x.2.length ≤ capacity) :
    (∃ y, fs.ListStep capacity x y ∧ ∀ fuel,
      outcome (fs.listChain capacity (fuel + 1) x.1 x.2) =
        outcome (fs.listChain capacity fuel y.1 y.2)) ∨
    ((∀ y, ¬ fs.ListStep capacity x y) ∧
      ∀ fuel, Returns (fs.listChain capacity (fuel + 1) x.1 x.2)) := by
  simp only [Returns, outcome_listChain_succ, ListStep, clusterEntries_eq_ok]
  cases fs.clusterToLba x.1 with
  | error e =>
    refine .inr ⟨?_, fun _ h => by cases h⟩
    rintro y ⟨⟨entries, ⟨clusterLba, hlba, -⟩, -⟩, -⟩
    cases hlba
  | ok clusterLba =>
    dsimp only
    -- A step means that the listing of this cluster went on.
    have hgoes : ∀ y, (∃ entries, (∃ lba,
        (Except.ok clusterLba : Except StorageError Nat) = .ok lba ∧
        fs.sectorEntries lba fs.sectorsPerCluster 0 = .ok entries) ∧
        (∀ entry ∈ entries, isEndEntry entry = false) ∧ y = x.2 ++ listing entries ∧
          y.length ≤ capacity) ↔
        outcome (fs.listCluster capacity clusterLba fs.sectorsPerCluster 0 x.2) =
          .ok (.next y) := by
      intro y
      rw [fs.outcome_listCluster_eq_next _ _ _ hroom]
      simp only [listingOf_eq_next_iff]
      constructor
      · rintro ⟨entries, ⟨lba, hlba, hentries⟩, h⟩
        cases hlba
        exact ⟨entries, hentries, h⟩
      · rintro ⟨entries, hentries, h⟩
        exact ⟨entries, ⟨clusterLba, rfl, hentries⟩, h⟩
    simp only [hgoes]
    have hfuel := fs.outcome_listCluster_ne clusterLba fs.sectorsPerCluster 0 hroom
    cases hlisting : outcome (fs.listCluster capacity clusterLba fs.sectorsPerCluster 0 x.2) with
    | error e =>
      refine .inr ⟨fun y h => ?_, fun _ hout => ?_⟩
      · cases h.1
      · cases hout
        exact hfuel hlisting
    | ok result =>
      cases result with
      | ended _ => exact .inr ⟨fun y h => (by cases h.1), fun _ hout => (by cases hout)⟩
      | tooSmall => exact .inr ⟨fun y h => (by cases h.1), fun _ hout => (by cases hout)⟩
      | next written =>
        cases hlink : outcome (fs.nextCluster x.1) with
        | ok next =>
          exact .inl ⟨(next, written), ⟨rfl, fs.outcome_nextCluster_eq_ok.mp hlink⟩, fun _ => rfl⟩
        | error e =>
          refine .inr ⟨fun y h => ?_, fun _ hout => ?_⟩
          · rw [fs.outcome_nextCluster_eq_ok.mpr h.2] at hlink
            cases hlink
          · cases hout
            exact fs.outcome_nextCluster_ne x.1 hlink

theorem ListStep.functional {capacity : Nat} {x y z : Nat × List UInt8}
    (hy : fs.ListStep capacity x y) (hz : fs.ListStep capacity x z) : y = z := by
  obtain ⟨⟨entries, hentries, -, hwritten, -⟩, hlink⟩ := hy
  obtain ⟨⟨entries', hentries', -, hwritten', -⟩, hlink'⟩ := hz
  cases hentries.symm.trans hentries'
  refine Prod.ext ?_ ?_
  · exact Except.ok.inj (hlink.1.symm.trans hlink'.1)
  · rw [hwritten, hwritten']

theorem finite_listStep (capacity : Nat) : {y | ∃ x, fs.ListStep capacity x y}.Finite := by
  have : Finite UInt8 := Finite.of_injective UInt8.toFin fun _ _ => UInt8.toFin_inj.mp
  refine (fs.finite_link.prod (List.finite_length_le UInt8 capacity)).subset ?_
  rintro y ⟨x, ⟨entries, -, -, -, hroom⟩, hlink⟩
  exact ⟨⟨x.1, hlink⟩, hroom⟩

theorem listChain_returns_iff (capacity start : Nat) :
    (∃ fuel, Returns (fs.listChain capacity fuel start [])) ↔
      ¬ Loops (fs.ListStep capacity) (start, []) := by
  rw [← ends_iff_not_loops (fs.finite_listStep capacity)]
  refine exists_rounds_iff_ends (fun fuel x => Returns (fs.listChain capacity fuel x.1 x.2))
    (I := fun x => x.2.length ≤ capacity) (a := (start, [])) (Nat.zero_le _)
    (fun x y _ h => ?_) (fun x y z hy hz => hy.functional fs hz) (fun x h => h rfl)
    fun fuel x hroom => ?_
  · obtain ⟨⟨entries, -, -, -, hlen⟩, -⟩ := h
    exact hlen
  · obtain ⟨y, hstep, heq⟩ | ⟨hstuck, hdone⟩ := fs.listChain_cases hroom
    · rw [Returns, heq fuel]
      constructor
      · intro hreturns z hz
        rwa [hz.functional fs hstep]
      · exact fun hall => hall y hstep
    · exact ⟨fun _ y hy => absurd hy (hstuck y), fun _ => hdone fuel⟩

theorem outcome_readDir (fuel : Nat) (path : String) (capacity : Nat) :
    outcome (fs.readDir fuel path capacity) =
      outcome (fs.resolveAbsolute fuel path) >>= fun resolved =>
        match fs.directoryCluster resolved with
        | .ok start => outcome (fs.listChain capacity fuel start [])
        | .error e => .error (.storage e) := by
  rw [readDir, outcome_bind (fs.determined_resolveAbsolute _ _)]
  · congr 1
    funext resolved
    rw [outcome_liftResult_bind]
    cases fs.directoryCluster resolved with
    | ok start => rfl
    | error e => rfl
  · exact fun _ => (Determined.liftResult _).bind fun _ => fs.determined_listChain _ _ _ _

/-- `read_dir` returns exactly when resolving the path does and listing the directory does. -/
theorem readDir_returns_iff (path : String) (capacity : Nat) :
    (∃ fuel, Returns (fs.readDir fuel path capacity)) ↔
      (∃ fuel, Returns (fs.resolveAbsolute fuel path)) ∧
        ∀ start, fs.Opens path start →
          ∃ fuel, Returns (fs.listChain capacity fuel start []) := by
  constructor
  · rintro ⟨fuel, hreturns⟩
    have hresolve : Returns (fs.resolveAbsolute fuel path) := by
      intro hout
      rw [Returns, outcome_readDir, hout] at hreturns
      exact hreturns rfl
    refine ⟨⟨fuel, hresolve⟩, fun start hopens => ?_⟩
    obtain ⟨enough, hreadDir⟩ := fs.outcome_readDir_of_opens hopens capacity
    refine ⟨max fuel enough, ?_⟩
    rw [Returns, ← hreadDir _ (Nat.le_max_right _ _),
      outcome_of_prolongs (fs.readDir_prolongs (Nat.le_max_left _ _) _ _) hreturns]
    exact hreturns
  · rintro ⟨⟨fuel, hresolve⟩, hlist⟩
    cases hresolved : outcome (fs.resolveAbsolute fuel path) with
    | error e =>
      refine ⟨fuel, fun hout => ?_⟩
      rw [outcome_readDir, hresolved] at hout
      cases hout
      exact hresolve hresolved
    | ok resolved =>
      cases hcluster : fs.directoryCluster resolved with
      | error e =>
        refine ⟨fuel, fun hout => ?_⟩
        rw [outcome_readDir, hresolved] at hout
        simp only [bind, Except.bind, hcluster] at hout
        cases hout
      | ok start =>
        have hopens : fs.Opens path start := ⟨fuel, resolved, hresolved, hcluster⟩
        obtain ⟨fuel', hreturns⟩ := hlist start hopens
        obtain ⟨enough, hreadDir⟩ := fs.outcome_readDir_of_opens hopens capacity
        refine ⟨max fuel' enough, ?_⟩
        rw [Returns, hreadDir _ (Nat.le_max_right _ _), outcome_of_prolongs
          (fs.listChain_prolongs capacity (Nat.le_max_left _ _) _ _) hreturns]
        exact hreturns

/-- **Which directory scans return.** For every disk, cluster and path: a search returns exactly
when it does not come back to a cluster it has passed over; resolving a path, exactly when
none of the searches it calls for does; and a listing, exactly when moreover it does not come
back to a cluster with nothing written in between. -/
theorem directory_scans_return_iff (fs : Fat32) :
    (∀ cluster component, (∃ fuel, Returns (fs.findInDirectory fuel cluster component)) ↔
      fs.SearchEnds component cluster) ∧
    (∀ path, (∃ fuel, Returns (fs.resolveAbsolute fuel path)) ↔ fs.ResolveEnds path) ∧
    ∀ path capacity, (∃ fuel, Returns (fs.readDir fuel path capacity)) ↔
      fs.ResolveEnds path ∧ ∀ start, fs.NamesDirectory path start →
        ¬ Loops (fs.ListStep capacity) (start, []) := by
  refine ⟨fs.findInDirectory_returns_iff, fs.resolveAbsolute_returns_iff,
    fun path capacity => ?_⟩
  rw [fs.readDir_returns_iff, fs.resolveAbsolute_returns_iff]
  simp only [fs.listChain_returns_iff, fs.opens_iff_namesDirectory]

/-- A root directory of deleted entries whose one cluster is linked to itself. -/
def loopVolume : Fat32 :=
  smallVolume (tableOf [2, 0, 0, 0])
    (filledSector (0xe5 :: (directoryEntry "BIN        " 16 3).tail) (by decide +kernel))

theorem loops_loopVolume {shortName : List UInt8} :
    Loops (loopVolume.SearchStep shortName) 2 := by
  have hentries : (loopVolume.clusterEntries 2).toOption.map (fun es =>
      es.all fun entry => !isEndEntry entry && isHiddenEntry entry) = some true := by
    decide +kernel
  have hlink : loopVolume.Link 2 2 := ⟨by decide +kernel, by decide, by decide⟩
  refine ⟨2, .refl, .single ⟨?_, hlink⟩⟩
  cases hall : loopVolume.clusterEntries 2 with
  | error e =>
    rw [hall] at hentries
    cases hentries
  | ok entries =>
    rw [hall] at hentries
    refine ⟨entries, rfl, fun entry hentry => ?_⟩
    have hentry' := List.all_eq_true.mp (Option.some.inj hentries) entry hentry
    rw [Bool.and_eq_true, Bool.not_eq_true'] at hentry'
    exact ⟨hentry'.1, .inl hentry'.2⟩

/-- **A search that does not return**, on a disk that mounts. -/
theorem directory_scan_hangs :
    ¬ ∀ device partition fs, outcome (mount device partition) = .ok fs →
      (∀ cluster component, ∃ fuel, Returns (fs.findInDirectory fuel cluster component)) ∧
      (∀ path, ∃ fuel, Returns (fs.resolveAbsolute fuel path)) ∧
      ∀ path capacity, ∃ fuel, Returns (fs.readDir fuel path capacity) := by
  intro hclaim
  have hmount : outcome (mount loopVolume.device smallPartition) = .ok loopVolume :=
    mount_of_fields (by decide +kernel)
  have hreturns := (hclaim _ _ _ hmount).1 2 "lash"
  obtain ⟨shortName, hname⟩ : ∃ shortName, makeShortName "lash" = .ok shortName := ⟨_, rfl⟩
  exact (loopVolume.findInDirectory_returns_iff 2 "lash").mp hreturns shortName hname
    loops_loopVolume

end Fat32

end Lazers.Storage
