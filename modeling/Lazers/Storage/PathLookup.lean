import Lazers.Storage.Lookup
import Lazers.Storage.ShortNames

/-!
# Path lookup

`resolve_absolute` takes a path apart and looks its components up, each in the directory that the
one before led to. `walk` says what comes out of that if `content` holds what is in each directory:
the first entry in use with the name decides, at every step.

`resolve_absolute_walks`: on a volume whose directories have contents (`Holds`) the result is that
of the walk, it is missing exactly where the walk gets stuck (`Stuck`), and the case of letters in
the path makes no difference.
-/

namespace Lazers.Storage

/-! ## The walk -/

/-- What the last component stands for. -/
def resolvedOf (entry : FatDirectoryEntry) : FatResolvedPath :=
  if entry.isDirectory then .directory entry.firstCluster else .file entry

section

variable (content : Nat → List (List UInt8))

/-- The entry for a name in the directory at a cluster. -/
def entryNamed (name : Vector UInt8 11) (cluster : Nat) : Option FatDirectoryEntry :=
  firstNamed name.toList (content cluster)

/-- The directory that some names lead to. -/
def directoryAt : (names : List (Vector UInt8 11)) → (cluster : Nat) → Option Nat
  | [], cluster => some cluster
  | name :: rest, cluster => do
    let entry ← entryNamed content name cluster
    if entry.isDirectory then directoryAt rest entry.firstCluster else none

/-- **Walking the components**, from a directory: all but the last go on to a directory. -/
def walkFrom : (names : List (Vector UInt8 11)) → (cluster : Nat) → Option FatResolvedPath
  | [], _ => none
  | [name], cluster => (entryNamed content name cluster).map resolvedOf
  | name :: rest, cluster => do
    let entry ← entryNamed content name cluster
    if entry.isDirectory then walkFrom rest entry.firstCluster else none

/-- The walk from the root. -/
def walk (root : Nat) (names : List (Vector UInt8 11)) : Option FatResolvedPath :=
  if names = [] then some .rootDirectory else walkFrom content names root

/-- **Where a walk gets stuck**: some step finds no entry, or finds a file with components left. -/
def Stuck (root : Nat) (names : List (Vector UInt8 11)) : Prop :=
  ∃ before name after cluster, names = before ++ name :: after ∧
    directoryAt content before root = some cluster ∧
    (entryNamed content name cluster = none ∨
      after ≠ [] ∧ ∃ entry, entryNamed content name cluster = some entry ∧
        entry.isDirectory = false)

variable {content}

theorem walkFrom_cons {name : Vector UInt8 11} {rest : List (Vector UInt8 11)} (h : rest ≠ [])
    (cluster : Nat) :
    walkFrom content (name :: rest) cluster = (entryNamed content name cluster).bind fun entry =>
      if entry.isDirectory then walkFrom content rest entry.firstCluster else none := by
  cases rest with
  | nil => exact absurd rfl h
  | cons name' rest => rfl

/-- The walk gets stuck here or behind the first entry. -/
theorem stuck_cons {name : Vector UInt8 11} {rest : List (Vector UInt8 11)} {cluster : Nat} :
    Stuck content cluster (name :: rest) ↔
      entryNamed content name cluster = none ∨
        ∃ entry, entryNamed content name cluster = some entry ∧
          (rest ≠ [] ∧ entry.isDirectory = false ∨
            entry.isDirectory = true ∧ Stuck content entry.firstCluster rest) := by
  constructor
  · rintro ⟨before, stop, after, last, hnames, hlead, hstop⟩
    cases before with
    | nil =>
      cases hnames
      cases hlead
      exact hstop.imp_right fun ⟨hafter, entry, hentry, hfile⟩ =>
        ⟨entry, hentry, .inl ⟨hafter, hfile⟩⟩
    | cons first before =>
      cases hnames
      rw [directoryAt, Option.bind_eq_bind, Option.bind_eq_some_iff] at hlead
      obtain ⟨entry, hentry, hlead⟩ := hlead
      split_ifs at hlead with hdirectory
      exact .inr ⟨entry, hentry, .inr ⟨hdirectory, before, stop, after, last, rfl, hlead, hstop⟩⟩
  · rintro (hnone | ⟨entry, hentry, ⟨hrest, hfile⟩ |
      ⟨hdirectory, before, stop, after, last, rfl, hlead, hstop⟩⟩)
    · exact ⟨[], name, rest, cluster, rfl, rfl, .inl hnone⟩
    · exact ⟨[], name, rest, cluster, rfl, rfl, .inr ⟨hrest, entry, hentry, hfile⟩⟩
    · refine ⟨name :: before, stop, after, last, rfl, ?_, hstop⟩
      rw [directoryAt, hentry]
      exact (if_pos hdirectory).trans hlead

theorem walkFrom_eq_none_iff {names : List (Vector UInt8 11)} (h : names ≠ []) (cluster : Nat) :
    walkFrom content names cluster = none ↔ Stuck content cluster names := by
  induction names generalizing cluster with
  | nil => exact absurd rfl h
  | cons name rest ih =>
    rw [stuck_cons]
    by_cases hrest : rest = []
    · subst hrest
      have hdone : ∀ root, ¬ Stuck content root [] := by
        rintro root ⟨before, stop, after, _, hnames, -⟩
        simp at hnames
      rw [walkFrom, Option.map_eq_none_iff]
      simp [hdone]
    · rw [walkFrom_cons hrest]
      cases entryNamed content name cluster with
      | none => simp
      | some entry =>
        cases hdirectory : entry.isDirectory with
        | false => simp [hdirectory, hrest]
        | true => simp [hdirectory, ih hrest]

/-- The root is always there; a longer walk comes to an end unless it gets stuck. -/
theorem walk_eq_none_iff (root : Nat) (names : List (Vector UInt8 11)) :
    walk content root names = none ↔ Stuck content root names := by
  rw [walk]
  by_cases hnames : names = []
  · rw [if_pos hnames, hnames]
    constructor
    · exact fun h => by cases h
    · rintro ⟨before, stop, after, _, hnil, -⟩
      simp at hnil
  · rw [if_neg hnames, walkFrom_eq_none_iff hnames]

end

namespace Fat32

variable (fs : Fat32) (content : Nat → List (List UInt8))

/-! ## Volumes -/

/-- The directories that components lead to. -/
inductive Reached : (cluster : Nat) → Prop where
  | root : Reached fs.rootCluster
  | sub {cluster : Nat} {component : String} {name : Vector UInt8 11} {entry : FatDirectoryEntry}
      (above : Reached cluster) (accepted : makeShortName component = .ok name)
      (found : entryNamed content name cluster = some entry)
      (isDirectory : entry.isDirectory = true) : Reached entry.firstCluster

/-- **A volume with its directories**: each one can be read up to its end entry or to the end of
its chain, and `content` is what is in it. A directory with a complete chain in range is one
(`contents_of_chain`). -/
def Holds : Prop := ∀ cluster, fs.Reached content cluster → fs.Contents cluster (content cluster)

/-- The components are valid, and these are their short names. -/
def ShortNames (components : List String) (names : List (Vector UInt8 11)) : Prop :=
  List.Forall₂ (fun component name => makeShortName component = .ok name) components names

variable {fs content}

theorem outcome_resolveFrom_of_holds (hvolume : fs.Holds content) {components : List String}
    {names : List (Vector UInt8 11)} (hnames : ShortNames components names)
    (hne : components ≠ []) {cluster : Nat} (hreached : fs.Reached content cluster) :
    ∃ enough, ∀ fuel, enough ≤ fuel →
      outcome (fs.resolveFrom fuel components cluster) =
        match walkFrom content names cluster with
        | some resolved => .ok resolved
        | none => .error (.storage .fileNotFound) := by
  induction hnames generalizing cluster with
  | nil => exact absurd rfl hne
  | @cons component name components names hname hrest ih =>
    obtain ⟨enough, hfind⟩ :=
      fs.outcome_findInDirectory_of_contents (hvolume cluster hreached) hname
    by_cases hlast : components = []
    · subst hlast
      cases hrest
      refine ⟨enough, fun fuel hfuel => ?_⟩
      rw [outcome_resolveFrom_cons, hfind fuel hfuel, walkFrom, entryNamed]
      cases firstNamed name.toList (content cluster) with
      | none => rfl
      | some entry =>
        show (if entry.isDirectory = true then _ else _) = Except.ok (resolvedOf entry)
        rw [resolvedOf]
        split_ifs
        · rfl
        · rfl
    · have hnamesNe : names ≠ [] := by
        rintro rfl
        exact hlast (List.forall₂_nil_right_iff.mp hrest)
      rw [walkFrom_cons hnamesNe]
      cases hentry : entryNamed content name cluster with
      | none =>
        rw [entryNamed] at hentry
        refine ⟨enough, fun fuel hfuel => ?_⟩
        rw [outcome_resolveFrom_cons, hfind fuel hfuel, hentry]
        rfl
      | some entry =>
        have hfirst : firstNamed name.toList (content cluster) = some entry := hentry
        cases hdirectory : entry.isDirectory with
        | false =>
          refine ⟨enough, fun fuel hfuel => ?_⟩
          rw [outcome_resolveFrom_cons, hfind fuel hfuel, hfirst]
          show (if components = [] then _ else if entry.isDirectory = false then _ else _) = _
          rw [if_neg hlast, if_pos hdirectory]
          simp [hdirectory]
        | true =>
          obtain ⟨enough', hdeeper⟩ := ih hlast (.sub hreached hname hentry hdirectory)
          refine ⟨max enough enough', fun fuel hfuel => ?_⟩
          rw [outcome_resolveFrom_cons, hfind fuel (by omega), hfirst]
          show (if components = [] then _ else if entry.isDirectory = false then _ else _) = _
          rw [if_neg hlast, if_neg (by simp [hdirectory]), hdeeper fuel (by omega)]
          simp [hdirectory]

theorem outcome_resolveAbsolute_of_holds (hvolume : fs.Holds content) {path : String}
    (habsolute : startsWith path '/' = true) {names : List (Vector UInt8 11)}
    (hnames : ShortNames (pathComponents path) names) :
    ∃ enough, ∀ fuel, enough ≤ fuel →
      outcome (fs.resolveAbsolute fuel path) =
        match walk content fs.rootCluster names with
        | some resolved => .ok resolved
        | none => .error (.storage .fileNotFound) := by
  by_cases hroot : pathComponents path = []
  · rw [hroot] at hnames
    cases hnames
    refine ⟨0, fun fuel _ => ?_⟩
    rw [resolveAbsolute_eq, if_neg (by simp [habsolute]), if_pos hroot]
    rfl
  · have hnamesNe : names ≠ [] := by
      rintro rfl
      exact hroot (List.forall₂_nil_right_iff.mp hnames)
    obtain ⟨enough, hresolve⟩ := outcome_resolveFrom_of_holds hvolume hnames hroot .root
    refine ⟨enough, fun fuel hfuel => ?_⟩
    rw [resolveAbsolute_eq, if_neg (by simp [habsolute]), if_neg hroot, hresolve fuel hfuel, walk,
      if_neg hnamesNe]

/-! ## The case of letters -/

theorem resolveFrom_congr (fuel : Nat) {components components' : List String}
    {names : List (Vector UInt8 11)} (h : ShortNames components names)
    (h' : ShortNames components' names) (cluster : Nat) :
    fs.resolveFrom fuel components' cluster = fs.resolveFrom fuel components cluster := by
  induction h generalizing components' cluster with
  | nil =>
    cases h'
    rfl
  | @cons component name components names hname hrest ih =>
    cases h' with
    | @cons component' _ components' _ hname' hrest' =>
      have hnil : components' = [] ↔ components = [] := by
        rw [← List.length_eq_zero_iff, ← List.length_eq_zero_iff, hrest'.length_eq,
          hrest.length_eq]
      rw [resolveFrom, resolveFrom, findInDirectory, findInDirectory, hname, hname']
      congr 1
      funext entry
      simp only [hnil, ih hrest']

/-- Components that differ in the case of letters have the same short names. -/
theorem shortNames_of_case {components components' : List String}
    {names : List (Vector UInt8 11)} (h : ShortNames components names)
    (hcase : components'.map (fun c => (strBytes c).map toAsciiUppercase) =
      components.map (fun c => (strBytes c).map toAsciiUppercase)) :
    ShortNames components' names := by
  induction h generalizing components' with
  | nil =>
    rw [List.map_nil, List.map_eq_nil_iff] at hcase
    rw [hcase]
    exact .nil
  | cons hname _ ih =>
    obtain ⟨component', rest', rfl, hhere, hthere⟩ := List.map_eq_cons_iff.mp hcase
    exact .cons (makeShortName_of_case hname hhere) (ih hthere)

theorem splitOn_map {α : Type*} [DecidableEq α] {f : α → α} {a : α} (hf : ∀ x, f x = a ↔ x = a)
    (xs : List α) : (xs.map f).splitOn a = (xs.splitOn a).map (List.map f) := by
  induction xs with
  | nil => rfl
  | cons x xs ih =>
    rw [List.map_cons, List.splitOn_cons_eq_if_modifyHead, List.splitOn_cons_eq_if_modifyHead, ih]
    simp only [beq_iff_eq, hf]
    split_ifs
    · rfl
    · cases xs.splitOn a with
      | nil => rfl
      | cons piece pieces => rfl

/-- The components in upper case are those of the path in upper case. -/
theorem map_pathComponents (path : String) :
    (pathComponents path).map (fun c => (strBytes c).map toAsciiUppercase) =
      (((strBytes path).map toAsciiUppercase).splitOn 47).filter (· ≠ []) := by
  have hslash : ∀ b, toAsciiUppercase b = 47 ↔ b = 47 :=
    forall_byte (p := fun b => toAsciiUppercase b = 47 ↔ b = 47) (by decide +kernel)
  rw [splitOn_map hslash, ← map_strBytes_split_slash, List.map_map, List.filter_map,
    pathComponents]
  congr 1
  refine List.filter_congr fun c _ => ?_
  simp [strBytes_eq_nil]

theorem startsWith_slash_of_case {path path' : String}
    (hcase : (strBytes path').map toAsciiUppercase = (strBytes path).map toAsciiUppercase) :
    startsWith path' '/' = startsWith path '/' := by
  have hslash : ∀ b, toAsciiUppercase b = 47 ↔ b = 47 :=
    forall_byte (p := fun b => toAsciiUppercase b = 47 ↔ b = 47) (by decide +kernel)
  have hhead : ∀ s : String, startsWith s '/' = true ↔
      ((strBytes s).map toAsciiUppercase).head? = some 47 := by
    intro s
    rw [startsWith_iff (by decide), List.head?_map, Option.map_eq_some_iff]
    constructor
    · exact fun h => ⟨47, h, rfl⟩
    · rintro ⟨b, hb, hupper⟩
      rw [hb, (hslash b).mp hupper]
      rfl
  rw [Bool.eq_iff_iff, hhead, hhead, hcase]

theorem resolveAbsolute_of_case (fuel : Nat) {path path' : String}
    {names : List (Vector UInt8 11)} (hnames : ShortNames (pathComponents path) names)
    (hcase : (strBytes path').map toAsciiUppercase = (strBytes path).map toAsciiUppercase) :
    fs.resolveAbsolute fuel path' = fs.resolveAbsolute fuel path := by
  have hnames' : ShortNames (pathComponents path') names := by
    refine shortNames_of_case hnames ?_
    rw [map_pathComponents, map_pathComponents, hcase]
  have hnil : pathComponents path' = [] ↔ pathComponents path = [] := by
    rw [← List.length_eq_zero_iff, ← List.length_eq_zero_iff, hnames.length_eq,
      hnames'.length_eq]
  rw [resolveAbsolute_eq, resolveAbsolute_eq, startsWith_slash_of_case hcase,
    resolveFrom_congr fuel hnames hnames']
  simp only [hnil]

/-! ## The result -/

/-- **Path lookup.** For every volume whose directories can be read, and every absolute path of
valid components: `resolve_absolute` returns what the walk over the first entries in use comes to;
it reports a missing file exactly if some step has no such entry, or a component before the last
one names a file; and a path that differs in the case of letters only is resolved alike. -/
theorem resolve_absolute_walks (hvolume : fs.Holds content) {path : String}
    (habsolute : startsWith path '/' = true) {names : List (Vector UInt8 11)}
    (hnames : ShortNames (pathComponents path) names) :
    (∃ enough, ∀ fuel, enough ≤ fuel →
      outcome (fs.resolveAbsolute fuel path) =
        match walk content fs.rootCluster names with
        | some resolved => .ok resolved
        | none => .error (.storage .fileNotFound)) ∧
    ((∃ fuel, outcome (fs.resolveAbsolute fuel path) = .error (.storage .fileNotFound)) ↔
      Stuck content fs.rootCluster names) ∧
    ∀ path', (strBytes path').map toAsciiUppercase = (strBytes path).map toAsciiUppercase →
      ∀ fuel, fs.resolveAbsolute fuel path' = fs.resolveAbsolute fuel path := by
  obtain ⟨enough, hresolve⟩ := outcome_resolveAbsolute_of_holds hvolume habsolute hnames
  refine ⟨⟨enough, hresolve⟩, ?_, fun path' hcase fuel =>
    resolveAbsolute_of_case fuel hnames hcase⟩
  rw [← walk_eq_none_iff]
  constructor
  · rintro ⟨fuel, hmissing⟩
    have hmore := outcome_of_prolongs
      (fs.resolveAbsolute_prolongs (Nat.le_max_left fuel enough) path) (by rw [hmissing]; simp)
    rw [hresolve _ (Nat.le_max_right _ _), hmissing] at hmore
    cases hwalk : walk content fs.rootCluster names with
    | none => rfl
    | some resolved =>
      rw [hwalk] at hmore
      cases hmore
  · intro hstuck
    refine ⟨enough, ?_⟩
    rw [hresolve _ (Nat.le_refl _), hstuck]

/-- What is in every directory of the small volume: `BIN`, at cluster 3. -/
def binEntries : List (List UInt8) := entriesOf (sectorOf (directoryEntry "BIN        " 16 3))

theorem contents_binEntries {cluster : Nat} (h : cluster = 2 ∨ cluster = 3) :
    listedVolume.Contents cluster binEntries := by
  have hsector : ∀ lba, lba = 2 ∨ lba = 3 → listedVolume.device.sector (wrap64 (lba + 0)) =
      .ok (sectorOf (directoryEntry "BIN        " 16 3)) := by
    rintro _ (rfl | rfl) <;> rfl
  have hentries : listedVolume.sectorEntries cluster 1 0 = .ok binEntries :=
    listedVolume.sectorEntries_succ_eq_ok.mpr
      ⟨_, [], hsector cluster h, rfl, (List.append_nil _).symm⟩
  have hlba : listedVolume.clusterToLba cluster = .ok cluster := ?_
  · exact .ended hlba (by decide) hentries (by decide +kernel)
  obtain rfl | rfl := h
  · decide +kernel
  · decide +kernel

theorem holds_listedVolume : listedVolume.Holds fun _ => binEntries := by
  intro cluster hreached
  refine contents_binEntries ?_
  induction hreached with
  | root => exact .inl rfl
  | sub _ _ found _ _ =>
    rw [entryNamed, firstNamed, Option.map_eq_some_iff] at found
    obtain ⟨entry, hentry, rfl⟩ := found
    have hall : (liveEntries binEntries).all (fun e => (fileOf e).firstCluster = 3) = true := by
      decide +kernel
    have hmem := List.mem_of_find?_eq_some hentry
    exact .inr (of_decide_eq_true (List.all_eq_true.mp hall entry hmem))

theorem resolve_absolute_walks_at_bin :
    ∃ enough, outcome (listedVolume.resolveAbsolute enough "/BIN/bin") = .ok (.directory 3) ∧
      listedVolume.resolveAbsolute enough "/bin/Bin" =
        listedVolume.resolveAbsolute enough "/BIN/bin" := by
  have hname : ∀ c name, strBytes c = dottedName name [] → Parts isNameByte name [] →
      paddedName (name.map toAsciiUppercase) [] = [66, 73, 78, 32, 32, 32, 32, 32, 32, 32, 32] →
      makeShortName c = .ok #v[66, 73, 78, 32, 32, 32, 32, 32, 32, 32, 32] :=
    fun c name hc hparts hpadded => makeShortName_iff.mpr ⟨name, [], hparts, hc, hpadded.symm⟩
  have hcomponents : pathComponents "/BIN/bin" = ["BIN", "bin"] := by decide
  have hnames : ShortNames (pathComponents "/BIN/bin")
      [#v[66, 73, 78, 32, 32, 32, 32, 32, 32, 32, 32],
        #v[66, 73, 78, 32, 32, 32, 32, 32, 32, 32, 32]] := by
    rw [hcomponents]
    refine .cons (hname _ [66, 73, 78] (by decide) ?_ (by decide))
      (.cons (hname _ [98, 105, 110] (by decide) ?_ (by decide)) .nil)
    · exact ⟨by decide, by decide, by decide, List.all_eq_true.mp (by decide)⟩
    · exact ⟨by decide, by decide, by decide, List.all_eq_true.mp (by decide)⟩
  obtain ⟨⟨enough, hresolve⟩, -, hcase⟩ :=
    resolve_absolute_walks holds_listedVolume (by decide) hnames
  have hwalk : walk (fun _ => binEntries) listedVolume.rootCluster
      [#v[66, 73, 78, 32, 32, 32, 32, 32, 32, 32, 32],
        #v[66, 73, 78, 32, 32, 32, 32, 32, 32, 32, 32]] = some (.directory 3) := by
    decide +kernel
  refine ⟨enough, ?_, hcase "/bin/Bin" (by decide) enough⟩
  rw [hresolve _ (Nat.le_refl _), hwalk]

end Fat32

end Lazers.Storage
