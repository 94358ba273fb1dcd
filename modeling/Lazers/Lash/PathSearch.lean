import Lazers.Lash.Commands

/-!
# The search path (`lash/src/paths.rs`)

`with_path_candidates` cuts `PATH` at its colons with a loop of its own, over byte indices. What
the visitor does at a candidate is up to a monad, so that an equation between two searches says
that they visit the same candidates in the same order.

- `searchFrom_eq`: the loop goes over the entries between the colons, each of them once.
- `withPathCandidates_eq_loop`: the search that `where` and running a command share is this loop.
- `withPathCandidates_visits`: whatever `PATH` and command the other layers let through, there is
  room for every candidate, and the candidates are the absolute entries with the command
  behind them.
-/

namespace Lazers.Lash.PathSearch

open KernelAbi Kernel LibLazer Scheduler

variable {m : Type → Type} [Monad m] {T : Type}

/-- `liblazer::get_env` in a process with this environment, on a buffer of `room` bytes: the
filled part. -/
def getEnvIn (env : Environment) (key : String) (room : Nat) : Except GetEnvError (List UInt8) :=
  match env.get key with
  | .error e => .error (.ofAccess (mapEnvironmentError e))
  | .ok none => .error .notFound
  | .ok (some value) =>
    if room < (strBytes value).length then .error .bufferTooSmall else .ok (strBytes value)

def outcome (matched : Bool) : PathSearchOutcome T := if matched then .matched else .noMatches

/-- The loop of `with_path_candidates`. -/
def searchFrom (command : String) (visitor : String → m (PathSearchStep T)) (path : List UInt8)
    (segmentStart : Nat) (matched : Bool) : m (Except ResolutionError (PathSearchOutcome T)) :=
  if segmentStart ≤ path.length then
    let remainder := path.drop segmentStart
    -- `find(':').unwrap_or(remainder.len())`
    let segmentLen := remainder.idxOf 58
    let entry := remainder.take segmentLen
    if entry ≠ [] ∧ entry.head? = some 47 then
      match buildPathCandidate entry command with
      | .error e => pure (.error e)
      | .ok candidate => do
        match ← visitor candidate with
        | .returnWith value => pure (.ok (.returned value))
        | .continue =>
          if _h : segmentStart + segmentLen ≥ path.length then pure (.ok (outcome matched))
          else searchFrom command visitor path (segmentStart + segmentLen + 1) matched
        | .matched =>
          if _h : segmentStart + segmentLen ≥ path.length then pure (.ok (outcome true))
          else searchFrom command visitor path (segmentStart + segmentLen + 1) true
    else if _h : segmentStart + segmentLen ≥ path.length then pure (.ok (outcome matched))
    else searchFrom command visitor path (segmentStart + segmentLen + 1) matched
  else pure (.ok (outcome matched))
termination_by path.length - segmentStart

/-- `Shell::with_path_candidates`. -/
def withPathCandidates (getEnv : String → Nat → Except GetEnvError (List UInt8))
    (command : String) (visitor : String → m (PathSearchStep T)) :
    m (Except ResolutionError (PathSearchOutcome T)) :=
  match loadPath getEnv with
  | none => pure (.ok .noMatches)
  | some path => searchFrom command visitor (strBytes path) 0 false

/-! ## Entries -/

/-- A list is cut at the first separator, and then behind it. -/
theorem splitOn_idxOf (l : List UInt8) (a : UInt8) :
    l.splitOn a = l.take (l.idxOf a) ::
      if l.idxOf a < l.length then (l.drop (l.idxOf a + 1)).splitOn a else [] := by
  have hnot : a ∉ l.take (l.idxOf a) := by
    intro hmem
    have hfalse := List.false_of_mem_take_findIdx hmem
    rw [beq_self_eq_true] at hfalse
    cases hfalse
  have hsplit := splitOn_append_of_notMem hnot (l.drop (l.idxOf a))
  rw [List.take_append_drop] at hsplit
  rw [hsplit]
  split_ifs with hlt
  · rw [List.drop_eq_getElem_cons hlt, List.getElem_idxOf hlt, List.splitOn_cons_eq_if_modifyHead,
      if_pos (beq_self_eq_true a)]
    simp
  · rw [List.drop_eq_nil_of_le (Nat.not_lt.mp hlt)]
    simp

/-- The search over a list of entries. -/
def searchEntries (command : String) (visitor : String → m (PathSearchStep T)) :
    List (List UInt8) → (matched : Bool) → m (Except ResolutionError (PathSearchOutcome T))
  | [], matched => pure (.ok (outcome matched))
  | entry :: rest, matched =>
    if entry ≠ [] ∧ entry.head? = some 47 then
      match buildPathCandidate entry command with
      | .error e => pure (.error e)
      | .ok candidate => do
        match ← visitor candidate with
        | .returnWith value => pure (.ok (.returned value))
        | .continue => searchEntries command visitor rest matched
        | .matched => searchEntries command visitor rest true
    else searchEntries command visitor rest matched

/-- **The loop goes over the entries between the colons.** -/
theorem searchFrom_eq (command : String) (visitor : String → m (PathSearchStep T))
    {path : List UInt8} {segmentStart : Nat} (h : segmentStart ≤ path.length) (matched : Bool) :
    searchFrom command visitor path segmentStart matched =
      searchEntries command visitor ((path.drop segmentStart).splitOn 58) matched := by
  induction hn : path.length - segmentStart using Nat.strong_induction_on
    generalizing segmentStart matched with
  | _ n ih =>
    have hlen : (path.drop segmentStart).length = path.length - segmentStart := List.length_drop
    have hle : (path.drop segmentStart).idxOf 58 ≤ (path.drop segmentStart).length :=
      List.idxOf_le_length
    rw [searchFrom, if_pos h, splitOn_idxOf]
    dsimp only
    generalize (path.drop segmentStart).idxOf 58 = segmentLen at hle ⊢
    -- what happens behind an entry
    have hnext : ∀ matched : Bool, (if _h : segmentStart + segmentLen ≥ path.length then
          pure (.ok (outcome matched))
        else searchFrom command visitor path (segmentStart + segmentLen + 1) matched) =
        searchEntries command visitor (if segmentLen < (path.drop segmentStart).length then
          ((path.drop segmentStart).drop (segmentLen + 1)).splitOn 58 else []) matched := by
      intro matched
      split_ifs with hend hlt hlt
      · omega
      · rfl
      · rw [ih _ (by omega) (by omega) matched rfl, List.drop_drop, Nat.add_assoc]
      · omega
    rw [searchEntries]
    simp only [hnext]

/-- The counter and the lines of a visitor, as a state. -/
def counted (visitor : Visitor T) (candidate : String) :
    StateT (Nat × List Line) Option (PathSearchStep T) := fun (visited, printed) =>
  (visitor visited candidate).map fun (lines, step) => (step, visited + 1, printed ++ lines)

theorem visitEntries_eq_searchEntries (command : String) (visitor : Visitor T)
    (entries : List (List UInt8)) (visited : Nat) (matched : Bool) (printed : List Line) :
    visitEntries command visitor entries visited matched printed =
      ((searchEntries command (counted visitor) entries matched).run (visited, printed)).map
        fun (result, _, printed) => (printed, result) := by
  induction entries generalizing visited matched printed with
  | nil => rfl
  | cons entry rest ih =>
    rw [visitEntries, searchEntries]
    split_ifs with habs
    · cases buildPathCandidate entry command with
      | error e => rfl
      | ok candidate =>
        dsimp only
        rw [StateT.run_bind]
        cases hvisit : visitor visited candidate with
        | none => simp [counted, hvisit, StateT.run]
        | some visit =>
          obtain ⟨lines, step⟩ := visit
          have hrun : (counted visitor candidate).run (visited, printed) =
              some (step, visited + 1, printed ++ lines) := by
            simp [counted, hvisit, StateT.run]
          rw [hrun]
          cases step with
          | «continue» => exact ih _ _ _
          | matched => exact ih _ _ _
          | returnWith value => rfl
    · exact ih _ _ _

/-- **One search**: the visits of `where` and of running a command are those of the loop. -/
theorem withPathCandidates_eq_loop (getEnv : String → Nat → Except GetEnvError (List UInt8))
    (command : String) (visitor : Visitor T) :
    Lash.withPathCandidates getEnv command visitor =
      ((withPathCandidates getEnv command (counted visitor)).run (0, [])).map
        fun (result, _, printed) => (printed, result) := by
  rw [Lash.withPathCandidates, withPathCandidates]
  cases loadPath getEnv with
  | none => rfl
  | some path =>
    dsimp only
    rw [searchFrom_eq command _ (Nat.zero_le _), visitEntries_eq_searchEntries]
    rfl

/-! ## Candidates -/

/-- Only absolute entries count. -/
def isSearched (entry : String) : Bool := entry ≠ "" && startsWith entry '/'

/-- **The candidates of a command**: the absolute entries of the path, with the command behind. -/
def candidatesIn (path command : String) : List String :=
  ((split path ':').filter isSearched).map (· ++ "/" ++ command)

/-- The visits, up to the first that ends them. -/
def visitAll (visitor : String → m (PathSearchStep T)) :
    List String → (matched : Bool) → m (PathSearchOutcome T)
  | [], matched => pure (outcome matched)
  | candidate :: rest, matched => do
    match ← visitor candidate with
    | .returnWith value => pure (.returned value)
    | .continue => visitAll visitor rest matched
    | .matched => visitAll visitor rest true

theorem length_le_of_mem_splitOn {l entry : List UInt8} {a : UInt8} (h : entry ∈ l.splitOn a) :
    entry.length ≤ l.length := by
  induction l generalizing entry with
  | nil =>
    rw [List.splitOn_nil, List.mem_singleton] at h
    rw [h]
  | cons b l ih =>
    rw [List.splitOn_cons_eq_if_modifyHead] at h
    split_ifs at h
    · rcases List.mem_cons.mp h with rfl | h
      · exact Nat.zero_le _
      · exact Nat.le_succ_of_le (ih h)
    · cases hruns : l.splitOn a with
      | nil => exact absurd hruns (List.splitOn_ne_nil _ _)
      | cons run runs =>
        rw [hruns] at h ih
        rcases List.mem_cons.mp h with rfl | h
        · exact Nat.succ_le_succ (ih List.mem_cons_self)
        · exact Nat.le_succ_of_le (ih (List.mem_cons_of_mem _ h))

/-- There is room for every candidate. -/
theorem buildPathCandidate_eq_ok {entry command : String} (hentry : (strBytes entry).length ≤ 128)
    (hcommand : (strBytes command).length ≤ lineCapacity) :
    buildPathCandidate (strBytes entry) command = .ok (entry ++ "/" ++ command) := by
  have htext : strBytes entry ++ 47 :: strBytes command = strBytes (entry ++ "/" ++ command) := by
    rw [strBytes_append, strBytes_append, List.append_assoc]
    rfl
  rw [buildPathCandidate, if_neg (by rw [commandPathCapacity]; omega), htext, fromUtf8_strBytes]

/-- The entries of a list of texts that are visited. -/
theorem searchEntries_eq [LawfulMonad m] {command : String} (visitor : String → m (PathSearchStep T))
    (hcommand : (strBytes command).length ≤ lineCapacity) {entries : List String}
    (hentries : ∀ entry ∈ entries, (strBytes entry).length ≤ 128) (matched : Bool) :
    searchEntries command visitor (entries.map strBytes) matched =
      .ok <$> visitAll visitor ((entries.filter isSearched).map (· ++ "/" ++ command)) matched := by
  induction entries generalizing matched with
  | nil => simp [searchEntries, visitAll]
  | cons entry rest ih =>
    have hrest := ih fun entry hentry => hentries entry (List.mem_cons_of_mem _ hentry)
    have habs : (strBytes entry ≠ [] ∧ (strBytes entry).head? = some 47) ↔
        isSearched entry = true := by
      rw [isSearched, Bool.and_eq_true, startsWith_iff (by decide), decide_eq_true_iff, ne_eq, ne_eq,
        strBytes_eq_nil]
      rfl
    rw [List.map_cons, searchEntries]
    by_cases hvisit : isSearched entry = true
    · rw [if_pos (habs.mpr hvisit), List.filter_cons_of_pos hvisit, List.map_cons,
        buildPathCandidate_eq_ok (hentries entry List.mem_cons_self) hcommand]
      dsimp only
      rw [visitAll, map_bind]
      refine bind_congr fun step => ?_
      cases step with
      | «continue» => exact hrest matched
      | matched => exact hrest true
      | returnWith value => exact (map_pure _ _).symm
    · rw [if_neg (mt habs.mp hvisit), List.filter_cons_of_neg hvisit]
      exact hrest matched

/-- **The search visits the candidates in order**, and stops at the first that says so, for every
`PATH` of at most 128 bytes and every command of at most 256. -/
theorem withPathCandidates_visits [LawfulMonad m] {env : Environment} {path command : String}
    (hpath : env.get "PATH" = .ok (some path)) (hlen : (strBytes path).length ≤ 128)
    (hcommand : (strBytes command).length ≤ 256) (visitor : String → m (PathSearchStep T)) :
    withPathCandidates (getEnvIn env) command visitor =
      .ok <$> visitAll visitor (candidatesIn path command) false := by
  have hload : loadPath (getEnvIn env) = some path := by
    rw [loadPath, getEnvIn, hpath]
    dsimp only
    rw [if_neg (by rw [pathBufferCapacity]; omega)]
    exact fromUtf8_strBytes path
  have hentries : ∀ entry ∈ split path ':', (strBytes entry).length ≤ 128 := by
    intro entry hentry
    have hmem : strBytes entry ∈ (strBytes path).splitOn 58 := by
      rw [← show asciiByte ':' = 58 from rfl, ← map_strBytes_split path (by decide)]
      exact List.mem_map_of_mem hentry
    exact Nat.le_trans (length_le_of_mem_splitOn hmem) hlen
  rw [withPathCandidates, hload]
  dsimp only
  rw [searchFrom_eq command _ (Nat.zero_le _), List.drop_zero,
    ← show asciiByte ':' = 58 from rfl, ← map_strBytes_split path (by decide)]
  exact searchEntries_eq visitor hcommand hentries false

/-- An environment with a search path. -/
def searchedEnv : Environment :=
  match Environment.set "PATH" ":/bin:bin:/usr/bin:" Environment.new with
  | .ok _ env | .error _ env => env

/-- `ls` is looked for twice, and the search ends at the second candidate. -/
theorem withPathCandidates_visits_at_searchedEnv :
    searchedEnv.get "PATH" = .ok (some ":/bin:bin:/usr/bin:") ∧
      ((withPathCandidates (m := StateM (List String)) (getEnvIn searchedEnv) "ls"
        (fun candidate => do
          modify (· ++ [candidate])
          return if candidate = "/bin/ls" then .continue else .returnWith 7)).run []).run.2 =
        ["/bin/ls", "/usr/bin/ls"] := by
  have hpath : searchedEnv.get "PATH" = .ok (some ":/bin:bin:/usr/bin:") := by decide +kernel
  refine ⟨hpath, ?_⟩
  rw [withPathCandidates_visits hpath (by decide) (by decide)]
  decide +kernel

end Lazers.Lash.PathSearch
