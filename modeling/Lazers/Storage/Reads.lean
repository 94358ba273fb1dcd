import Lazers.Storage.Fat32

/-!
# What disk operations return and read

A disk operation cannot see which sectors were read before it: it ends with the same
`outcome` every time and appends the same `readsOf` (`Determined`). Both are computed
piece by piece, so a loop of the reader is described by two equations.
-/

namespace Lazers.Storage

variable {α β : Type}

/-- The value or the error an operation ends with. -/
def outcome (x : DiskM α) : Except Stop α :=
  match x [] with
  | .ok a _ => .ok a
  | .error e _ => .error e

/-- **The sectors an operation reads**, in order. -/
def readsOf (x : DiskM α) : List Nat :=
  match x [] with
  | .ok _ log => log
  | .error _ log => log

/-- A result over a log. -/
def resultWith (r : Except Stop α) (log : List Nat) : EStateM.Result Stop (List Nat) α :=
  match r with
  | .ok a => .ok a log
  | .error e => .error e log

/-- **The operation does not depend on the log**: it only adds to it. -/
def Determined (x : DiskM α) : Prop := ∀ log, x log = resultWith (outcome x) (log ++ readsOf x)

theorem resultWith_inj {r r' : Except Stop α} {log log' : List Nat}
    (h : resultWith r log = resultWith r' log') : r = r' ∧ log = log' := by
  cases r with
  | ok a =>
    cases r' with
    | ok a' =>
      cases h
      exact ⟨rfl, rfl⟩
    | error e' => cases h
  | error e =>
    cases r' with
    | ok a' => cases h
    | error e' =>
      cases h
      exact ⟨rfl, rfl⟩

/-- An outcome and the sectors read determine an operation. -/
theorem determined_of_eq {x : DiskM α} {r : Except Stop α} {reads : List Nat}
    (h : ∀ log, x log = resultWith r (log ++ reads)) :
    Determined x ∧ outcome x = r ∧ readsOf x = reads := by
  have hnil := h []
  have hsplit : outcome x = r ∧ readsOf x = reads := by
    rw [outcome, readsOf, hnil]
    cases r with
    | ok a => exact ⟨rfl, rfl⟩
    | error e => exact ⟨rfl, rfl⟩
  exact ⟨by rw [Determined, hsplit.1, hsplit.2]; exact h, hsplit⟩

/-- Any run tells the outcome. -/
theorem Determined.outcome_eq {x : DiskM α} {a : α} {log log' : List Nat} (h : Determined x)
    (hx : x log = .ok a log') : outcome x = .ok a := by
  have heq : resultWith (outcome x) (log ++ readsOf x) = resultWith (.ok a) log' :=
    (h log).symm.trans hx
  exact (resultWith_inj heq).1

/-! ## The pieces -/

@[simp] theorem outcome_pure (a : α) : outcome (pure a : DiskM α) = .ok a := rfl
@[simp] theorem readsOf_pure (a : α) : readsOf (pure a : DiskM α) = [] := rfl

theorem Determined.value (a : α) : Determined (pure a : DiskM α) := by
  intro log
  rw [readsOf_pure, List.append_nil]
  rfl

@[simp] theorem outcome_throw (e : Stop) : outcome (throw e : DiskM α) = .error e := rfl
@[simp] theorem readsOf_throw (e : Stop) : readsOf (throw e : DiskM α) = [] := rfl

theorem Determined.failure (e : Stop) : Determined (throw e : DiskM α) := by
  intro log
  rw [readsOf_throw, List.append_nil]
  rfl

theorem Determined.liftResult (r : Except StorageError α) : Determined (liftResult r) := by
  cases r with
  | ok a => exact .value a
  | error e => exact .failure _

section

variable (device : BlockDevice) (lba : Nat)

theorem readSector_spec : Determined (device.readSector lba) ∧
    outcome (device.readSector lba) = (device.sector lba).mapError .storage ∧
    readsOf (device.readSector lba) = [lba] := by
  apply determined_of_eq
  intro log
  rw [BlockDevice.readSector]
  cases device.sector lba with
  | ok sector => rfl
  | error e => rfl

theorem Determined.readSector : Determined (device.readSector lba) := (readSector_spec device lba).1

@[simp] theorem outcome_readSector :
    outcome (device.readSector lba) = (device.sector lba).mapError .storage :=
  (readSector_spec device lba).2.1

@[simp] theorem readsOf_readSector : readsOf (device.readSector lba) = [lba] :=
  (readSector_spec device lba).2.2

end

/-! ## In sequence -/

section

variable {x : DiskM α} {f : α → DiskM β}

theorem bind_spec_ok {a : α} (hx : Determined x) (hok : outcome x = .ok a)
    (hf : Determined (f a)) : ∀ log, (x >>= f) log =
      resultWith (outcome (f a)) (log ++ (readsOf x ++ readsOf (f a))) := by
  intro log
  have hrun : x log = .ok a (log ++ readsOf x) := by
    rw [hx log, hok]
    rfl
  rw [EStateM.bind_of_ok hrun, hf, List.append_assoc]

theorem bind_spec_error {e : Stop} (hx : Determined x) (herror : outcome x = .error e) :
    ∀ log, (x >>= f) log = resultWith (.error e) (log ++ readsOf x) := by
  intro log
  have hrun : x log = .error e (log ++ readsOf x) := by
    rw [hx log, herror]
    rfl
  exact EStateM.bind_eq_error.mpr (.inl hrun)

theorem Determined.bind (hx : Determined x) (hf : ∀ a, Determined (f a)) :
    Determined (x >>= f) := by
  cases h : outcome x with
  | ok a => exact (determined_of_eq (bind_spec_ok hx h (hf a))).1
  | error e => exact (determined_of_eq (bind_spec_error hx h)).1

theorem outcome_bind (hx : Determined x) (hf : ∀ a, Determined (f a)) :
    outcome (x >>= f) = outcome x >>= fun a => outcome (f a) := by
  cases h : outcome x with
  | ok a => exact (determined_of_eq (bind_spec_ok hx h (hf a))).2.1
  | error e => exact (determined_of_eq (bind_spec_error hx h)).2.1

theorem readsOf_bind_ok {a : α} (hx : Determined x) (hf : ∀ a, Determined (f a))
    (hok : outcome x = .ok a) : readsOf (x >>= f) = readsOf x ++ readsOf (f a) :=
  (determined_of_eq (bind_spec_ok hx hok (hf a))).2.2

theorem readsOf_bind_error {e : Stop} (hx : Determined x) (herror : outcome x = .error e) :
    readsOf (x >>= f) = readsOf x :=
  (determined_of_eq (bind_spec_error hx herror)).2.2

theorem mem_readsOf_bind {lba : Nat} (hx : Determined x) (hf : ∀ a, Determined (f a))
    (h : lba ∈ readsOf x) : lba ∈ readsOf (x >>= f) := by
  cases hout : outcome x with
  | ok a =>
    rw [readsOf_bind_ok hx hf hout]
    exact List.mem_append_left _ h
  | error e => rwa [readsOf_bind_error hx hout]

/-- A `?` reads nothing. -/
theorem outcome_liftResult_bind (r : Except StorageError α) (f : α → DiskM β) :
    outcome (liftResult r >>= f) = match r with
      | .ok a => outcome (f a)
      | .error e => .error (.storage e) := by
  cases r with
  | ok a => rfl
  | error e => rfl

theorem readsOf_liftResult_bind (r : Except StorageError α) (f : α → DiskM β) :
    readsOf (liftResult r >>= f) = match r with
      | .ok a => readsOf (f a)
      | .error _ => [] := by
  cases r with
  | ok a => rfl
  | error e => rfl

theorem outcome_readSector_bind (device : BlockDevice) (lba : Nat) {f : Sector → DiskM β}
    (hf : ∀ sector, Determined (f sector)) :
    outcome (device.readSector lba >>= f) = match device.sector lba with
      | .ok sector => outcome (f sector)
      | .error e => .error (.storage e) := by
  rw [outcome_bind (.readSector _ _) hf, outcome_readSector]
  cases device.sector lba with
  | ok sector => rfl
  | error e => rfl

theorem readsOf_readSector_bind (device : BlockDevice) (lba : Nat) {f : Sector → DiskM β}
    (hf : ∀ sector, Determined (f sector)) :
    readsOf (device.readSector lba >>= f) = lba :: match device.sector lba with
      | .ok sector => readsOf (f sector)
      | .error _ => [] := by
  have hout := outcome_readSector device lba
  cases hsector : device.sector lba with
  | ok sector =>
    rw [hsector] at hout
    rw [readsOf_bind_ok (.readSector _ _) hf hout, readsOf_readSector]
    rfl
  | error e =>
    rw [hsector] at hout
    rw [readsOf_bind_error (.readSector _ _) hout, readsOf_readSector]

end

/-- More fuel does not change an outcome. -/
theorem outcome_of_prolongs {x y : DiskM α} (h : EStateM.Prolongs Stop.outOfFuel x y)
    (hx : outcome x ≠ .error .outOfFuel) : outcome y = outcome x := by
  obtain heq | ⟨log, hout⟩ := h []
  · rw [outcome, outcome, heq]
  · exact absurd (by rw [outcome, hout]) hx

namespace Fat32

/-! ## Mounting -/

/-- What `mount` guarantees of a filesystem: the widths of its fields, and what was checked. -/
structure Geometry (fs : Fat32) : Prop where
  sectorsPerCluster_pos : 0 < fs.sectorsPerCluster
  sectorsPerCluster_lt : fs.sectorsPerCluster < 256
  reservedSectorCount_lt : fs.reservedSectorCount < 65536
  rootCluster_lt : fs.rootCluster < 2 ^ 32
  firstDataSector_lt : fs.firstDataSector < u64Limit

/-- **Mounting.** -/
theorem mount_eq {device : BlockDevice} {partition : GptPartition} {fs : Fat32}
    (h : outcome (mount device partition) = .ok fs) :
    fs.device = device ∧ fs.partitionStartLba = partition.startLba ∧
      fs.partitionSectorCount = partition.sectorCount ∧ fs.Geometry := by
  rw [mount, outcome_readSector_bind] at h
  · cases hsector : device.sector partition.startLba with
    | error e =>
      rw [hsector] at h
      cases h
    | ok sector =>
      rw [hsector] at h
      dsimp only at h
      generalize (if readLeU16 sector.toList 19 ≠ 0 then readLeU16 sector.toList 19
        else readLeU32 sector.toList 32) = totalSectors at h
      split_ifs at h with hfields htotal
      · cases h
      · cases h
      · cases h
        refine ⟨rfl, rfl, rfl, ?_, ?_, ?_, ?_, ?_⟩
        · dsimp only
          omega
        · exact UInt8.toNat_lt _
        · exact readLe_lt _ _ 2
        · exact readLe_lt _ _ 4
        · exact wrap64_lt _
  · intro sector
    dsimp only
    generalize (if readLeU16 sector.toList 19 ≠ 0 then readLeU16 sector.toList 19
      else readLeU32 sector.toList 32) = totalSectors
    split_ifs
    · exact .failure _
    · exact .failure _
    · exact .value _

variable (fs : Fat32)

/-! ## The reader -/

theorem determined_nextCluster (cluster : Nat) : Determined (fs.nextCluster cluster) := by
  refine (Determined.readSector _ _).bind fun sector => ?_
  dsimp only
  split_ifs
  · exact .failure _
  · exact .failure _
  · exact .value _

theorem determined_findInCluster (shortName : List UInt8) (clusterLba rounds sectorIndex : Nat) :
    Determined (fs.findInCluster shortName clusterLba rounds sectorIndex) := by
  induction rounds generalizing sectorIndex with
  | zero => exact .value _
  | succ rounds ih =>
    refine (Determined.readSector _ _).bind fun sector => ?_
    split
    · exact .value _
    · exact .failure _
    · exact ih _

theorem determined_findInChain (shortName : List UInt8) (fuel cluster : Nat) :
    Determined (fs.findInChain shortName fuel cluster) := by
  induction fuel generalizing cluster with
  | zero => exact .failure _
  | succ fuel ih =>
    refine (Determined.liftResult _).bind fun clusterLba => ?_
    refine (fs.determined_findInCluster _ _ _ _).bind fun found => ?_
    cases found with
    | some entry => exact .value _
    | none => exact (fs.determined_nextCluster _).bind fun next => ih next

theorem determined_findInDirectory (fuel cluster : Nat) (component : String) :
    Determined (fs.findInDirectory fuel cluster component) :=
  (Determined.liftResult _).bind fun _ => fs.determined_findInChain _ _ _

theorem determined_resolveFrom (fuel : Nat) (components : List String) (cluster : Nat) :
    Determined (fs.resolveFrom fuel components cluster) := by
  induction components generalizing cluster with
  | nil => exact .failure _
  | cons component rest ih =>
    refine (fs.determined_findInDirectory _ _ _).bind fun entry => ?_
    split_ifs
    · exact .value _
    · exact .value _
    · exact .failure _
    · exact ih _

theorem determined_resolveAbsolute (fuel : Nat) (path : String) :
    Determined (fs.resolveAbsolute fuel path) := by
  rw [resolveAbsolute]
  split_ifs
  · exact .failure _
  · split
    · exact .value _
    · exact fs.determined_resolveFrom _ _ _

theorem determined_listCluster (capacity clusterLba rounds sectorIndex : Nat)
    (written : List UInt8) :
    Determined (fs.listCluster capacity clusterLba rounds sectorIndex written) := by
  induction rounds generalizing sectorIndex written with
  | zero => exact .value _
  | succ rounds ih =>
    refine (Determined.readSector _ _).bind fun sector => ?_
    split
    · exact ih _ _
    · exact .value _

theorem determined_listChain (capacity fuel cluster : Nat) (written : List UInt8) :
    Determined (fs.listChain capacity fuel cluster written) := by
  induction fuel generalizing cluster written with
  | zero => exact .failure _
  | succ fuel ih =>
    refine (Determined.liftResult _).bind fun clusterLba => ?_
    refine (fs.determined_listCluster _ _ _ _ _).bind fun listing => ?_
    cases listing with
    | ended written => exact .value _
    | tooSmall => exact .failure _
    | next written => exact (fs.determined_nextCluster _).bind fun next => ih next written

end Fat32

end Lazers.Storage
