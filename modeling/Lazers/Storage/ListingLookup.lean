import Lazers.Lib.Records
import Lazers.Storage.Lookup
import Lazers.Storage.ShortNames

/-!
# A name is listed exactly if it is found

`read_dir` writes names as they are displayed, `find_in_directory` compares them as they are
stored. Both look at the same entries in use, and on names of bytes that FAT allows the displayed
form says everything (`displayShortName_inj`). Only `.` and `..` are treated apart: a listing
leaves them out, and no component has their name.

`listing_agrees_with_lookup`: if `read_dir` returns a listing, a component is found in the
directory if and only if its name is on a line of it.
-/

namespace Lazers.Storage

/-! ## Names on disk -/

/-- The bytes that a short name on disk may consist of: no control character but the one that
stands for `0xe5`, and none of `" * + , . / : ; < = > ? [ \ ] |`. -/
def isFatNameByte (byte : UInt8) : Bool :=
  (32 ≤ byte ∨ byte = 0x05) ∧
    byte ∉ [0x22, 0x2a, 0x2b, 0x2c, 0x2e, 0x2f, 0x3a, 0x3b, 0x3c, 0x3d, 0x3e, 0x3f, 0x5b, 0x5c,
      0x5d, 0x7c]

/-- The name of the directory itself, or of the one above. -/
def isDotName (name : List UInt8) : Bool :=
  name = 46 :: List.replicate 10 32 ∨ name = 46 :: 46 :: List.replicate 9 32

/-- The name of an entry is one that FAT allows. -/
def isFatName (name : List UInt8) : Bool := name.all isFatNameByte ∨ isDotName name

theorem isFatNameByte_ne {byte : UInt8} (h : isFatNameByte byte = true) :
    byte ≠ 46 ∧ byte ≠ 10 := by
  revert h
  refine forall_byte (p := fun b => isFatNameByte b = true → b ≠ 46 ∧ b ≠ 10) ?_ byte
  decide +kernel

theorem mem_displayShortName {entry : List UInt8} {byte : UInt8}
    (h : byte ∈ displayShortName entry) : byte = 46 ∨ byte ∈ entry := by
  rw [displayShortName, List.mem_append] at h
  obtain hname | hext := h
  · exact .inr (List.mem_of_mem_take hname)
  · rw [List.mem_ite_nil_right, List.mem_cons] at hext
    exact hext.2.imp_right fun h => List.mem_of_mem_drop (List.mem_of_mem_take h)

theorem isDotEntry_of_isDotName {name : List UInt8} (h : isDotName name = true) :
    isDotEntry (displayShortName name) = true := by
  obtain rfl | rfl := of_decide_eq_true h
  · decide
  · decide

/-- No component is displayed as a dot entry. -/
theorem isDotEntry_display {c : String} {e : Vector UInt8 11} (h : makeShortName c = .ok e) :
    isDotEntry (displayShortName e.toList) = false := by
  obtain ⟨name, ext, hparts, -, he⟩ := makeShortName_iff.mp h
  have hupper := hparts.upper.of_upper
  rw [he, hupper.displayShortName_eq]
  cases hname : name.map toAsciiUppercase with
  | nil => exact absurd hname hupper.name_ne
  | cons b rest =>
    have hdot := hupper.dot_notMem.1
    rw [hname, List.mem_cons, not_or] at hdot
    have hb : b ≠ 46 := Ne.symm hdot.1
    simp [isDotEntry, dottedName, hb]

/-- On disk a name is that of a component exactly if it is listed as it. -/
theorem eq_iff_listed {name : List UInt8} (hlen : name.length = 11) (hlegal : isFatName name = true)
    {c : String} {e : Vector UInt8 11} (h : makeShortName c = .ok e) :
    name = e.toList ↔ isDotEntry (displayShortName name) = false ∧
      displayShortName name = displayShortName e.toList := by
  constructor
  · rintro rfl
    exact ⟨isDotEntry_display h, rfl⟩
  · rintro ⟨hdot, hdisplay⟩
    obtain hbytes | hname := of_decide_eq_true hlegal
    · refine displayShortName_inj hlen e.length_toList (fun hmem => ?_)
        (dot_notMem_of_makeShortName h) hdisplay
      exact (isFatNameByte_ne (List.all_eq_true.mp hbytes 46 hmem)).1 rfl
    · rw [isDotEntry_of_isDotName hname] at hdot
      cases hdot

/-! ## Lines -/

/-- What a listing says of some entries. -/
def listedLines (entries : List (List UInt8)) : List (List UInt8) :=
  ((liveEntries entries).map fun entry => displayShortName (entry.take 11)).filter
    fun line => !isDotEntry line

theorem listing_eq (entries : List (List UInt8)) :
    listing entries = (listedLines entries).flatMap fun line => line ++ [10] := by
  rw [listing, listedLines, liveEntries]
  generalize entries.takeWhile (fun entry => !isEndEntry entry) = used
  induction used with
  | nil => rfl
  | cons entry rest ih =>
    rw [List.flatMap_cons, ih, listedName]
    cases hhidden : isHiddenEntry entry with
    | true => simp [hhidden]
    | false =>
      cases hdot : isDotEntry (displayShortName (entry.take 11)) with
      | true => simp [hhidden, hdot]
      | false => simp [hhidden, hdot]

/-- The lines of the listing are what it says. -/
theorem lines_listing {entries : List (List UInt8)}
    (hlegal : ∀ entry ∈ liveEntries entries, isFatName (entry.take 11) = true) :
    Records.lines 10 (listing entries) = listedLines entries := by
  rw [listing_eq, Records.lines_flatMap]
  intro line hline hnewline
  rw [listedLines, List.mem_filter, List.mem_map] at hline
  obtain ⟨⟨entry, hentry, rfl⟩, hdot⟩ := hline
  obtain hbytes | hname := of_decide_eq_true (hlegal entry hentry)
  · obtain hbad | hmem := mem_displayShortName hnewline
    · cases hbad
    · exact (isFatNameByte_ne (List.all_eq_true.mp hbytes 10 hmem)).2 rfl
  · rw [isDotEntry_of_isDotName hname] at hdot
    cases hdot

theorem mem_listedLines {entries : List (List UInt8)}
    (hlen : ∀ entry ∈ entries, entry.length = fatDirectoryEntrySize)
    (hlegal : ∀ entry ∈ liveEntries entries, isFatName (entry.take 11) = true) {c : String}
    {e : Vector UInt8 11} (h : makeShortName c = .ok e) :
    displayShortName e.toList ∈ listedLines entries ↔
      ∃ entry ∈ liveEntries entries, entry.take 11 = e.toList := by
  have hname : ∀ entry ∈ liveEntries entries, entry.take 11 = e.toList ↔
      isDotEntry (displayShortName (entry.take 11)) = false ∧
        displayShortName (entry.take 11) = displayShortName e.toList := by
    intro entry hentry
    refine eq_iff_listed ?_ (hlegal entry hentry) h
    have hmem : entry ∈ entries := List.takeWhile_subset _ (List.mem_of_mem_filter hentry)
    rw [List.length_take, hlen entry hmem]
    rfl
  rw [listedLines, List.mem_filter, List.mem_map]
  constructor
  · rintro ⟨⟨entry, hentry, hdisplay⟩, hdot⟩
    refine ⟨entry, hentry, (hname entry hentry).mpr ⟨?_, hdisplay⟩⟩
    rw [hdisplay]
    exact isDotEntry_display h
  · rintro ⟨entry, hentry, heq⟩
    obtain ⟨hdot, hdisplay⟩ := (hname entry hentry).mp heq
    exact ⟨⟨entry, hentry, hdisplay⟩, by rw [isDotEntry_display h]; rfl⟩

theorem firstNamed_isSome {shortName : List UInt8} {entries : List (List UInt8)} :
    (firstNamed shortName entries).isSome = true ↔
      ∃ entry ∈ liveEntries entries, entry.take 11 = shortName := by
  rw [firstNamed, Option.isSome_map, List.find?_isSome]
  simp

namespace Fat32

/-! ## Directories -/

theorem length_of_mem_entriesFrom {sector : Sector} {rounds offset : Nat}
    (hroom : offset + rounds * fatDirectoryEntrySize ≤ sectorSize) :
    ∀ entry ∈ entriesFrom sector rounds offset, entry.length = fatDirectoryEntrySize := by
  induction rounds generalizing offset with
  | zero => exact fun entry h => absurd h List.not_mem_nil
  | succ rounds ih =>
    rw [Nat.succ_mul] at hroom
    intro entry h
    rw [entriesFrom, List.mem_cons] at h
    obtain rfl | hrest := h
    · rw [List.length_take, List.length_drop, Vector.length_toList]
      omega
    · exact ih (by omega) entry hrest

variable (fs : Fat32)

theorem length_of_mem_sectorEntries {clusterLba m sectorIndex : Nat}
    {entries : List (List UInt8)} (h : fs.sectorEntries clusterLba m sectorIndex = .ok entries) :
    ∀ entry ∈ entries, entry.length = fatDirectoryEntrySize := by
  induction m generalizing sectorIndex entries with
  | zero =>
    cases h
    exact fun entry h => absurd h List.not_mem_nil
  | succ m ih =>
    obtain ⟨sector, rest, -, hrest, rfl⟩ := fs.sectorEntries_succ_eq_ok.mp h
    intro entry hentry
    obtain hhere | hthere := List.mem_append.mp hentry
    · exact length_of_mem_entriesFrom (by decide) entry hhere
    · exact ih hrest entry hthere

theorem Contents.length_eq {start : Nat} {entries : List (List UInt8)}
    (h : fs.Contents start entries) : ∀ entry ∈ entries, entry.length = fatDirectoryEntrySize := by
  induction h with
  | ended _ _ hentries _ => exact fs.length_of_mem_sectorEntries hentries
  | last _ hentries =>
    obtain ⟨_, _, hsectors⟩ := fs.clusterEntries_eq_ok.mp hentries
    exact fs.length_of_mem_sectorEntries hsectors
  | link _ hentries _ ih =>
    obtain ⟨_, _, hsectors⟩ := fs.clusterEntries_eq_ok.mp hentries
    intro entry hentry
    obtain hhere | hthere := List.mem_append.mp hentry
    · exact fs.length_of_mem_sectorEntries hsectors entry hhere
    · exact ih entry hthere

/-- **A listing that was returned** is that of the directory's contents, up to the end entry. -/
theorem contents_of_outcome_listChain {capacity fuel start : Nat} {written names : List UInt8}
    (hroom : written.length ≤ capacity)
    (h : outcome (fs.listChain capacity fuel start written) = .ok names) :
    ∃ entries, fs.Contents start entries ∧ listingOf capacity entries written = .ended names := by
  induction fuel generalizing start written with
  | zero => cases h
  | succ fuel ih =>
    rw [outcome_listChain_succ] at h
    cases hlba : fs.clusterToLba start with
    | error e =>
      rw [hlba] at h
      cases h
    | ok clusterLba =>
      rw [hlba] at h
      dsimp only at h
      cases hlisting : outcome (fs.listCluster capacity clusterLba fs.sectorsPerCluster 0 written)
        with
      | error e =>
        rw [hlisting] at h
        cases h
      | ok result =>
        rw [hlisting] at h
        cases result with
        | tooSmall => cases h
        | ended names' =>
          cases h
          obtain ⟨m, hm, entries, hentries, hended⟩ :=
            fs.entries_of_outcome_listCluster hroom hlisting
          refine ⟨entries, .ended hlba hm hentries ?_, hended⟩
          rw [listingOf] at hended
          split_ifs at hended with _ hend
          exact hend
        | next written' =>
          obtain ⟨entries, hentries, hnext⟩ :=
            (fs.outcome_listCluster_eq_next _ _ _ hroom).mp hlisting
          cases hlink : outcome (fs.nextCluster start) with
          | error e =>
            rw [hlink] at h
            cases h
          | ok next =>
            rw [hlink] at h
            obtain ⟨rest, hrest, hended⟩ := ih (length_le_of_listingOf hnext) h
            refine ⟨entries ++ rest, .link (fs.outcome_nextCluster_eq_ok.mp hlink)
              (fs.clusterEntries_eq_ok.mpr ⟨clusterLba, hlba, hentries⟩) hrest, ?_⟩
            rw [listingOf_append rest hroom, hnext]
            exact hended

/-- The names of the entries in use are ones that FAT allows. -/
def HasFatNames (start : Nat) : Prop :=
  ∀ entries, fs.Contents start entries →
    ∀ entry ∈ liveEntries entries, isFatName (entry.take 11) = true

/-- A component is found exactly if an entry in use has its name. -/
theorem found_iff_of_contents {start : Nat} {entries : List (List UInt8)}
    (hcontents : fs.Contents start entries) {c : String} {e : Vector UInt8 11}
    (hc : makeShortName c = .ok e) :
    (∃ fuel entry, outcome (fs.findInDirectory fuel start c) = .ok entry) ↔
      ∃ entry ∈ liveEntries entries, entry.take 11 = e.toList := by
  obtain ⟨enough, hsearch⟩ := fs.outcome_findInDirectory_of_contents hcontents hc
  rw [← firstNamed_isSome]
  constructor
  · rintro ⟨fuel, entry, hok⟩
    have hmore := outcome_of_prolongs
      (fs.findInDirectory_prolongs (Nat.le_max_left fuel enough) start c) (by rw [hok]; simp)
    rw [hsearch _ (Nat.le_max_right _ _), hok] at hmore
    cases hfirst : firstNamed e.toList entries with
    | some _ => rfl
    | none =>
      rw [hfirst] at hmore
      cases hmore
  · intro hsome
    obtain ⟨entry, hfirst⟩ := Option.isSome_iff_exists.mp hsome
    refine ⟨enough, entry, ?_⟩
    rw [hsearch _ (Nat.le_refl _), hfirst]

/-- **Listing and lookup agree.** If all names in use in a directory are ones that FAT allows and
`read_dir` returns its listing, then an accepted component is found in the directory if and only
if what is displayed for it is a line of the listing. -/
theorem listing_agrees_with_lookup {fs : Fat32} {path : String} {start capacity fuel : Nat}
    {names : List UInt8} {c : String} {e : Vector UInt8 11} (hopens : fs.Opens path start)
    (hlegal : fs.HasFatNames start) (hok : outcome (fs.readDir fuel path capacity) = .ok names)
    (hc : makeShortName c = .ok e) :
    (∃ fuel entry, outcome (fs.findInDirectory fuel start c) = .ok entry) ↔
      displayShortName e.toList ∈ Records.lines 10 names := by
  obtain ⟨enough, hreadDir⟩ := fs.outcome_readDir_of_opens hopens capacity
  have hlist := fs.outcome_readDir_of_ok hok (Nat.le_max_left fuel enough)
  rw [hreadDir _ (Nat.le_max_right _ _)] at hlist
  obtain ⟨entries, hcontents, hended⟩ := fs.contents_of_outcome_listChain (Nat.zero_le _) hlist
  have hnames : names = listing entries := by
    rw [listingOf] at hended
    split_ifs at hended
    exact (Listing.ended.inj hended).symm
  rw [fs.found_iff_of_contents hcontents hc, hnames, lines_listing (hlegal entries hcontents),
    mem_listedLines (hcontents.length_eq fs) (hlegal entries hcontents) hc]

/-- The root of the small volume holds one name, and that is `BIN`. -/
theorem hasFatNames_listedVolume : listedVolume.HasFatNames 2 := by
  have hlba : listedVolume.clusterToLba 2 = .ok 2 := by decide +kernel
  have hnames : ∀ m ≤ 1, ∀ entries, listedVolume.sectorEntries 2 m 0 = .ok entries →
      ∀ entry ∈ liveEntries entries, isFatName (entry.take 11) = true := by
    intro m hm entries hentries
    have hall : ∀ m ≤ 1, (listedVolume.sectorEntries 2 m 0).toOption.map (fun es =>
        (liveEntries es).all fun entry => isFatName (entry.take 11)) = some true := by
      decide +kernel
    have h := hall m hm
    rw [hentries] at h
    exact List.all_eq_true.mp (Option.some.inj h)
  have hlast : listedVolume.IsLast 2 := ⟨0x0fffffff, by decide +kernel, by decide⟩
  intro entries hcontents
  cases hcontents with
  | ended hlba' hm hentries _ =>
    cases hlba.symm.trans hlba'
    exact hnames _ hm _ hentries
  | last _ hentries =>
    obtain ⟨_, hlba', hsectors⟩ := listedVolume.clusterEntries_eq_ok.mp hentries
    cases hlba.symm.trans hlba'
    exact hnames _ (Nat.le_refl _) _ hsectors
  | link h _ _ =>
    have hnext := listedVolume.outcome_nextCluster_of_isLast hlast
    rw [listedVolume.outcome_nextCluster_eq_ok.mpr h] at hnext
    cases hnext

theorem listing_agrees_with_lookup_at_bin :
    (∃ fuel entry, outcome (listedVolume.findInDirectory fuel 2 "bin") = .ok entry) ↔
      strBytes "BIN" ∈ Records.lines 10 (strBytes "BIN\n") := by
  have hbin : makeShortName "bin" = .ok #v[66, 73, 78, 32, 32, 32, 32, 32, 32, 32, 32] :=
    makeShortName_iff.mpr ⟨[98, 105, 110], [],
      ⟨by decide, by decide, by decide, List.all_eq_true.mp (by decide)⟩,
      by decide +kernel, by decide⟩
  have hchain : listedVolume.Chain 2 [2] := .last ⟨0x0fffffff, by decide +kernel, by decide⟩
  obtain ⟨entries, hentries, hnames, hend⟩ :=
    listedVolume.entries_of_facts [2] (strBytes "BIN\n") true (by decide +kernel)
  have hroom : (listing entries).length ≤ 512 := by
    rw [hnames]
    decide +kernel
  obtain ⟨fuel, hlong⟩ :=
    listedVolume.outcome_readDir_of_chain listedVolume.opens_root hchain hentries hroom
  have hok := hlong fuel (Nat.le_refl _)
  rw [hend, if_pos rfl, hnames] at hok
  exact listing_agrees_with_lookup listedVolume.opens_root hasFatNames_listedVolume hok hbin

end Fat32

end Lazers.Storage
