import Lazers.Memory.AddressMap
import Lazers.Memory.Loader

/-!
# What a load asks for

The abstract side of `load_user_program`. A program's headers amount to a list
of page requests and, possibly, the error that ends the list (`segmentPlan`);
the stack adds sixteen more requests. `placeAll` serves requests against an
`AddressMap`, once per page: a frame for the page, the tables it still lacks, a
slot of the page map, and a place in the page list.

`Placement` says what has been placed so far: which page got which frame and
which flags, and that these are the entries of the address space.
-/

namespace Lazers.Memory

open Elf AddressMap

/-! ## Requests -/

/-- A page number with the flags its entry gets. -/
structure PageRequest where
  page : Nat
  flags : Nat
deriving DecidableEq, Repr

/-- The pages of one segment. -/
def segmentRequests (header : ProgramHeader) : List PageRequest :=
  (List.range' (header.virtualAddress / 4096)
    ((header.virtualAddress + header.memorySize + 4095) / 4096 - header.virtualAddress / 4096)).map
    fun page => { page, flags := segmentFlags header }

/-- Whether `load_user_program` accepts the position and sizes of a segment. -/
def SegmentInRange (header : ProgramHeader) : Prop :=
  userImageBase ≤ header.virtualAddress ∧
    header.virtualAddress + header.memorySize ≤ userStackBase ∧
    header.fileSize ≤ header.memorySize

instance (header : ProgramHeader) : Decidable (SegmentInRange header) :=
  inferInstanceAs (Decidable (_ ∧ _ ∧ _))

/-- The requests of a program's headers, and the error that stops them. -/
def segmentPlan (fileLen : Nat) :
    List (Except ElfError ProgramHeader) → List PageRequest × Option MemoryError
  | [] => ([], none)
  | .error e :: _ => ([], some (.elf e))
  | .ok header :: rest =>
    if header.kind ≠ ptLoad then segmentPlan fileLen rest
    else if SegmentInRange header then
      match header.fileRange fileLen with
      | .error e => (segmentRequests header, some (.elf e))
      | .ok _ =>
        let plan := segmentPlan fileLen rest
        (segmentRequests header ++ plan.1, plan.2)
    else ([], some .userImageOutOfRange)

/-- The pages of the stack. -/
def stackRequests : List PageRequest :=
  (List.range' (userStackBase / 4096) userStackPages).map fun page =>
    { page, flags := pagePresent ||| pageWritable ||| pageUser }

/-! ## Placing -/

/-- A page with the frame and flags it got. -/
structure PlacedPage where
  page : Nat
  frame : Nat
  flags : Nat
deriving DecidableEq, Repr

/-- Serve one request. -/
def placePage (request : PageRequest) (placed : List PlacedPage) : Edit (List PlacedPage) := do
  let frame ← take
  mapPage request.page frame request.flags
  if maxSegmentPages ≤ placed.length then
    throw .segmentOverlapCapacityExceeded
  record frame
  return placed ++ [{ page := request.page, frame, flags := request.flags }]

/-- Serve requests in order, each page once. -/
def placeAll : List PageRequest → List PlacedPage → Edit (List PlacedPage)
  | [], placed => return placed
  | request :: rest, placed =>
    if request.page ∈ placed.map PlacedPage.page then placeAll rest placed
    else placePage request placed >>= placeAll rest

theorem placeAll_append (l l' : List PageRequest) (placed : List PlacedPage) :
    placeAll (l ++ l') placed = placeAll l placed >>= placeAll l' := by
  induction l generalizing placed with
  | nil => exact (pure_bind _ _).symm
  | cons request rest ih =>
    rw [List.cons_append, placeAll, placeAll]
    split_ifs
    · exact ih placed
    · rw [bind_assoc]
      exact congrArg (placePage request placed >>= ·) (funext ih)

/-! ## Links of a page -/

/-- The tables on the way to a page. -/
def pagePath (n : Nat) : Finset (Nat × Nat) :=
  {(3, n / 512 / 512 / 512), (2, n / 512 / 512), (1, n / 512)}

/-- Growth: frames only leave, the page list, the tables and the open links only
grow. -/
structure AddressMap.Grows (s s' : AddressMap) : Prop where
  frames : s'.frames <:+ s.frames
  owned : ∃ l, s'.owned = s.owned.map (· ++ l)
  tables : s.tables ⊆ s'.tables
  links : s.links ⊆ s'.links

namespace AddressMap

theorem Grows.refl (s : AddressMap) : Grows s s :=
  ⟨List.suffix_refl _, ⟨[], by cases s.owned <;> simp⟩, Finset.Subset.refl _, Finset.Subset.refl _⟩

theorem Grows.trans {s s₁ s₂ : AddressMap} (h : Grows s s₁) (h' : Grows s₁ s₂) : Grows s s₂ := by
  obtain ⟨l, hl⟩ := h.owned
  obtain ⟨l', hl'⟩ := h'.owned
  refine ⟨h'.frames.trans h.frames, ⟨l ++ l', ?_⟩, h.tables.trans h'.tables,
    h.links.trans h'.links⟩
  rw [hl', hl]
  cases s.owned <;> simp

theorem take_grows (s₀ : AddressMap) :
    Triple (Grows s₀) take (fun f s => Grows s₀ s ∧ ∃ s₁, Grows s₀ s₁ ∧ s₁.frames = f :: s.frames)
      (fun _ => Grows s₀) := by
  intro s h
  cases hf : s.frames with
  | nil => simpa [take, hf] using h
  | cons f rest =>
    simp only [take, hf]
    refine ⟨h.trans ⟨?_, ⟨[], ?_⟩, Finset.Subset.refl _, Finset.Subset.refl _⟩, s, h, hf⟩
    · rw [hf]
      exact List.suffix_cons f rest
    · cases s.owned <;> simp

theorem record_grows (s₀ : AddressMap) (f : Nat) :
    Triple (Grows s₀) (record f)
      (fun _ s => Grows s₀ s ∧ ∀ l, s.owned = some l → f ∈ l) (fun _ => Grows s₀) := by
  intro s h
  cases ho : s.owned with
  | none =>
    simp only [record, ho]
    exact ⟨h, by simp⟩
  | some l =>
    by_cases hfull : maxOwnedPages ≤ l.length
    · simpa [record, ho, hfull] using h
    · simp only [record, ho, hfull, if_false]
      refine ⟨h.trans ⟨List.suffix_refl _, ⟨[f], by simp [ho]⟩, Finset.Subset.refl _,
        Finset.Subset.refl _⟩, ?_⟩
      rintro l' hl'
      obtain rfl := Option.some.inj hl'
      simp

theorem ensure_grows (s₀ : AddressMap) (key : Nat × Nat) (user : Bool) :
    Triple (Grows s₀) (ensure key user)
      (fun _ s => Grows s₀ s ∧ (user = true → key ∈ s.links)) (fun _ => Grows s₀) := by
  have hopen : ∀ s : AddressMap, Grows s (s.openLink key user) ∧
      (user = true → key ∈ (s.openLink key user).links) := by
    intro s
    cases user with
    | false => exact ⟨.refl s, by simp⟩
    | true =>
      refine ⟨⟨List.suffix_refl _, ⟨[], ?_⟩, Finset.Subset.refl _, Finset.subset_insert _ _⟩,
        fun _ => Finset.mem_insert_self _ _⟩
      cases hs : s.owned <;> simp [openLink, hs]
  intro s h
  by_cases hmem : key ∈ s.tables
  · rw [ensure_of_mem hmem]
    exact ⟨h.trans (hopen s).1, (hopen s).2⟩
  · rw [ensure_of_not_mem hmem]
    refine Triple.bind ((take_grows s₀).conseq (fun _ h => h) (fun _ _ h => h.1) fun _ _ h => h)
      (fun f => Triple.bind ((record_grows s₀ f).conseq (fun _ h => h) (fun _ _ h => h.1)
        fun _ _ h => h) fun _ => ?_) s h
    refine Triple.modify fun s' h' => ?_
    have hinsert : Grows s' { s' with tables := insert key s'.tables } :=
      ⟨List.suffix_refl _, ⟨[], by cases s'.owned <;> simp⟩, Finset.subset_insert _ _,
        Finset.Subset.refl _⟩
    exact ⟨(h'.trans hinsert).trans (hopen _).1, (hopen _).2⟩

/-- A page entered for user mode has its whole path open. -/
theorem mapPage_grows (s₀ : AddressMap) (n phys flags : Nat) :
    Triple (Grows s₀) (mapPage n phys flags)
      (fun _ s => Grows s₀ s ∧ (flags.testBit 2 = true → pagePath n ⊆ s.links))
      (fun _ => Grows s₀) := by
  refine Triple.bind (Q := fun _ s => Grows s₀ s ∧ (flags.testBit 2 = true →
    (3, n / 512 / 512 / 512) ∈ s.links ∧ (2, n / 512 / 512) ∈ s.links)) ?_ fun _ => ?_
  · refine Triple.bind (ensure_grows s₀ _ _) fun _ => Triple.of_start fun s₁ h₁ => ?_
    refine (ensure_grows s₁ _ _).conseq (fun s hs => hs ▸ .refl s₁) (fun _ s h => ?_)
      fun _ s h => h₁.1.trans h
    exact ⟨h₁.1.trans h.1, fun hu => ⟨h.1.links (h₁.2 hu), h.2 hu⟩⟩
  · refine Triple.of_start fun s₁ h₁ => ?_
    refine Triple.bind ((ensure_grows s₁ _ _).conseq (fun s hs => hs ▸ .refl s₁)
      (fun _ _ h => h) fun _ s h => h₁.1.trans h) fun _ => ?_
    refine Triple.modify fun s h => ⟨h₁.1.trans (h.1.trans ⟨List.suffix_refl _, ⟨[], ?_⟩,
      Finset.Subset.refl _, Finset.Subset.refl _⟩), fun hu => ?_⟩
    · cases s.owned <;> simp
    · intro key hkey
      simp only [pagePath, Finset.mem_insert, Finset.mem_singleton] at hkey
      rcases hkey with rfl | rfl | rfl
      · exact h.1.links (h₁.2 hu).1
      · exact h.1.links (h₁.2 hu).2
      · exact h.2 hu

theorem Grows.set {s₀ s : AddressMap} (h : Grows s₀ s) (page slot : Nat → Option Nat) :
    Grows s₀ { s with page, slot } := ⟨h.frames, h.owned, h.tables, h.links⟩

theorem ensureDirectory_grows (s₀ : AddressMap) (n : Nat) (user : Bool) :
    Triple (Grows s₀) (ensureDirectory n user) (fun _ => Grows s₀) (fun _ => Grows s₀) :=
  Triple.bind ((ensure_grows s₀ _ _).conseq (fun _ h => h) (fun _ _ h => h.1) fun _ _ h => h)
    fun _ => (ensure_grows s₀ _ _).conseq (fun _ h => h) (fun _ _ h => h.1) fun _ _ h => h

theorem mapSlots_grows (s₀ : AddressMap) (flags rounds n : Nat) :
    Triple (Grows s₀) (mapSlots flags rounds n) (fun _ => Grows s₀) (fun _ => Grows s₀) := by
  induction rounds generalizing n with
  | zero => exact Triple.pure fun _ h => h
  | succ rounds ih =>
    refine Triple.bind (Triple.bind (ensureDirectory_grows s₀ _ _) fun _ => ?_) fun _ => ih _
    exact Triple.modify fun s h => h.set _ _

theorem mapPages_grows (s₀ : AddressMap) (flags rounds n : Nat) :
    Triple (Grows s₀) (mapPages flags rounds n) (fun _ => Grows s₀) (fun _ => Grows s₀) := by
  induction rounds generalizing n with
  | zero => exact Triple.pure fun _ h => h
  | succ rounds ih =>
    refine Triple.bind ?_ fun _ => ih _
    exact (mapPage_grows s₀ _ _ _).conseq (fun _ h => h) (fun _ _ h => h.1) fun _ _ h => h

end AddressMap

/-! ## Placements -/

/-- The page a list of placed pages holds for `n`. -/
def lookupPlaced (placed : List PlacedPage) (n : Nat) : Option PlacedPage :=
  placed.find? fun p => p.page = n

/-- The first request for `n`. -/
def lookupRequest (requests : List PageRequest) (n : Nat) : Option PageRequest :=
  requests.find? fun r => r.page = n

/-- **What has been placed**, starting from `s₀`, after serving `served`. -/
structure Placement (s₀ : AddressMap) (served : List PageRequest) (placed : List PlacedPage)
    (s : AddressMap) : Prop where
  grows : s₀.Grows s
  flags : ∀ n, (lookupPlaced placed n).map PlacedPage.flags =
    (lookupRequest served n).map PageRequest.flags
  page : ∀ n, s.page n = match lookupPlaced placed n with
    | some p => some (p.frame ||| p.flags)
    | none => s₀.page n
  slot : s.slot = s₀.slot
  links : ∀ p ∈ placed, p.flags.testBit 2 = true → pagePath p.page ⊆ s.links
  frames : ∀ p ∈ placed, p.frame ∈ s₀.frames
  nodup : s₀.frames.Nodup → (placed.map PlacedPage.frame ++ s.frames).Nodup
  owned : ∀ p ∈ placed, ∀ l, s.owned = some l → p.frame ∈ l

theorem Placement.nil (s : AddressMap) : Placement s [] [] s where
  grows := .refl s
  flags _ := rfl
  page _ := rfl
  slot := rfl
  links := by simp
  frames := by simp
  nodup h := by simpa using h
  owned := by simp

theorem lookupPlaced_append (placed : List PlacedPage) (p : PlacedPage) (n : Nat) :
    lookupPlaced (placed ++ [p]) n =
      (lookupPlaced placed n).or (if p.page = n then some p else none) := by
  simp [lookupPlaced, List.find?_append, List.find?_singleton]

theorem lookupRequest_append (served : List PageRequest) (r : PageRequest) (n : Nat) :
    lookupRequest (served ++ [r]) n =
      (lookupRequest served n).or (if r.page = n then some r else none) := by
  simp [lookupRequest, List.find?_append, List.find?_singleton]

theorem lookupPlaced_eq_none {placed : List PlacedPage} {n : Nat} :
    lookupPlaced placed n = none ↔ n ∉ placed.map PlacedPage.page := by
  simp [lookupPlaced]

/-- The steps of serving one request. -/
theorem placePage_eq_ok {request : PageRequest} {placed placed' : List PlacedPage}
    {s s' : AddressMap} (h : placePage request placed s = .ok placed' s') :
    ∃ f s₁ s₂, take s = .ok f s₁ ∧ mapPage request.page f request.flags s₁ = .ok () s₂ ∧
      placed.length < maxSegmentPages ∧ record f s₂ = .ok () s' ∧
      placed' = placed ++ [{ page := request.page, frame := f, flags := request.flags }] := by
  obtain ⟨f, s₁, htake, h⟩ := EStateM.bind_eq_ok.mp h
  obtain ⟨_, s₂, hmap, h⟩ := EStateM.bind_eq_ok.mp h
  split_ifs at h with hfull
  · cases h
  · obtain ⟨_, s₃, hrec, h⟩ := EStateM.bind_eq_ok.mp h
    cases h
    exact ⟨f, s₁, s₂, htake, hmap, by omega, hrec, rfl⟩

theorem take_eq_ok {s s₁ : AddressMap} {f : Nat} (h : take s = .ok f s₁) :
    s.frames = f :: s₁.frames ∧ s₁ = { s with frames := s₁.frames } := by
  unfold take at h
  split at h
  · cases h
  · rename_i hf
    cases h
    exact ⟨hf, rfl⟩

/-- **Serving one more request.** -/
theorem Placement.place {s₀ s s' : AddressMap} {served : List PageRequest}
    {placed placed' : List PlacedPage} {request : PageRequest} (P : Placement s₀ served placed s)
    (hnew : request.page ∉ placed.map PlacedPage.page)
    (h : placePage request placed s = .ok placed' s') :
    Placement s₀ (served ++ [request]) placed' s' := by
  obtain ⟨f, s₁, s₂, htake, hmap, -, hrec, rfl⟩ := placePage_eq_ok h
  obtain ⟨hframes, hs₁⟩ := take_eq_ok htake
  obtain ⟨hpage₂, hslot₂⟩ := (mapPage_maps _ _ _).ok ⟨rfl, rfl⟩ hmap
  obtain ⟨hpage₃, hslot₃⟩ := (record_maps _).ok ⟨hpage₂, hslot₂⟩ hrec
  obtain ⟨hgrow₂, hlinks₂⟩ := (mapPage_grows s₁ _ _ _).ok (.refl s₁) hmap
  obtain ⟨hgrow₃, howned₃⟩ := (record_grows s₂ f).ok (.refl s₂) hrec
  have hgrow₁ : s.Grows s₁ := ((take_grows s).ok (.refl s) htake).1
  have hgrow : s.Grows s' := (hgrow₁.trans hgrow₂).trans hgrow₃
  have hold : lookupPlaced placed request.page = none := lookupPlaced_eq_none.mpr hnew
  refine ⟨P.grows.trans hgrow, ?_, ?_, ?_, ?_, ?_, ?_, ?_⟩
  · intro n
    rw [lookupPlaced_append, lookupRequest_append]
    have hflags := P.flags n
    cases hp : lookupPlaced placed n with
    | some p =>
      cases hr : lookupRequest served n with
      | some r => simpa [hp, hr] using hflags
      | none => simp [hp, hr] at hflags
    | none =>
      cases hr : lookupRequest served n with
      | some r => simp [hp, hr] at hflags
      | none =>
        simp only [Option.none_or]
        split_ifs <;> rfl
  · intro n
    rw [hpage₃, lookupPlaced_append, Function.update_apply, hs₁]
    by_cases hn : n = request.page
    · subst hn
      simp [hold]
    · rw [if_neg hn, if_neg (Ne.symm hn), Option.or_none]
      exact P.page n
  · rw [hslot₃, hs₁]
    exact P.slot
  · intro p hp hu
    rcases List.mem_append.mp hp with hp | hp
    · exact (P.links p hp hu).trans hgrow.links
    · obtain rfl := List.mem_singleton.mp hp
      exact (hlinks₂ hu).trans hgrow₃.links
  · intro p hp
    rcases List.mem_append.mp hp with hp | hp
    · exact P.frames p hp
    · obtain rfl := List.mem_singleton.mp hp
      exact P.grows.frames.subset (by rw [hframes]; exact List.mem_cons_self)
  · intro hnd
    have hnd' := P.nodup hnd
    rw [hframes] at hnd'
    refine hnd'.sublist ?_
    have hsuffix := (hgrow₂.trans hgrow₃).frames.sublist
    simpa using (hsuffix.cons_cons f).append_left (placed.map PlacedPage.frame)
  · intro p hp l hl
    rcases List.mem_append.mp hp with hp | hp
    · obtain ⟨l', hl'⟩ := hgrow.owned
      rw [hl] at hl'
      cases hs : s.owned with
      | none => simp [hs] at hl'
      | some l₀ =>
        rw [hs, Option.map_some, Option.some.injEq] at hl'
        rw [hl']
        exact List.mem_append_left _ (P.owned p hp l₀ hs)
    · obtain rfl := List.mem_singleton.mp hp
      exact howned₃ l hl

/-- **Serving a whole list.** -/
theorem Placement.placeAll {s₀ s s' : AddressMap} {served requests : List PageRequest}
    {placed placed' : List PlacedPage} (P : Placement s₀ served placed s)
    (h : placeAll requests placed s = .ok placed' s') :
    Placement s₀ (served ++ requests) placed' s' := by
  induction requests generalizing s served placed with
  | nil =>
    cases h
    rwa [List.append_nil]
  | cons request rest ih =>
    rw [Memory.placeAll] at h
    rw [← List.singleton_append, ← List.append_assoc]
    split_ifs at h with hmem
    · refine ih ?_ h
      refine { P with flags := fun n => ?_ }
      -- the page is placed already, so an earlier request for it was served
      rw [P.flags, lookupRequest_append]
      cases hr : lookupRequest served n with
      | some r => rfl
      | none =>
        have hne : request.page ≠ n := by
          rintro rfl
          have hflags := P.flags request.page
          rw [hr, Option.map_none, Option.map_eq_none_iff, lookupPlaced_eq_none] at hflags
          exact hflags hmem
        simp [hne]
    · obtain ⟨placed₁, s₁, hplace, h⟩ := EStateM.bind_eq_ok.mp h
      exact ih (P.place hmem hplace) h

/-- Serving places the requested pages and no others. -/
theorem mem_of_placeAll {requests : List PageRequest} {placed placed' : List PlacedPage}
    {s s' : AddressMap} (h : placeAll requests placed s = .ok placed' s') (n : Nat) :
    n ∈ placed'.map PlacedPage.page ↔
      n ∈ placed.map PlacedPage.page ∨ ∃ r ∈ requests, r.page = n := by
  induction requests generalizing s placed with
  | nil =>
    cases h
    simp
  | cons request rest ih =>
    rw [placeAll] at h
    split_ifs at h with hmem
    · rw [ih h]
      simp only [List.mem_cons, exists_eq_or_imp]
      constructor
      · rintro (h | h)
        · exact .inl h
        · exact .inr (.inr h)
      · rintro (h | rfl | h)
        · exact .inl h
        · exact .inl hmem
        · exact .inr h
    · obtain ⟨placed₁, s₁, hplace, h⟩ := EStateM.bind_eq_ok.mp h
      obtain ⟨f, -, -, -, -, -, -, rfl⟩ := placePage_eq_ok hplace
      rw [ih h]
      simp only [List.map_append, List.map_cons, List.map_nil, List.mem_append, List.mem_cons,
        List.not_mem_nil, or_false, exists_eq_or_imp, or_assoc, eq_comm (a := n)]

/-! ## The whole image -/

/-- End a list of requests with its error, if there is one. -/
def verdict (error : Option MemoryError) (placed : List PlacedPage) : Edit (List PlacedPage) :=
  match error with
  | none => return placed
  | some e => throw e

/-- Place the pages of the headers, then those of the stack. -/
def placeImage (fileLen : Nat) (headers : List (Except ElfError ProgramHeader)) :
    Edit (List PlacedPage) := do
  let plan := segmentPlan fileLen headers
  let placed ← placeAll plan.1 [] >>= verdict plan.2
  placeAll stackRequests placed

/-- The pages a segment asks for lie between the image base and the stack. -/
theorem page_of_mem_segmentRequests {header : ProgramHeader} (h : SegmentInRange header)
    {r : PageRequest} (hr : r ∈ segmentRequests header) :
    userImageBase / 4096 ≤ r.page ∧ r.page < userStackBase / 4096 := by
  obtain ⟨n, hn, rfl⟩ := List.mem_map.mp hr
  obtain ⟨hlo, hhi, -⟩ := h
  rw [List.mem_range'_1] at hn
  simp only [userImageBase, userStackBase, userStackTop, userStackPages, pageSize] at hlo hhi ⊢
  omega

theorem page_of_mem_segmentPlan {fileLen : Nat} {headers : List (Except ElfError ProgramHeader)}
    {r : PageRequest} (hr : r ∈ (segmentPlan fileLen headers).1) :
    userImageBase / 4096 ≤ r.page ∧ r.page < userStackBase / 4096 := by
  induction headers with
  | nil => cases hr
  | cons header rest ih =>
    cases header with
    | error e => cases hr
    | ok header =>
      rw [segmentPlan] at hr
      split_ifs at hr with hkind hrange
      · exact ih hr
      · split at hr
        · exact page_of_mem_segmentRequests hrange hr
        · rcases List.mem_append.mp hr with hr | hr
          · exact page_of_mem_segmentRequests hrange hr
          · exact ih hr
      · cases hr

end Lazers.Memory
