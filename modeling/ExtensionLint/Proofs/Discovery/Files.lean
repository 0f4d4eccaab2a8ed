import Mathlib
import ExtensionLint.Proofs.Discovery.Ways

/-!
# Which files are found

The files below a directory are those that the filter takes and ways lead to, in the order of listings
(`files_exact`).
-/

namespace ExtensionLint.Discovery

open ExtensionLint.Path (join IsName Precedes)

variable {fs : FileSystem} {f : Filter} {path name : String} {names : List String}

/-- The names lead down from a directory, through directories, to a file that is looked for. -/
structure Found (fs : FileSystem) (f : Filter) (root : String) (names : List String) : Prop where
  ne_nil : names ≠ []
  way : Way fs f root names
  shallow : ∀ m, f.maxDepth = some m → names.length - 1 ≤ m
  taken : f.takes (below root names) = true

variable {root : String} {entries : List (String × FileNode)}

theorem found_cons : Found fs f root (name :: names) ↔ IsName name ∧ fs.isDirectory root = true ∧
    (f.followLinks = false → ¬ fs.IsLink (join root name)) ∧ Taken fs f 0 (join root name) names := by
  constructor
  · rintro ⟨_, hway, hshallow, htaken⟩
    obtain ⟨hname, hdir, hlink, hway⟩ := way_cons.mp hway
    exact ⟨hname, hdir, hlink, hway, by simpa using hshallow, htaken⟩
  · rintro ⟨hname, hdir, hlink, hway, hshallow, htaken⟩
    exact ⟨by simp, way_cons.mpr ⟨hname, hdir, hlink, hway⟩, by simpa using hshallow, htaken⟩

theorem files_of_directory (hroot : fs.node root = .ok (.directory entries)) : files fs f root =
    .ok (Path.sort ((entryPaths fs f root entries).flatMap (filesBelow fs f fs.root.size 0))) := by
  rw [files, hroot]

theorem mem_files (hfs : fs.root.WellNamed) (hloop : f.followLinks = true → Loopless fs root)
    (hroot : fs.node root = .ok (.directory entries)) (path : String) :
    path ∈ Path.sort ((entryPaths fs f root entries).flatMap (filesBelow fs f fs.root.size 0)) ↔
      ∃ names, Found fs f root names ∧ path = below root names := by
  have hdir := FileSystem.isDirectory_iff.mpr ⟨entries, hroot⟩
  rw [Path.mem_sort, mem_flatMap_entryPaths hfs hroot (mem_filesBelow hfs fs.root.size 0)]
  constructor
  · rintro ⟨name, names, _, hname, hlink, htaken, rfl⟩
    exact ⟨name :: names, found_cons.mpr ⟨hname, hdir, hlink, htaken⟩, rfl⟩
  · rintro ⟨names, hfound, rfl⟩
    cases names with
    | nil => exact absurd rfl hfound.ne_nil
    | cons name names =>
        obtain ⟨hname, _, hlink, htaken⟩ := found_cons.mp hfound
        exact ⟨name, names, hfound.way.length_le hloop, hname, hlink, htaken, rfl⟩

/-- What is found below a directory, listed in strictly increasing order. -/
theorem exists_files (hfs : fs.root.WellNamed) (hloop : f.followLinks = true → Loopless fs root)
    (hroot : fs.node root = .ok (.directory entries)) : ∃ found, files fs f root = .ok found ∧
      found.Pairwise Precedes ∧
        ∀ path, path ∈ found ↔ ∃ names, Found fs f root names ∧ path = below root names := by
  refine ⟨_, files_of_directory hroot, Path.pairwise_precedes_sort ?_, mem_files hfs hloop hroot⟩
  exact nodup_flatMap_entryPaths hfs hroot fun p hp => nodup_filesBelow hfs _ _ p hp

/-- The filter without its patterns. -/
def Filter.unpatterned (f : Filter) : Filter := { f with included := [], excluded := [] }

/-- Whether patterns let a path through. -/
def Filter.passes (f : Filter) (path : String) : Bool :=
  !f.excluded.any (·.isMatch path) && (f.included.isEmpty || f.included.any (·.isMatch path))

theorem takes_eq (path : String) : f.takes path = (f.unpatterned.takes path && f.passes path) := by
  simp [Filter.takes, Filter.unpatterned, Filter.passes, Filter.takesExtension, Bool.and_assoc]

theorem eq_of_pairwise_precedes {as bs : List String} (ha : as.Pairwise Precedes)
    (hb : bs.Pairwise Precedes) (hmem : ∀ p, p ∈ as ↔ p ∈ bs) : as = bs := by
  have hnodup {l : List String} (h : l.Pairwise Precedes) : l.Nodup :=
    h.imp fun {a b} hab => by
      rintro rfl
      exact Path.not_precedes_self a hab
  have hperm : as.Perm bs := (List.perm_ext_iff_of_nodup (hnodup ha) (hnodup hb)).mpr hmem
  exact hperm.eq_of_pairwise (fun a b _ _ hab hba => absurd hba hab.asymm) ha hb

theorem found_unpatterned : Found fs f root names ↔
    Found fs f.unpatterned root names ∧ f.passes (below root names) = true := by
  have htakes := takes_eq (f := f) (below root names)
  constructor
  · rintro ⟨hnil, ⟨hproper, hthrough, hfile, hlink⟩, hshallow, htaken⟩
    rw [htakes, Bool.and_eq_true] at htaken
    exact ⟨⟨hnil, ⟨hproper, hthrough, hfile, hlink⟩, hshallow, htaken.1⟩, htaken.2⟩
  · rintro ⟨⟨hnil, ⟨hproper, hthrough, hfile, hlink⟩, hshallow, htaken⟩, hpasses⟩
    exact ⟨hnil, ⟨hproper, hthrough, hfile, hlink⟩, hshallow, by rw [htakes, htaken, hpasses]; rfl⟩

theorem Found.deepen {deeper : Option Nat} (h : Found fs f root names)
    (hdeeper : ∀ m, deeper = some m → ∃ m' ≤ m, f.maxDepth = some m') :
    Found fs { f with maxDepth := deeper } root names := by
  obtain ⟨hnil, ⟨hproper, hthrough, hfile, hlink⟩, hshallow, htaken⟩ := h
  refine ⟨hnil, ⟨hproper, hthrough, hfile, hlink⟩, fun m hm => ?_, htaken⟩
  obtain ⟨m', hle, hm'⟩ := hdeeper m hm
  exact (hshallow m' hm').trans hle

theorem files_of_file {bytes : List UInt8} (hroot : fs.node root = .ok (.file bytes)) :
    files fs f root = .ok (if f.takes root then [root] else []) := by
  rw [files, hroot]

theorem files_sieved (hfs : fs.root.WellNamed) (hloop : f.followLinks = true → Loopless fs root) :
    files fs f root = (files fs f.unpatterned root).map (List.filter f.passes) := by
  cases hroot : fs.node root with
  | error fault => simp [files, hroot, Except.map]
  | ok n =>
      cases n with
      | link target => simp [files, hroot, Except.map]
      | file bytes =>
          rw [files_of_file hroot, files_of_file hroot, takes_eq]
          cases f.unpatterned.takes root <;> cases hpasses : f.passes root <;> simp [Except.map, hpasses]
      | directory entries =>
          obtain ⟨found, hfound, hsorted, hmem⟩ := exists_files hfs hloop hroot
          obtain ⟨plain, hplain, hsorted', hmem'⟩ := exists_files (f := f.unpatterned) hfs hloop hroot
          rw [hfound, hplain]
          refine congrArg Except.ok (eq_of_pairwise_precedes hsorted (hsorted'.filter _) fun p => ?_)
          rw [hmem, List.mem_filter, hmem']
          constructor
          · rintro ⟨names, hnames, rfl⟩
            obtain ⟨hnames, hpasses⟩ := found_unpatterned.mp hnames
            exact ⟨⟨names, hnames, rfl⟩, hpasses⟩
          · rintro ⟨⟨names, hnames, rfl⟩, hpasses⟩
            exact ⟨names, found_unpatterned.mpr ⟨hnames, hpasses⟩, rfl⟩

theorem exists_files_deeper (hfs : fs.root.WellNamed) (hloop : f.followLinks = true → Loopless fs root)
    {deeper : Option Nat} (hdeeper : ∀ m, deeper = some m → ∃ m' ≤ m, f.maxDepth = some m')
    {found : List String} (hfound : files fs f root = .ok found) :
    ∃ more, files fs { f with maxDepth := deeper } root = .ok more ∧ found ⊆ more := by
  cases hroot : fs.node root with
  | error fault => simp [files, hroot] at hfound
  | ok n =>
      cases n with
      | link target => simp [files, hroot] at hfound
      | file bytes =>
          rw [files_of_file hroot] at hfound ⊢
          cases hfound
          exact ⟨_, rfl, List.Subset.refl _⟩
      | directory entries =>
          obtain ⟨found', hfound', _, hmem⟩ := exists_files hfs hloop hroot
          obtain ⟨more, hmore, _, hmem'⟩ :=
            exists_files (f := { f with maxDepth := deeper }) hfs hloop hroot
          rw [hfound] at hfound'
          cases hfound'
          refine ⟨more, hmore, fun p hp => ?_⟩
          obtain ⟨names, hnames, rfl⟩ := (hmem p).mp hp
          exact (hmem' _).mpr ⟨names, hnames.deepen hdeeper, rfl⟩

/-- In a tree of which the walk meets no directory again below itself, the files found below a directory
are exactly those that the filter takes and ways lead to, each once and in the order of listings; a file
is found where it is the root itself. Patterns only sieve what is found without them, and a greater
depth loses nothing. -/
theorem files_exact (hfs : fs.root.WellNamed) (f : Filter) (root : String)
    (hloop : f.followLinks = true → Loopless fs root) :
    (∀ entries, fs.node root = .ok (.directory entries) → ∃ found, files fs f root = .ok found ∧
      found.Pairwise Precedes ∧
        ∀ path, path ∈ found ↔ ∃ names, Found fs f root names ∧ path = below root names) ∧
    (∀ bytes, fs.node root = .ok (.file bytes) →
      files fs f root = .ok (if f.takes root then [root] else [])) ∧
    files fs f root = (files fs f.unpatterned root).map (List.filter f.passes) ∧
    ∀ deeper, (∀ m, deeper = some m → ∃ m' ≤ m, f.maxDepth = some m') →
      ∀ found, files fs f root = .ok found →
        ∃ more, files fs { f with maxDepth := deeper } root = .ok more ∧ found ⊆ more := by
  refine ⟨fun entries hroot => exists_files hfs hloop hroot, fun bytes hroot => files_of_file hroot,
    files_sieved hfs hloop, ?_⟩
  intro deeper hdeeper found hfound
  exact exists_files_deeper hfs hloop hdeeper hfound

/-- A directory of which a link leads to another directory beside it. -/
def linkedTree : FileSystem where
  root := .directory [
    ("ext", .directory [("lib", .link "../shared")]),
    ("shared", .directory [("a.php", .file [])])]

theorem linkedTree_wellNamed : linkedTree.root.WellNamed := by
  intro names entries h
  have hmem := FileNode.mem_places h
  simp [linkedTree, FileNode.places, FileNode.placesOfEntries] at hmem
  rcases hmem with rfl | rfl | rfl | rfl | rfl <;> cases h <;> decide

theorem linkedTree_ext :
    linkedTree.node "/ext" = .ok (.directory [("lib", .link "../shared")]) := by cbv

theorem linkedTree_lib : linkedTree.node "/ext/lib" = .ok (.directory [("a.php", .file [])]) := by cbv

theorem linkedTree_directory (hnames : ∀ name ∈ names, IsName name)
    (h : linkedTree.isDirectory (below "/ext" names) = true) : names = [] ∨ names = ["lib"] := by
  -- the last name is an entry of a directory that is one of the two already
  induction names using List.reverseRecOn with
  | nil => exact .inl rfl
  | append_singleton names name ih =>
      have hname := hnames name (by simp)
      have habove : ∀ x ∈ names, IsName x := fun x hx => hnames x (List.mem_append_left _ hx)
      rw [below_append] at h
      obtain ⟨entries, hnode⟩ := FileSystem.isDirectory_iff.mp h
      obtain ⟨above, hdir⟩ :=
        FileSystem.exists_directory_of_node_join (below_ne_empty (by decide) habove) hname hnode
      obtain ⟨entry, hentry, _⟩ := FileSystem.exists_lookup_of_node_join hdir hname hnode
      rcases ih habove (FileSystem.isDirectory_iff.mpr ⟨above, hdir⟩) with rfl | rfl
      · rw [show below "/ext" [] = "/ext" from rfl, linkedTree_ext] at hdir
        cases hdir
        by_cases hlib : name = "lib"
        · exact .inr (by rw [hlib]; rfl)
        · simp [List.lookup_cons, beq_false_of_ne hlib] at hentry
      · rw [show below "/ext" ["lib"] = "/ext/lib" by cbv, linkedTree_lib] at hdir
        cases hdir
        by_cases ha : name = "a.php"
        · have hfile : linkedTree.node "/ext/lib/a.php" = .ok (.file []) := by cbv
          rw [ha, show below (below "/ext" ["lib"]) ["a.php"] = "/ext/lib/a.php" by cbv, hfile] at hnode
          cases hnode
        · simp [List.lookup_cons, beq_false_of_ne ha] at hentry

theorem linkedTree_loopless : Loopless linkedTree "/ext" := by
  intro above more hproper hmore habove hbelow
  have hshort := linkedTree_directory (fun x hx => hproper x (List.mem_append_left _ hx)) habove
  have hlong := linkedTree_directory hproper hbelow
  have hplaces : linkedTree.locate false "/ext" ≠ linkedTree.locate false "/ext/lib" := by
    rw [show linkedTree.locate false "/ext" = .ok ["ext"] by cbv,
      show linkedTree.locate false "/ext/lib" = .ok ["shared"] by cbv]
    decide
  rcases hshort with rfl | rfl
  · rcases hlong with hlong | hlong
    · exact absurd hlong hmore
    · rw [hlong, show below "/ext" ["lib"] = "/ext/lib" by cbv]
      exact hplaces
  · simp [hmore] at hlong

/-- Below the directory with the link, the file that the link leads to is found. -/
theorem files_exact_through_link : linkedTree.root.WellNamed ∧ Loopless linkedTree "/ext" ∧
    ∃ found, files linkedTree { followLinks := true } "/ext" = .ok found ∧ "/ext/lib/a.php" ∈ found := by
  obtain ⟨hfiles, _⟩ := files_exact linkedTree_wellNamed { followLinks := true } "/ext"
    fun _ => linkedTree_loopless
  obtain ⟨found, hfound, _, hmem⟩ := hfiles _ linkedTree_ext
  refine ⟨linkedTree_wellNamed, linkedTree_loopless, found, hfound, (hmem _).mpr ?_⟩
  refine ⟨["lib", "a.php"], ?_, by cbv⟩
  have hway : Way linkedTree { followLinks := true } "/ext" ["lib", "a.php"] := by
    have hlib : join "/ext" "lib" = "/ext/lib" := by cbv
    have hfile : join "/ext/lib" "a.php" = "/ext/lib/a.php" := by cbv
    refine way_cons.mpr ⟨by decide, by cbv, by simp, ?_⟩
    rw [hlib]
    refine way_cons.mpr ⟨by decide, by cbv, by simp, ?_⟩
    rw [hfile]
    exact way_nil.mpr (by cbv)
  exact ⟨by simp, hway, by simp, by cbv⟩

end ExtensionLint.Discovery
