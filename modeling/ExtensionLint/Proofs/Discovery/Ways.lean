import Mathlib.Data.List.Infix
import Mathlib.Data.List.Nodup
import Mathlib.Data.List.Perm.Subperm
import ExtensionLint.Discovery.Walk
import ExtensionLint.Proofs.FileSystem

/-!
# Ways down to files

A search finds the files to which ways lead: names of entries, one below the other. It goes no deeper
than the tree has places, which is deep enough as long as no directory is met again below itself.
-/

namespace ExtensionLint

open ExtensionLint.Path (join IsName Precedes)

/-! ## The places of a tree -/

mutual
def FileNode.places : FileNode → List (List String)
  | .directory entries => [] :: FileNode.placesOfEntries entries
  | _ => [[]]

def FileNode.placesOfEntries : List (String × FileNode) → List (List String)
  | [] => []
  | (name, n) :: es => n.places.map (name :: ·) ++ FileNode.placesOfEntries es
end

mutual
theorem FileNode.length_places : (n : FileNode) → n.places.length = n.size
  | .directory entries => by
      rw [FileNode.places, List.length_cons, FileNode.length_placesOfEntries entries, FileNode.size]
  | .file _ => rfl
  | .link _ => rfl

theorem FileNode.length_placesOfEntries : (es : List (String × FileNode)) →
    (FileNode.placesOfEntries es).length = FileNode.sizeOfEntries es
  | [] => rfl
  | (_, n) :: es => by
      rw [FileNode.placesOfEntries, List.length_append, List.length_map, n.length_places,
        FileNode.length_placesOfEntries es, FileNode.sizeOfEntries]
end

theorem FileNode.mem_placesOfEntries {es : List (String × FileNode)} {name : String} {n : FileNode}
    {names : List String} (h : es.lookup name = some n) (hn : names ∈ n.places) :
    name :: names ∈ FileNode.placesOfEntries es := by
  induction es with
  | nil => cases h
  | cons e es ih =>
      obtain ⟨name', n'⟩ := e
      rw [FileNode.placesOfEntries, List.mem_append]
      rw [List.lookup_cons] at h
      split at h
      · rename_i heq
        cases h
        rw [beq_iff_eq] at heq
        exact .inl (List.mem_map.mpr ⟨names, hn, by rw [heq]⟩)
      · exact .inr (ih h)

theorem FileNode.mem_places {root n : FileNode} {names : List String}
    (h : FileSystem.at? root names = some n) : names ∈ root.places := by
  induction names generalizing root with
  | nil => cases root <;> simp [FileNode.places]
  | cons name names ih =>
      cases root with
      | file _ => cases h
      | link _ => cases h
      | directory entries =>
          obtain ⟨child, hchild, hn⟩ := Option.bind_eq_some_iff.mp h
          rw [FileNode.places]
          exact List.mem_cons_of_mem _ (FileNode.mem_placesOfEntries hchild (ih hn))

/-- The entries of every directory in the tree have names, each its own. -/
def FileNode.WellNamed (root : FileNode) : Prop :=
  ∀ names entries, FileSystem.at? root names = some (.directory entries) →
    (∀ e ∈ entries, IsName e.1) ∧ (entries.map (·.1)).Nodup

namespace Discovery

variable {fs : FileSystem} {f : Filter} {path name : String} {names : List String}

/-- The path that names of entries lead to from another one. -/
def below (path : String) (names : List String) : String := names.foldl join path

theorem below_cons : below path (name :: names) = below (join path name) names := rfl

theorem components_below (hpath : path ≠ "") (hnames : ∀ name ∈ names, IsName name) :
    Path.components (below path names) = Path.components path ++ names.map .name := by
  induction names generalizing path with
  | nil => simp [below]
  | cons name names ih =>
      have hname := hnames name List.mem_cons_self
      rw [below_cons, ih (Path.join_ne_empty hname) fun x hx => hnames x (List.mem_cons_of_mem _ hx),
        Path.components_join hpath hname, List.append_assoc]
      rfl

theorem below_ne_empty (hpath : path ≠ "") (hnames : ∀ name ∈ names, IsName name) :
    below path names ≠ "" := by
  induction names generalizing path with
  | nil => exact hpath
  | cons name names ih =>
      obtain ⟨hname, hnames⟩ := List.forall_mem_cons.mp hnames
      exact ih (Path.join_ne_empty hname) hnames

/-- Names lead from a path through directories to a file, by entries that are no links unless links are
followed. -/
structure Way (fs : FileSystem) (f : Filter) (path : String) (names : List String) : Prop where
  proper : ∀ name ∈ names, IsName name
  through : ∀ above, above <+: names → above ≠ names → fs.isDirectory (below path above) = true
  file : fs.isFile (below path names) = true
  unlinked : f.followLinks = false →
    ∀ above, above <+: names → above ≠ [] → ¬ fs.IsLink (below path above)

theorem way_nil : Way fs f path [] ↔ fs.isFile path = true := by
  refine ⟨Way.file, fun h => ⟨nofun, ?_, h, ?_⟩⟩
  · intro above habove hne
    exact absurd (List.prefix_nil.mp habove) hne
  · intro _ above habove hne
    exact absurd (List.prefix_nil.mp habove) hne

theorem way_cons : Way fs f path (name :: names) ↔ IsName name ∧ fs.isDirectory path = true ∧
    (f.followLinks = false → ¬ fs.IsLink (join path name)) ∧ Way fs f (join path name) names := by
  constructor
  · intro h
    refine ⟨h.proper name List.mem_cons_self, h.through [] List.nil_prefix (by simp), fun hf => ?_, ?_⟩
    · exact h.unlinked hf [name] (by simp) (by simp)
    · refine ⟨fun x hx => h.proper x (List.mem_cons_of_mem _ hx), ?_, h.file, ?_⟩
      · intro above habove hne
        exact h.through (name :: above) (List.cons_prefix_cons.mpr ⟨rfl, habove⟩) (by simpa using hne)
      · intro hf above habove _
        exact h.unlinked hf (name :: above) (List.cons_prefix_cons.mpr ⟨rfl, habove⟩) (by simp)
  · rintro ⟨hname, hdir, hlink, h⟩
    refine ⟨List.forall_mem_cons.mpr ⟨hname, h.proper⟩, ?_, h.file, ?_⟩
    · intro above habove hne
      rcases List.prefix_cons_iff.mp habove with rfl | ⟨rest, rfl, hrest⟩
      · exact hdir
      · exact h.through rest hrest (by simpa using hne)
    · intro hf above habove hne
      rcases List.prefix_cons_iff.mp habove with rfl | ⟨rest, rfl, hrest⟩
      · exact absurd rfl hne
      · cases rest with
        | nil => exact hlink hf
        | cons x rest => exact h.unlinked hf (x :: rest) hrest (by simp)

/-! ## Membership -/

theorem leavesOut_eq_false_iff :
    leavesOut fs f path = false ↔ (f.followLinks = false → ¬ fs.IsLink path) := by
  unfold leavesOut FileSystem.IsLink
  cases f.followLinks with
  | true => simp
  | false =>
      cases fs.ownNode path with
      | error fault => simp
      | ok n => cases n <;> simp [FileNode.isLink]

theorem mem_entryPaths {entries : List (String × FileNode)} {p : String} :
    p ∈ entryPaths fs f path entries ↔ ∃ name ∈ entries.map (·.1), p = join path name ∧
      (f.followLinks = false → ¬ fs.IsLink p) := by
  simp only [entryPaths, List.mem_filter, List.mem_map, Bool.not_eq_true', leavesOut_eq_false_iff]
  constructor
  · rintro ⟨⟨e, he, rfl⟩, hlink⟩
    exact ⟨e.1, ⟨e, he, rfl⟩, rfl, hlink⟩
  · rintro ⟨_, ⟨e, he, rfl⟩, rfl, hlink⟩
    exact ⟨⟨e, he, rfl⟩, hlink⟩

/-- Names lead to a file that is taken, from a path that lies `depth` directories below the root. -/
structure Taken (fs : FileSystem) (f : Filter) (depth : Nat) (path : String) (names : List String) :
    Prop where
  way : Way fs f path names
  shallow : ∀ m, f.maxDepth = some m → depth + names.length ≤ m
  taken : f.takes (below path names) = true

variable {depth : Nat}

theorem taken_nil : Taken fs f depth path [] ↔ fs.isFile path = true ∧
    (∀ m, f.maxDepth = some m → depth ≤ m) ∧ f.takes path = true :=
  ⟨fun ⟨hway, hshallow, htaken⟩ => ⟨way_nil.mp hway, hshallow, htaken⟩,
    fun ⟨hfile, hshallow, htaken⟩ => ⟨way_nil.mpr hfile, hshallow, htaken⟩⟩

theorem taken_cons : Taken fs f depth path (name :: names) ↔ IsName name ∧
    fs.isDirectory path = true ∧ (f.followLinks = false → ¬ fs.IsLink (join path name)) ∧
      Taken fs f (depth + 1) (join path name) names := by
  have hdepth : depth + (name :: names).length = depth + 1 + names.length := by
    rw [List.length_cons]
    omega
  constructor
  · rintro ⟨hway, hshallow, htaken⟩
    obtain ⟨hname, hdir, hlink, hway⟩ := way_cons.mp hway
    exact ⟨hname, hdir, hlink, hway, hdepth ▸ hshallow, htaken⟩
  · rintro ⟨hname, hdir, hlink, hway, hshallow, htaken⟩
    exact ⟨way_cons.mpr ⟨hname, hdir, hlink, hway⟩, hdepth ▸ hshallow, htaken⟩

theorem reaches_iff : f.reaches depth = true ↔ ∀ m, f.maxDepth = some m → depth ≤ m := by
  unfold Filter.reaches
  cases f.maxDepth <;> simp

theorem enters_iff : f.enters depth = true ↔ ∀ m, f.maxDepth = some m → depth < m := by
  unfold Filter.enters
  cases f.maxDepth <;> simp

/-- What a way below a directory starts with is one of its entries. -/
theorem Way.mem_entries {entries : List (String × FileNode)}
    (hdir : fs.node path = .ok (.directory entries)) (hname : IsName name)
    (h : Way fs f (join path name) names) : name ∈ entries.map (·.1) := by
  have hnode : ∃ n, fs.node (join path name) = .ok n := by
    cases names with
    | nil =>
        obtain ⟨bytes, hbytes⟩ := FileSystem.isFile_iff.mp h.file
        exact ⟨_, hbytes⟩
    | cons x names =>
        obtain ⟨es, hes⟩ := FileSystem.isDirectory_iff.mp (way_cons.mp h).2.1
        exact ⟨_, hes⟩
  obtain ⟨n, hn⟩ := hnode
  obtain ⟨entry, hentry, _⟩ := FileSystem.exists_lookup_of_node_join hdir hname hn
  obtain ⟨before, after, hentries, _⟩ := List.lookup_eq_some_iff.mp hentry
  simp [hentries]

theorem proper_entries (hfs : fs.root.WellNamed) {entries : List (String × FileNode)}
    (hdir : fs.node path = .ok (.directory entries)) :
    (∀ name ∈ entries.map (·.1), IsName name) ∧ (entries.map (·.1)).Nodup := by
  obtain ⟨place, _, hat⟩ := FileSystem.node_eq_ok_iff.mp hdir
  obtain ⟨hnames, hnodup⟩ := hfs place entries hat
  exact ⟨List.forall_mem_map.mpr hnames, hnodup⟩

/-- The files found through the entries of a directory, if what is found below each of them is known. -/
theorem mem_flatMap_entryPaths (hfs : fs.root.WellNamed) {entries : List (String × FileNode)}
    (hdir : fs.node path = .ok (.directory entries)) {n : Nat}
    (hbelow : ∀ p q, q ∈ filesBelow fs f n depth p ↔
      ∃ names, names.length < n ∧ Taken fs f depth p names ∧ q = below p names) (q : String) :
    q ∈ (entryPaths fs f path entries).flatMap (filesBelow fs f n depth) ↔
      ∃ name names, names.length < n ∧ IsName name ∧
        (f.followLinks = false → ¬ fs.IsLink (join path name)) ∧
          Taken fs f depth (join path name) names ∧ q = below path (name :: names) := by
  simp only [List.mem_flatMap, mem_entryPaths, hbelow]
  constructor
  · rintro ⟨_, ⟨name, hname, rfl, hlink⟩, names, hn, htaken, rfl⟩
    exact ⟨name, names, hn, (proper_entries hfs hdir).1 name hname, hlink, htaken, rfl⟩
  · rintro ⟨name, names, hn, hname, hlink, htaken, rfl⟩
    exact ⟨_, ⟨name, htaken.way.mem_entries hdir hname, rfl, hlink⟩, names, hn, htaken, rfl⟩

theorem exists_taken_of_file {bytes : List UInt8} (hnode : fs.node path = .ok (.file bytes)) {n : Nat}
    (hshallow : ∀ m, f.maxDepth = some m → depth ≤ m) {q : String} :
    (∃ names, names.length < n + 1 ∧ Taken fs f depth path names ∧ q = below path names) ↔
      f.takes path = true ∧ q = path := by
  constructor
  · rintro ⟨names, _, htaken, rfl⟩
    cases names with
    | nil => exact ⟨htaken.taken, rfl⟩
    | cons name names =>
        obtain ⟨es, hes⟩ := FileSystem.isDirectory_iff.mp (taken_cons.mp htaken).2.1
        rw [hnode] at hes
        cases hes
  · rintro ⟨htakes, rfl⟩
    exact ⟨[], by simp, taken_nil.mpr ⟨FileSystem.isFile_iff.mpr ⟨bytes, hnode⟩, hshallow, htakes⟩, rfl⟩

theorem exists_taken_of_directory {entries : List (String × FileNode)}
    (hnode : fs.node path = .ok (.directory entries)) {n : Nat} {q : String} :
    (∃ names, names.length < n + 1 ∧ Taken fs f depth path names ∧ q = below path names) ↔
      ∃ name names, names.length < n ∧ IsName name ∧
        (f.followLinks = false → ¬ fs.IsLink (join path name)) ∧
          Taken fs f (depth + 1) (join path name) names ∧ q = below path (name :: names) := by
  constructor
  · rintro ⟨names, hn, htaken, rfl⟩
    cases names with
    | nil =>
        obtain ⟨bytes, hbytes⟩ := FileSystem.isFile_iff.mp htaken.way.file
        rw [show below path [] = path from rfl, hnode] at hbytes
        cases hbytes
    | cons name names =>
        obtain ⟨hname, _, hlink, htaken⟩ := taken_cons.mp htaken
        exact ⟨name, names, Nat.lt_of_succ_lt_succ hn, hname, hlink, htaken, rfl⟩
  · rintro ⟨name, names, hn, hname, hlink, htaken, rfl⟩
    have hdir := FileSystem.isDirectory_iff.mpr ⟨entries, hnode⟩
    exact ⟨name :: names, Nat.succ_lt_succ hn, taken_cons.mpr ⟨hname, hdir, hlink, htaken⟩, rfl⟩

theorem mem_filesBelow (hfs : fs.root.WellNamed) (n depth : Nat) (path q : String) :
    q ∈ filesBelow fs f n depth path ↔
      ∃ names, names.length < n ∧ Taken fs f depth path names ∧ q = below path names := by
  -- the bound of the walk is the bound on the names; the depth only rules names out
  induction n generalizing depth path q with
  | zero => simp [filesBelow]
  | succ n ih =>
      rw [filesBelow]
      by_cases hreaches : f.reaches depth = true
      · rw [if_pos hreaches]
        rw [reaches_iff] at hreaches
        split
        · rename_i bytes hnode
          rw [exists_taken_of_file hnode hreaches]
          split <;> simp_all
        · rename_i entries hnode
          rw [exists_taken_of_directory hnode]
          split
          · rename_i henters
            rw [mem_flatMap_entryPaths hfs hnode (ih (depth + 1))]
          · rename_i henters
            rw [enters_iff] at henters
            refine iff_of_false List.not_mem_nil ?_
            rintro ⟨name, names, _, _, _, htaken, _⟩
            exact henters fun m hm => Nat.le_of_add_right_le (htaken.shallow m hm)
        · rename_i hfile hdir
          refine iff_of_false List.not_mem_nil ?_
          rintro ⟨names, _, htaken, _⟩
          cases names with
          | nil =>
              obtain ⟨bytes, hbytes⟩ := FileSystem.isFile_iff.mp htaken.way.file
              exact hfile bytes hbytes
          | cons name names =>
              obtain ⟨es, hes⟩ := FileSystem.isDirectory_iff.mp (taken_cons.mp htaken).2.1
              exact hdir es hes
      · rw [if_neg hreaches]
        rw [reaches_iff] at hreaches
        refine iff_of_false List.not_mem_nil ?_
        rintro ⟨names, _, htaken, _⟩
        exact hreaches fun m hm => Nat.le_of_add_right_le (htaken.shallow m hm)

/-! ## Nothing is found twice -/

theorem components_of_mem_filesBelow (hfs : fs.root.WellNamed) (hpath : path ≠ "") {n : Nat}
    {q : String} (h : q ∈ filesBelow fs f n depth path) :
    ∃ names, Path.components q = Path.components path ++ names := by
  obtain ⟨names, _, htaken, rfl⟩ := (mem_filesBelow hfs n depth path q).mp h
  exact ⟨_, components_below hpath htaken.way.proper⟩

theorem nodup_flatMap_entryPaths (hfs : fs.root.WellNamed) {entries : List (String × FileNode)}
    (hdir : fs.node path = .ok (.directory entries)) {n : Nat}
    (hbelow : ∀ p, p ≠ "" → ((filesBelow fs f n depth p).map Path.components).Nodup) :
    (((entryPaths fs f path entries).flatMap (filesBelow fs f n depth)).map Path.components).Nodup := by
  have hpath := FileSystem.ne_empty_of_node hdir
  obtain ⟨hproper, hnodup⟩ := proper_entries hfs hdir
  rw [List.map_flatMap, List.nodup_flatMap]
  constructor
  · intro p hp
    obtain ⟨name, hname, rfl, _⟩ := mem_entryPaths.mp hp
    exact hbelow _ (Path.join_ne_empty (hproper name hname))
  -- what is found below different entries differs in the component of the entry
  · unfold entryPaths
    refine List.Pairwise.filter _ (List.pairwise_map.mpr ?_)
    rw [List.Nodup, List.pairwise_map] at hnodup
    refine hnodup.imp_of_mem ?_
    intro e e' he he' hne cs hcs hcs'
    obtain ⟨q, hq, rfl⟩ := List.mem_map.mp hcs
    obtain ⟨q', hq', hsame⟩ := List.mem_map.mp hcs'
    have hname := hproper e.1 (List.mem_map.mpr ⟨e, he, rfl⟩)
    have hname' := hproper e'.1 (List.mem_map.mpr ⟨e', he', rfl⟩)
    obtain ⟨rest, hrest⟩ := components_of_mem_filesBelow hfs (Path.join_ne_empty hname) hq
    obtain ⟨rest', hrest'⟩ := components_of_mem_filesBelow hfs (Path.join_ne_empty hname') hq'
    rw [Path.components_join hpath hname] at hrest
    rw [Path.components_join hpath hname'] at hrest'
    rw [hrest, hrest'] at hsame
    simp at hsame
    exact hne hsame.1.symm

theorem nodup_filesBelow (hfs : fs.root.WellNamed) (n depth : Nat) (path : String) (hpath : path ≠ "") :
    ((filesBelow fs f n depth path).map Path.components).Nodup := by
  induction n generalizing depth path with
  | zero => exact List.nodup_nil
  | succ n ih =>
      rw [filesBelow]
      split
      · split
        · split <;> simp
        · rename_i entries hnode
          split
          · exact nodup_flatMap_entryPaths hfs hnode fun p hp => ih (depth + 1) p hp
          · exact List.nodup_nil
        · exact List.nodup_nil
      · exact List.nodup_nil

/-! ## How deep a search goes -/

/-- No directory below the path is met again below itself. -/
def Loopless (fs : FileSystem) (path : String) : Prop :=
  ∀ above more, (∀ name ∈ above ++ more, IsName name) → more ≠ [] →
    fs.isDirectory (below path above) = true → fs.isDirectory (below path (above ++ more)) = true →
      fs.locate false (below path above) ≠ fs.locate false (below path (above ++ more))

theorem below_append (path : String) (above more : List String) :
    below path (above ++ more) = below (below path above) more := List.foldl_append

theorem Way.directory_above {above rest : List String} (h : Way fs f path (above ++ rest))
    (hrest : rest ≠ []) : fs.isDirectory (below path above) = true :=
  h.through above (List.prefix_append _ _) (by simpa using hrest)

/-- One entry further, the place has one name more, unless the entry is a link. -/
theorem Way.locate_step {above rest place : List String} (h : Way fs f path (above ++ name :: rest))
    (hrest : rest ≠ []) (hfollow : f.followLinks = false)
    (hplace : fs.locate false (below path above) = .ok place) :
    fs.locate false (below path (above ++ [name])) = .ok (place ++ [name]) := by
  have hname : IsName name := h.proper name (by simp)
  have hnext := below_append path above [name]
  have hsplit : above ++ name :: rest = above ++ [name] ++ rest := by simp
  obtain ⟨entries, hentries⟩ := FileSystem.isDirectory_iff.mp (h.directory_above (by simp))
  obtain ⟨_, hnode⟩ := FileSystem.isDirectory_iff.mp ((hsplit ▸ h).directory_above hrest)
  obtain ⟨names, hnames, hat⟩ := FileSystem.node_eq_ok_iff.mp hentries
  obtain ⟨next, hlocate, _⟩ := FileSystem.node_eq_ok_iff.mp hnode
  rw [hplace] at hnames
  cases hnames
  rw [hnext] at hlocate hnode
  obtain ⟨_, _, hplain⟩ := FileSystem.exists_lookup_of_locate_join hplace hat hname hlocate
  obtain ⟨entry, hentry, hown⟩ := FileSystem.exists_lookup_of_node_join hentries hname hnode
  have hunlinked := h.unlinked hfollow (above ++ [name]) (by simp) (by simp)
  rw [hnext] at hunlinked ⊢
  rw [hlocate, hplain]
  intro target hlink
  rw [hlink] at hentry
  cases hentry
  exact hunlinked ⟨target, hown⟩

/-- Without links, names lead to the places that they spell. -/
theorem Way.locate_append {above more rest place : List String}
    (h : Way fs f path (above ++ more ++ rest)) (hrest : rest ≠ []) (hfollow : f.followLinks = false)
    (hplace : fs.locate false (below path above) = .ok place) :
    fs.locate false (below path (above ++ more)) = .ok (place ++ more) := by
  induction more generalizing above place with
  | nil => simpa using hplace
  | cons name more ih =>
      have hsplit : above ++ name :: more = above ++ [name] ++ more := by simp
      have hstep : Way fs f path (above ++ name :: (more ++ rest)) := by simpa using h
      have hnext := hstep.locate_step (by simp [hrest]) hfollow hplace
      rw [hsplit, ih (hsplit ▸ h) hnext]
      simp

/-- On a way down, no directory is met twice. -/
theorem Way.locate_ne {above more rest : List String} (h : Way fs f path (above ++ more ++ rest))
    (hmore : more ≠ []) (hrest : rest ≠ []) (hloop : f.followLinks = true → Loopless fs path) :
    fs.locate false (below path above) ≠ fs.locate false (below path (above ++ more)) := by
  have hsplit : Way fs f path (above ++ (more ++ rest)) := by simpa using h
  have habove : fs.isDirectory (below path above) = true := hsplit.directory_above (by simp [hmore])
  cases hfollow : f.followLinks with
  | true =>
      have hnames (name : String) (hname : name ∈ above ++ more) : IsName name :=
        h.proper name (List.mem_append_left _ hname)
      exact hloop hfollow above more hnames hmore habove (h.directory_above hrest)
  | false =>
      obtain ⟨_, hnode⟩ := FileSystem.isDirectory_iff.mp habove
      obtain ⟨place, hplace, _⟩ := FileSystem.node_eq_ok_iff.mp hnode
      rw [h.locate_append hrest hfollow hplace, hplace]
      simpa using hmore

/-- Above each of its names, a way down has reached a place of the tree. -/
theorem Way.exists_place (h : Way fs f path names) {i : Nat} (hi : i < names.length) :
    ∃ place ∈ fs.root.places, fs.locate false (below path (names.take i)) = .ok place := by
  have hsplit := List.take_append_drop i names
  have hdir := Way.directory_above (hsplit.symm ▸ h) (by simpa using hi)
  obtain ⟨entries, hnode⟩ := FileSystem.isDirectory_iff.mp hdir
  obtain ⟨place, hplace, hat⟩ := FileSystem.node_eq_ok_iff.mp hnode
  exact ⟨place, FileNode.mem_places hat, hplace⟩

theorem Way.locate_take_ne (h : Way fs f path names)
    (hloop : f.followLinks = true → Loopless fs path) {i j : Nat} (hij : i < j)
    (hj : j < names.length) :
    fs.locate false (below path (names.take i)) ≠ fs.locate false (below path (names.take j)) := by
  have hsplit := List.take_append_drop i (names.take j)
  rw [List.take_take, Nat.min_eq_left hij.le] at hsplit
  have hway : Way fs f path (names.take i ++ (names.take j).drop i ++ names.drop j) := by
    rwa [hsplit, List.take_append_drop]
  have hmore : (names.take j).drop i ≠ [] := by
    intro hnil
    have hlength := congrArg List.length hsplit
    simp [hnil, List.length_take] at hlength
    omega
  have hne := hway.locate_ne hmore (by simpa using hj) hloop
  rwa [hsplit] at hne

/-- A way down has no more names than the tree has places. -/
theorem Way.length_le (h : Way fs f path names) (hloop : f.followLinks = true → Loopless fs path) :
    names.length ≤ fs.root.size := by
  have hplaces : ∀ i, i < names.length → ∃ place ∈ fs.root.places,
      fs.locate false (below path (names.take i)) = .ok place := fun i hi => h.exists_place hi
  choose! place hmem hplace using hplaces
  have hne : ∀ i j, i < j → j < names.length → place i ≠ place j := by
    intro i j hij hj heq
    refine h.locate_take_ne hloop hij hj ?_
    rw [hplace i (hij.trans hj), hplace j hj, heq]
  -- the places that the way goes through are as many as its names, and the tree has them all
  have hnodup : ((List.range names.length).map place).Nodup := by
    refine List.Nodup.map_on ?_ List.nodup_range
    intro i hi j hj heq
    rw [List.mem_range] at hi hj
    rcases Nat.lt_trichotomy i j with hij | hij | hij
    · exact absurd heq (hne i j hij hj)
    · exact hij
    · exact absurd heq.symm (hne j i hij hi)
  have hsubset : (List.range names.length).map place ⊆ fs.root.places := by
    intro p hp
    obtain ⟨i, hi, rfl⟩ := List.mem_map.mp hp
    exact hmem i (List.mem_range.mp hi)
  have hlength := (List.subperm_of_subset hnodup hsubset).length_le
  rwa [List.length_map, List.length_range, FileNode.length_places] at hlength

end Discovery
end ExtensionLint
