import ExtensionLint.Proofs.FileSystem

/-!
# Changes in a plain directory

A directory is plain if its path spells the names that lead to it and it holds no links. Writing or
removing a file there changes one of its entries and leaves it plain.
-/

namespace ExtensionLint

/-! ## Entries -/

section Entries

variable {α : Type}

theorem lookup_map_at (key : String) (f : α → α) (es : List (String × α)) :
    (es.map fun e => (e.1, if e.1 = key then f e.2 else e.2)).lookup key =
      (es.lookup key).map f := by
  induction es with
  | nil => rfl
  | cons e es ih =>
      obtain ⟨k, v⟩ := e
      by_cases h : key = k
      · simp [h]
      · simp [List.lookup_cons, beq_eq_false_iff_ne.2 h, ih]

end Entries

namespace FileSystem

open ExtensionLint.Path (join IsName)

variable {root : FileNode} {names : List String} {entries : List (String × FileNode)}

/-! ## Trees -/

theorem exists_directory_of_at?_append {more : List String}
    (h : at? root (names ++ more) = some (.directory entries)) :
    ∃ es, at? root names = some (.directory es) := by
  rw [at?_append] at h
  obtain ⟨here, hhere, h⟩ := Option.bind_eq_some_iff.1 h
  rw [hhere]
  cases here with
  | directory es => exact ⟨es, rfl⟩
  | file bytes => cases more <;> simp [at?, FileNode.child?] at h
  | link target => cases more <;> simp [at?, FileNode.child?] at h

theorem exists_entries_of_at?_cons {name : String} {rest : List String} {n : FileNode}
    (h : at? root (name :: rest) = some n) :
    ∃ es inner, root = .directory es ∧ es.lookup name = some inner ∧ at? inner rest = some n := by
  rw [at?] at h
  obtain ⟨inner, hinner, hrest⟩ := Option.bind_eq_some_iff.1 h
  cases root with
  | directory es => exact ⟨es, inner, rfl, hinner, hrest⟩
  | file bytes => simp [FileNode.child?] at hinner
  | link target => simp [FileNode.child?] at hinner

theorem at?_put (h : at? root names = some (.directory entries)) (name : String) (node : FileNode) :
    at? (FileNode.put node (names ++ [name]) root) names =
      some (.directory (Data.put name node entries)) := by
  induction names generalizing root with
  | nil =>
      cases h
      rfl
  | cons n names ih =>
      obtain ⟨es, inner, rfl, hinner, h⟩ := exists_entries_of_at?_cons h
      simp [FileNode.put, at?, FileNode.child?, Data.lookup_put_self, hinner, ih h]

theorem at?_erase (h : at? root names = some (.directory entries)) (name : String) :
    at? (root.erase (names ++ [name])) names =
      some (.directory (entries.filter (·.1 ≠ name))) := by
  induction names generalizing root with
  | nil =>
      cases h
      rfl
  | cons n names ih =>
      obtain ⟨es, inner, rfl, hinner, h⟩ := exists_entries_of_at?_cons h
      have herase : (FileNode.directory es).erase (n :: (names ++ [name])) =
          .directory (es.map fun e =>
            (e.1, if e.1 = n then e.2.erase (names ++ [name]) else e.2)) := by
        cases names <;> rfl
      rw [List.cons_append, herase]
      simp [at?, FileNode.child?, lookup_map_at, hinner, ih h]

/-! ## Paths that spell the names to a place -/

/-- The pieces of a path that are names. -/
def spelled (pieces : List String) : List String := pieces.filter fun p => p ≠ "" ∧ p ≠ "."

/-- A path that can be followed in any tree that has its names. -/
structure IsPlainPath (path : String) : Prop where
  no_zero : ¬ path.contains '\x00' = true
  ne_empty : path ≠ ""
  short : ¬ longestPath < path.utf8ByteSize
  pieces : ∀ p ∈ Path.pieces path, p ≠ ".." ∧ ¬ longestName < p.utf8ByteSize

variable {fs : FileSystem} {dir name : String}

theorem walk_spelled {links : Nat} {place pieces : List String}
    (hpieces : ∀ p ∈ pieces, p ≠ ".." ∧ ¬ longestName < p.utf8ByteSize)
    (h : at? root (place.reverse ++ spelled pieces) = some (.directory entries)) :
    walk root false links place pieces = .ok ((spelled pieces).reverse ++ place) := by
  induction pieces generalizing place with
  | nil => simp [walk, spelled]
  | cons p ps ih =>
      obtain ⟨⟨hparent, hshort⟩, hrest⟩ := List.forall_mem_cons.1 hpieces
      obtain ⟨es, hes⟩ := exists_directory_of_at?_append h
      rw [walk, hes]
      dsimp only
      by_cases hstay : p = "" ∨ p = "."
      · have hspelled : spelled (p :: ps) = spelled ps := by
          rcases hstay with rfl | rfl <;> simp [spelled]
        rw [if_pos hstay, hspelled]
        rw [hspelled] at h
        exact ih hrest h
      · have hspelled : spelled (p :: ps) = p :: spelled ps := by
          simp [spelled, not_or.1 hstay]
        rw [hspelled, List.append_cons] at h
        obtain ⟨inner, hinner⟩ := exists_directory_of_at?_append h
        rw [at?_concat hes] at hinner
        rw [if_neg hstay, if_neg hparent, if_neg hshort, hinner]
        dsimp only
        rw [ih hrest (by simpa using h), hspelled]
        simp

def follow (names : List String) : Path.Component → List String
  | .name text => names ++ [text]
  | .parent => names.dropLast
  | _ => names

theorem names_eq_foldl (path : String) :
    fs.names path = (Path.components path).foldl follow (fs.start path).reverse := by
  have hstart : (fs.start path).reverse = if path.startsWith "/" then [] else fs.working := by
    unfold start
    split <;> simp
  rw [hstart, names]
  congr 1

theorem foldl_follow {pieces : List String} (hpieces : ".." ∉ pieces) (names : List String) :
    (pieces.filterMap Path.component?).foldl follow names = names ++ spelled pieces := by
  induction pieces generalizing names with
  | nil => simp [spelled]
  | cons p ps ih =>
      obtain ⟨hp, hps⟩ := not_or.1 (mt List.mem_cons.2 hpieces)
      by_cases hstay : p = "" ∨ p = "."
      · have hspelled : spelled (p :: ps) = spelled ps := by
          rcases hstay with rfl | rfl <;> simp [spelled]
        rw [List.filterMap_cons_none (by simp [Path.component?, hstay]), hspelled, ih hps]
      · have hspelled : spelled (p :: ps) = p :: spelled ps := by
          simp [spelled, not_or.1 hstay]
        have hname : Path.component? p = some (.name p) := by
          simp [Path.component?, hstay, Ne.symm hp]
        rw [List.filterMap_cons_some hname, hspelled, List.foldl_cons, ih hps, follow]
        simp

theorem names_eq (fs : FileSystem) (hpieces : ".." ∉ Path.pieces dir) :
    fs.names dir = (fs.start dir).reverse ++ spelled (Path.pieces dir) := by
  have hstart : (Path.start (Path.pieces dir)).foldl follow (fs.start dir).reverse =
      (fs.start dir).reverse := by
    unfold Path.start
    split <;> rfl
  rw [names_eq_foldl, Path.components_eq, List.foldl_append, hstart, foldl_follow hpieces]

theorem names_join (hdir : dir ≠ "") (hname : IsName name) :
    fs.names (join dir name) = fs.names dir ++ [name] := by
  rw [names_eq_foldl, names_eq_foldl, start_join hdir hname, Path.components_join hdir hname,
    List.foldl_append]
  rfl

theorem IsPlainPath.locate (hdir : IsPlainPath dir)
    (h : at? fs.root (fs.names dir) = some (.directory entries)) :
    fs.locate false dir = .ok (fs.names dir) := by
  have hnames := names_eq fs fun hparent => (hdir.pieces ".." hparent).1 rfl
  refine locate_eq_ok_iff.2 ⟨hdir.no_zero, hdir.ne_empty, hdir.short, ?_⟩
  rw [hnames] at h
  rw [walk_spelled hdir.pieces h, hnames, List.reverse_append, List.reverse_reverse]

/-! ## Writing and removing -/

/-- A directory without links, at the place that its path spells. -/
structure PlainDirectory (fs : FileSystem) (dir : String) (entries : List (String × FileNode)) :
    Prop where
  path : IsPlainPath dir
  at_names : at? fs.root (fs.names dir) = some (.directory entries)
  no_links : ∀ name target, entries.lookup name ≠ some (.link target)

namespace PlainDirectory

theorem node (h : PlainDirectory fs dir entries) : fs.node dir = .ok (.directory entries) :=
  node_eq_ok_iff.2 ⟨_, h.path.locate h.at_names, h.at_names⟩

/-- What reading an entry yields if it is no link. -/
def contents : Option FileNode → Except AccessFault (List UInt8)
  | none => .error .missing
  | some (.file bytes) => .ok bytes
  | some _ => .error .isADirectory

/-- Reading a file of the directory depends on its path and its entry only. -/
theorem read_join (h : PlainDirectory fs dir entries) (hname : IsName name) :
    fs.read (join dir name) =
      if (join dir name).contains '\x00' then .error .zeroCharacter
      else if longestPath < (join dir name).utf8ByteSize ∨ longestName < name.utf8ByteSize then
        .error .nameTooLong
      else contents (entries.lookup name) := by
  rw [read, node_join h.node hname (h.no_links name)]
  split
  · rfl
  split
  · rfl
  cases hentry : entries.lookup name with
  | none => rfl
  | some entry =>
      cases entry with
      | link target => exact absurd hentry (h.no_links name target)
      | _ => rfl

theorem readText_congr {fs' : FileSystem} {entries' : List (String × FileNode)}
    (h : PlainDirectory fs dir entries) (h' : PlainDirectory fs' dir entries') (hname : IsName name)
    (hentry : entries.lookup name = entries'.lookup name) :
    fs.readText (join dir name) = fs'.readText (join dir name) := by
  rw [readText, readText, h.read_join hname, h'.read_join hname, hentry]

theorem write (h : PlainDirectory fs dir entries) (hname : IsName name) (bytes : List UInt8) :
    PlainDirectory (fs.put (join dir name) (.file bytes)) dir
      (Data.put name (.file bytes) entries) where
  path := h.path
  at_names := by
    have hnames : (fs.put (join dir name) (.file bytes)).names dir = fs.names dir := rfl
    rw [hnames, put, names_join h.path.ne_empty hname]
    exact at?_put h.at_names name _
  no_links := by
    intro other target
    by_cases hother : other = name
    · rw [hother, Data.lookup_put_self]
      simp
    · rw [Data.lookup_put_of_ne hother]
      exact h.no_links other target

/-- What is left of an entry where a file of that name is to be removed. -/
def remains (dir name : String) (entry : Option FileNode) : Option FileNode :=
  if (join dir name).contains '\x00' ∨ longestPath < (join dir name).utf8ByteSize ∨
      longestName < name.utf8ByteSize then entry
  else match entry with
    | some (.file _) => none
    | entry => entry

theorem remove (h : PlainDirectory fs dir entries) (hname : IsName name) :
    ∃ entries', PlainDirectory ((fs.remove? (join dir name)).getD fs) dir entries' ∧
      ∀ other, entries'.lookup other =
        if other = name then remains dir name (entries.lookup name) else entries.lookup other := by
  -- a file that the system does not remove stays, and with it the whole directory
  have hkept (hremove : fs.remove? (join dir name) = none)
      (hremains : remains dir name (entries.lookup name) = entries.lookup name) :
      ∃ entries', PlainDirectory ((fs.remove? (join dir name)).getD fs) dir entries' ∧
        ∀ other, entries'.lookup other =
          if other = name then remains dir name (entries.lookup name) else entries.lookup other := by
    refine ⟨entries, by rwa [hremove], fun other => ?_⟩
    split
    · rename_i hother
      rw [hremains, hother]
    · rfl
  have hlocate := locate_join (h.path.locate h.at_names) h.at_names hname (.inl (rfl : true = true))
  by_cases hzero : (join dir name).contains '\x00' = true
  · rw [if_pos hzero] at hlocate
    exact hkept (by simp [remove?, hlocate]) (if_pos (.inl hzero))
  rw [if_neg hzero] at hlocate
  by_cases hlong : longestPath < (join dir name).utf8ByteSize ∨ longestName < name.utf8ByteSize
  · rw [if_pos hlong] at hlocate
    exact hkept (by simp [remove?, hlocate]) (if_pos (.inr hlong))
  rw [if_neg hlong] at hlocate
  have hremains (entry : Option FileNode) : remains dir name entry = match entry with
      | some (.file _) => none
      | entry => entry := if_neg (not_or.2 ⟨hzero, hlong⟩)
  have hat := at?_concat h.at_names name
  cases hentry : entries.lookup name with
  | none =>
      rw [hentry] at hlocate
      exact hentry ▸ hkept (by simp [remove?, hlocate]) (by rw [hremains, hentry])
  | some entry =>
      rw [hentry] at hlocate hat
      cases entry with
      | link target => exact absurd hentry (h.no_links name target)
      | directory es =>
          exact hentry ▸ hkept (by simp [remove?, hlocate, hat]) (by rw [hremains, hentry])
      | file bytes =>
          refine ⟨entries.filter (·.1 ≠ name), ?_, fun other => ?_⟩
          · have hremove : fs.remove? (join dir name) =
                some { fs with root := fs.root.erase (fs.names dir ++ [name]) } := by
              simp [remove?, hlocate, hat]
            rw [hremove]
            refine ⟨h.path, at?_erase h.at_names name, fun other target => ?_⟩
            rw [Data.lookup_filter_ne]
            split
            · simp
            · exact h.no_links other target
          · rw [Data.lookup_filter_ne, hremains]

end PlainDirectory

end FileSystem
end ExtensionLint
