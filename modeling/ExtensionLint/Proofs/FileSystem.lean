import ExtensionLint.FileSystem
import ExtensionLint.Proofs.Path
import ExtensionLint.Proofs.Text.Utf8

/-!
# Looking up paths

What a path leads to, told from what its directory leads to: the entry of that name, or what the entry
links to.
-/

namespace ExtensionLint.FileSystem

open ExtensionLint.Path (join IsName)

variable {root : FileNode}

/-! ## One piece of a path -/

/-- Where a piece of a path leads from a place. -/
inductive Turn
  | fault (fault : AccessFault)
  | place (place : List String)
  | link (target : String)

def turn (root : FileNode) (place : List String) (piece : String) : Turn :=
  match at? root place.reverse with
  | some (.directory entries) =>
    if piece = "" ∨ piece = "." then .place place
    else if piece = ".." then .place place.tail
    else if longestName < piece.utf8ByteSize then .fault .nameTooLong
    else match entries.lookup piece with
      | none => .fault .missing
      | some (.link target) => .link target
      | some _ => .place (piece :: place)
  | _ => .fault .notADirectory

/-- The place from which the target of a link is followed. -/
def linkStart (target : String) (place : List String) : List String :=
  if target.startsWith "/" then [] else place

theorem walk_cons (keep : Bool) (links : Nat) (place : List String) (piece : String)
    (rest : List String) : walk root keep links place (piece :: rest) =
      match turn root place piece with
      | .fault fault => .error fault
      | .place next => walk root keep links next rest
      | .link target =>
        if keep ∧ rest = [] then .ok (piece :: place)
        else match links with
          | 0 => .error .tooManyLinks
          | left + 1 => walk root keep left (linkStart target place) (Path.pieces target ++ rest) := by
  rw [walk]
  unfold turn
  cases at? root place.reverse with
  | none => rfl
  | some node =>
      cases node with
      | file _ => rfl
      | link _ => rfl
      | directory entries =>
          dsimp only
          by_cases hstay : piece = "" ∨ piece = "."
          · rw [if_pos hstay, if_pos hstay]
          rw [if_neg hstay, if_neg hstay]
          by_cases hparent : piece = ".."
          · rw [if_pos hparent, if_pos hparent]
          rw [if_neg hparent, if_neg hparent]
          by_cases hlong : longestName < piece.utf8ByteSize
          · rw [if_pos hlong, if_pos hlong]
          rw [if_neg hlong, if_neg hlong]
          cases entries.lookup piece with
          | none => rfl
          | some entry => cases entry <;> rfl

/-- A path can be followed up to its last piece first, a link at that point included; the links on the
way count for the last piece too. -/
theorem exists_walk_concat (root : FileNode) (keep : Bool) (links : Nat) (place ps : List String)
    (last : String) :
    ∃ left ≤ links, walk root keep links place (ps ++ [last]) =
      (walk root false links place ps).bind fun mid => walk root keep left mid [last] := by
  cases ps with
  | nil => exact ⟨links, Nat.le_refl _, by rw [walk]; rfl⟩
  | cons piece rest =>
      rw [List.cons_append]
      simp only [walk_cons _ links place piece]
      cases turn root place piece with
      | fault fault => exact ⟨links, Nat.le_refl _, rfl⟩
      | place next => exact exists_walk_concat root keep links next rest last
      | link target =>
          have hmore : ¬ (keep = true ∧ rest ++ [last] = []) := by simp
          have hfollow : ¬ (false = true ∧ rest = []) := by simp
          simp only [if_neg hmore, if_neg hfollow]
          -- what is left of the path comes behind the target, still with the last piece at the end
          cases links with
          | zero => exact ⟨0, Nat.le_refl _, rfl⟩
          | succ links =>
              obtain ⟨left, hleft, h⟩ := exists_walk_concat root keep links (linkStart target place)
                (Path.pieces target ++ rest) last
              exact ⟨left, Nat.le_succ_of_le hleft, by rw [← h, List.append_assoc]⟩
termination_by (links, ps.length)

/-! ## Places -/

theorem at?_append (names more : List String) :
    at? root (names ++ more) = (at? root names).bind (at? · more) := by
  induction names generalizing root with
  | nil => rfl
  | cons name names ih =>
      simp only [List.cons_append, at?]
      cases root.child? name with
      | none => rfl
      | some child => exact ih

theorem at?_concat {names : List String} {entries : List (String × FileNode)}
    (h : at? root names = some (.directory entries)) (name : String) :
    at? root (names ++ [name]) = entries.lookup name := by
  simp only [at?_append, h, Option.bind_some, at?, FileNode.child?]
  cases entries.lookup name <;> rfl

variable {fs : FileSystem} {path dir name : String} {names : List String}

def start (fs : FileSystem) (path : String) : List String :=
  if path.startsWith "/" then [] else fs.working.reverse

theorem locate_eq_ok_iff {keep : Bool} : fs.locate keep path = .ok names ↔
    ¬ path.contains '\x00' = true ∧ path ≠ "" ∧ ¬ longestPath < path.utf8ByteSize ∧
      walk fs.root keep mostLinks (fs.start path) (Path.pieces path) = .ok names.reverse := by
  unfold locate
  by_cases hzero : path.contains '\x00' = true
  · rw [if_pos hzero]
    exact iff_of_false nofun fun h => h.1 hzero
  by_cases hempty : path = ""
  · rw [if_neg hzero, if_pos hempty]
    exact iff_of_false nofun fun h => h.2.1 hempty
  by_cases hlong : longestPath < path.utf8ByteSize
  · rw [if_neg hzero, if_neg hempty, if_pos hlong]
    exact iff_of_false nofun fun h => h.2.2.1 hlong
  rw [if_neg hzero, if_neg hempty, if_neg hlong, and_iff_right hzero, and_iff_right hempty,
    and_iff_right hlong]
  change (walk fs.root keep mostLinks (fs.start path) (Path.pieces path)).map List.reverse =
    .ok names ↔ _
  cases walk fs.root keep mostLinks (fs.start path) (Path.pieces path) with
  | error fault => exact iff_of_false nofun nofun
  | ok place => simp only [Except.map, Except.ok.injEq, List.reverse_eq_iff]

theorem node_eq_ok_iff {n : FileNode} : fs.node path = .ok n ↔
    ∃ names, fs.locate false path = .ok names ∧ at? fs.root names = some n := by
  unfold node
  cases fs.locate false path with
  | error fault => simp [bind, Except.bind]
  | ok names => cases h : at? fs.root names <;> simp [bind, Except.bind, h]

theorem ownNode_eq_ok_iff {n : FileNode} : fs.ownNode path = .ok n ↔
    ∃ names, fs.locate true path = .ok names ∧ at? fs.root names = some n := by
  unfold ownNode
  cases fs.locate true path with
  | error fault => simp [bind, Except.bind]
  | ok names => cases h : at? fs.root names <;> simp [bind, Except.bind, h]

theorem ne_empty_of_node {n : FileNode} (h : fs.node path = .ok n) : path ≠ "" := by
  obtain ⟨names, hnames, _⟩ := node_eq_ok_iff.mp h
  exact (locate_eq_ok_iff.mp hnames).2.1

/-- The path itself leads to a link, whatever that leads to. -/
def IsLink (fs : FileSystem) (path : String) : Prop := ∃ target, fs.ownNode path = .ok (.link target)

theorem isDirectory_iff : fs.isDirectory path = true ↔ ∃ es, fs.node path = .ok (.directory es) := by
  unfold isDirectory
  split
  · rename_i n hn
    cases n <;> simp [FileNode.isDirectory, hn]
  · rename_i hn
    simp [hn]

theorem isFile_iff : fs.isFile path = true ↔ ∃ bytes, fs.node path = .ok (.file bytes) := by
  unfold isFile
  split
  · rename_i bytes hn
    simp [hn]
  · rename_i hn
    simpa using fun bytes hfile => hn bytes hfile

/-! ## Entries -/

theorem start_join (hdir : dir ≠ "") (hname : IsName name) :
    fs.start (join dir name) = fs.start dir := by
  have hstarts : (join dir name).startsWith "/" = true ↔ dir.startsWith "/" = true := by
    rw [String.startsWith_string_iff, String.startsWith_string_iff]
    obtain ⟨c, s, hs⟩ := List.exists_cons_of_ne_nil (mt String.toList_eq_nil_iff.mp hdir)
    unfold join
    rw [if_neg hname.not_startsWith]
    split <;> simp [hs]
  simp only [start, hstarts]

theorem walk_empty_piece {links : Nat} {place next : List String}
    (h : walk root false links place [""] = .ok next) : next = place := by
  unfold walk at h
  split at h
  · rw [if_pos (.inl rfl), walk] at h
    cases h
    rfl
  · cases h

/-- The last piece of a path is followed from the place of its directory. -/
theorem exists_walk_join (keep : Bool) (hdir : fs.locate false dir = .ok names) (hname : IsName name) :
    ∃ left ≤ mostLinks, walk fs.root keep mostLinks (fs.start (join dir name))
      (Path.pieces (join dir name)) = walk fs.root keep left names.reverse [name] := by
  obtain ⟨_, hempty, _, hwalk⟩ := locate_eq_ok_iff.mp hdir
  obtain ⟨stem, _, hpieces, hjoin⟩ := Path.pieces_join hempty hname
  rw [hjoin, start_join hempty hname]
  obtain ⟨left, hleft, h⟩ :=
    exists_walk_concat fs.root keep mostLinks (fs.start dir) stem name
  refine ⟨left, hleft, ?_⟩
  -- an empty piece behind the stem only asks for a directory
  have hstem : walk fs.root false mostLinks (fs.start dir) stem = .ok names.reverse := by
    rcases hpieces with ⟨hstem, _⟩ | hstem
    · rw [← hstem, hwalk]
    · obtain ⟨_, _, hend⟩ :=
        exists_walk_concat fs.root false mostLinks (fs.start dir) stem ""
      rw [hstem, hend] at hwalk
      cases hmid : walk fs.root false mostLinks (fs.start dir) stem with
      | error fault => simp [hmid, Except.bind] at hwalk
      | ok mid =>
          rw [hmid] at hwalk
          rw [walk_empty_piece hwalk]
  rw [h, hstem]
  rfl

variable {entries : List (String × FileNode)} {n : FileNode}

theorem walk_to_directory {links : Nat} {place : List String}
    (h : at? root place.reverse = some (.directory entries)) :
    walk root false links place [""] = .ok place := by
  unfold walk
  rw [h]
  dsimp only
  rw [if_pos (.inl rfl), walk]

theorem directory_of_walk {links : Nat} {place next : List String}
    (h : walk root false links place [name] = .ok next) :
    ∃ entries, at? root place.reverse = some (.directory entries) := by
  unfold walk at h
  split at h
  · rename_i entries hentries
    exact ⟨entries, hentries⟩
  · cases h

theorem exists_directory_of_node_join (hdir : dir ≠ "") (hname : IsName name)
    (h : fs.node (join dir name) = .ok n) : ∃ entries, fs.node dir = .ok (.directory entries) := by
  obtain ⟨place, hplace, _⟩ := node_eq_ok_iff.mp h
  obtain ⟨hzero, _, hlong, hwalk⟩ := locate_eq_ok_iff.mp hplace
  obtain ⟨stem, _, hpieces, hjoin⟩ := Path.pieces_join hdir hname
  obtain ⟨left, _, hsplit⟩ :=
    exists_walk_concat fs.root false mostLinks (fs.start dir) stem name
  rw [hjoin, start_join hdir hname, hsplit] at hwalk
  cases hmid : walk fs.root false mostLinks (fs.start dir) stem with
  | error fault => simp [hmid, Except.bind] at hwalk
  | ok mid =>
      rw [hmid] at hwalk
      obtain ⟨entries, hentries⟩ := directory_of_walk hwalk
      refine ⟨entries, node_eq_ok_iff.mpr ⟨mid.reverse, ?_, hentries⟩⟩
      refine locate_eq_ok_iff.mpr ⟨?_, hdir, ?_, ?_⟩
      · intro hdirzero
        exact hzero (Path.contains_join hname hdirzero)
      · exact fun hdirlong => hlong (Nat.lt_of_lt_of_le hdirlong (Path.utf8ByteSize_le_join hname))
      · rw [List.reverse_reverse]
        rcases hpieces with ⟨hstem, _⟩ | hstem
        · rw [hstem, hmid]
        · obtain ⟨_, _, hend⟩ :=
            exists_walk_concat fs.root false mostLinks (fs.start dir) stem ""
          rw [hstem, hend, hmid]
          exact walk_to_directory hentries

theorem turn_name (h : at? root names = some (.directory entries)) (hname : IsName name) :
    turn root names.reverse name =
      if longestName < name.utf8ByteSize then .fault .nameTooLong
      else match entries.lookup name with
        | none => .fault .missing
        | some (.link target) => .link target
        | some _ => .place (name :: names.reverse) := by
  unfold turn
  rw [List.reverse_reverse, h]
  dsimp only
  rw [if_neg (not_or.mpr ⟨hname.ne_empty, hname.ne_current⟩), if_neg hname.ne_parent]

/-- Where the name of an entry is not followed further, it leads to that entry. -/
theorem walk_name {keep : Bool} {links : Nat} (h : at? root names = some (.directory entries))
    (hname : IsName name) (hlast : keep = true ∨ ∀ target, entries.lookup name ≠ some (.link target)) :
    walk root keep links names.reverse [name] =
      if longestName < name.utf8ByteSize then .error .nameTooLong
      else match entries.lookup name with
        | none => .error .missing
        | some _ => .ok (names ++ [name]).reverse := by
  rw [walk_cons, turn_name h hname, List.reverse_append]
  by_cases hlong : longestName < name.utf8ByteSize
  · rw [if_pos hlong, if_pos hlong]
  rw [if_neg hlong, if_neg hlong]
  cases hentry : entries.lookup name with
  | none => rfl
  | some entry =>
      cases entry with
      | file _ => exact walk.eq_1 ..
      | directory _ => exact walk.eq_1 ..
      | link target =>
          rcases hlast with rfl | hlast
          · rfl
          · exact absurd hentry (hlast target)

theorem lookup_of_walk_name {keep : Bool} {links : Nat} {place : List String}
    (h : at? root names = some (.directory entries)) (hname : IsName name)
    (hwalk : walk root keep links names.reverse [name] = .ok place) :
    ¬ longestName < name.utf8ByteSize ∧ ∃ entry, entries.lookup name = some entry := by
  rw [walk_cons, turn_name h hname] at hwalk
  by_cases hlong : longestName < name.utf8ByteSize
  · rw [if_pos hlong] at hwalk
    cases hwalk
  rw [if_neg hlong] at hwalk
  cases hentry : entries.lookup name with
  | none =>
      rw [hentry] at hwalk
      cases hwalk
  | some entry => exact ⟨hlong, entry, rfl⟩

/-- What is found below a directory is found through one of its entries. -/
theorem exists_lookup_of_locate_join {place : List String} (hdir : fs.locate false dir = .ok names)
    (hat : at? fs.root names = some (.directory entries)) (hname : IsName name)
    (h : fs.locate false (join dir name) = .ok place) :
    (∃ entry, entries.lookup name = some entry) ∧
      fs.locate true (join dir name) = .ok (names ++ [name]) ∧
      ((∀ target, entries.lookup name ≠ some (.link target)) → place = names ++ [name]) := by
  obtain ⟨hzero, hempty, hlong, hwalk⟩ := locate_eq_ok_iff.mp h
  obtain ⟨left, _, hlast⟩ := exists_walk_join false hdir hname
  obtain ⟨own, _, hown⟩ := exists_walk_join true hdir hname
  rw [hlast] at hwalk
  obtain ⟨hshort, entry, hentry⟩ := lookup_of_walk_name hat hname hwalk
  refine ⟨⟨entry, hentry⟩, locate_eq_ok_iff.mpr ⟨hzero, hempty, hlong, ?_⟩, fun hlink => ?_⟩
  · rw [hown, walk_name hat hname (.inl rfl), if_neg hshort, hentry]
  · rw [walk_name hat hname (.inr hlink), if_neg hshort, hentry] at hwalk
    exact (List.reverse_inj.mp (Except.ok.inj hwalk)).symm

theorem exists_lookup_of_node_join (hdir : fs.node dir = .ok (.directory entries)) (hname : IsName name)
    (h : fs.node (join dir name) = .ok n) :
    ∃ entry, entries.lookup name = some entry ∧ fs.ownNode (join dir name) = .ok entry := by
  obtain ⟨names, hnames, hat⟩ := node_eq_ok_iff.mp hdir
  obtain ⟨place, hplace, _⟩ := node_eq_ok_iff.mp h
  obtain ⟨⟨entry, hentry⟩, hown, _⟩ := exists_lookup_of_locate_join hnames hat hname hplace
  exact ⟨entry, hentry, ownNode_eq_ok_iff.mpr ⟨_, hown, (at?_concat hat name).trans hentry⟩⟩

/-- A path to an entry of a directory that is not followed further leads to that entry, unless the
system refuses the path for what it looks like. -/
theorem locate_join {keep : Bool} (hdir : fs.locate false dir = .ok names)
    (hat : at? fs.root names = some (.directory entries)) (hname : IsName name)
    (hlast : keep = true ∨ ∀ target, entries.lookup name ≠ some (.link target)) :
    fs.locate keep (join dir name) =
      if (join dir name).contains '\x00' then .error .zeroCharacter
      else if longestPath < (join dir name).utf8ByteSize ∨ longestName < name.utf8ByteSize then
        .error .nameTooLong
      else match entries.lookup name with
        | none => .error .missing
        | some _ => .ok (names ++ [name]) := by
  obtain ⟨left, _, hend⟩ := exists_walk_join keep hdir hname
  unfold locate
  by_cases hzero : (join dir name).contains '\x00' = true
  · rw [if_pos hzero, if_pos hzero]
  rw [if_neg hzero, if_neg hzero, if_neg (Path.join_ne_empty hname)]
  by_cases hlong : longestPath < (join dir name).utf8ByteSize
  · rw [if_pos hlong, if_pos (.inl hlong)]
  rw [if_neg hlong]
  change (walk fs.root keep mostLinks (fs.start (join dir name)) (Path.pieces (join dir name))).map
    List.reverse = _
  rw [hend, walk_name hat hname hlast]
  by_cases hlong' : longestName < name.utf8ByteSize
  · rw [if_pos hlong', if_pos (.inr hlong')]
    rfl
  rw [if_neg hlong', if_neg (not_or.mpr ⟨hlong, hlong'⟩)]
  cases entries.lookup name with
  | none => rfl
  | some entry => simp only [Except.map, List.reverse_reverse]

theorem node_join (hdir : fs.node dir = .ok (.directory entries)) (hname : IsName name)
    (hlink : ∀ target, entries.lookup name ≠ some (.link target)) : fs.node (join dir name) =
      if (join dir name).contains '\x00' then .error .zeroCharacter
      else if longestPath < (join dir name).utf8ByteSize ∨ longestName < name.utf8ByteSize then
        .error .nameTooLong
      else match entries.lookup name with
        | none => .error .missing
        | some entry => .ok entry := by
  obtain ⟨names, hnames, hat⟩ := node_eq_ok_iff.mp hdir
  rw [node, locate_join hnames hat hname (.inr hlink)]
  split
  · rfl
  split
  · rfl
  cases hentry : entries.lookup name with
  | none => rfl
  | some entry => simp only [bind, Except.bind, at?_concat hat, hentry]

end ExtensionLint.FileSystem
