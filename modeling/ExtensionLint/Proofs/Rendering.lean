import Mathlib.Data.List.Forall2
import ExtensionLint.Proofs.Text.PlainLines
import ExtensionLint.Rendering

/-!
# How findings are laid out

What is printed for a file can be cut into its findings again: a line that is not indented begins one, and
the indented lines behind it are the rest of its message. No message can feign a further finding
(`blocks_fileLines`).
-/

namespace ExtensionLint

namespace Text

theorem lf_not_mem_closedLine {s : List Char} (h : '\n' ∉ s) : '\n' ∉ closedLine s.reverse := by
  rcases eq_or_eq_of_closedLine s with hs | hs
  · exact hs ▸ h
  · intro hmem
    exact h (hs ▸ List.mem_append_left _ hmem)

theorem lf_not_mem_of_mem_plainLines {s line : List Char} (h : line ∈ plainLines s) : '\n' ∉ line := by
  induction s using lines_induction with
  | last s hs =>
      by_cases hne : s = []
      · subst hne
        cases h
      · rw [plainLines_of_not_mem hs hne, List.mem_singleton] at h
        exact h ▸ hs
  | line s t hs ih =>
      rw [plainLines_append hs, List.mem_cons] at h
      rcases h with rfl | h
      · exact lf_not_mem_closedLine hs
      · exact ih h

theorem plainLines_ne_nil {s : List Char} (h : s ≠ []) : plainLines s ≠ [] := by
  by_cases hlf : '\n' ∈ s
  · obtain ⟨front, t, rfl, hfront⟩ := List.eq_append_cons_of_mem hlf
    rw [plainLines_append hfront]
    exact List.cons_ne_nil _ _
  · rw [plainLines_of_not_mem hlf h]
    exact List.cons_ne_nil _ _

end Text

/-! ## Cutting what is printed -/

/-- A line that begins something, and the indented lines behind it without their indentation. -/
structure Block where
  heading : String
  more : List String
  deriving DecidableEq, Repr

namespace Style

/-- The lines of a text in which an LF ends each line. -/
def readLines (text : String) : List String := (text.toList.splitOn '\n').dropLast.map String.ofList

def indentation : List Char := "    ".toList

def isIndented (line : String) : Bool := indentation.isPrefixOf line.toList

def withoutIndentation (line : String) : String := String.ofList (line.toList.drop indentation.length)

/-- Each line that is not indented, with what is indented behind it. -/
def blocks : List String → List Block
  | [] => []
  | line :: ls =>
    if isIndented line then blocks ls
    else ⟨line, (ls.takeWhile isIndented).map withoutIndentation⟩ :: blocks ls

theorem lines_cons (l : String) (ls : List String) : lines (l :: ls) = l ++ "\n" ++ lines ls := by
  rw [lines, List.map_cons, String.join_cons]
  rfl

theorem toList_lines (ls : List String) :
    (lines ls).toList = ['\n'].intercalate (ls.map String.toList ++ [[]]) := by
  induction ls with
  | nil => rfl
  | cons l ls ih =>
      rw [lines_cons, String.toList_append, String.toList_append, ih, List.map_cons, List.cons_append]
      cases ls <;> simp [List.intercalate]

theorem readLines_lines {ls : List String} (h : ∀ l ∈ ls, '\n' ∉ l.toList) :
    readLines (lines ls) = ls := by
  have hsplit : (lines ls).toList.splitOn '\n' = ls.map String.toList ++ [[]] := by
    rw [toList_lines]
    refine List.splitOn_intercalate '\n' ?_ (by simp)
    simpa [or_imp, forall_and] using h
  rw [readLines, hsplit, List.dropLast_concat, List.map_map]
  exact (List.map_congr_left fun l _ => String.ofList_toList).trans (List.map_id ls)

/-! ## Blocks of lines -/

theorem isIndented_append (line : String) : isIndented ("    " ++ line) = true := by
  rw [isIndented, String.toList_append]
  exact List.isPrefixOf_iff_prefix.mpr (List.prefix_append ..)

theorem withoutIndentation_append (line : String) : withoutIndentation ("    " ++ line) = line := by
  rw [withoutIndentation, String.toList_append]
  exact String.ofList_toList

/-- What is behind a block is none of it. -/
theorem blocks_block {heading : String} (hheading : isIndented heading = false) (more : List String)
    {rest : List String} (hrest : ∀ line ∈ rest.head?, isIndented line = false) :
    blocks (heading :: more.map ("    " ++ ·) ++ rest) = ⟨heading, more⟩ :: blocks rest := by
  have hindented : ∀ line ∈ more.map ("    " ++ ·), isIndented line = true := by
    intro line hline
    obtain ⟨l, -, rfl⟩ := List.mem_map.1 hline
    exact isIndented_append l
  have hstop : rest.takeWhile isIndented = [] := by
    cases rest with
    | nil => rfl
    | cons line rest => rw [List.takeWhile_cons_of_neg (by simp [hrest line rfl])]
  have hskip : ∀ front : List String, (∀ line ∈ front, isIndented line = true) →
      blocks (front ++ rest) = blocks rest := by
    intro front
    induction front with
    | nil => exact fun _ => rfl
    | cons line front ih =>
        intro hfront
        rw [List.cons_append, blocks, if_pos (hfront line List.mem_cons_self)]
        exact ih fun l hl => hfront l (List.mem_cons_of_mem _ hl)
  rw [List.cons_append, blocks, if_neg (by simp [hheading]), hskip _ hindented,
    List.takeWhile_append_of_pos hindented, hstop, List.append_nil, List.map_map]
  have hback : withoutIndentation ∘ ("    " ++ ·) = id := funext withoutIndentation_append
  rw [hback, List.map_id]

theorem filter_isIndented (ls : List String) :
    ls.filter (!isIndented ·) = (blocks ls).map Block.heading := by
  induction ls with
  | nil => rfl
  | cons line ls ih =>
      cases hline : isIndented line <;> simp [blocks, hline, ih]

/-! ## The lines of an entry -/

/-- The style that tells all findings, in one colour. -/
def uncolored (format : OutputFormat) : Style := { format, verbosity := .normal }

/-- The lines of a message, of which there is at least one. -/
def messageLines (message : String) : List String := if message = "" then [""] else plain message

/-- What the first line of an entry begins with. -/
def place (e : Entry) : String := s!"{location e}: {e.severity.label}: "

def entryBlock (e : Entry) : Block :=
  ⟨place e ++ (messageLines e.message).headD "", (messageLines e.message).tail⟩

/-- The line on a file that could not be checked. -/
def failureLines (r : FileReport) : List String :=
  match r.status with
  | .failed message => [s!"{r.path}: failed: {message}"]
  | _ => []

variable {format : OutputFormat} {e : Entry} {r : FileReport}

theorem exists_messageLines (message : String) :
    ∃ first more, messageLines message = first :: more ∧
      (plain message).head?.getD "" = first ∧ (plain message).drop 1 = more := by
  by_cases h : message = ""
  · subst h
    exact ⟨"", [], rfl, rfl, rfl⟩
  · have hne : plain message ≠ [] := by
      rw [plain, Ne, List.map_eq_nil_iff]
      exact Text.plainLines_ne_nil (mt String.toList_eq_nil_iff.mp h)
    obtain ⟨first, more, hmore⟩ := List.exists_cons_of_ne_nil hne
    exact ⟨first, more, by rw [messageLines, if_neg h, hmore], by rw [hmore]; rfl, by rw [hmore]; rfl⟩

theorem entryLines_uncolored (e : Entry) : (uncolored format).entryLines e =
    (entryBlock e).heading :: (entryBlock e).more.map ("    " ++ ·) := by
  obtain ⟨first, more, hlines, hfirst, hmore⟩ := exists_messageLines e.message
  have hpaint : (uncolored format).paint e.severity.color e.severity.label = e.severity.label := rfl
  have hverbose : (uncolored format).isVerbose = false := rfl
  simp only [entryLines, hpaint, hverbose, hfirst, hmore, entryBlock, hlines, place]
  exact List.append_nil _

theorem statusLines_uncolored (r : FileReport) :
    (uncolored format).statusLines r = failureLines r := by
  rw [statusLines, failureLines]
  cases r.status with
  | failed message =>
      have hline : r.path ++ ": " ++ "failed" ++ ": " ++ message = r.path ++ ": failed: " ++ message := by
        simp only [String.append_assoc]
        rfl
      exact congrArg (· :: []) hline
  | _ => rfl

theorem fileLines_uncolored (r : FileReport) : (uncolored format).fileLines r =
    r.entries.flatMap (uncolored format).entryLines ++ failureLines r := by
  rw [fileLines, statusLines_uncolored]
  rfl

end Style

/-! ## Where lines begin -/

/-- A text that may begin a line: it neither ends nor indents it. -/
def BeginsLine (text : String) : Prop := '\n' ∉ text.toList ∧ text.toList.head? ≠ some ' '

instance (text : String) : Decidable (BeginsLine text) := inferInstanceAs (Decidable (_ ∧ _))

/-- Everything but the messages of entries keeps to its line. -/
structure FileReport.KeepsLines (r : FileReport) : Prop where
  path : BeginsLine r.path
  files : ∀ e ∈ r.entries, BeginsLine e.file
  failure : ∀ message, r.status = .failed message → '\n' ∉ message.toList

namespace Style

variable {format : OutputFormat} {e : Entry} {r : FileReport}

/-- What may begin a line is still not indented with a colon behind it. -/
theorem isIndented_eq_false {text line : String} (h : BeginsLine text) (rest : List Char)
    (hline : line.toList = text.toList ++ ':' :: rest) : isIndented line = false := by
  rw [Bool.eq_false_iff, isIndented, Ne, List.isPrefixOf_iff_prefix, hline]
  rintro ⟨tail, htail⟩
  have hhead := congrArg List.head? htail
  obtain ⟨-, hspace⟩ := h
  cases htext : text.toList with
  | nil =>
      rw [htext] at hhead
      cases hhead
  | cons c cs =>
      rw [htext] at hhead hspace
      exact hspace hhead.symm

theorem exists_toList_place (e : Entry) :
    ∃ rest, (place e).toList = e.file.toList ++ ':' :: rest ∧ '\n' ∉ rest := by
  have hlabel : '\n' ∉ e.severity.label.toList := by cases e.severity <;> decide
  cases hline : e.line with
  | none =>
      exact ⟨' ' :: (e.severity.label.toList ++ [':', ' ']),
        by simp [place, location, hline, toString], by simpa using hlabel⟩
  | some n =>
      have hdigits : '\n' ∉ Nat.toDigits 10 n := fun h =>
        absurd (Nat.isDigit_of_mem_toDigits (by decide) (by decide) h) (by decide)
      exact ⟨Nat.toDigits 10 n ++ [':', ' '] ++ (e.severity.label.toList ++ [':', ' ']),
        by simp [place, location, hline, toString], by simpa using ⟨hdigits, hlabel⟩⟩

theorem isIndented_heading (h : BeginsLine e.file) : isIndented (entryBlock e).heading = false := by
  obtain ⟨rest, hplace, -⟩ := exists_toList_place e
  refine isIndented_eq_false h (rest ++ ((messageLines e.message).headD "").toList) ?_
  rw [entryBlock, String.toList_append, hplace, List.append_assoc, List.cons_append]

theorem isIndented_failureLines (h : r.KeepsLines) :
    ∀ line ∈ failureLines r, isIndented line = false := by
  intro line hline
  rw [failureLines] at hline
  split at hline
  next message _ =>
      rw [List.mem_singleton.1 hline]
      exact isIndented_eq_false h.path (" failed: ".toList ++ message.toList) (by simp [toString])
  next => cases hline

/-! ## Lines without line feeds -/

theorem lf_not_mem_messageLines {message line : String} (h : line ∈ messageLines message) :
    '\n' ∉ line.toList := by
  rw [messageLines] at h
  split at h
  next =>
      rw [List.mem_singleton.1 h]
      decide
  next =>
      obtain ⟨cs, hcs, rfl⟩ := List.mem_map.1 h
      rw [String.toList_ofList]
      exact Text.lf_not_mem_of_mem_plainLines hcs

theorem lf_not_mem_entryLines (h : BeginsLine e.file) {line : String}
    (hline : line ∈ (uncolored format).entryLines e) : '\n' ∉ line.toList := by
  obtain ⟨first, more, hlines, -⟩ := exists_messageLines e.message
  have hmessage : ∀ l ∈ first :: more, '\n' ∉ l.toList := fun l hl =>
    lf_not_mem_messageLines (hlines ▸ hl)
  rw [entryLines_uncolored, entryBlock, hlines, List.mem_cons] at hline
  rcases hline with rfl | hmore
  · obtain ⟨rest, hplace, hrest⟩ := exists_toList_place e
    have hfirst := hmessage first List.mem_cons_self
    simp [hplace, h.1, hrest, hfirst]
  · obtain ⟨l, hl, rfl⟩ := List.mem_map.1 hmore
    have hl := hmessage l (List.mem_cons_of_mem _ hl)
    simpa using hl

theorem lf_not_mem_fileLines (h : r.KeepsLines) {line : String}
    (hline : line ∈ (uncolored format).fileLines r) : '\n' ∉ line.toList := by
  rw [fileLines_uncolored, List.mem_append, List.mem_flatMap] at hline
  rcases hline with ⟨e, he, hline⟩ | hline
  · exact lf_not_mem_entryLines (h.files e he) hline
  · rw [failureLines] at hline
    split at hline
    next message hstatus =>
        rw [List.mem_singleton.1 hline]
        simpa [toString] using ⟨h.path.1, h.failure message hstatus⟩
    next => cases hline

/-! ## Findings, read back -/

theorem blocks_entries {es : List Entry} (h : ∀ e ∈ es, BeginsLine e.file) {rest : List String}
    (hrest : ∀ line ∈ rest.head?, isIndented line = false) :
    blocks (es.flatMap (uncolored format).entryLines ++ rest) = es.map entryBlock ++ blocks rest := by
  induction es with
  | nil => rfl
  | cons e es ih =>
      have hes : ∀ e ∈ es, BeginsLine e.file := fun e' he' => h e' (List.mem_cons_of_mem _ he')
      have hbehind : ∀ line ∈ (es.flatMap (uncolored format).entryLines ++ rest).head?,
          isIndented line = false := by
        cases es with
        | nil => exact hrest
        | cons e' es =>
            rw [List.flatMap_cons, entryLines_uncolored]
            rintro line ⟨⟩
            exact isIndented_heading (hes e' List.mem_cons_self)
      rw [List.flatMap_cons, List.append_assoc, entryLines_uncolored,
        blocks_block (isIndented_heading (h e List.mem_cons_self)) _ hbehind, ih hes]
      rfl

theorem blocks_failureLines (h : r.KeepsLines) :
    blocks (failureLines r) = (failureLines r).map (⟨·, []⟩) := by
  have hlines := isIndented_failureLines h
  cases hstatus : r.status <;> simp_all [failureLines, blocks]

/-- What is printed for a file is made of whole lines. Those that are not indented are one for each entry,
with its place, severity and the first line of its message, and one on the file if it could not be
checked. The message of an entry is the rest of its line and the indented lines behind it. -/
theorem blocks_fileLines (format : OutputFormat) (r : FileReport) (h : r.KeepsLines) :
    let text := lines ((uncolored format).fileLines r)
    let ls := readLines text
    lines ls = text ∧
    ls.filter (!isIndented ·) =
      r.entries.map (fun e => place e ++ (messageLines e.message).headD "") ++ failureLines r ∧
    ∃ found, blocks ls = found ++ (failureLines r).map (⟨·, []⟩) ∧
      List.Forall₂ (fun e b => ∃ first, b.heading = place e ++ first ∧
        first :: b.more = messageLines e.message) r.entries found := by
  intro text ls
  have hls : ls = (uncolored format).fileLines r :=
    readLines_lines fun line hline => lf_not_mem_fileLines h hline
  have hblocks : blocks ls = r.entries.map entryBlock ++ (failureLines r).map (⟨·, []⟩) := by
    have hfailure : ∀ line ∈ (failureLines r).head?, isIndented line = false := fun line hline =>
      isIndented_failureLines h line (List.mem_of_mem_head? hline)
    rw [hls, fileLines_uncolored, blocks_entries h.files hfailure, blocks_failureLines h]
  refine ⟨by rw [hls], ?_, r.entries.map entryBlock, hblocks, ?_⟩
  · rw [filter_isIndented, hblocks, List.map_append, List.map_map, List.map_map]
    exact congrArg _ (List.map_id _)
  · refine List.forall₂_map_right_iff.2 (List.forall₂_same.2 fun e _ => ?_)
    obtain ⟨first, more, hlines, -⟩ := exists_messageLines e.message
    exact ⟨first, by rw [entryBlock, hlines]; rfl, by rw [entryBlock, hlines]; rfl⟩

def feignedReport : FileReport where
  path := "b.php"
  status := .failed "gone"
  entries := [⟨"a.php", .warning, "x\nb.php: error: y\r\n\n    z\n", some 7, none⟩,
    ⟨"a.php", .notice, "", none, some "echo;"⟩]

theorem blocks_fileLines_feigned :
    let ls := readLines (lines ((uncolored .human).fileLines feignedReport))
    feignedReport.KeepsLines ∧
    ls.filter (!isIndented ·) = ["a.php:7: warning: x", "a.php: notice: ", "b.php: failed: gone"] ∧
    (blocks ls).map Block.more = [["b.php: error: y", "", "    z"], [], []] := by
  intro ls
  have hkeeps : feignedReport.KeepsLines := by
    refine ⟨by decide, by decide, ?_⟩
    rintro message ⟨⟩
    decide
  obtain ⟨-, hheadings, found, hblocks, hfound⟩ := blocks_fileLines .human feignedReport hkeeps
  refine ⟨hkeeps, hheadings.trans (by decide), ?_⟩
  rw [hblocks]
  cases hfound with
  | cons hwarning hrest =>
      obtain ⟨first, -, hmore⟩ := hwarning
      cases hrest with
      | cons hnotice hrest =>
          obtain ⟨second, -, hmore'⟩ := hnotice
          cases hrest
          have hmore := congrArg List.tail hmore
          have hmore' := congrArg List.tail hmore'
          simp only [List.tail_cons] at hmore hmore'
          rw [List.map_append, List.map_cons, List.map_cons, hmore, hmore']
          decide

end Style
end ExtensionLint
