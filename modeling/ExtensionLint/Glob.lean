import ExtensionLint.Text.Utf8

/-!
Glob patterns over paths. A star and a question mark stay within a component, two stars span
components where they are one, and a pattern matches bytes: a question mark and a class never match a
longer character.
-/
namespace ExtensionLint

inductive GlobToken
  | literal (c : Char)
  /-- Any byte but a slash. -/
  | any
  /-- Any bytes but slashes. -/
  | star
  /-- Two stars at the start: nothing, or components. -/
  | leading
  /-- Two stars at the end: whatever is below. -/
  | trailing
  /-- Two stars in between: a slash, with components before a further one or without. -/
  | between
  | oneOf (negated : Bool) (ranges : List (Char × Char))
  | alternates (branches : List (List GlobToken))
  deriving Repr

inductive GlobFault
  | unclosedClass
  | invalidRange (first last : Char)
  | unopenedAlternates
  | unclosedAlternates
  | danglingEscape
  deriving DecidableEq, Repr

def GlobFault.message : GlobFault → String
  | unclosedClass => "unclosed character class; missing ']'"
  | invalidRange first last => s!"invalid range; '{first}' > '{last}'"
  | unopenedAlternates =>
    "unopened alternate group; missing '\x7b' (maybe escape '\x7d' with '[\x7d]'?)"
  | unclosedAlternates =>
    "unclosed alternate group; missing '\x7d' (maybe escape '\x7b' with '[\x7b]'?)"
  | danglingEscape => "dangling '\\'"

structure Glob where
  tokens : List GlobToken
  deriving Repr

namespace Glob

/-- A group of alternates that is still open: what stands before it and the branches that are
complete, each in reverse. -/
structure Group where
  before : List GlobToken
  branches : List (List GlobToken)

structure Reading where
  /-- The tokens of the current branch, in reverse. -/
  tokens : List GlobToken := []
  /-- Open groups, innermost first. -/
  groups : List Group := []
  last : Option Char := none

/-- Adds tokens, after which `last` is the character read last. -/
def Reading.push (r : Reading) (tokens : List GlobToken) (last : Char) : Reading :=
  { r with tokens := tokens.reverse ++ r.tokens, last := some last }

/-- A class while it is read: ranges in reverse, and whether the last one waits for its end. -/
structure ClassReading where
  ranges : List (Char × Char) := []
  open? : Bool := false

def ClassReading.add (r : ClassReading) (c : Char) : Except GlobFault ClassReading :=
  match r.ranges with
  | (first, _) :: rest =>
    if r.open? then
      if c < first then .error (.invalidRange first c) else .ok ⟨(first, c) :: rest, false⟩
    else .ok ⟨(c, c) :: r.ranges, false⟩
  | [] => .ok ⟨[(c, c)], false⟩

/-- The ranges of a class that has ended; a hyphen at its end stands for itself. -/
def ClassReading.close (r : ClassReading) : List (Char × Char) :=
  (if r.open? then ('-', '-') :: r.ranges else r.ranges).reverse

/-- Reads a class after its opener. A bracket or hyphen at its start stands for itself. -/
def classBody : List Char → (first : Bool) → ClassReading →
    Except GlobFault (List (Char × Char) × List Char)
  | [], _, _ => .error .unclosedClass
  | c :: s, first, r =>
    if c = ']' ∧ first = false then .ok (r.close, s)
    else if c = '-' ∧ first = false ∧ r.open? = false then classBody s false { r with open? := true }
    else (r.add c).bind (classBody s false)

def readClass (s : List Char) : Except GlobFault (GlobToken × List Char) :=
  let (negated, body) := match s with
    | '!' :: t => (true, t)
    | '^' :: t => (true, t)
    | t => (false, t)
  (classBody body true {}).map fun (ranges, rest) => (.oneOf negated ranges, rest)

/-- The token for two stars after a slash: they take the place of the slash, and of stars before it. -/
def Reading.spanning (r : Reading) (token : GlobToken) (last : Char) : Reading :=
  match r.tokens with
  | .leading :: _ => { r with last := some last }
  | .trailing :: _ => { r with last := some last }
  | _ :: tokens => { r with tokens := token :: tokens, last := some last }
  | [] => { r with tokens := [token], last := some last }

/-- Reads two stars, with the slash after them where they are a component. -/
def readStars (r : Reading) (s : List Char) : Reading × List Char :=
  let plain := (r.push [.star, .star] '*', s)
  let inGroup := !r.groups.isEmpty
  if r.tokens.isEmpty then
    match s with
    | [] => (r.push [.leading] '*', [])
    | '/' :: t => (r.push [.leading] '/', t)
    | _ => plain
  else if r.last = some '/' ∨ (inGroup ∧ (r.last = some ',' ∨ r.last = some '\x7b')) then
    match s with
    | [] => (r.spanning .trailing '*', [])
    | '/' :: t => (r.spanning .between '/', t)
    | c :: _ =>
      if inGroup ∧ (c = ',' ∨ c = '\x7d') then (r.spanning .trailing '*', s) else plain
  else plain

def readNext (r : Reading) (c : Char) (s : List Char) : Except GlobFault (Reading × List Char) :=
  match c with
  | '?' => .ok (r.push [.any] c, s)
  | '*' =>
    match s with
    | '*' :: t => .ok (readStars r t)
    | _ => .ok (r.push [.star] c, s)
  | '[' => (readClass s).map fun (token, rest) => (r.push [token] ']', rest)
  | '\x7b' => .ok (⟨[], ⟨r.tokens, []⟩ :: r.groups, some c⟩, s)
  | '\x7d' =>
    match r.groups with
    | [] => .error .unopenedAlternates
    | g :: gs =>
      let branches := (r.tokens :: g.branches).reverse.map List.reverse
      .ok (⟨.alternates branches :: g.before, gs, some c⟩, s)
  | ',' =>
    match r.groups with
    | [] => .ok (r.push [.literal c] c, s)
    | g :: gs => .ok (⟨[], { g with branches := r.tokens :: g.branches } :: gs, some c⟩, s)
  | '\\' =>
    match s with
    | [] => .error .danglingEscape
    | e :: t => .ok (r.push [.literal e] e, t)
  | c => .ok (r.push [.literal c] c, s)

/-- Reads a pattern to its end; the first argument bounds the steps. -/
def readFrom : Nat → Reading → List Char → Except GlobFault Reading
  | 0, r, _ => .ok r
  | _, r, [] => .ok r
  | n + 1, r, c :: s =>
    match readNext r c s with
    | .ok (r, rest) => readFrom n r rest
    | .error fault => .error fault

def parse (pattern : String) : Except GlobFault Glob := do
  let s := pattern.toList
  let r ← readFrom s.length {} s
  if r.groups.isEmpty then .ok ⟨r.tokens.reverse⟩ else .error .unclosedAlternates

def slash : UInt8 := 0x2F

/-- The texts that remain after one further byte, after two, and so on, as long as `passes` holds. -/
def tails (passes : UInt8 → Bool) : List UInt8 → List (List UInt8)
  | [] => [[]]
  | b :: s => (b :: s) :: if passes b then tails passes s else []

def afterSlashes (s : List UInt8) : List (List UInt8) :=
  (tails (fun _ => true) s).filterMap fun t =>
    match t with
    | b :: rest => if b == slash then some rest else none
    | [] => none

def afterSlash? : List UInt8 → Option (List UInt8)
  | b :: s => if b == slash then some s else none
  | [] => none

/-- Whether a range holds a byte. A longer character stands for its bytes, and a range between two
of them also for what lies between the last byte of one and the first of the other. -/
def inRange (b : UInt8) (range : Char × Char) : Bool :=
  let low := Text.Utf8.encode [range.1]
  let high := Text.Utf8.encode [range.2]
  low.contains b || high.contains b ||
    (range.1 != range.2 && low.getLast?.any (· ≤ b) && high.head?.any (b ≤ ·))

mutual
/-- Whether nothing is written in a branch; such a branch is left out. -/
def isVoid : List GlobToken → Bool
  | [] => true
  | .alternates branches :: rest => areVoid branches && isVoid rest
  | _ :: _ => false

def areVoid : List (List GlobToken) → Bool
  | [] => true
  | b :: bs => isVoid b && areVoid bs
end

/-- One of several remainders of each length, which is enough as all are ends of one text. -/
def distinct : List (List UInt8) → List (List UInt8)
  | [] => []
  | s :: rest =>
    let others := distinct rest
    if others.any (·.length == s.length) then others else s :: others

mutual
/-- What may remain of a text after a part of a pattern. -/
def remainders : GlobToken → List UInt8 → List (List UInt8)
  | .literal c, s => ((Text.Utf8.encode [c]).isPrefixOf? s).toList
  | .any, s =>
    match s with
    | b :: rest => if b == slash then [] else [rest]
    | [] => []
  | .star, s => tails (· != slash) s
  | .leading, s => s :: (afterSlash? s).toList ++ afterSlashes s
  | .trailing, s => ((afterSlash? s).map (tails fun _ => true)).getD []
  | .between, s =>
    match afterSlash? s with
    | some rest => rest :: afterSlashes rest
    | none => []
  | .oneOf negated ranges, s =>
    match s with
    | b :: rest => if ranges.any (inRange b) != negated then [rest] else []
    | [] => []
  | .alternates branches, s => if areVoid branches then [s] else branchRemainders branches s

def branchRemainders : List (List GlobToken) → List UInt8 → List (List UInt8)
  | [], _ => []
  | b :: bs, s => (if isVoid b then [] else sequenceRemainders b [s]) ++ branchRemainders bs s

def sequenceRemainders : List GlobToken → List (List UInt8) → List (List UInt8)
  | [], texts => texts
  | token :: rest, texts => sequenceRemainders rest (distinct (texts.flatMap (remainders token)))
end

/-- Whether a pattern matches a path. Two stars alone match every path. -/
def isMatch (g : Glob) (path : String) : Bool :=
  match g.tokens with
  | [.leading] => true
  | tokens => (sequenceRemainders tokens [Text.Utf8.encode path.toList]).any List.isEmpty

end Glob
end ExtensionLint
