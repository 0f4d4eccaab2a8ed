import Mathlib.Data.List.TakeWhile
import ExtensionLint.Proofs.Discovery.Readings
import ExtensionLint.Proofs.Text.Utf8

/-!
# Heads that settle what a file is

What is a manifest is told by the first bytes of a file. Their verdict is that on the whole file if the
preferred reading of them, of those that have not failed, is past the name of the root; other verdicts
may turn with what follows (`settled_head_decides`).
-/

namespace ExtensionLint.Discovery

open Text

/-- The text of the bytes by which a file is told. -/
def headOf (bytes : List UInt8) : List Char := Utf8.decodeLossy (bytes.take headSize)

def isRootName (name : List Char) : Bool := Manifest.rootNames.contains (String.ofList name)

/-- Whether a reading at this stage will come to the same verdict whatever follows: the name is complete,
or no name of a root begins like it. -/
def Stage.settles : Stage → Bool
  | named _ => true
  | naming name => !Manifest.rootNames.any fun root => name.isPrefixOf root.toList
  | _ => false

/-- Whether the preferred one of the readings that have not failed settles the verdict. -/
def settled (head : List Char) : Bool :=
  (readings (withoutMark head) .between).head?.all Stage.settles

/-! ## The verdict -/

/-- The verdict by the name of the root; if none is found, it depends on how the text begins. -/
def verdict (opens : Bool) : Option (List Char) → HeadVerdict
  | some name => if isRootName name then .manifest else .other
  | none => if opens then .undecided else .other

theorem scanHead_eq_verdict (head : List Char) :
    scanHead head =
      verdict (opensItem (withoutMark head)) (found? (withoutMark head) .between) := by
  rw [← rootName?_eq_found?, scanHead]
  split <;> rename_i h <;> rw [h] <;> rfl

theorem isRootName_iff {name : List Char} :
    isRootName name = true ↔ ∃ root ∈ Manifest.rootNames, root.toList = name := by
  rw [isRootName, List.contains_iff_mem]
  constructor
  · intro h
    exact ⟨_, h, String.toList_ofList⟩
  · rintro ⟨root, hroot, rfl⟩
    rwa [String.ofList_toList]

theorem withoutMark_cons (c : Char) (s : List Char) :
    withoutMark (c :: s) = (if '\uFEFF' == c then some s else none).getD (c :: s) :=
  rfl

theorem withoutMark_append {head : List Char} (h : head ≠ []) (r : List Char) :
    withoutMark (head ++ r) = withoutMark head ++ r := by
  obtain ⟨c, s, rfl⟩ := List.exists_cons_of_ne_nil h
  rw [List.cons_append, withoutMark_cons, withoutMark_cons]
  split <;> rfl

theorem scanHead_append {head : List Char} (h : head ≠ []) (r : List Char) :
    scanHead (head ++ r) = verdict (opensItem (withoutMark head ++ r))
      ((readings (withoutMark head) .between).findSome? (found? r)) := by
  rw [scanHead_eq_verdict, withoutMark_append h, found?_append]

/-! ## Settled heads -/

/-- Where all readings have failed, what has been read tells whether an item is open. -/
theorem opensItem_append {s : List Char} (h : readings s .between = []) (r : List Char) :
    opensItem (s ++ r) = opensItem s := by
  induction s with
  | nil => simp [readings] at h
  | cons c s ih =>
      by_cases hblank : isBlank c
      · have hs : readings s .between = [] := by simpa [readings, Stage.step, hblank] using h
        simpa [opensItem, trimStart, hblank] using ih hs
      · by_cases hbracket : c = '<'
        · subst hbracket
          cases s with
          | nil => simp [readings, Stage.step, isBlank_bracket] at h
          | cons d s => simp [opensItem, trimStart, isBlank_bracket, startsWith_cons, startsWith_nil]
        · simp [opensItem, trimStart, hblank, hbracket, startsWith_cons]

/-- A settled reading comes to one verdict, whatever follows. -/
theorem Stage.exists_verdict_of_settles {stage : Stage} (h : stage.settles = true) :
    ∃ v, ∀ opens rest r, verdict opens ((stage :: rest).findSome? (found? r)) = v := by
  cases stage with
  | named name => exact ⟨_, fun opens rest r => by rw [List.findSome?_cons, found?_named, verdict]⟩
  | naming name =>
      refine ⟨.other, fun opens rest r => ?_⟩
      rw [List.findSome?_cons, found?_naming, verdict, if_neg]
      -- a root whose name is longer than what has been read of it would still begin with that
      rw [isRootName_iff]
      rintro ⟨root, hroot, heq⟩
      have hall : ∀ root ∈ Manifest.rootNames, ¬ name <+: root.toList := by
        simpa [settles] using h
      exact hall root hroot ⟨_, heq.symm⟩
  | _ => simp [settles] at h

theorem scanHead_append_of_settled {head : List Char} (h : settled head = true) (r : List Char) :
    scanHead (head ++ r) = scanHead head := by
  have hne : head ≠ [] := by
    rintro rfl
    cases h
  have hall : ∃ v, ∀ r, scanHead (head ++ r) = v := by
    simp only [scanHead_append hne]
    unfold settled at h
    cases hreadings : readings (withoutMark head) .between with
    | nil => exact ⟨_, fun r => by rw [opensItem_append hreadings, List.findSome?_nil]⟩
    | cons stage rest =>
        rw [hreadings] at h
        obtain ⟨v, hv⟩ := Stage.exists_verdict_of_settles h
        exact ⟨v, fun r => hv _ _ r⟩
  obtain ⟨v, hv⟩ := hall
  rw [hv, ← hv [], List.append_nil]

/-! ## Other heads -/

/-- What brings a reading that has not found a name to the bracket of the root. -/
def Stage.exit : Stage → List Char
  | between => ['<']
  | instruction | instructionMark => ['?', '>', '<']
  | comment | commentDash | commentDashes => ['-', '-', '>', '<']
  | marked | dashed | declaration => ['>', '<']
  | _ => []

theorem Stage.found?_exit {stage : Stage} (h : stage.name? = none) {name : String}
    (hname : name ∈ ["extension", "form"]) :
    found? (stage.exit ++ name.toList) stage = some name.toList := by
  simp only [List.mem_cons, List.not_mem_nil, or_false] at hname
  cases stage with
  | naming n => cases h
  | named n => cases h
  | _ => rcases hname with rfl | rfl <;> decide

theorem all_continuesName_root :
    ∀ root ∈ Manifest.rootNames, root.toList.all continuesName = true := by decide

theorem zero_not_mem_root : ∀ root ∈ Manifest.rootNames, '0' ∉ root.toList := by decide

/-- An unsettled reading may find the root of a manifest, and it may find another one. -/
theorem Stage.exists_found_of_not_settles {stage : Stage} (h : stage.settles = false)
    (manifest : Bool) : ∃ r name, found? r stage = some name ∧ isRootName name = manifest := by
  cases hname : stage.name? with
  | none =>
      cases manifest with
      | true => exact ⟨_, _, found?_exit hname (.head _), by decide⟩
      | false => exact ⟨_, _, found?_exit hname (.tail _ (.head _)), by decide⟩
  | some name =>
      obtain rfl : stage = .naming name := by cases stage <;> simp_all [name?, settles]
      obtain ⟨root, hroot, rest, hrest⟩ : ∃ root ∈ Manifest.rootNames, name <+: root.toList := by
        simpa [settles] using h
      cases manifest with
      | true =>
          have hall := List.all_eq_true.mp (all_continuesName_root root hroot)
          have hchars : ∀ c ∈ rest, continuesName c = true := fun c hc =>
            hall c (hrest ▸ List.mem_append_right name hc)
          refine ⟨rest, root.toList, ?_, isRootName_iff.mpr ⟨root, hroot, rfl⟩⟩
          rw [found?_naming, List.takeWhile_eq_self_iff.mpr hchars, hrest]
      | false =>
          refine ⟨['0'], name ++ ['0'], by rw [found?_naming]; rfl, ?_⟩
          rw [Bool.eq_false_iff, ne_eq, isRootName_iff]
          rintro ⟨other, hother, heq⟩
          exact zero_not_mem_root other hother (by simp [heq])

theorem exists_scanHead_append_ne {head : List Char} (h : settled head = false)
    (hdecided : scanHead head ≠ .undecided) : ∃ r, scanHead (head ++ r) ≠ scanHead head := by
  by_cases hne : head = []
  · subst hne
    exact ⟨"<install".toList, by decide⟩
  unfold settled at h
  cases hreadings : readings (withoutMark head) .between with
  | nil => simp [hreadings] at h
  | cons stage rest =>
      have hstage : stage.settles = false := by simpa [hreadings] using h
      have hverdict (manifest : Bool) :
          ∃ r, scanHead (head ++ r) = if manifest then .manifest else .other := by
        obtain ⟨r, name, hfound, hname⟩ := Stage.exists_found_of_not_settles hstage manifest
        refine ⟨r, ?_⟩
        rw [scanHead_append hne, hreadings, List.findSome?_cons, hfound, verdict, hname]
      cases hscan : scanHead head with
      | undecided => exact absurd hscan hdecided
      | manifest =>
          obtain ⟨r, hr⟩ := hverdict false
          exact ⟨r, by simp [hr]⟩
      | other =>
          obtain ⟨r, hr⟩ := hverdict true
          exact ⟨r, by simp [hr]⟩

/-! ## Long files -/

/-- A file with many letters between two texts, so that its head ends among them. -/
def padded (front behind : List Char) : List UInt8 :=
  Utf8.encode (front ++ (List.replicate headSize 'x' ++ behind))

theorem encode_replicate (n : Nat) : Utf8.encode (List.replicate n 'x') = List.replicate n 120 := by
  induction n with
  | zero => rfl
  | succ n ih => rw [List.replicate_succ, Utf8.encode_cons, ih]; rfl

theorem headOf_padded {front : List Char} (h : (Utf8.encode front).length ≤ headSize)
    (behind : List Char) :
    headOf (padded front behind) =
      front ++ List.replicate (headSize - (Utf8.encode front).length) 'x' := by
  rw [headOf, padded, Utf8.encode_append, Utf8.encode_append, encode_replicate, List.take_append,
    List.take_of_length_le h, List.take_append_of_le_length (by simp), List.take_replicate,
    Nat.min_eq_left (Nat.sub_le _ _), ← encode_replicate, ← Utf8.encode_append,
    Utf8.decodeLossy_encode]

theorem headSize_lt_padded {front : List Char} (h : front ≠ []) (behind : List Char) :
    headSize < (padded front behind).length := by
  obtain ⟨c, s, rfl⟩ := List.exists_cons_of_ne_nil h
  have hc : 0 < (String.utf8EncodeChar c).length :=
    List.length_pos_iff.mpr (Utf8.encodeChar_ne_nil c)
  simp only [padded, Utf8.encode_append, Utf8.encode_cons, encode_replicate, List.length_append,
    List.length_replicate]
  omega

theorem readings_replicate {stage : Stage} {c : Char} (h : stage.step c = [stage]) (n : Nat) :
    readings (List.replicate n c) stage = [stage] := by
  induction n with
  | zero => rfl
  | succ n ih => rw [List.replicate_succ, readings, h, List.flatMap_singleton, ih]

/-! ## Which heads decide -/

/-- A head that settles the verdict has the verdict of the whole file. Of all decided heads, these are the
ones that do so whatever follows. -/
theorem settled_head_decides (bytes : List UInt8) (head : List Char) :
    (settled (Utf8.withoutCut (headOf bytes)) = true →
      scanHead (Utf8.decodeLossy bytes) = scanHead (headOf bytes)) ∧
    (scanHead head ≠ .undecided →
      ((∀ r, scanHead (head ++ r) = scanHead head) ↔ settled head = true)) := by
  refine ⟨fun h => ?_, fun hdecided => ⟨fun hall => ?_, scanHead_append_of_settled⟩⟩
  · obtain ⟨r, hr⟩ := Utf8.isPrefix_withoutCut_take bytes headSize
    obtain ⟨cut, hcut⟩ := Utf8.isPrefix_withoutCut (headOf bytes)
    rw [← hr, ← hcut]
    exact (scanHead_append_of_settled h r).trans (scanHead_append_of_settled h cut).symm
  · by_contra hsettled
    obtain ⟨r, hr⟩ := exists_scanHead_append_ne (Bool.eq_false_iff.mpr hsettled) hdecided
    exact hr (hall r)

theorem settled_head_decides_behind_tag :
    settled (Utf8.withoutCut (headOf (padded "<?xml?><install ".toList []))) = true ∧
      scanHead (Utf8.decodeLossy (padded "<?xml?><install ".toList [])) =
        scanHead (headOf (padded "<?xml?><install ".toList [])) ∧
      scanHead "<form ".toList ≠ .undecided ∧
      ∀ r, scanHead ("<form ".toList ++ r) = scanHead "<form ".toList := by
  have hsettled : settled (Utf8.withoutCut (headOf (padded "<?xml?><install ".toList []))) = true := by
    have hreadings : readings (withoutMark "<?xml?><install ".toList) .between =
        [.named "install".toList, .instruction] := by decide
    rw [headOf_padded (by decide), Utf8.withoutCut, if_neg, settled, withoutMark_append (by decide),
      readings_append, hreadings, List.flatMap_cons, readings_replicate rfl]
    · rfl
    · rw [List.getLast?_append, List.getLast?_replicate, if_neg (by decide)]
      decide
  have hform : scanHead "<form ".toList ≠ .undecided := by decide
  obtain ⟨hfile, hhead⟩ := settled_head_decides (padded "<?xml?><install ".toList []) "<form ".toList
  exact ⟨hsettled, hfile hsettled, hform, (hhead hform).mpr (by decide)⟩

/-- A comment that the head breaks off after a bracket. What stands behind the bracket is taken for the
root, but the root comes behind the comment. -/
theorem scanHead_misled_by_cut_comment :
    headSize < (padded "<!-- > <b ".toList " --><extension/>".toList).length ∧
      scanHead (headOf (padded "<!-- > <b ".toList " --><extension/>".toList)) = .other ∧
      scanHead (Utf8.decodeLossy (padded "<!-- > <b ".toList " --><extension/>".toList)) =
        .manifest := by
  have hreadings : readings (withoutMark "<!-- > <b ".toList) .between = [.comment, .named ['b']] := by
    decide
  have hcomment (n : Nat) (s : List Char) :
      found? (List.replicate n 'x' ++ s) .comment = found? s .comment := by
    rw [found?_append, readings_replicate rfl, List.findSome?_singleton]
  refine ⟨headSize_lt_padded (by decide) _, ?_, ?_⟩
  · rw [headOf_padded (by decide), scanHead_append (by decide), hreadings, findSome?_pair,
      ← List.append_nil (List.replicate _ _), hcomment, found?_named]
    decide
  · rw [padded, Utf8.decodeLossy_encode, scanHead_append (by decide), hreadings, findSome?_pair,
      hcomment]
    decide

end ExtensionLint.Discovery
