import Mathlib.Data.Bool.AllAny
import ExtensionLint.Proofs.Script.Heredoc
import ExtensionLint.Proofs.Script.Reading
import ExtensionLint.Proofs.Text.Lines

/-!
# The shape of a cleaned script

Cleaning moves nothing: a byte stays or becomes a space, and line ends stay. Characters are hidden whole
or not at all, because the scanner changes what it does only at ASCII bytes (`Moves.cut`); so what
is written spells a text (`Reads.valid`).
-/

namespace ExtensionLint.Script

open Text Utf8

/-! ## ASCII bytes -/

theorem ascii_of_all {bytes : List UInt8} (h : bytes.all (·.toNat < 0x80) = true) :
    ∀ b ∈ bytes, Ascii b := by
  intro b hb
  exact of_decide_eq_true (List.all_eq_true.mp h b hb)

theorem ascii_of_isLabelByte {b : UInt8} (h : isLabelByte b = true) : Ascii b := by
  have hlast (c : Char) (hc : c.toNat < 0x80) (hb : b ≤ byte c) : Ascii b := by
    have htoNat := UInt8.le_iff_toNat_le.mp hb
    rw [byte, toNat_byte (by omega)] at htoNat
    exact Nat.lt_of_le_of_lt htoNat hc
  simp only [isLabelByte, Bool.or_eq_true, Bool.and_eq_true, decide_eq_true_eq, beq_iff_eq] at h
  rcases h with ((⟨_, hb⟩ | ⟨_, hb⟩) | ⟨_, hb⟩) | rfl
  · exact hlast '9' (by decide) hb
  · exact hlast 'Z' (by decide) hb
  · exact hlast 'z' (by decide) hb
  · decide

theorem ascii_of_isIndent {b : UInt8} (h : isIndent b = true) : Ascii b := by
  simp only [isIndent, Bool.or_eq_true, beq_iff_eq] at h
  rcases h with rfl | rfl <;> decide

theorem ascii_of_isLineEnd {b : UInt8} (h : isLineEnd b = true) : Ascii b := by
  simp only [isLineEnd, Bool.or_eq_true, beq_iff_eq] at h
  rcases h with rfl | rfl <;> decide

theorem ascii_of_lowerByte {b : UInt8} (h : Ascii (lowerByte b)) : Ascii b := by
  unfold lowerByte at h
  split at h
  · rename_i hcapital
    simp only [Bool.and_eq_true, decide_eq_true_eq] at hcapital
    have hle := UInt8.le_iff_toNat_le.mp hcapital.2
    have hz : (byte 'Z').toNat = 90 := rfl
    rw [Ascii]
    omega
  · exact h

theorem lowerByte_mem_openTag {text : List UInt8} (h : (mark "<?").isPrefixOf text = true) :
    ∀ b ∈ text.take (openTagSize text), lowerByte b ∈ mark "<?=php" := by
  intro b hb
  unfold openTagSize at hb
  split at hb
  · rename_i hphp
    have hmem : lowerByte b ∈ mark "<?php" := hphp ▸ List.mem_map_of_mem hb
    have hall : ∀ x ∈ mark "<?php", x ∈ mark "<?=php" := List.all_iff_forall_prop.mp (by decide)
    exact hall _ hmem
  split at hb
  · rename_i hecho
    rw [show (3 : Nat) = (mark "<?=").length from rfl, take_of_isPrefixOf hecho] at hb
    have hall : ∀ x ∈ mark "<?=", lowerByte x ∈ mark "<?=php" :=
      List.all_iff_forall_prop.mp (by decide)
    exact hall b hb
  · rw [show (2 : Nat) = (mark "<?").length from rfl, take_of_isPrefixOf h] at hb
    have hall : ∀ x ∈ mark "<?", lowerByte x ∈ mark "<?=php" :=
      List.all_iff_forall_prop.mp (by decide)
    exact hall b hb

theorem ascii_openTag {text : List UInt8} (h : (mark "<?").isPrefixOf text = true) :
    ∀ b ∈ text.take (openTagSize text), Ascii b := by
  intro b hb
  exact ascii_of_lowerByte (ascii_of_all (by decide) _ (lowerByte_mem_openTag h b hb))

theorem forall_mem_closer {P : UInt8 → Prop} (hindent : ∀ b, isIndent b = true → P b)
    (hword : ∀ b, isLabelByte b = true → P b) {label text : List UInt8} {size : Nat}
    (hlabel : IsLabel label) (h : closer? label text = some size) : ∀ b ∈ text.take size, P b := by
  obtain ⟨indent, behind, rfl, hindents, _, rfl⟩ := (closer?_eq_some_iff hlabel).mp h
  rw [← List.append_assoc, ← List.length_append, List.take_left]
  intro b hb
  rcases List.mem_append.mp hb with hb | hb
  · exact hindent b (hindents b hb)
  · exact hword b (hlabel.2 b hb)

theorem ascii_closer {label text : List UInt8} {size : Nat} (hlabel : IsLabel label)
    (h : closer? label text = some size) : ∀ b ∈ text.take size, Ascii b :=
  forall_mem_closer (fun _ => ascii_of_isIndent) (fun _ => ascii_of_isLabelByte) hlabel h

theorem mem_of_mem_dropLast_append {front last : List UInt8} (hlast : last.length ≤ 1) {b : UInt8}
    (hb : b ∈ (front ++ last).dropLast) : b ∈ front := by
  match last, hlast with
  | [], _ => exact List.dropLast_subset _ (by rwa [List.append_nil] at hb)
  | [x], _ => rwa [List.dropLast_concat] at hb

/-- All that an opener takes but the byte behind a label in quotes, which is counted unseen. -/
theorem forall_mem_opener {P : UInt8 → Prop} (hsign : ∀ b ∈ mark "<'\"", P b)
    (hindent : ∀ b, isIndent b = true → P b) (hword : ∀ b, isLabelByte b = true → P b)
    {text : List UInt8} {opener : Opener} (h : opener? text = some opener) :
    ∀ b ∈ (text.take opener.size).dropLast, P b := by
  obtain ⟨indent, quote, behind, rfl, hindents, hquote, hlabel, _, hsize⟩ := opener?_eq_some_iff.mp h
  have htake : (mark "<<<" ++ (indent ++ (quote ++ (opener.label ++ behind)))).take opener.size =
      (mark "<<<" ++ (indent ++ (quote ++ opener.label))) ++ behind.take quote.length := by
    have hfront : opener.size =
        (mark "<<<" ++ (indent ++ (quote ++ opener.label))).length + quote.length := by
      simp only [hsize, List.length_append, mark, List.length_map]
      have hmark : "<<<".toList.length = 3 := rfl
      omega
    rw [hfront, ← List.take_length_add_append]
    simp only [List.append_assoc]
  have hquotes : (∀ b ∈ quote, b ∈ mark "<'\"") ∧ quote.length ≤ 1 := by
    rcases hquote with rfl | rfl | rfl <;> exact ⟨List.all_iff_forall_prop.mp (by decide), by decide⟩
  intro b hb
  rw [htake] at hb
  have hmem := mem_of_mem_dropLast_append (Nat.le_trans (List.length_take_le _ _) hquotes.2) hb
  simp only [List.mem_append] at hmem
  rcases hmem with hb | hb | hb | hb
  · have hsigns : ∀ x ∈ mark "<<<", x ∈ mark "<'\"" := List.all_iff_forall_prop.mp (by decide)
    exact hsign b (hsigns b hb)
  · exact hindent b (hindents b hb)
  · exact hsign b (hquotes.1 b hb)
  · exact hword b (hlabel.2 b hb)

theorem ascii_opener {text : List UInt8} {opener : Opener} (h : opener? text = some opener) :
    ∀ b ∈ (text.take opener.size).dropLast, Ascii b :=
  forall_mem_opener (ascii_of_all (by decide)) (fun _ => ascii_of_isIndent)
    (fun _ => ascii_of_isLabelByte) h

/-! ## One step -/

/-- The label of a heredoc is a word. -/
def State.Proper : State → Prop
  | .heredoc label => IsLabel label
  | _ => True

variable {state next : State} {last : Option UInt8} {b : UInt8} {tail : List UInt8} {n : Nat}

theorem State.Proper.of_moves (hs : state.Proper) (h : Moves last b tail state n next) :
    next.Proper := by
  cases h with
  | openHeredoc _ hopener _ =>
      obtain ⟨_, _, _, _, _, _, hlabel, _⟩ := opener?_eq_some_iff.mp hopener
      exact hlabel
  | inHeredoc _ => exact hs
  | _ => trivial

theorem forall_cons_take {b : UInt8} {tail : List UInt8} {n : Nat} (hn : 0 < n)
    (h : ∀ x ∈ (b :: tail).take n, Ascii x) : ∀ x ∈ b :: (b :: tail).take n, Ascii x := by
  refine List.forall_mem_cons.mpr ⟨h b ?_, h⟩
  obtain ⟨n, rfl⟩ := Nat.exists_eq_succ_of_ne_zero (Nat.ne_of_gt hn)
  exact List.mem_cons_self

theorem ascii_pair {b : UInt8} {tail pair : List UInt8} (hstart : pair.isPrefixOf (b :: tail) = true)
    (hlength : pair.length = 2) (hpair : ∀ x ∈ pair, Ascii x) :
    ∀ x ∈ b :: (b :: tail).take 2, Ascii x := by
  refine forall_cons_take Nat.two_pos ?_
  rw [← hlength, take_of_isPrefixOf hstart]
  exact hpair

/-- What is hidden stays the same from one state to another, and in between. -/
def State.Steady (state next : State) : Prop :=
  ∀ o : Blanking, o.hides state.layer = o.hides (state.layerTo next) ∧
    o.hides next.layer = o.hides (state.layerTo next)

/-- A step takes one byte beyond ASCII at most, and that one last; and where it changes what is hidden,
it has seen only ASCII. -/
theorem Moves.cut (hs : state.Proper) (h : Moves last b tail state n next) :
    (∀ x ∈ ((b :: tail).take n).dropLast, Ascii x) ∧
      ((∀ x ∈ b :: (b :: tail).take n, Ascii x) ∨ state.Steady next) := by
  have hascii (hall : ∀ x ∈ b :: (b :: tail).take n, Ascii x) :
      (∀ x ∈ ((b :: tail).take n).dropLast, Ascii x) ∧
        ((∀ x ∈ b :: (b :: tail).take n, Ascii x) ∨ state.Steady next) :=
    ⟨fun x hx => hall x (List.mem_cons_of_mem b (List.dropLast_subset _ hx)), .inl hall⟩
  have hsingle : ∀ x ∈ ([b] : List UInt8).dropLast, Ascii x := List.forall_mem_nil _
  cases h with
  | openTag hopen => exact hascii (forall_cons_take (openTagSize_pos _) (ascii_openTag hopen))
  | closeTag hclose => exact hascii (ascii_pair hclose rfl (ascii_of_all (by decide)))
  | openLineComment _ hline =>
      refine hascii (List.forall_mem_singleton.mpr ?_)
      rcases mem_of_opensLineComment hline with rfl | rfl <;> decide
  | openBlockComment _ _ hblock => exact hascii (ascii_pair hblock rfl (ascii_of_all (by decide)))
  | openHeredoc _ hopener _ => exact ⟨ascii_opener hopener, .inr fun o => ⟨rfl, rfl⟩⟩
  | endLine hend =>
      exact hascii (forall_cons_take Nat.one_pos
        (List.forall_mem_singleton.mpr (ascii_of_isLineEnd hend)))
  | leaveLine _ hclose =>
      exact hascii (List.forall_mem_singleton.mpr
        (ascii_pair hclose rfl (ascii_of_all (by decide)) b List.mem_cons_self))
  | closeBlock hclose => exact hascii (ascii_pair hclose rfl (ascii_of_all (by decide)))
  | escape hescape =>
      simp only [Bool.and_eq_true, beq_iff_eq] at hescape
      refine ⟨?_, .inr fun o => ⟨rfl, rfl⟩⟩
      cases tail with
      | nil => exact hsingle
      | cons x tail => exact List.forall_mem_singleton.mpr (hescape.1 ▸ by decide)
  | closeHeredoc _ hcloser =>
      have hall := ascii_closer hs hcloser
      exact ⟨fun x hx => hall x (List.dropLast_subset _ hx), .inr fun o => ⟨rfl, rfl⟩⟩
  | _ => exact ⟨hsingle, .inr fun o => ⟨rfl, rfl⟩⟩

/-! ## What is written spells a text -/

theorem ascii_shown_true (b : UInt8) : Ascii (shown true b) := by
  cases hend : isLineEnd b with
  | true => simpa [shown, hend] using ascii_of_isLineEnd hend
  | false =>
      have hspace : shown true b = byte ' ' := by simp [shown, hend]
      rw [hspace]
      decide

theorem valid_map_shown (hidden : Bool) {bytes : List UInt8} (h : Valid bytes) :
    Valid (bytes.map (shown hidden)) := by
  cases hidden with
  | true => exact valid_of_ascii (List.forall_mem_map.mpr fun b _ => ascii_shown_true b)
  | false => rwa [map_shown_false]

/-- A step that sees a byte beyond ASCII first takes that byte or nothing. -/
theorem take_cut {b : UInt8} {tail : List UInt8} {n : Nat} (hb : ¬ Ascii b)
    (h : ∀ x ∈ ((b :: tail).take n).dropLast, Ascii x) :
    n = 0 ∨ (b :: tail).take n = [b] ∧ (b :: tail).drop n = tail := by
  match n, tail with
  | 0, _ => exact .inl rfl
  | 1, _ => exact .inr ⟨rfl, rfl⟩
  | n + 2, [] => exact .inr ⟨rfl, rfl⟩
  | n + 2, x :: tail => exact absurd (h b List.mem_cons_self) hb

theorem exists_last_beyond {taken : List UInt8} (h : ∀ x ∈ taken.dropLast, Ascii x)
    (hall : ¬ ∀ x ∈ taken, Ascii x) :
    ∃ front z, taken = front ++ [z] ∧ (∀ x ∈ front, Ascii x) ∧ ¬ Ascii z := by
  have hne : taken ≠ [] := by
    rintro rfl
    exact hall (List.forall_mem_nil _)
  refine ⟨taken.dropLast, taken.getLast hne, (List.dropLast_concat_getLast hne).symm, h, fun hz => ?_⟩
  refine hall fun x hx => ?_
  rw [← List.dropLast_concat_getLast hne] at hx
  rcases List.mem_append.mp hx with hx | hx
  · exact h x hx
  · exact List.mem_singleton.mp hx ▸ hz

theorem map_write (o : Blanking) (layer : Layer) (bytes : List UInt8) :
    (bytes.map (·, layer)).map o.write = bytes.map (shown (o.hides layer)) := by
  rw [List.map_map]
  rfl

/-- In the middle of a character, what is left of it is written as the state says, and a text behind
it. -/
theorem Reads.valid {p q : Place} {l : List (UInt8 × Layer)} (h : Reads p l q) (o : Blanking)
    (hp : p.state.Proper) (hend : q.ahead = []) (cut rest : List UInt8) (hahead : p.ahead = cut ++ rest)
    (hcut : ∀ x ∈ cut, ¬ Ascii x) (hrest : Valid rest) :
    ∃ behind, l.map o.write = cut.map (shown (o.hides p.state.layer)) ++ behind ∧ Valid behind := by
  -- `cut` is what the steps so far have left of a character, and no state can change in it
  induction h generalizing cut rest with
  | refl p =>
      obtain ⟨rfl, rfl⟩ := List.append_eq_nil_iff.mp (hahead.symm.trans hend)
      exact ⟨[], rfl, hrest⟩
  | @step state next last b tail n l q hmoves further ih =>
      have hnext := State.Proper.of_moves hp hmoves
      obtain ⟨hdrop, hkind⟩ := hmoves.cut hp
      cases cut with
      | cons x cut =>
          obtain ⟨rfl, rfl⟩ := List.cons.inj hahead
          have hb : ¬ Ascii b := hcut b List.mem_cons_self
          have hsteady : state.Steady next :=
            hkind.resolve_left fun hall => hb (hall b List.mem_cons_self)
          have hlevel : o.hides next.layer = o.hides state.layer :=
            (hsteady o).2.trans (hsteady o).1.symm
          rcases take_cut hb hdrop with hzero | ⟨htake, hrest'⟩
          · obtain ⟨behind, hbehind, hvalid⟩ := ih hnext hend (b :: cut) rest
              (by rw [Place.after, hzero]; rfl) hcut hrest
            refine ⟨behind, ?_, hvalid⟩
            rw [hzero, List.map_append, hbehind]
            exact congrArg (fun hidden => (b :: cut).map (shown hidden) ++ behind) hlevel
          · obtain ⟨behind, hbehind, hvalid⟩ := ih hnext hend cut rest hrest'
              (fun y hy => hcut y (List.mem_cons_of_mem b hy)) hrest
            refine ⟨behind, ?_, hvalid⟩
            rw [List.map_append, map_write, htake, hbehind, ← (hsteady o).1]
            exact congrArg (fun hidden => shown _ b :: (cut.map (shown hidden) ++ behind)) hlevel
      | nil =>
          have hsplit : (b :: tail).take n ++ (b :: tail).drop n = rest :=
            (List.take_append_drop _ _).trans hahead
          by_cases hall : ∀ x ∈ (b :: tail).take n, Ascii x
          · obtain ⟨behind, hbehind, hvalid⟩ := ih hnext hend [] _ rfl (List.forall_mem_nil _)
              (.of_ascii_append hall (hsplit ▸ hrest))
            refine ⟨_, rfl, ?_⟩
            rw [List.map_append, map_write, hbehind]
            exact (valid_map_shown _ (valid_of_ascii hall)).append hvalid
          · -- the last byte taken begins a character, and what is left of it follows
            have hsteady : state.Steady next :=
              hkind.resolve_left fun hascii => hall (List.forall_mem_cons.mp hascii).2
            obtain ⟨front, z, htake, hfront, hz⟩ := exists_last_beyond hdrop hall
            rw [htake, List.append_assoc] at hsplit
            obtain ⟨cut, rest', hcut, hrest', hz', hbeyond⟩ :=
              (Valid.of_ascii_append hfront (hsplit ▸ hrest)).of_cons
            have hbeyond := hbeyond.resolve_left fun hascii => hz hascii.1
            obtain ⟨behind, hbehind, hvalid⟩ := ih hnext hend cut rest' hcut
              (fun x hx => hbeyond x (List.mem_cons_of_mem z hx)) hrest'
            refine ⟨_, rfl, ?_⟩
            rw [List.map_append, map_write, htake, hbehind, List.map_append, List.append_assoc]
            refine (valid_map_shown _ (valid_of_ascii hfront)).append ?_
            have hlast := (valid_map_shown (o.hides (state.layerTo next)) hz').append hvalid
            rw [List.map_cons, ← (hsteady o).2] at hlast
            rw [← (hsteady o).2]
            exact hlast

theorem encode_decodeLossy_scan {o : Blanking} {s : List Char} {written : List UInt8}
    (h : scan o (encode s) = .ok written) : encode (decodeLossy written) = written := by
  obtain ⟨l, q, hreads, hend, rfl⟩ := scan_eq_ok_iff.mp h
  obtain ⟨behind, hbehind, t, rfl⟩ :=
    hreads.valid o trivial hend [] _ rfl (List.forall_mem_nil _) (valid_encode s)
  rw [hbehind, List.map_nil, List.nil_append, decodeLossy_encode]

/-! ## Bytes and lines in their places -/

theorem write_eq (o : Blanking) (x : UInt8 × Layer) :
    o.write x = x.1 ∨ isLineEnd x.1 = false ∧ o.write x = byte ' ' := by
  rw [Blanking.write, shown]
  split
  · rename_i h
    simp only [Bool.and_eq_true, Bool.not_eq_true'] at h
    exact .inr ⟨h.2, rfl⟩
  · exact .inl rfl

theorem lineSizes_map_write (o : Blanking) (l : List (UInt8 × Layer)) (cr : Bool) (begun : Nat) :
    lineSizes cr begun (l.map o.write) = lineSizes cr begun (l.map Prod.fst) := by
  induction l generalizing cr begun with
  | nil => rfl
  | cons x l ih =>
      rw [List.map_cons, List.map_cons]
      rcases write_eq o x with hkept | ⟨hend, hspace⟩
      · rw [hkept, lineSizes, lineSizes, ih, ih, ih]
      · have hbyte : x.1 ≠ 0x0A ∧ x.1 ≠ 0x0D := by
          constructor <;> intro h <;> rw [h] at hend <;> cases hend
        rw [hspace, lineSizes, lineSizes, if_neg (by decide), if_neg (by decide), if_neg hbyte.1,
          if_neg hbyte.2, ih]

theorem size_physicalLines {o : Blanking} {source cleaned : List Char} {l : List (UInt8 × Layer)}
    (hsource : l.map Prod.fst = encode source) (hcleaned : l.map o.write = encode cleaned) :
    (physicalLines cleaned).map size = (physicalLines source).map size := by
  rw [map_size_physicalLines, map_size_physicalLines, ← hsource, ← hcleaned, lineSizes_map_write]

/-- Cleaning shifts no line and no column. What is written has the size of the source; each byte of the
source stays or, unless it ends a line, becomes a space; decoding what is written loses nothing; and the
lines have the sizes of the lines of the source. -/
theorem clean_keeps_places {o : Blanking} {source cleaned : List Char}
    (h : clean o source = .ok cleaned) :
    ∃ written, scan o (encode source) = .ok written ∧
      written.length = (encode source).length ∧
      (∀ (i : Nat) (b : UInt8), (encode source)[i]? = some b →
        written[i]? = some b ∨ isLineEnd b = false ∧ written[i]? = some (byte ' ')) ∧
      decode? written = some cleaned ∧ encode cleaned = written ∧
      (physicalLines cleaned).length = (physicalLines source).length ∧
      ∀ k : Nat, ((physicalLines cleaned)[k]?).map size = ((physicalLines source)[k]?).map size := by
  obtain ⟨written, hscan, rfl⟩ := clean_eq_ok_iff.mp h
  have hencode := encode_decodeLossy_scan hscan
  obtain ⟨l, q, hreads, hend, rfl⟩ := scan_eq_ok_iff.mp hscan
  have hsource : encode source = l.map Prod.fst := by
    have hahead := hreads.ahead_eq
    rwa [hend, List.append_nil] at hahead
  have hlines := size_physicalLines hsource.symm hencode.symm
  refine ⟨_, hscan, by rw [hsource, List.length_map, List.length_map], ?_, ?_, hencode, ?_, fun k => ?_⟩
  · intro i b hb
    rw [hsource, List.getElem?_map, Option.map_eq_some_iff] at hb
    obtain ⟨x, hx, rfl⟩ := hb
    rw [List.getElem?_map, hx, Option.map_some]
    exact (write_eq o x).imp (congrArg some) (And.imp_right (congrArg some))
  · rw [← hencode, decode?_encode, hencode]
  · simpa only [List.length_map] using congrArg List.length hlines
  · rw [← List.getElem?_map, ← List.getElem?_map, hlines]

theorem clean_keeps_places_two_bytes :
    clean .all "é\n<?php".toList = .ok "  \n<?php".toList ∧
      ∃ written, scan .all (encode "é\n<?php".toList) = .ok written ∧
        written.length = (encode "é\n<?php".toList).length ∧
        encode "  \n<?php".toList = written := by
  have hreads : Reads ⟨.markup, none, encode "é\n<?php".toList⟩
      ((encode "é\n".toList).map (·, .markup) ++ (mark "<?php").map (·, .code))
      ⟨.code, some (byte 'p'), []⟩ :=
    .step (b := 0xC3) (.text rfl) <|
    .step (b := 0xA9) (.text rfl) <|
    .step (b := 0x0A) (.text rfl) <|
    .step (b := byte '<') (.openTag rfl) (.refl _)
  have hscan : scan .all (encode "é\n<?php".toList) = .ok (encode "  \n<?php".toList) :=
    scan_eq_ok_iff.mpr ⟨_, _, hreads, rfl, rfl⟩
  have hclean : clean .all "é\n<?php".toList = .ok "  \n<?php".toList :=
    clean_eq_ok_iff.mpr ⟨_, hscan, decodeLossy_encode _⟩
  obtain ⟨written, hwritten, hlength, _, _, hencode, _⟩ := clean_keeps_places hclean
  exact ⟨hclean, written, hwritten, hlength, hencode⟩

end ExtensionLint.Script
