import Mathlib.Order.Bounds.Basic
import ExtensionLint.Proofs.Text.Lines
import ExtensionLint.Proofs.Script.BracePairs

/-!
# Where braces balance

The brace that closes another one is the first behind it, outside literals, up to which as many braces
close as open. Before it more of them have opened than closed, so a reader of braces never closes one
that is not open (`closing_brace_balances`).
-/

namespace ExtensionLint.Script

open Text Utf8

/-! ## Counting outside literals -/

/-- Where a reader of braces is behind one more character: a quote begins a literal, the same quote ends it,
and a backslash in it hides the next character. -/
def Spot.next (spot : Spot) (c : Char) : Spot := (Level.next ⟨spot, 0⟩ c).spot

/-- Where a reader of braces is behind a text. -/
def Spot.after (spot : Spot) (s : List Char) : Spot := s.foldl Spot.next spot

/-- What a character adds to the text outside literals. -/
def Spot.shows : Spot → Char → List Char
  | .bare, c => [c]
  | .quoted _, _ | .escaped _, _ => []

/-- The text outside literals, for a reader of braces that sets out at `spot`. -/
def unquoted : Spot → List Char → List Char
  | _, [] => []
  | spot, c :: s => spot.shows c ++ unquoted (spot.next c) s

/-- How often a character stands outside literals. -/
def bareCount (spot : Spot) (s : List Char) (c : Char) : Nat := (unquoted spot s).count c

section

variable {spot : Spot} {q : Quotation} {c : Char} {depth depth' offset i n : Nat} {s : List Char}

theorem Spot.bare_ne_escaped (q : Quotation) : Spot.bare ≠ .escaped q := by
  intro h
  cases h

theorem Spot.quoted_ne_escaped (q q' : Quotation) : Spot.quoted q ≠ .escaped q' := by
  intro h
  cases h

theorem Spot.next_quote (q : Quotation) : Spot.bare.next q.char = .quoted q := by
  cases q <;> rfl

theorem Spot.next_plain (h : c ∉ braceSigns) : Spot.bare.next c = .bare := by
  rw [Spot.next, Level.next_bare h]

theorem Spot.next_quoted (h : c ≠ '\\') :
    (Spot.quoted q).next c = if c = q.char then .bare else .quoted q := by
  rw [Spot.next, Level.next, if_neg h]
  split <;> rfl

theorem Spot.next_backslash (q : Quotation) : (Spot.quoted q).next '\\' = .escaped q := by
  cases q <;> rfl

@[simp] theorem bareCount_nil (spot : Spot) (x : Char) : bareCount spot [] x = 0 := rfl

theorem bareCount_cons (spot : Spot) (c : Char) (s : List Char) (x : Char) :
    bareCount spot (c :: s) x = (spot.shows c).count x + bareCount (spot.next c) s x := by
  rw [bareCount, unquoted, List.count_append]
  rfl

/-! ## One character after the other -/

/-- Behind each of the first `n` characters some brace is open, if `depth` braces were open before. -/
def Ahead (spot : Spot) (depth : Nat) (s : List Char) (n : Nat) : Prop :=
  ∀ i < n, bareCount spot (s.take (i + 1)) '}' < depth + bareCount spot (s.take (i + 1)) '{'

/-- A brace outside literals closes the last one that is open. -/
def Balances (spot : Spot) (depth : Nat) (s : List Char) (n : Nat) : Prop :=
  s[n]? = some '}' ∧ spot.after (s.take n) = .bare ∧
    depth + bareCount spot (s.take (n + 1)) '{' = bareCount spot (s.take (n + 1)) '}'

/-- What is known of a text from the place that a reader of braces finds in it. -/
def Outcome (spot : Spot) (depth : Nat) (s : List Char) (offset : Nat) : Option Nat → Prop
  | some place => ∃ n, place = offset + n ∧ Balances spot depth s n ∧ Ahead spot depth s n
  | none => Ahead spot depth s s.length

theorem Balances.lt_length (h : Balances spot depth s n) : n < s.length :=
  (List.getElem?_eq_some_iff.mp h.1).1

theorem Ahead.not_balances (h : Ahead spot depth s n) (hi : i < n) : ¬ Balances spot depth s i := by
  intro hbalances
  have hless := h i hi
  have hequal := hbalances.2.2
  omega

theorem Ahead.cons (h : Ahead (spot.next c) depth' s n) (hdepth : depth' ≠ 0)
    (hcount : depth' + (spot.shows c).count '}' = depth + (spot.shows c).count '{') :
    Ahead spot depth (c :: s) (n + 1) := by
  intro i hi
  rw [List.take_succ_cons, bareCount_cons, bareCount_cons]
  cases i with
  | zero =>
      rw [List.take_zero, bareCount_nil, bareCount_nil]
      omega
  | succ i =>
      have hless := h i (Nat.lt_of_succ_lt_succ hi)
      omega

theorem Balances.cons (h : Balances (spot.next c) depth' s n)
    (hcount : depth' + (spot.shows c).count '}' = depth + (spot.shows c).count '{') :
    Balances spot depth (c :: s) (n + 1) := by
  obtain ⟨hbrace, hbare, hequal⟩ := h
  refine ⟨hbrace, hbare, ?_⟩
  rw [List.take_succ_cons, bareCount_cons, bareCount_cons]
  omega

theorem Outcome.cons {found : Option Nat} {next : Spot}
    (h : Outcome next depth' s (offset + 1) found) (hnext : spot.next c = next) (hdepth : depth' ≠ 0)
    (hcount : depth' + (spot.shows c).count '}' = depth + (spot.shows c).count '{') :
    Outcome spot depth (c :: s) offset found := by
  subst hnext
  cases found with
  | none => exact Ahead.cons h hdepth hcount
  | some place =>
      obtain ⟨n, rfl, hbalances, hahead⟩ := h
      exact ⟨n + 1, by omega, hbalances.cons hcount, hahead.cons hdepth hcount⟩

/-- A character in a literal does not count. -/
theorem Outcome.literal {found : Option Nat} {next : Spot}
    (h : Outcome next depth s (offset + 1) found) (hnext : spot.next c = next) (hdepth : depth ≠ 0)
    (hshows : spot.shows c = []) : Outcome spot depth (c :: s) offset found := by
  refine h.cons hnext hdepth ?_
  rw [hshows]
  rfl

/-- Outside literals a character that is no brace does not count. -/
theorem Outcome.bare {found : Option Nat} {next : Spot}
    (h : Outcome next depth s (offset + 1) found) (hnext : Spot.bare.next c = next) (hdepth : depth ≠ 0)
    (hopen : c ≠ '{') (hclose : c ≠ '}') : Outcome .bare depth (c :: s) offset found := by
  refine h.cons hnext hdepth ?_
  rw [Spot.shows, List.count_singleton, List.count_singleton, if_neg (by simpa using hclose),
    if_neg (by simpa using hopen)]

theorem outcome_closingBraceFrom {quote : Option Char} (hdepth : depth ≠ 0)
    (hquote : spot.delimiter = quote) (hspot : ∀ q, spot ≠ .escaped q) :
    Outcome spot depth s offset (closingBraceFrom quote depth s offset) := by
  induction quote, depth, s, offset using closingBraceFrom.induct generalizing spot with
  | case1 => exact fun i hi => absurd hi (Nat.not_lt_zero i)
  | case2 depth offset x =>
      obtain ⟨q, rfl, rfl⟩ := Spot.exists_quoted hquote hspot
      have hend : Outcome (.escaped q) depth [] (offset + 1) none :=
        fun i hi => absurd hi (Nat.not_lt_zero i)
      exact hend.literal (Spot.next_backslash q) hdepth rfl
  | case3 x depth c s offset ih =>
      obtain ⟨q, rfl, rfl⟩ := Spot.exists_quoted hquote hspot
      have hnext : Outcome (.quoted q) depth s (offset + 2) _ := ih hdepth rfl (Spot.quoted_ne_escaped q)
      have hhidden : Outcome (.escaped q) depth (c :: s) (offset + 1) _ := hnext.literal rfl hdepth rfl
      exact hhidden.literal (Spot.next_backslash q) hdepth rfl
  | case4 x depth c s offset hend hescape ih =>
      obtain ⟨q, rfl, rfl⟩ := Spot.exists_quoted hquote hspot
      rw [closingBraceFrom.eq_4 _ _ _ _ _ hend hescape]
      refine Outcome.literal (ih hdepth ?_ ?_) (Spot.next_quoted (ne_backslash hend hescape)) hdepth rfl
      · split <;> rfl
      · split
        · exact Spot.bare_ne_escaped
        · exact Spot.quoted_ne_escaped q
  | case5 depth c s offset hc ih =>
      obtain rfl := Spot.eq_bare hquote
      obtain ⟨q, rfl⟩ := Quotation.exists_char hc
      rw [closingBraceFrom_quote]
      have hnext : Outcome (.quoted q) depth s (offset + 1) _ := ih hdepth rfl (Spot.quoted_ne_escaped q)
      exact hnext.bare (Spot.next_quote q) hdepth q.ne_open q.ne_close
  | case6 depth s offset _ ih =>
      obtain rfl := Spot.eq_bare hquote
      have hnext : Outcome .bare (depth + 1) s (offset + 1) _ := ih (Nat.succ_ne_zero depth) rfl Spot.bare_ne_escaped
      exact hnext.cons rfl (Nat.succ_ne_zero depth) rfl
  | case7 => exact absurd rfl hdepth
  | case8 s offset _ _ =>
      obtain rfl := Spot.eq_bare hquote
      exact ⟨0, rfl, ⟨rfl, rfl, rfl⟩, fun i hi => absurd hi (Nat.not_lt_zero i)⟩
  | case9 s offset depth _ _ ih =>
      obtain rfl := Spot.eq_bare hquote
      have hnext : Outcome .bare (depth + 1) s (offset + 1) _ := ih (Nat.succ_ne_zero depth) rfl Spot.bare_ne_escaped
      exact hnext.cons rfl (Nat.succ_ne_zero depth) rfl
  | case10 depth c s offset hc hopen hclose ih =>
      obtain rfl := Spot.eq_bare hquote
      have hsign : c ∉ braceSigns := by simpa [braceSigns, hopen, hclose] using hc
      rw [closingBraceFrom_plain hsign]
      have hnext : Outcome .bare depth s (offset + 1) _ := ih hdepth rfl Spot.bare_ne_escaped
      exact hnext.bare (Spot.next_plain hsign) hdepth hopen hclose

end

/-! ## Bytes -/

/-- The byte of the brace that closes the one in front of `body`, in a text that begins with `front`. -/
def closingByte? (front body : List Char) : Option Nat :=
  (closingBrace? body).map fun place => size (front ++ body.take place)

/-- Read from `start` on, a brace outside literals stands at `place`, and up to it as many braces open
as close. -/
def BalancesAt (l : List Char) (start place : Nat) : Prop :=
  start ≤ place ∧ l[place]? = some '}' ∧ Spot.bare.after (l.extract start place) = .bare ∧
    bareCount .bare (l.extract start (place + 1)) '{' = bareCount .bare (l.extract start (place + 1)) '}'

theorem extract_add (l : List Char) (start n : Nat) :
    l.extract start (start + n) = (l.drop start).take n := by
  rw [List.extract_eq_take_drop, Nat.add_sub_cancel_left]

theorem balancesAt_add (l : List Char) (start n : Nat) :
    BalancesAt l start (start + n) ↔ Balances .bare 0 (l.drop start) n := by
  rw [BalancesAt, Balances, Nat.add_assoc, extract_add, extract_add, List.getElem?_drop, Nat.zero_add]
  simp only [Nat.le_add_right, true_and]

theorem drop_letters (front body : List Char) :
    (letters (front ++ body)).drop (size front) = letters body := by
  rw [letters_append, size, ← length_letters, List.drop_left]

theorem closingByte?_eq (front body : List Char) :
    closingByte? front body = closingBraceFrom none 0 (letters body) (size front) := by
  rw [closingBraceFrom_offset, ← closingBrace?, closingBrace?_letters, closingByte?, Option.map_map]
  congr 1
  funext place
  exact size_append front _

theorem outcome_closingByte? (front rest : List Char) :
    Outcome .bare 0 (letters ('{' :: rest)) (size front) (closingByte? front ('{' :: rest)) := by
  have hletters : letters ('{' :: rest) = '{' :: letters rest := letters_cons '{' rest
  rw [closingByte?_eq, hletters, closingBraceFrom_open]
  have hrest : Outcome .bare 1 (letters rest) (size front + 1) _ :=
    outcome_closingBraceFrom Nat.one_ne_zero rfl Spot.bare_ne_escaped
  exact hrest.cons rfl Nat.one_ne_zero rfl

section

variable {l : List Char} {start j : Nat} {found : Option Nat}

theorem Outcome.not_balancesAt (h : Outcome .bare 0 (l.drop start) start none) (j : Nat) :
    ¬ BalancesAt l start j := by
  intro hj
  obtain ⟨n, rfl⟩ := Nat.exists_eq_add_of_le hj.1
  have hn := (balancesAt_add l start n).mp hj
  exact Ahead.not_balances h hn.lt_length hn

theorem Outcome.isLeast (h : Outcome .bare 0 (l.drop start) start (some j)) :
    IsLeast {j | BalancesAt l start j} j := by
  obtain ⟨n, rfl, hbalances, hahead⟩ := h
  refine ⟨(balancesAt_add l start n).mpr hbalances, fun i hi => ?_⟩
  obtain ⟨m, rfl⟩ := Nat.exists_eq_add_of_le hi.1
  by_contra hless
  exact hahead.not_balances (by omega) ((balancesAt_add l start m).mp hi)

theorem Outcome.eq_some_iff (h : Outcome .bare 0 (l.drop start) start found) :
    found = some j ↔ IsLeast {j | BalancesAt l start j} j := by
  cases found with
  | none => exact ⟨nofun, fun hj => absurd hj.1 (h.not_balancesAt j)⟩
  | some place =>
      rw [Option.some.injEq]
      constructor
      · rintro rfl
        exact h.isLeast
      · exact h.isLeast.unique

theorem Outcome.eq_none_iff (h : Outcome .bare 0 (l.drop start) start found) :
    found = none ↔ ∀ j, ¬ BalancesAt l start j := by
  cases found with
  | none => exact ⟨fun _ => h.not_balancesAt, fun _ => rfl⟩
  | some place => exact ⟨nofun, fun hnone => absurd h.isLeast.1 (hnone place)⟩

theorem Outcome.lt_of_lt (h : Outcome .bare 0 (l.drop start) start found) (hstart : start ≤ j)
    (hj : j < l.length) (hbefore : ∀ place ∈ found, j < place) :
    bareCount .bare (l.extract start (j + 1)) '}' < bareCount .bare (l.extract start (j + 1)) '{' := by
  obtain ⟨n, rfl⟩ := Nat.exists_eq_add_of_le hstart
  have hahead : ∃ m, n < m ∧ Ahead .bare 0 (l.drop start) m := by
    cases found with
    | none => exact ⟨_, by rw [List.length_drop]; omega, h⟩
    | some place =>
        obtain ⟨m, rfl, _, hahead⟩ := h
        have hless := hbefore _ rfl
        exact ⟨m, by omega, hahead⟩
  obtain ⟨m, hm, hahead⟩ := hahead
  have hless := hahead n hm
  rwa [Nat.zero_add, ← extract_add, ← Nat.add_assoc] at hless

end

/-- The closing brace is the first one outside literals up to which as many braces close as open. Before it,
and everywhere if there is none, more of them have opened than closed. It is a character of its own behind
the brace that it closes. -/
theorem closing_brace_balances {s : List Char} {start : Nat} (h : (encode s)[start]? = some (byte '{')) :
    ∃ front body, s = front ++ body ∧ size front = start ∧
      (∀ j, closingByte? front body = some j ↔ IsLeast {j | BalancesAt (letters s) start j} j) ∧
      (closingByte? front body = none ↔ ∀ j, ¬ BalancesAt (letters s) start j) ∧
      (∀ i, start ≤ i → i < (encode s).length → (∀ j ∈ closingByte? front body, i < j) →
        bareCount .bare ((letters s).extract start (i + 1)) '}' <
          bareCount .bare ((letters s).extract start (i + 1)) '{') ∧
      ∀ j ∈ closingByte? front body, start < j ∧
        ∃ before behind, s = before ++ '}' :: behind ∧ size before = j := by
  obtain ⟨front, rest, rfl, rfl⟩ := exists_of_ascii_getElem? (by decide) h
  have houtcome := outcome_closingByte? front rest
  rw [← drop_letters front] at houtcome
  refine ⟨front, '{' :: rest, rfl, rfl, fun j => houtcome.eq_some_iff, houtcome.eq_none_iff, ?_, ?_⟩
  · intro i hstart hi
    rw [← length_letters] at hi
    exact houtcome.lt_of_lt hstart hi
  · intro j hj
    obtain ⟨hle, hbrace, _⟩ := (houtcome.eq_some_iff.mp hj).1
    rw [letters, List.getElem?_map, Option.map_eq_some_iff] at hbrace
    obtain ⟨b, hb, hletter⟩ := hbrace
    obtain rfl := (letter_eq_iff (by decide)).mp hletter
    refine ⟨lt_of_le_of_ne hle ?_, exists_of_ascii_getElem? (by decide) hb⟩
    rintro rfl
    rw [h] at hb
    exact absurd hb (by decide)

/-- Braces in literals, hidden quotes and characters beyond ASCII. -/
theorem closing_brace_balances_literals :
    let s := "é\x7b'\x7d\\'é' \x7b\"'\x7b\"\x7dé\x7d\x7d".toList
    (encode s)[2]? = some (byte '{') ∧ ∃ front body, s = front ++ body ∧ size front = 2 ∧
      (∀ j, closingByte? front body = some j ↔ IsLeast {j | BalancesAt (letters s) 2 j} j) ∧
      (closingByte? front body = none ↔ ∀ j, ¬ BalancesAt (letters s) 2 j) ∧
      (∀ i, 2 ≤ i → i < (encode s).length → (∀ j ∈ closingByte? front body, i < j) →
        bareCount .bare ((letters s).extract 2 (i + 1)) '}' <
          bareCount .bare ((letters s).extract 2 (i + 1)) '{') ∧
      ∀ j ∈ closingByte? front body, 2 < j ∧
        ∃ before behind, s = before ++ '}' :: behind ∧ size before = j :=
  ⟨by decide, closing_brace_balances (by decide)⟩

end ExtensionLint.Script
