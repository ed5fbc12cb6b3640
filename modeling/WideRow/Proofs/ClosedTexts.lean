import WideRow.Value.Shown

/-!
# Texts with a beginning and an end of their own

A cache key puts names and values side by side without escaping either, and the full form of a
value does the same with the full forms inside it. What can be told from such a text is told by
its brackets and quotes, so a text is read here with a count of the open brackets and with the
quotes as they come. It is *closed* when whoever begins to read it outside of quotes ends
outside of quotes with the same brackets open, and meets on the way no comma, semicolon, equals
sign or backslash that is not inside brackets or quotes; an equals sign, a semicolon and a
backslash have to be inside quotes.

> `Text.Closed.append_inj`: before a comma, a semicolon, a closing bracket or the end, where a
> closed text ends can be told from what follows.

> `Text.Closed.append_inj_left`: after an equals sign, where a closed text begins can be told
> from what precedes.

The second is not the first one read backwards: a quote looks the same on both sides. It rests
on the number of quotes in a closed text being even (`Text.read_opposite`).
-/

namespace WideRow

/-- Where a reader stands with respect to quotes. -/
inductive Reading where
  | outside
  | inside
  /-- Inside, behind a backslash. -/
  | escaped
  deriving DecidableEq

namespace Text

/-- The characters that open brackets. -/
def isOpening (c : Char) : Bool := c == '(' || c == '[' || c == '\x7b'

/-- The characters that close brackets. -/
def isClosing (c : Char) : Bool := c == ')' || c == ']' || c == '\x7d'

/-- The characters that may only stand inside quotes. -/
def isReserved (c : Char) : Bool := c == ';' || c == '=' || c == '\\'

/-- The characters that mean nothing to the reader outside of quotes. -/
def isOrdinary (c : Char) : Bool :=
  c != '"' && !isOpening c && !isClosing c && c != ',' && !isReserved c

/-- The number of open brackets after a character outside of quotes, if it may stand there. -/
def depthAfter (depth : Nat) (c : Char) : Option Nat :=
  if isOpening c then some (depth + 1)
  else if isClosing c then if depth = 0 then none else some (depth - 1)
  else if c = ',' then if depth = 0 then none else some depth
  else if isReserved c then none
  else some depth

/-- Reads one character, with the number of open brackets. -/
def readChar : Nat × Reading → Char → Option (Nat × Reading)
  | (depth, .escaped), _ => some (depth, .inside)
  | (depth, .inside), c =>
    some (depth, if c = '"' then .outside else if c = '\\' then .escaped else .inside)
  | (depth, .outside), c =>
    if c = '"' then some (depth, .inside) else (depthAfter depth c).map (·, .outside)

/-- Reads a text. -/
def read (p : Nat × Reading) (cs : List Char) : Option (Nat × Reading) := cs.foldlM readChar p

/-- Reads like nothing wherever at least `k` brackets are open. -/
def ClosedAt (k : Nat) (s : String) : Prop :=
  ∀ depth, read (k + depth, .outside) s.toList = some (k + depth, .outside)

/-- Reads like nothing everywhere. -/
abbrev Closed (s : String) : Prop := ClosedAt 0 s

/-- Begins with a character that ends a closed text, or not at all. -/
def Stops (cs : List Char) : Prop := ∀ c rest, cs = c :: rest → readChar (0, .outside) c = none

/-! ## Reading -/

@[simp] theorem read_nil (p : Nat × Reading) : read p [] = some p := rfl

theorem read_cons (p : Nat × Reading) (c : Char) (cs : List Char) :
    read p (c :: cs) = (readChar p c).bind fun q => read q cs := by
  rw [read, List.foldlM_cons]
  rfl

/-- What comes later is read from where the first text ends. -/
theorem read_append (p : Nat × Reading) (cs ds : List Char) :
    read p (cs ++ ds) = (read p cs).bind fun q => read q ds := by
  rw [read, List.foldlM_append]
  rfl

/-- Outside quotes, only brackets change the depth. -/
theorem readChar_outside {depth : Nat} {c : Char} (hc : c ≠ '"') :
    readChar (depth, .outside) c = (depthAfter depth c).map (·, .outside) := if_neg hc

/-- Ordinary characters leave the depth as it is. -/
theorem readChar_ordinary {c : Char} (hc : isOrdinary c = true) (depth : Nat) :
    readChar (depth, .outside) c = some (depth, .outside) := by
  simp only [isOrdinary, Bool.and_eq_true, bne_iff_ne, ne_eq, Bool.not_eq_true'] at hc
  simp [readChar_outside, depthAfter, hc]

theorem stops_nil : Stops [] := fun _ _ h => by cases h

/-- What may not stand outside brackets stops a closed text. -/
theorem stops_cons {c : Char} (hc : readChar (0, .outside) c = none) (cs : List Char) :
    Stops (c :: cs) := fun _ _ h => by
  cases h
  exact hc

/-! ## Closed texts -/

variable {k : Nat} {s t : String}

/-- Closed texts may stand one after the other. -/
theorem ClosedAt.append (hs : ClosedAt k s) (ht : ClosedAt k t) : ClosedAt k (s ++ t) := by
  intro depth
  rw [String.toList_append, read_append, hs depth, Option.bind_some, ht depth]

/-- A closed text may stand inside of brackets. -/
theorem ClosedAt.succ (hs : ClosedAt k s) : ClosedAt (k + 1) s := by
  intro depth
  have h := hs (1 + depth)
  rwa [← Nat.add_assoc] at h

/-- A text of ordinary characters is closed at every depth. -/
theorem closedAt_of_ordinary (h : s.toList.all isOrdinary = true) : ClosedAt k s := by
  have hall : ∀ cs : List Char, cs.all isOrdinary = true → ∀ depth,
      read (depth, .outside) cs = some (depth, .outside) := by
    intro cs hcs depth
    induction cs with
    | nil => rfl
    | cons c cs ih =>
      rw [List.all_cons, Bool.and_eq_true] at hcs
      rw [read_cons, readChar_ordinary hcs.1, Option.bind_some]
      exact ih hcs.2
  exact fun depth => hall _ h _

theorem closedAt_empty : ClosedAt k "" := closedAt_of_ordinary rfl

/-- Opens one bracket. -/
def Opens (s : String) : Prop :=
  ∀ depth, read (depth, .outside) s.toList = some (depth + 1, .outside)

/-- Closes one bracket. -/
def Closes (s : String) : Prop :=
  ∀ depth, read (depth + 1, .outside) s.toList = some (depth, .outside)

/-- What stands in brackets may have commas. -/
theorem ClosedAt.bracket {a b : String} (ha : Opens a) (hs : ClosedAt (k + 1) s) (hb : Closes b) :
    ClosedAt k (a ++ s ++ b) := by
  intro depth
  have hin := hs depth
  rw [Nat.add_right_comm] at hin
  simp only [String.toList_append, read_append, ha (k + depth), Option.bind_some, hin,
    hb (k + depth)]

/-- A name may stand before what opens. -/
theorem Opens.behind {a : String} (hs : s.toList.all isOrdinary = true) (ha : Opens a) :
    Opens (s ++ a) := by
  intro depth
  have hread : read (depth, .outside) s.toList = some (depth, .outside) := by
    simpa using closedAt_of_ordinary (k := 0) hs depth
  rw [String.toList_append, read_append, hread, Option.bind_some, ha depth]

/-- A comma may stand inside of brackets. -/
theorem closedAt_comma : ClosedAt 1 "," := fun depth => by
  simp [read_cons, readChar, depthAfter, isOpening, isClosing]

/-- Closed texts in a list are closed together, at a depth where what separates them is. -/
theorem ClosedAt.intercalate {sep : String} (hsep : ClosedAt k sep) :
    ∀ {items : List String}, (∀ s ∈ items, ClosedAt k s) → ClosedAt k (String.intercalate sep items)
  | [], _ => closedAt_empty
  | [s], h => by
    rw [String.intercalate_singleton]
    exact h s (List.mem_singleton_self s)
  | s :: t :: items, h => by
    rw [String.intercalate_cons_cons]
    refine ((h s (List.mem_cons_self ..)).append hsep).append ?_
    exact ClosedAt.intercalate hsep fun u hu => h u (List.mem_cons_of_mem _ hu)

/-! ## Where a closed text ends -/

/-- A closed text that goes on behind a closed text goes on with nothing that would stop it. -/
theorem Closed.eq_nil_of_stops {cs ds : List Char} (hs : Closed s) (ht : Closed t)
    (h : t.toList = s.toList ++ cs) (hstop : Stops (cs ++ ds)) : cs = [] := by
  have hread : read (0, .outside) cs = some (0, .outside) := by
    have := ht 0
    rw [h, read_append] at this
    rwa [show read (0, .outside) s.toList = _ from hs 0, Option.bind_some] at this
  cases cs with
  | nil => rfl
  | cons c cs =>
    rw [read_cons, hstop c (cs ++ ds) rfl] at hread
    cases hread

/-- Where a closed text ends can be told from what follows. -/
theorem Closed.append_inj (hs : Closed s) (ht : Closed t) {cs ds : List Char} (hcs : Stops cs)
    (hds : Stops ds) (h : s.toList ++ cs = t.toList ++ ds) : s = t ∧ cs = ds := by
  rcases List.append_eq_append_iff.1 h with ⟨es, het, hec⟩ | ⟨es, hes, hed⟩
  · obtain rfl := hs.eq_nil_of_stops ht het (hec ▸ hcs)
    exact ⟨String.toList_inj.1 (by simpa using het.symm), hec⟩
  · obtain rfl := ht.eq_nil_of_stops hs hes (hed ▸ hds)
    exact ⟨String.toList_inj.1 (by simpa using hes), hed.symm⟩

/-! ## Where a closed text begins -/

/-- Two readers of whom one is inside quotes and the other outside never come to agree. -/
theorem read_opposite : ∀ {cs : List Char} {d e d' e' : Nat} {m m' : Reading},
    read (d, .outside) cs = some (d', m) → read (e, .inside) cs = some (e', m') →
      m = .outside ∧ m' = .inside ∨ m = .inside ∧ m' = .outside
  | [], _, _, _, _, _, _, h, h' => by
    cases h
    cases h'
    exact .inl ⟨rfl, rfl⟩
  | c :: cs, d, e, d', e', m, m', h, h' => by
    rw [read_cons] at h h'
    obtain ⟨⟨d₁, m₁⟩, hstep, h⟩ := Option.bind_eq_some_iff.1 h
    obtain ⟨⟨e₁, m₁'⟩, hstep', h'⟩ := Option.bind_eq_some_iff.1 h'
    by_cases hq : c = '"'
    · subst hq
      cases hstep
      cases hstep'
      -- the quote changes the places of the two
      exact (read_opposite h' h).symm.imp And.symm And.symm
    · have hne : c ≠ '\\' := by
        rintro rfl
        simp [readChar, depthAfter, isOpening, isClosing, isReserved] at hstep
      obtain ⟨_, -, hout⟩ := Option.map_eq_some_iff.1 (readChar_outside hq ▸ hstep)
      cases hout
      simp only [readChar, hq, hne, if_false, Option.some.injEq] at hstep'
      cases hstep'
      exact read_opposite h h'

/-- Behind an equals sign a reader who has not failed is inside quotes. -/
theorem read_equals {p : Nat × Reading} {cs : List Char} {q : Nat × Reading}
    (h : read p (cs ++ ['=']) = some q) : q.2 = .inside := by
  rw [read_append] at h
  obtain ⟨⟨depth, m⟩, -, h⟩ := Option.bind_eq_some_iff.1 h
  obtain ⟨q', hq', h⟩ := Option.bind_eq_some_iff.1 (read_cons .. ▸ h)
  cases h
  cases m with
  | outside => simp [readChar, depthAfter, isOpening, isClosing, isReserved] at hq'
  | inside =>
    cases hq'
    rfl
  | escaped =>
    cases hq'
    rfl

/-- A closed text does not begin behind an equals sign in a closed text. -/
theorem Closed.eq_nil_of_equals {cs ds es : List Char} (hs : Closed s) (ht : Closed t)
    (h : s.toList = es ++ t.toList) (heq : ds ++ ['='] = cs ++ ['='] ++ es) : es = [] := by
  rcases List.eq_nil_or_concat es with hnil | ⟨fs, c, hfs⟩
  · exact hnil
  · rw [List.concat_eq_append] at hfs
    subst hfs
    obtain rfl : '=' = c := by
      rw [← List.append_assoc, List.append_singleton_inj] at heq
      exact heq.2
    have hread := hs 0
    rw [h, read_append] at hread
    obtain ⟨⟨depth, m⟩, hfs, hread⟩ := Option.bind_eq_some_iff.1 hread
    obtain rfl : m = .inside := read_equals hfs
    rcases read_opposite (ht 0) hread with ⟨-, hm⟩ | ⟨hm, -⟩ <;> cases hm

/-- Behind an equals sign, where a closed text begins can be told from what precedes. -/
theorem Closed.append_inj_left (hs : Closed s) (ht : Closed t) {cs ds : List Char}
    (h : cs ++ '=' :: s.toList = ds ++ '=' :: t.toList) : cs = ds ∧ s = t := by
  rw [List.append_cons, List.append_cons ds] at h
  rcases List.append_eq_append_iff.1 h with ⟨es, hds, hst⟩ | ⟨es, hcs, hts⟩
  · obtain rfl := hs.eq_nil_of_equals ht hst hds
    rw [List.append_nil, List.append_singleton_inj] at hds
    exact ⟨hds.1.symm, String.toList_inj.1 hst⟩
  · obtain rfl := ht.eq_nil_of_equals hs hts hcs
    rw [List.append_nil, List.append_singleton_inj] at hcs
    exact ⟨hcs.1, (String.toList_inj.1 hts).symm⟩

/-! ## Lists of closed texts -/

/-- A closed text that is not empty. -/
structure IsItem (s : String) : Prop where
  closed : Closed s
  ne_empty : s ≠ ""

/-- What a joined text has behind its first item. -/
def joinedRest (sep : String) : List String → List Char
  | [] => []
  | s :: items => sep.toList ++ (String.intercalate sep (s :: items)).toList

theorem toList_intercalate_cons (sep s : String) (items : List String) :
    (String.intercalate sep (s :: items)).toList = s.toList ++ joinedRest sep items := by
  cases items with
  | nil => simp [joinedRest]
  | cons t items => simp [joinedRest, String.intercalate_cons_cons]

/-- A separator that begins with a comma. -/
def Separates (sep : String) : Prop := ∃ cs, sep.toList = ',' :: cs

/-- An item of a list ends where the separator begins. -/
theorem Separates.stops {sep : String} (hsep : Separates sep) (items : List String) :
    Stops (joinedRest sep items) := by
  obtain ⟨cs, hcs⟩ := hsep
  cases items with
  | nil => exact stops_nil
  | cons t items =>
    rw [joinedRest, hcs]
    exact stops_cons (by simp [readChar, depthAfter, isOpening, isClosing]) _

theorem intercalate_ne_empty {sep s : String} {items : List String} (hs : s ≠ "") :
    String.intercalate sep (s :: items) ≠ "" := by
  intro h
  have hnil := congrArg String.toList h
  rw [toList_intercalate_cons] at hnil
  exact hs (String.toList_eq_nil_iff.1 (List.append_eq_nil_iff.1 hnil).1)

/-- Items can be told from their joined text. -/
theorem intercalate_items_inj {sep : String} (hsep : Separates sep) :
    ∀ {xs ys : List String}, (∀ x ∈ xs, IsItem x) → (∀ y ∈ ys, IsItem y) →
      String.intercalate sep xs = String.intercalate sep ys → xs = ys
  | [], [], _, _, _ => rfl
  | [], y :: ys, _, hy, h =>
    absurd h.symm (intercalate_ne_empty (hy y (List.mem_cons_self ..)).ne_empty)
  | x :: xs, [], hx, _, h => absurd h (intercalate_ne_empty (hx x (List.mem_cons_self ..)).ne_empty)
  | x :: xs, y :: ys, hx, hy, h => by
    have hchars := congrArg String.toList h
    rw [toList_intercalate_cons, toList_intercalate_cons] at hchars
    obtain ⟨rfl, hrest⟩ := (hx x (List.mem_cons_self ..)).closed.append_inj
      (hy y (List.mem_cons_self ..)).closed (hsep.stops xs) (hsep.stops ys) hchars
    obtain ⟨cs, hcs⟩ := hsep
    have htail : xs = ys := by
      match xs, ys, hrest with
      | [], [], _ => rfl
      | [], _ :: _, hrest | _ :: _, [], hrest => simp [joinedRest, hcs] at hrest
      | x' :: xs, y' :: ys, hrest =>
        rw [joinedRest, joinedRest, List.append_cancel_left_eq, String.toList_inj] at hrest
        exact intercalate_items_inj ⟨cs, hcs⟩
          (fun u hu => hx u (List.mem_cons_of_mem _ hu))
          (fun u hu => hy u (List.mem_cons_of_mem _ hu)) hrest
    rw [htail]

end Text

/-! ## The shapes of full forms -/

namespace Shown

open Text

/-- What separates the parts of a full form. -/
theorem closedAt_separator : ClosedAt 1 ", " :=
  closedAt_comma.append (t := " ") (closedAt_of_ordinary rfl)

theorem separates_separator : Separates ", " := ⟨[' '], rfl⟩

/-- A name with arguments in parentheses is closed, and not empty. -/
theorem isItem_applied {name : String} {arguments : List String}
    (hname : name.toList.all isOrdinary = true) (hargs : ∀ a ∈ arguments, Closed a) :
    IsItem (applied name arguments) where
  closed := (ClosedAt.intercalate closedAt_separator fun a ha => (hargs a ha).succ).bracket
    (Opens.behind hname fun _ => rfl) fun _ => rfl
  ne_empty := by simp [applied]

theorem isItem_bracketed {items : List String} (h : ∀ s ∈ items, Closed s) :
    IsItem (bracketed items) where
  closed := (ClosedAt.intercalate closedAt_separator fun a ha => (h a ha).succ).bracket
    (fun _ => rfl) fun _ => rfl
  ne_empty := by simp [bracketed]

/-- A named part: its name means nothing to a reader, and its text is closed. -/
structure IsPart (p : String × String) : Prop where
  name : p.1.toList.all isOrdinary = true
  closed : Closed p.2

theorem IsPart.of_closed {name s : String} (hname : name.toList.all isOrdinary = true)
    (hs : Closed s) : IsPart (name, s) := ⟨hname, hs⟩

/-- A named part is an item of its braces. -/
theorem IsPart.isItem {p : String × String} (h : IsPart p) : IsItem (p.1 ++ ": " ++ p.2) where
  closed := ((closedAt_of_ordinary h.name).append (closedAt_of_ordinary rfl)).append h.closed
  ne_empty := by simp

/-- Named parts in braces are closed. -/
theorem closed_braced {parts : List (String × String)} (h : ∀ p ∈ parts, IsPart p) :
    Closed (braced parts) := by
  refine (ClosedAt.intercalate closedAt_separator fun a ha => ?_).bracket
    (fun _ => rfl) fun _ => rfl
  obtain ⟨p, hp, rfl⟩ := List.mem_map.1 ha
  exact (h p hp).isItem.closed.succ

/-- Arguments can be told from the whole. -/
theorem applied_inj {name : String} {xs ys : List String} (hx : ∀ x ∈ xs, IsItem x)
    (hy : ∀ y ∈ ys, IsItem y) (h : applied name xs = applied name ys) : xs = ys := by
  rw [applied, applied, String.append_left_inj, String.append_right_inj] at h
  exact intercalate_items_inj separates_separator hx hy h

/-- A list in brackets tells its items. -/
theorem bracketed_inj {xs ys : List String} (hx : ∀ x ∈ xs, IsItem x) (hy : ∀ y ∈ ys, IsItem y)
    (h : bracketed xs = bracketed ys) : xs = ys := by
  rw [bracketed, bracketed, String.append_left_inj, String.append_right_inj] at h
  exact intercalate_items_inj separates_separator hx hy h

/-- Parts can be told from the whole. -/
theorem braced_inj {ps qs : List (String × String)} (hp : ∀ p ∈ ps, IsPart p)
    (hq : ∀ q ∈ qs, IsPart q) (h : braced ps = braced qs) :
    (ps.map fun p => p.1 ++ ": " ++ p.2) = qs.map fun q => q.1 ++ ": " ++ q.2 := by
  have hitem : ∀ {ps : List (String × String)}, (∀ p ∈ ps, IsPart p) →
      ∀ s ∈ ps.map fun p => p.1 ++ ": " ++ p.2, IsItem s := by
    intro ps hps s hs
    obtain ⟨p, hp, rfl⟩ := List.mem_map.1 hs
    exact (hps p hp).isItem
  rw [braced, braced, String.append_left_inj, String.append_right_inj] at h
  exact intercalate_items_inj separates_separator (hitem hp) (hitem hq) h

theorem isItem_one {name s : String} (hname : name.toList.all isOrdinary = true) (hs : Closed s) :
    IsItem (applied name [s]) := isItem_applied hname (by simpa using hs)

theorem isItem_two {name s t : String} (hname : name.toList.all isOrdinary = true) (hs : Closed s)
    (ht : Closed t) : IsItem (applied name [s, t]) :=
  isItem_applied hname (by simpa using ⟨hs, ht⟩)

@[simp] theorem applied_one_inj {name s t : String} :
    applied name [s] = applied name [t] ↔ s = t := by
  simp [applied]

/-- Two arguments can be told from the text of both: the first one ends at a comma that is not
inside it. -/
theorem applied_two_inj {name s t s' t' : String} (hs : IsItem s) (ht : IsItem t) (hs' : IsItem s')
    (ht' : IsItem t') (h : applied name [s, t] = applied name [s', t']) : s = s' ∧ t = t' := by
  have hargs := applied_inj (by simpa using ⟨hs, ht⟩) (by simpa using ⟨hs', ht'⟩) h
  simpa using hargs

end Shown

end WideRow
