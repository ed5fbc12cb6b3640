import Mathlib.Data.List.TakeWhile
import WideRow.Proofs.Names

/-!
# Identifiers at the front of a text

The database takes a text apart from left to right. An identifier is bare or stands between double
quotes: a bare one is a letter and further letters, digits and underscores, and its name is in lower
case; between quotes, a quote is written twice and all else stands for itself. `Spells` is this
rule, and `readIdentifier?` takes the identifier at the front of a text off, as far as it goes
(`spells_iff`).

> `cql_self_delimiting`: a written name is an identifier, it spells the name, and it ends where the
> name ends, whatever characters the name has.

The one exception are names of lower case letters, digits and underscores that do not begin with a
letter (`lacksQuotes`): they are written bare, and then the text is no identifier. Even these are
not mistaken for other names: `readWord` takes any word off, whatever it begins with, and gives all
names back (`readWord_cql`).
-/

namespace WideRow.Identifier

/-! ## The rule -/

/-- Whether a character may be in a bare identifier. -/
def isWordChar (c : Char) : Bool := c.isAlphanum || c == '_'

/-- What stands between quotes, and the name that it spells. -/
inductive Inside : List Char → List Char → Prop where
  | nil : Inside [] []
  | quote {text name : List Char} (h : Inside text name) :
    Inside ('"' :: '"' :: text) ('"' :: name)
  | other {c : Char} {text name : List Char} (hc : c ≠ '"') (h : Inside text name) :
    Inside (c :: text) (c :: name)

/-- An identifier, and the name that it spells. -/
inductive Spells : List Char → List Char → Prop where
  | bare {c : Char} {cs : List Char} (hletter : c.isAlpha = true)
    (hword : ∀ d ∈ cs, isWordChar d = true) : Spells (c :: cs) ((c :: cs).map Char.toLower)
  | quoted {text name : List Char} (h : Inside text name) : Spells ('"' :: (text ++ ['"'])) name

/-! ## Reading -/

/-- Takes a name off up to the quote that closes it. -/
def readInside : List Char → Option (List Char × List Char)
  | '"' :: '"' :: cs => (readInside cs).map fun p => ('"' :: p.1, p.2)
  | '"' :: cs => some ([], cs)
  | c :: cs => (readInside cs).map fun p => (c :: p.1, p.2)
  | [] => none

/-- Takes a name off, bare or between quotes, and gives it with what is left. -/
def readWord : List Char → Option (List Char × List Char)
  | '"' :: cs => readInside cs
  | cs => some ((cs.takeWhile isWordChar).map Char.toLower, cs.dropWhile isWordChar)

/-- Whether an identifier may begin with a character. -/
def opensIdentifier (c : Char) : Bool := c == '"' || c.isAlpha

/-- Takes the identifier at the front of a text off, and gives its name with what is left. -/
def readIdentifier? (text : List Char) : Option (List Char × List Char) :=
  if text.head?.any opensIdentifier then readWord text else none

/-- A text does not go on with what is in front of it. -/
def Delimits (rest : List Char) : Prop :=
  ∀ c, rest.head? = some c → c ≠ '"' ∧ isWordChar c = false

/-- A name that is written bare although it does not begin with a letter. -/
def lacksQuotes (i : Identifier) : Bool :=
  i.isBare && i.name.toList.head?.any fun c => !c.isAlpha

/-- Between quotes stands the name with its quotes doubled. -/
theorem inside_iff {text name : List Char} : Inside text name ↔ text = doubled name := by
  constructor
  · intro h
    induction h with
    | nil => rfl
    | quote _ ih => rw [doubled, if_pos rfl, ih]
    | other hc _ ih => rw [doubled, if_neg hc, ih]
  · rintro rfl
    induction name with
    | nil => exact .nil
    | cons c name ih =>
      rw [doubled]
      split
      next hc =>
        subst hc
        exact .quote ih
      next hc => exact .other hc ih

/-- Anything but a quote stands for itself. -/
theorem readInside_other {c : Char} (hc : c ≠ '"') (cs : List Char) :
    readInside (c :: cs) = (readInside cs).map fun p => (c :: p.1, p.2) := by
  rw [readInside]
  · exact fun _ he _ => hc he
  · exact fun he => hc he

/-- What is inside is read to its end, and reading goes on there. -/
theorem readInside_append {text name : List Char} (h : Inside text name) (rest : List Char) :
    readInside (text ++ rest) = (readInside rest).map fun p => (name ++ p.1, p.2) := by
  induction h with
  | nil => simp
  | quote _ ih =>
    rw [List.cons_append, List.cons_append, readInside, ih, Option.map_map]
    rfl
  | other hc _ ih =>
    rw [List.cons_append, readInside_other hc, ih, Option.map_map]
    rfl

/-- A quote closes unless another one follows. -/
theorem readInside_quote {rest : List Char} (h : Delimits rest) :
    readInside ('"' :: rest) = some ([], rest) := by
  cases rest with
  | nil => rfl
  | cons c cs =>
    rw [readInside]
    intro cs' he
    exact (h c rfl).1 (List.cons.inj he).1

/-- What is read off is a name between quotes, and what is left comes after the quote that closes
it. -/
theorem exists_inside {text name left : List Char} (h : readInside text = some (name, left)) :
    ∃ t, Inside t name ∧ text = t ++ '"' :: left := by
  fun_induction readInside text generalizing name with
  | case1 cs ih =>
    obtain ⟨⟨name', _⟩, hread, he⟩ := Option.map_eq_some_iff.1 h
    cases he
    obtain ⟨t, ht, rfl⟩ := ih hread
    exact ⟨'"' :: '"' :: t, .quote ht, rfl⟩
  | case2 cs =>
    cases h
    exact ⟨[], .nil, rfl⟩
  | case3 c cs _ hc ih =>
    obtain ⟨⟨name', _⟩, hread, he⟩ := Option.map_eq_some_iff.1 h
    cases he
    obtain ⟨t, ht, rfl⟩ := ih hread
    exact ⟨c :: t, .other hc ht, rfl⟩
  | case4 => cases h

theorem ne_quote_of_isWordChar {c : Char} (h : isWordChar c = true) : c ≠ '"' := by
  rintro rfl
  exact absurd h (by decide)

theorem delimits_nil : Delimits [] := fun _ h => by cases h

/-- A bare word does not go on into what delimits it. -/
theorem takeWhile_of_delimits {rest : List Char} (h : Delimits rest) :
    rest.takeWhile isWordChar = [] ∧ rest.dropWhile isWordChar = rest := by
  cases rest with
  | nil => exact ⟨rfl, rfl⟩
  | cons c cs =>
    have hc : ¬ isWordChar c = true := by simp [(h c rfl).2]
    exact ⟨List.takeWhile_cons_of_neg hc, List.dropWhile_cons_of_neg hc⟩

/-- Without a quote at the front, the longest bare word is read. -/
theorem readWord_other {c : Char} (hc : c ≠ '"') (cs : List Char) :
    readWord (c :: cs) =
      some (((c :: cs).takeWhile isWordChar).map Char.toLower, (c :: cs).dropWhile isWordChar) := by
  rw [readWord]
  exact fun _ he => hc (List.cons.inj he).1

/-- Any word is read to its end, also one that begins with a digit and one that is empty. -/
theorem readWord_append {cs rest : List Char} (hword : ∀ d ∈ cs, isWordChar d = true)
    (hrest : Delimits rest) : readWord (cs ++ rest) = some (cs.map Char.toLower, rest) := by
  obtain ⟨htake, hdrop⟩ := takeWhile_of_delimits hrest
  have hquote : ∀ c ∈ (cs ++ rest).head?, c ≠ '"' := by
    cases cs with
    | nil => exact fun c hc => (hrest c hc).1
    | cons d cs =>
      rintro c hc
      obtain rfl : d = c := by simpa using hc
      exact ne_quote_of_isWordChar (hword d (List.mem_cons_self ..))
  have hread : readWord (cs ++ rest) = some (((cs ++ rest).takeWhile isWordChar).map Char.toLower,
      (cs ++ rest).dropWhile isWordChar) := by
    cases hall : cs ++ rest with
    | nil => rfl
    | cons c cs' => exact readWord_other (hquote c (by rw [hall]; rfl)) cs'
  rw [hread, List.takeWhile_append_of_pos hword, List.dropWhile_append_of_pos hword, htake, hdrop,
    List.append_nil]

theorem isWordChar_of_isAlpha {c : Char} (h : c.isAlpha = true) : isWordChar c = true := by
  simp [isWordChar, Char.isAlphanum, h]

/-- An identifier ends where it should, unless what follows goes on with it. -/
theorem readWord_spelled {text name rest : List Char} (h : Spells text name)
    (hrest : Delimits rest) : readWord (text ++ rest) = some (name, rest) := by
  cases h with
  | bare hletter hword =>
    refine readWord_append (fun d hd => ?_) hrest
    rcases List.mem_cons.1 hd with rfl | hd
    · exact isWordChar_of_isAlpha hletter
    · exact hword d hd
  | quoted hinside =>
    show readInside (_ ++ ['"'] ++ rest) = _
    rw [List.append_assoc, readInside_append hinside, List.singleton_append,
      readInside_quote hrest, Option.map_some, List.append_nil]

/-- An identifier begins as one. -/
theorem head_of_spells {text name : List Char} (h : Spells text name) :
    text.head?.any opensIdentifier = true := by
  cases h with
  | bare hletter => simp [opensIdentifier, hletter]
  | quoted => rfl

/-- Reading finds the identifiers, with their names. -/
theorem spells_iff {text name : List Char} :
    Spells text name ↔ readIdentifier? text = some (name, []) := by
  constructor
  · intro h
    have hread := readWord_spelled h delimits_nil
    rw [readIdentifier?, if_pos (head_of_spells h), ← hread, List.append_nil]
  · intro h
    rw [readIdentifier?] at h
    split at h
    next hhead =>
      cases text with
      | nil => exact absurd hhead (by decide)
      | cons c cs =>
        by_cases hc : c = '"'
        · subst hc
          obtain ⟨t, ht, rfl⟩ := exists_inside h
          exact .quoted ht
        · have hletter : c.isAlpha = true := by simpa [opensIdentifier, hc] using hhead
          rw [readWord_other hc, Option.some.injEq, Prod.mk.injEq, List.dropWhile_eq_nil_iff] at h
          obtain ⟨hname, hword⟩ := h
          rw [List.takeWhile_eq_self_iff.2 hword] at hname
          subst hname
          exact .bare hletter fun d hd => hword d (List.mem_cons_of_mem c hd)
    next => cases h

/-- Whatever follows an identifier, reading takes all of it off. -/
theorem suffix_of_spells {text name rest name' left : List Char} (h : Spells text name)
    (hread : readWord (text ++ rest) = some (name', left)) : left <:+ rest := by
  cases h with
  | bare hletter hword =>
    have hfirst := isWordChar_of_isAlpha hletter
    rw [List.cons_append, readWord_other (ne_quote_of_isWordChar hfirst), Option.some.injEq,
      Prod.mk.injEq, List.dropWhile_cons_of_pos hfirst, List.dropWhile_append_of_pos hword] at hread
    rw [← hread.2]
    exact List.dropWhile_suffix _
  | quoted hinside =>
    have hquoted : readInside (_ ++ ['"'] ++ rest) = some (name', left) := hread
    rw [List.append_assoc, readInside_append hinside, List.singleton_append] at hquoted
    obtain ⟨⟨_, _⟩, hrest, he⟩ := Option.map_eq_some_iff.1 hquoted
    cases he
    obtain ⟨t, -, ht⟩ := exists_inside hrest
    cases t with
    | nil =>
      obtain rfl := (List.cons.inj ht).2
      exact List.suffix_refl _
    | cons _ t =>
      obtain rfl := (List.cons.inj ht).2
      exact ⟨t ++ ['"'], by simp⟩

/-! ## What is written -/

section

variable (i : Identifier)

theorem toList_cql_of_isBare (h : i.isBare = true) : i.cql.toList = i.name.toList := by
  rw [cql, if_pos h]

theorem toList_cql_of_not_isBare (h : ¬ i.isBare = true) :
    i.cql.toList = '"' :: (doubled i.name.toList ++ ['"']) := by
  rw [cql, if_neg h]
  simp

theorem isUpper_iff {c : Char} : c.isUpper = true ↔ 65 ≤ c.toNat ∧ c.toNat ≤ 90 :=
  decide_eq_true_iff

theorem isLower_iff {c : Char} : c.isLower = true ↔ 97 ≤ c.toNat ∧ c.toNat ≤ 122 := by
  change (decide (c.val ≥ 97) && decide (c.val ≤ 122)) = true ↔ _
  rw [Bool.and_eq_true, decide_eq_true_iff, decide_eq_true_iff]
  rfl

theorem isDigit_iff {c : Char} : c.isDigit = true ↔ 48 ≤ c.toNat ∧ c.toNat ≤ 57 := by
  change (decide (c.val ≥ 48) && decide (c.val ≤ 57)) = true ↔ _
  rw [Bool.and_eq_true, decide_eq_true_iff, decide_eq_true_iff]
  rfl

/-- Letters are the capitals and the small letters without accents. -/
theorem isAlpha_iff {c : Char} : c.isAlpha = true ↔ c.isUpper = true ∨ c.isLower = true :=
  Bool.or_eq_true_iff

/-- What is written bare has letters, digits and underscores only. -/
theorem isWordChar_of_isBareChar {c : Char} (h : isBareChar c = true) : isWordChar c = true := by
  simp only [isBareChar, Bool.or_eq_true] at h
  simp only [isWordChar, Char.isAlphanum, isAlpha_iff, Bool.or_eq_true]
  rcases h with (hlower | hdigit) | hunderscore
  · exact .inl (.inl (.inr hlower))
  · exact .inl (.inr hdigit)
  · exact .inr hunderscore

/-- A name with a capital is not written bare. -/
theorem not_isUpper_of_isBareChar {c : Char} (h : isBareChar c = true) : ¬ c.isUpper = true := by
  simp only [isBareChar, Bool.or_eq_true] at h
  rw [isUpper_iff]
  rcases h with (hlower | hdigit) | hunderscore
  · have := isLower_iff.1 hlower
    omega
  · have := isDigit_iff.1 hdigit
    omega
  · obtain rfl := eq_of_beq hunderscore
    decide

theorem toLower_of_not_isUpper {c : Char} (h : ¬ c.isUpper = true) : c.toLower = c :=
  dif_neg fun hc => h (isUpper_iff.2 hc)

/-- A capital becomes the small letter, thirty-two places further on. -/
theorem isLower_toLower_of_isUpper {c : Char} (h : c.isUpper = true) :
    c.toLower.isLower = true := by
  have hc := isUpper_iff.1 h
  have hlower : c.toLower = _ := dif_pos hc
  rw [hlower, isLower_iff]
  have hval : (c.val + 32).toNat = c.toNat + 32 := by
    rw [UInt32.toNat_add]
    exact Nat.mod_eq_of_lt (by have := hc.2; change c.toNat + 32 < _; omega)
  change 97 ≤ (c.val + 32).toNat ∧ (c.val + 32).toNat ≤ 122
  omega

/-- A letter in lower case is a letter. -/
theorem isAlpha_toLower {c : Char} (h : c.isAlpha = true) : c.toLower.isAlpha = true := by
  by_cases hupper : c.isUpper = true
  · exact isAlpha_iff.2 (.inr (isLower_toLower_of_isUpper hupper))
  · rwa [toLower_of_not_isUpper hupper]

/-- A bare name is its own small form. -/
theorem map_toLower_of_isBare (h : i.isBare = true) :
    i.name.toList.map Char.toLower = i.name.toList := by
  have hkept : ∀ c ∈ i.name.toList, c.toLower = c := fun c hc =>
    toLower_of_not_isUpper (not_isUpper_of_isBareChar (List.all_eq_true.1 h c hc))
  exact (List.map_congr_left hkept).trans (List.map_id _)

/-- A written name is read to its end, whatever it begins with. -/
theorem readWord_cql {rest : List Char} (hrest : Delimits rest) :
    readWord (i.cql.toList ++ rest) = some (i.name.toList, rest) := by
  by_cases hbare : i.isBare = true
  · have hword : ∀ d ∈ i.name.toList, isWordChar d = true := fun d hd =>
      isWordChar_of_isBareChar (List.all_eq_true.1 hbare d hd)
    rw [toList_cql_of_isBare i hbare, readWord_append hword hrest, map_toLower_of_isBare i hbare]
  · rw [toList_cql_of_not_isBare i hbare]
    exact readWord_spelled (.quoted (inside_iff.2 rfl)) hrest

theorem exists_cons (hname : i.name ≠ "") : ∃ c cs, i.name.toList = c :: cs :=
  List.exists_cons_of_ne_nil fun he => hname (String.toList_eq_nil_iff.1 he)

/-- Only a bare name may begin with what no identifier begins with. -/
theorem head_cql (hname : i.name ≠ "") (rest : List Char) :
    (i.cql.toList ++ rest).head?.any opensIdentifier = !i.lacksQuotes := by
  rw [lacksQuotes]
  by_cases hbare : i.isBare = true
  · obtain ⟨c, cs, hcs⟩ := i.exists_cons hname
    have hc := List.all_eq_true.1 hbare c (by rw [hcs]; exact List.mem_cons_self ..)
    have hquote := ne_quote_of_isWordChar (isWordChar_of_isBareChar hc)
    simp [toList_cql_of_isBare i hbare, hbare, hcs, opensIdentifier, hquote]
  · rw [toList_cql_of_not_isBare i hbare]
    simp [hbare, opensIdentifier]

/-- A written name is read back, whatever comes behind it that does not go on with it, unless it
lacks quotes. -/
theorem readIdentifier?_cql (hname : i.name ≠ "") {rest : List Char} (hrest : Delimits rest) :
    readIdentifier? (i.cql.toList ++ rest) =
      if i.lacksQuotes then none else some (i.name.toList, rest) := by
  rw [readIdentifier?, head_cql i hname, readWord_cql i hrest]
  cases i.lacksQuotes with
  | false => rfl
  | true => rfl

/-- What is written spells the name and no other one, unless it lacks quotes. -/
theorem spells_cql_iff (hname : i.name ≠ "") {name : List Char} :
    Spells i.cql.toList name ↔ i.lacksQuotes = false ∧ name = i.name.toList := by
  have hread := readIdentifier?_cql i hname delimits_nil
  rw [List.append_nil] at hread
  rw [spells_iff, hread]
  cases i.lacksQuotes with
  | false => simp [eq_comm]
  | true => simp

/-- A name that lacks quotes is spelled with them and in no other way. -/
theorem spells_iff_of_lacksQuotes (h : i.lacksQuotes = true) {text : List Char} :
    Spells text i.name.toList ↔ text = '"' :: (doubled i.name.toList ++ ['"']) := by
  constructor
  · intro hspells
    generalize hname : i.name.toList = name at hspells
    cases hspells with
    | bare hletter =>
      -- the name of a bare identifier begins with a letter, as the identifier does
      simp [lacksQuotes, hname, isAlpha_toLower hletter] at h
    | quoted hinside => rw [inside_iff.1 hinside]
  · rintro rfl
    exact .quoted (inside_iff.2 rfl)

end

/-- What a name is written as is an identifier exactly if it does not lack quotes, and then it
spells the name and nothing else. Reading takes it off with the name and leaves what follows, as
long as that does not go on with it, and it never leaves more than what follows. Where quotes are
lacking, nothing is read, and the name is spelled between quotes only. Different names are never
written alike, nor is one of them with what follows it written as another one with what follows
that. -/
theorem cql_self_delimiting (i : Identifier) (hname : i.name ≠ "") :
    (∀ name, Spells i.cql.toList name ↔ i.lacksQuotes = false ∧ name = i.name.toList) ∧
    (∀ rest, Delimits rest → readIdentifier? (i.cql.toList ++ rest) =
      if i.lacksQuotes then none else some (i.name.toList, rest)) ∧
    (∀ rest name left, readIdentifier? (i.cql.toList ++ rest) = some (name, left) →
      left <:+ rest) ∧
    (i.lacksQuotes = true → ∀ text, Spells text i.name.toList ↔
      text = '"' :: (doubled i.name.toList ++ ['"'])) ∧
    (∀ j : Identifier, i.cql = j.cql → i = j) ∧
    ∀ (j : Identifier) rest rest', Delimits rest → Delimits rest' →
      i.cql.toList ++ rest = j.cql.toList ++ rest' → i = j ∧ rest = rest' := by
  refine ⟨fun name => i.spells_cql_iff hname, fun rest hrest => i.readIdentifier?_cql hname hrest,
    fun rest name left hread => ?_, fun hlacks text => i.spells_iff_of_lacksQuotes hlacks,
    fun j h => cql_injective h, fun j rest rest' hrest hrest' htext => ?_⟩
  · rw [readIdentifier?, i.head_cql hname] at hread
    split at hread
    next hquotes =>
      have hspells := (i.spells_cql_iff hname).2 ⟨by simpa using hquotes, rfl⟩
      exact suffix_of_spells hspells hread
    next => cases hread
  · have hread := i.readWord_cql hrest
    rw [htext, j.readWord_cql hrest', Option.some.injEq, Prod.mk.injEq, String.toList_inj] at hread
    exact ⟨congrArg Identifier.mk hread.1.symm, hread.2.symm⟩

/-- A name with a quote, a blank and letters of other scripts, in front of the next one; and a name
that begins with a digit. -/
theorem ordinal_not_read :
    readIdentifier? ("\"né \"\"Ä\"\"\", x FROM t").toList =
      some ("né \"Ä\"".toList, ", x FROM t".toList) ∧
    readIdentifier? "1st FROM t".toList = none ∧
    ∀ text, Spells text "1st".toList ↔ text = "\"1st\"".toList := by
  obtain ⟨-, hread, -⟩ := cql_self_delimiting ⟨"né \"Ä\""⟩ (by decide)
  obtain ⟨-, hread', -, honly, -⟩ := cql_self_delimiting ⟨"1st"⟩ (by decide)
  refine ⟨hread ", x FROM t".toList fun c hc => ?_, hread' " FROM t".toList fun c hc => ?_,
    honly rfl⟩
  · obtain rfl : ',' = c := Option.some.inj hc
    decide
  · obtain rfl : ' ' = c := Option.some.inj hc
    decide

end WideRow.Identifier
