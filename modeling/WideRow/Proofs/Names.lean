import WideRow.Schema.Entity

/-!
# Reading a name back

A statement carries names as they are written in it. `Identifier.read` takes the quotes off
again: a text that begins with a quote loses the outer two and half of those inside, any other
text is the name itself. A bare name has no quote, so nothing is mistaken for one:

> `read_cql`: what is written reads back as the name.

Two columns are thus written alike only if they have the same name (`cql_injective`).
-/

namespace WideRow.Identifier

/-- A text with every pair of double quotes written once. -/
def undoubled : List Char → List Char
  | '"' :: '"' :: cs => '"' :: undoubled cs
  | c :: cs => c :: undoubled cs
  | [] => []

/-- The name that a text stands for. -/
def read (text : String) : String :=
  match text.toList with
  | '"' :: cs => String.ofList (undoubled cs.dropLast)
  | _ => text

/-- Quotes that were doubled can be made single again. -/
theorem undoubled_doubled (cs : List Char) : undoubled (doubled cs) = cs := by
  induction cs with
  | nil => rfl
  | cons c cs ih =>
    unfold doubled
    by_cases hc : c = '"'
    · rw [if_pos hc, undoubled, ih, hc]
    · rw [if_neg hc, undoubled, ih]
      exact fun _ he _ => hc he

/-- Between quotes, a name is read back as it is. -/
theorem read_quoted (cs : List Char) : read ("\"" ++ String.ofList (doubled cs) ++ "\"") =
    String.ofList cs := by
  have hlist : ("\"" ++ String.ofList (doubled cs) ++ "\"").toList =
      '"' :: (doubled cs ++ ['"']) := by simp
  rw [read, hlist]
  show String.ofList (undoubled (doubled cs ++ ['"']).dropLast) = _
  rw [List.dropLast_concat, undoubled_doubled]

/-- What is written reads back as the name. -/
theorem read_cql (i : Identifier) : read i.cql = i.name := by
  unfold cql
  by_cases hbare : i.isBare = true
  · rw [if_pos hbare, read]
    split
    next cs hcs =>
      -- a bare name does not begin with a quote
      have hquote := List.all_eq_true.1 hbare '"' (by rw [hcs]; exact List.mem_cons_self ..)
      exact absurd hquote (by decide)
    next => rfl
  · rw [if_neg hbare, read_quoted, String.ofList_toList]

/-- Different names are written differently. -/
theorem cql_injective {i j : Identifier} (h : i.cql = j.cql) : i = j := by
  have hname : i.name = j.name := by rw [← read_cql, ← read_cql, h]
  exact congrArg Identifier.mk hname

end WideRow.Identifier
