import WideRow.Session

/-!
# Scripted answers

An executor that answers statements with responses prepared beforehand, first come first
served, and keeps what it was sent. Without a prepared response it answers with no rows.
-/

namespace WideRow

/-- Responses that are still to be given, and the statements that were sent. -/
structure Script where
  responses : List (Except Error ResultSet) := []
  executed : List (Statement × ExecutionOptions) := []

namespace Script

/-- Prepares one more response. -/
def push (s : Script) (response : Except Error ResultSet) : Script :=
  { s with responses := s.responses ++ [response] }

/-- The response of a conditional write. -/
def applied (b : Bool) : ResultSet :=
  .ofCells [ResultSet.appliedColumn] [[some (.boolean b)]]

/-- Answers a statement. -/
def answer (st : Statement) (o : ExecutionOptions) (s : Script) :
    Except Error ResultSet × Script :=
  let executed := s.executed ++ [(st, o)]
  match s.responses with
  | [] => (.ok .empty, { s with executed })
  | r :: rest => (r, { responses := rest, executed })

/-- The executor that follows a script. -/
def executor : Executor Script := ⟨answer⟩

end Script

end WideRow
