import WideRow.Schema.Mapping

/-!
# A change of values to try out

A change made to values before they are bound that is easy to see in statements and in the
caches.
-/

namespace WideRow

/-- Puts the property's name before texts and adds a thousand to integers, which wrap. -/
def ValuePreparer.tagging : ValuePreparer := fun n v =>
  match v with
  | .text s => .text (n.property.name ++ ":" ++ s)
  | .int x => .int (x + 1000)
  | v => v

end WideRow
