import WideRow.Schema.Mapping

/-!
# Customers

The table that the demonstration works on, its definition, and one sample customer for every
number.
-/

namespace WideRow

/-- A customer. -/
structure Customer where
  id : Uuid
  email : String
  name : String
  tier : Int32
  deriving DecidableEq

namespace Customer

/-- The table of customers. -/
def entity : Entity :=
  Entity.declare "Customer" "Customer" "customers"
    |>.cacheable true
    |>.partitionKey "id"
    |>.column "email" |>.unique |>.indexed
    |>.column "name"
    |>.column "tier"

/-- The identifier of a customer. -/
def idGetter : Getter .uuid := ⟨entity, "id"⟩

/-- The email address of a customer. -/
def emailGetter : Getter .text := ⟨entity, "email"⟩

/-- The name of a customer. -/
def nameGetter : Getter .text := ⟨entity, "name"⟩

/-- The tier of a customer. -/
def tierGetter : Getter .int := ⟨entity, "tier"⟩

/-- Customers as rows. -/
def mapping : Mapping Customer where
  entity := entity
  ofRow r := do
    let id ← r.getProperty entity "id" .uuid
    let email ← r.getProperty entity "email" .text
    let name ← r.getProperty entity "name" .text
    let tier ← r.getProperty entity "tier" .int
    return ⟨id, email, name, tier⟩
  cells c :=
    [("id", some (.uuid c.id)), ("email", some (.text c.email)),
      ("name", some (.text c.name)), ("tier", some (.int c.tier))]

/-- What the identifiers of all sample customers begin with. -/
def sampleBase : BitVec 128 := 0x00c0ffee#128 <<< 96

/-- The sample customer of a number. -/
def sample (n : UInt32) : Customer where
  id := ⟨sampleBase ||| BitVec.ofNat 128 n.toNat⟩
  email := "customer" ++ toString n.toNat ++ "@example.com"
  name := "Customer " ++ toString n.toNat
  tier := Int32.ofNat (n.toNat % 3)

/-- The statements that create the table in a keyspace, the keyspace first. -/
def schema (keyspace : String) (replicationFactor : UInt32) : List String :=
  ["CREATE KEYSPACE IF NOT EXISTS " ++ keyspace ++ " WITH replication = \x7b" ++
      "'class': 'SimpleStrategy', 'replication_factor': " ++
      toString replicationFactor.toNat ++ "\x7d",
    "CREATE TABLE IF NOT EXISTS " ++ keyspace ++
      ".customers (id uuid PRIMARY KEY, email text, name text, tier int)",
    "CREATE INDEX IF NOT EXISTS ON " ++ keyspace ++ ".customers (email)"]

end Customer

end WideRow
