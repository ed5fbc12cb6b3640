import WideRow.Schema.Mapping

/-!
# Sample entities

Three entities to try the library on: users, whose name is kept in a column of another name;
accounts, which are also found by their unique email address; and posts, which are never cached
and whose rows have an order.
-/

namespace WideRow

/-- A user. -/
structure User where
  id : Int32
  name : String
  age : Int32
  deriving DecidableEq

/-- The table of users. -/
def User.entity : Entity :=
  Entity.declare "User" "User" "simple_users"
    |>.cacheable true
    |>.partitionKey "id"
    |>.column "name" |>.withColumnName "override_name"
    |>.column "age"

/-- Users as rows. -/
def User.mapping : Mapping User where
  entity := User.entity
  ofRow r := do
    let id ← r.getProperty User.entity "id" .int
    let name ← r.getProperty User.entity "name" .text
    let age ← r.getProperty User.entity "age" .int
    return ⟨id, name, age⟩
  cells u := [("id", some (.int u.id)), ("name", some (.text u.name)), ("age", some (.int u.age))]

/-- An account. -/
structure Account where
  id : Uuid
  email : String
  balance : Int32
  tags : List String
  deriving DecidableEq

/-- The table of accounts. -/
def Account.entity : Entity :=
  Entity.declare "Account" "Account" "accounts"
    |>.cacheable true
    |>.partitionKey "id"
    |>.column "email" |>.unique |>.indexed
    |>.column "balance"
    |>.column "tags"

/-- Accounts as rows. -/
def Account.mapping : Mapping Account where
  entity := Account.entity
  ofRow r := do
    let id ← r.getProperty Account.entity "id" .uuid
    let email ← r.getProperty Account.entity "email" .text
    let balance ← r.getProperty Account.entity "balance" .int
    let tags ← r.getProperty Account.entity "tags" (.list .text)
    return ⟨id, email, balance, tags⟩
  cells a :=
    [("id", some (.uuid a.id)), ("email", some (.text a.email)),
      ("balance", some (.int a.balance)), ("tags", some (.list (a.tags.map .text)))]

/-- A post. -/
structure Post where
  author : Int32
  postedAt : Int64
  body : String
  deriving DecidableEq

/-- The table of posts. -/
def Post.entity : Entity :=
  Entity.declare "Post" "Post" "posts"
    |>.partitionKey "author"
    |>.clusteringColumn "posted_at" .descending
    |>.column "body" |>.caseSensitiveIndex

/-- Posts as rows. -/
def Post.mapping : Mapping Post where
  entity := Post.entity
  ofRow r := do
    let author ← r.getProperty Post.entity "author" .int
    let postedAt ← r.getProperty Post.entity "posted_at" .bigint
    let body ← r.getProperty Post.entity "body" .text
    return ⟨author, postedAt, body⟩
  cells p :=
    [("author", some (.int p.author)), ("posted_at", some (.bigint p.postedAt)),
      ("body", some (.text p.body))]

end WideRow
