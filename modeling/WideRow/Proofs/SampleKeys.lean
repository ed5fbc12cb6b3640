import WideRow.Demo.Customer
import WideRow.Operation.RowInsert
import WideRow.Proofs.UniqueFacets

/-!
# The rows and keys of customers

A customer is one row, which is found by the identifier and by the email address: each of the two
binds a cache key (`Customer.keys`). The sample customers of different numbers share no key, because
a number can be read off both of them. So no sample customer takes the place of another in a cache:

> `Customer.sample_of_mem_keys`: two sample customers with a common key have the same number.
-/

namespace WideRow.Customer

/-- The column of the identifier. -/
def idNode : Node := ⟨entity, ⟨0, by decide⟩⟩

/-- The column of the email address. -/
def emailNode : Node := ⟨entity, ⟨1, by decide⟩⟩

section

variable (c : Customer)

/-- A customer as a row. -/
def row : Row :=
  .ofPairs [("id", some (.uuid c.id)), ("email", some (.text c.email)),
    ("name", some (.text c.name)), ("tier", some (.int c.tier))]

/-- The cache keys of a customer. -/
def keys : List String :=
  [entity.keyOf idNode (.uuid c.id), entity.keyOf emailNode (.text c.email)]

/-- A customer is filed by number and by address. -/
theorem mem_keys {c : Customer} {key : String} : key ∈ c.keys ↔
    key = entity.keyOf idNode (.uuid c.id) ∨ key = entity.keyOf emailNode (.text c.email) := by
  simp [keys]

theorem isFull_row : c.row.IsFull := rfl

end

/-! ## Sample customers -/

/-- The number of a sample customer is the end of its identifier. -/
theorem id_sample_injective {m n : UInt32} (h : (sample m).id = (sample n).id) : m = n := by
  have hbits : sampleBase ||| BitVec.ofNat 128 m.toNat = sampleBase ||| BitVec.ofNat 128 n.toNat :=
    congrArg Uuid.bits h
  have hend : ∀ k : UInt32,
      (sampleBase ||| BitVec.ofNat 128 k.toNat).setWidth 32 = BitVec.ofNat 32 k.toNat := by
    intro k
    have hbase : sampleBase.setWidth 32 = 0#32 := by decide
    rw [BitVec.setWidth_or, hbase, BitVec.zero_or, BitVec.setWidth_ofNat_of_le (by decide)]
  have hnumbers := congrArg (fun bits => (BitVec.setWidth 32 bits).toNat) hbits
  simp only [hend, BitVec.toNat_ofNat, Nat.mod_eq_of_lt (UInt32.toNat_lt _)] at hnumbers
  exact UInt32.toNat_inj.1 hnumbers

/-- Sample customers have different addresses, as they have their numbers in them. -/
theorem email_sample_injective {m n : UInt32} (h : (sample m).email = (sample n).email) :
    m = n := by
  have htext : toString m.toNat = toString n.toNat := by
    simpa only [sample, String.append_left_inj, String.append_right_inj] using h
  exact UInt32.toNat_inj.1 (Nat.repr_injective htext)

/-- A key is of one sample customer only. -/
theorem sample_of_mem_keys {m n : UInt32} {key : String} (hm : key ∈ (sample m).keys)
    (hn : key ∈ (sample n).keys) : m = n := by
  have hapart : entity.KeysApart (fun _ _ => True) [idNode, emailNode] :=
    Entity.keysApart_of_names (by decide) _
  -- a key tells its column, and the text of the value
  rcases mem_keys.1 hm with rfl | rfl <;> rcases mem_keys.1 hn with hkey | hkey
  · have hvalue : Value.uuid (sample m).id = .uuid (sample n).id :=
      ScalarKind.display_injective (k := .uuid) rfl rfl (Entity.display_of_keyOf hkey)
    exact id_sample_injective (Value.uuid.inj hvalue)
  · exact absurd (hapart idNode (by simp) emailNode (by simp) _ _ trivial trivial hkey) (by decide)
  · exact absurd (hapart emailNode (by simp) idNode (by simp) _ _ trivial trivial hkey) (by decide)
  · have hvalue : Value.text (sample m).email = .text (sample n).email :=
      ScalarKind.display_injective (k := .text) rfl rfl (Entity.display_of_keyOf hkey)
    exact email_sample_injective (Value.text.inj hvalue)

end WideRow.Customer
