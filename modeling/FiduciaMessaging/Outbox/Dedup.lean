import FiduciaMessaging.Outbox.Statements
import FiduciaMessaging.Outbox.Relay
import FiduciaMessaging.Foundations.PrefixCode
import Mathlib.Data.Set.Function

/-! The deduplication id against the business key. The preimage is a self-delimiting code
of tenant and key, so the id separates every pair of namespaces and keys. -/
namespace FiduciaMessaging

open PrefixCode

theorem bigEndian_length (width n : Nat) : (bigEndian width n).length = width := by
  simp [bigEndian]

theorem eq_of_digits {width n m : Nat} (left : n < 256 ^ width) (right : m < 256 ^ width)
    (digits : ∀ j < width, n / 256 ^ j % 256 = m / 256 ^ j % 256) : n = m := by
  induction width generalizing n m with
  | zero => simp_all
  | succ width ih =>
    rw [Nat.pow_succ] at left right
    have low : n % 256 = m % 256 := by simpa using digits 0 (Nat.zero_lt_succ width)
    have high : n / 256 = m / 256 := by
      apply ih
      · exact Nat.div_lt_of_lt_mul (by rwa [Nat.mul_comm] at left)
      · exact Nat.div_lt_of_lt_mul (by rwa [Nat.mul_comm] at right)
      · intro j below
        have digit := digits (j + 1) (Nat.succ_lt_succ below)
        rwa [Nat.pow_succ, Nat.mul_comm, ← Nat.div_div_eq_div_mul,
          ← Nat.div_div_eq_div_mul] at digit
    omega

theorem bigEndian_injective {width n m : Nat} (left : n < 256 ^ width) (right : m < 256 ^ width)
    (same : bigEndian width n = bigEndian width m) : n = m := by
  apply eq_of_digits left right
  intro j below
  have digit := congrArg (fun bytes => bytes[width - 1 - j]?) same
  have index : width - 1 - j < width := by omega
  have back : width - 1 - (width - 1 - j) = j := by omega
  simp only [bigEndian, List.getElem?_map, List.getElem?_range index, back, Option.map_some,
    Option.some.injEq] at digit
  exact congrArg UInt8.toNat digit

theorem bigEndian_delimited (width : Nat) :
    SelfDelimiting (· < 256 ^ width) (bigEndian width) :=
  fixedWidth width (fun n _ => bigEndian_length width n)
    (fun _ _ left right same => bigEndian_injective left right same)

/- What a string of the source satisfies where lengths are 64 bits wide. -/
def Sized (text : String) : Prop := text.toUTF8.data.toList.length < 2 ^ 64

instance (text : String) : Decidable (Sized text) :=
  inferInstanceAs (Decidable (text.toUTF8.data.toList.length < 2 ^ 64))

def keyBytes (key : String) : List UInt8 :=
  bigEndian 8 key.toUTF8.data.toList.length ++ key.toUTF8.data.toList

theorem utf8_injective (k l : String) (same : k.toUTF8.data.toList = l.toUTF8.data.toList) :
    k = l := by
  apply String.toByteArray_inj.mp
  exact ByteArray.ext (Array.toList_inj.mp same)

theorem keyBytes_delimited : SelfDelimiting Sized keyBytes := by
  have text := lengthPrefixed (bigEndian_delimited 8)
  exact text.comap (fun key : String => key.toUTF8.data.toList) (fun _ short => short)
    utf8_injective

def header : List UInt8 := "fiducia-messaging:nats-dedup:v1".toUTF8.data.toList ++ [0]

def scopeBytes : Option Uuid → List UInt8
  | some tenant => ("tenant".toUTF8.data.toList ++ [0]) ++ bigEndian 16 tenant.toNat
  | none => "global".toUTF8.data.toList ++ [0]

theorem scopeBytes_delimited : SelfDelimiting (fun _ => True) scopeBytes := by
  have tenants : SelfDelimiting (fun _ : Uuid => True) (fun tenant => bigEndian 16 tenant.toNat) :=
    (bigEndian_delimited 16).comap BitVec.toNat (fun tenant _ => tenant.isLt)
      (fun _ _ same => BitVec.eq_of_toNat_eq same)
  have tagged := tenants.option ("global".toUTF8.data.toList ++ [0])
    ("tenant".toUTF8.data.toList ++ [0]) (by decide) (by decide)
  intro a b s t _ _ same
  apply tagged a b s t (fun _ _ => trivial) (fun _ _ => trivial)
  cases a <;> cases b <;> exact same

theorem dedupPreimage_eq (tenantId : Option Uuid) (key : String) :
    dedupPreimage tenantId key = header ++ (scopeBytes tenantId ++ keyBytes key) := by
  cases tenantId <;> simp [dedupPreimage, header, scopeBytes, keyBytes]

theorem dedupPreimage_delimited : SelfDelimiting (fun p : Option Uuid × String => Sized p.2)
    (fun p => dedupPreimage p.1 p.2) := by
  have code := (scopeBytes_delimited.pair keyBytes_delimited).prepend header
  intro p q s t left right same
  apply code p q s t ⟨trivial, left⟩ ⟨trivial, right⟩
  change dedupPreimage p.1 p.2 ++ s = dedupPreimage q.1 q.2 ++ t at same
  rwa [dedupPreimage_eq, dedupPreimage_eq] at same

theorem hexByte_delimited : SelfDelimiting (fun _ => True) hexByte := by
  have digits : ∀ m < 16, ∀ n < 16, Nat.digitChar m = Nat.digitChar n → m = n := by decide
  apply fixedWidth 2
  · intro _ _
    rfl
  · intro a b _ _ same
    obtain ⟨high, rest⟩ := List.cons.inj same
    obtain ⟨low, _⟩ := List.cons.inj rest
    have above := digits _ (by have := a.toNat_lt; omega) _ (by have := b.toNat_lt; omega) high
    have below := digits _ (Nat.mod_lt _ (by decide)) _ (Nat.mod_lt _ (by decide)) low
    apply UInt8.toNat_inj.mp
    omega

/- The partial unique indexes on the business key. -/

/-- `message_outbox_tenant_idempotency_uq`, on the rows of a tenant. -/
def Staged.sameTenantKey (a b : Staged) : Bool :=
  a.tenantId.isSome && b.tenantId.isSome && a.tenantId == b.tenantId &&
    a.idempotencyKey == b.idempotencyKey

/-- `message_outbox_global_idempotency_uq`, on the rows of no tenant. -/
def Staged.sameGlobalKey (a b : Staged) : Bool :=
  a.tenantId.isNone && b.tenantId.isNone && a.idempotencyKey == b.idempotencyKey

theorem sameKey_iff {a b : Staged} : (a.sameTenantKey b || a.sameGlobalKey b) = true ↔
    a.tenantId = b.tenantId ∧ a.idempotencyKey = b.idempotencyKey := by
  cases left : a.tenantId with
  | none =>
    cases right : b.tenantId <;> simp [Staged.sameTenantKey, Staged.sameGlobalKey, left, right]
  | some t =>
    cases right : b.tenantId <;> simp [Staged.sameTenantKey, Staged.sameGlobalKey, left, right]

theorem conflicts_eq (a b : Staged) : a.conflicts b =
    (a.id == b.id || a.dedupId == b.dedupId || (a.sameTenantKey b || a.sameGlobalKey b)) := by
  apply Bool.eq_iff_iff.mpr
  rw [Bool.or_eq_true, sameKey_iff]
  simp [Staged.conflicts, or_assoc]

section Ids

variable [External]

/-- The id is injective in the digest. -/
theorem digest_of_dedupId {t u : Option Uuid} {k l : String}
    (same : tenantScopedDedupId t k = tenantScopedDedupId u l) :
    External.sha256 (dedupPreimage t k) = External.sha256 (dedupPreimage u l) := by
  have texts := List.append_cancel_left (String.ofList_injective same)
  exact hexByte_delimited.flatMap (fun _ => by simp [hexByte]) texts

/-- Preimages and ids separate all namespaces and keys, and on records that come out of the
constructors the two uniqueness rules of the table forbid the same pairs. -/
theorem dedup_ids_separate :
    (∀ t u k l, Sized k → Sized l →
      (dedupPreimage t k = dedupPreimage u l → t = u ∧ k = l) ∧
      (dedupPreimage t k <+: dedupPreimage u l → dedupPreimage t k = dedupPreimage u l) ∧
      (Set.InjOn External.sha256 {dedupPreimage t k, dedupPreimage u l} →
        (tenantScopedDedupId t k = tenantScopedDedupId u l ↔ (t, k) = (u, l)))) ∧
    ∀ records : Set OutboxRecord, (∀ r ∈ records, r.Built ∧ Sized r.idempotencyKey) →
      Set.InjOn External.sha256
        ((fun r : OutboxRecord => dedupPreimage r.tenantId r.idempotencyKey) '' records) →
      ∀ a ∈ records, ∀ b ∈ records, a.dedupId = b.dedupId ↔
        a.toStaged.sameTenantKey b.toStaged = true ∨
          a.toStaged.sameGlobalKey b.toStaged = true := by
  have separate {t u : Option Uuid} {k l : String} (left : Sized k) (right : Sized l)
      (same : dedupPreimage t k = dedupPreimage u l) : t = u ∧ k = l :=
    Prod.mk.inj (dedupPreimage_delimited.injective (a := (t, k)) (b := (u, l)) left right same)
  constructor
  · intro t u k l left right
    refine ⟨separate left right, ?_, ?_⟩
    · intro begins
      obtain ⟨rfl, rfl⟩ := Prod.mk.inj
        (dedupPreimage_delimited.prefix_free (a := (t, k)) (b := (u, l)) left right begins)
      rfl
    · intro collisionFree
      constructor
      · intro same
        have preimages := collisionFree (Set.mem_insert _ _)
          (Set.mem_insert_of_mem _ (Set.mem_singleton _)) (digest_of_dedupId same)
        obtain ⟨rfl, rfl⟩ := separate left right preimages
        rfl
      · intro same
        obtain ⟨rfl, rfl⟩ := Prod.mk.inj same
        rfl
  · intro records built collisionFree a inside b inside'
    have idOf {r : OutboxRecord} (made : r.Built) :
        r.dedupId = tenantScopedDedupId r.tenantId r.idempotencyKey := by
      rw [made.pendingForTenant_form]
      rfl
    obtain ⟨madeA, shortA⟩ := built a inside
    obtain ⟨madeB, shortB⟩ := built b inside'
    rw [← Bool.or_eq_true, sameKey_iff, idOf madeA, idOf madeB]
    constructor
    · intro same
      have preimages := collisionFree (Set.mem_image_of_mem _ inside)
        (Set.mem_image_of_mem _ inside') (digest_of_dedupId same)
      exact separate shortA shortB preimages
    · rintro ⟨tenant, key⟩
      rw [tenant, key]

end Ids

section Sample

attribute [local instance] Sample.external

open Sample

theorem dedup_ids_separate_orders :
    (tenantScopedDedupId none "order-1" = tenantScopedDedupId none "order-2" ↔
      ((none : Option Uuid), "order-1") = (none, "order-2")) ∧
    (order1.dedupId = order2.dedupId ↔ order1.toStaged.sameTenantKey order2.toStaged = true ∨
      order1.toStaged.sameGlobalKey order2.toStaged = true) := by
  have short1 : Sized "order-1" := by decide
  have short2 : Sized "order-2" := by decide
  have apart : External.sha256 (dedupPreimage none "order-1") ≠
      External.sha256 (dedupPreimage none "order-2") := by decide
  have free : Set.InjOn External.sha256
      {dedupPreimage none "order-1", dedupPreimage none "order-2"} := by
    rintro x (rfl | rfl) y (rfl | rfl) same
    · rfl
    · exact absurd same apart
    · exact absurd same.symm apart
    · rfl
  have built : ∀ r ∈ ({order1, order2} : Set OutboxRecord), r.Built ∧
      Sized r.idempotencyKey := by
    rintro r (rfl | rfl)
    · exact ⟨.pending _ _ _ _ _, short1⟩
    · exact ⟨.pending _ _ _ _ _, short2⟩
  refine ⟨(dedup_ids_separate.1 none none _ _ short1 short2).2.2 free,
    dedup_ids_separate.2 {order1, order2} built ?_ _ (Set.mem_insert _ _) _
      (Set.mem_insert_of_mem _ (Set.mem_singleton _))⟩
  rw [Set.image_pair]
  exact free

end Sample

end FiduciaMessaging
