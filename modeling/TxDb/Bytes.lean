import Mathlib.Tactic

/-!
# Byte strings and the engine's key order

Keys and values of the ordered key-value engine behind `CDBWrapper` are byte
strings.  The engine orders keys with leveldb's bytewise comparator: the first
differing byte decides, compared as unsigned, and a proper prefix comes first.
Every iteration argument of the coin table, the loaded-coin table and the legacy
upgrade rests on this order being a strict total order, proved here once.
-/

namespace TxDb

/-- A byte string, as held in a `CDataStream` or a leveldb slice. -/
abbrev Bytes := List UInt8

/-- leveldb's `BytewiseComparator`, as a strict order on keys. -/
def keyLt : Bytes → Bytes → Bool
  | [], [] => false
  | [], _ :: _ => true
  | _ :: _, [] => false
  | a :: as, b :: bs => a < b || (a = b && keyLt as bs)

@[simp] theorem keyLt_nil_left (b : Bytes) : keyLt [] b = !b.isEmpty := by
  cases b <;> rfl

@[simp] theorem keyLt_nil_right (a : Bytes) : keyLt a [] = false := by
  cases a <;> rfl

@[simp] theorem keyLt_cons_cons (a b : UInt8) (as bs : Bytes) :
    keyLt (a :: as) (b :: bs) = (a < b || (a = b && keyLt as bs)) := rfl

private theorem byte_eq_of_not_lt {a b : UInt8} (hab : ¬a < b) (hba : ¬b < a) :
    a = b := by
  rw [UInt8.not_lt] at hab hba
  exact UInt8.eq_of_toBitVec_eq (BitVec.le_antisymm hba hab)

theorem keyLt_irrefl (a : Bytes) : keyLt a a = false := by
  induction a with
  | nil => rfl
  | cons x xs ih => simp [ih]

theorem keyLt_trans {a b c : Bytes} (hab : keyLt a b) (hbc : keyLt b c) :
    keyLt a c := by
  induction a generalizing b c with
  | nil => cases b <;> cases c <;> simp_all
  | cons x xs ih =>
      cases b with
      | nil => simp at hab
      | cons y ys =>
          cases c with
          | nil => simp at hbc
          | cons z zs =>
              simp only [keyLt_cons_cons, Bool.or_eq_true, decide_eq_true_eq,
                Bool.and_eq_true] at hab hbc ⊢
              rcases hab with hxy | ⟨rfl, hxy⟩ <;> rcases hbc with hyz | ⟨rfl, hyz⟩
              · exact .inl (UInt8.lt_trans hxy hyz)
              · exact .inl hxy
              · exact .inl hyz
              · exact .inr ⟨rfl, ih hxy hyz⟩

theorem keyLt_asymm {a b : Bytes} (hab : keyLt a b) : keyLt b a = false := by
  cases hba : keyLt b a
  · rfl
  · have := keyLt_trans hab hba
    rw [keyLt_irrefl] at this
    exact absurd this (by decide)

theorem keyLt_trichotomy (a b : Bytes) : keyLt a b ∨ a = b ∨ keyLt b a := by
  induction a generalizing b with
  | nil => cases b <;> simp
  | cons x xs ih =>
      cases b with
      | nil => simp
      | cons y ys =>
          simp only [keyLt_cons_cons, Bool.or_eq_true, decide_eq_true_eq,
            Bool.and_eq_true, List.cons.injEq]
          by_cases hxy : x < y
          · exact .inl (.inl hxy)
          by_cases hyx : y < x
          · exact .inr (.inr (.inl hyx))
          obtain rfl := byte_eq_of_not_lt hxy hyx
          rcases ih ys with h | rfl | h
          · exact .inl (.inr ⟨rfl, h⟩)
          · exact .inr (.inl ⟨rfl, rfl⟩)
          · exact .inr (.inr (.inr ⟨rfl, h⟩))

theorem keyLt_ne {a b : Bytes} (hab : keyLt a b) : a ≠ b := by
  rintro rfl
  simp [keyLt_irrefl] at hab

theorem keyLt_append {a : Bytes} {b : Bytes} (hb : b ≠ []) : keyLt a (a ++ b) := by
  induction a with
  | nil => cases b <;> simp_all
  | cons x xs ih => simp [ih]

theorem keyLt_cons_of_lt {x y : UInt8} (as bs : Bytes) (hxy : x < y) :
    keyLt (x :: as) (y :: bs) := by
  simp [hxy]

theorem keyLt_replicate_zero : ∀ (a : Bytes) {n : Nat}, n ≤ a.length →
    keyLt a (List.replicate n 0) = false
  | [], 0, _ | _ :: _, 0, _ => by simp
  | x :: as, n + 1, h => by
      have : ¬x < 0 := fun hx => Nat.not_lt_zero _ hx
      simp [List.replicate_succ, this, keyLt_replicate_zero as (n := n) (by simpa using h)]

theorem keyLt_head_le {x : UInt8} {as b : Bytes} (h : keyLt (x :: as) b) :
    ∃ y bs, b = y :: bs ∧ x.toNat ≤ y.toNat := by
  cases b with
  | nil => simp at h
  | cons y bs =>
      refine ⟨y, bs, rfl, ?_⟩
      simp only [keyLt_cons_cons, Bool.or_eq_true, decide_eq_true_eq, Bool.and_eq_true] at h
      rcases h with h | ⟨rfl, -⟩
      · exact Nat.le_of_lt h
      · exact Nat.le_refl _

/-! ## `uint256` -/

/-- `uint256`: 32 bytes, serialized as stored. -/
@[ext] structure Uint256 where
  data : Bytes
  size_eq : data.length = 32
  deriving DecidableEq

namespace Uint256

/-- The value of a default-constructed `uint256`. -/
def zero : Uint256 := ⟨List.replicate 32 0, by simp⟩

/-- `uint256::IsNull`: every byte is zero. -/
def IsNull (h : Uint256) : Bool := h.data.all (· == 0)

theorem isNull_iff_eq_zero (h : Uint256) : h.IsNull ↔ h = zero := by
  obtain ⟨data, hsize⟩ := h
  simp only [IsNull, List.all_eq_true, beq_iff_eq, zero, mk.injEq]
  constructor
  · intro hall
    exact List.eq_replicate_iff.mpr ⟨hsize, hall⟩
  · rintro rfl x hx
    exact List.eq_of_mem_replicate hx

@[simp] theorem isNull_zero : zero.IsNull := (isNull_iff_eq_zero zero).mpr rfl

end Uint256

end TxDb
