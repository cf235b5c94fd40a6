import TxDb.UpgradeComplete
import TxDb.BlockTreeStore

/-!
# Resuming a stopped migration

A run after a stopped one finds the remaining legacy records in order
(`legacyRecords_applyOps_take`), and ends as one run from the start (`upgrade_resume`).
-/

namespace TxDb
namespace CCoinsViewDB

open CBlockTreeDB (lookup_filter_head)

variable {ext : Externals}

theorem convertedOps_append (ext : Externals) :
    ∀ recs recs' : List (Bytes × Bytes), convertedOps ext (recs ++ recs') =
      (convertedOps ext recs).bind fun ops => (convertedOps ext recs').map (ops ++ ·)
  | [], recs' => by simp [convertedOps]
  | (k, v) :: recs, recs' => by
      rw [List.cons_append, convertedOps, convertedOps, convertedOps_append ext recs recs']
      cases legacyKey? k <;> cases CCoins.unserialize ext v <;> cases convertedOps ext recs <;>
        simp [Function.comp_def]

theorem lookup_drop : ∀ {l : List (Bytes × Bytes)}, KeySorted l → ∀ (j : Nat) (k : Bytes),
    Db.lookup k (l.drop j) = if k ∈ (l.take j).map Prod.fst then none else Db.lookup k l
  | [], _, j, k => by simp [Db.lookup]
  | _ :: _, _, 0, k => by simp
  | (k', v) :: l, hl, j + 1, k => by
      obtain ⟨habove, hl⟩ := List.pairwise_cons.mp hl
      rw [List.drop_succ_cons, lookup_drop hl j k, List.take_succ_cons, List.map_cons, Db.lookup]
      by_cases hk : k' = k
      · subst hk
        simp [Db.lookup_eq_none fun e he => (keyLt_ne (habove e he)).symm]
      · simp [hk, Ne.symm hk]

theorem legacyRecords_sorted (S : Db) : KeySorted (legacyRecords S) :=
  S.sorted.sublist (List.filter_sublist _)

theorem lookup_legacyRecords (S : Db) (k : Bytes) :
    Db.lookup k (legacyRecords S) = if k.head? = some DB_COINS then S.get k else none :=
  lookup_filter_head DB_COINS k S.entries

theorem get_applyOps_convertedOps_take {S : Db} {j : Nat} {ops : List BatchOp}
    (hops : convertedOps ext ((legacyRecords S).take j) = some ops) {k : Bytes}
    (hk : k.head? = some DB_COINS) :
    (S.applyOps ops).get k =
      if k ∈ ((legacyRecords S).take j).map Prod.fst then none else S.get k := by
  split
  next hmem =>
    obtain ⟨e, he, rfl⟩ := List.mem_map.mp hmem
    obtain ⟨-, -, -, -, -, herase, -⟩ := convertedOps_mem hops e he
    -- every operation on the key erases it: a coin write has prefix `'C'`
    have hall : ∀ op ∈ ops, op.key = e.1 → op.value? = none := fun op hop hkey => by
      rcases mem_convertedOps hops op hop with ⟨e', -, rfl⟩ | ⟨_, -, _, _, _, -, -, hw⟩
      · rfl
      · have := coinWrites_key_head hw
        rw [hkey, hk] at this
        exact absurd this (by decide)
    rw [Db.get_applyOps, BatchOp.effect_eq_some_of (k := e.1) ⟨_, herase, rfl⟩ hall]
    rfl
  next hmem => exact convertedOps_frame hops S hmem (by rw [hk]; decide)

theorem legacyRecords_applyOps_take {S : Db} {j : Nat} {ops : List BatchOp}
    (hops : convertedOps ext ((legacyRecords S).take j) = some ops) :
    legacyRecords (S.applyOps ops) = (legacyRecords S).drop j :=
  Db.ext_entries (legacyRecords_sorted _)
    ((legacyRecords_sorted S).sublist (List.drop_sublist _ _)) fun k => by
      rw [lookup_legacyRecords, lookup_drop (legacyRecords_sorted S), lookup_legacyRecords]
      by_cases hk : k.head? = some DB_COINS
      · simp only [hk, if_true]
        exact get_applyOps_convertedOps_take hops hk
      · simp [hk]

theorem LegacyKeysWellFormed.applyOps_take {S : Db} (hwf : LegacyKeysWellFormed S) {j : Nat}
    {ops : List BatchOp} (hops : convertedOps ext ((legacyRecords S).take j) = some ops) :
    LegacyKeysWellFormed (S.applyOps ops) := fun e he hx => by
  have hleft : e ∈ legacyRecords (S.applyOps ops) := List.mem_filter.mpr ⟨he, by simpa using hx⟩
  rw [legacyRecords_applyOps_take hops] at hleft
  exact hwf e (List.mem_filter.mp (List.mem_of_mem_drop hleft)).1 hx

/-- **Resuming a stopped migration** ends as one run from the original chainstate, in the
same state. -/
theorem upgrade_resume (ext : Externals) (S : Db) (hwf : LegacyKeysWellFormed S) (j : Nat)
    {ops : List BatchOp} (hops : convertedOps ext ((legacyRecords S).take j) = some ops) :
    (upgrade ext noSignals (S.applyOps ops)).outcome = (upgrade ext noSignals S).outcome ∧
      ((upgrade ext noSignals S).outcome = .returned true →
        (S.applyOps ops).writeBatches (upgrade ext noSignals (S.applyOps ops)).batches =
          S.writeBatches (upgrade ext noSignals S).batches) := by
  -- the records left convert to what the whole conversion adds to the first `j`
  have hall : convertedOps ext (legacyRecords S) =
      (convertedOps ext (legacyRecords (S.applyOps ops))).map (ops ++ ·) := by
    conv_lhs => rw [← List.take_append_drop j (legacyRecords S)]
    rw [convertedOps_append, hops, legacyRecords_applyOps_take hops, Option.some_bind]
  rcases upgrade_noSignals ext hwf with ⟨all, hconv, hout, hstate⟩ | ⟨hconv, hout⟩ <;>
    rcases upgrade_noSignals ext (hwf.applyOps_take hops) with
      ⟨rest, hconv₁, hout₁, hstate₁⟩ | ⟨hconv₁, hout₁⟩ <;>
    rw [hall, hconv₁] at hconv
  · obtain rfl := Option.some.inj hconv
    exact ⟨hout₁.trans hout.symm, fun _ => by rw [hstate₁, hstate, Db.applyOps_append]⟩
  · cases hconv
  · cases hconv
  · exact ⟨hout₁.trans hout.symm, fun h => absurd (hout.symm.trans h) (by decide)⟩

theorem upgrade_resume_legacyDb :
    LegacyKeysWellFormed legacyDb ∧ ∃ ops,
      convertedOps Reference.ext ((legacyRecords legacyDb).take 1) = some ops ∧
      (upgrade Reference.ext noSignals (legacyDb.applyOps ops)).outcome =
          (upgrade Reference.ext noSignals legacyDb).outcome ∧
        ((upgrade Reference.ext noSignals legacyDb).outcome = .returned true →
          (legacyDb.applyOps ops).writeBatches
              (upgrade Reference.ext noSignals (legacyDb.applyOps ops)).batches =
            legacyDb.writeBatches (upgrade Reference.ext noSignals legacyDb).batches) := by
  have hwf : LegacyKeysWellFormed legacyDb := by decide
  obtain ⟨ops, hops⟩ := Option.isSome_iff_exists.mp
    (show (convertedOps Reference.ext ((legacyRecords legacyDb).take 1)).isSome by decide)
  exact ⟨hwf, ops, hops, upgrade_resume Reference.ext legacyDb hwf 1 hops⟩

end CCoinsViewDB
end TxDb
