import TxDb.Upgrade

/-!
# A migration run to its end

Without interruption, shutdown or failed write, `Upgrade` returns `true` exactly when
every legacy record decodes (`upgrade_noSignals`), and leaves a migrated state
(`upgrade_complete`).  A `'c'` key too short to decode ends the scan and survives.
-/

namespace TxDb
namespace CCoinsViewDB

def noSignals : UpgradeSignals := ⟨fun _ => false, fun _ => false⟩

/-! ## The loop without signals -/

theorem upgradeLoop_noSignals_record {ext : Externals} {k v : Bytes} {txid : Uint256}
    {coins : CCoins} {r : Bytes} (hk : legacyKey? k = some txid)
    (hv : CCoins.unserialize ext v = some (coins, r)) (i : Nat) (rest : List (Bytes × Bytes))
    (batch : CDBBatch) (flushed : List CDBBatch) :
    upgradeLoop ext noSignals i ((k, v) :: rest) batch flushed =
      if 1 <<< 24 < (batch.addOps (recordOps ext txid coins)).sizeEstimate then
        upgradeLoop ext noSignals (i + 1) rest CDBBatch.empty
          (flushed ++ [batch.addOps (recordOps ext txid coins)])
      else upgradeLoop ext noSignals (i + 1) rest (batch.addOps (recordOps ext txid coins)) flushed := by
  simp [upgradeLoop, noSignals, hk, hv]

theorem legacyPrefix_cons {k v : Bytes} {txid : Uint256} (hk : legacyKey? k = some txid)
    (rest : List (Bytes × Bytes)) : legacyPrefix ((k, v) :: rest) = (k, v) :: legacyPrefix rest := by
  simp [legacyPrefix, hk]

theorem upgradeLoop_complete (ext : Externals) :
    ∀ (rest : List (Bytes × Bytes)) (i : Nat) (batch : CDBBatch) (flushed : List CDBBatch)
      (ops : List BatchOp), ExactLegacyKeys (legacyPrefix rest) →
      convertedOps ext (legacyPrefix rest) = some ops →
      (upgradeLoop ext noSignals i rest batch flushed).outcome = .returned true ∧
        (upgradeLoop ext noSignals i rest batch flushed).batches.flatMap CDBBatch.ops =
          flushed.flatMap CDBBatch.ops ++ batch.ops ++ ops
  | [], i, batch, flushed, ops, _, hops => by
      cases hops
      simp [upgradeLoop, upgradeFinish, noSignals]
  | (k, v) :: rest, i, batch, flushed, ops, hshape, hops => by
      cases hk : legacyKey? k with
      | none =>
          have hpre : legacyPrefix ((k, v) :: rest) = [] := by simp [legacyPrefix, hk]
          rw [hpre] at hops
          cases hops
          simp [upgradeLoop, upgradeFinish, noSignals, hk]
      | some txid =>
          rw [legacyPrefix_cons hk] at hshape hops
          simp only [convertedOps, hk, Option.some_bind, Option.bind_eq_some,
            Option.map_eq_some'] at hops
          obtain ⟨⟨coins, r⟩, hv, ops', hops', rfl⟩ := hops
          have hrec : recordOps ext txid coins = coinWrites ext txid coins ++ [.erase k] := by
            rw [recordOps, ← hshape _ (List.mem_cons_self _ _) txid hk]
          have hrest : ExactLegacyKeys (legacyPrefix rest) :=
            fun e he => hshape e (List.mem_cons_of_mem _ he)
          rw [upgradeLoop_noSignals_record hk hv]
          split
          · obtain ⟨hout, hbatches⟩ := upgradeLoop_complete ext rest (i + 1) _ _ ops' hrest hops'
            exact ⟨hout, by rw [hbatches]; simp [hrec]⟩
          · obtain ⟨hout, hbatches⟩ := upgradeLoop_complete ext rest (i + 1) _ _ ops' hrest hops'
            exact ⟨hout, by rw [hbatches]; simp [hrec]⟩

theorem upgradeLoop_decode_failure (ext : Externals) :
    ∀ (rest : List (Bytes × Bytes)) (i : Nat) (batch : CDBBatch) (flushed : List CDBBatch),
      convertedOps ext (legacyPrefix rest) = none →
      (upgradeLoop ext noSignals i rest batch flushed).outcome = .returned false
  | [], _, _, _, hops => by cases hops
  | (k, v) :: rest, i, batch, flushed, hops => by
      cases hk : legacyKey? k with
      | none => simp [legacyPrefix, hk, convertedOps] at hops
      | some txid =>
          rw [legacyPrefix_cons hk] at hops
          cases hv : CCoins.unserialize ext v with
          | none => simp [upgradeLoop, noSignals, hk, hv]
          | some r =>
              obtain ⟨coins, r⟩ := r
              have hrest : convertedOps ext (legacyPrefix rest) = none := by
                simpa [convertedOps, hk, hv] using hops
              rw [upgradeLoop_noSignals_record hk hv]
              split <;> exact upgradeLoop_decode_failure ext rest _ _ _ hrest

theorem upgrade_noSignals (ext : Externals) {S : Db} (hwf : LegacyKeysWellFormed S) :
    (∃ ops, convertedOps ext (legacyRecords S) = some ops ∧
        (upgrade ext noSignals S).outcome = .returned true ∧
        S.writeBatches (upgrade ext noSignals S).batches = S.applyOps ops) ∨
      (convertedOps ext (legacyRecords S) = none ∧
        (upgrade ext noSignals S).outcome = .returned false) := by
  rw [← legacyPrefix_seek hwf]
  simp only [upgrade]
  split
  next hvalid =>
    have hnil : (S.newIterator.seek (pairKey DB_COINS Uint256.zero)).rest = [] := by
      simpa [CDBIterator.Valid] using hvalid
    exact .inl ⟨[], by simp [hnil, legacyPrefix, convertedOps], rfl, rfl⟩
  next =>
    cases hops : convertedOps ext (legacyPrefix (S.newIterator.seek
        (pairKey DB_COINS Uint256.zero)).rest) with
    | none => exact .inr ⟨rfl, upgradeLoop_decode_failure ext _ _ _ _ hops⟩
    | some ops =>
        obtain ⟨hout, hbatches⟩ := upgradeLoop_complete ext _ 0 CDBBatch.empty [] ops
          (legacyPrefix_seek hwf ▸ hwf.exact) hops
        exact .inl ⟨ops, rfl, hout, by rw [Db.writeBatches_eq, hbatches]; simp⟩

/-! ## What the conversion writes -/

theorem mem_coinWrites {ext : Externals} {txid : Uint256} {coins : CCoins} {op : BatchOp} :
    op ∈ coinWrites ext txid coins ↔ ∃ i, ∃ hi : i < coins.vout.length,
      Spendable coins.vout[i] ∧
        op = .put (CoinEntry.serialize ⟨txid, UInt32.ofNat i⟩)
          (ext.coin.ser ⟨coins.vout[i], coins.nHeight, coins.fCoinBase, false⟩) := by
  simp only [coinWrites, List.mem_filterMap, Prod.exists, List.mem_enum_iff_getElem?]
  constructor
  · rintro ⟨i, out, hout, hop⟩
    obtain ⟨hi, rfl⟩ := List.getElem?_eq_some_iff.mp hout
    by_cases hs : Spendable coins.vout[i] <;> simp [hs] at hop
    exact ⟨i, hi, hs, hop.symm⟩
  · rintro ⟨i, hi, hs, rfl⟩
    exact ⟨i, coins.vout[i], List.getElem?_eq_getElem hi, by simp [hs]⟩

theorem mem_convertedOps {ext : Externals} :
    ∀ {recs : List (Bytes × Bytes)} {ops : List BatchOp}, convertedOps ext recs = some ops →
      ∀ op ∈ ops, (∃ e ∈ recs, op = .erase e.1) ∨
        ∃ e ∈ recs, ∃ txid coins r, legacyKey? e.1 = some txid ∧
          CCoins.unserialize ext e.2 = some (coins, r) ∧ op ∈ coinWrites ext txid coins
  | [], ops, h => by cases h; simp
  | (k, v) :: recs, ops, h => by
      simp only [convertedOps, Option.bind_eq_some, Option.map_eq_some'] at h
      obtain ⟨txid, hk, ⟨coins, r⟩, hv, ops', hops', rfl⟩ := h
      intro op hop
      rcases List.mem_append.mp hop with hw | hrest
      · exact .inr ⟨(k, v), List.mem_cons_self _ _, txid, coins, r, hk, hv, hw⟩
      rcases List.mem_cons.mp hrest with rfl | hop'
      · exact .inl ⟨(k, v), List.mem_cons_self _ _, rfl⟩
      rcases mem_convertedOps hops' op hop' with ⟨e, he, rfl⟩ | ⟨e, he, rest⟩
      · exact .inl ⟨e, List.mem_cons_of_mem _ he, rfl⟩
      · exact .inr ⟨e, List.mem_cons_of_mem _ he, rest⟩

theorem convertedOps_mem {ext : Externals} :
    ∀ {recs : List (Bytes × Bytes)} {ops : List BatchOp}, convertedOps ext recs = some ops →
      ∀ e ∈ recs, ∃ txid coins r, legacyKey? e.1 = some txid ∧
        CCoins.unserialize ext e.2 = some (coins, r) ∧ .erase e.1 ∈ ops ∧
        ∀ op ∈ coinWrites ext txid coins, op ∈ ops
  | [], _, _, e, he => absurd he (List.not_mem_nil _)
  | (k, v) :: recs, ops, h, e, he => by
      simp only [convertedOps, Option.bind_eq_some, Option.map_eq_some'] at h
      obtain ⟨txid, hk, ⟨coins, r⟩, hv, ops', hops', rfl⟩ := h
      rcases List.mem_cons.mp he with rfl | he
      · exact ⟨txid, coins, r, hk, hv, by simp, fun op hop => by simp [hop]⟩
      · obtain ⟨txid', coins', r', hk', hv', herase, hwrites⟩ := convertedOps_mem hops' e he
        exact ⟨txid', coins', r', hk', hv', by simp [herase],
          fun op hop => by simp [hwrites op hop]⟩

theorem coinKey_injective {txid txid' : Uint256} {i i' : Nat} (hi : i < 2 ^ 32)
    (hi' : i' < 2 ^ 32)
    (h : CoinEntry.serialize ⟨txid, UInt32.ofNat i⟩ = CoinEntry.serialize ⟨txid', UInt32.ofNat i'⟩) :
    txid = txid' ∧ i = i' := by
  have := CoinEntry.serialize_injective h
  simp only [COutPoint.mk.injEq] at this
  refine ⟨this.1, ?_⟩
  have hn := congrArg UInt32.toNat this.2
  rwa [UInt32.toNat_ofNat_of_lt hi, UInt32.toNat_ofNat_of_lt hi'] at hn

theorem coinWrites_key_head {ext : Externals} {txid : Uint256} {coins : CCoins} {op : BatchOp}
    (hop : op ∈ coinWrites ext txid coins) : op.key.head? = some DB_COIN :=
  coinWrites_key hop

/-! ## The completed migration -/

/-- What a completed migration of `S` leaves in `T`: no legacy key; for each legacy
record `('c', txid)`, decoded, a coin under `CoinEntry (txid, i)` for each kept output
`i`; every key that is neither legacy nor such a coin key as in `S`. -/
structure Migrated (ext : Externals) (S T : Db) : Prop where
  no_legacy : ∀ e ∈ T.entries, e.1.head? ≠ some DB_COINS
  coins : ∀ e ∈ legacyRecords S, ∃ txid coins r, e.1 = pairKey DB_COINS txid ∧
    CCoins.unserialize ext e.2 = some (coins, r) ∧
    ∀ i (hi : i < coins.vout.length), Spendable coins.vout[i] →
      T.get (CoinEntry.serialize ⟨txid, UInt32.ofNat i⟩) =
        some (ext.coin.ser ⟨coins.vout[i], coins.nHeight, coins.fCoinBase, false⟩)
  frame : ∀ k, k.head? ≠ some DB_COINS →
    (∀ e ∈ legacyRecords S, ∀ txid coins r, legacyKey? e.1 = some txid →
      CCoins.unserialize ext e.2 = some (coins, r) →
      ∀ i (hi : i < coins.vout.length), Spendable coins.vout[i] →
        k ≠ CoinEntry.serialize ⟨txid, UInt32.ofNat i⟩) →
    T.get k = S.get k

theorem legacyRecords_eq_of_txid {S : Db} (hwf : LegacyKeysWellFormed S) {e e' : Bytes × Bytes}
    (he : e ∈ legacyRecords S) (he' : e' ∈ legacyRecords S) {txid : Uint256}
    (hk : legacyKey? e.1 = some txid) (hk' : legacyKey? e'.1 = some txid) : e = e' := by
  have hkey : e.1 = e'.1 := by
    rw [hwf.exact e he txid hk, hwf.exact e' he' txid hk']
  have hv := ((Db.lookup_eq_some_iff S.sorted).mpr (List.mem_filter.mp he).1).symm.trans
    (hkey ▸ (Db.lookup_eq_some_iff S.sorted).mpr (List.mem_filter.mp he').1)
  exact Prod.ext hkey (Option.some.inj hv)

theorem legacyRecords_head {S : Db} {e : Bytes × Bytes} (he : e ∈ legacyRecords S) :
    e.1.head? = some DB_COINS := by
  simpa using (List.mem_filter.mp he).2

theorem migrated_applyOps (ext : Externals) {S : Db} (hwf : LegacyKeysWellFormed S)
    (hsmall : ∀ e ∈ legacyRecords S, ∀ coins r, CCoins.unserialize ext e.2 = some (coins, r) →
      coins.vout.length ≤ 2 ^ 32)
    {ops : List BatchOp} (hops : convertedOps ext (legacyRecords S) = some ops) :
    Migrated ext S (S.applyOps ops) := by
  -- an erase names a legacy key, a write a coin key
  have herase_head : ∀ e ∈ legacyRecords S, e.1.head? ≠ some DB_COIN := fun e he => by
    rw [legacyRecords_head he]; decide
  refine ⟨?_, ?_, ?_⟩
  · intro e he hhead
    have hget := (Db.lookup_eq_some_iff (S.applyOps ops).sorted).mpr he
    rw [← Db.get, Db.get_applyOps] at hget
    by_cases hop : ∃ op ∈ ops, op.key = e.1
    · have hall : ∀ op ∈ ops, op.key = e.1 → op.value? = none := by
        intro op hop' hkey
        rcases mem_convertedOps hops op hop' with ⟨e', -, rfl⟩ | ⟨e', -, _, _, _, -, -, hw⟩
        · rfl
        · have := coinWrites_key_head hw
          rw [hkey, hhead] at this
          exact absurd this (by decide)
      rw [BatchOp.effect_eq_some_of hop hall] at hget
      cases hget
    · have hnone : BatchOp.effect e.1 ops = none :=
        BatchOp.effect_eq_none.mpr fun op hop' hkey => hop ⟨op, hop', hkey⟩
      rw [hnone, Option.getD_none] at hget
      have hmem : e ∈ legacyRecords S :=
        List.mem_filter.mpr ⟨(Db.lookup_eq_some_iff S.sorted).mp hget, by simpa using hhead⟩
      obtain ⟨-, -, -, -, -, herase, -⟩ := convertedOps_mem hops e hmem
      exact hop ⟨_, herase, rfl⟩
  · intro e he
    obtain ⟨txid, coins, r, hk, hv, -, hwrites⟩ := convertedOps_mem hops e he
    refine ⟨txid, coins, r, hwf.exact e he txid hk, hv, fun i hi hs => ?_⟩
    have hmine := hwrites _ (mem_coinWrites.mpr ⟨i, hi, hs, rfl⟩)
    suffices heff : BatchOp.effect (CoinEntry.serialize ⟨txid, UInt32.ofNat i⟩) ops =
        some (some (ext.coin.ser ⟨coins.vout[i], coins.nHeight, coins.fCoinBase, false⟩)) by
      rw [Db.get_applyOps, heff]
      rfl
    refine BatchOp.effect_eq_some_of ⟨_, hmine, rfl⟩ fun op hop hkey => ?_
    rcases mem_convertedOps hops op hop with ⟨e', he', rfl⟩ | ⟨e', he', txid', coins', r', hk',
      hv', hw⟩
    · exact absurd (by rw [show e'.1 = _ from hkey]; rfl) (herase_head e' he')
    obtain ⟨i', hi', hs', rfl⟩ := mem_coinWrites.mp hw
    have hlen := hsmall e he coins r hv
    have hlen' := hsmall e' he' coins' r' hv'
    obtain ⟨rfl, rfl⟩ := coinKey_injective (by omega) (by omega) hkey.symm
    obtain rfl := legacyRecords_eq_of_txid hwf he he' hk hk'
    rw [hv, Option.some.injEq, Prod.mk.injEq] at hv'
    obtain ⟨rfl, -⟩ := hv'
    rfl
  · intro k hk hcoin
    refine Db.get_applyOps_of_forall_ne fun op hop hkey => ?_
    rcases mem_convertedOps hops op hop with ⟨e', he', rfl⟩ | ⟨e', he', txid', coins', r', hk',
      hv', hw⟩
    · exact hk (hkey ▸ legacyRecords_head he')
    · obtain ⟨i', hi', hs', rfl⟩ := mem_coinWrites.mp hw
      exact hcoin e' he' txid' coins' r' hk' hv' i' hi' hs' hkey.symm

theorem upgrade_idempotent (ext : Externals) {T : Db}
    (hT : ∀ e ∈ T.entries, e.1.head? ≠ some DB_COINS) :
    (upgrade ext noSignals T).outcome = .returned true ∧
      T.writeBatches (upgrade ext noSignals T).batches = T := by
  have hwf : LegacyKeysWellFormed T := fun e he hx => absurd hx (hT e he)
  have hnil : legacyRecords T = [] := List.filter_eq_nil_iff.mpr fun e he hx => hT e he (by simpa using hx)
  rcases upgrade_noSignals ext hwf with ⟨ops, hops, hout, hstate⟩ | ⟨hops, -⟩
  · rw [hnil] at hops
    cases hops
    exact ⟨hout, hstate⟩
  · rw [hnil] at hops
    cases hops

/-- An `Upgrade` that returns `true` leaves a migrated state, and a second run changes
nothing. -/
theorem upgrade_complete (ext : Externals) (S : Db) (hwf : LegacyKeysWellFormed S)
    (hsmall : ∀ e ∈ legacyRecords S, ∀ coins r, CCoins.unserialize ext e.2 = some (coins, r) →
      coins.vout.length ≤ 2 ^ 32)
    (hok : (upgrade ext noSignals S).outcome = .returned true) :
    Migrated ext S (S.writeBatches (upgrade ext noSignals S).batches) ∧
      (∀ (txid txid' : Uint256) (i i' : Nat), i < 2 ^ 32 → i' < 2 ^ 32 →
        CoinEntry.serialize ⟨txid, UInt32.ofNat i⟩ = CoinEntry.serialize ⟨txid', UInt32.ofNat i'⟩ →
        txid = txid' ∧ i = i') ∧
      (upgrade ext noSignals (S.writeBatches (upgrade ext noSignals S).batches)).outcome =
        .returned true ∧
      (S.writeBatches (upgrade ext noSignals S).batches).writeBatches
          (upgrade ext noSignals (S.writeBatches (upgrade ext noSignals S).batches)).batches =
        S.writeBatches (upgrade ext noSignals S).batches := by
  rcases upgrade_noSignals ext hwf with ⟨ops, hops, -, hstate⟩ | ⟨-, hfalse⟩
  · have hmig := migrated_applyOps ext hwf hsmall hops
    rw [hstate]
    exact ⟨hmig, fun _ _ _ _ hi hi' h => coinKey_injective hi hi' h,
      upgrade_idempotent ext hmig.no_legacy⟩
  · rw [hok] at hfalse
    cases hfalse

theorem legacyDb_record {e : Bytes × Bytes} (he : e ∈ legacyRecords legacyDb) {coins : CCoins}
    {r : Bytes} (hv : CCoins.unserialize Reference.ext e.2 = some (coins, r)) :
    coins = ⟨false, [⟨50, []⟩, CTxOut.null], 1⟩ := by
  have hval : ∀ e ∈ legacyRecords legacyDb, e.2 = legacyValue := by decide
  have hdecode : CCoins.unserialize Reference.ext legacyValue =
      some (⟨false, [⟨50, []⟩, CTxOut.null], 1⟩, []) := by decide
  rw [hval e he, hdecode, Option.some.injEq, Prod.mk.injEq] at hv
  exact hv.1.symm

theorem upgrade_complete_legacyDb :
    LegacyKeysWellFormed legacyDb ∧
      (∀ e ∈ legacyRecords legacyDb, ∀ coins r,
        CCoins.unserialize Reference.ext e.2 = some (coins, r) → coins.vout.length ≤ 2 ^ 32) ∧
      (upgrade Reference.ext noSignals legacyDb).outcome = .returned true ∧
      (Migrated Reference.ext legacyDb
          (legacyDb.writeBatches (upgrade Reference.ext noSignals legacyDb).batches) ∧
        (∀ (txid txid' : Uint256) (i i' : Nat), i < 2 ^ 32 → i' < 2 ^ 32 →
          CoinEntry.serialize ⟨txid, UInt32.ofNat i⟩ =
            CoinEntry.serialize ⟨txid', UInt32.ofNat i'⟩ → txid = txid' ∧ i = i') ∧
        (upgrade Reference.ext noSignals
            (legacyDb.writeBatches (upgrade Reference.ext noSignals legacyDb).batches)).outcome =
          .returned true ∧
        (legacyDb.writeBatches (upgrade Reference.ext noSignals legacyDb).batches).writeBatches
            (upgrade Reference.ext noSignals
              (legacyDb.writeBatches (upgrade Reference.ext noSignals legacyDb).batches)).batches =
          legacyDb.writeBatches (upgrade Reference.ext noSignals legacyDb).batches) := by
  have hwf : LegacyKeysWellFormed legacyDb := by decide
  have hsmall : ∀ e ∈ legacyRecords legacyDb, ∀ coins r,
      CCoins.unserialize Reference.ext e.2 = some (coins, r) → coins.vout.length ≤ 2 ^ 32 :=
    fun e he coins r hv => by rw [legacyDb_record he hv]; decide
  have hok : (upgrade Reference.ext noSignals legacyDb).outcome = .returned true := by decide
  exact ⟨hwf, hsmall, hok, upgrade_complete Reference.ext legacyDb hwf hsmall hok⟩

def shortKeyDb : Db := ⟨[([DB_COINS, 1], legacyValue)], List.pairwise_singleton _ _⟩

/-- The scan meets the short key above `('c', 0)`, `GetKey` fails and the loop breaks:
`Upgrade` returns `true` and the legacy-prefixed key stays. -/
theorem upgrade_keeps_short_legacy_key :
    (upgrade Reference.ext noSignals shortKeyDb).outcome = .returned true ∧
      ([DB_COINS, 1], legacyValue) ∈
        (shortKeyDb.writeBatches (upgrade Reference.ext noSignals shortKeyDb).batches).entries := by
  decide

end CCoinsViewDB
end TxDb
