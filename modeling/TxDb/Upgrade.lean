import TxDb.Reference

/-!
# The migration from per-transaction records

`CCoinsViewDB::Upgrade` rewrites each `('c', txid)` record as one `Coin` per spendable
output, erasing the record in the same batch.  However it stops or crashes, the durable
state has a prefix of the legacy records converted (`upgrade_durable_prefix`).
-/

namespace TxDb
namespace CCoinsViewDB

/-! ## The legacy record -/

/-- `CCoins`, the per-transaction record of the old format: the coinbase flag, the
outputs (a spent one null), and the height of the transaction. -/
structure CCoins where
  fCoinBase : Bool
  vout : List CTxOut
  nHeight : Nat
  deriving DecidableEq

def maskBits (chAvail : UInt8) : List Bool :=
  (List.range 8).map fun p => chAvail.toNat &&& 1 <<< p != 0

/-- The spentness bitmask: bytes are read until `nMaskCode` nonzero ones have been,
each adding its eight bits. -/
def readMask : (nMaskCode : Nat) → Bytes → Option (List Bool × Bytes)
  | 0, bs => some ([], bs)
  | _ + 1, [] => none
  | m + 1, chAvail :: bs =>
      (readMask (if chAvail != 0 then m else m + 1) bs).map fun r =>
        (maskBits chAvail ++ r.1, r.2)

/-- The outputs: a compressed `CTxOut` for each available one, the null output for
the others. -/
def readOutputs (ext : Externals) : List Bool → Bytes → Option (List CTxOut × Bytes)
  | [], bs => some ([], bs)
  | avail :: vAvail, bs =>
      (if avail then ext.txOutCompressor bs else some (CTxOut.null, bs)).bind fun r₁ =>
        (readOutputs ext vAvail r₁.2).map fun r₂ => (r₁.1 :: r₂.1, r₂.2)

/-- `CCoins::Unserialize`: the version and the header code as `VARINT`s, the bitmask
of the outputs past the first two, the outputs, the height as a `VARINT`. -/
def CCoins.unserialize (ext : Externals) (bs : Bytes) : Option (CCoins × Bytes) := do
  let (_, bs) ← readVarInt 0x7FFFFFFF bs
  let (nCode, bs) ← readVarInt 0xFFFFFFFF bs
  let nMaskCode := nCode / 8 + (if nCode &&& 6 != 0 then 0 else 1)
  let (mask, bs) ← readMask nMaskCode bs
  let (vout, bs) ← readOutputs ext ([nCode &&& 2 != 0, nCode &&& 4 != 0] ++ mask) bs
  let (nHeight, bs) ← readVarInt 0x7FFFFFFF bs
  return (⟨nCode &&& 1 != 0, vout, nHeight⟩, bs)

/-! ## `Upgrade` -/

/-- `pcursor->GetKey(key) && key.first == DB_COINS`, with `key.second` when it holds. -/
def legacyKey? (k : Bytes) : Option Uint256 :=
  (pairSer.read k).bind fun key => if key.1 = DB_COINS then some key.2 else none

/-- An output the migration keeps: neither null nor unspendable. -/
def Spendable (out : CTxOut) : Bool :=
  !out.IsNull && !CScript.IsUnspendable out.scriptPubKey

/-- The `Write` calls of the loop body for one legacy record: a `Coin` under
`CoinEntry (txid, i)` for each kept output `i`. -/
def coinWrites (ext : Externals) (txid : Uint256) (coins : CCoins) : List BatchOp :=
  coins.vout.enum.filterMap fun (i, out) =>
    if Spendable out then
      some (.put (CoinEntry.serialize ⟨txid, UInt32.ofNat i⟩)
        (ext.coin.ser ⟨out, coins.nHeight, coins.fCoinBase, false⟩))
    else none

/-- The calls the loop body makes for one legacy record: the coin writes, then
`Erase` of the decoded key. -/
def recordOps (ext : Externals) (txid : Uint256) (coins : CCoins) : List BatchOp :=
  coinWrites ext txid coins ++ [.erase (pairKey DB_COINS txid)]

/-- The answers of the calls `Upgrade` makes to the rest of the node, by call number:
whether the `c`-th `interruption_point` throws, and what the `c`-th
`ShutdownRequested` answers. -/
structure UpgradeSignals where
  interrupted : Nat → Bool
  shutdownRequested : Nat → Bool

inductive UpgradeOutcome
  | returned (ok : Bool)
  | threw
  deriving DecidableEq

/-- A run of `Upgrade`: its `WriteBatch` calls in order, and how it ended. -/
structure UpgradeRun where
  batches : List CDBBatch
  outcome : UpgradeOutcome

/-- After the loop: the last `WriteBatch`, then `return !ShutdownRequested()`, the
call after the one in the log line; the loop made `calls` of them. -/
def upgradeFinish (sig : UpgradeSignals) (calls : Nat) (batch : CDBBatch)
    (flushed : List CDBBatch) : UpgradeRun :=
  ⟨flushed ++ [batch], .returned !sig.shutdownRequested (calls + 1)⟩

/-- The loop of `Upgrade` at iteration `i`, over the records from the cursor on, with
the batch being filled and the batches already written. -/
def upgradeLoop (ext : Externals) (sig : UpgradeSignals) :
    Nat → List (Bytes × Bytes) → CDBBatch → List CDBBatch → UpgradeRun
  | i, [], batch, flushed => upgradeFinish sig i batch flushed
  | i, (k, v) :: rest, batch, flushed =>
      if sig.interrupted i then ⟨flushed, .threw⟩
      else if sig.shutdownRequested i then upgradeFinish sig (i + 1) batch flushed
      else match legacyKey? k with
        | none => upgradeFinish sig (i + 1) batch flushed
        | some txid =>
            match CCoins.unserialize ext v with
            | none => ⟨flushed, .returned false⟩
            | some (coins, _) =>
                let batch := batch.addOps (recordOps ext txid coins)
                if 1 <<< 24 < batch.sizeEstimate then
                  upgradeLoop ext sig (i + 1) rest CDBBatch.empty (flushed ++ [batch])
                else upgradeLoop ext sig (i + 1) rest batch flushed

/-- `CCoinsViewDB::Upgrade` on the chainstate `db`. -/
def upgrade (ext : Externals) (sig : UpgradeSignals) (db : Db) : UpgradeRun :=
  let pcursor := db.newIterator.seek (pairKey DB_COINS Uint256.zero)
  if !pcursor.Valid then ⟨[], .returned true⟩
  else upgradeLoop ext sig 0 pcursor.rest CDBBatch.empty []

/-! ## What the migration is meant to do -/

/-- The legacy records: every record whose key starts with `'c'`, in key order. -/
def legacyRecords (db : Db) : List (Bytes × Bytes) :=
  db.entries.filter fun e => e.1.head? = some DB_COINS

/-- Every legacy key is a `('c', txid)` pair of 33 bytes, the only shape the old
format wrote. -/
def LegacyKeysWellFormed (db : Db) : Prop :=
  ∀ e ∈ db.entries, e.1.head? = some DB_COINS → e.1.length = 33

instance (db : Db) : Decidable (LegacyKeysWellFormed db) :=
  inferInstanceAs (Decidable (∀ e ∈ db.entries, e.1.head? = some DB_COINS → e.1.length = 33))

/-- The conversion of the legacy records `recs` in order, when every value decodes:
each record `(k, v)` is erased, and a coin is written for each kept output of the
transaction that `k` names. -/
def convertedOps (ext : Externals) : List (Bytes × Bytes) → Option (List BatchOp)
  | [] => some []
  | (k, v) :: recs =>
      (legacyKey? k).bind fun txid => (CCoins.unserialize ext v).bind fun r =>
        (convertedOps ext recs).map (coinWrites ext txid r.1 ++ .erase k :: ·)

theorem convertedOps_cons {ext : Externals} {k v : Bytes} {txid : Uint256} {coins : CCoins}
    {r : Bytes} (hk : legacyKey? k = some txid) (hv : CCoins.unserialize ext v = some (coins, r))
    (recs : List (Bytes × Bytes)) :
    convertedOps ext ((k, v) :: recs) =
      (convertedOps ext recs).map (coinWrites ext txid coins ++ .erase k :: ·) := by
  simp [convertedOps, hk, hv]

theorem coinWrites_key {ext : Externals} {txid : Uint256} {coins : CCoins} {op : BatchOp}
    (hop : op ∈ coinWrites ext txid coins) : op.key.head? = some DB_COIN := by
  obtain ⟨⟨i, out⟩, -, hsome⟩ := List.mem_filterMap.mp hop
  by_cases hs : Spendable out <;> simp [hs] at hsome
  simp [← hsome, BatchOp.key, CoinEntry.serialize]

theorem convertedOps_keys {ext : Externals} :
    ∀ {recs : List (Bytes × Bytes)} {ops : List BatchOp}, convertedOps ext recs = some ops →
      ∀ op ∈ ops, op.key ∈ recs.map Prod.fst ∨ op.key.head? = some DB_COIN
  | [], ops, h => by cases h; simp
  | (k, v) :: recs, ops, h => by
      simp only [convertedOps, Option.bind_eq_some, Option.map_eq_some'] at h
      obtain ⟨txid, -, r, -, ops', hops', rfl⟩ := h
      intro op hop
      rcases List.mem_append.mp hop with hw | hrest
      · exact .inr (coinWrites_key hw)
      rcases List.mem_cons.mp hrest with rfl | hop'
      · exact .inl (List.mem_cons_self _ _)
      rcases convertedOps_keys hops' op hop' with hk | hk
      · exact .inl (List.mem_cons_of_mem _ hk)
      · exact .inr hk

theorem convertedOps_frame {ext : Externals} {recs : List (Bytes × Bytes)} {ops : List BatchOp}
    (h : convertedOps ext recs = some ops) (db : Db) {k₀ : Bytes}
    (hrec : k₀ ∉ recs.map Prod.fst) (hcoin : k₀.head? ≠ some DB_COIN) :
    (db.applyOps ops).get k₀ = db.get k₀ :=
  Db.get_applyOps_of_forall_ne fun op hop hkey => by
    rcases convertedOps_keys h op hop with hk | hk <;> rw [hkey] at hk
    · exact hrec hk
    · exact hcoin hk

/-- Legacy keys read back as the pair they are: no bytes past the hash. -/
def ExactLegacyKeys (recs : List (Bytes × Bytes)) : Prop :=
  ∀ e ∈ recs, ∀ txid, legacyKey? e.1 = some txid → e.1 = pairKey DB_COINS txid

/-! ## The loop issues whole records -/

def legacyPrefix (rest : List (Bytes × Bytes)) : List (Bytes × Bytes) :=
  rest.takeWhile fun e => (legacyKey? e.1).isSome

theorem upgradeLoop_cons (ext : Externals) (sig : UpgradeSignals) (i : Nat) (k v : Bytes)
    (rest : List (Bytes × Bytes)) (batch : CDBBatch) (flushed : List CDBBatch) :
    (upgradeLoop ext sig i ((k, v) :: rest) batch flushed).batches = flushed ∨
    (upgradeLoop ext sig i ((k, v) :: rest) batch flushed).batches = flushed ++ [batch] ∨
    ∃ txid coins r, legacyKey? k = some txid ∧ CCoins.unserialize ext v = some (coins, r) ∧
      (upgradeLoop ext sig i ((k, v) :: rest) batch flushed =
          upgradeLoop ext sig (i + 1) rest CDBBatch.empty
            (flushed ++ [batch.addOps (recordOps ext txid coins)]) ∨
        upgradeLoop ext sig i ((k, v) :: rest) batch flushed =
          upgradeLoop ext sig (i + 1) rest (batch.addOps (recordOps ext txid coins)) flushed) := by
  simp only [upgradeLoop]
  split
  · exact .inl rfl
  split
  · exact .inr (.inl rfl)
  split
  · exact .inr (.inl rfl)
  next txid hk =>
    split
    · exact .inl rfl
    next coins r hv =>
      refine .inr (.inr ⟨txid, coins, r, hk, hv, ?_⟩)
      split
      · exact .inl rfl
      · exact .inr rfl

theorem upgradeLoop_nil (ext : Externals) (sig : UpgradeSignals) (i : Nat) (batch : CDBBatch)
    (flushed : List CDBBatch) :
    (upgradeLoop ext sig i [] batch flushed).batches = flushed ++ [batch] := rfl

theorem upgradeLoop_extends (ext : Externals) (sig : UpgradeSignals) :
    ∀ (rest : List (Bytes × Bytes)) (i : Nat) (batch : CDBBatch) (flushed : List CDBBatch),
      flushed <+: (upgradeLoop ext sig i rest batch flushed).batches
  | [], i, batch, flushed => by
      rw [upgradeLoop_nil]
      exact List.prefix_append _ _
  | (k, v) :: rest, i, batch, flushed => by
      rcases upgradeLoop_cons ext sig i k v rest batch flushed with h | h | ⟨_, _, _, -, -, h | h⟩
      · rw [h]
      · rw [h]
        exact List.prefix_append _ _
      · rw [h]
        exact (List.prefix_append _ _).trans (upgradeLoop_extends ext sig rest _ _ _)
      · rw [h]
        exact upgradeLoop_extends ext sig rest _ _ _

theorem finish_prefix {ext : Externals} (recs : List (Bytes × Bytes)) {batch : CDBBatch}
    {flushed : List CDBBatch} {n : Nat} (hlo : flushed.length < n) :
    ∃ j ≤ recs.length, ∃ ops, convertedOps ext (recs.take j) = some ops ∧
      ((flushed ++ [batch]).take n).flatMap CDBBatch.ops =
        flushed.flatMap CDBBatch.ops ++ batch.ops ++ ops :=
  ⟨0, Nat.zero_le _, [], rfl, by rw [List.take_of_length_le (by simp; omega)]; simp⟩

theorem upgradeLoop_prefix (ext : Externals) (sig : UpgradeSignals) :
    ∀ (rest : List (Bytes × Bytes)) (i : Nat) (batch : CDBBatch) (flushed : List CDBBatch)
      (n : Nat), flushed.length < n → n ≤ (upgradeLoop ext sig i rest batch flushed).batches.length →
      ExactLegacyKeys (legacyPrefix rest) →
      ∃ j ≤ (legacyPrefix rest).length, ∃ ops,
        convertedOps ext ((legacyPrefix rest).take j) = some ops ∧
        ((upgradeLoop ext sig i rest batch flushed).batches.take n).flatMap CDBBatch.ops =
          flushed.flatMap CDBBatch.ops ++ batch.ops ++ ops
  | [], i, batch, flushed, n, hlo, hhi, _ => by
      rw [upgradeLoop_nil] at hhi ⊢
      exact finish_prefix _ hlo
  | (k, v) :: rest, i, batch, flushed, n, hlo, hhi, hshape => by
      rcases upgradeLoop_cons ext sig i k v rest batch flushed with
        h | h | ⟨txid, coins, r, hk, hv, hnext⟩
      · rw [h] at hhi; omega
      · rw [h] at hhi ⊢
        exact finish_prefix _ hlo
      have hpre : legacyPrefix ((k, v) :: rest) = (k, v) :: legacyPrefix rest := by
        simp [legacyPrefix, hk]
      rw [hpre] at hshape ⊢
      have hrest : ExactLegacyKeys (legacyPrefix rest) :=
        fun e he => hshape e (List.mem_cons_of_mem _ he)
      have hrec : recordOps ext txid coins = coinWrites ext txid coins ++ [.erase k] := by
        rw [recordOps, ← hshape _ (List.mem_cons_self _ _) txid hk]
      -- the record joins the converted prefix
      have hstep : ∀ j ≤ (legacyPrefix rest).length, ∀ ops,
          convertedOps ext ((legacyPrefix rest).take j) = some ops →
          convertedOps ext (((k, v) :: legacyPrefix rest).take (j + 1)) =
            some (coinWrites ext txid coins ++ .erase k :: ops) ∧
          j + 1 ≤ ((k, v) :: legacyPrefix rest).length :=
        fun j hj ops hops => ⟨by simp [convertedOps_cons hk hv, hops], by simp [hj]⟩
      rcases hnext with h | h <;> rw [h] at hhi ⊢
      · by_cases hn : n = flushed.length + 1
        · obtain ⟨hconv, hj⟩ := hstep 0 (Nat.zero_le _) [] rfl
          refine ⟨1, hj, _, hconv, ?_⟩
          have htake := List.prefix_iff_eq_take.mp (upgradeLoop_extends ext sig rest (i + 1)
            CDBBatch.empty (flushed ++ [batch.addOps (recordOps ext txid coins)]))
          rw [List.length_append, List.length_singleton, ← hn] at htake
          rw [← htake]
          simp [hrec]
        · obtain ⟨j, hj, ops, hops, heq⟩ :=
            upgradeLoop_prefix ext sig rest (i + 1) CDBBatch.empty _ n (by simp; omega) hhi hrest
          obtain ⟨hconv, hj'⟩ := hstep j hj ops hops
          exact ⟨j + 1, hj', _, hconv, by rw [heq]; simp [hrec]⟩
      · obtain ⟨j, hj, ops, hops, heq⟩ :=
          upgradeLoop_prefix ext sig rest (i + 1) _ flushed n hlo hhi hrest
        obtain ⟨hconv, hj'⟩ := hstep j hj ops hops
        exact ⟨j + 1, hj', _, hconv, by rw [heq]; simp [hrec]⟩

/-! ## The scan meets the legacy records in order -/

theorem legacyKey_pairKey (h : Uint256) : legacyKey? (pairKey DB_COINS h) = some h := by
  have : pairSer.read (pairKey DB_COINS h) = some (DB_COINS, h) :=
    Serializer.read_ser (pairSer_roundTrips (DB_COINS, h))
  simp [legacyKey?, this]

theorem legacyKey_of_ne {x : UInt8} (t : Bytes) (hx : x ≠ DB_COINS) : legacyKey? (x :: t) = none := by
  simp only [legacyKey?, Serializer.read, pairSer]
  cases Uint256.serializer.deser t <;> simp [hx]

theorem LegacyKeysWellFormed.eq_pairKey {S : Db} (hwf : LegacyKeysWellFormed S)
    {e : Bytes × Bytes} (he : e ∈ S.entries) (hx : e.1.head? = some DB_COINS) :
    ∃ txid, e.1 = pairKey DB_COINS txid := by
  rcases e with ⟨_ | ⟨x, t⟩, v⟩
  · simp at hx
  obtain rfl : x = DB_COINS := by simpa using hx
  exact ⟨⟨t, by simpa using hwf _ he rfl⟩, rfl⟩

theorem LegacyKeysWellFormed.exact {S : Db} (hwf : LegacyKeysWellFormed S) :
    ExactLegacyKeys (legacyRecords S) := by
  intro e he txid hk
  obtain ⟨hmem, hx⟩ := List.mem_filter.mp he
  obtain ⟨h, hkey⟩ := hwf.eq_pairKey hmem (by simpa using hx)
  rw [hkey, legacyKey_pairKey, Option.some.injEq] at hk
  rw [hkey, hk]

theorem legacyPrefix_seek {S : Db} (hwf : LegacyKeysWellFormed S) :
    legacyPrefix (S.newIterator.seek (pairKey DB_COINS Uint256.zero)).rest = legacyRecords S := by
  have hlow : ∀ e ∈ S.entries, e.1.head? = some DB_COINS →
      keyLt e.1 (DB_COINS :: Uint256.zero.data) = false := by
    intro e he hx
    obtain ⟨h, hkey⟩ := hwf.eq_pairKey he hx
    rw [hkey, pairKey, keyLt_cons_cons, show Uint256.zero.data = List.replicate 32 0 from rfl,
      keyLt_replicate_zero h.data h.size_eq.ge]
    simp
  simp only [legacyPrefix, CDBIterator.seek, Db.newIterator, KeySorted.dropWhile_eq_filter S.sorted,
    pairKey, KeySorted.filter_seek_tag S.sorted hlow]
  rw [List.takeWhile_append_of_pos, legacyRecords]
  · cases hB : S.entries.filter (fun e => e.1.head?.any (DB_COINS < ·)) with
    | nil => simp
    | cons e B =>
        have he : e ∈ S.entries.filter (fun e => e.1.head?.any (DB_COINS < ·)) := by simp [hB]
        obtain ⟨-, habove⟩ := List.mem_filter.mp he
        rcases e with ⟨_ | ⟨x, t⟩, v⟩
        · simp at habove
        have hne : x ≠ DB_COINS := fun hx => by subst hx; simp at habove
        rw [List.takeWhile_cons_of_neg (by simp [legacyKey_of_ne t hne]), List.append_nil]
  · intro e he
    obtain ⟨hmem, hx⟩ := List.mem_filter.mp he
    obtain ⟨h, hkey⟩ := hwf.eq_pairKey hmem (by simpa using hx)
    simp [hkey, legacyKey_pairKey]

/-! ## What a stopped migration leaves -/

/-- However `Upgrade` stops or crashes, the durable state is the chainstate with its first
`j` legacy records converted. -/
theorem upgrade_durable_prefix (ext : Externals) (sig : UpgradeSignals) (S : Db)
    (hwf : LegacyKeysWellFormed S) (k : Nat) :
    ∃ j ≤ (legacyRecords S).length, ∃ ops,
      convertedOps ext ((legacyRecords S).take j) = some ops ∧
      S.writeBatches ((upgrade ext sig S).batches.take k) = S.applyOps ops := by
  simp only [Db.writeBatches_eq, upgrade]
  split
  · exact ⟨0, Nat.zero_le _, [], rfl, by simp⟩
  rw [← legacyPrefix_seek hwf]
  set bs := (upgradeLoop ext sig 0 (S.newIterator.seek (pairKey DB_COINS Uint256.zero)).rest
    CDBBatch.empty []).batches with hbs
  rw [show bs.take k = bs.take (min k bs.length) by rw [← List.take_take, List.take_length]]
  rcases Nat.eq_zero_or_pos (min k bs.length) with h0 | hpos
  · exact ⟨0, Nat.zero_le _, [], rfl, by simp [h0]⟩
  obtain ⟨j, hj, ops, hops, heq⟩ :=
    upgradeLoop_prefix ext sig _ 0 CDBBatch.empty [] _ hpos (Nat.min_le_right _ _)
      (legacyPrefix_seek hwf ▸ hwf.exact)
  rw [← hbs] at heq
  exact ⟨j, hj, ops, hops, by rw [heq]; simp⟩

def legacyValue : Bytes := [1, 2, 50, 0, 0, 0, 0, 0, 0, 0, 0, 1]

def otherTx : Uint256 := ⟨List.replicate 31 0 ++ [2], by simp⟩

def legacyDb : Db :=
  ⟨[(pairKey DB_COINS Reference.tip, legacyValue), (pairKey DB_COINS otherTx, legacyValue)], by decide⟩

theorem upgrade_durable_prefix_legacyDb :
    LegacyKeysWellFormed legacyDb ∧
      ∃ j ≤ (legacyRecords legacyDb).length, ∃ ops,
        convertedOps Reference.ext ((legacyRecords legacyDb).take j) = some ops ∧
        legacyDb.writeBatches ((upgrade Reference.ext ⟨fun _ => false, fun i => i == 1⟩
          legacyDb).batches.take 1) = legacyDb.applyOps ops :=
  ⟨by decide, upgrade_durable_prefix _ _ _ (by decide) 1⟩

example : (legacyDb.writeBatches
    (upgrade Reference.ext ⟨fun _ => false, fun i => i == 1⟩ legacyDb).batches).entries =
      [(CoinEntry.serialize ⟨Reference.tip, 0⟩, Reference.coinSer.ser ⟨⟨50, []⟩, 1, false, false⟩),
        (pairKey DB_COINS otherTx, legacyValue)] := by
  decide

/-- The same record under a key one byte too long.  `GetKey` reads the pair and
ignores the byte, so the record is converted, but `Erase` names the 33-byte key:
the record stays beside the coin written for its output. -/
def longKeyDb : Db :=
  ⟨[(pairKey DB_COINS Reference.tip ++ [0], legacyValue)], List.pairwise_singleton _ _⟩

theorem upgrade_keeps_long_legacy_key :
    ¬∃ j ≤ (legacyRecords longKeyDb).length, ∃ ops,
      convertedOps Reference.ext ((legacyRecords longKeyDb).take j) = some ops ∧
      longKeyDb.writeBatches ((upgrade Reference.ext ⟨fun _ => false, fun _ => false⟩
        longKeyDb).batches.take 1) = longKeyDb.applyOps ops := by
  rintro ⟨j, hj, ops, hops, heq⟩
  have hlen : (legacyRecords longKeyDb).length = 1 := by decide
  rw [hlen] at hj
  interval_cases j
  · cases hops
    exact absurd (congrArg (Db.get · (CoinEntry.serialize ⟨Reference.tip, 0⟩)) heq) (by decide)
  · have hconv : convertedOps Reference.ext ((legacyRecords longKeyDb).take 1) =
        some [.put (CoinEntry.serialize ⟨Reference.tip, 0⟩)
          (Reference.coinSer.ser ⟨⟨50, []⟩, 1, false, false⟩),
          .erase (pairKey DB_COINS Reference.tip ++ [0])] := by decide
    rw [hconv] at hops
    cases hops
    exact absurd (congrArg (Db.get · (pairKey DB_COINS Reference.tip ++ [0])) heq) (by decide)

end CCoinsViewDB
end TxDb
