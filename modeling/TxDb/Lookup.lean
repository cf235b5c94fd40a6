import TxDb.Recovery

/-!
# Point lookups through the two tiers

`GetCoin` and `HaveCoin` read the chainstate and fall back to the loaded-coin database by
the outpoint's hash, where `GetLoadedCoin` seeks.  After a commit erases a coin, both
answer from the overlay alone (`batchWrite_spent_coin_answers_from_overlay`).
-/

namespace TxDb
namespace CCoinsViewDB

/-! ## The lookups -/

/-- `CCoinsViewDB::GetLoadedCoin`: seek to `('p', hashOutPoint)` and, if the key there
names the hash, read its value into `coinOut`.  The result of `GetValue` is dropped. -/
def getLoadedCoin (ext : Externals) (loadedcoindb : Db) (hashOutPoint : Uint256)
    (coinOut : LoadedCoin) : Bool × LoadedCoin :=
  let pcursor := loadedcoindb.newIterator.seek (pairKey DB_LOADED_COINS hashOutPoint)
  match pcursor.rest with
  | [] => (false, coinOut)
  | (k, _) :: _ =>
      if (pairGetKeyInto (0, Uint256.zero) k).2 = hashOutPoint then
        (true, (pcursor.getValueInto ext.loadedCoin ext.loadedCoinInto coinOut).2)
      else (false, coinOut)

/-- `CCoinsViewDB::HaveLoadedCoin`. -/
def haveLoadedCoin (ext : Externals) (loadedcoindb : Db) (hashOutPoint : Uint256) : Bool :=
  (getLoadedCoin ext loadedcoindb hashOutPoint ext.loadedCoinInit).1

/-- `CCoinsViewDB::GetCoin` into `coin`: the chainstate first, then the overlay, whose
coin comes back marked loaded and counts only if not spent. -/
def getCoin (ext : Externals) (db loadedcoindb : Db) (outpoint : COutPoint) (coin : Coin) :
    Bool × Coin :=
  let (found, coin) := db.readInto ext.coin ext.coinInto (CoinEntry.serialize outpoint) coin
  if found then (true, coin)
  else
    let (loaded, loadedCoin) :=
      getLoadedCoin ext loadedcoindb (outpoint.GetHash ext) ext.loadedCoinInit
    if loaded then (!loadedCoin.fSpent, { loadedCoin.coin with fLoaded := true })
    else (false, coin)

/-- `CCoinsViewDB::HaveCoin`. -/
def haveCoin (ext : Externals) (db loadedcoindb : Db) (outpoint : COutPoint) : Bool :=
  if db.Exists (CoinEntry.serialize outpoint) then true
  else haveLoadedCoin ext loadedcoindb (outpoint.GetHash ext)

section Lookups

variable {ext : Externals} {db L : Db} {o : COutPoint}

theorem getCoin_of_get_none (h : db.get (CoinEntry.serialize o) = none) (coin : Coin) :
    (getCoin ext db L o coin).1 = (haveLoadedCoin ext L (o.GetHash ext) &&
      !(getLoadedCoin ext L (o.GetHash ext) ext.loadedCoinInit).2.fSpent) := by
  simp only [getCoin, Db.readInto, h, haveLoadedCoin]
  by_cases hl : (getLoadedCoin ext L (o.GetHash ext) ext.loadedCoinInit).1 <;> simp [hl]

theorem haveCoin_of_get_none (h : db.get (CoinEntry.serialize o) = none) :
    haveCoin ext db L o = haveLoadedCoin ext L (o.GetHash ext) := by
  simp [haveCoin, Db.Exists, h]

end Lookups

/-! ## What a commit leaves under a coin key -/

theorem effect_coinOps_of_mem (ext : Externals) :
    ∀ {E : List (COutPoint × CCoinsCacheEntry)}, (E.map Prod.fst).Nodup →
      ∀ {e}, e ∈ E → BatchOp.effect (CoinEntry.serialize e.1) (E.map (coinOp ext)) =
        some (coinOp ext e).value?
  | [], _, _, he => absurd he (List.not_mem_nil _)
  | x :: xs, hnodup, e, he => by
      rw [List.map_cons, List.nodup_cons] at hnodup
      rcases List.mem_cons.mp he with rfl | he'
      · have hnone : BatchOp.effect (CoinEntry.serialize e.1) (xs.map (coinOp ext)) = none := by
          refine BatchOp.effect_eq_none.mpr fun op hop hkey => hnodup.1 ?_
          obtain ⟨y, hy, rfl⟩ := List.mem_map.mp hop
          rw [coinOp_key] at hkey
          exact List.mem_map.mpr ⟨y, hy, CoinEntry.serialize_injective hkey⟩
        simp [BatchOp.effect, hnone, coinOp_key]
      · simp [BatchOp.effect, effect_coinOps_of_mem ext hnodup.2 he']

theorem batchWrite_writeBatches {ext : Externals} {db : Db} {mapCoins : CCoinsMap} {h : Uint256}
    {batchSize : Nat} {r : BatchWriteResult} (hr : batchWrite ext db mapCoins h batchSize = some r) :
    db.writeBatches r.batches = committedState ext db (mapCoins.entries.filter Written) h := by
  rw [Db.writeBatches_eq, batchWrite_ops hr, applyOps_marker_final]

theorem batchWrite_get_written {ext : Externals} {db : Db} {mapCoins : CCoinsMap} {h : Uint256}
    {batchSize : Nat} {r : BatchWriteResult} (hr : batchWrite ext db mapCoins h batchSize = some r)
    {e : COutPoint × CCoinsCacheEntry} (he : e ∈ mapCoins.entries) (hw : Written e) :
    (db.writeBatches r.batches).get (CoinEntry.serialize e.1) = (coinOp ext e).value? := by
  have hnodup : ((mapCoins.entries.filter Written).map Prod.fst).Nodup :=
    mapCoins.nodup.sublist ((List.filter_sublist _).map _)
  rw [batchWrite_writeBatches hr, committedState_get, if_neg (CoinEntry.serialize_ne_keyBestBlock _).symm,
    if_neg (CoinEntry.serialize_ne_keyHeadBlocks _).symm,
    effect_coinOps_of_mem ext hnodup (List.mem_filter.mpr ⟨he, hw⟩)]
  rfl

theorem batchWrite_take_get_of_not_written {ext : Externals} {db : Db} {mapCoins : CCoinsMap}
    {h : Uint256} {batchSize : Nat} {r : BatchWriteResult}
    (hr : batchWrite ext db mapCoins h batchSize = some r) {o : COutPoint}
    (ho : o ∉ (mapCoins.entries.filter Written).map Prod.fst) (k : Nat) :
    (db.writeBatches (r.batches.take k)).get (CoinEntry.serialize o) = db.get (CoinEntry.serialize o) := by
  rw [Db.writeBatches_eq]
  refine Db.get_applyOps_of_forall_ne fun op hop hkey => ?_
  have hall : op ∈ r.batches.flatMap CDBBatch.ops := by
    rw [← List.take_append_drop k r.batches, List.flatMap_append]
    exact List.mem_append_left _ hop
  rw [batchWrite_ops hr] at hall
  simp only [List.mem_append, List.mem_cons, List.mem_singleton, List.mem_map,
    List.not_mem_nil, or_false] at hall
  rcases hall with ((rfl | rfl) | ⟨e, he, rfl⟩) | rfl | rfl
  · exact CoinEntry.serialize_ne_keyBestBlock o hkey.symm
  · exact CoinEntry.serialize_ne_keyHeadBlocks o hkey.symm
  · rw [coinOp_key] at hkey
    exact ho (List.mem_map.mpr ⟨e, he, CoinEntry.serialize_injective hkey⟩)
  · exact CoinEntry.serialize_ne_keyHeadBlocks o hkey.symm
  · exact CoinEntry.serialize_ne_keyBestBlock o hkey.symm

def Attempt.durable (ext : Externals) (a : Attempt) (db : Db) : Option Db :=
  (batchWrite ext db a.mapCoins a.hashBlock a.batchSize).map fun r =>
    db.writeBatches (r.batches.take (a.crashAfter.getD r.batches.length))

theorem durable_get_of_not_written (ext : Externals) {o : COutPoint} :
    ∀ (later : List Attempt) (db D : Db),
      (∀ a ∈ later, o ∉ (a.mapCoins.entries.filter Written).map Prod.fst) →
      later.foldlM (fun db a => a.durable ext db) db = some D →
      D.get (CoinEntry.serialize o) = db.get (CoinEntry.serialize o)
  | [], db, D, _, hD => by cases hD; rfl
  | a :: later, db, D, hnot, hD => by
      simp only [List.foldlM_cons, Attempt.durable, Option.bind_eq_bind, Option.map_eq_map,
        Option.bind_map, Option.bind_eq_some] at hD
      obtain ⟨r, hr, hD⟩ := hD
      rw [durable_get_of_not_written ext later _ D (fun a' ha' => hnot a' (List.mem_cons_of_mem _ ha')) hD,
        batchWrite_take_get_of_not_written hr (hnot a (List.mem_cons_self _ _))]

/-! ## A spent coin after its commit -/

/-- After a commit erases a spent coin, `HaveCoin` answers as `HaveLoadedCoin` does for
its hash, and `GetCoin` finds it only through the overlay. -/
theorem batchWrite_spent_coin_answers_from_overlay (ext : Externals) (S L : Db)
    (mapCoins : CCoinsMap) (h : Uint256) (batchSize : Nat) (r : BatchWriteResult)
    (hr : batchWrite ext S mapCoins h batchSize = some r) {e : COutPoint × CCoinsCacheEntry}
    (he : e ∈ mapCoins.entries) (hdirty : e.2.IsDirty) (hnotLoaded : e.2.coin.fLoaded = false)
    (hspent : e.2.coin.IsSpent) (later : List Attempt)
    (hlater : ∀ a ∈ later, e.1 ∉ (a.mapCoins.entries.filter Written).map Prod.fst) (D : Db)
    (hD : later.foldlM (fun db a => a.durable ext db) (S.writeBatches r.batches) = some D)
    (coin : Coin) :
    haveCoin ext D L e.1 = haveLoadedCoin ext L (e.1.GetHash ext) ∧
      ((getCoin ext D L e.1 coin).1 = true → haveLoadedCoin ext L (e.1.GetHash ext) = true) := by
  have hw : Written e := by simp [Written, hdirty, hnotLoaded]
  have hnone : D.get (CoinEntry.serialize e.1) = none := by
    rw [durable_get_of_not_written ext later _ D hlater hD, batchWrite_get_written hr he hw]
    simp [coinOp, hspent, BatchOp.value?]
  refine ⟨haveCoin_of_get_none hnone, fun hget => ?_⟩
  rw [getCoin_of_get_none hnone, Bool.and_eq_true] at hget
  exact hget.1

def spentEntry : COutPoint × CCoinsCacheEntry :=
  (⟨Reference.tip, 0⟩, ⟨⟨CTxOut.null, 1, false, false⟩, DIRTY⟩)

def spentMap : CCoinsMap := ⟨[spentEntry], by simp⟩

def overlayDb (rec : LoadedCoin) : Db :=
  ⟨[(pairKey DB_LOADED_COINS (rec.out.GetHash Reference.ext), Reference.loadedCoinSer.ser rec)],
    List.pairwise_singleton _ _⟩

def snapshotCoin : LoadedCoin := ⟨⟨⟨50, []⟩, 1, false, false⟩, false, spentEntry.1⟩

theorem batchWrite_spent_coin_answers_from_overlay_snapshot :
    ∃ r, batchWrite Reference.ext Db.empty spentMap Reference.tip 0 = some r ∧
      spentEntry ∈ spentMap.entries ∧ spentEntry.2.IsDirty ∧
      spentEntry.2.coin.fLoaded = false ∧ spentEntry.2.coin.IsSpent ∧
      (haveCoin Reference.ext (Db.empty.writeBatches r.batches) (overlayDb snapshotCoin)
          spentEntry.1 = haveLoadedCoin Reference.ext (overlayDb snapshotCoin)
            (spentEntry.1.GetHash Reference.ext) ∧
        ((getCoin Reference.ext (Db.empty.writeBatches r.batches) (overlayDb snapshotCoin)
          spentEntry.1 snapshotCoin.coin).1 = true →
            haveLoadedCoin Reference.ext (overlayDb snapshotCoin)
              (spentEntry.1.GetHash Reference.ext) = true)) :=
  ⟨_, rfl, List.mem_singleton_self _, rfl, rfl, rfl,
    batchWrite_spent_coin_answers_from_overlay Reference.ext Db.empty (overlayDb snapshotCoin)
      spentMap Reference.tip 0 _ rfl (List.mem_singleton_self _) rfl rfl rfl []
      (fun _ ha => absurd ha (List.not_mem_nil _)) _ rfl _⟩

/-- The commit erases the coin and reports success, yet `GetCoin` and `HaveCoin` both
find it again, through the snapshot's record. -/
theorem spent_coin_resurfaces_from_overlay :
    ∃ r, batchWrite Reference.ext Db.empty spentMap Reference.tip 0 = some r ∧
      spentEntry ∈ spentMap.entries ∧ spentEntry.2.IsDirty ∧ spentEntry.2.coin.IsSpent ∧
      (getCoin Reference.ext (Db.empty.writeBatches r.batches) (overlayDb snapshotCoin)
        spentEntry.1 snapshotCoin.coin).1 = true ∧
      haveCoin Reference.ext (Db.empty.writeBatches r.batches) (overlayDb snapshotCoin)
        spentEntry.1 = true :=
  ⟨_, rfl, List.mem_singleton_self _, rfl, rfl, by decide, by decide⟩

/-! ## `HaveCoin` against `GetCoin` -/

/-- `HaveLoadedCoin` does not look at the record's spent flag: for an overlay record
marked spent, `HaveCoin` says yes and `GetCoin` no. -/
theorem haveCoin_ignores_spent_flag :
    haveCoin Reference.ext Db.empty (overlayDb { snapshotCoin with fSpent := true })
        spentEntry.1 = true ∧
      (getCoin Reference.ext Db.empty (overlayDb { snapshotCoin with fSpent := true })
        spentEntry.1 snapshotCoin.coin).1 = false := by
  decide

/-! ## `GetLoadedCoin` against a point read -/

def undecodableOverlay : Db :=
  ⟨[(pairKey DB_LOADED_COINS Reference.tip, [])], List.pairwise_singleton _ _⟩

/-- `GetLoadedCoin` reports a record found although its value does not decode. -/
theorem getLoadedCoin_ignores_getValue :
    undecodableOverlay.read Reference.loadedCoinSer (pairKey DB_LOADED_COINS Reference.tip) = none ∧
      (getLoadedCoin Reference.ext undecodableOverlay Reference.tip
        Reference.ext.loadedCoinInit).1 = true := by
  decide

end CCoinsViewDB
end TxDb
