import TxDb.LoadedCoinFile
import TxDb.Upgrade

/-!
# Writers on a failing engine

`CDBWrapper::WriteBatch` (dbwrapper.cpp, not in src/) persists a whole batch and returns
true, or persists nothing and throws `dbwrapper_error`.  A writer's calls then persist up
to the first failure, the crash states of the other modules.  `BatchWrite` and `Upgrade`
do not catch the exception and `ReadLoadedCoins` returns false, so none of the three
returns true after a lost batch (`writers_true_only_when_persisted`).
-/

namespace TxDb

/-- The `WriteBatch` calls `bs`, numbered from `i`, on an engine that persists the `j`-th
exactly when `ok j`: the durable state, and whether a call threw. -/
def Db.writeCalls (ok : Nat → Bool) : Nat → Db → List CDBBatch → Db × Bool
  | _, db, [] => (db, false)
  | i, db, b :: bs => if ok i then Db.writeCalls ok (i + 1) (db.writeBatch b) bs else (db, true)

theorem Db.writeCalls_prefix (ok : Nat → Bool) : ∀ (i : Nat) (db : Db) (bs : List CDBBatch),
    ∃ k ≤ bs.length, (∀ j < k, ok (i + j)) ∧ (k < bs.length → ok (i + k) = false) ∧
      Db.writeCalls ok i db bs = (db.writeBatches (bs.take k), decide (k < bs.length))
  | _, db, [] => ⟨0, le_rfl, by simp, by simp, rfl⟩
  | i, db, b :: bs => by
      by_cases hi : ok i
      · obtain ⟨k, hk, hok, hfail, h⟩ := Db.writeCalls_prefix ok (i + 1) (db.writeBatch b) bs
        have hshift : ∀ j, i + 1 + j = i + (j + 1) := fun j => by omega
        refine ⟨k + 1, by simpa using hk, fun j hj => ?_, fun hlt => ?_, ?_⟩
        · rcases j with _ | j
          · exact hi
          · exact hshift j ▸ hok j (by omega)
        · exact hshift k ▸ hfail (by simpa using hlt)
        · rw [Db.writeCalls, if_pos hi, h]
          simp [Db.writeBatches]
      · exact ⟨0, Nat.zero_le _, by simp, fun _ => by simpa using hi,
          by simp [Db.writeCalls, hi, Db.writeBatches]⟩

theorem Db.writeCalls_cases (ok : Nat → Bool) (db : Db) (bs : List CDBBatch) :
    Db.writeCalls ok 0 db bs = (db.writeBatches bs, false) ∨
      ∃ k < bs.length, Db.writeCalls ok 0 db bs = (db.writeBatches (bs.take k), true) := by
  obtain ⟨k, hk, -, -, h⟩ := Db.writeCalls_prefix ok 0 db bs
  rcases Nat.lt_or_ge k bs.length with hlt | hge
  · exact .inr ⟨k, hlt, by simp [h, hlt]⟩
  · exact .inl (by simp [h, List.take_of_length_le hge, Nat.not_lt.mpr hge])

theorem Db.writeCalls_all_ok : ∀ (i : Nat) (db : Db) (bs : List CDBBatch),
    Db.writeCalls (fun _ => true) i db bs = (db.writeBatches bs, false)
  | _, _, [] => rfl
  | i, db, _ :: bs => by
      rw [Db.writeCalls, if_pos rfl, Db.writeCalls_all_ok (i + 1) _ bs]
      rfl

namespace CCoinsViewDB

/-- `CCoinsViewDB::BatchWrite` on an engine that persists the `j`-th call exactly when
`ok j`; `none` when an `assert` aborts the process first. -/
def batchWriteOn (ext : Externals) (ok : Nat → Bool) (db : Db) (mapCoins : CCoinsMap)
    (hashBlock : Uint256) (batchSize : Nat) : Option (Db × UpgradeOutcome) :=
  (batchWrite ext db mapCoins hashBlock batchSize).map fun r =>
    match db.writeCalls ok 0 r.batches with
    | (db', true) => (db', .threw)
    | (db', false) => (db', .returned true)

/-- `CCoinsViewDB::ReadLoadedCoins` on an engine that persists the `j`-th call exactly
when `ok j`: a throw is caught and the import returns false. -/
def readLoadedCoinsOn (ext : Externals) (ok : Nat → Bool) (loadedDb : Db)
    (file : Option Bytes) : Db × Bool :=
  match loadedDb.writeCalls ok 0 (readLoadedCoins ext file).2 with
  | (db', true) => (db', false)
  | (db', false) => (db', (readLoadedCoins ext file).1)

/-- `CCoinsViewDB::Upgrade` on an engine that persists the `j`-th call exactly when
`ok j`. -/
def upgradeOn (ext : Externals) (sig : UpgradeSignals) (ok : Nat → Bool) (db : Db) :
    Db × UpgradeOutcome :=
  match db.writeCalls ok 0 (upgrade ext sig db).batches with
  | (db', true) => (db', .threw)
  | (db', false) => (db', (upgrade ext sig db).outcome)

variable {ext : Externals}

theorem batchWriteOn_cases {db : Db} {mapCoins : CCoinsMap} {h : Uint256} {batchSize : Nat}
    {r : BatchWriteResult} (hr : batchWrite ext db mapCoins h batchSize = some r)
    (ok : Nat → Bool) :
    batchWriteOn ext ok db mapCoins h batchSize = some (db.writeBatches r.batches, .returned true) ∨
      batchWriteOn ext ok db mapCoins h batchSize = some (db, .threw) ∨
      ∃ n ≤ (mapCoins.entries.filter Written).length,
        batchWriteOn ext ok db mapCoins h batchSize =
          some (inFlightState ext db ((mapCoins.entries.filter Written).take n) h (oldTip db),
            .threw) := by
  rw [batchWriteOn, hr, Option.map_some']
  rcases Db.writeCalls_cases ok db r.batches with hall | ⟨k, hk, hthrew⟩
  · exact .inl (by rw [hall])
  rw [hthrew]
  rcases batchWrite_durable hr k with ⟨-, hS⟩ | ⟨hle, -⟩ | ⟨-, -, n, hn, hS⟩
  · exact .inr (.inl (by rw [hS]))
  · omega
  · exact .inr (.inr ⟨n, hn, by rw [hS]⟩)

/-- The marker batch persists, the coin's batch fails: the commit throws. -/
example : (batchWriteOn Reference.ext (fun j => j == 0) Db.empty oneEntryMap Reference.tip 0).map
    Prod.snd = some .threw := by decide

theorem readLoadedCoinsOn_cases (ok : Nat → Bool) (loadedDb : Db) (file : Option Bytes) :
    readLoadedCoinsOn ext ok loadedDb file =
        (loadedDb.writeBatches (readLoadedCoins ext file).2, (readLoadedCoins ext file).1) ∨
      ∃ k < (readLoadedCoins ext file).2.length, readLoadedCoinsOn ext ok loadedDb file =
        (loadedDb.writeBatches ((readLoadedCoins ext file).2.take k), false) := by
  rw [readLoadedCoinsOn]
  rcases Db.writeCalls_cases ok loadedDb (readLoadedCoins ext file).2 with hall | ⟨k, hk, hthrew⟩
  · exact .inl (by rw [hall])
  · exact .inr ⟨k, hk, by rw [hthrew]⟩

/-- The import of a one-record file fails at its second call and returns false. -/
example : (readLoadedCoins Reference.ext (some staleFile)).1 = true ∧
    (readLoadedCoinsOn Reference.ext (fun j => j == 0) Db.empty (some staleFile)).2 = false := by
  decide

theorem upgradeOn_cases (sig : UpgradeSignals) (ok : Nat → Bool) (db : Db) :
    upgradeOn ext sig ok db = (db.writeBatches (upgrade ext sig db).batches, (upgrade ext sig db).outcome) ∨
      ∃ k < (upgrade ext sig db).batches.length, upgradeOn ext sig ok db =
        (db.writeBatches ((upgrade ext sig db).batches.take k), .threw) := by
  rw [upgradeOn]
  rcases Db.writeCalls_cases ok db (upgrade ext sig db).batches with hall | ⟨k, hk, hthrew⟩
  · exact .inl (by rw [hall])
  · exact .inr ⟨k, hk, by rw [hthrew]⟩

/-- **A writer returns true only with every batch persisted.**  `BatchWrite` that loses a
batch throws, leaving the chainstate unchanged or a commit in flight. -/
theorem writers_true_only_when_persisted (ext : Externals) (ok : Nat → Bool) :
    (∀ db mapCoins h batchSize r, batchWrite ext db mapCoins h batchSize = some r →
      ∀ db' out, batchWriteOn ext ok db mapCoins h batchSize = some (db', out) →
        (out = .returned true ∧ db' = db.writeBatches r.batches) ∨
          (out = .threw ∧ (db' = db ∨ ∃ n ≤ (mapCoins.entries.filter Written).length,
            db' = inFlightState ext db ((mapCoins.entries.filter Written).take n) h (oldTip db)))) ∧
      (∀ loadedDb file db', readLoadedCoinsOn ext ok loadedDb file = (db', true) →
        db' = loadedDb.writeBatches (readLoadedCoins ext file).2) ∧
      (∀ sig db db', upgradeOn ext sig ok db = (db', .returned true) →
        db' = db.writeBatches (upgrade ext sig db).batches) := by
  refine ⟨fun db mapCoins h batchSize r hr db' out hout => ?_, fun loadedDb file db' h => ?_,
    fun sig db db' h => ?_⟩
  · rcases batchWriteOn_cases hr ok with h | h | ⟨n, hn, h⟩ <;> rw [h] at hout <;>
      obtain ⟨rfl, rfl⟩ := Prod.mk.inj (Option.some.inj hout)
    · exact .inl ⟨rfl, rfl⟩
    · exact .inr ⟨rfl, .inl rfl⟩
    · exact .inr ⟨rfl, .inr ⟨n, hn, rfl⟩⟩
  · rcases readLoadedCoinsOn_cases ok loadedDb file with h' | ⟨k, -, h'⟩ <;> rw [h'] at h
    · exact (Prod.mk.inj h).1.symm
    · cases (Prod.mk.inj h).2
  · rcases upgradeOn_cases sig ok db with h' | ⟨k, -, h'⟩ <;> rw [h'] at h
    · exact (Prod.mk.inj h).1.symm
    · cases (Prod.mk.inj h).2

end CCoinsViewDB
end TxDb
