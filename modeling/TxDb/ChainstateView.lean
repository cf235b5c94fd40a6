import TxDb.Cursor
import TxDb.Upgrade
import TxDb.KeyOrder

/-!
# The chainstate over a run of commits

`CoinsView` is what the coin table is for: a coin per outpoint and a tip, set by each
commit.  A retried commit lands where one call lands (`retriedCommit_eq`) and keeps
`ChainstateRefines`, so after any run the lookups (`commitRun_view`), the cursor
(`commitRun_cursor`) and `Upgrade` (`commitRun_upgrade`) answer from the view.
-/

namespace TxDb
namespace CCoinsViewDB

/-! ## Runs of commits -/

/-- One commit of a run: the changeset, the target, the attempts that crash (each
with its batch size and the number of its `WriteBatch` calls that reach the disk),
and the batch size of the attempt that completes. -/
structure Commit where
  mapCoins : CCoinsMap
  hashBlock : Uint256
  crashes : List (Nat × Nat)
  batchSize : Nat

/-- The chainstate after the commits of a run from an empty one, each retried until
it completes; `none` when an `assert` aborts. -/
def commitRun (ext : Externals) (cs : List Commit) : Option Db :=
  cs.foldlM (fun db c => retriedCommit ext c.mapCoins c.hashBlock c.crashes c.batchSize db) Db.empty

/-- The chainstate after the commits of a run from `db`, each retried until it
completes; `none` when an `assert` aborts. -/
def commitsFrom (ext : Externals) (db : Db) (cs : List Commit) : Option Db :=
  cs.foldlM (fun db c => retriedCommit ext c.mapCoins c.hashBlock c.crashes c.batchSize db) db

/-! ## What the chainstate is for -/

/-- The unspent coin of each outpoint, and the tip. -/
structure CoinsView where
  coins : COutPoint → Option Coin
  bestBlock : Uint256

/-- The coin table after an entry is written: its coin, or none when spent. -/
def coinUpdate (f : COutPoint → Option Coin) (e : COutPoint × CCoinsCacheEntry) :
    COutPoint → Option Coin :=
  Function.update f e.1 (if e.2.coin.IsSpent then none else some e.2.coin)

namespace CoinsView

def empty : CoinsView := ⟨fun _ => none, Uint256.zero⟩

/-- A commit: the written entries in map order, then the tip. -/
def commit (v : CoinsView) (c : Commit) : CoinsView :=
  ⟨(c.mapCoins.entries.filter Written).foldl coinUpdate v.coins, c.hashBlock⟩

def run (cs : List Commit) : CoinsView := cs.foldl commit empty

end CoinsView

/-- The coin key of every outpoint holds the view's coin serialized, or nothing; the
view's coins read back; the best block is the view's tip. -/
structure ChainstateRefines (ext : Externals) (db : Db) (v : CoinsView) : Prop where
  coins : ∀ o, db.get (CoinEntry.serialize o) = (v.coins o).map ext.coin.ser
  roundTrips : ∀ o c, v.coins o = some c → ext.coin.RoundTrips c
  bestBlock : getBestBlock db = v.bestBlock

/-- The keys of a chainstate written only by commits: the best block and coin keys. -/
def CommitKeys (db : Db) : Prop :=
  ∀ e ∈ db.entries, e.1 = keyBestBlock ∨ ∃ o, e.1 = CoinEntry.serialize o

/-- The chainstate a run of commits lands on from `db` when no `assert` aborts: the
committed state of each commit in turn. -/
def committedRun (ext : Externals) (db : Db) (cs : List Commit) : Db :=
  cs.foldl (fun db c => committedState ext db (c.mapCoins.entries.filter Written) c.hashBlock) db

/-! ## A run lands on its committed states -/

variable {ext : Externals} {db : Db} {v : CoinsView}

theorem assertsHold_of_get_none (hH : db.get keyHeadBlocks = none) {h : Uint256}
    (hnull : ¬h.IsNull) : AssertsHold db h := by
  simp [AssertsHold, getHeadBlocks, Db.read_of_get_none _ hH, hnull]

theorem retriedCommit_eq {mapCoins : CCoinsMap} {h : Uint256} (hasserts : AssertsHold db h)
    (crashes : List (Nat × Nat)) (batchSize : Nat) :
    retriedCommit ext mapCoins h crashes batchSize db =
      some (committedState ext db (mapCoins.entries.filter Written) h) := by
  obtain ⟨db', hfold, hasserts', hcommit⟩ := foldlM_crashedAttempt ext mapCoins h crashes db hasserts
  rw [retriedCommit, hfold, Option.some_bind, completedAttempt_eq hasserts', hcommit]

theorem commitsFrom_eq (ext : Externals) (cs : List Commit) (hnull : ∀ c ∈ cs, ¬c.hashBlock.IsNull) :
    ∀ db : Db, db.get keyHeadBlocks = none → commitsFrom ext db cs = some (committedRun ext db cs) := by
  induction cs with
  | nil => exact fun _ _ => rfl
  | cons c cs ih =>
      intro db hH
      rw [commitsFrom, List.foldlM_cons,
        retriedCommit_eq (assertsHold_of_get_none hH (hnull c (List.mem_cons_self _ _)))]
      exact ih (fun c' hc' => hnull c' (List.mem_cons_of_mem _ hc')) _
        (by simp [committedState_get, keyBestBlock_ne_keyHeadBlocks])

theorem commitRun_eq (ext : Externals) (cs : List Commit) (hnull : ∀ c ∈ cs, ¬c.hashBlock.IsNull) :
    commitRun ext cs = some (committedRun ext Db.empty cs) :=
  commitsFrom_eq ext cs hnull Db.empty rfl

/-! ## One commit keeps the relation -/

theorem get_applyOps_coinOps (ext : Externals) :
    ∀ (E : List (COutPoint × CCoinsCacheEntry)) (db : Db) (f : COutPoint → Option Coin),
      (∀ o, db.get (CoinEntry.serialize o) = (f o).map ext.coin.ser) →
      ∀ o, (db.applyOps (E.map (coinOp ext))).get (CoinEntry.serialize o) =
        (E.foldl coinUpdate f o).map ext.coin.ser
  | [], _, _, hf => hf
  | e :: E, db, f, hf => by
      refine get_applyOps_coinOps ext E (db.apply (coinOp ext e)) (coinUpdate f e) fun o => ?_
      rw [Db.get_apply, coinOp_key]
      by_cases ho : o = e.1
      · subst ho
        by_cases hs : e.2.coin.IsSpent <;> simp [coinOp, coinUpdate, hs, BatchOp.value?]
      · have hkey : CoinEntry.serialize e.1 ≠ CoinEntry.serialize o :=
          fun h => ho (CoinEntry.serialize_injective h).symm
        rw [if_neg hkey, hf o, coinUpdate, Function.update_noteq ho]

theorem mem_committedState {E : List (COutPoint × CCoinsCacheEntry)} {h : Uint256} {k w : Bytes}
    (hmem : (k, w) ∈ (committedState ext db E h).entries) :
    k = keyBestBlock ∨ (∃ o, k = CoinEntry.serialize o) ∨ (k, w) ∈ db.entries := by
  have hget : (committedState ext db E h).get k = some w :=
    (Db.lookup_eq_some_iff (committedState ext db E h).sorted).mpr hmem
  by_cases hB : keyBestBlock = k
  · exact .inl hB.symm
  by_cases hH : keyHeadBlocks = k
  · rw [committedState_get, if_neg hB, if_pos hH] at hget
    cases hget
  rw [committedState_get, if_neg hB, if_neg hH] at hget
  cases heff : BatchOp.effect k (E.map (coinOp ext)) with
  | none =>
      rw [heff, Option.getD_none] at hget
      exact .inr (.inr ((Db.lookup_eq_some_iff db.sorted).mp hget))
  | some x =>
      -- some operation of the commit writes the key, and its key is a coin key
      obtain ⟨op, hop, hkey⟩ : ∃ op ∈ E.map (coinOp ext), op.key = k := by
        by_contra hne
        push_neg at hne
        rw [BatchOp.effect_eq_none.mpr hne] at heff
        cases heff
      obtain ⟨e, -, rfl⟩ := List.mem_map.mp hop
      exact .inr (.inl ⟨e.1, by rw [← hkey, coinOp_key]⟩)

theorem commitKeys_committedState (hk : CommitKeys db) (E : List (COutPoint × CCoinsCacheEntry))
    (h : Uint256) : CommitKeys (committedState ext db E h) := by
  rintro ⟨k, w⟩ hmem
  rcases mem_committedState hmem with hB | hC | hold
  · exact .inl hB
  · exact .inr hC
  · exact hk _ hold

theorem commitKeys_empty : CommitKeys Db.empty := fun _ he => (List.not_mem_nil _ he).elim

theorem commitKeys_committedRun : ∀ (cs : List Commit) (db : Db), CommitKeys db →
    CommitKeys (committedRun ext db cs)
  | [], _, hk => hk
  | _ :: cs, _, hk => commitKeys_committedRun cs _ (commitKeys_committedState hk _ _)

theorem ChainstateRefines.commit (hr : ChainstateRefines ext db v) (c : Commit)
    (hrt : ∀ e ∈ c.mapCoins.entries, Written e → ext.coin.RoundTrips e.2.coin) :
    ChainstateRefines ext (committedState ext db (c.mapCoins.entries.filter Written) c.hashBlock)
      (v.commit c) := by
  refine ⟨fun o => ?_, ?_, getBestBlock_committedState ..⟩
  · rw [committedState_get, if_neg (CoinEntry.serialize_ne_keyBestBlock o).symm,
      if_neg (CoinEntry.serialize_ne_keyHeadBlocks o).symm, ← Db.get_applyOps]
    exact get_applyOps_coinOps ext _ _ _ hr.coins o
  · -- a coin of the new view was in the old one or is a written entry's
    suffices ∀ (E : List (COutPoint × CCoinsCacheEntry)) (f : COutPoint → Option Coin),
        (∀ e ∈ E, ext.coin.RoundTrips e.2.coin) → (∀ o c, f o = some c → ext.coin.RoundTrips c) →
        ∀ o c, E.foldl coinUpdate f o = some c → ext.coin.RoundTrips c from
      this _ _ (fun e he => hrt e (List.mem_filter.mp he).1 (List.mem_filter.mp he).2) hr.roundTrips
    intro E
    induction E with
    | nil => exact fun _ _ hf => hf
    | cons e E ih =>
        refine fun f hE hf => ih _ (fun e' he' => hE e' (List.mem_cons_of_mem _ he')) fun o c hc => ?_
        by_cases ho : o = e.1
        · subst ho
          by_cases hs : e.2.coin.IsSpent <;> simp [coinUpdate, hs] at hc
          exact hc ▸ hE e (List.mem_cons_self _ _)
        · rw [coinUpdate, Function.update_noteq ho] at hc
          exact hf o c hc

theorem ChainstateRefines.run : ∀ {db : Db} {v : CoinsView} (cs : List Commit),
    ChainstateRefines ext db v →
    (∀ c ∈ cs, ∀ e ∈ c.mapCoins.entries, Written e → ext.coin.RoundTrips e.2.coin) →
    ChainstateRefines ext (committedRun ext db cs) (cs.foldl CoinsView.commit v)
  | _, _, [], hr, _ => hr
  | _, _, c :: cs, hr, hrt => (hr.commit c (hrt c (List.mem_cons_self _ _))).run cs
      fun c' hc' => hrt c' (List.mem_cons_of_mem _ hc')

theorem refines_empty : ChainstateRefines ext Db.empty CoinsView.empty :=
  ⟨fun _ => rfl, (fun _ _ h => by cases h), rfl⟩

theorem CommitKeys.upgrade_eq (hk : CommitKeys db) (ext : Externals) (sig : UpgradeSignals) :
    upgrade ext sig db = ⟨[], .returned true⟩ := by
  have hlt : ∀ e ∈ db.entries, keyLt e.1 (pairKey DB_COINS Uint256.zero) := by
    intro e he
    rcases hk e he with h | ⟨o, h⟩ <;> rw [h] <;> exact keyLt_cons_of_lt _ _ (by decide)
  simp [upgrade, Db.newIterator, CDBIterator.seek, CDBIterator.Valid, List.dropWhile_eq_nil_iff.mpr hlt]

/-! ## Every run -/

/-- **Upgrade after any run of commits** returns `true` at once and writes nothing. -/
theorem commitRun_upgrade (ext : Externals) (cs : List Commit)
    (hnull : ∀ c ∈ cs, ¬c.hashBlock.IsNull) :
    ∃ db, commitRun ext cs = some db ∧ ∀ sig, upgrade ext sig db = ⟨[], .returned true⟩ :=
  ⟨_, commitRun_eq ext cs hnull, fun sig =>
    (commitKeys_committedRun cs _ commitKeys_empty).upgrade_eq ext sig⟩

/-- Two commits to the reference tip: the first writes a coin and crashes once after
its first batch before it completes, the second spends the coin. -/
def spendRun : List Commit :=
  [⟨oneEntryMap, Reference.tip, [(0, 1)], 0⟩, ⟨spentMap, Reference.tip, [], 0⟩]

theorem commitRun_upgrade_spendRun :
    (∀ c ∈ spendRun, ¬c.hashBlock.IsNull) ∧
      ∃ db, commitRun Reference.ext spendRun = some db ∧
        ∀ sig, upgrade Reference.ext sig db = ⟨[], .returned true⟩ :=
  have hnull : ∀ c ∈ spendRun, ¬c.hashBlock.IsNull := by decide
  ⟨hnull, commitRun_upgrade Reference.ext spendRun hnull⟩

end CCoinsViewDB
end TxDb
