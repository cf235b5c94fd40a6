import TxDb.BatchWrite

/-!
# Runs of commits: crashes, restarts and retries

A run is a sequence of `BatchWrite` calls, each cut off after some `WriteBatch` calls or
completed.  Retries converge (`batchWrite_retries_converge`), and every state a run reaches
is steady, transitional or pristine (`reachable_tipConsistent`).
-/

namespace TxDb
namespace CCoinsViewDB

/-! ## Reads of the two crash states -/

theorem committedState_get (ext : Externals) (db : Db) (E : List (COutPoint × CCoinsCacheEntry))
    (h : Uint256) (k : Bytes) :
    (committedState ext db E h).get k =
      if keyBestBlock = k then some h.data
      else if keyHeadBlocks = k then none
      else (BatchOp.effect k (E.map (coinOp ext))).getD (db.get k) := by
  simp [committedState, Db.get_applyOps]

theorem inFlightState_get (ext : Externals) (db : Db) (E : List (COutPoint × CCoinsCacheEntry))
    (h t : Uint256) (k : Bytes) :
    (inFlightState ext db E h t).get k =
      if keyHeadBlocks = k then some (headBlocksValue h t)
      else if keyBestBlock = k then none
      else (BatchOp.effect k (E.map (coinOp ext))).getD (db.get k) := by
  simp [inFlightState, Db.get_applyOps]

theorem getBestBlock_committedState (ext : Externals) (db : Db)
    (E : List (COutPoint × CCoinsCacheEntry)) (h : Uint256) :
    getBestBlock (committedState ext db E h) = h := by
  simp [getBestBlock, Db.read, committedState_get, read_hash]

theorem read_committedState (ext : Externals) (db : Db) (E : List (COutPoint × CCoinsCacheEntry))
    (h : Uint256) :
    (committedState ext db E h).read Uint256.serializer keyBestBlock = some h ∧
      (committedState ext db E h).get keyHeadBlocks = none := by
  simp [Db.read, committedState_get, read_hash, keyBestBlock_ne_keyHeadBlocks]

theorem read_inFlightState (ext : Externals) (db : Db) (E : List (COutPoint × CCoinsCacheEntry))
    (h t : Uint256) :
    (inFlightState ext db E h t).get keyBestBlock = none ∧
      (inFlightState ext db E h t).read Uint256.serializer.vector keyHeadBlocks = some [h, t] := by
  simp [Db.read, inFlightState_get, read_headBlocksValue, keyBestBlock_ne_keyHeadBlocks.symm]

theorem assertsHold_committedState {h : Uint256} (hnull : ¬h.IsNull) (ext : Externals) (db : Db)
    (E : List (COutPoint × CCoinsCacheEntry)) : AssertsHold (committedState ext db E h) h := by
  simp [AssertsHold, getBestBlock_committedState, hnull]

theorem assertsHold_inFlightState {h : Uint256} (hnull : ¬h.IsNull) (ext : Externals) (db : Db)
    (E : List (COutPoint × CCoinsCacheEntry)) (t : Uint256) :
    AssertsHold (inFlightState ext db E h t) h := by
  have ⟨hB, hH⟩ := read_inFlightState ext db E h t
  simp [AssertsHold, getBestBlock, getHeadBlocks, Db.read_of_get_none _ hB, hH, hnull]

theorem hashBlock_not_null {db : Db} {h : Uint256} (hasserts : AssertsHold db h) :
    ¬h.IsNull := by
  simp only [AssertsHold, Bool.and_eq_true, Bool.not_eq_true'] at hasserts
  simp [hasserts.1]

/-! ## Retrying a commit -/

/-- A `BatchWrite` call from `db` with batch size `attempt.1`, cut off after
`attempt.2` of its `WriteBatch` calls. -/
def crashedAttempt (ext : Externals) (mapCoins : CCoinsMap) (h : Uint256) (db : Db)
    (attempt : Nat × Nat) : Option Db :=
  (batchWrite ext db mapCoins h attempt.1).map fun r => db.writeBatches (r.batches.take attempt.2)

def completedAttempt (ext : Externals) (mapCoins : CCoinsMap) (h : Uint256) (batchSize : Nat)
    (db : Db) : Option Db :=
  (batchWrite ext db mapCoins h batchSize).map fun r => db.writeBatches r.batches

/-- The same commit retried after each crash until a call completes. -/
def retriedCommit (ext : Externals) (mapCoins : CCoinsMap) (h : Uint256)
    (crashes : List (Nat × Nat)) (batchSize : Nat) (S : Db) : Option Db :=
  (crashes.foldlM (crashedAttempt ext mapCoins h) S).bind (completedAttempt ext mapCoins h batchSize)

theorem effect_take_eq_none {k : Bytes} {ops : List BatchOp} (n : Nat)
    (h : BatchOp.effect k ops = none) : BatchOp.effect k (ops.take n) = none :=
  BatchOp.effect_eq_none.mpr fun op hop =>
    BatchOp.effect_eq_none.mp h op (List.mem_of_mem_take hop)

theorem committedState_inFlightState (ext : Externals) (db : Db)
    (E : List (COutPoint × CCoinsCacheEntry)) (n : Nat) (h t : Uint256) :
    committedState ext (inFlightState ext db (E.take n) h t) E h = committedState ext db E h := by
  apply Db.ext
  intro k
  rw [committedState_get, committedState_get, inFlightState_get]
  split_ifs with hB hH
  · rfl
  · rfl
  · cases heff : BatchOp.effect k (E.map (coinOp ext)) with
    | some e => rfl
    | none =>
        rw [List.map_take, effect_take_eq_none n heff]
        rfl

theorem committedState_idem (ext : Externals) (db : Db) (E : List (COutPoint × CCoinsCacheEntry))
    (h : Uint256) :
    committedState ext (committedState ext db E h) E h = committedState ext db E h := by
  apply Db.ext
  intro k
  rw [committedState_get, committedState_get]
  split_ifs with hB hH
  · rfl
  · rfl
  · cases BatchOp.effect k (E.map (coinOp ext)) <;> rfl

theorem completedAttempt_eq {ext : Externals} {mapCoins : CCoinsMap} {h : Uint256}
    {batchSize : Nat} {db : Db} (hasserts : AssertsHold db h) :
    completedAttempt ext mapCoins h batchSize db =
      some (committedState ext db (mapCoins.entries.filter Written) h) := by
  obtain ⟨r, hr⟩ : ∃ r, batchWrite ext db mapCoins h batchSize = some r := ⟨_, if_pos hasserts⟩
  rcases batchWrite_durable hr r.batches.length with ⟨hk, -⟩ | ⟨-, hS⟩ | ⟨-, hlt, -⟩
  · exact absurd hk (batchWrite_length_pos hr).ne'
  · rw [completedAttempt, hr, Option.map_some', ← hS, List.take_length]
  · exact absurd hlt (lt_irrefl _)

theorem crashedAttempt_spec {ext : Externals} {mapCoins : CCoinsMap} {h : Uint256} {db db' : Db}
    {attempt : Nat × Nat} (hasserts : AssertsHold db h)
    (hstep : crashedAttempt ext mapCoins h db attempt = some db') :
    AssertsHold db' h ∧
      committedState ext db' (mapCoins.entries.filter Written) h =
        committedState ext db (mapCoins.entries.filter Written) h := by
  have hnull := hashBlock_not_null hasserts
  have hr : batchWrite ext db mapCoins h attempt.1 = some _ := if_pos hasserts
  rw [crashedAttempt, hr, Option.map_some', Option.some.injEq] at hstep
  subst hstep
  rcases batchWrite_durable hr attempt.2 with ⟨-, hS⟩ | ⟨-, hS⟩ | ⟨-, -, n, -, hS⟩ <;> rw [hS]
  · exact ⟨hasserts, rfl⟩
  · exact ⟨assertsHold_committedState hnull .., committedState_idem ..⟩
  · exact ⟨assertsHold_inFlightState hnull .., committedState_inFlightState ..⟩

theorem foldlM_crashedAttempt (ext : Externals) (mapCoins : CCoinsMap) (h : Uint256) :
    ∀ (crashes : List (Nat × Nat)) (db : Db), AssertsHold db h →
      ∃ db', crashes.foldlM (crashedAttempt ext mapCoins h) db = some db' ∧ AssertsHold db' h ∧
        committedState ext db' (mapCoins.entries.filter Written) h =
          committedState ext db (mapCoins.entries.filter Written) h
  | [], db, hasserts => ⟨db, rfl, hasserts, rfl⟩
  | a :: crashes, db, hasserts => by
      obtain ⟨db₁, hdb₁⟩ : ∃ db₁, crashedAttempt ext mapCoins h db a = some db₁ := by
        simp [crashedAttempt, batchWrite, hasserts]
      obtain ⟨hasserts₁, hcommit₁⟩ := crashedAttempt_spec hasserts hdb₁
      obtain ⟨db', hfold, hasserts', hcommit'⟩ :=
        foldlM_crashedAttempt ext mapCoins h crashes db₁ hasserts₁
      exact ⟨db', by simp [List.foldlM, hdb₁, hfold], hasserts', hcommit'.trans hcommit₁⟩

/-- **Retries converge**: crashed attempts of one changeset, then one that completes, leave
what one uninterrupted call leaves. -/
theorem batchWrite_retries_converge (ext : Externals) (S : Db) (mapCoins : CCoinsMap)
    (h : Uint256) (hasserts : AssertsHold S h) (crashes : List (Nat × Nat))
    (batchSize batchSize₀ : Nat) :
    completedAttempt ext mapCoins h batchSize₀ S =
        some (committedState ext S (mapCoins.entries.filter Written) h) ∧
      retriedCommit ext mapCoins h crashes batchSize S = completedAttempt ext mapCoins h batchSize₀ S := by
  rw [completedAttempt_eq hasserts]
  obtain ⟨db', hfold, hasserts', hcommit⟩ := foldlM_crashedAttempt ext mapCoins h crashes S hasserts
  exact ⟨rfl, by rw [retriedCommit, hfold, Option.some_bind, completedAttempt_eq hasserts', hcommit]⟩

theorem batchWrite_retries_converge_interrupted :
    AssertsHold interruptedDb Reference.tip ∧
      completedAttempt Reference.ext oneEntryMap Reference.tip 0 interruptedDb =
          some (committedState Reference.ext interruptedDb (oneEntryMap.entries.filter Written)
            Reference.tip) ∧
        retriedCommit Reference.ext oneEntryMap Reference.tip [(0, 1)] 0 interruptedDb =
          completedAttempt Reference.ext oneEntryMap Reference.tip 0 interruptedDb :=
  have hasserts : AssertsHold interruptedDb Reference.tip := by decide
  ⟨hasserts, batchWrite_retries_converge Reference.ext interruptedDb oneEntryMap Reference.tip
    hasserts [(0, 1)] 0 0⟩

/-! ## Runs from an empty chainstate -/

/-- One `BatchWrite` call of a run: changeset, target, batch size, and how many of
its `WriteBatch` calls reach the disk before a crash (`none`: it completes). -/
structure Attempt where
  mapCoins : CCoinsMap
  hashBlock : Uint256
  batchSize : Nat
  crashAfter : Option Nat

/-- What a run's durable state should reflect: the tip of the last steady state
(zero before any), the target of a commit cut off since then, the targets of the
commits that ran to completion, and whether any batch has reached the disk. -/
structure TipHistory where
  lastTip : Uint256
  interrupted : Option Uint256
  completed : List Uint256
  written : Bool

def TipHistory.initial : TipHistory := ⟨Uint256.zero, none, [], false⟩

def TipHistory.record (hist : TipHistory) (a : Attempt) (n : Nat) : TipHistory :=
  if a.crashAfter.getD n = 0 then hist
  else if a.crashAfter.getD n < n then { hist with interrupted := some a.hashBlock, written := true }
  else ⟨a.hashBlock, none, a.hashBlock :: hist.completed, true⟩

theorem TipHistory.record_of_zero {hist : TipHistory} {a : Attempt} {n : Nat}
    (hk : a.crashAfter.getD n = 0) : hist.record a n = hist := by
  simp [record, hk]

theorem TipHistory.record_of_lt {hist : TipHistory} {a : Attempt} {n : Nat}
    (hk0 : 0 < a.crashAfter.getD n) (hk : a.crashAfter.getD n < n) :
    hist.record a n = { hist with interrupted := some a.hashBlock, written := true } := by
  simp [record, hk0.ne', hk]

theorem TipHistory.record_of_le {hist : TipHistory} {a : Attempt} {n : Nat} (hn : 0 < n)
    (hk : n ≤ a.crashAfter.getD n) :
    hist.record a n = ⟨a.hashBlock, none, a.hashBlock :: hist.completed, true⟩ := by
  simp [record, show a.crashAfter.getD n ≠ 0 by omega, Nat.not_lt.mpr hk]

/-- The durable states of runs from an empty chainstate, with their histories.  A
step is a call whose `assert`s hold: a non-null target, equal to the first hash of
`'H'` when the store is transitional. -/
inductive Reachable (ext : Externals) : Db → TipHistory → Prop
  | empty : Reachable ext Db.empty TipHistory.initial
  | attempt {db : Db} {hist : TipHistory} (a : Attempt) {r : BatchWriteResult} :
      Reachable ext db hist →
      batchWrite ext db a.mapCoins a.hashBlock a.batchSize = some r →
      Reachable ext (db.writeBatches (r.batches.take (a.crashAfter.getD r.batches.length)))
        (hist.record a r.batches.length)

/-- The tip markers along a run, tied to its history: steady at the last completed
tip, in transition from it to the interrupted target, or untouched. -/
def TipConsistent (db : Db) (hist : TipHistory) : Prop :=
  (db.get keyBestBlock = some hist.lastTip.data ∧ db.get keyHeadBlocks = none ∧
      hist.interrupted = none ∧ hist.written ∧ hist.lastTip ∈ hist.completed) ∨
    (∃ h, db.get keyBestBlock = none ∧
      db.get keyHeadBlocks = some (headBlocksValue h hist.lastTip) ∧
      hist.interrupted = some h ∧ hist.written) ∨
    (db.get keyBestBlock = none ∧ db.get keyHeadBlocks = none ∧ hist = TipHistory.initial)

theorem TipConsistent.oldTip_eq {db : Db} {hist : TipHistory} (hcons : TipConsistent db hist) :
    oldTip db = hist.lastTip := by
  rcases hcons with ⟨hB, hH, -⟩ | ⟨h, hB, hH, -⟩ | ⟨hB, hH, rfl⟩
  · simp [oldTip, getBestBlock, getHeadBlocks, Db.read, hB, hH, read_hash]
  · simp [oldTip, getBestBlock, getHeadBlocks, Db.read, hB, hH, read_headBlocksValue]
  · simp [oldTip, getBestBlock, getHeadBlocks, Db.read, hB, hH, TipHistory.initial]

theorem TipConsistent.attempt {ext : Externals} {db : Db} {hist : TipHistory} (a : Attempt)
    {r : BatchWriteResult} (hcons : TipConsistent db hist)
    (hr : batchWrite ext db a.mapCoins a.hashBlock a.batchSize = some r) :
    TipConsistent (db.writeBatches (r.batches.take (a.crashAfter.getD r.batches.length)))
      (hist.record a r.batches.length) := by
  rcases batchWrite_durable hr (a.crashAfter.getD r.batches.length)
    with ⟨hk, hS⟩ | ⟨hk, hS⟩ | ⟨hk0, hk, n, -, hS⟩ <;> rw [hS]
  · rwa [TipHistory.record_of_zero hk]
  · rw [TipHistory.record_of_le (batchWrite_length_pos hr) hk]
    exact .inl ⟨by simp [committedState_get],
      (read_committedState ext db _ a.hashBlock).2, rfl, rfl, List.mem_cons_self _ _⟩
  · rw [TipHistory.record_of_lt hk0 hk, hcons.oldTip_eq]
    refine .inr (.inl ⟨a.hashBlock, ?_⟩)
    simp [inFlightState_get, keyBestBlock_ne_keyHeadBlocks, keyBestBlock_ne_keyHeadBlocks.symm]

/-- **The tip markers along any run**: every reachable state is steady, transitional or
pristine, and `'B'` only holds a completed target. -/
theorem reachable_tipConsistent {ext : Externals} {db : Db} {hist : TipHistory}
    (hreach : Reachable ext db hist) :
    TipConsistent db hist ∧ ∀ v, db.get keyBestBlock = some v → ∃ t ∈ hist.completed, v = t.data := by
  have hcons : TipConsistent db hist := by
    induction hreach with
    | empty => exact .inr (.inr ⟨rfl, rfl, rfl⟩)
    | attempt a _ hr ih => exact ih.attempt a hr
  refine ⟨hcons, fun v hv => ?_⟩
  rcases hcons with ⟨hB, -, -, -, hmem⟩ | ⟨-, hB, -⟩ | ⟨hB, -⟩ <;> rw [hB] at hv
  · exact ⟨hist.lastTip, hmem, (Option.some.inj hv).symm⟩
  · cases hv
  · cases hv

theorem reachable_tipConsistent_retried :
    ∃ db₁ hist₁ db₂ hist₂,
      Reachable Reference.ext db₁ hist₁ ∧ hist₁.interrupted = some Reference.tip ∧
      Reachable Reference.ext db₂ hist₂ ∧ hist₂.completed = [Reference.tip] ∧
      (TipConsistent db₁ hist₁ ∧
        ∀ v, db₁.get keyBestBlock = some v → ∃ t ∈ hist₁.completed, v = t.data) ∧
      (TipConsistent db₂ hist₂ ∧
        ∀ v, db₂.get keyBestBlock = some v → ∃ t ∈ hist₂.completed, v = t.data) := by
  have h₁ : Reachable Reference.ext _ _ :=
    .attempt ⟨oneEntryMap, Reference.tip, 0, some 1⟩ .empty rfl
  have h₂ : Reachable Reference.ext _ _ := .attempt ⟨oneEntryMap, Reference.tip, 0, none⟩ h₁ rfl
  exact ⟨_, _, _, _, h₁, rfl, h₂, rfl, reachable_tipConsistent h₁, reachable_tipConsistent h₂⟩

end CCoinsViewDB
end TxDb
