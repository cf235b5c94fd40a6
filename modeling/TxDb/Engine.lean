import TxDb.Serialize

/-!
# The ordered key-value engine

`CDBWrapper` over leveldb, as `txdb.cpp` consumes it: point reads, atomic batches
of puts and deletes, and forward iterators over a snapshot from a seek position.
A store is its records in key order, each key once.  What a batch leaves at a key
is decided by the last operation on that key (`effect`); every commit and
migration argument goes through `get_applyOps`.
-/

namespace TxDb

/-- Records strictly ordered by key. -/
def KeySorted (entries : List (Bytes × Bytes)) : Prop :=
  entries.Pairwise fun a b => keyLt a.1 b.1

instance (entries : List (Bytes × Bytes)) : Decidable (KeySorted entries) :=
  inferInstanceAs (Decidable (entries.Pairwise _))

/-- The durable contents of one leveldb database. -/
structure Db where
  entries : List (Bytes × Bytes)
  sorted : KeySorted entries

namespace Db

def empty : Db := ⟨[], List.Pairwise.nil⟩

def lookup (k : Bytes) : List (Bytes × Bytes) → Option Bytes
  | [] => none
  | (k', v) :: rest => if k' = k then some v else lookup k rest

def get (db : Db) (k : Bytes) : Option Bytes := lookup k db.entries

/-- `CDBWrapper::Exists`. -/
def Exists (db : Db) (k : Bytes) : Bool := (db.get k).isSome

/-- `CDBWrapper::Read`: the value under `k`, decoded. -/
def read {α : Type} (db : Db) (s : Serializer α) (k : Bytes) : Option α :=
  (db.get k).bind s.read

/-- `CDBWrapper::Read` into `value`: `true` and the record, or `false` and what a
failed read leaves in `value`; a missing key leaves it as it was. -/
def readInto {α : Type} (db : Db) (s : Serializer α) (into : Bytes → α → α) (k : Bytes)
    (value : α) : Bool × α :=
  match db.get k with
  | none => (false, value)
  | some bytes =>
      match s.read bytes with
      | some x => (true, x)
      | none => (false, into bytes value)

theorem lookup_eq_none {k : Bytes} {entries : List (Bytes × Bytes)}
    (h : ∀ e ∈ entries, e.1 ≠ k) : lookup k entries = none := by
  induction entries with
  | nil => rfl
  | cons e rest ih =>
      obtain ⟨k', v⟩ := e
      simp only [lookup, h (k', v) (List.mem_cons_self _ _), if_false]
      exact ih fun e he => h e (List.mem_cons_of_mem _ he)

theorem lookup_of_lt {k : Bytes} {entries : List (Bytes × Bytes)}
    (h : ∀ e ∈ entries, keyLt k e.1) : lookup k entries = none :=
  lookup_eq_none fun e he heq => keyLt_ne (h e he) heq.symm

theorem lookup_isSome {k : Bytes} {entries : List (Bytes × Bytes)}
    (h : (lookup k entries).isSome) : ∃ v, (k, v) ∈ entries := by
  induction entries with
  | nil => simp [lookup] at h
  | cons e rest ih =>
      obtain ⟨k', v⟩ := e
      by_cases hk : k' = k
      · exact ⟨v, by simp [hk]⟩
      · simp only [lookup, hk, if_false] at h
        obtain ⟨w, hw⟩ := ih h
        exact ⟨w, List.mem_cons_of_mem _ hw⟩

theorem lookup_eq_some_iff {k v : Bytes} :
    ∀ {entries : List (Bytes × Bytes)}, KeySorted entries →
      (lookup k entries = some v ↔ (k, v) ∈ entries)
  | [], _ => by simp [lookup]
  | (k', v') :: rest, h => by
      rw [KeySorted, List.pairwise_cons] at h
      by_cases hk : k' = k
      · subst hk
        have hnot : ∀ w, (k', w) ∉ rest := fun w hw => by simpa [keyLt_irrefl] using h.1 _ hw
        simp [lookup, hnot, eq_comm]
      · simp [lookup, hk, lookup_eq_some_iff h.2, Ne.symm hk]

theorem ext_entries :
    ∀ {l₁ l₂ : List (Bytes × Bytes)}, KeySorted l₁ → KeySorted l₂ →
      (∀ k, lookup k l₁ = lookup k l₂) → l₁ = l₂
  | [], [], _, _, _ => rfl
  | [], (k, v) :: _, _, _, h => by simpa [lookup] using h k
  | (k, v) :: _, [], _, _, h => by simpa [lookup] using h k
  | (k₁, v₁) :: r₁, (k₂, v₂) :: r₂, h₁, h₂, h => by
      rw [KeySorted, List.pairwise_cons] at h₁ h₂
      have hk : k₁ = k₂ := by
        rcases keyLt_trichotomy k₁ k₂ with hlt | heq | hlt
        · have := h k₁
          rw [lookup, if_pos rfl, lookup, if_neg (keyLt_ne hlt).symm,
            lookup_of_lt fun e he => keyLt_trans hlt (h₂.1 e he)] at this
          simp at this
        · exact heq
        · have := h k₂
          rw [lookup, if_neg (keyLt_ne hlt).symm, lookup, if_pos rfl,
            lookup_of_lt fun e he => keyLt_trans hlt (h₁.1 e he)] at this
          simp at this
      subst hk
      have hv : v₁ = v₂ := by simpa [lookup] using h k₁
      subst hv
      congr 1
      apply ext_entries h₁.2 h₂.2
      intro k
      by_cases hk : k₁ = k
      · subst hk
        rw [lookup_of_lt h₁.1, lookup_of_lt h₂.1]
      · simpa [lookup, hk] using h k

theorem ext {db₁ db₂ : Db} (h : ∀ k, db₁.get k = db₂.get k) : db₁ = db₂ := by
  obtain ⟨l₁, h₁⟩ := db₁
  obtain ⟨l₂, h₂⟩ := db₂
  simpa using ext_entries h₁ h₂ h

/-! ## Writes -/

def insertEntry (k v : Bytes) : List (Bytes × Bytes) → List (Bytes × Bytes)
  | [] => [(k, v)]
  | (k', v') :: rest =>
      if keyLt k k' then (k, v) :: (k', v') :: rest
      else if k' = k then (k, v) :: rest
      else (k', v') :: insertEntry k v rest

theorem lookup_insertEntry (k v k₀ : Bytes) (entries : List (Bytes × Bytes)) :
    lookup k₀ (insertEntry k v entries) = if k = k₀ then some v else lookup k₀ entries := by
  induction entries with
  | nil => simp [insertEntry, lookup]
  | cons e rest ih =>
      obtain ⟨k', v'⟩ := e
      unfold insertEntry
      split_ifs <;> simp_all [lookup]

theorem mem_insertEntry {k v : Bytes} {entries : List (Bytes × Bytes)} {e : Bytes × Bytes}
    (he : e ∈ insertEntry k v entries) : e = (k, v) ∨ e ∈ entries := by
  induction entries with
  | nil => simpa [insertEntry] using he
  | cons x rest ih =>
      obtain ⟨k', v'⟩ := x
      unfold insertEntry at he
      split_ifs at he <;> simp only [List.mem_cons] at he ⊢ <;> aesop

theorem sorted_insertEntry (k v : Bytes) :
    ∀ {entries : List (Bytes × Bytes)}, KeySorted entries → KeySorted (insertEntry k v entries)
  | [], _ => List.pairwise_singleton _ _
  | (k', v') :: rest, h => by
      rw [KeySorted, List.pairwise_cons] at h
      unfold insertEntry
      split_ifs with hlt heq
      · exact List.Pairwise.cons (fun e he => by
          rcases List.mem_cons.mp he with rfl | he
          · exact hlt
          · exact keyLt_trans hlt (h.1 e he)) (List.Pairwise.cons h.1 h.2)
      · subst heq
        exact List.Pairwise.cons h.1 h.2
      · have hgt : keyLt k' k := by
          rcases keyLt_trichotomy k k' with h' | h' | h'
          · exact absurd h' hlt
          · exact absurd h'.symm heq
          · exact h'
        refine List.Pairwise.cons (fun e he => ?_) (sorted_insertEntry k v h.2)
        rcases mem_insertEntry he with rfl | he
        · exact hgt
        · exact h.1 e he

/-- `WriteBatch::Put`: store `v` under `k`. -/
def put (db : Db) (k v : Bytes) : Db :=
  ⟨insertEntry k v db.entries, sorted_insertEntry k v db.sorted⟩

/-- `WriteBatch::Delete`: remove the record under `k`, if any. -/
def erase (db : Db) (k : Bytes) : Db :=
  ⟨db.entries.filter (·.1 ≠ k), db.sorted.filter _⟩

@[simp] theorem get_put (db : Db) (k v k₀ : Bytes) :
    (db.put k v).get k₀ = if k = k₀ then some v else db.get k₀ :=
  lookup_insertEntry k v k₀ db.entries

theorem lookup_filter_ne (k k₀ : Bytes) (entries : List (Bytes × Bytes)) :
    lookup k₀ (entries.filter (·.1 ≠ k)) = if k = k₀ then none else lookup k₀ entries := by
  induction entries with
  | nil => simp [lookup]
  | cons e rest ih =>
      obtain ⟨k', v'⟩ := e
      by_cases hk' : k' = k
      · subst hk'
        by_cases hk₀ : k' = k₀ <;> simp_all [lookup, List.filter_cons]
      · by_cases hk₀ : k' = k₀
        · subst hk₀
          simp [lookup, List.filter_cons, hk', Ne.symm hk']
        · simpa [lookup, List.filter_cons, hk', hk₀] using ih

@[simp] theorem get_erase (db : Db) (k k₀ : Bytes) :
    (db.erase k).get k₀ = if k = k₀ then none else db.get k₀ :=
  lookup_filter_ne k k₀ db.entries

end Db

/-! ## Batches -/

/-- One operation of a leveldb `WriteBatch`. -/
inductive BatchOp where
  | put (key value : Bytes)
  | erase (key : Bytes)
  deriving DecidableEq, Repr

namespace BatchOp

def key : BatchOp → Bytes
  | put k _ => k
  | erase k => k

def value? : BatchOp → Option Bytes
  | put _ v => some v
  | erase _ => none

/-- What the last operation on `k` in `ops` leaves there, if any touches `k`. -/
def effect (k : Bytes) : List BatchOp → Option (Option Bytes)
  | [] => none
  | op :: ops => (effect k ops).or (if op.key = k then some op.value? else none)

@[simp] theorem effect_nil (k : Bytes) : effect k [] = none := rfl

theorem effect_append (k : Bytes) (ops ops' : List BatchOp) :
    effect k (ops ++ ops') = (effect k ops').or (effect k ops) := by
  induction ops with
  | nil => simp [effect]
  | cons op ops ih => rw [List.cons_append, effect, ih, effect, Option.or_assoc]

theorem effect_eq_none {k : Bytes} {ops : List BatchOp} :
    effect k ops = none ↔ ∀ op ∈ ops, op.key ≠ k := by
  induction ops with
  | nil => simp
  | cons op ops ih => by_cases h : op.key = k <;> simp [effect, ih, h]

theorem effect_eq_some_of {k : Bytes} {v : Option Bytes} :
    ∀ {ops : List BatchOp}, (∃ op ∈ ops, op.key = k) → (∀ op ∈ ops, op.key = k → op.value? = v) →
      effect k ops = some v
  | [], ⟨_, h, _⟩, _ => absurd h (List.not_mem_nil _)
  | op :: ops, ⟨op', hop', hk⟩, hall => by
      rw [effect]
      by_cases hrest : ∃ op'' ∈ ops, op''.key = k
      · rw [effect_eq_some_of hrest fun op'' h'' => hall op'' (List.mem_cons_of_mem _ h'')]
        rfl
      · have hnone : effect k ops = none :=
          effect_eq_none.mpr fun op'' h'' hk'' => hrest ⟨op'', h'', hk''⟩
        rcases List.mem_cons.mp hop' with rfl | hop'
        · simp [hnone, hk, hall op' (List.mem_cons_self _ _) hk]
        · exact absurd ⟨op', hop', hk⟩ hrest

end BatchOp

namespace Db

def apply (db : Db) : BatchOp → Db
  | .put k v => db.put k v
  | .erase k => db.erase k

def applyOps (db : Db) (ops : List BatchOp) : Db := ops.foldl apply db

@[simp] theorem applyOps_nil (db : Db) : db.applyOps [] = db := rfl

@[simp] theorem applyOps_cons (db : Db) (op : BatchOp) (ops : List BatchOp) :
    db.applyOps (op :: ops) = (db.apply op).applyOps ops := rfl

theorem applyOps_append (db : Db) (ops ops' : List BatchOp) :
    db.applyOps (ops ++ ops') = (db.applyOps ops).applyOps ops' := by
  simp [applyOps, List.foldl_append]

theorem get_apply (db : Db) (op : BatchOp) (k : Bytes) :
    (db.apply op).get k = if op.key = k then op.value? else db.get k := by
  cases op <;> simp [apply, BatchOp.key, BatchOp.value?]

theorem get_applyOps (db : Db) (ops : List BatchOp) (k : Bytes) :
    (db.applyOps ops).get k = (BatchOp.effect k ops).getD (db.get k) := by
  induction ops generalizing db with
  | nil => rfl
  | cons op ops ih =>
      rw [applyOps_cons, ih, get_apply]
      cases h : BatchOp.effect k ops <;> by_cases hk : op.key = k <;>
        simp [BatchOp.effect, h, hk]

theorem get_applyOps_of_forall_ne {db : Db} {ops : List BatchOp} {k : Bytes}
    (h : ∀ op ∈ ops, op.key ≠ k) : (db.applyOps ops).get k = db.get k := by
  rw [get_applyOps, BatchOp.effect_eq_none.mpr h]
  rfl

theorem applyOps_absorb {db : Db} {pre ops : List BatchOp}
    (h : ∀ op ∈ pre, ∃ op' ∈ ops, op'.key = op.key) :
    (db.applyOps pre).applyOps ops = db.applyOps ops := by
  apply ext
  intro k
  rw [get_applyOps (db.applyOps pre) ops, get_applyOps db ops]
  cases hk : BatchOp.effect k ops with
  | some e => rfl
  | none =>
      simp only [Option.getD_none]
      apply get_applyOps_of_forall_ne
      intro op hop hkey
      obtain ⟨op', hop', hkey'⟩ := h op hop
      exact BatchOp.effect_eq_none.mp hk op' hop' (hkey'.trans hkey)

end Db

/-! ## `CDBBatch` and `CDBIterator` -/

/-- Modelled from the spec: `CDBBatch` of `dbwrapper.h`, which `src/` does not
include: the operations in order, and `SizeEstimate`, the "accumulated batch"
size the spec compares with the threshold, counted as leveldb serializes a batch
(a tag byte, then each key and value with a length prefix that takes a second
byte past 127). -/
structure CDBBatch where
  ops : List BatchOp
  sizeEstimate : Nat

namespace CDBBatch

def empty : CDBBatch := ⟨[], 0⟩

def lenExtra (bs : Bytes) : Nat := if 127 < bs.length then 1 else 0

def write (b : CDBBatch) (k v : Bytes) : CDBBatch :=
  ⟨b.ops ++ [.put k v], b.sizeEstimate + 3 + lenExtra k + k.length + lenExtra v + v.length⟩

def erase (b : CDBBatch) (k : Bytes) : CDBBatch :=
  ⟨b.ops ++ [.erase k], b.sizeEstimate + 2 + lenExtra k + k.length⟩

@[simp] theorem ops_empty : empty.ops = [] := rfl

@[simp] theorem ops_write (b : CDBBatch) (k v : Bytes) :
    (b.write k v).ops = b.ops ++ [.put k v] := rfl

@[simp] theorem ops_erase (b : CDBBatch) (k : Bytes) :
    (b.erase k).ops = b.ops ++ [.erase k] := rfl

def addOps (b : CDBBatch) : List BatchOp → CDBBatch
  | [] => b
  | .put k v :: ops => (b.write k v).addOps ops
  | .erase k :: ops => (b.erase k).addOps ops

@[simp] theorem ops_addOps (b : CDBBatch) (ops : List BatchOp) :
    (b.addOps ops).ops = b.ops ++ ops := by
  induction ops generalizing b with
  | nil => simp [addOps]
  | cons op ops ih => cases op <;> simp [addOps, ih]

end CDBBatch

/-- `CDBWrapper::WriteBatch` when leveldb persists the batch: all of it, at once. -/
def Db.writeBatch (db : Db) (b : CDBBatch) : Db := db.applyOps b.ops

/-- The durable state after the `WriteBatch` calls `bs`, each persisted. -/
def Db.writeBatches (db : Db) (bs : List CDBBatch) : Db := bs.foldl Db.writeBatch db

theorem Db.writeBatches_eq (db : Db) (bs : List CDBBatch) :
    db.writeBatches bs = db.applyOps (bs.flatMap CDBBatch.ops) := by
  induction bs generalizing db with
  | nil => rfl
  | cons b bs ih =>
      rw [writeBatches, List.foldl_cons, ← writeBatches, ih, List.flatMap_cons,
        applyOps_append]
      rfl

/-- The answers of the `boost::this_thread::interruption_point` calls of a scan, by
call number, when none throws. -/
def noInterruption : Nat → Bool := fun _ => false

/-- A forward iterator over the snapshot `snapshot` taken when it was created;
`rest` holds the records from the current position on. -/
structure CDBIterator where
  snapshot : List (Bytes × Bytes)
  rest : List (Bytes × Bytes)

namespace CDBIterator

def Valid (it : CDBIterator) : Bool := !it.rest.isEmpty

/-- `Seek`: the first record whose key is not below `k`. -/
def seek (it : CDBIterator) (k : Bytes) : CDBIterator :=
  { it with rest := it.snapshot.dropWhile fun e => keyLt e.1 k }

def next (it : CDBIterator) : CDBIterator := { it with rest := it.rest.tail }

/-- `GetKey`: the current key, decoded; `false`, here `none`, if it does not decode. -/
def getKey {α : Type} (it : CDBIterator) (s : Serializer α) : Option α :=
  it.rest.head?.bind fun e => s.read e.1

/-- `GetValue` into `value`, at a valid position: `true` and the record, or `false`
and what a failed read leaves in `value`. -/
def getValueInto {α : Type} (it : CDBIterator) (s : Serializer α) (into : Bytes → α → α)
    (value : α) : Bool × α :=
  match it.rest with
  | [] => (false, value)
  | (_, v) :: _ =>
      match s.read v with
      | some x => (true, x)
      | none => (false, into v value)

/-- `GetValue`: the current value, decoded. -/
def getValue {α : Type} (it : CDBIterator) (s : Serializer α) : Option α :=
  it.rest.head?.bind fun e => s.read e.2

end CDBIterator

/-- `CDBWrapper::NewIterator`, not yet positioned. -/
def Db.newIterator (db : Db) : CDBIterator := ⟨db.entries, db.entries⟩

theorem KeySorted.dropWhile_eq_filter {k : Bytes} :
    ∀ {entries : List (Bytes × Bytes)}, KeySorted entries →
      entries.dropWhile (fun e => keyLt e.1 k) = entries.filter fun e => !keyLt e.1 k
  | [], _ => rfl
  | e :: rest, h => by
      rw [KeySorted, List.pairwise_cons] at h
      by_cases he : keyLt e.1 k
      · simp only [List.dropWhile_cons, he, List.filter_cons, Bool.not_true]
        exact KeySorted.dropWhile_eq_filter h.2
      · simp only [Bool.not_eq_true] at he
        simp only [List.dropWhile_cons, he, List.filter_cons, Bool.not_false, if_true,
          Bool.false_eq_true, if_false]
        congr 1
        refine (List.filter_eq_self.mpr fun x hx => ?_).symm
        cases hxk : keyLt x.1 k
        · rfl
        · exact absurd (keyLt_trans (h.1 x hx) hxk) (by simpa using he)

theorem KeySorted.filter_seek_tag {c : UInt8} {s : Bytes} :
    ∀ {entries : List (Bytes × Bytes)}, KeySorted entries →
      (∀ e ∈ entries, e.1.head? = some c → keyLt e.1 (c :: s) = false) →
      entries.filter (fun e => !keyLt e.1 (c :: s)) =
        entries.filter (fun e => e.1.head? = some c) ++
          entries.filter (fun e => e.1.head?.any (c < ·))
  | [], _, _ => rfl
  | (k, v) :: rest, h, hc => by
      rw [KeySorted, List.pairwise_cons] at h
      have ih := KeySorted.filter_seek_tag h.2 fun e he => hc e (List.mem_cons_of_mem _ he)
      rcases k with _ | ⟨x, t⟩
      · simpa [List.filter_cons] using ih
      rcases lt_trichotomy x.toNat c.toNat with hlt | heq | hgt
      · have hne : x ≠ c := fun hxc => by rw [hxc] at hlt; omega
        have hngt : ¬c < x := fun hcx => by
          have : c.toNat < x.toNat := hcx
          omega
        simpa [List.filter_cons, hne, hngt, show x < c from hlt] using ih
      · obtain rfl : x = c := UInt8.eq_of_val_eq (Fin.ext heq)
        have hkeep := hc _ (List.mem_cons_self _ _) rfl
        simp only [List.head?_cons] at hkeep
        simp [List.filter_cons, hkeep, ih]
      · have hne : x ≠ c := fun hxc => by rw [hxc] at hgt; omega
        have hnlt : ¬x < c := fun hxc => by
          have : x.toNat < c.toNat := hxc
          omega
        have hnil : rest.filter (fun e => e.1.head? = some c) = [] := by
          refine List.filter_eq_nil_iff.mpr fun e he hhead => ?_
          obtain ⟨y, bs, hy, hxy⟩ := keyLt_head_le (h.1 e he)
          simp only [hy, List.head?_cons, decide_eq_true_eq, Option.some.injEq] at hhead
          rw [hhead] at hxy
          omega
        rw [hnil, List.nil_append] at ih
        simp [List.filter_cons, hne, hnlt, show c < x from hgt, ih, hnil]

theorem KeySorted.lookup_eq_seek {k : Bytes} :
    ∀ {entries : List (Bytes × Bytes)}, KeySorted entries →
      Db.lookup k entries =
        match entries.dropWhile fun e => keyLt e.1 k with
        | (k', v) :: _ => if k' = k then some v else none
        | [] => none
  | [], _ => rfl
  | (k', v) :: rest, h => by
      rw [KeySorted, List.pairwise_cons] at h
      by_cases hlt : keyLt k' k
      · simp only [Db.lookup, keyLt_ne hlt, if_false, List.dropWhile_cons, hlt, if_true]
        exact KeySorted.lookup_eq_seek h.2
      · simp only [Bool.not_eq_true] at hlt
        simp only [Db.lookup, List.dropWhile_cons, hlt, Bool.false_eq_true, if_false]
        by_cases heq : k' = k
        · simp [heq]
        · have hk : keyLt k k' := by
            rcases keyLt_trichotomy k k' with h' | h' | h'
            · exact h'
            · exact absurd h'.symm heq
            · simp [h'] at hlt
          simp only [heq, if_false]
          exact Db.lookup_of_lt fun e he => keyLt_trans hk (h.1 e he)

end TxDb
