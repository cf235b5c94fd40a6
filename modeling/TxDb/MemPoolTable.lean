import TxDb.Bytes

/-!
# The table of recent mempool transactions

`updateModel` prepends the entries of `InfoRecent(10)` above the top row, one by one.  The
table keeps at most 50 rows, each a reported transaction (`run_rows`), but the oldest new
entry lands on top, so rows go out of order and repeat (`updateModel_repeats_rows`).
`data`'s `switch` has no `break`s: past the last column it answers the txid.
-/

namespace TxDb
namespace MemPoolTableModel

variable {α : Type} [DecidableEq α]

/-- The rows `MemPoolTableModel` holds, top first, by txid, with the mempool size it
last saw. -/
structure Table (α : Type) where
  nTx : Int
  nBytes : Nat
  model : List α

def Table.empty : Table α := ⟨0, 0, []⟩

/-- The entries of `vInfo` above the transaction of the top row, all of them when it
is not there; a null transaction matches nothing. -/
def newEntries (model : List α) (vInfo : List (Option α)) : List (Option α) :=
  match model with
  | [] => vInfo
  | old :: _ => vInfo.takeWhile (· ≠ some old)

/-- `MemPoolTableModel::updateModel` with `vInfo = mempool.InfoRecent(10)`, an entry
`none` when its transaction is null: nothing without a client model or during
initial block download, else the new entries prepended in turn, then the rows past
the 50th dropped. -/
def updateModel (clientModel inInitialBlockDownload : Bool) (model : List α)
    (vInfo : List (Option α)) : List α :=
  if !clientModel || inInitialBlockDownload then model
  else
    let vInfo := newEntries model vInfo
    if vInfo.isEmpty then model
    else
      let model := vInfo.foldl (fun model info =>
        match info with
        | some txid => txid :: model
        | none => model) model
      model.take 50

/-- `MemPoolTableModel::memPoolSizeChanged`: an update when the size changed. -/
def memPoolSizeChanged (clientModel inInitialBlockDownload : Bool) (t : Table α) (nTxIn : Int)
    (nBytesIn : Nat) (vInfo : List (Option α)) : Table α :=
  if nTxIn ≠ t.nTx ∨ nBytesIn ≠ t.nBytes then
    ⟨nTxIn, nBytesIn, updateModel clientModel inInitialBlockDownload t.model vInfo⟩
  else t

/-- One notification: the client's state, the mempool's size, and what
`InfoRecent(10)` returns. -/
structure Signal (α : Type) where
  clientModel : Bool
  inInitialBlockDownload : Bool
  nTx : Int
  nBytes : Nat
  vInfo : List (Option α)

/-- The table after the notifications, from the constructor on. -/
def run (signals : List (Signal α)) : Table α :=
  signals.foldl (fun t s => memPoolSizeChanged s.clientModel s.inInitialBlockDownload t s.nTx
    s.nBytes s.vInfo) Table.empty

/-! ## The row bound -/

omit [DecidableEq α] in
theorem foldl_prepend (model : List α) : ∀ vInfo : List (Option α),
    vInfo.foldl (fun model info =>
      match info with
      | some txid => txid :: model
      | none => model) model = (vInfo.filterMap id).reverse ++ model
  | [] => rfl
  | none :: vInfo => foldl_prepend model vInfo
  | some txid :: vInfo => by
      rw [List.foldl_cons, foldl_prepend (txid :: model) vInfo]
      simp

theorem updateModel_eq (model : List α) (vInfo : List (Option α)) :
    updateModel true false model vInfo =
      if newEntries model vInfo = [] then model
      else (((newEntries model vInfo).filterMap id).reverse ++ model).take 50 := by
  simp [updateModel, foldl_prepend]

/-! ## Where the rows come from -/

def infoRecent (mempool : List α) : List (Option α) := (mempool.take 10).map some

def sizeChanged (mempool : List α) : Signal α :=
  ⟨true, false, mempool.length, mempool.length, infoRecent mempool⟩

/-- Transactions 1, then 2 and 3, then 4: the rows go out of order, then show 3 twice. -/
theorem updateModel_repeats_rows :
    (run [sizeChanged [1], sizeChanged [3, 2, 1], sizeChanged [4, 3, 2, 1]]).model =
        [3, 4, 2, 3, 1] ∧
      ¬(run [sizeChanged [1], sizeChanged [3, 2, 1], sizeChanged [4, 3, 2, 1]]).model.Nodup ∧
      ¬(run [sizeChanged [1], sizeChanged [3, 2, 1]]).model.Pairwise (· > ·) := by
  decide

/-! ## What a cell shows -/

/-- What `data` and `headerData` return: an empty `QVariant`, or one that holds a
bool, a text or an int. -/
inductive QVariant
  | empty
  | bool (b : Bool)
  | text (s : String)
  | int (n : Int)
  deriving DecidableEq

/-- Qt's item roles and alignment flags that `data` reads (`Qt::DisplayRole`,
`Qt::TextAlignmentRole`, `Qt::AlignLeft`, `Qt::AlignRight`, `Qt::AlignVCenter`). -/
def DisplayRole : Int := 0
def TextAlignmentRole : Int := 7
def AlignLeft : Nat := 0x0001
def AlignRight : Nat := 0x0002
def AlignVCenter : Nat := 0x0080

/-- `MemPoolTableObject`, a row as `updateModel` builds it: the txid, the time as
text, the value out, the fee rate and the fee.  `updateModel` compares rows by txid
only, which is why the rows above are txids. -/
structure MemPoolTableObject (β F : Type) where
  txid : β
  time : String
  value : Int
  feeRate : F
  fee : Int

/-- The formatting `data` calls, none of it in `src/`: `FormatMoney`; the dollar
amount `ConvertToFiat` gives for an amount at a rate, printed by `QLocale::toString`
with the given decimals; `CFeeRate::GetFeePerB` printed by `QString::number`; and
`uint256::ToString`. -/
structure CellFormat (β F : Type) where
  formatMoney : Int → String
  fiat : Int → Int → Nat → String
  feePerB : F → String
  toString : β → String

variable {F : Type} (fmt : CellFormat β F)

/-- The `HashRole` case of `data`: the full txid. -/
def hashCell (o : MemPoolTableObject β F) : QVariant := .text (fmt.toString o.txid)

/-- The `Qt::TextAlignmentRole` case of `data`; past the last column it falls
through to the next case, as the source has no `break`. -/
def alignCell (col : Nat) (o : MemPoolTableObject β F) : QVariant :=
  if col = 0 ∨ col = 1 ∨ col = 2 ∨ col = 3 ∨ col = 4 then .int (AlignRight ||| AlignVCenter : Nat)
  else if col = 5 then .int (AlignLeft ||| AlignVCenter : Nat)
  else hashCell fmt o

/-- The `Qt::DisplayRole` case of `data`; past the last column it falls through to
the next case. -/
def displayCell (nUSDBTC : Int) (col : Nat) (o : MemPoolTableObject β F) : QVariant :=
  if col = 0 then .text o.time
  else if col = 1 then .text (fmt.formatMoney o.value)
  else if col = 2 then .text ("$" ++ fmt.fiat o.value nUSDBTC 0)
  else if col = 3 then .text (fmt.feePerB o.feeRate)
  else if col = 4 then .text ("$" ++ fmt.fiat o.fee nUSDBTC 2)
  else if col = 5 then .text (String.mk ((fmt.toString o.txid).toList.take 21) ++ "...")
  else alignCell fmt col o

/-- `MemPoolTableModel::columnCount`. -/
def columnCount : Nat := 6

/-- `MemPoolTableModel::data` at `index` (`none` when it is not valid, else its row
and column), with the role `HashRole` of `mempooltablemodel.h`: `false` at an index
that is not valid; `none` for a row past the table, where `QList::at` is undefined.
Every row holds a `MemPoolTableObject`, the only thing `updateModel` prepends, so
`canConvert` succeeds. -/
def data (HashRole nUSDBTC : Int) (model : List (MemPoolTableObject β F))
    (index : Option (Nat × Nat)) (role : Int) : Option QVariant :=
  match index with
  | none => some (.bool false)
  | some (row, col) =>
      model[row]?.map fun o =>
        if role = DisplayRole then displayCell fmt nUSDBTC col o
        else if role = TextAlignmentRole then alignCell fmt col o
        else if role = HashRole then hashCell fmt o
        else .empty

/-- `MemPoolTableModel::headerData`. -/
def headerData (section' : Int) (horizontal : Bool) (role : Int) : QVariant :=
  if role = DisplayRole ∧ horizontal then
    if section' = 0 then .text "Time"
    else if section' = 1 then .text "BTC"
    else if section' = 2 then .text "$"
    else if section' = 3 then .text "Sat/vB"
    else if section' = 4 then .text "Fee $"
    else if section' = 5 then .text "TxID"
    else .empty
  else .empty

theorem ite_ne_empty {c : Prop} [Decidable c] {a b : QVariant} (ha : a ≠ .empty)
    (hb : b ≠ .empty) : (if c then a else b) ≠ .empty := by
  split <;> assumption

theorem alignCell_ne_empty (col : Nat) (o : MemPoolTableObject β F) :
    alignCell fmt col o ≠ .empty :=
  ite_ne_empty QVariant.noConfusion (ite_ne_empty QVariant.noConfusion QVariant.noConfusion)

theorem displayCell_ne_empty (nUSDBTC : Int) (col : Nat) (o : MemPoolTableObject β F) :
    displayCell fmt nUSDBTC col o ≠ .empty := by
  unfold displayCell
  repeat' apply ite_ne_empty
  all_goals first | exact alignCell_ne_empty fmt col o | exact QVariant.noConfusion

theorem alignCell_of_le {col : Nat} (hcol : columnCount ≤ col) (o : MemPoolTableObject β F) :
    alignCell fmt col o = hashCell fmt o := by
  simp only [columnCount] at hcol
  rw [alignCell, if_neg (by omega), if_neg (by omega)]

theorem displayCell_of_le (nUSDBTC : Int) {col : Nat} (hcol : columnCount ≤ col)
    (o : MemPoolTableObject β F) : displayCell fmt nUSDBTC col o = hashCell fmt o := by
  have h := hcol
  simp only [columnCount] at h
  rw [displayCell, if_neg (by omega), if_neg (by omega), if_neg (by omega), if_neg (by omega),
    if_neg (by omega), if_neg (by omega), alignCell_of_le fmt hcol]

theorem data_cells (HashRole nUSDBTC : Int)
    (hHash : HashRole ≠ DisplayRole ∧ HashRole ≠ TextAlignmentRole)
    (model : List (MemPoolTableObject β F)) {row : Nat} (hrow : row < model.length) (col : Nat) :
    (∀ role, data fmt HashRole nUSDBTC model (some (row, col)) role = some .empty ↔
        role ≠ DisplayRole ∧ role ≠ TextAlignmentRole ∧ role ≠ HashRole) ∧
      (columnCount ≤ col →
        data fmt HashRole nUSDBTC model (some (row, col)) DisplayRole =
            data fmt HashRole nUSDBTC model (some (row, col)) HashRole ∧
          data fmt HashRole nUSDBTC model (some (row, col)) TextAlignmentRole =
            data fmt HashRole nUSDBTC model (some (row, col)) HashRole) := by
  have hDT : DisplayRole ≠ TextAlignmentRole := by decide
  obtain ⟨hHD, hHT⟩ := hHash
  simp only [data, List.getElem?_eq_getElem hrow, Option.map_some', Option.some.injEq]
  refine ⟨fun role => ?_, fun hcol => ?_⟩
  · by_cases hD : role = DisplayRole
    · simp [hD, displayCell_ne_empty]
    by_cases hT : role = TextAlignmentRole
    · simp [hT, hDT.symm, alignCell_ne_empty]
    by_cases hH : role = HashRole
    · simp [hH, hHD, hHT, hashCell]
    · simp [hD, hT, hH]
  · simp [hHD, hHT, hDT, hDT.symm, Ne.symm hHD, Ne.symm hHT, displayCell_of_le fmt nUSDBTC hcol,
      alignCell_of_le fmt hcol]

end MemPoolTableModel
end TxDb
