import TxDb.Coins
import TxDb.NewsType

/-!
# The value out of a transaction

`GetValueOut` adds each value before checking it, so it overflows `int64_t` on outputs 1
and 2^63 - 1 (`getValueOut_overflows`); else it returns the sum when all is in
`[0, MAX_MONEY]` (`getValueOut_returned_iff`).  `GetBlindValueOut` drops the last output
(`getBlindValueOut_eq_sub`), and `IsBMMRequest` accepts exactly the BMM requests
(`isBMMRequest_eq_some_iff`).
-/

namespace TxDb

/-- Modelled from the spec: `COIN` (`amount.h`), the smallest units in a coin. -/
def COIN : Int := 100000000

/-- Modelled from the spec: `MAX_MONEY` (`amount.h`). -/
def MAX_MONEY : Int := 21000000 * COIN

/-- Modelled from the spec: `MoneyRange` (`amount.h`). -/
def MoneyRange (nValue : Int) : Bool := 0 ≤ nValue && nValue ≤ MAX_MONEY

/-- The values of an `int64_t` such as `CAmount`. -/
def Int64Range (x : Int) : Bool := -2 ^ 63 ≤ x && x < 2 ^ 63

/-- Modelled from the spec: `CTransaction`, of which `GetValueOut` reads the outputs. -/
structure CTransaction where
  vout : List CTxOut

/-- How `GetValueOut` ends: it returns the sum, throws `std::runtime_error`, or
performs an addition whose result leaves the `int64_t` range. -/
inductive ValueOut where
  | returned (nValueOut : Int)
  | thrown
  | overflow
  deriving DecidableEq

/-- The loop of `GetValueOut` from the running sum `nValueOut`. -/
def getValueOutLoop (nValueOut : Int) : List CTxOut → ValueOut
  | [] => .returned nValueOut
  | txOut :: vout =>
      if !Int64Range (nValueOut + txOut.nValue) then .overflow
      else if !MoneyRange txOut.nValue || !MoneyRange (nValueOut + txOut.nValue) then .thrown
      else getValueOutLoop (nValueOut + txOut.nValue) vout

/-- `CTransaction::GetValueOut`. -/
def CTransaction.getValueOut (tx : CTransaction) : ValueOut := getValueOutLoop 0 tx.vout

theorem moneyRange_iff (x : Int) : MoneyRange x = true ↔ 0 ≤ x ∧ x ≤ 2100000000000000 := by
  simp [MoneyRange, MAX_MONEY, COIN]

theorem int64Range_iff (x : Int) :
    Int64Range x = true ↔ -9223372036854775808 ≤ x ∧ x < 9223372036854775808 := by
  simp [Int64Range]

theorem int64Range_add {x y : Int} (hx : MoneyRange x = true) (hy : MoneyRange y = true) :
    Int64Range (x + y) = true := by
  rw [moneyRange_iff] at hx hy
  rw [int64Range_iff]
  omega

theorem getValueOutLoop_returned_iff {s : Int} (hs : MoneyRange s = true) :
    ∀ (vout : List CTxOut) (n : Int), getValueOutLoop s vout = .returned n ↔
      (∀ o ∈ vout, MoneyRange o.nValue = true) ∧
        (∀ k ≤ vout.length, MoneyRange (s + ((vout.take k).map (·.nValue)).sum) = true) ∧
        n = s + (vout.map (·.nValue)).sum
  | [], n => by
      simp only [getValueOutLoop, ValueOut.returned.injEq, List.not_mem_nil, false_implies,
        implies_true, List.length_nil, nonpos_iff_eq_zero, forall_eq, List.take_zero,
        List.map_nil, List.sum_nil, add_zero, hs, true_and]
      exact eq_comm
  | o :: vout, n => by
      by_cases hmoney : MoneyRange o.nValue = true ∧ MoneyRange (s + o.nValue) = true
      · have ih := getValueOutLoop_returned_iff hmoney.2 vout n
        rw [getValueOutLoop, if_neg (by simp [int64Range_add hs hmoney.1]),
          if_neg (by simp [hmoney.1, hmoney.2]), ih]
        constructor
        · rintro ⟨hall, hpre, rfl⟩
          refine ⟨List.forall_mem_cons.2 ⟨hmoney.1, hall⟩, fun k hk => ?_, by simp [add_assoc]⟩
          cases k with
          | zero => simpa using hs
          | succ k => simpa [add_assoc] using hpre k (by simpa using hk)
        · rintro ⟨hall, hpre, rfl⟩
          refine ⟨(List.forall_mem_cons.1 hall).2, fun k hk => ?_, by simp [add_assoc]⟩
          simpa [add_assoc] using hpre (k + 1) (by simpa using hk)
      · have hne : getValueOutLoop s (o :: vout) ≠ .returned n := by
          rw [getValueOutLoop]
          split_ifs with h₁ h₂ <;> simp_all
        exact iff_of_false hne fun ⟨hall, hpre, _⟩ =>
          hmoney ⟨hall o (List.mem_cons_self _ _), by simpa using hpre 1 (by simp)⟩

theorem getValueOut_returned_iff (tx : CTransaction) (n : Int) :
    tx.getValueOut = .returned n ↔
      (∀ o ∈ tx.vout, MoneyRange o.nValue = true) ∧
        (∀ k ≤ tx.vout.length, MoneyRange ((tx.vout.take k).map (·.nValue)).sum = true) ∧
        n = (tx.vout.map (·.nValue)).sum := by
  simpa using getValueOutLoop_returned_iff (s := 0) (by decide) tx.vout n

theorem getValueOutLoop_overflow {s : Int} (hs : MoneyRange s = true) :
    ∀ {vout : List CTxOut}, getValueOutLoop s vout = .overflow →
      ∃ o ∈ vout, MoneyRange o.nValue = false
  | [], h => by cases h
  | o :: vout, h => by
      by_cases ho : MoneyRange o.nValue = true
      · rw [getValueOutLoop, if_neg (by simp [int64Range_add hs ho])] at h
        split_ifs at h with hthrow
        obtain ⟨o', ho', hbad⟩ := getValueOutLoop_overflow (by simpa [ho] using hthrow) h
        exact ⟨o', List.mem_cons_of_mem _ ho', hbad⟩
      · exact ⟨o, List.mem_cons_self _ _, by simpa using ho⟩

theorem getValueOut_overflow_not_moneyRange {tx : CTransaction}
    (h : tx.getValueOut = .overflow) : ∃ o ∈ tx.vout, MoneyRange o.nValue = false :=
  getValueOutLoop_overflow (by decide) h

def overflowTx : CTransaction := ⟨[⟨1, []⟩, ⟨2 ^ 63 - 1, []⟩]⟩

/-- Both output values are `int64_t` values, and adding the second to the running sum
1 overflows before any range check. -/
theorem getValueOut_overflows :
    (∀ o ∈ overflowTx.vout, Int64Range o.nValue = true) ∧ overflowTx.getValueOut = .overflow := by
  decide

/-! ## The blind value out -/

/-- Modelled from the spec: `CTxIn` (`primitives/transaction.h`), as the constructors
of `transaction.cpp` fill it. -/
structure CTxIn where
  prevout : COutPoint
  scriptSig : Bytes
  nSequence : UInt32
  deriving DecidableEq

/-- `CTransaction::GetBlindValueOut` of a transaction with inputs `vin` (the model of
`CTransaction` keeps the outputs, which `GetValueOut` reads): `return false`, the
amount 0, without inputs or outputs; else the value out of the transaction whose
inputs are replaced by one and whose last output, the sidechain change return, is
removed. -/
def CTransaction.getBlindValueOut (vin : List CTxIn) (tx : CTransaction) : ValueOut :=
  if vin.isEmpty || tx.vout.isEmpty then .returned 0
  else (⟨tx.vout.dropLast⟩ : CTransaction).getValueOut

/-- When `GetValueOut` returns for a transaction with inputs and outputs,
`GetBlindValueOut` returns the same sum less the last output's value. -/
theorem getBlindValueOut_eq_sub (vin : List CTxIn) (tx : CTransaction) {n : Int} (hvin : vin ≠ [])
    (hvout : tx.vout ≠ []) (h : tx.getValueOut = .returned n) :
    tx.getBlindValueOut vin = .returned (n - (tx.vout.getLast hvout).nValue) := by
  obtain ⟨hall, hpre, rfl⟩ := (getValueOut_returned_iff tx n).mp h
  have hsum : (tx.vout.map (·.nValue)).sum =
      (tx.vout.dropLast.map (·.nValue)).sum + (tx.vout.getLast hvout).nValue := by
    conv_lhs => rw [← List.dropLast_append_getLast hvout]
    simp
  rw [CTransaction.getBlindValueOut, if_neg (by simpa using And.intro hvin hvout),
    getValueOut_returned_iff]
  refine ⟨fun o ho => hall o (List.dropLast_subset _ ho), fun k hk => ?_, by rw [hsum]; ring⟩
  -- a running sum of the outputs but the last is a running sum of all of them
  have hk' : k ≤ tx.vout.length - 1 := by simpa using hk
  simpa [List.dropLast_eq_take, List.take_take, min_eq_left hk'] using hpre k (by omega)

def blindTx : CTransaction := ⟨[⟨5, []⟩, ⟨3, []⟩]⟩

def blindVin : List CTxIn := [⟨COutPoint.null, [], 0xFFFFFFFF⟩]

theorem getBlindValueOut_eq_sub_blindTx :
    blindVin ≠ [] ∧ blindTx.vout ≠ [] ∧ blindTx.getValueOut = .returned 8 ∧
      blindTx.getBlindValueOut blindVin = .returned (8 - (blindTx.vout.getLast (by decide)).nValue) :=
  have hvin : blindVin ≠ [] := by decide
  have hvout : blindTx.vout ≠ [] := by decide
  have h : blindTx.getValueOut = .returned 8 := by decide
  ⟨hvin, hvout, h, getBlindValueOut_eq_sub blindVin blindTx hvin hvout h⟩

/-! ## BMM requests -/

/-- Modelled from the spec: `CCriticalData` (`primitives/transaction.h`), the critical
data of a transaction: its bytes and its hash. -/
structure CCriticalData where
  vBytes : Bytes
  hashCritical : Uint256

/-- `CCriticalData::IsBMMRequest(nSidechain, strPrevBlock)`, with the value of
`IsNull()` (declared in `primitives/transaction.h`, not in `src/`) as `IsNull`:
`some (nSidechain, strPrevBlock)` when it returns `true`. -/
def CCriticalData.isBMMRequest (IsNull : Bool) (d : CCriticalData) : Option (UInt8 × List Char) :=
  if IsNull then none
  else if d.hashCritical.IsNull then none
  else if d.vBytes.length ≠ 8 then none
  else if d.vBytes.getD 0 0 != 0x00 || d.vBytes.getD 1 0 != 0xbf || d.vBytes.getD 2 0 != 0x00 then none
  else
    let nSidechain := d.vBytes.getD 3 0
    let vPrevBytes := d.vBytes.drop 4
    if vPrevBytes.length ≠ 4 then none
    else
      let strPrevBlock := StrEncodings.hexStr vPrevBytes
      if strPrevBlock.length ≠ 8 then none
      else some (nSidechain, strPrevBlock)

theorem eq_getD_append_drop {l : Bytes} (h : 4 ≤ l.length) :
    l = [l.getD 0 0, l.getD 1 0, l.getD 2 0, l.getD 3 0] ++ l.drop 4 := by
  rcases l with _ | ⟨a, _ | ⟨b, _ | ⟨c, _ | ⟨e, rest⟩⟩⟩⟩ <;> first | rfl | simp at h

/-- `IsBMMRequest` accepts exactly non-null critical data `00 bf 00`, sidechain number,
four bytes of the previous block, and returns those bytes in hex. -/
theorem isBMMRequest_eq_some_iff (IsNull : Bool) (d : CCriticalData) (nSidechain : UInt8)
    (strPrevBlock : List Char) :
    d.isBMMRequest IsNull = some (nSidechain, strPrevBlock) ↔
      IsNull = false ∧ d.hashCritical.IsNull = false ∧
        ∃ prev : Bytes, prev.length = 4 ∧ d.vBytes = [0x00, 0xbf, 0x00, nSidechain] ++ prev ∧
          strPrevBlock = StrEncodings.hexStr prev := by
  obtain ⟨vBytes, hash⟩ := d
  constructor
  · intro h
    simp only [CCriticalData.isBMMRequest, Option.ite_none_left_eq_some, Option.some.injEq,
      Prod.mk.injEq] at h
    obtain ⟨hnull, hhash, hlen, hprefix, hprev, -, rfl, rfl⟩ := h
    simp only [Bool.or_eq_true, bne_iff_ne, ne_eq, not_or, not_not] at hprefix
    obtain ⟨⟨h0, h1⟩, h2⟩ := hprefix
    refine ⟨by simpa using hnull, by simpa using hhash, _, by simpa using hprev, ?_, rfl⟩
    show vBytes = [0x00, 0xbf, 0x00, vBytes.getD 3 0] ++ vBytes.drop 4
    nth_rewrite 1 [eq_getD_append_drop (show 4 ≤ vBytes.length by omega)]
    rw [h0, h1, h2]
  · rintro ⟨rfl, hhash, prev, hprev, rfl, rfl⟩
    simp [CCriticalData.isBMMRequest, hhash, hprev, StrEncodings.length_hexStr]

end TxDb
