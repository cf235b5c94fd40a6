import TxDb.Reference

/-!
# The order of coin keys

A coin key is `'C'`, the hash, then `VARINT(n)`, compared bytewise (`keyLt_coinKey`).
Below 16512 the `VARINT` order is the numeric one (`coinKey_order_of_lt_16512`); 16511 is
`[0xFF, 0x7F]` and 16512 is `[0x80, 0x80, 0x00]`, so output 16512 sorts first.
-/

namespace TxDb

theorem keyLt_append_of_length_eq : ∀ {a b : Bytes} (c d : Bytes), a.length = b.length →
    keyLt (a ++ c) (b ++ d) = if a = b then keyLt c d else keyLt a b
  | [], [], _, _, _ => by simp
  | x :: a, y :: b, c, d, h => by
      simp only [List.cons_append, keyLt_cons_cons, List.cons.injEq,
        keyLt_append_of_length_eq c d (by simpa using h)]
      by_cases hxy : x = y
      · subst hxy
        by_cases hab : a = b <;> simp [hab]
      · simp [hxy]

theorem keyLt_coinKey (o₁ o₂ : COutPoint) :
    keyLt (CoinEntry.serialize o₁) (CoinEntry.serialize o₂) =
      if o₁.hash = o₂.hash then keyLt (writeVarInt o₁.n.toNat) (writeVarInt o₂.n.toNat)
      else keyLt o₁.hash.data o₂.hash.data := by
  rw [CoinEntry.serialize, CoinEntry.serialize, keyLt_cons_cons,
    keyLt_append_of_length_eq _ _ (by rw [o₁.hash.size_eq, o₂.hash.size_eq])]
  simp [Uint256.ext_iff]

/-! ## `VARINT` of one and two bytes -/

theorem writeVarInt_of_lt_128 {n : Nat} (h : n < 128) : writeVarInt n = [UInt8.ofNat n] := by
  cases n with
  | zero => rfl
  | succ k => simp [writeVarInt, writeVarIntAux, show k + 1 ≤ 0x7F by omega,
      Nat.mod_eq_of_lt h]

theorem writeVarInt_of_lt_16512 {n : Nat} (h₁ : 128 ≤ n) (h₂ : n < 16512) :
    writeVarInt n = [UInt8.ofNat (n / 128 - 1 + 128), UInt8.ofNat (n % 128)] := by
  obtain ⟨j, rfl⟩ : ∃ j, n = j + 2 := ⟨n - 2, by omega⟩
  have hm : (j + 2) / 128 - 1 ≤ 0x7F := by omega
  simp only [writeVarInt, writeVarIntAux]
  rw [if_neg (by omega), if_pos hm, Nat.mod_eq_of_lt (show (j + 2) / 128 - 1 < 128 by omega)]
  rfl

theorem UInt8.ofNat_lt_ofNat_iff {a b : Nat} (ha : a < 256) (hb : b < 256) :
    UInt8.ofNat a < UInt8.ofNat b ↔ a < b := by
  show (UInt8.ofNat a).toNat < (UInt8.ofNat b).toNat ↔ a < b
  rw [UInt8.toNat_ofNat_of_lt ha, UInt8.toNat_ofNat_of_lt hb]

theorem UInt8.ofNat_eq_ofNat_iff {a b : Nat} (ha : a < 256) (hb : b < 256) :
    UInt8.ofNat a = UInt8.ofNat b ↔ a = b := by
  constructor
  · intro h
    have := congrArg UInt8.toNat h
    rwa [UInt8.toNat_ofNat_of_lt ha, UInt8.toNat_ofNat_of_lt hb] at this
  · rintro rfl
    rfl

theorem keyLt_writeVarInt_iff {n₁ n₂ : Nat} (h₁ : n₁ < 16512) (h₂ : n₂ < 16512) :
    keyLt (writeVarInt n₁) (writeVarInt n₂) ↔ n₁ < n₂ := by
  have hd₁ : n₁ % 128 < 256 := by omega
  have hd₂ : n₂ % 128 < 256 := by omega
  by_cases s₁ : n₁ < 128 <;> by_cases s₂ : n₂ < 128
  · rw [writeVarInt_of_lt_128 s₁, writeVarInt_of_lt_128 s₂]
    simp [UInt8.ofNat_lt_ofNat_iff (show n₁ < 256 by omega) (show n₂ < 256 by omega)]
  · rw [writeVarInt_of_lt_128 s₁, writeVarInt_of_lt_16512 (by omega) h₂]
    simp [UInt8.ofNat_lt_ofNat_iff (show n₁ < 256 by omega) (show n₂ / 128 - 1 + 128 < 256 by omega)]
    omega
  · rw [writeVarInt_of_lt_16512 (by omega) h₁, writeVarInt_of_lt_128 s₂]
    simp [UInt8.ofNat_lt_ofNat_iff (show n₁ / 128 - 1 + 128 < 256 by omega)
      (show n₂ < 256 by omega), UInt8.ofNat_eq_ofNat_iff (show n₁ / 128 - 1 + 128 < 256 by omega)
      (show n₂ < 256 by omega)]
    omega
  · rw [writeVarInt_of_lt_16512 (by omega) h₁, writeVarInt_of_lt_16512 (by omega) h₂]
    have ha₁ : n₁ / 128 - 1 + 128 < 256 := by omega
    have ha₂ : n₂ / 128 - 1 + 128 < 256 := by omega
    simp [UInt8.ofNat_lt_ofNat_iff ha₁ ha₂, UInt8.ofNat_eq_ofNat_iff ha₁ ha₂,
      UInt8.ofNat_lt_ofNat_iff hd₁ hd₂]
    omega

/-- Below index 16512 the key order is the order of the outpoints: by the hash
bytes, then by the index. -/
theorem coinKey_order_of_lt_16512 {o₁ o₂ : COutPoint} (h₁ : o₁.n.toNat < 16512)
    (h₂ : o₂.n.toNat < 16512) :
    keyLt (CoinEntry.serialize o₁) (CoinEntry.serialize o₂) ↔
      if o₁.hash = o₂.hash then o₁.n.toNat < o₂.n.toNat else keyLt o₁.hash.data o₂.hash.data := by
  rw [keyLt_coinKey]
  split_ifs
  · exact keyLt_writeVarInt_iff h₁ h₂
  · rfl

theorem coinKey_order_of_lt_16512_oneTwoBytes :
    (100 : UInt32).toNat < 16512 ∧ (16511 : UInt32).toNat < 16512 ∧
      (keyLt (CoinEntry.serialize ⟨Reference.tip, 100⟩) (CoinEntry.serialize ⟨Reference.tip, 16511⟩) ↔
        if Reference.tip = Reference.tip then (100 : UInt32).toNat < (16511 : UInt32).toNat
        else keyLt Reference.tip.data Reference.tip.data) :=
  ⟨by decide, by decide, coinKey_order_of_lt_16512 (by decide) (by decide)⟩

/-- Output 16512 of a transaction has a key below that of its output 16511. -/
theorem coinKey_order_breaks_at_16512 :
    keyLt (CoinEntry.serialize ⟨Reference.tip, 16512⟩)
        (CoinEntry.serialize ⟨Reference.tip, 16511⟩) = true ∧
      (16511 : UInt32).toNat < (16512 : UInt32).toNat := by
  decide

end TxDb
