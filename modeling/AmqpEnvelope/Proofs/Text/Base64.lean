import AmqpEnvelope.Text.Base64

/-!
# Reading Base64 undoes writing it

An input is accepted exactly when it is what some byte string is written as
(`Base64.decode_eq_ok_iff`), so texts in this form are unique.

Three bytes and four sextets are two ways to cut up the same number.  The last group is
where the form could fail to be unique: it carries fewer bytes than its symbols have room
for, and the reader insists that what is left over is zero.
-/

namespace AmqpEnvelope.Base64

/-! ## The alphabet -/

theorem sextet?_symbol {value : Nat} (h : value < 64) : sextet? (symbol value) = some value := by
  decide +revert +kernel

theorem symbol_ne_pad {value : Nat} (h : value < 64) : symbol value ≠ pad := by
  intro hpad
  have hsextet := sextet?_symbol h
  rw [hpad] at hsextet
  cases hsextet

/-- A symbol is that of its value. -/
theorem eq_symbol_of_sextet? {byte : UInt8} {value : Nat} (h : sextet? byte = some value) :
    value < 64 ∧ byte = symbol value := by
  have hall : ∀ n < 256, ∀ v ∈ sextet? (UInt8.ofNat n), v < 64 ∧ UInt8.ofNat n = symbol v := by
    decide +kernel
  have hbyte := hall byte.toNat byte.toNat_lt value
  rw [UInt8.ofNat_toNat] at hbyte
  exact hbyte h

theorem symbolAt_eq_ok_iff {offset : Nat} {byte : UInt8} {value : Nat} :
    symbolAt offset byte = .ok value ↔ value < 64 ∧ byte = symbol value := by
  unfold symbolAt
  constructor
  · intro h
    split at h
    next found hfound =>
      cases h
      exact eq_symbol_of_sextet? hfound
    next => cases h
  · rintro ⟨hvalue, rfl⟩
    rw [sextet?_symbol hvalue]

/-! ## Groups -/

theorem toNat_ofNat_of_lt {n : Nat} (h : n < 256) : (UInt8.ofNat n).toNat = n := by
  rw [UInt8.toNat_ofNat', Nat.mod_eq_of_lt h]

/-- Three bytes are written as the four sextets that they carry. -/
theorem encode_joined_append {w x y z : Nat} (hw : w < 64) (hx : x < 64) (hy : y < 64)
    (hz : z < 64) (rest : Bytes) :
    encode (joined w x y z ++ rest) =
      symbol w :: symbol x :: symbol y :: symbol z :: encode rest := by
  simp only [joined, List.cons_append, List.nil_append, encode]
  rw [toNat_ofNat_of_lt (by omega), toNat_ofNat_of_lt (by omega), toNat_ofNat_of_lt (by omega)]
  have h₁ : (w * 4 + x / 16) / 4 = w := by omega
  have h₂ : (w * 4 + x / 16) % 4 * 16 + (x % 16 * 16 + y / 4) / 16 = x := by omega
  have h₃ : (x % 16 * 16 + y / 4) % 16 * 4 + (y % 4 * 64 + z) / 64 = y := by omega
  have h₄ : (y % 4 * 64 + z) % 64 = z := by omega
  rw [h₁, h₂, h₃, h₄]

/-- Three bytes are carried by four sextets. -/
theorem joined_of_bytes (a b c : UInt8) :
    joined (a.toNat / 4) (a.toNat % 4 * 16 + b.toNat / 16) (b.toNat % 16 * 4 + c.toNat / 64)
      (c.toNat % 64) = [a, b, c] := by
  have ha := a.toNat_lt
  have hb := b.toNat_lt
  have hc := c.toNat_lt
  simp only [joined]
  have h₁ : a.toNat / 4 * 4 + (a.toNat % 4 * 16 + b.toNat / 16) / 16 = a.toNat := by omega
  have h₂ : (a.toNat % 4 * 16 + b.toNat / 16) % 16 * 16 + (b.toNat % 16 * 4 + c.toNat / 64) / 4 =
      b.toNat := by omega
  have h₃ : (b.toNat % 16 * 4 + c.toNat / 64) % 4 * 64 + c.toNat % 64 = c.toNat := by omega
  rw [h₁, h₂, h₃, UInt8.ofNat_toNat, UInt8.ofNat_toNat, UInt8.ofNat_toNat]

/-- One byte is carried by two sextets, of which the second has four bits to spare. -/
theorem encode_one {w x : Nat} (hw : w < 64) (hx : x < 64) (hspare : x % 16 = 0) :
    encode [UInt8.ofNat (w * 4 + x / 16)] = [symbol w, symbol x, pad, pad] := by
  simp only [encode]
  rw [toNat_ofNat_of_lt (by omega)]
  have h₁ : (w * 4 + x / 16) / 4 = w := by omega
  have h₂ : (w * 4 + x / 16) % 4 * 16 = x := by omega
  rw [h₁, h₂]

/-- Two bytes are carried by three sextets, of which the third has two bits to spare. -/
theorem encode_two {w x y : Nat} (hw : w < 64) (hx : x < 64) (hy : y < 64) (hspare : y % 4 = 0) :
    encode [UInt8.ofNat (w * 4 + x / 16), UInt8.ofNat (x % 16 * 16 + y / 4)] =
      [symbol w, symbol x, symbol y, pad] := by
  simp only [encode]
  rw [toNat_ofNat_of_lt (by omega), toNat_ofNat_of_lt (by omega)]
  have h₁ : (w * 4 + x / 16) / 4 = w := by omega
  have h₂ : (w * 4 + x / 16) % 4 * 16 + (x % 16 * 16 + y / 4) / 16 = x := by omega
  have h₃ : (x % 16 * 16 + y / 4) % 16 * 4 = y := by omega
  rw [h₁, h₂, h₃]

private theorem except_bind_eq_ok_iff {ε α β : Type} {first : Except ε α} {next : α → Except ε β}
    {value : β} : (first >>= next) = .ok value ↔ ∃ a, first = .ok a ∧ next a = .ok value := by
  cases first with
  | error e => exact ⟨nofun, nofun⟩
  | ok a => exact ⟨fun h => ⟨a, rfl, h⟩, fun ⟨_, rfl, h⟩ => h⟩

/-- An accepted last group is what its bytes are written as. -/
theorem encode_of_lastGroup {offset : Nat} {a b c d : UInt8} {bytes : Bytes}
    (h : lastGroup offset a b c d = .ok bytes) : encode bytes = [a, b, c, d] := by
  obtain ⟨w, hfirst, hnext⟩ := except_bind_eq_ok_iff.mp h
  obtain ⟨x, hsecond, hrest⟩ := except_bind_eq_ok_iff.mp hnext
  obtain ⟨hw, ha⟩ := symbolAt_eq_ok_iff.mp hfirst
  obtain ⟨hx, hb⟩ := symbolAt_eq_ok_iff.mp hsecond
  -- One byte stands in front of two pads, two in front of one; spare bits have to be zero.
  by_cases hc : c = pad
  · rw [if_pos hc] at hrest
    by_cases hd : d = pad
    · rw [if_pos hd] at hrest
      split at hrest
      next hspare =>
        cases hrest
        rw [encode_one hw hx hspare, ha, hb, hc, hd]
      next => cases hrest
    · rw [if_neg hd] at hrest
      cases hrest
  · rw [if_neg hc] at hrest
    obtain ⟨y, hthird, hlast⟩ := except_bind_eq_ok_iff.mp hrest
    obtain ⟨hy, hc⟩ := symbolAt_eq_ok_iff.mp hthird
    by_cases hd : d = pad
    · rw [if_pos hd] at hlast
      split at hlast
      next hspare =>
        cases hlast
        rw [encode_two hw hx hy hspare, ha, hb, hc, hd]
      next => cases hlast
    · rw [if_neg hd] at hlast
      obtain ⟨z, hfourth, hjoined⟩ := except_bind_eq_ok_iff.mp hlast
      obtain ⟨hz, hd⟩ := symbolAt_eq_ok_iff.mp hfourth
      obtain rfl := Except.ok.inj hjoined
      rw [ha, hb, hc, hd]
      exact encode_joined_append hw hx hy hz []

/-! ## Inputs -/

/-- An accepted input is what its bytes are written as. -/
theorem encode_of_decodeFrom {offset : Nat} {input bytes : Bytes}
    (h : decodeFrom offset input = .ok bytes) : encode bytes = input := by
  induction offset, input using decodeFrom.induct generalizing bytes with
  | case1 offset => cases h; rfl
  | case2 offset a b c d => exact encode_of_lastGroup h
  | case3 offset a b c d rest hrest ih =>
      rw [decodeFrom.eq_3 _ _ _ _ _ _ hrest] at h
      obtain ⟨w, hfirst, h₁⟩ := except_bind_eq_ok_iff.mp h
      obtain ⟨x, hsecond, h₂⟩ := except_bind_eq_ok_iff.mp h₁
      obtain ⟨y, hthird, h₃⟩ := except_bind_eq_ok_iff.mp h₂
      obtain ⟨z, hfourth, h₄⟩ := except_bind_eq_ok_iff.mp h₃
      obtain ⟨tail, htail, hjoined⟩ := except_bind_eq_ok_iff.mp h₄
      obtain ⟨hw, ha⟩ := symbolAt_eq_ok_iff.mp hfirst
      obtain ⟨hx, hb⟩ := symbolAt_eq_ok_iff.mp hsecond
      obtain ⟨hy, hc⟩ := symbolAt_eq_ok_iff.mp hthird
      obtain ⟨hz, hd⟩ := symbolAt_eq_ok_iff.mp hfourth
      obtain rfl := Except.ok.inj hjoined
      rw [encode_joined_append hw hx hy hz, ih htail, ha, hb, hc, hd]
  | case4 input offset h₁ h₂ h₃ =>
      rw [decodeFrom.eq_4 _ _ h₁ h₂ h₃] at h
      cases h

@[simp] theorem symbolAt_symbol {offset value : Nat} (h : value < 64) :
    symbolAt offset (symbol value) = .ok value :=
  symbolAt_eq_ok_iff.mpr ⟨h, rfl⟩

/-- The symbols of a whole group are read like a group of its own and what follows. -/
theorem decodeFrom_group (offset : Nat) {w x y z : Nat} (hw : w < 64) (hx : x < 64) (hy : y < 64)
    (hz : z < 64) {rest tail : Bytes} (hrest : decodeFrom (offset + 4) rest = .ok tail) :
    decodeFrom offset (symbol w :: symbol x :: symbol y :: symbol z :: rest) =
      .ok (joined w x y z ++ tail) := by
  cases rest with
  | nil =>
      cases hrest
      simp only [decodeFrom, lastGroup, symbolAt_symbol hw, symbolAt_symbol hx, symbolAt_symbol hy,
        symbolAt_symbol hz, if_neg (symbol_ne_pad hy), if_neg (symbol_ne_pad hz)]
      rfl
  | cons byte more =>
      rw [decodeFrom.eq_3 _ _ _ _ _ _ (List.cons_ne_nil byte more), symbolAt_symbol hw,
        symbolAt_symbol hx, symbolAt_symbol hy, symbolAt_symbol hz, hrest]
      rfl

/-- The padded group of one byte is read back. -/
theorem lastGroup_one (offset : Nat) (a : UInt8) :
    lastGroup offset (symbol (a.toNat / 4)) (symbol (a.toNat % 4 * 16)) pad pad = .ok [a] := by
  have ha := a.toNat_lt
  have hspare : a.toNat % 4 * 16 % 16 = 0 := by omega
  have hbyte : a.toNat / 4 * 4 + a.toNat % 4 * 16 / 16 = a.toNat := by omega
  simp only [lastGroup, symbolAt_symbol (show a.toNat / 4 < 64 by omega),
    symbolAt_symbol (show a.toNat % 4 * 16 < 64 by omega), bind, Except.bind, hspare, hbyte,
    UInt8.ofNat_toNat, reduceIte]
  rfl

/-- The padded group of two bytes is read back. -/
theorem lastGroup_two (offset : Nat) (a b : UInt8) :
    lastGroup offset (symbol (a.toNat / 4)) (symbol (a.toNat % 4 * 16 + b.toNat / 16))
      (symbol (b.toNat % 16 * 4)) pad = .ok [a, b] := by
  have ha := a.toNat_lt
  have hb := b.toNat_lt
  have hy : b.toNat % 16 * 4 < 64 := by omega
  have hspare : b.toNat % 16 * 4 % 4 = 0 := by omega
  have hfirst : a.toNat / 4 * 4 + (a.toNat % 4 * 16 + b.toNat / 16) / 16 = a.toNat := by omega
  have hsecond : (a.toNat % 4 * 16 + b.toNat / 16) % 16 * 16 + b.toNat % 16 * 4 / 4 = b.toNat := by
    omega
  simp only [lastGroup, symbolAt_symbol (show a.toNat / 4 < 64 by omega),
    symbolAt_symbol (show a.toNat % 4 * 16 + b.toNat / 16 < 64 by omega), symbolAt_symbol hy,
    if_neg (symbol_ne_pad hy), bind, Except.bind, hspare, hfirst, hsecond, UInt8.ofNat_toNat,
    reduceIte]
  rfl

/-- What a byte string is written as is read back. -/
theorem decodeFrom_encode (offset : Nat) (bytes : Bytes) :
    decodeFrom offset (encode bytes) = .ok bytes := by
  induction bytes using encode.induct generalizing offset with
  | case1 => rfl
  | case2 a => exact lastGroup_one offset a
  | case3 a b => exact lastGroup_two offset a b
  | case4 a b c rest ih =>
      have ha := a.toNat_lt
      have hb := b.toNat_lt
      have hc := c.toNat_lt
      rw [encode, decodeFrom_group offset (by omega) (by omega) (by omega) (by omega) (ih _),
        joined_of_bytes]
      rfl

/-- **Reading undoes writing**, and nothing else is accepted. -/
theorem decode_eq_ok_iff {input bytes : Bytes} :
    decode input = .ok bytes ↔ input = encode bytes :=
  ⟨fun h => (encode_of_decodeFrom h).symm, fun h => h ▸ decodeFrom_encode 0 bytes⟩

end AmqpEnvelope.Base64
