import CompilationBridge.Text.Bytes
import Mathlib.Data.List.Basic

/-! Texts and their bytes. Each character is read back from its sequence, whatever follows, so a text is
read back from its bytes; and bytes that are all ASCII are a text, one character each. -/

namespace CompilationBridge.Text

/-! ### One character -/

theorem toNat_toUInt8 {n : Nat} (h : n < 0x100) : n.toUInt8.toNat = n :=
  UInt8.toNat_ofNat_of_lt h

theorem continuation?_add {n : Nat} (h : n < 0x40) : continuation? (0x80 + n).toUInt8 = some n := by
  have hb : (0x80 + n).toUInt8.toNat = 0x80 + n := toNat_toUInt8 (by omega)
  rw [continuation?, hb, if_pos (by omega), Nat.add_sub_cancel_left]

theorem pair?_eq_none {a : UInt8} (h : 0xE0 ≤ a.toNat) (b : UInt8) : pair? a b = none := by
  unfold pair?
  cases continuation? b with
  | none => rfl
  | some x => exact if_neg (by omega)

theorem triple?_eq_none {a : UInt8} (h : 0xF0 ≤ a.toNat) (b c : UInt8) : triple? a b c = none := by
  unfold triple?
  cases continuation? b with
  | none => rfl
  | some x =>
      cases continuation? c with
      | none => rfl
      | some y => exact if_neg (by omega)

theorem pair?_encode {n : Nat} (hlow : 0x80 ≤ n) (hhigh : n < 0x800) :
    pair? (0xC0 + n / 0x40).toUInt8 (0x80 + n % 0x40).toUInt8 = some n := by
  simp only [pair?, continuation?_add (Nat.mod_lt n (by decide)), Option.bind_eq_bind, Option.bind_some,
    toNat_toUInt8 (show 0xC0 + n / 0x40 < 0x100 by omega)]
  rw [if_pos (by omega)]
  congr 1
  omega

theorem triple?_encode {n : Nat} (hlow : 0x800 ≤ n) (hhigh : n < 0x10000)
    (hvalid : ¬(0xD800 ≤ n ∧ n < 0xE000)) :
    triple? (0xE0 + n / 0x1000).toUInt8 (0x80 + n / 0x40 % 0x40).toUInt8 (0x80 + n % 0x40).toUInt8 =
      some n := by
  have hn : (0xE0 + n / 0x1000 - 0xE0) * 0x1000 + n / 0x40 % 0x40 * 0x40 + n % 0x40 = n := by omega
  simp only [triple?, continuation?_add (Nat.mod_lt _ (show 0 < 0x40 by decide)), Option.bind_eq_bind,
    Option.bind_some, toNat_toUInt8 (show 0xE0 + n / 0x1000 < 0x100 by omega), hn]
  exact if_pos ⟨by omega, by omega, hlow, hvalid⟩

theorem quad?_encode {n : Nat} (hlow : 0x10000 ≤ n) (hhigh : n < 0x110000) :
    quad? (0xF0 + n / 0x40000).toUInt8 (0x80 + n / 0x1000 % 0x40).toUInt8 (0x80 + n / 0x40 % 0x40).toUInt8
      (0x80 + n % 0x40).toUInt8 = some n := by
  have hn : (0xF0 + n / 0x40000 - 0xF0) * 0x40000 + n / 0x1000 % 0x40 * 0x1000 + n / 0x40 % 0x40 * 0x40 +
      n % 0x40 = n := by omega
  simp only [quad?, continuation?_add (Nat.mod_lt _ (show 0 < 0x40 by decide)), Option.bind_eq_bind,
    Option.bind_some, toNat_toUInt8 (show 0xF0 + n / 0x40000 < 0x100 by omega), hn]
  exact if_pos ⟨by omega, by omega, hlow, hhigh⟩

/-- A code point is below the surrogates, or past them and not past the last. -/
theorem isScalar (c : Char) : c.toNat < 0xD800 ∨ 0xE000 ≤ c.toNat ∧ c.toNat < 0x110000 := by
  rcases c.valid with h | ⟨hlow, hhigh⟩
  · exact Or.inl h
  · exact Or.inr ⟨hlow, hhigh⟩

/-- The sequence of a character is read as the character, whatever follows. -/
theorem decodeChar_encodeChar (c : Char) (rest : Bytes) :
    ∃ a more, encodeChar c = a :: more ∧ decodeChar a (more ++ rest) = (c, rest) := by
  have hc := isScalar c
  unfold encodeChar
  simp only
  split
  · rename_i hone
    refine ⟨_, [], rfl, ?_⟩
    rw [decodeChar.eq_def, toNat_toUInt8 (by omega), if_pos hone, Char.ofNat_toNat, List.nil_append]
  · rename_i hone
    split
    · rename_i htwo
      refine ⟨_, _, rfl, ?_⟩
      rw [decodeChar.eq_def, if_neg (by rw [toNat_toUInt8 (by omega)]; omega)]
      simp only [List.cons_append, List.nil_append, pair?_encode (Nat.le_of_not_lt hone) htwo,
        Char.ofNat_toNat]
    · rename_i htwo
      split
      · rename_i hthree
        refine ⟨_, _, rfl, ?_⟩
        -- The first byte is too large for a shorter sequence.
        have ha : 0xE0 ≤ (0xE0 + c.toNat / 0x1000).toUInt8.toNat := by
          rw [toNat_toUInt8 (by omega)]
          omega
        rw [decodeChar.eq_def, if_neg (by omega)]
        simp only [List.cons_append, List.nil_append, pair?_eq_none ha,
          triple?_encode (Nat.le_of_not_lt htwo) hthree (by omega), Char.ofNat_toNat]
      · rename_i hthree
        refine ⟨_, _, rfl, ?_⟩
        have ha : 0xF0 ≤ (0xF0 + c.toNat / 0x40000).toUInt8.toNat := by
          rw [toNat_toUInt8 (by omega)]
          omega
        have hlast : c.toNat < 0x110000 := by omega
        rw [decodeChar.eq_def, if_neg (by omega)]
        simp only [List.cons_append, List.nil_append, pair?_eq_none (Nat.le_trans (by decide) ha),
          triple?_eq_none ha, quad?_encode (Nat.le_of_not_lt hthree) hlast, Char.ofNat_toNat]

/-! ### Texts -/

theorem decodeChars_encodeChar (c : Char) (rest : Bytes) :
    decodeChars (encodeChar c ++ rest) = c :: decodeChars rest := by
  obtain ⟨a, more, hc, hdecode⟩ := decodeChar_encodeChar c rest
  rw [hc, List.cons_append, decodeChars, hdecode]

theorem decodeChars_encode (cs : List Char) : decodeChars (cs.flatMap encodeChar) = cs := by
  induction cs with
  | nil => rw [List.flatMap_nil, decodeChars]
  | cons c rest ih => rw [List.flatMap_cons, decodeChars_encodeChar, ih]

theorem encode_ofList (cs : List Char) : encode (String.ofList cs) = cs.flatMap encodeChar := by
  rw [encode, String.toList_ofList]

/-- A text is read back from its bytes. -/
@[simp] theorem decode_encode (s : String) : decode (encode s) = s := by
  rw [decode, encode, decodeChars_encode, String.ofList_toList]

theorem encode_injective {s t : String} (h : encode s = encode t) : s = t := by
  rw [← decode_encode s, h, decode_encode]

/-! ### ASCII -/

theorem encodeChar_ascii {c : Char} (h : c.toNat < 0x80) : encodeChar c = [c.toNat.toUInt8] :=
  if_pos h

theorem encodeChar_ne_nil (c : Char) : encodeChar c ≠ [] := by
  obtain ⟨a, more, hc, -⟩ := decodeChar_encodeChar c []
  exact hc ▸ List.cons_ne_nil a more

/-- Past ASCII a character has a second byte, which is past ASCII. -/
theorem encodeChar_wide {c : Char} (h : 0x80 ≤ c.toNat) :
    ∃ a b more, encodeChar c = a :: b :: more ∧ 0x80 ≤ b.toNat := by
  have hc := isScalar c
  unfold encodeChar
  simp only [if_neg (Nat.not_lt.2 h)]
  split
  · exact ⟨_, _, _, rfl, by rw [toNat_toUInt8 (by omega)]; omega⟩
  · split
    · exact ⟨_, _, _, rfl, by rw [toNat_toUInt8 (by omega)]; omega⟩
    · exact ⟨_, _, _, rfl, by rw [toNat_toUInt8 (by omega)]; omega⟩

/-- An ASCII byte at the start of a text is its first character. -/
theorem encodeChars_eq_cons_iff {c : Char} (h : c.toNat < 0x80) {cs : List Char} {bytes : Bytes} :
    cs.flatMap encodeChar = c.toNat.toUInt8 :: bytes ↔
      ∃ rest, cs = c :: rest ∧ rest.flatMap encodeChar = bytes := by
  have hcons (rest : List Char) :
      (c :: rest).flatMap encodeChar = c.toNat.toUInt8 :: rest.flatMap encodeChar := by
    rw [List.flatMap_cons, encodeChar_ascii h, List.singleton_append]
  constructor
  · intro hcs
    have hread : cs = c :: decodeChars bytes := by
      rw [← decodeChars_encode cs, hcs, ← List.singleton_append, ← encodeChar_ascii h, decodeChars_encodeChar]
    rw [hread, hcons] at hcs
    exact ⟨_, hread, (List.cons.inj hcs).2⟩
  · rintro ⟨rest, rfl, rfl⟩
    exact hcons rest

theorem decodeChars_ascii {bytes : Bytes} (h : ∀ b ∈ bytes, b.toNat < 0x80) :
    decodeChars bytes = bytes.map fun b => Char.ofNat b.toNat := by
  induction bytes with
  | nil => rw [decodeChars, List.map_nil]
  | cons b rest ih =>
      have hb := h b List.mem_cons_self
      have hstep : decodeChar b rest = (Char.ofNat b.toNat, rest) := if_pos hb
      rw [decodeChars, hstep, List.map_cons, ih fun x hx => h x (List.mem_cons_of_mem b hx)]

theorem toNat_ofNat_of_lt {n : Nat} (h : n < 0x80) : (Char.ofNat n).toNat = n := by
  have hvalid : n.isValidChar := Or.inl (by omega)
  rw [Char.ofNat, dif_pos hvalid]
  rfl

/-- Bytes that are all ASCII are those of a text. -/
theorem encode_decode {bytes : Bytes} (h : ∀ b ∈ bytes, b.toNat < 0x80) : encode (decode bytes) = bytes := by
  rw [decode, encode_ofList, decodeChars_ascii h, List.flatMap_map]
  induction bytes with
  | nil => rfl
  | cons b rest ih =>
      have hb := h b List.mem_cons_self
      have hnat := toNat_ofNat_of_lt hb
      have hbyte : b.toNat.toUInt8 = b := UInt8.ofNat_toNat
      rw [List.flatMap_cons, encodeChar_ascii (by omega), hnat, hbyte,
        ih fun x hx => h x (List.mem_cons_of_mem b hx)]
      rfl

end CompilationBridge.Text
