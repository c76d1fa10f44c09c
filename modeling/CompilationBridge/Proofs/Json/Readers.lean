import CompilationBridge.Message.Printer
import CompilationBridge.Proofs.Json.Tokens
import CompilationBridge.Proofs.Tables

/-! Typed values as documents. A text, a truth value, an integer of sixty-four bits, bytes, and lists of what
can be read back are read back whatever was there before; a table is read back into nothing, with its entries
in the order of their keys. What is missing stays missing, and what is empty stays empty. -/

namespace CompilationBridge

/-! ### Bytes in base 64 -/

namespace Text.Base64

theorem value?_digit {n : Nat} (h : n < 64) : value? (digit n) = some n := by
  have hall : ∀ m < 64, value? (digit m) = some m := by decide
  exact hall n h

theorem digit_plain {n : Nat} (h : n < 64) : digit n ≠ '=' ∧ isLineBreak (digit n) = false := by
  have hall : ∀ m < 64, digit m ≠ '=' ∧ isLineBreak (digit m) = false := by decide
  exact hall n h

theorem toUInt8_eq {n : Nat} {a : UInt8} (h : n = a.toNat) : n.toUInt8 = a :=
  h ▸ UInt8.ofNat_toNat

/-- Bytes are read back from their digits. Three bytes make four digits; one or two left over are padded. -/
theorem decodeChars?_encodeChars (bytes : Bytes) : decodeChars? (encodeChars bytes) = some bytes := by
  induction bytes using encodeChars.induct with
  | case1 => rfl
  | case2 a =>
      have ha := a.toNat_lt
      have hfirst : (a.toNat / 4 * 4 + a.toNat % 4 * 16 / 16).toUInt8 = a := toUInt8_eq (by omega)
      rw [encodeChars, decodeChars?, value?_digit (by omega), value?_digit (by omega)]
      simp only [Option.bind_eq_bind, Option.bind_some, if_true, and_self, hfirst]
  | case3 a b =>
      have ha := a.toNat_lt
      have hb := b.toNat_lt
      have hfirst : (a.toNat / 4 * 4 + (a.toNat % 4 * 16 + b.toNat / 16) / 16).toUInt8 = a := toUInt8_eq (by omega)
      have hsecond : ((a.toNat % 4 * 16 + b.toNat / 16) % 16 * 16 + b.toNat % 16 * 4 / 4).toUInt8 = b :=
        toUInt8_eq (by omega)
      have hthird : digit (b.toNat % 16 * 4) ≠ '=' := (digit_plain (by omega)).1
      rw [encodeChars, decodeChars?, value?_digit (by omega), value?_digit (by omega)]
      simp only [Option.bind_eq_bind, Option.bind_some, hthird, if_false, if_true]
      rw [value?_digit (by omega)]
      simp only [Option.bind_some, hfirst, hsecond]
  | case4 a b c rest ih =>
      have ha := a.toNat_lt
      have hb := b.toNat_lt
      have hc := c.toNat_lt
      have hfirst : (a.toNat / 4 * 4 + (a.toNat % 4 * 16 + b.toNat / 16) / 16).toUInt8 = a := toUInt8_eq (by omega)
      have hsecond : ((a.toNat % 4 * 16 + b.toNat / 16) % 16 * 16 +
          (b.toNat % 16 * 4 + c.toNat / 64) / 4).toUInt8 = b := toUInt8_eq (by omega)
      have hlast : ((b.toNat % 16 * 4 + c.toNat / 64) % 4 * 64 + c.toNat % 64).toUInt8 = c := toUInt8_eq (by omega)
      have hthird : digit (b.toNat % 16 * 4 + c.toNat / 64) ≠ '=' := (digit_plain (by omega)).1
      have hfourth : digit (c.toNat % 64) ≠ '=' := (digit_plain (by omega)).1
      rw [encodeChars, decodeChars?, value?_digit (by omega), value?_digit (by omega)]
      simp only [Option.bind_eq_bind, Option.bind_some, hthird, hfourth, if_false]
      rw [value?_digit (by omega), value?_digit (by omega), ih]
      simp only [Option.bind_some, hfirst, hsecond, hlast]

theorem isLineBreak_of_mem_encodeChars {bytes : Bytes} {x : Char} (h : x ∈ encodeChars bytes) :
    isLineBreak x = false := by
  induction bytes using encodeChars.induct with
  | case1 => cases h
  | case2 a =>
      have ha := a.toNat_lt
      simp only [encodeChars, List.mem_cons, List.not_mem_nil, or_false] at h
      rcases h with rfl | rfl | rfl | rfl
      · exact (digit_plain (by omega)).2
      · exact (digit_plain (by omega)).2
      · rfl
      · rfl
  | case3 a b =>
      have ha := a.toNat_lt
      have hb := b.toNat_lt
      simp only [encodeChars, List.mem_cons, List.not_mem_nil, or_false] at h
      rcases h with rfl | rfl | rfl | rfl
      · exact (digit_plain (by omega)).2
      · exact (digit_plain (by omega)).2
      · exact (digit_plain (by omega)).2
      · rfl
  | case4 a b c rest ih =>
      have ha := a.toNat_lt
      have hb := b.toNat_lt
      have hc := c.toNat_lt
      simp only [encodeChars, List.mem_cons] at h
      rcases h with rfl | rfl | rfl | rfl | h
      · exact (digit_plain (by omega)).2
      · exact (digit_plain (by omega)).2
      · exact (digit_plain (by omega)).2
      · exact (digit_plain (by omega)).2
      · exact ih h

/-- Bytes are read back from their text. -/
theorem decode?_encode (bytes : Bytes) : decode? (encode bytes) = some bytes := by
  have hkept : (encodeChars bytes).filter (!isLineBreak ·) = encodeChars bytes :=
    List.filter_eq_self.2 fun x hx => by rw [isLineBreak_of_mem_encodeChars hx]; rfl
  rw [decode?, encode, String.toList_ofList, hkept, decodeChars?_encodeChars]

end Text.Base64

/-! ### Tables in the order of their keys -/

namespace Table

variable {κ α : Type}

/-- A table of texts with its entries in the order of their keys. -/
def ordered (t : Table String α) : Table String α :=
  ⟨t.entries.mergeSort (·.1 ≤ ·.1)⟩

theorem perm_ordered (t : Table String α) : t.ordered.entries.Perm t.entries :=
  List.mergeSort_perm ..

theorem keys_ordered_perm (t : Table String α) : t.ordered.keys.Perm t.keys :=
  t.perm_ordered.map _

/-- The order of the entries does not matter to what a table holds. -/
theorem get?_ordered {t : Table String α} (h : t.keys.Nodup) (k : String) : t.ordered.get? k = t.get? k := by
  have hordered : t.ordered.keys.Nodup := t.keys_ordered_perm.nodup_iff.2 h
  refine Option.ext fun v => ?_
  rw [← mem_entries hordered, ← mem_entries h]
  exact t.perm_ordered.mem_iff

theorem put_of_not_mem [DecidableEq κ] {t : Table κ α} {k : κ} (h : k ∉ t.keys) (v : α) :
    t.put k v = ⟨t.entries ++ [(k, v)]⟩ := by
  obtain ⟨entries⟩ := t
  rw [put, mk.injEq]
  induction entries with
  | nil => rfl
  | cons e rest ih =>
      rw [keys, List.map_cons, List.mem_cons, not_or] at h
      rw [putEntry, if_neg (Ne.symm h.1), ih h.2, List.cons_append]

end Table

namespace Json.Reader

variable {α : Type} {f : α → Json} {r : Reader α} {zero : α}

/-- Whatever was there before, a reader finds a value in a document. -/
def Recovers (r : Reader α) (j : Json) (v : α) : Prop :=
  ∀ old, r old j = some v

theorem recovers_string (s : String) : Recovers string (.str s) s :=
  fun _ => rfl

theorem recovers_bool (b : Bool) : Recovers bool (.bool b) b :=
  fun _ => rfl

/-- An integer of sixty-four bits. -/
def IsWord (n : Int) : Prop :=
  -0x8000000000000000 ≤ n ∧ n < 0x8000000000000000

instance (n : Int) : Decidable (IsWord n) :=
  inferInstanceAs (Decidable (_ ∧ _))

theorem recovers_int {n : Int} (h : IsWord n) : Recovers int (.int n) n := by
  intro old
  rw [Json.int, int, integer?_toString]
  exact if_pos h

theorem recovers_bytes (b : Option Text.Bytes) : Recovers bytes (.ofBytes b) b := by
  intro old
  cases b with
  | none => rfl
  | some b =>
      have hdecode := Text.Base64.decode?_encode b
      simp [ofBytes, orNull, bytes, hdecode]

theorem recovers_items (h : ∀ v, Recovers r (f v) v) (old vs : List α) :
    items zero r old (vs.map f) = some vs := by
  induction vs generalizing old with
  | nil => rfl
  | cons v rest ih =>
      rw [List.map_cons, items, h v, ih]
      rfl

theorem recovers_list (h : ∀ v, Recovers r (f v) v) (vs : Option (List α)) :
    Recovers (list zero r) (.orNull (fun vs => .arr (vs.map f)) vs) vs := by
  intro old
  cases vs with
  | none => rfl
  | some vs => rw [orNull, list, recovers_items h, Option.map_some]

theorem recovers_strings (vs : Option (List String)) :
    Recovers (list "" string) (.orNull .strings vs) vs :=
  recovers_list recovers_string vs

/-! ### Tables -/

theorem ofTable_eq (f : α → Json) (t : Table String α) :
    ofTable f t = .obj (t.ordered.entries.map fun e => (e.1, f e.2)) := by
  have hmap := List.map_mergeSort (r := fun a b : String × α => decide (a.1 ≤ b.1))
    (s := fun a b : String × Json => decide (a.1 ≤ b.1)) (f := fun e => (e.1, f e.2)) (l := t.entries)
    fun _ _ _ _ => rfl
  exact congrArg Json.obj hmap.symm

theorem foldlM_put {members : List (String × α)} (h : ∀ e ∈ members, r zero (f e.2) = some e.2)
    {t : Table String α} (hkeys : (t.keys ++ members.map (·.1)).Nodup) :
    (members.map fun e => (e.1, f e.2)).foldlM
        (fun t (m : String × Json) => (r zero m.2).map (t.put m.1 ·)) t =
      some ⟨t.entries ++ members⟩ := by
  induction members generalizing t with
  | nil => simp
  | cons e rest ih =>
      have hnew : e.1 ∉ t.keys := fun hmem =>
        (List.nodup_append.1 hkeys).2.2 _ hmem _ List.mem_cons_self rfl
      have hput : t.put e.1 e.2 = ⟨t.entries ++ [e]⟩ := Table.put_of_not_mem hnew e.2
      rw [List.map_cons, List.foldlM_cons, h e List.mem_cons_self, Option.map_some, hput]
      refine (ih (fun x hx => h x (List.mem_cons_of_mem e hx)) ?_).trans ?_
      · rw [Table.keys, List.map_append, List.append_assoc]
        exact hkeys
      · rw [List.append_assoc, List.singleton_append]

/-- A table is read back into nothing, in the order of its keys. -/
theorem read_table (h : ∀ v, Recovers r (f v) v) {t : Option (Table String α)}
    (hkeys : ∀ u ∈ t, u.keys.Nodup) :
    table zero r none (.orNull (.ofTable f) t) = some (t.map Table.ordered) := by
  cases t with
  | none => rfl
  | some t =>
      have hordered : t.ordered.keys.Nodup := t.keys_ordered_perm.nodup_iff.2 (hkeys t rfl)
      have hfold : (t.ordered.entries.map fun e => (e.1, f e.2)).foldlM
          (fun t (m : String × Json) => (r zero m.2).map (t.put m.1 ·)) Table.empty = some t.ordered :=
        foldlM_put (fun e _ => h e.2 zero) hordered
      rw [orNull, ofTable_eq, table]
      exact congrArg (Option.map some) hfold

end Json.Reader

end CompilationBridge
