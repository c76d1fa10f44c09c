import CompilationBridge.Json.Compact
import CompilationBridge.Json.Reader
import Mathlib.Algebra.Group.Nat.Defs

/-! Strings and integers as tokens. Every character is read back from its spelling, whether it stands for
itself or is escaped, and an integer from its decimal digits, up to the point where they end. -/

namespace CompilationBridge

/-! ### Hexadecimal digits -/

namespace Text

theorem hexValue?_hexDigit {n : Nat} (h : n < 16) : hexValue? (hexDigit n) = some n := by
  have hall : ∀ m < 16, hexValue? (hexDigit m) = some m := by decide
  exact hall n h

theorem readHex?_append (n : Nat) (cs ds : List Char) :
    readHex? n (cs ++ ds) = (readHex? n cs).bind (readHex? · ds) := by
  induction cs generalizing n with
  | nil => rfl
  | cons c rest ih =>
      rw [List.cons_append, readHex?, readHex?, Option.bind_assoc]
      exact congrArg _ (funext fun d => ih _)

theorem readHex?_hexDigits (start width n : Nat) :
    readHex? start (hexDigits width n) = some (start * 16 ^ width + n % 16 ^ width) := by
  induction width generalizing n with
  | zero => simp [hexDigits, readHex?, Nat.mod_one]
  | succ width ih =>
      have hlast : n % 16 < 16 := Nat.mod_lt n (by decide)
      rw [hexDigits, readHex?_append, ih, Option.bind_some, readHex?, hexValue?_hexDigit hlast,
        Option.bind_some, readHex?, Nat.pow_succ', Nat.mod_mul]
      congr 1
      rw [Nat.add_mul, Nat.mul_assoc, Nat.mul_comm (16 ^ width) 16, Nat.mul_comm _ 16]
      omega

end Text

namespace Json

theorem unit?_of_hexDigits {n : Nat} (h : n < 0x10000) :
    ∃ a b c d, Text.hexDigits 4 n = [a, b, c, d] ∧ unit? a b c d = some n := by
  refine ⟨_, _, _, _, rfl, (Text.readHex?_hexDigits 0 4 n).trans ?_⟩
  have hn : n % 16 ^ 4 = n := Nat.mod_eq_of_lt h
  rw [Nat.zero_mul, Nat.zero_add, hn]

/-! ### Strings -/

variable {e : Escaping} {c x : Char} {done rest : List Char}

theorem unescape?_of_shortEscape? {letter : Char} (h : shortEscape? c = some letter) :
    unescape? letter = some c := by
  unfold shortEscape? at h
  split at h <;> cases h
  all_goals
    rename_i hc
    rw [← Char.ofNat_toNat c, hc]
    rfl

theorem stringBody_unescape (h : unescape? c = some x) :
    stringBody none done ('\\' :: c :: rest) = stringBody none (x :: done) rest := by
  have hc : c ≠ 'u' := by
    rintro rfl
    simp [unescape?] at h
  rw [stringBody.eq_def]
  split
  · simp_all
  · simp_all
  · simp_all
  · rename_i heq
    simp only [List.cons.injEq, true_and] at heq
    obtain ⟨rfl, rfl⟩ := heq
    rw [h]
    rfl
  · rename_i hescape heq
    exact (hescape c rest (List.cons.inj heq).1.symm (List.cons.inj heq).2.symm).elim

theorem stringBody_unit {n : Nat} (hn : n < 0xD800) :
    stringBody none done ('\\' :: 'u' :: (Text.hexDigits 4 n ++ rest)) =
      stringBody none (Char.ofNat n :: done) rest := by
  obtain ⟨a, b, c, d, heq, hunit⟩ := unit?_of_hexDigits (Nat.lt_trans hn (by decide))
  have hhigh : isHighSurrogate n = false := by
    rw [isHighSurrogate, decide_eq_false (by omega), Bool.false_and]
  have hlow : isLowSurrogate n = false := by
    rw [isLowSurrogate, decide_eq_false (by omega), Bool.false_and]
  simp [heq, stringBody, hunit, charOfUnit, hhigh, hlow]

theorem stringBody_plain (hcontrol : 0x20 ≤ c.toNat) (hquote : c ≠ '"') (hslash : c ≠ '\\') :
    stringBody none done (c :: rest) = stringBody none (c :: done) rest := by
  rw [stringBody.eq_def]
  split
  · simp_all
  · simp_all
  · simp_all
  · simp_all
  · rename_i heq
    obtain ⟨rfl, rfl⟩ := List.cons.inj heq
    rw [if_neg (by simp [hslash, Nat.not_lt.2 hcontrol])]
    rfl

/-- The characters that are escaped by number are no surrogates. -/
theorem toNat_of_escaped
    (h : c.toNat < 0x20 ∨ c.toNat = 0x2028 ∨ c.toNat = 0x2029 ∨ (e = .markup ∧ isMarkup c)) :
    c.toNat < 0xD800 := by
  rcases h with h | h | h | ⟨-, h⟩
  · omega
  · omega
  · omega
  · simp only [isMarkup, Bool.or_eq_true, decide_eq_true_eq] at h
    rcases h with (rfl | rfl) | rfl <;> decide

theorem stringBody_escapeChar (e : Escaping) (c : Char) (done rest : List Char) :
    stringBody none done (escapeChar e c ++ rest) = stringBody none (c :: done) rest := by
  unfold escapeChar
  cases hshort : shortEscape? c with
  | some letter => exact stringBody_unescape (unescape?_of_shortEscape? hshort)
  | none =>
      dsimp only
      split
      · rename_i hescaped
        rw [List.cons_append, List.cons_append, stringBody_unit (toNat_of_escaped hescaped), Char.ofNat_toNat]
      · rename_i hplain
        refine stringBody_plain (by omega) ?_ ?_
        · rintro rfl
          simp [shortEscape?] at hshort
        · rintro rfl
          simp [shortEscape?] at hshort

/-- A string is read back up to its closing quote. -/
theorem stringBody_escaped (e : Escaping) (s done rest : List Char) :
    stringBody none done (s.flatMap (escapeChar e) ++ '"' :: rest) = some (done.reverse ++ s, rest) := by
  induction s generalizing done with
  | nil =>
      rw [List.append_nil]
      rfl
  | cons c more ih =>
      rw [List.flatMap_cons, List.append_assoc, stringBody_escapeChar, ih, List.reverse_cons, List.append_assoc,
        List.singleton_append]

/-! ### Compact strings -/

theorem compactFrom_cons_inside (h : respell c = [c]) :
    compactFrom .inside (c :: rest) = c :: compactFrom (Place.inside.next c) rest := by
  rw [compactFrom, if_neg (by simp), h, List.singleton_append]

/-- Characters in a string that neither end it nor begin an escape. -/
theorem compactFrom_inside {cs : List Char} (h : ∀ c ∈ cs, respell c = [c] ∧ c ≠ '"' ∧ c ≠ '\\') :
    compactFrom .inside (cs ++ rest) = cs ++ compactFrom .inside rest := by
  induction cs with
  | nil => rfl
  | cons c more ih =>
      obtain ⟨hspelt, hquote, hslash⟩ := h c List.mem_cons_self
      rw [List.cons_append, compactFrom_cons_inside hspelt, Place.next, if_neg hquote, if_neg hslash,
        ih fun x hx => h x (List.mem_cons_of_mem c hx), List.cons_append]

theorem compactFrom_escape (h : respell c = [c]) :
    compactFrom .inside ('\\' :: c :: rest) = '\\' :: c :: compactFrom .inside rest := by
  have hslash : respell '\\' = ['\\'] := by decide
  have hplace : Place.inside.next '\\' = .escaped := rfl
  rw [compactFrom_cons_inside hslash, hplace, compactFrom, if_neg (by simp), h]
  rfl

theorem respell_of_shortEscape? {letter : Char} (h : shortEscape? c = some letter) :
    respell letter = [letter] := by
  unfold shortEscape? at h
  split at h <;> cases h <;> decide

theorem plain_of_mem_hexDigits {width n : Nat} (h : c ∈ Text.hexDigits width n) :
    respell c = [c] ∧ c ≠ '"' ∧ c ≠ '\\' := by
  induction width generalizing n with
  | zero => cases h
  | succ width ih =>
      rw [Text.hexDigits, List.mem_append, List.mem_singleton] at h
      rcases h with h | rfl
      · exact ih h
      · have hall : ∀ m < 16, respell (Text.hexDigit m) = [Text.hexDigit m] ∧ Text.hexDigit m ≠ '"' ∧
            Text.hexDigit m ≠ '\\' := by decide
        exact hall _ (Nat.mod_lt n (by decide))

theorem compactFrom_escapeChar (c : Char) (rest : List Char) :
    compactFrom .inside (escapeChar .markup c ++ rest) =
      escapeChar .markup c ++ compactFrom .inside rest := by
  unfold escapeChar
  cases hshort : shortEscape? c with
  | some letter => exact compactFrom_escape (respell_of_shortEscape? hshort)
  | none =>
      dsimp only
      split
      · rw [List.cons_append, List.cons_append, compactFrom_escape (by decide),
          compactFrom_inside fun _ => plain_of_mem_hexDigits, List.cons_append, List.cons_append]
      · rename_i hplain
        simp only [not_or, true_and, Bool.not_eq_true] at hplain
        have hspelt : respell c = [c] := by simp [respell, hplain.2.1, hplain.2.2.1, hplain.2.2.2]
        refine compactFrom_inside fun x hx => ?_
        obtain rfl := List.mem_singleton.1 hx
        refine ⟨hspelt, ?_, ?_⟩
        · rintro rfl
          simp [shortEscape?] at hshort
        · rintro rfl
          simp [shortEscape?] at hshort

/-- A string that is written for markup is compact. -/
theorem compactFrom_stringChars (s : String) (rest : List Char) :
    compactFrom .outside (stringChars .markup s ++ rest) =
      stringChars .markup s ++ compactFrom .outside rest := by
  have hbody (cs : List Char) :
      compactFrom .inside (cs.flatMap (escapeChar .markup) ++ '"' :: rest) =
        cs.flatMap (escapeChar .markup) ++ '"' :: compactFrom .outside rest := by
    induction cs with
    | nil =>
        have hquote : respell '"' = ['"'] := by decide
        rw [List.flatMap_nil, List.nil_append, List.nil_append, compactFrom_cons_inside hquote]
        rfl
    | cons c more ih =>
        rw [List.flatMap_cons, List.append_assoc, compactFrom_escapeChar, ih, List.append_assoc]
  have hopen (cs : List Char) : compactFrom .outside ('"' :: cs) = '"' :: compactFrom .inside cs := by
    have hquote : respell '"' = ['"'] := by decide
    have hplace : Place.outside.next '"' = .inside := rfl
    rw [compactFrom, if_neg (by decide), hquote, hplace, List.singleton_append]
  simp only [stringChars, List.append_assoc, List.cons_append, List.nil_append, hopen, hbody]

/-! ### Integers -/

/-- A text that goes on neither with a digit nor with a point nor with an exponent: a number before it
ends there. -/
def EndsNumber : List Char → Prop
  | [] => True
  | c :: _ => isDigit c = false ∧ c ≠ '.' ∧ isExponentMark c = false

theorem isDigit_of_mem_toDigits {n : Nat} (h : c ∈ Nat.toDigits 10 n) : isDigit c = true := by
  have hdigit := Nat.isDigit_of_mem_toDigits (by decide) (by decide) h
  simpa [isDigit, Char.isDigit, Char.le_def, UInt32.le_iff_toNat_le] using hdigit

theorem eq_zero_of_head?_toDigits {n : Nat} (h : (Nat.toDigits 10 n).head? = some '0') : n = 0 := by
  induction n using Nat.strongRecOn with
  | ind n ih =>
      rw [Nat.toDigits_eq_if (by decide)] at h
      split at h
      · rename_i hsmall
        have hall : ∀ m < 10, m.digitChar = '0' → m = 0 := by decide
        exact hall n hsmall (by simpa using h)
      · rename_i hlarge
        have hfirst := List.head?_eq_some_head (Nat.toDigits_ne_nil (n := n / 10) (b := 10))
        rw [List.head?_append, hfirst, Option.some_or] at h
        have := ih (n / 10) (by omega) (hfirst.trans h)
        omega

theorem digits?_append {ds : List Char} (hne : ds ≠ []) (hds : ∀ c ∈ ds, isDigit c = true)
    (hrest : EndsNumber rest) : digits? (ds ++ rest) = some (ds, rest) := by
  have hstop : rest.takeWhile isDigit = [] ∧ rest.dropWhile isDigit = rest := by
    cases rest with
    | nil => exact ⟨rfl, rfl⟩
    | cons c more => simp [List.takeWhile, List.dropWhile, hrest.1]
  rw [digits?, List.takeWhile_append_of_pos hds, List.dropWhile_append_of_pos hds, hstop.1, hstop.2,
    List.append_nil]
  cases ds with
  | nil => exact absurd rfl hne
  | cons d more => rfl

theorem integer?_toDigits (n : Nat) (hrest : EndsNumber rest) :
    Json.integer? (Nat.toDigits 10 n ++ rest) = some (Nat.toDigits 10 n, rest) := by
  cases hds : Nat.toDigits 10 n with
  | nil => exact absurd hds Nat.toDigits_ne_nil
  | cons d more =>
      by_cases hd : d = '0'
      · subst hd
        have hn : n = 0 := eq_zero_of_head?_toDigits (by rw [hds]; rfl)
        rw [hn, Nat.toDigits_zero] at hds
        obtain rfl := (List.cons.inj hds).2
        rfl
      · have hdigits : ∀ c ∈ d :: more, isDigit c = true := fun c hc => isDigit_of_mem_toDigits (hds ▸ hc)
        rw [← digits?_append (List.cons_ne_nil d more) hdigits hrest, Json.integer?.eq_def]
        split
        · rename_i heq
          exact absurd (List.cons.inj heq).1 hd
        · rfl

theorem fraction?_of_endsNumber (hrest : EndsNumber rest) : fraction? rest = some ([], rest) := by
  rw [fraction?.eq_def]
  split
  · exact absurd rfl hrest.2.1
  · rfl

theorem exponent?_of_endsNumber (hrest : EndsNumber rest) : exponent? rest = some ([], rest) := by
  cases rest with
  | nil => rfl
  | cons c more => simp [exponent?, hrest.2.2]

/-- The text of an integer: its digits, after a minus sign if it is negative. -/
theorem toList_toString_int (n : Int) : (toString n).toList =
    if n < 0 then '-' :: Nat.toDigits 10 n.natAbs else Nat.toDigits 10 n.natAbs := by
  rw [Int.toString_eq_repr, Int.repr_eq_if]
  split
  · rename_i hn
    rw [if_neg (by omega), Nat.repr_eq_ofList_toDigits, String.toList_ofList, ← Int.natAbs_of_nonneg hn]
    rfl
  · rename_i hn
    have habs : (-n).toNat = n.natAbs := by omega
    rw [if_pos (by omega), Nat.repr_eq_ofList_toDigits, String.toList_append, habs]
    simp only [String.toList_ofList]
    rfl

/-- An integer is read back up to what ends it. -/
theorem number?_int (n : Int) (hrest : EndsNumber rest) :
    number? ((toString n).toList ++ rest) = some (toString n, rest) := by
  have hsign : sign ((toString n).toList ++ rest) =
      (if n < 0 then ['-'] else [], Nat.toDigits 10 n.natAbs ++ rest) := by
    rw [toList_toString_int]
    split
    · rfl
    · cases hds : Nat.toDigits 10 n.natAbs with
      | nil => exact absurd hds Nat.toDigits_ne_nil
      | cons d more =>
          have hd : isDigit d = true := isDigit_of_mem_toDigits (hds ▸ List.mem_cons_self)
          rw [sign.eq_def]
          split
          · rename_i heq
            rw [(List.cons.inj heq).1] at hd
            cases hd
          · rfl
  have htext : (if n < 0 then ['-'] else []) ++ Nat.toDigits 10 n.natAbs = (toString n).toList := by
    rw [toList_toString_int]
    split <;> rfl
  simp only [number?, hsign, integer?_toDigits _ hrest, fraction?_of_endsNumber hrest,
    exponent?_of_endsNumber hrest, Option.bind_eq_bind, Option.bind_some, List.append_nil, htext,
    String.ofList_toList]

/-! ### The value of an integer -/

namespace Reader

theorem decimal?_toDigits (n : Nat) : decimal? (Nat.toDigits 10 n) = some n := by
  have hfold (cs : List Char) (start : Nat) (hcs : ∀ c ∈ cs, isDigit c = true) :
      cs.foldlM (fun n c => if '0' ≤ c ∧ c ≤ '9' then some (n * 10 + (c.toNat - 0x30)) else none) start =
        some (Nat.ofDigitChars 10 cs start) := by
    induction cs generalizing start with
    | nil => rfl
    | cons c rest ih =>
        have hc : '0' ≤ c ∧ c ≤ '9' := by simpa [isDigit] using hcs c List.mem_cons_self
        rw [List.foldlM_cons, if_pos hc, Option.bind_eq_bind, Option.bind_some,
          ih _ fun x hx => hcs x (List.mem_cons_of_mem c hx), Nat.ofDigitChars_cons, Nat.mul_comm 10]
        rfl
  rw [decimal?, if_neg (by simp [Nat.toDigits_ne_nil]),
    hfold _ 0 fun c hc => isDigit_of_mem_toDigits hc, Nat.ofDigitChars_ten_toDigits]

theorem integer?_toString (n : Int) : Reader.integer? (toString n) = some n := by
  rw [Reader.integer?, toList_toString_int]
  split
  · rename_i ds heq
    split at heq
    · obtain rfl := (List.cons.inj heq).2
      simp only [decimal?_toDigits, Option.bind_eq_bind, Option.bind_some, Option.pure_def, Option.map_some,
        Option.some.injEq]
      omega
    · have hminus : isDigit '-' = true := isDigit_of_mem_toDigits (heq ▸ List.mem_cons_self)
      cases hminus
  · rename_i hds
    split
    · rename_i hn
      exact absurd (if_pos hn) (hds _)
    · simp only [decimal?_toDigits, Option.bind_eq_bind, Option.bind_some, Option.pure_def, Option.map_some,
        Option.some.injEq]
      omega

end Reader

end Json

end CompilationBridge
