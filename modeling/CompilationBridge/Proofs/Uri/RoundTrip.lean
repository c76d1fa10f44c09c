import CompilationBridge.Proofs.Text.Utf8
import CompilationBridge.Proofs.Uri.Answers

/-! File URIs and back. Each byte of a path is read back from how it is written, and what is written is
ASCII without a question mark or a control byte, so the URI of a path is taken apart where it was put
together. Only a path of the drive form does not come back: it is read without its first slash. -/

namespace CompilationBridge

namespace Uri

open Text (Bytes encode decode encodeChar)

/-! ### Paths as they are written -/

theorem hexValue?_upper {n : Nat} (h : n < 16) :
    Text.hexValue? (Char.ofNat (code (Text.hexDigitUpper n)).toNat) = some n := by
  have hall : ∀ m < 16, Text.hexValue? (Char.ofNat (code (Text.hexDigitUpper m)).toNat) = some m := by
    decide
  exact hall n h

theorem hexByte?_upper (b : UInt8) :
    hexByte? (code (Text.hexDigitUpper (b.toNat / 16))) (code (Text.hexDigitUpper (b.toNat % 16))) = some b := by
  have hb := b.toNat_lt
  have hhigh := hexValue?_upper (show b.toNat / 16 < 16 by omega)
  have hlow := hexValue?_upper (Nat.mod_lt b.toNat (show 0 < 16 by decide))
  simp only [hexByte?, hhigh, hlow, Option.bind_eq_bind, Option.bind_some]
  rw [Nat.div_add_mod']
  exact congrArg some UInt8.ofNat_toNat

theorem encodePath_cons (b : UInt8) (bytes : Bytes) :
    encodePath (b :: bytes) = encodeByte b ++ encodePath bytes :=
  List.flatMap_cons

/-- What is written spells the path, whatever its bytes are. -/
theorem spells_encodePath (bytes : Bytes) : Spells anyByte anyByte (encodePath bytes) bytes := by
  induction bytes with
  | nil => exact .nil
  | cons b rest ih =>
      rw [encodePath_cons, encodeByte]
      split
      · rename_i hplain
        refine .plain ?_ rfl ih
        rintro rfl
        exact absurd hplain (by decide)
      · exact .escape (hexByte?_upper b) rfl ih

theorem plainInPath_upper {n : Nat} (h : n < 16) : plainInPath (code (Text.hexDigitUpper n)) = true := by
  have hall : ∀ m < 16, plainInPath (code (Text.hexDigitUpper m)) = true := by decide
  exact hall n h

theorem mem_encodePath {bytes : Bytes} {b : UInt8} (h : b ∈ encodePath bytes) :
    plainInPath b = true ∨ b = code '%' := by
  obtain ⟨x, -, hb⟩ := List.mem_flatMap.1 h
  have hx := x.toNat_lt
  unfold encodeByte at hb
  split at hb
  · rename_i hplain
    rw [List.mem_singleton.1 hb]
    exact Or.inl hplain
  · simp only [List.mem_cons, List.not_mem_nil, or_false] at hb
    rcases hb with rfl | rfl | rfl
    · exact Or.inr rfl
    · exact Or.inl (plainInPath_upper (by omega))
    · exact Or.inl (plainInPath_upper (by omega))

theorem plain_bytes {b : UInt8} (h : plainInPath b = true ∨ b = code '%') :
    b.toNat < 0x80 ∧ isControl b = false ∧ b ≠ code '?' := by
  have hall : ∀ n < 0x100, plainInPath n.toUInt8 = true ∨ n.toUInt8 = code '%' →
      n.toUInt8.toNat < 0x80 ∧ isControl n.toUInt8 = false ∧ n.toUInt8 ≠ code '?' := by decide +kernel
  have hb : b.toNat.toUInt8 = b := UInt8.ofNat_toNat
  have hplain := hall b.toNat b.toNat_lt
  rw [hb] at hplain
  exact hplain h

/-- A rooted path is read back from how it is written, after no authority and before no query. -/
theorem reads_encodePath (bytes : Bytes) : Reads (encodePath (code '/' :: bytes)) (code '/' :: bytes) := by
  have hslash : encodePath (code '/' :: bytes) = code '/' :: encodePath bytes := rfl
  have hquery : code '?' ∉ encodePath (code '/' :: bytes) :=
    fun h => (plain_bytes (mem_encodePath h)).2.2 rfl
  have hnone : Authority [] := .host List.not_mem_nil (.name (by simp) List.not_mem_nil ⟨[], .nil⟩)
  refine ⟨fun b hb => (plain_bytes (mem_encodePath hb)).2.1, encodePath (code '/' :: bytes), [], [], _, ?_, ?_,
    hnone, spells_encodePath _⟩
  · exact ⟨(List.append_nil _).symm, hquery, by simp⟩
  · exact ⟨rfl, List.not_mem_nil, by simp [hslash]⟩

/-! ### Drives -/

/-- A slash, a letter and a colon, and at least one character more. -/
def isDrive : List Char → Bool
  | r :: x :: d :: _ :: _ => r = '/' && x.isAlpha && d = ':'
  | _ => false

theorem isDrive_eq_true_iff {cs : List Char} :
    isDrive cs = true ↔ ∃ x rest, cs = '/' :: x :: ':' :: rest ∧ x.isAlpha = true ∧ rest ≠ [] := by
  match cs with
  | [] | [_] | [_, _] | [_, _, _] => simp [isDrive]
  | r :: x :: d :: y :: rest =>
      simp only [isDrive, Bool.and_eq_true, decide_eq_true_iff]
      constructor
      · rintro ⟨⟨rfl, hx⟩, rfl⟩
        exact ⟨x, y :: rest, rfl, hx, List.cons_ne_nil _ _⟩
      · rintro ⟨x', rest', h, hx, -⟩
        obtain ⟨rfl, rfl, rfl, -⟩ := by simpa using h
        exact ⟨⟨rfl, hx⟩, rfl⟩

theorem hasRootedDrive_eq_true_iff {bytes : Bytes} :
    hasRootedDrive bytes = true ↔
      ∃ a rest, bytes = code '/' :: a :: code ':' :: rest ∧ isLetter a = true ∧ rest ≠ [] := by
  match bytes with
  | [] | [_] | [_, _] | [_, _, _] => simp [hasRootedDrive]
  | r :: a :: b :: c :: rest =>
      simp only [hasRootedDrive, Bool.and_eq_true, decide_eq_true_iff]
      constructor
      · rintro ⟨⟨rfl, ha⟩, rfl⟩
        exact ⟨a, c :: rest, rfl, ha, List.cons_ne_nil _ _⟩
      · rintro ⟨a', rest', h, ha, -⟩
        obtain ⟨rfl, rfl, rfl, -⟩ := by simpa using h
        exact ⟨⟨rfl, ha⟩, rfl⟩

theorem isLetter_code {x : Char} (h : x.toNat < 0x80) : isLetter (code x) = x.isAlpha := by
  have hall : ∀ n < 0x80, isLetter n.toUInt8 = (Char.ofNat n).isAlpha := by decide +kernel
  have hx := hall x.toNat h
  rwa [Char.ofNat_toNat] at hx

theorem toNat_lt_of_isAlpha {x : Char} (h : x.isAlpha = true) : x.toNat < 0x80 := by
  have hle : x.val ≤ 'Z'.val ∨ x.val ≤ 'z'.val := by
    rcases Bool.or_eq_true_iff.1 h with hupper | hlower
    · exact Or.inl (of_decide_eq_true hupper).2
    · exact Or.inr (of_decide_eq_true (Bool.and_eq_true_iff.1 hlower).2)
  change x.val.toNat < 0x80
  rcases hle with hle | hle
  · exact Nat.lt_of_le_of_lt (UInt32.le_iff_toNat_le.1 hle) (by decide)
  · exact Nat.lt_of_le_of_lt (UInt32.le_iff_toNat_le.1 hle) (by decide)

/-- A path has the drive form by its bytes if it has it by its characters: past ASCII no character has a
colon for its second byte. -/
theorem hasRootedDrive_encodeChars (cs : List Char) :
    hasRootedDrive (cs.flatMap encodeChar) = isDrive cs := by
  rw [Bool.eq_iff_iff, hasRootedDrive_eq_true_iff, isDrive_eq_true_iff]
  constructor
  · rintro ⟨a, bytes, hbytes, ha, hmore⟩
    obtain ⟨cs, rfl, hcs⟩ := (Text.encodeChars_eq_cons_iff (c := '/') (by decide)).1 hbytes
    obtain ⟨x, cs, rfl⟩ := List.exists_cons_of_ne_nil (show cs ≠ [] by rintro rfl; cases hcs)
    rw [List.flatMap_cons] at hcs
    by_cases hascii : x.toNat < 0x80
    · rw [Text.encodeChar_ascii hascii, List.singleton_append, List.cons.injEq] at hcs
      obtain ⟨rfl, hcs⟩ := hcs
      obtain ⟨rest, rfl, rfl⟩ := (Text.encodeChars_eq_cons_iff (c := ':') (by decide)).1 hcs
      refine ⟨x, rest, rfl, (isLetter_code hascii).symm.trans ha, ?_⟩
      rintro rfl
      exact hmore rfl
    · -- The colon would be the second byte of the character.
      obtain ⟨a', b, more, hx, hb⟩ := Text.encodeChar_wide (Nat.le_of_not_lt hascii)
      rw [hx, List.cons_append, List.cons_append, List.cons.injEq, List.cons.injEq] at hcs
      rw [hcs.2.1] at hb
      exact absurd hb (by decide)
  · rintro ⟨x, rest, rfl, hx, hmore⟩
    have hascii := toNat_lt_of_isAlpha hx
    refine ⟨code x, rest.flatMap encodeChar, ?_, (isLetter_code hascii).trans hx, ?_⟩
    · rw [List.flatMap_cons, List.flatMap_cons, List.flatMap_cons, Text.encodeChar_ascii hascii]
      rfl
    · obtain ⟨y, more, rfl⟩ := List.exists_cons_of_ne_nil hmore
      rw [List.flatMap_cons]
      exact List.append_ne_nil_of_left_ne_nil (Text.encodeChar_ne_nil y) _

theorem hasDrive_slash (bytes : Bytes) : hasDrive (code '/' :: bytes) = false := by
  match bytes with
  | [] | [_] | [_, _] => rfl
  | _ :: _ :: _ :: _ => rfl

/-! ### There and back -/

variable {path : String}

theorem exists_chars (habsolute : Path.isAbsolute path = true) : ∃ cs, path = String.ofList ('/' :: cs) := by
  have hhead : path.toList.head? = some '/' := by simpa [Path.isAbsolute, Path.isRooted] using habsolute
  obtain ⟨cs, hcs⟩ := List.head?_eq_some_iff.1 hhead
  exact ⟨cs, by rw [← hcs, String.ofList_toList]⟩

theorem encode_ofPath (habsolute : Path.isAbsolute path = true) (hclean : Path.clean path = path) :
    encode (ofPath path) = scheme ++ encodePath (encode path) := by
  obtain ⟨cs, rfl⟩ := exists_chars habsolute
  have hslash : encode (String.ofList ('/' :: cs)) = code '/' :: cs.flatMap encodeChar := Text.encode_ofList _
  have hdrive := hasDrive_slash (cs.flatMap encodeChar)
  rw [← hslash] at hdrive
  simp only [ofPath, hclean, hdrive, Bool.false_eq_true, if_false]
  refine Text.encode_decode fun b hb => ?_
  rcases List.mem_append.1 hb with hb | hb
  · have hall : ∀ b ∈ scheme, b.toNat < 0x80 := by decide +kernel
    exact hall b hb
  · exact (plain_bytes (mem_encodePath hb)).1

/-- The URI of a path is read as the path, or as what follows its first slash if it has the drive form. -/
theorem location_ofPath (habsolute : Path.isAbsolute path = true) (hclean : Path.clean path = path) :
    location (ofPath path) =
      .path (Path.clean (String.ofList (if isDrive path.toList then path.toList.tail else path.toList))) := by
  have huri := encode_ofPath habsolute hclean
  obtain ⟨cs, rfl⟩ := exists_chars habsolute
  have hslash : encode (String.ofList ('/' :: cs)) = code '/' :: cs.flatMap encodeChar := Text.encode_ofList _
  have hdrive : hasRootedDrive (encode (String.ofList ('/' :: cs))) = isDrive ('/' :: cs) := by
    rw [Text.encode_ofList, hasRootedDrive_encodeChars]
  have hreads := reads_encodePath (cs.flatMap encodeChar)
  rw [← hslash] at hreads
  rw [location_of_reads huri hreads, hdrive, String.toList_ofList]
  split
  · rw [hslash, List.tail_cons, List.tail_cons, ← Text.encode_ofList, Text.decode_encode]
  · rw [Text.decode_encode]

theorem ofPath_injective {other : String} (habsolute : Path.isAbsolute path = true)
    (hclean : Path.clean path = path) (hother : Path.isAbsolute other = true)
    (hotherClean : Path.clean other = other) (h : ofPath path = ofPath other) : path = other := by
  have huri := congrArg encode h
  rw [encode_ofPath habsolute hclean, encode_ofPath hother hotherClean] at huri
  have hdecoded := (spells_encodePath (encode path)).decoded
  rw [List.append_cancel_left huri, (spells_encodePath (encode other)).decoded] at hdecoded
  exact Text.encode_injective (Option.some.inj hdecoded).symm

/-- What is left of a drive path is not the path: it has no root. -/
theorem clean_tail_ne (h : isDrive path.toList = true) :
    Path.clean (String.ofList path.toList.tail) ≠ path := by
  obtain ⟨x, rest, hpath, hx, -⟩ := isDrive_eq_true_iff.1 h
  intro heq
  have hchars : Path.cleanChars (x :: ':' :: rest) = '/' :: x :: ':' :: rest := by
    have hlist := congrArg String.toList heq
    rwa [Path.clean, String.toList_ofList, String.toList_ofList, hpath] at hlist
  have hroot := Path.isRooted_cleanChars (x :: ':' :: rest)
  rw [hchars] at hroot
  obtain rfl : '/' = x := by simpa [Path.isRooted, eq_comm] using hroot
  exact absurd hx (by decide)

end Uri

namespace Editor

/-- A file event with the URI of an absolute clean path is about that path, unless the path has the drive
form; and no two such paths have one URI. -/
theorem comes_back_iff {p : String} (habsolute : Path.isAbsolute p = true) (hclean : Path.clean p = p) :
    (∀ e : FileEvent, e.uri = Uri.ofPath p → (e.path = .path p ↔ Uri.isDrive p.toList = false)) ∧
      ∀ q, Path.isAbsolute q = true → Path.clean q = q → Uri.ofPath q = Uri.ofPath p → q = p := by
  refine ⟨fun e he => ?_, fun q hq hqclean h => Uri.ofPath_injective hq hqclean habsolute hclean h⟩
  rw [FileEvent.path, he, Uri.location_ofPath habsolute hclean]
  cases hdrive : Uri.isDrive p.toList with
  | false => simp [String.ofList_toList, hclean]
  | true => simpa using Uri.clean_tail_ne hdrive

/-- Spaces, a percent sign, marks of URIs, letters past ASCII, and a colon too far for a drive. -/
theorem marked_path_comes_back :
    Path.isAbsolute "/a b:/100%/é?#x" = true ∧ Path.clean "/a b:/100%/é?#x" = "/a b:/100%/é?#x" ∧
      FileEvent.path { uri := Uri.ofPath "/a b:/100%/é?#x" } = .path "/a b:/100%/é?#x" := by
  have habsolute : Path.isAbsolute "/a b:/100%/é?#x" = true := by decide
  have hclean : Path.clean "/a b:/100%/é?#x" = "/a b:/100%/é?#x" := by decide
  exact ⟨habsolute, hclean, ((comes_back_iff habsolute hclean).1 _ rfl).2 (by decide)⟩

end Editor

end CompilationBridge
