import CompilationBridge.Uri
import Mathlib.Data.List.Infix
import Mathlib.Data.List.TakeWhile

/-! URIs that can be read. A grammar says which texts may follow the scheme: escapes are spelt out, a host
is a name or an address in brackets, either with a port, and a user may stand before it. Reading a URI takes
the texts of this grammar and no others; what starts like a file URI and is outside of it crashes the
reader. -/

namespace CompilationBridge.Uri

open Text (Bytes)

/-! ### Escapes -/

/-- Bytes as they are spelt: a byte stands for itself, or a percent sign and two digits stand for it. -/
inductive Spells (escaped plain : UInt8 → Bool) : Bytes → Bytes → Prop where
  | nil : Spells escaped plain [] []
  | plain {b : UInt8} {text bytes : Bytes} (hescape : b ≠ code '%') (hplain : plain b = true)
      (hrest : Spells escaped plain text bytes) : Spells escaped plain (b :: text) (b :: bytes)
  | escape {x y b : UInt8} {text bytes : Bytes} (hbyte : hexByte? x y = some b) (hescaped : escaped b = true)
      (hrest : Spells escaped plain text bytes) :
      Spells escaped plain (code '%' :: x :: y :: text) (b :: bytes)

variable {escaped plain : UInt8 → Bool} {text bytes : Bytes}

theorem percentDecode?_plain {b : UInt8} (hescape : b ≠ code '%') (hplain : plain b = true) :
    percentDecode? escaped plain (b :: text) = (percentDecode? escaped plain text).map (b :: ·) := by
  rw [percentDecode?.eq_def]
  simp only [if_neg hescape, if_pos hplain]

theorem percentDecode?_escape {x y b : UInt8} (hbyte : hexByte? x y = some b) (hescaped : escaped b = true) :
    percentDecode? escaped plain (code '%' :: x :: y :: text) =
      (percentDecode? escaped plain text).map (b :: ·) := by
  rw [percentDecode?.eq_def]
  simp only [if_true, hbyte, if_pos hescaped]

theorem Spells.decoded (h : Spells escaped plain text bytes) :
    percentDecode? escaped plain text = some bytes := by
  induction h with
  | nil => rfl
  | plain hescape hplain _ ih => rw [percentDecode?_plain hescape hplain, ih, Option.map_some]
  | escape hbyte hescaped _ ih => rw [percentDecode?_escape hbyte hescaped, ih, Option.map_some]

theorem spells_of_decoded (h : percentDecode? escaped plain text = some bytes) :
    Spells escaped plain text bytes := by
  induction text using percentDecode?.induct escaped plain generalizing bytes with
  | case1 =>
      obtain rfl := Option.some.inj h
      exact .nil
  | case2 x y text b hbyte hescaped ih =>
      rw [percentDecode?_escape hbyte hescaped, Option.map_eq_some_iff] at h
      obtain ⟨rest, hrest, rfl⟩ := h
      exact .escape hbyte hescaped (ih hrest)
  | case3 x y text b hbyte hescaped => simp [percentDecode?, hbyte, hescaped] at h
  | case4 x y text hbyte => simp [percentDecode?, hbyte] at h
  | case5 text hshort =>
      rw [percentDecode?.eq_def] at h
      simp at h
  | case6 b text hescape hplain ih =>
      rw [percentDecode?_plain hescape hplain, Option.map_eq_some_iff] at h
      obtain ⟨rest, hrest, rfl⟩ := h
      exact .plain hescape hplain (ih hrest)
  | case7 b text hescape hplain =>
      rw [percentDecode?.eq_def] at h
      simp [hescape, hplain] at h

theorem percentDecode?_eq_some_iff :
    percentDecode? escaped plain text = some bytes ↔ Spells escaped plain text bytes :=
  ⟨spells_of_decoded, Spells.decoded⟩

theorem isSome_percentDecode? :
    (percentDecode? escaped plain text).isSome = true ↔ ∃ bytes, Spells escaped plain text bytes := by
  simp only [Option.isSome_iff_exists, percentDecode?_eq_some_iff]

/-! ### Cuts -/

/-- A text that is cut before the first of some byte, or at its end. -/
def Cuts (c : UInt8) (text before after : Bytes) : Prop :=
  text = before ++ after ∧ c ∉ before ∧ ∀ b ∈ after.head?, b = c

theorem cuts_iff {c : UInt8} {before after : Bytes} :
    Cuts c text before after ↔ text.takeWhile (· ≠ c) = before ∧ text.dropWhile (· ≠ c) = after := by
  constructor
  · rintro ⟨rfl, hbefore, hafter⟩
    have hpass : ∀ b ∈ before, decide (b ≠ c) = true := by
      intro b hb
      rw [decide_eq_true_iff]
      rintro rfl
      exact hbefore hb
    rw [List.takeWhile_append_of_pos hpass, List.dropWhile_append_of_pos hpass]
    cases after with
    | nil => simp
    | cons b rest =>
        obtain rfl := hafter b rfl
        simp
  · rintro ⟨rfl, rfl⟩
    refine ⟨List.takeWhile_append_dropWhile.symm, fun h => ?_, fun b hb => ?_⟩
    · simpa using List.mem_takeWhile_imp h
    · have hstop := List.head?_dropWhile_not (fun b => decide (b ≠ c)) text
      rw [Option.mem_def.1 hb] at hstop
      simpa using hstop

theorem cuts_append {c : UInt8} {before : Bytes} (h : c ∉ before) (after : Bytes) :
    Cuts c (before ++ c :: after) before (c :: after) :=
  ⟨rfl, h, fun _ hb => (Option.some.inj hb).symm⟩

theorem splitLast?_append {c : UInt8} {after : Bytes} (h : c ∉ after) (before : Bytes) :
    splitLast? c (before ++ c :: after) = some (before, c :: after) := by
  have hcut := cuts_append (fun hc => h (List.mem_reverse.1 hc)) before.reverse
  obtain ⟨htake, hdrop⟩ := cuts_iff.1 hcut
  have hreverse : (before ++ c :: after).reverse = after.reverse ++ c :: before.reverse := by simp
  rw [splitLast?, List.span_eq_takeWhile_dropWhile, hreverse, htake, hdrop]
  simp

theorem splitLast?_eq_none {c : UInt8} (h : c ∉ text) : splitLast? c text = none := by
  have hdrop : text.reverse.dropWhile (· ≠ c) = [] := by
    rw [List.dropWhile_eq_nil_iff]
    intro b hb
    rw [decide_eq_true_iff]
    rintro rfl
    exact h (List.mem_reverse.1 hb)
  rw [splitLast?, List.span_eq_takeWhile_dropWhile, hdrop]

/-- A byte is absent, or there is a last of it. -/
theorem not_mem_or_last (c : UInt8) (text : Bytes) :
    c ∉ text ∨ ∃ before after, text = before ++ c :: after ∧ c ∉ after := by
  by_cases h : c ∈ text
  · obtain ⟨after, before, htext, hafter⟩ := List.eq_append_cons_of_mem (List.mem_reverse.2 h)
    refine Or.inr ⟨before.reverse, after.reverse, ?_, fun hc => hafter (List.mem_reverse.1 hc)⟩
    rw [← List.reverse_reverse text, htext]
    simp
  · exact Or.inl h

/-! ### Hosts -/

/-- In a host name escapes stand for the percent sign and for bytes past ASCII. -/
def HostText (text : Bytes) : Prop :=
  ∃ bytes, Spells (fun b => !isAscii b || b = code '%') (fun b => !isAscii b || plainInHost b) text bytes

/-- In a zone they stand also for a space and for what may stand for itself. -/
def ZoneText (text : Bytes) : Prop :=
  ∃ bytes, Spells (fun b => b = code '%' || b = code ' ' || plainInHost b)
    (fun b => !isAscii b || plainInHost b) text bytes

theorem validHostText_iff : validHostText text = true ↔ HostText text :=
  isSome_percentDecode?

theorem validZoneText_iff : validZoneText text = true ↔ ZoneText text :=
  isSome_percentDecode?

/-- Nothing, or a colon and digits. -/
def Port (text : Bytes) : Prop :=
  text = [] ∨ ∃ digits, text = code ':' :: digits ∧ ∀ b ∈ digits, isDigit b = true

theorem validPort_iff : validPort text = true ↔ Port text := by
  cases text with
  | nil => simp [validPort, Port]
  | cons b rest => simp [validPort, Port]

theorem Port.not_mem {port : Bytes} (h : Port port) {c : UInt8} (hcolon : c ≠ code ':')
    (hdigit : isDigit c = false) : c ∉ port := by
  rcases h with rfl | ⟨digits, rfl, hdigits⟩
  · exact List.not_mem_nil
  · refine List.not_mem_cons_of_ne_of_not_mem hcolon fun hc => ?_
    rw [hdigits c hc] at hdigit
    cases hdigit

/-- What opens the zone of an address. -/
def zoneMark : Bytes :=
  [code '%', code '2', code '5']

theorem prefix_iff_take {bytes : Bytes} : zoneMark <+: bytes ↔ bytes.take 3 = Text.encode "%25" := by
  have hmark : Text.encode "%25" = zoneMark := by decide
  rw [hmark, List.prefix_iff_eq_take, eq_comm]
  rfl

theorem splitZone?_eq_none_iff : splitZone? text = none ↔ ¬zoneMark <:+: text := by
  induction text with
  | nil => simp [splitZone?, zoneMark]
  | cons b rest ih =>
      rw [splitZone?, List.infix_cons_iff, prefix_iff_take, not_or]
      split
      · simp_all
      · rw [Option.map_eq_none_iff, ih]
        simp_all

/-- The zone mark does not overlap itself. -/
theorem not_prefix_append {b : UInt8} {name : Bytes} (h : ¬zoneMark <+: b :: name) (zone : Bytes) :
    ¬zoneMark <+: b :: (name ++ (zoneMark ++ zone)) := by
  intro hmark
  match name, h, hmark with
  | [], _, hmark =>
      simp only [zoneMark, List.nil_append, List.cons_append, List.cons_prefix_cons] at hmark
      exact absurd hmark.2.1 (by decide)
  | [x], _, hmark =>
      simp only [zoneMark, List.cons_append, List.nil_append, List.cons_prefix_cons] at hmark
      exact absurd hmark.2.2.1 (by decide)
  | x :: y :: more, h, hmark =>
      simp only [zoneMark, List.cons_append, List.cons_prefix_cons, List.nil_prefix, and_true] at h hmark
      exact h hmark

theorem splitZone?_append {name : Bytes} (h : ¬zoneMark <:+: name) (zone : Bytes) :
    splitZone? (name ++ (zoneMark ++ zone)) = some (name, zoneMark ++ zone) := by
  induction name with
  | nil =>
      rw [List.nil_append, zoneMark, List.cons_append, splitZone?]
      exact if_pos (prefix_iff_take.1 (List.prefix_append zoneMark zone))
  | cons b rest ih =>
      rw [List.infix_cons_iff, not_or] at h
      have htake := fun heq => not_prefix_append h.1 zone (prefix_iff_take.2 heq)
      rw [List.cons_append, splitZone?, if_neg htake, ih h.2]
      rfl

/-- The mark of a zone is absent, or there is a first of it. -/
theorem no_zone_or_first (text : Bytes) :
    ¬zoneMark <:+: text ∨ ∃ name zone, text = name ++ (zoneMark ++ zone) ∧ ¬zoneMark <:+: name := by
  induction text with
  | nil => exact Or.inl (by simp [zoneMark])
  | cons b rest ih =>
      by_cases hhead : zoneMark <+: b :: rest
      · obtain ⟨zone, hzone⟩ := hhead
        exact Or.inr ⟨[], zone, hzone.symm, by simp [zoneMark]⟩
      · rcases ih with hnone | ⟨name, zone, rfl, hname⟩
        · rw [List.infix_cons_iff]
          exact Or.inl (not_or.2 ⟨hhead, hnone⟩)
        · refine Or.inr ⟨b :: name, zone, rfl, ?_⟩
          rw [List.infix_cons_iff, not_or]
          exact ⟨fun hmark => hhead (hmark.trans (List.prefix_append (b :: name) _)), hname⟩

/-- A host is a name or an address in brackets, either with a port; an address may have a zone. -/
inductive Host : Bytes → Prop where
  | name {name : Bytes} (hopen : name.head? ≠ some (code '[')) (hcolon : code ':' ∉ name)
      (htext : HostText name) : Host name
  | nameWithPort {name digits : Bytes} (hopen : (name ++ code ':' :: digits).head? ≠ some (code '['))
      (hdigits : ∀ b ∈ digits, isDigit b = true) (htext : HostText (name ++ code ':' :: digits)) :
      Host (name ++ code ':' :: digits)
  | address {address port : Bytes} (hopen : address.head? = some (code '[')) (hzone : ¬zoneMark <:+: address)
      (hport : Port port) (htext : HostText (address ++ code ']' :: port)) :
      Host (address ++ code ']' :: port)
  | zoned {address zone port : Bytes} (hopen : address.head? = some (code '['))
      (hzone : ¬zoneMark <:+: address) (hport : Port port) (haddress : HostText address)
      (htext : ZoneText (zoneMark ++ zone)) (hclose : HostText (code ']' :: port)) :
      Host (address ++ (zoneMark ++ zone) ++ code ']' :: port)

theorem head?_append_of_some {b : UInt8} {before : Bytes} (h : before.head? = some b) (after : Bytes) :
    (before ++ after).head? = some b := by
  rw [List.head?_append, h, Option.some_or]

theorem colon_not_mem {digits : Bytes} (h : ∀ b ∈ digits, isDigit b = true) : code ':' ∉ digits :=
  fun hc => absurd (h _ hc) (by decide)

/-- What follows the last bracket is a port. -/
theorem validHost_bracket {before port : Bytes} (hopen : (before ++ code ']' :: port).head? = some (code '['))
    (hclose : code ']' ∉ port) :
    validHost (before ++ code ']' :: port) =
      (validPort port &&
        match splitZone? before with
        | some (name, zone) => validHostText name && validZoneText zone && validHostText (code ']' :: port)
        | none => validHostText (before ++ code ']' :: port)) := by
  rw [validHost, if_pos hopen, splitLast?_append hclose]
  rfl

theorem Host.valid {host : Bytes} (h : Host host) : validHost host = true := by
  cases h with
  | name hopen hcolon htext =>
      rw [validHost, if_neg hopen, splitLast?_eq_none hcolon]
      exact validHostText_iff.2 htext
  | nameWithPort hopen hdigits htext =>
      rw [validHost, if_neg hopen, splitLast?_append (colon_not_mem hdigits)]
      simp only [Bool.and_eq_true]
      exact ⟨validPort_iff.2 (Or.inr ⟨_, rfl, hdigits⟩), validHostText_iff.2 htext⟩
  | address hopen hzone hport htext =>
      have hclose := hport.not_mem (c := code ']') (by decide) (by decide)
      rw [validHost_bracket (head?_append_of_some hopen _) hclose, splitZone?_eq_none_iff.2 hzone]
      simp only [Bool.and_eq_true]
      exact ⟨validPort_iff.2 hport, validHostText_iff.2 htext⟩
  | zoned hopen hzone hport haddress htext hclosing =>
      have hclose := hport.not_mem (c := code ']') (by decide) (by decide)
      rw [validHost_bracket (head?_append_of_some (head?_append_of_some hopen _) _) hclose,
        splitZone?_append hzone]
      simp only [Bool.and_eq_true]
      exact ⟨validPort_iff.2 hport, ⟨validHostText_iff.2 haddress, validZoneText_iff.2 htext⟩,
        validHostText_iff.2 hclosing⟩

/-- What stands before the bracket that closes an address opens it. -/
theorem head?_of_bracket {before port : Bytes} (h : (before ++ code ']' :: port).head? = some (code '[')) :
    before.head? = some (code '[') := by
  cases before with
  | nil => exact absurd (Option.some.inj h) (by decide)
  | cons b rest => exact h

theorem host_of_valid {host : Bytes} (h : validHost host = true) : Host host := by
  by_cases hopen : host.head? = some (code '[')
  · rcases not_mem_or_last (code ']') host with hnone | ⟨before, port, rfl, hclose⟩
    · rw [validHost, if_pos hopen, splitLast?_eq_none hnone] at h
      cases h
    · rw [validHost_bracket hopen hclose, Bool.and_eq_true] at h
      obtain ⟨hport, h⟩ := h
      have hport := validPort_iff.1 hport
      rcases no_zone_or_first before with hzone | ⟨address, zone, rfl, hzone⟩
      · rw [splitZone?_eq_none_iff.2 hzone] at h
        exact .address (head?_of_bracket hopen) hzone hport (validHostText_iff.1 h)
      · rw [splitZone?_append hzone] at h
        simp only [Bool.and_eq_true] at h
        obtain ⟨⟨haddress, htext⟩, hclosing⟩ := h
        have haddressOpen : address.head? = some (code '[') := by
          cases address with
          | nil => exact absurd (Option.some.inj hopen) (by decide)
          | cons b rest => exact hopen
        exact .zoned haddressOpen hzone hport (validHostText_iff.1 haddress) (validZoneText_iff.1 htext)
          (validHostText_iff.1 hclosing)
  · rcases not_mem_or_last (code ':') host with hcolon | ⟨name, digits, rfl, hcolon⟩
    · rw [validHost, if_neg hopen, splitLast?_eq_none hcolon] at h
      exact .name hopen hcolon (validHostText_iff.1 h)
    · rw [validHost, if_neg hopen, splitLast?_append hcolon] at h
      simp only [Bool.and_eq_true] at h
      obtain ⟨hport, htext⟩ := h
      rcases validPort_iff.1 hport with hport | ⟨digits', heq, hdigits⟩
      · cases hport
      · obtain rfl := (List.cons.inj heq).2
        exact .nameWithPort hopen hdigits (validHostText_iff.1 htext)

theorem validHost_iff {host : Bytes} : validHost host = true ↔ Host host :=
  ⟨host_of_valid, Host.valid⟩

/-! ### Whole URIs -/

/-- What names a user. -/
def UserInfo (user : Bytes) : Prop :=
  (∀ b ∈ user, (isAlphaNum b || isMark b || oneOf ":!$&'()*+,;=%@" b) = true) ∧
    ∃ bytes, Spells anyByte anyByte user bytes

theorem validUserInfo_iff {user : Bytes} : validUserInfo user = true ↔ UserInfo user := by
  rw [validUserInfo, Bool.and_eq_true, List.all_eq_true, isSome_percentDecode?]
  rfl

/-- An authority is a host, or a user and a host. -/
inductive Authority : Bytes → Prop where
  | host {host : Bytes} (huser : code '@' ∉ host) (hhost : Host host) : Authority host
  | user {user host : Bytes} (hlast : code '@' ∉ host) (huser : UserInfo user) (hhost : Host host) :
      Authority (user ++ code '@' :: host)

theorem validAuthority_iff {authority : Bytes} : validAuthority authority = true ↔ Authority authority := by
  constructor
  · intro h
    rcases not_mem_or_last (code '@') authority with hnone | ⟨user, host, rfl, hlast⟩
    · rw [validAuthority, splitLast?_eq_none hnone] at h
      exact .host hnone (validHost_iff.1 h)
    · rw [validAuthority, splitLast?_append hlast] at h
      simp only [Bool.and_eq_true] at h
      exact .user hlast (validUserInfo_iff.1 h.2) (validHost_iff.1 h.1)
  · intro h
    cases h with
    | host huser hhost =>
        rw [validAuthority, splitLast?_eq_none huser]
        exact validHost_iff.2 hhost
    | user hlast huser hhost =>
        rw [validAuthority, splitLast?_append hlast]
        simp only [Bool.and_eq_true]
        exact ⟨validHost_iff.2 hhost, validUserInfo_iff.2 huser⟩

/-- What follows the scheme of a URI, and the path it stands for: without control bytes, an authority up
to the first slash and a path up to the first question mark. -/
def Reads (rest path : Bytes) : Prop :=
  (∀ b ∈ rest, isControl b = false) ∧
    ∃ main query authority text, Cuts (code '?') rest main query ∧ Cuts (code '/') main authority text ∧
      Authority authority ∧ Spells anyByte anyByte text path

theorem decodedPath?_eq_some_iff {rest path : Bytes} : decodedPath? rest = some path ↔ Reads rest path := by
  unfold decodedPath? Reads
  by_cases hcontrol : rest.any isControl = true
  · rw [if_pos hcontrol]
    simp only [reduceCtorEq, false_iff, not_and]
    intro hnone
    obtain ⟨b, hb, hcontrol⟩ := List.any_eq_true.1 hcontrol
    rw [hnone b hb] at hcontrol
    cases hcontrol
  · rw [if_neg hcontrol]
    have hnone : ∀ b ∈ rest, isControl b = false := by simpa using hcontrol
    constructor
    · intro h
      simp only at h
      split at h
      · rename_i hauthority
        exact ⟨hnone, _, _, _, _, cuts_iff.2 ⟨rfl, rfl⟩, cuts_iff.2 ⟨rfl, rfl⟩,
          validAuthority_iff.1 hauthority, percentDecode?_eq_some_iff.1 h⟩
      · cases h
    · rintro ⟨-, main, query, authority, text, hquery, hpath, hauthority, htext⟩
      obtain ⟨hmain, -⟩ := cuts_iff.1 hquery
      obtain ⟨hbefore, hafter⟩ := cuts_iff.1 hpath
      simp only [dropQuery, hmain, hbefore, hafter]
      rw [if_pos (validAuthority_iff.2 hauthority)]
      exact percentDecode?_eq_some_iff.2 htext

end CompilationBridge.Uri
