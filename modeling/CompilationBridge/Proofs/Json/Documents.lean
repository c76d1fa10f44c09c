import CompilationBridge.Proofs.Json.Tokens

/-! Documents as text. A document whose numbers are integers and whose nesting stays within what the reader
takes is read back from its text, the members of an object each from its own part of the text, and its text
is compact already. -/

namespace CompilationBridge.Json

/-- A document whose numbers are integers and whose arrays and objects are nested no deeper than a bound. -/
inductive Fits : Nat → Json → Prop
  | null {depth : Nat} : Fits depth .null
  | bool {depth : Nat} (b : Bool) : Fits depth (.bool b)
  | int {depth : Nat} (n : Int) : Fits depth (.int n)
  | str {depth : Nat} (s : String) : Fits depth (.str s)
  | arr {depth : Nat} {items : List Json} (h : ∀ j ∈ items, Fits depth j) : Fits (depth + 1) (.arr items)
  | obj {depth : Nat} {members : List (String × Json)} (h : ∀ m ∈ members, Fits depth m.2) :
      Fits (depth + 1) (.obj members)

variable {e : Escaping} {depth fuel : Nat} {j : Json} {c : Char} {rest : List Char}

theorem Fits.mono (h : Fits depth j) {bound : Nat} (hle : depth ≤ bound) : Fits bound j := by
  induction h generalizing bound with
  | null => exact .null
  | bool b => exact .bool b
  | int n => exact .int n
  | str s => exact .str s
  | arr _ ih =>
      cases bound with
      | zero => exact absurd hle (Nat.not_succ_le_zero _)
      | succ bound => exact .arr fun j hj => ih j hj (Nat.le_of_succ_le_succ hle)
  | obj _ ih =>
      cases bound with
      | zero => exact absurd hle (Nat.not_succ_le_zero _)
      | succ bound => exact .obj fun m hm => ih m hm (Nat.le_of_succ_le_succ hle)

/-! ### The text of a document -/

theorem chars_str (e : Escaping) (s : String) : chars e (.str s) = stringChars e s := rfl

theorem chars_arr (e : Escaping) (items : List Json) :
    chars e (.arr items) = '[' :: itemChars e items ++ [']'] :=
  rfl

theorem chars_obj (e : Escaping) (members : List (String × Json)) :
    chars e (.obj members) = '{' :: memberChars e members ++ ['}'] :=
  rfl

/-- A character that a value may begin with and that nothing else does. -/
def Opens (c : Char) : Prop :=
  isBlank c = false ∧ c ≠ ']' ∧ c ≠ '}'

theorem toString_int_cons (n : Int) : ∃ c cs, (toString n).toList = c :: cs ∧ (c = '-' ∨ isDigit c = true) := by
  rw [toList_toString_int]
  split
  · exact ⟨_, _, rfl, Or.inl rfl⟩
  · cases hds : Nat.toDigits 10 n.natAbs with
    | nil => exact absurd hds Nat.toDigits_ne_nil
    | cons d more => exact ⟨d, more, rfl, Or.inr (isDigit_of_mem_toDigits (hds ▸ List.mem_cons_self))⟩

theorem Opens.of_int (h : c = '-' ∨ isDigit c = true) : Opens c := by
  rcases h with rfl | h
  · exact ⟨rfl, by decide, by decide⟩
  · refine ⟨?_, ?_, ?_⟩
    · refine Bool.eq_false_iff.2 fun hblank => ?_
      simp only [isBlank, Bool.or_eq_true, decide_eq_true_eq] at hblank
      rcases hblank with ((rfl | rfl) | rfl) | rfl <;> cases h
    · rintro rfl
      cases h
    · rintro rfl
      cases h

theorem chars_cons (h : Fits depth j) (e : Escaping) : ∃ c cs, chars e j = c :: cs ∧ Opens c := by
  cases h with
  | null => exact ⟨_, _, rfl, rfl, by decide, by decide⟩
  | bool b => cases b <;> exact ⟨_, _, rfl, rfl, by decide, by decide⟩
  | int n =>
      obtain ⟨c, cs, heq, hc⟩ := toString_int_cons n
      exact ⟨c, cs, heq, Opens.of_int hc⟩
  | str s => exact ⟨_, _, rfl, rfl, by decide, by decide⟩
  | arr _ => exact ⟨_, _, rfl, rfl, by decide, by decide⟩
  | obj _ => exact ⟨_, _, rfl, rfl, by decide, by decide⟩

theorem skipBlanks_cons (h : isBlank c = false) : skipBlanks (c :: rest) = c :: rest := by
  rw [skipBlanks, List.dropWhile_cons_of_neg (by simp [h])]

theorem skipBlanks_chars (h : Fits depth j) : skipBlanks (chars e j ++ rest) = chars e j ++ rest := by
  obtain ⟨c, cs, heq, hc⟩ := chars_cons h e
  rw [heq, List.cons_append, skipBlanks_cons hc.1]

theorem itemChars_cons {items : List Json} (hne : items ≠ []) (h : ∀ j ∈ items, Fits depth j) (e : Escaping) :
    ∃ c cs, itemChars e items = c :: cs ∧ Opens c := by
  obtain ⟨j, more, rfl⟩ := List.exists_cons_of_ne_nil hne
  obtain ⟨c, cs, heq, hc⟩ := chars_cons (h j List.mem_cons_self) e
  cases more with
  | nil => exact ⟨c, cs, heq, hc⟩
  | cons next others => exact ⟨c, _, by rw [itemChars, heq, List.cons_append], hc⟩

theorem memberChars_cons {members : List (String × Json)} (hne : members ≠ []) (e : Escaping) :
    ∃ cs, memberChars e members = '"' :: cs := by
  obtain ⟨⟨name, value⟩, more, rfl⟩ := List.exists_cons_of_ne_nil hne
  cases more <;> simp [memberChars, stringChars]

theorem skipBlanks_itemChars {items : List Json} (hne : items ≠ []) (h : ∀ j ∈ items, Fits depth j) :
    skipBlanks (itemChars e items ++ rest) = itemChars e items ++ rest := by
  obtain ⟨c, cs, heq, hc⟩ := itemChars_cons hne h e
  rw [heq, List.cons_append, skipBlanks_cons hc.1]

theorem skipBlanks_memberChars {members : List (String × Json)} (hne : members ≠ []) :
    skipBlanks (memberChars e members ++ rest) = memberChars e members ++ rest := by
  obtain ⟨cs, heq⟩ := memberChars_cons hne e
  rw [heq, List.cons_append, skipBlanks_cons rfl]

theorem one_le_length_chars (h : Fits depth j) (e : Escaping) : 1 ≤ (chars e j).length := by
  obtain ⟨c, cs, heq, -⟩ := chars_cons h e
  rw [heq, List.length_cons]
  exact Nat.le_add_left 1 _

/-! ### Reading values -/

/-- The text of a document is read back, whatever follows it. A step for each character is enough. -/
def Reads (e : Escaping) (depth : Nat) (j : Json) : Prop :=
  ∀ fuel rest, (chars e j).length ≤ fuel → EndsNumber rest →
    value? fuel depth (chars e j ++ rest) = some (j, rest)

theorem reads_of_step (h : Fits depth j)
    (hstep : ∀ fuel rest, (chars e j).length ≤ fuel + 1 → EndsNumber rest →
      value? (fuel + 1) depth (chars e j ++ rest) = some (j, rest)) : Reads e depth j := by
  intro fuel rest hfuel hrest
  cases fuel with
  | zero => exact absurd (Nat.le_trans (one_le_length_chars h e) hfuel) (Nat.not_succ_le_zero 0)
  | succ fuel => exact hstep fuel rest hfuel hrest

theorem endsNumber_comma : EndsNumber (',' :: rest) := ⟨rfl, by decide, rfl⟩

theorem endsNumber_bracket : EndsNumber (']' :: rest) := ⟨rfl, by decide, rfl⟩

theorem endsNumber_brace : EndsNumber ('}' :: rest) := ⟨rfl, by decide, rfl⟩

theorem stringBody_stringChars (e : Escaping) (s : String) (rest : List Char) :
    stringBody none [] (s.toList.flatMap (escapeChar e) ++ '"' :: rest) = some (s.toList, rest) := by
  rw [stringBody_escaped, List.reverse_nil, List.nil_append]

theorem value?_quote (fuel depth : Nat) (cs : List Char) : value? (fuel + 1) depth ('"' :: cs) =
    match stringBody none [] cs with
    | some (s, after) => some (.str (String.ofList s), after)
    | none => none :=
  rfl

theorem reads_str (s : String) : Reads e depth (.str s) :=
  reads_of_step (.str s) fun fuel rest _ _ => by
    rw [chars_str, stringChars, List.append_assoc, List.cons_append, List.singleton_append, value?_quote,
      stringBody_stringChars]
    simp only [String.ofList_toList]

theorem reads_int (n : Int) : Reads e depth (.int n) := by
  refine reads_of_step (.int n) fun fuel rest _ hrest => ?_
  obtain ⟨c, cs, heq, hc⟩ := toString_int_cons n
  have hnumber := number?_int n hrest
  have hne : c ≠ '{' ∧ c ≠ '[' ∧ c ≠ '"' ∧ c ≠ 't' ∧ c ≠ 'f' ∧ c ≠ 'n' := by
    refine ⟨?_, ?_, ?_, ?_, ?_, ?_⟩ <;> (rintro rfl; rcases hc with hc | hc <;> cases hc)
  obtain ⟨h₁, h₂, h₃, h₄, h₅, h₆⟩ := hne
  have htext : chars e (.int n) = c :: cs := heq
  rw [heq] at hnumber
  rw [htext, value?.eq_def]
  dsimp only
  split
  · simp_all
  · simp_all
  · simp_all
  · simp_all
  · simp_all
  · simp_all
  · rw [hnumber]
    rfl

theorem memberName?_chars (e : Escaping) (name : String) (rest : List Char) :
    memberName? (stringChars e name ++ ':' :: rest) = some (name, skipBlanks rest) := by
  have hcolon : skipBlanks (':' :: rest) = ':' :: rest := skipBlanks_cons rfl
  simp [stringChars, memberName?, stringBody_stringChars, hcolon]

theorem items?_last {done : List Json} (hreads : Reads e depth j) (hfuel : (chars e j).length ≤ fuel) :
    items? (fuel + 1) depth done (chars e j ++ ']' :: rest) = some (.arr (j :: done).reverse, rest) := by
  rw [items?, hreads fuel _ hfuel endsNumber_bracket]
  rfl

theorem items?_more {done : List Json} (hreads : Reads e depth j) (hfuel : (chars e j).length ≤ fuel) :
    items? (fuel + 1) depth done (chars e j ++ ',' :: rest) = items? fuel depth (j :: done) (skipBlanks rest) := by
  rw [items?, hreads fuel _ hfuel endsNumber_comma]
  rfl

theorem items?_itemChars {items done : List Json} (hne : items ≠ []) (hfits : ∀ j ∈ items, Fits depth j)
    (hreads : ∀ j ∈ items, Reads e depth j) (hfuel : (itemChars e items).length + 1 ≤ fuel) :
    items? fuel depth done (itemChars e items ++ ']' :: rest) = some (.arr (done.reverse ++ items), rest) := by
  induction items generalizing done fuel with
  | nil => exact absurd rfl hne
  | cons j more ih =>
      cases fuel with
      | zero => exact absurd hfuel (Nat.not_succ_le_zero _)
      | succ fuel =>
          have hj := hreads j List.mem_cons_self
          cases more with
          | nil =>
              rw [itemChars] at hfuel ⊢
              rw [items?_last hj (Nat.le_of_succ_le_succ hfuel), List.reverse_cons]
          | cons next others =>
              have hmore : ∀ x ∈ next :: others, Fits depth x := fun x hx => hfits x (List.mem_cons_of_mem j hx)
              have hone := one_le_length_chars (hfits j List.mem_cons_self) e
              rw [itemChars, List.length_append, List.length_cons] at hfuel
              rw [itemChars, List.append_assoc, List.cons_append, items?_more hj (by omega),
                skipBlanks_itemChars (List.cons_ne_nil _ _) hmore, ih (List.cons_ne_nil _ _) hmore
                (fun x hx => hreads x (List.mem_cons_of_mem j hx)) (by omega), List.reverse_cons,
                List.append_assoc, List.singleton_append]

theorem members?_last {name : String} {done : List (String × Json)} (hfits : Fits depth j)
    (hreads : Reads e depth j) (hfuel : (chars e j).length ≤ fuel) :
    members? (fuel + 1) depth done (stringChars e name ++ ':' :: (chars e j ++ '}' :: rest)) =
      some (.obj ((name, j) :: done).reverse, rest) := by
  rw [members?, memberName?_chars, skipBlanks_chars hfits]
  dsimp only
  rw [hreads fuel _ hfuel endsNumber_brace]
  rfl

theorem members?_more {name : String} {done : List (String × Json)} (hfits : Fits depth j)
    (hreads : Reads e depth j) (hfuel : (chars e j).length ≤ fuel) :
    members? (fuel + 1) depth done (stringChars e name ++ ':' :: (chars e j ++ ',' :: rest)) =
      members? fuel depth ((name, j) :: done) (skipBlanks rest) := by
  rw [members?, memberName?_chars, skipBlanks_chars hfits]
  dsimp only
  rw [hreads fuel _ hfuel endsNumber_comma]
  rfl

theorem memberChars_single (name : String) (j : Json) :
    memberChars e [(name, j)] ++ rest = stringChars e name ++ ':' :: (chars e j ++ rest) := by
  rw [memberChars, List.append_assoc, List.cons_append]

theorem memberChars_more (name : String) (j : Json) (next : String × Json) (others : List (String × Json)) :
    memberChars e ((name, j) :: next :: others) ++ rest =
      stringChars e name ++ ':' :: (chars e j ++ ',' :: (memberChars e (next :: others) ++ rest)) := by
  simp [memberChars]

theorem memberChars_concat {members : List (String × Json)} (hne : members ≠ []) (name : String) (j : Json) :
    memberChars e (members ++ [(name, j)]) =
      memberChars e members ++ ',' :: (stringChars e name ++ ':' :: chars e j) := by
  induction members with
  | nil => exact absurd rfl hne
  | cons m more ih =>
      obtain ⟨first, value⟩ := m
      cases more with
      | nil => simp [memberChars]
      | cons next others =>
          have hlater := ih (List.cons_ne_nil next others)
          rw [List.cons_append] at hlater
          simp [memberChars, hlater]

theorem members?_memberChars {members done : List (String × Json)} (hne : members ≠ [])
    (hfits : ∀ m ∈ members, Fits depth m.2) (hreads : ∀ m ∈ members, Reads e depth m.2)
    (hfuel : (memberChars e members).length ≤ fuel) :
    members? fuel depth done (memberChars e members ++ '}' :: rest) =
      some (.obj (done.reverse ++ members), rest) := by
  induction members generalizing done fuel with
  | nil => exact absurd rfl hne
  | cons m more ih =>
      obtain ⟨name, j⟩ := m
      have hj : Reads e depth j := hreads _ List.mem_cons_self
      have hfit : Fits depth j := hfits _ List.mem_cons_self
      cases fuel with
      | zero =>
          obtain ⟨cs, heq⟩ := memberChars_cons hne e
          rw [heq] at hfuel
          exact absurd hfuel (Nat.not_succ_le_zero _)
      | succ fuel =>
          cases more with
          | nil =>
              simp only [memberChars, stringChars, List.length_append, List.length_cons] at hfuel
              rw [memberChars_single, members?_last hfit hj (by omega), List.reverse_cons]
          | cons next others =>
              simp only [memberChars, List.length_append, List.length_cons] at hfuel
              rw [memberChars_more, members?_more hfit hj (by omega), skipBlanks_memberChars (List.cons_ne_nil _ _),
                ih (List.cons_ne_nil _ _) (fun x hx => hfits x (List.mem_cons_of_mem _ hx))
                (fun x hx => hreads x (List.mem_cons_of_mem _ hx)) (by omega), List.reverse_cons,
                List.append_assoc, List.singleton_append]

theorem value?_bracket (fuel depth : Nat) (cs : List Char) : value? (fuel + 1) (depth + 1) ('[' :: cs) =
    match skipBlanks cs with
    | ']' :: after => some (.arr [], after)
    | inner => items? fuel depth [] inner :=
  rfl

theorem value?_brace (fuel depth : Nat) (cs : List Char) : value? (fuel + 1) (depth + 1) ('{' :: cs) =
    match skipBlanks cs with
    | '}' :: after => some (.obj [], after)
    | inner => members? fuel depth [] inner :=
  rfl

/-- A document that fits is read back from its text. -/
theorem Fits.reads (h : Fits depth j) (e : Escaping) : Reads e depth j := by
  induction h with
  | null => exact reads_of_step .null fun fuel rest _ _ => rfl
  | bool b => exact reads_of_step (.bool b) fun fuel rest _ _ => by cases b <;> rfl
  | int n => exact reads_int n
  | str s => exact reads_str s
  | @arr depth items hfits ih =>
      refine reads_of_step (.arr hfits) fun fuel rest hfuel _ => ?_
      rw [chars_arr, List.length_append, List.length_cons, List.length_singleton] at hfuel
      rw [chars_arr, List.append_assoc, List.cons_append, List.singleton_append, value?_bracket]
      by_cases hne : items = []
      · subst hne
        rfl
      · obtain ⟨c, cs, heq, hc⟩ := itemChars_cons hne hfits e
        rw [heq, List.cons_append, skipBlanks_cons hc.1]
        split
        · rename_i hclose
          exact absurd (List.cons.inj hclose).1 hc.2.1
        · rw [← List.cons_append, ← heq]
          exact items?_itemChars hne hfits ih (Nat.le_of_succ_le_succ hfuel)
  | @obj depth members hfits ih =>
      refine reads_of_step (.obj hfits) fun fuel rest hfuel _ => ?_
      rw [chars_obj, List.length_append, List.length_cons, List.length_singleton] at hfuel
      rw [chars_obj, List.append_assoc, List.cons_append, List.singleton_append, value?_brace]
      by_cases hne : members = []
      · subst hne
        rfl
      · obtain ⟨cs, heq⟩ := memberChars_cons hne e
        have hmembers : members? fuel depth [] (memberChars e members ++ '}' :: rest) = some (.obj members, rest) :=
          members?_memberChars hne hfits ih (by omega)
        rw [skipBlanks_memberChars hne]
        rw [heq] at hmembers ⊢
        exact hmembers

/-- The text of a whole document is read back. -/
theorem parse?_render (h : Fits maxDepth j) (e : Escaping) : parse? (render e j) = some j := by
  have hread := h.reads e (2 * (chars e j).length + 2) [] (by omega) trivial
  have hblanks : skipBlanks (chars e j ++ []) = chars e j ++ [] := skipBlanks_chars h
  rw [List.append_nil] at hread hblanks
  rw [parse?, render, String.toList_ofList, parseChars?, hblanks, hread]
  rfl

/-! ### The text of each member -/

theorem value?_own (h : Fits (maxDepth - 1) j) (hrest : EndsNumber rest) :
    value? (2 * (chars e j ++ rest).length + 2) (maxDepth - 1) (chars e j ++ rest) = some (j, rest) :=
  h.reads e _ rest (by rw [List.length_append]; omega) hrest

theorem take_own (cs rest : List Char) : (cs ++ rest).take ((cs ++ rest).length - rest.length) = cs := by
  rw [List.length_append, Nat.add_sub_cancel, List.take_left]

theorem rawMembers?_last {name : String} {done : List (String × List Char)} (h : Fits (maxDepth - 1) j) :
    rawMembers? (fuel + 1) done (stringChars e name ++ ':' :: (chars e j ++ '}' :: rest)) =
      some ((name, chars e j) :: done).reverse := by
  rw [rawMembers?, memberName?_chars, skipBlanks_chars h]
  dsimp only
  rw [value?_own h endsNumber_brace]
  dsimp only
  rw [take_own]
  rfl

theorem rawMembers?_more {name : String} {done : List (String × List Char)} (h : Fits (maxDepth - 1) j) :
    rawMembers? (fuel + 1) done (stringChars e name ++ ':' :: (chars e j ++ ',' :: rest)) =
      rawMembers? fuel ((name, chars e j) :: done) (skipBlanks rest) := by
  rw [rawMembers?, memberName?_chars, skipBlanks_chars h]
  dsimp only
  rw [value?_own h endsNumber_comma]
  dsimp only
  rw [take_own]
  rfl

theorem rawMembers?_memberChars {members : List (String × Json)} {done : List (String × List Char)}
    (hne : members ≠ []) (hfits : ∀ m ∈ members, Fits (maxDepth - 1) m.2) (hfuel : members.length ≤ fuel) :
    rawMembers? fuel done (memberChars e members ++ '}' :: rest) =
      some (done.reverse ++ members.map fun m => (m.1, chars e m.2)) := by
  induction members generalizing done fuel with
  | nil => exact absurd rfl hne
  | cons m more ih =>
      obtain ⟨name, j⟩ := m
      have hfit : Fits (maxDepth - 1) j := hfits _ List.mem_cons_self
      cases fuel with
      | zero => exact absurd hfuel (Nat.not_succ_le_zero _)
      | succ fuel =>
          cases more with
          | nil =>
              rw [memberChars_single, rawMembers?_last hfit, List.map_singleton, List.reverse_cons]
          | cons next others =>
              rw [memberChars_more, rawMembers?_more hfit, skipBlanks_memberChars (List.cons_ne_nil _ _),
                ih (List.cons_ne_nil _ _) (fun x hx => hfits x (List.mem_cons_of_mem _ hx))
                (Nat.le_of_succ_le_succ hfuel), List.reverse_cons, List.append_assoc, List.singleton_append]
              rfl

theorem length_le_length_memberChars (e : Escaping) (members : List (String × Json)) :
    members.length ≤ (memberChars e members).length := by
  induction members with
  | nil => exact Nat.zero_le _
  | cons m more ih =>
      obtain ⟨name, value⟩ := m
      cases more with
      | nil => simp [memberChars, stringChars]
      | cons next others =>
          simp only [memberChars, stringChars, List.length_append, List.length_cons] at ih ⊢
          omega

theorem rawObject?_brace (cs : List Char) : rawObject? (String.ofList ('{' :: cs)) =
    match skipBlanks cs with
    | '}' :: _ => some []
    | inner => (rawMembers? (inner.length + 1) [] inner).map
        (·.map fun (name, text) => (name, String.ofList text)) := by
  have hopen : skipBlanks ('{' :: cs) = '{' :: cs := skipBlanks_cons rfl
  rw [rawObject?, String.toList_ofList, hopen]
  rfl

/-- The members of an object, each with its own text. -/
theorem rawObject?_render {members : List (String × Json)} (hfits : ∀ m ∈ members, Fits (maxDepth - 1) m.2)
    (e : Escaping) : rawObject? (render e (.obj members)) = some (members.map fun m => (m.1, render e m.2)) := by
  rw [render, chars_obj, List.cons_append, rawObject?_brace]
  by_cases hne : members = []
  · subst hne
    rfl
  · obtain ⟨cs, heq⟩ := memberChars_cons hne e
    have hraw : rawMembers? ((memberChars e members ++ ['}']).length + 1) [] (memberChars e members ++ ['}']) =
        some (members.map fun m => (m.1, chars e m.2)) := by
      have hlength := length_le_length_memberChars e members
      refine rawMembers?_memberChars hne hfits ?_
      rw [List.length_append]
      omega
    rw [skipBlanks_memberChars hne]
    rw [heq] at hraw ⊢
    refine (congrArg (Option.map _) hraw).trans ?_
    rw [Option.map_some, List.map_map]
    rfl

/-! ### Compact text -/

/-- A character outside the strings that stays as it is and begins no string. -/
def Bare (c : Char) : Prop :=
  isBlank c = false ∧ respell c = [c] ∧ c ≠ '"'

theorem compactFrom_cons_outside (h : Bare c) :
    compactFrom .outside (c :: rest) = c :: compactFrom .outside rest := by
  rw [compactFrom, if_neg (by simp [h.1]), h.2.1, Place.next, if_neg h.2.2, List.singleton_append]

theorem compactFrom_outside {cs : List Char} (h : ∀ c ∈ cs, Bare c) :
    compactFrom .outside (cs ++ rest) = cs ++ compactFrom .outside rest := by
  induction cs with
  | nil => rfl
  | cons c more ih =>
      rw [List.cons_append, compactFrom_cons_outside (h c List.mem_cons_self),
        ih fun x hx => h x (List.mem_cons_of_mem c hx), List.cons_append]

theorem bare_of_int (h : c = '-' ∨ isDigit c = true) : Bare c := by
  rcases h with rfl | h
  · exact ⟨rfl, by decide, by decide⟩
  · have hrange : 0x30 ≤ c.toNat ∧ c.toNat ≤ 0x39 := by
      simpa [isDigit, Char.le_def, UInt32.le_iff_toNat_le] using h
    have hmarkup : isMarkup c = false := by
      refine Bool.eq_false_iff.2 fun hmarkup => ?_
      simp only [isMarkup, Bool.or_eq_true, decide_eq_true_eq] at hmarkup
      rcases hmarkup with (rfl | rfl) | rfl <;> cases h
    refine ⟨(Opens.of_int (Or.inr h)).1, ?_, ?_⟩
    · rw [respell, if_neg]
      simp only [hmarkup, Bool.false_eq_true, false_or]
      omega
    · rintro rfl
      cases h

theorem mem_toString_int {n : Int} (h : c ∈ (toString n).toList) : c = '-' ∨ isDigit c = true := by
  rw [toList_toString_int] at h
  split at h
  · exact (List.mem_cons.1 h).imp_right isDigit_of_mem_toDigits
  · exact Or.inr (isDigit_of_mem_toDigits h)

/-- The text of a document is compact wherever it stands. -/
def Dense (j : Json) : Prop :=
  ∀ rest, compactFrom .outside (chars .markup j ++ rest) = chars .markup j ++ compactFrom .outside rest

theorem bare_separator : Bare ',' ∧ Bare ':' ∧ Bare '[' ∧ Bare ']' ∧ Bare '{' ∧ Bare '}' := by
  refine ⟨?_, ?_, ?_, ?_, ?_, ?_⟩ <;> exact ⟨rfl, by decide, by decide⟩

theorem compactFrom_itemChars {items : List Json} (h : ∀ j ∈ items, Dense j) (rest : List Char) :
    compactFrom .outside (itemChars .markup items ++ rest) =
      itemChars .markup items ++ compactFrom .outside rest := by
  induction items with
  | nil => rfl
  | cons j more ih =>
      have hj := h j List.mem_cons_self
      cases more with
      | nil => exact hj rest
      | cons next others =>
          rw [itemChars, List.append_assoc, List.cons_append, hj, compactFrom_cons_outside bare_separator.1,
            ih fun x hx => h x (List.mem_cons_of_mem j hx), List.append_assoc, List.cons_append]

theorem compactFrom_memberChars {members : List (String × Json)} (h : ∀ m ∈ members, Dense m.2)
    (rest : List Char) :
    compactFrom .outside (memberChars .markup members ++ rest) =
      memberChars .markup members ++ compactFrom .outside rest := by
  induction members with
  | nil => rfl
  | cons m more ih =>
      obtain ⟨name, j⟩ := m
      have hj : Dense j := h _ List.mem_cons_self
      cases more with
      | nil =>
          rw [memberChars_single, compactFrom_stringChars, compactFrom_cons_outside bare_separator.2.1, hj,
            memberChars_single]
      | cons next others =>
          rw [memberChars_more, compactFrom_stringChars, compactFrom_cons_outside bare_separator.2.1, hj,
            compactFrom_cons_outside bare_separator.1, ih fun x hx => h x (List.mem_cons_of_mem _ hx),
            memberChars_more]

theorem Fits.dense (h : Fits depth j) : Dense j := by
  obtain ⟨-, -, hopen, hclose, hbegin, hend⟩ := bare_separator
  induction h with
  | null => exact fun rest => rfl
  | bool b => cases b <;> exact fun rest => rfl
  | int n => exact fun rest => compactFrom_outside fun c hc => bare_of_int (mem_toString_int hc)
  | str s => exact compactFrom_stringChars s
  | arr _ ih =>
      intro rest
      rw [chars_arr, List.append_assoc, List.cons_append, List.singleton_append, compactFrom_cons_outside hopen,
        compactFrom_itemChars ih, compactFrom_cons_outside hclose, List.append_assoc, List.cons_append,
        List.singleton_append]
  | obj _ ih =>
      intro rest
      rw [chars_obj, List.append_assoc, List.cons_append, List.singleton_append, compactFrom_cons_outside hbegin,
        compactFrom_memberChars ih, compactFrom_cons_outside hend, List.append_assoc, List.cons_append,
        List.singleton_append]

/-- A text that is written for markup is its own compact form. -/
theorem compact_chars (h : Fits depth j) : compact (chars .markup j) = chars .markup j := by
  simpa [compact, compactFrom] using h.dense []

end CompilationBridge.Json
