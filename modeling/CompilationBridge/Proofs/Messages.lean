import CompilationBridge.Message.Reader
import CompilationBridge.Proofs.Json.Documents
import CompilationBridge.Proofs.Json.Readers

/-! Messages as text. A message that carries a record is read back from its text as it was written, its payload
to the letter, and its payload decodes to the record it was made from: what is missing stays missing, what is
empty stays empty, and a table holds the same value at each key. -/

namespace CompilationBridge

open Json (Fits Escaping)
open Json.Reader (Recovers IsWord recovers_string recovers_bool recovers_int recovers_list recovers_strings
  recovers_bytes read_table)

/-! ### Records that hold no table -/

theorem Framework.recovers (f : Framework) : Recovers Framework.reader f.toJson f := by
  intro old
  simp [Framework.reader, Framework.toJson, Json.Reader.record, Json.Reader.findField?, Json.field,
    recovers_string _ _]

theorem ProjectReference.recovers (r : ProjectReference) : Recovers ProjectReference.reader r.toJson r := by
  intro old
  simp [ProjectReference.reader, ProjectReference.toJson, Json.Reader.record, Json.Reader.findField?, Json.field,
    recovers_string _ _, r.framework.recovers _]

theorem DependencyDescription.recovers (d : DependencyDescription) :
    Recovers DependencyDescription.reader d.toJson d := by
  intro old
  simp [DependencyDescription.reader, DependencyDescription.toJson, Json.Reader.record, Json.Reader.findField?,
    Json.field, recovers_string _ _, recovers_bool _ _]

theorem CompilerOptions.recovers (o : CompilerOptions) : Recovers CompilerOptions.reader o.toJson o := by
  intro old
  simp [CompilerOptions.reader, CompilerOptions.toJson, Json.Reader.record, Json.Reader.findField?, Json.field,
    recovers_string _ _, recovers_bool _ _, recovers_strings _ _, o.framework.recovers _]

theorem Sources.recovers (s : Sources) : Recovers Sources.reader s.toJson s := by
  intro old
  simp [Sources.reader, Sources.toJson, Json.Reader.record, Json.Reader.findField?, Json.field,
    recovers_strings _ _, s.framework.recovers _]

theorem HostError.recovers {e : HostError} (hline : IsWord e.line) (hcolumn : IsWord e.column) :
    Recovers HostError.reader e.toJson e := by
  intro old
  simp [HostError.reader, HostError.toJson, Json.Reader.record, Json.Reader.findField?, Json.field,
    recovers_string _ _, recovers_int hline _, recovers_int hcolumn _]

/-! ### Records that hold a table -/

theorem ProjectInformation.read_toJson {p : ProjectInformation} (h : ∀ t ∈ p.commands, t.keys.Nodup) :
    ProjectInformation.reader {} p.toJson = some { p with commands := p.commands.map Table.ordered } := by
  simp [ProjectInformation.reader, ProjectInformation.toJson, Json.Reader.record, Json.Reader.findField?,
    Json.field, recovers_string _ _, recovers_strings _ _, recovers_list Framework.recovers _ _,
    read_table recovers_string h]

theorem References.read_toJson {r : References} (h : ∀ t ∈ r.raws, t.keys.Nodup) :
    References.reader {} r.toJson = some { r with raws := r.raws.map Table.ordered } := by
  simp [References.reader, References.toJson, Json.Reader.record, Json.Reader.findField?, Json.field,
    recovers_strings _ _, r.framework.recovers _, recovers_list ProjectReference.recovers _ _,
    read_table recovers_bytes h]

theorem Dependencies.read_toJson {d : Dependencies} (h : ∀ t ∈ d.entries, t.keys.Nodup) :
    Dependencies.reader {} d.toJson = some { d with entries := d.entries.map Table.ordered } := by
  simp [Dependencies.reader, Dependencies.toJson, Json.Reader.record, Json.Reader.findField?, Json.field,
    recovers_string _ _, d.framework.recovers _, read_table DependencyDescription.recovers h]

/-! ### Payloads -/

/-- What holds of every record that a program builds: a table has each key once, and an integer takes
sixty-four bits. -/
def Payload.WellFormed : Payload → Prop
  | .projectInformation p => ∀ t ∈ p.commands, t.keys.Nodup
  | .references r => ∀ t ∈ r.raws, t.keys.Nodup
  | .dependencies d => ∀ t ∈ d.entries, t.keys.Nodup
  | .hostError e => IsWord e.line ∧ IsWord e.column
  | .compilerOptions _ | .sources _ | .unknown _ _ => True

/-- The same finite map: each key once, and at each key the same value. -/
def Table.Same {α : Type} (t u : Table String α) : Prop :=
  u.keys.Nodup ∧ ∀ k, u.get? k = t.get? k

/-- The same record: equal in all fields, where tables are compared as finite maps. -/
def Payload.Same : Payload → Payload → Prop
  | .projectInformation p, .projectInformation q =>
    Option.Rel Table.Same p.commands q.commands ∧ q = { p with commands := q.commands }
  | .references p, .references q => Option.Rel Table.Same p.raws q.raws ∧ q = { p with raws := q.raws }
  | .dependencies p, .dependencies q =>
    Option.Rel Table.Same p.entries q.entries ∧ q = { p with entries := q.entries }
  | p, q => p = q

theorem Table.same_ordered {α : Type} {t : Option (Table String α)} (h : ∀ u ∈ t, u.keys.Nodup) :
    Option.Rel Table.Same t (t.map Table.ordered) := by
  cases t with
  | none => exact .none
  | some t => exact .some ⟨t.keys_ordered_perm.nodup_iff.2 (h t rfl), get?_ordered (h t rfl)⟩

/-- The document of a record is read, by the type of the record, as the same record. -/
theorem Payload.read_toJson {p : Payload} {body : Json} (hbody : p.toJson? = some body) (hp : p.WellFormed) :
    ∃ read q, Message.recordReader? p.type = some read ∧ read body = some q ∧ p.Same q := by
  cases p with
  | projectInformation p =>
      obtain rfl := Option.some.inj hbody
      have hread := congrArg (Option.map projectInformation) (ProjectInformation.read_toJson hp)
      exact ⟨_, _, rfl, hread, Table.same_ordered hp, rfl⟩
  | references r =>
      obtain rfl := Option.some.inj hbody
      have hread := congrArg (Option.map references) (References.read_toJson hp)
      exact ⟨_, _, rfl, hread, Table.same_ordered hp, rfl⟩
  | dependencies d =>
      obtain rfl := Option.some.inj hbody
      have hread := congrArg (Option.map dependencies) (Dependencies.read_toJson hp)
      exact ⟨_, _, rfl, hread, Table.same_ordered hp, rfl⟩
  | compilerOptions o =>
      obtain rfl := Option.some.inj hbody
      exact ⟨_, _, rfl, congrArg (Option.map compilerOptions) (o.recovers {}), rfl⟩
  | sources s =>
      obtain rfl := Option.some.inj hbody
      exact ⟨_, _, rfl, congrArg (Option.map sources) (s.recovers {}), rfl⟩
  | hostError e =>
      obtain rfl := Option.some.inj hbody
      exact ⟨_, _, rfl, congrArg (Option.map hostError) (HostError.recovers hp.1 hp.2 {}), rfl⟩
  | unknown type raw => cases hbody

/-! ### How deep payloads are nested -/

namespace Json

variable {α : Type} {f : α → Json} {depth : Nat}

theorem fits_orNull (h : ∀ v, Fits depth (f v)) (v : Option α) : Fits depth (.orNull f v) := by
  cases v with
  | none => exact .null
  | some v => exact h v

theorem fits_list (h : ∀ v, Fits depth (f v)) (vs : Option (List α)) :
    Fits (depth + 1) (.orNull (fun vs => .arr (vs.map f)) vs) :=
  fits_orNull (fun vs => .arr fun j hj => by
    obtain ⟨v, -, rfl⟩ := List.mem_map.1 hj
    exact h v) vs

theorem fits_strings (vs : Option (List String)) : Fits (depth + 1) (.orNull .strings vs) :=
  fits_list .str vs

theorem fits_table (h : ∀ v, Fits depth (f v)) (t : Option (Table String α)) :
    Fits (depth + 1) (.orNull (.ofTable f) t) :=
  fits_orNull (fun t => by
    rw [Reader.ofTable_eq]
    refine .obj fun m hm => ?_
    obtain ⟨e, -, rfl⟩ := List.mem_map.1 hm
    exact h e.2) t

theorem fits_bytes (b : Option Text.Bytes) : Fits depth (.ofBytes b) :=
  fits_orNull (fun _ => .str _) b

end Json

open Json (fits_list fits_strings fits_table fits_bytes)

theorem Framework.fits {depth : Nat} (f : Framework) : Fits (depth + 1) f.toJson :=
  .obj (by simp [Fits.str])

theorem ProjectReference.fits {depth : Nat} (r : ProjectReference) : Fits (depth + 2) r.toJson :=
  .obj (by simp [Fits.str, r.framework.fits])

theorem DependencyDescription.fits {depth : Nat} (d : DependencyDescription) : Fits (depth + 1) d.toJson :=
  .obj (by simp [Fits.str, Fits.bool])

/-- The deepest are the references: a framework in a project reference in their list. -/
theorem Payload.fits {p : Payload} {body : Json} (hbody : p.toJson? = some body) : Fits 4 body := by
  cases p with
  | projectInformation p =>
      obtain rfl := Option.some.inj hbody
      exact .obj (by simp [Fits.str, fits_strings, fits_list Framework.fits, fits_table Fits.str])
  | references r =>
      obtain rfl := Option.some.inj hbody
      exact .obj (by
        simp [r.framework.fits, fits_strings, fits_table fits_bytes, fits_list ProjectReference.fits])
  | dependencies d =>
      obtain rfl := Option.some.inj hbody
      exact .obj (by simp [d.framework.fits, Fits.str, fits_table DependencyDescription.fits])
  | compilerOptions o =>
      obtain rfl := Option.some.inj hbody
      exact .obj (by simp [o.framework.fits, Fits.str, Fits.bool, fits_strings])
  | sources s =>
      obtain rfl := Option.some.inj hbody
      exact .obj (by simp [s.framework.fits, fits_strings])
  | hostError e =>
      obtain rfl := Option.some.inj hbody
      exact .obj (by simp [Fits.str, Fits.int])
  | unknown type raw => cases hbody

/-! ### Envelopes -/

namespace Message

variable {m : Message} {body : Option Json}

/-- The members of an envelope with the document that its payload is the text of. -/
def members (m : Message) (body : Option Json) : List (String × Json) :=
  [("HostId", .str m.hostId), ("MessageType", .str m.type), ("ContextId", .int m.contextId)] ++
    (body.map ("Payload", ·)).toList

/-- A payload is the text of a document that is written for markup. -/
def Carries (m : Message) (body : Option Json) : Prop :=
  m.payload = body.map (Json.render .markup) ∧ ∀ j ∈ body, Fits (Json.maxDepth - 1) j

theorem Carries.fits (h : m.Carries body) : ∀ e ∈ m.members body, Fits (Json.maxDepth - 1) e.2 := by
  intro e he
  rw [members, List.mem_append, Option.mem_toList, Option.map_eq_some_iff] at he
  rcases he with he | ⟨j, hj, rfl⟩
  · simp only [List.mem_cons, List.not_mem_nil, or_false] at he
    rcases he with rfl | rfl | rfl
    · exact .str _
    · exact .str _
    · exact .int _
  · exact h.2 j hj

theorem Carries.isWritable (h : m.Carries body) : m.isWritable = true := by
  cases body with
  | none => simp [Message.isWritable, h.1]
  | some j =>
      have hparse := Json.parse?_render ((h.2 j rfl).mono (Nat.sub_le _ 1)) .markup
      simp [Message.isWritable, h.1, hparse]

theorem chars_of_payload {m : Message} {c : Char} {cs : List Char} (h : (m.payload.getD "").toList = c :: cs) :
    m.chars = '{' :: Json.memberChars .markup (m.members none) ++ ",\"Payload\":".toList ++
      Json.compact (c :: cs) ++ ['}'] := by
  have hhead (cs : List Char) : ('{' :: cs ++ ['}']).dropLast = '{' :: cs := List.dropLast_concat
  rw [Message.chars, h]
  dsimp only
  rw [Json.chars_obj, hhead]
  rfl

/-- An envelope is written as an object whose members hold its fields. -/
theorem Carries.chars_eq (h : m.Carries body) : m.chars = Json.chars .markup (.obj (m.members body)) := by
  cases body with
  | none => simp [Message.chars, h.1, members]
  | some j =>
      have hfits := h.2 j rfl
      have hname : ",\"Payload\":".toList = ',' :: (Json.stringChars .markup "Payload" ++ [':']) := by decide
      have hne : m.members none ≠ [] := List.cons_ne_nil _ _
      have hmembers : m.members (some j) = m.members none ++ [("Payload", j)] := rfl
      have htext : (m.payload.getD "").toList = Json.chars .markup j := by
        rw [h.1, Option.map_some, Option.getD_some, Json.render, String.toList_ofList]
      obtain ⟨c, cs, heq, -⟩ := Json.chars_cons hfits .markup
      rw [chars_of_payload (htext.trans heq), ← heq, Json.compact_chars hfits, hname, hmembers, Json.chars_obj,
        Json.memberChars_concat hne]
      simp only [List.append_assoc, List.cons_append, List.nil_append]

theorem Carries.render_eq (h : m.Carries body) : m.render = Json.render .markup (.obj (m.members body)) :=
  congrArg String.ofList h.chars_eq

theorem readMember_hostId (m : Message) (s : String) :
    readMember m "HostId" (Json.render .markup (.str s)) = some { m with hostId := s } := by
  have hname : Text.foldName "HostId" = "HOSTID" := by decide
  have hparse := Json.parse?_render (.str s) .markup
  simp [readMember, hname, hparse, recovers_string s _]

theorem readMember_type (m : Message) (s : String) :
    readMember m "MessageType" (Json.render .markup (.str s)) = some { m with type := s } := by
  have hname : Text.foldName "MessageType" = "MESSAGETYPE" := by decide
  have hparse := Json.parse?_render (.str s) .markup
  simp [readMember, hname, hparse, recovers_string s _]

theorem readMember_contextId (m : Message) {n : Int} (hn : IsWord n) :
    readMember m "ContextId" (Json.render .markup (.int n)) = some { m with contextId := n } := by
  have hname : Text.foldName "ContextId" = "CONTEXTID" := by decide
  have hparse := Json.parse?_render (.int n) .markup
  simp [readMember, hname, hparse, recovers_int hn _]

theorem readMember_payload (m : Message) (text : String) :
    readMember m "Payload" text = some { m with payload := some text } := by
  have hname : Text.foldName "Payload" = "PAYLOAD" := by decide
  simp [readMember, hname]

/-- An envelope is read back from its text, with its payload to the letter. -/
theorem Carries.parse?_render (h : m.Carries body) (hid : IsWord m.contextId) : parse? m.render = some m := by
  have hobject : Fits Json.maxDepth (.obj (m.members body)) := .obj h.fits
  have hpayload : Message.mk m.hostId m.type m.contextId (body.map (Json.render .markup)) = m :=
    congrArg (Message.mk m.hostId m.type m.contextId) h.1.symm
  rw [parse?, h.render_eq, Json.parse?_render hobject, Json.rawObject?_render h.fits]
  refine Eq.trans ?_ (congrArg some hpayload)
  cases body with
  | none => simp [members, readMember_hostId, readMember_type, readMember_contextId _ hid]
  | some j =>
      simp [members, readMember_hostId, readMember_type, readMember_contextId _ hid, readMember_payload]

/-! ### The round trip -/

/-- A message whose payload is the document of a record decodes to the same record. -/
theorem Carries.decode {p : Payload} {j : Json} (h : m.Carries (some j)) (htype : m.type = p.type)
    (hbody : p.toJson? = some j) (hp : p.WellFormed) : ∃ q, m.decode = .ok q ∧ p.Same q := by
  obtain ⟨read, q, hreader, hread, hsame⟩ := Payload.read_toJson hbody hp
  have hparse := Json.parse?_render ((h.2 j rfl).mono (Nat.sub_le _ 1)) .markup
  refine ⟨q, ?_, hsame⟩
  rw [Message.decode, htype, hreader, h.1, Option.map_some, Option.getD_some, hparse]
  dsimp only
  rw [Option.bind_some, hread]

/-- **Messages come back from their text.** A message made of a record, under the type of the record and with
any host id, can be written; the text is read back as the very message, its payload to the letter, and the
payload decodes to the same record. -/
theorem roundtrip {p : Payload} {body : Json} (hbody : p.toJson? = some body) (hp : p.WellFormed)
    (hostId : String) {contextId : Int} (hid : IsWord contextId) :
    let m : Message := { Message.new p.type contextId (some body) with hostId := hostId }
    ∃ text q, m.render? = some text ∧ parse? text = some m ∧ m.decode = .ok q ∧ p.Same q := by
  intro m
  have hcarries : m.Carries (some body) := by
    refine ⟨rfl, fun j hj => ?_⟩
    obtain rfl := Option.some.inj hj
    exact (Payload.fits hbody).mono (by decide)
  obtain ⟨q, hdecode, hsame⟩ := hcarries.decode rfl hbody hp
  have hwritten : m.render? = some m.render := if_pos hcarries.isWritable
  exact ⟨m.render, q, hwritten, hcarries.parse?_render hid, hdecode, hsame⟩

/-- Among the references of a message a file without bytes, one with no bytes and one with bytes are kept apart. -/
theorem roundtrip_references :
    let p := Payload.references {
      framework := { name := "a<b\u2028" }
      files := some []
      raws := some ⟨[("b", none), ("a", some []), ("&", some [0, 255])]⟩ }
    p.WellFormed ∧ ∃ body, p.toJson? = some body ∧
      let m : Message := { Message.new p.type (-0x8000000000000000) (some body) with hostId := "\"" }
      ∃ text q, m.render? = some text ∧ parse? text = some m ∧ m.decode = .ok q ∧ p.Same q := by
  intro p
  have hp : p.WellFormed := by
    intro t ht
    obtain rfl := Option.some.inj ht
    decide
  exact ⟨hp, _, rfl, roundtrip rfl hp "\"" (by decide)⟩

end Message

end CompilationBridge
