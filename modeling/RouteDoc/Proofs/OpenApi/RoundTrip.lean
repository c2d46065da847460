import RouteDoc.OpenApi.Decoding
import RouteDoc.OpenApi.Encoding
import RouteDoc.OpenApi.Validation
import RouteDoc.Proofs.Json.Printed
import RouteDoc.Proofs.Keyed

/-!
# `RouteDoc.Proofs.OpenApi.RoundTrip`: documents and their texts

Every document is read back from its text. `RoundTrips` says of a way to
encode and a way to decode that what is encoded prints a form that is
decoded to the same. It holds of texts and truth values and is handed on
to lists, maps and the fields of a record, so each part of a document
needs no more than the list of its fields.

An optional field that is left out has no member, and one that has no
member is read as left out. One that is there is never printed as null,
which would be read as left out as well.

* `RoundTrips.list`, `RoundTrips.map`: lists and maps.
* `exists_object`: the fields of a record.
* `roundTrips_document`: a document and its form.
* `parse_pretty`: a document and its text.
-/

set_option autoImplicit false

namespace RouteDoc.OpenApi

open RouteDoc.Json

variable {α β : Type} {encode : α → Json} {decode : Form → Option α}

/-- What is encoded prints a form that is decoded to the same. -/
def RoundTrips (encode : α → Json) (decode : Form → Option α) : Prop :=
  ∀ a, ∃ form, Prints (encode a) form ∧ decode form = some a

/-- Texts come back: a string is printed as a string and read as the text it
holds. Every text field of the document rests on this one. -/
theorem roundTrips_text : RoundTrips .string decodeText := fun s =>
  ⟨_, prints_string s, rfl⟩

/-- Truth values come back. Only the `required` of a parameter is one. -/
theorem roundTrips_bool : RoundTrips .bool decodeBool := fun b =>
  ⟨_, prints_bool b, rfl⟩

/-! ### Lists and maps -/

/-- Decoding each element of a list succeeds when decoding succeeds on every
element, and then gives the list of the results in the same order. -/
theorem mapM_map_of_eq_some {γ : Type} {f : β → Option γ} {g : α → β} {h : α → γ} {as : List α}
    (heq : ∀ a ∈ as, f (g a) = some (h a)) : (as.map g).mapM f = some (as.map h) := by
  induction as with
  | nil => rfl
  | cons a as ih =>
      have hfirst := heq a (by simp)
      have hrest := ih fun b hb => heq b (List.mem_cons_of_mem _ hb)
      simp [List.mapM_cons, hfirst, hrest]

/-- If the elements come back, so does the list of them. The elements are
printed one by one, so the forms of the array are the forms of its elements. -/
theorem RoundTrips.list (h : RoundTrips encode decode) :
    RoundTrips (fun as => .array (as.map encode)) (decodeList decode) := by
  choose form hprints hdecode using h
  intro as
  have hitems : ∀ item ∈ as.map fun a => (encode a, form a), Prints item.1 item.2 := by
    intro item hitem
    obtain ⟨a, -, rfl⟩ := List.mem_map.1 hitem
    exact hprints a
  have harray := prints_array hitems
  rw [List.map_map, List.map_map] at harray
  have hvalues : (as.map form).mapM decode = some (as.map id) :=
    mapM_map_of_eq_some fun a _ => hdecode a
  rw [List.map_id] at hvalues
  exact ⟨_, harray, hvalues⟩

/-- If the values come back, so does the map from texts to them, in the same
order. Reading a map puts the pairs in one after the other; the keys are
distinct, so none of them overwrites or moves another. -/
theorem RoundTrips.map (h : RoundTrips encode decode) :
    RoundTrips (encodeMap encode) (decodeMap decode) := by
  choose form hprints hdecode using h
  intro m
  have hmembers : ∀ member ∈ m.entries.map fun pair => (pair.1, encode pair.2, form pair.2),
      Prints member.2.1 member.2.2 := by
    intro member hmember
    obtain ⟨pair, -, rfl⟩ := List.mem_map.1 hmember
    exact hprints pair.2
  have hobject := prints_object hmembers
  rw [List.map_map, List.map_map] at hobject
  refine ⟨_, hobject, ?_⟩
  have hkeys : members? (.object (m.entries.map fun pair => (some pair.1, form pair.2)))
      = some (m.entries.map fun pair => (pair.1, form pair.2)) :=
    mapM_map_of_eq_some fun _ _ => rfl
  have hvalues : (m.entries.map fun pair => (pair.1, form pair.2)).mapM
      (fun member => (decode member.2).map fun a => (member.1, a)) = some (m.entries.map id) :=
    mapM_map_of_eq_some fun pair _ => by simp [hdecode]
  rw [List.map_id] at hvalues
  show decodeMap decode (.object (m.entries.map fun pair => (some pair.1, form pair.2))) = _
  rw [decodeMap, hkeys]
  show ((m.entries.map fun pair => (pair.1, form pair.2)).mapM fun member =>
    (decode member.2).map fun a => (member.1, a)).bind (fun pairs => some (.ofList pairs)) = some m
  rw [hvalues, Option.bind_some, OrderedMap.ofList_entries]

/-! ### Fields -/

/-- The members of the fields that are there. -/
def present (fields : List (String × Option β)) : List (String × β) :=
  fields.flatMap fun (key, value) => value.elim [] fun b => [(key, b)]

/-- The first field of an object is a member if it has a value, and the other
fields follow. -/
theorem present_cons (key : String) (value : Option β) (fields : List (String × Option β)) :
    present ((key, value) :: fields)
      = (value.elim [] fun b => [(key, b)]) ++ present fields :=
  List.flatMap_cons

/-- An object has no member under a key that none of its fields has. -/
theorem filter_present_of_not_mem {fields : List (String × Option β)} {key : String}
    (h : key ∉ fields.map Prod.fst) :
    (present fields).filter (fun member => member.1 = key) = [] := by
  induction fields with
  | nil => rfl
  | cons field fields ih =>
      obtain ⟨k, value⟩ := field
      simp only [List.map_cons, List.mem_cons, not_or] at h
      rw [present_cons, List.filter_append, ih h.2, List.append_nil]
      cases value <;> simp [Ne.symm h.1]

/-- Of the members of fields with distinct names, those with the name of a
field are its own. -/
theorem filter_present {fields : List (String × Option β)}
    (hnodup : (fields.map Prod.fst).Nodup) {key : String} {value : Option β}
    (h : (key, value) ∈ fields) :
    (present fields).filter (fun member => member.1 = key)
      = value.elim [] fun b => [(key, b)] := by
  induction fields with
  | nil => cases h
  | cons field fields ih =>
      obtain ⟨k, other⟩ := field
      obtain ⟨hnot, hnodup⟩ := List.nodup_cons.1 hnodup
      rw [present_cons, List.filter_append]
      rcases List.mem_cons.1 h with hfirst | h
      · obtain ⟨rfl, rfl⟩ := Prod.mk.inj hfirst
        rw [filter_present_of_not_mem hnot, List.append_nil]
        cases value <;> simp
      · have hne : k ≠ key := by
          rintro rfl
          exact hnot (List.mem_map.2 ⟨_, h, rfl⟩)
        rw [ih hnodup h]
        cases other <;> simp [hne]

/-- The field of a key is found again in the object: the keys of the fields
are distinct, so there is one member of this key if the field has a value, and
none if it was left out. A second member would have been refused. -/
theorem theMember?_present {fields : List (String × Option Form)}
    (hnodup : (fields.map Prod.fst).Nodup) {field : String × Option Form} (h : field ∈ fields) :
    theMember? (present fields) field.1 = some field.2 := by
  rw [theMember?, filter_present hnodup h]
  cases field.2 <;> rfl

/-- A field with its name, its value and the form of its value, which are
there or left out together. -/
abbrev Field := String × Option Json × Option Form

/-- The value of a field prints its form. -/
def Field.Shown (field : Field) : Prop := Option.Rel Prints field.2.1 field.2.2

/-- When each field of an object prints its form, the members of the object
print the members of the forms. Fields that are left out are left out on both
sides, so the two lists stay in step. -/
theorem exists_members {fields : List Field} (h : ∀ field ∈ fields, field.Shown) :
    ∃ members : List (String × Json × Form),
      (∀ member ∈ members, Prints member.2.1 member.2.2) ∧
      (members.map fun member => (member.1, member.2.1))
        = present (fields.map fun field => (field.1, field.2.1)) ∧
      (members.map fun member => (member.1, member.2.2))
        = present (fields.map fun field => (field.1, field.2.2)) := by
  induction fields with
  | nil => exact ⟨[], by simp, rfl, rfl⟩
  | cons field fields ih =>
      obtain ⟨members, hmembers, hvalues, hforms⟩ := ih fun f hf => h f (List.mem_cons_of_mem _ hf)
      obtain ⟨key, value, form⟩ := field
      have hfield : Option.Rel Prints value form := h _ List.mem_cons_self
      cases hfield with
      | none => exact ⟨members, hmembers, hvalues, hforms⟩
      | @some value form hprints =>
          refine ⟨(key, value, form) :: members, ?_, ?_, ?_⟩
          · exact List.forall_mem_cons.2 ⟨hprints, hmembers⟩
          · rw [List.map_cons, hvalues]
            rfl
          · rw [List.map_cons, hforms]
            rfl

/-- An object with the members of some fields prints a form in which these
fields are found. -/
theorem exists_object (fields : List Field) (hnodup : (fields.map Prod.fst).Nodup)
    (h : ∀ field ∈ fields, field.Shown) :
    ∃ form, Prints (.object (present (fields.map fun field => (field.1, field.2.1)))) form ∧
      namedFields? (fields.map Prod.fst) form = some (fields.map fun field => field.2.2) := by
  obtain ⟨members, hmembers, hvalues, hforms⟩ := exists_members h
  have hobject := prints_object hmembers
  rw [hvalues] at hobject
  refine ⟨_, hobject, ?_⟩
  have hkeys : members? (.object (members.map fun member => (some member.1, member.2.2)))
      = some (present (fields.map fun field => (field.1, field.2.2))) := by
    rw [← hforms]
    exact mapM_map_of_eq_some fun _ _ => rfl
  have hnames : ((fields.map fun field => (field.1, field.2.2)).map Prod.fst).Nodup := by
    rwa [List.map_map]
  rw [namedFields?, hkeys, Option.bind_some]
  · exact mapM_map_of_eq_some fun field hfield =>
      theMember?_present hnames (List.mem_map_of_mem hfield)
  · rintro _ ⟨⟩

/-- A field that must be there has a form, and reading it as mandatory gives
the value back. -/
theorem RoundTrips.mandatory (h : RoundTrips encode decode) (a : α) :
    ∃ form, Option.Rel Prints (some (encode a)) form ∧
      OpenApi.mandatory decode form = some a := by
  obtain ⟨form, hprints, hdecode⟩ := h a
  exact ⟨some form, .some hprints, hdecode⟩

/-- A field that may be left out comes back as it was, present or not. `null`
must not decode to a value, because reading takes it for a field left out. -/
theorem RoundTrips.optional (h : RoundTrips encode decode) (hnull : decode .null = none)
    (field : Option α) :
    ∃ form, Option.Rel Prints (field.map encode) form ∧
      OpenApi.optional decode form = some field := by
  cases field with
  | none => exact ⟨none, .none, rfl⟩
  | some a =>
      obtain ⟨form, hprints, hdecode⟩ := h a
      refine ⟨some form, .some hprints, ?_⟩
      -- Null would be read as a field that is left out.
      have hne : form ≠ .null := by
        rintro rfl
        simp [hnull] at hdecode
      cases form <;> simp_all [OpenApi.optional]

/-! ### The parts of a document -/

/-- The member of an optional field, as one expression: `exists_object` is
about fields in this form, and the encoders use `optionalMember`. -/
theorem optionalMember_eq (key : String) (encode : α → Json) (field : Option α) :
    optionalMember key encode field = (field.map encode).elim [] fun value => [(key, value)] := by
  cases field <;> rfl

/-- The title, version and description of an API come back; the description
may be left out. -/
theorem roundTrips_info : RoundTrips Info.encode Info.decode := by
  intro info
  obtain ⟨title, htitle, htitle'⟩ := roundTrips_text.mandatory info.title
  obtain ⟨description, hdescription, hdescription'⟩ :=
    roundTrips_text.optional rfl info.description
  obtain ⟨version, hversion, hversion'⟩ := roundTrips_text.mandatory info.version
  obtain ⟨form, hprints, hfields⟩ := exists_object
    [("title", some (.string info.title), title),
      ("description", info.description.map .string, description),
      ("version", some (.string info.version), version)]
    (by simp) (by simp [Field.Shown, htitle, hdescription, hversion])
  refine ⟨form, ?_, ?_⟩
  · simpa [present, Info.encode, optionalMember_eq] using hprints
  · simp only [List.map_cons, List.map_nil] at hfields
    simp [Info.decode, hfields, htitle', hdescription', hversion']

/-- A parameter comes back with all its fields, the ones left out included. -/
theorem roundTrips_parameterItem : RoundTrips ParameterItem.encode ParameterItem.decode := by
  intro p
  obtain ⟨name, hname, hname'⟩ := roundTrips_text.mandatory p.name
  obtain ⟨location, hlocation, hlocation'⟩ := roundTrips_text.mandatory p.location
  obtain ⟨required, hrequired, hrequired'⟩ := roundTrips_bool.mandatory p.required
  obtain ⟨type, htype, htype'⟩ := roundTrips_text.mandatory p.type
  obtain ⟨description, hdescription, hdescription'⟩ := roundTrips_text.mandatory p.description
  obtain ⟨operationId, hoperationId, hoperationId'⟩ := roundTrips_text.mandatory p.operationId
  obtain ⟨default, hdefault, hdefault'⟩ := roundTrips_text.optional rfl p.default
  obtain ⟨form, hprints, hfields⟩ := exists_object
    [("name", some (.string p.name), name), ("in", some (.string p.location), location),
      ("required", some (.bool p.required), required), ("type", some (.string p.type), type),
      ("description", some (.string p.description), description),
      ("operationId", some (.string p.operationId), operationId),
      ("default", p.default.map .string, default)]
    (by simp)
    (by simp [Field.Shown, hname, hlocation, hrequired, htype, hdescription, hoperationId,
      hdefault])
  refine ⟨form, ?_, ?_⟩
  · simpa [present, ParameterItem.encode, optionalMember_eq] using hprints
  · simp only [List.map_cons, List.map_nil] at hfields
    simp [ParameterItem.decode, hfields, hname', hlocation', hrequired', htype', hdescription',
      hoperationId', hdefault']

/-- A response comes back: it has nothing but a description. -/
theorem roundTrips_response : RoundTrips Response.encode Response.decode := by
  intro r
  obtain ⟨description, hdescription, hdescription'⟩ := roundTrips_text.mandatory r.description
  obtain ⟨form, hprints, hfields⟩ := exists_object
    [("description", some (.string r.description), description)]
    (by simp) (by simp [Field.Shown, hdescription])
  refine ⟨form, ?_, ?_⟩
  · simpa [present, Response.encode] using hprints
  · simp only [List.map_cons, List.map_nil] at hfields
    simp [Response.decode, hfields, hdescription']

/-- Lists of texts come back: the media types of a document or of an
operation. -/
theorem roundTrips_texts : RoundTrips encodeTexts (decodeList decodeText) := roundTrips_text.list

/-- Lists of parameters come back. -/
theorem roundTrips_parameters :
    RoundTrips encodeParameters (decodeList ParameterItem.decode) :=
  roundTrips_parameterItem.list

/-- An operation comes back with its texts, its parameters and its responses. -/
theorem roundTrips_operation : RoundTrips Operation.encode Operation.decode := by
  intro op
  obtain ⟨summary, hsummary, hsummary'⟩ := roundTrips_text.mandatory op.summary
  obtain ⟨description, hdescription, hdescription'⟩ := roundTrips_text.mandatory op.description
  obtain ⟨operationId, hoperationId, hoperationId'⟩ := roundTrips_text.mandatory op.operationId
  obtain ⟨produces, hproduces, hproduces'⟩ := roundTrips_texts.mandatory op.produces
  obtain ⟨parameters, hparameters, hparameters'⟩ :=
    roundTrips_parameters.optional rfl op.parameters
  obtain ⟨responses, hresponses, hresponses'⟩ := roundTrips_response.map.mandatory op.responses
  obtain ⟨form, hprints, hfields⟩ := exists_object
    [("summary", some (.string op.summary), summary),
      ("description", some (.string op.description), description),
      ("operationId", some (.string op.operationId), operationId),
      ("produces", some (encodeTexts op.produces), produces),
      ("parameters", op.parameters.map encodeParameters, parameters),
      ("responses", some (encodeMap Response.encode op.responses), responses)]
    (by simp)
    (by simp [Field.Shown, hsummary, hdescription, hoperationId, hproduces, hparameters,
      hresponses])
  refine ⟨form, ?_, ?_⟩
  · simpa [present, Operation.encode, optionalMember_eq] using hprints
  · simp only [List.map_cons, List.map_nil] at hfields
    simp [Operation.decode, hfields, hsummary', hdescription', hoperationId', hproduces',
      hparameters', hresponses']

/-- The operations and the shared parameters of one path come back. A verb
without an operation is left out of the text, and read as a verb without an
operation. -/
theorem roundTrips_pathItem : RoundTrips PathItem.encode PathItem.decode := by
  intro item
  obtain ⟨get, hget, hget'⟩ := roundTrips_operation.optional rfl item.get
  obtain ⟨post, hpost, hpost'⟩ := roundTrips_operation.optional rfl item.post
  obtain ⟨put, hput, hput'⟩ := roundTrips_operation.optional rfl item.put
  obtain ⟨delete, hdelete, hdelete'⟩ := roundTrips_operation.optional rfl item.delete
  obtain ⟨parameters, hparameters, hparameters'⟩ :=
    roundTrips_parameters.optional rfl item.parameters
  obtain ⟨form, hprints, hfields⟩ := exists_object
    [("get", item.get.map Operation.encode, get), ("post", item.post.map Operation.encode, post),
      ("put", item.put.map Operation.encode, put),
      ("delete", item.delete.map Operation.encode, delete),
      ("parameters", item.parameters.map encodeParameters, parameters)]
    (by simp) (by simp [Field.Shown, hget, hpost, hput, hdelete, hparameters])
  refine ⟨form, ?_, ?_⟩
  · simpa [present, PathItem.encode, optionalMember_eq] using hprints
  · simp only [List.map_cons, List.map_nil] at hfields
    simp [PathItem.decode, hfields, hget', hpost', hput', hdelete', hparameters']

/-- A whole document comes back, field by field. -/
theorem roundTrips_document : RoundTrips Document.encode Document.decode := by
  intro d
  obtain ⟨swagger, hswagger, hswagger'⟩ := roundTrips_text.mandatory d.swagger
  obtain ⟨host, hhost, hhost'⟩ := roundTrips_text.mandatory d.host
  obtain ⟨basePath, hbasePath, hbasePath'⟩ := roundTrips_text.mandatory d.basePath
  obtain ⟨produces, hproduces, hproduces'⟩ := roundTrips_texts.mandatory d.produces
  obtain ⟨info, hinfo, hinfo'⟩ := roundTrips_info.mandatory d.info
  obtain ⟨paths, hpaths, hpaths'⟩ := roundTrips_pathItem.map.mandatory d.paths
  obtain ⟨form, hprints, hfields⟩ := exists_object
    [("swagger", some (.string d.swagger), swagger), ("host", some (.string d.host), host),
      ("basePath", some (.string d.basePath), basePath),
      ("produces", some (encodeTexts d.produces), produces), ("info", some d.info.encode, info),
      ("paths", some (encodeMap PathItem.encode d.paths), paths)]
    (by simp) (by simp [Field.Shown, hswagger, hhost, hbasePath, hproduces, hinfo, hpaths])
  refine ⟨form, ?_, ?_⟩
  · simpa [present, Document.encode] using hprints
  · simp only [List.map_cons, List.map_nil] at hfields
    simp [Document.decode, hfields, hswagger', hhost', hbasePath', hproduces', hinfo', hpaths']

/-! ### Texts -/

/-- Every document is read back from its own text, with nothing lost and
nothing reordered. There is no condition on the texts in it: whatever has to
be escaped is escaped by the printer and read back by the parser. -/
theorem parse_pretty (d : Document) : Document.parse d.encode.pretty = some d := by
  obtain ⟨form, hprints, hdecode⟩ := roundTrips_document d
  rw [Document.parse, parseForm_pretty hprints, Option.bind_some, hdecode]

/-- Every document is read back from its text just as it was, with the
same findings. A text that can be read as a document need not be the text
of a document, but the text of what has been read is read and written
again without a change. -/
theorem parse_pretty_and_stable :
    (∀ d : Document, Document.parse d.encode.pretty = some d ∧
      (Document.parse d.encode.pretty).map findings = some (findings d)) ∧
    ∀ (text : String) (d : Document), Document.parse text = some d →
      (Document.parse d.encode.pretty).map (fun d' => d'.encode.pretty)
        = some d.encode.pretty := by
  refine ⟨fun d => ⟨parse_pretty d, ?_⟩, fun text d _ => ?_⟩
  · rw [parse_pretty, Option.map_some]
  · rw [parse_pretty, Option.map_some]

/-- A document with characters that have to be escaped, and with a list of
parameters that is there but empty. -/
def escapedDocument : Document where
  swagger := "2\\0"
  host := "\"\x01\t\x7f\u2028"
  basePath := ""
  produces := []
  info := { title := "/", description := none, version := "\x1f" }
  paths :=
    { entries := [("/\n", { PathItem.empty with parameters := some [] }), ("/", .empty)]
      distinct := by decide }

/-- The same document as an array, with escapes that need not be, a member
that is null and one that is no field. -/
def escapedDocumentText : String :=
  "[\"2\\u005C0\",\"\\\"\\u0001\\t\x7f\\u2028\",\"\",[],"
    ++ "\x7b\"version\":\"\\u001F\",\"description\":null,\"title\":\"\\/\"\x7d,"
    ++ "\x7b\"/\\n\":\x7b\"parameters\":[],\"put\":null\x7d,\"/\":\x7b\"x\":[1e9]\x7d\x7d]"

/-- A document written as an array, with escapes that the printer would not
write, with members in another order and with `null` for a field left out: it
is read, it survives being printed, and its printed form no longer changes. -/
theorem parse_pretty_escapedDocument :
    Document.parse escapedDocumentText = some escapedDocument ∧
    Document.parse escapedDocument.encode.pretty = some escapedDocument ∧
    (Document.parse escapedDocument.encode.pretty).map (fun d => d.encode.pretty)
      = some escapedDocument.encode.pretty := by
  have hread : Document.parse escapedDocumentText = some escapedDocument := by decide +kernel
  obtain ⟨hsurvives, hstable⟩ := parse_pretty_and_stable
  exact ⟨hread, (hsurvives escapedDocument).1, hstable escapedDocumentText escapedDocument hread⟩

end RouteDoc.OpenApi
