import StatusRelay.WorkStatus
import StatusRelay.Proofs.MetadataCodec

/-!
# Status records that are read and written again

A document that is read as a status record and written again keeps what the record is about: the
status of the object as it is, the six texts of its source, the generation that was applied and
the instant of the last change. The version and kind of the document are kept if it states each of
them once and as a text; otherwise both are dropped. From then on nothing changes any more.
-/
namespace StatusRelay

open Json

/-! ## The source -/

namespace SourceRef

def names : List String := ["group", "version", "resource", "kind", "name", "namespace"]

/-- The text of a field. -/
def text (r : SourceRef) : String → String
  | "group" => r.group
  | "version" => r.version
  | "resource" => r.resource
  | "kind" => r.kind
  | "name" => r.name
  | "namespace" => r.ns
  | _ => ""

def members (r : SourceRef) : List (String × Option Json) :=
  [("group", some (.str r.group)), ("version", unlessEmpty r.version),
    ("resource", unlessEmpty r.resource), ("kind", unlessEmpty r.kind),
    ("name", unlessEmpty r.name), ("namespace", some (.str r.ns))]

theorem ofJson_eq_ok_iff {j : Json} {r : SourceRef} :
    ofJson j = .ok r ↔ ∃ fs, asRecord names j = .ok fs ∧
      ∀ name ∈ names, withDefault "" name asText fs = .ok (r.text name) := by
  simp only [names, List.forall_mem_cons, List.not_mem_nil, false_imp_iff, implies_true, and_true,
    text]
  constructor
  · intro h
    obtain ⟨fs, hfs, h⟩ := bind_eq_ok_iff.mp h
    obtain ⟨group, hgroup, h⟩ := bind_eq_ok_iff.mp h
    obtain ⟨version, hversion, h⟩ := bind_eq_ok_iff.mp h
    obtain ⟨resource, hresource, h⟩ := bind_eq_ok_iff.mp h
    obtain ⟨kind, hkind, h⟩ := bind_eq_ok_iff.mp h
    obtain ⟨name, hname, h⟩ := bind_eq_ok_iff.mp h
    obtain ⟨ns, hns, h⟩ := bind_eq_ok_iff.mp h
    cases h
    exact ⟨fs, hfs, hgroup, hversion, hresource, hkind, hname, hns⟩
  · rintro ⟨fs, hfs, hgroup, hversion, hresource, hkind, hname, hns⟩
    simp only [ofJson, hfs, hgroup, hversion, hresource, hkind, hname, hns, bind, Except.bind]
    rfl

theorem withDefault_text {name s : String} {fs : List (String × Json)} :
    withDefault "" name asText fs = .ok s ↔ (lastOf name fs).getD (.str "") = .str s := by
  unfold withDefault
  cases lastOf name fs with
  | none => simp
  | some j =>
      cases j with
      | str s' => simp [asText]
      | null | bool | int | float | arr | obj | faulty => simp [asText]

theorem text_of_ofJson {j : Json} {r : SourceRef} (h : ofJson j = .ok r) :
    ∀ name ∈ names, (field? names name j).getD (.str "") = .str (r.text name) := by
  obtain ⟨fs, hfs, htexts⟩ := ofJson_eq_ok_iff.mp h
  intro name hname
  rw [← lastOf_of_asRecord hfs]
  exact withDefault_text.mp (htexts name hname)

theorem getD_unlessEmpty (s : String) : (unlessEmpty s).getD (.str "") = .str s := by
  unfold unlessEmpty
  split
  · rename_i hempty
    rw [hempty]
    rfl
  · rfl

/-- A source is read as it was written. -/
theorem ofJson_toJson (r : SourceRef) : ofJson r.toJson = .ok r := by
  have hnames : (r.members.map Prod.fst).Nodup := by simp [members]
  refine ofJson_eq_ok_iff.mpr ⟨present r.members, checkedMembers_present hnames names, ?_⟩
  intro name hname
  rw [withDefault_text, lastOf_present]
  simp only [names, List.mem_cons, List.not_mem_nil, or_false] at hname
  rcases hname with rfl | rfl | rfl | rfl | rfl | rfl
  all_goals simp [members, fieldOf, text, getD_unlessEmpty]

end SourceRef

/-! ## The details -/

namespace StatusDetails

def names : List String := ["lastGeneration", "lastGenerationIsApplied", "lastCurrencyUpdateTime"]

def members (d : StatusDetails) : List (String × Option Json) :=
  [("lastGeneration", some (.int d.lastGeneration)),
    ("lastGenerationIsApplied", some (.bool d.lastGenerationIsApplied)),
    ("lastCurrencyUpdateTime", some (.str d.lastCurrencyUpdateTime.text))]

theorem ofJson_eq_ok_iff {j : Json} {d : StatusDetails} :
    ofJson j = .ok d ↔ ∃ fs, asRecord names j = .ok fs ∧
      needed "lastGeneration" asInt64 fs = .ok d.lastGeneration ∧
      needed "lastGenerationIsApplied" asBool fs = .ok d.lastGenerationIsApplied ∧
      needed "lastCurrencyUpdateTime" asInstant fs = .ok d.lastCurrencyUpdateTime := by
  constructor
  · intro h
    obtain ⟨fs, hfs, h⟩ := bind_eq_ok_iff.mp h
    obtain ⟨generation, hgeneration, h⟩ := bind_eq_ok_iff.mp h
    obtain ⟨applied, happlied, h⟩ := bind_eq_ok_iff.mp h
    obtain ⟨time, htime, h⟩ := bind_eq_ok_iff.mp h
    cases h
    exact ⟨fs, hfs, hgeneration, happlied, htime⟩
  · rintro ⟨fs, hfs, hgeneration, happlied, htime⟩
    rw [names] at hfs
    simp only [ofJson, hfs, hgeneration, happlied, htime, bind, Except.bind]
    rfl

/-- What the fields of a document say. -/
theorem fields_of_ofJson {j : Json} {d : StatusDetails} (h : ofJson j = .ok d) :
    field? names "lastGeneration" j = some (.int d.lastGeneration) ∧
      field? names "lastGenerationIsApplied" j = some (.bool d.lastGenerationIsApplied) ∧
      ∃ text, field? names "lastCurrencyUpdateTime" j = some (.str text) ∧
        Instant.parse? text = some d.lastCurrencyUpdateTime := by
  obtain ⟨fs, hfs, hgeneration, happlied, htime⟩ := ofJson_eq_ok_iff.mp h
  obtain ⟨g, hg, hgeneration⟩ := needed_eq_ok_iff.mp hgeneration
  obtain ⟨a, ha, happlied⟩ := needed_eq_ok_iff.mp happlied
  obtain ⟨t, ht, htime⟩ := needed_eq_ok_iff.mp htime
  obtain ⟨rfl, -⟩ := asIntWithin_eq_ok_iff.mp hgeneration
  obtain ⟨text, rfl, hparse⟩ := asInstant_eq_ok_iff.mp htime
  rw [lastOf_of_asRecord hfs] at hg ha ht
  refine ⟨hg, ?_, text, ht, hparse⟩
  cases a with
  | bool b =>
      cases happlied
      exact ha
  | null | int | float | str | arr | obj | faulty => cases happlied

/-- A time that a text names, and a generation of 64 bits. -/
structure Readable (d : StatusDetails) : Prop where
  generation : asInt64 (.int d.lastGeneration) = .ok d.lastGeneration
  time : ∃ text, Instant.parse? text = some d.lastCurrencyUpdateTime

theorem readable_of_ofJson {j : Json} {d : StatusDetails} (h : ofJson j = .ok d) :
    d.Readable := by
  obtain ⟨fs, -, hgeneration, -⟩ := ofJson_eq_ok_iff.mp h
  obtain ⟨g, -, hgeneration⟩ := needed_eq_ok_iff.mp hgeneration
  obtain ⟨rfl, -⟩ := asIntWithin_eq_ok_iff.mp hgeneration
  obtain ⟨-, -, text, -, hparse⟩ := fields_of_ofJson h
  exact ⟨hgeneration, text, hparse⟩

theorem parse?_epoch : Instant.parse? "1970-01-01T00:00:00Z" = some Instant.epoch := by cbv

theorem readable_default : Readable {} := ⟨rfl, _, parse?_epoch⟩

/-- Details are read as they were written. -/
theorem Readable.ofJson_toJson {d : StatusDetails} (h : d.Readable) : ofJson d.toJson = .ok d := by
  obtain ⟨hgeneration, text, hparse⟩ := h
  have hnames : (d.members.map Prod.fst).Nodup := by simp [members]
  refine ofJson_eq_ok_iff.mpr ⟨present d.members, checkedMembers_present hnames names, ?_⟩
  refine ⟨needed_eq_ok_iff.mpr ⟨.int d.lastGeneration, ?_, hgeneration⟩,
    needed_eq_ok_iff.mpr ⟨.bool d.lastGenerationIsApplied, ?_, rfl⟩,
    needed_eq_ok_iff.mpr ⟨.str d.lastCurrencyUpdateTime.text, ?_,
      asInstant_eq_ok_iff.mpr ⟨_, rfl, Instant.parse?_text hparse⟩⟩⟩
  all_goals simp [lastOf_present, members, fieldOf]

end StatusDetails

namespace TypeMeta

theorem ofMembers?_eq_some_iff {ms : List (String × Json)} {version kind : String} :
    ofMembers? ms = some ⟨version, kind⟩ ↔ countOf "apiVersion" ms = 1 ∧ countOf "kind" ms = 1 ∧
      lastOf "apiVersion" ms = some (.str version) ∧ lastOf "kind" ms = some (.str kind) := by
  unfold ofMembers?
  constructor
  · intro h
    split at h
    · rename_i hcounts
      split at h
      · rename_i hversion hkind
        cases h
        exact ⟨hcounts.1, hcounts.2, hversion, hkind⟩
      · cases h
    · cases h
  · rintro ⟨hversions, hkinds, hversion, hkind⟩
    rw [if_pos ⟨hversions, hkinds⟩, hversion, hkind]

end TypeMeta

/-! ## The whole record -/

namespace WorkStatus

def members (w : WorkStatus) : List (String × Option Json) :=
  [("apiVersion", w.types.map fun t => .str t.apiVersion),
    ("kind", w.types.map fun t => .str t.kind),
    ("metadata", some w.metadata.toJson),
    ("spec", some (.obj [("sourceRef", w.source.toJson)])),
    ("status", w.status),
    ("statusDetails", some w.details.toJson)]

theorem ofJson_eq_ok_iff {j : Json} {w : WorkStatus} :
    ofJson j = .ok w ↔ ∃ ms, checkedMembers fieldNames j = .ok ms ∧
      checkOthers fieldNames ms = .ok () ∧ w.types = TypeMeta.ofMembers? ms ∧
      withDefault {} "metadata" Metadata.ofJson ms = .ok w.metadata ∧
      withDefault {} "spec" sourceOfJson ms = .ok w.source ∧
      present? "status" asOpaque ms = .ok w.status ∧
      withDefault {} "statusDetails" StatusDetails.ofJson ms = .ok w.details := by
  constructor
  · intro h
    obtain ⟨ms, hms, h⟩ := bind_eq_ok_iff.mp h
    obtain ⟨_, hothers, h⟩ := bind_eq_ok_iff.mp h
    obtain ⟨metadata, hmetadata, h⟩ := bind_eq_ok_iff.mp h
    obtain ⟨source, hsource, h⟩ := bind_eq_ok_iff.mp h
    obtain ⟨status, hstatus, h⟩ := bind_eq_ok_iff.mp h
    obtain ⟨details, hdetails, h⟩ := bind_eq_ok_iff.mp h
    cases h
    exact ⟨ms, hms, hothers, rfl, hmetadata, hsource, hstatus, hdetails⟩
  · rintro ⟨ms, hms, hothers, htypes, hmetadata, hsource, hstatus, hdetails⟩
    obtain ⟨types, metadata, source, status, details⟩ := w
    cases htypes
    simp only [ofJson, hms, hothers, hmetadata, hsource, hstatus, hdetails, bind, Except.bind]
    rfl

theorem sourceOfJson_eq_ok_iff {j : Json} {r : SourceRef} :
    sourceOfJson j = .ok r ↔ ∃ fs, asRecord ["sourceRef"] j = .ok fs ∧
      ∃ source, lastOf "sourceRef" fs = some source ∧ SourceRef.ofJson source = .ok r := by
  unfold sourceOfJson
  rw [bind_eq_ok_iff]
  simp only [needed_eq_ok_iff]

/-! ## What a document says -/

/-- A text of the source, or nothing where it is left out. -/
def sourceField? (name : String) (j : Json) : Option Json :=
  (member? "spec" j).bind fun spec =>
    (field? ["sourceRef"] "sourceRef" spec).bind (field? SourceRef.names name)

def detailField? (name : String) (j : Json) : Option Json :=
  (member? "statusDetails" j).bind (field? StatusDetails.names name)

/-- The status; null counts as none. -/
def statusOf? (j : Json) : Option Json :=
  match member? "status" j with
  | some .null => none
  | found => found

/-- The document states version and kind, each once. -/
def States (j : Json) (version kind : String) : Prop :=
  ∃ ms, j = .obj ms ∧ countOf "apiVersion" ms = 1 ∧ countOf "kind" ms = 1 ∧
    lastOf "apiVersion" ms = some (.str version) ∧ lastOf "kind" ms = some (.str kind)

section

variable {j : Json} {w : WorkStatus}

theorem states_iff (h : ofJson j = .ok w) (version kind : String) :
    States j version kind ↔ w.types = some ⟨version, kind⟩ := by
  obtain ⟨ms, hms, -, htypes, -⟩ := ofJson_eq_ok_iff.mp h
  obtain ⟨rfl, -⟩ := checkedMembers_eq_ok_iff.mp hms
  rw [htypes, TypeMeta.ofMembers?_eq_some_iff]
  constructor
  · rintro ⟨_, ⟨⟩, hstates⟩
    exact hstates
  · exact fun hstates => ⟨ms, rfl, hstates⟩

theorem source_of_ofJson (h : ofJson j = .ok w) : ∀ name ∈ SourceRef.names,
    (sourceField? name j).getD (.str "") = .str (w.source.text name) := by
  obtain ⟨ms, hms, -, -, -, hsource, -⟩ := ofJson_eq_ok_iff.mp h
  obtain ⟨rfl, -⟩ := checkedMembers_eq_ok_iff.mp hms
  intro name hname
  rcases withDefault_eq_ok_iff.mp hsource with ⟨hnone, hdefault⟩ | ⟨spec, hspec, hsource⟩
  · have hempty : w.source.text name = "" := by
      rw [hdefault]
      unfold SourceRef.text
      split <;> rfl
    rw [sourceField?, member?, hnone, hempty]
    rfl
  · obtain ⟨fs, hfs, source, hlast, hread⟩ := sourceOfJson_eq_ok_iff.mp hsource
    rw [lastOf_of_asRecord hfs] at hlast
    rw [sourceField?, member?, hspec, Option.bind_some, hlast, Option.bind_some]
    exact SourceRef.text_of_ofJson hread name hname

theorem status_of_ofJson (h : ofJson j = .ok w) : Option.Rel Agrees (statusOf? j) w.status := by
  obtain ⟨ms, hms, -, -, -, -, hstatus, -⟩ := ofJson_eq_ok_iff.mp h
  obtain ⟨rfl, hcounts⟩ := checkedMembers_eq_ok_iff.mp hms
  rw [present?_eq asOpaque (hcounts "status" (by decide))] at hstatus
  rw [statusOf?, member?]
  generalize w.status = copy at hstatus
  cases hlast : lastOf "status" ms with
  | none =>
      rw [hlast] at hstatus
      cases hstatus
      exact .none
  | some status =>
      rw [hlast] at hstatus
      dsimp only at hstatus
      by_cases hnull : status = .null
      · subst hnull
        cases hstatus
        exact .none
      · rw [asOptional_of_ne asOpaque hnull] at hstatus
        cases hread : asOpaque status with
        | error e =>
            rw [hread] at hstatus
            cases hstatus
        | ok c =>
            rw [hread] at hstatus
            cases hstatus
            obtain ⟨hsound, rfl⟩ := asOpaque_eq_ok_iff.mp hread
            have hagrees := agrees_canonical status hsound
            cases status with
            | null => exact absurd rfl hnull
            | bool | int | float | str | arr | obj | faulty => exact .some hagrees

theorem details_of_ofJson (h : ofJson j = .ok w) :
    (detailField? "lastGeneration" j).getD (.int 0) = .int w.details.lastGeneration ∧
      (detailField? "lastGenerationIsApplied" j).getD (.bool false) =
        .bool w.details.lastGenerationIsApplied ∧
      ∃ text, (detailField? "lastCurrencyUpdateTime" j).getD (.str "1970-01-01T00:00:00Z") =
          .str text ∧
        Instant.parse? text = some w.details.lastCurrencyUpdateTime := by
  obtain ⟨ms, hms, -, -, -, -, -, hdetails⟩ := ofJson_eq_ok_iff.mp h
  obtain ⟨rfl, -⟩ := checkedMembers_eq_ok_iff.mp hms
  rcases withDefault_eq_ok_iff.mp hdetails with ⟨hnone, hdefault⟩ | ⟨details, hlast, hread⟩
  · simp only [detailField?, member?, hnone, hdefault]
    exact ⟨rfl, rfl, _, rfl, StatusDetails.parse?_epoch⟩
  · obtain ⟨hgeneration, happlied, text, htext, hparse⟩ := StatusDetails.fields_of_ofJson hread
    simp only [detailField?, member?, hlast, Option.bind_some, hgeneration, happlied, htext]
    exact ⟨rfl, rfl, text, rfl, hparse⟩

/-! ## What is written -/

theorem lastOf_members (w : WorkStatus) (name : String) :
    member? name w.toJson = fieldOf name w.members := lastOf_present name w.members

theorem detailField?_toJson (w : WorkStatus) (name : String) :
    detailField? name w.toJson = fieldOf name w.details.members := by
  have hdetails : member? "statusDetails" w.toJson = some w.details.toJson := by
    simp [lastOf_members, members, fieldOf]
  rw [detailField?, hdetails]
  exact lastOf_present name w.details.members

theorem ofMembers?_members (w : WorkStatus) :
    TypeMeta.ofMembers? (present w.members) = w.types := by
  have hnames : (w.members.map Prod.fst).Nodup := by simp [members]
  have hversion : fieldOf "apiVersion" w.members = w.types.map fun t => .str t.apiVersion := by
    simp [members, fieldOf]
  have hkind : fieldOf "kind" w.members = w.types.map fun t => .str t.kind := by
    simp [members, fieldOf]
  cases htypes : w.types with
  | none =>
      rw [htypes] at hversion
      by_contra hne
      obtain ⟨⟨version, kind⟩, hsome⟩ := Option.ne_none_iff_exists'.mp hne
      have hlast := (TypeMeta.ofMembers?_eq_some_iff.mp hsome).2.2.1
      rw [lastOf_present, hversion] at hlast
      cases hlast
  | some t =>
      rw [htypes] at hversion hkind
      refine TypeMeta.ofMembers?_eq_some_iff.mpr ⟨countOf_present_eq_one hnames hversion,
        countOf_present_eq_one hnames hkind, ?_, ?_⟩
      · rw [lastOf_present, hversion]
        rfl
      · rw [lastOf_present, hkind]
        rfl

/-- A record that was read is read again from what is written for it, up to what has changed in
its metadata. -/
theorem ofJson_toJson (h : ofJson j = .ok w) : ∃ metadata, metadata.toJson = w.metadata.toJson ∧
    ofJson w.toJson = .ok { w with metadata := metadata } := by
  obtain ⟨ms, hms, -, htypes, hmetadata, hsource, hstatus, hdetails⟩ := ofJson_eq_ok_iff.mp h
  have hnames : (w.members.map Prod.fst).Nodup := by simp [members]
  -- Where a part is missing in the document, the default is what is written and read again.
  have hmetadata' : ∃ metadata, Metadata.ofJson w.metadata.toJson = .ok metadata ∧
      metadata.toJson = w.metadata.toJson := by
    rcases withDefault_eq_ok_iff.mp hmetadata with ⟨-, hdefault⟩ | ⟨k, -, hread⟩
    · rw [hdefault]
      exact ⟨{}, rfl, rfl⟩
    · have hk : k ≠ .null := by
        rintro rfl
        cases hread
      exact (Metadata.rereads k w.metadata hk hread).2
  have hdetails' : w.details.Readable := by
    rcases withDefault_eq_ok_iff.mp hdetails with ⟨-, hdefault⟩ | ⟨k, -, hread⟩
    · rw [hdefault]
      exact StatusDetails.readable_default
    · exact StatusDetails.readable_of_ofJson hread
  obtain ⟨metadata, hreread, hwrites⟩ := hmetadata'
  refine ⟨metadata, hwrites, ofJson_eq_ok_iff.mpr ⟨present w.members,
    checkedMembers_present hnames fieldNames, ?_, ?_, ?_, ?_, ?_, ?_⟩⟩
  · refine checkOthers_present fun f hf => ?_
    simp only [members, List.mem_cons, List.not_mem_nil, or_false] at hf
    rcases hf with rfl | rfl | rfl | rfl | rfl | rfl
    · refine Or.inr fun v hv => ?_
      obtain ⟨t, -, rfl⟩ := Option.map_eq_some_iff.mp hv
      rfl
    · refine Or.inr fun v hv => ?_
      obtain ⟨t, -, rfl⟩ := Option.map_eq_some_iff.mp hv
      rfl
    all_goals exact Or.inl (by simp [fieldNames])
  · exact (ofMembers?_members w).symm
  · refine withDefault_eq_ok_iff.mpr (Or.inr ⟨w.metadata.toJson, ?_, hreread⟩)
    simp [lastOf_present, members, fieldOf]
  · refine withDefault_eq_ok_iff.mpr (Or.inr ⟨.obj [("sourceRef", w.source.toJson)], ?_, ?_⟩)
    · simp [lastOf_present, members, fieldOf]
    · exact sourceOfJson_eq_ok_iff.mpr
        ⟨[("sourceRef", w.source.toJson)], rfl, _, rfl, SourceRef.ofJson_toJson w.source⟩
  · have hfield : fieldOf "status" w.members = w.status.map id := by
      simp [members, fieldOf]
    refine present?_present hnames hfield fun c hc => ?_
    rw [hc] at hstatus
    obtain ⟨status, hnull, hread⟩ := present?_some hstatus
    obtain ⟨-, hcanonical⟩ := asOpaque_eq_ok_iff.mp hread
    refine ⟨?_, asOpaque_self hread⟩
    rw [← hcanonical]
    exact mt canonical_eq_null_iff.mp hnull
  · refine withDefault_eq_ok_iff.mpr (Or.inr ⟨w.details.toJson, ?_, hdetails'.ofJson_toJson⟩)
    simp [lastOf_present, members, fieldOf]

/-- What the second document has of the first. -/
structure Preserves (j k : Json) : Prop where
  status : Option.Rel Agrees (statusOf? j) (member? "status" k)
  source : ∀ name ∈ SourceRef.names, ∃ text, (sourceField? name j).getD (.str "") = .str text ∧
    (sourceField? name k).getD (.str "") = .str text
  generation : ∃ n, (detailField? "lastGeneration" j).getD (.int 0) = .int n ∧
    detailField? "lastGeneration" k = some (.int n)
  applied : ∃ b, (detailField? "lastGenerationIsApplied" j).getD (.bool false) = .bool b ∧
    detailField? "lastGenerationIsApplied" k = some (.bool b)
  updated : ∃ read written t,
    (detailField? "lastCurrencyUpdateTime" j).getD (.str "1970-01-01T00:00:00Z") = .str read ∧
    detailField? "lastCurrencyUpdateTime" k = some (.str written) ∧
    Instant.Named read t ∧ Instant.Named written t
  types : ∀ version kind, States j version kind ↔ States k version kind
  untyped : (∀ version kind, ¬ States j version kind) →
    member? "apiVersion" k = none ∧ member? "kind" k = none

/-- A document that is read and written again keeps what the record is about, and is read and
written unchanged from then on. -/
theorem written_as_it_was_read (h : ofJson j = .ok w) :
    Preserves j w.toJson ∧ ∃ w', ofJson w.toJson = .ok w' ∧ w'.toJson = w.toJson := by
  obtain ⟨metadata, hmetadata, hk⟩ := ofJson_toJson h
  have hsettled : ({ w with metadata := metadata } : WorkStatus).toJson = w.toJson := by
    simp only [toJson, hmetadata]
  refine ⟨?_, _, hk, hsettled⟩
  have hstatus : member? "status" w.toJson = w.status := by
    simp [lastOf_members, members, fieldOf]
  obtain ⟨hgeneration, happlied, read, hread, hparse⟩ := details_of_ofJson h
  refine ⟨?_, ?_, ?_, ?_, ?_, ?_, ?_⟩
  · rw [hstatus]
    exact status_of_ofJson h
  · intro name hname
    exact ⟨_, source_of_ofJson h name hname, source_of_ofJson hk name hname⟩
  · refine ⟨_, hgeneration, ?_⟩
    simp [detailField?_toJson, StatusDetails.members, fieldOf]
  · refine ⟨_, happlied, ?_⟩
    simp [detailField?_toJson, StatusDetails.members, fieldOf]
  · refine ⟨read, w.details.lastCurrencyUpdateTime.text, _, hread, ?_,
      (Instant.parse?_eq_some_iff ..).mp hparse,
      (Instant.parse?_eq_some_iff ..).mp (Instant.parse?_text hparse)⟩
    simp [detailField?_toJson, StatusDetails.members, fieldOf]
  · intro version kind
    rw [states_iff h, states_iff hk]
  · intro huntyped
    have hnone : w.types = none := by
      by_contra hne
      obtain ⟨⟨version, kind⟩, hsome⟩ := Option.ne_none_iff_exists'.mp hne
      exact huntyped version kind ((states_iff h version kind).mpr hsome)
    simp [lastOf_members, members, fieldOf, hnone]

end

/-! ## Two documents -/

namespace Kettles

/-- The leap second at the end of 2016, in a place where the year is 2017 already. -/
def changed : String := "2017-01-01T1:59:60.25+02:00"

/-- A record with a source written as an array and a repeated member in its status. -/
def document : Json :=
  .obj [("kind", .str "WorkStatus"),
    ("metadata", .obj [("name", .str "kettle"), ("generation", .null)]),
    ("apiVersion", .str "control.kubestellar.io/v1alpha1"),
    ("spec", .obj [("sourceRef", .arr [.str "example.io", .str "v1"])]),
    ("status", .obj [("level", .int 1), ("lid", .obj [("open", .null)]), ("level", .float 0.5)]),
    ("statusDetails", .obj [("lastCurrencyUpdateTime", .str changed),
      ("lastGenerationIsApplied", .bool true), ("lastGeneration", .int 3)])]

def record : WorkStatus :=
  { types := some ⟨"control.kubestellar.io/v1alpha1", "WorkStatus"⟩
    metadata := { name := some "kettle" }
    source := { group := "example.io", version := "v1" }
    status := some (.obj [("level", .float 0.5), ("lid", .obj [("open", .null)])])
    details := ⟨3, true, ⟨1483228799, 1250000000⟩⟩ }

theorem read_changed : asInstant (.str changed) = .ok ⟨1483228799, 1250000000⟩ :=
  asInstant_eq_ok_iff.mpr ⟨changed, rfl, by decide +kernel⟩

theorem read_document : ofJson document = .ok record := by
  refine ofJson_eq_ok_iff.mpr ⟨_, rfl, rfl, rfl, rfl, rfl, rfl, ?_⟩
  refine withDefault_eq_ok_iff.mpr (Or.inr ⟨_, rfl, ?_⟩)
  exact StatusDetails.ofJson_eq_ok_iff.mpr ⟨_, rfl, rfl, rfl, read_changed⟩

theorem document_written : ∃ w, ofJson document = .ok w ∧ Preserves document w.toJson ∧
    ∃ w', ofJson w.toJson = .ok w' ∧ w'.toJson = w.toJson :=
  ⟨record, read_document, written_as_it_was_read read_document⟩

/-- A version that is no text is dropped, and the kind with it. -/
theorem version_of_no_text_dropped :
    let j : Json := .obj [("apiVersion", .int 5), ("kind", .str "WorkStatus")]
    ∃ w, ofJson j = .ok w ∧
      member? "apiVersion" j = some (.int 5) ∧ member? "kind" j = some (.str "WorkStatus") ∧
      member? "apiVersion" w.toJson = none ∧ member? "kind" w.toJson = none := by
  exact ⟨{}, rfl, rfl, rfl, rfl, rfl⟩

end Kettles

end WorkStatus

end StatusRelay
