import StatusRelay.Metadata
import StatusRelay.Proofs.Documents
import StatusRelay.Proofs.Timestamps

/-!
# Metadata that has been read

What is written for the metadata of an object that has been read is read again, and from then on
nothing changes any more. At the first writing members of other names go, times lose their
fractions, labels come in the order of their keys and null members are left out.
-/
namespace StatusRelay

open Json

/-! ## Times -/

theorem asInstant_eq_ok_iff {j : Json} {t : Instant} :
    asInstant j = .ok t ↔ ∃ text, j = .str text ∧ Instant.parse? text = some t := by
  cases j with
  | str text =>
      cases hparse : Instant.parse? text with
      | none => simp [asInstant, asText, bind, Except.bind, hparse]
      | some t' => simp [asInstant, asText, bind, Except.bind, hparse]
  | null | bool | int | float | arr | obj | faulty => exact ⟨nofun, nofun⟩

theorem rereads_instant : Rereads asInstant instantToSecond := by
  intro j t _ h
  obtain ⟨text, -, hparse⟩ := asInstant_eq_ok_iff.mp h
  refine ⟨nofun, t.toSecond, ?_, congrArg Json.str (Instant.textToSecond_toSecond t)⟩
  exact asInstant_eq_ok_iff.mpr ⟨_, rfl, Instant.parse?_textToSecond hparse⟩

/-! ## Labels -/

namespace Labels

/-- The keys increase. -/
def Sorted (entries : List (String × String)) : Prop := entries.Pairwise fun e f => e.1 < f.1

theorem mem_place {key value : String} {entries : List (String × String)} {e : String × String}
    (h : e ∈ place key value entries) : e = (key, value) ∨ e ∈ entries := by
  induction entries with
  | nil => exact Or.inl (List.mem_singleton.mp h)
  | cons f rest ih =>
      rw [place] at h
      split at h
      · exact (List.mem_cons.mp h).imp_right (List.mem_cons_of_mem f)
      · split at h
        · exact List.mem_cons.mp h
        · rcases List.mem_cons.mp h with rfl | he
          · exact Or.inr List.mem_cons_self
          · exact (ih he).imp_right (List.mem_cons_of_mem f)

theorem sorted_place {entries : List (String × String)} (h : Sorted entries) (key value : String) :
    Sorted (place key value entries) := by
  induction entries with
  | nil => exact List.pairwise_singleton ..
  | cons f rest ih =>
      obtain ⟨hf, hrest⟩ := List.pairwise_cons.mp h
      rw [place]
      split
      · rename_i heq
        exact List.pairwise_cons.mpr ⟨fun e he => heq ▸ hf e he, hrest⟩
      · rename_i hne
        split
        · rename_i hlt
          refine List.pairwise_cons.mpr ⟨fun e he => ?_, h⟩
          rcases List.mem_cons.mp he with rfl | he
          · exact hlt
          · exact lt_trans hlt (hf e he)
        · rename_i hlt
          refine List.pairwise_cons.mpr ⟨fun e he => ?_, ih hrest⟩
          rcases mem_place he with rfl | he
          · exact lt_of_le_of_ne (not_lt.mp hlt) hne
          · exact hf e he

theorem sorted_merge {l : Labels} (h : Sorted l.entries) (changes : Labels) :
    Sorted (l.merge changes).entries := by
  obtain ⟨entries⟩ := changes
  unfold merge
  induction entries generalizing l with
  | nil => exact h
  | cons e rest ih => exact ih (sorted_place h e.1 e.2)

theorem place_of_greatest {key value : String} {entries : List (String × String)}
    (h : ∀ e ∈ entries, e.1 < key) : place key value entries = entries ++ [(key, value)] := by
  induction entries with
  | nil => rfl
  | cons f rest ih =>
      have hlt := h f List.mem_cons_self
      rw [place, if_neg hlt.ne, if_neg hlt.asymm, ih fun e he => h e (List.mem_cons_of_mem f he)]
      rfl

/-- Entries in order are filed one behind the other. -/
theorem merge_of_sorted {before entries : List (String × String)}
    (h : Sorted (before ++ entries)) : merge ⟨before⟩ ⟨entries⟩ = ⟨before ++ entries⟩ := by
  induction entries generalizing before with
  | nil => simp [merge]
  | cons e rest ih =>
      have hbefore : ∀ f ∈ before, f.1 < e.1 := fun f hf =>
        (List.pairwise_append.mp h).2.2 f hf e List.mem_cons_self
      have happend : before ++ e :: rest = before ++ [e] ++ rest := by simp
      have hstep : merge ⟨before⟩ ⟨e :: rest⟩ = merge ⟨before ++ [e]⟩ ⟨rest⟩ := by
        rw [← place_of_greatest hbefore]
        rfl
      rw [happend] at h ⊢
      rw [hstep, ih h]

theorem rereads : Rereads ofJson toJson := by
  intro j l _ h
  obtain ⟨members, -, h⟩ := bind_eq_ok_iff.mp h
  obtain ⟨entries, -, h⟩ := bind_eq_ok_iff.mp h
  cases h
  refine ⟨nofun, ofList entries, ?_, rfl⟩
  have hsorted : Sorted (ofList entries).entries := sorted_merge .nil ⟨entries⟩
  have hmerge : ofList (ofList entries).entries = ofList entries := merge_of_sorted hsorted
  have hread : ∀ es : List (String × String),
      (es.map fun e => (e.1, Json.str e.2)).mapM (fun m => do
        let value ← asText m.2
        pure (m.1, value)) = (.ok es : Decoded (List (String × String))) := by
    intro es
    induction es with
    | nil => rfl
    | cons e es ih =>
        rw [List.map_cons, List.mapM_cons, ih]
        rfl
  simp only [ofJson, toJson, asMembers, bind_eq_ok_iff]
  refine ⟨_, rfl, _, hread _, ?_⟩
  rw [hmerge]
  rfl

end Labels

/-! ## Records within the metadata -/

namespace OwnerReference

def members (r : OwnerReference) : List (String × Option Json) :=
  [("apiVersion", some (.str r.apiVersion)),
    ("blockOwnerDeletion", r.blockOwnerDeletion.map .bool),
    ("controller", r.controller.map .bool),
    ("kind", some (.str r.kind)), ("name", some (.str r.name)), ("uid", some (.str r.uid))]

theorem ofJson_toJson (r : OwnerReference) : ofJson r.toJson = .ok r := by
  have hnames : (r.members.map Prod.fst).Nodup := by simp [members]
  have hflag : ∀ {name : String} {o : Option Bool}, fieldOf name r.members = o.map .bool →
      present? name asBool (present r.members) = .ok o :=
    fun hfield => present?_present hnames hfield fun _ _ => ⟨nofun, rfl⟩
  have hversion : presentOr "" "apiVersion" asText (present r.members) = .ok r.apiVersion :=
    presentOr_present hnames (by simp [members, fieldOf])
  have hblock : present? "blockOwnerDeletion" asBool (present r.members) =
      .ok r.blockOwnerDeletion := hflag (by simp [members, fieldOf])
  have hcontroller : present? "controller" asBool (present r.members) = .ok r.controller :=
    hflag (by simp [members, fieldOf])
  have hkind : presentOr "" "kind" asText (present r.members) = .ok r.kind :=
    presentOr_present hnames (by simp [members, fieldOf])
  have hname : presentOr "" "name" asText (present r.members) = .ok r.name :=
    presentOr_present hnames (by simp [members, fieldOf])
  have huid : presentOr "" "uid" asText (present r.members) = .ok r.uid :=
    presentOr_present hnames (by simp [members, fieldOf])
  have hmembers : asMembers r.toJson = .ok (present r.members) := rfl
  simp only [ofJson, hmembers, hversion, hblock, hcontroller, hkind, hname, huid, bind,
    Except.bind]
  rfl

theorem rereads : Rereads ofJson toJson := fun _ r _ _ =>
  ⟨ofPresent_ne_null _, r, ofJson_toJson r, rfl⟩

end OwnerReference

namespace ManagedFields

def members (f : ManagedFields) : List (String × Option Json) :=
  [("apiVersion", f.apiVersion.map .str), ("fieldsType", f.fieldsType.map .str),
    ("fieldsV1", f.fields), ("manager", f.manager.map .str), ("operation", f.operation.map .str),
    ("subresource", f.subresource.map .str), ("time", f.time.map instantToSecond)]

theorem ofJson_eq_ok_iff {j : Json} {f : ManagedFields} :
    ofJson j = .ok f ↔ ∃ ms, asMembers j = .ok ms ∧
      present? "apiVersion" asText ms = .ok f.apiVersion ∧
      present? "fieldsType" asText ms = .ok f.fieldsType ∧
      present? "fieldsV1" asOpaque ms = .ok f.fields ∧
      present? "manager" asText ms = .ok f.manager ∧
      present? "operation" asText ms = .ok f.operation ∧
      present? "subresource" asText ms = .ok f.subresource ∧
      present? "time" asInstant ms = .ok f.time := by
  constructor
  · intro h
    obtain ⟨ms, hms, h⟩ := bind_eq_ok_iff.mp h
    obtain ⟨apiVersion, hversion, h⟩ := bind_eq_ok_iff.mp h
    obtain ⟨fieldsType, htype, h⟩ := bind_eq_ok_iff.mp h
    obtain ⟨fields, hfields, h⟩ := bind_eq_ok_iff.mp h
    obtain ⟨manager, hmanager, h⟩ := bind_eq_ok_iff.mp h
    obtain ⟨operation, hoperation, h⟩ := bind_eq_ok_iff.mp h
    obtain ⟨subresource, hsubresource, h⟩ := bind_eq_ok_iff.mp h
    obtain ⟨time, htime, h⟩ := bind_eq_ok_iff.mp h
    cases h
    exact ⟨ms, hms, hversion, htype, hfields, hmanager, hoperation, hsubresource, htime⟩
  · rintro ⟨ms, hms, hversion, htype, hfields, hmanager, hoperation, hsubresource, htime⟩
    simp only [ofJson, hms, hversion, htype, hfields, hmanager, hoperation, hsubresource, htime,
      bind, Except.bind]
    rfl

theorem rereads : Rereads ofJson toJson := by
  intro j f _ h
  obtain ⟨ms, -, hversion, htype, hfields, hmanager, hoperation, hsubresource, htime⟩ :=
    ofJson_eq_ok_iff.mp h
  have hnames : (f.members.map Prod.fst).Nodup := by simp [members]
  obtain ⟨apiVersion, hversion, eversion⟩ :=
    rereads_text.present? hversion hnames (by simp [members, fieldOf])
  obtain ⟨fieldsType, htype, etype⟩ :=
    rereads_text.present? htype hnames (by simp [members, fieldOf])
  obtain ⟨fields, hfields, efields⟩ :=
    rereads_opaque.present? hfields hnames (by simp [members, fieldOf])
  obtain ⟨manager, hmanager, emanager⟩ :=
    rereads_text.present? hmanager hnames (by simp [members, fieldOf])
  obtain ⟨operation, hoperation, eoperation⟩ :=
    rereads_text.present? hoperation hnames (by simp [members, fieldOf])
  obtain ⟨subresource, hsubresource, esubresource⟩ :=
    rereads_text.present? hsubresource hnames (by simp [members, fieldOf])
  obtain ⟨time, htime, etime⟩ :=
    rereads_instant.present? htime hnames (by simp [members, fieldOf])
  simp only [Option.map_id, id_eq] at efields
  refine ⟨ofPresent_ne_null _,
    ⟨apiVersion, fieldsType, fields, manager, operation, subresource, time⟩,
    ofJson_eq_ok_iff.mpr ⟨present f.members, rfl, hversion, htype, hfields, hmanager, hoperation,
      hsubresource, htime⟩, ?_⟩
  simp only [toJson, eversion, etype, efields, emanager, eoperation, esubresource, etime]

end ManagedFields

namespace Metadata

theorem rereads_texts : Rereads (asListOf asText) ofTexts := rereads_text.listOf nofun

theorem rereads_managedFields : Rereads (asListOf ManagedFields.ofJson)
    fun fs => .arr (fs.map ManagedFields.toJson) := ManagedFields.rereads.listOf nofun

theorem rereads_ownerReferences : Rereads (asListOf OwnerReference.ofJson)
    fun rs => .arr (rs.map OwnerReference.toJson) := OwnerReference.rereads.listOf nofun

def members (m : Metadata) : List (String × Option Json) :=
  [("annotations", m.annotations.map Labels.toJson),
    ("creationTimestamp", m.creationTimestamp.map instantToSecond),
    ("deletionGracePeriodSeconds", m.deletionGracePeriodSeconds.map .int),
    ("deletionTimestamp", m.deletionTimestamp.map instantToSecond),
    ("finalizers", m.finalizers.map ofTexts),
    ("generateName", m.generateName.map .str),
    ("generation", m.generation.map .int),
    ("labels", m.labels.map Labels.toJson),
    ("managedFields", m.managedFields.map fun fs => .arr (fs.map ManagedFields.toJson)),
    ("name", m.name.map .str),
    ("namespace", m.ns.map .str),
    ("ownerReferences", m.ownerReferences.map fun rs => .arr (rs.map OwnerReference.toJson)),
    ("resourceVersion", m.resourceVersion.map .str),
    ("selfLink", m.selfLink.map .str),
    ("uid", m.uid.map .str)]

theorem ofJson_eq_ok_iff {j : Json} {m : Metadata} :
    ofJson j = .ok m ↔ ∃ ms, asMembers j = .ok ms ∧
      present? "annotations" Labels.ofJson ms = .ok m.annotations ∧
      present? "creationTimestamp" asInstant ms = .ok m.creationTimestamp ∧
      present? "deletionGracePeriodSeconds" asInt64 ms = .ok m.deletionGracePeriodSeconds ∧
      present? "deletionTimestamp" asInstant ms = .ok m.deletionTimestamp ∧
      present? "finalizers" (asListOf asText) ms = .ok m.finalizers ∧
      present? "generateName" asText ms = .ok m.generateName ∧
      present? "generation" asInt64 ms = .ok m.generation ∧
      present? "labels" Labels.ofJson ms = .ok m.labels ∧
      present? "managedFields" (asListOf ManagedFields.ofJson) ms = .ok m.managedFields ∧
      present? "name" asText ms = .ok m.name ∧
      present? "namespace" asText ms = .ok m.ns ∧
      present? "ownerReferences" (asListOf OwnerReference.ofJson) ms = .ok m.ownerReferences ∧
      present? "resourceVersion" asText ms = .ok m.resourceVersion ∧
      present? "selfLink" asText ms = .ok m.selfLink ∧
      present? "uid" asText ms = .ok m.uid := by
  constructor
  · intro h
    obtain ⟨ms, hms, h⟩ := bind_eq_ok_iff.mp h
    obtain ⟨annotations, hannotations, h⟩ := bind_eq_ok_iff.mp h
    obtain ⟨creationTimestamp, hcreated, h⟩ := bind_eq_ok_iff.mp h
    obtain ⟨deletionGracePeriodSeconds, hgrace, h⟩ := bind_eq_ok_iff.mp h
    obtain ⟨deletionTimestamp, hdeleted, h⟩ := bind_eq_ok_iff.mp h
    obtain ⟨finalizers, hfinalizers, h⟩ := bind_eq_ok_iff.mp h
    obtain ⟨generateName, hgenerateName, h⟩ := bind_eq_ok_iff.mp h
    obtain ⟨generation, hgeneration, h⟩ := bind_eq_ok_iff.mp h
    obtain ⟨labels, hlabels, h⟩ := bind_eq_ok_iff.mp h
    obtain ⟨managedFields, hmanaged, h⟩ := bind_eq_ok_iff.mp h
    obtain ⟨name, hname, h⟩ := bind_eq_ok_iff.mp h
    obtain ⟨ns, hns, h⟩ := bind_eq_ok_iff.mp h
    obtain ⟨ownerReferences, howners, h⟩ := bind_eq_ok_iff.mp h
    obtain ⟨resourceVersion, hversion, h⟩ := bind_eq_ok_iff.mp h
    obtain ⟨selfLink, hlink, h⟩ := bind_eq_ok_iff.mp h
    obtain ⟨uid, huid, h⟩ := bind_eq_ok_iff.mp h
    cases h
    exact ⟨ms, hms, hannotations, hcreated, hgrace, hdeleted, hfinalizers, hgenerateName,
      hgeneration, hlabels, hmanaged, hname, hns, howners, hversion, hlink, huid⟩
  · rintro ⟨ms, hms, hannotations, hcreated, hgrace, hdeleted, hfinalizers, hgenerateName,
    hgeneration, hlabels, hmanaged, hname, hns, howners, hversion, hlink, huid⟩
    simp only [ofJson, hms, hannotations, hcreated, hgrace, hdeleted, hfinalizers, hgenerateName,
      hgeneration, hlabels, hmanaged, hname, hns, howners, hversion, hlink, huid, bind,
      Except.bind]
    rfl

/-- The metadata that has been written is read again and is written no differently. -/
theorem rereads : Rereads ofJson toJson := by
  intro j m _ h
  obtain ⟨ms, -, hannotations, hcreated, hgrace, hdeleted, hfinalizers, hgenerateName,
    hgeneration, hlabels, hmanaged, hname, hns, howners, hversion, hlink, huid⟩ :=
    ofJson_eq_ok_iff.mp h
  have hnames : (m.members.map Prod.fst).Nodup := by simp [members]
  obtain ⟨annotations, hannotations, eannotations⟩ :=
    Labels.rereads.present? hannotations hnames (by simp [members, fieldOf])
  obtain ⟨creationTimestamp, hcreated, ecreated⟩ :=
    rereads_instant.present? hcreated hnames (by simp [members, fieldOf])
  obtain ⟨deletionGracePeriodSeconds, hgrace, egrace⟩ :=
    rereads_int64.present? hgrace hnames (by simp [members, fieldOf])
  obtain ⟨deletionTimestamp, hdeleted, edeleted⟩ :=
    rereads_instant.present? hdeleted hnames (by simp [members, fieldOf])
  obtain ⟨finalizers, hfinalizers, efinalizers⟩ :=
    rereads_texts.present? hfinalizers hnames (by simp [members, fieldOf])
  obtain ⟨generateName, hgenerateName, egenerateName⟩ :=
    rereads_text.present? hgenerateName hnames (by simp [members, fieldOf])
  obtain ⟨generation, hgeneration, egeneration⟩ :=
    rereads_int64.present? hgeneration hnames (by simp [members, fieldOf])
  obtain ⟨labels, hlabels, elabels⟩ :=
    Labels.rereads.present? hlabels hnames (by simp [members, fieldOf])
  obtain ⟨managedFields, hmanaged, emanaged⟩ :=
    rereads_managedFields.present? hmanaged hnames (by simp [members, fieldOf])
  obtain ⟨name, hname, ename⟩ :=
    rereads_text.present? hname hnames (by simp [members, fieldOf])
  obtain ⟨ns, hns, ens⟩ :=
    rereads_text.present? hns hnames (by simp [members, fieldOf])
  obtain ⟨ownerReferences, howners, eowners⟩ :=
    rereads_ownerReferences.present? howners hnames (by simp [members, fieldOf])
  obtain ⟨resourceVersion, hversion, eversion⟩ :=
    rereads_text.present? hversion hnames (by simp [members, fieldOf])
  obtain ⟨selfLink, hlink, elink⟩ :=
    rereads_text.present? hlink hnames (by simp [members, fieldOf])
  obtain ⟨uid, huid, euid⟩ :=
    rereads_text.present? huid hnames (by simp [members, fieldOf])
  refine ⟨ofPresent_ne_null _, ⟨annotations, creationTimestamp, deletionGracePeriodSeconds, deletionTimestamp,
    finalizers, generateName, generation, labels, managedFields, name, ns, ownerReferences,
    resourceVersion, selfLink, uid⟩,
    ofJson_eq_ok_iff.mpr ⟨present m.members, rfl, hannotations, hcreated, hgrace, hdeleted,
      hfinalizers, hgenerateName, hgeneration, hlabels, hmanaged, hname, hns, howners, hversion,
      hlink, huid⟩, ?_⟩
  simp only [toJson, eannotations, ecreated, egrace, edeleted, efinalizers, egenerateName,
    egeneration, elabels, emanaged, ename, ens, eowners, eversion, elink, euid]

end Metadata

end StatusRelay
