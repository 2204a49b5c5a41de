import StatusRelay.Json.Decode
import Mathlib

/-!
# Documents and their canonical form

Two documents agree if they have the same numbers, texts and nulls at the same places, whatever
the order of the members and whichever members are overridden by later ones of their key. A sound
document agrees with its canonical form, in which the keys of every object increase; so what is in
that form is not changed by being read and written as it is.

A document that was written from the fields of a record names each of them once at most. So its
reader finds what was written, in whichever way it looks for a field.
-/
namespace StatusRelay.Json

/-! ## Agreement -/

/-- The documents hold the same. -/
inductive Agrees : Json → Json → Prop
  | null : Agrees .null .null
  | bool (b : Bool) : Agrees (.bool b) (.bool b)
  | int (n : Int) : Agrees (.int n) (.int n)
  | float (x : Float) : Agrees (.float x) (.float x)
  | str (s : String) : Agrees (.str s) (.str s)
  | arr {as bs : List Json} : List.Forall₂ Agrees as bs → Agrees (.arr as) (.arr bs)
  | obj {ms ns : List (String × Json)} :
      (∀ key, Option.Rel Agrees (lastOf key ms) (lastOf key ns)) → Agrees (.obj ms) (.obj ns)

/-! ## Sorted members -/

/-- The keys increase, so no key is repeated. -/
def Sorted (ms : List (String × Json)) : Prop := ms.Pairwise fun m n => m.1 < n.1

theorem mem_placeMember {key : String} {value : Json} {ms : List (String × Json)}
    {m : String × Json} (h : m ∈ placeMember key value ms) : m = (key, value) ∨ m ∈ ms := by
  induction ms with
  | nil => exact Or.inl (List.mem_singleton.mp h)
  | cons n ms ih =>
      rw [placeMember] at h
      split at h
      · exact List.mem_cons.mp h
      · split at h
        · exact Or.inr h
        · rcases List.mem_cons.mp h with rfl | hm
          · exact Or.inr List.mem_cons_self
          · exact (ih hm).imp_right (List.mem_cons_of_mem n)

theorem sorted_placeMember {ms : List (String × Json)} (h : Sorted ms) (key : String)
    (value : Json) : Sorted (placeMember key value ms) := by
  induction ms with
  | nil => exact List.pairwise_singleton ..
  | cons n ms ih =>
      obtain ⟨hn, hms⟩ := List.pairwise_cons.mp h
      rw [placeMember]
      split
      · rename_i hlt
        refine List.pairwise_cons.mpr ⟨fun m hm => ?_, h⟩
        rcases List.mem_cons.mp hm with rfl | hm
        · exact hlt
        · exact lt_trans hlt (hn m hm)
      · split
        · exact h
        · rename_i hlt hne
          refine List.pairwise_cons.mpr ⟨fun m hm => ?_, ih hms⟩
          rcases mem_placeMember hm with rfl | hm
          · exact lt_of_le_of_ne (not_lt.mp hlt) (Ne.symm hne)
          · exact hn m hm

theorem sorted_canonicalMembers (ms : List (String × Json)) : Sorted (canonicalMembers ms) := by
  induction ms with
  | nil => exact .nil
  | cons m ms ih => exact sorted_placeMember ih ..

theorem lastOf_eq_none_iff {key : String} {ms : List (String × Json)} :
    lastOf key ms = none ↔ ∀ m ∈ ms, m.1 ≠ key := by
  induction ms with
  | nil => simp [lastOf]
  | cons m ms ih => simp [lastOf, ih, and_comm]

/-- A member that is filed under a key that is there already changes nothing. -/
theorem lastOf_placeMember (key : String) (value : Json) (ms : List (String × Json))
    (other : String) : lastOf other (placeMember key value ms) =
      (lastOf other ms).or (if key = other then some value else none) := by
  induction ms with
  | nil => rfl
  | cons n ms ih =>
      rw [placeMember]
      split
      · rfl
      · split
        · rename_i heq
          subst heq
          by_cases hother : n.1 = other
          · simp [lastOf, hother]
          · simp [hother]
        · rename_i hne
          by_cases hother : n.1 = other
          · have hkey : key ≠ other := fun h => hne (h.trans hother.symm)
            simp [lastOf, ih, hother, hkey]
          · simp [lastOf, ih, hother]

theorem placeMember_of_least {key : String} {ms : List (String × Json)}
    (h : ∀ m ∈ ms, key < m.1) (value : Json) :
    placeMember key value ms = (key, value) :: ms := by
  cases ms with
  | nil => rfl
  | cons m ms => rw [placeMember, if_pos (h m List.mem_cons_self)]

/-! ## The canonical form -/

theorem areSoundMembers_iff {ms : List (String × Json)} :
    areSoundMembers ms = true ↔ ∀ m ∈ ms, m.2.isSound = true := by
  induction ms with
  | nil => simp [areSoundMembers]
  | cons m ms ih => simp [areSoundMembers, ih]

/-- Members in order, of values in canonical form, stay as they are. -/
theorem canonicalMembers_of_sorted {ms : List (String × Json)} (hs : Sorted ms)
    (hc : ∀ m ∈ ms, m.2.canonical = m.2) : canonicalMembers ms = ms := by
  induction ms with
  | nil => rfl
  | cons m ms ih =>
      obtain ⟨hm, hms⟩ := List.pairwise_cons.mp hs
      rw [canonicalMembers, ih hms fun n hn => hc n (List.mem_cons_of_mem m hn),
        hc m List.mem_cons_self, placeMember_of_least hm]

mutual

theorem agrees_canonical : ∀ j : Json, j.isSound = true → Agrees j j.canonical
  | .null, _ => .null
  | .bool b, _ => .bool b
  | .int n, _ => .int n
  | .float x, _ => .float x
  | .str s, _ => .str s
  | .arr items, h => .arr (agrees_canonicalItems items h)
  | .obj members, h => .obj (agrees_canonicalMembers members h)

theorem agrees_canonicalItems : ∀ items : List Json, areSoundItems items = true →
    List.Forall₂ Agrees items (canonicalItems items)
  | [], _ => .nil
  | item :: rest, h => by
      rw [areSoundItems, Bool.and_eq_true] at h
      exact .cons (agrees_canonical item h.1) (agrees_canonicalItems rest h.2)

theorem agrees_canonicalMembers : ∀ members : List (String × Json),
    areSoundMembers members = true →
      ∀ key, Option.Rel Agrees (lastOf key members) (lastOf key (canonicalMembers members))
  | [], _ => fun _ => .none
  | (name, value) :: rest, h => fun key => by
      rw [areSoundMembers, Bool.and_eq_true] at h
      have hvalue := agrees_canonical value h.1
      have hrest := agrees_canonicalMembers rest h.2 key
      rw [canonicalMembers, lastOf_placeMember, lastOf]
      generalize lastOf key rest = last at hrest
      generalize lastOf key (canonicalMembers rest) = last' at hrest
      cases hrest with
      | some hlast => exact .some hlast
      | none =>
          split
          · exact .some hvalue
          · exact .none

end

mutual

theorem isSound_canonical : ∀ j : Json, j.isSound = true → j.canonical.isSound = true
  | .null, _ | .bool _, _ | .int _, _ | .float _, _ | .str _, _ => rfl
  | .arr items, h => areSound_canonicalItems items h
  | .obj members, h => areSound_canonicalMembers members h

theorem areSound_canonicalItems : ∀ items : List Json, areSoundItems items = true →
    areSoundItems (canonicalItems items) = true
  | [], _ => rfl
  | item :: rest, h => by
      rw [areSoundItems, Bool.and_eq_true] at h
      rw [canonicalItems, areSoundItems, isSound_canonical item h.1,
        areSound_canonicalItems rest h.2]
      rfl

theorem areSound_canonicalMembers : ∀ members : List (String × Json),
    areSoundMembers members = true → areSoundMembers (canonicalMembers members) = true
  | [], _ => rfl
  | (name, value) :: rest, h => by
      rw [areSoundMembers, Bool.and_eq_true] at h
      refine areSoundMembers_iff.mpr fun m hm => ?_
      rcases mem_placeMember hm with rfl | hm
      · exact isSound_canonical value h.1
      · exact areSoundMembers_iff.mp (areSound_canonicalMembers rest h.2) m hm

end

mutual

theorem canonical_canonical : ∀ j : Json, j.canonical.canonical = j.canonical
  | .null | .bool _ | .int _ | .float _ | .str _ | .faulty _ => rfl
  | .arr items => congrArg Json.arr (canonicalItems_canonicalItems items)
  | .obj members => congrArg Json.obj
      (canonicalMembers_of_sorted (sorted_canonicalMembers members)
        (canonical_of_mem members))

theorem canonicalItems_canonicalItems : ∀ items : List Json,
    canonicalItems (canonicalItems items) = canonicalItems items
  | [] => rfl
  | item :: rest => by
      rw [canonicalItems, canonicalItems, canonical_canonical item,
        canonicalItems_canonicalItems rest]

theorem canonical_of_mem : ∀ members : List (String × Json),
    ∀ m ∈ canonicalMembers members, m.2.canonical = m.2
  | [] => by simp [canonicalMembers]
  | (name, value) :: rest => fun m hm => by
      rcases mem_placeMember hm with rfl | hm
      · exact canonical_canonical value
      · exact canonical_of_mem rest m hm

end

theorem canonical_eq_null_iff {j : Json} : j.canonical = .null ↔ j = .null := by
  cases j with
  | null => exact Iff.rfl
  | bool | int | float | str | arr | obj | faulty => constructor <;> exact nofun

theorem asOpaque_eq_ok_iff {j c : Json} :
    asOpaque j = .ok c ↔ j.isSound = true ∧ j.canonical = c := by
  unfold asOpaque
  split
  · rename_i hsound
    simp [hsound]
  · rename_i hsound
    simp [hsound]

/-! ## Looking for a field -/

/-- The members that are present. -/
def present (fields : List (String × Option Json)) : List (String × Json) :=
  fields.filterMap fun f => f.2.map (f.1, ·)

/-- What a field holds. -/
def fieldOf (name : String) : List (String × Option Json) → Option Json
  | [] => none
  | f :: rest => (fieldOf name rest).or (if f.1 = name then f.2 else none)

theorem ofPresent_ne_null (fields : List (String × Option Json)) : ofPresent fields ≠ .null :=
  nofun

theorem lastOf_present (name : String) (fields : List (String × Option Json)) :
    lastOf name (present fields) = fieldOf name fields := by
  induction fields with
  | nil => rfl
  | cons f fields ih =>
      obtain ⟨key, value⟩ := f
      cases value with
      | none => simpa [present, fieldOf] using ih
      | some v =>
          have hcons : present ((key, some v) :: fields) = (key, v) :: present fields := rfl
          rw [hcons, lastOf, fieldOf, ih]

theorem countOf_eq_zero_iff {name : String} {ms : List (String × Json)} :
    countOf name ms = 0 ↔ ∀ m ∈ ms, m.1 ≠ name := by
  simp [countOf, List.countP_eq_zero]

theorem names_present (fields : List (String × Option Json)) :
    ((present fields).map Prod.fst).Sublist (fields.map Prod.fst) := by
  induction fields with
  | nil => exact .slnil
  | cons f fields ih =>
      obtain ⟨key, value⟩ := f
      cases value with
      | none => exact ih.cons key
      | some v => exact ih.cons_cons key

/-- No name is given twice if none stands for two fields. -/
theorem countOf_present_le {fields : List (String × Option Json)}
    (h : (fields.map Prod.fst).Nodup) (name : String) : countOf name (present fields) ≤ 1 := by
  have hcount : countOf name (present fields) = ((present fields).map Prod.fst).count name := by
    rw [countOf, List.count, List.countP_map]
    rfl
  rw [hcount]
  exact List.nodup_iff_count_le_one.mp ((names_present fields).nodup h) name

theorem countOf_present_eq_one {fields : List (String × Option Json)}
    (h : (fields.map Prod.fst).Nodup) {name : String} {value : Json}
    (hvalue : fieldOf name fields = some value) : countOf name (present fields) = 1 := by
  have hle := countOf_present_le h name
  have hne : countOf name (present fields) ≠ 0 := by
    intro hzero
    rw [← lastOf_present, lastOf_eq_none_iff.mpr (countOf_eq_zero_iff.mp hzero)] at hvalue
    cases hvalue
  omega

theorem present?_of_absent {α : Type} (value : Json → Decoded α) {name : String}
    {ms : List (String × Json)} (h : ∀ m ∈ ms, m.1 ≠ name) (found : Option α) :
    ms.foldlM (fun found m => if m.1 = name then asOptional value m.2 else .ok found) found =
      (.ok found : Decoded (Option α)) := by
  induction ms with
  | nil => rfl
  | cons m ms ih =>
      rw [List.foldlM_cons, if_neg (h m List.mem_cons_self)]
      exact ih fun n hn => h n (List.mem_cons_of_mem m hn)

/-- A member that is not repeated is the one that counts. -/
theorem present?_eq {α : Type} (value : Json → Decoded α) {name : String}
    {ms : List (String × Json)} (h : countOf name ms ≤ 1) :
    present? name value ms = match lastOf name ms with
      | some j => asOptional value j
      | none => .ok none := by
  induction ms with
  | nil => rfl
  | cons m ms ih =>
      rw [present?, List.foldlM_cons]
      by_cases hm : m.1 = name
      · have habsent : ∀ n ∈ ms, n.1 ≠ name := by
          rw [← countOf_eq_zero_iff]
          simp only [countOf, List.countP_cons, hm, beq_self_eq_true, if_true] at h ⊢
          omega
        rw [if_pos hm, lastOf, lastOf_eq_none_iff.mpr habsent, if_pos hm, Option.none_or]
        dsimp only
        cases asOptional value m.2 with
        | error e => rfl
        | ok found => exact present?_of_absent value habsent found
      · have hrest : countOf name ms ≤ 1 := by
          simp only [countOf, List.countP_cons] at h ⊢
          omega
        rw [if_neg hm, lastOf, if_neg hm, Option.or_none, ← ih hrest]
        rfl

/-! ## Reading back -/

theorem bind_eq_ok_iff {α β : Type} {x : Decoded α} {f : α → Decoded β} {b : β} :
    x >>= f = .ok b ↔ ∃ a, x = .ok a ∧ f a = .ok b := by
  cases x with
  | error e => exact ⟨nofun, nofun⟩
  | ok a =>
      refine ⟨fun h => ⟨a, rfl, h⟩, ?_⟩
      rintro ⟨_, ⟨⟩, h⟩
      exact h

/-- What is written for a value that has been read is not null, and reads as a value for which the
same is written. -/
def Rereads {α : Type} (read : Json → Decoded α) (write : α → Json) : Prop :=
  ∀ j a, j ≠ .null → read j = .ok a →
    write a ≠ .null ∧ ∃ b, read (write a) = .ok b ∧ write b = write a

theorem asOptional_of_ne {α : Type} (read : Json → Decoded α) {j : Json} (h : j ≠ .null) :
    asOptional read j = (read j).map some := by
  unfold asOptional
  split
  · exact absurd rfl h
  · rfl

theorem present?_some {α : Type} {name : String} {read : Json → Decoded α}
    {ms : List (String × Json)} {a : α} (h : present? name read ms = .ok (some a)) :
    ∃ j, j ≠ .null ∧ read j = .ok a := by
  have hfold : ∀ found : Option α,
      ms.foldlM (fun found m => if m.1 = name then asOptional read m.2 else .ok found) found =
        .ok (some a) → found = some a ∨ ∃ j, j ≠ .null ∧ read j = .ok a := by
    clear h
    induction ms with
    | nil =>
        rintro found ⟨⟩
        exact Or.inl rfl
    | cons m ms ih =>
        intro found h
        rw [List.foldlM_cons] at h
        obtain ⟨next, hnext, hrest⟩ := bind_eq_ok_iff.mp h
        refine (ih next hrest).elim (fun hsome => ?_) Or.inr
        subst hsome
        split at hnext
        · by_cases hnull : m.2 = .null
          · rw [hnull] at hnext
            cases hnext
          · rw [asOptional_of_ne read hnull] at hnext
            cases hread : read m.2 with
            | error e =>
                rw [hread] at hnext
                cases hnext
            | ok b =>
                rw [hread] at hnext
                cases hnext
                exact Or.inr ⟨m.2, hnull, hread⟩
        · cases hnext
          exact Or.inl rfl
  exact (hfold none h).resolve_left nofun

/-- A field of a document that was written is found as it was written. -/
theorem present?_present {α : Type} {read : Json → Decoded α} {write : α → Json} {name : String}
    {o : Option α} {fields : List (String × Option Json)} (hnames : (fields.map Prod.fst).Nodup)
    (hfield : fieldOf name fields = o.map write)
    (hread : ∀ a ∈ o, write a ≠ .null ∧ read (write a) = .ok a) :
    present? name read (present fields) = .ok o := by
  rw [present?_eq read (countOf_present_le hnames name), lastOf_present, hfield]
  cases o with
  | none => rfl
  | some a =>
      obtain ⟨hnull, hread⟩ := hread a rfl
      exact (asOptional_of_ne read hnull).trans (congrArg (Except.map some) hread)

theorem Rereads.present? {α : Type} {read : Json → Decoded α} {write : α → Json}
    (hr : Rereads read write) {name : String} {ms : List (String × Json)} {o : Option α}
    (h : present? name read ms = .ok o) {fields : List (String × Option Json)}
    (hnames : (fields.map Prod.fst).Nodup) (hfield : fieldOf name fields = o.map write) :
    ∃ o', Json.present? name read (present fields) = .ok o' ∧ o'.map write = o.map write := by
  cases o with
  | none => exact ⟨none, present?_present hnames hfield nofun, rfl⟩
  | some a =>
      obtain ⟨j, hj, hread⟩ := present?_some h
      obtain ⟨hnull, b, hb, hwrite⟩ := hr j a hj hread
      have hsame : (some b).map write = (some a).map write := congrArg some hwrite
      refine ⟨some b, present?_present hnames (hfield.trans hsame.symm) ?_, hsame⟩
      rintro _ ⟨⟩
      rw [hwrite]
      exact ⟨hnull, hb⟩

theorem presentOr_present {name s : String} {fields : List (String × Option Json)}
    (hnames : (fields.map Prod.fst).Nodup) (hfield : fieldOf name fields = some (.str s)) :
    presentOr "" name asText (present fields) = .ok s := by
  have hwritten : fieldOf name fields = (some s).map .str := hfield
  have hfound : Json.present? name asText (present fields) = .ok (some s) := by
    refine present?_present hnames hwritten ?_
    rintro _ ⟨⟩
    exact ⟨nofun, rfl⟩
  rw [presentOr, hfound]
  rfl

theorem Rereads.listOf {α : Type} {read : Json → Decoded α} {write : α → Json}
    (hr : Rereads read write) (hnull : ∀ a, read .null ≠ .ok a) :
    Rereads (asListOf read) fun as => .arr (as.map write) := by
  have hitems : ∀ (items : List Json) (as : List α), items.mapM read = .ok as →
      ∃ bs, (as.map write).mapM read = .ok bs ∧ bs.map write = as.map write := by
    intro items
    induction items with
    | nil =>
        rintro as ⟨⟩
        exact ⟨[], rfl, rfl⟩
    | cons item items ih =>
        intro as h
        rw [List.mapM_cons] at h
        obtain ⟨a, ha, h⟩ := bind_eq_ok_iff.mp h
        obtain ⟨rest, hrest, h⟩ := bind_eq_ok_iff.mp h
        cases h
        have hitem : item ≠ .null := by
          rintro rfl
          exact hnull a ha
        obtain ⟨-, b, hb, hwrite⟩ := hr item a hitem ha
        obtain ⟨bs, hbs, hwrites⟩ := ih rest hrest
        refine ⟨b :: bs, ?_, ?_⟩
        · rw [List.map_cons, List.mapM_cons, hb, hbs]
          rfl
        · rw [List.map_cons, List.map_cons, hwrite, hwrites]
  intro j as _ h
  obtain ⟨items, _, h⟩ := bind_eq_ok_iff.mp h
  obtain ⟨bs, hbs, hwrites⟩ := hitems items as h
  exact ⟨nofun, bs, hbs, congrArg Json.arr hwrites⟩

theorem rereads_text : Rereads asText .str := by
  intro j s _ h
  exact ⟨nofun, s, rfl, rfl⟩

theorem asIntWithin_eq_ok_iff {low high n : Int} {j : Json} :
    asIntWithin low high j = .ok n ↔ j = .int n ∧ low ≤ n ∧ n ≤ high := by
  cases j with
  | int m =>
      rw [asIntWithin]
      split
      · rename_i hm
        constructor
        · rintro ⟨⟩
          exact ⟨rfl, hm⟩
        · rintro ⟨⟨⟩, -⟩
          rfl
      · rename_i hm
        constructor
        · exact nofun
        · rintro ⟨⟨⟩, hn⟩
          exact absurd hn hm
  | null | bool | float | str | arr | obj | faulty => exact ⟨nofun, nofun⟩

theorem rereads_int64 : Rereads asInt64 .int := by
  intro j n _ h
  exact ⟨nofun, n, asIntWithin_eq_ok_iff.mpr ⟨rfl, (asIntWithin_eq_ok_iff.mp h).2⟩, rfl⟩

/-- What is kept as it is stays as it is. -/
theorem asOpaque_self {j c : Json} (h : asOpaque j = .ok c) : asOpaque c = .ok c := by
  obtain ⟨hsound, rfl⟩ := asOpaque_eq_ok_iff.mp h
  exact asOpaque_eq_ok_iff.mpr ⟨isSound_canonical j hsound, canonical_canonical j⟩

theorem rereads_opaque : Rereads asOpaque id := by
  intro j c hj h
  refine ⟨?_, c, asOpaque_self h, rfl⟩
  obtain ⟨-, rfl⟩ := asOpaque_eq_ok_iff.mp h
  exact mt canonical_eq_null_iff.mp hj

/-! ## Records -/

/-- What a field of a record holds; the record is an object, or an array of its fields in order. -/
def field? (names : List String) (name : String) : Json → Option Json
  | .obj members => lastOf name members
  | .arr items => lastOf name (names.zip items)
  | _ => none

theorem checkedMembers_eq_ok_iff {names : List String} {j : Json} {ms : List (String × Json)} :
    checkedMembers names j = .ok ms ↔ j = .obj ms ∧ ∀ name ∈ names, countOf name ms ≤ 1 := by
  cases j with
  | obj members =>
      have hfind : names.find? (fun name => decide (1 < countOf name members)) = none ↔
          ∀ name ∈ names, countOf name members ≤ 1 := by
        simp [List.find?_eq_none]
      simp only [checkedMembers, asMembers, bind, Except.bind, obj.injEq]
      split
      · rename_i name hsome
        refine ⟨nofun, ?_⟩
        rintro ⟨rfl, hcounts⟩
        rw [hfind.mpr hcounts] at hsome
        cases hsome
      · rename_i hnone
        constructor
        · rintro ⟨⟩
          exact ⟨rfl, hfind.mp hnone⟩
        · rintro ⟨rfl, -⟩
          rfl
  | null | bool | int | float | str | arr | faulty => exact ⟨nofun, nofun⟩

theorem lastOf_of_asRecord {names : List String} {j : Json} {fs : List (String × Json)}
    (h : asRecord names j = .ok fs) (name : String) : lastOf name fs = field? names name j := by
  cases j with
  | arr items =>
      rw [asRecord] at h
      split at h
      · cases h
      · cases h
        rfl
  | obj members =>
      obtain ⟨⟨⟩, -⟩ := checkedMembers_eq_ok_iff.mp h
      rfl
  | null | bool | int | float | str | faulty => cases h

theorem needed_eq_ok_iff {α : Type} {name : String} {read : Json → Decoded α}
    {fs : List (String × Json)} {a : α} :
    needed name read fs = .ok a ↔ ∃ j, lastOf name fs = some j ∧ read j = .ok a := by
  unfold needed
  cases lastOf name fs with
  | none => exact ⟨nofun, nofun⟩
  | some j => simp

theorem withDefault_eq_ok_iff {α : Type} {default a : α} {name : String} {read : Json → Decoded α}
    {ms : List (String × Json)} :
    withDefault default name read ms = .ok a ↔
      (lastOf name ms = none ∧ a = default) ∨ ∃ j, lastOf name ms = some j ∧ read j = .ok a := by
  unfold withDefault
  cases lastOf name ms with
  | none => simp [eq_comm]
  | some j => simp

theorem checkedMembers_present {fields : List (String × Option Json)}
    (hnames : (fields.map Prod.fst).Nodup) (names : List String) :
    checkedMembers names (.obj (present fields)) = .ok (present fields) :=
  checkedMembers_eq_ok_iff.mpr ⟨rfl, fun name _ => countOf_present_le hnames name⟩

theorem mem_of_mem_present {fields : List (String × Option Json)} {m : String × Json}
    (h : m ∈ present fields) : (m.1, some m.2) ∈ fields := by
  obtain ⟨⟨key, value⟩, hf, hm⟩ := List.mem_filterMap.mp h
  obtain ⟨v, rfl, rfl⟩ := Option.map_eq_some_iff.mp hm
  exact hf

theorem checkOthers_present {names : List String} {fields : List (String × Option Json)}
    (h : ∀ f ∈ fields, f.1 ∈ names ∨ ∀ v ∈ f.2, v.isSound = true) :
    checkOthers names (present fields) = .ok () := by
  have hall : ((present fields).all fun m => names.contains m.1 || m.2.isSound) = true := by
    refine List.all_eq_true.mpr fun m hm => ?_
    rw [Bool.or_eq_true, List.contains_iff_mem]
    exact (h _ (mem_of_mem_present hm)).imp_right fun hsound => hsound m.2 rfl
  rw [checkOthers, if_pos hall]

end StatusRelay.Json
