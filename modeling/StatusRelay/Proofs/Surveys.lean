import StatusRelay.Directory
import Mathlib

/-!
# What a directory finds

A directory keeps the last survey that succeeded. Before every single survey the server may come to
serve something else, and any survey may fail. Every survey starts by asking for the list of groups
and asks for it only once, so the requests tell how many surveys a step took.

A look-up that finds its resource in the survey at hand takes none; one that does not takes one
more, and where there was no survey at hand it first has to take that. A survey that fails ends the
look-up and leaves the one at hand, so all that was found before is still found.
-/
namespace StatusRelay

namespace Survey

/-! ## What a survey asks for -/

variable {α β : Type} {P : String → Prop}

theorem run_bind (x : Asking α) (f : α → Asking β) (before : List String) :
    (x >>= f).run.run before =
      match x.run.run before with
      | (.ok a, paths) => (f a).run.run paths
      | (.error e, paths) => (.error e, paths) := by
  rw [ExceptT.run_bind, StateT.run_bind]
  rcases x.run.run before with ⟨result, paths⟩
  cases result <;> rfl

theorem run_ask (documents : Documents) (value : Json → Json.Decoded α) (path : String)
    (before : List String) :
    (ask documents value path).run.run before =
      match Http.Target.ofText? path with
      | none => (.error (.api .unbuildable), before)
      | some target =>
          (match (documents target.path).document? value with
            | none => .error .unanswered
            | some (.error cause) => .error (.api cause)
            | some (.ok a) => .ok a, before ++ [target.path]) := by
  unfold ask
  cases Http.Target.ofText? path with
  | none => rfl
  | some target =>
    simp only [run_bind]
    cases (documents target.path).document? value with
    | none => rfl
    | some r => cases r <;> rfl

/-- Whatever was asked for before, this part asks only for such paths. -/
def AsksOnly (P : String → Prop) (x : Asking α) : Prop :=
  ∀ before, ∃ more, (x.run.run before).2 = before ++ more ∧ ∀ path ∈ more, P path

theorem asksOnly_pure (a : α) : AsksOnly P (pure a : Asking α) :=
  fun before => ⟨[], (List.append_nil before).symm, by simp⟩

theorem asksOnly_throw (e : Failure) : AsksOnly P (throw e : Asking α) :=
  fun before => ⟨[], (List.append_nil before).symm, by simp⟩

theorem AsksOnly.bind {x : Asking α} {f : α → Asking β} (hx : AsksOnly P x)
    (hf : ∀ a, AsksOnly P (f a)) : AsksOnly P (x >>= f) := by
  intro before
  obtain ⟨more, hmore, hall⟩ := hx before
  rw [run_bind]
  rcases hrun : x.run.run before with ⟨result, paths⟩
  rw [hrun] at hmore
  change paths = before ++ more at hmore
  cases result with
  | error e => exact ⟨more, hmore, hall⟩
  | ok a =>
    obtain ⟨rest, hrest, hall'⟩ := hf a paths
    refine ⟨more ++ rest, ?_, ?_⟩
    · rw [hrest, hmore, List.append_assoc]
    · intro path hpath
      exact (List.mem_append.mp hpath).elim (hall path) (hall' path)

theorem asksOnly_ask (documents : Documents) (value : Json → Json.Decoded α) {text : String}
    (h : ∀ target, Http.Target.ofText? text = some target → P target.path) :
    AsksOnly P (ask documents value text) := by
  intro before
  rw [run_ask]
  cases htarget : Http.Target.ofText? text with
  | none => exact ⟨[], (List.append_nil before).symm, by simp⟩
  | some target => exact ⟨[target.path], rfl, by simpa using h target htarget⟩

/-- The path under which a server lists its groups. -/
def groupsPath : String := "/apis"

/-- A path that goes on behind a slash is not that of the groups. -/
theorem ne_groupsPath {start rest : String} (hstart : start ∈ ["/apis/", "/api/"])
    {target : Http.Target} (h : Http.Target.ofText? (start ++ rest) = some target) :
    target.path ≠ groupsPath := by
  simp only [Http.Target.ofText?, String.toList_append] at h
  split at h
  case isFalse => cases h
  case isTrue =>
    cases h
    intro hpath
    rw [← String.toList_inj, String.toList_ofList] at hpath
    simp only [List.mem_cons, List.not_mem_nil, or_false] at hstart
    rcases hstart with rfl | rfl <;> simp [groupsPath] at hpath

theorem asksOnly_versions (documents : Documents) {start : String}
    (hstart : start ∈ ["/apis/", "/api/"]) (versions : List ListedVersion) :
    AsksOnly (· ≠ groupsPath) (askVersions documents start versions) := by
  induction versions with
  | nil => exact asksOnly_pure []
  | cons v rest ih =>
    refine (asksOnly_ask documents _ fun target => ne_groupsPath hstart).bind fun resources => ?_
    exact ih.bind fun others => asksOnly_pure _

theorem asksOnly_group (documents : Documents) {start : String}
    (hstart : start ∈ ["/apis/", "/api/"]) (g : ListedGroup) :
    AsksOnly (· ≠ groupsPath) (askGroup documents start g) := by
  unfold askGroup
  split
  · exact asksOnly_throw _
  · exact asksOnly_versions documents hstart g.versions

theorem asksOnly_groups (documents : Documents) (survey : Survey) (groups : List ListedGroup) :
    AsksOnly (· ≠ groupsPath) (askGroups documents survey groups) := by
  induction groups generalizing survey with
  | nil => exact asksOnly_pure survey
  | cons g rest ih => exact (asksOnly_group documents (by simp) g).bind fun listings => ih _

/-- What the server answers to a survey: the survey, or why there is none. -/
def outcome (documents : Documents) : Except Failure Survey := ((take documents).run.run []).1

/-- The paths that a survey asks for. -/
def asked (documents : Documents) : List String := ((take documents).run.run []).2

/-- The survey of what the server serves, if it succeeds. -/
def found? (documents : Documents) : Option Survey := (outcome documents).toOption

theorem count_asked (documents : Documents) : (asked documents).count groupsPath = 1 := by
  have hrest : ∀ groups, AsksOnly (· ≠ groupsPath) (do
      let survey ← askGroups documents {} groups
      let versions ← ask documents coreVersions "/api"
      let core ← askGroup documents "/api/" ⟨"", versions.map fun v => ⟨v, v⟩⟩
      pure (survey.insert "" core)) := by
    intro groups
    refine (asksOnly_groups documents {} groups).bind fun survey => ?_
    refine (asksOnly_ask documents _ ?_).bind fun versions => ?_
    · intro target htarget
      have hpath : Http.Target.ofText? "/api" = some ⟨"/api", ""⟩ := rfl
      rw [hpath, Option.some.injEq] at htarget
      rw [← htarget]
      decide
    · exact (asksOnly_group documents (by simp) _).bind fun core => asksOnly_pure _
  have hfirst : ((ask documents listedGroups "/apis").run.run []).2 = [groupsPath] := by
    rw [run_ask]
    rfl
  have hasked : ∃ more, asked documents = groupsPath :: more ∧
      ∀ path ∈ more, path ≠ groupsPath := by
    rw [asked, take, run_bind]
    rcases hrun : (ask documents listedGroups "/apis").run.run [] with ⟨result, paths⟩
    rw [hrun] at hfirst
    change paths = [groupsPath] at hfirst
    subst hfirst
    cases result with
    | error e => exact ⟨[], rfl, by simp⟩
    | ok groups => exact hrest groups [groupsPath]
  obtain ⟨more, hmore, hall⟩ := hasked
  rw [hmore, List.count_cons_self, List.count_eq_zero.mpr fun hmem => hall _ hmem rfl]

end Survey

/-! ## Looking up -/

/-- What is looked up: a plural name or a kind, of a version of a group. -/
inductive Query where
  | named (group version plural : String)
  | ofKind (kind : ResourceKind)
  deriving DecidableEq, Repr

namespace Query

variable {q : Query} {s : Survey} {r : ApiResource}

def group : Query → String
  | named group _ _ => group
  | ofKind kind => kind.group

def version : Query → String
  | named _ version _ => version
  | ofKind kind => kind.version

def text : Query → String
  | named group version plural => resourceText group version plural
  | ofKind kind => kind.text

/-- The resource has the plural name or the kind. -/
def Matches : Query → ApiResource → Prop
  | named _ _ plural, r => r.plural = plural
  | ofKind kind, r => r.kind = kind.kind

/-- The survey has a resource that answers the query. -/
def In (q : Query) (s : Survey) : Prop := ∃ r ∈ s.listing q.group q.version, q.Matches r

def look? : Query → Survey → Option ApiResource
  | named group version plural, s => s.findNamed? group version plural
  | ofKind kind, s => s.findKind? kind

/-- Looks the query up in a directory whose server may change in the meantime. -/
def lookUp (q : Query) (d : Directory) (before after : Documents) :
    Directory.Consulted ApiResource :=
  match q with
  | named group version plural => d.resourceNamedAmid before after group version plural
  | ofKind kind => d.resourceOfKindAmid before after kind

theorem lookUp_eq (q : Query) (d : Directory) (before after : Documents) :
    q.lookUp d before after = d.findAmid before after q.text q.look? := by
  cases q <;> rfl

theorem mem_of_look? (h : q.look? s = some r) :
    r ∈ s.listing q.group q.version ∧ q.Matches r := by
  cases q with
  | named group version plural =>
    have hfound : (s.listing group version).find? (fun r => r.plural == plural) = some r := h
    have hmatch := List.find?_some hfound
    exact ⟨List.mem_of_find?_eq_some hfound, beq_iff_eq.mp hmatch⟩
  | ofKind kind =>
    have hfound : (s.listing kind.group kind.version).find? (fun r => r.kind == kind.kind) =
      some r := h
    have hmatch := List.find?_some hfound
    exact ⟨List.mem_of_find?_eq_some hfound, beq_iff_eq.mp hmatch⟩

theorem look?_isSome_iff : (q.look? s).isSome = true ↔ q.In s := by
  cases q with
  | named group version plural =>
      simp [look?, Survey.findNamed?, In, Matches, Query.group, Query.version]
  | ofKind kind => simp [look?, Survey.findKind?, In, Matches, Query.group, Query.version]

end Query

namespace Directory

open Survey

variable {d : Directory} {q : Query} {before after : Documents}

theorem paths_refresh (d : Directory) (documents : Documents) :
    (d.refresh documents).paths = asked documents := by
  unfold refresh asked
  split <;> simp_all

theorem survey_refresh (d : Directory) (documents : Documents) :
    (d.refresh documents).directory.survey = (found? documents).or d.survey := by
  unfold refresh found? outcome
  split <;> simp_all [Except.toOption]

theorem result_refresh_eq_ok_iff (d : Directory) (documents : Documents) (s : Survey) :
    (d.refresh documents).result = some (.ok s) ↔ found? documents = some s := by
  unfold refresh found? outcome
  split <;> simp_all [Except.toOption]

/-- How a look-up may go. -/
inductive Course (q : Query) (d : Directory) (before after : Documents) :
    Consulted ApiResource → Prop where
  | hit {s : Survey} {r : ApiResource} (held : d.survey = some s) (found : q.look? s = some r) :
      Course q d before after ⟨some (.ok r), [], d⟩
  | missed {s : Survey} {c : Consulted ApiResource} (held : d.survey = some s)
      (absent : q.look? s = none) (paths : c.paths = asked after)
      (directory : c.directory.survey = (found? after).or d.survey)
      (result : ∀ r, c.result = some (.ok r) ↔ (found? after).bind q.look? = some r) :
      Course q d before after c
  | failed {c : Consulted ApiResource} (bare : d.survey = none) (failure : found? before = none)
      (paths : c.paths = asked before) (directory : c.directory.survey = d.survey)
      (result : ∀ r, c.result ≠ some (.ok r)) : Course q d before after c
  | found {s : Survey} {c : Consulted ApiResource} {r : ApiResource} (bare : d.survey = none)
      (taken : found? before = some s) (found : q.look? s = some r) (paths : c.paths = asked before)
      (directory : c.directory.survey = some s) (result : c.result = some (.ok r)) :
      Course q d before after c
  | missedNew {s : Survey} {c : Consulted ApiResource} (bare : d.survey = none)
      (taken : found? before = some s) (absent : q.look? s = none)
      (paths : c.paths = asked before ++ asked after)
      (directory : c.directory.survey = (found? after).or (some s))
      (result : ∀ r, c.result = some (.ok r) ↔ (found? after).bind q.look? = some r) :
      Course q d before after c

/-- A look-up that misses finds what a new survey has. -/
theorem result_findAmid {s : Survey} {what : String} {look : Survey → Option ApiResource}
    (held : (d.current before).result = some (.ok s)) (absent : look s = none) (r : ApiResource) :
    (d.findAmid before after what look).result = some (.ok r) ↔
      (found? after).bind look = some r := by
  have hok := result_refresh_eq_ok_iff (d.current before).directory after
  have hnone : (∀ s, ((d.current before).directory.refresh after).result ≠ some (.ok s)) →
      found? after = none := by
    intro hno
    cases hfound : found? after with
    | none => rfl
    | some s => exact (hno s ((hok s).mpr hfound)).elim
  rcases hresult : ((d.current before).directory.refresh after).result with _ | (e | s')
  · rw [hnone (by simp [hresult])]
    simp [findAmid, held, absent, hresult]
  · rw [hnone (by simp [hresult])]
    simp [findAmid, held, absent, hresult]
  · rw [(hok s').mp hresult, Option.bind_some]
    cases hlook : look s' <;> simp [findAmid, held, absent, hresult, hlook]

theorem course (q : Query) (d : Directory) (before after : Documents) :
    Course q d before after (q.lookUp d before after) := by
  rw [q.lookUp_eq]
  cases hheld : d.survey with
  | some s =>
    have hcurrent : d.current before = ⟨some (.ok s), [], d⟩ := by simp [current, hheld]
    cases hlook : q.look? s with
    | some r =>
      have hfind : d.findAmid before after q.text q.look? = ⟨some (.ok r), [], d⟩ := by
        simp [findAmid, hcurrent, hlook]
      rw [hfind]
      exact .hit hheld hlook
    | none =>
      refine .missed hheld hlook ?_ ?_ fun r => ?_
      · simp [findAmid, hcurrent, hlook, paths_refresh]
      · simp [findAmid, hcurrent, hlook, survey_refresh]
      · exact result_findAmid (by rw [hcurrent]) hlook r
  | none =>
    have hcurrent : d.current before = d.refresh before := by simp [current, hheld]
    have hpaths := paths_refresh d before
    have hsurvey := survey_refresh d before
    cases htaken : found? before with
    | none =>
      rw [htaken, Option.none_or] at hsurvey
      have hno : ∀ s, (d.refresh before).result ≠ some (.ok s) := by
        intro s hs
        rw [result_refresh_eq_ok_iff, htaken] at hs
        cases hs
      rcases hresult : (d.refresh before).result with _ | (e | s)
      · refine .failed hheld htaken ?_ ?_ fun r => ?_ <;>
          simp [findAmid, hcurrent, hresult, hpaths, hsurvey]
      · refine .failed hheld htaken ?_ ?_ fun r => ?_ <;>
          simp [findAmid, hcurrent, hresult, hpaths, hsurvey]
      · exact (hno s hresult).elim
    | some s =>
      rw [htaken, Option.some_or] at hsurvey
      have hresult := (result_refresh_eq_ok_iff d before s).mpr htaken
      cases hlook : q.look? s with
      | some r =>
        refine .found hheld htaken hlook ?_ ?_ ?_ <;>
          simp [findAmid, hcurrent, hresult, hlook, hpaths, hsurvey]
      | none =>
        refine .missedNew hheld htaken hlook ?_ ?_ fun r => ?_
        · simp [findAmid, hcurrent, hresult, hlook, hpaths, paths_refresh]
        · simp [findAmid, hcurrent, hresult, hlook, hsurvey, survey_refresh]
        · exact result_findAmid (by rw [hcurrent, hresult]) hlook r

/-! ## Counting surveys -/

/-- How many surveys a step took. -/
def Consulted.surveys {α : Type} (c : Consulted α) : Nat := c.paths.count groupsPath

/-- What the server serves at each survey that a look-up may take. -/
def offered (d : Directory) (before after : Documents) : List Documents :=
  if d.survey.isSome then [after] else [before, after]

/-- Before a survey failed, one was taken that has the resource. -/
def HaveFound (q : Query) : List Documents → Prop
  | [] => False
  | now :: later => ∃ s, found? now = some s ∧ (q.In s ∨ HaveFound q later)

/-- The last of some surveys that succeeded. -/
def lastFound? (made : List Documents) : Option Survey := (made.filterMap found?).getLast?

theorem lastFound?_singleton (documents : Documents) :
    lastFound? [documents] = found? documents := by
  cases h : found? documents <;> simp [lastFound?, h]

theorem lastFound?_pair (before after : Documents) :
    lastFound? [before, after] = (found? after).or (found? before) := by
  cases h : found? before <;> cases h' : found? after <;> simp [lastFound?, h, h']

theorem lastFound?_append (made more : List Documents) :
    lastFound? (made ++ more) = (lastFound? more).or (lastFound? made) := by
  simp [lastFound?, List.getLast?_append]

theorem lastFound?_eq_none {made : List Documents}
    (h : ∀ documents ∈ made, found? documents = none) :
    lastFound? made = none := by
  rw [lastFound?, List.getLast?_eq_none_iff, List.filterMap_eq_nil_iff]
  exact h

/-- What holds of a look-up `c` that took the surveys `made`. -/
structure LooksUp (q : Query) (d : Directory) (made : List Documents)
    (c : Consulted ApiResource) : Prop where
  found_iff : (∃ r, c.result = some (.ok r)) ↔
    (∃ s, d.survey = some s ∧ q.In s) ∨ HaveFound q made
  right : ∀ r, c.result = some (.ok r) → ∃ s, c.directory.survey = some s ∧
    r ∈ s.listing q.group q.version ∧ q.Matches r
  hit : ∀ s, d.survey = some s → q.In s → c.surveys = 0
  missed : ∀ s, d.survey = some s → ¬ q.In s → c.surveys = 1
  bare : d.survey = none → c.surveys = 1 ∨ c.surveys = 2
  kept : c.directory.survey = (lastFound? made).or d.survey

theorem exists_bind_iff (o : Option Survey) :
    (∃ r, o.bind q.look? = some r) ↔ ∃ s, o = some s ∧ q.In s := by
  cases o with
  | none => simp
  | some s => simp [← Query.look?_isSome_iff, Option.isSome_iff_exists]

theorem in_of_look? {s : Survey} {r : ApiResource} (h : q.look? s = some r) : q.In s :=
  ⟨r, Query.mem_of_look? h⟩

theorem not_in_of_look? {s : Survey} (h : q.look? s = none) : ¬ q.In s := by
  rw [← Query.look?_isSome_iff, h]
  decide

/-- What a new survey gave is in the directory afterwards. -/
theorem right_of_bind {c : Consulted ApiResource} {s? : Option Survey} {held : Option Survey}
    (directory : c.directory.survey = s?.or held)
    (result : ∀ r, c.result = some (.ok r) ↔ s?.bind q.look? = some r) (r : ApiResource)
    (hr : c.result = some (.ok r)) : ∃ s, c.directory.survey = some s ∧
      r ∈ s.listing q.group q.version ∧ q.Matches r := by
  obtain ⟨s, hs, hlook⟩ := Option.bind_eq_some_iff.mp ((result r).mp hr)
  exact ⟨s, by rw [directory, hs, Option.some_or], Query.mem_of_look? hlook⟩

theorem surveys_of_asked {c : Consulted ApiResource} {documents : Documents}
    (h : c.paths = asked documents) : c.surveys = 1 := by
  rw [Consulted.surveys, h, count_asked]

/-- What the server served at the surveys that a look-up took. -/
def lookUpMade (q : Query) (d : Directory) (before after : Documents) : List Documents :=
  (d.offered before after).take (q.lookUp d before after).surveys

theorem looksUp (q : Query) (d : Directory) (before after : Documents) :
    LooksUp q d (lookUpMade q d before after) (q.lookUp d before after) := by
  have hcourse := course q d before after
  unfold lookUpMade
  generalize q.lookUp d before after = c at hcourse
  cases hcourse with
  | @hit s r held found =>
    have hin : q.In s := in_of_look? found
    refine ⟨iff_of_true ⟨r, rfl⟩ (.inl ⟨s, held, hin⟩), ?_, fun s' _ _ => rfl, ?_, ?_, rfl⟩
    · rintro r' ⟨⟩
      exact ⟨s, held, Query.mem_of_look? found⟩
    · simp [held, hin]
    · simp [held]
  | @missed s _ held absent paths directory result =>
    have hnot : ¬ q.In s := not_in_of_look? absent
    have hone : c.surveys = 1 := surveys_of_asked paths
    have hmade : (d.offered before after).take c.surveys = [after] := by
      simp [offered, held, hone]
    rw [hmade]
    refine ⟨?_, right_of_bind directory result, ?_, fun _ _ _ => hone, fun _ => .inl hone, ?_⟩
    · simp [result, exists_bind_iff, held, hnot, HaveFound]
    · simp [held, hnot]
    · rw [directory, lastFound?_singleton]
  | failed bare failure paths directory result =>
    have hone : c.surveys = 1 := surveys_of_asked paths
    have hmade : (d.offered before after).take c.surveys = [before] := by
      simp [offered, bare, hone]
    rw [hmade]
    refine ⟨?_, fun r hr => (result r hr).elim, ?_, ?_, fun _ => .inl hone, ?_⟩
    · simp [result, bare, failure, HaveFound]
    · simp [bare]
    · simp [bare]
    · rw [directory, lastFound?_singleton, failure, Option.none_or]
  | @found s _ r bare taken found paths directory result =>
    have hin : q.In s := in_of_look? found
    have hone : c.surveys = 1 := surveys_of_asked paths
    have hmade : (d.offered before after).take c.surveys = [before] := by
      simp [offered, bare, hone]
    rw [hmade]
    refine ⟨iff_of_true ⟨r, result⟩ (.inr ⟨s, taken, .inl hin⟩), ?_, ?_, ?_, fun _ => .inl hone, ?_⟩
    · intro r' hr
      rw [result] at hr
      cases hr
      exact ⟨s, directory, Query.mem_of_look? found⟩
    · simp [bare]
    · simp [bare]
    · rw [directory, lastFound?_singleton, taken, Option.some_or]
  | @missedNew s _ bare taken absent paths directory result =>
    have hnot : ¬ q.In s := not_in_of_look? absent
    have htwo : c.surveys = 2 := by
      rw [Consulted.surveys, paths, List.count_append, count_asked, count_asked]
    have hmade : (d.offered before after).take c.surveys = [before, after] := by
      simp [offered, bare, htwo]
    rw [hmade]
    refine ⟨?_, right_of_bind directory result, ?_, ?_, fun _ => .inr htwo, ?_⟩
    · simp [result, exists_bind_iff, bare, taken, hnot, HaveFound]
    · simp [bare]
    · simp [bare]
    · rw [directory, lastFound?_pair, taken, bare, Option.or_none]

/-! ## Any number of steps -/

/-- A survey for its own sake, or a look-up, and what the server serves meanwhile. -/
inductive Step where
  | refresh (documents : Documents)
  | lookUp (q : Query) (before after : Documents)

/-- The directory after a step. -/
def Step.directory (d : Directory) : Step → Directory
  | refresh documents => (d.refresh documents).directory
  | lookUp q before after => (q.lookUp d before after).directory

/-- What the server served at the surveys that a step took. -/
def Step.made (d : Directory) : Step → List Documents
  | refresh documents => [documents].take (d.refresh documents).surveys
  | lookUp q before after => lookUpMade q d before after

def run (d : Directory) (steps : List Step) : Directory :=
  steps.foldl (fun d step => step.directory d) d

/-- What the server served at the surveys that some steps took. -/
def made (d : Directory) : List Step → List Documents
  | [] => []
  | step :: rest => step.made d ++ made (step.directory d) rest

theorem made_refresh (d : Directory) (documents : Documents) :
    (Step.refresh documents).made d = [documents] := by
  have hone : (d.refresh documents).surveys = 1 := by
    rw [Consulted.surveys, paths_refresh, count_asked]
  rw [Step.made, hone, List.take_one, List.head?_cons, Option.toList_some]

theorem survey_step (d : Directory) (step : Step) :
    (step.directory d).survey = (lastFound? (step.made d)).or d.survey := by
  cases step with
  | refresh documents =>
    rw [made_refresh, lastFound?_singleton]
    exact survey_refresh d documents
  | lookUp q before after => exact (looksUp q d before after).kept

theorem survey_run (d : Directory) (steps : List Step) :
    (d.run steps).survey = (lastFound? (d.made steps)).or d.survey := by
  induction steps generalizing d with
  | nil => rfl
  | cons step rest ih =>
    change ((step.directory d).run rest).survey = _
    rw [ih, survey_step, made, lastFound?_append, Option.or_assoc]

/-- A look-up that hits gives what is in the survey at hand, whatever the server serves. -/
theorem result_of_held {s : Survey} (held : d.survey = some s) (hin : q.In s)
    (before after : Documents) :
    (q.lookUp d before after).result = (q.look? s).map .ok ∧
      (q.lookUp d before after).surveys = 0 := by
  refine ⟨?_, (looksUp q d before after).hit s held hin⟩
  obtain ⟨r, hlook⟩ := Option.isSome_iff_exists.mp (Query.look?_isSome_iff.mpr hin)
  rw [q.lookUp_eq, findAmid]
  simp [current, held, hlook]

/-- After any steps a look-up finds what the survey at hand has, or a new one if none failed before
it, and what it finds is in the survey that is then at hand. It takes no survey, one or two. The
survey at hand is the last that succeeded, so while surveys fail all look-ups that hit go on to give
what they gave. -/
theorem finds_what_was_surveyed (steps : List Step) (q : Query) :
    ((run {} steps).survey = lastFound? (made {} steps)) ∧
    (∀ before after, LooksUp q (run {} steps) (lookUpMade q (run {} steps) before after)
      (q.lookUp (run {} steps) before after)) ∧
    ∀ s more before after before' after', (run {} steps).survey = some s → q.In s →
      (∀ documents ∈ made (run {} steps) more, found? documents = none) →
      ∃ r, (q.lookUp (run {} steps) before after).result = some (.ok r) ∧
        (q.lookUp (run {} (steps ++ more)) before' after').result = some (.ok r) ∧
        (q.lookUp (run {} (steps ++ more)) before' after').surveys = 0 := by
  refine ⟨?_, fun before after => looksUp q _ before after, ?_⟩
  · rw [survey_run, Option.or_none]
  · intro s more before after before' after' held hin hfail
    obtain ⟨r, hlook⟩ := Option.isSome_iff_exists.mp (Query.look?_isSome_iff.mpr hin)
    have hmore : (run {} (steps ++ more)).survey = some s := by
      rw [run, List.foldl_append]
      change ((run {} steps).run more).survey = some s
      rw [survey_run, lastFound?_eq_none hfail, Option.none_or, held]
    have hthen := result_of_held hmore hin before' after'
    refine ⟨r, ?_, ?_, hthen.2⟩
    · rw [(result_of_held held hin before after).1, hlook, Option.map_some]
    · rw [hthen.1, hlook, Option.map_some]

/-- A server with one resource. -/
def oneResource : Documents := fun path =>
  let body :=
    if path = groupsPath then "\x7b\x7d"
    else if path = "/api" then "\x7b\"versions\":[\"v\"]\x7d"
    else "\x7b\"resources\":[\x7b\"name\":\"p\"\x7d]\x7d"
  .response 200 body .complete

def unreachable : Documents := fun _ => .failure

/-- What a survey of that server finds. -/
def onlySurvey : Survey := ⟨[("", [⟨"v", [⟨"", "", "", "", "p"⟩]⟩])]⟩

theorem found?_oneResource : found? oneResource = some onlySurvey := by
  cbv

theorem finds_through_an_outage :
    let q : Query := .named "" "v" "p"
    let surveyed := run {} [.refresh oneResource]
    let later := run {} ([.refresh oneResource] ++ [.refresh unreachable])
    surveyed.survey = some onlySurvey ∧ q.In onlySurvey ∧
      (∀ documents ∈ made surveyed [.refresh unreachable], found? documents = none) ∧
      ∃ r, (q.lookUp surveyed unreachable unreachable).result = some (.ok r) ∧
        (q.lookUp later unreachable unreachable).result = some (.ok r) ∧
        (q.lookUp later unreachable unreachable).surveys = 0 := by
  have held : (run {} [.refresh oneResource]).survey = some onlySurvey := by
    rw [survey_run, made, made_refresh, made, List.append_nil, lastFound?_singleton,
      found?_oneResource, Option.some_or]
  have hin : (Query.named "" "v" "p").In onlySurvey := ⟨⟨"", "", "", "", "p"⟩, by decide, rfl⟩
  have hfail : ∀ documents ∈ made (run {} [.refresh oneResource]) [.refresh unreachable],
      found? documents = none := by
    intro documents hmem
    rw [made, made_refresh, made, List.append_nil, List.mem_singleton] at hmem
    rw [hmem]
    rfl
  exact ⟨held, hin, hfail, (finds_what_was_surveyed [.refresh oneResource] _).2.2 onlySurvey
    [.refresh unreachable] _ _ _ _ held hin hfail⟩

end Directory
end StatusRelay
