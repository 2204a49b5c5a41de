import StatusRelay.Config
import StatusRelay.Proofs.Numerals

/-!
# Settings that make a configuration

Two variables must hold a text and three may hold a number; what is asked of them stands in a list,
in the order in which they are checked. An environment makes a configuration exactly if it meets
the whole list. The configuration then has the texts as they stand, the decimal values of the
numbers, and the defaults for what is unset. Otherwise the error is the complaint about the first
variable that does not meet what is asked of it.

The digits of a number are gathered one by one and no step may reach the bound. That is the same as
a bound on the value of all the digits, since a number only grows with the digits behind it.
-/
namespace StatusRelay.Config

open Text

variable {env : Environment} {key value raw : String} {cs : List Char} {c : Char}
  {default least m n : Nat} {e : AgentError}

/-! ## Numbers in texts -/

/-- A text with blanks, perhaps a plus sign, decimal digits and blanks writes the number that has
these digits. -/
inductive NumberText : List Char → Nat → Prop
  | mk {front sign digits back : List Char} : (∀ c ∈ front, isBlank c = true) →
      sign = [] ∨ sign = ['+'] → digits ≠ [] → (∀ c ∈ digits, isDigit c = true) →
      (∀ c ∈ back, isBlank c = true) →
      NumberText (front ++ (sign ++ digits ++ back))
        (Nat.ofDigits 10 (digits.reverse.map digitValue))

theorem bounded?_eq_some_iff : bounded? n = some m ↔ n = m ∧ n < numberBound := by
  rw [bounded?]
  by_cases h : n < numberBound <;> simp [h]

theorem push?_eq_some_iff :
    push? n c = some m ↔ isDigit c = true ∧ n * 10 + digitValue c = m ∧ m < numberBound := by
  rw [push?, Option.bind_eq_bind, Option.bind_eq_some_iff]
  constructor
  · rintro ⟨tens, htens, h⟩
    obtain ⟨rfl, -⟩ := bounded?_eq_some_iff.mp htens
    split at h
    · rename_i hdigit
      obtain ⟨rfl, hlt⟩ := bounded?_eq_some_iff.mp h
      exact ⟨hdigit, rfl, hlt⟩
    · cases h
  · rintro ⟨hdigit, rfl, hlt⟩
    refine ⟨n * 10, bounded?_eq_some_iff.mpr ⟨rfl, by omega⟩, ?_⟩
    rw [if_pos hdigit]
    exact bounded?_eq_some_iff.mpr ⟨rfl, hlt⟩

/-- The digits before the last are below the bound if all of them are. -/
theorem foldlM_push?_eq_some_iff :
    cs.foldlM push? 0 = some n ↔
      (∀ c ∈ cs, isDigit c = true) ∧ digitsValue cs = n ∧ n < numberBound := by
  induction cs using List.reverseRecOn generalizing n with
  | nil =>
      have hzero : (0 : Nat) < numberBound := by decide
      simp only [List.foldlM_nil, Option.pure_def, Option.some.injEq, List.not_mem_nil,
        false_imp_iff, implies_true, true_and]
      exact ⟨fun h => ⟨h, h ▸ hzero⟩, fun h => h.1⟩
  | append_singleton cs c ih =>
      rw [List.foldlM_append, Option.bind_eq_bind, Option.bind_eq_some_iff, digitsValue_concat]
      simp only [List.foldlM_cons, List.foldlM_nil, bind_pure, ih, push?_eq_some_iff,
        List.mem_append, List.mem_singleton]
      constructor
      · rintro ⟨m, ⟨hdigits, rfl, -⟩, hdigit, rfl, hlt⟩
        exact ⟨fun d hd => hd.elim (hdigits d) fun h => h ▸ hdigit, rfl, hlt⟩
      · rintro ⟨hdigits, rfl, hlt⟩
        exact ⟨digitsValue cs, ⟨fun d hd => hdigits d (.inl hd), rfl, by omega⟩,
          hdigits c (.inr rfl), rfl, hlt⟩

theorem digits?_eq_some_iff : digits? cs = some n ↔ IsNumber cs n ∧ n < numberBound := by
  rw [digits?]
  by_cases hnil : cs = []
  · rw [if_pos hnil]
    exact ⟨fun h => (nomatch h), fun h => absurd hnil h.1.nonempty⟩
  · rw [if_neg hnil, foldlM_push?_eq_some_iff]
    exact ⟨fun ⟨hd, hv, hlt⟩ => ⟨⟨hnil, hd, hv⟩, hlt⟩, fun ⟨h, hlt⟩ => ⟨h.digits, h.value, hlt⟩⟩

theorem numberText_of_isNumber {front digits back : List Char} (sign : List Char)
    (hfront : ∀ c ∈ front, isBlank c = true) (hsign : sign = [] ∨ sign = ['+'])
    (hn : IsNumber digits n) (hback : ∀ c ∈ back, isBlank c = true) :
    NumberText (front ++ (sign ++ digits ++ back)) n := by
  rw [← hn.value, digitsValue_eq_ofDigits]
  exact .mk hfront hsign hn.nonempty hn.digits hback

theorem number?_sound (h : number? raw = some n) : NumberText raw.toList n ∧ n < numberBound := by
  obtain ⟨front, back, hraw, hfront, hback⟩ := exists_between raw.toList
  rw [number?] at h
  rw [hraw]
  split at h
  · rename_i rest htrim
    obtain ⟨hn, hlt⟩ := digits?_eq_some_iff.mp h
    rw [htrim]
    exact ⟨numberText_of_isNumber ['+'] hfront (.inr rfl) hn hback, hlt⟩
  · obtain ⟨hn, hlt⟩ := digits?_eq_some_iff.mp h
    exact ⟨numberText_of_isNumber [] hfront (.inl rfl) hn hback, hlt⟩

theorem number?_complete (h : NumberText raw.toList n) (hlt : n < numberBound) :
    number? raw = some n := by
  rw [number?]
  generalize raw.toList = cs at h
  obtain @⟨front, sign, digits, back, hfront, hsign, hne, hdigits, hback⟩ := h
  have hn : digits? digits = some (Nat.ofDigits 10 (digits.reverse.map digitValue)) :=
    digits?_eq_some_iff.mpr ⟨⟨hne, hdigits, digitsValue_eq_ofDigits digits⟩, hlt⟩
  have hcore : ∀ c ∈ sign ++ digits, isBlank c = false := by
    intro c hc
    rcases List.mem_append.mp hc with hc | hc
    · rcases hsign with rfl | rfl
      · cases hc
      · rw [List.mem_singleton.mp hc]
        rfl
    · exact isBlank_of_isDigit (hdigits c hc)
  rw [trimChars_between hfront (List.append_ne_nil_of_right_ne_nil sign hne) hcore hback]
  rcases hsign with rfl | rfl
  · rw [List.nil_append]
    split
    · -- A plus sign is no digit.
      exact absurd (hdigits '+' List.mem_cons_self) (by decide)
    · exact hn
  · exact hn

theorem number?_eq_some_iff :
    number? raw = some n ↔ NumberText raw.toList n ∧ n < numberBound :=
  ⟨number?_sound, fun h => number?_complete h.1 h.2⟩

example : number? "\u2003+0018446744073709551615\n" = some 18446744073709551615 ∧
    number? "18446744073709551616" = none := by decide

/-! ## What is asked of a variable -/

/-- The variable is set to a text that is not blank. -/
def Given (env : Environment) (key value : String) : Prop :=
  env key = some value ∧ ∃ c ∈ value.toList, isBlank c = false

/-- The variable is unset or blank. -/
def Lacking (env : Environment) (key : String) : Prop :=
  ∀ value, env key = some value → ∀ c ∈ value.toList, isBlank c = true

/-- The number that a variable stands for: what its text writes, or a default if it is unset. -/
inductive Counts (env : Environment) (key : String) (default : Nat) : Nat → Prop
  | unset : env key = none → Counts env key default default
  | set {raw : String} {n : Nat} : env key = some raw → NumberText raw.toList n →
      n < numberBound → Counts env key default n

/-- What is asked of a variable. -/
inductive Requirement
  /-- A text that is not blank. -/
  | text (key : String)
  /-- A number that is not too small, unless the variable is unset. -/
  | number (key : String) (least : Nat)

/-- What is asked, in the order in which it is checked. -/
def requirements : List Requirement :=
  [.text "HUB_KUBECONFIG", .text "CLUSTER_NAME", .number "STATUS_AGENT_WORKERS" 1,
    .number "HUB_REQUEST_TIMEOUT_SECS" 0, .number "CACHE_SYNC_TIMEOUT_SECS" 0]

inductive Requirement.Met (env : Environment) : Requirement → Prop
  | given {key value : String} : Given env key value → Met env (.text key)
  | unset {key : String} {least : Nat} : env key = none → Met env (.number key least)
  | number {key raw : String} {least n : Nat} : env key = some raw → NumberText raw.toList n →
      n < numberBound → least ≤ n → Met env (.number key least)

/-- What is said about a variable that does not meet the requirement. -/
inductive Requirement.Complaint (env : Environment) : Requirement → AgentError → Prop
  | lacking {key : String} : Lacking env key →
      Complaint env (.text key) (.invalidConfig (key ++ " environment variable is required"))
  | noNumber {key raw : String} {least : Nat} : env key = some raw →
      (∀ n < numberBound, ¬ NumberText raw.toList n) →
      Complaint env (.number key least)
        (.invalidConfig (key ++ " has invalid value " ++ quoted raw))
  | tooSmall {key raw : String} {least n : Nat} : env key = some raw → NumberText raw.toList n →
      n < numberBound → n < least →
      Complaint env (.number key least)
        (.invalidConfig (key ++ " must be at least " ++ toString least))

/-- The complaint about the first requirement that is not met. -/
inductive FirstComplaint (env : Environment) : List Requirement → AgentError → Prop
  | here {q : Requirement} {rest : List Requirement} {e : AgentError} : q.Complaint env e →
      FirstComplaint env (q :: rest) e
  | later {q : Requirement} {rest : List Requirement} {e : AgentError} : q.Met env →
      FirstComplaint env rest e → FirstComplaint env (q :: rest) e

/-- The configuration is what the variables say, with the defaults where they say nothing. -/
structure Reads (env : Environment) (c : Config) : Prop where
  hubKubeconfig : Given env "HUB_KUBECONFIG" c.hubKubeconfig
  clusterName : Given env "CLUSTER_NAME" c.clusterName
  addonName : Given env "ADDON_NAME" c.addonName ∨
    Lacking env "ADDON_NAME" ∧ c.addonName = defaultAddonName
  workers : Counts env "STATUS_AGENT_WORKERS" defaultWorkers c.workers
  workers_pos : 1 ≤ c.workers
  hubRequest : ∃ s, Counts env "HUB_REQUEST_TIMEOUT_SECS" defaultHubRequestSeconds s ∧
    c.hubRequestTimeout = .ofSeconds s
  cacheSync : ∃ s, Counts env "CACHE_SYNC_TIMEOUT_SECS" defaultCacheSyncSeconds s ∧
    c.cacheSyncTimeout = .ofSeconds s

theorem given_or_lacking (env : Environment) (key : String) :
    (∃ value, Given env key value) ∨ Lacking env key := by
  by_cases h : Lacking env key
  · exact .inr h
  · simp only [Lacking, not_forall, Bool.not_eq_true] at h
    obtain ⟨value, hset, c, hc, hblank⟩ := h
    exact .inl ⟨value, hset, c, hc, hblank⟩

theorem Requirement.met_or_complaint (env : Environment) (q : Requirement) :
    q.Met env ∨ ∃ e, q.Complaint env e := by
  cases q with
  | text key =>
      rcases given_or_lacking env key with ⟨value, h⟩ | h
      · exact .inl (.given h)
      · exact .inr ⟨_, .lacking h⟩
  | number key least =>
      cases hset : env key with
      | none => exact .inl (.unset hset)
      | some raw =>
          by_cases h : ∃ n < numberBound, NumberText raw.toList n
          · obtain ⟨n, hlt, hn⟩ := h
            rcases Nat.lt_or_ge n least with hsmall | hle
            · exact .inr ⟨_, .tooSmall hset hn hlt hsmall⟩
            · exact .inl (.number hset hn hlt hle)
          · exact .inr ⟨_, .noNumber hset fun n hlt hn => h ⟨n, hlt, hn⟩⟩

theorem met_or_firstComplaint (env : Environment) (l : List Requirement) :
    (∀ q ∈ l, q.Met env) ∨ ∃ e, FirstComplaint env l e := by
  induction l with
  | nil => exact .inl fun q hq => nomatch hq
  | cons q rest ih =>
      rcases q.met_or_complaint env with hq | ⟨e, hq⟩
      · rcases ih with hrest | ⟨e, hrest⟩
        · exact .inl (List.forall_mem_cons.mpr ⟨hq, hrest⟩)
        · exact .inr ⟨e, .later hq hrest⟩
      · exact .inr ⟨e, .here hq⟩

/-! ## What one variable gives -/

theorem isAllBlank_eq_false (h : Given env key value) : isAllBlank value = false := by
  obtain ⟨-, c, hc, hblank⟩ := h
  rw [isAllBlank, List.all_eq_false]
  exact ⟨c, hc, by rw [hblank]; decide⟩

theorem required_of_given (h : Given env key value) : required env key = .ok value := by
  rw [required, h.1]
  exact if_neg (by rw [isAllBlank_eq_false h]; decide)

theorem required_of_lacking (h : Lacking env key) :
    required env key = .error (.invalidConfig (key ++ " environment variable is required")) := by
  rw [required]
  cases hset : env key with
  | none => rfl
  | some value => exact if_pos (List.all_eq_true.mpr (h value hset))

theorem numberOr_of_counts (h : Counts env key default n) : numberOr env key default = .ok n := by
  rw [numberOr]
  cases h with
  | unset hset => rw [hset]
  | set hset hn hlt => simp only [hset, number?_eq_some_iff.mpr ⟨hn, hlt⟩]

theorem numberOr_of_noNumber (hset : env key = some raw)
    (h : ∀ n < numberBound, ¬ NumberText raw.toList n) :
    numberOr env key default =
      .error (.invalidConfig (key ++ " has invalid value " ++ quoted raw)) := by
  have hnone : number? raw = none := by
    rw [Option.eq_none_iff_forall_ne_some]
    intro n hn
    obtain ⟨htext, hlt⟩ := number?_eq_some_iff.mp hn
    exact h n hlt htext
  simp only [numberOr, hset, hnone]

theorem required_of_complaint (h : (Requirement.text key).Complaint env e) :
    required env key = .error e := by
  cases h with
  | lacking h => exact required_of_lacking h

/-- No number is too small if zero is not. -/
theorem numberOr_of_complaint (h : (Requirement.number key 0).Complaint env e) :
    numberOr env key default = .error e := by
  cases h with
  | noNumber hset h => exact numberOr_of_noNumber hset h
  | tooSmall _ _ _ hsmall => exact absurd hsmall (Nat.not_lt_zero _)

theorem addonNameIn_of_given (h : Given env "ADDON_NAME" value) : addonNameIn env = value := by
  simp only [addonNameIn, h.1, isAllBlank_eq_false h, Bool.false_eq_true, if_false]

theorem addonNameIn_of_lacking (h : Lacking env "ADDON_NAME") :
    addonNameIn env = defaultAddonName := by
  rw [addonNameIn]
  cases hset : env "ADDON_NAME" with
  | none => rfl
  | some value => exact if_pos (List.all_eq_true.mpr (h value hset))

/-! ## What an environment gives -/

theorem ofEnvironment_of_reads {c : Config} (h : Reads env c) : ofEnvironment env = .ok c := by
  obtain ⟨hub, cluster, addon, workers, seconds, sync⟩ := c
  obtain ⟨hhub, hcluster, haddon, hworkers, hpos, ⟨s, hs, rfl⟩, ⟨s', hs', rfl⟩⟩ := h
  have hname : addonNameIn env = addon := by
    rcases haddon with h | ⟨h, rfl⟩
    · exact addonNameIn_of_given h
    · exact addonNameIn_of_lacking h
  have hnonzero : ¬ workers = 0 := Nat.ne_of_gt hpos
  simp only [ofEnvironment, required_of_given hhub, required_of_given hcluster,
    numberOr_of_counts hworkers, numberOr_of_counts hs, numberOr_of_counts hs', hname, bind,
    Except.bind, hnonzero, if_false, pure, Except.pure]

theorem exists_counts_of_met (default : Nat) (h : (Requirement.number key least).Met env)
    (hle : least ≤ default) : ∃ n, Counts env key default n ∧ least ≤ n := by
  cases h with
  | unset hset => exact ⟨default, .unset hset, hle⟩
  | number hset hn hlt hle => exact ⟨_, .set hset hn hlt, hle⟩

theorem exists_given_of_met (h : (Requirement.text key).Met env) :
    ∃ value, Given env key value := by
  cases h with
  | given h => exact ⟨_, h⟩

theorem exists_reads (h : ∀ q ∈ requirements, q.Met env) : ∃ c, Reads env c := by
  simp only [requirements, List.forall_mem_cons] at h
  obtain ⟨hhub, hcluster, hworkers, hseconds, hsync, -⟩ := h
  obtain ⟨hub, hhub⟩ := exists_given_of_met hhub
  obtain ⟨cluster, hcluster⟩ := exists_given_of_met hcluster
  obtain ⟨workers, hworkers, hpos⟩ :=
    exists_counts_of_met defaultWorkers hworkers (by decide)
  obtain ⟨s, hs, -⟩ :=
    exists_counts_of_met defaultHubRequestSeconds hseconds (Nat.zero_le _)
  obtain ⟨s', hs', -⟩ :=
    exists_counts_of_met defaultCacheSyncSeconds hsync (Nat.zero_le _)
  rcases given_or_lacking env "ADDON_NAME" with ⟨addon, haddon⟩ | haddon
  · exact ⟨⟨hub, cluster, addon, workers, .ofSeconds s, .ofSeconds s'⟩, hhub, hcluster,
      .inl haddon, hworkers, hpos, ⟨s, hs, rfl⟩, ⟨s', hs', rfl⟩⟩
  · exact ⟨⟨hub, cluster, defaultAddonName, workers, .ofSeconds s, .ofSeconds s'⟩, hhub, hcluster,
      .inr ⟨haddon, rfl⟩, hworkers, hpos, ⟨s, hs, rfl⟩, ⟨s', hs', rfl⟩⟩

theorem ofEnvironment_of_firstComplaint (h : FirstComplaint env requirements e) :
    ofEnvironment env = .error e := by
  rw [requirements] at h
  simp only [ofEnvironment, bind, Except.bind]
  rcases h with h | ⟨hhub, h⟩
  · simp only [required_of_complaint h]
  obtain ⟨hub, hhub⟩ := exists_given_of_met hhub
  simp only [required_of_given hhub]
  rcases h with h | ⟨hcluster, h⟩
  · simp only [required_of_complaint h]
  obtain ⟨cluster, hcluster⟩ := exists_given_of_met hcluster
  simp only [required_of_given hcluster]
  rcases h with h | ⟨hworkers, h⟩
  · cases h with
    | noNumber hset h => simp only [numberOr_of_noNumber hset h]
    | tooSmall hset hn hlt hsmall =>
        -- The only number below one is zero, and that is asked for by name.
        obtain rfl := Nat.lt_one_iff.mp hsmall
        simp only [numberOr_of_counts (.set hset hn hlt)]
        rfl
  obtain ⟨workers, hworkers, hpos⟩ :=
    exists_counts_of_met defaultWorkers hworkers (by decide)
  have hnonzero : ¬ workers = 0 := Nat.ne_of_gt hpos
  simp only [numberOr_of_counts hworkers, hnonzero, if_false, pure, Except.pure]
  rcases h with h | ⟨hseconds, h⟩
  · simp only [numberOr_of_complaint h]
  obtain ⟨s, hs, -⟩ :=
    exists_counts_of_met defaultHubRequestSeconds hseconds (Nat.zero_le _)
  simp only [numberOr_of_counts hs]
  rcases h with h | ⟨-, h⟩
  · simp only [numberOr_of_complaint h]
  · cases h

/-- Either all requirements are met and there is a configuration to be read, or there is something
to complain about, and the result is the one or the other. -/
theorem ofEnvironment_cases (env : Environment) :
    (∃ c, (∀ q ∈ requirements, q.Met env) ∧ Reads env c ∧ ofEnvironment env = .ok c) ∨
      ∃ e, FirstComplaint env requirements e ∧ ofEnvironment env = .error e := by
  rcases met_or_firstComplaint env requirements with hall | ⟨e, hfirst⟩
  · obtain ⟨c, hc⟩ := exists_reads hall
    exact .inl ⟨c, hall, hc, ofEnvironment_of_reads hc⟩
  · exact .inr ⟨e, hfirst, ofEnvironment_of_firstComplaint hfirst⟩

theorem ofEnvironment_eq_ok_iff {c : Config} : ofEnvironment env = .ok c ↔ Reads env c := by
  refine ⟨fun hok => ?_, ofEnvironment_of_reads⟩
  rcases ofEnvironment_cases env with ⟨c', -, hc', hresult⟩ | ⟨e, -, hresult⟩
  · rw [hresult] at hok
    cases hok
    exact hc'
  · rw [hresult] at hok
    cases hok

theorem ofEnvironment_eq_error_iff :
    ofEnvironment env = .error e ↔ FirstComplaint env requirements e := by
  refine ⟨fun herror => ?_, ofEnvironment_of_firstComplaint⟩
  rcases ofEnvironment_cases env with ⟨c, -, -, hresult⟩ | ⟨e', hfirst, hresult⟩
  · rw [hresult] at herror
    cases herror
  · rw [hresult] at herror
    cases herror
    exact hfirst

theorem exists_ofEnvironment_eq_ok_iff :
    (∃ c, ofEnvironment env = .ok c) ↔ ∀ q ∈ requirements, q.Met env := by
  constructor
  · rintro ⟨c, hok⟩
    rcases ofEnvironment_cases env with ⟨-, hall, -⟩ | ⟨e, -, hresult⟩
    · exact hall
    · rw [hresult] at hok
      cases hok
  · intro hall
    obtain ⟨c, hc⟩ := exists_reads hall
    exact ⟨c, ofEnvironment_of_reads hc⟩

/-- An environment makes a configuration exactly if it meets all requirements, the configuration is
what the variables say, and an error is the complaint about the first requirement not met. -/
theorem accepted_iff_well_formed (env : Environment) :
    ((∃ c, ofEnvironment env = .ok c) ↔ ∀ q ∈ requirements, q.Met env) ∧
      (∀ c, ofEnvironment env = .ok c ↔ Reads env c) ∧
        ∀ e, ofEnvironment env = .error e ↔ FirstComplaint env requirements e :=
  ⟨exists_ofEnvironment_eq_ok_iff, fun _ => ofEnvironment_eq_ok_iff,
    fun _ => ofEnvironment_eq_error_iff⟩

end StatusRelay.Config
