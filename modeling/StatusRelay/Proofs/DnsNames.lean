import StatusRelay.Proofs.NameShapes

/-!
# Record names as DNS names

A DNS name is a row of labels with dots between them. A record's name is short enough for one, is
written in its alphabet, and starts and ends well, as the readable part is trimmed and digits follow
it. But the readable part is made character by character, so on either side of an inner dot stands
whatever the object's text had there. Labels are sound exactly if every dot of the name has letters
or digits on both sides, so a record's name is a DNS name exactly if this holds for what is kept of
the text.
-/
namespace StatusRelay
namespace Dns

/-- The characters of `[a-z0-9]`. -/
def isLetterOrDigit (c : Char) : Bool := c.isLower || c.isDigit

def StartsWell (cs : List Char) : Prop := ∃ c ∈ cs.head?, isLetterOrDigit c = true

def EndsWell (cs : List Char) : Prop := ∃ c ∈ cs.getLast?, isLetterOrDigit c = true

/-- What stands between two dots. -/
structure IsLabel (cs : List Char) : Prop where
  nonempty : cs ≠ []
  allowed : ∀ c ∈ cs, isLetterOrDigit c = true ∨ c = '-'
  start : StartsWell cs
  finish : EndsWell cs

/-- A DNS-1123 subdomain. -/
structure IsSubdomain (name : String) : Prop where
  short : name.toUTF8.size ≤ 253
  labels : ∀ label ∈ name.toList.splitOn '.', IsLabel label

/-- Of two neighbours, one that is a dot has a letter or digit beside it. -/
def Beside (c d : Char) : Prop :=
  (c = '.' → isLetterOrDigit d = true) ∧ (d = '.' → isLetterOrDigit c = true)

instance (c d : Char) : Decidable (Beside c d) := inferInstanceAs (Decidable (_ ∧ _))

/-- What sound labels are, said of a text that is not taken apart. -/
structure WellDotted (cs : List Char) : Prop where
  allowed : ∀ c ∈ cs, isLetterOrDigit c = true ∨ c = '-' ∨ c = '.'
  start : StartsWell cs
  finish : EndsWell cs
  dots : cs.IsChain Beside

variable {cs rest : List Char}

theorem ne_dot_of_letterOrDigit {c : Char} (h : isLetterOrDigit c = true) : c ≠ '.' := by
  rintro rfl
  revert h
  decide

theorem StartsWell.ne_nil (h : StartsWell cs) : cs ≠ [] := by
  rintro rfl
  obtain ⟨c, hc, -⟩ := h
  cases hc

theorem EndsWell.ne_nil (h : EndsWell cs) : cs ≠ [] := by
  rintro rfl
  obtain ⟨c, hc, -⟩ := h
  cases hc

/-! ## Taking a text apart at a dot -/

theorem startsWell_append_dot : StartsWell (cs ++ '.' :: rest) ↔ StartsWell cs := by
  cases cs with
  | nil =>
    have hdot : ¬ StartsWell ('.' :: rest) := by
      rintro ⟨c, hc, hl⟩
      cases hc
      exact ne_dot_of_letterOrDigit hl rfl
    exact iff_of_false hdot fun h => h.ne_nil rfl
  | cons c l => rfl

theorem endsWell_append_dot : EndsWell (cs ++ '.' :: rest) ↔ EndsWell rest := by
  rw [EndsWell, List.getLast?_append_of_ne_nil _ (List.cons_ne_nil _ _)]
  cases rest with
  | nil =>
    have hdot : ¬ EndsWell ['.'] := by
      rintro ⟨c, hc, hl⟩
      cases hc
      exact ne_dot_of_letterOrDigit hl rfl
    exact iff_of_false hdot fun h => h.ne_nil rfl
  | cons c l => rw [List.getLast?_cons_cons, EndsWell]

theorem isChain_of_dotless (h : '.' ∉ cs) : cs.IsChain Beside := by
  have hne : ∀ c ∈ cs, c ≠ '.' := fun c hc he => h (he ▸ hc)
  have hbeside : ∀ c ∈ cs, ∀ d ∈ cs, Beside c d := fun c hc d hd =>
    ⟨fun he => (hne c hc he).elim, fun he => (hne d hd he).elim⟩
  exact (List.pairwise_of_forall_mem_list hbeside).isChain

theorem isChain_append_dot (h : '.' ∉ cs) (hcs : cs ≠ []) (hrest : rest ≠ []) :
    (cs ++ '.' :: rest).IsChain Beside ↔
      EndsWell cs ∧ StartsWell rest ∧ rest.IsChain Beside := by
  rw [List.isChain_append, List.isChain_cons]
  obtain ⟨last, hlast⟩ := Option.ne_none_iff_exists'.mp (mt List.getLast?_eq_none_iff.mp hcs)
  obtain ⟨next, hnext⟩ := Option.ne_none_iff_exists'.mp (mt List.head?_eq_none_iff.mp hrest)
  have hends : EndsWell cs ↔ isLetterOrDigit last = true := by simp [EndsWell, hlast]
  have hstarts : StartsWell rest ↔ isLetterOrDigit next = true := by simp [StartsWell, hnext]
  have hleft : Beside last '.' ↔ isLetterOrDigit last = true := by
    refine ⟨fun hb => hb.2 rfl, fun hl => ⟨fun he => ?_, fun _ => hl⟩⟩
    exact (ne_dot_of_letterOrDigit hl he).elim
  have hright : Beside '.' next ↔ isLetterOrDigit next = true := by
    refine ⟨fun hb => hb.1 rfl, fun hl => ⟨fun _ => hl, fun he => ?_⟩⟩
    exact (ne_dot_of_letterOrDigit hl he).elim
  rw [hends, hstarts, hlast, hnext]
  constructor
  · rintro ⟨-, ⟨hafter, hchain⟩, hbefore⟩
    exact ⟨hleft.mp (hbefore last rfl '.' rfl), hright.mp (hafter next rfl), hchain⟩
  · rintro ⟨hl, hn, hchain⟩
    refine ⟨isChain_of_dotless h, ⟨?_, hchain⟩, ?_⟩
    · rintro d ⟨⟩
      exact hright.mpr hn
    · rintro c ⟨⟩ d ⟨⟩
      exact hleft.mpr hl

theorem wellDotted_iff_of_dotless (h : '.' ∉ cs) : WellDotted cs ↔ IsLabel cs := by
  constructor
  · intro hw
    refine ⟨hw.start.ne_nil, fun c hc => ?_, hw.start, hw.finish⟩
    rcases hw.allowed c hc with hl | hdash | hdot
    · exact .inl hl
    · exact .inr hdash
    · exact (h (hdot ▸ hc)).elim
  · intro hl
    exact ⟨fun c hc => (hl.allowed c hc).imp_right .inl, hl.start, hl.finish, isChain_of_dotless h⟩

/-- The first label ends at the first dot, and the others are those of the rest. -/
theorem wellDotted_append_dot (h : '.' ∉ cs) :
    WellDotted (cs ++ '.' :: rest) ↔ IsLabel cs ∧ WellDotted rest := by
  rw [← wellDotted_iff_of_dotless h]
  constructor
  · intro hw
    have hstart := startsWell_append_dot.mp hw.start
    have hfinish := endsWell_append_dot.mp hw.finish
    obtain ⟨hends, hstarts, hdots⟩ :=
      (isChain_append_dot h hstart.ne_nil hfinish.ne_nil).mp hw.dots
    refine ⟨⟨fun c hc => ?_, hstart, hends, isChain_of_dotless h⟩,
      ⟨fun c hc => ?_, hstarts, hfinish, hdots⟩⟩
    · exact hw.allowed c (List.mem_append_left _ hc)
    · exact hw.allowed c (List.mem_append_right _ (List.mem_cons_of_mem _ hc))
  · rintro ⟨hl, hw⟩
    refine ⟨fun c hc => ?_, startsWell_append_dot.mpr hl.start, endsWell_append_dot.mpr hw.finish,
      (isChain_append_dot h hl.start.ne_nil hw.start.ne_nil).mpr ⟨hl.finish, hw.start, hw.dots⟩⟩
    rcases List.mem_append.mp hc with hc | hc
    · exact hl.allowed c hc
    · rcases List.mem_cons.mp hc with rfl | hc
      · exact .inr (.inr rfl)
      · exact hw.allowed c hc

theorem labels_iff (cs : List Char) :
    (∀ label ∈ cs.splitOn '.', IsLabel label) ↔ WellDotted cs := by
  by_cases h : '.' ∈ cs
  · obtain ⟨first, rest, hcs, hfirst⟩ := List.eq_append_cons_of_mem h
    have hsplit : (first ++ '.' :: rest).splitOn '.' = first :: rest.splitOn '.' :=
      List.splitOn_append_cons_self_of_not_mem hfirst rest
    rw [hcs, hsplit, List.forall_mem_cons, labels_iff rest, wellDotted_append_dot hfirst]
  · have hsplit : cs.splitOn '.' = [cs] := List.splitOn_eq_singleton h
    rw [hsplit, List.forall_mem_singleton, wellDotted_iff_of_dotless h]
termination_by cs.length
decreasing_by
  have hlength := congrArg List.length hcs
  rw [List.length_append, List.length_cons] at hlength
  omega

end Dns

open Dns RecordName

namespace RecordName

/-- A text without what stands before its first letter or digit and behind its last. -/
def trimOthers (cs : List Char) : List Char :=
  ((cs.dropWhile fun c => !isAsciiAlphanum c).reverse.dropWhile fun c => !isAsciiAlphanum c).reverse

/-- What is kept of an object's text `kind-namespace-name`, before other characters are replaced. -/
def kept (kind ns name : String) : List Char :=
  trimOthers (((joined kind ns name).toList.flatMap lowered).take readableLength)

theorem isAlphanum_of_isFiller {c : Char} (h : isFiller c = true) : isAsciiAlphanum c = false := by
  rcases Bool.or_eq_true_iff.mp h with hc | hc
  · rw [beq_iff_eq.mp hc]
    decide
  · rw [beq_iff_eq.mp hc]
    decide

/-- Trimming after the other characters are replaced is trimming down to letters and digits. -/
theorem isFiller_sanitized (c : Char) : isFiller (sanitized c) = !isAsciiAlphanum c := by
  unfold sanitized
  split
  case isTrue hname =>
    cases hf : isFiller c with
    | true =>
      rw [isAlphanum_of_isFiller hf]
      rfl
    | false =>
      rw [isNameChar_eq, hf, Bool.or_false] at hname
      rw [isAsciiAlphanum, hname]
      rfl
  case isFalse hname =>
    rw [isNameChar_eq, Bool.or_eq_true, not_or] at hname
    rw [isAsciiAlphanum, Bool.eq_false_iff.mpr hname.1]
    rfl

theorem trimFiller_map_sanitized (cs : List Char) :
    trimFiller (cs.map sanitized) = (trimOthers cs).map sanitized := by
  have hcomp : isFiller ∘ sanitized = fun c => !isAsciiAlphanum c := funext isFiller_sanitized
  simp only [trimFiller, trimOthers, List.dropWhile_map, ← List.map_reverse, hcomp]

theorem readable_eq_map_kept (kind ns name : String) :
    readable kind ns name = (kept kind ns name).map sanitized := by
  rw [readable, ← List.map_take, trimFiller_map_sanitized, kept]

theorem isAlphanum_of_letterOrDigit {c : Char} (h : isLetterOrDigit c = true) :
    c.isAlphanum = true := by
  rcases Bool.or_eq_true_iff.mp h with hl | hd
  · simp [Char.isAlphanum, Char.isAlpha, hl]
  · simp [Char.isAlphanum, hd]

theorem isLetterOrDigit_sanitized (c : Char) :
    isLetterOrDigit (sanitized c) = isLetterOrDigit c := by
  unfold sanitized
  split
  case isTrue => rfl
  case isFalse hname =>
    rw [isNameChar_eq, Bool.or_eq_true, not_or] at hname
    rw [Bool.eq_false_iff.mpr (mt isAlphanum_of_letterOrDigit hname.1)]
    decide

theorem sanitized_eq_dot_iff (c : Char) : sanitized c = '.' ↔ c = '.' := by
  unfold sanitized
  split
  case isTrue => rfl
  case isFalse hname =>
    refine iff_of_false (by decide) ?_
    rintro rfl
    exact hname (by decide)

theorem beside_sanitized (c d : Char) : Beside (sanitized c) (sanitized d) ↔ Beside c d := by
  simp only [Beside, isLetterOrDigit_sanitized, sanitized_eq_dot_iff]

theorem InAlphabet.letterOrDigit {c : Char} (h : InAlphabet c) (ha : c.isAlphanum = true) :
    isLetterOrDigit c = true := by
  simpa [Char.isAlphanum, Char.isAlpha, h.2, isLetterOrDigit] using ha

theorem InAlphabet.allowed {c : Char} (h : InAlphabet c) :
    isLetterOrDigit c = true ∨ c = '-' ∨ c = '.' := by
  have hname := h.1
  rw [isNameChar_eq, Bool.or_eq_true] at hname
  rcases hname with ha | hf
  · exact .inl (h.letterOrDigit ha)
  · rw [isFiller, Bool.or_eq_true, beq_iff_eq, beq_iff_eq] at hf
    exact .inr hf

/-- Trimmed text ends with neither dash nor dot. -/
theorem isFiller_getLast_trimFiller {cs : List Char} {c : Char}
    (h : c ∈ (trimFiller cs).getLast?) : isFiller c = false := by
  rw [trimFiller, List.getLast?_reverse] at h
  have hhead := List.head?_dropWhile_not isFiller (cs.dropWhile isFiller).reverse
  rwa [h] at hhead

end RecordName

namespace Identity

variable (i : Identity)

/-- Every dot in what is kept of the object's text has a letter or digit on both sides. -/
def DotsApart (i : Identity) : Prop := (kept i.kind i.ns i.name).IsChain Beside

instance : Decidable i.DotsApart := inferInstanceAs (Decidable (List.IsChain _ _))

theorem isChain_front_iff : i.front.IsChain Beside ↔ i.DotsApart := by
  rw [front, readable_eq_map_kept, List.isChain_map, DotsApart]
  simp only [beside_sanitized]

theorem dotless_digits : '.' ∉ i.digits := by
  intro h
  have hdot := (i.mem_digits h).2
  revert hdot
  decide

/-- Behind the front stand a dash and digits, so all dots are in the front. -/
theorem isChain_record_iff : i.record.toList.IsChain Beside ↔ i.front.IsChain Beside := by
  have hdigits : i.digits.IsChain Beside := isChain_of_dotless i.dotless_digits
  rw [toList_record, dashed]
  split
  case isTrue hnil => simp [hnil, hdigits]
  case isFalse hne =>
    have htail : ('-' :: i.digits).IsChain Beside := by
      refine isChain_of_dotless ?_
      rw [List.mem_cons, not_or]
      exact ⟨by decide, i.dotless_digits⟩
    rw [List.append_assoc, List.singleton_append, List.isChain_append]
    refine ⟨fun h => h.1, fun h => ⟨h, htail, ?_⟩⟩
    rintro c hc d ⟨⟩
    have hfiller : isFiller c = false := isFiller_getLast_trimFiller hc
    refine ⟨?_, fun he => absurd he (by decide)⟩
    rintro rfl
    cases hfiller

theorem wellDotted_record_iff : WellDotted i.record.toList ↔ i.DotsApart := by
  rw [← isChain_front_iff, ← isChain_record_iff]
  refine ⟨fun h => h.dots, fun h => ⟨fun c hc => (i.inAlphabet_record c hc).allowed, ?_, ?_, h⟩⟩
  · obtain ⟨c, rest, hlist, halphanum⟩ := i.record_start
    have hc : c ∈ i.record.toList := by simp [hlist]
    rw [hlist]
    exact ⟨c, rfl, (i.inAlphabet_record c hc).letterOrDigit halphanum⟩
  · have hne : i.digits ≠ [] := by
      intro hnil
      have hlength := i.length_digits
      rw [hnil] at hlength
      cases hlength
    have hlast := i.mem_digits (List.getLast_mem hne)
    rw [toList_record]
    refine ⟨i.digits.getLast hne, ?_, hlast.1.letterOrDigit hlast.2⟩
    rw [List.getLast?_append_of_ne_nil _ hne, List.getLast?_eq_some_getLast hne]
    rfl

/-- The name of a record is a DNS name exactly if the dots of the object's text are apart. -/
theorem record_is_subdomain_iff : IsSubdomain i.record ↔ i.DotsApart := by
  rw [← wellDotted_record_iff, ← labels_iff]
  exact ⟨fun h => h.labels, fun h => ⟨i.wellNamed.short, h⟩⟩

/-- A colon becomes a dash, and the dash ends a label. -/
theorem colon_before_dot_makes_no_subdomain : ¬ IsSubdomain (recordName "Thing" "" "a:.b") := by
  intro h
  have hdots : (Identity.mk "Thing" "" "a:.b").DotsApart :=
    (wellDotted_record_iff _).mp ((labels_iff _).mp h.labels)
  revert hdots
  decide +kernel

end Identity
end StatusRelay
