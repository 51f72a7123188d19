import FeatureGuard.Artifact.Plan
import FeatureGuard.Proofs.Text.Numeral
import FeatureGuard.Proofs.Time.Calendar

/-!
Stamps, read back. The fields of a stamp give the number of its day and the time of that day, so an
instant is found again in its stamp, and different instants have different stamps. A text pins an
instant exactly where it is a numeral, apart from the blanks around it, for a second that a stamp
can show.
-/

namespace FeatureGuard.Instant

open Text

/-! ### Reading a stamp -/

/-- Reads a time of day, in seconds. -/
def clock? (t : Text) : Option ℕ :=
  match fields (· = ':') t with
  | [hour, minute, second] => do
    return 3600 * (← digits? hour) + 60 * (← digits? minute) + (← digits? second)
  | _ => none

/-- Reads a stamp. The day of the week says no more than the date does, and is passed over. -/
def ofStamp? (t : Text) : Option Instant :=
  match words t with
  | [_, month, day, clock, year] => do
    let date : Date := ⟨← int? year, (← months.idxOf? month) + 1, ← digits? day⟩
    return ⟨86400 * date.number + (← clock? clock)⟩
  | _ => none

/-! ### The fields of a stamp -/

theorem solid_weekday {i : ℕ} (h : i < 7) : (weekdays.getD i []).Solid := by
  have hall : ∀ i < 7, weekdays.getD i [] ≠ [] ∧
      ((weekdays.getD i []).all fun c => !isBlank c) = true := by
    decide
  exact solid_of_all (hall i h).1 (hall i h).2

theorem solid_month {i : ℕ} (h : i < 12) : (months.getD i []).Solid := by
  have hall : ∀ i < 12, months.getD i [] ≠ [] ∧
      ((months.getD i []).all fun c => !isBlank c) = true := by
    decide
  exact solid_of_all (hall i h).1 (hall i h).2

theorem idxOf?_month {i : ℕ} (h : i < 12) : months.idxOf? (months.getD i []) = some i := by
  have hall : ∀ i < 12, months.idxOf? (months.getD i []) = some i := by
    decide
  exact hall i h

theorem words_dayText (day : ℕ) : words (dayText day) = [ofNat day] := by
  rw [dayText]
  split
  · exact (words_append_cons [] (ofNat day) (by decide)).trans
      (words_of_solid (decimal_ofNat day).solid)
  · exact words_of_solid (decimal_ofNat day).solid

theorem numeral_yearText (year : ℤ) : Numeral (yearText year) year := by
  cases year with
  | ofNat year =>
      rw [yearText]
      split
      · have h := Numeral.unsigned (decimal_padded 4 year)
        rwa [decimalValue_padded] at h
      · have h := Numeral.plus (decimal_ofNat year)
        rwa [decimalValue_ofNat] at h
  | negSucc year =>
      have h := Numeral.minus (decimal_padded 4 (year + 1))
      rwa [decimalValue_padded] at h

theorem fields_decimal {t : Text} (h : t.Decimal) : fields (· = ':') t = [t] := by
  refine fields_of_forall h.ne_nil fun c hc => ?_
  rw [decide_eq_false_iff_not]
  rintro rfl
  exact Bool.noConfusion (h.digit ':' hc)

theorem fields_clockText (second : ℕ) : fields (· = ':') (clockText second) =
    [padded 2 (second / 3600), padded 2 (second / 60 % 60), padded 2 (second % 60)] := by
  have hgap (a b : Text) :
      fields (· = ':') (a ++ ":" ++ b) = fields (· = ':') a ++ fields (· = ':') b :=
    fields_append_gap (by decide) (List.all_eq_true.1 (by decide)) a b
  rw [clockText, hgap, hgap, fields_decimal (decimal_padded 2 _), fields_decimal (decimal_padded 2 _),
    fields_decimal (decimal_padded 2 _)]
  rfl

theorem clock?_clockText (second : ℕ) : clock? (clockText second) = some second := by
  have hsecond : 3600 * (second / 3600) + 60 * (second / 60 % 60) + second % 60 = second := by
    omega
  simp only [clock?, fields_clockText, digits?_of_decimal (decimal_padded _ _),
    decimalValue_padded]
  exact congrArg some hsecond

theorem solid_clockText (second : ℕ) : (clockText second).Solid := by
  have hcolon : Solid ":" := solid_of_all (by decide) (by decide)
  exact ((((decimal_padded 2 _).solid.append hcolon).append (decimal_padded 2 _).solid).append
    hcolon).append (decimal_padded 2 _).solid

theorem words_stamp (i : Instant) : words i.stamp =
    [weekdays.getD ((i.seconds / 86400 + 4) % 7).toNat [],
      months.getD ((Date.ofDay (i.seconds / 86400)).month - 1) [],
      ofNat (Date.ofDay (i.seconds / 86400)).day,
      clockText (i.seconds % 86400).toNat,
      yearText (Date.ofDay (i.seconds / 86400)).year] := by
  have hgap (a b : Text) : words (a ++ " " ++ b) = words a ++ words b :=
    fields_append_gap (by decide) (List.all_eq_true.1 (by decide)) a b
  have hvalid := Date.valid_ofDay (i.seconds / 86400)
  have hmonth := hvalid.month_le
  rw [stamp, hgap, hgap, hgap, hgap, words_of_solid (solid_weekday (by omega)),
    words_of_solid (solid_month (by omega)), words_dayText, words_of_solid (solid_clockText _),
    words_of_solid (numeral_yearText _).solid]
  rfl

/-- An instant is found again in its stamp. -/
theorem ofStamp?_stamp (i : Instant) : ofStamp? i.stamp = some i := by
  have hvalid := Date.valid_ofDay (i.seconds / 86400)
  have hpos := hvalid.month_pos
  have hle := hvalid.month_le
  have hnumber := Date.number_ofDay (i.seconds / 86400)
  rw [ofStamp?, words_stamp]
  generalize Date.ofDay (i.seconds / 86400) = date at *
  obtain ⟨year, month, day⟩ := date
  dsimp only at hpos hle hnumber
  have hmonth : month - 1 + 1 = month := Nat.sub_add_cancel hpos
  have hseconds : 86400 * (i.seconds / 86400) + ((i.seconds % 86400).toNat : ℤ) = i.seconds := by
    omega
  simp only [int?_of_numeral (numeral_yearText year), idxOf?_month (i := month - 1) (by omega),
    digits?_of_decimal (decimal_ofNat day), decimalValue_ofNat, clock?_clockText]
  show some (Instant.mk (86400 * Date.number ⟨year, month - 1 + 1, day⟩ + _)) = _
  rw [hmonth, hnumber, hseconds]

-- the last second before the year 0
example : (⟨-62167219201⟩ : Instant).stamp = "Fri Dec 31 23:59:59 -0001" := by decide

theorem stamp_injective : Function.Injective stamp := by
  intro i j h
  have hread := ofStamp?_stamp i
  rw [h, ofStamp?_stamp] at hread
  exact (Option.some.inj hread).symm

/-! ### Pinned instants -/

/-- The text pins the second: it is a numeral for it, apart from the blanks around it, and a stamp
can show it. -/
structure Pins (t : Text) (second : ℤ) : Prop where
  numeral : Numeral (trim t) second
  earliest_le : earliest ≤ second
  le_latest : second ≤ latest

theorem ofText?_eq_some_iff {t : Text} {second : ℤ} :
    ofText? t = some ⟨second⟩ ↔ Pins t second := by
  have hword : earliest ≤ second → second ≤ latest → isSignedWord second = true := by
    intro hearliest hlatest
    simp only [earliest, latest] at hearliest hlatest
    have hcount : (negativeCount : ℤ) = 9223372036854775808 := rfl
    rw [isSignedWord, Bool.and_eq_true]
    exact ⟨decide_eq_true (by omega), decide_eq_true (by omega)⟩
  rw [ofText?, int64?]
  simp only [Option.map_eq_some_iff, Option.filter_eq_some_iff, Instant.mk.injEq,
    exists_eq_right, int?_eq_some_iff, Bool.and_eq_true, decide_eq_true_eq]
  constructor
  · rintro ⟨⟨hnumeral, -⟩, hearliest, hlatest⟩
    exact ⟨hnumeral, hearliest, hlatest⟩
  · rintro ⟨hnumeral, hearliest, hlatest⟩
    exact ⟨⟨hnumeral, hword hearliest hlatest⟩, hearliest, hlatest⟩

theorem ofText?_eq_none {t : Text} (h : ∀ second, ¬Pins t second) : ofText? t = none := by
  rw [Option.eq_none_iff_forall_not_mem]
  rintro ⟨second⟩ hsecond
  exact h second (ofText?_eq_some_iff.1 hsecond)

end FeatureGuard.Instant

namespace FeatureGuard.Plan

/-- Banners that differ at most in their instants have different texts. -/
theorem text_banner_injective (o : Options) :
    Function.Injective fun i : Instant => (banner { o with instant := some i }).text := by
  intro i j h
  simp only [banner, Directive.text, Directive.lines, Option.map_some, List.flatMap_cons,
    List.append_assoc, List.append_cancel_left_eq, List.append_cancel_right_eq] at h
  exact Instant.stamp_injective h

end FeatureGuard.Plan

namespace FeatureGuard.StampPolicy

/-- Where a text pins a second that a stamp can show, that is the instant of the banner, whatever the
time of day, and it is found again in the stamp there; banners for different instants differ. Where
a text pins none, the banner shows the time of day, or no time if it may only show a pinned one. -/
theorem pinned_second_recovered :
    (∀ (t : Text) (second : ℤ) (clock : Instant) (o : Options),
      (Text.trim t).Numeral second → -8334601228800 ≤ second → second ≤ 8210266876799 →
        ∀ policy ∈ [now, pinned], policy.resolve clock (some t) = some ⟨second⟩ ∧
          ∃ stamp, Plan.banner { o with instant := policy.resolve clock (some t) } =
              .banner o.generator (some stamp) o.definitions ∧
            Instant.ofStamp? stamp = some ⟨second⟩) ∧
    (∀ (o : Options) (i j : Instant), (Plan.banner { o with instant := some i }).text =
      (Plan.banner { o with instant := some j }).text → i = j) ∧
    ∀ (t : Text) (clock : Instant),
      (∀ second, (Text.trim t).Numeral second →
        second < -8334601228800 ∨ 8210266876799 < second) →
        now.resolve clock (some t) = some clock ∧ pinned.resolve clock (some t) = none := by
  refine ⟨fun t second clock o hnumeral hearliest hlatest policy hpolicy => ?_,
    fun o i j h => Plan.text_banner_injective o h, fun t clock hnone => ?_⟩
  · have hpin : Instant.ofText? t = some ⟨second⟩ :=
      Instant.ofText?_eq_some_iff.2 ⟨hnumeral, hearliest, hlatest⟩
    have hresolve : policy.resolve clock (some t) = some ⟨second⟩ := by
      simp only [List.mem_cons, List.not_mem_nil, or_false] at hpolicy
      rcases hpolicy with rfl | rfl
      · rw [resolve, Option.bind_some, hpin, Option.getD_some]
      · rw [resolve, Option.bind_some, hpin]
    rw [hresolve]
    exact ⟨rfl, _, rfl, Instant.ofStamp?_stamp _⟩
  · have hpin : Instant.ofText? t = none := by
      refine Instant.ofText?_eq_none fun second hpins => ?_
      have hrange := hnone second hpins.numeral
      have hearliest : -8334601228800 ≤ second := hpins.earliest_le
      have hlatest : second ≤ 8210266876799 := hpins.le_latest
      omega
    simp only [resolve, Option.bind_some, hpin, Option.getD_none, and_self]

/-- The last second before the year 0, pinned with blanks around it and zeros in front; and a text
that is no numeral. -/
theorem pinned_second_recovered_early :
    (Text.trim ("\u3000-0062167219201\n" : Text)).Numeral (-62167219201) ∧
    now.resolve ⟨0⟩ (some "\u3000-0062167219201\n") = some ⟨-62167219201⟩ ∧
    (∃ stamp, Plan.banner { ({} : Options) with
          instant := pinned.resolve ⟨0⟩ (some "\u3000-0062167219201\n") } =
        .banner "featurec" (some stamp) "features.def" ∧
      Instant.ofStamp? stamp = some ⟨-62167219201⟩) ∧
    (∀ second, ¬(Text.trim ("1e9" : Text)).Numeral second) ∧
    now.resolve ⟨0⟩ (some "1e9") = some ⟨0⟩ ∧ pinned.resolve ⟨0⟩ (some "1e9") = none := by
  have hnumeral : (Text.trim ("\u3000-0062167219201\n" : Text)).Numeral (-62167219201) :=
    Text.numeral_of_int? (by decide +kernel)
  have hnone : ∀ second, ¬(Text.trim ("1e9" : Text)).Numeral second := by
    intro second h
    have hread : Text.int? (Text.trim ("1e9" : Text)) = none := by decide +kernel
    rw [Text.int?_of_numeral h] at hread
    cases hread
  have hpinned := pinned_second_recovered.1 _ _ ⟨0⟩ {} hnumeral (by decide) (by decide)
  have hunpinned := pinned_second_recovered.2.2 _ ⟨0⟩ fun second h => absurd h (hnone second)
  exact ⟨hnumeral, (hpinned now (by decide)).1, (hpinned pinned (by decide)).2, hnone, hunpinned⟩

end FeatureGuard.StampPolicy
