import PerfGate.Proofs.Grouping.Faults
import PerfGate.Proofs.Json.Literal
import PerfGate.Proofs.Json.ScanExact

/-!
# Field — numbers and their texts

A metric value may be a number or the text of one, and the two are read by different readers. The
text of a literal is read as the double nearest to it (`readNumber?_quoted`); the number itself is
scanned, which is exact for plain literals and close for all others (`exists_readNumber?_number`).
Where both readers find the same double, it makes no difference to the groups of a log which form its
values have (`Grouping.ofRecords_respelled`).
-/

namespace PerfGate

namespace Numeral

open Binary64

variable {text : List Char} {n : Numeral}

/-- How far a double of the numeral's sign is from it. -/
theorem abs_value_sub_toRat {m : Nat} (hm : Representable m) :
    |(finite n.negative m hm).value - n.toRat| = |(m : ℚ) - n.magnitude.toRat * perOne| / perOne := by
  have hpos := cast_perOne_pos
  have hscale : (m : ℚ) / perOne - n.magnitude.toRat =
      (m - n.magnitude.toRat * perOne) / perOne := by
    rw [sub_div, mul_div_cancel_right₀ _ hpos.ne']
  have habs : |(m : ℚ) / perOne - n.magnitude.toRat| =
      |(m : ℚ) - n.magnitude.toRat * perOne| / perOne := by
    rw [hscale, abs_div, abs_of_pos hpos]
  rw [value_finite, toRat]
  split_ifs
  · rw [neg_sub_neg, abs_sub_comm]
    exact habs
  · exact habs

theorem abs_toRat (n : Numeral) : |n.toRat| = n.magnitude.toRat := by
  unfold toRat
  split_ifs
  · rw [abs_neg, abs_of_nonneg (Decimal.toRat_nonneg _)]
  · exact abs_of_nonneg (Decimal.toRat_nonneg _)

/-- A distance in units as a distance of values. -/
theorem abs_value_sub_toRat_le {m : Nat} (hm : Representable m) {c slack : ℚ}
    (h : |(m : ℚ) - n.magnitude.toRat * perOne| ≤ c * (n.magnitude.toRat * perOne) + slack) :
    |(finite n.negative m hm).value - n.toRat| ≤ c * |n.toRat| + 2 * slack * halfUnit := by
  have hpos := cast_perOne_pos
  rw [abs_value_sub_toRat, abs_toRat, div_le_iff₀ hpos]
  refine h.trans (le_of_eq ?_)
  unfold halfUnit
  field_simp

/-! ## The nearest double -/

/-- **No double is nearer to a numeral**, and the nearest one is half a unit and a share of
`roundoff` away at most. -/
theorem abs_nearest_sub_le (hfinite : n.nearest.isFinite) :
    |n.nearest.value - n.toRat| ≤ roundoff * |n.toRat| + halfUnit ∧
      ∀ y : Binary64, y.isFinite → |n.nearest.value - n.toRat| ≤ |y.value - n.toRat| := by
  obtain ⟨m, hm, hnearest, hclose, hbest⟩ := Decimal.exists_nearest hfinite
  have hx : n.nearest = finite n.negative m hm := hnearest
  rw [hx]
  refine ⟨?_, fun y hy => ?_⟩
  · have h := abs_value_sub_toRat_le hm hclose
    rwa [mul_one_div_cancel (by norm_num), one_mul] at h
  · -- a double on the other side of zero is no nearer than its opposite
    cases y with
    | nan => cases hy
    | infinite s => cases hy
    | finite s k hk =>
        refine le_trans ?_ (abs_abs_sub_abs_le _ _)
        rw [abs_value_sub_toRat, abs_value_finite, abs_toRat]
        have hpos := cast_perOne_pos
        have hscale : (k : ℚ) / perOne - n.magnitude.toRat =
            (k - n.magnitude.toRat * perOne) / perOne := by
          rw [sub_div, mul_div_cancel_right₀ _ hpos.ne']
        rw [hscale, abs_div, abs_of_pos hpos]
        exact div_le_div_of_nonneg_right (hbest k hk) hpos.le

/-- A numeral without a finite double is larger than all of them. -/
theorem lt_abs_toRat (h : n.nearest.isFinite = false) {y : Binary64} (hy : y.isFinite) :
    |y.value| < |n.toRat| := by
  have hlarge := Decimal.lt_of_nearest_not_finite h
  cases y with
  | nan => cases hy
  | infinite s => cases hy
  | finite s k hk =>
      rw [abs_value_finite, abs_toRat, div_lt_iff₀ cast_perOne_pos]
      exact (Nat.cast_le.2 (le_maxFinite hk)).trans_lt hlarge

end Numeral

/-! ## The two readers -/

theorem toLower_of_isDigit {c : Char} (h : c.isDigit) : c.toLower = c := by
  rw [Char.isDigit, Bool.and_eq_true, decide_eq_true_eq, decide_eq_true_eq] at h
  have hle : c.toNat ≤ 57 := h.2
  unfold Char.toLower
  rw [dif_neg]
  rintro ⟨hge, -⟩
  have hletter : 65 ≤ c.toNat := hge
  omega

/-- **The text of a literal is read as the nearest double.** No name of a special value starts with
a digit. -/
theorem readDouble?_literal {text : List Char} {n : Numeral} (h : Json.IsNumber text n) :
    readDouble? text = some n.nearest := by
  have hread := h.read?_eq
  obtain ⟨hn, exponent, he, rfl⟩ := h.exists_written
  obtain ⟨c, more, hwhole⟩ := List.exists_cons_of_ne_nil hn.whole_ne
  have hdigit : c.isDigit := hn.whole_digits c (by rw [hwhole]; exact List.mem_cons_self)
  have hname : ∀ (d : Char) (name : List Char), d.isDigit = false →
      String.ofList ((n.whole ++ (Numeral.fractionText n.fraction? ++ exponent)).map Char.toLower) ≠
        String.ofList (d :: name) := by
    intro d name hd heq
    rw [String.ofList_inj, hwhole, List.cons_append, List.map_cons, toLower_of_isDigit hdigit] at heq
    rw [(List.cons.inj heq).1, hd] at hdigit
    cases hdigit
  unfold readDouble?
  rw [Numeral.splitSign_written hn, hread]
  simp only
  rw [if_neg, if_neg]
  · rfl
  · exact hname 'n' _ rfl
  · exact not_or.2 ⟨hname 'i' _ rfl, hname 'i' _ rfl⟩

/-- An integer of a document is the double nearest to its literal. -/
theorem ofInt_of_integer?_eq_some {n : Numeral} {i : Int} (h : n.integer? = some i) :
    Binary64.ofInt i = n.nearest := by
  simp only [Numeral.integer?, Option.ite_none_right_eq_some] at h
  obtain ⟨⟨hfraction, hexponent⟩, h⟩ := h
  have hnearest : n.nearest =
      .ofUnits n.negative (Nat.ofDigitChars 10 n.whole 0 * Binary64.perOne) 1 := by
    have hone : Decimal.powerOfTen 0 = 1 := rfl
    rw [Numeral.nearest, Decimal.nearest_eq]
    simp [Decimal.numerator, Decimal.denominator, Numeral.magnitude, hfraction, hexponent, hone]
  rw [hnearest]
  split_ifs at h with hnegative hrange hlt
  · obtain rfl := Option.some.inj h
    have hsign : decide (-(Nat.ofDigitChars 10 n.whole 0 : Int) < 0) = n.negative := by
      rw [hnegative, decide_eq_true_eq]
      omega
    rw [Binary64.ofInt, hsign, Int.natAbs_neg, Int.natAbs_natCast]
    rfl
  · obtain rfl := Option.some.inj h
    have hsign : decide ((Nat.ofDigitChars 10 n.whole 0 : Int) < 0) = n.negative := by
      rw [Bool.not_eq_true] at hnegative
      rw [hnegative, decide_eq_false_iff_not]
      omega
    rw [Binary64.ofInt, hsign, Int.natAbs_natCast]
    rfl

namespace Field

open Binary64

variable {text : List Char} {n : Numeral} {v v' : Json.Value}

/-- The forms in which a field may hold a literal: the number that it is in a document, or a string
of it with any white space around it. -/
inductive FormOf (text : List Char) : Json.Value → Prop where
  | number {v : Json.Value} (h : Json.parse? text = some v) : FormOf text v
  | quoted {before after : List Char} (hbefore : ∀ c ∈ before, Text.isBlank c)
      (hafter : ∀ c ∈ after, Text.isBlank c) :
      FormOf text (.string (String.ofList (before ++ text ++ after)))

/-- The text of a literal is read as the nearest double, if that is finite. -/
theorem readNumber?_quoted (h : Json.IsNumber text n) {before after : List Char}
    (hbefore : ∀ c ∈ before, Text.isBlank c) (hafter : ∀ c ∈ after, Text.isBlank c) :
    readNumber? (.string (String.ofList (before ++ text ++ after))) =
      if n.nearest.isFinite then some n.nearest else none := by
  rw [readNumber?, String.toList_ofList, h.trim_eq hbefore hafter, readDouble?_literal h,
    Option.filter_some]

/-- **A number is read as a finite double of its sign**, no more than seven shares and a unit away
from it. -/
theorem exists_readNumber?_number (h : Json.IsNumber text n) (hv : Json.parse? text = some v) :
    ∃ m hm, readNumber? v = some (.finite n.negative m hm) ∧
      |(finite n.negative m hm).value - n.toRat| ≤ 7 * roundoff * |n.toRat| + 2 * halfUnit := by
  have hone : (2 : ℚ) * 1 = 2 := mul_one 2
  rw [h.parse?_eq, Json.numberValue?] at hv
  cases hinteger : n.integer? with
  | some i =>
      -- an integer is rounded once
      rw [hinteger] at hv
      cases hv
      have hscan := Numeral.scan?_of_plain (Numeral.plain_of_integer?_eq_some hinteger)
      obtain ⟨m, hm, hx, hclose⟩ := Numeral.exists_scan?_near h.exists_written.1 hscan
      refine ⟨m, hm, ?_, hone ▸ Numeral.abs_value_sub_toRat_le hm hclose⟩
      rw [readNumber?, ofInt_of_integer?_eq_some hinteger, hx]
  | none =>
      rw [hinteger] at hv
      obtain ⟨x, hscan, rfl⟩ := Option.map_eq_some_iff.1 hv
      obtain ⟨m, hm, rfl, hclose⟩ := Numeral.exists_scan?_near h.exists_written.1 hscan
      exact ⟨m, hm, rfl, hone ▸ Numeral.abs_value_sub_toRat_le hm hclose⟩

/-- A plain number is read as the nearest double. -/
theorem readNumber?_plain (h : Json.IsNumber text n) (hv : Json.parse? text = some v)
    (hplain : n.Plain) : readNumber? v = some n.nearest := by
  rw [h.parse?_eq, Json.numberValue?] at hv
  cases hinteger : n.integer? with
  | some i =>
      rw [hinteger] at hv
      cases hv
      rw [readNumber?, ofInt_of_integer?_eq_some hinteger]
  | none =>
      rw [hinteger, Numeral.scan?_of_plain hplain] at hv
      cases hv
      rfl

/-- What both readers find is found in every form. -/
theorem readNumber?_formOf (h : Json.IsNumber text n) (hv : Json.parse? text = some v)
    (hsame : readNumber? v = some n.nearest) (hform : FormOf text v') :
    readNumber? v' = some n.nearest := by
  cases hform with
  | number hv' =>
      rw [hv] at hv'
      cases hv'
      exact hsame
  | quoted hbefore hafter =>
      obtain ⟨m, hm, hx, -⟩ := exists_readNumber?_number h hv
      have hfinite : n.nearest.isFinite := by
        rw [Option.some.inj (hsame.symm.trans hx)]
        rfl
      rw [readNumber?_quoted h hbefore hafter, if_pos hfinite]

/-- Two ways to write a metric value: the same value, or two forms of a literal for which both
readers find the same double. -/
inductive Respelled : Json.Value → Json.Value → Prop where
  | same (v : Json.Value) : Respelled v v
  | forms {text : List Char} {n : Numeral} {v w w' : Json.Value} (h : Json.IsNumber text n)
      (hv : Json.parse? text = some v) (hsame : readNumber? v = some n.nearest)
      (hw : FormOf text w) (hw' : FormOf text w') : Respelled w w'

end Field

/-! ## Logs -/

namespace Record

/-- Rows that differ in how their metric values are written, and in fields that are not read. -/
structure Respelled (w : Workload) (r r' : Record) : Prop where
  line : r.line = r'.line
  keys : ∀ field ∈ w.keyFields, r.get? field.1 = r'.get? field.1
  values : ∀ m ∈ w.metrics,
    Option.Rel Field.Respelled (r.get? m.field) (r'.get? m.field)

variable {w : Workload} {r r' : Record}

theorem readField_congr {α : Type} {type : FieldType} {read? : Json.Value → Option α} {name : String}
    (hline : r.line = r'.line) (hget : r.get? name = r'.get? name) :
    r.readField w type read? name = r'.readField w type read? name := by
  unfold readField require
  rw [hline, hget]

/-- A metric value is the same however it is written. -/
theorem readField_number_congr {name : String} (hline : r.line = r'.line)
    (h : Option.Rel Field.Respelled (r.get? name) (r'.get? name)) :
    r.readField w .number Field.readNumber? name =
      r'.readField w .number Field.readNumber? name := by
  generalize hv : r.get? name = value? at h
  generalize hv' : r'.get? name = value?' at h
  cases h with
  | none => exact readField_congr hline (hv.trans hv'.symm)
  | some h =>
      cases h with
      | same v => exact readField_congr hline (hv.trans hv'.symm)
      | @forms text n v _ _ hnumber hparse hsame hw hw' =>
          have hleft : r.readField w .number Field.readNumber? name = .ok n.nearest := by
            rw [readField_eq_ok_iff, hv]
            exact Field.readNumber?_formOf hnumber hparse hsame hw
          have hright : r'.readField w .number Field.readNumber? name = .ok n.nearest := by
            rw [readField_eq_ok_iff, hv']
            exact Field.readNumber?_formOf hnumber hparse hsame hw'
          rw [hleft, hright]

theorem trial_respelled (h : Respelled w r r') : Trial.ofRecord w r = Trial.ofRecord w r' := by
  have hkey : ∀ {α : Type} {type : FieldType} {read? : Json.Value → Option α} {name : String},
      name ∈ w.keyFields.map Prod.fst →
        r.readField w type read? name = r'.readField w type read? name := by
    intro α type read? name hname
    obtain ⟨field, hfield, rfl⟩ := List.mem_map.1 hname
    exact readField_congr h.line (h.keys field hfield)
  have hconfiguration : Configuration.ofRecord w r = Configuration.ofRecord w r' := by
    unfold Configuration.ofRecord
    rw [hkey (by simp [Workload.keyFields]), hkey (by simp [Workload.keyFields]),
      hkey (by simp [Workload.keyFields]), hkey (by simp [Workload.keyFields])]
  have hvalues : (w.metrics.mapM fun m => r.readField w .number Field.readNumber? m.field) =
      w.metrics.mapM fun m => r'.readField w .number Field.readNumber? m.field := by
    apply mapM_eq_of_forall₂
    rw [List.forall₂_same]
    exact fun m hm => readField_number_congr h.line (h.values m hm)
  unfold Trial.ofRecord
  rw [hconfiguration, hvalues]

end Record

/-- **The groups of a log are the same however its values are written**, and so is its first
fault. -/
theorem Grouping.ofRecords_respelled {w : Workload} {rs rs' : List Record}
    (h : List.Forall₂ (Record.Respelled w) rs rs') : ofRecords w rs = ofRecords w rs' := by
  unfold ofRecords
  rw [mapM_eq_of_forall₂ (h.imp fun _ _ hrow => Record.trial_respelled hrow)]

/-! ## Both forms -/

namespace Field

open Binary64

/-- **What a literal is read as, in either form.** As a string, with any white space around it, it is
read as the nearest double, and refused only if it is larger than every double. As a number it is
read as a finite double of its sign, seven shares and a unit away at most, and a plain one as the
nearest, too. Where both readers find the same double, the groups of a log are the same whichever
form its values have. -/
theorem readNumber?_forms :
    (∀ {text n v}, Json.IsNumber text n → Json.parse? text = some v →
      (∀ {before after}, (∀ c ∈ before, Text.isBlank c) → (∀ c ∈ after, Text.isBlank c) →
        readNumber? (.string (String.ofList (before ++ text ++ after))) =
          if n.nearest.isFinite then some n.nearest else none) ∧
      (n.nearest.isFinite → ∀ y : Binary64, y.isFinite →
        |n.nearest.value - n.toRat| ≤ |y.value - n.toRat|) ∧
      (n.nearest.isFinite = false → ∀ y : Binary64, y.isFinite → |y.value| < |n.toRat|) ∧
      (n.Plain → ∀ v', FormOf text v' → readNumber? v' = some n.nearest) ∧
      ∃ m hm, readNumber? v = some (.finite n.negative m hm) ∧
        |(finite n.negative m hm).value - n.toRat| ≤ 7 * roundoff * |n.toRat| + 2 * halfUnit ∧
        (n.nearest.isFinite → |(finite n.negative m hm).value - n.nearest.value| ≤
          8 * roundoff * |n.toRat| + 3 * halfUnit)) ∧
    ∀ {w rs rs'}, List.Forall₂ (Record.Respelled w) rs rs' →
      Grouping.ofRecords w rs = Grouping.ofRecords w rs' := by
  refine ⟨fun {text n v} h hv => ⟨readNumber?_quoted h, fun hfinite =>
    (Numeral.abs_nearest_sub_le hfinite).2, fun hinfinite y => Numeral.lt_abs_toRat hinfinite,
    fun hplain v' => readNumber?_formOf h hv (readNumber?_plain h hv hplain), ?_⟩,
    Grouping.ofRecords_respelled⟩
  obtain ⟨m, hm, hx, hclose⟩ := exists_readNumber?_number h hv
  refine ⟨m, hm, hx, hclose, fun hfinite => ?_⟩
  have hnearest := (Numeral.abs_nearest_sub_le hfinite).1
  rw [abs_sub_comm] at hnearest
  calc |(finite n.negative m hm).value - n.nearest.value|
      ≤ |(finite n.negative m hm).value - n.toRat| + |n.toRat - n.nearest.value| :=
        abs_sub_le _ _ _
    _ ≤ (7 * roundoff * |n.toRat| + 2 * halfUnit) + (roundoff * |n.toRat| + halfUnit) :=
        add_le_add hclose hnearest
    _ = 8 * roundoff * |n.toRat| + 3 * halfUnit := by ring

/-- A literal of a rate. -/
def rate : Numeral := ⟨false, "125".toList, some "5".toList, none⟩

theorem isNumber_rate : Json.IsNumber "125.5".toList rate := by decide +kernel

theorem plain_rate : rate.Plain := by decide +kernel

theorem parse?_rate : Json.parse? "125.5".toList = some (.real rate.nearest) := by
  have hinteger : rate.integer? = none := by decide
  rw [isNumber_rate.parse?_eq, Json.numberValue?, hinteger, Numeral.scan?_of_plain plain_rate]
  rfl

/-- A row with one of its rates given in the form `value`. -/
def rateRow (value : Json.Value) : Record where
  line := 1
  members := [("name", .string "a"), ("dim_bits", .integer 256), ("capacity", .integer 16),
    ("size", .integer 10), ("queries_per_sec", value), ("eff_gb_per_sec", .integer 3)]

/-- A rate of `125.5` is the same as a number and as a string. -/
theorem readNumber?_forms_rate :
    readNumber? (.string (String.ofList ([' '] ++ "125.5".toList ++ ['\n']))) =
      some rate.nearest ∧
    Grouping.ofRecords .am [rateRow (.real rate.nearest)] =
      Grouping.ofRecords .am
        [rateRow (.string (String.ofList ([' '] ++ "125.5".toList ++ ['\n'])))] := by
  have hquoted : FormOf "125.5".toList
      (.string (String.ofList ([' '] ++ "125.5".toList ++ ['\n']))) :=
    .quoted (List.all_eq_true.1 rfl) (List.all_eq_true.1 rfl)
  have hplain := (readNumber?_forms.1 isNumber_rate parse?_rate).2.2.2.1 plain_rate
  refine ⟨hplain _ hquoted, readNumber?_forms.2 (.cons ⟨rfl, ?_, ?_⟩ .nil)⟩
  · simp only [Workload.keyFields, List.forall_mem_cons]
    exact ⟨rfl, rfl, rfl, rfl, by simp⟩
  · have hqueries : Respelled (.real rate.nearest)
        (.string (String.ofList ([' '] ++ "125.5".toList ++ ['\n']))) :=
      .forms isNumber_rate parse?_rate rfl (.number parse?_rate) hquoted
    have hget : ∀ value, (rateRow value).get? "queries_per_sec" = some value := by
      simp [Record.get?, rateRow, Json.Members.get?_cons]
    have hsame : ∀ value, (rateRow value).get? "eff_gb_per_sec" = some (.integer 3) := by
      simp [Record.get?, rateRow, Json.Members.get?_cons]
    simp only [Workload.metrics, List.forall_mem_cons, Metric.field, hget, hsame]
    exact ⟨.some hqueries, .some (.same _), by simp⟩

/-- A literal that is scanned to a neighbour of the nearest double. -/
def missed : Numeral := ⟨false, "900".toList, some "7199254740995".toList, none⟩

/-- **The two forms of a literal are not always read as one double**: scanning `900.7199254740995`
misses the nearest by a step. -/
theorem readNumber?_forms_differ :
    ¬ ∀ text n v, Json.IsNumber text n → Json.parse? text = some v →
      readNumber? v = readNumber? (.string (String.ofList text)) := by
  intro h
  have hnumber : Json.IsNumber "900.7199254740995".toList missed := by decide +kernel
  have hmissed : missed.scan? ≠ some missed.nearest := by decide +kernel
  have hscanned : missed.scan?.isSome := by decide +kernel
  obtain ⟨x, hx⟩ := Option.isSome_iff_exists.1 hscanned
  have hparse : Json.parse? "900.7199254740995".toList = some (.real x) := by
    have hinteger : missed.integer? = none := by decide
    rw [hnumber.parse?_eq, Json.numberValue?, hinteger, hx]
    rfl
  have hnone : ∀ c ∈ ([] : List Char), Text.isBlank c := by simp
  have hquoted := readNumber?_quoted hnumber hnone hnone
  rw [List.nil_append, List.append_nil] at hquoted
  have hsame : some x = if missed.nearest.isFinite then some missed.nearest else none :=
    (h _ _ _ hnumber hparse).trans hquoted
  obtain ⟨-, hnearest⟩ := Option.ite_none_right_eq_some.1 hsame.symm
  exact hmissed (hx.trans hnearest.symm)

end Field

end PerfGate
