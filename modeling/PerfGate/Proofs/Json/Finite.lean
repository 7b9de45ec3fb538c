import PerfGate.Json.Value
import PerfGate.Proofs.Binary64.Bounds
import PerfGate.Proofs.Json.Members

/-!
# Json — every number of a document is finite

JSON has no spelling for an infinity or a NaN, and a number that is too large has no value instead
of an infinite one. So no value that is read from a text holds either (`parse?_finite`), however the
number was scaled on the way.
-/

namespace PerfGate

theorem Decimal.powerOfTen_pos (k : Nat) : 0 < powerOfTen k := Nat.pow_pos (by decide)

namespace Numeral

/-! ## Scanning -/

theorem keepDigits_lt {significand : Nat} (h : significand < 1 <<< 64) (digits : List Char) :
    (keepDigits significand digits).1 < 1 <<< 64 := by
  induction digits generalizing significand with
  | nil => exact h
  | cons c rest ih =>
      unfold keepDigits
      simp only
      split
      · rename_i hnext
        exact ih hnext
      · exact h

theorem atLeastOne_tenTo (k : Nat) : Binary64.AtLeastOne (tenTo k) :=
  Binary64.atLeastOne_ofNat (Decimal.powerOfTen_pos k)

/-- Scaling stays finite: divisors are no less than one, and products are checked. -/
theorem scale?_isFinite {x y : Binary64} {e : Int} (hx : x.isFinite) (h : scale? x e = some y) :
    y.isFinite := by
  -- along the steps by which a large negative power is taken off
  fun_induction scale? x e with
  | case1 e _ =>
      cases h
      exact hx
  | case2 x e _ _ _ => cases h
  | case3 x e _ _ _ ih => exact ih (Binary64.isFinite_div hx (atLeastOne_tenTo 308)) h
  | case4 x e _ _ =>
      cases h
      exact Binary64.isFinite_div hx (atLeastOne_tenTo _)
  | case5 x e _ _ _ hproduct =>
      rw [← Option.some.inj h]
      exact hproduct
  | case6 x e _ _ _ _ => cases h

theorem scan?_isFinite {n : Numeral} {x : Binary64} (h : n.scan? = some x) : x.isFinite := by
  unfold scan? at h
  simp only [Option.map_eq_some_iff] at h
  obtain ⟨y, hscale, rfl⟩ := h
  have hkept := keepDigits_lt (keepDigits_lt (Binary64.shiftLeft_pos 64) n.whole)
    (n.fraction?.getD [])
  have hy := scale?_isFinite
    (Binary64.isFinite_ofRatio_one (Nat.le_of_lt hkept) (by decide)) hscale
  split
  · exact Binary64.isFinite_neg hy
  · exact hy

theorem integer?_natAbs_lt {n : Numeral} {i : Int} (h : n.integer? = some i) :
    i.natAbs < 1 <<< 64 := by
  unfold integer? at h
  grind

end Numeral

namespace Json

/-! ## Values -/

/-- Values that hold finite numbers only: integers of 64 bits and finite doubles. -/
inductive Value.Finite : Value → Prop where
  | null : Finite .null
  | bool {b : Bool} : Finite (.bool b)
  | integer {i : Int} (h : i.natAbs < 1 <<< 64) : Finite (.integer i)
  | real {x : Binary64} (h : x.isFinite) : Finite (.real x)
  | string {s : String} : Finite (.string s)
  | array {items : List Value} (h : ∀ v ∈ items, Finite v) : Finite (.array items)
  | object {members : List (String × Value)} (h : ∀ m ∈ members, Finite m.2) :
      Finite (.object members)

theorem numberValue?_finite {n : Numeral} {v : Value} (h : numberValue? n = some v) :
    v.Finite := by
  unfold numberValue? at h
  split at h
  · rename_i hi
    cases h
    exact .integer (Numeral.integer?_natAbs_lt hi)
  · obtain ⟨x, hx, rfl⟩ := Option.map_eq_some_iff.1 h
    exact .real (Numeral.scan?_isFinite hx)

mutual

/-- What a tree denotes is finite. -/
theorem Written.value?_finite {w : Written} {v : Value} (h : w.value? = some v) : v.Finite := by
  cases w with
  | null =>
      cases h
      exact .null
  | bool b =>
      cases h
      exact .bool
  | number n => exact numberValue?_finite h
  | string pieces =>
      rw [Written.value?] at h
      obtain ⟨s, _, rfl⟩ := Option.map_eq_some_iff.1 h
      exact .string
  | array items =>
      rw [Written.value?] at h
      obtain ⟨vs, hvs, rfl⟩ := Option.map_eq_some_iff.1 h
      exact .array (Written.values?_finite hvs)
  | object members =>
      rw [Written.value?] at h
      obtain ⟨ms, hms, rfl⟩ := Option.map_eq_some_iff.1 h
      exact .object (Members.forall_ofList (Written.members?_finite hms))

theorem Written.values?_finite {ws : List Written} {vs : List Value}
    (h : Written.values? ws = some vs) : ∀ v ∈ vs, v.Finite := by
  cases ws with
  | nil =>
      cases h
      simp
  | cons w rest =>
      rw [Written.values?] at h
      split at h
      · rename_i v vs hv hvs
        cases h
        exact List.forall_mem_cons.2 ⟨Written.value?_finite hv, Written.values?_finite hvs⟩
      · cases h

theorem Written.members?_finite {ws : List (List Piece × Written)} {ms : List (String × Value)}
    (h : Written.members? ws = some ms) : ∀ m ∈ ms, m.2.Finite := by
  cases ws with
  | nil =>
      cases h
      simp
  | cons member rest =>
      obtain ⟨name, w⟩ := member
      rw [Written.members?] at h
      split at h
      · rename_i n v ms _ hv hms
        cases h
        exact List.forall_mem_cons.2 ⟨Written.value?_finite hv, Written.members?_finite hms⟩
      · cases h

end

/-- **No text denotes an infinity or a NaN.** -/
theorem parse?_finite {text : List Char} {v : Value} (h : parse? text = some v) : v.Finite := by
  obtain ⟨w, _, hw⟩ := Option.bind_eq_some_iff.1 h
  exact Written.value?_finite hw

theorem parseObject?_finite {text : List Char} {members : Members}
    (h : parseObject? text = some members) : ∀ m ∈ members, m.2.Finite := by
  unfold parseObject? at h
  split at h
  · rename_i hparse
    cases h
    cases parse?_finite hparse with
    | object hmembers => exact hmembers
  · cases h

end Json

end PerfGate
