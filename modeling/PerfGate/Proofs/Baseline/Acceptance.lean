import PerfGate.Proofs.Baseline.Complete
import PerfGate.Proofs.Grouping.Table
import PerfGate.Proofs.Json.Members

/-!
# Baseline — which documents are accepted

A document is accepted as a whole or not at all: exactly if it is an object of entries, and otherwise
the error is the fault of the first member that is none (`parse_accepted`). Members are those of the
object, so one that is written several times is one entry: it stands where its name is first written
(`Members.map_fst_ofList`), with the value that is written last (`Members.get?_ofList`).
-/

namespace PerfGate

open Json (Value)

/-! ## Members as they are written -/

namespace Json

theorem Members.ofList_concat (entries : List (String × Value)) (name : String) (value : Value) :
    Members.ofList (entries ++ [(name, value)]) =
      Members.set name value (Members.ofList entries) := by
  unfold Members.ofList
  rw [List.foldl_append]
  rfl

/-- The names of members are in the order in which they are first written. -/
theorem Members.map_fst_ofList (entries : List (String × Value)) :
    (Members.ofList entries).map Prod.fst = (entries.map Prod.fst).eraseDups := by
  induction entries using List.reverseRecOn with
  | nil => rfl
  | append_singleton entries entry ih =>
      obtain ⟨name, value⟩ := entry
      rw [Members.ofList_concat, List.map_append, List.map_singleton]
      by_cases hname : name ∈ entries.map Prod.fst
      · have hold : name ∈ (Members.ofList entries).map Prod.fst := by
          rwa [ih, List.mem_eraseDups]
        rw [Members.map_fst_set_of_mem hold, ih, eraseDups_concat_of_mem hname]
      · have hnew : name ∉ (Members.ofList entries).map Prod.fst := by
          rwa [ih, List.mem_eraseDups]
        rw [Members.set_of_notMem hnew, List.map_append, ih, eraseDups_concat_of_not_mem hname]
        rfl

/-- A member has the value that is written last. -/
theorem Members.get?_ofList (entries : List (String × Value)) (name : String) :
    (Members.ofList entries).get? name = entries.reverse.lookup name := by
  induction entries using List.reverseRecOn with
  | nil => rfl
  | append_singleton entries entry ih =>
      obtain ⟨n, value⟩ := entry
      rw [Members.ofList_concat, Members.get?_set, ih, List.reverse_append, List.reverse_singleton,
        List.singleton_append]
      exact (Members.get?_cons n value entries.reverse name).symm

end Json

namespace Baseline

/-! ## Documents -/

/-- A document is accepted exactly if it is an object in which every member is an entry: the text of
an array of four values as its name, and summaries of at least all tracked metrics as its value. The
entries that are read are those of its members, in their order, with finite numbers. If it is
refused, it is no object, or all members in front of some member are entries and that member has the
fault that is reported. A member that is written several times counts once, where it is first
written and with the value that is written last. -/
theorem parse_accepted (w : Workload) (path text : String) :
    ((∃ b, parse w path text = .ok b) ↔ ∃ members, Json.parseObject? text.toList = some members ∧
      ∀ m ∈ members, ∃ entry, Accepted w m entry) ∧
    (∀ b, parse w path text = .ok b ↔ ∃ members, Json.parseObject? text.toList = some members ∧
      List.Forall₂ (Accepted w) members b.entries) ∧
    (∀ b, parse w path text = .ok b → ∀ entry ∈ b.entries, ∀ s ∈ entry.stats, s.2.Finite) ∧
    (∀ error, parse w path text = .error error ↔ ∃ fault, error = .invalidBaseline path fault ∧
      (Json.parseObject? text.toList = none ∧ fault = .notAnObject ∨
        ∃ before m after, Json.parseObject? text.toList = some (before ++ m :: after) ∧
          (∀ n ∈ before, ∃ entry, Accepted w n entry) ∧ Faulty w m fault)) ∧
    (∀ members, Json.parseObject? text.toList = some members → ∃ entries,
      Json.entries? text.toList = some entries ∧ (members.map Prod.fst).Nodup ∧
      members.map Prod.fst = (entries.map Prod.fst).eraseDups ∧
      ∀ name, members.get? name = entries.reverse.lookup name) := by
  refine ⟨?_, fun b => parse_eq_ok_iff, ?_, fun error => parse_eq_error_iff, ?_⟩
  · simp only [parse_eq_ok_iff, ← exists_forall₂_iff]
    constructor
    · rintro ⟨b, members, hmembers, hentries⟩
      exact ⟨members, hmembers, b.entries, hentries⟩
    · rintro ⟨members, hmembers, entries, hentries⟩
      exact ⟨⟨entries⟩, members, hmembers, hentries⟩
  · intro b hb entry hentry
    exact (parse_complete hb entry hentry).finite
  · intro members hmembers
    obtain ⟨entries, hentries, rfl⟩ := Json.parseObject?_eq_some_iff.1 hmembers
    exact ⟨entries, hentries, Json.Members.nodup_ofList entries,
      Json.Members.map_fst_ofList entries, Json.Members.get?_ofList entries⟩

/-- A document that writes an entry twice, and at first with a value that is no group. -/
def rewrittenEntry : String :=
  let key := "\"[\\\"a\\\", 256, 16.5, \\\" 10\\\"]\""
  "\x7b" ++ key ++ ": 1, " ++ key ++
    ": \x7b\"queries_per_sec\": \x7b\"mean\": 90\x7d, \"eff_gb_per_sec\": [2]\x7d\x7d"

theorem rewrittenEntry_accepted : ∃ b members entries,
    parse .am "am_bench.json" rewrittenEntry = .ok b ∧
    b.entries.map (·.configuration) = [⟨"a", 256, 16, 10⟩] ∧
    (∀ entry ∈ b.entries, ∀ s ∈ entry.stats, s.2.Finite) ∧
    Json.parseObject? rewrittenEntry.toList = some members ∧
    Json.entries? rewrittenEntry.toList = some entries ∧
    members.length = 1 ∧ entries.length = 2 ∧
    members.map Prod.fst = (entries.map Prod.fst).eraseDups := by
  have hread : ((parse .am "am_bench.json" rewrittenEntry).toOption.map fun b =>
      b.entries.map (·.configuration)) = some [⟨"a", 256, 16, 10⟩] := by
    decide +kernel
  have hmembers : ((Json.parseObject? rewrittenEntry.toList).map List.length) = some 1 := by
    decide +kernel
  have hentries : ((Json.entries? rewrittenEntry.toList).map List.length) = some 2 := by
    decide +kernel
  simp only [Option.map_eq_some_iff, toOption_eq_some_iff] at hread hmembers hentries
  obtain ⟨b, hb, hconfigurations⟩ := hread
  obtain ⟨members, hmembers, hone⟩ := hmembers
  obtain ⟨entries, hentries, htwo⟩ := hentries
  obtain ⟨-, -, hfinite, -, hobject⟩ := parse_accepted .am "am_bench.json" rewrittenEntry
  obtain ⟨written, hwritten, -, hnames, -⟩ := hobject members hmembers
  obtain rfl : written = entries := Option.some.inj (hwritten.symm.trans hentries)
  exact ⟨b, members, written, hb, hconfigurations, hfinite b hb, hmembers, hentries, hone, htwo,
    hnames⟩

end Baseline

end PerfGate
