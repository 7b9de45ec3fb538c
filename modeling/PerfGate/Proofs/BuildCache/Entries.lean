import PerfGate.BuildCache
import PerfGate.Proofs.Text.Quoted

/-!
# BuildCache — mentions and entries

An entry of a cache is a line `name:type=value`, and its value is all that follows the first equals
sign. A look-up takes more for an entry: any line that mentions the name with a colon, and of that
line only what follows the last equals sign. What is found is described exactly
(`lineValue?_eq_some_iff`). It is the value of the first entry wherever a line that mentions the name
is an entry and its value has no equals sign (`lookups_described`).
-/

namespace PerfGate.BuildCache

/-! ## Lines -/

/-- A line is an entry with this value: the value is all that follows the first equals sign. -/
def IsEntry (name : String) (line value : List Char) : Prop :=
  ∃ type, line = name.toList ++ ':' :: (type ++ '=' :: value) ∧ '=' ∉ type

/-- A line mentions an entry: anywhere on it stands the name with a colon, an equals sign follows, and
behind the last one stands this value. -/
def Mentions (name : String) (line value : List Char) : Prop :=
  ∃ front type, line = front ++ (name.toList ++ ':' :: (type ++ '=' :: value)) ∧ '=' ∉ value

section After

variable {mark s rest : List Char}

theorem exists_of_after? (h : after? mark s = some rest) : ∃ front, s = front ++ (mark ++ rest) := by
  induction s with
  | nil =>
      rw [after?] at h
      split_ifs at h with hmark
      cases h
      exact ⟨[], by simpa using hmark⟩
  | cons c s ih =>
      rw [after?] at h
      split_ifs at h with hmark
      · cases h
        obtain ⟨more, hmore⟩ := List.isPrefixOf_iff_prefix.1 hmark
        exact ⟨[], by rw [← hmore, List.drop_left, List.nil_append]⟩
      · obtain ⟨front, hfront⟩ := ih h
        exact ⟨c :: front, by rw [hfront, List.cons_append]⟩

/-- Wherever a mark stands, what follows it ends what follows the first one. -/
theorem exists_after? (mark front rest : List Char) :
    ∃ more, after? mark (front ++ (mark ++ rest)) = some (more ++ rest) := by
  induction front with
  | nil =>
      cases htext : mark ++ rest with
      | nil =>
          obtain ⟨rfl, rfl⟩ := List.append_eq_nil_iff.1 htext
          exact ⟨[], rfl⟩
      | cons c s =>
          have hmark : mark.isPrefixOf (c :: s) = true := by
            rw [← htext, List.isPrefixOf_iff_prefix]
            exact List.prefix_append mark rest
          refine ⟨[], ?_⟩
          rw [List.nil_append, after?, if_pos hmark, ← htext, List.drop_left, List.nil_append]
  | cons c front ih =>
      rw [List.cons_append, after?]
      split_ifs with hmark
      · -- an earlier mark, behind which the rest is still whole
        refine ⟨(c :: (front ++ mark)).drop mark.length, ?_⟩
        rw [← List.append_assoc, ← List.cons_append, List.drop_append_of_le_length]
        rw [List.length_cons, List.length_append]
        omega
      · exact ih

theorem afterLastEquals?_eq_some_iff {value : List Char} :
    afterLastEquals? s = some value ↔ ∃ type, s = type ++ '=' :: value ∧ '=' ∉ value := by
  unfold afterLastEquals?
  constructor
  · intro h
    split_ifs at h with hmem
    cases h
    -- the last equals sign is the first of the text turned round
    obtain ⟨value, type, hreverse, hvalue⟩ := List.eq_append_cons_of_mem (List.mem_reverse.2 hmem)
    have hkept : s.reverse.takeWhile (· ≠ '=') = value := by
      rw [hreverse, List.takeWhile_append_of_pos]
      · simp
      · intro c hc
        simpa using ne_of_mem_of_not_mem hc hvalue
    refine ⟨type.reverse, ?_, ?_⟩
    · rw [hkept, ← List.reverse_reverse s, hreverse]
      simp
    · rw [hkept, List.mem_reverse]
      exact hvalue
  · rintro ⟨type, rfl, hvalue⟩
    have hkept : (type ++ '=' :: value).reverse.takeWhile (· ≠ '=') = value.reverse := by
      rw [List.reverse_append, List.reverse_cons, List.append_assoc,
        List.takeWhile_append_of_pos]
      · simp
      · intro c hc
        simpa using ne_of_mem_of_not_mem (List.mem_reverse.1 hc) hvalue
    rw [if_pos (by simp), hkept, List.reverse_reverse]

end After

variable {name : String} {line value : List Char}

/-- **A line gives a value if it mentions the entry.** -/
theorem lineValue?_eq_some_iff : lineValue? name line = some value ↔ Mentions name line value := by
  unfold lineValue? Mentions
  rw [Option.bind_eq_some_iff]
  constructor
  · rintro ⟨rest, hrest, hvalue⟩
    obtain ⟨front, rfl⟩ := exists_of_after? hrest
    obtain ⟨type, rfl, hlast⟩ := afterLastEquals?_eq_some_iff.1 hvalue
    exact ⟨front, type, by simp, hlast⟩
  · rintro ⟨front, type, rfl, hlast⟩
    obtain ⟨more, hmore⟩ := exists_after? (name.toList ++ [':']) front (type ++ '=' :: value)
    refine ⟨more ++ (type ++ '=' :: value), ?_, ?_⟩
    · rw [← hmore]
      simp
    · exact afterLastEquals?_eq_some_iff.2 ⟨more ++ type, by simp, hlast⟩

theorem lineValue?_eq_none_iff : lineValue? name line = none ↔ ∀ x, ¬ Mentions name line x := by
  simp only [Option.eq_none_iff_forall_ne_some, Ne, lineValue?_eq_some_iff]

/-- An entry is a mention as well, though perhaps not of its whole value. -/
theorem IsEntry.exists_mentions (h : IsEntry name line value) : ∃ last, Mentions name line last := by
  obtain ⟨type, rfl, -⟩ := h
  obtain ⟨last, hlast⟩ : ∃ last, afterLastEquals? (type ++ '=' :: value) = some last :=
    ⟨_, if_pos (by simp)⟩
  obtain ⟨type', htype, hvalue⟩ := afterLastEquals?_eq_some_iff.1 hlast
  exact ⟨last, [], type', by rw [htype, List.nil_append], hvalue⟩

/-- A line is an entry with one value only. -/
theorem IsEntry.value_unique {value' : List Char} (h : IsEntry name line value)
    (h' : IsEntry name line value') : value = value' := by
  obtain ⟨type, rfl, htype⟩ := h
  obtain ⟨type', heq, htype'⟩ := h'
  have hrest := (List.cons.inj (List.append_cancel_left heq)).2
  exact (eq_of_append_cons htype htype' hrest).2

/-! ## Caches -/

/-- The trimmed value of the first line of a text that has one. -/
def FirstValue (hasValue : List Char → List Char → Prop) (text v : String) : Prop :=
  ∃ before line after value, text.toList.splitOn '\n' = before ++ line :: after ∧
    (∀ earlier ∈ before, ∀ x, ¬ hasValue earlier x) ∧ hasValue line value ∧
      v = String.ofList (Text.trim value)

variable {text v : String}

theorem value?_eq_some_iff : value? name text = some v ↔ FirstValue (Mentions name) text v := by
  unfold value? FirstValue
  simp only [Option.map_eq_some_iff, List.findSome?_eq_some_iff, lineValue?_eq_some_iff,
    lineValue?_eq_none_iff]
  constructor
  · rintro ⟨value, ⟨before, line, after, htext, hline, hbefore⟩, rfl⟩
    exact ⟨before, line, after, value, htext, hbefore, hline, rfl⟩
  · rintro ⟨before, line, after, value, htext, hbefore, hline, rfl⟩
    exact ⟨value, ⟨before, line, after, htext, hline, hbefore⟩, rfl⟩

theorem value?_eq_none_iff :
    value? name text = none ↔ ∀ line ∈ text.toList.splitOn '\n', ∀ x, ¬ Mentions name line x := by
  simp only [value?, Option.map_eq_none_iff, List.findSome?_eq_none_iff, lineValue?_eq_none_iff]

theorem FirstValue.congr {hasValue hasValue' : List Char → List Char → Prop}
    (h : ∀ line ∈ text.toList.splitOn '\n', ∀ x, hasValue line x ↔ hasValue' line x)
    (hv : FirstValue hasValue text v) : FirstValue hasValue' text v := by
  obtain ⟨before, line, after, value, htext, hbefore, hline, rfl⟩ := hv
  rw [htext, List.forall_mem_append, List.forall_mem_cons] at h
  obtain ⟨hearlier, hat, -⟩ := h
  exact ⟨before, line, after, value, htext,
    fun l hl x hx => hbefore l hl x ((hearlier l hl x).2 hx), (hat value).1 hline, rfl⟩

/-- Where every mention is an entry, the entries are the mentions. -/
theorem mentions_iff_isEntry (h : ∀ x, Mentions name line x → IsEntry name line x) (x : List Char) :
    Mentions name line x ↔ IsEntry name line x := by
  refine ⟨h x, fun hentry => ?_⟩
  obtain ⟨last, hlast⟩ := hentry.exists_mentions
  rwa [hentry.value_unique (h last hlast)]

/-- **What a look-up finds.** It is the value of the first line that mentions the entry, and nothing
if no line does. Where the lines that mention it are entries whose values have no equals sign, this is
the value of the first entry, and nothing if there is none. -/
theorem lookups_described (text name : String) (found : Option String)
    (hfound : (name, found) ∈ [("CMAKE_CXX_COMPILER", compiler? text),
      ("CMAKE_CXX_COMPILER_VERSION", compilerVersion? text)]) :
    ((∀ v, found = some v ↔ FirstValue (Mentions name) text v) ∧
      (found = none ↔ ∀ line ∈ text.toList.splitOn '\n', ∀ x, ¬ Mentions name line x)) ∧
    ((∀ line ∈ text.toList.splitOn '\n', ∀ x, Mentions name line x → IsEntry name line x) →
      (∀ v, found = some v ↔ FirstValue (IsEntry name) text v) ∧
        (found = none ↔ ∀ line ∈ text.toList.splitOn '\n', ∀ x, ¬ IsEntry name line x)) := by
  obtain rfl : found = value? name text := by
    simp only [List.mem_cons, Prod.mk.injEq, List.not_mem_nil, or_false] at hfound
    rcases hfound with ⟨rfl, rfl⟩ | ⟨rfl, rfl⟩
    · rfl
    · rfl
  refine ⟨⟨fun v => value?_eq_some_iff, value?_eq_none_iff⟩, fun hentries => ?_⟩
  have hiff : ∀ line ∈ text.toList.splitOn '\n', ∀ x,
      Mentions name line x ↔ IsEntry name line x := fun line hline =>
    mentions_iff_isEntry (hentries line hline)
  constructor
  · intro v
    rw [value?_eq_some_iff]
    exact ⟨.congr hiff, .congr fun line hline x => (hiff line hline x).symm⟩
  · rw [value?_eq_none_iff]
    exact forall₂_congr fun line hline => forall_congr' fun x => not_congr (hiff line hline x)

/-- A cache with both entries, among a remark and an entry whose name goes on. -/
def plainCache : String :=
  "// compiler\nCMAKE_CXX_COMPILER_AR:FILEPATH=/usr/bin/ar\n" ++
    "CMAKE_CXX_COMPILER:FILEPATH=/usr/bin/c++\r\nCMAKE_CXX_COMPILER_VERSION:INTERNAL= 13.2.0\n"

theorem lookups_described_plainCache :
    (∀ line ∈ plainCache.toList.splitOn '\n', ∀ x,
      Mentions "CMAKE_CXX_COMPILER" line x → IsEntry "CMAKE_CXX_COMPILER" line x) ∧
    FirstValue (IsEntry "CMAKE_CXX_COMPILER") plainCache "/usr/bin/c++" ∧
    FirstValue (Mentions "CMAKE_CXX_COMPILER_VERSION") plainCache "13.2.0" := by
  have hcompiler : compiler? plainCache = some "/usr/bin/c++" := by decide +kernel
  have hversion : compilerVersion? plainCache = some "13.2.0" := by decide +kernel
  -- the only line that mentions the compiler is its entry
  have hlines : ∀ line ∈ plainCache.toList.splitOn '\n',
      lineValue? "CMAKE_CXX_COMPILER" line = none ∨
        line = "CMAKE_CXX_COMPILER".toList ++
          ':' :: ("FILEPATH".toList ++ '=' :: "/usr/bin/c++\r".toList) := by
    decide +kernel
  have hentries : ∀ line ∈ plainCache.toList.splitOn '\n', ∀ x,
      Mentions "CMAKE_CXX_COMPILER" line x → IsEntry "CMAKE_CXX_COMPILER" line x := by
    intro line hline x hx
    rcases hlines line hline with hnone | rfl
    · exact absurd hx (lineValue?_eq_none_iff.1 hnone x)
    · have hvalue : x = "/usr/bin/c++\r".toList := by
        rw [← lineValue?_eq_some_iff] at hx
        exact (Option.some.inj hx).symm
      exact ⟨"FILEPATH".toList, by rw [hvalue], by decide⟩
  refine ⟨hentries, ?_, ?_⟩
  · exact (((lookups_described plainCache _ _ (.head _)).2 hentries).1 _).1 hcompiler
  · exact ((lookups_described plainCache _ _ (.tail _ (.head _))).1.1 _).1 hversion

/-- A compiler with an option that has an equals sign. -/
def optionCache : String := "CMAKE_CXX_COMPILER:STRING=/usr/bin/c++ --sysroot=/opt/sdk\n"

/-- A remark on a compiler that was in use before. -/
def remarkCache : String :=
  "// was CMAKE_CXX_COMPILER:FILEPATH=/opt/c++\nCMAKE_CXX_COMPILER:FILEPATH=/usr/bin/c++\n"

theorem compiler?_not_recorded :
    FirstValue (IsEntry "CMAKE_CXX_COMPILER") optionCache "/usr/bin/c++ --sysroot=/opt/sdk" ∧
    compiler? optionCache = some "/opt/sdk" ∧
    FirstValue (IsEntry "CMAKE_CXX_COMPILER") remarkCache "/usr/bin/c++" ∧
    compiler? remarkCache = some "/opt/c++" := by
  have hoption : FirstValue (IsEntry "CMAKE_CXX_COMPILER") optionCache
      "/usr/bin/c++ --sysroot=/opt/sdk" :=
    ⟨[], _, [[]], "/usr/bin/c++ --sysroot=/opt/sdk".toList, by decide +kernel, by simp,
      ⟨"STRING".toList, rfl, by decide⟩, by decide +kernel⟩
  -- a remark does not begin as an entry does
  have hnoEntry : ∀ x, ¬ IsEntry "CMAKE_CXX_COMPILER"
      "// was CMAKE_CXX_COMPILER:FILEPATH=/opt/c++".toList x := by
    rintro x ⟨type, hline, -⟩
    simp at hline
  have hremark : FirstValue (IsEntry "CMAKE_CXX_COMPILER") remarkCache "/usr/bin/c++" :=
    ⟨["// was CMAKE_CXX_COMPILER:FILEPATH=/opt/c++".toList], _, [[]], "/usr/bin/c++".toList,
      by decide +kernel, List.forall_mem_singleton.2 hnoEntry, ⟨"FILEPATH".toList, rfl, by decide⟩,
      by decide +kernel⟩
  exact ⟨hoption, by decide +kernel, hremark, by decide +kernel⟩

end PerfGate.BuildCache
