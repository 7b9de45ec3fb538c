import PerfGate.Json.Value

/-!
# Json — the members of an object

Members are set one after another as they are written, a repeated name taking its new value in its
old place. So the names of an object are different (`Members.nodup_ofList`), members with different
names stay as they are written, and each is found by its name.
-/

namespace PerfGate

/-! ## Lookup -/

theorem lookup_mem {α β : Type} [BEq α] [LawfulBEq α] {k : α} {x : β} {l : List (α × β)}
    (h : l.lookup k = some x) : (k, x) ∈ l := by
  obtain ⟨before, after, rfl, _⟩ := List.lookup_eq_some_iff.1 h
  exact List.mem_append_right _ List.mem_cons_self

/-- Among different keys each is found. -/
theorem lookup_of_mem {α β : Type} [BEq α] [LawfulBEq α] {k : α} {x : β} {l : List (α × β)}
    (hnodup : (l.map Prod.fst).Nodup) (h : (k, x) ∈ l) : l.lookup k = some x := by
  obtain ⟨before, after, rfl⟩ := List.append_of_mem h
  rw [List.lookup_eq_some_iff]
  refine ⟨before, after, rfl, fun p hp => ?_⟩
  rw [List.map_append, List.nodup_append] at hnodup
  have hne : p.1 ≠ k :=
    hnodup.2.2 p.1 (List.mem_map_of_mem hp) k (List.mem_map_of_mem List.mem_cons_self)
  exact bne_iff_ne.2 hne.symm

namespace Json

/-- Among members with different names each is found by its name. -/
theorem Members.get?_of_mem {members : Members} (hnodup : (members.map Prod.fst).Nodup)
    {name : String} {v : Value} (h : (name, v) ∈ members) : members.get? name = some v :=
  lookup_of_mem hnodup h

theorem Members.get?_of_notMem {members : Members} {name : String}
    (h : name ∉ members.map Prod.fst) : members.get? name = none := by
  induction members with
  | nil => rfl
  | cons member rest ih =>
      obtain ⟨n, u⟩ := member
      rw [List.map_cons, List.mem_cons, not_or] at h
      rw [Members.get?_cons, if_neg (Ne.symm h.1), ih h.2]

/-! ## Setting -/

/-- A member that is set holds its new value, and the others keep theirs. -/
theorem Members.mem_set {name : String} {value : Value} {members : Members} {m : String × Value}
    (h : m ∈ Members.set name value members) : m ∈ members ∨ m.2 = value := by
  induction members with
  | nil =>
      rw [Members.set, List.mem_singleton] at h
      exact .inr (by rw [h])
  | cons member rest ih =>
      obtain ⟨n, v⟩ := member
      unfold Members.set at h
      split at h
      · rcases List.mem_cons.1 h with rfl | hrest
        · exact .inr rfl
        · exact .inl (List.mem_cons_of_mem _ hrest)
      · rcases List.mem_cons.1 h with rfl | hrest
        · exact .inl List.mem_cons_self
        · exact (ih hrest).imp_left (List.mem_cons_of_mem _)

/-- What holds of all values as they are written holds of the members that are left. -/
theorem Members.forall_ofList {P : Value → Prop} {entries : List (String × Value)}
    (h : ∀ e ∈ entries, P e.2) : ∀ m ∈ Members.ofList entries, P m.2 := by
  unfold Members.ofList
  apply List.foldlRecOn (motive := fun members : Members => ∀ m ∈ members, P m.2)
  · simp
  · intro members hmembers entry hentry m hm
    rcases Members.mem_set hm with hold | hnew
    · exact hmembers m hold
    · rw [hnew]
      exact h entry hentry

theorem Members.set_of_notMem {name : String} {members : Members}
    (h : name ∉ members.map Prod.fst) (value : Value) :
    Members.set name value members = members ++ [(name, value)] := by
  induction members with
  | nil => rfl
  | cons member rest ih =>
      obtain ⟨n, v⟩ := member
      rw [List.map_cons, List.mem_cons, not_or] at h
      rw [Members.set, if_neg fun heq => h.1 heq.symm, ih h.2, List.cons_append]

/-- Members with different names stay as they are written. -/
theorem Members.ofList_of_nodup {entries : Members} (h : (entries.map Prod.fst).Nodup) :
    Members.ofList entries = entries := by
  -- from the left, with what is already there in front
  suffices hfold : ∀ (before entries : Members), ((before ++ entries).map Prod.fst).Nodup →
      entries.foldl (fun members entry => Members.set entry.1 entry.2 members) before =
        before ++ entries from hfold [] entries h
  intro before entries
  induction entries generalizing before with
  | nil => simp
  | cons entry rest ih =>
      obtain ⟨name, value⟩ := entry
      intro hnodup
      have hnew : name ∉ before.map Prod.fst := by
        rw [List.map_append, List.map_cons, List.nodup_append] at hnodup
        exact fun hmem => hnodup.2.2 name hmem name List.mem_cons_self rfl
      rw [List.foldl_cons, Members.set_of_notMem hnew, ih, List.append_assoc, List.singleton_append]
      rwa [List.append_assoc, List.singleton_append]

/-- Setting a member that is there changes no name. -/
theorem Members.map_fst_set_of_mem {name : String} {members : Members}
    (h : name ∈ members.map Prod.fst) (value : Value) :
    (Members.set name value members).map Prod.fst = members.map Prod.fst := by
  induction members with
  | nil => cases h
  | cons member rest ih =>
      obtain ⟨n, v⟩ := member
      unfold Members.set
      by_cases hn : n = name
      · rw [if_pos hn, List.map_cons, List.map_cons]
      · rw [List.map_cons, List.mem_cons] at h
        have hrest := h.resolve_left fun heq => hn heq.symm
        rw [if_neg hn, List.map_cons, List.map_cons, ih hrest]

theorem Members.nodup_set {members : Members} (h : (members.map Prod.fst).Nodup) (name : String)
    (value : Value) : ((Members.set name value members).map Prod.fst).Nodup := by
  by_cases hname : name ∈ members.map Prod.fst
  · rw [Members.map_fst_set_of_mem hname]
    exact h
  · rw [Members.set_of_notMem hname, List.map_append, List.map_singleton, List.nodup_append]
    refine ⟨h, by simp, ?_⟩
    intro n hn n' hn' heq
    rw [List.mem_singleton] at hn'
    rw [heq, hn'] at hn
    exact hname hn

theorem Members.nodup_ofList (entries : List (String × Value)) :
    ((Members.ofList entries).map Prod.fst).Nodup := by
  unfold Members.ofList
  apply List.foldlRecOn (motive := fun members : Members => (members.map Prod.fst).Nodup)
  · exact List.nodup_nil
  · intro members hmembers entry _
    exact Members.nodup_set hmembers _ _

/-- Only the text of an object denotes one, and its members are set one after another. -/
theorem Written.exists_entries_of_object {w : Written} {members : Members}
    (h : w.value? = some (.object members)) : ∃ ws entries, w = .object ws ∧
      Written.members? ws = some entries ∧ members = Members.ofList entries := by
  cases w with
  | object ws =>
      obtain ⟨entries, hentries, heq⟩ := Option.map_eq_some_iff.1 h
      cases heq
      exact ⟨ws, entries, rfl, hentries, rfl⟩
  | null => cases h
  | bool b => cases h
  | number n =>
      rw [Written.value?, numberValue?] at h
      split at h
      · cases h
      · obtain ⟨x, -, hx⟩ := Option.map_eq_some_iff.1 h
        cases hx
  | string pieces =>
      obtain ⟨s, -, hs⟩ := Option.map_eq_some_iff.1 h
      cases hs
  | array items =>
      obtain ⟨vs, -, hvs⟩ := Option.map_eq_some_iff.1 h
      cases hvs

/-- The members of the object that a text is, as they are written, repeated names included. -/
def entries? (text : List Char) : Option (List (String × Value)) :=
  match Written.read? maxDepth text with
  | some (.object ws) => Written.members? ws
  | _ => none

theorem parseObject?_eq_some_iff {text : List Char} {members : Members} :
    parseObject? text = some members ↔
      ∃ entries, entries? text = some entries ∧ members = Members.ofList entries := by
  unfold parseObject? parse? entries?
  constructor
  · intro h
    split at h
    · rename_i ms hparse
      cases h
      obtain ⟨w, hread, hw⟩ := Option.bind_eq_some_iff.1 hparse
      obtain ⟨ws, entries, rfl, hentries, rfl⟩ := Written.exists_entries_of_object hw
      exact ⟨entries, by rw [hread]; exact hentries, rfl⟩
    · cases h
  · rintro ⟨entries, hentries, rfl⟩
    split at hentries
    · rename_i ws hread
      rw [hread, Option.bind_some, Written.value?, hentries, Option.map_some]
    · cases hentries

/-- **An object has each name once**, however often it is written. -/
theorem nodup_of_parseObject? {text : List Char} {members : Members}
    (h : parseObject? text = some members) : (members.map Prod.fst).Nodup := by
  obtain ⟨entries, -, rfl⟩ := parseObject?_eq_some_iff.1 h
  exact Members.nodup_ofList entries

end Json

end PerfGate
