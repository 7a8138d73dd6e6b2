import Sentences.Table

/-!
# A list of writes to a table

* `last?`: the value that the last of several writes gives to a name;
* `get?_writeAll`: after several writes, each name has the value of the last write to it, or what
  it had before;
* `writeAll_comm`: writes to different names may come in any order;
* `writeAll_eq_of_perm`: a table is filled again from its entries, whatever their order.
-/

namespace Sentences.Table

variable {α : Type}

/-! ## 1. The last write -/

/-- The value that the last write to a name gives it, if there is a write to it. -/
def last? (name : Text) : List (Text × α) → Option α
  | [] => none
  | w :: rest => (last? name rest).or (if w.1 = name then some w.2 else none)

/-- Only names that are written to have a last write. -/
theorem last?_isSome_iff (name : Text) (ws : List (Text × α)) :
    (last? name ws).isSome = true ↔ name ∈ ws.map (·.1) := by
  induction ws with
  | nil => simp [last?]
  | cons w rest ih =>
    rw [last?, Option.isSome_or, Bool.or_eq_true, ih, List.map_cons, List.mem_cons, or_comm]
    by_cases h : w.1 = name
    · simp [h]
    · simp [h, Ne.symm h]

theorem last?_map {β : Type} (f : α → β) (name : Text) (ws : List (Text × α)) :
    last? name (ws.map fun w => (w.1, f w.2)) = (last? name ws).map f := by
  induction ws with
  | nil => rfl
  | cons w rest ih =>
    rw [List.map_cons, last?, last?, ih, Option.map_or]
    by_cases h : w.1 = name
    · simp [h]
    · simp [h]

theorem last?_append (name : Text) (xs ys : List (Text × α)) :
    last? name (xs ++ ys) = (last? name ys).or (last? name xs) := by
  induction xs with
  | nil => rw [List.nil_append, last?, Option.or_none]
  | cons w rest ih => rw [List.cons_append, last?, last?, ih, Option.or_assoc]

/-- Where no name is written twice, each write is the last one to its name. -/
theorem last?_eq_some_iff_of_nodup {ws : List (Text × α)} (h : (ws.map (·.1)).Nodup) (name : Text)
    (value : α) : last? name ws = some value ↔ (name, value) ∈ ws := by
  induction ws with
  | nil => simp [last?]
  | cons w rest ih =>
    rw [List.map_cons, List.nodup_cons] at h
    obtain ⟨hw, hrest⟩ := h
    rw [last?, List.mem_cons, ← ih hrest]
    by_cases he : w.1 = name
    · subst he
      have hnone : last? w.1 rest = none := by
        rw [← Option.not_isSome_iff_eq_none, last?_isSome_iff]
        exact hw
      simp [hnone, Prod.ext_iff, eq_comm]
    · rw [if_neg he, Option.or_none, or_iff_right]
      exact fun hv => he (congrArg Prod.fst hv).symm

/-- Where no name is written twice, the order of the writes makes no difference. -/
theorem last?_eq_of_perm {xs ys : List (Text × α)} (h : xs.Perm ys) (hnames : (xs.map (·.1)).Nodup)
    (name : Text) : last? name xs = last? name ys := by
  have hys : (ys.map (·.1)).Nodup := (h.map (·.1)).nodup_iff.1 hnames
  refine Option.ext fun value => ?_
  rw [last?_eq_some_iff_of_nodup hnames, last?_eq_some_iff_of_nodup hys, h.mem_iff]

/-! ## 2. All writes -/

/-- The table after several writes. -/
def writeAll (t : Table α) (ws : List (Text × α)) : Table α :=
  ws.foldl (fun t w => t.insert w.1 w.2) t

/-- **The last write to a name decides its value.** -/
theorem get?_writeAll (t : Table α) (ws : List (Text × α)) (name : Text) :
    (t.writeAll ws).get? name = (last? name ws).or (t.get? name) := by
  unfold writeAll
  induction ws generalizing t with
  | nil => simp [last?]
  | cons w rest ih =>
    rw [List.foldl_cons, ih, get?_insert, last?, Option.or_assoc]
    congr 1
    by_cases h : w.1 = name
    · simp [h]
    · simp [h, Ne.symm h]

theorem writeAll_append (t : Table α) (xs ys : List (Text × α)) :
    t.writeAll (xs ++ ys) = (t.writeAll xs).writeAll ys :=
  List.foldl_append

/-- **Writes to different names may come in any order.** -/
theorem writeAll_comm (t : Table α) {xs ys : List (Text × α)} (h : xs.Perm ys)
    (hnames : (xs.map (·.1)).Nodup) : t.writeAll xs = t.writeAll ys :=
  ext fun name => by rw [get?_writeAll, get?_writeAll, last?_eq_of_perm h hnames]

/-- After several writes the names with a value are those written to and those that had one. -/
theorem contains_writeAll (t : Table α) (ws : List (Text × α)) (name : Text) :
    (t.writeAll ws).contains name = ((ws.map (·.1)).contains name || t.contains name) := by
  have hwritten : (last? name ws).isSome = (ws.map (·.1)).contains name := by
    rw [Bool.eq_iff_iff, last?_isSome_iff, List.contains_iff_mem]
  unfold contains
  rw [get?_writeAll, Option.isSome_or, hwritten]

/-- The names that are new to a table after some writes are those that were new before and have
    not been written. -/
theorem filter_new_writeAll (t : Table α) (ws : List (Text × α)) (names : List Text) :
    names.filter (fun name => !(t.writeAll ws).contains name) =
      (names.filter fun name => !t.contains name).removeAll
        ((ws.map (·.1)).filter fun name => !t.contains name) := by
  unfold List.removeAll
  rw [List.filter_filter]
  refine List.filter_congr fun name _ => ?_
  have hnew := contains_writeAll t ws name
  cases ht : t.contains name with
  | true => simp [hnew, ht]
  | false => simp [hnew, ht]

/-! ## 3. Entries -/

theorem find?_eq_some_iff {entries : List (Text × α)} (h : Ascending entries) (name : Text)
    (value : α) : find? entries name = some value ↔ (name, value) ∈ entries := by
  induction entries with
  | nil => simp [find?]
  | cons e rest ih =>
    obtain ⟨hlt, hrest⟩ := List.pairwise_cons.1 h
    rw [List.mem_cons]
    by_cases he : e.1 = name
    · subst he
      rw [find?_cons_self e.1 e.2 rest]
      constructor
      · intro hv
        exact .inl (Prod.ext rfl (Option.some.inj hv).symm)
      · intro hv
        rcases hv with hv | hv
        · rw [← hv]
        · exact absurd (hlt _ hv) (List.lt_irrefl e.1)
    · rw [find?_cons_of_ne he, ih hrest, or_iff_right]
      exact fun hv => he (congrArg Prod.fst hv).symm

/-- A table has exactly the values of its entries. -/
theorem get?_eq_some_iff (t : Table α) (name : Text) (value : α) :
    t.get? name = some value ↔ (name, value) ∈ t.entries :=
  find?_eq_some_iff t.ascending name value

theorem nodup_names (t : Table α) : t.names.Nodup := by
  have h := t.ascending
  refine List.pairwise_map.2 (h.imp fun hlt heq => ?_)
  rw [heq] at hlt
  exact List.lt_irrefl _ hlt

/-- **A table is filled again from its entries**, whatever their order. -/
theorem writeAll_eq_of_perm {t : Table α} {ws : List (Text × α)} (h : ws.Perm t.entries) :
    empty.writeAll ws = t := by
  have hentries : (t.entries.map (·.1)).Nodup := t.nodup_names
  rw [writeAll_comm empty h ((h.map (·.1)).nodup_iff.2 hentries)]
  refine ext fun name => Option.ext fun value => ?_
  rw [get?_writeAll, get?_empty, Option.or_none, last?_eq_some_iff_of_nodup hentries,
    get?_eq_some_iff]

end Sentences.Table
