import Sentences.Proofs.JsonPlain

/-!
# Lists, objects and records are read as they were written

In every layout. After the opening bracket stand the written items, each after white space, with
commas in between (`Layout.part`). A loop over them needs one unit of fuel for each item and one
for the closing bracket, and the text is longer than that (`length_lt_length_part`).

* `list_reads`: a list whose items are read as they were written;
* `dictionary_reads`: an object with any keys;
* `record_reads`: an object whose members are fields of a record, each given once (`Filled`).
-/

namespace Sentences.Json

/-! ## 1. Texts between brackets -/

namespace Layout

/-- The items that are left and the closing bracket: right after the opening bracket, or after an
    item. -/
def part (l : Layout) (closing : Char) : Bool → List Text → Text
  | true, [] => [closing]
  | false, [] => l.newLine ++ [closing]
  | true, item :: rest => l.deeper.newLine ++ (item ++ l.part closing false rest)
  | false, item :: rest => ',' :: (l.deeper.newLine ++ (item ++ l.part closing false rest))

theorem part_false_eq (l : Layout) (closing : Char) (items : List Text) :
    l.part closing false items =
      items.flatMap (fun item => ',' :: l.deeper.newLine ++ item) ++ l.newLine ++ [closing] := by
  induction items with
  | nil => rfl
  | cons item rest ih => simp [part, ih]

theorem enclose_eq (l : Layout) (opening closing : Char) (items : List Text) :
    l.enclose opening closing items = opening :: l.part closing true items := by
  cases items with
  | nil => rfl
  | cons item rest => simp [enclose, part, part_false_eq]

theorem newLine_gap (l : Layout) : Reader.Gap l.newLine := by
  cases l with
  | compact => exact Reader.gap_nil
  | indented depth =>
    intro c hc
    rcases List.mem_cons.1 hc with rfl | hc
    · rfl
    · rw [List.eq_of_mem_replicate hc]
      rfl

theorem length_lt_length_part_false (l : Layout) (closing : Char) (items : List Text) :
    items.length < (l.part closing false items).length := by
  induction items with
  | nil => simp [part]
  | cons item rest ih =>
    simp only [part, List.length_cons, List.length_append]
    omega

theorem length_lt_length_part (l : Layout) (closing : Char) {items : List Text}
    (h : ∀ item ∈ items, item ≠ []) : items.length < (l.part closing true items).length := by
  cases items with
  | nil => simp [part]
  | cons item more =>
    have hitem := List.length_pos_iff.2 (h item List.mem_cons_self)
    have := l.length_lt_length_part_false closing more
    simp only [part, List.length_cons, List.length_append]
    omega

end Layout

namespace Reader

variable {α β σ : Type}

/-! ## 2. Brackets, commas and colons -/

theorem close_gap {gap : Text} (hg : Gap gap) {bracket : Char} (hb : isSpace bracket = false)
    (t : Text) : close bracket (gap ++ bracket :: t) = .ok ((), t) := by
  unfold close
  rw [bind_ok (mustGoOn_gap hg hb t), if_pos rfl]
  exact advance_run bracket t

theorem close_run {bracket : Char} (hb : isSpace bracket = false) (t : Text) :
    close bracket (bracket :: t) = .ok ((), t) :=
  close_gap gap_nil hb t

theorem colon_run (t : Text) : colon (':' :: t) = .ok ((), t) := by
  unfold colon
  rw [bind_ok (mustGoOn_run rfl t), if_pos rfl]
  exact advance_run ':' t

/-- After an item the text is over, with a comma or the closing bracket. -/
theorem ended_part (l : Layout) {closing : Char} (hc : closing = ']' ∨ closing = '\x7d')
    (items : List Text) (rest : Text) : Ended (l.part closing false items ++ rest) := by
  cases items with
  | nil =>
    rw [Layout.part, List.append_assoc]
    refine ended_gap_append l.newLine_gap fun c h => ?_
    cases h
    exact .inr (.inr hc)
  | cons item more =>
    intro c h
    cases h
    exact .inr (.inl rfl)

theorem hasItem_part_nil (l : Layout) (first : Bool) (rest : Text) :
    hasItem first (l.part ']' first [] ++ rest) = .ok (false, ']' :: rest) := by
  cases first with
  | true =>
    unfold hasItem
    rw [Layout.part, List.singleton_append, bind_ok (ahead_run rfl rest)]
    rfl
  | false =>
    unfold hasItem
    rw [Layout.part, List.append_assoc, List.singleton_append,
      bind_ok (ahead_gap l.newLine_gap rfl rest)]
    rfl

theorem hasItem_part_cons (l : Layout) (first : Bool) {c : Char} (hc : isSpace c = false)
    (hne : c ≠ ']') (more : Text) (items : List Text) (rest : Text) :
    hasItem first (l.part ']' first ((c :: more) :: items) ++ rest) =
      .ok (true, c :: (more ++ (l.part ']' false items ++ rest))) := by
  cases first with
  | true =>
    unfold hasItem
    rw [Layout.part, List.append_assoc, List.append_assoc, List.cons_append,
      bind_ok (ahead_gap l.deeper.newLine_gap hc _)]
    simp only [if_true]
    rfl
  | false =>
    unfold hasItem
    rw [Layout.part, List.cons_append, List.append_assoc, List.append_assoc, List.cons_append,
      bind_ok (ahead_run rfl _)]
    show (advance >>= fun _ => mustGoOn >>= fun d =>
      if d = ']' then throw .malformed else pure true : Reader Bool) (',' :: _) = _
    rw [bind_ok (advance_run ',' _), bind_ok (mustGoOn_gap l.deeper.newLine_gap hc _), if_neg hne]
    rfl

theorem hasMember_part_nil (l : Layout) (first : Bool) (rest : Text) :
    hasMember first (l.part '\x7d' first [] ++ rest) = .ok (false, '\x7d' :: rest) := by
  cases first with
  | true =>
    unfold hasMember
    rw [Layout.part, List.singleton_append, bind_ok (ahead_run rfl rest)]
    rfl
  | false =>
    unfold hasMember
    rw [Layout.part, List.append_assoc, List.singleton_append,
      bind_ok (ahead_gap l.newLine_gap rfl rest)]
    rfl

theorem hasMember_part_cons (l : Layout) (first : Bool) (more : Text) (items : List Text)
    (rest : Text) :
    hasMember first (l.part '\x7d' first (('"' :: more) :: items) ++ rest) =
      .ok (true, '"' :: (more ++ (l.part '\x7d' false items ++ rest))) := by
  cases first with
  | true =>
    unfold hasMember
    rw [Layout.part, List.append_assoc, List.append_assoc, List.cons_append,
      bind_ok (ahead_gap l.deeper.newLine_gap rfl _)]
    rfl
  | false =>
    unfold hasMember
    rw [Layout.part, List.cons_append, List.append_assoc, List.append_assoc, List.cons_append,
      bind_ok (ahead_run rfl _)]
    show (advance >>= fun _ => mustGoOn >>= fun d =>
      if d = '"' then pure true else throw .malformed : Reader Bool) (',' :: _) = _
    rw [bind_ok (advance_run ',' _), bind_ok (mustGoOn_gap l.deeper.newLine_gap rfl _), if_pos rfl]
    rfl

/-! ## 3. Lists -/

section List

variable {item : Reader α} {text : α → Text}

/-- The loop over the items that are left. -/
theorem items_run (l : Layout) (rest : Text) : ∀ (as : List α) (first : Bool) (fuel : Nat),
    (∀ a ∈ as, Reads item (text a) a) → as.length < fuel →
      items item fuel first (l.part ']' first (as.map text) ++ rest) = .ok (as, ']' :: rest)
  | [], first, fuel + 1, _, _ => by
    rw [List.map_nil, items, bind_ok (hasItem_part_nil l first rest)]
    rfl
  | a :: as, first, fuel + 1, h, hf => by
    have ha := h a List.mem_cons_self
    have ih := items_run l rest as false fuel (fun b hb => h b (List.mem_cons_of_mem a hb))
      (Nat.lt_of_succ_lt_succ hf)
    have hread := ha.reads [] _ gap_nil (ended_part l (.inl rfl) (as.map text) rest)
    obtain ⟨c, more, hstart, hspace, hne⟩ := ha.starts
    rw [List.nil_append, hstart, List.cons_append] at hread
    rw [List.map_cons, hstart, items, bind_ok (hasItem_part_cons l first hspace hne more _ rest),
      if_pos rfl, bind_ok hread, bind_ok ih]
    rfl

theorem listBody_run {t rest : Text} {as : List α}
    (h : items item t.length true t = .ok (as, ']' :: rest)) :
    listBody item t = .ok (as, rest) := by
  unfold listBody
  rw [@bind_ok _ _ (fun u => items item u.length true u) _ t _ _ h, bind_ok (close_run rfl rest)]
  rfl

/-- **A list is read as it was written**, when its items are. -/
theorem list_reads (l : Layout) (as : List α) (h : ∀ a ∈ as, Reads item (text a) a) :
    Reads (list item) (l.enclose '[' ']' (as.map text)) as := by
  rw [Layout.enclose_eq]
  refine ⟨⟨'[', _, rfl, rfl, by decide⟩, fun gap rest hg _ => ?_⟩
  have hne : ∀ t ∈ as.map text, t ≠ [] := by
    intro t ht
    obtain ⟨a, ha, rfl⟩ := List.mem_map.1 ht
    exact (h a ha).ne_nil
  have hlen := l.length_lt_length_part ']' hne
  rw [List.length_map] at hlen
  unfold list
  rw [List.cons_append, bind_ok (mustGoOn_gap hg rfl _), if_pos rfl, bind_ok (advance_run _ _)]
  refine listBody_run (items_run l rest as true _ h ?_)
  rw [List.length_append]
  omega

end List

/-! ## 4. Objects -/

/-- A member: the key, a colon and the written value. -/
def member (l : Layout) (m : Text × Text) : Text :=
  quoted m.1 ++ l.deeper.colon ++ m.2

/-- What stands in a member after its first quote. -/
def memberRest (l : Layout) (m : Text × Text) : Text :=
  m.1.flatMap escape ++ '"' :: (l.deeper.colon ++ m.2)

theorem member_eq (l : Layout) (m : Text × Text) : member l m = '"' :: memberRest l m := by
  simp [member, memberRest, quoted]

theorem memberRest_append (l : Layout) (m : Text × Text) (t : Text) :
    memberRest l m ++ t = m.1.flatMap escape ++ '"' :: (l.deeper.colon ++ (m.2 ++ t)) := by
  simp [memberRest]

/-- A value after its colon. -/
theorem colon_bind_run {r : Reader α} {t : Text} {a : α} (h : Reads r t a) (l : Layout)
    {rest : Text} (hr : Ended rest) (f : α → Reader β) :
    (colon >>= fun _ => r >>= f : Reader β) (l.colon ++ (t ++ rest)) = f a rest := by
  cases l with
  | compact =>
    rw [Layout.colon, List.singleton_append, bind_ok (colon_run _)]
    exact bind_ok (h.reads [] rest gap_nil hr)
  | indented depth =>
    have hspace : Gap [' '] := by
      intro c hc
      rw [List.mem_singleton.1 hc]
      rfl
    rw [Layout.colon, List.cons_append, bind_ok (colon_run _)]
    exact bind_ok (h.reads [' '] rest hspace hr)

section Dictionary

variable {value : Reader α} {text : α → Text}

/-- The loop over the members that are left. -/
theorem members_run (l : Layout) (rest : Text) : ∀ (es : List (Text × α)) (first : Bool)
    (fuel : Nat), (∀ e ∈ es, Reads value (text e.2) e.2) → es.length < fuel →
      members stringBody value fuel first
        (l.part '\x7d' first (es.map fun e => member l (e.1, text e.2)) ++ rest) =
          .ok (es, '\x7d' :: rest)
  | [], first, fuel + 1, _, _ => by
    rw [List.map_nil, members, bind_ok (hasMember_part_nil l first rest)]
    rfl
  | e :: es, first, fuel + 1, h, hf => by
    have he := h e List.mem_cons_self
    have ih := members_run l rest es false fuel (fun b hb => h b (List.mem_cons_of_mem e hb))
      (Nat.lt_of_succ_lt_succ hf)
    have hended := ended_part l (.inr rfl) (es.map fun e => member l (e.1, text e.2)) rest
    rw [List.map_cons, member_eq, members, bind_ok (hasMember_part_cons l first _ _ rest),
      if_pos rfl, bind_ok (advance_run _ _), memberRest_append, bind_ok (stringBody_run _ _),
      colon_bind_run he _ hended, bind_ok ih]
    rfl

theorem objectBody_run {t rest : Text} {es : List (Text × α)}
    (h : members stringBody value t.length true t = .ok (es, '\x7d' :: rest)) :
    objectBody stringBody value t = .ok (es, rest) := by
  unfold objectBody
  rw [@bind_ok _ _ (fun u => members stringBody value u.length true u) _ t _ _ h,
    bind_ok (close_run rfl rest)]
  rfl

/-- **An object with any keys is read as it was written**, when its values are. -/
theorem dictionary_reads (l : Layout) (es : List (Text × α))
    (h : ∀ e ∈ es, Reads value (text e.2) e.2) :
    Reads (dictionary value)
      (l.enclose '\x7b' '\x7d' (es.map fun e => member l (e.1, text e.2))) es := by
  rw [Layout.enclose_eq]
  refine ⟨⟨'\x7b', _, rfl, rfl, by decide⟩, fun gap rest hg _ => ?_⟩
  have hne : ∀ t ∈ es.map fun e => member l (e.1, text e.2), t ≠ [] := by
    intro t ht
    obtain ⟨e, _, rfl⟩ := List.mem_map.1 ht
    rw [member_eq]
    exact List.cons_ne_nil _ _
  have hlen := l.length_lt_length_part '\x7d' hne
  rw [List.length_map] at hlen
  unfold dictionary
  rw [List.cons_append, bind_ok (mustGoOn_gap hg rfl _), if_pos rfl, bind_ok (advance_run _ _)]
  refine objectBody_run (members_run l rest es true _ h ?_)
  rw [List.length_append]
  omega

end Dictionary

/-! ## 5. Records -/

section Record

variable {fields : List (RecordField σ)}

/-- Keys and written values of fields that are not given yet, which lead from one draft to
    another. -/
inductive Filled (fields : List (RecordField σ)) : σ → List (Text × Text) → σ → Prop where
  | nil (draft : σ) : Filled fields draft [] draft
  | cons {draft next last : σ} {f : RecordField σ} {key value : Text} {more : List (Text × Text)}
      (hfind : fields.find? (fun f => decide (f.name = key)) = some f)
      (hnew : f.given draft = false) (hread : Reads (f.read draft) value next)
      (later : Filled fields next more last) : Filled fields draft ((key, value) :: more) last

/-- The loop over the fields that are left. -/
theorem fieldsByName_run (l : Layout) (rest : Text) {draft last : σ} {ms : List (Text × Text)}
    (h : Filled fields draft ms last) : ∀ (first : Bool) (fuel : Nat), ms.length < fuel →
      fieldsByName fields fuel first draft (l.part '\x7d' first (ms.map (member l)) ++ rest) =
        .ok (last, '\x7d' :: rest) := by
  induction h with
  | nil draft =>
    intro first fuel hf
    obtain ⟨less, rfl⟩ := Nat.exists_eq_add_of_lt hf
    rw [List.map_nil, fieldsByName, bind_ok (hasMember_part_nil l first rest)]
    rfl
  | @cons draft next last f key value more hfind hnew hread _ ih =>
    intro first fuel hf
    obtain ⟨less, rfl⟩ := Nat.exists_eq_add_of_lt hf
    have hended := ended_part l (.inr rfl) (more.map (member l)) rest
    rw [List.map_cons, member_eq, fieldsByName, bind_ok (hasMember_part_cons l first _ _ rest),
      if_pos rfl, bind_ok (advance_run _ _), memberRest_append, bind_ok (stringBody_run _ _)]
    simp only [hfind, hnew, Bool.false_eq_true, if_false]
    rw [colon_bind_run hread _ hended]
    exact ih false _ (by rw [List.length_cons]; omega)

/-- **A record is read as it was written**, with the fields that its members fill in. -/
theorem record_reads (l : Layout) {draft last : σ} {finish : σ → Option α} {a : α}
    {ms : List (Text × Text)} (h : Filled fields draft ms last) (ha : finish last = some a) :
    Reads (record fields draft finish) (l.enclose '\x7b' '\x7d' (ms.map (member l))) a := by
  rw [Layout.enclose_eq]
  refine ⟨⟨'\x7b', _, rfl, rfl, by decide⟩, fun gap rest hg _ => ?_⟩
  have hne : ∀ t ∈ ms.map (member l), t ≠ [] := by
    intro t ht
    obtain ⟨m, _, rfl⟩ := List.mem_map.1 ht
    rw [member_eq]
    exact List.cons_ne_nil _ _
  have hlen := l.length_lt_length_part '\x7d' hne
  rw [List.length_map] at hlen
  have hfields := fieldsByName_run l rest h true
    (l.part '\x7d' true (ms.map (member l)) ++ rest).length (by rw [List.length_append]; omega)
  unfold record
  rw [List.cons_append, bind_ok (mustGoOn_gap hg rfl _)]
  refine (bind_ok (advance_run _ _)).trans ?_
  rw [@bind_ok _ _ (fun t => fieldsByName fields t.length true draft t) _ _ _ _ hfields]
  simp only [ha]
  rw [bind_ok (close_run rfl rest)]
  rfl

end Record

end Reader

end Sentences.Json
