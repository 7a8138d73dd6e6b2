import Sentences.Json.Reader
import Sentences.Json.Value

/-!
# Plain JSON values are read as they were written

A written value may have white space before it, and after it stands something that no number goes
on with. `Reads` says that a reader takes a text in every such place.

* `string_reads`: a quoted text, whatever its characters;
* `number?_reads`, `number?_reads_null`: a number of 64 bits, and none;
* `bool_reads`: a truth value.
-/

namespace Sentences.Json

namespace Reader

variable {α β : Type}

/-! ## 1. Running a reader -/

theorem bind_ok {r : Reader α} {f : α → Reader β} {t t' : Text} {a : α} (h : r t = .ok (a, t')) :
    (r >>= f) t = f a t' := by
  simp only [bind, StateT.bind, h, Except.bind]

theorem modify_run (f : Text → Text) (t : Text) : (modify f : Reader Unit) t = .ok ((), f t) := rfl

theorem advance_run (c : Char) (t : Text) : advance (c :: t) = .ok ((), t) := rfl

theorem here_run (c : Char) (t : Text) : here (c :: t) = .ok (some c, c :: t) := rfl

theorem next_run (early : Fault) (c : Char) (t : Text) : next early (c :: t) = .ok (c, t) := by
  unfold next
  rw [bind_ok (here_run c t)]
  show (advance >>= fun _ => pure c) (c :: t) = _
  rw [bind_ok (advance_run c t)]
  rfl

theorem word_run (w t : Text) : word w (w ++ t) = .ok ((), t) := by
  induction w with
  | nil => rfl
  | cons c rest ih =>
    unfold word
    rw [List.cons_append, bind_ok (next_run .truncated c _), if_pos rfl]
    exact ih

/-! ## 2. White space -/

/-- White space only. -/
def Gap (t : Text) : Prop :=
  ∀ c ∈ t, isSpace c = true

theorem gap_nil : Gap [] :=
  fun _ hc => nomatch hc

theorem ahead_gap {gap : Text} (hg : Gap gap) {c : Char} (hc : isSpace c = false) (t : Text) :
    ahead (gap ++ c :: t) = .ok (some c, c :: t) := by
  unfold ahead
  rw [bind_ok (modify_run _ _), List.dropWhile_append_of_pos hg,
    List.dropWhile_cons_of_neg (by rw [hc]; decide)]
  rfl

theorem ahead_run {c : Char} (hc : isSpace c = false) (t : Text) :
    ahead (c :: t) = .ok (some c, c :: t) :=
  ahead_gap gap_nil hc t

theorem mustGoOn_gap {gap : Text} (hg : Gap gap) {c : Char} (hc : isSpace c = false) (t : Text) :
    mustGoOn (gap ++ c :: t) = .ok (c, c :: t) := by
  unfold mustGoOn
  rw [bind_ok (ahead_gap hg hc t)]
  rfl

theorem mustGoOn_run {c : Char} (hc : isSpace c = false) (t : Text) :
    mustGoOn (c :: t) = .ok (c, c :: t) :=
  mustGoOn_gap gap_nil hc t

/-- A text that no number goes on into: it is over, or white space or punctuation stands first. -/
def Ended (t : Text) : Prop :=
  ∀ c ∈ t.head?, isSpace c = true ∨ c = ',' ∨ c = ']' ∨ c = '\x7d'

theorem ended_gap_append {gap t : Text} (hg : Gap gap) (ht : Ended t) : Ended (gap ++ t) := by
  cases gap with
  | nil => exact ht
  | cons b rest =>
    intro c hc
    cases hc
    exact .inl (hg b List.mem_cons_self)

/-- The reader takes the text as a value, after white space and before the end of the text. -/
structure Reads (r : Reader α) (t : Text) (a : α) : Prop where
  starts : ∃ c more, t = c :: more ∧ isSpace c = false ∧ c ≠ ']'
  reads : ∀ gap rest, Gap gap → Ended rest → r (gap ++ (t ++ rest)) = .ok (a, rest)

theorem Reads.ne_nil {r : Reader α} {t : Text} {a : α} (h : Reads r t a) : t ≠ [] := by
  obtain ⟨c, more, rfl, _⟩ := h.starts
  exact List.cons_ne_nil c more

/-- A text that was read whole makes up the value of a JSON text. -/
theorem Reads.readAll {r : Reader α} {t : Text} {a : α} (h : Reads r t a) : r.readAll t = .ok a := by
  have hr := h.reads [] [] gap_nil (fun c hc => nomatch hc)
  rw [List.append_nil, List.nil_append] at hr
  unfold Reader.readAll
  rw [hr]
  rfl

/-! ## 3. Strings -/

theorem hexDigit?_digitChar : ∀ d < 16, hexDigit? (Nat.digitChar d) = some d := by decide

theorem utf8Size_digitChar : ∀ d < 16, (Nat.digitChar d).utf8Size = 1 := by decide

/-- A character below the space, by its two hexadecimal digits. -/
theorem codePoint_run {c : Char} (hc : c.toNat < 0x20) (t : Text) :
    codePoint ('0' :: '0' :: Nat.digitChar (c.toNat / 16) :: Nat.digitChar (c.toNat % 16) :: t) =
      .ok (c, t) := by
  have hhigh : c.toNat / 16 < 16 := by omega
  have hlow : c.toNat % 16 < 16 := Nat.mod_lt _ (by decide)
  have hunit : codeUnit ('0' :: '0' :: Nat.digitChar (c.toNat / 16) ::
      Nat.digitChar (c.toNat % 16) :: t) = .ok (c.toNat, t) := by
    have hzero : hexDigit? '0' = some 0 := rfl
    have hsize : ('0' : Char).utf8Size = 1 := rfl
    have hnumber : 16 * (c.toNat / 16) + c.toNat % 16 = c.toNat := Nat.div_add_mod _ _
    simp [codeUnit, Text.byteLength, hexNumber?, List.mapM_cons, hexDigit?_digitChar _ hhigh,
      hexDigit?_digitChar _ hlow, utf8Size_digitChar _ hhigh, utf8Size_digitChar _ hlow, hzero,
      hsize, hnumber]
  unfold codePoint
  rw [bind_ok hunit, if_neg (by omega), if_neg (by omega), Char.ofNat_toNat]
  rfl

/-- An escape, and then whatever follows it. -/
theorem characters_escaped {c : Char} {e t : Text} (fuel : Nat)
    (h : escaped codePoint (e ++ t) = .ok (c, t)) :
    characters codePoint (fuel + 1) ('\\' :: (e ++ t)) =
      (characters codePoint fuel >>= fun more => pure (c :: more) : Reader Text) t := by
  rw [characters, bind_ok (next_run .truncated '\\' (e ++ t))]
  show (escaped codePoint >>= fun d => characters codePoint fuel >>= fun more =>
    pure (d :: more) : Reader Text) (e ++ t) = _
  rw [bind_ok h]

/-- A character that stands for itself, and then whatever follows it. -/
theorem characters_plain {c : Char} (fuel : Nat) (t : Text) (hquote : c ≠ '"') (hslash : c ≠ '\\')
    (hc : ¬ c.toNat < 0x20) :
    characters codePoint (fuel + 1) (c :: t) =
      (characters codePoint fuel >>= fun more => pure (c :: more) : Reader Text) t := by
  rw [characters, bind_ok (next_run .truncated c t)]
  split
  · exact absurd rfl hquote
  · exact absurd rfl hslash
  · rw [if_neg hc]

/-- A character as it is written, and then whatever follows it. -/
theorem characters_escape (c : Char) (fuel : Nat) (t : Text) :
    characters codePoint (fuel + 1) (escape c ++ t) =
      (characters codePoint fuel >>= fun more => pure (c :: more) : Reader Text) t := by
  unfold escape
  split
  · exact characters_escaped (e := ['"']) fuel rfl
  · exact characters_escaped (e := ['\\']) fuel rfl
  · exact characters_escaped (e := ['b']) fuel rfl
  · exact characters_escaped (e := ['f']) fuel rfl
  · exact characters_escaped (e := ['n']) fuel rfl
  · exact characters_escaped (e := ['r']) fuel rfl
  · exact characters_escaped (e := ['t']) fuel rfl
  · rename_i hquote hslash _ _ _ _ _
    split
    · rename_i hc
      refine characters_escaped (e := ['u', '0', '0', _, _]) fuel ?_
      unfold escaped
      rw [List.cons_append, bind_ok (next_run .truncated 'u' _)]
      exact codePoint_run hc t
    · rename_i hc
      exact characters_plain fuel t hquote hslash hc

/-- The characters of a string up to its closing quote. -/
theorem characters_run (t rest : Text) : ∀ fuel, t.length < fuel →
    characters codePoint fuel (t.flatMap escape ++ '"' :: rest) = .ok (t, rest) := by
  induction t with
  | nil =>
    intro fuel hf
    obtain ⟨less, rfl⟩ := Nat.exists_eq_add_of_lt hf
    rfl
  | cons c more ih =>
    intro fuel hf
    obtain ⟨less, rfl⟩ := Nat.exists_eq_add_of_lt hf
    rw [List.flatMap_cons, List.append_assoc, characters_escape,
      bind_ok (ih _ (by rw [List.length_cons]; omega))]
    rfl

theorem escape_ne_nil (c : Char) : escape c ≠ [] := by
  unfold escape
  split <;> try exact List.cons_ne_nil _ _
  split <;> exact List.cons_ne_nil _ _

theorem length_le_length_flatMap {α β : Type} {f : α → List β} (hf : ∀ a, f a ≠ []) (as : List α) :
    as.length ≤ (as.flatMap f).length := by
  induction as with
  | nil => exact Nat.le_refl 0
  | cons a rest ih =>
    have := List.length_pos_iff.2 (hf a)
    rw [List.flatMap_cons, List.length_append, List.length_cons]
    omega

theorem stringBody_run (t rest : Text) :
    stringBody (t.flatMap escape ++ '"' :: rest) = .ok (t, rest) := by
  have := length_le_length_flatMap escape_ne_nil t
  exact characters_run t rest _ (by rw [List.length_append, List.length_cons]; omega)

/-- **A string is read as it was written**, with all its characters. -/
theorem string_reads (t : Text) : Reads string (quoted t) t where
  starts := ⟨'"', _, rfl, rfl, by decide⟩
  reads gap rest hg _ := by
    unfold string quoted
    rw [List.cons_append, List.cons_append, List.append_assoc, List.singleton_append,
      bind_ok (mustGoOn_gap hg rfl _), if_pos rfl, bind_ok (advance_run _ _)]
    exact stringBody_run t rest

/-! ## 4. Numbers -/

/-- Only zero is written with a zero in front. -/
theorem eq_zero_of_head?_ofNat (n : Nat) (h : (Text.ofNat n).head? = some '0') : n = 0 := by
  unfold Text.ofNat at h
  by_cases hn : n < 10
  · rw [Nat.toDigits_of_lt_base hn] at h
    exact Nat.digitChar_eq_zero.1 (Option.some.inj h)
  · have hbase : 10 ≤ n := by omega
    rw [Nat.toDigits_of_base_le (by decide) hbase, List.head?_append,
      Option.or_of_isSome (by simp)] at h
    have := eq_zero_of_head?_ofNat (n / 10) h
    omega

theorem le_ofDigitChars (ds : Text) (n : Nat) : n ≤ Nat.ofDigitChars 10 ds n := by
  induction ds generalizing n with
  | nil => exact Nat.le_refl n
  | cons d rest ih =>
    rw [Nat.ofDigitChars_cons]
    have := ih (10 * n + (d.toNat - '0'.toNat))
    omega

/-- Digits of a number below `2 ^ 64` all find room. -/
theorem takeDigits_run (ds : Text) (n : Nat) (h : Nat.ofDigitChars 10 ds n < UInt64.size) :
    takeDigits n ds = (Nat.ofDigitChars 10 ds n, []) := by
  induction ds generalizing n with
  | nil => rfl
  | cons d rest ih =>
    rw [Nat.ofDigitChars_cons] at h ⊢
    have hroom := Nat.lt_of_le_of_lt (le_ofDigitChars rest _) h
    rw [takeDigits, if_pos hroom]
    exact ih _ h

theorem isSpace_eq_true_iff {c : Char} :
    isSpace c = true ↔ c = ' ' ∨ c = '\n' ∨ c = '\t' ∨ c = '\r' := by
  simp only [isSpace, Bool.or_eq_true, beq_iff_eq, or_assoc]

theorem isSpace_eq_false_of_isDigit {c : Char} (hc : c.isDigit = true) : isSpace c = false := by
  rw [Bool.eq_false_iff]
  intro h
  rcases isSpace_eq_true_iff.1 h with rfl | rfl | rfl | rfl <;> exact absurd hc (by decide)

/-- After the end there is no digit, no point and no exponent. -/
theorem Ended.head_ne {rest : Text} (hr : Ended rest) {c : Char} (hc : rest.head? = some c) :
    c.isDigit = false ∧ c ≠ '.' ∧ c ≠ 'e' ∧ c ≠ 'E' := by
  rcases hr c hc with h | rfl | rfl | rfl
  · rcases isSpace_eq_true_iff.1 h with rfl | rfl | rfl | rfl <;> decide
  · decide
  · decide
  · decide

theorem digits_run {ds rest : Text} (hds : ds.all Char.isDigit = true) (hr : Ended rest) :
    digits (ds ++ rest) = .ok (ds, rest) := by
  have hall : ∀ c ∈ ds, c.isDigit = true := List.all_eq_true.1 hds
  unfold digits
  rw [List.takeWhile_append_of_pos hall, List.dropWhile_append_of_pos hall]
  cases rest with
  | nil => simp
  | cons c more =>
    have hc := (hr.head_ne rfl).1
    rw [List.takeWhile_cons_of_neg (by rw [hc]; decide), List.append_nil,
      List.dropWhile_cons_of_neg (by rw [hc]; decide)]

/-- The digits of a number, which are its whole part. -/
theorem whole_run (n : Nat) {rest : Text} (hr : Ended rest) :
    whole .truncated (Text.ofNat n ++ rest) = .ok (Text.ofNat n, rest) := by
  have hdigits := digits_run (Text.all_isDigit_ofNat n) hr
  have hall := Text.all_isDigit_ofNat n
  have hzero := eq_zero_of_head?_ofNat n
  cases hn : Text.ofNat n with
  | nil => exact absurd hn (Text.ofNat_ne_nil n)
  | cons c more =>
    rw [hn] at hdigits hall hzero
    have hc : c.isDigit = true := (Bool.and_eq_true_iff.1 hall).1
    have hsome : someDigits .truncated (c :: more ++ rest) = .ok (c :: more, rest) := by
      unfold someDigits
      rw [List.cons_append, bind_ok (here_run c _)]
      show (if c.isDigit then digits else throw .malformed : Reader Text) (c :: (more ++ rest)) = _
      rw [if_pos hc]
      exact hdigits
    have hlead : ¬ ((c :: more).head? = some '0' ∧ c :: more ≠ ['0']) := by
      intro ⟨h0, hne⟩
      apply hne
      rw [← hn, hzero h0]
      rfl
    unfold whole
    rw [bind_ok hsome, if_neg hlead]
    rfl

theorem fraction_run {rest : Text} (hr : Ended rest) :
    fraction .truncated rest = .ok ([], rest) := by
  have hpoint : rest.head? ≠ some '.' := fun h => (hr.head_ne h).2.1 rfl
  have hhere : here rest = .ok (rest.head?, rest) := rfl
  unfold fraction
  rw [bind_ok hhere, if_neg hpoint]
  rfl

theorem exponent_run {rest : Text} (hr : Ended rest) :
    exponent .truncated rest = .ok (none, rest) := by
  have hhere : here rest = .ok (rest.head?, rest) := rfl
  have hlower : rest.head? ≠ some 'e' := fun h => (hr.head_ne h).2.2.1 rfl
  have hupper : rest.head? ≠ some 'E' := fun h => (hr.head_ne h).2.2.2 rfl
  unfold exponent
  rw [bind_ok hhere]
  generalize rest.head? = next at hlower hupper
  split
  · exact absurd rfl hlower
  · exact absurd rfl hupper
  · rfl

theorem number_run {n : Nat} (hn : n < UInt64.size) {rest : Text} (hr : Ended rest) :
    number (Text.ofNat n ++ rest) = .ok (.natural (UInt64.ofNat n), rest) := by
  have hvalue : Nat.ofDigitChars 10 (Text.ofNat n) 0 = n :=
    Nat.ofDigitChars_toDigits (by decide) (by decide)
  have hsign : (Text.ofNat n ++ rest).head? ≠ some '-' := by
    have hall := Text.all_isDigit_ofNat n
    cases hd : Text.ofNat n with
    | nil => exact absurd hd (Text.ofNat_ne_nil n)
    | cons c more =>
      rw [hd] at hall
      intro h
      cases h
      exact absurd hall (by simp)
  have hhere : here (Text.ofNat n ++ rest) = .ok ((Text.ofNat n ++ rest).head?, _) := rfl
  have hnumeral : numeral .truncated (Text.ofNat n ++ rest) =
      .ok (⟨false, Text.ofNat n, [], none⟩, rest) := by
    unfold numeral
    rw [bind_ok hhere]
    simp only [hsign, decide_false, if_false]
    rw [bind_ok (whole_run n hr), bind_ok (fraction_run hr), bind_ok (exponent_run hr)]
    rfl
  unfold number
  rw [bind_ok hnumeral]
  have htake := takeDigits_run (Text.ofNat n) 0 (by rw [hvalue]; exact hn)
  rw [hvalue] at htake
  simp only [Numeral.value, htake]
  rfl

/-- **A number below `2 ^ 64` is read as it was written.** -/
theorem number?_reads (n : UInt64) : Reads number? (Text.ofNat n.toNat) (some n) := by
  have hall := Text.all_isDigit_ofNat n.toNat
  cases hd : Text.ofNat n.toNat with
  | nil => exact absurd hd (Text.ofNat_ne_nil n.toNat)
  | cons c more =>
    rw [hd] at hall
    have hc : c.isDigit = true := (Bool.and_eq_true_iff.1 hall).1
    have hspace := isSpace_eq_false_of_isDigit hc
    refine ⟨⟨c, more, rfl, hspace, fun h => ?_⟩, fun gap rest hg hr => ?_⟩
    · subst h
      exact absurd hc (by decide)
    · have hnumber := number_run n.toNat_lt_size hr
      have hword : c ≠ 'n' := fun h => absurd (h ▸ hc) (by decide)
      rw [hd] at hnumber
      unfold number?
      rw [List.cons_append, bind_ok (mustGoOn_gap hg hspace _), if_neg hword, if_pos (.inr hc),
        ← List.cons_append, bind_ok hnumber, UInt64.ofNat_toNat]
      rfl

theorem number?_reads_null : Reads number? "null".toList none where
  starts := ⟨'n', _, rfl, rfl, by decide⟩
  reads gap rest hg _ := by
    unfold number?
    rw [show "null".toList ++ rest = 'n' :: ("ull".toList ++ rest) from rfl,
      bind_ok (mustGoOn_gap hg rfl _), if_pos rfl]
    exact bind_ok (word_run "null".toList rest)

/-! ## 5. Truth values -/

/-- **A truth value is read as it was written.** -/
theorem bool_reads (b : Bool) : Reads bool (ofBool b) b := by
  cases b with
  | true =>
    refine ⟨⟨'t', _, rfl, rfl, by decide⟩, fun gap rest hg _ => ?_⟩
    unfold bool
    rw [show ofBool true ++ rest = 't' :: ("rue".toList ++ rest) from rfl,
      bind_ok (mustGoOn_gap hg rfl _)]
    exact bind_ok (word_run "true".toList rest)
  | false =>
    refine ⟨⟨'f', _, rfl, rfl, by decide⟩, fun gap rest hg _ => ?_⟩
    unfold bool
    rw [show ofBool false ++ rest = 'f' :: ("alse".toList ++ rest) from rfl,
      bind_ok (mustGoOn_gap hg rfl _)]
    exact bind_ok (word_run "false".toList rest)

end Reader

end Sentences.Json
