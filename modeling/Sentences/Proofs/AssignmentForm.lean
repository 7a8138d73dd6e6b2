import Sentences.Failure
import Sentences.Proofs.Trimming

/-!
# The form of an assignment

The parts of an assignment, one after another, and what may stand in each of them. The brackets are
optional, each on its own, the sign has two spellings, and white space is allowed in three places;
still a line can be cut into such parts in one way only, up to where the white space in front of the
body is said to end.

* `Assignment.Form`: the parts of a line, as they should be;
* `Assignment.Form.parts_eq`: the line determines them;
* `Assignment.ofLine?_eq_some_iff`: a line is read as an assignment exactly when it has the form of
  it, `Assignment.ofText_form`: and it is quoted in the failure when it has the form of none;
* `Assignment.ofLine?_trim`: white space around a line makes no difference.
-/

namespace Sentences

open Text (isBlank isNameChar skipMark afterAssign?)

namespace Text

/-! ## 1. Names, marks and signs -/

/-- A text that can stand as the name of an assignment. -/
def Nameable (t : Text) : Prop :=
  t ≠ [] ∧ ∀ c ∈ t, Text.isBlank c = false ∧ c ≠ '<' ∧ c ≠ '>' ∧ c ≠ '=' ∧ c ≠ ':'

theorem isNameChar_iff (c : Char) : isNameChar c = true ↔
    isBlank c = false ∧ c ≠ '<' ∧ c ≠ '>' ∧ c ≠ '=' ∧ c ≠ ':' := by
  simp only [isNameChar, openMark, closeMark, Bool.and_eq_true, Bool.not_eq_true', bne_iff_ne,
    ne_eq, and_assoc]

theorem nameable_iff (t : Text) : t.Nameable ↔ t ≠ [] ∧ t.all isNameChar = true := by
  unfold Nameable
  simp only [List.all_eq_true, isNameChar_iff]

instance (t : Text) : Decidable t.Nameable :=
  decidable_of_iff _ t.nameable_iff.symm

theorem Nameable.isNameChar {t : Text} (h : t.Nameable) : ∀ c ∈ t, Text.isNameChar c = true :=
  List.all_eq_true.1 (t.nameable_iff.1 h).2

/-- An optional mark is skipped, if what follows does not start with the mark. -/
theorem skipMark_append {mark : Char} {m rest : Text} (hm : m = [] ∨ m = [mark])
    (hrest : ∀ c, rest.head? = some c → c ≠ mark) : skipMark mark (m ++ rest) = rest := by
  rcases hm with rfl | rfl
  · cases rest with
    | nil => rfl
    | cons c rest => exact if_neg (hrest c rfl)
  · exact if_pos rfl

/-- What is skipped is the mark, or nothing. -/
theorem exists_skipMark (mark : Char) (t : Text) :
    ∃ m : Text, (m = [] ∨ m = [mark]) ∧ m ++ skipMark mark t = t := by
  cases t with
  | nil => exact ⟨[], .inl rfl, rfl⟩
  | cons c rest =>
    by_cases hc : c = mark
    · exact ⟨[mark], .inr rfl, by simp [skipMark, hc]⟩
    · exact ⟨[], .inl rfl, by simp [skipMark, hc]⟩

/-- What follows a sign is what follows one of its two spellings. -/
theorem afterAssign?_eq_some_iff {t rest : Text} : afterAssign? t = some rest ↔
    ∃ sign, (sign = "::=".toList ∨ sign = "=".toList) ∧ sign ++ rest = t := by
  constructor
  · intro h
    unfold afterAssign? at h
    split at h
    · cases h
      exact ⟨_, .inl rfl, rfl⟩
    · cases h
      exact ⟨_, .inr rfl, rfl⟩
    · cases h
  · rintro ⟨sign, rfl | rfl, rfl⟩
    · rfl
    · rfl

end Text

/-! ## 2. The parts of a line -/

/-- The parts of an assignment as it is written. -/
structure Assignment.Form where
  /-- White space in front. -/
  lead : Text
  /-- An opening bracket, or nothing. -/
  opening : Text
  name : Text
  /-- A closing bracket, or nothing. -/
  closing : Text
  /-- White space in front of the sign. -/
  gap : Text
  sign : Text
  /-- White space behind the sign. -/
  padding : Text
  body : Text
  lead_blank : lead.allBlank = true
  opening_mark : opening = [] ∨ opening = [openMark]
  name_nameable : name.Nameable
  closing_mark : closing = [] ∨ closing = [closeMark]
  gap_blank : gap.allBlank = true
  sign_spelling : sign = "::=".toList ∨ sign = "=".toList
  padding_blank : padding.allBlank = true
  body_line : '\n' ∉ body

namespace Assignment.Form

variable (f g : Form)

/-- The line that the parts make up. -/
def line : Text :=
  f.lead ++ (f.opening ++ (f.name ++ (f.closing ++ (f.gap ++ (f.sign ++ (f.padding ++ f.body))))))

/-- The assignment that such a line makes. -/
def assignment : Assignment :=
  ⟨f.name, f.body.trim⟩

/-- The parts, the white space behind the sign and the body as one. -/
def parts : List Text :=
  [f.lead, f.opening, f.name, f.closing, f.gap, f.sign, f.padding ++ f.body]

/-! ## 3. The line determines its parts -/

/-- The line from its sign on. -/
def signed : Text :=
  f.sign ++ (f.padding ++ f.body)

/-- The line from what stands behind the name on. -/
def closed : Text :=
  f.closing ++ (f.gap ++ f.signed)

/-- The line from the name on, or from the bracket in front of it. -/
def opened : Text :=
  f.opening ++ (f.name ++ f.closed)

theorem line_eq : f.line = f.lead ++ f.opened := rfl

theorem mem_opening {c : Char} (h : c ∈ f.opening) : c = openMark := by
  rcases f.opening_mark with ho | ho <;> rw [ho] at h
  · cases h
  · exact List.mem_singleton.1 h

theorem mem_closing {c : Char} (h : c ∈ f.closing) : c = closeMark := by
  rcases f.closing_mark with hc | hc <;> rw [hc] at h
  · cases h
  · exact List.mem_singleton.1 h

theorem head?_signed : ∀ c, f.signed.head? = some c → c = ':' ∨ c = '=' := by
  intro c hc
  unfold signed at hc
  rcases f.sign_spelling with hs | hs <;> rw [hs] at hc <;> cases hc
  · exact .inl rfl
  · exact .inr rfl

theorem head?_spaced : ∀ c, (f.gap ++ f.signed).head? = some c →
    isBlank c = true ∨ c = ':' ∨ c = '=' :=
  Text.head?_append_of_forall (fun c hc => .inl (Text.isBlank_of_mem f.gap_blank c hc))
    fun c hc => .inr (f.head?_signed c hc)

theorem head?_closed : ∀ c, f.closed.head? = some c → isNameChar c = false := by
  refine Text.head?_append_of_forall (fun c hc => ?_) fun c hc => ?_
  · rw [f.mem_closing hc]
    decide
  · rcases f.head?_spaced c hc with hb | rfl | rfl
    · simp [isNameChar, hb]
    · decide
    · decide

theorem head?_named : ∀ c, (f.name ++ f.closed).head? = some c → isNameChar c = true := by
  intro c hc
  obtain ⟨d, rest, hname⟩ := List.exists_cons_of_ne_nil f.name_nameable.1
  have hd : d ∈ f.name := by
    rw [hname]
    exact List.mem_cons_self
  rw [hname] at hc
  cases hc
  exact f.name_nameable.isNameChar c hd

theorem head?_opened : ∀ c, f.opened.head? = some c → isBlank c = false := by
  refine Text.head?_append_of_forall (fun c hc => ?_) fun c hc => ?_
  · rw [f.mem_opening hc]
    decide
  · exact ((Text.isNameChar_iff c).1 (f.head?_named c hc)).1

/-- The white space in front ends where the name, or the bracket in front of it, begins. -/
theorem span_line : f.line.takeWhile isBlank = f.lead ∧ f.line.trimStart = f.opened :=
  Text.span_append (Text.isBlank_of_mem f.lead_blank) f.head?_opened

theorem span_named : (f.name ++ f.closed).takeWhile isNameChar = f.name ∧
    (f.name ++ f.closed).dropWhile isNameChar = f.closed :=
  Text.span_append f.name_nameable.isNameChar f.head?_closed

theorem span_spaced : (f.gap ++ f.signed).takeWhile isBlank = f.gap ∧
    Text.trimStart (f.gap ++ f.signed) = f.signed := by
  refine Text.span_append (Text.isBlank_of_mem f.gap_blank) fun c hc => ?_
  rcases f.head?_signed c hc with rfl | rfl <;> decide

theorem skip_opened : skipMark openMark f.opened = f.name ++ f.closed :=
  Text.skipMark_append f.opening_mark fun c hc =>
    ((Text.isNameChar_iff c).1 (f.head?_named c hc)).2.1

theorem skip_closed : skipMark closeMark f.closed = f.gap ++ f.signed := by
  refine Text.skipMark_append f.closing_mark fun c hc => ?_
  rcases f.head?_spaced c hc with hb | rfl | rfl
  · rintro rfl
    revert hb
    decide
  · decide
  · decide

theorem after_signed : afterAssign? f.signed = some (f.padding ++ f.body) :=
  Text.afterAssign?_eq_some_iff.2 ⟨f.sign, f.sign_spelling, rfl⟩

variable {f g}

/-- **A line can be cut in one way only**: each part ends where the next one begins. -/
theorem parts_eq (h : f.line = g.line) : f.parts = g.parts := by
  have hlead : f.lead = g.lead := by rw [← f.span_line.1, h, g.span_line.1]
  have hopened : f.opened = g.opened := by rw [← f.span_line.2, h, g.span_line.2]
  have hnamed : f.name ++ f.closed = g.name ++ g.closed := by
    rw [← f.skip_opened, hopened, g.skip_opened]
  have hname : f.name = g.name := by rw [← f.span_named.1, hnamed, g.span_named.1]
  have hclosed : f.closed = g.closed := by rw [← f.span_named.2, hnamed, g.span_named.2]
  have hspaced : f.gap ++ f.signed = g.gap ++ g.signed := by
    rw [← f.skip_closed, hclosed, g.skip_closed]
  have hgap : f.gap = g.gap := by rw [← f.span_spaced.1, hspaced, g.span_spaced.1]
  have hsigned : f.signed = g.signed := by rw [← f.span_spaced.2, hspaced, g.span_spaced.2]
  have hvalue : f.padding ++ f.body = g.padding ++ g.body := by
    refine Option.some.inj ?_
    rw [← f.after_signed, hsigned, g.after_signed]
  -- the three parts that are left stand in front of equal texts
  have hopening : f.opening = g.opening := by
    unfold opened at hopened
    rw [hnamed] at hopened
    exact List.append_cancel_right hopened
  have hclosing : f.closing = g.closing := by
    unfold closed at hclosed
    rw [hspaced] at hclosed
    exact List.append_cancel_right hclosed
  have hsign : f.sign = g.sign := by
    unfold signed at hsigned
    rw [hvalue] at hsigned
    exact List.append_cancel_right hsigned
  unfold parts
  rw [hlead, hopening, hname, hclosing, hgap, hsign, hvalue]

theorem trim_value (f : Form) : Text.trim (f.padding ++ f.body) = f.body.trim :=
  Text.trim_blank_append f.padding_blank f.body

theorem assignment_eq (h : f.line = g.line) : f.assignment = g.assignment := by
  have hparts := parts_eq h
  unfold parts at hparts
  simp only [List.cons.injEq, and_true] at hparts
  obtain ⟨-, -, hname, -, -, -, hvalue⟩ := hparts
  unfold assignment
  rw [hname, ← f.trim_value, hvalue, g.trim_value]

end Assignment.Form

/-! ## 4. Reading a line -/

namespace Assignment

/-- A line in the form of an assignment is read as it. -/
theorem Form.ofLine?_line (f : Form) : ofLine? f.line = some f.assignment := by
  have hbody : Text.trimStart (f.padding ++ f.body) = f.body.trimStart :=
    List.dropWhile_append_of_pos (Text.isBlank_of_mem f.padding_blank)
  have hline : '\n' ∉ f.body.trimStart :=
    fun hm => f.body_line ((List.dropWhile_suffix isBlank).subset hm)
  unfold ofLine?
  rw [f.span_line.2, f.skip_opened]
  dsimp only
  rw [f.span_named.1, f.span_named.2, f.skip_closed, f.span_spaced.2, f.after_signed]
  dsimp only
  rw [hbody, if_neg (by simp [f.name_nameable.1, hline]), Text.trim_trimStart]
  rfl

/-- And a line that is read has the form. -/
theorem exists_form {line : Text} {a : Assignment} (h : ofLine? line = some a) :
    ∃ f : Form, f.line = line ∧ f.assignment = a := by
  unfold ofLine? at h
  dsimp only at h
  obtain ⟨opening, hopening, hopened⟩ := Text.exists_skipMark openMark line.trimStart
  generalize skipMark openMark line.trimStart = named at h hopened
  obtain ⟨closing, hclosing, hclosed⟩ :=
    Text.exists_skipMark closeMark (named.dropWhile isNameChar)
  generalize skipMark closeMark (named.dropWhile isNameChar) = spaced at h hclosed
  split at h
  · cases h
  · next value hvalue =>
    obtain ⟨sign, hsign, hsigned⟩ := Text.afterAssign?_eq_some_iff.1 hvalue
    split at h
    · cases h
    · next hok =>
      rw [not_or] at hok
      obtain ⟨hname, hbody⟩ := hok
      have hnameable : Text.Nameable (named.takeWhile isNameChar) :=
        (Text.nameable_iff _).2 ⟨hname, List.all_takeWhile⟩
      have hline : line.takeWhile isBlank ++ (opening ++ (named.takeWhile isNameChar ++ (closing ++
          (spaced.takeWhile isBlank ++ (sign ++ (value.takeWhile isBlank ++ value.trimStart)))))) =
          line := by
        rw [value.takeWhile_append_trimStart, hsigned, spaced.takeWhile_append_trimStart, hclosed,
          List.takeWhile_append_dropWhile, hopened, line.takeWhile_append_trimStart]
      refine ⟨⟨line.takeWhile isBlank, opening, named.takeWhile isNameChar, closing,
        spaced.takeWhile isBlank, sign, value.takeWhile isBlank, value.trimStart,
        List.all_takeWhile, hopening, hnameable, hclosing, List.all_takeWhile, hsign,
        List.all_takeWhile, hbody⟩, hline, Option.some.inj h⟩

/-- **A line is read as an assignment exactly when it has the form of it.** -/
theorem ofLine?_eq_some_iff {line : Text} {a : Assignment} :
    ofLine? line = some a ↔ ∃ f : Form, f.line = line ∧ f.assignment = a := by
  constructor
  · exact exists_form
  · rintro ⟨f, rfl, rfl⟩
    exact f.ofLine?_line

/-! ## 5. White space around a line -/

namespace Form

variable (f : Form)

/-- White space around a line belongs to its parts. -/
theorem exists_padded {before after : Text} (hbefore : before.allBlank = true)
    (hafter : after.allBlank = true) (hline : '\n' ∉ after) :
    ∃ g : Form, g.line = before ++ (f.line ++ after) ∧ g.assignment = f.assignment := by
  have hlead : (before ++ f.lead).allBlank = true := by
    rw [Text.allBlank_append, hbefore, f.lead_blank]
    rfl
  have hbody : '\n' ∉ f.body ++ after := fun hm =>
    (List.mem_append.1 hm).elim f.body_line hline
  refine ⟨{ f with
    lead := before ++ f.lead, body := f.body ++ after, lead_blank := hlead, body_line := hbody },
    ?_, ?_⟩
  · simp only [line, List.append_assoc]
  · exact congrArg (Assignment.mk f.name) (Text.trim_append_blank hafter f.body)

/-- The end of a line is cut back no further than to its sign. -/
theorem trim_line : f.line.trim = f.opening ++ (f.name ++ (f.closing ++ (f.gap ++ (f.sign ++
    Text.trimEnd (f.padding ++ f.body))))) := by
  obtain ⟨colons, hsign⟩ : ∃ colons, f.sign = colons ++ ['='] := by
    rcases f.sign_spelling with hs | hs
    · exact ⟨"::".toList, hs⟩
    · exact ⟨[], hs⟩
  have hsplit : f.opened =
      (f.opening ++ f.name ++ f.closing ++ f.gap ++ colons) ++ '=' :: (f.padding ++ f.body) := by
    unfold opened closed signed
    rw [hsign]
    simp only [List.append_assoc, List.singleton_append]
  rw [f.line_eq, Text.trim_blank_append f.lead_blank, Text.trim,
    Text.trimStart_of_head? f.head?_opened, hsplit, Text.trimEnd_append_cons (by decide), hsign]
  simp only [List.append_assoc, List.singleton_append]

theorem value_isSuffix : f.padding ++ f.body <:+ f.line :=
  ⟨f.lead ++ f.opening ++ f.name ++ f.closing ++ f.gap ++ f.sign, by
    simp only [line, List.append_assoc]⟩

/-- A line that is trimmed loses white space of its parts only. -/
theorem exists_trimmed (h : '\n' ∉ f.line) :
    ∃ g : Form, g.line = f.line.trim ∧ g.assignment = f.assignment := by
  have hvalue : '\n' ∉ Text.trimEnd (f.padding ++ f.body) := by
    intro hm
    exact h (f.value_isSuffix.subset ((Text.trimEnd_isPrefix _).subset hm))
  refine ⟨{ f with
    lead := [], padding := [], body := Text.trimEnd (f.padding ++ f.body), lead_blank := rfl,
    padding_blank := rfl, body_line := hvalue }, f.trim_line.symm, ?_⟩
  have htext : Text.trim (Text.trimEnd (f.padding ++ f.body)) = f.body.trim := by
    rw [Text.trim_trimEnd, f.trim_value]
  exact congrArg (Assignment.mk f.name) htext

end Form

/-- **White space around a line makes no difference**, if there is no line feed in it. -/
theorem ofLine?_trim {line : Text} (h : '\n' ∉ line) : ofLine? line.trim = ofLine? line := by
  refine Option.ext fun a => ?_
  rw [ofLine?_eq_some_iff, ofLine?_eq_some_iff]
  constructor
  · rintro ⟨f, hf, rfl⟩
    obtain ⟨before, after, hbefore, hafter, hline⟩ := line.exists_padding
    have hend : '\n' ∉ after := fun hm => h <| by
      rw [hline]
      exact List.mem_append_right _ (List.mem_append_right _ hm)
    rw [← hf] at hline
    rw [hline]
    exact f.exists_padded hbefore hafter hend
  · rintro ⟨f, rfl, rfl⟩
    exact f.exists_trimmed h

/-! ## 6. Assignments by themselves -/

theorem ofText_of_some {line : Text} {a : Assignment} (h : ofLine? line = some a) :
    ofText line = .ok a := by
  unfold ofText
  rw [h]

theorem ofText_of_none {line : Text} (h : ofLine? line = none) :
    ofText line = .error (.text (.assignment line)) := by
  unfold ofText
  rw [h]

theorem ofText_eq_ok_iff {line : Text} {a : Assignment} :
    ofText line = .ok a ↔ ofLine? line = some a := by
  cases h : ofLine? line with
  | none =>
    rw [ofText_of_none h]
    simp
  | some b =>
    rw [ofText_of_some h]
    simp

/-- **A text is accepted exactly when it has the form of an assignment**, and makes that one; any
    other is quoted in the failure. No text has two forms, unless they differ in where the white
    space ends that stands in front of the body. -/
theorem ofText_form :
    (∀ line a, ofText line = .ok a ↔ ∃ f : Form, f.line = line ∧ f.assignment = a) ∧
    (∀ line, (∀ f : Form, f.line ≠ line) → ∃ fault : TextFault,
      ofText line = .error (.text fault) ∧
      fault.message = "expected `<name> ::= alternatives`, got `".toList ++ line ++ "`".toList) ∧
    ∀ f g : Form, f.line = g.line → f.assignment = g.assignment ∧ f.parts = g.parts := by
  refine ⟨fun line a => ofText_eq_ok_iff.trans ofLine?_eq_some_iff, fun line h => ?_,
    fun f g h => ⟨Form.assignment_eq h, Form.parts_eq h⟩⟩
  have hnone : ofLine? line = none := by
    cases ha : ofLine? line with
    | none => rfl
    | some a =>
      obtain ⟨f, hf, -⟩ := exists_form ha
      exact absurd hf (h f)
  exact ⟨.assignment line, ofText_of_none hnone, rfl⟩

/-- One bracket without the other, a line feed behind the sign, and a second sign behind it. -/
def lopsided : Form where
  lead := " ".toList
  opening := "<".toList
  name := "a,b".toList
  closing := []
  gap := "\t".toList
  sign := "=".toList
  padding := "\n ".toList
  body := "= <c> ".toList
  lead_blank := by decide
  opening_mark := by decide
  name_nameable := by decide
  closing_mark := by decide
  gap_blank := by decide
  sign_spelling := by decide
  padding_blank := by decide
  body_line := by decide

/-- The same line, with the second space behind the sign taken for a part of the body. -/
def lopsidedToo : Form :=
  { lopsided with
    padding := "\n".toList, body := " = <c> ".toList, padding_blank := by decide,
    body_line := by decide }

theorem ofText_form_lopsided :
    ofText " <a,b\t=\n = <c> ".toList = .ok ⟨"a,b".toList, "= <c>".toList⟩ ∧
    (∀ f : Form, f.line ≠ "a:=b".toList) ∧
    (∃ fault : TextFault, ofText "a:=b".toList = .error (.text fault) ∧
      fault.message = "expected `<name> ::= alternatives`, got `a:=b`".toList) ∧
    lopsided.line = lopsidedToo.line ∧ lopsided.assignment = lopsidedToo.assignment ∧
    lopsided.parts = lopsidedToo.parts := by
  have hline : lopsided.line = " <a,b\t=\n = <c> ".toList := by decide +kernel
  have hassigned : lopsided.assignment = ⟨"a,b".toList, "= <c>".toList⟩ := by decide +kernel
  have hread := (ofText_form.1 _ _).2 ⟨lopsided, hline, hassigned⟩
  have hunread : ofLine? "a:=b".toList = none := by decide +kernel
  have hnone : ∀ f : Form, f.line ≠ "a:=b".toList := by
    intro f hf
    have hread := f.ofLine?_line
    rw [hf, hunread] at hread
    cases hread
  have hsame : lopsided.line = lopsidedToo.line := by decide +kernel
  obtain ⟨hassignment, hparts⟩ := ofText_form.2.2 lopsided lopsidedToo hsame
  obtain ⟨fault, hfault, hmessage⟩ := ofText_form.2.1 _ hnone
  have hquote : fault.message = "expected `<name> ::= alternatives`, got `a:=b`".toList := by
    rw [hmessage]
    decide +kernel
  exact ⟨hread, hnone, ⟨fault, hfault, hquote⟩, hsame, hassignment, hparts⟩

end Assignment

end Sentences
