import Mathlib.Control.Monad.Basic
import Sentences.Grammar.InPlace
import Sentences.Proofs.FileLines
import Sentences.Proofs.Lines
import Sentences.Proofs.WriteLog

/-!
# One rules file after another

Two rules files one after the other say what each of them says, provided that the first one ends its
last line. Applied as one file they do what they do when they are applied in turn; but if either of
them has a line that cannot be read, then as one file they do nothing, not even what the first of
them would have done.

* `ofText_append`: the items, or the first fault, of both;
* `applyRulesFile_append`: what both of them write;
* `applyInPlace_append`: the grammar afterwards, which has what both files write, and that a file
  that fails leaves it alone.
-/

namespace Sentences

/-! ## 1. One list of inputs after another -/

section OneByOne

variable {α β : Type} {read : α → Option β} {x : α} {xs before zs : List α} {ys ws : List β}

theorem ReadAs.append (h : ReadAs read xs ys) (h' : ReadAs read zs ws) :
    ReadAs read (xs ++ zs) (ys ++ ws) := by
  unfold ReadAs at h h' ⊢
  rw [List.map_append, List.map_append, h, h']

/-- The first input that cannot be read is the first one whatever follows. -/
theorem FirstUnread.append_right (h : FirstUnread read xs before x) (zs : List α) :
    FirstUnread read (xs ++ zs) before x := by
  obtain ⟨⟨after, rfl⟩, hbefore, hx⟩ := h
  exact ⟨⟨after ++ zs, by rw [List.append_assoc, List.cons_append]⟩, hbefore, hx⟩

/-- Inputs that can be read do not change which one is the first that cannot. -/
theorem ReadAs.firstUnread_append (h : ReadAs read xs ys) (h' : FirstUnread read zs before x) :
    FirstUnread read (xs ++ zs) (xs ++ before) x := by
  obtain ⟨⟨after, rfl⟩, hbefore, hx⟩ := h'
  refine ⟨⟨after, by rw [List.append_assoc]⟩, fun y hy => ?_, hx⟩
  rcases List.mem_append.1 hy with hy | hy
  · have hmem : read y ∈ ys.map some := by
      rw [← h]
      exact List.mem_map_of_mem hy
    obtain ⟨b, -, hb⟩ := List.mem_map.1 hmem
    rw [← hb]
    rfl
  · exact hbefore y hy

end OneByOne

/-! ## 2. One file after another -/

namespace RulesFile

variable {a b : Text}

theorem ofItems_append (xs ys : List Item) :
    ofItems (xs ++ ys) = (ofItems xs).append (ofItems ys) := by
  unfold ofItems append
  rw [List.filterMap_append, List.filterMap_append, List.getLast?_append]

/-- What a text is read as, line by line. -/
theorem ofText_cases (t : Text) :
    (∃ items, ReadAs itemOf? t.lines items ∧ ofText t = .ok (ofItems items)) ∨
      ∃ before bad, FirstUnread itemOf? t.lines before bad ∧
        ofText t = .error ⟨1 + before.length, bad.trim⟩ := by
  unfold ofText
  rcases readAs_or_firstUnread itemOf? t.lines with ⟨items, h⟩ | ⟨before, bad, h⟩
  · exact .inl ⟨items, h, ofLines_of_readAs h 1⟩
  · exact .inr ⟨before, bad, h, ofLines_of_firstUnread h 1⟩

/-- **Two files one after the other say what both of them say**, and where one of them cannot be
    read, neither can they; lines of the second file are numbered on from those of the first. -/
theorem ofText_append (h : a.LinesEnded) (b : Text) : ofText (a ++ b) =
    match ofText a, ofText b with
    | .error bad, _ => .error bad
    | .ok _, .error bad => .error ⟨a.lines.length + bad.number, bad.text⟩
    | .ok fa, .ok fb => .ok (fa.append fb) := by
  have hlines : ofText (a ++ b) = ofLines 1 (a.lines ++ b.lines) := by
    unfold ofText
    rw [Text.lines_append h]
  rw [hlines]
  rcases ofText_cases a with ⟨xs, ha, hxs⟩ | ⟨before, bad, ha, hbad⟩
  · rw [hxs]
    rcases ofText_cases b with ⟨ys, hb, hys⟩ | ⟨before, bad, hb, hbad⟩
    · rw [hys, ofLines_of_readAs (ha.append hb), ofItems_append]
    · rw [hbad, ofLines_of_firstUnread (ha.firstUnread_append hb), List.length_append,
        Nat.add_left_comm]
  · rw [hbad, ofLines_of_firstUnread (ha.append_right b.lines)]

end RulesFile

namespace Grammar

/-! ## 3. Grammars -/

/-- **What two files write as one is what they write in turn.** -/
theorem applyRulesFile_append (g : Grammar) (a b : RulesFile) :
    g.applyRulesFile (a.append b) = (g.applyRulesFile a).applyRulesFile b := by
  have hstart : (a.append b).log.starts.getLast? = (a.log ++ b.log).starts.getLast? := by
    show ((b.start.or a.start).map Text.bareName).toList.getLast? =
      ((a.start.map Text.bareName).toList ++ (b.start.map Text.bareName).toList).getLast?
    cases a.start <;> cases b.start <;> rfl
  have hrules : (a.append b).log.rules = (a.log ++ b.log).rules := List.map_append
  have hrecord : g.record (a.append b).log = g.record (a.log ++ b.log) := by
    unfold record
    rw [hstart, hrules]
    rfl
  rw [applyRulesFile_eq_record, applyRulesFile_eq_record, applyRulesFile_eq_record,
    ← record_append, hrecord]

theorem applyInPlace_of_file {t : Text} {file : RulesFile} (h : RulesFile.ofText t = .ok file)
    (g : Grammar) : applyInPlace (.ok t) g = .ok () (g.applyRulesFile file) := by
  refine applyInPlace_of_ok ?_ g
  unfold RulesFile.ofContents
  dsimp only
  rw [h]

theorem applyInPlace_of_badLine {t : Text} {bad : BadLine} (h : RulesFile.ofText t = .error bad)
    (g : Grammar) : applyInPlace (.ok t) g = .error (.text (.line bad)) g := by
  refine applyInPlace_of_error ?_ g
  unfold RulesFile.ofContents
  dsimp only
  rw [h]

theorem applyInPlace_of_fault (fault : FileFault) (g : Grammar) :
    applyInPlace (.error fault) g = .error (.file fault) g :=
  applyInPlace_of_error rfl g

/-- Bytes that no text is encoded as are no contents. -/
theorem ofBytes_of_notText {bytes : ByteArray} (h : ∀ t : Text, bytes ≠ t.utf8Encode) :
    FileContents.ofBytes bytes = .error .notText := by
  have hinvalid : ¬ bytes.IsValidUTF8 := by
    rintro ⟨t, ht⟩
    exact h t ht
  unfold FileContents.ofBytes String.fromUTF8?
  rw [dif_neg hinvalid]

/-- **Two files that can be read are applied as one file as they are in turn**, and write what the
    first and then the second of them says. **A file with a line that cannot be read changes
    nothing**, whatever the lines before it say, nor does one whose contents cannot be had. -/
theorem applyInPlace_append (g : Grammar) {a : Text} (h : a.LinesEnded) (b : Text) :
    (∀ fa fb, RulesFile.ofText a = .ok fa → RulesFile.ofText b = .ok fb →
      applyInPlace (.ok a) g = .ok () (g.applyRulesFile fa) ∧
      applyInPlace (.ok b) (g.applyRulesFile fa) =
        .ok () ((g.applyRulesFile fa).applyRulesFile fb) ∧
      applyInPlace (.ok (a ++ b)) g = .ok () ((g.applyRulesFile fa).applyRulesFile fb)) ∧
    (∀ bad, RulesFile.ofText a = .error bad →
      applyInPlace (.ok (a ++ b)) g = .error (.text (.line bad)) g) ∧
    (∀ fa bad, RulesFile.ofText a = .ok fa → RulesFile.ofText b = .error bad →
      applyInPlace (.ok (a ++ b)) g =
        .error (.text (.line ⟨a.lines.length + bad.number, bad.text⟩)) g) ∧
    (∀ fault, applyInPlace (.error fault) g = .error (.file fault) g) ∧
    ∀ bytes : ByteArray, (∀ t : Text, bytes ≠ t.utf8Encode) →
      applyInPlace (.ofBytes bytes) g = .error (.file .notText) g := by
  have happend := RulesFile.ofText_append h b
  refine ⟨fun fa fb ha hb => ?_, fun bad ha => ?_, fun fa bad ha hb => ?_,
    fun fault => applyInPlace_of_fault fault g, fun bytes hbytes => ?_⟩
  · rw [ha, hb] at happend
    refine ⟨applyInPlace_of_file ha g, applyInPlace_of_file hb _, ?_⟩
    rw [applyInPlace_of_file happend, applyRulesFile_append]
  · rw [ha] at happend
    exact applyInPlace_of_badLine happend g
  · rw [ha, hb] at happend
    exact applyInPlace_of_badLine happend g
  · rw [ofBytes_of_notText hbytes]
    exact applyInPlace_of_fault .notText g

/-- Chooses a start symbol and gives it a rule. -/
def firstHalf : Text :=
  "@start = a\na = x\n".toList

/-- Chooses another one, and gives the first one another rule. -/
def secondHalf : Text :=
  "<a> ::= y, <b>\n# end\n@start = <b>".toList

/-- What the first one makes of the grammar without rules. -/
def halfway : Grammar where
  rules := Table.empty.insert "a".toList ⟨[⟨[.terminal "x".toList]⟩]⟩
  order := ["a".toList]
  start := "a".toList

/-- What the second one makes of that. -/
def complete : Grammar where
  rules := Table.empty.insert "a".toList
    ⟨[⟨[.terminal "y".toList]⟩, ⟨[.nonterminal "b".toList]⟩]⟩
  order := ["a".toList]
  start := "b".toList

/-- Bytes that are no text: the last one never occurs in an encoding. -/
def noText : ByteArray :=
  ⟨#[0x61, 0xFF]⟩

theorem applyInPlace_append_halves :
    firstHalf.LinesEnded ∧
    RulesFile.ofText firstHalf = .ok ⟨some "a".toList, [⟨"a".toList, "x".toList⟩]⟩ ∧
    RulesFile.ofText secondHalf = .ok ⟨some "b".toList, [⟨"a".toList, "y, <b>".toList⟩]⟩ ∧
    RulesFile.ofText "b".toList = .error ⟨1, "b".toList⟩ ∧ (∀ t : Text, noText ≠ t.utf8Encode) ∧
    applyInPlace (.ok firstHalf) .empty = .ok () halfway ∧
    applyInPlace (.ok secondHalf) halfway = .ok () complete ∧
    applyInPlace (.ok (firstHalf ++ secondHalf)) .empty = .ok () complete ∧
    applyInPlace (.ok (firstHalf ++ "b".toList)) .empty =
      .error (.text (.line ⟨3, "b".toList⟩)) .empty ∧
    applyInPlace (.ofBytes noText) .empty = .error (.file .notText) .empty := by
  have hended : firstHalf.LinesEnded := Text.linesEnded_of_getLast? (by decide +kernel)
  have hfirst : RulesFile.ofText firstHalf =
      .ok ⟨some "a".toList, [⟨"a".toList, "x".toList⟩]⟩ := by decide +kernel
  have hsecond : RulesFile.ofText secondHalf =
      .ok ⟨some "b".toList, [⟨"a".toList, "y, <b>".toList⟩]⟩ := by decide +kernel
  have hbad : RulesFile.ofText "b".toList = .error ⟨1, "b".toList⟩ := by decide +kernel
  have hinvalid : ¬ noText.IsValidUTF8 := by decide +kernel
  have hnoText : ∀ t : Text, noText ≠ t.utf8Encode := fun t ht => hinvalid ⟨t, ht⟩
  have hhalfway : Grammar.empty.applyRulesFile ⟨some "a".toList, [⟨"a".toList, "x".toList⟩]⟩ =
      halfway := by decide +kernel
  have hcomplete : halfway.applyRulesFile ⟨some "b".toList, [⟨"a".toList, "y, <b>".toList⟩]⟩ =
      complete := by decide +kernel
  have hboth := (applyInPlace_append .empty hended secondHalf).1 _ _ hfirst hsecond
  rw [hhalfway, hcomplete] at hboth
  obtain ⟨hmid, hlast, hwhole⟩ := hboth
  exact ⟨hended, hfirst, hsecond, hbad, hnoText, hmid, hlast, hwhole,
    (applyInPlace_append .empty hended "b".toList).2.2.1 _ _ hfirst hbad,
    (applyInPlace_append .empty hended secondHalf).2.2.2.2 noText hnoText⟩

end Grammar

end Sentences
