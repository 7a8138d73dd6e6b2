import Sentences.Rule.Basic

/-!
# Reading rule text

Rule text is cut at every comma, each piece is trimmed, and a piece is scanned for references:

* an opening bracket starts a reference, which goes to the next closing bracket;
* an opening bracket that is never closed makes the rest of the piece one terminal;
* what stands between references is terminal text, closing brackets included.

Every text can be read. A blank text is the rule with no alternatives; elsewhere an empty piece is
an empty alternative.
-/

namespace Sentences

/-- Not an opening bracket: what terminal text goes on with. -/
def notOpen (c : Char) : Bool :=
  c != openMark

/-- Not a closing bracket: what a name goes on with. -/
def notClose (c : Char) : Bool :=
  c != closeMark

/-- The symbols of a text, which is taken as it is, blank ends included. -/
def Symbol.scan : Text → List Symbol
  | [] => []
  | c :: rest =>
    if c = openMark then
      if closeMark ∈ rest then
        .nonterminal (rest.takeWhile notClose) :: Symbol.scan (rest.dropWhile notClose).tail
      else
        [.terminal (c :: rest)]
    else
      .terminal (c :: rest.takeWhile notOpen) :: Symbol.scan (rest.dropWhile notOpen)
termination_by t => t.length
decreasing_by
  · have := Text.length_dropWhile_le notClose rest
    simp only [List.length_tail, List.length_cons]
    omega
  · have := Text.length_dropWhile_le notOpen rest
    simp only [List.length_cons]
    omega

/-- The production that a piece of rule text stands for. -/
def Production.ofText (t : Text) : Production :=
  ⟨Symbol.scan t.trim⟩

/-- The rule that a rule text stands for. -/
def Rule.ofText (t : Text) : Rule :=
  if t.allBlank then ⟨[]⟩ else ⟨(t.splitOn alternativeMark).map Production.ofText⟩

end Sentences
