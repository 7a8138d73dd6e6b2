import Sentences.Rule.Reading

/-!
# The symbols that a scan finds

A scan finds one of the ways to write a text as symbols side by side, and which one is told by a
condition on the symbols alone:

* `Symbol.Normal`: names have no closing bracket, terminals are not empty and have no opening
  bracket, no two terminals stand side by side; only the last symbol may be a terminal that starts
  with a bracket that is never closed;
* `Symbol.Scanned`: the same condition, symbol by symbol;
* `Symbol.scan_eq_iff`: a scan finds the normal symbols that make up the text, and there are no
  others.
-/

namespace Sentences

/-! ## 1. Up to a mark -/

section Mark

variable {mark : Char}

/-- The text is empty or starts with the mark. -/
def Text.EndsOrStarts (mark : Char) (t : Text) : Prop :=
  ∀ c, t.head? = some c → c = mark

theorem notMem_takeWhile_ne (t : Text) : mark ∉ t.takeWhile (· != mark) := by
  intro h
  have hall := List.all_eq_true.1 (List.all_takeWhile (p := (· != mark)) (l := t)) mark h
  rw [bne_self_eq_false] at hall
  cases hall

theorem endsOrStarts_dropWhile_ne (mark : Char) (t : Text) :
    Text.EndsOrStarts mark (t.dropWhile (· != mark)) := by
  intro c hc
  have hnot := List.head?_dropWhile_not (· != mark) t
  rw [hc] at hnot
  exact bne_eq_false_iff_eq.1 hnot

/-- A text with a mark is cut at the first one. -/
theorem cut_at_mark {t : Text} (h : mark ∈ t) :
    t.takeWhile (· != mark) ++ mark :: (t.dropWhile (· != mark)).tail = t := by
  have hsplit := List.takeWhile_append_dropWhile (p := (· != mark)) (l := t)
  have hstarts := endsOrStarts_dropWhile_ne mark t
  cases hd : t.dropWhile (· != mark) with
  | nil =>
    rw [hd, List.append_nil] at hsplit
    rw [← hsplit] at h
    exact absurd h (notMem_takeWhile_ne t)
  | cons c rest =>
    have hc : c = mark := hstarts c (by rw [hd]; rfl)
    rw [hd, hc] at hsplit
    exact hsplit

/-- And where a text without marks goes on with one, or ends, it is found again. -/
theorem span_at_mark {before after : Text} (h : mark ∉ before) (ha : after.EndsOrStarts mark) :
    (before ++ after).takeWhile (· != mark) = before ∧
      (before ++ after).dropWhile (· != mark) = after := by
  refine Text.span_append (fun c hc => ?_) fun c hc => ?_
  · have hne : c ≠ mark := fun he => h (he ▸ hc)
    exact bne_iff_ne.2 hne
  · rw [ha c hc, bne_self_eq_false]

end Mark

/-- An opening bracket that is never closed. -/
def Text.Unterminated (t : Text) : Prop :=
  t.head? = some openMark ∧ closeMark ∉ t

theorem openMark_ne_closeMark : openMark ≠ closeMark := by decide

/-! ## 2. The symbols of a scan, one by one -/

namespace Symbol

/-- Symbols that a scan can find: what follows a terminal is a bracket, or nothing. -/
inductive Scanned : List Symbol → Prop where
  | nil : Scanned []
  | unterminated {text : Text} (h : text.Unterminated) : Scanned [.terminal text]
  | reference {name : Text} {rest : List Symbol} (hname : closeMark ∉ name)
      (hrest : Scanned rest) : Scanned (.nonterminal name :: rest)
  | terminal {text : Text} {rest : List Symbol} (hne : text ≠ []) (hopen : openMark ∉ text)
      (hnext : Text.EndsOrStarts openMark (rest.flatMap toText)) (hrest : Scanned rest) :
      Scanned (.terminal text :: rest)

theorem texts_reference (name : Text) (rest : List Symbol) :
    (nonterminal name :: rest).flatMap toText =
      openMark :: (name ++ closeMark :: rest.flatMap toText) := by
  simp [toText, Text.inBrackets]

theorem texts_terminal (text : Text) (rest : List Symbol) :
    (terminal text :: rest).flatMap toText =
      text ++ rest.flatMap toText := by
  simp [toText]

/-- What a scan finds is as it should be, and makes up the text. -/
theorem scanned_scan (t : Text) :
    Scanned (scan t) ∧ (scan t).flatMap toText = t := by
  induction t using scan.induct with
  | case1 =>
    rw [scan]
    exact ⟨.nil, rfl⟩
  | case2 rest hclose ih =>
    obtain ⟨hscanned, htext⟩ := ih
    rw [scan, if_pos rfl, if_pos hclose, texts_reference, htext]
    exact ⟨.reference (notMem_takeWhile_ne rest) hscanned,
      congrArg (openMark :: ·) (cut_at_mark hclose)⟩
  | case3 rest hclose =>
    have hmem : closeMark ∉ openMark :: rest := by
      intro h
      rcases List.mem_cons.1 h with h | h
      · exact openMark_ne_closeMark h.symm
      · exact hclose h
    rw [scan, if_pos rfl, if_neg hclose, texts_terminal]
    exact ⟨.unterminated ⟨rfl, hmem⟩, List.append_nil _⟩
  | case4 c rest hc ih =>
    obtain ⟨hscanned, htext⟩ := ih
    have hopen : openMark ∉ c :: rest.takeWhile notOpen := by
      intro h
      rcases List.mem_cons.1 h with h | h
      · exact hc h.symm
      · exact notMem_takeWhile_ne rest h
    have hnext : Text.EndsOrStarts openMark
        ((scan (rest.dropWhile notOpen)).flatMap toText) := by
      rw [htext]
      exact endsOrStarts_dropWhile_ne openMark rest
    rw [scan, if_neg hc, texts_terminal, htext, List.cons_append,
      List.takeWhile_append_dropWhile]
    exact ⟨.terminal (List.cons_ne_nil _ _) hopen hnext hscanned, rfl⟩

/-- Such symbols are found again in the text that they make up. -/
theorem Scanned.scan_texts {ss : List Symbol} (h : Scanned ss) :
    scan (ss.flatMap toText) = ss := by
  induction h with
  | nil =>
    rw [List.flatMap_nil, scan]
  | @unterminated text h =>
    obtain ⟨hhead, hclose⟩ := h
    cases text with
    | nil => cases hhead
    | cons c rest =>
      have hc : c = openMark := Option.some.inj hhead
      have hrest : closeMark ∉ rest := fun hm => hclose (List.mem_cons_of_mem c hm)
      rw [texts_terminal, List.flatMap_nil, List.append_nil, scan, if_pos hc, if_neg hrest]
  | @reference name rest hname _ ih =>
    have hmark : Text.EndsOrStarts closeMark (closeMark :: rest.flatMap toText) :=
      fun c hc => (Option.some.inj hc).symm
    have hspan := span_at_mark hname hmark
    have htake : (name ++ closeMark :: rest.flatMap toText).takeWhile notClose = name := hspan.1
    have hdrop : (name ++ closeMark :: rest.flatMap toText).dropWhile notClose =
        closeMark :: rest.flatMap toText := hspan.2
    rw [texts_reference, scan, if_pos rfl, if_pos (by simp), htake, hdrop, List.tail_cons, ih]
  | @terminal text rest hne hopen hnext _ ih =>
    cases text with
    | nil => exact absurd rfl hne
    | cons c cs =>
      have hc : c ≠ openMark := fun he => hopen (he ▸ List.mem_cons_self)
      have hcs : openMark ∉ cs := fun hm => hopen (List.mem_cons_of_mem c hm)
      have hspan := span_at_mark hcs hnext
      have htake : (cs ++ rest.flatMap toText).takeWhile notOpen = cs := hspan.1
      have hdrop : (cs ++ rest.flatMap toText).dropWhile notOpen = rest.flatMap toText := hspan.2
      rw [texts_terminal, List.cons_append, scan, if_neg hc, htake, hdrop, ih]

/-! ## 3. The same condition, stated of the whole list -/

/-- The symbols of which there is one list for each text. -/
structure Normal (ss : List Symbol) : Prop where
  /-- Names have no closing bracket. -/
  name_closed : ∀ name, .nonterminal name ∈ ss → closeMark ∉ name
  terminal_ne_nil : .terminal [] ∉ ss
  /-- Only the last symbol may be a terminal with an opening bracket, and it starts with it. -/
  last_of_opens : ∀ before text after, ss = before ++ .terminal text :: after →
    openMark ∈ text → after = [] ∧ text.Unterminated
  /-- Only such a terminal may stand beside another terminal. -/
  last_of_adjacent : ∀ before text next after,
    ss = before ++ .terminal text :: .terminal next :: after → after = [] ∧ next.Unterminated

theorem normal_nil : Normal [] where
  name_closed name h := by cases h
  terminal_ne_nil := by simp
  last_of_opens before text after h := by simp at h
  last_of_adjacent before text next after h := by simp at h

theorem Normal.tail {s : Symbol} {rest : List Symbol} (h : Normal (s :: rest)) : Normal rest where
  name_closed name hm := h.name_closed name (List.mem_cons_of_mem s hm)
  terminal_ne_nil hm := h.terminal_ne_nil (List.mem_cons_of_mem s hm)
  last_of_opens before text after he := h.last_of_opens (s :: before) text after (by rw [he]; rfl)
  last_of_adjacent before text next after he :=
    h.last_of_adjacent (s :: before) text next after (by rw [he]; rfl)

theorem Normal.reference {name : Text} {rest : List Symbol} (hname : closeMark ∉ name)
    (h : Normal rest) : Normal (.nonterminal name :: rest) where
  name_closed other hm := by
    rcases List.mem_cons.1 hm with he | hm
    · rw [nonterminal.inj he]
      exact hname
    · exact h.name_closed other hm
  terminal_ne_nil hm := by
    rcases List.mem_cons.1 hm with he | hm
    · cases he
    · exact h.terminal_ne_nil hm
  last_of_opens before text after he := by
    rcases List.cons_eq_append_iff.1 he with ⟨-, he⟩ | ⟨before', -, he⟩
    · cases he
    · exact h.last_of_opens before' text after he
  last_of_adjacent before text next after he := by
    rcases List.cons_eq_append_iff.1 he with ⟨-, he⟩ | ⟨before', -, he⟩
    · cases he
    · exact h.last_of_adjacent before' text next after he

theorem Normal.terminal {text : Text} {rest : List Symbol} (hne : text ≠ [])
    (hopens : openMark ∈ text → rest = [] ∧ text.Unterminated)
    (hnext : ∀ next after, rest = .terminal next :: after → after = [] ∧ next.Unterminated)
    (h : Normal rest) : Normal (.terminal text :: rest) where
  name_closed name hm := by
    rcases List.mem_cons.1 hm with he | hm
    · cases he
    · exact h.name_closed name hm
  terminal_ne_nil hm := by
    rcases List.mem_cons.1 hm with he | hm
    · exact hne (terminal.inj he).symm
    · exact h.terminal_ne_nil hm
  last_of_opens before other after he := by
    rcases List.cons_eq_append_iff.1 he with ⟨-, he⟩ | ⟨before', -, he⟩
    · cases he
      exact hopens
    · exact h.last_of_opens before' other after he
  last_of_adjacent before other next after he := by
    rcases List.cons_eq_append_iff.1 he with ⟨-, he⟩ | ⟨before', -, he⟩
    · cases he
      exact hnext next after rfl
    · exact h.last_of_adjacent before' other next after he

theorem Scanned.normal {ss : List Symbol} (h : Scanned ss) : Normal ss := by
  induction h with
  | nil => exact normal_nil
  | @unterminated text h =>
    have hne : text ≠ [] := by
      intro he
      have hhead := h.1
      rw [he] at hhead
      cases hhead
    exact normal_nil.terminal hne (fun _ => ⟨rfl, h⟩) (fun next after he => by cases he)
  | reference hname _ ih => exact ih.reference hname
  | @terminal text rest hne hopen hnext _ ih =>
    refine ih.terminal hne (fun hm => absurd hm hopen) fun next after he => ?_
    -- the text of the rest starts with that of its first symbol, which is a terminal
    have hmem : openMark ∈ next := by
      cases next with
      | nil =>
        rw [he] at ih
        exact absurd List.mem_cons_self ih.terminal_ne_nil
      | cons c cs =>
        rw [he, texts_terminal] at hnext
        rw [hnext c rfl]
        exact List.mem_cons_self
    exact ih.last_of_opens [] next after he hmem

theorem Normal.scanned {ss : List Symbol} (h : Normal ss) : Scanned ss := by
  induction ss with
  | nil => exact .nil
  | cons s rest ih =>
    have hrest := ih h.tail
    cases s with
    | nonterminal name => exact .reference (h.name_closed name List.mem_cons_self) hrest
    | terminal text =>
      by_cases hopen : openMark ∈ text
      · obtain ⟨hlast, hunterminated⟩ := h.last_of_opens [] text rest rfl hopen
        rw [hlast]
        exact .unterminated hunterminated
      · have hne : text ≠ [] := by
          intro he
          rw [he] at h
          exact h.terminal_ne_nil List.mem_cons_self
        refine .terminal hne hopen (fun c hc => ?_) hrest
        cases rest with
        | nil => cases hc
        | cons next after =>
          cases next with
          | nonterminal name =>
            rw [texts_reference] at hc
            exact (Option.some.inj hc).symm
          | terminal other =>
            obtain ⟨-, hhead, -⟩ := h.last_of_adjacent [] text other after rfl
            rw [texts_terminal, List.head?_append, hhead, Option.some_or] at hc
            exact (Option.some.inj hc).symm

/-- **A scan finds the normal symbols that make up the text**, and no others do. -/
theorem scan_eq_iff (t : Text) (ss : List Symbol) :
    scan t = ss ↔ Normal ss ∧ ss.flatMap toText = t := by
  constructor
  · intro h
    obtain ⟨hscanned, htext⟩ := scanned_scan t
    rw [h] at hscanned htext
    exact ⟨hscanned.normal, htext⟩
  · intro h
    obtain ⟨hnormal, htext⟩ := h
    rw [← htext]
    exact hnormal.scanned.scan_texts

end Symbol

end Sentences
