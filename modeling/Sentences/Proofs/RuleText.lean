import Sentences.Proofs.Reachable
import Sentences.Proofs.Scan
import Sentences.Proofs.Trimming

/-!
# Rules that come back from their text

Not every rule comes back from the text that it is edited as: a rule from a JSON text may have
terminals with commas in them, or two of them side by side. Those that do are told by a condition
on their symbols.

* `Production.Faithful`, `Rule.Faithful`: the condition;
* `Rule.faithful_ofText`: it holds of all rules that were read from rule text;
* `Rule.Faithful.ofText_toText`: and these come back;
* `Rule.ofText_trim`: white space around the text makes no difference;
* `Grammar.ruleText_round_trip`: so to write the text of a rule under its name changes nothing, in
  every grammar that was made without JSON.
-/

namespace Sentences

/-! ## 1. Pieces of a rule text -/

theorem notMem_of_mem_splitOn {mark : Char} {t piece : Text} (h : piece ∈ t.splitOn mark) :
    mark ∉ piece := by
  induction t generalizing piece with
  | nil =>
    rw [List.splitOn_nil, List.mem_singleton] at h
    rw [h]
    exact List.not_mem_nil
  | cons c rest ih =>
    rw [List.splitOn_cons_eq_if_modifyHead] at h
    by_cases hc : c = mark
    · rw [if_pos (by simpa using hc)] at h
      rcases List.mem_cons.1 h with h | h
      · rw [h]
        exact List.not_mem_nil
      · exact ih h
    · rw [if_neg (by simpa using hc)] at h
      obtain ⟨first, more, hsplit⟩ := List.exists_cons_of_ne_nil (List.splitOn_ne_nil mark rest)
      rw [hsplit, List.modifyHead_cons] at h
      rcases List.mem_cons.1 h with h | h
      · have hfirst : mark ∉ first := ih (by rw [hsplit]; exact List.mem_cons_self)
        intro hm
        rw [h] at hm
        rcases List.mem_cons.1 hm with hm | hm
        · exact hc hm.symm
        · exact hfirst hm
      · exact ih (by rw [hsplit]; exact List.mem_cons_of_mem first h)

theorem splitOn_cons {mark c : Char} {t first : Text} {rest : List Text}
    (h : t.splitOn mark = first :: rest) : (c :: t).splitOn mark =
      if c = mark then [] :: first :: rest else (c :: first) :: rest := by
  rw [List.splitOn_cons_eq_if_modifyHead, h, List.modifyHead_cons]
  by_cases hc : c = mark
  · rw [if_pos (by simpa using hc), if_pos hc]
  · rw [if_neg (by simpa using hc), if_neg hc]

/-- Text without marks in front of a text belongs to its first piece. -/
theorem splitOn_prepend {mark : Char} {w : Text} (h : mark ∉ w) (t : Text) :
    ∃ first rest, t.splitOn mark = first :: rest ∧
      (w ++ t).splitOn mark = (w ++ first) :: rest := by
  obtain ⟨first, rest, hsplit⟩ := List.exists_cons_of_ne_nil (List.splitOn_ne_nil mark t)
  refine ⟨first, rest, hsplit, ?_⟩
  induction w with
  | nil => exact hsplit
  | cons c w ih =>
    have hc : c ≠ mark := fun he => h (he ▸ List.mem_cons_self)
    rw [List.cons_append, splitOn_cons (ih fun hm => h (List.mem_cons_of_mem c hm)), if_neg hc,
      List.cons_append]

/-- Text without marks behind a text belongs to its last piece. -/
theorem splitOn_append {mark : Char} {w : Text} (h : mark ∉ w) (t : Text) :
    ∃ init last, t.splitOn mark = init ++ [last] ∧
      (t ++ w).splitOn mark = init ++ [last ++ w] := by
  induction t with
  | nil =>
    obtain ⟨first, rest, hnil, hw⟩ := splitOn_prepend h []
    rw [List.splitOn_nil] at hnil
    obtain ⟨rfl, rfl⟩ := List.cons.inj hnil
    rw [List.append_nil] at hw
    exact ⟨[], [], List.splitOn_nil mark, hw⟩
  | cons c t ih =>
    obtain ⟨init, last, ht, htw⟩ := ih
    cases init with
    | nil =>
      rw [List.cons_append, splitOn_cons ht, splitOn_cons htw]
      by_cases hc : c = mark
      · rw [if_pos hc, if_pos hc]
        exact ⟨[[]], last, rfl, rfl⟩
      · rw [if_neg hc, if_neg hc]
        exact ⟨[], c :: last, rfl, rfl⟩
    | cons first init =>
      rw [List.cons_append, splitOn_cons ht, splitOn_cons htw]
      by_cases hc : c = mark
      · rw [if_pos hc, if_pos hc]
        exact ⟨[] :: first :: init, last, rfl, rfl⟩
      · rw [if_neg hc, if_neg hc]
        exact ⟨(c :: first) :: init, last, rfl, rfl⟩

/-- A single piece is the whole text. -/
theorem eq_of_splitOn_eq_singleton {mark : Char} {t piece : Text} (h : t.splitOn mark = [piece]) :
    piece = t := by
  have hwhole : [mark].intercalate (t.splitOn mark) = t := List.intercalate_splitOn mark
  rwa [h, List.intercalate_singleton] at hwhole

/-- The space that stands after a comma belongs to the next piece. -/
theorem intercalate_spaced (first : Text) (rest : List Text) :
    [alternativeMark, ' '].intercalate (first :: rest) =
      [alternativeMark].intercalate (first :: rest.map fun t => ' ' :: t) := by
  induction rest generalizing first with
  | nil => rfl
  | cons next rest ih =>
    have hspace : [alternativeMark].intercalate ((' ' :: next) :: rest.map fun t => ' ' :: t) =
        ' ' :: [alternativeMark].intercalate (next :: rest.map fun t => ' ' :: t) := by
      cases rest with
      | nil => rfl
      | cons other rest => rfl
    rw [List.map_cons, List.intercalate_cons_cons, List.intercalate_cons_cons, ih, hspace]
    simp

/-! ## 2. Productions -/

/-- The productions that come back from their text as one alternative. -/
structure Production.Faithful (p : Production) : Prop where
  no_comma : ∀ s ∈ p.symbols, alternativeMark ∉ s.toText
  normal : Symbol.Normal p.symbols
  tight : p.toText.Tight

namespace Production

theorem toText_ofText (t : Text) : (ofText t).toText = t.trim :=
  (Symbol.scanned_scan t.trim).2

theorem notMem_toText_iff (p : Production) (mark : Char) :
    mark ∉ p.toText ↔ ∀ s ∈ p.symbols, mark ∉ s.toText := by
  unfold toText
  rw [List.mem_flatMap]
  constructor
  · intro h s hs hm
    exact h ⟨s, hs, hm⟩
  · intro h hm
    obtain ⟨s, hs, hm⟩ := hm
    exact h s hs hm

theorem faithful_ofText {t : Text} (h : alternativeMark ∉ t) : (ofText t).Faithful where
  no_comma := by
    rw [← notMem_toText_iff, toText_ofText]
    exact fun hm => h (Text.mem_of_mem_trim hm)
  normal := (Symbol.scanned_scan t.trim).1.normal
  tight := by
    rw [toText_ofText]
    exact t.tight_trim

theorem Faithful.ofText_toText {p : Production} (h : p.Faithful) : ofText p.toText = p := by
  have hscan : Symbol.scan p.toText = p.symbols := (Symbol.scan_eq_iff _ _).2 ⟨h.normal, rfl⟩
  unfold ofText
  rw [Text.trim_of_tight h.tight, hscan]

theorem ofText_space (t : Text) : ofText (' ' :: t) = ofText t := by
  unfold ofText
  rw [Text.trim_cons_of_blank (by decide)]

theorem ofText_nil : ofText [] = ⟨[]⟩ := by
  have htrim : Text.trim [] = [] := rfl
  unfold ofText
  rw [htrim, Symbol.scan]

/-- Only blank texts are empty alternatives. -/
theorem allBlank_of_ofText_eq {t : Text} (h : ofText t = ⟨[]⟩) : t.allBlank = true := by
  have htext := toText_ofText t
  rw [h] at htext
  exact (Text.trim_eq_nil_iff t).1 htext.symm

end Production

/-! ## 3. Rules -/

/-- The rules that come back from their text. -/
structure Rule.Faithful (r : Rule) : Prop where
  /-- One empty alternative is written as no alternatives are. -/
  ne_empty : r.productions ≠ [⟨[]⟩]
  productions : ∀ p ∈ r.productions, p.Faithful

namespace Rule

/-- **Every rule that was read from a rule text is faithful.** -/
theorem faithful_ofText (t : Text) : (ofText t).Faithful := by
  unfold ofText
  by_cases hblank : t.allBlank = true
  · rw [if_pos hblank]
    exact ⟨fun he => absurd he.symm (List.cons_ne_nil _ _), fun p hp => absurd hp List.not_mem_nil⟩
  · rw [if_neg hblank]
    refine ⟨fun hone => ?_, fun p hp => ?_⟩
    · obtain ⟨piece, hsplit, hpiece⟩ := List.map_eq_singleton_iff.1 hone
      rw [← eq_of_splitOn_eq_singleton hsplit] at hblank
      exact hblank (Production.allBlank_of_ofText_eq hpiece)
    · obtain ⟨piece, hpiece, rfl⟩ := List.mem_map.1 hp
      exact Production.faithful_ofText (notMem_of_mem_splitOn hpiece)

/-- The text of a faithful rule with alternatives is not blank. -/
theorem Faithful.allBlank_toText {r : Rule} (h : r.Faithful) (hne : r.productions ≠ []) :
    r.toText.allBlank = false := by
  obtain ⟨productions⟩ := r
  cases productions with
  | nil => exact absurd rfl hne
  | cons p rest =>
    have hp := h.productions p List.mem_cons_self
    unfold toText
    cases rest with
    | nil =>
      have htext : p.toText ≠ [] := by
        intro he
        have hback := hp.ofText_toText
        rw [he] at hback
        rw [Production.ofText_nil] at hback
        exact h.ne_empty (by rw [← hback])
      rw [List.map_cons, List.map_nil, List.intercalate_singleton]
      exact Text.allBlank_of_tight hp.tight htext
    | cons next rest =>
      -- there is a comma
      have hcomma : Text.isBlank alternativeMark = false := by decide
      rw [List.map_cons, List.map_cons, List.intercalate_cons_cons]
      simp [Text.allBlank, hcomma]

theorem splitOn_toText {r : Rule} (h : r.Faithful) {first : Production} {rest : List Production}
    (hr : r.productions = first :: rest) :
    r.toText.splitOn alternativeMark =
      first.toText :: (rest.map Production.toText).map fun t => ' ' :: t := by
  unfold toText
  rw [hr, List.map_cons, intercalate_spaced]
  refine List.splitOn_intercalate _ (fun piece hpiece => ?_) (List.cons_ne_nil _ _)
  have hno : ∀ p ∈ first :: rest, alternativeMark ∉ p.toText := by
    intro p hp
    have hfaithful := h.productions p (by rw [hr]; exact hp)
    exact (p.notMem_toText_iff _).2 hfaithful.no_comma
  rcases List.mem_cons.1 hpiece with hpiece | hpiece
  · rw [hpiece]
    exact hno first List.mem_cons_self
  · obtain ⟨t, ht, rfl⟩ := List.mem_map.1 hpiece
    obtain ⟨p, hp, rfl⟩ := List.mem_map.1 ht
    intro hm
    rcases List.mem_cons.1 hm with hm | hm
    · revert hm
      decide
    · exact hno p (List.mem_cons_of_mem first hp) hm

/-- **A faithful rule comes back from its text.** -/
theorem Faithful.ofText_toText {r : Rule} (h : r.Faithful) : ofText r.toText = r := by
  cases hr : r.productions with
  | nil =>
    have hempty : r = ⟨[]⟩ := by rw [← hr]
    rw [hempty]
    rfl
  | cons first rest =>
    have hall : ∀ p ∈ first :: rest, Production.ofText p.toText = p := by
      intro p hp
      exact (h.productions p (by rw [hr]; exact hp)).ofText_toText
    have hrest : rest.map (fun p => Production.ofText (' ' :: p.toText)) = rest := by
      refine (List.map_congr_left fun p hp => ?_).trans (List.map_id rest)
      rw [Production.ofText_space]
      exact hall p (List.mem_cons_of_mem first hp)
    have hblank : r.toText.allBlank = false :=
      h.allBlank_toText (by rw [hr]; exact List.cons_ne_nil _ _)
    unfold ofText
    rw [hblank, if_neg Bool.false_ne_true, splitOn_toText h hr, List.map_cons, List.map_map,
      List.map_map, hall first List.mem_cons_self]
    show Rule.mk (first :: rest.map fun p => Production.ofText (' ' :: p.toText)) = r
    rw [hrest, ← hr]

theorem alternativeMark_notMem {w : Text} (h : w.allBlank = true) : alternativeMark ∉ w :=
  Text.notMem_of_allBlank h (by decide)

theorem ofText_blank_append {w : Text} (h : w.allBlank = true) (t : Text) :
    ofText (w ++ t) = ofText t := by
  obtain ⟨first, rest, ht, hwt⟩ := splitOn_prepend (alternativeMark_notMem h) t
  have hfirst : Production.ofText (w ++ first) = Production.ofText first := by
    unfold Production.ofText
    rw [Text.trim_blank_append h]
  unfold ofText
  rw [Text.allBlank_append, h, Bool.true_and, hwt, ht, List.map_cons, List.map_cons, hfirst]

theorem ofText_append_blank {w : Text} (h : w.allBlank = true) (t : Text) :
    ofText (t ++ w) = ofText t := by
  obtain ⟨init, last, ht, htw⟩ := splitOn_append (alternativeMark_notMem h) t
  have hlast : Production.ofText (last ++ w) = Production.ofText last := by
    unfold Production.ofText
    rw [Text.trim_append_blank h]
  unfold ofText
  rw [Text.allBlank_append, h, Bool.and_true, htw, ht, List.map_append, List.map_append,
    List.map_singleton, List.map_singleton, hlast]

/-- **White space around a rule text makes no difference.** -/
theorem ofText_trim (t : Text) : ofText t.trim = ofText t := by
  obtain ⟨before, after, hbefore, hafter, ht⟩ := t.exists_padding
  calc ofText t.trim = ofText (before ++ (t.trim ++ after)) := by
        rw [ofText_blank_append hbefore, ofText_append_blank hafter]
    _ = ofText t := by rw [← ht]

end Rule

/-! ## 4. Grammars -/

namespace Grammar

/-- Without JSON, all rules of a grammar were read from rule text. -/
theorem Made.faithful {g : Grammar} (h : Made False g) {name : Text} {rule : Rule}
    (hr : g.rules.get? name = some rule) : rule.Faithful := by
  induction h generalizing name rule with
  | empty => cases hr
  | ofJson hj => exact hj.elim
  | setRule _ a ih =>
    rw [get?_setRule] at hr
    by_cases hn : name = a.name.bareName
    · rw [if_pos hn] at hr
      rw [← Option.some.inj hr]
      exact Rule.faithful_ofText a.text
    · rw [if_neg hn] at hr
      exact ih hr
  | setStart _ _ ih => exact ih hr
  | setConfig _ _ ih => exact ih hr

/-- To write the rule that a name has changes nothing. -/
theorem setRule_of_get? {g : Grammar} {a : Assignment}
    (h : g.rules.get? a.name.bareName = some (Rule.ofText a.text)) : g.setRule a = g := by
  have hrules : g.rules.insert a.name.bareName (Rule.ofText a.text) = g.rules := by
    refine Table.ext fun other => ?_
    rw [Table.get?_insert]
    by_cases ho : other = a.name.bareName
    · rw [if_pos ho, ho, h]
    · rw [if_neg ho]
  have hknown : g.rules.contains a.name.bareName = true := by
    unfold Table.contains
    rw [h, Option.isSome_some]
  unfold setRule
  simp only [hrules, hknown, if_true]

/-- **Rules come back from their text exactly when they are faithful**, and without JSON all are:
    to write the text of a rule under its name leaves the grammar as it is. -/
theorem ruleText_round_trip :
    (∀ r : Rule, Rule.ofText r.toText = r ↔ r.Faithful) ∧
    ∀ g : Grammar, g.ReachableWithoutJson →
      (∀ name rule, g.rules.get? name = some rule → rule.Faithful) ∧
      ∀ name text, g.ruleText? name = some text → g.setRule ⟨name, text⟩ = g := by
  refine ⟨fun r => ⟨fun h => ?_, fun h => h.ofText_toText⟩, fun g hg => ?_⟩
  · rw [← h]
    exact Rule.faithful_ofText r.toText
  · have hfaithful : ∀ name rule, g.rules.get? name = some rule → rule.Faithful :=
      fun name rule hr => hg.made.faithful hr
    refine ⟨hfaithful, fun name text ht => ?_⟩
    obtain ⟨rule, hrule, htext⟩ := Option.map_eq_some_iff.1 ht
    refine setRule_of_get? ?_
    rw [← htext, (hfaithful _ rule hrule).ofText_toText]
    exact hrule

/-- An empty alternative first, and a bracket that is never closed. -/
def ragged : Grammar :=
  ofRules [⟨"<a>".toList, " ,x<b>y<c ".toList⟩]

theorem ruleText_round_trip_ragged :
    ragged.ReachableWithoutJson ∧ ragged.ruleText? "a".toList = some ", x<b>y<c".toList ∧
      ragged.setRule ⟨"a".toList, ", x<b>y<c".toList⟩ = ragged := by
  have hreachable : ragged.ReachableWithoutJson := by
    refine ⟨.rules [⟨"<a>".toList, " ,x<b>y<c ".toList⟩], [], ragged, fun text he => ?_, rfl, rfl⟩
    cases he
  have htext : ragged.ruleText? "a".toList = some ", x<b>y<c".toList := by decide +kernel
  exact ⟨hreachable, htext, (ruleText_round_trip.2 ragged hreachable).2 _ _ htext⟩

end Grammar

end Sentences
