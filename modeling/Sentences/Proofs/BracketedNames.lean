import Mathlib.Data.List.Basic
import Sentences.Proofs.References
import Sentences.Proofs.RuleText

/-!
# Names in brackets, and the commas in them

A rule text is cut at its commas before the brackets are looked at. So a name in brackets is found
as it stands, whatever is in it, unless there is a comma in it: then the cut goes through it, and it
is no reference any more.

* `Text.bracketedNames`: what stands in brackets;
* `Text.bracketedNames_intercalate`: of that, a cut at the commas leaves what has no comma in it;
* `Symbol.references_scan`: a scan finds all of it;
* `Rule.references_ofText`: so a rule refers to the names in brackets that have no comma in them;
* `Rule.not_references_eq_bracketedNames`: and not to all of them.
-/

namespace Sentences

namespace Text

/-! ## 1. What stands in brackets -/

/-- The texts between each opening bracket and the next closing one, in their order. -/
def bracketedNames : Text → List Text
  | [] => []
  | c :: rest =>
    if c = openMark ∧ closeMark ∈ rest then rest.takeWhile notClose :: bracketedNames rest
    else bracketedNames rest

/-- Every opening bracket is followed by a closing one, before any other opens. -/
def WellBracketed : Text → Prop
  | [] => True
  | c :: rest =>
    (c = openMark → closeMark ∈ rest ∧ openMark ∉ rest.takeWhile notClose) ∧ WellBracketed rest

instance decidableWellBracketed : (t : Text) → Decidable t.WellBracketed
  | [] => inferInstanceAs (Decidable True)
  | c :: rest =>
    have := decidableWellBracketed rest
    inferInstanceAs (Decidable
      ((c = openMark → closeMark ∈ rest ∧ openMark ∉ rest.takeWhile notClose) ∧
        WellBracketed rest))

theorem bracketedNames_cons_of_ne {c : Char} (h : c ≠ openMark) (t : Text) :
    bracketedNames (c :: t) = bracketedNames t :=
  if_neg fun hc => h hc.1

theorem bracketedNames_open {t : Text} (h : closeMark ∈ t) :
    bracketedNames (openMark :: t) = t.takeWhile notClose :: bracketedNames t :=
  if_pos ⟨rfl, h⟩

theorem bracketedNames_unclosed {t : Text} (h : closeMark ∉ t) :
    bracketedNames (openMark :: t) = bracketedNames t :=
  if_neg fun hc => h hc.2

theorem openMark_notMem_of_wellBracketed {t : Text} (h : t.WellBracketed) :
    ∀ name ∈ t.bracketedNames, openMark ∉ name := by
  induction t with
  | nil => exact fun name hname => absurd hname List.not_mem_nil
  | cons c rest ih =>
    obtain ⟨hc, hrest⟩ := h
    intro name hname
    rw [bracketedNames] at hname
    split at hname
    · next hopen =>
      rcases List.mem_cons.1 hname with rfl | hname
      · exact (hc hopen.1).2
      · exact ih hrest name hname
    · exact ih hrest name hname

/-- Text without an opening bracket in front makes no difference. -/
theorem bracketedNames_append {u : Text} (h : openMark ∉ u) (v : Text) :
    bracketedNames (u ++ v) = bracketedNames v := by
  induction u with
  | nil => rfl
  | cons c rest ih =>
    have hc : c ≠ openMark := fun he => h (he ▸ List.mem_cons_self)
    rw [List.cons_append, bracketedNames_cons_of_ne hc, ih fun hm => h (List.mem_cons_of_mem c hm)]

theorem bracketedNames_of_notMem {t : Text} (h : closeMark ∉ t) : bracketedNames t = [] := by
  induction t with
  | nil => rfl
  | cons c rest ih =>
    have hrest : closeMark ∉ rest := fun hm => h (List.mem_cons_of_mem c hm)
    rw [bracketedNames, if_neg fun hc => hrest hc.2, ih hrest]

/-- A name that is closed is the same, whatever follows. -/
theorem takeWhile_notClose_append {u : Text} (h : closeMark ∈ u) (v : Text) :
    (u ++ v).takeWhile notClose = u.takeWhile notClose := by
  induction u with
  | nil => exact absurd h List.not_mem_nil
  | cons c rest ih =>
    rw [List.cons_append]
    by_cases hc : c = closeMark
    · have hstop : ¬ notClose c = true := by simp [notClose, hc]
      rw [List.takeWhile_cons_of_neg hstop, List.takeWhile_cons_of_neg hstop]
    · have hgo : notClose c = true := bne_iff_ne.2 hc
      have hrest : closeMark ∈ rest := (List.mem_cons.1 h).resolve_left (Ne.symm hc)
      rw [List.takeWhile_cons_of_pos hgo, List.takeWhile_cons_of_pos hgo, ih hrest]

/-- Nor does text without a closing bracket behind. -/
theorem bracketedNames_append_of_notMem {v : Text} (h : closeMark ∉ v) (u : Text) :
    bracketedNames (u ++ v) = bracketedNames u := by
  induction u with
  | nil => exact bracketedNames_of_notMem h
  | cons c rest ih =>
    rw [List.cons_append]
    by_cases hc : c = openMark
    · subst hc
      by_cases hm : closeMark ∈ rest
      · rw [bracketedNames_open (List.mem_append_left v hm), bracketedNames_open hm,
          takeWhile_notClose_append hm, ih]
      · have hboth : closeMark ∉ rest ++ v := fun hv => (List.mem_append.1 hv).elim hm h
        rw [bracketedNames_unclosed hboth, bracketedNames_unclosed hm, ih]
    · rw [bracketedNames_cons_of_ne hc, bracketedNames_cons_of_ne hc, ih]

/-- Nor does white space at either end. -/
theorem bracketedNames_trim (t : Text) : bracketedNames t.trim = bracketedNames t := by
  obtain ⟨before, after, hbefore, hafter, ht⟩ := t.exists_padding
  have hopen : openMark ∉ before := notMem_of_allBlank hbefore (by decide)
  have hclose : closeMark ∉ after := notMem_of_allBlank hafter (by decide)
  calc bracketedNames t.trim
      = bracketedNames (t.trim ++ after) := (bracketedNames_append_of_notMem hclose _).symm
    _ = bracketedNames (before ++ (t.trim ++ after)) := (bracketedNames_append hopen _).symm
    _ = bracketedNames t := by rw [← ht]

/-! ## 2. A cut at a comma -/

/-- The names that no cut at a comma goes through. -/
def uncut (names : List Text) : List Text :=
  names.filter (alternativeMark ∉ ·)

theorem uncut_cons_of_notMem {name : Text} (h : alternativeMark ∉ name) (names : List Text) :
    uncut (name :: names) = name :: uncut names :=
  List.filter_cons_of_pos (decide_eq_true h)

theorem uncut_cons_of_mem {name : Text} (h : alternativeMark ∈ name) (names : List Text) :
    uncut (name :: names) = uncut names :=
  List.filter_cons_of_neg (by simpa using h)

/-- Nothing that stands in brackets has a mark that the whole text lacks. -/
theorem uncut_bracketedNames {t : Text} (h : alternativeMark ∉ t) :
    uncut t.bracketedNames = t.bracketedNames := by
  induction t with
  | nil => rfl
  | cons c rest ih =>
    have hrest : alternativeMark ∉ rest := fun hm => h (List.mem_cons_of_mem c hm)
    rw [bracketedNames]
    split
    · have hname : alternativeMark ∉ rest.takeWhile notClose :=
        fun hm => hrest ((List.takeWhile_prefix notClose).subset hm)
      rw [uncut_cons_of_notMem hname, ih hrest]
    · exact ih hrest

/-- **A cut at a comma loses what it goes through**, which has a comma in it, and nothing else. -/
theorem uncut_bracketedNames_append {u : Text} (h : alternativeMark ∉ u) (v : Text) :
    uncut (bracketedNames (u ++ alternativeMark :: v)) =
      bracketedNames u ++ uncut (bracketedNames v) := by
  induction u with
  | nil => exact congrArg uncut (bracketedNames_cons_of_ne (by decide) v)
  | cons c rest ih =>
    have hrest : alternativeMark ∉ rest := fun hm => h (List.mem_cons_of_mem c hm)
    have hcut := ih hrest
    rw [List.cons_append]
    by_cases hc : c = openMark
    · subst hc
      by_cases hm : closeMark ∈ rest
      · -- closed in front of the comma: found on both sides
        have hname : alternativeMark ∉ rest.takeWhile notClose :=
          fun hn => hrest ((List.takeWhile_prefix notClose).subset hn)
        rw [bracketedNames_open (List.mem_append_left _ hm), takeWhile_notClose_append hm,
          uncut_cons_of_notMem hname, hcut, bracketedNames_open hm, List.cons_append]
      · -- closed behind the comma, if at all: the comma is in the name
        rw [bracketedNames_unclosed hm, ← hcut]
        by_cases hv : closeMark ∈ rest ++ alternativeMark :: v
        · have hkeep : ∀ d ∈ rest, notClose d = true :=
            fun d hd => bne_iff_ne.2 fun he => hm (he ▸ hd)
          have hname : alternativeMark ∈ (rest ++ alternativeMark :: v).takeWhile notClose := by
            rw [List.takeWhile_append_of_pos hkeep, List.takeWhile_cons_of_pos (by decide)]
            exact List.mem_append_right rest List.mem_cons_self
          rw [bracketedNames_open hv, uncut_cons_of_mem hname]
        · rw [bracketedNames_unclosed hv]
    · rw [bracketedNames_cons_of_ne hc, bracketedNames_cons_of_ne hc, hcut]

/-- **The pieces between the commas have the names without a comma.** -/
theorem bracketedNames_intercalate {ps : List Text} (h : ∀ p ∈ ps, alternativeMark ∉ p) :
    ps.flatMap bracketedNames = uncut (bracketedNames ([alternativeMark].intercalate ps)) := by
  induction ps with
  | nil => rfl
  | cons p rest ih =>
    have hp : alternativeMark ∉ p := h p List.mem_cons_self
    have hrest := ih fun q hq => h q (List.mem_cons_of_mem p hq)
    rw [List.flatMap_cons, hrest]
    cases rest with
    | nil =>
      rw [List.intercalate_singleton, uncut_bracketedNames hp]
      exact List.append_nil _
    | cons q qs =>
      rw [List.intercalate_cons_cons, List.append_assoc, List.singleton_append,
        uncut_bracketedNames_append hp]

end Text

/-! ## 3. What a rule refers to -/

open Text (bracketedNames WellBracketed uncut)

/-- **A scan finds what stands in brackets**, provided that no bracket opens within another. -/
theorem Symbol.references_scan {t : Text} (h : ∀ name ∈ t.bracketedNames, openMark ∉ name) :
    (scan t).filterMap reference? = t.bracketedNames := by
  induction t using scan.induct with
  | case1 =>
    rw [scan]
    rfl
  | case2 rest hclose ih =>
    rw [Text.bracketedNames_open hclose] at h ⊢
    have hname : openMark ∉ rest.takeWhile notClose := h _ List.mem_cons_self
    have hskip : bracketedNames rest = bracketedNames (rest.dropWhile notClose).tail := by
      have hcut : rest.takeWhile notClose ++ closeMark :: (rest.dropWhile notClose).tail = rest :=
        cut_at_mark hclose
      conv => lhs; rw [← hcut]
      rw [Text.bracketedNames_append hname,
        Text.bracketedNames_cons_of_ne openMark_ne_closeMark.symm]
    have hrest := ih fun name hm => h name (List.mem_cons_of_mem _ (hskip ▸ hm))
    have hhead : reference? (nonterminal (rest.takeWhile notClose)) =
        some (rest.takeWhile notClose) := rfl
    rw [scan, if_pos rfl, if_pos hclose, List.filterMap_cons_some hhead, hrest, hskip]
  | case3 rest hclose =>
    rw [scan, if_pos rfl, if_neg hclose, Text.bracketedNames_unclosed hclose,
      Text.bracketedNames_of_notMem hclose]
    rfl
  | case4 c rest hc ih =>
    have hskip : bracketedNames (c :: rest) = bracketedNames (rest.dropWhile notOpen) := by
      rw [Text.bracketedNames_cons_of_ne hc]
      conv => lhs; rw [← List.takeWhile_append_dropWhile (p := notOpen) (l := rest)]
      exact Text.bracketedNames_append (notMem_takeWhile_ne rest) _
    have hrest := ih fun name hm => h name (hskip ▸ hm)
    have hhead : reference? (terminal (c :: rest.takeWhile notOpen)) = none := rfl
    rw [scan, if_neg hc, List.filterMap_cons_none hhead, hrest, hskip]

theorem Production.filterMap_reference_ofText {t : Text}
    (h : ∀ name ∈ t.bracketedNames, openMark ∉ name) :
    (ofText t).symbols.filterMap Symbol.reference? = t.bracketedNames := by
  have hscan := Symbol.references_scan (t := t.trim)
  rw [Text.bracketedNames_trim] at hscan
  exact hscan h

namespace Rule

/-- **A rule refers to the names in brackets that have no comma in them**, in their order and
    whatever else is in them. -/
theorem references_ofText {t : Text} (h : t.WellBracketed) :
    (ofText t).references = t.bracketedNames.filter (alternativeMark ∉ ·) := by
  have hpieces : (t.splitOn alternativeMark).flatMap bracketedNames = uncut t.bracketedNames := by
    rw [Text.bracketedNames_intercalate fun p hp => notMem_of_mem_splitOn hp,
      List.intercalate_splitOn]
  unfold ofText references
  by_cases hblank : t.allBlank = true
  · have hclose : closeMark ∉ t := Text.notMem_of_allBlank hblank (by decide)
    rw [if_pos hblank, Text.bracketedNames_of_notMem hclose]
    rfl
  · rw [if_neg hblank, List.flatMap_map]
    refine Eq.trans ?_ hpieces
    refine List.flatMap_congr fun p hp => ?_
    refine Production.filterMap_reference_ofText fun name hname => ?_
    have hmem : name ∈ uncut t.bracketedNames := by
      rw [← hpieces]
      exact List.mem_flatMap.2 ⟨p, hp, hname⟩
    exact Text.openMark_notMem_of_wellBracketed h name (List.mem_filter.1 hmem).1

/-- Names with white space and an equals sign in them, one with a comma, and one behind it. -/
def crossed : Text :=
  "<a = b>, x<c,d>y< e >z>".toList

theorem references_ofText_crossed : crossed.WellBracketed ∧
    crossed.bracketedNames = ["a = b".toList, "c,d".toList, " e ".toList] ∧
    (ofText crossed).references = ["a = b".toList, " e ".toList] := by
  have hwell : crossed.WellBracketed := by decide +kernel
  have hnames : crossed.bracketedNames = ["a = b".toList, "c,d".toList, " e ".toList] := by
    decide +kernel
  have hrefs := references_ofText hwell
  rw [hnames] at hrefs
  exact ⟨hwell, hnames, hrefs⟩

/-- **Not every name in brackets is referred to**: the cut goes through `<a,b>`. -/
theorem not_references_eq_bracketedNames :
    ¬ ∀ t : Text, t.WellBracketed → (ofText t).references = t.bracketedNames := by
  intro h
  have hcut := h "<a,b>".toList (by decide +kernel)
  revert hcut
  decide +kernel

end Rule

end Sentences
