import Sentences.Grammar.Edit
import Sentences.Proofs.Writes

/-!
# Edits as a log of writes

An edit comes down to what it writes: rule texts under bare names, start symbols, configurations
(`Log`). Nothing else of an edit can be told from the grammar afterwards, not even which edit wrote
what. An edit that fails writes nothing.

* `record`: a grammar with all of a log written, the last write winning and the first write to a
  new name giving its place in the order;
* `record_append`: a log is written piece by piece;
* `record_overwritten`: and where it writes to the same names again, the first piece is lost;
* `Edit.apply_eq_record`: every edit writes its log;
* `edited_eq_log`: so does every list of edits, and edits that write different things commute.
-/

namespace Sentences

/-! ## 1. Logs -/

/-- What was written, in order: rule texts with the bare names they went to, start symbols and
    configurations. -/
structure Log where
  rules : List (Text × Text) := []
  starts : List Text := []
  configs : List Config := []

/-- The log without writes. -/
def Log.empty : Log := {}

instance : Append Log :=
  ⟨fun a b => ⟨a.rules ++ b.rules, a.starts ++ b.starts, a.configs ++ b.configs⟩⟩

/-- Whatever one of two logs writes, the other does not. -/
def Log.Apart (a b : Log) : Prop :=
  (a.rules = [] ∨ b.rules = []) ∧ (a.starts = [] ∨ b.starts = []) ∧
    (a.configs = [] ∨ b.configs = [])

/-- What an assignment writes. -/
def Assignment.write (a : Assignment) : Text × Text :=
  (a.name.bareName, a.text)

/-- What a rules file writes: its rules and then, if it chooses one, the start symbol. -/
def RulesFile.log (file : RulesFile) : Log where
  rules := file.rules.map Assignment.write
  starts := (file.start.map Text.bareName).toList

/-- What an edit writes; nothing if it fails. -/
def Edit.log : Edit → Log
  | .setRule a => { rules := [a.write] }
  | .setRules as => { rules := as.map Assignment.write }
  | .setWords words => { rules := words.assignments.map Assignment.write }
  | .setStart spelling => { starts := [spelling.bareName] }
  | .setConfig config => { configs := [config] }
  | .applyFile contents =>
    match RulesFile.ofContents contents with
    | .error _ => .empty
    | .ok file => file.log

/-- What a list of edits writes. -/
def Log.ofEdits : List Edit → Log
  | [] => .empty
  | e :: rest => e.log ++ ofEdits rest

/-- Names that are spelled bare are written as they are. -/
theorem Assignment.map_write {as : List Assignment} (h : ∀ a ∈ as, a.name.bareName = a.name) :
    as.map write = as.map fun a => (a.name, a.text) := by
  refine List.map_congr_left fun a ha => ?_
  rw [write, h a ha]

namespace Log

theorem ext_parts {a b : Log} (hr : a.rules = b.rules) (hs : a.starts = b.starts)
    (hc : a.configs = b.configs) : a = b := by
  cases a
  cases b
  simp_all

theorem rules_append (a b : Log) : (a ++ b).rules = a.rules ++ b.rules := rfl

theorem append_comm_of_nil {α : Type} {xs ys : List α} (h : xs = [] ∨ ys = []) :
    xs ++ ys = ys ++ xs := by
  rcases h with h | h
  · rw [h, List.nil_append, List.append_nil]
  · rw [h, List.nil_append, List.append_nil]

theorem append_comm_of_apart {a b : Log} (h : Apart a b) : a ++ b = b ++ a := by
  obtain ⟨hr, hs, hc⟩ := h
  exact ext_parts (append_comm_of_nil hr) (append_comm_of_nil hs) (append_comm_of_nil hc)

end Log

/-! ## 2. Writing a log -/

namespace Grammar

/-- The grammar with all of a log written. -/
def record (g : Grammar) (l : Log) : Grammar where
  rules := g.rules.writeAll (l.rules.map fun w => (w.1, Rule.ofText w.2))
  order := g.order ++ ((l.rules.map (·.1)).filter fun name => !g.rules.contains name).eraseDups
  start := l.starts.getLast?.getD g.start
  config := l.configs.getLast?.getD g.config

theorem record_empty (g : Grammar) : g.record .empty = g := by
  show Grammar.mk g.rules (g.order ++ []) g.start g.config = g
  rw [List.append_nil]

theorem eq_of_parts {g h : Grammar} (hrules : g.rules = h.rules) (horder : g.order = h.order)
    (hstart : g.start = h.start) (hconfig : g.config = h.config) : g = h := by
  cases g
  cases h
  simp_all

/-- **A log is written piece by piece.** -/
theorem record_append (g : Grammar) (a b : Log) : g.record (a ++ b) = (g.record a).record b := by
  have hnames : (a.rules.map fun w => (w.1, Rule.ofText w.2)).map (·.1) = a.rules.map (·.1) := by
    rw [List.map_map]
    rfl
  have hrules : (g.record (a ++ b)).rules = ((g.record a).record b).rules := by
    show g.rules.writeAll _ = (g.rules.writeAll _).writeAll _
    rw [Log.rules_append, List.map_append, Table.writeAll_append]
  have horder : (g.record (a ++ b)).order = ((g.record a).record b).order := by
    show g.order ++ _ = (g.order ++ _) ++ (List.filter _ _).eraseDups
    rw [Log.rules_append, List.map_append, List.filter_append, List.eraseDups_append,
      List.append_assoc]
    unfold record
    rw [Table.filter_new_writeAll, hnames]
  have hstart : (g.record (a ++ b)).start = ((g.record a).record b).start := by
    show (a.starts ++ b.starts).getLast?.getD g.start = _
    rw [List.getLast?_append, Option.getD_or]
    rfl
  have hconfig : (g.record (a ++ b)).config = ((g.record a).record b).config := by
    show (a.configs ++ b.configs).getLast?.getD g.config = _
    rw [List.getLast?_append, Option.getD_or]
    rfl
  exact eq_of_parts hrules horder hstart hconfig

theorem get?_record (g : Grammar) (l : Log) (name : Text) :
    (g.record l).rules.get? name =
      ((Table.last? name l.rules).map Rule.ofText).or (g.rules.get? name) := by
  show (g.rules.writeAll _).get? name = _
  rw [Table.get?_writeAll, Table.last?_map]

/-- Nothing is left of writes to the same names. -/
theorem record_overwritten (g : Grammar) {before after : List (Text × Text)}
    (h : before.map (·.1) = after.map (·.1)) :
    (g.record { rules := before }).record { rules := after } = g.record { rules := after } := by
  rw [← record_append]
  refine eq_of_parts (Table.ext fun name => ?_) ?_ rfl rfl
  · rw [get?_record, get?_record, Log.rules_append, Table.last?_append]
    cases hlast : Table.last? name after with
    | some text => rfl
    | none =>
      have hbefore : Table.last? name before = none := by
        rw [← Option.not_isSome_iff_eq_none, Table.last?_isSome_iff] at hlast ⊢
        rw [h]
        exact hlast
      rw [hbefore, Option.or_none]
  · show g.order ++ _ = g.order ++ _
    have hself : ∀ names : List Text, names.removeAll names = [] := fun names =>
      List.filter_eq_nil_iff.2 fun name hn => by simp [hn]
    rw [Log.rules_append, List.map_append, h, List.filter_append, List.eraseDups_append, hself,
      List.eraseDups_nil, List.append_nil]

/-! ## 3. Edits -/

theorem setRule_eq_record (g : Grammar) (a : Assignment) :
    g.setRule a = g.record { rules := [a.write] } := by
  refine eq_of_parts rfl ?_ rfl rfl
  show (if g.rules.contains a.name.bareName then g.order else g.order ++ [a.name.bareName]) =
    g.order ++ ([a.name.bareName].filter fun name => !g.rules.contains name).eraseDups
  by_cases hc : g.rules.contains a.name.bareName = true
  · simp [hc]
  · simp [hc, List.eraseDups_cons]

theorem setRules_eq_record (g : Grammar) (as : List Assignment) :
    g.setRules as = g.record { rules := as.map Assignment.write } := by
  unfold setRules
  induction as generalizing g with
  | nil => exact g.record_empty.symm
  | cons a rest ih =>
    have hlog : ({ rules := (a :: rest).map Assignment.write } : Log) =
        ({ rules := [a.write] } : Log) ++ { rules := rest.map Assignment.write } := rfl
    rw [List.foldl_cons, ih, setRule_eq_record, hlog, record_append]

/-- Of several rules written to one name the last one counts. -/
theorem get?_setRules (g : Grammar) (as : List Assignment) (name : Text) :
    (g.setRules as).rules.get? name =
      ((Table.last? name (as.map Assignment.write)).map Rule.ofText).or (g.rules.get? name) := by
  rw [setRules_eq_record, get?_record]

/-- A name that is not written keeps its rule. -/
theorem get?_setRules_of_unwritten {g : Grammar} {as : List Assignment} {name : Text}
    (hname : ∀ a ∈ as, a.name.bareName ≠ name) :
    (g.setRules as).rules.get? name = g.rules.get? name := by
  have hnone : Table.last? name (as.map Assignment.write) = none := by
    rw [← Option.not_isSome_iff_eq_none, Table.last?_isSome_iff, List.map_map]
    intro hm
    obtain ⟨a, ha, he⟩ := List.mem_map.1 hm
    exact hname a ha he
  rw [get?_setRules, hnone]
  rfl

/-- A vocabulary leaves nothing of the one before. -/
theorem setWords_setWords (g : Grammar) (v w : Vocabulary) :
    (g.setWords v).setWords w = g.setWords w := by
  unfold setWords
  rw [setRules_eq_record, setRules_eq_record, setRules_eq_record]
  exact g.record_overwritten rfl

theorem setStart_eq_record (g : Grammar) (spelling : Text) :
    g.setStart spelling = g.record { starts := [spelling.bareName] } :=
  eq_of_parts rfl (List.append_nil _).symm rfl rfl

theorem setConfig_eq_record (g : Grammar) (config : Config) :
    g.setConfig config = g.record { configs := [config] } :=
  eq_of_parts rfl (List.append_nil _).symm rfl rfl

theorem applyRulesFile_eq_record (g : Grammar) (file : RulesFile) :
    g.applyRulesFile file = g.record file.log := by
  obtain ⟨start, rules⟩ := file
  unfold applyRulesFile
  cases start with
  | none => exact setRules_eq_record g rules
  | some name =>
    have hlog : RulesFile.log ⟨some name, rules⟩ =
        ({ rules := rules.map Assignment.write } : Log) ++ { starts := [name.bareName] } :=
      Log.ext_parts (List.append_nil _).symm rfl rfl
    show (g.setRules rules).setStart name = g.record _
    rw [setRules_eq_record, setStart_eq_record, ← record_append, hlog]

theorem start_setRules (g : Grammar) (as : List Assignment) : (g.setRules as).start = g.start := by
  rw [setRules_eq_record]
  rfl

theorem config_setRules (g : Grammar) (as : List Assignment) :
    (g.setRules as).config = g.config := by
  rw [setRules_eq_record]
  rfl

/-- A rules file decides the start symbol if it chooses one. -/
theorem start_applyRulesFile (g : Grammar) (file : RulesFile) :
    (g.applyRulesFile file).start = (file.start.map Text.bareName).getD g.start := by
  unfold applyRulesFile
  split
  · rename_i h
    rw [start_setRules, h]
    rfl
  · rename_i name h
    rw [h]
    rfl

theorem get?_applyRulesFile (g : Grammar) (file : RulesFile) (name : Text) :
    (g.applyRulesFile file).rules.get? name =
      ((Table.last? name (file.rules.map Assignment.write)).map Rule.ofText).or
        (g.rules.get? name) := by
  rw [applyRulesFile_eq_record, get?_record]
  rfl

end Grammar

/-- **Every edit writes its log**, and does nothing else. -/
theorem Edit.apply_eq_record (g : Grammar) (e : Edit) : e.apply g = g.record e.log := by
  cases e with
  | setRule a => exact g.setRule_eq_record a
  | setRules as => exact g.setRules_eq_record as
  | setWords words => exact g.setRules_eq_record words.assignments
  | setStart spelling => exact g.setStart_eq_record spelling
  | setConfig config => exact g.setConfig_eq_record config
  | applyFile contents =>
    simp only [Edit.apply, Edit.attempt, Edit.log, Grammar.applyFile]
    cases RulesFile.ofContents contents with
    | error cause => exact g.record_empty.symm
    | ok file => exact g.applyRulesFile_eq_record file

/-- An edit that fails writes nothing. -/
theorem Edit.log_of_error {g : Grammar} {e : Edit} {cause : Failure}
    (h : e.attempt g = .error cause) : e.log = .empty := by
  cases e with
  | applyFile contents =>
    simp only [Edit.attempt, Grammar.applyFile] at h
    cases hc : RulesFile.ofContents contents with
    | error cause => simp only [Edit.log, hc]
    | ok file =>
      rw [hc] at h
      cases h
  | _ => cases h

namespace Grammar

theorem edited_append (g : Grammar) (xs ys : List Edit) :
    g.edited (xs ++ ys) = (g.edited xs).edited ys :=
  List.foldl_append

theorem edited_eq_record (g : Grammar) (edits : List Edit) :
    g.edited edits = g.record (.ofEdits edits) := by
  unfold edited
  induction edits generalizing g with
  | nil => exact g.record_empty.symm
  | cons e rest ih =>
    rw [List.foldl_cons, ih, Edit.apply_eq_record, ← record_append]
    rfl

/-- Edits that write different things commute. -/
theorem edited_comm_of_apart (g : Grammar) {a b : Edit} (h : a.log.Apart b.log)
    (after : List Edit) : g.edited (a :: b :: after) = g.edited (b :: a :: after) := by
  have hswap : b.apply (a.apply g) = a.apply (b.apply g) := by
    rw [Edit.apply_eq_record, Edit.apply_eq_record, ← record_append, Log.append_comm_of_apart h,
      record_append, ← Edit.apply_eq_record, ← Edit.apply_eq_record]
  show (b.apply (a.apply g)).edited after = (a.apply (b.apply g)).edited after
  rw [hswap]

/-- **A grammar after edits is the grammar with their log written**: the last text written to a
    name is its rule, new names are defined at the first write to them, and the last start symbol
    and configuration count. So edits that write different things commute, and an edit that fails
    might as well be left out. -/
theorem edited_eq_log (g : Grammar) (edits : List Edit) :
    (∀ name, (g.edited edits).rules.get? name =
      ((Table.last? name (Log.ofEdits edits).rules).map Rule.ofText).or (g.rules.get? name)) ∧
    (g.edited edits).order = g.order ++
      (((Log.ofEdits edits).rules.map (·.1)).filter fun name => !g.rules.contains name).eraseDups ∧
    (g.edited edits).start = (Log.ofEdits edits).starts.getLast?.getD g.start ∧
    (g.edited edits).config = (Log.ofEdits edits).configs.getLast?.getD g.config ∧
    (∀ a b after, a.log.Apart b.log →
      g.edited (edits ++ a :: b :: after) = g.edited (edits ++ b :: a :: after)) ∧
    ∀ e cause after, e.attempt (g.edited edits) = .error cause →
      e.log = .empty ∧ g.edited (edits ++ e :: after) = g.edited (edits ++ after) := by
  refine ⟨fun name => ?_, ?_, ?_, ?_, fun a b after h => ?_, fun e cause after h => ?_⟩
  · rw [edited_eq_record]
    show (g.rules.writeAll _).get? name = _
    rw [Table.get?_writeAll, Table.last?_map]
  · rw [edited_eq_record]
    rfl
  · rw [edited_eq_record]
    rfl
  · rw [edited_eq_record]
    rfl
  · rw [edited_append, edited_append, edited_comm_of_apart _ h]
  · have hlog := Edit.log_of_error h
    have hsame : e.apply (g.edited edits) = g.edited edits := by
      rw [Edit.apply_eq_record, hlog, record_empty]
    refine ⟨hlog, ?_⟩
    rw [edited_append, edited_append]
    show (e.apply (g.edited edits)).edited after = _
    rw [hsame]

/-- Two spellings of one name, then another name. -/
def twoSpellings : List Edit :=
  [.setRule ⟨"<x>".toList, "a".toList⟩, .setRule ⟨"y".toList, "<x>".toList⟩,
   .setRule ⟨" x".toList, "b".toList⟩]

theorem edited_eq_log_twoSpellings :
    (empty.edited twoSpellings).order = ["x".toList, "y".toList] ∧
    (Edit.setStart "y".toList).log.Apart (Edit.setConfig {}).log ∧
    empty.edited (twoSpellings ++ [.setStart "y".toList, .setConfig {}]) =
      empty.edited (twoSpellings ++ [.setConfig {}, .setStart "y".toList]) ∧
    Edit.attempt (empty.edited twoSpellings) (.applyFile (.error .notFound)) =
      .error (.file .notFound) ∧
    empty.edited (twoSpellings ++ [.applyFile (.error .notFound)]) =
      empty.edited (twoSpellings ++ []) := by
  obtain ⟨-, horder, -, -, hcomm, hfail⟩ := edited_eq_log empty twoSpellings
  have hapart : (Edit.setStart "y".toList).log.Apart (Edit.setConfig {}).log :=
    ⟨.inl rfl, .inr rfl, .inl rfl⟩
  have herror : Edit.attempt (empty.edited twoSpellings) (.applyFile (.error .notFound)) =
      .error (.file .notFound) := rfl
  refine ⟨?_, hapart, hcomm _ _ [] hapart, herror, (hfail _ _ [] herror).2⟩
  rw [horder]
  decide +kernel

end Grammar

end Sentences
