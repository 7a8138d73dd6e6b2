import Sentences.Proofs.GrammarJson
import Sentences.Proofs.WriteLog

/-!
# The repair of an order of definition

A document may have any list of names for its order of definition. The grammar that it holds has
the names of that list that have a rule, as they first occur, and behind them the other names with a
rule in ascending order. No other part of the document has a say in this, nor does the way in which
the names with a rule come to hand.

* `Document.OrderParts`: the two parts of the order, which the document determines;
* `repairInPlace_eq`: the repair in place comes to the same order, wherever the names come from;
* `repairedOrder_eq_of_idle`: names without a rule, and repeated ones, make no difference to it;
* `ofJson_repairs_order`: what a JSON text holds.
-/

namespace Sentences

/-! ## 1. The two parts -/

namespace Document

/-- The two parts of an order of definition: the names that the document has in its order and has a
    rule for, as they first occur, and those that it has a rule for only, in ascending order. -/
structure OrderParts (d : Document) (known missing : List Text) : Prop where
  mem_known : ∀ name, name ∈ known ↔ name ∈ d.order ∧ name ∈ d.names
  occurring : known.Pairwise fun a b => d.order.idxOf a < d.order.idxOf b
  mem_missing : ∀ name, name ∈ missing ↔ name ∈ d.names ∧ name ∉ d.order
  ascending : missing.Pairwise (· < ·)

variable {d : Document}

/-- **A document has no two such parts.** -/
theorem OrderParts.unique {known missing known' missing' : List Text}
    (h : d.OrderParts known missing) (h' : d.OrderParts known' missing') :
    known = known' ∧ missing = missing' := by
  refine ⟨Occurrences.eq_of_pairwise (fun _ _ => Nat.lt_asymm) h.occurring h'.occurring ?_,
    Occurrences.eq_of_pairwise (fun _ _ => List.lt_asymm) h.ascending h'.ascending ?_⟩
  · exact fun name => (h.mem_known name).trans (h'.mem_known name).symm
  · exact fun name => (h.mem_missing name).trans (h'.mem_missing name).symm

/-- The last of several rules for one name counts. -/
theorem get?_grammar (d : Document) (name : Text) :
    d.grammar.rules.get? name = Table.last? name d.rules := by
  show (Grammar.tableOf d.rules).get? name = _
  rw [Grammar.tableOf_eq, Table.get?_writeAll, Table.get?_empty, Option.or_none]

theorem contains_grammar_iff (d : Document) (name : Text) :
    d.grammar.rules.contains name = true ↔ name ∈ d.names := by
  unfold Table.contains
  rw [get?_grammar, Table.last?_isSome_iff]
  rfl

end Document

/-! ## 2. The repaired order -/

namespace Grammar

/-- The names of a table that an order lacks, in ascending order. -/
theorem ascending_filter_names (rules : Table Rule) (p : Text → Bool) :
    (rules.names.filter p).Pairwise (· < ·) :=
  (List.pairwise_map.2 rules.ascending).filter p

/-- **The repaired order has the two parts.** -/
theorem exists_orderParts (d : Document) :
    ∃ known missing, d.repaired.order = known ++ missing ∧ d.OrderParts known missing := by
  refine ⟨_, _, rfl, fun name => ?_, Occurrences.pairwise_idxOf_eraseDups _ _, fun name => ?_,
    ascending_filter_names _ _⟩
  · rw [List.mem_eraseDups, List.mem_filter, d.contains_grammar_iff]
    rfl
  · rw [List.mem_filter, Table.mem_names_iff, d.contains_grammar_iff]
    refine and_congr_right fun hname => ?_
    have hrule := (d.contains_grammar_iff name).2 hname
    simp only [Bool.not_eq_true', ← Bool.not_eq_true, List.contains_iff_mem, List.mem_eraseDups,
      List.mem_filter, hrule, and_true]
    rfl

/-- A name without a rule makes no difference to the repaired order, and neither does one that has
    been before. -/
theorem repairedOrder_eq_of_idle {rules : Table Rule} {before after : List Text} {name : Text}
    (h : rules.contains name = false ∨ name ∈ before) :
    repairedOrder rules (before ++ name :: after) = repairedOrder rules (before ++ after) := by
  have hknown : ((before ++ name :: after).filter rules.contains).eraseDups =
      ((before ++ after).filter rules.contains).eraseDups := by
    rw [List.filter_append, List.filter_append]
    by_cases hrule : rules.contains name = true
    · have hbefore : name ∈ before := h.resolve_left (by rw [hrule]; exact nofun)
      rw [List.filter_cons_of_pos hrule]
      exact Occurrences.eraseDups_of_repeated (List.mem_filter.2 ⟨hbefore, hrule⟩)
    · rw [List.filter_cons_of_neg hrule]
  unfold repairedOrder
  rw [hknown]

/-! ## 3. The repair in place -/

/-- What has been seen is as good as removed. -/
theorem keepUnseen_eq (rules : Table Rule) (seen order : List Text) :
    keepUnseen rules seen order =
      (order.filter fun name => rules.contains name && !seen.contains name).eraseDups := by
  induction order generalizing seen with
  | nil => rfl
  | cons name rest ih =>
    unfold keepUnseen
    by_cases hkeep : (rules.contains name && !seen.contains name) = true
    · rw [if_pos hkeep, ih, List.filter_cons, if_pos hkeep, List.eraseDups_cons, List.filter_filter]
      refine congrArg (fun names : List Text => name :: names.eraseDups)
        (List.filter_congr fun other _ => ?_)
      by_cases he : other = name
      · simp [he]
      · simp [he, Bool.and_comm]
    · rw [if_neg hkeep, ih, List.filter_cons, if_neg hkeep]

/-- What does not come after a name does not come after a later one. -/
theorem not_lt_trans {a b c : Text} (hab : ¬ b < a) (hbc : ¬ c < b) : ¬ c < a := by
  intro hca
  by_cases he : b = c
  · exact hab (he ▸ hca)
  · exact hab (List.lt_trans (Table.lt_of_not_lt he hbc) hca)

/-- Names of a table that come in any order are sorted as the table has them. -/
theorem mergeSort_filter_eq {rules : Table Rule} {keys : List Text} (h : keys.Perm rules.names)
    (p : Text → Bool) :
    (keys.filter p).mergeSort (fun a b => !decide (b < a)) = rules.names.filter p := by
  have hle : ∀ a b : Text, (!decide (b < a)) = true ↔ ¬ b < a := by simp
  have hsorted : ((keys.filter p).mergeSort fun a b => !decide (b < a)).Pairwise
      fun a b => (!decide (b < a)) = true := by
    refine List.pairwise_mergeSort (fun a b c hab hbc => ?_) (fun a b => ?_) _
    · rw [hle] at hab hbc ⊢
      exact not_lt_trans hab hbc
    · rw [Bool.or_eq_true, hle, hle]
      by_cases hlt : b < a
      · exact .inr (List.lt_asymm hlt)
      · exact .inl hlt
  have hnames : (rules.names.filter p).Pairwise fun a b => (!decide (b < a)) = true :=
    (ascending_filter_names rules p).imp fun hlt => (hle _ _).2 (List.lt_asymm hlt)
  refine List.Perm.eq_of_pairwise (fun a b _ _ hab hba => ?_) hsorted hnames
    ((List.mergeSort_perm _ _).trans (h.filter p))
  rw [hle] at hab hba
  exact Classical.byContradiction fun hne => hba (Table.lt_of_not_lt hne hab)

/-- **The repair in place comes to the same**, in whatever order the names with a rule come. -/
theorem repairInPlace_eq (g : Grammar) {keys : List Text} (h : keys.Perm g.rules.names) :
    g.repairInPlace keys = g.repaired := by
  have hkept : keepUnseen g.rules [] g.order = (g.order.filter g.rules.contains).eraseDups := by
    rw [keepUnseen_eq]
    simp
  unfold repairInPlace repaired repairedOrder
  dsimp only
  rw [hkept, mergeSort_filter_eq h]

/-! ## 4. JSON texts -/

/-- A text holds the grammar of the document that it holds. -/
theorem ofJson_eq (t : Text) : ofJson t = (Document.reader.readAll t).map Document.repaired := by
  unfold ofJson
  rw [reader_eq, Json.Reader.readAll_map]
  cases Document.reader.readAll t with
  | error fault => rfl
  | ok d => rfl

/-- The rules of a document with different names may be listed in any order. -/
theorem repaired_of_perm {d : Document} {rules : List (Text × Rule)} (h : rules.Perm d.rules)
    (hnames : d.names.Nodup) : Document.repaired { d with rules } = d.repaired := by
  have hrules : (rules.map (·.1)).Nodup := (h.map _).nodup_iff.2 hnames
  have htable : tableOf rules = tableOf d.rules := Table.writeAll_comm .empty h hrules
  unfold Document.repaired Document.grammar
  rw [htable]

theorem repaired_of_idle {d : Document} {before after : List Text} {name : Text}
    (hd : d.order = before ++ name :: after) (h : name ∉ d.names ∨ name ∈ before) :
    Document.repaired { d with order := before ++ after } = d.repaired := by
  have hidle : d.grammar.rules.contains name = false ∨ name ∈ before :=
    h.imp_left fun hn => Bool.eq_false_iff.2 fun hc => hn ((d.contains_grammar_iff name).1 hc)
  have horder : repairedOrder d.grammar.rules (before ++ after) =
      repairedOrder d.grammar.rules d.order := by
    rw [hd, repairedOrder_eq_of_idle hidle]
  exact eq_of_parts rfl horder rfl rfl

/-- **A JSON text has its order of definition repaired in one way.** A text holds the grammar of the
    document that it holds, and every document has a text. The grammar has the last of the rules for
    each name, the start symbol and the configuration of the document, and of all lists only the one
    with its two parts for an order. The repair in place comes to it wherever the names with a rule
    come from. So neither the order in which different names are listed, nor a name without a rule
    nor one that was before makes a difference, and there is nothing left to repair. -/
theorem ofJson_repairs_order :
    (∀ t : Text, ofJson t = (Document.reader.readAll t).map Document.repaired) ∧
    (∀ (l : Json.Layout) (d : Document), Document.reader.readAll (d.toJson.write l) = .ok d) ∧
    ∀ d : Document,
      (∀ name, d.repaired.rules.get? name = Table.last? name d.rules) ∧
      d.repaired.start = d.start ∧ d.repaired.config = d.config ∧
      (∀ order, d.repaired.order = order ↔
        ∃ known missing, order = known ++ missing ∧ d.OrderParts known missing) ∧
      (∀ keys : List Text, keys.Perm d.grammar.rules.names →
        d.grammar.repairInPlace keys = d.repaired) ∧
      (∀ rules, rules.Perm d.rules → d.names.Nodup →
        Document.repaired { d with rules } = d.repaired) ∧
      (∀ before name after, d.order = before ++ name :: after → name ∉ d.names ∨ name ∈ before →
        Document.repaired { d with order := before ++ after } = d.repaired) ∧
      d.repaired.repaired = d.repaired := by
  refine ⟨ofJson_eq, fun l d => (Document.reads l d).readAll, fun d => ⟨d.get?_grammar, rfl, rfl,
    fun order => ⟨?_, ?_⟩, fun keys h => repairInPlace_eq d.grammar h,
    fun rules h hnames => repaired_of_perm h hnames,
    fun before name after hd h => repaired_of_idle hd h, (consistent_repaired d.grammar).repaired⟩⟩
  · rintro rfl
    exact exists_orderParts d
  · rintro ⟨known, missing, rfl, hparts⟩
    obtain ⟨known', missing', horder, hparts'⟩ := exists_orderParts d
    obtain ⟨rfl, rfl⟩ := hparts.unique hparts'
    exact horder

/-- A JSON text, its records written as lists, whose order has names twice and names without a rule,
    and lacks two. -/
def unruly : Text :=
  ("[\x7b\"é\":[[]],\"a\":[[]],\"Z\":[[]],\"b\":[[]]\x7d," ++
    "[\"b\",\"?\",\"a\",\"b\",\"\",\"a\"],\" s\"]").toList

/-- What the text says. -/
def unrulyDocument : Document where
  rules := [("é".toList, ⟨[]⟩), ("a".toList, ⟨[]⟩), ("Z".toList, ⟨[]⟩), ("b".toList, ⟨[]⟩)]
  order := ["b".toList, "?".toList, "a".toList, "b".toList, [], "a".toList]
  start := " s".toList

theorem ofJson_repairs_order_unruly :
    Document.reader.readAll unruly = .ok unrulyDocument ∧
    ofJson unruly = .ok unrulyDocument.repaired ∧
    unrulyDocument.repaired.order = ["b".toList, "a".toList, "Z".toList, "é".toList] ∧
    unrulyDocument.rules.reverse.Perm unrulyDocument.rules ∧ unrulyDocument.names.Nodup ∧
    Document.repaired { unrulyDocument with rules := unrulyDocument.rules.reverse } =
      unrulyDocument.repaired ∧
    unrulyDocument.order = ["b".toList, "?".toList, "a".toList] ++
      "b".toList :: [[], "a".toList] ∧
    Document.repaired { unrulyDocument with
      order := ["b".toList, "?".toList, "a".toList, [], "a".toList] } =
        unrulyDocument.repaired := by
  obtain ⟨htext, -, hdocument⟩ := ofJson_repairs_order
  obtain ⟨-, -, -, -, -, hrules, hidle, -⟩ := hdocument unrulyDocument
  have hread : Document.reader.readAll unruly = .ok unrulyDocument := by decide +kernel
  have hheld : ofJson unruly = .ok unrulyDocument.repaired := by
    rw [htext, hread]
    rfl
  have hperm := unrulyDocument.rules.reverse_perm
  have hnodup : unrulyDocument.names.Nodup := by decide +kernel
  have hcut : unrulyDocument.order = ["b".toList, "?".toList, "a".toList] ++
      "b".toList :: [[], "a".toList] := rfl
  exact ⟨hread, hheld, by decide +kernel, hperm, hnodup, hrules _ hperm hnodup, hcut,
    hidle _ _ _ hcut (.inr (by decide +kernel))⟩

end Grammar

end Sentences
