import Sentences.Grammar.Document
import Sentences.Proofs.JsonNested
import Sentences.Proofs.Reachable
import Sentences.Proofs.Records

/-!
# A grammar comes back from its JSON text

Symbols, productions, rules and configurations are read as they were written, in every layout and
with every character; so is a document. A grammar is read as the grammar of a document, hence with
its rules listed in any order, up to the repair of its order of definition. That repair changes
nothing in a reachable grammar.

* `Rule.reads`, `Config.reads`, `Document.reads`, `Grammar.reads`: what each reader takes;
* `Grammar.reader_eq`: a grammar is read where a document is;
* `ofJson_jsonText`: the JSON text of a reachable grammar holds exactly that grammar.
-/

namespace Sentences

open Json (Layout Value)
open Json.Reader (Reads Filled member)

/-! ## 1. Written lists and objects -/

theorem Json.writeItems_eq (l : Layout) (items : List Value) :
    Json.writeItems l items = items.map (Value.write l) := by
  induction items with
  | nil => rfl
  | cons v rest ih => rw [Json.writeItems, ih, List.map_cons]

theorem Json.write_array (l : Layout) (items : List Value) :
    (Value.array items).write l = l.enclose '[' ']' (items.map (Value.write l.deeper)) := by
  rw [Value.write, Json.writeItems_eq]

theorem Json.writeMembers_eq (l : Layout) (ms : List (Text × Value)) :
    Json.writeMembers l ms = ms.map fun m => Json.quoted m.1 ++ l.colon ++ m.2.write l := by
  induction ms with
  | nil => rfl
  | cons m rest ih => rw [Json.writeMembers, ih, List.map_cons]

theorem Json.write_object (l : Layout) (ms : List (Text × Value)) :
    (Value.object ms).write l =
      l.enclose '\x7b' '\x7d' ((ms.map fun m => (m.1, m.2.write l.deeper)).map (member l)) := by
  rw [Value.write, Json.writeMembers_eq, List.map_map]
  rfl

theorem Json.write_string (l : Layout) (t : Text) : (Value.string t).write l = Json.quoted t := by
  rw [Value.write]

namespace Json.Reader

variable {α β : Type}

/-- A read value may be made into another. -/
theorem Reads.bind_pure {r : Json.Reader α} {t : Text} {a : α} (h : Reads r t a) (f : α → β) :
    Reads (r >>= fun x => pure (f x)) t (f a) where
  starts := h.starts
  reads gap rest hg hr := bind_ok (h.reads gap rest hg hr)

/-- A key, after white space. -/
theorem key_run {gap : Text} (hg : Gap gap) (k t : Text) :
    key (gap ++ '"' :: (k.flatMap escape ++ '"' :: t)) = .ok (k, t) := by
  unfold key
  rw [bind_ok (mustGoOn_gap hg rfl _), if_pos rfl, bind_ok (advance_run _ _)]
  exact stringBody_run k t

/-- A list of values is read as it was written, when each is. -/
theorem array_reads {item : Json.Reader α} {toJson : α → Value} (l : Layout) (as : List α)
    (h : ∀ l : Layout, ∀ a ∈ as, Reads item ((toJson a).write l) a) :
    Reads (list item) ((Value.array (as.map toJson)).write l) as := by
  rw [write_array, List.map_map]
  exact list_reads l as (h l.deeper)

end Json.Reader

/-! ## 2. Symbols, productions, rules -/

theorem Symbol.ofKey?_terminalKey : Symbol.ofKey? terminalKey = some .terminal := rfl

theorem Symbol.ofKey?_nonterminalKey : Symbol.ofKey? nonterminalKey = some .nonterminal := rfl

/-- An object with one member, whose key announces the kind of symbol. -/
theorem Symbol.member_reads (l : Layout) {key : Text} {make : Text → Symbol}
    (hkey : Symbol.ofKey? key = some make) (text : Text) :
    Reads Symbol.reader (l.enclose '\x7b' '\x7d' [member l (key, Json.quoted text)])
      (make text) := by
  rw [Layout.enclose_eq]
  refine ⟨⟨'\x7b', _, rfl, rfl, by decide⟩, fun gap rest hg _ => ?_⟩
  have hended := Json.Reader.ended_part l (.inr rfl) [] rest
  have hkeyRun := Json.Reader.key_run l.deeper.newLine_gap key
    (l.deeper.colon ++ (Json.quoted text ++ (l.part '\x7d' false [] ++ rest)))
  have hclose : Json.Reader.close '\x7d' (l.part '\x7d' false [] ++ rest) = .ok ((), rest) := by
    rw [Layout.part, List.append_assoc]
    exact Json.Reader.close_gap l.newLine_gap rfl rest
  unfold Symbol.reader
  rw [List.cons_append, Json.Reader.bind_ok (Json.Reader.mustGoOn_gap hg rfl _)]
  refine (Json.Reader.bind_ok (Json.Reader.advance_run _ _)).trans ?_
  rw [Layout.part, List.append_assoc, List.append_assoc, Json.Reader.member_eq, List.cons_append,
    Json.Reader.memberRest_append, Json.Reader.bind_ok hkeyRun]
  simp only [hkey]
  rw [Json.Reader.colon_bind_run (Json.Reader.string_reads text) _ hended,
    Json.Reader.bind_ok hclose]
  rfl

theorem Symbol.reads (l : Layout) (s : Symbol) : Reads Symbol.reader (s.toJson.write l) s := by
  cases s with
  | terminal text =>
    rw [Symbol.toJson, Json.write_object]
    exact Symbol.member_reads l Symbol.ofKey?_terminalKey text
  | nonterminal name =>
    rw [Symbol.toJson, Json.write_object]
    exact Symbol.member_reads l Symbol.ofKey?_nonterminalKey name

theorem Production.reads (l : Layout) (p : Production) :
    Reads Production.reader (p.toJson.write l) p := by
  have hsymbols := Json.Reader.array_reads l.deeper p.symbols fun l s _ => Symbol.reads l s
  unfold Production.toJson
  rw [Json.write_object]
  exact Json.Reader.record_reads l (.cons rfl rfl (hsymbols.bind_pure some) (.nil _)) rfl

theorem Rule.reads (l : Layout) (r : Rule) : Reads Rule.reader (r.toJson.write l) r := by
  have hproductions :=
    Json.Reader.array_reads l.deeper r.productions fun l p _ => Production.reads l p
  unfold Rule.toJson
  rw [Json.write_object]
  exact Json.Reader.record_reads l (.cons rfl rfl (hproductions.bind_pure some) (.nil _)) rfl

/-! ## 3. Configurations -/

theorem Config.maxDepth_reads (l : Layout) (maxDepth : Option UInt64) :
    Reads Json.Reader.number? ((match maxDepth with
      | none => Value.null
      | some limit => .number limit.toNat).write l) maxDepth := by
  cases maxDepth with
  | none =>
    rw [Value.write]
    exact Json.Reader.number?_reads_null
  | some limit =>
    rw [Value.write]
    exact Json.Reader.number?_reads limit

theorem Config.reads (l : Layout) (c : Config) : Reads Config.reader (c.toJson.write l) c := by
  have hseparator := Json.Reader.string_reads c.separator
  have htrim := Json.Reader.bool_reads c.trim
  rw [← Json.write_string l.deeper] at hseparator
  have hbool : (Value.bool c.trim).write l.deeper = Json.ofBool c.trim := by rw [Value.write]
  rw [← hbool] at htrim
  unfold Config.toJson
  rw [Json.write_object]
  exact Json.Reader.record_reads l
    (.cons rfl rfl ((Config.maxDepth_reads l.deeper c.maxDepth).bind_pure _)
      (.cons rfl rfl (hseparator.bind_pure _) (.cons rfl rfl (htrim.bind_pure _) (.nil _)))) rfl

/-! ## 4. Documents -/

namespace Document

theorem rules_reads (l : Layout) (entries : List (Text × Rule)) :
    Reads (Json.Reader.dictionary Rule.reader)
      ((Value.object (entries.map fun e => (e.1, e.2.toJson))).write l) entries := by
  rw [Json.write_object, List.map_map, List.map_map]
  exact @Json.Reader.dictionary_reads _ Rule.reader (fun r => r.toJson.write l.deeper) l entries
    fun e _ => Rule.reads l.deeper e.2

/-- **A document is read as it was written**, with its rules in the order of the text. -/
theorem reads (l : Layout) (d : Document) : Reads reader (d.toJson.write l) d := by
  have hrules := rules_reads l.deeper d.rules
  have horder := Json.Reader.array_reads l.deeper d.order fun l name _ => by
    rw [Json.write_string]
    exact Json.Reader.string_reads name
  have hstart := Json.Reader.string_reads d.start
  rw [← Json.write_string l.deeper] at hstart
  have hconfig := Config.reads l.deeper d.config
  unfold toJson
  rw [Json.write_object]
  exact Json.Reader.record_reads l
    (.cons rfl rfl (hrules.bind_pure _) (.cons rfl rfl (horder.bind_pure _)
      (.cons rfl rfl (hstart.bind_pure _) (.cons rfl rfl (hconfig.bind_pure _) (.nil _))))) rfl

/-- The draft of the grammar that the draft of a document makes. -/
def Draft.grammar (d : Draft) : Grammar.Draft :=
  ⟨d.rules.map Grammar.tableOf, d.order, d.start, d.config⟩

theorem fields_correspond :
    List.Forall₂ (Json.Reader.RecordField.Corresponds Draft.grammar) fields Grammar.fields := by
  refine .cons ⟨rfl, fun d => Option.isSome_map, fun d => ?_⟩
    (.cons ⟨rfl, fun d => rfl, fun d => ?_⟩ (.cons ⟨rfl, fun d => rfl, fun d => ?_⟩
      (.cons ⟨rfl, fun d => rfl, fun d => ?_⟩ .nil)))
  all_goals
    simp only [map_bind, map_pure]
    rfl

end Document

/-- **A grammar is read where a document is**, and is the grammar of that document. -/
theorem Grammar.reader_eq : Grammar.reader = Document.grammar <$> Document.reader := by
  refine Json.Reader.record_map Document.fields_correspond (fun d => ?_) {}
  obtain ⟨_ | rules, _ | order, _ | start, config⟩ := d
  all_goals rfl

/-! ## 5. Grammars -/

namespace Grammar

/-- The JSON value of a grammar with its rules listed in a given order. -/
def toJsonListing (g : Grammar) (entries : List (Text × Rule)) : Value :=
  .object
    [(rulesKey, .object (entries.map fun e => (e.1, e.2.toJson))),
     (orderKey, .array (g.order.map .string)),
     (startKey, .string g.start),
     (configKey, g.config.toJson)]

theorem toJson_eq (g : Grammar) : g.toJson = g.toJsonListing g.rules.entries := rfl

theorem tableOf_eq (entries : List (Text × Rule)) :
    tableOf entries = Table.empty.writeAll entries := rfl

/-- Written with its rules in any order, a grammar is read as it was. -/
theorem reads (l : Layout) (g : Grammar) {entries : List (Text × Rule)}
    (h : entries.Perm g.rules.entries) : Reads reader ((g.toJsonListing entries).write l) g := by
  have hdocument := (Document.reads l ⟨entries, g.order, g.start, g.config⟩).bind_pure
    Document.grammar
  have hgrammar : Document.grammar ⟨entries, g.order, g.start, g.config⟩ = g := by
    unfold Document.grammar
    rw [tableOf_eq, Table.writeAll_eq_of_perm h]
  rw [bind_pure_comp, ← reader_eq, hgrammar] at hdocument
  exact hdocument

/-- **A reachable grammar comes back from its JSON text**, in every field, and so it does from a
    text that lists its rules in another order. -/
theorem ofJson_jsonText {g : Grammar} (h : g.Reachable) :
    Grammar.ofJson g.jsonText = .ok g ∧
      ∀ entries : List (Text × Rule), entries.Perm g.rules.entries →
        Grammar.ofJson (g.toJsonListing entries).indented = .ok g := by
  have hlisting : ∀ entries : List (Text × Rule), entries.Perm g.rules.entries →
      Grammar.ofJson (g.toJsonListing entries).indented = .ok g := by
    intro entries hperm
    have hread := (reads (.indented 0) g hperm).readAll
    unfold Grammar.ofJson
    rw [Value.indented, hread]
    exact congrArg Except.ok h.made.consistent.repaired
  refine ⟨?_, hlisting⟩
  rw [jsonText, toJson_eq]
  exact hlisting _ (.refl _)

/-- A grammar whose texts need every kind of escape, with the greatest depth limit. -/
def unusual : Grammar :=
  (ofRules [⟨"<😀\">".toList, "\\u<b>, \x01,".toList⟩, ⟨"a\t".toList, "<a,".toList⟩]).edited
    [.setConfig ⟨some 18446744073709551615, "\n\x07".toList, true⟩, .setStart "<<x>>".toList]

theorem ofJson_jsonText_unusual :
    unusual.Reachable ∧ Grammar.ofJson unusual.jsonText = .ok unusual := by
  have h : unusual.Reachable := ⟨.rules _, _, _, rfl, rfl⟩
  exact ⟨h, (ofJson_jsonText h).1⟩

end Grammar

end Sentences
