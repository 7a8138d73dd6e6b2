import Sentences.Proofs.Listing
import Sentences.Proofs.StoredStart

/-!
# Rules given in no particular order

A grammar may be made from rules that come in an order of chance, each for another name. The order
is kept as the order of definition, and shows where that does: in the listing of the names that the
starter grammar does not have. Look-ups and sentences do not depend on it.

* `rules_ofRules_of_perm`: the rules of a grammar are the same whatever order they come in;
* `order_ofRules`: the order of definition is the order they come in;
* `names_ofRules`: in a listing it shows behind the names of the starter grammar only;
* `ofRules_of_perm`: what is the same and what is not.
-/

namespace Sentences

/-- The names that assignments give rules to, as bare names. -/
def Assignment.bareNames (as : List Assignment) : List Text :=
  as.map fun a => a.name.bareName

/-- Those among them that the starter grammar does not have. -/
def Assignment.otherNames (as : List Assignment) : List Text :=
  (bareNames as).filter fun name => !Starter.names.contains name

namespace Grammar

variable {as bs : List Assignment}

/-! ## 1. Rules and their order -/

/-- **The rules of a grammar are the same whatever order they come in.** -/
theorem rules_ofRules_of_perm (h : as.Perm bs) (hnames : (Assignment.bareNames as).Nodup) :
    (ofRules as).rules = (ofRules bs).rules := by
  have hwrites : (as.map fun a => (a.name.bareName, Rule.ofText a.text)).Perm
      (bs.map fun a => (a.name.bareName, Rule.ofText a.text)) := h.map _
  have hkeys : ((as.map fun a => (a.name.bareName, Rule.ofText a.text)).map (·.1)).Nodup := by
    rw [List.map_map]
    exact hnames
  unfold ofRules
  rw [setRules_eq_record, setRules_eq_record]
  show Table.empty.writeAll _ = Table.empty.writeAll _
  rw [List.map_map, List.map_map]
  exact Table.writeAll_comm .empty hwrites hkeys

/-- **The order of definition is the order in which they come.** -/
theorem order_ofRules (hnames : (Assignment.bareNames as).Nodup) :
    (ofRules as).order = Assignment.bareNames as := by
  have hnew : ((as.map Assignment.write).map (·.1)).filter
      (fun name => !empty.rules.contains name) = Assignment.bareNames as := by
    rw [List.map_map]
    exact List.filter_eq_self.2 fun _ _ => rfl
  unfold ofRules
  rw [setRules_eq_record]
  show [] ++ List.eraseDups _ = _
  rw [hnew, List.nil_append, Occurrences.eraseDups_of_nodup hnames]

theorem ofRules_eq_iff_of_perm (h : as.Perm bs) (hnames : (Assignment.bareNames as).Nodup) :
    ofRules as = ofRules bs ↔ Assignment.bareNames as = Assignment.bareNames bs := by
  have hbs : (Assignment.bareNames bs).Nodup := (h.map _).nodup_iff.1 hnames
  rw [← order_ofRules hnames, ← order_ofRules hbs]
  constructor
  · exact congrArg Grammar.order
  · intro horder
    refine eq_of_parts (rules_ofRules_of_perm h hnames) horder ?_ ?_
    · exact (start_setRules empty as).trans (start_setRules empty bs).symm
    · exact (config_setRules empty as).trans (config_setRules empty bs).symm

/-! ## 2. Listings -/

/-- **The order shows behind the names of the starter grammar only.** -/
theorem names_ofRules (hnames : (Assignment.bareNames as).Nodup) : (ofRules as).names =
    (Starter.names.filter fun name => (Assignment.bareNames as).contains name) ++
      Assignment.otherNames as := by
  have hempty : Made False empty := .empty
  have hconsistent : Consistent (ofRules as) := (hempty.setRules as).consistent
  rw [hconsistent.names_eq, order_ofRules hnames]
  rfl

theorem otherNames_eq_nil (h : ∀ a ∈ as, a.name.bareName ∈ Starter.names) :
    Assignment.otherNames as = [] := by
  refine List.filter_eq_nil_iff.2 fun name hname => ?_
  obtain ⟨a, ha, rfl⟩ := List.mem_map.1 hname
  simp [h a ha]

/-- The same rules listed in the same order look the same. -/
theorem display_congr {g h : Grammar} (hrules : g.rules = h.rules) (hnames : g.names = h.names) :
    g.display = h.display := by
  unfold display displayLine
  rw [hrules, hnames]

/-- **What depends on the order of the rules and what does not.** Rules for different names that
    come in another order make a grammar with the same rules, which generates the same from every
    start with every configuration and source. The grammars are equal only if the names come in the
    same order. Their listings have the same names: those of the starter grammar in front, in the
    same order, and behind them the others as they come. So if there are no others, the listings are
    the same. -/
theorem ofRules_of_perm (h : as.Perm bs) (hnames : (Assignment.bareNames as).Nodup) :
    (∀ spelling, (ofRules as).rule? spelling = (ofRules bs).rule? spelling) ∧
    (∀ config draws fuel start, ((ofRules as).setConfig config).generate draws fuel start =
      ((ofRules bs).setConfig config).generate draws fuel start) ∧
    (ofRules as = ofRules bs ↔ Assignment.bareNames as = Assignment.bareNames bs) ∧
    (ofRules as).names.Perm (ofRules bs).names ∧
    (∃ leading : List Text, (∀ name ∈ leading, name ∈ Starter.names) ∧
      (ofRules as).names = leading ++ Assignment.otherNames as ∧
      (ofRules bs).names = leading ++ Assignment.otherNames bs) ∧
    ((∀ a ∈ as, a.name.bareName ∈ Starter.names) →
      (ofRules as).names = (ofRules bs).names ∧ (ofRules as).display = (ofRules bs).display) := by
  have hperm : (Assignment.bareNames as).Perm (Assignment.bareNames bs) := h.map _
  have hbs : (Assignment.bareNames bs).Nodup := hperm.nodup_iff.1 hnames
  have hrules := rules_ofRules_of_perm h hnames
  have hleading : (Starter.names.filter fun name => (Assignment.bareNames bs).contains name) =
      Starter.names.filter fun name => (Assignment.bareNames as).contains name := by
    refine List.filter_congr fun name _ => ?_
    rw [Bool.eq_iff_iff, List.contains_iff_mem, List.contains_iff_mem, hperm.mem_iff]
  have has := names_ofRules hnames
  have hother := names_ofRules hbs
  rw [hleading] at hother
  refine ⟨fun spelling => ?_, fun config draws fuel start => ?_, ofRules_eq_iff_of_perm h hnames,
    ?_, ⟨_, fun name hname => (List.mem_filter.1 hname).1, has, hother⟩, fun hall => ?_⟩
  · unfold rule?
    rw [hrules]
  · exact generate_congr (g := (ofRules as).setConfig config) (h := (ofRules bs).setConfig config)
      hrules rfl draws fuel start
  · rw [has, hother]
    exact (List.Perm.refl _).append (hperm.filter _)
  · have hsame : (ofRules as).names = (ofRules bs).names := by
      rw [has, hother, otherNames_eq_nil hall,
        otherNames_eq_nil fun a ha => hall a (h.mem_iff.2 ha)]
    exact ⟨hsame, display_congr hrules hsame⟩

/-- Rules for two names of the starter grammar and two others. -/
def scattered : List Assignment :=
  [⟨"z".toList, "1, <noun>".toList⟩, ⟨"<noun>".toList, "cat".toList⟩,
   ⟨" a ".toList, "<z>,".toList⟩, ⟨"start".toList, "<a><z>".toList⟩]

theorem ofRules_of_perm_scattered :
    scattered.Perm scattered.reverse ∧ (Assignment.bareNames scattered).Nodup ∧
    (∀ draws fuel, ((ofRules scattered).setConfig {}).generate draws fuel "start".toList =
      ((ofRules scattered.reverse).setConfig {}).generate draws fuel "start".toList) ∧
    ofRules scattered ≠ ofRules scattered.reverse ∧
    (ofRules scattered).names = ["start", "noun", "z", "a"].map String.toList ∧
    (ofRules scattered.reverse).names = ["start", "noun", "a", "z"].map String.toList ∧
    (∀ a ∈ [scattered[1], scattered[3]], a.name.bareName ∈ Starter.names) ∧
    (ofRules [scattered[1], scattered[3]]).display =
      (ofRules [scattered[3], scattered[1]]).display := by
  have hperm : scattered.Perm scattered.reverse := scattered.reverse_perm.symm
  have hnames : (Assignment.bareNames scattered).Nodup := by decide +kernel
  obtain ⟨-, hgenerate, hequal, -, -, -⟩ := ofRules_of_perm hperm hnames
  have htwo : [scattered[1], scattered[3]].Perm [scattered[3], scattered[1]] := .swap _ _ _
  obtain ⟨-, -, -, -, -, hsame⟩ := ofRules_of_perm htwo (by decide +kernel)
  have hall : ∀ a ∈ [scattered[1], scattered[3]], a.name.bareName ∈ Starter.names := by
    decide +kernel
  refine ⟨hperm, hnames, fun draws fuel => hgenerate {} draws fuel _, fun heq => ?_, ?_, ?_, hall,
    (hsame hall).2⟩
  · have hsequence := hequal.1 heq
    revert hsequence
    decide +kernel
  · decide +kernel
  · decide +kernel

end Grammar

end Sentences
