import Sentences.Proofs.Expansion

/-!
# Derivation trees

A derivation tree of a symbol is valid by construction: a node holds an alternative of the rule of
its name and, in order, one tree for each symbol of it; a terminal and a name without a rule are
leaves.

* `Expands.exists_forest`: what symbols expand to without a failure are the leaves of trees, nested
  no deeper than the limit leaves room for;
* `Forest.exists_script`: a script of draws, one for each node, makes any such trees;
* `exists_script_iff_exists_tree`: the sentences of a start are the yields of the trees that the
  limit admits.
-/

namespace Sentences.Grammar

/-! ## 1. Trees -/

mutual

/-- A derivation tree of a symbol. -/
inductive Tree (g : Grammar) : Symbol → Type where
  | terminal (text : Text) : Tree g (.terminal text)
  | undefined (name : Text) (hname : g.rules.get? name = none) : Tree g (.nonterminal name)
  | node {name : Text} {rule : Rule} {p : Production} (hname : g.rules.get? name = some rule)
      (hp : p ∈ rule.productions) (children : Forest g p.symbols) : Tree g (.nonterminal name)

/-- A derivation tree for each symbol of a list. -/
inductive Forest (g : Grammar) : List Symbol → Type where
  | nil : Forest g []
  | cons {s : Symbol} {rest : List Symbol} (first : Tree g s) (others : Forest g rest) :
      Forest g (s :: rest)

end

variable {g : Grammar}

mutual

/-- The texts of the leaves, from left to right. -/
def Tree.leaves : {s : Symbol} → g.Tree s → List Text
  | _, .terminal text => [text]
  | _, .undefined name _ => [name.inBrackets]
  | _, .node _ _ children => children.leaves

def Forest.leaves : {ss : List Symbol} → g.Forest ss → List Text
  | _, .nil => []
  | _, .cons first others => first.leaves ++ others.leaves

end

mutual

/-- The greatest number of nodes on a path from the root. -/
def Tree.nesting : {s : Symbol} → g.Tree s → Nat
  | _, .terminal _ => 0
  | _, .undefined _ _ => 0
  | _, .node _ _ children => children.nesting + 1

def Forest.nesting : {ss : List Symbol} → g.Forest ss → Nat
  | _, .nil => 0
  | _, .cons first others => max first.nesting others.nesting

end

/-- The leaves side by side, the separator after each. -/
def Tree.yield {s : Symbol} (t : g.Tree s) : Text :=
  t.leaves.flatMap (· ++ g.config.separator)

/-! ## 2. Depth limits -/

/-- Below a depth there is room for so much nesting. -/
def Admits (g : Grammar) (depth nesting : Nat) : Prop :=
  ∀ limit, g.config.maxDepth = some limit → nesting ≤ limit.toNat - depth

/-- Whatever nests less has room too. -/
theorem Admits.mono {depth nesting bound : Nat} (h : g.Admits depth bound) (hle : nesting ≤ bound) :
    g.Admits depth nesting :=
  fun limit hl => Nat.le_trans hle (h limit hl)

/-- There is room for a node when its depth is below the limit and its children have room. -/
theorem admits_succ_iff {depth nesting : Nat} :
    g.Admits depth (nesting + 1) ↔
      g.config.limitAt? depth = none ∧ g.Admits (depth + 1) nesting := by
  rw [limitAt?_eq_none_iff]
  unfold Admits
  constructor
  · intro h
    refine ⟨fun limit hl => ?_, fun limit hl => ?_⟩
    · have := h limit hl
      omega
    · have := h limit hl
      omega
  · intro h limit hl
    have hroom := h.1 limit hl
    have := h.2 limit hl
    omega

theorem admits_max_iff {depth m n : Nat} :
    g.Admits depth (max m n) ↔ g.Admits depth m ∧ g.Admits depth n := by
  unfold Admits
  constructor
  · intro h
    refine ⟨fun limit hl => ?_, fun limit hl => ?_⟩
    · have := h limit hl
      omega
    · have := h limit hl
      omega
  · intro h limit hl
    have := h.1 limit hl
    have := h.2 limit hl
    omega

/-! ## 3. From expansions to trees -/

/-- The leaves that symbols expand to are those of trees for which there is room. -/
theorem Expands.exists_forest {draws : Draws} {depth pos stop : Nat} {ss : List Symbol}
    {r : Except GenerationFault (List Text)} (h : g.Expands draws depth ss pos r stop)
    (leaves : List Text) (hr : r = .ok leaves) :
    ∃ f : g.Forest ss, f.leaves = leaves ∧ g.Admits depth f.nesting := by
  induction h generalizing leaves with
  | nil depth pos =>
    cases hr
    exact ⟨.nil, rfl, fun limit _ => Nat.zero_le _⟩
  | terminal text _ ih =>
    obtain ⟨xs, hxs, rfl⟩ := map_eq_ok_iff.1 hr
    obtain ⟨f, hf, hroom⟩ := ih xs hxs
    refine ⟨.cons (.terminal text) f, by rw [← hf]; rfl, ?_⟩
    exact admits_max_iff.2 ⟨fun limit _ => Nat.zero_le _, hroom⟩
  | @undefined name _ _ _ _ _ hname _ ih =>
    obtain ⟨xs, hxs, rfl⟩ := map_eq_ok_iff.1 hr
    obtain ⟨f, hf, hroom⟩ := ih xs hxs
    refine ⟨.cons (.undefined name hname) f, by rw [← hf]; rfl, ?_⟩
    exact admits_max_iff.2 ⟨fun limit _ => Nat.zero_le _, hroom⟩
  | tooDeep => cases hr
  | noAlternatives => cases hr
  | failed => cases hr
  | @node name rule p _ _ _ _ _ _ _ inner _ hname hlimit _ hp _ _ ihInner ihLater =>
    obtain ⟨xs, hxs, rfl⟩ := map_eq_ok_iff.1 hr
    obtain ⟨children, hchildren, hdeep⟩ := ihInner inner rfl
    obtain ⟨others, hothers, hroom⟩ := ihLater xs hxs
    refine ⟨.cons (.node hname (List.mem_of_getElem? hp) children) others, ?_, ?_⟩
    · rw [← hchildren, ← hothers]
      rfl
    · exact admits_max_iff.2 ⟨admits_succ_iff.2 ⟨hlimit, hdeep⟩, hroom⟩

/-- Trees for a list of one symbol are a tree for that symbol. -/
theorem Forest.exists_tree {s : Symbol} (f : g.Forest [s]) :
    ∃ t : g.Tree s, t.leaves = f.leaves ∧ t.nesting ≤ f.nesting := by
  cases f with
  | cons first others =>
    cases others
    exact ⟨first, (List.append_nil _).symm, Nat.le_max_left _ _⟩

/-! ## 4. From trees to draws -/

/-- Every alternative of every rule can be picked by a draw. -/
def Pickable (g : Grammar) : Prop :=
  ∀ name rule, g.rules.get? name = some rule → rule.productions.length < UInt64.size

mutual

/-- Some script makes a tree, whatever comes after it. -/
theorem Tree.exists_script (hg : g.Pickable) : ∀ {s : Symbol} (t : g.Tree s) (depth : Nat),
    g.Admits depth t.nesting → ∃ script : List UInt64, ∀ (draws : Draws) (pos stop : Nat)
      (rest : List Symbol) (r : Except GenerationFault (List Text)), draws.Follows pos script →
        g.Expands draws depth rest (pos + script.length) r stop →
          g.Expands draws depth (s :: rest) pos (r.map (t.leaves ++ ·)) stop
  | _, .terminal text, _, _ =>
    ⟨[], fun _ _ _ _ _ _ later => .terminal text later⟩
  | _, .undefined _ hname, _, _ =>
    ⟨[], fun _ _ _ _ _ _ later => .undefined hname later⟩
  | _, @Tree.node _ name rule _ hname hp children, depth, hroom => by
    obtain ⟨hlimit, hdeep⟩ := admits_succ_iff.1 hroom
    obtain ⟨script, hscript⟩ := children.exists_script hg (depth + 1) hdeep
    obtain ⟨i, hi⟩ := List.mem_iff_getElem?.1 hp
    obtain ⟨hlt, _⟩ := List.getElem?_eq_some_iff.1 hi
    refine ⟨Draws.drawFor rule.productions.length i :: script, ?_⟩
    intro draws pos stop rest r hdraws later
    have hpick := Draws.picks_drawFor hlt (hg name rule hname) hdraws.1
    have inner := hscript draws (pos + 1) hdraws.2
    refine .node hname hlimit hpick hi inner ?_
    rwa [List.length_cons, Nat.add_comm script.length, ← Nat.add_assoc] at later

theorem Forest.exists_script (hg : g.Pickable) : ∀ {ss : List Symbol} (f : g.Forest ss)
    (depth : Nat), g.Admits depth f.nesting → ∃ script : List UInt64, ∀ (draws : Draws) (pos : Nat),
      draws.Follows pos script → g.Expands draws depth ss pos (.ok f.leaves) (pos + script.length)
  | _, .nil, depth, _ => ⟨[], fun _ pos _ => .nil depth pos⟩
  | _, .cons first others, depth, hroom => by
    obtain ⟨hfirst, hothers⟩ := admits_max_iff.1 hroom
    obtain ⟨script, hscript⟩ := first.exists_script hg depth hfirst
    obtain ⟨more, hmore⟩ := others.exists_script hg depth hothers
    refine ⟨script ++ more, fun draws pos hdraws => ?_⟩
    obtain ⟨hs, hm⟩ := Draws.follows_append.1 hdraws
    have later := hmore draws (pos + script.length) hm
    rw [Nat.add_assoc, ← List.length_append] at later
    exact hscript draws pos _ _ _ hs later

end

/-- **The sentences of a start are the yields of its trees.** With some script of draws a start that
    has a rule comes to a text if and only if a derivation tree, nested no deeper than the limit,
    yields it, trimmed if so configured. -/
theorem exists_script_iff_exists_tree (hg : g.Pickable) {start : Text} (hs : g.has start = true)
    (t : Text) :
    (∃ script stop, g.Returns (.ofList script) start 0 (.ok t) stop) ↔
      ∃ tree : g.Tree (.nonterminal start.bareName),
        (∀ limit, g.config.maxDepth = some limit → tree.nesting ≤ limit.toNat) ∧
          (if g.config.trim then tree.yield.trim else tree.yield) = t := by
  constructor
  · intro ⟨script, stop, h⟩
    obtain ⟨r, hr, ht⟩ := (returns_iff_of_has hs).1 h
    obtain ⟨leaves, rfl, rfl⟩ := map_eq_ok_iff.1 ht.symm
    obtain ⟨f, hf, hroom⟩ := hr.exists_forest leaves rfl
    obtain ⟨tree, htree, hle⟩ := f.exists_tree
    refine ⟨tree, fun limit hl => Nat.le_trans hle (hroom limit hl), ?_⟩
    rw [Tree.yield, htree, hf]
    rfl
  · intro ⟨tree, hroom, ht⟩
    obtain ⟨script, hscript⟩ := tree.exists_script hg 0 hroom
    have h := hscript (.ofList script) 0 _ [] _ (Draws.ofList_follows script) (.nil 0 _)
    refine ⟨script, _, (returns_iff_of_has hs).2 ⟨_, h, ?_⟩⟩
    rw [← ht, Tree.yield]
    simp [Except.map, Config.sentence]

/-- A rule that refers to itself and to a name without a rule, under a limit of two. -/
def selfReference : Grammar where
  rules := Table.empty.insert "s".toList
    ⟨[⟨[.terminal "a".toList, .nonterminal "s".toList]⟩, ⟨[.nonterminal "t".toList]⟩]⟩
  order := ["s".toList]
  start := "s".toList
  config := { maxDepth := some 2, trim := true }

theorem selfReference_pickable : selfReference.Pickable := by
  intro name rule h
  rw [selfReference, Table.get?_insert] at h
  split at h
  · cases h
    decide
  · cases h

/-- The first alternative, and in it the second. -/
def selfReferenceTree : selfReference.Tree (.nonterminal "s".toList) :=
  @Tree.node _ _ _ ⟨[.terminal "a".toList, .nonterminal "s".toList]⟩ rfl (by decide)
    (.cons (.terminal _) (.cons
      (@Tree.node _ _ _ ⟨[.nonterminal "t".toList]⟩ rfl (by decide)
        (.cons (.undefined _ rfl) .nil))
      .nil))

/-- The tree nests as deep as the limit allows, and its sentence can be drawn. -/
theorem selfReference_returns :
    selfReference.Pickable ∧ selfReference.has "<s>".toList = true ∧
      ∃ script stop, selfReference.Returns (.ofList script) "<s>".toList 0
        (.ok "a <t>".toList) stop := by
  refine ⟨selfReference_pickable, by decide, ?_⟩
  refine (exists_script_iff_exists_tree selfReference_pickable (by decide) _).2
    ⟨selfReferenceTree, ?_, by decide⟩
  intro limit hl
  cases hl
  decide

end Sentences.Grammar
