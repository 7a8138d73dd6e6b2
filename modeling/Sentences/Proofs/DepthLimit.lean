import Sentences.Proofs.Expansion

/-!
# What a depth limit does

A limit on the depth cuts an expansion short or leaves it as it is. The limit is looked at before
anything is drawn, so two expansions under different limits read the same draws until one of them
is cut.

* `Expands.loosen`: what a limit lets through is the same under every looser limit;
* `Expands.exists_need`: an expansion without a limit needs so much depth, at most one more than the
  draws that it takes; a limit that leaves this depth changes nothing, and any other cuts;
* `depthLimit_only_cuts`: the same of whole sentences.
-/

namespace Sentences.Grammar

/-! ## 1. Limits -/

/-- The grammar with another depth limit. -/
def withLimit (g : Grammar) (limit : Option UInt64) : Grammar :=
  { g with config := { g.config with maxDepth := limit } }

/-- The second limit is not below the first; no limit at all is above every limit. -/
def Looser (tight loose : Option UInt64) : Prop :=
  ∀ limit, loose = some limit → ∃ less, tight = some less ∧ less ≤ limit

/-- The expansion was cut at the depth limit. -/
def TooDeep {α : Type} (r : Except GenerationFault α) : Prop :=
  ∃ name limit, r = .error (.tooDeep name limit)

theorem tooDeep_map_iff {α β : Type} {r : Except GenerationFault α} {f : α → β} :
    TooDeep (r.map f) ↔ TooDeep r := by
  cases r with
  | error e => simp [TooDeep, Except.map]
  | ok a => simp [TooDeep, Except.map]

variable {g : Grammar} {draws : Draws}

theorem limitAt?_withLimit_of_lt {limit : UInt64} {depth : Nat} (h : depth < limit.toNat) :
    (g.withLimit (some limit)).config.limitAt? depth = none := by
  refine limitAt?_eq_none_iff.2 fun other ho => ?_
  cases ho
  exact h

theorem limitAt?_withLimit_of_le {limit : UInt64} {depth : Nat} (h : limit.toNat ≤ depth) :
    (g.withLimit (some limit)).config.limitAt? depth = some limit :=
  limitAt?_eq_some_iff.2 ⟨rfl, h⟩

/-- A depth below a limit is below every looser one. -/
theorem limitAt?_loosen {tight loose : Option UInt64} {depth : Nat} (hle : Looser tight loose)
    (h : (g.withLimit tight).config.limitAt? depth = none) :
    (g.withLimit loose).config.limitAt? depth = none := by
  rw [limitAt?_eq_none_iff] at h ⊢
  intro limit hlimit
  obtain ⟨less, hless, hle⟩ := hle limit hlimit
  exact Nat.lt_of_lt_of_le (h less hless) (UInt64.le_iff_toNat_le.1 hle)

/-! ## 2. Looser limits -/

/-- **What a limit lets through is the same under every looser limit**: the same alternatives are
    picked with the same draws. -/
theorem Expands.loosen {tight loose : Option UInt64} (hle : Looser tight loose)
    {depth pos stop : Nat} {ss : List Symbol} {r : Except GenerationFault (List Text)}
    (h : (g.withLimit tight).Expands draws depth ss pos r stop) (hr : ¬ TooDeep r) :
    (g.withLimit loose).Expands draws depth ss pos r stop := by
  induction h with
  | nil depth pos => exact .nil depth pos
  | terminal text _ ih => exact .terminal text (ih fun h => hr (tooDeep_map_iff.2 h))
  | undefined hname _ ih => exact .undefined hname (ih fun h => hr (tooDeep_map_iff.2 h))
  | tooDeep => exact absurd ⟨_, _, rfl⟩ hr
  | noAlternatives pos rest hname hlimit hrule =>
    exact .noAlternatives pos rest hname (limitAt?_loosen hle hlimit) hrule
  | failed rest hname hlimit hpick hp _ ih =>
    refine .failed rest hname (limitAt?_loosen hle hlimit) hpick hp (ih ?_)
    exact fun ⟨name, limit, he⟩ => hr ⟨name, limit, by rw [Except.error.inj he]⟩
  | node hname hlimit hpick hp _ _ ihInner ihLater =>
    refine .node hname (limitAt?_loosen hle hlimit) hpick hp (ihInner ?_) (ihLater ?_)
    · exact fun ⟨_, _, he⟩ => nomatch he
    · exact fun h => hr (tooDeep_map_iff.2 h)

/-! ## 3. The depth that an expansion needs -/

/-- Under the limit, the expansion is cut, and has read no further than to `stop`. -/
def CutBefore (g : Grammar) (draws : Draws) (limit : UInt64) (depth : Nat) (ss : List Symbol)
    (pos stop : Nat) : Prop :=
  ∃ name cut, cut ≤ stop ∧
    (g.withLimit (some limit)).Expands draws depth ss pos (.error (.tooDeep name limit)) cut

/-- The depth that an expansion to `r` needs: under a limit that leaves it the expansion comes to
    `r` too, and any other limit cuts it. -/
structure Needs (g : Grammar) (draws : Draws) (need depth : Nat) (ss : List Symbol) (pos : Nat)
    (r : Except GenerationFault (List Text)) (stop : Nat) : Prop where
  enough : ∀ limit : UInt64, need ≤ limit.toNat →
    (g.withLimit (some limit)).Expands draws depth ss pos r stop
  short : ∀ limit : UInt64, limit.toNat < need → g.CutBefore draws limit depth ss pos stop

namespace Needs

variable {name : Text} {rule : Rule} {p : Production} {i need depth pos mid stop : Nat}
  {rest : List Symbol}

theorem nil (g : Grammar) (draws : Draws) (depth pos : Nat) :
    g.Needs draws 0 depth [] pos (.ok []) pos where
  enough _ _ := .nil depth pos
  short _ h := absurd h (Nat.not_lt_zero _)

theorem terminal {r : Except GenerationFault (List Text)} (text : Text)
    (h : g.Needs draws need depth rest pos r stop) :
    g.Needs draws need depth (.terminal text :: rest) pos (r.map (text :: ·)) stop where
  enough limit hle := .terminal text (h.enough limit hle)
  short limit hlt := by
    obtain ⟨deep, cut, hcut, hexpands⟩ := h.short limit hlt
    exact ⟨deep, cut, hcut, .terminal text hexpands⟩

theorem undefined {r : Except GenerationFault (List Text)} (hname : g.rules.get? name = none)
    (h : g.Needs draws need depth rest pos r stop) :
    g.Needs draws need depth (.nonterminal name :: rest) pos (r.map (name.inBrackets :: ·))
      stop where
  enough limit hle := .undefined hname (h.enough limit hle)
  short limit hlt := by
    obtain ⟨deep, cut, hcut, hexpands⟩ := h.short limit hlt
    exact ⟨deep, cut, hcut, Expands.undefined (g := g.withLimit (some limit)) hname hexpands⟩

/-- A limit that a name with a rule has reached cuts at once. -/
theorem cut_of_le {limit : UInt64} (hname : g.rules.get? name = some rule) (rest : List Symbol)
    (hle : limit.toNat ≤ depth) (hstop : pos ≤ stop) :
    g.CutBefore draws limit depth (.nonterminal name :: rest) pos stop :=
  ⟨name, pos, hstop, .tooDeep pos rest hname (limitAt?_withLimit_of_le hle)⟩

theorem noAlternatives (hname : g.rules.get? name = some rule) (hrule : rule.productions = [])
    (pos : Nat) (rest : List Symbol) : g.Needs draws (depth + 1) depth (.nonterminal name :: rest)
      pos (.error (.noAlternatives name)) pos where
  enough _ hle := .noAlternatives pos rest hname (limitAt?_withLimit_of_lt hle) hrule
  short _ hlt := cut_of_le hname rest (Nat.le_of_lt_succ hlt) (Nat.le_refl pos)

theorem failed {e : GenerationFault} (hname : g.rules.get? name = some rule)
    (hpick : draws.Picks rule.productions.length pos i mid) (hp : rule.productions[i]? = some p)
    (rest : List Symbol) (hstop : pos ≤ stop)
    (h : g.Needs draws need (depth + 1) p.symbols mid (.error e) stop) :
    g.Needs draws (max (depth + 1) need) depth (.nonterminal name :: rest) pos (.error e) stop where
  enough limit hle := by
    have hlimit := limitAt?_withLimit_of_lt (g := g) (Nat.le_trans (Nat.le_max_left _ _) hle)
    exact .failed rest hname hlimit hpick hp (h.enough limit (by omega))
  short limit hlt := by
    by_cases hd : limit.toNat ≤ depth
    · exact cut_of_le hname rest hd hstop
    · have hlimit := limitAt?_withLimit_of_lt (g := g) (Nat.lt_of_not_le hd)
      obtain ⟨deep, cut, hcut, hexpands⟩ := h.short limit (by omega)
      exact ⟨deep, cut, hcut, .failed rest hname hlimit hpick hp hexpands⟩

theorem node {more after : Nat} {leaves : List Text} {r : Except GenerationFault (List Text)}
    (hname : g.rules.get? name = some rule) (hpick : draws.Picks rule.productions.length pos i mid)
    (hp : rule.productions[i]? = some p) (hpos : pos ≤ after) (hstop : after ≤ stop)
    (h : g.Needs draws need (depth + 1) p.symbols mid (.ok leaves) after)
    (hlater : g.Needs draws more depth rest after r stop) :
    g.Needs draws (max (depth + 1) (max need more)) depth (.nonterminal name :: rest) pos
      (r.map (leaves ++ ·)) stop where
  enough limit hle := by
    have hlimit := limitAt?_withLimit_of_lt (g := g) (Nat.le_trans (Nat.le_max_left _ _) hle)
    exact .node hname hlimit hpick hp (h.enough limit (by omega)) (hlater.enough limit (by omega))
  short limit hlt := by
    by_cases hd : limit.toNat ≤ depth
    · exact cut_of_le hname rest hd (Nat.le_trans hpos hstop)
    · have hlimit := limitAt?_withLimit_of_lt (g := g) (Nat.lt_of_not_le hd)
      -- it is cut in the alternative, or else behind it
      by_cases hi : limit.toNat < need
      · obtain ⟨deep, cut, hcut, hexpands⟩ := h.short limit hi
        exact ⟨deep, cut, Nat.le_trans hcut hstop, .failed rest hname hlimit hpick hp hexpands⟩
      · have hleaves := h.enough limit (Nat.le_of_not_lt hi)
        obtain ⟨deep, cut, hcut, hexpands⟩ := hlater.short limit (by omega)
        exact ⟨deep, cut, hcut,
          Expands.node (g := g.withLimit (some limit)) hname hlimit hpick hp hleaves hexpands⟩

end Needs

/-- **Every expansion without a limit needs some depth**, at most one more than the draws that it
    takes: each level down to where it is took a draw. -/
theorem Expands.exists_need {depth pos stop : Nat} {ss : List Symbol}
    {r : Except GenerationFault (List Text)}
    (h : (g.withLimit none).Expands draws depth ss pos r stop) :
    ∃ need, need + pos ≤ depth + stop + 1 ∧ g.Needs draws need depth ss pos r stop := by
  induction h with
  | nil depth pos => exact ⟨0, by omega, .nil g draws depth pos⟩
  | terminal text _ ih =>
    obtain ⟨need, hbound, hneed⟩ := ih
    exact ⟨need, hbound, hneed.terminal text⟩
  | undefined hname _ ih =>
    obtain ⟨need, hbound, hneed⟩ := ih
    exact ⟨need, hbound, hneed.undefined hname⟩
  | tooDeep _ _ _ hlimit => cases hlimit
  | @noAlternatives _ _ depth pos rest hname _ hrule =>
    exact ⟨depth + 1, by omega, Needs.noAlternatives (g := g) hname hrule pos rest⟩
  | @failed _ _ _ _ depth _ _ _ rest _ hname _ hpick hp inner ih =>
    obtain ⟨need, hbound, hneed⟩ := ih
    have hmid := hpick.pos_lt
    have hstop := inner.pos_le
    exact ⟨max (depth + 1) need, by omega,
      Needs.failed (g := g) hname hpick hp rest (by omega) hneed⟩
  | @node _ _ _ _ depth _ _ _ _ rest _ _ hname _ hpick hp inner later ihInner ihLater =>
    obtain ⟨need, hbound, hneed⟩ := ihInner
    obtain ⟨more, hmore, hlater⟩ := ihLater
    have hmid := hpick.pos_lt
    have hafter := inner.pos_le
    have hstop := later.pos_le
    exact ⟨max (depth + 1) (max need more), by omega,
      Needs.node (g := g) hname hpick hp (by omega) hstop hneed hlater⟩

/-! ## 4. Sentences -/

variable {start : Text} {pos stop : Nat} {r : Except GenerationFault Text}

theorem returns_withLimit_iff (hs : g.has start = true) (limit : Option UInt64) :
    (g.withLimit limit).Returns draws start pos r stop ↔
      ∃ r', (g.withLimit limit).Expands draws 0 [.nonterminal start.bareName] pos r' stop ∧
        r = r'.map g.config.sentence :=
  returns_iff_of_has (g := g.withLimit limit) hs

/-- The sentence of a start without a rule is the same under all limits. -/
theorem returns_withLimit_of_not_has (hs : g.has start = false) {limit : Option UInt64}
    (h : (g.withLimit limit).Returns draws start pos r stop) (other : Option UInt64) :
    (g.withLimit other).Returns draws start pos r stop :=
  (returns_iff_of_not_has (g := g.withLimit other) hs).2
    ((returns_iff_of_not_has (g := g.withLimit limit) hs).1 h)

theorem Returns.loosen {tight loose : Option UInt64} (hle : Looser tight loose)
    (h : (g.withLimit tight).Returns draws start pos r stop) (hr : ¬ TooDeep r) :
    (g.withLimit loose).Returns draws start pos r stop := by
  cases hs : g.has start with
  | false => exact returns_withLimit_of_not_has hs h loose
  | true =>
    obtain ⟨r', hexpands, rfl⟩ := (returns_withLimit_iff hs tight).1 h
    have hr' : ¬ TooDeep r' := fun h => hr (tooDeep_map_iff.2 h)
    exact (returns_withLimit_iff hs loose).2 ⟨r', hexpands.loosen hle hr', rfl⟩

theorem Returns.exists_need (h : (g.withLimit none).Returns draws start pos r stop) :
    ∃ need, need ≤ stop - pos + 1 ∧ ∀ limit : UInt64,
      (need ≤ limit.toNat → (g.withLimit (some limit)).Returns draws start pos r stop) ∧
      (limit.toNat < need → ∃ name cut, cut ≤ stop ∧
        (g.withLimit (some limit)).Returns draws start pos (.error (.tooDeep name limit)) cut) := by
  cases hs : g.has start with
  | false =>
    refine ⟨0, Nat.zero_le _, fun limit => ⟨fun _ => ?_, fun h => absurd h (Nat.not_lt_zero _)⟩⟩
    exact returns_withLimit_of_not_has hs h (some limit)
  | true =>
    obtain ⟨r', hexpands, rfl⟩ := (returns_withLimit_iff hs none).1 h
    obtain ⟨need, hbound, hneed⟩ := hexpands.exists_need
    refine ⟨need, by omega, fun limit => ⟨fun hle => ?_, fun hlt => ?_⟩⟩
    · exact (returns_withLimit_iff hs _).2 ⟨r', hneed.enough limit hle, rfl⟩
    · obtain ⟨name, cut, hcut, hshort⟩ := hneed.short limit hlt
      exact ⟨name, cut, hcut, (returns_withLimit_iff hs _).2 ⟨_, hshort, rfl⟩⟩

/-- **A depth limit only cuts.** A result that is no cut is the same, with the same draws, under
    every looser limit. And a sentence that comes to an end without a limit needs some depth, at
    most one more than the draws that it takes: with a limit of that depth or more its result and
    its draws are the same, and with any other it is cut no later than where it would end. So
    unless it takes 2 ^ 64 - 1 draws there is a limit of 64 bits from which on nothing changes. -/
theorem depthLimit_only_cuts (g : Grammar) (draws : Draws) (start : Text) {pos stop : Nat}
    {r : Except GenerationFault Text} :
    (∀ tight loose, Looser tight loose → (g.withLimit tight).Returns draws start pos r stop →
      ¬ TooDeep r → (g.withLimit loose).Returns draws start pos r stop) ∧
    ((g.withLimit none).Returns draws start pos r stop →
      (∃ need, need ≤ stop - pos + 1 ∧ ∀ limit : UInt64,
        (need ≤ limit.toNat → (g.withLimit (some limit)).Returns draws start pos r stop) ∧
        (limit.toNat < need → ∃ name cut, cut ≤ stop ∧
          (g.withLimit (some limit)).Returns draws start pos (.error (.tooDeep name limit)) cut)) ∧
      (stop - pos + 1 < UInt64.size → ∃ least : UInt64, ∀ limit, least ≤ limit →
        (g.withLimit (some limit)).Returns draws start pos r stop)) := by
  refine ⟨fun _ _ hle h hr => h.loosen hle hr, fun h => ?_⟩
  obtain ⟨need, hbound, hneed⟩ := h.exists_need
  refine ⟨⟨need, hbound, hneed⟩, fun hdraws => ⟨.ofNat need, fun limit hle => ?_⟩⟩
  have hword : (UInt64.ofNat need).toNat = need :=
    UInt64.toNat_ofNat_of_lt' (Nat.lt_of_le_of_lt hbound hdraws)
  rw [UInt64.le_iff_toNat_le, hword] at hle
  exact (hneed limit).1 hle

/-- A rule that refers to itself and to a rule without alternatives. -/
def bottomless : Grammar where
  rules := (Table.empty.insert "s".toList
    ⟨[⟨[.terminal "a".toList, .nonterminal "s".toList]⟩, ⟨[.nonterminal "e".toList]⟩]⟩).insert
      "e".toList ⟨[]⟩
  order := ["s".toList, "e".toList]

/-- The first alternative, and in it the second: the rule without alternatives is at depth two. -/
def bottomlessDraws : Draws :=
  .ofList [Draws.drawFor 2 0, Draws.drawFor 2 1]

/-- Three levels are enough for the failure to show, and two are not. -/
theorem depthLimit_only_cuts_bottomless :
    Looser (some 3) none ∧
    (bottomless.withLimit (some 3)).Returns bottomlessDraws "s".toList 0
      (.error (.noAlternatives "e".toList)) 2 ∧
    ¬ TooDeep (.error (.noAlternatives "e".toList) : Except GenerationFault Text) ∧
    (bottomless.withLimit none).Returns bottomlessDraws "s".toList 0
      (.error (.noAlternatives "e".toList)) 2 ∧
    (bottomless.withLimit (some 2)).Returns bottomlessDraws "s".toList 0
      (.error (.tooDeep "e".toList 2)) 2 ∧
    2 - 0 + 1 < UInt64.size ∧
    ∃ least : UInt64, ∀ limit, least ≤ limit →
      (bottomless.withLimit (some limit)).Returns bottomlessDraws "s".toList 0
        (.error (.noAlternatives "e".toList)) 2 := by
  have hloose : Looser (some 3) none := fun _ h => nomatch h
  have hthree : (bottomless.withLimit (some 3)).Returns bottomlessDraws "s".toList 0
      (.error (.noAlternatives "e".toList)) 2 := ⟨4, rfl⟩
  have htwo : (bottomless.withLimit (some 2)).Returns bottomlessDraws "s".toList 0
      (.error (.tooDeep "e".toList 2)) 2 := ⟨4, rfl⟩
  have hno : ¬ TooDeep (.error (.noAlternatives "e".toList) : Except GenerationFault Text) := by
    rintro ⟨_, _, he⟩
    cases he
  have hsmall : 2 - 0 + 1 < UInt64.size := by decide
  obtain ⟨hloosen, hneed⟩ := depthLimit_only_cuts bottomless bottomlessDraws "s".toList
  have hnone := hloosen _ _ hloose hthree hno
  exact ⟨hloose, hthree, hno, hnone, htwo, hsmall, (hneed hnone).2 hsmall⟩

end Sentences.Grammar
