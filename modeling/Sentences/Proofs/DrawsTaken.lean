import Sentences.Draws.Seeded
import Sentences.Proofs.SentenceStream

/-!
# What a run reads of its source

How many draws a run takes is settled by the draws themselves: by those that are passed over, by the
alternatives that are picked, by a failure that ends a sentence early. Yet no draw behind them is
looked at. Wherever the draws that a run has taken come again, in another source or at another
place, the run comes again and takes the same number of draws.

* `Draws.Spans`: what a source has between two positions, as a list;
* `Draws.Decide`: the draws between two positions decide on a run. Picks (`Picks.decide`), expanded
  symbols (`Expands.decide`), sentences (`Returns.decide`) and sentences one after another
  (`Successive.decide`) are decided in this way, failures included;
* `Grammar.ReturnsAll`: what as many sentences as wanted come to, without fuel;
* `Grammar.run_depends_on_draws_taken`: what they come to, and how many draws they take, is the same
  along every source that agrees on the draws taken.
-/

namespace Sentences

namespace Draws

variable {draws other : Draws} {pos mid stop k : Nat} {script rest : List UInt64}

/-! ## 1. Draws between two positions -/

/-- From the first position to the second, the source has the draws of a script. -/
def Spans (draws : Draws) (pos stop : Nat) (script : List UInt64) : Prop :=
  draws.Follows pos script ∧ stop = pos + script.length

theorem spans_nil_iff : draws.Spans pos stop [] ↔ stop = pos :=
  ⟨And.right, fun h => ⟨trivial, h⟩⟩

theorem spans_singleton_iff {v : UInt64} :
    draws.Spans pos stop [v] ↔ draws pos = v ∧ stop = pos + 1 :=
  ⟨fun ⟨⟨hv, _⟩, hstop⟩ => ⟨hv, hstop⟩, fun ⟨hv, hstop⟩ => ⟨⟨hv, trivial⟩, hstop⟩⟩

theorem spans_append_iff :
    draws.Spans pos stop (script ++ rest) ↔
      ∃ mid, draws.Spans pos mid script ∧ draws.Spans mid stop rest := by
  unfold Spans
  rw [follows_append, List.length_append, ← Nat.add_assoc]
  constructor
  · rintro ⟨⟨hscript, hrest⟩, hstop⟩
    exact ⟨_, ⟨hscript, rfl⟩, hrest, hstop⟩
  · rintro ⟨_, ⟨hscript, rfl⟩, hrest, hstop⟩
    exact ⟨⟨hscript, hrest⟩, hstop⟩

/-- The next `k` draws from a position on. -/
def taken (draws : Draws) : Nat → Nat → List UInt64
  | _, 0 => []
  | pos, k + 1 => draws pos :: draws.taken (pos + 1) k

@[simp] theorem length_taken : (draws.taken pos k).length = k := by
  induction k generalizing pos with
  | zero => rfl
  | succ k ih => rw [taken, List.length_cons, ih]

theorem follows_taken : draws.Follows pos (draws.taken pos k) := by
  induction k generalizing pos with
  | zero => trivial
  | succ k ih => exact ⟨rfl, ih⟩

/-- What a source has between two positions are the draws taken from the one to the other. -/
theorem Spans.eq_taken (h : draws.Spans pos stop script) :
    script = draws.taken pos script.length := by
  obtain ⟨hfollows, -⟩ := h
  induction script generalizing pos with
  | nil => rfl
  | cons v rest ih =>
    obtain ⟨rfl, hrest⟩ := hfollows
    rw [List.length_cons, taken, ← ih hrest]

/-- Two sources have the same draws, each at its own place. -/
theorem taken_eq_taken_iff {pos' : Nat} :
    other.taken pos' k = draws.taken pos k ↔ ∀ i < k, other (pos' + i) = draws (pos + i) := by
  induction k generalizing pos pos' with
  | zero => simp [taken]
  | succ k ih =>
    rw [taken, taken, List.cons.injEq, ih, Nat.forall_lt_succ_left]
    simp only [Nat.add_zero, Nat.add_assoc, Nat.add_comm 1]

/-! ## 2. Runs that their draws decide on -/

/-- The draws between two positions decide that a run goes from the one to the other: wherever they
    come again, it goes from their beginning to their end. -/
def Decide (draws : Draws) (run : Draws → Nat → Nat → Prop) (pos stop : Nat) : Prop :=
  ∃ script, draws.Spans pos stop script ∧
    ∀ other pos' stop', Spans other pos' stop' script → run other pos' stop'

namespace Decide

variable {run later whole : Draws → Nat → Nat → Prop}

/-- A run without draws is decided by none. -/
theorem of_stays (h : ∀ other pos', run other pos' pos') : draws.Decide run pos pos := by
  refine ⟨[], spans_nil_iff.2 rfl, fun other pos' stop' hspans => ?_⟩
  rw [spans_nil_iff.1 hspans]
  exact h other pos'

/-- A run that reads one draw is decided by this one. -/
theorem of_reads (h : ∀ other pos', other pos' = draws pos → run other pos' (pos' + 1)) :
    draws.Decide run pos (pos + 1) := by
  refine ⟨[draws pos], spans_singleton_iff.2 ⟨rfl, rfl⟩, fun other pos' stop' hspans => ?_⟩
  obtain ⟨hv, rfl⟩ := spans_singleton_iff.1 hspans
  exact h other pos' hv

/-- What is read by a part of a run and then by the rest of it decides on the whole. -/
theorem append (hrun : draws.Decide run pos mid) (hlater : draws.Decide later mid stop)
    (h : ∀ other pos' mid' stop', run other pos' mid' → later other mid' stop' →
      whole other pos' stop') : draws.Decide whole pos stop := by
  obtain ⟨script, hscript, hrun⟩ := hrun
  obtain ⟨rest, hrest, hlater⟩ := hlater
  refine ⟨script ++ rest, spans_append_iff.2 ⟨mid, hscript, hrest⟩,
    fun other pos' stop' hspans => ?_⟩
  obtain ⟨mid', hscript', hrest'⟩ := spans_append_iff.1 hspans
  exact h other pos' mid' stop' (hrun _ _ _ hscript') (hlater _ _ _ hrest')

theorem imp (hrun : draws.Decide run pos stop)
    (h : ∀ other pos' stop', run other pos' stop' → whole other pos' stop') :
    draws.Decide whole pos stop := by
  obtain ⟨script, hscript, hrun⟩ := hrun
  exact ⟨script, hscript, fun _ _ _ hspans => h _ _ _ (hrun _ _ _ hspans)⟩

/-- A run that its draws decide on goes along every source that has these draws, and takes as many
    of them. -/
theorem exists_forall_agree (h : draws.Decide run pos stop) :
    ∃ k, stop = pos + k ∧ ∀ other pos', (∀ i < k, other (pos' + i) = draws (pos + i)) →
      run other pos' (pos' + k) := by
  obtain ⟨script, hscript, hrun⟩ := h
  refine ⟨script.length, hscript.2, fun other pos' hagree => hrun other pos' _ ⟨?_, rfl⟩⟩
  rw [hscript.eq_taken, ← taken_eq_taken_iff.2 hagree]
  exact follows_taken

end Decide

/-- A pick is decided by the draws that it passes over and the one that counts. -/
theorem Picks.decide {n i next : Nat} (h : draws.Picks n pos i next) :
    draws.Decide (fun other pos' next' => other.Picks n pos' i next') pos next := by
  induction h with
  | counted hcounts =>
    refine .of_reads fun other pos' hv => ?_
    rw [← hv] at hcounts ⊢
    exact .counted hcounts
  | @passed pos i next hpassed _ ih =>
    -- the draw that is passed over is read first, then those of the pick from the next one on
    have hfirst : draws.Decide (fun other pos' next' => counts n (other pos') = false ∧
        next' = pos' + 1) pos (pos + 1) :=
      .of_reads fun other pos' hv => ⟨hv ▸ hpassed, rfl⟩
    refine hfirst.append ih fun other pos' mid' next' hpassed' hlater => ?_
    obtain ⟨hcounts, rfl⟩ := hpassed'
    exact .passed hcounts hlater

end Draws

namespace Grammar

variable {g : Grammar} {draws : Draws} {start : Text} {pos stop : Nat}

/-! ## 3. Sentences -/

/-- **An expansion is decided by the draws that it takes**, also one that fails. -/
theorem Expands.decide {depth : Nat} {ss : List Symbol} {r : Except GenerationFault (List Text)}
    (h : g.Expands draws depth ss pos r stop) :
    draws.Decide (fun other pos' stop' => g.Expands other depth ss pos' r stop') pos stop := by
  induction h with
  | nil depth => exact .of_stays fun _ pos' => .nil depth pos'
  | terminal text _ ih => exact ih.imp fun _ _ _ hlater => .terminal text hlater
  | undefined hname _ ih => exact ih.imp fun _ _ _ hlater => .undefined hname hlater
  | tooDeep _ rest hname hlimit => exact .of_stays fun _ pos' => .tooDeep pos' rest hname hlimit
  | noAlternatives _ rest hname hlimit hrule =>
    exact .of_stays fun _ pos' => .noAlternatives pos' rest hname hlimit hrule
  | failed rest hname hlimit hpick hp _ ih =>
    exact hpick.decide.append ih fun _ _ _ _ hpick' hinner' =>
      .failed rest hname hlimit hpick' hp hinner'
  | @node name rule p i depth pos mid after stop rest leaves r hname hlimit hpick hp _ _ ihInner
      ihLater =>
    have hbehind : draws.Decide (fun other mid' stop' => ∃ after',
        g.Expands other (depth + 1) p.symbols mid' (.ok leaves) after' ∧
          g.Expands other depth rest after' r stop') mid stop :=
      ihInner.append ihLater fun _ _ after' _ hinner' hlater' => ⟨after', hinner', hlater'⟩
    exact hpick.decide.append hbehind fun _ _ _ _ hpick' ⟨_, hinner', hlater'⟩ =>
      .node hname hlimit hpick' hp hinner' hlater'

/-- A sentence is decided by the draws that it takes. -/
theorem Returns.decide {r : Except GenerationFault Text} (h : g.Returns draws start pos r stop) :
    draws.Decide (fun other pos' stop' => g.Returns other start pos' r stop') pos stop := by
  cases hs : g.has start with
  | false =>
    obtain ⟨hr, rfl⟩ := (returns_iff_of_not_has hs).1 h
    exact .of_stays fun _ _ => (returns_iff_of_not_has hs).2 ⟨hr, rfl⟩
  | true =>
    obtain ⟨r', hexpands, hr⟩ := (returns_iff_of_has hs).1 h
    exact hexpands.decide.imp fun _ _ _ hexpands' => (returns_iff_of_has hs).2 ⟨r', hexpands', hr⟩

/-- Sentences one after another are decided by the draws that they take together. A failure leaves
    its draws read, and the next sentence goes on behind them. -/
theorem Successive.decide {results : List (Except GenerationFault Text)}
    (h : g.Successive draws start pos results stop) :
    draws.Decide (fun other pos' stop' => g.Successive other start pos' results stop')
      pos stop := by
  induction h with
  | nil => exact .of_stays fun _ pos' => .nil pos'
  | cons hfirst _ ih =>
    exact hfirst.decide.append ih fun _ _ _ _ hfirst' hlater' => .cons hfirst' hlater'

/-! ## 4. As many sentences as wanted -/

/-- Along the draws from a position, so many sentences of a start come to these results, and the
    next draw is at `stop`. -/
def ReturnsAll (g : Grammar) (draws : Draws) (start : Text) (count pos : Nat)
    (results : List (Except GenerationFault Text)) (stop : Nat) : Prop :=
  ∃ fuel, g.generateAll draws fuel start count pos = some (results, stop)

theorem generateAll_succ_eq_some_iff {fuel count : Nat}
    {results : List (Except GenerationFault Text)} :
    g.generateAll draws fuel start (count + 1) pos = some (results, stop) ↔
      ∃ r next rest, g.generate draws fuel start pos = some (r, next) ∧
        g.generateAll draws fuel start count next = some (rest, stop) ∧ results = r :: rest := by
  rw [generateAll]
  rcases hfirst : g.generate draws fuel start pos with _ | ⟨r, next⟩
  · simp
  · constructor
    · intro h
      obtain ⟨⟨rest, _⟩, hrest, he⟩ := Option.map_eq_some_iff.1 h
      cases he
      exact ⟨r, next, rest, rfl, hrest, rfl⟩
    · rintro ⟨_, _, rest, he, hrest, rfl⟩
      cases he
      exact Option.map_eq_some_iff.2 ⟨_, hrest, rfl⟩

/-- More fuel never changes the results. -/
theorem generateAll_mono {fuel count : Nat} (more : Nat)
    {results : List (Except GenerationFault Text)}
    (h : g.generateAll draws fuel start count pos = some (results, stop)) :
    g.generateAll draws (fuel + more) start count pos = some (results, stop) := by
  induction count generalizing pos results with
  | zero => exact h
  | succ count ih =>
    obtain ⟨r, next, rest, hfirst, hrest, rfl⟩ := generateAll_succ_eq_some_iff.1 h
    have hfirst' := generate_extends g draws start fuel more pos _ hfirst
    exact generateAll_succ_eq_some_iff.2 ⟨r, next, rest, hfirst', ih hrest, rfl⟩

/-- So many sentences come to as many successive results. -/
theorem returnsAll_iff_successive {count : Nat} {results : List (Except GenerationFault Text)} :
    g.ReturnsAll draws start count pos results stop ↔
      g.Successive draws start pos results stop ∧ results.length = count := by
  constructor
  · rintro ⟨fuel, h⟩
    induction count generalizing pos results with
    | zero =>
      cases h
      exact ⟨.nil _, rfl⟩
    | succ count ih =>
      obtain ⟨r, next, rest, hfirst, hrest, rfl⟩ := generateAll_succ_eq_some_iff.1 h
      obtain ⟨hlater, hlength⟩ := ih hrest
      exact ⟨.cons ⟨fuel, hfirst⟩ hlater, by rw [List.length_cons, hlength]⟩
  · rintro ⟨h, rfl⟩
    induction h with
    | nil pos => exact ⟨0, rfl⟩
    | @cons pos next stop r rest hfirst _ ih =>
      obtain ⟨fuel, hfirst⟩ := hfirst
      obtain ⟨more, hrest⟩ := ih
      have hfirst' := generate_extends g draws start fuel more pos _ hfirst
      have hrest' := generateAll_mono fuel hrest
      rw [Nat.add_comm] at hrest'
      exact ⟨fuel + more, generateAll_succ_eq_some_iff.2 ⟨_, _, _, hfirst', hrest', rfl⟩⟩

/-- So many sentences come to one list of results only, whatever the fuel. -/
theorem ReturnsAll.unique {count stop' : Nat}
    {results results' : List (Except GenerationFault Text)}
    (h : g.ReturnsAll draws start count pos results stop)
    (h' : g.ReturnsAll draws start count pos results' stop') :
    results' = results ∧ stop' = stop := by
  obtain ⟨fuel, hf⟩ := h
  obtain ⟨more, hm⟩ := h'
  have hsum := generateAll_mono more hf
  rw [Nat.add_comm, generateAll_mono fuel hm] at hsum
  exact Prod.mk.inj (Option.some.inj hsum)

/-- So many sentences are decided by the draws that they take. -/
theorem ReturnsAll.decide {count : Nat} {results : List (Except GenerationFault Text)}
    (h : g.ReturnsAll draws start count pos results stop) :
    draws.Decide (fun other pos' stop' => g.ReturnsAll other start count pos' results stop')
      pos stop := by
  obtain ⟨hsuccessive, hlength⟩ := returnsAll_iff_successive.1 h
  exact hsuccessive.decide.imp fun _ _ _ hsuccessive' =>
    returnsAll_iff_successive.2 ⟨hsuccessive', hlength⟩

/-- **A run depends only on the draws that it takes.** If so many sentences take `k` draws of a
    source, then along any other source that has the same `k` draws, the same results come out, each
    sentence or failure in its place, and `k` draws are taken. The list of these `k` draws is such a
    source. -/
theorem run_depends_on_draws_taken {count : Nat} {results : List (Except GenerationFault Text)}
    (h : g.ReturnsAll draws start count pos results stop) :
    ∃ k, stop = pos + k ∧
      (∀ other : Draws, ∀ pos', (∀ i < k, other (pos' + i) = draws (pos + i)) →
        ∀ results' stop', g.ReturnsAll other start count pos' results' stop' ↔
          results' = results ∧ stop' = pos' + k) ∧
      ∀ results' stop', g.ReturnsAll (.ofList (draws.taken pos k)) start count 0 results' stop' ↔
        results' = results ∧ stop' = k := by
  obtain ⟨k, hstop, hagain⟩ := h.decide.exists_forall_agree
  have hiff : ∀ other : Draws, ∀ pos', (∀ i < k, other (pos' + i) = draws (pos + i)) →
      ∀ results' stop', g.ReturnsAll other start count pos' results' stop' ↔
        results' = results ∧ stop' = pos' + k := by
    intro other pos' hagree results' stop'
    have hother := hagain other pos' hagree
    constructor
    · exact fun h' => hother.unique h'
    · rintro ⟨rfl, rfl⟩
      exact hother
  refine ⟨k, hstop, hiff, fun results' stop' => ?_⟩
  have hlist : (Draws.ofList (draws.taken pos k)).Spans 0 (0 + (draws.taken pos k).length)
      (draws.taken pos k) := ⟨Draws.ofList_follows _, rfl⟩
  have htaken := hlist.eq_taken
  rw [Draws.length_taken] at htaken
  rw [hiff _ 0 (Draws.taken_eq_taken_iff.1 htaken.symm), Nat.zero_add]

-- a run is evaluated by comparing results
deriving instance DecidableEq for Except

/-- A rule with two alternatives, one of which always fails. -/
def stumbling : Grammar :=
  .ofRules [⟨"s".toList, "a,<e>".toList⟩, ⟨"e".toList, []⟩]

/-- What two sentences of it come to, with the draws of seed 0: the first draw picks what fails, the
    second is passed over. -/
def stumblingResults : List (Except GenerationFault Text) :=
  [.error (.noAlternatives "e".toList), .ok "a ".toList]

theorem run_depends_on_draws_taken_stumbling :
    stumbling.ReturnsAll (.ofSeed 0) "s".toList 2 0 stumblingResults 3 ∧
      (∀ other : Draws, ∀ pos', (∀ i < 3, other (pos' + i) = Draws.ofSeed 0 (0 + i)) →
        ∀ results stop, stumbling.ReturnsAll other "s".toList 2 pos' results stop ↔
          results = stumblingResults ∧ stop = pos' + 3) ∧
      ∀ results stop,
        stumbling.ReturnsAll (.ofList ((Draws.ofSeed 0).taken 0 3)) "s".toList 2 0 results stop ↔
          results = stumblingResults ∧ stop = 3 := by
  have h : stumbling.ReturnsAll (.ofSeed 0) "s".toList 2 0 stumblingResults 3 :=
    ⟨3, by decide +kernel⟩
  obtain ⟨k, hk, hother, hlist⟩ := run_depends_on_draws_taken h
  obtain rfl : 3 = k := by rw [hk, Nat.zero_add]
  exact ⟨h, hother, hlist⟩

end Grammar

end Sentences
