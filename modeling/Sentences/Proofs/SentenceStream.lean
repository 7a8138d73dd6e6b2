import Sentences.CommandLine.Run
import Sentences.Proofs.Expansion

/-!
# Output as a stream of sentences

A run of the program writes sentence after sentence, all drawn from one source, until it has as many
as were asked for or one fails. To ask for more sentences makes the output longer and changes
nothing of what was written before.

* `Grammar.Successive`: the results of generating again and again from one source;
* `Grammar.generateUntilFailure_successive`: what is written are the first of these results;
* `Grammar.generateUntilFailure_stream`: fewer sentences are the beginning of more, and a failure
  among them ends both;
* `CommandLine.Ends.stream`, `CommandLine.Ends.of_failure`: the same of two runs of the program that
  differ in the count only;
* `CommandLine.Ends.reports`: what a run reports are these results, up to the first failure.
-/

namespace Sentences

namespace Grammar

/-! ## 1. One result after another -/

/-- The results of generating from a start again and again, each time with the draws from where the
    time before has stopped. -/
inductive Successive (g : Grammar) (draws : Draws) (start : Text) :
    Nat → List (Except GenerationFault Text) → Nat → Prop where
  | nil (pos : Nat) : Successive g draws start pos [] pos
  | cons {pos next stop : Nat} {r : Except GenerationFault Text}
      {rest : List (Except GenerationFault Text)} (h : g.Returns draws start pos r next)
      (later : Successive g draws start next rest stop) :
      Successive g draws start pos (r :: rest) stop

variable {g : Grammar} {draws : Draws} {start : Text} {fuel pos count : Nat} {texts : List Text}
  {cause? : Option GenerationFault}

/-- A first sentence is generated; where it fails the run ends, else the others follow. -/
theorem generateUntilFailure_succ_eq_some_iff :
    g.generateUntilFailure draws fuel start (count + 1) pos = some (texts, cause?) ↔
      (∃ cause stop, g.generate draws fuel start pos = some (.error cause, stop) ∧
        texts = [] ∧ cause? = some cause) ∨
      ∃ text next rest, g.generate draws fuel start pos = some (.ok text, next) ∧
        g.generateUntilFailure draws fuel start count next = some (rest, cause?) ∧
        texts = text :: rest := by
  rw [generateUntilFailure]
  rcases hfirst : g.generate draws fuel start pos with _ | ⟨cause | text, next⟩
  · simp
  · simp [eq_comm]
  · constructor
    · intro h
      obtain ⟨⟨rest, _⟩, hrest, he⟩ := Option.map_eq_some_iff.1 h
      cases he
      exact .inr ⟨text, next, rest, rfl, hrest, rfl⟩
    · rintro (⟨_, _, he, -⟩ | ⟨_, _, rest, he, hrest, rfl⟩)
      · cases he
      · cases he
        exact Option.map_eq_some_iff.2 ⟨_, hrest, rfl⟩

/-- A first sentence that fails, whatever the fuel with which it does, leaves nothing to write. -/
theorem generateUntilFailure_succ_of_error {cause : GenerationFault} {stop : Nat}
    (hfirst : g.Returns draws start pos (.error cause) stop)
    (h : g.generateUntilFailure draws fuel start (count + 1) pos = some (texts, cause?)) :
    texts = [] ∧ cause? = some cause := by
  rcases generateUntilFailure_succ_eq_some_iff.1 h with ⟨other, _, hr, rfl, rfl⟩ | ⟨_, _, _, hr, -⟩
  · cases (hfirst.unique ⟨fuel, hr⟩).1
    exact ⟨rfl, rfl⟩
  · cases (hfirst.unique ⟨fuel, hr⟩).1

/-- A first sentence that is generated is written, and the others after it. -/
theorem generateUntilFailure_succ_of_ok {text : Text} {next : Nat}
    (hfirst : g.Returns draws start pos (.ok text) next)
    (h : g.generateUntilFailure draws fuel start (count + 1) pos = some (texts, cause?)) :
    ∃ rest, g.generateUntilFailure draws fuel start count next = some (rest, cause?) ∧
      texts = text :: rest := by
  rcases generateUntilFailure_succ_eq_some_iff.1 h with ⟨_, _, hr, -⟩ | ⟨_, _, rest, hr, hrest, rfl⟩
  · cases (hfirst.unique ⟨fuel, hr⟩).1
  · obtain ⟨he, rfl⟩ := hfirst.unique ⟨fuel, hr⟩
    exact ⟨rest, hrest, by rw [Except.ok.inj he]⟩

/-- **What is written are the first of the successive results**, all of them up to the count or up
    to the first failure. -/
theorem generateUntilFailure_successive
    (h : g.generateUntilFailure draws fuel start count pos = some (texts, cause?)) :
    ∃ stop, g.Successive draws start pos (texts.map .ok ++ cause?.toList.map .error) stop ∧
      texts.length + cause?.toList.length ≤ count ∧ (cause? = none → texts.length = count) := by
  induction count generalizing pos texts with
  | zero =>
    cases h
    exact ⟨pos, .nil pos, Nat.le_refl _, fun _ => rfl⟩
  | succ count ih =>
    rcases generateUntilFailure_succ_eq_some_iff.1 h with ⟨cause, stop, hfirst, rfl, rfl⟩ |
      ⟨text, next, rest, hfirst, hrest, rfl⟩
    · exact ⟨stop, .cons ⟨fuel, hfirst⟩ (.nil stop), Nat.le_add_left 1 count, fun he => nomatch he⟩
    · obtain ⟨stop, hsuccessive, hle, hall⟩ := ih hrest
      refine ⟨stop, .cons ⟨fuel, hfirst⟩ hsuccessive, ?_, fun he => ?_⟩
      · rw [List.length_cons]
        omega
      · rw [List.length_cons, hall he]

/-- Once a sentence has failed it does not matter how many more were asked for. -/
theorem generateUntilFailure_of_failure {more : Nat} {cause : GenerationFault}
    (h : g.generateUntilFailure draws fuel start count pos = some (texts, some cause))
    (hle : count ≤ more) :
    g.generateUntilFailure draws fuel start more pos = some (texts, some cause) := by
  induction count generalizing pos texts more with
  | zero => cases h
  | succ count ih =>
    obtain ⟨more, rfl⟩ := Nat.exists_eq_add_of_le' hle
    rw [← Nat.add_assoc] at hle ⊢
    rcases generateUntilFailure_succ_eq_some_iff.1 h with ⟨_, stop, hfirst, rfl, hcause⟩ |
      ⟨text, next, rest, hfirst, hrest, rfl⟩
    · exact generateUntilFailure_succ_eq_some_iff.2 (.inl ⟨_, stop, hfirst, rfl, hcause⟩)
    · have hmore := ih hrest (Nat.le_of_succ_le_succ hle)
      exact generateUntilFailure_succ_eq_some_iff.2 (.inr ⟨text, next, rest, hfirst, hmore, rfl⟩)

/-- **Fewer sentences are the beginning of more**, whatever the fuel of the two, and if one of the
    fewer fails, there are no more. -/
theorem generateUntilFailure_stream {fuel' more : Nat} {others : List Text}
    {other? : Option GenerationFault}
    (h : g.generateUntilFailure draws fuel start count pos = some (texts, cause?))
    (h' : g.generateUntilFailure draws fuel' start more pos = some (others, other?))
    (hle : count ≤ more) :
    texts <+: others ∧ (cause? ≠ none → others = texts ∧ other? = cause?) := by
  induction count generalizing pos texts others more with
  | zero =>
    cases h
    exact ⟨List.nil_prefix, fun hne => absurd rfl hne⟩
  | succ count ih =>
    obtain ⟨more, rfl⟩ := Nat.exists_eq_add_of_le' hle
    rw [← Nat.add_assoc] at h' hle
    rcases generateUntilFailure_succ_eq_some_iff.1 h with ⟨cause, stop, hfirst, rfl, rfl⟩ |
      ⟨text, next, rest, hfirst, hrest, rfl⟩
    · obtain ⟨rfl, rfl⟩ := generateUntilFailure_succ_of_error ⟨fuel, hfirst⟩ h'
      exact ⟨List.prefix_refl _, fun _ => ⟨rfl, rfl⟩⟩
    · obtain ⟨rest', hrest', rfl⟩ := generateUntilFailure_succ_of_ok ⟨fuel, hfirst⟩ h'
      obtain ⟨hbegins, hfailed⟩ := ih hrest hrest' (Nat.le_of_succ_le_succ hle)
      refine ⟨List.cons_prefix_cons.2 ⟨rfl, hbegins⟩, fun hne => ?_⟩
      obtain ⟨hsame, hcause⟩ := hfailed hne
      exact ⟨by rw [hsame], hcause⟩

end Grammar

/-! ## 2. Reports -/

namespace CommandLine

/-- A run of the program comes to an end, with a report. -/
def Ends (files : Text → FileContents) (entropy : UInt64) (arguments : List Text)
    (report : Report) : Prop :=
  ∃ fuel, run files entropy fuel arguments = some report

/-- The report of generating so many sentences of a grammar one after another: each on a line, all
    of them or those before the first failure, which is then reported too. -/
inductive Reports (g : Grammar) (draws : Draws) (count : Nat) : Report → Prop where
  | all {texts : List Text} {stop : Nat} (hlength : texts.length = count)
      (h : g.Successive draws g.start 0 (texts.map .ok) stop) :
      Reports g draws count { output := texts.flatMap line }
  | failed {texts : List Text} {cause : GenerationFault} {stop : Nat}
      (hlength : texts.length < count)
      (h : g.Successive draws g.start 0 (texts.map .ok ++ [.error cause]) stop) :
      Reports g draws count (.failed (texts.flatMap line) (.generation cause))

/-- The report of a run whose sentences are at hand, and the failure after them if there is one. -/
def Report.ofSentences (texts : List Text) : Option GenerationFault → Report
  | none => { output := texts.flatMap line }
  | some cause => .failed (texts.flatMap line) (.generation cause)

theorem generateReport_eq_some_iff {g : Grammar} {draws : Draws} {fuel count : Nat}
    {report : Report} : generateReport g draws fuel count = some report ↔
      ∃ texts cause?, g.generateUntilFailure draws fuel g.start count 0 = some (texts, cause?) ∧
        report = .ofSentences texts cause? := by
  unfold generateReport
  rw [Option.map_eq_some_iff]
  constructor
  · rintro ⟨⟨texts, _ | cause⟩, h, rfl⟩
    · exact ⟨texts, none, h, rfl⟩
    · exact ⟨texts, some cause, h, rfl⟩
  · rintro ⟨texts, _ | cause, h, rfl⟩
    · exact ⟨_, h, rfl⟩
    · exact ⟨_, h, rfl⟩

/-- A run that is to generate sentences fails to load its grammar, or writes sentences of it. -/
theorem ends_generate_iff {files : Text → FileContents} {entropy seed : UInt64} {a : Arguments}
    {arguments : List Text} {report : Report}
    (hargs : Request.ofArguments arguments = .run a .generate) (hseed : a.seed = some seed) :
    Ends files entropy arguments report ↔
      (∃ cause, a.load files = .error cause ∧ report = .failed [] cause) ∨
      ∃ g fuel texts cause?, a.load files = .ok g ∧ report = .ofSentences texts cause? ∧
        g.generateUntilFailure (.ofSeed seed) fuel g.start (a.count.getD 1).toNat 0 =
          some (texts, cause?) := by
  unfold Ends run
  rw [hargs]
  simp only [perform, hseed, Option.getD_some]
  cases hload : a.load files with
  | error cause => simp [eq_comm]
  | ok g =>
    simp only [generateReport_eq_some_iff, reduceCtorEq, false_and, exists_false, false_or,
      Except.ok.injEq]
    constructor
    · rintro ⟨fuel, texts, cause?, h, hreport⟩
      exact ⟨g, fuel, texts, cause?, rfl, hreport, h⟩
    · rintro ⟨_, fuel, texts, cause?, rfl, hreport, h⟩
      exact ⟨fuel, texts, cause?, h, hreport⟩

theorem Report.output_ofSentences (texts : List Text) (cause? : Option GenerationFault) :
    (Report.ofSentences texts cause?).output = texts.flatMap line := by
  cases cause? <;> rfl

theorem Report.status_ofSentences {texts : List Text} {cause? : Option GenerationFault}
    (h : (Report.ofSentences texts cause?).status = 1) : ∃ cause, cause? = some cause := by
  cases cause? with
  | none => cases h
  | some cause => exact ⟨cause, rfl⟩

/-- The grammar does not depend on how many sentences are wanted. -/
theorem load_withCount (a : Arguments) (count : Option UInt64) (files : Text → FileContents) :
    Arguments.load { a with count } files = a.load files := rfl

section Counts

variable {files : Text → FileContents} {a : Arguments} {seed : UInt64} {count : Option UInt64}
  {fewer more : List Text} {entropy entropy' : UInt64} {few many : Report}

/-- **The output of fewer sentences is the beginning of the output of more**, and a failure among
    the fewer is reported in the same way by both. -/
theorem Ends.stream (hfewer : Request.ofArguments fewer = .run a .generate)
    (hmore : Request.ofArguments more = .run { a with count } .generate)
    (hseed : a.seed = some seed) (hle : a.count.getD 1 ≤ count.getD 1)
    (hfew : Ends files entropy fewer few) (hmany : Ends files entropy' more many) :
    few.output <+: many.output ∧ (few.status = 1 → many = few) := by
  rw [ends_generate_iff hfewer hseed] at hfew
  rw [ends_generate_iff hmore hseed, load_withCount] at hmany
  rcases hfew with ⟨cause, hload, rfl⟩ | ⟨g, fuel, texts, cause?, hload, rfl, htexts⟩
  · rcases hmany with ⟨cause', hload', rfl⟩ | ⟨g, _, _, _, hload', -⟩
    · cases hload.symm.trans hload'
      exact ⟨List.prefix_refl _, fun _ => rfl⟩
    · cases hload.symm.trans hload'
  · rcases hmany with ⟨_, hload', -⟩ | ⟨g, fuel', others, other?, hload', rfl, hothers⟩
    · cases hload.symm.trans hload'
    · cases hload.symm.trans hload'
      obtain ⟨⟨rest, rfl⟩, hfailed⟩ :=
        Grammar.generateUntilFailure_stream htexts hothers (UInt64.le_iff_toNat_le.1 hle)
      rw [Report.output_ofSentences, Report.output_ofSentences, List.flatMap_append]
      refine ⟨List.prefix_append _ _, fun hstatus => ?_⟩
      obtain ⟨cause, rfl⟩ := Report.status_ofSentences hstatus
      obtain ⟨hsame, hcause⟩ := hfailed (by simp)
      rw [hsame, hcause]

/-- **A run that fails comes to the same end when more sentences are asked for.** -/
theorem Ends.of_failure (hfewer : Request.ofArguments fewer = .run a .generate)
    (hmore : Request.ofArguments more = .run { a with count } .generate)
    (hseed : a.seed = some seed) (hle : a.count.getD 1 ≤ count.getD 1)
    (hfew : Ends files entropy fewer few) (hstatus : few.status = 1) :
    Ends files entropy' more few := by
  rw [ends_generate_iff hfewer hseed] at hfew
  rw [ends_generate_iff hmore hseed, load_withCount]
  rcases hfew with ⟨cause, hload, hreport⟩ | ⟨g, fuel, texts, cause?, hload, rfl, htexts⟩
  · exact .inl ⟨cause, hload, hreport⟩
  · obtain ⟨cause, rfl⟩ := Report.status_ofSentences hstatus
    refine .inr ⟨g, fuel, texts, some cause, hload, rfl, ?_⟩
    exact Grammar.generateUntilFailure_of_failure htexts (UInt64.le_iff_toNat_le.1 hle)

/-- **What a run reports are the successive sentences of its grammar.** -/
theorem Ends.reports {g : Grammar} (hfewer : Request.ofArguments fewer = .run a .generate)
    (hseed : a.seed = some seed) (hload : a.load files = .ok g)
    (hfew : Ends files entropy fewer few) :
    Reports g (.ofSeed seed) (a.count.getD 1).toNat few := by
  rcases (ends_generate_iff hfewer hseed).1 hfew with ⟨_, hload', -⟩ |
    ⟨_, fuel, texts, cause?, hload', rfl, htexts⟩
  · cases hload.symm.trans hload'
  · cases hload.symm.trans hload'
    obtain ⟨stop, hsuccessive, hle, hall⟩ := Grammar.generateUntilFailure_successive htexts
    cases cause? with
    | none =>
      rw [Option.toList_none, List.map_nil, List.append_nil] at hsuccessive
      exact .all (hall rfl) hsuccessive
    | some cause => exact .failed hle hsuccessive

/-- **Output is a stream of sentences.** Of two runs with the same seed and the same options but
    for the count, the one that asks for fewer sentences writes the beginning of what the other
    writes, and if it fails the other comes to the same end. What it reports are the sentences
    generated one after another from the draws of the seed. -/
theorem output_stream (hfewer : Request.ofArguments fewer = .run a .generate)
    (hmore : Request.ofArguments more = .run { a with count } .generate)
    (hseed : a.seed = some seed) (hle : a.count.getD 1 ≤ count.getD 1)
    (hfew : Ends files entropy fewer few) :
    (∀ entropy' many, Ends files entropy' more many →
      few.output <+: many.output ∧ (few.status = 1 → many = few)) ∧
    (few.status = 1 → ∀ entropy', Ends files entropy' more few) ∧
    ∀ g, a.load files = .ok g → Reports g (.ofSeed seed) (a.count.getD 1).toNat few :=
  ⟨fun _ _ hmany => hfew.stream hfewer hmore hseed hle hmany,
    fun hstatus _ => hfew.of_failure hfewer hmore hseed hle hstatus,
    fun _ hload => hfew.reports hfewer hseed hload⟩

end Counts

/-- No file is there. -/
def noFiles : Text → FileContents :=
  fun _ => .error .notFound

/-- Options for so many sentences of a rule that has one alternative which always fails. -/
def fragile (count : UInt64) : Arguments where
  noDefaults := true
  rules := ["s = a,<e>".toList, "e =".toList]
  start := some "s".toList
  count := some count
  seed := some 121

/-- The arguments for these options. -/
def fragileArguments (count : Text) : List Text :=
  ["-n".toList, count, "--seed".toList, "121".toList, "--no-defaults".toList, "-s".toList,
    "s".toList, "-r".toList, "s = a,<e>".toList, "-r".toList, "e =".toList]

/-- Two sentences, and the failure of the third. -/
def fragileReport : Report :=
  .ofSentences ["a ".toList, "a ".toList] (some (.noAlternatives "e".toList))

theorem output_stream_fragile :
    Request.ofArguments (fragileArguments "3".toList) = .run (fragile 3) .generate ∧
    Request.ofArguments (fragileArguments "9".toList) = .run (fragile 9) .generate ∧
    (fragile 3).seed = some 121 ∧ (fragile 3).count.getD 1 ≤ (fragile 9).count.getD 1 ∧
    Ends noFiles 0 (fragileArguments "3".toList) fragileReport ∧
    fragileReport.status = 1 ∧ fragileReport.output = "a \na \n".toList ∧
    (∀ entropy, Ends noFiles entropy (fragileArguments "9".toList) fragileReport) ∧
    ∃ g, (fragile 3).load noFiles = .ok g ∧ Reports g (.ofSeed 121) 3 fragileReport := by
  have hfewer : Request.ofArguments (fragileArguments "3".toList) = .run (fragile 3) .generate :=
    rfl
  have hmore : Request.ofArguments (fragileArguments "9".toList) = .run (fragile 9) .generate :=
    rfl
  have hle : (fragile 3).count.getD 1 ≤ (fragile 9).count.getD 1 := by decide
  obtain ⟨g, hload⟩ : ∃ g, (fragile 3).load noFiles = .ok g := ⟨_, rfl⟩
  have hends : Ends noFiles 0 (fragileArguments "3".toList) fragileReport := by
    refine (ends_generate_iff hfewer rfl).2 (.inr ⟨g, 9, _, _, hload, rfl, ?_⟩)
    cases hload
    decide +kernel
  obtain ⟨-, hfailed, hreports⟩ := output_stream hfewer hmore rfl hle hends
  exact ⟨hfewer, hmore, rfl, hle, hends, rfl, rfl, hfailed rfl, g, hload, hreports g hload⟩

end CommandLine

end Sentences
